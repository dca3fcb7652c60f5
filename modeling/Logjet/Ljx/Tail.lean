/-
From scanning a file to tailing it (src/ljx/src/commands/view/app.rs
`drain_scan_updates`, `start_tail_mode`; scan.rs `scan_matches_concat`,
`follow_appended_matches`), with one file without an index, in `concat` order.
The writing process, the scan thread, the screen and the follow thread take
turns.
-/
import Logjet.Ljx.Follow
import Logjet.Ljx.View

namespace Logjet.Ljx

inductive ScanUpdate
  | batch (entries : List EntryMeta)
  | finished (scanned matched : UInt64)
  | failed (err : LjxError)
  deriving DecidableEq, Repr

inductive ScanThread
  | opening
  | reading (reader : LogjetReader) (txBatch : List EntryMeta) (scanned matched : UInt64)
  | returned (result : Except LjxError (UInt64 × UInt64))
  | ended

inductive FollowThread
  | absent
  | opening
  | reading (reader : LogjetReader) (txBatch : List EntryMeta)
  | returned (result : Except LjxError Unit)

structure TailState where
  path : Text
  file : Bytes
  spool : Bytes
  scan : ScanThread
  rx : List ScanUpdate
  follow : FollowThread
  tailRx : List ScanUpdate
  entries : List EntryMeta
  finished : Bool
  tailOnLaunch : Bool
  tailMode : Bool

def TailState.start (path : Text) (file : Bytes) (tailOnLaunch : Bool) : TailState :=
  { path, file, spool := [], scan := .opening, rx := [], follow := .absent
    tailRx := [], entries := [], finished := false, tailOnLaunch
    tailMode := false }

def pushEntry (channel : List ScanUpdate) (txBatch : List EntryMeta)
    (entry : EntryMeta) : List ScanUpdate × List EntryMeta :=
  if scanBatchSize ≤ (txBatch ++ [entry]).length then
    (channel ++ [.batch (txBatch ++ [entry])], [])
  else (channel, txBatch ++ [entry])

def sendRest (channel : List ScanUpdate) (txBatch : List EntryMeta) : List ScanUpdate :=
  if txBatch.isEmpty then channel else channel ++ [.batch txBatch]

section

variable (x : External) (decode : DecodeLogs) (predicate : RecordPredicate)

def TailState.scanRecord (s : TailState) (record : OwnedRecord)
    (reader : LogjetReader) (txBatch : List EntryMeta) (scanned matched : UInt64) : TailState :=
  match lift (checkedAdd "view scanned" scanned 1) with
  | .error err => { s with scan := .returned (.error err) }
  | .ok scanned =>
    if predicate.matches decode record then
      let (entry, spool) := writeSpoolRecord s.spool record s.path
      let s := { s with spool }
      match lift (checkedAdd "view matched" matched 1) with
      | .error err => { s with scan := .returned (.error err) }
      | .ok matched =>
        let (rx, txBatch) := pushEntry s.rx txBatch entry
        { s with rx, scan := .reading reader txBatch scanned matched }
    else { s with scan := .reading reader txBatch scanned matched }

def TailState.scanStep (s : TailState) : TailState :=
  match s.scan with
  | .opening =>
    { s with
      scan := .reading (LogjetReader.withConfig s.file .default) [] 0 0 }
  | .reading reader txBatch scanned matched =>
    match nextRecord x { reader with data := s.file } with
    | .error err _ => { s with scan := .returned (lift (.error err)) }
    | .ok none _ =>
      { s with
        rx := sendRest s.rx txBatch
        scan := .returned (.ok (scanned, matched)) }
    | .ok (some record) reader =>
      s.scanRecord decode predicate record reader txBatch scanned matched
  | .returned (.ok (scanned, matched)) =>
    { s with rx := s.rx ++ [.finished scanned matched], scan := .ended }
  | .returned (.error err) => { s with rx := s.rx ++ [.failed err], scan := .ended }
  | .ended => s

def TailState.followRecord (s : TailState) (record : OwnedRecord)
    (reader : LogjetReader) (txBatch : List EntryMeta) : TailState :=
  if predicate.matches decode record then
    let (entry, spool) := writeSpoolRecord s.spool record s.path
    let (tailRx, txBatch) := pushEntry s.tailRx txBatch entry
    { s with spool, tailRx, follow := .reading reader txBatch }
  else { s with follow := .reading reader txBatch }

def TailState.followStep (s : TailState) : TailState :=
  match s.follow with
  | .absent => s
  | .opening => { s with follow := .reading (openAtEnd s.file) [] }
  | .reading reader txBatch =>
    match nextRecord x { reader with data := s.file } with
    | .error err _ => { s with follow := .returned (lift (.error err)) }
    | .ok none reader =>
      { s with
        tailRx := sendRest s.tailRx txBatch
        follow := .reading reader [] }
    | .ok (some record) reader => s.followRecord decode predicate record reader txBatch
  | .returned (.error err) => { s with tailRx := s.tailRx ++ [.failed err], follow := .absent }
  | .returned (.ok _) => { s with follow := .absent }

end

def TailState.startTailMode (s : TailState) : TailState :=
  if !s.finished then s
  else if s.tailMode then s
  else { s with tailMode := true, follow := .opening, tailRx := [] }

def TailState.stopTailMode (s : TailState) : TailState :=
  { s with tailMode := false, follow := .absent, tailRx := [] }

def TailState.applyUpdate (s : TailState) : ScanUpdate → TailState
  | .batch batch => { s with entries := s.entries ++ batch }
  | .finished _ _ => { s with finished := true }
  | .failed _ => { s with finished := true }

def ScanUpdate.isFailed : ScanUpdate → Bool
  | .failed _ => true
  | _ => false

def TailState.drain (s : TailState) : TailState :=
  let updates := s.rx ++ s.tailRx
  let s := updates.foldl TailState.applyUpdate { s with rx := [], tailRx := [] }
  let s := if updates.any ScanUpdate.isFailed then s.stopTailMode else s
  if s.tailOnLaunch && s.finished && !s.tailMode then
    { s with tailOnLaunch := false }.startTailMode
  else s

inductive TailEvent
  | append (block : Bytes)
  | scan
  | follow
  | drain
  | tailKey
  deriving DecidableEq, Repr

section

variable (x : External) (decode : DecodeLogs) (predicate : RecordPredicate)

def TailState.step (s : TailState) : TailEvent → TailState
  | .append block => { s with file := s.file ++ block }
  | .scan => s.scanStep x decode predicate
  | .follow => s.followStep x decode predicate
  | .drain => s.drain
  | .tailKey => s.startTailMode

def TailState.run (s : TailState) (events : List TailEvent) : TailState :=
  events.foldl (TailState.step x decode predicate) s

end

def appended (events : List TailEvent) : List Bytes :=
  events.filterMap fun event =>
    match event with
    | .append block => some block
    | _ => none

def TailState.unwatched (s : TailState) : Bool :=
  match s.scan, s.follow with
  | .opening, _ => false
  | .reading _ _ _ _, _ => false
  | _, .reading _ _ => false
  | _, _ => true

section

variable (x : External) (decode : DecodeLogs) (predicate : RecordPredicate)

def unwatched : List TailEvent → TailState → List Bytes
  | [], _ => []
  | event :: events, s =>
    (if s.unwatched then appended [event] else [])
      ++ unwatched events (s.step x decode predicate event)

structure TailState.CaughtUp (s : TailState) : Prop where
  follow : ∃ reader r', s.follow = .reading reader []
    ∧ nextRecord x { reader with data := s.file } = .ok none r'
  rx : s.rx = []
  tailRx : s.tailRx = []

end

end Logjet.Ljx
