/-
A reader in use: `next_record` and `scan_next_block` (src/src/reader.rs) in any
order, and beside it a ledger, not part of the program, of every candidate the
search came to and the statistics it was tried with.
-/
import Logjet.Reader

namespace Logjet

structure Attempt where
  syncStart : Nat
  stats : ReaderStats
  deriving DecidableEq, Repr

structure AcceptedBlock where
  start : Nat
  frame : Frame
  payload : Bytes
  deriving DecidableEq, Repr

def AcceptedBlock.length (b : AcceptedBlock) : Nat := b.frame.endPos - b.start

variable (x : External)

def Attempt.accepted? (config : ReaderConfig) (data : Bytes) (a : Attempt) : Option AcceptedBlock :=
  match tryReadBlockAt x config data a.syncStart a.stats with
  | .error _ _ => none
  | .ok _ _ =>
    match readFrame x config data a.syncStart with
    | .error _ => none
    | .ok frame =>
      match frame.header.codec.decompress x frame.compressed frame.header.uncompressedLen.toNat with
      | .error _ => none
      | .ok payload => some ⟨a.syncStart, frame, payload⟩

def scanAttempts (r : LogjetReader) : List Attempt :=
  match _hsync : findNextSync r.config.syncMarker r.data r.pos with
  | none => []
  | some syncStart =>
    ⟨syncStart, r.stats⟩ :: match tryReadBlockAt x r.config r.data syncStart r.stats with
      | .ok _ _ => []
      | .error err stats =>
        if err.isFatal then []
        else
          match checkedAdd "blocks_bad" stats.blocksBad 1 with
          | .error _ => []
          | .ok blocksBad =>
            scanAttempts { r with
              pos := syncStart + 1
              stats := { stats with blocksBad := blocksBad } }
termination_by r.data.length - r.pos
decreasing_by
  have hp := findNextSync_bounds _hsync
  omega

def nextAttempts (r : LogjetReader) : List Attempt :=
  match r.pending with
  | _ :: _ => []
  | [] =>
    scanAttempts x r ++ match _hscan : scanNextBlock x r with
      | .ok true r' => nextAttempts r'
      | _ => []
termination_by r.data.length - r.pos
decreasing_by
  obtain ⟨hdata, -, hfwd, hin⟩ := scanLoop_true x _hscan
  rw [hdata]
  omega

inductive ReadCall
  | nextRecord
  | scanNextBlock
  deriving DecidableEq, Repr

inductive ReadOutcome
  | record (record : OwnedRecord)
  | block
  | finished
  | failed (err : Error)
  deriving DecidableEq, Repr

namespace ReadCall

def run (call : ReadCall) (r : LogjetReader) : ReadOutcome × LogjetReader :=
  match call with
  | .nextRecord =>
    match Logjet.nextRecord x r with
    | .ok (some record) r' => (.record record, r')
    | .ok none r' => (.finished, r')
    | .error err r' => (.failed err, r')
  | .scanNextBlock =>
    match Logjet.scanNextBlock x r with
    | .ok true r' => (.block, r')
    | .ok false r' => (.finished, r')
    | .error err r' => (.failed err, r')

def attempts (call : ReadCall) (r : LogjetReader) : List Attempt :=
  match call with
  | .nextRecord => nextAttempts x r
  | .scanNextBlock => scanAttempts x r

end ReadCall

structure Reading where
  reader : LogjetReader
  attempts : List Attempt
  outcomes : List ReadOutcome
  deriving DecidableEq, Repr

namespace Reading

def start (data : Bytes) (config : ReaderConfig) : Reading :=
  ⟨LogjetReader.withConfig data config, [], []⟩

def call (reading : Reading) (call : ReadCall) : Reading where
  reader := (call.run x reading.reader).2
  attempts := reading.attempts ++ call.attempts x reading.reader
  outcomes := reading.outcomes ++ [(call.run x reading.reader).1]

def of (data : Bytes) (config : ReaderConfig) (calls : List ReadCall) : Reading :=
  calls.foldl (call x) (start data config)

def accepted (reading : Reading) : List AcceptedBlock :=
  reading.attempts.filterMap
    (Attempt.accepted? x reading.reader.config reading.reader.data)

def returned (reading : Reading) : List OwnedRecord :=
  reading.outcomes.filterMap fun
    | .record record => some record
    | _ => none

def Failed (reading : Reading) : Prop := ∃ err, ReadOutcome.failed err ∈ reading.outcomes

end Reading

end Logjet
