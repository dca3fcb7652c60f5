/-
The records `ljx view` shows (src/ljx/src/commands/view/scan.rs,
types.rs). In the merged orders each file holds back its next matching
record, and a heap of their keys says whose turn it is: a list in any order,
of which `pop` finds a least one.
-/
import Mathlib.Algebra.BigOperators.Group.List.Basic
import Mathlib.Data.List.MinMax
import Mathlib.Data.Prod.Lex
import Logjet.Ljx.Discover

namespace Logjet.Ljx

open EStateM

inductive ViewOrder
  | concat
  | mergeSeq
  | mergeTs
  deriving DecidableEq, Repr

def scanBatchSize : Nat := 128

structure EntryMeta where
  offset : Nat
  recordType : RecordType
  seq : UInt64
  tsUnixNs : UInt64
  payloadLen : Nat
  sourcePath : Text
  deriving DecidableEq, Repr

structure DetailRecord where
  entry : EntryMeta
  payload : Bytes
  deriving DecidableEq, Repr

def spoolHeader (record : OwnedRecord) : Bytes :=
  record.recordType.toU8 :: (LittleEndian.u64 record.seq ++ LittleEndian.u64 record.tsUnixNs
    ++ LittleEndian.u64 (UInt64.ofNat record.payload.length))

def writeSpoolRecord (spool : Bytes) (record : OwnedRecord)
    (sourcePath : Text) : EntryMeta × Bytes :=
  ({ offset := spool.length
     recordType := record.recordType
     seq := record.seq
     tsUnixNs := record.tsUnixNs
     payloadLen := record.payload.length
     sourcePath }, spool ++ spoolHeader record ++ record.payload)

def readSpoolRecord (spool : Bytes) (entry : EntryMeta) : Except LjxError DetailRecord := do
  let (payload, _) ← lift (readExact spool (entry.offset + 1 + 8 + 8 + 8) entry.payloadLen)
  return { entry, payload }

structure MergeItem where
  key : UInt64 × UInt64 × Nat × UInt64
  streamIdx : Nat
  deriving DecidableEq, Repr

def mergeKey (order : ViewOrder) (record : OwnedRecord) (streamIdx : Nat)
    (serial : UInt64) : UInt64 × UInt64 × Nat × UInt64 :=
  match order with
  | .concat => (serial, 0, streamIdx, serial)
  | .mergeSeq => (record.seq, record.tsUnixNs, streamIdx, serial)
  | .mergeTs => (record.tsUnixNs, record.seq, streamIdx, serial)

def MergeItem.rank (item : MergeItem) : ℕ ×ₗ ℕ ×ₗ ℕ ×ₗ ℕ ×ₗ ℕ :=
  toLex (item.key.1.toNat, toLex (item.key.2.1.toNat,
    toLex (item.key.2.2.1, toLex (item.key.2.2.2.toNat, item.streamIdx))))

def heapPop (heap : List MergeItem) : Option (MergeItem × List MergeItem) :=
  (heap.argmin MergeItem.rank).map fun item => (item, heap.erase item)

structure StreamState where
  idx : Nat
  path : Text
  reader : LogjetReader
  pending : Option OwnedRecord

structure Advanced where
  item : Option MergeItem
  stream : StreamState
  scanned : UInt64
  serial : UInt64

section

variable (x : External) (decode : DecodeLogs) (predicate : RecordPredicate) (order : ViewOrder)

def StreamState.open (sys : Surroundings) (files : Directory) (idx : Nat)
    (path : Text) : Except LjxError StreamState := do
  let data ← readInput sys files path
  return { idx, path, reader := .withConfig data .default, pending := none }

def StreamState.advance (s : StreamState) (scanned serial : UInt64) : Except LjxError Advanced :=
  match _hnext : nextRecord x s.reader with
  | .error err _ => lift (.error err)
  | .ok none reader => .ok ⟨none, { s with reader, pending := none }, scanned, serial⟩
  | .ok (some record) reader =>
    match lift (checkedAdd "view scanned" scanned 1) with
    | .error err => .error err
    | .ok scanned =>
      if !predicate.matches decode record then
        StreamState.advance { s with reader } scanned serial
      else
        match lift (checkedAdd "view merge serial" serial 1) with
        | .error err => .error err
        | .ok serial' =>
          .ok ⟨some ⟨mergeKey order record s.idx serial, s.idx⟩,
            { s with reader, pending := some record }, scanned, serial'⟩
termination_by s.reader.remaining
decreasing_by exact nextRecord_uses x _hnext

variable {s : StreamState} {item : MergeItem} {m m' : MergeState} {streamIdx : Nat}

theorem StreamState.advance_uses {scanned serial : UInt64} {next : Advanced}
    (h : s.advance x decode predicate order scanned serial = .ok next) :
    next.stream.reader.remaining + next.item.toList.length ≤ s.reader.remaining := by
  fun_induction StreamState.advance x decode predicate order s scanned serial with
  | case1 s _ err => cases err <;> cases h
  | case2 s _ reader hnext =>
    cases h
    obtain ⟨hdata, -, hpos, hempty⟩ := nextRecord_none x hnext
    simp [LogjetReader.remaining, hdata, hpos, hempty]
  | case3 => cases h
  | case4 s _ record reader hnext _ _ _ ih =>
    exact Nat.le_trans (ih h) (Nat.le_of_lt (nextRecord_uses x hnext))
  | case5 => cases h
  | case6 s _ record reader hnext =>
    cases h
    exact nextRecord_uses x hnext

structure MergeState where
  streams : List StreamState
  heap : List MergeItem
  spool : Bytes
  txBatch : List EntryMeta
  sent : List (List EntryMeta)
  scanned : UInt64
  matched : UInt64
  serial : UInt64

def MergeState.start (spool : Bytes) : MergeState :=
  { streams := [], heap := [], spool, txBatch := [], sent := []
    scanned := 0, matched := 0, serial := 0 }

def MergeState.send (m : MergeState) : MergeState :=
  { m with txBatch := [], sent := m.sent ++ [m.txBatch] }

def MergeState.stream (m : MergeState) (streamIdx : Nat) : Except LjxError StreamState :=
  m.streams[streamIdx]?.elim (.error .panicked) .ok

def advanceStream (streamIdx : Nat) : EStateM LjxError MergeState Unit := do
  let m ← get
  let stream ← EStateM.ofExcept (m.stream streamIdx)
  let next ← EStateM.ofExcept (stream.advance x decode predicate order m.scanned m.serial)
  set { m with
    streams := m.streams.set streamIdx next.stream
    heap := next.item.toList ++ m.heap
    scanned := next.scanned
    serial := next.serial }

def emitRecord (record : OwnedRecord) (path : Text) : EStateM LjxError MergeState Unit := do
  modify fun m => { m with
    spool := (writeSpoolRecord m.spool record path).2
    txBatch := m.txBatch ++ [(writeSpoolRecord m.spool record path).1] }
  let m ← get
  let matched ← EStateM.ofExcept (lift (checkedAdd "view matched" m.matched 1))
  set { m with matched }
  modify fun m => if scanBatchSize ≤ m.txBatch.length then m.send else m

def takeItem (item : MergeItem) : EStateM LjxError MergeState Unit := do
  let m ← get
  let stream ← EStateM.ofExcept (m.stream item.streamIdx)
  match stream.pending with
  | none => return ()
  | some record =>
    set { m with
      streams := m.streams.set item.streamIdx
        { stream with pending := none } }
    emitRecord record stream.path
    advanceStream x decode predicate order item.streamIdx

def mergeStep : EStateM LjxError MergeState Bool := do
  let m ← get
  match heapPop m.heap with
  | none => return false
  | some (item, heap) =>
    set { m with heap }
    takeItem x decode predicate order item
    return true

def MergeState.remaining (m : MergeState) : Nat :=
  (m.streams.map fun s => s.reader.remaining).sum + m.heap.length

theorem heapPop_length {heap rest : List MergeItem}
    (h : heapPop heap = some (item, rest)) : rest.length + 1 = heap.length := by
  obtain ⟨least, hleast, heq⟩ := Option.map_eq_some_iff.mp h
  cases heq
  have hmem := List.argmin_mem (Option.mem_def.mpr hleast)
  rw [List.length_erase_of_mem hmem]
  have hpos := List.length_pos_of_mem hmem
  omega

theorem MergeState.stream_eq_ok_iff :
    m.stream streamIdx = .ok s ↔ m.streams[streamIdx]? = some s := by
  rw [MergeState.stream]
  cases m.streams[streamIdx]? with
  | none => simp
  | some s' => simp

theorem advanceStream_uses (h : advanceStream x decode predicate order streamIdx m = .ok () m') :
    m'.remaining ≤ m.remaining := by
  simp only [advanceStream, get_bind, ofExcept_bind_eq_ok_iff, MergeState.stream_eq_ok_iff] at h
  obtain ⟨stream, hstream, next, hnext, hset⟩ := h
  cases hset
  have huses := StreamState.advance_uses x decode predicate order hnext
  have hsum := @WorkPool.sum_map_set _ (fun s => s.reader.remaining) _ _ _
    next.stream hstream
  simp only [MergeState.remaining, List.length_append]
  omega

theorem emitRecord_keeps {record : OwnedRecord} {path : Text}
    (h : emitRecord record path m = .ok () m') : m'.remaining = m.remaining := by
  simp only [emitRecord, modify_bind, get_bind, ofExcept_bind_eq_ok_iff, set_bind] at h
  obtain ⟨matched, -, hsend⟩ := h
  cases hsend
  dsimp only
  split
  · rfl
  · rfl

theorem takeItem_uses
    (h : takeItem x decode predicate order item m = .ok () m') : m'.remaining ≤ m.remaining := by
  simp only [takeItem, get_bind, ofExcept_bind_eq_ok_iff, MergeState.stream_eq_ok_iff] at h
  obtain ⟨stream, hstream, h⟩ := h
  cases hpending : stream.pending with
  | none =>
    rw [hpending] at h
    cases h
    exact Nat.le_refl _
  | some record =>
    rw [hpending] at h
    simp only [set_bind, bind_eq_ok_iff] at h
    obtain ⟨_, m₁, hemit, hadvance⟩ := h
    have huses := advanceStream_uses x decode predicate order hadvance
    rw [emitRecord_keeps hemit] at huses
    have hsum := @WorkPool.sum_map_set _ (fun s => s.reader.remaining) _ _
      _ { stream with pending := none } hstream
    simp only [MergeState.remaining] at huses hsum ⊢
    omega

theorem mergeStep_uses
    (h : mergeStep x decode predicate order m = .ok true m') : m'.remaining < m.remaining := by
  rw [mergeStep, get_bind] at h
  cases hpop : heapPop m.heap with
  | none =>
    rw [hpop] at h
    cases h
  | some popped =>
    rw [hpop] at h
    simp only [set_bind, bind_eq_ok_iff] at h
    obtain ⟨_, m₁, htake, hret⟩ := h
    cases hret
    have huses := takeItem_uses x decode predicate order htake
    have hlength := heapPop_length hpop
    simp only [MergeState.remaining] at huses ⊢
    omega

def mergeLoop (m : MergeState) : EStateM.Result LjxError MergeState Unit :=
  match _hstep : mergeStep x decode predicate order m with
  | .error err m => .error err m
  | .ok false m => .ok () m
  | .ok true m => mergeLoop m
termination_by m.remaining
decreasing_by exact mergeStep_uses x decode predicate order _hstep

def openStreams (sys : Surroundings) (files : Directory)
    (entries : List DatasetEntry) : Except LjxError (List StreamState) :=
  ((entries.filter fun entry => entry.index.all fun index =>
      index.summary.mayMatch predicate).zipIdx).mapM
    fun (entry, idx) => StreamState.open sys files idx entry.path

def scanMatchesMerged (sys : Surroundings) (files : Directory) (entries : List DatasetEntry) :
    EStateM LjxError MergeState (UInt64 × UInt64) := do
  let streams ← EStateM.ofExcept (openStreams predicate sys files entries)
  modify fun m => { m with streams }
  (List.range streams.length).forM (advanceStream x decode predicate order)
  mergeLoop x decode predicate order
  modify fun m => if m.txBatch.isEmpty then m else m.send
  let m ← get
  return (m.scanned, m.matched)

end

end Logjet.Ljx
