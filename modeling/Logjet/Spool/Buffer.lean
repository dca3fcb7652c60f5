/-
The in-memory spool (spool.rs `BufferSpool`): it keeps its first
`keep_messages` records and the newest. A cursor takes the record at its
index when the one before is still at or below its number, and searches
from the front when it is not.
-/
import Logjet.Spool.File

namespace Logjet

def usizeMax : Nat := 2 ^ 64 - 1

inductive BufferLimit
  | bytes (maxBytes : Nat)
  | messages (maxMessages : Nat)
  deriving DecidableEq, Repr

structure BufferConfig where
  limit : BufferLimit
  keepMessages : Nat
  deriving DecidableEq, Repr

structure BufferSpool where
  streamId : UInt64
  limit : BufferLimit
  keepMessages : Nat
  records : List WireRecord
  tailBytes : Nat
  deriving DecidableEq, Repr

structure BufferReplayCursor where
  nextIndex : Nat
  lastSeq : UInt64
  deriving DecidableEq, Repr

def recordSize (record : WireRecord) : Nat := min (1 + 8 + 8 + 4 + record.payload.length) usizeMax

namespace BufferSpool

def new (config : BufferConfig) (fresh : UInt64) : BufferSpool :=
  { streamId := fresh, limit := config.limit
    keepMessages := config.keepMessages, records := [], tailBytes := 0 }

def tailLen (self : BufferSpool) : Nat := self.records.length - self.keepMessages

def overLimit (self : BufferSpool) : Bool :=
  match self.limit with
  | .bytes maxBytes => self.tailBytes > maxBytes
  | .messages maxMessages => self.tailLen > maxMessages

def enforceLimits (self : BufferSpool) : BufferSpool :=
  if h : self.overLimit = true ∧ self.records.length > self.keepMessages then
    enforceLimits { self with
      records := self.records.eraseIdx self.keepMessages
      tailBytes := self.tailBytes
        - recordSize (self.records.get ⟨self.keepMessages, h.2⟩) }
  else self
termination_by self.records.length
decreasing_by
  simp only [List.length_eraseIdx, if_pos h.2]
  omega

def recalculateTailBytes (self : BufferSpool) : BufferSpool :=
  { self with
    tailBytes := ((self.records.drop self.keepMessages).map recordSize).sum }

def append (record : WireRecord) (self : BufferSpool) : BufferSpool :=
  let wasTail := self.records.length ≥ self.keepMessages
  enforceLimits { self with
    records := self.records ++ [record]
    tailBytes :=
      if wasTail then min (self.tailBytes + recordSize record) usizeMax
      else self.tailBytes }

def replayCursorAfter (self : BufferSpool) (lastSeq : UInt64) : BufferReplayCursor :=
  { nextIndex := (self.records.findIdx? fun record => record.seq > lastSeq).getD self.records.length
    lastSeq }

def indexStillAligned (self : BufferSpool) (cursor : BufferReplayCursor) : Bool :=
  match cursor.nextIndex with
  | 0 => true
  | value + 1 =>
    match self.records[value]? with
    | some record => record.seq ≤ cursor.lastSeq
    | none => false

def recordAtCursor (self : BufferSpool) (cursor : BufferReplayCursor) : Option WireRecord :=
  if self.indexStillAligned cursor then
    self.records[cursor.nextIndex]?.filter fun record => record.seq > cursor.lastSeq
  else none

def nextForCursor (self : BufferSpool) (cursor : BufferReplayCursor) :
    Option WireRecord × BufferReplayCursor :=
  match self.recordAtCursor cursor with
  | some record =>
    (some record, { nextIndex := cursor.nextIndex + 1
                    lastSeq := record.seq })
  | none =>
    match self.records.findIdx? fun record =>
        record.seq > cursor.lastSeq with
    | none => (none, cursor)
    | some nextIndex =>
      match self.records[nextIndex]? with
      | none => (none, cursor)
      | some record =>
        (some record, { nextIndex := nextIndex + 1
                        lastSeq := record.seq })

def consumeThrough (seq : UInt64) (self : BufferSpool) : BufferSpool :=
  recalculateTailBytes { self with
    records := self.records.dropWhile fun record => record.seq ≤ seq }

def sequenceBounds (self : BufferSpool) : Option (UInt64 × UInt64) := do
  let first ← self.records.head?
  let last ← self.records.getLast?
  return (first.seq, last.seq)

end BufferSpool

end Logjet
