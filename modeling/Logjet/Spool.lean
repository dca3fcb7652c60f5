/-
The spool a daemon opens (spool.rs `Spool`), in memory or in files; a
cursor of the other kind is an error.
-/
import Logjet.Spool.Buffer

namespace Logjet

variable (x : External)

inductive StorageConfig
  | buffer (config : BufferConfig)
  | file (config : FileConfig)
  deriving DecidableEq, Repr

inductive Spool
  | buffer (spool : BufferSpool)
  | file (spool : FileSpool)
  deriving Repr

inductive ReplayCursor
  | buffer (cursor : BufferReplayCursor)
  | file (cursor : FileReplayCursor)
  deriving DecidableEq, Repr

namespace Spool

def mapResult {α σ τ : Type} (f : σ → τ) : EStateM.Result IoError σ α → EStateM.Result IoError τ α
  | .ok a s => .ok a (f s)
  | .error err s => .error err (f s)

def openIn (config : StorageConfig) (fresh : UInt64) (dir : Directory) : Except IoError Spool :=
  match config with
  | .buffer config => .ok (.buffer (BufferSpool.new config fresh))
  | .file config => (FileSpool.openIn x config fresh dir).map .file

def append (record : WireRecord) : EStateM IoError Spool Unit
  | .buffer spool => .ok () (.buffer (spool.append record))
  | .file spool => mapResult .file (FileSpool.append x record spool)

def replayCursorAfter (self : Spool) (lastSeq : UInt64) : ReplayCursor :=
  match self with
  | .buffer spool => .buffer (spool.replayCursorAfter lastSeq)
  | .file _ => .file (FileSpool.replayCursorAfter lastSeq)

def nextForCursor (self : Spool) : EStateM IoError ReplayCursor (Option WireRecord) :=
  fun cursor =>
  match self, cursor with
  | .buffer spool, .buffer cursor =>
    let (record, cursor) := spool.nextForCursor cursor
    .ok record (.buffer cursor)
  | .file spool, .file cursor => mapResult .file (FileSpool.nextForCursor x spool cursor)
  | .buffer _, .file cursor => .error
      ⟨.invalidInput, "replay cursor type does not match spool type"⟩ (.file cursor)
  | .file _, .buffer cursor => .error
      ⟨.invalidInput, "replay cursor type does not match spool type"⟩ (.buffer cursor)

def consumeThrough (seq : UInt64) : EStateM IoError Spool Unit
  | .buffer spool => .ok () (.buffer (spool.consumeThrough seq))
  | .file spool => mapResult .file (FileSpool.consumeThrough x seq spool)

def flushPending : EStateM IoError Spool Unit
  | .buffer spool => .ok () (.buffer spool)
  | .file spool => mapResult .file (FileSpool.flushPending x spool)

def streamId : Spool → UInt64
  | .buffer spool => spool.streamId
  | .file spool => spool.streamId

def sequenceBounds : Spool → Except IoError (Option (UInt64 × UInt64))
  | .buffer spool => .ok spool.sequenceBounds
  | .file spool => FileSpool.sequenceBounds x spool

def nextSequenceSeed (self : Spool) : Except IoError UInt64 := do
  let lastSeq := match ← self.sequenceBounds x with
    | some (_firstSeq, lastSeq) => lastSeq
    | none => 0
  if lastSeq.toNat + 1 < 2 ^ 64 then return lastSeq + 1
  else throw ⟨.invalidData, "sequence seed overflow"⟩

end Spool

end Logjet
