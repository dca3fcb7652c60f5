/-
The buffers and queues a reader asks for (src/src/reader.rs), in bytes.

`try_read_block_at` and `parse_records` are here once more, with a note of
each capacity at the place where the source asks for it. What
`self.pending.extend(records)` asks for depends on what the reader still
holds from earlier blocks, so it is noted for each call of the reader:
the room for all records queued after an accepted block. A `VecDeque`
that has to grow may ask for up to twice its old capacity; the note is
what it needs. What the decompressors allocate inside is theirs.
-/
import Logjet.Attempts
import Logjet.Lib.Logged

namespace Logjet

open LittleEndian Logged

inductive Buffer
  | extension
  | headerCrcInput
  | compressed
  | blockCrcInput
  | payload
  | recordQueue
  | recordPayload
  | pendingQueue
  deriving DecidableEq, Repr

variable (x : External)

/-- Records in the queue after the block that `scan_next_block` accepts. -/
def scanQueued (r : LogjetReader) : List Nat :=
  match scanNextBlock x r with
  | .ok true r' => [r'.pending.length]
  | _ => []

/-- The same after each block that one `next_record` accepts: it scans on
while a block brings no record. -/
def nextQueued (r : LogjetReader) : List Nat :=
  match r.pending with
  | _ :: _ => []
  | [] =>
    match _hscan : scanNextBlock x r with
    | .ok true r' => r'.pending.length :: nextQueued r'
    | _ => []
termination_by r.data.length - r.pos
decreasing_by
  obtain ⟨hdata, -, hfwd, hin⟩ := scanLoop_true x _hscan
  rw [hdata]
  omega

def ReadCall.queued (call : ReadCall) (r : LogjetReader) : List Nat :=
  match call with
  | .nextRecord => nextQueued x r
  | .scanNextBlock => scanQueued x r

namespace Reading

def queuedFrom (reading : Reading) : List ReadCall → List Nat
  | [] => []
  | call :: calls =>
    call.queued x reading.reader ++ queuedFrom (reading.call x call) calls

def queued (data : Bytes) (config : ReaderConfig) (calls : List ReadCall) :
    List Nat :=
  queuedFrom x (start data config) calls

end Reading

end Logjet
