/-
The daemon between its senders and one replay client (daemon.rs), with a
buffer spool that nothing is evicted from. OTLP handlers draw a number and
append later; wire handlers append under their client's number.
-/
import Mathlib.Logic.Function.Basic
import Logjet.Lib.Transition
import Logjet.Spool.Buffer

namespace Logjet

structure Batch where
  recordType : RecordType
  tsUnixNs : UInt64
  payload : Bytes
  deriving DecidableEq, Repr

def Batch.record (batch : Batch) (seq : UInt64) : WireRecord :=
  { recordType := batch.recordType, seq, tsUnixNs := batch.tsUnixNs
    payload := batch.payload }

structure Daemon (ι κ : Type) where
  nextSeq : UInt64
  spool : BufferSpool
  numbered : ι → Option WireRecord
  frames : κ → List WireRecord
  cursor : Option BufferReplayCursor

namespace Daemon

variable {ι κ : Type}

def start (spool : BufferSpool) (nextSeq : UInt64) (frames : κ → List WireRecord) : Daemon ι κ :=
  { nextSeq, spool, numbered := fun _ => none, frames, cursor := none }

end Daemon

inductive IngestEvent (ι κ : Type)
  | number (handler : ι) (batch : Batch)
  | append (handler : ι) (record : WireRecord)
  | appendFrame (client : κ) (record : WireRecord)
  | dropFrame (client : κ) (record : WireRecord)
  | request
  | next (found : Option WireRecord)

variable {ι κ : Type}

def acceptedBy (events : List (IngestEvent ι κ)) : List WireRecord :=
  events.filterMap fun
    | .append _ record => some record
    | .appendFrame _ record => some record
    | _ => none

def deliveredBy (events : List (IngestEvent ι κ)) : List WireRecord :=
  events.filterMap fun
    | .next found => found
    | _ => none

def BufferSpool.Admits (sp : BufferSpool) (record : WireRecord) : Prop :=
  (sp.append record).records = sp.records ++ [record]

instance (sp : BufferSpool) (record : WireRecord) : Decidable (sp.Admits record) :=
  inferInstanceAs (Decidable (_ = _))

variable [DecidableEq ι] [DecidableEq κ]

inductive IngestStep : Daemon ι κ → IngestEvent ι κ → Daemon ι κ → Prop
  | number {d : Daemon ι κ} {i : ι} (batch : Batch) (hidle : d.numbered i = none) :
      IngestStep d (.number i batch)
        { d with
          nextSeq := d.nextSeq + 1
          numbered := Function.update d.numbered i
            (some (batch.record d.nextSeq)) }
  | append {d : Daemon ι κ} {i : ι} {r : WireRecord}
      (hnumbered : d.numbered i = some r) (hroom : d.spool.Admits r) : IngestStep d (.append i r)
        { d with spool := d.spool.append r
                 numbered := Function.update d.numbered i none }
  | appendFrame {d : Daemon ι κ} {k : κ} {r : WireRecord}
      {rest : List WireRecord} (hframe : d.frames k = r :: rest) (hroom : d.spool.Admits r) :
      IngestStep d (.appendFrame k r)
        { d with spool := d.spool.append r
                 frames := Function.update d.frames k rest }
  | dropFrame {d : Daemon ι κ} {k : κ} {r : WireRecord}
      {rest : List WireRecord} (hframe : d.frames k = r :: rest) : IngestStep d (.dropFrame k r)
        { d with frames := Function.update d.frames k rest }
  | request {d : Daemon ι κ} (hfirst : d.cursor = none) : IngestStep d .request
        { d with cursor := some (d.spool.replayCursorAfter 0) }
  | next {d : Daemon ι κ} {c : BufferReplayCursor} (hcursor : d.cursor = some c) :
      IngestStep d (.next (d.spool.nextForCursor c).1)
        { d with cursor := some (d.spool.nextForCursor c).2 }

end Logjet
