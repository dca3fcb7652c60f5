/-
What a file spool is for: the list of the appended records, the highest
number consumed, and for each cursor the number it last returned.
-/
import Logjet.Lib.Transition
import Logjet.Spool.Run

namespace Logjet

inductive SpoolEvent
  | append (record : WireRecord)
  | consumeThrough (seq : UInt64)
  | newCursor (lastSeq : UInt64)
  | next (cursor : Nat) (found : Option WireRecord)
  | reopen
  deriving DecidableEq, Repr

def appendedBy (events : List SpoolEvent) : List WireRecord :=
  events.filterMap fun
    | .append record => some record
    | _ => none

structure ListLog where
  records : List WireRecord
  consumed : UInt64
  cursors : List UInt64
  deriving DecidableEq, Repr

namespace ListLog

def visible (log : ListLog) (lastSeq : UInt64) : List WireRecord :=
  log.records.filter fun r => lastSeq < r.seq ∧ log.consumed < r.seq

inductive Step : ListLog → SpoolEvent → ListLog → Prop
  | append {log : ListLog} (r : WireRecord) :
      Step log (.append r) { log with records := log.records ++ [r] }
  | consumeThrough {log : ListLog} (seq : UInt64) : Step log (.consumeThrough seq)
        { log with consumed := max seq log.consumed }
  | newCursor {log : ListLog} (lastSeq : UInt64) : Step log (.newCursor lastSeq)
        { log with cursors := log.cursors ++ [lastSeq] }
  | next {log : ListLog} {i : Nat} {lastSeq : UInt64} (h : log.cursors[i]? = some lastSeq) :
      Step log (.next i (log.visible lastSeq).head?)
        { log with
          cursors := log.cursors.set i
            (((log.visible lastSeq).head?.map OwnedRecord.seq).getD lastSeq) }
  | reopen {log : ListLog} : Step log .reopen log

end ListLog

structure Serving where
  spool : FileSpool
  cursors : List FileReplayCursor

inductive FileStep (x : External) (config : FileConfig)
    (Fit : Directory → Text → Prop) : Serving → SpoolEvent → Serving → Prop
  | append {sp sp₁ sp₂ : FileSpool} {cursors : List FileReplayCursor}
      {r : WireRecord} (happend : sp.append x r = .ok () sp₁)
      (hflush : sp₁.flushPending x = .ok () sp₂) :
      FileStep x config Fit ⟨sp, cursors⟩ (.append r) ⟨sp₂, cursors⟩
  | consumeThrough {sp sp' : FileSpool} {cursors : List FileReplayCursor}
      {seq : UInt64} (hfit : Fit sp.dir sp.baseStem) (h : sp.consumeThrough x seq = .ok () sp') :
      FileStep x config Fit ⟨sp, cursors⟩ (.consumeThrough seq) ⟨sp', cursors⟩
  | newCursor {sp : FileSpool} {cursors : List FileReplayCursor} (lastSeq : UInt64) :
      FileStep x config Fit ⟨sp, cursors⟩ (.newCursor lastSeq)
        ⟨sp, cursors ++ [FileSpool.replayCursorAfter lastSeq]⟩
  | next {sp : FileSpool} {cursors : List FileReplayCursor} {i : Nat}
      {c c' : FileReplayCursor} {found : Option WireRecord}
      (hcursor : cursors[i]? = some c) (hfit : Fit sp.dir sp.baseStem)
      (h : sp.nextForCursor x c = .ok found c') :
      FileStep x config Fit ⟨sp, cursors⟩ (.next i found) ⟨sp, cursors.set i c'⟩
  | reopen {sp sp' : FileSpool} {cursors : List FileReplayCursor}
      (hfit : Fit (sp.drop x) sp.baseStem) (h : sp.Reopens x config sp') :
      FileStep x config Fit ⟨sp, cursors⟩ .reopen ⟨sp', cursors⟩

end Logjet
