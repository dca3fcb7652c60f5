/-
A buffer spool with the cursors that read it, under any order of calls,
those of `ListLog` but re-opening.
-/
import Logjet.Spool.Buffer
import Logjet.Spool.ListLog

namespace Logjet

structure BufferServing where
  spool : BufferSpool
  cursors : List BufferReplayCursor

inductive BufferStep : BufferServing → SpoolEvent → BufferServing → Prop
  | append {sp : BufferSpool} {cursors : List BufferReplayCursor} (r : WireRecord) :
      BufferStep ⟨sp, cursors⟩ (.append r) ⟨sp.append r, cursors⟩
  | consumeThrough {sp : BufferSpool} {cursors : List BufferReplayCursor} (seq : UInt64) :
      BufferStep ⟨sp, cursors⟩ (.consumeThrough seq) ⟨sp.consumeThrough seq, cursors⟩
  | newCursor {sp : BufferSpool} {cursors : List BufferReplayCursor} (lastSeq : UInt64) :
      BufferStep ⟨sp, cursors⟩ (.newCursor lastSeq) ⟨sp, cursors ++ [sp.replayCursorAfter lastSeq]⟩
  | next {sp : BufferSpool} {cursors : List BufferReplayCursor} {i : Nat}
      {c : BufferReplayCursor} (h : cursors[i]? = some c) :
      BufferStep ⟨sp, cursors⟩ (.next i (sp.nextForCursor c).1)
        ⟨sp, cursors.set i (sp.nextForCursor c).2⟩

def returnedTo (i : Nat) (events : List SpoolEvent) : List WireRecord :=
  events.filterMap fun
    | .next j found => if j = i then found else none
    | _ => none

def cursorStarts (events : List SpoolEvent) : List UInt64 :=
  events.filterMap fun
    | .newCursor lastSeq => some lastSeq
    | _ => none

end Logjet
