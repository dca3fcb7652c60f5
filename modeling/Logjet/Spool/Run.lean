/-
Runs of a file spool: calls that returned `Ok`, in any order, from a
directory without segments, which stay within what the reader can count
(`Legible`).
-/
import Logjet.Block
import Logjet.Spool.File

namespace Logjet

variable (x : External)

def Legible (d : Directory) (stem : Text) : Prop :=
  ∀ info ∈ listSegments d stem, ∀ content ∈ d.get? info.path, CountersFit x .default content

instance (d : Directory) (stem : Text) : Decidable (Legible x d stem) :=
  inferInstanceAs (Decidable (∀ info ∈ listSegments d stem, _))

namespace FileSpool

def readable (sp : FileSpool) : List WireRecord :=
  (listSegments sp.dir sp.baseStem).flatMap fun info =>
    scanRecords x .default ((sp.dir.get? info.path).getD []) 0

def Stores (sp : FileSpool) (r : WireRecord) : Prop :=
  ∃ sp', flushPending x sp = .ok () sp' ∧ r ∈ sp'.readable x

inductive Replays (sp : FileSpool) : FileReplayCursor → List WireRecord → FileReplayCursor → Prop
  | done {c c' : FileReplayCursor} (h : nextForCursor x sp c = .ok none c') : Replays sp c [] c'
  | more {c c₁ c' : FileReplayCursor} {record : WireRecord} {records : List WireRecord}
      (h : nextForCursor x sp c = .ok (some record) c₁)
      (tail : Replays sp c₁ records c') : Replays sp c (record :: records) c'

def Reopens (config : FileConfig) (sp sp' : FileSpool) : Prop :=
  ∃ fresh flushed, flushPending x sp = .ok () flushed ∧ openIn x config fresh (sp.drop x) = .ok sp'

inductive Filled (start : FileSpool) : List WireRecord → FileSpool → Prop
  | nil : Filled start [] start
  | append {appended : List WireRecord} {sp sp' : FileSpool}
      {r : WireRecord} (run : Filled start appended sp)
      (h : append x r sp = .ok () sp') : Filled start (appended ++ [r]) sp'
  | flushPending {appended : List WireRecord} {sp sp' : FileSpool} (run : Filled start appended sp)
      (h : flushPending x sp = .ok () sp') : Filled start appended sp'

inductive Run (config : FileConfig) : List WireRecord → FileSpool → Prop
  | start {fresh : UInt64} {d : Directory} {sp : FileSpool}
      (hnone : listSegments d (deriveBaseStem config.name) = [])
      (h : openIn x config fresh d = .ok sp) : Run config [] sp
  | append {appended : List WireRecord} {sp sp' : FileSpool}
      {r : WireRecord} (run : Run config appended sp)
      (h : append x r sp = .ok () sp') : Run config (appended ++ [r]) sp'
  | flushPending {appended : List WireRecord} {sp sp' : FileSpool} (run : Run config appended sp)
      (h : flushPending x sp = .ok () sp') : Run config appended sp'
  | rotate {appended : List WireRecord} {sp sp' : FileSpool} (run : Run config appended sp)
      (h : rotate x sp = .ok () sp') : Run config appended sp'
  | consumeThrough {appended : List WireRecord} {sp sp' : FileSpool}
      {seq : UInt64} (run : Run config appended sp) (hlegible : Legible x sp.dir sp.baseStem)
      (h : consumeThrough x seq sp = .ok () sp') : Run config appended sp'
  | reopen {appended : List WireRecord} {sp sp' : FileSpool} (run : Run config appended sp)
      (hlegible : Legible x (sp.drop x) sp.baseStem)
      (h : Reopens x config sp sp') : Run config appended sp'

end FileSpool

end Logjet
