/-
What a crash can leave of a file spool: of a file replaced by `fs::write`
any beginning of the new text, of the segments anything, of other files
what the last completed write left.
-/
import Logjet.Spool.Run

namespace Logjet

def Directory.Torn (stem : Text) (d d' : Directory) : Prop :=
  (∀ name, parseSegmentId name stem = none → d'.get? name = d.get? name)
    ∧ (listSegments d' stem).Pairwise (fun a b => a.id < b.id)
    ∧ ∀ info ∈ listSegments d' stem, info.path = segmentPath stem info.id

namespace FileSpool

variable (x : External)

inductive Crash (config : FileConfig) : Directory → UInt64 → Prop
  | running {appended : List WireRecord} {sp : FileSpool} {d : Directory}
      (run : Run x config appended sp) (torn : Directory.Torn sp.baseStem sp.dir d) :
      Crash config d sp.consumedThroughSeq
  | consuming {appended : List WireRecord} {sp : FileSpool}
      {d : Directory} {seq : UInt64} {text : Text}
      (run : Run x config appended sp) (above : sp.consumedThroughSeq < seq)
      (part : text <+: toText seq) (torn : Directory.Torn sp.baseStem
        (sp.dir.write sp.statePath (utf8 text)) d) : Crash config d seq
  | opening {fresh : UInt64} {start d : Directory} {sp : FileSpool} {text : Text}
      (hnone : listSegments start (deriveBaseStem config.name) = [])
      (hopen : openIn x config fresh start = .ok sp) (hnew : ¬ start.has (deriveBaseStem config.name
        ++ ".stream-id".toList)) (part : text <+: toText fresh)
      (torn : Directory.Torn (deriveBaseStem config.name) (start.write
        (deriveBaseStem config.name ++ ".stream-id".toList) (utf8 text)) d) :
      Crash config d sp.consumedThroughSeq

end FileSpool

end Logjet
