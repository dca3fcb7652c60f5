/-
`ljx filter` (src/ljx/src/commands/filter.rs). The input is in memory and
the output the sequence of `write_all` calls; opening, creating and
flushing the two files is left out.
-/
import Logjet.Reader
import Logjet.Writer
import Logjet.Ljx.Predicate

namespace Logjet.Ljx

variable (x : External) (decode : DecodeLogs) (predicate : RecordPredicate)

def filterLoop {W : Type} [Sink W] (r : LogjetReader)
    (w : LogjetWriter W) : Except Error (LogjetWriter W) :=
  match _hnext : nextRecord x r with
  | .error err _ => .error err
  | .ok none _ => .ok w
  | .ok (some record) r' =>
    if predicate.matches decode record then
      match LogjetWriter.push x record w with
      | .error err _ => .error err
      | .ok () w' => filterLoop r' w'
    else filterLoop r' w
termination_by r.remaining
decreasing_by
  all_goals exact nextRecord_uses x _hnext

def filterConfig (blockTargetSize : Nat) (codec : Codec) : WriterConfig :=
  { WriterConfig.default with blockTargetSize, codec }

def filterRun (blockTargetSize : Nat) (codec : Codec) (data : Bytes) :
    Except Error (List Bytes) := do
  let writer ← filterLoop x decode predicate (LogjetReader.withConfig data .default)
    (LogjetWriter.inMemory (filterConfig blockTargetSize codec))
  writer.intoInner x

end Logjet.Ljx
