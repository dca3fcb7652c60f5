/-
Following a file as it grows (src/ljx/src/commands/view/scan.rs
`follow_appended_matches`). A poll that finds no block seeks to the end, and
the next may start inside a block, unless the file is `Whole` there.
-/
import Logjet.Block

namespace Logjet.Ljx

variable (x : External)

inductive FollowStep
  | write (bytes : Bytes)
  | poll
  deriving DecidableEq, Repr

def openAtEnd (data : Bytes) : LogjetReader :=
  { LogjetReader.withConfig data .default with pos := data.length }

def FollowStep.run (step : FollowStep) (r : LogjetReader) :
    Except Error (Option OwnedRecord × LogjetReader) :=
  match step with
  | .write bytes => .ok (none, { r with data := r.data ++ bytes })
  | .poll =>
    match nextRecord x r with
    | .ok record r' => .ok (record, r')
    | .error err _ => .error err

def follow : List FollowStep → LogjetReader → Except Error (List OwnedRecord × LogjetReader)
  | [], r => .ok ([], r)
  | step :: steps, r => do
      let (record, r) ← step.run x r
      let (later, r) ← follow steps r
      return (record.toList ++ later, r)

def written (steps : List FollowStep) : Bytes :=
  steps.flatMap fun step =>
    match step with
    | .write bytes => bytes
    | .poll => []

def polled : List FollowStep → LogjetReader → List LogjetReader
  | [], _ => []
  | step :: steps, r =>
    (if step = .poll then [r] else []) ++ match step.run x r with
        | .ok (_, r') => polled steps r'
        | .error _ => []

inductive Clear (data : Bytes) : Nat → Prop
  | done : Clear data data.length
  | block {p e : Nat} {records : List OwnedRecord} (hne : records ≠ [])
      (hvalid : ValidBlock x .default data p records e) : Clear data p
  | empty {p e : Nat} (hvalid : ValidBlock x .default data p [] e)
      (tail : Clear data e) : Clear data p

def Whole (r : LogjetReader) : Prop := r.pending = [] → Clear x r.data r.pos

end Logjet.Ljx
