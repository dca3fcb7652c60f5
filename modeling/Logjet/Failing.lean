/-
Writing to a sink that fails, at any call and with any part of the bytes
taken (`Sink.Holds`). `Contained` is what a call must meet for that not to show.
-/
import Logjet.Block

namespace Logjet

open LogjetWriter

structure Sink.Holds {W : Type} [Sink W] (held : W → Bytes) : Prop where
  ok : ∀ {buf w w'}, Sink.writeAll buf w = .ok () w' → held w' = held w ++ buf
  error : ∀ {buf w w' err}, Sink.writeAll buf w = .error err w' →
    ∃ n, held w' = held w ++ buf.take n

structure FailingSink where
  bytes : Bytes
  script : List (Option (Nat × IoError))
  deriving DecidableEq, Repr

instance : Sink FailingSink where
  writeAll buf sink := match sink.script with
    | some (n, err) :: script => .error err { bytes := sink.bytes ++ buf.take n, script }
    | none :: script => .ok () { bytes := sink.bytes ++ buf, script }
    | [] => .ok () { bytes := sink.bytes ++ buf, script := [] }

theorem FailingSink.holds : Sink.Holds FailingSink.bytes where
  ok := by
    intro buf ⟨bytes, script⟩ w' h
    match script with
    | some _ :: _ => cases h
    | none :: _ => cases h; rfl
    | [] => cases h; rfl
  error := by
    intro buf ⟨bytes, script⟩ w' err h
    match script with
    | some (n, _) :: _ => cases h; exact ⟨n, rfl⟩
    | none :: _ => cases h
    | [] => cases h

variable {W : Type} [Sink W] (x : External)

def LogjetWriter.store (record : OwnedRecord) : EStateM Error (LogjetWriter W) Unit := do
  let encoded ← encodeAgainstBase record
  let encoded ← splitBlock x record encoded
  appendEncoded encoded

def WriterOp.Fails (op : WriterOp) (w : LogjetWriter W) : Prop :=
  ∃ err w', match op with
    | .push record => LogjetWriter.push x record w = .error err w'
    | .flushBlock => LogjetWriter.flushBlock x w = .error err w'

def calls : List WriterOp → LogjetWriter W → List (WriterOp × LogjetWriter W)
  | [], _ => []
  | op :: ops, w => (op, w) :: calls ops (op.run x w).2

/-- A failed call leaves no block in the sink and no record behind. -/
structure Contained (limits : ReaderConfig) (held : W → Bytes)
    (data : Bytes) (op : WriterOp) (w : LogjetWriter W) : Prop where
  torn : op.Fails x w → ∀ q, (held w.inner).length ≤ q → q < (held (op.run x w).2.inner).length →
    ∀ records e, ¬ ValidBlock x limits data q records e
  unkept : ∀ record w₁, op = .push record → store x record w = .ok () w₁ →
    ∀ err w₂, flushIfFull x w₁ ≠ .error (.io err) w₂

end Logjet
