/-
Trace clock to Unix time (src/plugins/perfetto-ingest/src/timestamp.rs). An
`i64` is an integer whose arithmetic traps when it leaves the range, as in a
debug build; `i128` is wide enough for what is computed in it.
-/
import Mathlib.Algebra.Order.Group.Int
import Logjet.Lib.Traps

namespace Logjet.Perfetto

open Trap

structure PerfettoClockSnapshot where
  ts : Int
  clockValue : Int
  deriving DecidableEq, Repr

inductive TimestampPolicy
  | requireRealtime
  | bestEffort
  deriving DecidableEq, Repr

/-- `sorted` is what `new` asks of its caller; the readers order by `ts`. -/
structure TimestampConverter where
  snapshots : List PerfettoClockSnapshot
  policy : TimestampPolicy
  sorted : snapshots.Pairwise fun a b => a.ts ≤ b.ts

def i64 (n : Int) : Except (Stop String) Int := do
  require (-2 ^ 63 ≤ n ∧ n < 2 ^ 63) .overflow
  return n

/-- The cast `as u64`. -/
def asU64 (n : Int) : Nat := (n % 2 ^ 64).toNat

def index {α : Type} (items : List α) (i : Nat) : Except (Stop String) α :=
  match items[i]? with
  | some item => .ok item
  | none => .error (.trapped .slice)

/-- On a partitioned list, as a sorted one is. -/
def partitionPoint {α : Type} (items : List α) (pred : α → Bool) : Nat :=
  (items.takeWhile pred).length

def TimestampConverter.toRealtime (self : TimestampConverter) (traceTs : Int) :
    Except (Stop String) (Option Nat) :=
  if self.snapshots.isEmpty then
    match self.policy with
    | .requireRealtime =>
      .error (.failed "no REALTIME clock snapshots available for timestamp conversion")
    | .bestEffort => .ok none
  else
    let idx := partitionPoint self.snapshots fun s => s.ts ≤ traceTs
    if idx = 0 then do
      let first ← index self.snapshots 0
      match self.policy with
      | .requireRealtime => .error (.failed ("trace timestamp " ++ toString traceTs
          ++ " is before first REALTIME snapshot at " ++ toString first.ts))
      | .bestEffort => do
        let delta ← i64 (first.ts - traceTs)
        let realtime ← i64 (first.clockValue - delta)
        return some (asU64 (max realtime 0))
    else if idx ≥ self.snapshots.length then do
      let last ← index self.snapshots (self.snapshots.length - 1)
      let delta ← i64 (traceTs - last.ts)
      let realtime ← i64 (last.clockValue + delta)
      return some (asU64 (max realtime 0))
    else do
      let prev ← index self.snapshots (idx - 1)
      let next ← index self.snapshots idx
      let rangeTs ← i64 (next.ts - prev.ts)
      let rangeRealtime ← i64 (next.clockValue - prev.clockValue)
      if rangeTs = 0 then return some (asU64 prev.clockValue)
      else do
        let offset ← i64 (traceTs - prev.ts)
        let realtime := prev.clockValue + (rangeRealtime * offset).tdiv rangeTs
        return some (asU64 (max realtime 0))

end Logjet.Perfetto
