/-
Runs of a labelled transition system, with their events in order.
-/
import Mathlib.Data.List.Basic

namespace Transition

variable {σ ε : Type}

inductive Run (step : σ → ε → σ → Prop) (start : σ) : List ε → σ → Prop
  | nil : Run step start [] start
  | snoc {events : List ε} {s t : σ} {e : ε} (run : Run step start events s)
      (h : step s e t) : Run step start (events ++ [e]) t

variable {step : σ → ε → σ → Prop} {start s : σ} {events : List ε}

theorem Run.invariant {I : σ → Prop} (hrun : Run step start events s)
    (hstart : I start) (hstep : ∀ s e t, I s → step s e t → I t) : I s := by
  induction hrun with
  | nil => exact hstart
  | snoc _ h ih => exact hstep _ _ _ ih h

/-- What the invariant says of the steps, said of all events of a run. -/
theorem Run.forall_events {I : σ → Prop} {P : ε → Prop} (hrun : Run step start events s)
    (hstart : I start) (hstep : ∀ s e t, I s → step s e t → I t ∧ P e) :
    I s ∧ ∀ e ∈ events, P e := by
  induction hrun with
  | nil => exact ⟨hstart, fun _ h => absurd h List.not_mem_nil⟩
  | snoc _ h ih =>
    obtain ⟨hI, hP⟩ := hstep _ _ _ ih.1 h
    exact ⟨hI, List.forall_mem_append.mpr ⟨ih.2, List.forall_mem_singleton.mpr hP⟩⟩

theorem Run.of_snoc {t : σ} {e : ε} (h : Run step start (events ++ [e]) t) :
    ∃ s, Run step start events s ∧ step s e t := by
  generalize hall : events ++ [e] = all at h
  cases h with
  | nil => exact absurd hall (by simp)
  | snoc hrun hstep =>
    obtain ⟨rfl, heq⟩ := List.append_inj' hall rfl
    cases heq
    exact ⟨_, hrun, hstep⟩

theorem Run.trans {events' : List ε} {t : σ} (hrun : Run step start events s)
    (hrun' : Run step s events' t) : Run step start (events ++ events') t := by
  induction hrun' with
  | nil =>
    rw [List.append_nil]
    exact hrun
  | snoc _ h ih =>
    rw [← List.append_assoc]
    exact .snoc ih h

end Transition
