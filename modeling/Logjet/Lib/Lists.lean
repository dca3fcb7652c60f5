/-
Lists that grow at the end, and lists related item by item.
-/
import Mathlib.Data.List.Forall2

namespace List

variable {α β : Type _} {l : List α} {a b : α}

theorem mem_snoc : a ∈ l ++ [b] ↔ a ∈ l ∨ a = b := by rw [mem_append, mem_singleton]

theorem forall_mem_of_all_not {p : α → Bool} (h : (l.all fun a => !p a) = true) :
    ∀ a ∈ l, p a = false := by
  intro a ha
  exact Bool.not_eq_true' (p a) ▸ all_eq_true.mp h a ha

variable {R : α → β → Prop} {as : List α} {bs : List β}

theorem forall₂_getElem? (h : Forall₂ R as bs) {i : Nat} (ha : as[i]? = some a) :
    ∃ b, bs[i]? = some b ∧ R a b := by
  induction h generalizing i with
  | nil => cases ha
  | cons hab _ ih =>
    cases i with
    | zero =>
      cases ha
      exact ⟨_, rfl, hab⟩
    | succ i => exact ih ha

theorem forall₂_set (h : Forall₂ R as bs) (i : Nat) {b : β} (hab : R a b) :
    Forall₂ R (as.set i a) (bs.set i b) := by
  induction h generalizing i with
  | nil => exact .nil
  | cons h hrest ih =>
    cases i with
    | zero => exact .cons hab hrest
    | succ i => exact .cons h (ih i)

end List
