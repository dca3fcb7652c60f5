/-
A set that is given up once it would grow past a limit; until then it is exact
(`Holds`).
-/
import Mathlib.Data.Finset.Card
import Mathlib.Data.Finset.Union

structure CappedSet (α : Type*) where
  values : Finset α
  complete : Bool
  deriving DecidableEq

namespace CappedSet

variable {α : Type*} [DecidableEq α] {limit : Nat}

def empty : CappedSet α := { values := ∅, complete := true }

def insert (limit : Nat) (set : CappedSet α) (value : α) : CappedSet α :=
  if !set.complete then set
  else if set.values.card ≥ limit ∧ value ∉ set.values then
    { set with complete := false }
  else { set with values := Insert.insert value set.values }

structure Holds (limit : Nat) (set : CappedSet α) (all : Finset α) : Prop where
  complete : set.complete = true ↔ all.card ≤ limit
  values : set.complete = true → set.values = all

omit [DecidableEq α] in
theorem empty_holds : (empty : CappedSet α).Holds limit ∅ := ⟨by simp [empty], fun _ => rfl⟩

omit [DecidableEq α] in
theorem Holds.incomplete {set : CappedSet α} {all all' : Finset α}
    (h : set.Holds limit all) (hset : set.complete = false)
    (hsub : all ⊆ all') {set' : CappedSet α} (hset' : set'.complete = false) :
    set'.Holds limit all' := by
  have hover : ¬ all.card ≤ limit := by
    intro hle
    rw [h.complete.mpr hle] at hset
    cases hset
  have hover' : ¬ all'.card ≤ limit := fun hle => hover ((Finset.card_le_card hsub).trans hle)
  exact ⟨by simp [hset', hover'], by simp [hset']⟩

theorem Holds.insert {set : CappedSet α} {all : Finset α} (h : set.Holds limit all) (value : α) :
    (set.insert limit value).Holds limit (Insert.insert value all) := by
  unfold CappedSet.insert
  cases hset : set.complete with
  | false => exact h.incomplete hset (Finset.subset_insert value all) hset
  | true =>
    have hvalues := h.values hset
    have hle := h.complete.mp hset
    rw [hvalues]
    by_cases hfull : all.card ≥ limit ∧ value ∉ all
    · have hover : ¬ (Insert.insert value all).card ≤ limit := by
        rw [Finset.card_insert_of_notMem hfull.2]
        omega
      rw [if_neg (by simp), if_pos hfull]
      exact ⟨by simp [hover], by simp⟩
    · have hroom : (Insert.insert value all).card ≤ limit := by
        by_cases hmem : value ∈ all
        · rw [Finset.insert_eq_of_mem hmem]
          exact hle
        · have hless : ¬ all.card ≥ limit := fun h => hfull ⟨h, hmem⟩
          rw [Finset.card_insert_of_notMem hmem]
          omega
      rw [if_neg (by simp), if_neg hfull]
      exact ⟨by simp [hroom], fun _ => rfl⟩

theorem Holds.foldl {set : CappedSet α} {all : Finset α}
    (h : set.Holds limit all) (values : List α) :
    (values.foldl (CappedSet.insert limit) set).Holds limit (all ∪ values.toFinset) := by
  induction values generalizing set all with
  | nil => simpa using h
  | cons value values ih =>
    have hrest := ih (h.insert value)
    rw [List.toFinset_cons, Finset.union_insert, ← Finset.insert_union]
    exact hrest

end CappedSet
