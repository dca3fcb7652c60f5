/-
The first match of a test that may fail: a match behind a failure is never
seen (`anyM_eq_ok_true_iff`).
-/
import Mathlib.Data.List.Basic

namespace List

variable {ε α β : Type}

theorem anyM_map (f : β → α) (p : α → Except ε Bool) (l : List β) :
    (l.map f).anyM p = l.anyM fun b => p (f b) := by
  induction l with
  | nil => rfl
  | cons b l ih => rw [map_cons, anyM_cons, anyM_cons, ih]

theorem anyM_append (p : α → Except ε Bool) (l l' : List α) : (l ++ l').anyM p = (do
      let found ← l.anyM p
      if found then pure true else l'.anyM p) := by
  induction l with
  | nil => rfl
  | cons a l ih =>
    rw [cons_append, anyM_cons, anyM_cons, ih]
    cases p a with
    | error e => rfl
    | ok b =>
      cases b with
      | true => rfl
      | false => rfl

theorem anyM_flatMap (f : β → List α) (p : α → Except ε Bool) (l : List β) :
    (l.flatMap f).anyM p = l.anyM fun b => (f b).anyM p := by
  induction l with
  | nil => rfl
  | cons b l ih => rw [flatMap_cons, anyM_append, anyM_cons, ih]

theorem anyM_eq_ok_true_iff {p : α → Except ε Bool} {l : List α} :
    l.anyM p = .ok true ↔ ∃ before a after, l = before ++ a :: after
      ∧ (∀ b ∈ before, p b = .ok false) ∧ p a = .ok true := by
  induction l with
  | nil =>
    constructor
    · intro h
      cases h
    · rintro ⟨before, a, after, h, -⟩
      exact absurd h (by simp)
  | cons a l ih =>
    rw [anyM_cons]
    cases ha : p a with
    | error e =>
      constructor
      · intro h
        cases h
      · rintro ⟨before, a', after, h, hfalse, htrue⟩
        cases before with
        | nil =>
          cases h
          rw [ha] at htrue
          cases htrue
        | cons b before =>
          cases h
          rw [hfalse a mem_cons_self] at ha
          cases ha
    | ok b =>
      cases b with
      | true => exact ⟨fun _ => ⟨[], a, l, rfl, nofun, ha⟩, fun _ => rfl⟩
      | false =>
        refine ih.trans ⟨?_, ?_⟩
        · rintro ⟨before, a', after, rfl, hfalse, htrue⟩
          exact ⟨a :: before, a', after, rfl, forall_mem_cons.mpr ⟨ha, hfalse⟩, htrue⟩
        · rintro ⟨before, a', after, h, hfalse, htrue⟩
          cases before with
          | nil =>
            cases h
            rw [ha] at htrue
            cases htrue
          | cons b before =>
            cases h
            exact ⟨before, a', after, rfl, (forall_mem_cons.mp hfalse).2, htrue⟩

theorem exists_first {P : α → Prop} {l : List α} (h : ∃ a ∈ l, P a) :
    ∃ before a after, l = before ++ a :: after ∧ (∀ b ∈ before, ¬ P b) ∧ P a := by
  induction l with
  | nil =>
    obtain ⟨a, ha, -⟩ := h
    cases ha
  | cons a l ih =>
    by_cases ha : P a
    · exact ⟨[], a, l, rfl, nofun, ha⟩
    · obtain ⟨a', hmem, ha'⟩ := h
      rcases mem_cons.mp hmem with rfl | hmem
      · exact absurd ha' ha
      · obtain ⟨before, b, after, rfl, hnot, hb⟩ := ih ⟨a', hmem, ha'⟩
        exact ⟨a :: before, b, after, rfl, forall_mem_cons.mpr ⟨ha, hnot⟩, hb⟩

theorem first_unique {P : α → Prop} {before before' after after' : List α}
    {a a' : α} (h : before ++ a :: after = before' ++ a' :: after')
    (hnot : ∀ b ∈ before, ¬ P b) (ha : P a) (hnot' : ∀ b ∈ before', ¬ P b)
    (ha' : P a') : before = before' := by
  induction before generalizing before' with
  | nil =>
    cases before' with
    | nil => rfl
    | cons b before' =>
      cases h
      exact absurd ha (hnot' a mem_cons_self)
  | cons b before ih =>
    cases before' with
    | nil =>
      cases h
      exact absurd ha' (hnot a' mem_cons_self)
    | cons b' before' =>
      rw [cons_append, cons_append, cons.injEq] at h
      rw [h.1, ih h.2 (forall_mem_cons.mp hnot).2 (forall_mem_cons.mp hnot').2]

end List
