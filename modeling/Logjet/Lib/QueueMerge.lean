/-
Merging queues by their heads. What is taken is an interleaving of the queues
(`Merges.of_index`), and sorted if they are (`Merges.sorted`).
-/
import Mathlib.Data.List.Basic

namespace QueueMerge

open List

variable {α : Type} {le : Nat × α → Nat × α → Prop}

inductive Merges (le : Nat × α → Nat × α → Prop) : List (List α) → List (Nat × α) → Prop
  | done {queues : List (List α)} (h : ∀ q ∈ queues, q = []) : Merges le queues []
  | take {queues : List (List α)} {i : Nat} {a : α} {rest : List α}
      {out : List (Nat × α)} (hi : queues[i]? = some (a :: rest))
      (hleast : ∀ j b tail, queues[j]? = some (b :: tail) → le (i, a) (j, b))
      (h : Merges le (queues.set i rest) out) : Merges le queues ((i, a) :: out)

variable {queues : List (List α)} {out : List (Nat × α)}

theorem Merges.of_index (h : Merges le queues out) (i : Nat) :
    (out.filter fun e => e.1 = i).map Prod.snd = queues[i]?.getD [] := by
  induction h with
  | @done queues hempty =>
    cases hq : queues[i]? with
    | none => rfl
    | some q =>
      rw [hempty q (mem_of_getElem? hq)]
      rfl
  | @take queues j a rest out hj _ _ ih =>
    obtain ⟨hlt, -⟩ := List.getElem?_eq_some_iff.mp hj
    by_cases hij : j = i
    · subst hij
      rw [getElem?_set_self hlt, Option.getD_some] at ih
      rw [filter_cons_of_pos (by simp), map_cons, ih, hj]
      rfl
    · rw [getElem?_set_ne hij] at ih
      rw [filter_cons_of_neg (by simpa using hij), ih]

theorem Merges.mem (h : Merges le queues out) {i : Nat} {a : α}
    (hmem : (i, a) ∈ out) : ∃ q, queues[i]? = some q ∧ a ∈ q := by
  have hin : a ∈ queues[i]?.getD [] := by
    rw [← h.of_index i]
    exact mem_map.mpr ⟨(i, a), mem_filter.mpr ⟨hmem, by simp⟩, rfl⟩
  cases hq : queues[i]? with
  | none =>
    rw [hq] at hin
    cases hin
  | some q =>
    rw [hq] at hin
    exact ⟨q, rfl, hin⟩

theorem Merges.sorted (htrans : ∀ a b c, le a b → le b c → le a c) (h : Merges le queues out)
    (hsorted : ∀ (i : Nat) (q : List α), queues[i]? = some q → (q.map (Prod.mk i)).Pairwise le) :
    out.Pairwise le := by
  induction h with
  | done => exact .nil
  | @take queues i a rest out hi hleast hrest ih =>
    obtain ⟨hlt, -⟩ := List.getElem?_eq_some_iff.mp hi
    have hqueue := hsorted i _ hi
    rw [map_cons, pairwise_cons] at hqueue
    obtain ⟨hbefore, htail⟩ := hqueue
    refine .cons ?_ (ih ?_)
    · rintro ⟨j, b⟩ hb
      obtain ⟨q, hq, hbq⟩ := hrest.mem hb
      by_cases hij : i = j
      · subst hij
        rw [getElem?_set_self hlt] at hq
        cases hq
        exact hbefore (i, b) (mem_map_of_mem hbq)
      · rw [getElem?_set_ne hij] at hq
        cases q with
        | nil => cases hbq
        | cons c q =>
          have hhead := hleast j c q hq
          rcases mem_cons.mp hbq with rfl | hbq
          · exact hhead
          · have hother := hsorted j _ hq
            rw [map_cons, pairwise_cons] at hother
            exact htrans _ _ _ hhead (hother.1 (j, b) (mem_map_of_mem hbq))
    · intro j q hq
      by_cases hij : i = j
      · subst hij
        rw [getElem?_set_self hlt] at hq
        cases hq
        exact htail
      · rw [getElem?_set_ne hij] at hq
        exact hsorted j q hq

theorem filterMap_set_perm {β : Type} (f : α → Option β) {l : List α}
    {i : Nat} {a : α} (b : α) (hi : l[i]? = some a) : ((f a).toList ++ (l.set i b).filterMap f).Perm
      ((f b).toList ++ l.filterMap f) := by
  obtain ⟨hlt, rfl⟩ := List.getElem?_eq_some_iff.mp hi
  obtain ⟨pre, post, hl, -, hset⟩ := @List.exists_of_set α i b l hlt
  rw [hset]
  generalize l[i] = a at hl
  subst hl
  have hcons : ∀ c : α, ((pre ++ c :: post).filterMap f).Perm
      ((f c).toList ++ (pre.filterMap f ++ post.filterMap f)) := by
    intro c
    rw [filterMap_append, filterMap_cons]
    cases f c with
    | none => exact .refl _
    | some v => exact perm_middle
  have hb := (hcons b).append_left (f a).toList
  have ha := (hcons a).append_left (f b).toList
  exact hb.trans ((perm_append_comm_assoc _ _ _).trans ha.symm)

end QueueMerge
