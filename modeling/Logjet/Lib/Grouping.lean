/-
Lists of groups with a key. `upsert` puts an element into the first group that
has its key, or behind the others.
-/
import Mathlib.Data.List.Perm.Lattice

namespace Grouping

open List

variable {α β γ : Type}

def upsert (same : α → Bool) (join : α → α) (new : α) : List α → List α
  | [] => [new]
  | a :: rest => if same a then join a :: rest else a :: upsert same join new rest

variable {same : α → Bool} {join : α → α} {new : α} {l : List α}

theorem upsert_perm (contents : α → List β) (hjoin : ∀ a, same a = true →
      (contents (join a)).Perm (contents a ++ contents new)) (l : List α) :
    ((upsert same join new l).flatMap contents).Perm (l.flatMap contents ++ contents new) := by
  fun_induction upsert same join new l with
  | case1 => simp
  | case2 a rest hsame =>
    rw [flatMap_cons, flatMap_cons]
    refine ((hjoin a hsame).append_right _).trans ?_
    rw [append_assoc, append_assoc]
    exact perm_append_comm.append_left _
  | case3 a rest _ ih =>
    rw [flatMap_cons, flatMap_cons, append_assoc]
    exact ih.append_left _

theorem foldl_perm {step : List α → γ → List α} {contents : α → List β} {added : γ → List β}
    (hstep : ∀ l new, ((step l new).flatMap contents).Perm
      (l.flatMap contents ++ added new)) (news : List γ) (l : List α) :
    ((news.foldl step l).flatMap contents).Perm (l.flatMap contents ++ news.flatMap added) := by
  induction news generalizing l with
  | nil => simp
  | cons new news ih =>
    rw [foldl_cons, flatMap_cons, ← append_assoc]
    exact (ih (step l new)).trans ((hstep l new).append_right _)

def behind (same : α → Bool) : List α → List α
  | [] => []
  | a :: rest => if same a then rest else behind same rest

theorem behind_sublist (same : α → Bool) (l : List α) : List.Sublist (behind same l) l := by
  fun_induction behind same l with
  | case1 => exact List.Sublist.refl _
  | case2 a rest => exact sublist_cons_self _ _
  | case3 a rest _ ih => exact ih.cons _

theorem find_of_mem_behind {b : α} (h : b ∈ behind same l) : ∃ a, l.find? same = some a := by
  fun_induction behind same l with
  | case1 => cases h
  | case2 a rest hsame => exact ⟨a, find?_cons_of_pos hsame⟩
  | case3 a rest hsame ih =>
    rw [find?_cons_of_neg hsame]
    exact ih h

theorem upsert_filter (contents : α → List β) (p : β → Bool)
    (hjoin : ∀ a ∈ l.find? same, (contents (join a)).filter p
      = (contents a).filter p ++ (contents new).filter p) (hbehind : ∀ b ∈ behind same l,
      (contents b).filter p = [] ∨ (contents new).filter p = []) :
    ((upsert same join new l).flatMap contents).filter p
      = (l.flatMap contents).filter p ++ (contents new).filter p := by
  fun_induction upsert same join new l with
  | case1 => simp
  | case2 a rest hsame =>
    rw [behind, if_pos hsame] at hbehind
    rw [flatMap_cons, flatMap_cons, filter_append,
      filter_append, hjoin a (find?_cons_of_pos hsame), append_assoc, append_assoc]
    congr 1
    by_cases hnew : (contents new).filter p = []
    · rw [hnew, append_nil, nil_append]
    · have hrest : (rest.flatMap contents).filter p = [] := by
        rw [filter_flatMap, flatMap_eq_nil_iff]
        intro b hb
        exact (hbehind b hb).resolve_right hnew
      rw [hrest, append_nil, nil_append]
  | case3 a rest hsame ih =>
    rw [behind, if_neg hsame] at hbehind
    rw [find?_cons_of_neg hsame] at hjoin
    rw [flatMap_cons, flatMap_cons, filter_append, filter_append, ih hjoin hbehind, append_assoc]

theorem sublist_upsert_of_find {a : α} (h : l.find? same = some a) :
    List.Sublist (join a :: behind same l) (upsert same join new l) := by
  fun_induction upsert same join new l with
  | case1 => cases h
  | case2 b rest hsame =>
    rw [find?_cons_of_pos hsame, Option.some.injEq] at h
    rw [behind, if_pos hsame, h]
  | case3 b rest hsame ih =>
    rw [find?_cons_of_neg hsame] at h
    rw [behind, if_neg hsame]
    exact (ih h).cons _

theorem mem_upsert_of_find (h : l.find? same = none) : new ∈ upsert same join new l := by
  fun_induction upsert same join new l with
  | case1 => exact mem_singleton_self _
  | case2 b rest hsame =>
    rw [find?_cons_of_pos hsame] at h
    cases h
  | case3 b rest hsame ih =>
    rw [find?_cons_of_neg hsame] at h
    exact mem_cons_of_mem _ (ih h)

theorem sublist_upsert (contents : α → List β)
    (hjoin : ∀ a, same a = true → List.Sublist (contents a) (contents (join a))) (l : List α) :
    List.Sublist (l.flatMap contents) ((upsert same join new l).flatMap contents) := by
  fun_induction upsert same join new l with
  | case1 => exact nil_sublist _
  | case2 a rest hsame => exact (hjoin a hsame).append_right _
  | case3 a rest _ ih => exact ih.append_left _

theorem sublist_foldl {step : List α → γ → List α} {contents : α → List β}
    (hstep : ∀ l new, List.Sublist (l.flatMap contents)
      ((step l new).flatMap contents)) (news : List γ) (l : List α) :
    List.Sublist (l.flatMap contents) ((news.foldl step l).flatMap contents) := by
  induction news generalizing l with
  | nil => exact List.Sublist.refl _
  | cons new news ih => exact (hstep l new).trans (ih (step l new))

section Keys

variable {κ : Type} [DecidableEq κ] {key : α → κ} {join : α → α} {new : α}
variable {l : List α} {k : κ}

theorem mem_map_upsert (hjoin : ∀ a, key (join a) = key a)
    (h : k ∈ (upsert (fun a => key a = key new) join new l).map key) :
    k = key new ∨ k ∈ l.map key := by
  fun_induction upsert with
  | case1 => exact .inl (mem_singleton.mp h)
  | case2 a rest =>
    rw [map_cons, hjoin] at h
    exact .inr h
  | case3 a rest _ ih =>
    rcases mem_cons.mp h with rfl | h
    · exact .inr mem_cons_self
    · exact (ih h).imp_right (mem_cons_of_mem _)

theorem nodup_upsert (hjoin : ∀ a, key (join a) = key a) (h : (l.map key).Nodup) :
    ((upsert (fun a => key a = key new) join new l).map key).Nodup := by
  fun_induction upsert with
  | case1 => exact nodup_singleton _
  | case2 a rest =>
    rw [map_cons, hjoin]
    exact h
  | case3 a rest hsame ih =>
    rw [map_cons, nodup_cons] at h
    refine nodup_cons.mpr ⟨fun hmem => ?_, ih h.2⟩
    rcases mem_map_upsert hjoin hmem with heq | hmem
    · exact hsame (decide_eq_true heq)
    · exact h.1 hmem

theorem key_ne_of_mem_behind (h : (l.map key).Nodup)
    {b : α} (hb : b ∈ behind (fun a => key a = k) l) : key b ≠ k := by
  fun_induction behind with
  | case1 => cases hb
  | case2 a rest hsame =>
    have hkey : key a = k := of_decide_eq_true hsame
    intro heq
    exact (nodup_cons.mp h).1 (by rw [hkey, ← heq]; exact mem_map_of_mem hb)
  | case3 a rest _ ih => exact ih (nodup_cons.mp h).2 hb

end Keys

end Grouping
