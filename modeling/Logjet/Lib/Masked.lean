/-
Two lists that agree on marks, up to stretches without.
-/
import Mathlib.Data.List.Basic

variable {α : Type}

inductive Masked (mark : α → Bool) : List α → List α → Prop
  | nil : Masked mark [] []
  | keep {l l'} (a) : Masked mark l l' → Masked mark (a :: l) (a :: l')
  | swap {l l' xs ys} : xs ≠ [] → ys ≠ [] → (∀ a ∈ xs, mark a = false) →
      (∀ a ∈ ys, mark a = false) → Masked mark l l' → Masked mark (xs ++ l) (ys ++ l')

namespace Masked

open List

variable {mark : α → Bool} {l l' : List α} {q : α}

theorem keeps (xs : List α) (h : Masked mark l l') : Masked mark (xs ++ l) (xs ++ l') := by
  induction xs with
  | nil => exact h
  | cons a xs ih => exact .keep a ih

theorem countP_eq {p : α → Bool} (h : Masked mark l l')
    (hp : ∀ a, p a = true → mark a = true) : l.countP p = l'.countP p := by
  have hnone : ∀ xs : List α, (∀ a ∈ xs, mark a = false) → xs.countP p = 0 := by
    intro xs hxs
    rw [countP_eq_zero]
    intro a ha hpa
    exact absurd ((hxs a ha).symm.trans (hp a hpa)) (by decide)
  induction h with
  | nil => rfl
  | keep a _ ih => rw [countP_cons, countP_cons, ih]
  | swap _ _ hx hy _ ih => rw [countP_append, countP_append, hnone _ hx, hnone _ hy, ih]

theorem any_eq {p : α → Bool} (h : Masked mark l l')
    (hp : ∀ a, p a = true → mark a = true) : l.any p = l'.any p := by
  have hcount := h.countP_eq hp
  rw [Bool.eq_iff_iff, any_eq_true, any_eq_true, ← countP_pos_iff, ← countP_pos_iff, hcount]

theorem head?_iff (h : Masked mark l l') (hq : mark q = true) :
    l.head? = some q ↔ l'.head? = some q := by
  have hnone : ∀ {xs rest : List α}, xs ≠ [] →
      (∀ a ∈ xs, mark a = false) → (xs ++ rest).head? ≠ some q := by
    intro xs rest hxs hx heq
    rw [head?_append_of_ne_nil _ hxs] at heq
    exact absurd ((hx q (mem_of_mem_head? heq)).symm.trans hq) (by decide)
  cases h with
  | nil => exact Iff.rfl
  | keep a => exact Iff.rfl
  | swap hxs hys hx hy =>
    exact ⟨fun heq => absurd heq (hnone hxs hx), fun heq => absurd heq (hnone hys hy)⟩

theorem append {m m' : List α} (h : Masked mark l l')
    (h' : Masked mark m m') : Masked mark (l ++ m) (l' ++ m') := by
  induction h with
  | nil => exact h'
  | keep a _ ih => exact .keep a ih
  | swap hxs hys hx hy _ ih =>
    rw [append_assoc, append_assoc]
    exact .swap hxs hys hx hy ih

theorem reverse (h : Masked mark l l') : Masked mark l.reverse l'.reverse := by
  induction h with
  | nil => exact .nil
  | keep a _ ih =>
    rw [reverse_cons, reverse_cons]
    exact ih.append (.keep a .nil)
  | @swap l l' xs ys hxs hys hx hy _ ih =>
    have hone : Masked mark (xs.reverse ++ []) (ys.reverse ++ []) :=
      .swap (by simpa using hxs) (by simpa using hys) (by simpa using hx) (by simpa using hy) .nil
    rw [append_nil, append_nil] at hone
    rw [reverse_append, reverse_append]
    exact ih.append hone

theorem getLast?_iff (h : Masked mark l l') (hq : mark q = true) :
    l.getLast? = some q ↔ l'.getLast? = some q := by
  rw [← head?_reverse, ← head?_reverse]
  exact h.reverse.head?_iff hq

theorem pair_iff (h : Masked mark l l') (hq : mark q = true) : [q, q] <:+: l ↔ [q, q] <:+: l' := by
  have hbehind : ∀ {xs rest : List α}, (∀ a ∈ xs, mark a = false) →
      ([q, q] <:+: xs ++ rest ↔ [q, q] <:+: rest) := by
    intro xs rest hx
    induction xs with
    | nil => exact Iff.rfl
    | cons a xs ih =>
      have ha : a ≠ q := by
        rintro rfl
        exact absurd ((hx a mem_cons_self).symm.trans hq) (by decide)
      rw [cons_append, infix_cons_iff, cons_prefix_cons, ih fun b hb => hx b (mem_cons_of_mem _ hb)]
      simp [ha.symm]
  induction h with
  | nil => exact Iff.rfl
  | @keep l l' a h ih =>
    have hhead : ∀ m : List α, [q] <+: m ↔ m.head? = some q := by
      intro m
      cases m with
      | nil => simp
      | cons b m => simp [cons_prefix_cons, eq_comm]
    rw [infix_cons_iff, infix_cons_iff, cons_prefix_cons,
      cons_prefix_cons, hhead, hhead, h.head?_iff hq]
    exact or_congr Iff.rfl ih
  | swap _ _ hx hy _ ih => exact (hbehind hx).trans (ih.trans (hbehind hy).symm)

end Masked
