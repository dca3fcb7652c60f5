/-
The longest suffix of a list that has a property which shorter suffixes keep.
-/
import Mathlib.Data.List.Infix

namespace Suffix

open List

variable {α : Type} {p : List α → Prop} {all tail : List α}

structure Longest (p : List α → Prop) (all tail : List α) : Prop where
  suffix : tail <:+ all
  has : p tail
  longest : ∀ other, other <:+ all → p other → other.length ≤ tail.length

theorem Longest.self (h : p all) : Longest p all all where
  suffix := suffix_refl _
  has := h
  longest _ hother _ := hother.length_le

theorem Longest.cons_of_not {a : α} (h : Longest p all tail)
    (hnot : ¬ p (a :: all)) : Longest p (a :: all) tail where
  suffix := h.suffix.trans (suffix_cons a all)
  has := h.has
  longest other hother hp := by
    rcases suffix_cons_iff.mp hother with rfl | hother
    · exact absurd hp hnot
    · exact h.longest other hother hp

theorem Longest.suffix_of {other : List α} (h : Longest p all tail)
    (hother : other <:+ all) (hp : p other) : other <:+ tail :=
  suffix_of_suffix_length_le hother h.suffix (h.longest other hother hp)

theorem Longest.snoc {a : α} {tail' : List α}
    (hinit : ∀ l b, p (l ++ [b]) → p l) (h : Longest p all tail)
    (h' : Longest p (tail ++ [a]) tail') : Longest p (all ++ [a]) tail' where
  suffix := by
    obtain ⟨dropped, rfl⟩ := h.suffix
    rw [append_assoc]
    exact h'.suffix.trans (suffix_append _ _)
  has := h'.has
  longest other hother hp := by
    rcases suffix_concat_iff.mp hother with rfl | ⟨init, rfl, hinit'⟩
    · exact Nat.zero_le _
    · obtain ⟨dropped, hdropped⟩ := h.suffix_of hinit' (hinit init a hp)
      apply h'.longest _ _ hp
      exact ⟨dropped, by rw [← append_assoc, hdropped]⟩

end Suffix
