/-
Reading a list through a floor that only rises: what is taken is the `ascent`,
the items that top everything before them.
-/
import Mathlib.Data.List.Basic

namespace Ascent

open List

variable {α β : Type} [LT β] [DecidableLT β] (key : α → β)

def ascent (floor : β) : List α → List α
  | [] => []
  | a :: as => if floor < key a then a :: ascent (key a) as else ascent floor as

variable {key}

@[simp]
theorem ascent_nil (floor : β) : ascent key floor [] = [] := rfl

variable {floor : β} {a : α} {as : List α}

theorem ascent_cons_of_lt (h : floor < key a)
    (as : List α) : ascent key floor (a :: as) = a :: ascent key (key a) as := if_pos h

theorem ascent_cons_of_not_lt (h : ¬ floor < key a)
    (as : List α) : ascent key floor (a :: as) = ascent key floor as := if_neg h

theorem ascent_append_of_not_lt (h : ∀ a ∈ as, ¬ floor < key a) (bs : List α) :
    ascent key floor (as ++ bs) = ascent key floor bs := by
  induction as with
  | nil => rfl
  | cons a as ih =>
    rw [cons_append, ascent_cons_of_not_lt (h a (by simp))]
    exact ih fun b hb => h b (mem_cons_of_mem _ hb)

theorem ascent_sublist (floor : β) (as : List α) : (ascent key floor as).Sublist as := by
  fun_induction ascent key floor as with
  | case1 => exact List.Sublist.slnil
  | case2 _ a as _ ih => exact ih.cons_cons a
  | case3 _ a as _ ih => exact ih.cons a

theorem ascent_of_find_none (h : as.find? (floor < key ·) = none) : ascent key floor as = [] := by
  have hnone : ∀ a ∈ as, ¬ floor < key a := by
    intro a ha
    have hnot := find?_eq_none.mp h a ha
    simpa using hnot
  rw [← append_nil as, ascent_append_of_not_lt hnone]
  rfl

theorem mem_ascent_append {before after : List α}
    (hfloor : floor < key a) (h : ∀ b ∈ before, key b < key a) :
    a ∈ ascent key floor (before ++ a :: after) := by
  induction before generalizing floor with
  | nil =>
    rw [nil_append, ascent_cons_of_lt hfloor]
    exact mem_cons_self ..
  | cons b before ih =>
    have hrest := fun c hc => h c (mem_cons_of_mem _ hc)
    rw [cons_append]
    by_cases hb : floor < key b
    · rw [ascent_cons_of_lt hb]
      exact mem_cons_of_mem _ (ih (h b (by simp)) hrest)
    · rw [ascent_cons_of_not_lt hb]
      exact ih hfloor hrest

section Order

variable [LE β] [Std.IsLinearOrder β] [Std.LawfulOrderLT β]
variable {floor : β} {as : List α} {a : α}

theorem lt_of_mem_ascent (h : a ∈ ascent key floor as) : floor < key a := by
  fun_induction ascent key floor as with
  | case1 => cases h
  | case2 floor b as hb ih =>
    rcases mem_cons.mp h with rfl | h
    · exact hb
    · exact Std.lt_trans hb (ih h)
  | case3 _ b as _ ih => exact ih h

theorem ascent_pairwise (floor : β) (as : List α) :
    (ascent key floor as).Pairwise fun a b => key a < key b := by
  fun_induction ascent key floor as with
  | case1 => exact List.Pairwise.nil
  | case2 floor a as _ ih => exact pairwise_cons.mpr ⟨fun b hb => lt_of_mem_ascent hb, ih⟩
  | case3 _ a as _ ih => exact ih

theorem ascent_eq_self_iff : ascent key floor as = as
      ↔ (∀ a ∈ as, floor < key a) ∧ as.Pairwise fun a b => key a < key b := by
  constructor
  · intro h
    refine ⟨fun a ha => ?_, h ▸ ascent_pairwise floor as⟩
    rw [← h] at ha
    exact lt_of_mem_ascent ha
  · intro ⟨habove, hsorted⟩
    induction as generalizing floor with
    | nil => rfl
    | cons a as ih =>
      rw [pairwise_cons] at hsorted
      rw [ascent_cons_of_lt (habove a mem_cons_self), ih hsorted.1 hsorted.2]

theorem ascent_of_find (h : as.find? (floor < key ·) = some a) :
    ascent key floor as = a :: ascent key (key a) as := by
  obtain ⟨ha, before, after, rfl, hbefore⟩ := find?_eq_some_iff_append.mp h
  have ha : floor < key a := of_decide_eq_true ha
  have hbelow : ∀ b ∈ before, ¬ floor < key b := by
    intro b hb
    have hnot := hbefore b hb
    simpa using hnot
  have hbelow' : ∀ b ∈ before, ¬ key a < key b := by
    intro b hb hlt
    exact hbelow b hb (Std.lt_trans ha hlt)
  rw [ascent_append_of_not_lt hbelow, ascent_cons_of_lt ha, ascent_append_of_not_lt hbelow',
    ascent_cons_of_not_lt Std.lt_irrefl]

theorem ascent_eq_filter (hsorted : as.Pairwise fun a b => key a < key b) (floor : β) :
    ascent key floor as = as.filter (floor < key ·) := by
  fun_induction ascent key floor as with
  | case1 => rfl
  | case2 floor a as h ih =>
    rw [pairwise_cons] at hsorted
    rw [filter_cons_of_pos (by simpa using h), ih hsorted.2]
    congr 1
    apply filter_congr
    intro b hb
    have hab := hsorted.1 b hb
    rw [decide_eq_true hab, decide_eq_true (Std.lt_trans h hab)]
  | case3 floor a as h ih => rw [filter_cons_of_neg (by simpa using h), ih hsorted.tail]

end Order

end Ascent
