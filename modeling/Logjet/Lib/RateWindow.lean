/-
Counting in fixed windows, and in any interval as long as one
(`countP_interval_le`).
-/
import Mathlib.Data.List.Basic

namespace RateWindow

variable {α : Type*} {len : Nat} {time window : α → Nat} {events : List α}

structure Windowed (len : Nat) (time window : α → Nat) (events : List α) : Prop where
  inside : ∀ e ∈ events, window e ≤ time e ∧ time e < window e + len
  apart : ∀ e ∈ events, ∀ e' ∈ events, window e < window e' → window e + len ≤ window e'

theorem Windowed.sublist {part : List α}
    (h : Windowed len time window events) (hsub : part.Sublist events) :
    Windowed len time window part :=
  ⟨fun e he => h.inside e (hsub.subset he), fun e he e' he' =>
    h.apart e (hsub.subset he) e' (hsub.subset he')⟩

theorem Windowed.two (h : Windowed len time window events) (t : Nat) :
    ∃ w w', ∀ e ∈ events, t ≤ time e → time e ≤ t + len → window e = w ∨ window e = w' := by
  by_cases hsame : ∃ e ∈ events, ∃ e' ∈ events, window e < window e'
      ∧ t ≤ time e ∧ time e' ≤ t + len
  · obtain ⟨e, he, e', he', hlt, hfrom, huntil⟩ := hsame
    refine ⟨window e, window e', fun e₁ he₁ hfrom₁ huntil₁ => ?_⟩
    by_contra hthird
    have hin := h.inside e he
    have hin' := h.inside e' he'
    have hin₁ := h.inside e₁ he₁
    have hgap := h.apart e he e' he' hlt
    have hgap₁ := h.apart e he e₁ he₁
    have hgap₂ := h.apart e₁ he₁ e he
    have hgap₃ := h.apart e' he' e₁ he₁
    have hgap₄ := h.apart e₁ he₁ e' he'
    omega
  · by_cases hany : ∃ e ∈ events, t ≤ time e ∧ time e ≤ t + len
    · obtain ⟨e, he, hfrom, huntil⟩ := hany
      refine ⟨window e, window e, fun e₁ he₁ hfrom₁ huntil₁ => ?_⟩
      by_contra hother
      rcases Nat.lt_or_gt_of_ne fun heq => hother (Or.inl heq) with hlt | hgt
      · exact hsame ⟨e₁, he₁, e, he, hlt, hfrom₁, huntil⟩
      · exact hsame ⟨e, he, e₁, he₁, hgt, hfrom, huntil₁⟩
    · exact ⟨0, 0, fun e he hfrom huntil => absurd ⟨e, he, hfrom, huntil⟩ hany⟩

theorem countP_or_le (p q : α → Bool) (events : List α) : events.countP (fun e => p e || q e)
      ≤ events.countP p + events.countP q := by
  induction events with
  | nil => simp
  | cons e events ih =>
    simp only [List.countP_cons]
    cases p e <;> cases q e <;> simp <;> omega

theorem countP_interval_le (h : Windowed len time window events) {n : Nat}
    (hn : ∀ w, events.countP (fun e => window e = w) ≤ n) {t l : Nat} (hl : l ≤ len) :
    events.countP (fun e => t ≤ time e ∧ time e ≤ t + l) ≤ 2 * n := by
  obtain ⟨w, w', htwo⟩ := h.two t
  calc events.countP (fun e => t ≤ time e ∧ time e ≤ t + l)
      ≤ events.countP (fun e => decide (window e = w)
          || decide (window e = w')) := by
        apply List.countP_mono_left
        intro e he hin
        simp only [decide_eq_true_eq] at hin
        simpa using htwo e he hin.1 (by omega)
    _ ≤ events.countP (fun e => window e = w)
        + events.countP (fun e => window e = w') := countP_or_le _ _ _
    _ ≤ 2 * n := by
        have hw := hn w
        have hw' := hn w'
        omega

end RateWindow
