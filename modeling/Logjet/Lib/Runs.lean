/-
Runs: a list cut into pieces, and the maximal ones, cut where a key changes.
-/
import Mathlib.Data.List.Chain
import Mathlib.Data.List.Flatten
import Mathlib.Data.List.Forall2

structure MaximalRuns {α κ : Type} (key : α → κ) (items : List α)
    (runs : List (List α)) : Prop where
  flatten : runs.flatten = items
  nonempty : ∀ run ∈ runs, run ≠ []
  alike : ∀ run ∈ runs, ∀ a ∈ run, ∀ b ∈ run, key a = key b
  apart : runs.IsChain fun run next => ∀ a ∈ run, ∀ b ∈ next, key a ≠ key b

namespace MaximalRuns

open List

variable {α κ : Type} {key : α → κ} {items : List α} {runs : List (List α)} {run : List α} {a : α}

theorem nil : MaximalRuns key [] [] := ⟨rfl, nofun, nofun, .nil⟩

theorem extend (h : MaximalRuns key items (runs ++ [run])) (ha : ∀ b ∈ run, key b = key a) :
    MaximalRuns key (items ++ [a]) (runs ++ [run ++ [a]]) where
  flatten := by
    rw [← h.flatten]
    simp only [flatten_append, flatten_singleton, append_assoc]
  nonempty := by
    intro r hr
    rcases mem_append.mp hr with hr | hr
    · exact h.nonempty r (mem_append_left _ hr)
    · rw [mem_singleton.mp hr]
      exact append_ne_nil_of_right_ne_nil _ (cons_ne_nil _ _)
  alike := by
    intro r hr
    rcases mem_append.mp hr with hr | hr
    · exact h.alike r (mem_append_left _ hr)
    · rw [mem_singleton.mp hr]
      have hkey : ∀ b ∈ run ++ [a], key b = key a := by
        intro b hb
        rcases mem_append.mp hb with hb | hb
        · exact ha b hb
        · rw [mem_singleton.mp hb]
      intro b hb c hc
      exact (hkey b hb).trans (hkey c hc).symm
  apart := by
    obtain ⟨hruns, -, hlast⟩ := isChain_append.mp h.apart
    refine isChain_append.mpr ⟨hruns, .singleton _, ?_⟩
    intro before hbefore after hafter
    cases hafter
    have hne := hlast before hbefore run rfl
    intro b hb c hc
    obtain ⟨d, hd⟩ := exists_mem_of_ne_nil run
      (h.nonempty run (mem_append_right _ (mem_singleton_self _)))
    rcases mem_append.mp hc with hc | hc
    · exact hne b hb c hc
    · rw [mem_singleton.mp hc, ← ha d hd]
      exact hne b hb d hd

theorem start (h : MaximalRuns key items runs)
    (ha : ∀ run ∈ runs.getLast?, ∀ b ∈ run, key b ≠ key a) :
    MaximalRuns key (items ++ [a]) (runs ++ [[a]]) where
  flatten := by rw [← h.flatten, flatten_append, flatten_singleton]
  nonempty := by
    intro r hr
    rcases mem_append.mp hr with hr | hr
    · exact h.nonempty r hr
    · rw [mem_singleton.mp hr]
      exact cons_ne_nil _ _
  alike := by
    intro r hr
    rcases mem_append.mp hr with hr | hr
    · exact h.alike r hr
    · rw [mem_singleton.mp hr]
      intro b hb c hc
      rw [mem_singleton.mp hb, mem_singleton.mp hc]
  apart := by
    refine isChain_append.mpr ⟨h.apart, .singleton _, ?_⟩
    intro before hbefore after hafter
    cases hafter
    intro b hb c hc
    rw [mem_singleton.mp hc]
    exact ha before hbefore b hb

end MaximalRuns

structure CutRuns {α : Type} (cut : α → α → Prop) (items : List α) (runs : List (List α)) :
    Prop where
  flatten : runs.flatten = items
  nonempty : ∀ run ∈ runs, run ≠ []
  apart : runs.IsChain fun run next => ∀ a ∈ run.getLast?, ∀ b ∈ next.head?, cut a b

namespace CutRuns

open List

variable {α : Type} {cut : α → α → Prop} {items : List α} {runs : List (List α)} {run : List α}

theorem nil : CutRuns cut [] [] := ⟨rfl, nofun, .nil⟩

theorem extend (h : CutRuns cut items (runs ++ [run])) (a : α) :
    CutRuns cut (items ++ [a]) (runs ++ [run ++ [a]]) := by
  obtain ⟨hruns, hrun⟩ := forall_mem_append.mp h.nonempty
  obtain ⟨b, rest, rfl⟩ := exists_cons_of_ne_nil (hrun run (mem_singleton_self _))
  refine ⟨?_, forall_mem_append.mpr ⟨hruns, forall_mem_singleton.mpr (cons_ne_nil _ _)⟩, ?_⟩
  · rw [← h.flatten]
    simp only [flatten_append, flatten_singleton, append_assoc]
  · obtain ⟨hchain, -, hlast⟩ := isChain_append.mp h.apart
    refine isChain_append.mpr ⟨hchain, .singleton _, ?_⟩
    intro before hbefore after hafter
    cases hafter
    intro c hc d hd
    exact hlast before hbefore (b :: rest) rfl c hc d hd

theorem start {a : α} (h : CutRuns cut items runs)
    (ha : ∀ run ∈ runs.getLast?, ∀ b ∈ run.getLast?, cut b a) :
    CutRuns cut (items ++ [a]) (runs ++ [[a]]) := by
  refine ⟨by rw [← h.flatten, flatten_append, flatten_singleton],
    forall_mem_append.mpr ⟨h.nonempty, forall_mem_singleton.mpr (cons_ne_nil _ _)⟩, ?_⟩
  refine isChain_append.mpr ⟨h.apart, .singleton _, ?_⟩
  intro before hbefore after hafter b hb c hc
  cases hafter
  cases hc
  exact ha before hbefore b hb

end CutRuns

theorem List.forall₂_concat_right {α β : Type} {R : α → β → Prop}
    {as : List α} {bs : List β} {b : β} (h : List.Forall₂ R as (bs ++ [b])) :
    ∃ as₀ a, as = as₀ ++ [a] ∧ List.Forall₂ R as₀ bs ∧ R a b := by
  have hinit := forall₂_take_append _ _ _ h
  have hlast := forall₂_drop_append _ _ _ h
  obtain ⟨a, as', hab, hnil, htail⟩ := forall₂_cons_right_iff.mp hlast
  rw [forall₂_nil_right_iff.mp hnil] at htail
  refine ⟨as.take bs.length, a, ?_, hinit, hab⟩
  rw [← htail, take_append_drop]
