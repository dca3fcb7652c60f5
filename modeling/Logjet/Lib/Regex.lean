/-
Regular expressions as a backtracking matcher reads them: the places where a
match can end, in the order they are tried.
-/
import Mathlib.Data.List.Basic

structure Place (α : Type) where
  before : List α
  behind : List α
  deriving DecidableEq, Repr

namespace Place

open List

variable {α : Type}

def Leads (p q : Place α) : Prop :=
  ∃ taken : List α, p.behind = taken ++ q.behind
    ∧ q.before = taken.reverse ++ p.before

theorem Leads.refl (p : Place α) : p.Leads p := ⟨[], rfl, rfl⟩

theorem Leads.trans {p q r : Place α} (h : p.Leads q) (h' : q.Leads r) : p.Leads r := by
  obtain ⟨taken, hbehind, hbefore⟩ := h
  obtain ⟨taken', hbehind', hbefore'⟩ := h'
  refine ⟨taken ++ taken', ?_, ?_⟩
  · rw [hbehind, hbehind', append_assoc]
  · rw [hbefore', hbefore, reverse_append, append_assoc]

end Place

inductive Regex (α : Type)
  | empty
  | start
  | edge (word : α → Bool)
  | one (member : α → Bool)
  | seq (a b : Regex α)
  | alt (a b : Regex α)
  | star (a : Regex α)

namespace Regex

variable {α : Type}

@[simp]
def rounds (round : Place α → List (Place α)) : Nat → Place α → List (Place α)
  | 0, p => [p]
  | n + 1, p =>
    ((round p).filter fun q => q.behind.length < p.behind.length).flatMap (rounds round n) ++ [p]

@[simp]
def ends : Regex α → Place α → List (Place α)
  | empty, p => [p]
  | start, p => if p.before.isEmpty then [p] else []
  | edge word, p => if p.before.head?.any word != p.behind.head?.any word then [p] else []
  | one member, p =>
    match p.behind with
    | [] => []
    | c :: behind => if member c then [⟨c :: p.before, behind⟩] else []
  | seq a b, p => (a.ends p).flatMap b.ends
  | alt a b, p => a.ends p ++ b.ends p
  | star a, p => rounds a.ends p.behind.length p

def plus (a : Regex α) : Regex α := .seq a (.star a)

def opt (a : Regex α) : Regex α := .alt a .empty

def seqs (parts : List (Regex α)) : Regex α := parts.foldr .seq .empty

def times (n : Nat) (a : Regex α) : Regex α := seqs (List.replicate n a)

def find (r : Regex α) (before : List α) : List α → Option (Place α)
  | [] => (r.ends ⟨before, []⟩).head?
  | c :: behind =>
    match (r.ends ⟨before, c :: behind⟩).head? with
    | some q => some q
    | none => find r (c :: before) behind

def count (r : Regex α) : Nat → Place α → Nat
  | 0, _ => 0
  | n + 1, p =>
    match r.find p.before p.behind with
    | none => 0
    | some q => count r n q + 1

def matchCount (r : Regex α) (text : List α) : Nat := r.count text.length ⟨[], text⟩

def matchesAll (r : Regex α) (text : List α) : Bool :=
  (r.ends ⟨[], text⟩).any fun q => q.behind.isEmpty

variable {round : Place α → List (Place α)} {p q : Place α} {m : α → Bool} {before text : List α}
  {r : Regex α}

theorem ends_empty (p : Place α) : (empty : Regex α).ends p = [p] := rfl

theorem seq_one_cons (m : α → Bool) (r : Regex α) (before : List α) (c : α) (behind : List α) :
    (seq (one m) r).ends ⟨before, c :: behind⟩
      = if m c then r.ends ⟨c :: before, behind⟩ else [] := by
  cases h : m c with
  | true => simp [h]
  | false => simp [h]

theorem seq_star_cons (m : α → Bool) (r : Regex α) (before : List α) (c : α) (behind : List α) :
    (seq (star (one m)) r).ends ⟨before, c :: behind⟩
      = (if m c then (seq (star (one m)) r).ends ⟨c :: before, behind⟩
          else []) ++ r.ends ⟨before, c :: behind⟩ := by
  cases h : m c with
  | true => simp [h]
  | false => simp [h]

theorem seq_star_stop {behind : List α}
    (h : behind.head?.any m = false) (r : Regex α) (before : List α) :
    (seq (star (one m)) r).ends ⟨before, behind⟩ = r.ends ⟨before, behind⟩ := by
  cases behind with
  | nil => simp
  | cons c behind =>
    have hc : m c = false := h
    rw [seq_star_cons, hc, if_neg Bool.false_ne_true, List.nil_append]

theorem seq_plus_cons (m : α → Bool) (r : Regex α) (before : List α) (c : α) (behind : List α) :
    (seq (plus (one m)) r).ends ⟨before, c :: behind⟩
      = if m c then (seq (star (one m)) r).ends ⟨c :: before, behind⟩
        else [] := by
  rw [← seq_one_cons, plus, ends, ends, ends, List.flatMap_assoc]
  rfl

theorem seq_opt (a r : Regex α) (p : Place α) :
    (seq (opt a) r).ends p = (seq a r).ends p ++ r.ends p := by simp [opt]

theorem find_start_later (r : Regex α) (h : before ≠ [])
    (behind : List α) : (seq start r).find before behind = none := by
  have hends : ∀ {before : List α} (behind : List α), before ≠ [] →
      (seq start r).ends ⟨before, behind⟩ = [] := by
    intro before behind hne
    rw [ends, ends, if_neg (by simpa using hne), List.flatMap_nil]
  induction behind generalizing before with
  | nil => rw [find, hends [] h, List.head?_nil]
  | cons c behind ih =>
    rw [find, hends _ h]
    exact ih (List.cons_ne_nil c before)

theorem find_start (r : Regex α) (text : List α) :
    (seq start r).find [] text = (r.ends ⟨[], text⟩).head? := by
  have hends : (seq start r).ends ⟨[], text⟩ = r.ends ⟨[], text⟩ := by simp
  cases text with
  | nil => rw [find, hends]
  | cons c behind =>
    rw [find, hends]
    cases (r.ends ⟨[], c :: behind⟩).head? with
    | none => exact find_start_later r (List.cons_ne_nil c []) behind
    | some q => rfl

theorem mem_seq_one {p : α → Bool} (hq : q ∈ (seq (one p) r).ends ⟨before, text⟩) :
    ∃ c rest, text = c :: rest ∧ p c = true ∧ q ∈ r.ends ⟨c :: before, rest⟩ := by
  cases text with
  | nil => simp at hq
  | cons c rest =>
    rw [ends, ends] at hq
    dsimp only at hq
    split at hq
    next hc =>
      rw [List.flatMap_singleton] at hq
      exact ⟨c, rest, rfl, hc, hq⟩
    · cases hq

theorem rounds_leads (h : ∀ p, ∀ q ∈ round p, p.Leads q) (n : Nat)
    (hq : q ∈ rounds round n p) : p.Leads q := by
  induction n generalizing p with
  | zero =>
    rw [List.mem_singleton.mp hq]
    exact .refl p
  | succ n ih =>
    rcases List.mem_append.mp hq with hq | hq
    · obtain ⟨p', hp', hq⟩ := List.mem_flatMap.mp hq
      exact (h p p' (List.mem_filter.mp hp').1).trans (ih hq)
    · rw [List.mem_singleton.mp hq]
      exact .refl p

theorem ends_leads (r : Regex α) (hq : q ∈ r.ends p) : p.Leads q := by
  induction r generalizing p q with
  | empty =>
    rw [List.mem_singleton.mp hq]
    exact .refl p
  | start =>
    unfold ends at hq
    split at hq
    · rw [List.mem_singleton.mp hq]
      exact .refl p
    · cases hq
  | edge word =>
    unfold ends at hq
    split at hq
    · rw [List.mem_singleton.mp hq]
      exact .refl p
    · cases hq
  | one member =>
    unfold ends at hq
    split at hq
    · cases hq
    next c behind hbehind =>
      split at hq
      · rw [List.mem_singleton.mp hq]
        exact ⟨[c], hbehind, rfl⟩
      · cases hq
  | seq a b iha ihb =>
    obtain ⟨p', hp', hq⟩ := List.mem_flatMap.mp hq
    exact (iha hp').trans (ihb hq)
  | alt a b iha ihb =>
    rcases List.mem_append.mp hq with hq | hq
    · exact iha hq
    · exact ihb hq
  | star a ih => exact rounds_leads (fun p q hq => ih hq) _ hq

theorem exists_of_seq_one {a b : Regex α}
    (hq : q ∈ (seq a (seq (one m) b)).ends p) : ∃ c ∈ p.behind, m c = true := by
  obtain ⟨p', hp', hq⟩ := List.mem_flatMap.mp hq
  obtain ⟨taken, hbehind, -⟩ := a.ends_leads hp'
  obtain ⟨c, rest, hrest, hc, -⟩ := mem_seq_one hq
  refine ⟨c, ?_, hc⟩
  rw [hbehind, hrest]
  exact List.mem_append_right _ List.mem_cons_self

theorem matchCount_eq_zero
    (hneeds : ∀ p, ∀ q ∈ r.ends p, ∃ c ∈ p.behind, m c = true) (hnone : ∀ c ∈ text, m c = false) :
    r.matchCount text = 0 := by
  have hends : ∀ {before behind : List α}, (∀ c ∈ behind, m c = false) →
      r.ends ⟨before, behind⟩ = [] := by
    intro before behind hbehind
    refine List.eq_nil_iff_forall_not_mem.mpr fun q hq => ?_
    obtain ⟨c, hc, hm⟩ := hneeds _ q hq
    exact ne_true_of_eq_false (hbehind c hc) hm
  have hfind : ∀ (before : List α), r.find before text = none := by
    intro before
    induction text generalizing before with
    | nil => rw [find, hends hnone, List.head?_nil]
    | cons c behind ih =>
      rw [find, hends hnone]
      exact ih (fun c hc => hnone c (List.mem_cons_of_mem _ hc)) _
  rw [matchCount]
  cases text.length with
  | zero => rfl
  | succ n => rw [count, hfind]

def least : Regex α → Nat
  | empty | start | edge _ | star _ => 0
  | one _ => 1
  | seq a b => a.least + b.least
  | alt a b => min a.least b.least

theorem least_le (r : Regex α) (hq : q ∈ r.ends p) :
    r.least + q.behind.length ≤ p.behind.length := by
  have hshorter : ∀ {r : Regex α} {p q : Place α}, q ∈ r.ends p →
      q.behind.length ≤ p.behind.length := by
    intro r p q hq
    obtain ⟨taken, hbehind, -⟩ := r.ends_leads hq
    rw [hbehind, List.length_append]
    omega
  induction r generalizing p q with
  | empty | start | edge _ | star _ =>
    rw [least, Nat.zero_add]
    exact hshorter hq
  | one member =>
    unfold ends at hq
    split at hq
    · cases hq
    next c behind hbehind =>
      split at hq
      · rw [List.mem_singleton.mp hq, hbehind, List.length_cons, least]
        exact Nat.le_of_eq (Nat.add_comm _ _)
      · cases hq
  | seq a b iha ihb =>
    obtain ⟨p', hp', hq⟩ := List.mem_flatMap.mp hq
    have ha := iha hp'
    have hb := ihb hq
    rw [least]
    omega
  | alt a b iha ihb =>
    rw [least]
    rcases List.mem_append.mp hq with hq | hq
    · have ha := iha hq
      omega
    · have hb := ihb hq
      omega

end Regex
