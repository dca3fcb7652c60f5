/-
First occurrence of a pattern (`Search.first`), and the greedy scan with a
partial decoder (`Greedy.Scan`): the least offset where a block decodes, then
on from its end.
-/
import Mathlib.Algebra.GroupWithZero.Nat
import Mathlib.Data.List.Basic
import Mathlib.Data.List.Infix

namespace Search

variable {α : Type*} [DecidableEq α]

def first (pat : List α) : List α → Option Nat
  | [] => if pat = [] then some 0 else none
  | c :: cs => if pat <+: c :: cs then some 0 else (first pat cs).map (· + 1)

variable {pat text : List α}

theorem first_eq_zero (h : pat <+: text) : first pat text = some 0 := by
  cases text with
  | nil => simp [first, List.prefix_nil.mp h]
  | cons c cs => simp [first, h]

theorem first_cons_of_not {c : α} {cs : List α} (h : ¬ pat <+: c :: cs) :
    first pat (c :: cs) = (first pat cs).map (· + 1) := by simp [first, h]

theorem first_some {i : Nat} (h : first pat text = some i) :
    i ≤ text.length ∧ pat <+: text.drop i ∧ ∀ j < i, ¬ pat <+: text.drop j := by
  induction text generalizing i with
  | nil =>
    by_cases hp : pat = []
    · simp only [first, hp, if_true, Option.some.injEq] at h
      subst h
      exact ⟨Nat.le_refl _, by simp [hp], fun j hj => absurd hj (by omega)⟩
    · simp [first, hp] at h
  | cons c cs ih =>
    by_cases hp : pat <+: c :: cs
    · rw [first_eq_zero hp, Option.some.injEq] at h
      subst h
      exact ⟨by simp, by simpa using hp, fun j hj => absurd hj (by omega)⟩
    · rw [first_cons_of_not hp, Option.map_eq_some_iff] at h
      obtain ⟨k, hk, rfl⟩ := h
      obtain ⟨hle, hocc, hmin⟩ := ih hk
      refine ⟨by simpa using hle, by simpa using hocc, ?_⟩
      intro j hj
      cases j with
      | zero => simpa using hp
      | succ j => simpa using hmin j (by omega)

theorem first_none (h : first pat text = none) : ∀ i, ¬ pat <+: text.drop i := by
  induction text with
  | nil =>
    intro i hi
    have hnil : pat = [] := by simpa using hi
    simp [first, hnil] at h
  | cons c cs ih =>
    by_cases hp : pat <+: c :: cs
    · rw [first_eq_zero hp] at h
      cases h
    · rw [first_cons_of_not hp, Option.map_eq_none_iff] at h
      intro i
      cases i with
      | zero => simpa using hp
      | succ i => simpa using ih h i

theorem first_append {pre : List α}
    (h : ∀ i < pre.length, ¬ pat <+: (pre ++ text).drop i) : first pat (pre ++ text)
      = (first pat text).map (· + pre.length) := by
  induction pre with
  | nil => simp
  | cons c pre ih =>
    have htail : ∀ i < pre.length, ¬ pat <+: (pre ++ text).drop i := by
      intro i hi
      simpa using h (i + 1) (by simpa using hi)
    rw [List.cons_append, first_cons_of_not
      (by simpa using h 0 (by simp)), ih htail, Option.map_map]
    rfl

end Search

namespace Greedy

variable {β : Type*}

inductive Scan (valid : Nat → List β → Nat → Prop) : Nat → List β → Prop
  | done {c : Nat} (hnone : ∀ p bs e, c ≤ p → ¬ valid p bs e) : Scan valid c []
  | block {c p e : Nat} {bs rest : List β} (hle : c ≤ p)
      (hmin : ∀ q bs e, c ≤ q → q < p → ¬ valid q bs e)
      (hvalid : valid p bs e) (tail : Scan valid e rest) : Scan valid c (bs ++ rest)

variable (decode : Nat → Option (List β × Nat))

def Decodes (p : Nat) (bs : List β) (e : Nat) : Prop := decode p = some (bs, e)

def Advances (size : Nat) : Prop := ∀ p bs e, decode p = some (bs, e) → p < e ∧ e ≤ size

variable (size : Nat)

def records (c : Nat) : List β :=
  if c < size then
    match decode c with
    | some (bs, e) => bs ++ records (max e (c + 1))
    | none => records (c + 1)
  else []
termination_by size - c

def visited (c : Nat) : List Nat :=
  if c < size then
    match decode c with
    | some (_, e) => c :: visited (max e (c + 1))
    | none => c :: visited (c + 1)
  else []
termination_by size - c

def blocks (c : Nat) : List (Nat × List β × Nat) :=
  if c < size then
    match decode c with
    | some (bs, e) => (c, bs, e) :: blocks (max e (c + 1))
    | none => blocks (c + 1)
  else []
termination_by size - c

def tally (w : Nat → Nat) (c : Nat) : Nat := ((visited decode size c).map w).sum

variable {decode size}

variable {c e p : Nat} {bs xs : List β}

theorem records_end (hc : size ≤ c) : records decode size c = [] := by
  rw [records, if_neg (by omega)]

theorem records_none (hc : c < size) (hd : decode c = none) :
    records decode size c = records decode size (c + 1) := by rw [records, if_pos hc, hd]

theorem records_some (hadv : Advances decode size) (hd : decode c = some (bs, e)) :
    records decode size c = bs ++ records decode size e := by
  obtain ⟨hlt, hle⟩ := hadv c bs e hd
  rw [records, if_pos (by omega), hd]
  simp only [Nat.max_eq_left (show c + 1 ≤ e by omega)]

theorem tally_end (w : Nat → Nat) (hc : size ≤ c) : tally decode size w c = 0 := by
  rw [tally, visited, if_neg (by omega)]
  rfl

theorem tally_none (w : Nat → Nat) (hc : c < size) (hd : decode c = none) :
    tally decode size w c = w c + tally decode size w (c + 1) := by
  rw [tally, visited, if_pos hc, hd]
  simp [tally]

theorem tally_some (hadv : Advances decode size) (w : Nat → Nat) (hd : decode c = some (bs, e)) :
    tally decode size w c = w c + tally decode size w e := by
  obtain ⟨hlt, hle⟩ := hadv c bs e hd
  rw [tally, visited, if_pos (by omega), hd]
  simp [tally, Nat.max_eq_left (show c + 1 ≤ e by omega)]

theorem eq_of_steps {γ : Sort*} {f : Nat → γ} (hcp : c ≤ p)
    (hstep : ∀ q, c ≤ q → q < p → f q = f (q + 1)) : f c = f p := by
  induction p, hcp using Nat.le_induction with
  | base => rfl
  | succ p hcp ih => rw [ih fun q h1 h2 => hstep q h1 (by omega), hstep p hcp (by omega)]

theorem records_skip (hcp : c ≤ p) (hp : p ≤ size) (hnone : ∀ q, c ≤ q → q < p → decode q = none) :
    records decode size c = records decode size p :=
  eq_of_steps hcp fun q h1 h2 => records_none (by omega) (hnone q h1 h2)

theorem tally_skip {w : Nat → Nat} (hcp : c ≤ p)
    (hp : p ≤ size) (hnone : ∀ q, c ≤ q → q < p → decode q = none)
    (hw : ∀ q, c ≤ q → q < p → w q = 0) : tally decode size w c = tally decode size w p := by
  apply eq_of_steps hcp
  intro q h1 h2
  rw [tally_none w (by omega) (hnone q h1 h2), hw q h1 h2, Nat.zero_add]

theorem not_decodes (hd : decode p = none) (bs : List β) (e : Nat) : ¬ Decodes decode p bs e := by
  rw [Decodes, hd]
  exact nofun

theorem Scan.widen {valid : Nat → List β → Nat → Prop} (hd : ∀ bs e, ¬ valid c bs e)
    (hs : Scan valid (c + 1) xs) : Scan valid c xs := by
  have hdead : ∀ q bs e, c ≤ q → (c + 1 ≤ q → ¬ valid q bs e) → ¬ valid q bs e := by
    intro q bs e hq hlater
    rcases Nat.eq_or_lt_of_le hq with rfl | hlt
    · exact hd bs e
    · exact hlater hlt
  cases hs with
  | done hnone => exact .done fun p bs e hp => hdead p bs e hp (hnone p bs e)
  | block hle hmin hvalid tail =>
    exact .block (by omega) (fun q bs e h1 h2 => hdead q bs e h1 fun h => hmin q bs e h h2)
      hvalid tail

/-- The induction of the scan: it is at the end, reads a block or moves one
offset on. -/
@[elab_as_elim]
theorem scan_induction (hadv : Advances decode size) {motive : Nat → Prop} (c : Nat)
    (stop : ∀ c, size ≤ c → motive c)
    (read : ∀ c bs e, c < size → decode c = some (bs, e) → c < e → motive e → motive c)
    (move : ∀ c, c < size → decode c = none → motive (c + 1) → motive c) : motive c := by
  induction hn : size - c using Nat.strong_induction_on generalizing c with
  | _ n ih =>
    by_cases hc : c < size
    · cases hd : decode c with
      | some be =>
        obtain ⟨hlt, hle⟩ := hadv c _ _ hd
        exact read c _ _ hc hd hlt (ih (size - be.2) (by omega) be.2 rfl)
      | none => exact move c hc hd (ih (size - (c + 1)) (by omega) (c + 1) rfl)
    · exact stop c (by omega)

theorem scan_records (hadv : Advances decode size) (c : Nat) :
    Scan (Decodes decode) c (records decode size c) := by
  induction c using scan_induction hadv with
  | stop c hc =>
    rw [records_end hc]
    refine .done fun p bs e hp hd => ?_
    obtain ⟨hlt, hle⟩ := hadv p bs e hd
    omega
  | read c bs e _ hd _ ih =>
    rw [records_some hadv hd]
    exact .block (Nat.le_refl c) (fun q _ _ h1 h2 => by omega) hd ih
  | move c hc hd ih =>
    rw [records_none hc hd]
    exact ih.widen (not_decodes hd)

theorem Scan.unique {ys : List β}
    (hx : Scan (Decodes decode) c xs) (hy : Scan (Decodes decode) c ys) : xs = ys := by
  induction hx generalizing ys with
  | done hnone =>
    cases hy with
    | done => rfl
    | block hle _ hvalid _ => exact absurd hvalid (hnone _ _ _ hle)
  | @block c p e bs rest hle hmin hvalid tail ih =>
    cases hy with
    | done hnone => exact absurd hvalid (hnone _ _ _ hle)
    | @block _ p' e' bs' rest' hle' hmin' hvalid' tail' =>
      have hpp : p = p' := by
        rcases Nat.lt_trichotomy p p' with h | h | h
        · exact absurd hvalid (hmin' p bs e hle h)
        · exact h
        · exact absurd hvalid' (hmin p' bs' e' hle' h)
      subst hpp
      have hbe : (bs, e) = (bs', e') := Option.some.inj (hvalid.symm.trans hvalid')
      obtain ⟨rfl, rfl⟩ := hbe
      rw [ih tail']

theorem blocks_end (hc : size ≤ c) : blocks decode size c = [] := by rw [blocks, if_neg (by omega)]

theorem blocks_none (hc : c < size) (hd : decode c = none) :
    blocks decode size c = blocks decode size (c + 1) := by rw [blocks, if_pos hc, hd]

theorem blocks_some (hadv : Advances decode size) (hd : decode c = some (bs, e)) :
    blocks decode size c = (c, bs, e) :: blocks decode size e := by
  obtain ⟨hlt, hle⟩ := hadv c bs e hd
  rw [blocks, if_pos (by omega), hd]
  simp only [Nat.max_eq_left (show c + 1 ≤ e by omega)]

theorem blocks_skip (hcp : c ≤ p) (hp : p ≤ size) (hnone : ∀ q, c ≤ q → q < p → decode q = none) :
    blocks decode size c = blocks decode size p :=
  eq_of_steps hcp fun q h1 h2 => blocks_none (by omega) (hnone q h1 h2)

theorem visited_end (hc : size ≤ c) : visited decode size c = [] := by
  rw [visited, if_neg (by omega)]

theorem visited_none (hc : c < size) (hd : decode c = none) :
    visited decode size c = c :: visited decode size (c + 1) := by rw [visited, if_pos hc, hd]

theorem visited_some (hadv : Advances decode size) (hd : decode c = some (bs, e)) :
    visited decode size c = c :: visited decode size e := by
  obtain ⟨hlt, hle⟩ := hadv c bs e hd
  rw [visited, if_pos (by omega), hd]
  simp only [Nat.max_eq_left (show c + 1 ≤ e by omega)]

theorem mem_visited_skip {q : Nat} (hcp : c ≤ p) (hp : p ≤ size)
    (hnone : ∀ q, c ≤ q → q < p → decode q = none) (hq : q ∈ visited decode size c) :
    c ≤ q ∧ q < p ∨ q ∈ visited decode size p := by
  induction p, hcp using Nat.le_induction with
  | base => exact Or.inr hq
  | succ p hcp ih =>
    rcases ih (by omega) fun q h1 h2 => hnone q h1 (by omega) with h | h
    · exact Or.inl ⟨h.1, by omega⟩
    · rw [visited_none (by omega) (hnone p hcp (by omega))] at h
      rcases List.mem_cons.mp h with rfl | h
      · exact Or.inl ⟨hcp, by omega⟩
      · exact Or.inr h

theorem records_eq_blocks (hadv : Advances decode size) (c : Nat) : records decode size c
      = (blocks decode size c).flatMap fun b => b.2.1 := by
  induction c using scan_induction hadv with
  | stop c hc =>
    rw [records_end hc, blocks_end hc]
    rfl
  | read c bs e _ hd _ ih =>
    rw [records_some hadv hd, blocks_some hadv hd, List.flatMap_cons, ih]
  | move c hc hd ih => rw [records_none hc hd, blocks_none hc hd, ih]

theorem le_of_mem_blocks (hadv : Advances decode size)
    {b : Nat × List β × Nat} (hb : b ∈ blocks decode size c) : c ≤ b.1 := by
  induction c using scan_induction hadv with
  | stop c hc =>
    rw [blocks_end hc] at hb
    cases hb
  | read c bs e _ hd hlt ih =>
    rw [blocks_some hadv hd] at hb
    rcases List.mem_cons.mp hb with rfl | hb
    · exact Nat.le_refl c
    · exact Nat.le_trans (Nat.le_of_lt hlt) (ih hb)
  | move c hc hd ih =>
    rw [blocks_none hc hd] at hb
    exact Nat.le_of_succ_le (ih hb)

theorem blocks_ne_cons (hadv : Advances decode size) {c' : Nat}
    (hlt : c < c') (be : List β × Nat) (rest : List (Nat × List β × Nat)) :
    blocks decode size c' ≠ (c, be) :: rest := by
  intro h
  have hge := le_of_mem_blocks hadv (h ▸ List.mem_cons_self)
  omega

variable {decode' : Nat → Option (List β × Nat)}

theorem blocks_eq_iff (hadv : Advances decode size) (hadv' : Advances decode' size) :
    blocks decode size c = blocks decode' size c ↔ visited decode size c = visited decode' size c
        ∧ ∀ p ∈ visited decode size c, decode p = decode' p := by
  induction c using scan_induction hadv with
  | stop c hc =>
    rw [blocks_end hc, blocks_end hc, visited_end hc, visited_end hc]
    simp
  | read c bs e hc hd _ ih =>
    rw [blocks_some hadv hd, visited_some hadv hd]
    cases hd' : decode' c with
    | some be' =>
      obtain ⟨bs', e'⟩ := be'
      rw [blocks_some hadv' hd', visited_some hadv' hd']
      simp only [List.cons.injEq, Prod.mk.injEq, true_and,
        List.forall_mem_cons, hd, hd', Option.some.injEq]
      constructor
      · intro ⟨⟨hbs, he⟩, hrest⟩
        subst he
        obtain ⟨hvis, hsame⟩ := ih.mp hrest
        exact ⟨hvis, ⟨hbs, rfl⟩, hsame⟩
      · intro ⟨hvis, ⟨hbs, he⟩, hsame⟩
        subst he
        exact ⟨⟨hbs, rfl⟩, ih.mpr ⟨hvis, hsame⟩⟩
    | none =>
      rw [blocks_none hc hd']
      constructor
      · intro h
        exact absurd h.symm (blocks_ne_cons hadv' (Nat.lt_succ_self c) _ _)
      · intro ⟨_, hsame⟩
        have hc' := hsame c List.mem_cons_self
        rw [hd, hd'] at hc'
        cases hc'
  | move c hc hd ih =>
    rw [blocks_none hc hd, visited_none hc hd]
    cases hd' : decode' c with
    | some be' =>
      rw [blocks_some hadv' hd']
      constructor
      · intro h
        exact absurd h (blocks_ne_cons hadv (Nat.lt_succ_self c) _ _)
      · intro ⟨_, hsame⟩
        have hc' := hsame c List.mem_cons_self
        rw [hd, hd'] at hc'
        cases hc'
    | none =>
      rw [blocks_none hc hd', visited_none hc hd', ih]
      simp only [List.cons.injEq, true_and, List.forall_mem_cons, hd, hd']

theorem visited_congr (hadv : Advances decode size) (hadv' : Advances decode' size)
    (hsame : ∀ p ∈ visited decode size c, decode p = decode' p) :
    visited decode size c = visited decode' size c := by
  induction c using scan_induction hadv with
  | stop c hc => rw [visited_end hc, visited_end hc]
  | read c bs e _ hd _ ih =>
    rw [visited_some hadv hd] at hsame ⊢
    rw [visited_some hadv' ((hsame c List.mem_cons_self).symm.trans hd),
      ih fun p hp => hsame p (List.mem_cons_of_mem _ hp)]
  | move c hc hd ih =>
    rw [visited_none hc hd] at hsame ⊢
    rw [visited_none hc ((hsame c List.mem_cons_self).symm.trans hd),
      ih fun p hp => hsame p (List.mem_cons_of_mem _ hp)]

end Greedy
