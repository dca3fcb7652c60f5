/-
Taking `Result`-shaped computations apart: `Ends` says how a run can end,
`okAnd` tests concrete calls.
-/
import Logjet.Lib.Lists
import Mathlib.Tactic.Basic

namespace Except

variable {ε α β : Type _}

def ensure (c : Prop) [Decidable c] (e : ε) : Except ε Unit := if c then .ok () else .error e

@[simp] theorem ensure_eq_ok_iff {c : Prop} [Decidable c] {e : ε}
    {u : Unit} : ensure c e = .ok u ↔ c := by
  unfold ensure
  by_cases hc : c <;> simp [hc]

theorem ensure_true {c : Prop} [Decidable c] (hc : c) (e : ε) : ensure c e = .ok () := if_pos hc

theorem ensure_false {c : Prop} [Decidable c] (hc : ¬ c) (e : ε) :
    ensure c e = .error e := if_neg hc

theorem bind_eq_ok_iff {a : Except ε α} {f : α → Except ε β} {b : β} :
    (a >>= f) = .ok b ↔ ∃ v, a = .ok v ∧ f v = .ok b := by
  cases a with
  | error e =>
    constructor
    · intro h; cases h
    · rintro ⟨v, hv, -⟩; cases hv
  | ok v =>
    constructor
    · intro h; exact ⟨v, rfl, h⟩
    · rintro ⟨w, hw, h⟩
      cases hw
      exact h

def okAnd (a : Except ε α) (test : α → Bool) : Bool :=
  match a with
  | .ok v => test v
  | .error _ => false

theorem okAnd_eq_true {a : Except ε α} {test : α → Bool} :
    a.okAnd test = true ↔ ∃ v, a = .ok v ∧ test v = true := by
  cases a with
  | ok v => simp [okAnd]
  | error e => simp [okAnd]

@[simp] theorem ok_bind (v : α) (f : α → Except ε β) : ((.ok v : Except ε α) >>= f) = f v := rfl

@[simp] theorem error_bind (e : ε) (f : α → Except ε β) :
    ((.error e : Except ε α) >>= f) = .error e := rfl

end Except

namespace EStateM

variable {ε σ α β : Type _}

def ofExcept : Except ε α → EStateM ε σ α
  | .ok a => pure a
  | .error e => throw e

@[simp] theorem get_bind (f : σ → EStateM ε σ β) (s : σ) :
    ((get : EStateM ε σ σ) >>= f) s = f s s := rfl

@[simp] theorem set_bind (f : PUnit → EStateM ε σ β) (s s' : σ) :
    ((set s' : EStateM ε σ PUnit) >>= f) s = f ⟨⟩ s' := rfl

@[simp] theorem modify_bind (g : σ → σ) (f : PUnit → EStateM ε σ β)
    (s : σ) : ((modify g : EStateM ε σ PUnit) >>= f) s = f ⟨⟩ (g s) := rfl

@[simp] theorem ofExcept_ok_bind (a : α) (f : α → EStateM ε σ β) (s : σ) :
    ((ofExcept (.ok a) : EStateM ε σ α) >>= f) s = f a s := rfl

@[simp] theorem ofExcept_error_bind (e : ε) (f : α → EStateM ε σ β) (s : σ) :
    ((ofExcept (.error e) : EStateM ε σ α) >>= f) s = .error e s := rfl

variable {f : α → EStateM ε σ β} {s' : σ}

theorem bind_of_ok {act : EStateM ε σ α}
    {s : σ} {a : α} (h : act s = .ok a s') : (act >>= f) s = f a s' := by
  show (match act s with
        | .ok a s' => f a s'
        | .error e s' => .error e s') = _
  rw [h]

theorem bind_of_error {act : EStateM ε σ α}
    {s : σ} {e : ε} (h : act s = .error e s') : (act >>= f) s = .error e s' := by
  show (match act s with
        | .ok a s' => f a s'
        | .error e s' => .error e s') = _
  rw [h]

theorem bind_eq_ok_iff {act : EStateM ε σ α} {s : σ} {b : β} :
    (act >>= f) s = .ok b s' ↔ ∃ a s₁, act s = .ok a s₁ ∧ f a s₁ = .ok b s' := by
  cases hact : act s with
  | ok a s₁ =>
    rw [bind_of_ok hact]
    constructor
    · intro h; exact ⟨a, s₁, rfl, h⟩
    · rintro ⟨_, _, h₁, h₂⟩
      cases h₁
      exact h₂
  | error e s₁ =>
    rw [bind_of_error hact]
    simp

@[simp] theorem ofExcept_eq_ok_iff {r : Except ε α} {s : σ} {a : α} :
    ofExcept r s = .ok a s' ↔ r = .ok a ∧ s' = s := by
  cases r with
  | ok v =>
    show EStateM.Result.ok v s = .ok a s' ↔ _
    simp only [EStateM.Result.ok.injEq, Except.ok.injEq, eq_comm]
  | error e =>
    show EStateM.Result.error e s = .ok a s' ↔ _
    simp

theorem ofExcept_bind_eq_ok_iff {r : Except ε α} {s : σ} {b : β} :
    (ofExcept r >>= f) s = .ok b s' ↔ ∃ a, r = .ok a ∧ f a s = .ok b s' := by
  cases r with
  | ok a => simp
  | error e => simp

def okAnd (act : EStateM ε σ α) (s : σ) (test : α → σ → Bool) : Bool :=
  match act s with
  | .ok a s' => test a s'
  | .error _ _ => false

theorem okAnd_eq_true {act : EStateM ε σ α} {s : σ} {test : α → σ → Bool} : act.okAnd s test = true
      ↔ ∃ a s', act s = .ok a s' ∧ test a s' = true := by
  unfold okAnd
  cases act s with
  | ok a s' =>
    constructor
    · intro h
      exact ⟨a, s', rfl, h⟩
    · intro ⟨_, _, hok, h⟩
      cases hok
      exact h
  | error e s' => simp

def fails [DecidableEq ε] (act : EStateM ε σ α) (s : σ) (e : ε) : Bool :=
  match act s with
  | .ok _ _ => false
  | .error e' _ => e' = e

theorem fails_eq_true [DecidableEq ε] {act : EStateM ε σ α} {s : σ} {e : ε} :
    act.fails s e = true ↔ ∃ s', act s = .error e s' := by
  unfold fails
  cases act s with
  | ok a s' => simp
  | error e' s' => simp

def attempt {ε σ α : Type} (act : EStateM ε σ α) : EStateM ε σ (Except ε α) :=
  fun s =>
  match act s with
  | .ok a s' => .ok (.ok a) s'
  | .error e s' => .ok (.error e) s'

def Ends (act : EStateM ε σ α) (s : σ) (Q : α → σ → Prop) (E : ε → σ → Prop) : Prop :=
  match act s with
  | .ok a s' => Q a s'
  | .error e s' => E e s'

namespace Ends

variable {act : EStateM ε σ α} {f : α → EStateM ε σ β} {s : σ} {E : ε → σ → Prop}

theorem bind {Q : β → σ → Prop} (h : Ends act s (fun a s' => Ends (f a) s' Q E) E) :
    Ends (act >>= f) s Q E := by
  unfold Ends at h ⊢
  cases hact : act s with
  | ok a s' =>
    rw [hact] at h
    rw [bind_of_ok hact]
    exact h
  | error e s' =>
    rw [hact] at h
    rw [bind_of_error hact]
    exact h

variable {Q : α → σ → Prop}

theorem mono {Q' : α → σ → Prop} {E' : ε → σ → Prop}
    (h : Ends act s Q E) (hQ : ∀ a s', Q a s' → Q' a s')
    (hE : ∀ e s', E e s' → E' e s') : Ends act s Q' E' := by
  unfold Ends at h ⊢
  cases hact : act s with
  | ok a s' => rw [hact] at h; exact hQ a s' h
  | error e s' => rw [hact] at h; exact hE e s' h

theorem withRun (h : Ends act s Q E) :
    Ends act s (fun a s' => act s = .ok a s' ∧ Q a s') E := by
  unfold Ends at h ⊢
  cases hact : act s with
  | ok a s' => rw [hact] at h; exact ⟨rfl, h⟩
  | error e s' => rw [hact] at h; exact h

theorem ok {a : α} (h : Ends act s Q E) (hrun : act s = .ok a s') : Q a s':= by
  rw [Ends, hrun] at h
  exact h

theorem error {e : ε} (h : Ends act s Q E) (hrun : act s = .error e s') : E e s':= by
  rw [Ends, hrun] at h
  exact h

theorem of_forall (hok : ∀ a s', Q a s') (herr : ∀ e s', E e s') : Ends act s Q E:= by
  unfold Ends
  cases act s with
  | ok a s' => exact hok a s'
  | error e s' => exact herr e s'

theorem get {f : σ → EStateM ε σ β} {Q : β → σ → Prop} (h : Ends (f s) s Q E) :
    Ends ((MonadState.get : EStateM ε σ σ) >>= f) s Q E := h

theorem modify {g : σ → σ} {f : PUnit → EStateM ε σ β} {Q : β → σ → Prop}
    (h : Ends (f ⟨⟩) (g s) Q E) :
    Ends ((modifyGet fun s => (⟨⟩, g s) : EStateM ε σ PUnit) >>= f) s Q E := h

theorem ite {c : Prop} [Decidable c] {a b : EStateM ε σ α}
    (ht : c → Ends a s Q E) (hf : ¬ c → Ends b s Q E) :
    Ends (if c then a else b) s Q E := by
  by_cases hc : c
  · rw [if_pos hc]
    exact ht hc
  · rw [if_neg hc]
    exact hf hc

theorem returns (h : Ends act s Q fun _ _ => False) :
    ∃ a s', act s = .ok a s' ∧ Q a s' := by
  unfold Ends at h
  cases hact : act s with
  | ok a s' => rw [hact] at h; exact ⟨a, s', rfl, h⟩
  | error e s' => rw [hact] at h; exact h.elim

theorem noError {Q' : α → σ → Prop} (h : Ends act s Q E) (hok : Ends act s Q' fun _ _ => False) :
    Ends act s Q fun _ _ => False := by
  unfold Ends at h hok ⊢
  cases hact : act s with
  | ok a s' => rw [hact] at h; exact h
  | error e s' => rw [hact] at hok; exact hok

theorem attempt {ε σ α : Type} {act : EStateM ε σ α} {s : σ}
    {Q : Except ε α → σ → Prop} {E : ε → σ → Prop}
    (h : Ends act s (fun a => Q (.ok a)) (fun e => Q (.error e))) : Ends act.attempt s Q E := by
  unfold Ends EStateM.attempt at *
  cases hact : act s with
  | ok a s' => rw [hact] at h; exact h
  | error e s' => rw [hact] at h; exact h

theorem ensure {c : Prop} [Decidable c] {e : ε} {Q : Unit → σ → Prop}
    (hok : c → Q () s) (herr : ¬ c → E e s) : Ends (ofExcept (Except.ensure c e)) s Q E := by
  unfold Ends Except.ensure
  by_cases hc : c
  · rw [if_pos hc]
    exact hok hc
  · rw [if_neg hc]
    exact herr hc

end Ends

end EStateM
