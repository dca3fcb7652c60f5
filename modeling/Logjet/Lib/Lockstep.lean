/-
Two machines in lockstep: they return or fail together.
-/
import Logjet.Lib.Result

namespace EStateM

variable {ε σ τ α β γ δ ι : Type}

def Lockstep (act : EStateM ε σ α) (s : σ) (act' : EStateM ε τ β) (t : τ)
    (Q : α → σ → β → τ → Prop) (E : σ → τ → Prop) : Prop :=
  match act s, act' t with
  | .ok a s', .ok b t' => Q a s' b t'
  | .error e s', .error e' t' => e = e' ∧ E s' t'
  | _, _ => False

namespace Lockstep

variable {act : EStateM ε σ α} {act' : EStateM ε τ β} {s : σ} {t : τ} {E : σ → τ → Prop}

variable {Q : γ → σ → δ → τ → Prop} {c : Prop}

theorem bind {f : α → EStateM ε σ γ} {f' : β → EStateM ε τ δ}
    (h : Lockstep act s act' t (fun a s' b t' => Lockstep (f a) s' (f' b) t' Q E) E) :
    Lockstep (act >>= f) s (act' >>= f') t Q E := by
  unfold Lockstep at h ⊢
  cases hact : act s with
  | ok a s' =>
    cases hact' : act' t with
    | ok b t' =>
      rw [hact, hact'] at h
      rw [bind_of_ok hact, bind_of_ok hact']
      exact h
    | error e' t' =>
      rw [hact, hact'] at h
      exact h.elim
  | error e s' =>
    cases hact' : act' t with
    | ok b t' =>
      rw [hact, hact'] at h
      exact h.elim
    | error e' t' =>
      rw [hact, hact'] at h
      rw [bind_of_error hact, bind_of_error hact']
      exact h

theorem mono {Q Q' : α → σ → β → τ → Prop} {E' : σ → τ → Prop} (h : Lockstep act s act' t Q E)
    (hQ : ∀ a s' b t', Q a s' b t' → Q' a s' b t')
    (hE : ∀ s' t', E s' t' → E' s' t') : Lockstep act s act' t Q' E' := by
  unfold Lockstep at h ⊢
  cases hact : act s with
  | ok a s' =>
    cases hact' : act' t with
    | ok b t' => rw [hact, hact'] at h; exact hQ a s' b t' h
    | error e' t' => rw [hact, hact'] at h; exact h.elim
  | error e s' =>
    cases hact' : act' t with
    | ok b t' => rw [hact, hact'] at h; exact h.elim
    | error e' t' => rw [hact, hact'] at h; exact ⟨h.1, hE s' t' h.2⟩

theorem get {f : σ → EStateM ε σ γ} {f' : τ → EStateM ε τ δ} (h : Lockstep (f s) s (f' t) t Q E) :
    Lockstep ((MonadState.get : EStateM ε σ σ) >>= f) s
      ((MonadState.get : EStateM ε τ τ) >>= f') t Q E := h

theorem modify {g : σ → σ} {g' : τ → τ} {f : PUnit → EStateM ε σ γ} {f' : PUnit → EStateM ε τ δ}
    (h : Lockstep (f ⟨⟩) (g s) (f' ⟨⟩) (g' t) Q E) :
    Lockstep ((modifyGet fun s => (⟨⟩, g s) : EStateM ε σ PUnit) >>= f) s
      ((modifyGet fun t => (⟨⟩, g' t) : EStateM ε τ PUnit) >>= f') t Q E := h

theorem of_run_eq {f : EStateM ε σ α} {s₁ : σ}
    {Q : α → σ → β → τ → Prop} (hrun : act s = f s₁)
    (h : Lockstep f s₁ act' t Q E) : Lockstep act s act' t Q E := by
  unfold Lockstep at h ⊢
  rwa [hrun]

theorem ofExcept {r : Except ε α} {Q : α → σ → α → τ → Prop}
    (hok : ∀ a, r = .ok a → Q a s a t) (herr : E s t) :
    Lockstep (EStateM.ofExcept r) s (EStateM.ofExcept r) t Q E := by
  cases r with
  | ok a => exact hok a rfl
  | error e => exact ⟨rfl, herr⟩

theorem ensure [Decidable c] {e : ε}
    {Q : Unit → σ → Unit → τ → Prop} (hok : c → Q () s () t) (herr : E s t) :
    Lockstep (EStateM.ofExcept (Except.ensure c e)) s
      (EStateM.ofExcept (Except.ensure c e)) t Q E :=
  Lockstep.ofExcept (fun _ h => hok (Except.ensure_eq_ok_iff.mp h)) herr

theorem ite [Decidable c] {a b : EStateM ε σ α} {a' b' : EStateM ε τ β} {Q : α → σ → β → τ → Prop}
    (ht : c → Lockstep a s a' t Q E) (hf : ¬ c → Lockstep b s b' t Q E) :
    Lockstep (if c then a else b) s (if c then a' else b') t Q E := by
  by_cases hc : c
  · rw [if_pos hc, if_pos hc]
    exact ht hc
  · rw [if_neg hc, if_neg hc]
    exact hf hc

end Lockstep

variable (call : ι → EStateM ε σ Unit) (call' : ι → EStateM ε τ Unit)

def result (call : EStateM ε σ Unit) (s : σ) : Except ε Unit × σ :=
  match call s with
  | .ok _ s' => (.ok (), s')
  | .error e s' => (.error e, s')

def results : List ι → σ → List (ι × Except ε Unit) × σ
  | [], s => ([], s)
  | i :: is, s =>
    let (r, s') := result (call i) s
    let (rest, s'') := results is s'
    ((i, r) :: rest, s'')

variable {call call'}

theorem results_cons (i : ι) (is : List ι) (s : σ) : results call (i :: is) s
      = ((i, (result (call i) s).1) :: (results call is (result (call i) s).2).1,
          (results call is (result (call i) s).2).2) := rfl

theorem results_lockstep {R : σ → τ → Prop} (h : ∀ i s t, R s t → Lockstep (call i) s (call' i) t
      (fun _ s' _ t' => R s' t') R) (is : List ι) {s : σ} {t : τ} (hst : R s t) :
    (results call is s).1 = (results call' is t).1
      ∧ R (results call is s).2 (results call' is t).2 := by
  induction is generalizing s t with
  | nil => exact ⟨rfl, hst⟩
  | cons i is ih =>
    have hone : (result (call i) s).1 = (result (call' i) t).1
        ∧ R (result (call i) s).2 (result (call' i) t).2 := by
      have hstep := h i s t hst
      unfold Lockstep at hstep
      unfold result
      cases hcall : call i s with
      | ok a s' =>
        cases hcall' : call' i t with
        | ok b t' => rw [hcall, hcall'] at hstep; exact ⟨rfl, hstep⟩
        | error e' t' => rw [hcall, hcall'] at hstep; exact hstep.elim
      | error e s' =>
        cases hcall' : call' i t with
        | ok b t' => rw [hcall, hcall'] at hstep; exact hstep.elim
        | error e' t' =>
          rw [hcall, hcall'] at hstep
          exact ⟨congrArg Except.error hstep.1, hstep.2⟩
    obtain ⟨hrest, hend⟩ := ih hone.2
    rw [results_cons, results_cons, hone.1, hrest]
    exact ⟨rfl, hend⟩

theorem results_filter {keep : Except ε Unit → Bool}
    (h : ∀ i s, keep (result (call i) s).1 = false →
      (result (call i) s).2 = s) (is : List ι) (s : σ) :
    results call (((results call is s).1.filter fun c => keep c.2).map Prod.fst) s
      = ((results call is s).1.filter fun c => keep c.2, (results call is s).2) := by
  induction is generalizing s with
  | nil => rfl
  | cons i is ih =>
    have hrest := ih (result (call i) s).2
    rw [results_cons, List.filter_cons]
    cases hkeep : keep (result (call i) s).1 with
    | true => rw [if_pos rfl, List.map_cons, results_cons, hrest]
    | false =>
      rw [h i s hkeep] at hrest ⊢
      exact hrest

end EStateM
