/-
Computations that trap. `Safe` ones do not, and `Returns` compares with one
that does not look.
-/
import Mathlib.Algebra.GroupWithZero.Nat
import Logjet.Lib.Result

inductive Trap
  | slice
  | overflow
  | shift
  deriving DecidableEq, Repr

inductive Stop (ε : Type)
  | trapped (trap : Trap)
  | failed (err : ε)
  deriving DecidableEq, Repr

namespace Trap

variable {ε α β : Type}

def require (c : Prop) [Decidable c] (trap : Trap) : Except (Stop ε) Unit :=
  Except.ensure c (.trapped trap)

def returned : Except ε α → Except (Stop ε) α
  | .ok v => .ok v
  | .error err => .error (.failed err)

def addU64 (a b : Nat) : Except (Stop ε) Nat := do
  require (a + b < 2 ^ 64) .overflow
  return a + b

def subU64 (a b : Nat) : Except (Stop ε) Nat := do
  require (b ≤ a) .overflow
  return a - b

def Safe (a : Except (Stop ε) α) : Prop := ∀ trap, a ≠ .error (.trapped trap)

@[simp] theorem safe_ok (v : α) : Safe (.ok v : Except (Stop ε) α) := nofun

@[simp] theorem safe_pure (v : α) : Safe (pure v : Except (Stop ε) α) := nofun

@[simp] theorem safe_returned (a : Except ε α) : Safe (returned a) := by
  cases a with
  | ok v => exact safe_ok v
  | error err => exact nofun

@[simp] theorem safe_require_iff {c : Prop} [Decidable c] {trap : Trap} :
    Safe (require c trap : Except (Stop ε) Unit) ↔ c := by
  unfold require Except.ensure
  by_cases hc : c
  · simp [hc]
  · rw [if_neg hc]
    exact ⟨fun h => absurd rfl (h trap), fun h => absurd h hc⟩

theorem safe_bind_iff {a : Except (Stop ε) α} {f : α → Except (Stop ε) β} :
    Safe (a >>= f) ↔ Safe a ∧ ∀ v, a = .ok v → Safe (f v) := by
  cases a with
  | ok v => simp
  | error stop =>
    constructor
    · intro h
      exact ⟨fun trap heq => h trap (by cases heq; rfl), nofun⟩
    · rintro ⟨h, -⟩ trap heq
      exact h trap (by cases heq; rfl)

@[simp] theorem returned_eq_ok_iff {a : Except ε α} {v : α} : returned a = .ok v ↔ a = .ok v := by
  cases a <;> simp [returned]

@[simp] theorem require_eq_ok_iff {c : Prop} [Decidable c] {trap : Trap}
    {u : Unit} : (require c trap : Except (Stop ε) Unit) = .ok u ↔ c := Except.ensure_eq_ok_iff

@[simp] theorem safe_addU64_iff {a b : Nat} :
    Safe (addU64 a b : Except (Stop ε) Nat) ↔ a + b < 2 ^ 64 := by
  unfold addU64
  rw [safe_bind_iff, safe_require_iff]
  exact ⟨fun h => h.1, fun h => ⟨h, fun _ _ => safe_pure _⟩⟩

@[simp] theorem addU64_eq_ok_iff {a b n : Nat} : (addU64 a b : Except (Stop ε) Nat) = .ok n
      ↔ a + b < 2 ^ 64 ∧ n = a + b := by
  unfold addU64
  simp only [Except.bind_eq_ok_iff, require_eq_ok_iff]
  constructor
  · rintro ⟨-, h, hret⟩
    cases hret
    exact ⟨h, rfl⟩
  · rintro ⟨h, rfl⟩
    exact ⟨(), h, rfl⟩

@[simp] theorem subU64_eq_ok_iff {a b n : Nat} :
    (subU64 a b : Except (Stop ε) Nat) = .ok n ↔ b ≤ a ∧ n = a - b := by
  unfold subU64
  simp only [Except.bind_eq_ok_iff, require_eq_ok_iff]
  constructor
  · rintro ⟨-, h, hret⟩
    cases hret
    exact ⟨h, rfl⟩
  · rintro ⟨h, rfl⟩
    exact ⟨(), h, rfl⟩

@[simp] theorem safe_returned_bind_iff {a : Except ε α} {f : α → Except (Stop ε) β} :
    Safe (returned a >>= f) ↔ ∀ v, a = .ok v → Safe (f v) := by
  rw [safe_bind_iff]
  simp only [safe_returned, returned_eq_ok_iff, true_and]

@[simp] theorem safe_require_bind_iff {c : Prop} [Decidable c] {trap : Trap}
    {f : Unit → Except (Stop ε) β} : Safe (require c trap >>= f) ↔ c ∧ Safe (f ()) := by
  rw [safe_bind_iff, safe_require_iff]
  refine and_congr_right fun h => ?_
  exact ⟨fun hf => hf () (require_eq_ok_iff.mpr h), fun hf _ _ => hf⟩

@[simp] theorem safe_addU64_bind_iff {a b : Nat} {f : Nat → Except (Stop ε) β} :
    Safe (addU64 a b >>= f) ↔ a + b < 2 ^ 64 ∧ Safe (f (a + b)) := by
  rw [safe_bind_iff, safe_addU64_iff]
  refine and_congr_right fun h => ?_
  simp only [addU64_eq_ok_iff, h, true_and, forall_eq]

def Returns (a : Except (Stop ε) α) (b : Except ε α) : Prop := Safe a → a = returned b

namespace Returns

theorem returned (a : Except ε α) : Returns (Trap.returned a) a := fun _ => rfl

theorem pure (v : α) : Returns (Pure.pure v : Except (Stop ε) α) (.ok v) := fun _ => rfl

variable {a : Except (Stop ε) α} {b : Except ε α} {c : Prop} {trap : Trap}

theorem bind {f : α → Except (Stop ε) β} {g : α → Except ε β} (h : Returns a b)
    (hf : ∀ v, a = .ok v → Returns (f v) (g v)) : Returns (a >>= f) (b >>= g) := by
  intro hsafe
  obtain ⟨ha, hrest⟩ := safe_bind_iff.mp hsafe
  have hab := h ha
  cases b with
  | ok v =>
    rw [hab]
    exact hf v hab (hrest v hab)
  | error err =>
    rw [hab]
    rfl

theorem require [Decidable c] (h : c → Returns a b) :
    Returns (Trap.require c trap >>= fun _ => a) b := by
  intro hsafe
  obtain ⟨hc, hrest⟩ := safe_bind_iff.mp hsafe
  rw [safe_require_iff] at hc
  have hok : (Trap.require c trap : Except (Stop ε) Unit) = .ok () := require_eq_ok_iff.mpr hc
  rw [hok]
  exact h hc (hrest () hok)

theorem both [Decidable c] {err : ε} {g : Unit → Except ε α} (h : c → Returns a (g ())) :
    Returns (Trap.require c trap >>= fun _ => a) (Except.ensure c err >>= g) :=
  require fun hc => by
    rw [Except.ensure_true hc]
    exact h hc

theorem addU64 {n m : Nat} {f : Nat → Except (Stop ε) α}
    (h : n + m < 2 ^ 64 → Returns (f (n + m)) b) : Returns (Trap.addU64 n m >>= f) b := by
  intro hsafe
  obtain ⟨hroom, hrest⟩ := safe_bind_iff.mp hsafe
  rw [safe_addU64_iff] at hroom
  have hok : (Trap.addU64 n m : Except (Stop ε) Nat) = .ok (n + m) :=
    addU64_eq_ok_iff.mpr ⟨hroom, rfl⟩
  rw [hok]
  exact h hroom (hrest _ hok)

end Returns

end Trap
