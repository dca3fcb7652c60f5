/-
Reading a stream front to back. `Takes act a v`: in front of anything else
`act` returns `v`, and if `a` is cut short it fails.
-/
import Mathlib.Data.List.Infix
import Logjet.Lib.Result

namespace ByteReader

open List

variable {ε τ α β : Type}

def readExact (eof : ε) (n : Nat) : EStateM ε (List τ) (List τ) :=
  fun input =>
    if input.length < n then .error eof []
    else .ok (input.take n) (input.drop n)

variable {n : Nat} {act : EStateM ε (List τ) α} {f : α → EStateM ε (List τ) β} {a b : List τ}
  {v : α} {w : β}

theorem readExact_eq_ok {eof : ε} {input rest v : List τ}
    (h : readExact eof n input = .ok v rest) : input = v ++ rest ∧ v.length = n := by
  unfold readExact at h
  split at h
  case isTrue => cases h
  case isFalse hlong =>
    cases h
    exact ⟨(take_append_drop _ _).symm, length_take_of_le (Nat.not_lt.mp hlong)⟩

def Leaves (act : EStateM ε (List τ) α) : Prop :=
  ∀ input rest v, act input = .ok v rest → rest <:+ input

theorem leaves_readExact (eof : ε) (n : Nat) :
    Leaves (readExact eof n : EStateM ε (List τ) (List τ)) := by
  intro input rest v h
  rw [(readExact_eq_ok h).1]
  exact suffix_append _ _

theorem leaves_ofExcept (r : Except ε α) : Leaves (EStateM.ofExcept r : EStateM ε (List τ) α) := by
  intro input rest v h
  obtain ⟨-, rfl⟩ := EStateM.ofExcept_eq_ok_iff.mp h
  exact suffix_refl _

theorem leaves_pure (v : α) : Leaves (pure v : EStateM ε (List τ) α) := leaves_ofExcept (.ok v)

theorem Leaves.bind (h : Leaves act) (hf : ∀ v, Leaves (f v)) : Leaves (act >>= f) := by
  intro input rest v hrun
  obtain ⟨u, mid, hact, hf'⟩ := EStateM.bind_eq_ok_iff.mp hrun
  exact (hf u _ _ _ hf').trans (h _ _ _ hact)

structure Takes (act : EStateM ε (List τ) α) (a : List τ) (v : α) : Prop where
  whole : ∀ rest, act (a ++ rest) = .ok v rest
  short : ∀ cut, cut <+: a → cut ≠ a → ∃ e rest, act cut = .error e rest

theorem takes_readExact (eof : ε) (h : a.length = n) : Takes (readExact eof n) a a where
  whole rest := by
    have hlong : ¬ (a ++ rest).length < n := by
      rw [length_append]
      omega
    rw [readExact, if_neg hlong, take_left' h, drop_left' h]
  short cut hstarts hne := by
    have hle := hstarts.length_le
    have hlt : cut.length < n := by
      rcases Nat.lt_or_ge cut.length n with hlt | hge
      · exact hlt
      · exact absurd (hstarts.eq_of_length (by omega)) hne
    exact ⟨eof, [], if_pos hlt⟩

theorem Takes.of_const (h : ∀ rest, act rest = .ok v rest) : Takes act [] v where
  whole := h
  short _ hstarts hne := absurd (prefix_nil.mp hstarts) hne

theorem takes_pure (v : α) : Takes (pure v : EStateM ε (List τ) α) [] v := .of_const fun _ => rfl

theorem takes_ofExcept {r : Except ε α} (h : r = .ok v) :
    Takes (EStateM.ofExcept r : EStateM ε (List τ) α) [] v := .of_const fun _ => by rw [h]; rfl

theorem takes_ensure {c : Prop} [Decidable c] {e : ε} (hc : c) :
    Takes (EStateM.ofExcept (Except.ensure c e) : EStateM ε (List τ) Unit) [] () :=
  takes_ofExcept (Except.ensure_true hc e)

theorem cut_append {cut : List τ} (h : cut <+: a ++ b) (hne : cut ≠ a ++ b) :
    (cut <+: a ∧ cut ≠ a) ∨ ∃ cut', cut = a ++ cut' ∧ cut' <+: b ∧ cut' ≠ b := by
  rcases Nat.lt_or_ge cut.length a.length with hlt | hge
  · left
    refine ⟨prefix_of_prefix_length_le h (prefix_append a b) (by omega), ?_⟩
    intro heq
    rw [heq] at hlt
    omega
  · right
    obtain ⟨cut', rfl⟩ := prefix_of_prefix_length_le (prefix_append a b) h hge
    exact ⟨cut', rfl, (prefix_append_right_inj a).mp h, fun heq => hne (by rw [heq])⟩

theorem Takes.bind (h : Takes act a v) (hf : Takes (f v) b w) : Takes (act >>= f) (a ++ b) w where
  whole rest := by
    rw [append_assoc, EStateM.bind_of_ok (h.whole _)]
    exact hf.whole rest
  short cut hstarts hne := by
    rcases cut_append hstarts hne with ⟨hcut, hcut'⟩ | ⟨cut', rfl, hcut, hcut'⟩
    · obtain ⟨e, rest, herr⟩ := h.short cut hcut hcut'
      exact ⟨e, rest, EStateM.bind_of_error herr⟩
    · obtain ⟨e, rest, herr⟩ := hf.short cut' hcut hcut'
      exact ⟨e, rest, by rw [EStateM.bind_of_ok (h.whole _)]; exact herr⟩

theorem Takes.check (h : Takes act [] v) (hf : Takes (f v) b w) : Takes (act >>= f) b w := h.bind hf

end ByteReader
