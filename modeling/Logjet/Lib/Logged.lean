/-
Computations with a log. `Logs P act a`: without it `act` is `a`, and every
entry it appends is in `P`. `Notes entry act`: the entry does get appended.
-/
import Logjet.Lib.Result

namespace Logged

open List

variable {ε ω α β : Type} {P : ω → Prop}

def note (entry : ω) : EStateM ε (List ω) Unit := modify fun log => log ++ [entry]

def outcome {σ : Type} : EStateM.Result ε σ α → Except ε α
  | .ok a _ => .ok a
  | .error e _ => .error e

def log : EStateM.Result ε (List ω) α → List ω
  | .ok _ entries => entries
  | .error _ entries => entries

def entries (act : EStateM ε (List ω) α) : List ω := log (act [])

structure Logs (P : ω → Prop) (act : EStateM ε (List ω) α) (a : Except ε α) : Prop where
  forgets : ∀ before, outcome (act before) = a
  keeps : ∀ before, ∃ more, log (act before) = before ++ more ∧ ∀ entry ∈ more, P entry

namespace Logs

theorem ofExcept (a : Except ε α) : Logs P (EStateM.ofExcept a) a := by
  cases a with
  | ok v => exact ⟨fun _ => rfl, fun before => ⟨[], (append_nil before).symm, nofun⟩⟩
  | error e => exact ⟨fun _ => rfl, fun before => ⟨[], (append_nil before).symm, nofun⟩⟩

theorem pure (v : α) : Logs P (Pure.pure v : EStateM ε (List ω) α) (.ok v) := ofExcept (.ok v)

theorem note {entry : ω} {act : EStateM ε (List ω) α} {a : Except ε α}
    (hentry : P entry) (h : Logs P act a) : Logs P (Logged.note entry >>= fun _ => act) a := by
  refine ⟨fun before => h.forgets (before ++ [entry]), fun before => ?_⟩
  obtain ⟨more, hlog, hmore⟩ := h.keeps (before ++ [entry])
  refine ⟨entry :: more, ?_, ?_⟩
  · rw [append_cons]
    exact hlog
  · intro e he
    rcases mem_cons.mp he with rfl | he
    · exact hentry
    · exact hmore e he

theorem bind {act : EStateM ε (List ω) α} {a : Except ε α}
    {f : α → EStateM ε (List ω) β} {g : α → Except ε β}
    (h : Logs P act a) (hf : ∀ v, a = .ok v → Logs P (f v) (g v)) :
    Logs P (act >>= f) (a >>= g) := by
  constructor
  · intro before
    have hout := h.forgets before
    cases hrun : act before with
    | ok v after =>
      rw [hrun] at hout
      rw [EStateM.bind_of_ok hrun, ← hout]
      exact (hf v hout.symm).forgets after
    | error e after =>
      rw [hrun] at hout
      rw [EStateM.bind_of_error hrun, ← hout]
      rfl
  · intro before
    have hout := h.forgets before
    obtain ⟨more, hlog, hmore⟩ := h.keeps before
    cases hrun : act before with
    | ok v after =>
      rw [hrun] at hout hlog
      obtain ⟨more', hlog', hmore'⟩ := (hf v hout.symm).keeps after
      refine ⟨more ++ more', ?_, ?_⟩
      · rw [EStateM.bind_of_ok hrun, hlog', show after = before ++ more from hlog, append_assoc]
      · intro e he
        rcases mem_append.mp he with he | he
        · exact hmore e he
        · exact hmore' e he
    | error e after =>
      rw [hrun] at hlog
      rw [EStateM.bind_of_error hrun]
      exact ⟨more, hlog, hmore⟩

end Logs

/-- Whatever stood in the log before, `act` adds `entry` to it. -/
def Notes (entry : ω) (act : EStateM ε (List ω) α) : Prop :=
  ∀ before, entry ∈ log (act before)

namespace Notes

variable {entry : ω}

theorem here {act : EStateM ε (List ω) α} {a : Except ε α}
    (h : Logs P act a) : Notes entry (note entry >>= fun _ => act) := by
  intro before
  obtain ⟨more, hlog, -⟩ := h.keeps (before ++ [entry])
  have hmem : entry ∈ log (act (before ++ [entry])) := by
    rw [hlog]
    exact mem_append_left _ (mem_append_right _ mem_cons_self)
  exact hmem

theorem later {act : EStateM ε (List ω) α} {f : α → EStateM ε (List ω) β}
    {v : α} (h : ∀ before, outcome (act before) = .ok v)
    (hf : Notes entry (f v)) : Notes entry (act >>= f) := by
  intro before
  have hout := h before
  cases hrun : act before with
  | ok w after =>
    rw [hrun] at hout
    cases hout
    rw [EStateM.bind_of_ok hrun]
    exact hf after
  | error e after =>
    rw [hrun] at hout
    cases hout

end Notes

end Logged
