/-
Standard input cannot be read: `from_stdin` opens with `create_new` a file
that is there.
-/
import Logjet.Ljx.Input
import Logjet.Spool.Proofs.Disk

namespace Logjet.Ljx

open EStateM

variable {sys : Surroundings} {dir dir' : Directory} {path : Text}

theorem createNew_has (h : createNew path dir = .ok () dir') : dir'.has path := by
  unfold createNew at h
  split at h
  · cases h
  · cases h
    rw [Directory.has, Directory.get?_create, if_pos rfl]
    cases dir.get? path with
    | none => rfl
    | some content => rfl

theorem reserve_has {pid : UInt32} {nanos attempt : Nat}
    (h : reserve pid nanos attempt dir = .ok path dir') : dir'.has path := by
  generalize hroom : 2 ^ 32 - attempt = room
  induction room using Nat.strongRecOn generalizing attempt dir with
  | _ room ih =>
    rw [reserve] at h
    cases hnew : createNew (candidate pid nanos attempt) dir with
    | ok u after =>
      rw [hnew] at h
      cases h
      exact createNew_has hnew
    | error err after =>
      rw [hnew] at h
      dsimp only at h
      split at h
      · split at h
        · exact ih _ (by omega) h rfl
        · cases h
      · cases h

theorem createTempPath_has (h : createTempPath sys dir = .ok path dir') : dir'.has path := by
  rw [createTempPath] at h
  cases hclock : sys.clock with
  | error err =>
    rw [hclock] at h
    cases h
  | ok nanos =>
    rw [hclock] at h
    exact reserve_has h

theorem fromStdin_of_reserved (h : createTempPath sys dir = .ok path dir') :
    InputHandle.fromStdin sys dir = .error (.io alreadyExists) dir' := by
  unfold InputHandle.fromStdin
  rw [bind_of_ok h]
  apply bind_of_error
  exact if_pos (createTempPath_has h)

theorem open_stdin_fails (sys : Surroundings) (dir : Directory) :
    ∃ err dir', InputHandle.open sys "-".toList dir = .error err dir' := by
  cases htemp : createTempPath sys dir with
  | error err after => exact ⟨err, after, bind_of_error htemp⟩
  | ok path after => exact ⟨_, after, fromStdin_of_reserved htemp⟩

def ReadsStdin (sys : Surroundings) (dir : Directory) : Prop :=
  ∃ handle dir', InputHandle.open sys "-".toList dir = .ok handle dir' ∧ handle.pos = 0
    ∧ dir'.get? handle.file = some sys.stdin
    ∧ (∀ name, dir.has name → dir'.get? name = dir.get? name) ∧ handle.drop dir' = dir

/-- Standard input is never read. -/
theorem stdin_never_read (sys : Surroundings) (dir : Directory) : ¬ ReadsStdin sys dir := by
  rintro ⟨handle, dir', hopen, -⟩
  obtain ⟨err, after, hfails⟩ := open_stdin_fails sys dir
  rw [hfails] at hopen
  cases hopen

theorem stdin_empty_not_read : ¬ ReadsStdin ⟨[], 1, .ok 0⟩ Directory.empty := by
  rintro ⟨handle, dir', hopen, -⟩
  obtain ⟨err, after, hfails⟩ := open_stdin_fails ⟨[], 1, .ok 0⟩ Directory.empty
  rw [hfails] at hopen
  cases hopen

end Logjet.Ljx
