/-
Workers that share a list of tasks. A pool that is not done can move, and each
move uses something up.
-/
import Mathlib.Algebra.GroupWithZero.Nat
import Mathlib.Data.List.Basic

namespace WorkPool

open List

variable {α β : Type}

inductive Worker (α : Type)
  | ready
  | holding (idx : Nat) (task : α)
  | finished
  deriving DecidableEq, Repr

structure Pool (α β : Type) where
  cursor : Nat
  workers : List (Worker α)
  channel : List (Nat × β)
  results : List (Option β)

inductive Move
  | take (worker : Nat)
  | send (worker : Nat)
  | receive
  deriving DecidableEq, Repr

def Pool.start (tasks : List α) (count : Nat) : Pool α β :=
  { cursor := 0
    workers := List.replicate count .ready
    channel := []
    results := List.replicate tasks.length none }

def Worker.taking (tasks : List α) (idx : Nat) : Worker α :=
  match tasks[idx]? with
  | some task => .holding idx task
  | none => .finished

def Pool.step (tasks : List α) (f : α → β) (p : Pool α β) : Move → Option (Pool α β)
  | .take i =>
    match p.workers[i]? with
    | some .ready =>
      some { p with
        cursor := p.cursor + 1
        workers := p.workers.set i (.taking tasks p.cursor) }
    | _ => none
  | .send i =>
    match p.workers[i]? with
    | some (.holding idx task) =>
      some { p with
        workers := p.workers.set i .ready
        channel := p.channel ++ [(idx, f task)] }
    | _ => none
  | .receive =>
    match p.channel with
    | (idx, result) :: rest =>
      some { p with
        channel := rest
        results := p.results.set idx (some result) }
    | [] => none

def Pool.run (tasks : List α) (f : α → β) (schedule : List Move)
    (p : Pool α β) : Option (Pool α β) := schedule.foldlM (Pool.step tasks f) p

def Pool.done (p : Pool α β) : Bool :=
  (p.workers.all fun w => w matches .finished) && p.channel.isEmpty

variable {tasks : List α} {f : α → β} {p p' : Pool α β}
variable {i count : Nat} {schedule : List Move} {γ : Type} {l : List γ} {a b : γ} {m : Move}

theorem step_take (h : p.step tasks f (.take i) = some p') : p.workers[i]? = some .ready
      ∧ p' = { p with
          cursor := p.cursor + 1
          workers := p.workers.set i (.taking tasks p.cursor) } := by
  simp only [Pool.step] at h
  split at h
  next hready => exact ⟨hready, (Option.some.inj h).symm⟩
  next => cases h

theorem step_send (h : p.step tasks f (.send i) = some p') :
    ∃ idx task, p.workers[i]? = some (.holding idx task)
      ∧ p' = { p with
          workers := p.workers.set i .ready
          channel := p.channel ++ [(idx, f task)] } := by
  simp only [Pool.step] at h
  split at h
  next idx task hholds => exact ⟨idx, task, hholds, (Option.some.inj h).symm⟩
  next => cases h

theorem step_receive (h : p.step tasks f .receive = some p') :
    ∃ idx result rest, p.channel = (idx, result) :: rest
      ∧ p' = { p with
          channel := rest
          results := p.results.set idx (some result) } := by
  simp only [Pool.step] at h
  split at h
  next idx result rest hchannel => exact ⟨idx, result, rest, hchannel, (Option.some.inj h).symm⟩
  next => cases h

theorem run_invariant {I : Pool α β → Prop}
    (hstep : ∀ p m p', I p → p.step tasks f m = some p' → I p') (hp : I p)
    (hrun : p.run tasks f schedule = some p') : I p' := by
  induction schedule generalizing p with
  | nil =>
    cases hrun
    exact hp
  | cons m schedule ih =>
    obtain ⟨p₁, hm, hrest⟩ := Option.bind_eq_some_iff.mp hrun
    exact ih (hstep p m p₁ hp hm) hrest

def Pool.Has (p : Pool α β) (idx : Nat) : Prop :=
  (∃ task, .holding idx task ∈ p.workers)
    ∨ (∃ result, (idx, result) ∈ p.channel) ∨ ∃ result, p.results[idx]? = some (some result)

structure Placed (tasks : List α) (f : α → β) (p : Pool α β) : Prop where
  count : p.results.length = tasks.length
  held : ∀ (idx : Nat) task, .holding idx task ∈ p.workers → tasks[idx]? = some task
  sent : ∀ (idx : Nat) result, (idx, result) ∈ p.channel → tasks[idx]?.map f = some result
  kept : ∀ (idx : Nat) result, p.results[idx]? = some (some result) →
    tasks[idx]?.map f = some result
  taken : ∀ idx < p.cursor, idx < tasks.length → p.Has idx
  spent : .finished ∈ p.workers → tasks.length ≤ p.cursor

theorem placed_start (count : Nat) : Placed tasks f (Pool.start tasks count) where
  count := length_replicate
  held := by
    intro idx task h
    cases eq_of_mem_replicate h
  sent := by
    intro idx result h
    cases h
  kept := by
    intro idx result h
    have hmem := mem_of_getElem? h
    cases eq_of_mem_replicate hmem
  taken := by
    intro idx h
    exact absurd h (Nat.not_lt_zero idx)
  spent := by
    intro h
    cases eq_of_mem_replicate h

theorem mem_set_of_ne {c : γ} (hi : l[i]? = some a) (hc : c ∈ l) (hne : c ≠ a) : c ∈ l.set i b := by
  obtain ⟨j, hj⟩ := mem_iff_getElem?.mp hc
  have hij : i ≠ j := by
    intro heq
    rw [heq, hj] at hi
    exact hne (Option.some.inj hi)
  exact mem_iff_getElem?.mpr ⟨j, (getElem?_set_ne hij).trans hj⟩

theorem mem_set_self (hi : l[i]? = some a) : b ∈ l.set i b := by
  obtain ⟨hlt, -⟩ := List.getElem?_eq_some_iff.mp hi
  exact List.mem_set hlt b

theorem Placed.take {i : Nat} (h : Placed tasks f p)
    (hstep : p.step tasks f (.take i) = some p') : Placed tasks f p' := by
  obtain ⟨hready, rfl⟩ := step_take hstep
  refine ⟨h.count, ?_, h.sent, h.kept, ?_, ?_⟩
  · intro idx task hmem
    rcases mem_or_eq_of_mem_set hmem with hold | hnew
    · exact h.held idx task hold
    · unfold Worker.taking at hnew
      split at hnew
      next task' htask =>
        cases hnew
        exact htask
      next => cases hnew
  · intro idx hidx hlt
    rcases Nat.lt_succ_iff_lt_or_eq.mp hidx with hlow | rfl
    · rcases h.taken idx hlow hlt with ⟨task, hheld⟩ | helse
      · exact .inl ⟨task, mem_set_of_ne hready hheld (by simp)⟩
      · exact .inr helse
    · have htaking : Worker.taking tasks p.cursor = .holding p.cursor tasks[p.cursor] := by
        rw [Worker.taking, getElem?_eq_getElem hlt]
      rw [htaking]
      exact .inl ⟨_, mem_set_self hready⟩
  · intro hmem
    rcases mem_or_eq_of_mem_set hmem with hold | hnew
    · exact Nat.le_succ_of_le (h.spent hold)
    · unfold Worker.taking at hnew
      split at hnew
      next => cases hnew
      next hnone => exact Nat.le_succ_of_le (getElem?_eq_none_iff.mp hnone)

theorem Placed.send {i : Nat} (h : Placed tasks f p)
    (hstep : p.step tasks f (.send i) = some p') : Placed tasks f p' := by
  obtain ⟨idx₀, task₀, hholds, rfl⟩ := step_send hstep
  have htask := h.held idx₀ task₀ (mem_of_getElem? hholds)
  refine ⟨h.count, ?_, ?_, h.kept, ?_, ?_⟩
  · intro idx task hmem
    rcases mem_or_eq_of_mem_set hmem with hold | hnew
    · exact h.held idx task hold
    · cases hnew
  · intro idx result hmem
    rcases mem_append.mp hmem with hold | hnew
    · exact h.sent idx result hold
    · cases mem_singleton.mp hnew
      rw [htask, Option.map_some]
  · intro idx hidx hlt
    rcases h.taken idx hidx hlt with ⟨task, hheld⟩ | ⟨result, hsent⟩ | hkept
    · by_cases hsame : Worker.holding idx task = .holding idx₀ task₀
      · cases hsame
        exact .inr (.inl ⟨_, mem_append_right _ (mem_singleton.mpr rfl)⟩)
      · exact .inl ⟨task, mem_set_of_ne hholds hheld hsame⟩
    · exact .inr (.inl ⟨result, mem_append_left _ hsent⟩)
    · exact .inr (.inr hkept)
  · intro hmem
    rcases mem_or_eq_of_mem_set hmem with hold | hnew
    · exact h.spent hold
    · cases hnew

theorem Placed.receive (h : Placed tasks f p)
    (hstep : p.step tasks f .receive = some p') : Placed tasks f p' := by
  obtain ⟨idx₀, result₀, rest, hchannel, rfl⟩ := step_receive hstep
  have hfirst := h.sent idx₀ result₀ (by
    rw [hchannel]
    exact mem_cons_self)
  have hlt₀ : idx₀ < p.results.length := by
    obtain ⟨task, htask, -⟩ := Option.map_eq_some_iff.mp hfirst
    rw [h.count]
    exact (List.getElem?_eq_some_iff.mp htask).1
  have hplaced : (p.results.set idx₀ (some result₀))[idx₀]? = some (some result₀) := by
    rw [getElem?_set_self hlt₀]
  refine ⟨?_, h.held, ?_, ?_, ?_, h.spent⟩
  · rw [length_set]
    exact h.count
  · intro idx result hmem
    refine h.sent idx result ?_
    rw [hchannel]
    exact mem_cons_of_mem _ hmem
  · intro idx result hget
    by_cases hidx : idx₀ = idx
    · subst hidx
      rw [hplaced] at hget
      cases hget
      exact hfirst
    · rw [getElem?_set_ne hidx] at hget
      exact h.kept idx result hget
  · intro idx hidx hlt
    by_cases hsame : idx₀ = idx
    · subst hsame
      exact .inr (.inr ⟨_, hplaced⟩)
    · rcases h.taken idx hidx hlt with hheld | ⟨result, hsent⟩ | ⟨r, hkept⟩
      · exact .inl hheld
      · rw [hchannel] at hsent
        rcases mem_cons.mp hsent with heq | hrest
        · cases heq
          exact absurd rfl hsame
        · exact .inr (.inl ⟨result, hrest⟩)
      · refine .inr (.inr ⟨r, ?_⟩)
        rw [getElem?_set_ne hsame]
        exact hkept

theorem Placed.step (h : Placed tasks f p)
    (hstep : p.step tasks f m = some p') : Placed tasks f p' := by
  cases m with
  | take i => exact h.take hstep
  | send i => exact h.send hstep
  | receive => exact h.receive hstep

theorem Placed.results (h : Placed tasks f p) (hsome : p.workers ≠ [])
    (hdone : p.done = true) : p.results = tasks.map fun t => some (f t) := by
  obtain ⟨hall, hempty⟩ := Bool.and_eq_true_iff.mp hdone
  have hfinished : ∀ w ∈ p.workers, w = .finished := by
    intro w hw
    have hmatch := all_eq_true.mp hall w hw
    cases w with
    | ready => cases hmatch
    | holding idx task => cases hmatch
    | finished => rfl
  have hspent : tasks.length ≤ p.cursor := by
    obtain ⟨w, hw⟩ := exists_mem_of_ne_nil _ hsome
    refine h.spent ?_
    rw [← hfinished w hw]
    exact hw
  refine ext_getElem? fun idx => ?_
  rw [getElem?_map]
  by_cases hlt : idx < tasks.length
  · rcases h.taken idx (by omega) hlt with ⟨task, hheld⟩ | hsent | hkept
    · cases hfinished _ hheld
    · obtain ⟨result, hsent⟩ := hsent
      rw [isEmpty_iff.mp hempty] at hsent
      cases hsent
    · obtain ⟨result, hget⟩ := hkept
      obtain ⟨task, htask, rfl⟩ := Option.map_eq_some_iff.mp (h.kept idx result hget)
      rw [hget, htask, Option.map_some]
  · rw [getElem?_eq_none (by rw [h.count]; omega), getElem?_eq_none (by omega), Option.map_none]

theorem length_workers_step (h : p.step tasks f m = some p') :
    p'.workers.length = p.workers.length := by
  cases m with
  | take i =>
    obtain ⟨-, rfl⟩ := step_take h
    exact length_set
  | send i =>
    obtain ⟨-, -, -, rfl⟩ := step_send h
    exact length_set
  | receive =>
    obtain ⟨-, -, -, -, rfl⟩ := step_receive h
    rfl

theorem results_of_run (hcount : 0 < count)
    (hrun : (Pool.start tasks count).run tasks f schedule = some p)
    (hdone : p.done = true) : p.results = tasks.map fun t => some (f t) := by
  have hplaced : Placed tasks f p :=
    run_invariant (fun _ _ _ h hstep => h.step hstep) (placed_start count) hrun
  have hlength : p.workers.length = count := run_invariant (I := fun p => p.workers.length = count)
      (fun _ _ _ h hstep => (length_workers_step hstep).trans h) length_replicate hrun
  refine hplaced.results ?_ hdone
  exact ne_nil_of_length_pos (by omega)

theorem run_append {p₁ p₂ : Pool α β} {more : List Move}
    (hrun : p.run tasks f schedule = some p₁) (hmore : p₁.run tasks f more = some p₂) :
    p.run tasks f (schedule ++ more) = some p₂ := by
  rw [Pool.run, foldlM_append]
  exact Option.bind_eq_some_iff.mpr ⟨p₁, hrun, hmore⟩

def Worker.weight : Worker α → Nat
  | .ready => 1
  | .holding _ _ => 3
  | .finished => 0

def Pool.remaining (tasks : List α) (p : Pool α β) : Nat :=
  4 * (tasks.length - p.cursor) + (p.workers.map Worker.weight).sum + p.channel.length

theorem sum_map_set {γ : Type} {w : γ → Nat} {l : List γ} {i : Nat}
    {a : γ} (b : γ) (hi : l[i]? = some a) :
    ((l.set i b).map w).sum + w a = (l.map w).sum + w b := by
  induction l generalizing i with
  | nil => cases hi
  | cons c l ih =>
    cases i with
    | zero =>
      cases hi
      simp only [set_cons_zero, map_cons, sum_cons]
      omega
    | succ i =>
      have hrest := ih hi
      simp only [set_cons_succ, map_cons, sum_cons]
      omega

theorem remaining_step (h : p.step tasks f m = some p') :
    p'.remaining tasks < p.remaining tasks := by
  cases m with
  | take i =>
    obtain ⟨hready, rfl⟩ := step_take h
    have hsum := sum_map_set (w := Worker.weight) (.taking tasks p.cursor) hready
    have hone : (Worker.ready : Worker α).weight = 1 := rfl
    simp only [Pool.remaining]
    by_cases hlt : p.cursor < tasks.length
    · have hweight : (Worker.taking tasks p.cursor).weight = 3 := by
        rw [Worker.taking, getElem?_eq_getElem hlt]
        rfl
      omega
    · have hweight : (Worker.taking tasks p.cursor).weight = 0 := by
        rw [Worker.taking, getElem?_eq_none (by omega)]
        rfl
      omega
  | send i =>
    obtain ⟨idx, task, hholds, rfl⟩ := step_send h
    have hsum := sum_map_set (w := Worker.weight) .ready hholds
    simp only [Pool.remaining, Worker.weight, length_append, length_singleton] at hsum ⊢
    omega
  | receive =>
    obtain ⟨idx, result, rest, hchannel, rfl⟩ := step_receive h
    simp only [Pool.remaining, hchannel, length_cons]
    omega

theorem length_run (hrun : p.run tasks f schedule = some p') :
    schedule.length + p'.remaining tasks ≤ p.remaining tasks := by
  induction schedule generalizing p with
  | nil =>
    cases hrun
    exact Nat.le_of_eq (Nat.zero_add _)
  | cons m schedule ih =>
    obtain ⟨p₁, hm, hrest⟩ := Option.bind_eq_some_iff.mp hrun
    have hstep := remaining_step hm
    have hlater := ih hrest
    rw [length_cons]
    omega

theorem length_run_start (hrun : (Pool.start tasks count).run tasks f schedule = some p) :
    schedule.length ≤ 4 * tasks.length + count := by
  have hstart : (Pool.start (β := β) tasks count).remaining tasks = 4 * tasks.length + count := by
    simp [Pool.remaining, Pool.start, Worker.weight]
  have hbound := length_run hrun
  omega

theorem exists_step (tasks : List α) (f : α → β) (h : p.done = false) :
    ∃ m p', p.step tasks f m = some p' := by
  cases hall : p.workers.all fun w => w matches .finished with
  | true =>
    rw [Pool.done, hall, Bool.true_and] at h
    cases hchannel : p.channel with
    | nil =>
      rw [hchannel] at h
      cases h
    | cons e rest =>
      refine ⟨.receive, { p with
        channel := rest
        results := p.results.set e.1 (some e.2) }, ?_⟩
      simp only [Pool.step, hchannel]
  | false =>
    obtain ⟨w, hw, hbusy⟩ := all_eq_false.mp hall
    obtain ⟨i, hi⟩ := mem_iff_getElem?.mp hw
    cases w with
    | ready =>
      refine ⟨.take i, { p with
        cursor := p.cursor + 1
        workers := p.workers.set i (.taking tasks p.cursor) }, ?_⟩
      simp only [Pool.step, hi]
    | holding idx task =>
      refine ⟨.send i, { p with
        workers := p.workers.set i .ready
        channel := p.channel ++ [(idx, f task)] }, ?_⟩
      simp only [Pool.step, hi]
    | finished => exact absurd rfl hbusy

theorem exists_run_done (tasks : List α) (f : α → β) (p : Pool α β) :
    ∃ schedule p', p.run tasks f schedule = some p' ∧ p'.done = true := by
  induction hn : p.remaining tasks using Nat.strongRecOn generalizing p with
  | ind n ih =>
    cases hdone : p.done with
    | true => exact ⟨[], p, rfl, hdone⟩
    | false =>
      obtain ⟨m, p₁, hm⟩ := exists_step tasks f hdone
      have hless := remaining_step hm
      rw [hn] at hless
      obtain ⟨schedule, p', hrun, hend⟩ := ih _ hless p₁ rfl
      refine ⟨m :: schedule, p', ?_, hend⟩
      rw [Pool.run, foldlM_cons, hm]
      exact hrun

end WorkPool
