/-
What the ingest policy guarantees, as long as the clock does not run
backwards. A second of time meets two windows at most.
-/
import Logjet.Daemon.Policy
import Logjet.Lib.RateWindow

namespace Logjet

open List

namespace IngestPolicyState

variable {config : IngestOverloadConfig} {state : IngestPolicyState}
  {now reportNow : Nat} {priority : BatchPriority}

def second : Nat := 1000000000

@[simp] theorem maybeReportOverload_windowStart : (maybeReportOverload config now state).windowStart
      = state.windowStart := by
  unfold maybeReportOverload
  split
  · rfl
  · split <;> rfl

@[simp] theorem maybeReportOverload_acceptedInWindow :
    (maybeReportOverload config now state).acceptedInWindow = state.acceptedInWindow := by
  unfold maybeReportOverload
  split
  · rfl
  · split <;> rfl

@[simp] theorem maybeReportOverload_stats :
    (maybeReportOverload config now state).stats = state.stats := by
  unfold maybeReportOverload
  split
  · rfl
  · split <;> rfl

theorem turnWindow_spec (hclock : state.windowStart ≤ now) :
    (turnWindow now state = state ∧ now < state.windowStart + second) ∨ (turnWindow now state
        = { state with windowStart := now, acceptedInWindow := 0 }
      ∧ state.windowStart + second ≤ now) := by
  unfold turnWindow
  split
  · rename_i hlong
    exact Or.inr ⟨rfl, by simp only [second]; omega⟩
  · rename_i hshort
    exact Or.inl ⟨rfl, by simp only [second]; omega⟩

@[simp] theorem turnWindow_stats : (turnWindow now state).stats = state.stats := by
  unfold turnWindow
  split <;> rfl

def counter (state : IngestPolicyState) : IngestDecision → UInt64
  | .accept => state.stats.accepted
  | .acceptPriorityBypass => state.stats.priorityBypass
  | .rejectRateLimited => state.stats.rateLimited

structure DecideSpec (config : IngestOverloadConfig)
    (priority : BatchPriority) (before after : IngestPolicyState)
    (decision : IngestDecision) : Prop where
  window : after.windowStart = before.windowStart
  accept : decision = .accept → before.acceptedInWindow < config.maxBatchesPerSecond
      ∧ after.acceptedInWindow = saturatingSucc before.acceptedInWindow
  other : decision ≠ .accept → after.acceptedInWindow = before.acceptedInWindow
  bypass : decision = .acceptPriorityBypass →
    batchPriorityFloor config.prioritySeverityFloor ≤ priority
  counters : ∀ d, after.counter d = if d = decision then saturatingSucc (before.counter d)
    else before.counter d

theorem decide_spec (hlimit : config.maxBatchesPerSecond ≠ 0) :
    DecideSpec config priority (turnWindow now state) (decide config now reportNow priority state).2
      (decide config now reportNow priority state).1 := by
  unfold decide
  dsimp only
  split
  · rename_i hroom
    have hlt := hroom.resolve_left hlimit
    refine ⟨rfl, fun _ => ⟨hlt, rfl⟩, fun hno => absurd rfl hno, nofun, ?_⟩
    rintro (_ | _ | _) <;> rfl
  · split
    · rename_i hfloor
      refine ⟨by simp, nofun, fun _ => by simp, fun _ => hfloor, ?_⟩
      rintro (_ | _ | _) <;> simp [counter]
    · refine ⟨by simp, nofun, fun _ => by simp, nofun, ?_⟩
      rintro (_ | _ | _) <;> simp [counter]

variable {call : DecideCall} {calls : List DecideCall}

def Forward (state : IngestPolicyState) (calls : List DecideCall) : Prop :=
  (state.windowStart :: calls.map DecideCall.now).Pairwise (· ≤ ·)

def afterCall (config : IngestOverloadConfig) (call : DecideCall)
    (state : IngestPolicyState) : IngestPolicyState :=
  (decide config call.now call.reportNow call.priority state).2

theorem decideAll_cons : decideAll config state (call :: calls) = (⟨call,
          (decide config call.now call.reportNow call.priority state).1,
          (afterCall config call state).windowStart⟩
            :: (decideAll config (afterCall config call state) calls).1,
        (decideAll config (afterCall config call state) calls).2) := rfl

theorem Forward.start_le (h : Forward state (call :: calls)) : state.windowStart ≤ call.now :=
  rel_of_pairwise_cons h mem_cons_self

section Limited

variable (hlimit : config.maxBatchesPerSecond ≠ 0)

include hlimit

theorem Forward.window (h : Forward state (call :: calls)) :
    (afterCall config call state).windowStart ≤ call.now
      ∧ call.now < (afterCall config call state).windowStart + second
      ∧ ((afterCall config call state).windowStart = state.windowStart ∨ state.windowStart + second
          ≤ (afterCall config call state).windowStart) := by
  have hstart := h.start_le
  have hspec := @decide_spec config state call.now call.reportNow call.priority hlimit
  rw [afterCall, hspec.window]
  rcases turnWindow_spec hstart with ⟨hsame, hshort⟩ | ⟨hnew, hlong⟩
  · rw [hsame]
    exact ⟨hstart, hshort, Or.inl rfl⟩
  · rw [hnew]
    exact ⟨Nat.le_refl _, by simp [second], Or.inr hlong⟩

theorem Forward.next (h : Forward state (call :: calls)) :
    Forward (afterCall config call state) calls := by
  have hle := (h.window hlimit).1
  obtain ⟨-, htail⟩ := pairwise_cons.mp h
  obtain ⟨hlater, hrest⟩ := pairwise_cons.mp htail
  refine pairwise_cons.mpr ⟨?_, hrest⟩
  intro t ht
  exact Nat.le_trans hle (hlater t ht)

theorem mem_decideAll (h : Forward state calls) {d : Decided}
    (hd : d ∈ (decideAll config state calls).1) :
    (d.window ≤ d.call.now ∧ d.call.now < d.window + second) ∧ (d.window = state.windowStart
        ∨ state.windowStart + second ≤ d.window) := by
  induction calls generalizing state with
  | nil => cases hd
  | cons call calls ih =>
    obtain ⟨hle, hlt, hstart⟩ := h.window hlimit
    rcases mem_cons.mp hd with rfl | hd
    · exact ⟨⟨hle, hlt⟩, hstart⟩
    · obtain ⟨hin, hlater⟩ := ih (h.next hlimit) hd
      refine ⟨hin, ?_⟩
      omega

theorem decideAll_pairwise (h : Forward state calls) :
    (decideAll config state calls).1.Pairwise fun d d' =>
      d.window = d'.window ∨ d.window + second ≤ d'.window := by
  induction calls generalizing state with
  | nil => exact .nil
  | cons call calls ih =>
    refine pairwise_cons.mpr ⟨?_, ih (h.next hlimit)⟩
    intro d' hd'
    rcases (mem_decideAll hlimit (h.next hlimit) hd').2 with heq | hle
    · exact Or.inl heq.symm
    · exact Or.inr hle

theorem decideAll_windowed (h : Forward state calls) :
    RateWindow.Windowed second (fun d : Decided => d.call.now)
      Decided.window (decideAll config state calls).1 where
  inside d hd := (mem_decideAll hlimit h hd).1
  apart d hd d' hd' := by
    have hpairs := decideAll_pairwise hlimit h
    refine @List.Pairwise.forall_of_forall_of_flip Decided _
      (fun d d' => d.window < d'.window → d.window + second ≤ d'.window)
      ?_ (hpairs.imp ?_) (hpairs.imp ?_) d hd d' hd'
    · intro d _ hlt
      exact absurd hlt (Nat.lt_irrefl _)
    · intro d d' hor hlt
      omega
    · intro d d' hor
      show d'.window < d.window → d'.window + second ≤ d.window
      omega

end Limited

def acceptedOf (decided : List Decided) : List Decided :=
  decided.filter fun d => d.decision = .accept

theorem DecideSpec.left {before after : IngestPolicyState} {decision : IngestDecision}
    (h : DecideSpec config priority before after decision) : (if decision = .accept then 1 else 0)
        + (config.maxBatchesPerSecond.toNat - after.acceptedInWindow.toNat)
      ≤ config.maxBatchesPerSecond.toNat - before.acceptedInWindow.toNat := by
  split
  · rename_i haccept
    obtain ⟨hlt, hsucc⟩ := h.accept haccept
    have hmax := config.maxBatchesPerSecond.toNat_lt
    rw [UInt64.lt_iff_toNat_lt] at hlt
    rw [hsucc, toNat_saturatingSucc]
    omega
  · rename_i hother
    rw [h.other hother, Nat.zero_add]

theorem countP_acceptedOf_cons (d : Decided) (decided : List Decided) (w : Nat) :
    (acceptedOf (d :: decided)).countP (fun d => d.window = w)
      = (if d.decision = .accept ∧ d.window = w then 1 else 0)
        + (acceptedOf decided).countP (fun d => d.window = w) := by
  unfold acceptedOf
  rw [countP_filter, countP_filter, countP_cons, Nat.add_comm]
  simp [and_comm]

theorem decideAll_accepted (hlimit : config.maxBatchesPerSecond ≠ 0)
    (h : Forward state calls) (w : Nat) : (acceptedOf (decideAll config state calls).1).countP
        (fun d => d.window = w) ≤ if w = state.windowStart then
          config.maxBatchesPerSecond.toNat - state.acceptedInWindow.toNat
        else config.maxBatchesPerSecond.toNat := by
  induction calls generalizing state with
  | nil => simp [decideAll, acceptedOf]
  | cons call calls ih =>
    have hrest := ih (h.next hlimit)
    have hspec := @decide_spec config state call.now call.reportNow call.priority hlimit
    have hleft := hspec.left
    have hwindow : (afterCall config call state).windowStart
        = (turnWindow call.now state).windowStart := hspec.window
    rw [decideAll_cons, countP_acceptedOf_cons]
    by_cases hown : (afterCall config call state).windowStart = w
    · rw [if_pos hown.symm] at hrest
      simp only [hown, and_true]
      rcases turnWindow_spec h.start_le with ⟨hsame, -⟩ | ⟨hnew, hlong⟩
      · have heq : w = state.windowStart := by rw [← hown, hwindow, hsame]
        rw [if_pos heq]
        rw [hsame] at hleft
        exact Nat.le_trans (Nat.add_le_add_left hrest _) hleft
      · have hne : w ≠ state.windowStart := by
          rw [← hown, hwindow, hnew]
          simp only [second] at hlong
          show call.now ≠ state.windowStart
          omega
        rw [if_neg hne]
        exact Nat.le_trans (Nat.add_le_add_left hrest _) (Nat.le_trans hleft (Nat.sub_le _ _))
    · rw [if_neg fun heq => hown heq.symm] at hrest
      rw [if_neg fun hboth => hown hboth.2, Nat.zero_add]
      by_cases hstart : w = state.windowStart
      · have hnone : (acceptedOf (decideAll config (afterCall config call state) calls).1).countP
              (fun d => d.window = w) = 0 := by
          rw [countP_eq_zero]
          intro d hd
          have hlater := (mem_decideAll hlimit (h.next hlimit) (mem_of_mem_filter hd)).2
          have hover := (h.window hlimit).2.2
          rw [decide_eq_true_eq]
          omega
        rw [hnone]
        exact Nat.zero_le _
      · rw [if_neg hstart]
        exact hrest

def countOf (decision : IngestDecision) (decided : List Decided) : Nat :=
  decided.countP fun d => d.decision = decision

theorem countOf_cons (decision : IngestDecision) (d : Decided) (decided : List Decided) :
    countOf decision (d :: decided) = (if decision = d.decision then 1 else 0)
        + countOf decision decided := by
  unfold countOf
  rw [countP_cons, Nat.add_comm]
  simp [eq_comm]

theorem sum_countOf (decided : List Decided) :
    countOf .accept decided + countOf .acceptPriorityBypass decided
      + countOf .rejectRateLimited decided = decided.length := by
  induction decided with
  | nil => rfl
  | cons d decided ih =>
    rw [countOf_cons, countOf_cons, countOf_cons, length_cons, ← ih]
    cases d.decision <;> simp <;> omega

theorem decideAll_counters (hlimit : config.maxBatchesPerSecond ≠ 0) (decision : IngestDecision) :
    ((decideAll config state calls).2.counter decision).toNat
      = min (2 ^ 64 - 1) ((state.counter decision).toNat
        + countOf decision (decideAll config state calls).1) := by
  induction calls generalizing state with
  | nil =>
    have hmax := (state.counter decision).toNat_lt
    simp only [decideAll, countOf, countP_nil]
    omega
  | cons call calls ih =>
    have hspec := @decide_spec config state call.now call.reportNow call.priority hlimit
    have hcounter := hspec.counters decision
    have hsame : (turnWindow call.now state).counter decision = state.counter decision := by
      unfold counter
      rw [turnWindow_stats]
    rw [hsame] at hcounter
    rw [decideAll_cons, countOf_cons]
    show ((decideAll config (afterCall config call state) calls).2.counter decision).toNat = _
    rw [ih, afterCall, hcounter]
    split
    · rw [toNat_saturatingSucc]
      omega
    · rw [Nat.zero_add]

theorem decideAll_calls (state : IngestPolicyState) (calls : List DecideCall) :
    (decideAll config state calls).1.map Decided.call = calls := by
  induction calls generalizing state with
  | nil => rfl
  | cons call calls ih => rw [decideAll_cons, map_cons, ih]

theorem mem_decideAll_bypass (hlimit : config.maxBatchesPerSecond ≠ 0)
    {d : Decided} (hd : d ∈ (decideAll config state calls).1)
    (hbypass : d.decision = .acceptPriorityBypass) :
    batchPriorityFloor config.prioritySeverityFloor ≤ d.call.priority := by
  induction calls generalizing state with
  | nil => cases hd
  | cons call calls ih =>
    rcases mem_cons.mp hd with rfl | hd
    · exact (decide_spec hlimit).bypass hbypass
    · exact ih hd

theorem not_floor_le_unknown (floor : SeverityFloor) : ¬ batchPriorityFloor floor ≤ .unknown := by
  cases floor <;> decide

/-- A window never takes more than the limit. -/
theorem ingest_rate_bounded (config : IngestOverloadConfig)
    (hlimit : 0 < config.maxBatchesPerSecond) (start : Nat)
    (calls : List DecideCall)
    (hclock : (start :: calls.map DecideCall.now).Pairwise (· ≤ ·)) :
    let decided :=
  (decideAll config (new config start) calls).1
    let final := (decideAll config (new config start) calls).2
    decided.map Decided.call = calls
      ∧ (∀ w, (acceptedOf decided).countP (fun d => d.window = w)
        ≤ config.maxBatchesPerSecond.toNat)
      ∧ (∀ t l, l ≤ second → (acceptedOf decided).countP
          (fun d => t ≤ d.call.now ∧ d.call.now ≤ t + l)
        ≤ 2 * config.maxBatchesPerSecond.toNat)
      ∧ (∀ decision, (final.counter decision).toNat
        = min (2 ^ 64 - 1) (countOf decision decided))
      ∧ ((∀ decision, countOf decision decided < 2 ^ 64) →
        final.stats.accepted.toNat + final.stats.priorityBypass.toNat
          + final.stats.rateLimited.toNat = calls.length)
      ∧ ∀ d ∈ decided, d.call.priority = .unknown →
        d.decision ≠ .acceptPriorityBypass := by
  have hne : config.maxBatchesPerSecond ≠ 0 := (UInt64.ne_of_lt hlimit).symm
  have hforward : Forward (new config start) calls := hclock
  have hcalls := @decideAll_calls config (new config start) calls
  have hwindow : ∀ w, (acceptedOf (decideAll config (new config start)
      calls).1).countP (fun d => d.window = w)
        ≤ config.maxBatchesPerSecond.toNat := by
    intro w
    refine Nat.le_trans (decideAll_accepted hne hforward w) ?_
    split
    · exact Nat.sub_le _ _
    · exact Nat.le_refl _
  have hcounters : ∀ decision,
      ((decideAll config (new config start) calls).2.counter decision).toNat
        = min (2 ^ 64 - 1) (countOf decision
          (decideAll config (new config start) calls).1) := by
    intro decision
    rw [decideAll_counters hne decision]
    cases decision <;> simp [new, counter]
  refine ⟨hcalls, hwindow, ?_, hcounters, ?_, ?_⟩
  · intro t l hl
    exact RateWindow.countP_interval_le
      ((decideAll_windowed hne hforward).sublist filter_sublist) hwindow
      hl
  · intro hfew
    have haccept := hcounters .accept
    have hbypass := hcounters .acceptPriorityBypass
    have hreject := hcounters .rejectRateLimited
    have hfew₁ := hfew .accept
    have hfew₂ := hfew .acceptPriorityBypass
    have hfew₃ := hfew .rejectRateLimited
    have hsum := sum_countOf (decideAll config (new config start) calls).1
    have hlength := congrArg List.length hcalls
    rw [length_map] at hlength
    simp only [counter] at haccept hbypass hreject
    omega
  · intro d hd hunknown hbypass
    have hfloor := mem_decideAll_bypass hne hd hbypass
    rw [hunknown] at hfloor
    exact not_floor_le_unknown _ hfloor

def oneASecond : IngestOverloadConfig :=
  { maxBatchesPerSecond := 1, prioritySeverityFloor := .warn
    reportEveryMs := 0 }

theorem ingest_rate_bounded_two_windows : let calls : List DecideCall :=
      [⟨0, 0, .unknown⟩, ⟨999999999, 999999999, .error⟩, ⟨1000000000, 1000000000, .unknown⟩]
    (acceptedOf (decideAll oneASecond (new oneASecond 0) calls).1).countP
        (fun d => 0 ≤ d.call.now ∧ d.call.now ≤ 0 + second) = 2
      ∧ (acceptedOf (decideAll oneASecond (new oneASecond 0) calls).1).countP
          (fun d => 0 ≤ d.call.now ∧ d.call.now ≤ 0 + second) ≤ 2 * 1 := by
  refine ⟨by decide, ?_⟩
  exact (ingest_rate_bounded oneASecond (by decide) 0 _ (by decide)).2.2.1 0 second (Nat.le_refl _)

def callsAtOnce (n : Nat) : List DecideCall := List.replicate n ⟨0, 0, .unknown⟩

theorem forward_callsAtOnce (n : Nat) : Forward (new oneASecond 0) (callsAtOnce n) := by
  unfold Forward callsAtOnce
  rw [map_replicate, pairwise_cons]
  constructor
  · intro t _
    exact Nat.zero_le t
  · exact pairwise_replicate.mpr (Or.inr (Nat.le_refl 0))

theorem countOf_callsAtOnce (n : Nat) : countOf .accept
        (decideAll oneASecond (new oneASecond 0) (callsAtOnce n)).1 ≤ 1
      ∧ countOf .acceptPriorityBypass
        (decideAll oneASecond (new oneASecond 0) (callsAtOnce n)).1 = 0 := by
  have hlimit : oneASecond.maxBatchesPerSecond ≠ 0 := by decide
  have hforward := forward_callsAtOnce n
  have hcall : ∀ d ∈ (decideAll oneASecond (new oneASecond 0)
      (callsAtOnce n)).1, d.call = ⟨0, 0, .unknown⟩ := by
    intro d hd
    have hmem := mem_map_of_mem hd (f := Decided.call)
    rw [decideAll_calls] at hmem
    exact eq_of_mem_replicate hmem
  constructor
  · have haccepted := decideAll_accepted hlimit hforward 0
    have hall : (acceptedOf (decideAll oneASecond (new oneASecond 0)
        (callsAtOnce n)).1).countP (fun d => d.window = 0)
          = countOf .accept (decideAll oneASecond (new oneASecond 0) (callsAtOnce n)).1 := by
      rw [acceptedOf, countOf, countP_filter]
      apply countP_congr
      intro d hd
      have hin := (mem_decideAll hlimit hforward hd).1.1
      rw [hcall d hd] at hin
      simp [Nat.le_zero.mp hin]
    rw [hall] at haccepted
    exact haccepted
  · rw [countOf, countP_eq_zero]
    intro d hd hbypass
    have hfloor := mem_decideAll_bypass hlimit hd (by simpa using hbypass)
    rw [hcall d hd] at hfloor
    exact not_floor_le_unknown _ hfloor

theorem counters_callsAtOnce {n : Nat} (hn : 2 ^ 64 < n) : (decideAll oneASecond (new oneASecond 0)
          (callsAtOnce n)).2.stats.accepted.toNat + (decideAll oneASecond (new oneASecond 0)
          (callsAtOnce n)).2.stats.priorityBypass.toNat + (decideAll oneASecond (new oneASecond 0)
          (callsAtOnce n)).2.stats.rateLimited.toNat ≠ (callsAtOnce n).length := by
  have hlimit : oneASecond.maxBatchesPerSecond ≠ 0 := by decide
  obtain ⟨hone, hnone⟩ := countOf_callsAtOnce n
  have haccept := @decideAll_counters oneASecond (new oneASecond 0) (callsAtOnce n) hlimit .accept
  have hbypass := @decideAll_counters oneASecond (new oneASecond 0)
    (callsAtOnce n) hlimit .acceptPriorityBypass
  have hreject := (decideAll oneASecond (new oneASecond 0)
    (callsAtOnce n)).2.stats.rateLimited.toNat_lt
  have hlength : (callsAtOnce n).length = n := length_replicate
  have hzero : ∀ d, ((new oneASecond 0).counter d).toNat = 0 := by rintro (_ | _ | _) <;> rfl
  rw [hzero] at haccept hbypass
  simp only [counter] at haccept hbypass
  omega

theorem ingest_counters_saturate : Forward (new oneASecond 0) (callsAtOnce (2 ^ 64 + 1))
      ∧ (decideAll oneASecond (new oneASecond 0) (callsAtOnce (2 ^ 64 + 1))).2.stats.accepted.toNat
          + (decideAll oneASecond (new oneASecond 0)
            (callsAtOnce (2 ^ 64 + 1))).2.stats.priorityBypass.toNat
          + (decideAll oneASecond (new oneASecond 0)
            (callsAtOnce (2 ^ 64 + 1))).2.stats.rateLimited.toNat
        ≠ (callsAtOnce (2 ^ 64 + 1)).length :=
  ⟨forward_callsAtOnce _, counters_callsAtOnce (Nat.lt_succ_self _)⟩

end IngestPolicyState

end Logjet
