/-
The ingest policy (daemon.rs `SharedIngestPolicy`): a budget of batches in
each window of a second, over which only severe ones are taken.
-/
import Logjet.Format

namespace Logjet

inductive BatchPriority
  | unknown
  | trace
  | debug
  | info
  | warn
  | error
  | fatal
  deriving DecidableEq, Repr

def BatchPriority.rank : BatchPriority → Nat
  | .unknown => 0
  | .trace => 1
  | .debug => 2
  | .info => 3
  | .warn => 4
  | .error => 5
  | .fatal => 6

instance : LE BatchPriority := ⟨fun a b => a.rank ≤ b.rank⟩

instance (a b : BatchPriority) : Decidable (a ≤ b) := inferInstanceAs (Decidable (a.rank ≤ b.rank))

def BatchPriority.max (a b : BatchPriority) : BatchPriority := if a ≤ b then b else a

inductive SeverityFloor
  | trace
  | debug
  | info
  | warn
  | error
  | fatal
  deriving DecidableEq, Repr

def batchPriorityFloor : SeverityFloor → BatchPriority
  | .trace => .trace
  | .debug => .debug
  | .info => .info
  | .warn => .warn
  | .error => .error
  | .fatal => .fatal

inductive IngestDecision
  | accept
  | acceptPriorityBypass
  | rejectRateLimited
  deriving DecidableEq, Repr

structure IngestOverloadConfig where
  maxBatchesPerSecond : UInt64
  prioritySeverityFloor : SeverityFloor
  reportEveryMs : UInt64
  deriving DecidableEq, Repr

structure IngestOverloadStats where
  accepted : UInt64 := 0
  priorityBypass : UInt64 := 0
  rateLimited : UInt64 := 0
  oversizeRejected : UInt64 := 0
  deriving DecidableEq, Repr

structure IngestPolicyState where
  windowStart : Nat
  acceptedInWindow : UInt64
  stats : IngestOverloadStats
  nextReportAt : Nat
  deriving DecidableEq, Repr

namespace IngestPolicyState

variable (config : IngestOverloadConfig)

def reportInterval : Nat := max config.reportEveryMs.toNat 1 * 1000000

def new (now : Nat) : IngestPolicyState :=
  { windowStart := now, acceptedInWindow := 0, stats := {}
    nextReportAt := now + reportInterval config }

def maybeReportOverload (now : Nat) (state : IngestPolicyState) : IngestPolicyState :=
  if config.reportEveryMs = 0 then state
  else if now < state.nextReportAt then state
  else { state with nextReportAt := now + reportInterval config }

def turnWindow (now : Nat) (state : IngestPolicyState) : IngestPolicyState :=
  if now - state.windowStart ≥ 1000000000 then
    { state with windowStart := now, acceptedInWindow := 0 }
  else state

def decide (now reportNow : Nat) (priority : BatchPriority)
    (state : IngestPolicyState) : IngestDecision × IngestPolicyState :=
  let state := turnWindow now state
  if config.maxBatchesPerSecond = 0
      ∨ state.acceptedInWindow < config.maxBatchesPerSecond then
    (.accept, { state with
      acceptedInWindow := saturatingSucc state.acceptedInWindow
      stats.accepted := saturatingSucc state.stats.accepted })
  else if batchPriorityFloor config.prioritySeverityFloor ≤ priority then
    (.acceptPriorityBypass, maybeReportOverload config reportNow { state with
      stats.priorityBypass := saturatingSucc state.stats.priorityBypass })
  else
    (.rejectRateLimited, maybeReportOverload config reportNow { state with
      stats.rateLimited := saturatingSucc state.stats.rateLimited })

structure DecideCall where
  now : Nat
  reportNow : Nat
  priority : BatchPriority
  deriving DecidableEq, Repr

structure Decided where
  call : DecideCall
  decision : IngestDecision
  window : Nat
  deriving DecidableEq, Repr

def decideAll (state : IngestPolicyState) : List DecideCall → List Decided × IngestPolicyState
  | [] => ([], state)
  | call :: calls =>
    let (decision, state) := decide config call.now call.reportNow call.priority state
    let (decided, final) := decideAll state calls
    (⟨call, decision, state.windowStart⟩ :: decided, final)

def noteOversize (reportNow : Nat) (state : IngestPolicyState) : IngestPolicyState :=
  maybeReportOverload config reportNow { state with
    stats.oversizeRejected := saturatingSucc state.stats.oversizeRejected }

end IngestPolicyState

end Logjet
