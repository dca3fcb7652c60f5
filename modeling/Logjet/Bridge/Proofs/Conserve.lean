/-
What failed posts do to the log records of a batch: after a call they are
pending or in its one post (`step_records`).
-/
import Logjet.Bridge.Proofs.Context

namespace Logjet

open List EStateM

inductive BatcherCall
  | add (payload : Bytes) (now : Nat) (answers : Answers)
  | flushIfExpired (now : Nat) (answers : Answers)
  | flush (answers : Answers)
  deriving DecidableEq, Repr

inductive Sent
  | raw (payload : Bytes)
  | batch (merged : ExportLogsServiceRequest)
  deriving DecidableEq, Repr

variable (codec : LogsCodec)

def Sent.bytes : Sent → Bytes
  | .raw payload => payload
  | .batch merged => codec.encodeToVec merged

def ExportLogsServiceRequest.records (req : ExportLogsServiceRequest) : List LogRecord :=
  req.resourceLogs.flatMap ResourceLogs.records

def logRecords (payload : Bytes) : List LogRecord :=
  ((codec.decode payload).map ExportLogsServiceRequest.records).getD []

def Sent.records : Sent → List LogRecord
  | .raw payload => logRecords codec payload
  | .batch merged => merged.records

namespace BatcherCall

def answers : BatcherCall → Answers
  | .add _ _ answers => answers
  | .flushIfExpired _ answers => answers
  | .flush answers => answers

def added : BatcherCall → List Bytes
  | .add payload _ _ => [payload]
  | .flushIfExpired _ _ => []
  | .flush _ => []

def run : BatcherCall → EStateM IoError Exporter Unit
  | .add payload now answers => Exporter.add codec payload now answers
  | .flushIfExpired now answers => Exporter.flushIfExpired codec now answers
  | .flush answers => Exporter.flush codec answers

def after (call : BatcherCall) (self : Exporter) : Exporter :=
  match call.run codec self with
  | .ok _ self => self
  | .error _ self => self

def succeeds (call : BatcherCall) (self : Exporter) : Bool := call.run codec self matches .ok _ _

def flushed (self : Exporter) : Option Sent :=
  if self.batcher.pendingCount = 0 then none
  else some (.batch self.batcher.pending)

def sends (call : BatcherCall) (self : Exporter) : Option Sent :=
  match call with
  | .add payload now _ =>
    if self.batcher.batchSize ≤ 1 then some (.raw payload)
    else
      match codec.decode payload with
      | none => some (.raw payload)
      | some req =>
        let batcher := self.batcher.merge now req
        if batcher.pendingCount ≥ batcher.batchSize then
          flushed { self with batcher }
        else none
  | .flushIfExpired now _ => if self.batcher.expired now then flushed self else none
  | .flush _ => flushed self

def carried (call : BatcherCall) (self : Exporter) : List LogRecord :=
  (call.sends codec self).toList.flatMap fun sent => logRecords codec (sent.bytes codec)

def Accepted (call : BatcherCall) (self : Exporter) : Prop :=
  ∀ answer ∈ call.answers.take self.collectors.length, answer = none

end BatcherCall

variable {codec}

theorem postFor_isOk (post : Post) (answers : Answers) (collectors : List Collector) :
    (∃ after, postFor post answers collectors = .ok () after)
      ↔ ∀ answer ∈ answers.take collectors.length, answer = none := by
  induction collectors generalizing answers with
  | nil => exact iff_of_true ⟨[], by cases answers <;> rfl⟩ (by simp)
  | cons c collectors ih =>
    have hrest := ih answers.tail
    rw [postFor]
    cases answers with
    | nil =>
      obtain ⟨after, hafter⟩ := hrest.mpr (by simp)
      rw [headD_nil, hafter]
      exact iff_of_true ⟨_, rfl⟩ (by simp)
    | cons answer answers =>
      rw [headD_cons, length_cons, take_succ_cons, forall_mem_cons]
      cases answer with
      | some err => simp
      | none =>
        rw [tail_cons] at hrest
        simp only [true_and, ← hrest, tail_cons]
        cases postFor post answers collectors with
        | ok u after => simp
        | error err after => simp

theorem Exporter.post_batcher (p : Post) (answers : Answers) (self : Exporter) :
    Ends (Exporter.post p answers) self (fun _ after => after.batcher = self.batcher
        ∧ ∀ answer ∈ answers.take self.collectors.length, answer = none)
      (fun _ after => after.batcher = self.batcher
        ∧ ¬ ∀ answer ∈ answers.take self.collectors.length, answer = none) := by
  unfold Ends Exporter.post
  have hok := postFor_isOk p answers self.collectors
  cases hpost : postFor p answers self.collectors with
  | ok u after => exact ⟨rfl, hok.mp ⟨after, hpost⟩⟩
  | error err after =>
    refine ⟨rfl, fun hall => ?_⟩
    obtain ⟨after', hafter⟩ := hok.mpr hall
    rw [hpost] at hafter
    cases hafter

structure Settles (codec : LogsCodec) (sent : Option Sent)
    (incoming : List LogRecord) (before after : OtlpBatcher) : Prop where
  counted : after.pendingCount = OtlpBatcher.recordCount after.pending
  kept : (before.pending.records ++ incoming).Perm
    (after.pending.records ++ sent.toList.flatMap (Sent.records codec))

def Ended (codec : LogsCodec) (act : EStateM IoError Exporter Unit)
    (sent : Option Sent) (incoming : List LogRecord) (answers : Answers) (self : Exporter) : Prop :=
  Ends act self (fun _ after => Settles codec sent incoming self.batcher after.batcher
      ∧ (sent ≠ none → ∀ answer ∈ answers.take self.collectors.length, answer = none))
    (fun _ after => Settles codec sent incoming self.batcher after.batcher
      ∧ sent ≠ none ∧ ¬ ∀ answer ∈ answers.take self.collectors.length, answer = none)

theorem ExportLogsServiceRequest.map_entries (req : ExportLogsServiceRequest) :
    req.entries.map (·.2.2) = req.records := by
  rw [ExportLogsServiceRequest.entries, map_flatMap]
  refine flatMap_congr fun rl _ => ?_
  simp [ResourceLogs.entries, ResourceLogs.records, ScopeLogs.entries,
    map_flatMap, Function.comp_def]

theorem ended_post {sent : Sent} {incoming : List LogRecord}
    {answers : Answers} {self settled : Exporter}
    (hcollectors : settled.collectors = self.collectors)
    (h : Settles codec (some sent) incoming self.batcher settled.batcher) :
    Ended codec (fun _ => Exporter.post ⟨.logs, sent.bytes codec⟩ answers
      settled) (some sent) incoming answers self := by
  have hpost := Exporter.post_batcher ⟨.logs, sent.bytes codec⟩ answers settled
  unfold Ended Ends at *
  rw [hcollectors] at hpost
  cases hrun : Exporter.post ⟨.logs, sent.bytes codec⟩ answers settled with
  | ok u after =>
    rw [hrun] at hpost
    rw [← hpost.1] at h
    exact ⟨h, fun _ => hpost.2⟩
  | error err after =>
    rw [hrun] at hpost
    rw [← hpost.1] at h
    exact ⟨h, by simp, hpost.2⟩

theorem ended_nothing {incoming : List LogRecord} {answers : Answers} {self settled : Exporter}
    (h : Settles codec none incoming self.batcher settled.batcher) :
    Ended codec (fun _ => .ok () settled) none incoming answers self :=
  ⟨h, fun hne => absurd rfl hne⟩

theorem ended_flush {incoming : List LogRecord} {answers : Answers}
    {self full : Exporter} (hcollectors : full.collectors = self.collectors)
    (h : Settles codec none incoming self.batcher full.batcher) :
    Ended codec (fun _ => Exporter.flush codec answers full)
      (BatcherCall.flushed full) incoming answers self := by
  unfold BatcherCall.flushed
  by_cases hzero : full.batcher.pendingCount = 0
  · rw [if_pos hzero]
    have hrun : Exporter.flush codec answers full = .ok () full := by
      unfold Exporter.flush
      rw [get_bind, if_pos hzero]
      rfl
    rw [hrun]
    exact ended_nothing h
  · rw [if_neg hzero]
    have hrun : Exporter.flush codec answers full
        = Exporter.post ⟨.logs, codec.encodeToVec full.batcher.pending⟩ answers
          { full with batcher := { full.batcher with
              pending := { resourceLogs := [] }
              pendingCount := 0
              firstAdded := none } } := by
      unfold Exporter.flush
      rw [get_bind, if_neg hzero]
      rfl
    rw [hrun]
    refine @ended_post codec (.batch full.batcher.pending) incoming answers
      self _ hcollectors ⟨rfl, ?_⟩
    have hkept := h.kept
    simpa [Sent.records, ExportLogsServiceRequest.records] using hkept

namespace BatcherCall

def incoming (codec : LogsCodec) (call : BatcherCall) : List LogRecord :=
  call.added.flatMap (logRecords codec)

variable {self : Exporter}

theorem settles_self (hcount : self.batcher.pendingCount
      = OtlpBatcher.recordCount self.batcher.pending) :
    Settles codec none [] self.batcher self.batcher := ⟨hcount, by simp⟩

theorem ended_of_eq {act act' : EStateM IoError Exporter Unit}
    {sent : Option Sent} {incoming : List LogRecord} {answers : Answers}
    (hrun : act self = act' self) (h : Ended codec act' sent incoming answers self) :
    Ended codec act sent incoming answers self := by
  unfold Ended Ends at h ⊢
  rw [hrun]
  exact h

theorem settles_merge {payload : Bytes}
    {req : ExportLogsServiceRequest} (now : Nat) (hcount : self.batcher.pendingCount
      = OtlpBatcher.recordCount self.batcher.pending) (hdecode : codec.decode payload = some req) :
    Settles codec none (logRecords codec payload) self.batcher (self.batcher.merge now req) := by
  have hmerge := (self.batcher.merge_entries now req).map (·.2.2)
  simp only [map_append, ExportLogsServiceRequest.map_entries] at hmerge
  have hrecords : logRecords codec payload = req.records := by
    rw [logRecords, hdecode]
    rfl
  constructor
  · exact OtlpBatcher.pendingCount_merge now req hcount
  · rw [hrecords, Option.toList_none, flatMap_nil, append_nil]
    exact hmerge.symm

theorem settles_raw (payload : Bytes) (hcount : self.batcher.pendingCount
      = OtlpBatcher.recordCount self.batcher.pending) :
    Settles codec (some (.raw payload)) (logRecords codec payload) self.batcher self.batcher :=
  ⟨hcount, by simp [Sent.records]⟩

theorem run_ended (call : BatcherCall) {self : Exporter} (hcount : self.batcher.pendingCount
      = OtlpBatcher.recordCount self.batcher.pending) :
    Ended codec (call.run codec) (call.sends codec self)
      (call.incoming codec) call.answers self := by
  cases call with
  | flush answers => exact ended_flush rfl (settles_self hcount)
  | flushIfExpired now answers =>
    unfold sends
    dsimp only
    by_cases hexpired : self.batcher.expired now = true
    · rw [if_pos hexpired]
      refine ended_of_eq ?_ (@ended_flush codec [] answers self self rfl (settles_self hcount))
      rw [run, Exporter.flushIfExpired, get_bind, if_pos hexpired]
    · rw [if_neg hexpired]
      refine ended_of_eq ?_ (@ended_nothing codec [] answers self self (settles_self hcount))
      rw [run, Exporter.flushIfExpired, get_bind, if_neg hexpired]
      rfl
  | add payload now answers =>
    have hincoming : incoming codec (.add payload now answers)
        = logRecords codec payload := flatMap_singleton ..
    have hraw := @ended_post codec (.raw payload) _ answers self self rfl
      (settles_raw payload hcount)
    unfold sends
    rw [hincoming]
    dsimp only
    by_cases hsize : self.batcher.batchSize ≤ 1
    · rw [if_pos hsize]
      refine ended_of_eq ?_ hraw
      rw [run, Exporter.add, get_bind, if_pos hsize]
      rfl
    rw [if_neg hsize]
    cases hdecode : codec.decode payload with
    | none =>
      refine ended_of_eq ?_ hraw
      simp only [run, Exporter.add, get_bind, if_neg hsize, hdecode]
      rfl
    | some req =>
      have hmerge := settles_merge now hcount hdecode
      dsimp only
      by_cases hfull : (self.batcher.merge now req).pendingCount
          ≥ (self.batcher.merge now req).batchSize
      · rw [if_pos hfull]
        refine ended_of_eq ?_ (@ended_flush codec _ answers self
          { self with batcher := self.batcher.merge now req } rfl hmerge)
        simp only [run, Exporter.add, get_bind, if_neg hsize, hdecode, set_bind, if_pos hfull]
      · rw [if_neg hfull]
        refine ended_of_eq ?_ (@ended_nothing codec _ answers self
          { self with batcher := self.batcher.merge now req } hmerge)
        simp only [run, Exporter.add, get_bind, if_neg hsize, hdecode, set_bind, if_neg hfull]
        rfl

theorem settles_after (call : BatcherCall) {self : Exporter} (hcount : self.batcher.pendingCount
      = OtlpBatcher.recordCount self.batcher.pending) :
    Settles codec (call.sends codec self) (call.incoming codec) self.batcher
      (call.after codec self).batcher := by
  have hended := @run_ended codec call self hcount
  unfold Ended Ends at hended
  unfold after
  cases hrun : call.run codec self with
  | ok u settled =>
    rw [hrun] at hended
    exact hended.1
  | error err settled =>
    rw [hrun] at hended
    exact hended.1

def lost (codec : LogsCodec) (call : BatcherCall) (self : Exporter) : List LogRecord :=
  if call.succeeds codec self then [] else call.carried codec self

theorem lost_eq_nil_iff (call : BatcherCall) (hcount : self.batcher.pendingCount
      = OtlpBatcher.recordCount self.batcher.pending) : call.lost codec self = []
      ↔ call.Accepted self ∨ call.carried codec self = [] := by
  have hended := @run_ended codec call self hcount
  unfold Ended Ends at hended
  unfold lost succeeds
  cases hrun : call.run codec self with
  | ok u settled =>
    rw [hrun] at hended
    refine iff_of_true rfl ?_
    by_cases hsends : call.sends codec self = none
    · exact .inr (by rw [carried, hsends]; rfl)
    · exact .inl (hended.2 hsends)
  | error err settled =>
    rw [hrun] at hended
    constructor
    · exact .inr
    · exact fun h => h.resolve_left hended.2.2

def delivered (codec : LogsCodec) (call : BatcherCall) (self : Exporter) : List Bytes :=
  if call.succeeds codec self then
    (call.sends codec self).toList.map (Sent.bytes codec)
  else []

theorem carried_split (call : BatcherCall) (self : Exporter) : call.carried codec self
      = (call.delivered codec self).flatMap (logRecords codec) ++ call.lost codec self := by
  unfold carried delivered lost
  split
  · rw [append_nil, flatMap_map]
  · rfl

def Decodes (codec : LogsCodec) (call : BatcherCall) (self : Exporter) : Prop :=
  ∀ merged, call.sends codec self = some (.batch merged) →
    codec.decode (codec.encodeToVec merged) = some merged

theorem carried_eq {call : BatcherCall} (h : call.Decodes codec self) :
    (call.sends codec self).toList.flatMap (Sent.records codec) = call.carried codec self := by
  unfold carried
  cases hsends : call.sends codec self with
  | none => rfl
  | some sent =>
    cases sent with
    | raw payload => rfl
    | batch merged =>
      simp only [Option.toList_some, flatMap_singleton, Sent.records,
        Sent.bytes, logRecords, h merged hsends]
      rfl

end BatcherCall

def batcherTrace (codec : LogsCodec) : List BatcherCall → Exporter → List (BatcherCall × Exporter)
  | [], _ => []
  | call :: calls, self => (call, self) :: batcherTrace codec calls (call.after codec self)

def batcherRun (codec : LogsCodec) (calls : List BatcherCall) (self : Exporter) : Exporter :=
  calls.foldl (fun self call => call.after codec self) self

def Conserves (codec : LogsCodec) (calls : List BatcherCall) (self : Exporter) : Prop :=
  (calls.flatMap (·.incoming codec)).Perm ((batcherRun codec calls self).batcher.pending.records
      ++ ((batcherTrace codec calls self).flatMap
        fun s => s.1.delivered codec s.2).flatMap (logRecords codec))

theorem run_records (calls : List BatcherCall) {self : Exporter} (hcount : self.batcher.pendingCount
      = OtlpBatcher.recordCount self.batcher.pending)
    (hcodec : ∀ s ∈ batcherTrace codec calls self, s.1.Decodes codec s.2) :
    (self.batcher.pending.records ++ calls.flatMap (·.incoming codec)).Perm
      ((batcherRun codec calls self).batcher.pending.records
        ++ (((batcherTrace codec calls self).flatMap
            fun s => s.1.delivered codec s.2).flatMap (logRecords codec)
          ++ (batcherTrace codec calls self).flatMap fun s => s.1.lost codec s.2)) := by
  induction calls generalizing self with
  | nil => simp [batcherRun, batcherTrace]
  | cons call calls ih =>
    have hstep := @BatcherCall.settles_after codec call self hcount
    have hrest := ih hstep.counted fun s hs => hcodec s (mem_cons_of_mem _ hs)
    have hkept := hstep.kept
    rw [BatcherCall.carried_eq (hcodec _ mem_cons_self), BatcherCall.carried_split] at hkept
    have hrun : batcherRun codec (call :: calls) self
        = batcherRun codec calls (call.after codec self) := rfl
    rw [perm_iff_count] at hkept hrest ⊢
    intro lr
    have hk := hkept lr
    have hr := hrest lr
    simp only [hrun, batcherTrace, flatMap_cons, flatMap_append, count_append] at hk hr ⊢
    omega

theorem counted_trace (calls : List BatcherCall) {self : Exporter}
    (hcount : self.batcher.pendingCount = OtlpBatcher.recordCount self.batcher.pending) :
    ∀ s ∈ batcherTrace codec calls self, s.2.batcher.pendingCount
      = OtlpBatcher.recordCount s.2.batcher.pending := by
  induction calls generalizing self with
  | nil => simp [batcherTrace]
  | cons call calls ih =>
    intro s hs
    rcases mem_cons.mp hs with rfl | hs
    · exact hcount
    · exact ih (BatcherCall.settles_after call hcount).counted s hs

/-- The batcher loses nothing iff no failed post carried a record. -/
theorem batcher_conserves_iff (codec : LogsCodec) (batchSize : Nat)
    (batchTimeoutMs : UInt64) (collectors : List Collector) (calls : List BatcherCall)
    (hcodec : ∀ s ∈ batcherTrace codec calls
      ⟨.new batchSize batchTimeoutMs, collectors⟩, s.1.Decodes codec s.2) :
    Conserves codec calls ⟨.new batchSize batchTimeoutMs, collectors⟩
      ↔ ∀ s ∈ batcherTrace codec calls ⟨.new batchSize batchTimeoutMs, collectors⟩,
        s.1.Accepted s.2 ∨ s.1.carried codec s.2 = [] := by
  have hrun := @run_records codec calls ⟨.new batchSize batchTimeoutMs, collectors⟩ rfl hcodec
  have hlost : ((batcherTrace codec calls ⟨.new batchSize batchTimeoutMs, collectors⟩).flatMap
          fun s => s.1.lost codec s.2) = [] ↔ ∀ s ∈ batcherTrace codec calls
          ⟨.new batchSize batchTimeoutMs, collectors⟩,
        s.1.Accepted s.2 ∨ s.1.carried codec s.2 = [] := by
    rw [flatMap_eq_nil_iff]
    exact forall₂_congr fun s hs => BatcherCall.lost_eq_nil_iff s.1
      (@counted_trace codec calls _ rfl s hs)
  rw [← hlost]
  constructor
  · intro hconserves
    have hlen := hrun.length_eq.symm.trans hconserves.length_eq
    simp only [length_append] at hlen
    exact length_eq_zero_iff.mp (by omega)
  · intro hnone
    rw [hnone, append_nil] at hrun
    exact hrun

def infoRequest : ExportLogsServiceRequest := urlRecord "" "INFO"

def infoBytes : Bytes := [0x0a, 10, 0x12, 8, 0x12, 6, 0x1a, 4, 73, 78, 70, 79]

def infoCodec : LogsCodec :=
  { decode := fun payload => if payload = infoBytes then some infoRequest else none
    encodeToVec := fun req => if req = infoRequest then infoBytes else [] }

theorem batcher_conserves_accepted : Conserves infoCodec [.add infoBytes 0 [], .flush [none]]
      ⟨.new 2 0, [⟨[]⟩]⟩ := by
  refine (batcher_conserves_iff infoCodec 2 0 [⟨[]⟩] _ ?_).mpr ?_
  · intro s hs merged hsends
    rcases mem_cons.mp hs with rfl | hs
    · cases hsends
    · cases mem_singleton.mp hs
      cases hsends
      rfl
  · intro s hs
    rcases mem_cons.mp hs with rfl | hs
    · exact .inr rfl
    · cases mem_singleton.mp hs
      refine .inl fun answer hanswer => ?_
      exact mem_singleton.mp (mem_of_mem_take hanswer)

theorem flush_refused_loses_record : ¬ Conserves infoCodec
      [.add infoBytes 0 [], .flush [some ⟨.other, "refused"⟩]] ⟨.new 2 0, [⟨[]⟩]⟩ := by
  unfold Conserves
  decide

end Logjet
