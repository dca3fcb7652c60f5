/-
What the batcher posts. Merging keeps every log record with its resource and
its scope (`merge_entries`).
-/
import Mathlib.Data.List.Perm.Subperm
import Logjet.Bridge.Backpressure

namespace Logjet

open List EStateM

def Grew (before after : List Collector) : Prop :=
  List.Forall₂ (fun c c' => c.accepted <+: c'.accepted) before after

theorem Grew.refl (collectors : List Collector) : Grew collectors collectors :=
  forall₂_same.mpr fun _ _ => prefix_rfl

theorem Grew.trans {a b c : List Collector} (h : Grew a b) (h' : Grew b c) : Grew a c := by
  induction h generalizing c with
  | nil => exact h'
  | cons hab _ ih =>
    cases h' with
    | cons hbc hrest => exact .cons (hab.trans hbc) (ih hrest)

variable {after before collectors : List Collector} {task : ExportTask}

theorem Grew.of_mem (h : Grew before after)
    {d : Collector} (hd : d ∈ after) : ∃ c ∈ before, c.accepted <+: d.accepted := by
  induction h with
  | nil => cases hd
  | cons hc _ ih =>
    rcases mem_cons.mp hd with rfl | hd
    · exact ⟨_, mem_cons_self, hc⟩
    · obtain ⟨c, hmem, hstarts⟩ := ih hd
      exact ⟨c, mem_cons_of_mem _ hmem, hstarts⟩

theorem postFor_ends (post : Post) (answers : Answers) (collectors : List Collector) :
    Ends (postFor post answers) collectors (fun _ after => Grew collectors after
        ∧ ∀ c ∈ after, post ∈ c.accepted) (fun _ after => Grew collectors after) := by
  induction collectors generalizing answers with
  | nil => exact ⟨.nil, fun c hc => absurd hc not_mem_nil⟩
  | cons c rest ih =>
    have hrest := ih answers.tail
    unfold Ends at hrest ⊢
    rw [postFor]
    cases answers.headD none with
    | some err => exact Grew.refl _
    | none =>
      have hc : c.accepted <+: c.accepted ++ [post] := prefix_append _ _
      cases htail : postFor post answers.tail rest with
      | error err after =>
        rw [htail] at hrest
        exact .cons hc hrest
      | ok u after =>
        rw [htail] at hrest
        refine ⟨.cons hc hrest.1, ?_⟩
        intro d hd
        rcases mem_cons.mp hd with rfl | hd
        · exact mem_append_right _ (mem_singleton_self _)
        · exact hrest.2 d hd

theorem Exporter.post_ends (p : Post) (answers : Answers) (self : Exporter) :
    Ends (Exporter.post p answers) self (fun _ after => after.batcher = self.batcher
        ∧ Grew self.collectors after.collectors ∧ ∀ c ∈ after.collectors, p ∈ c.accepted)
      (fun _ after => after.batcher = self.batcher ∧ Grew self.collectors after.collectors) := by
  have h := postFor_ends p answers self.collectors
  unfold Ends at h ⊢
  unfold Exporter.post
  cases hpost : postFor p answers self.collectors with
  | ok u after =>
    rw [hpost] at h
    exact ⟨rfl, h⟩
  | error err after =>
    rw [hpost] at h
    exact ⟨rfl, h⟩

abbrev LogEntry := Option Resource × Option InstrumentationScope × LogRecord

def ScopeLogs.entries (sl : ScopeLogs) : List (Option InstrumentationScope × LogRecord) :=
  sl.logRecords.map fun lr => (sl.scope, lr)

def ResourceLogs.entries (rl : ResourceLogs) : List LogEntry :=
  (rl.scopeLogs.flatMap ScopeLogs.entries).map fun e => (rl.resource, e)

def ExportLogsServiceRequest.entries (req : ExportLogsServiceRequest) : List LogEntry :=
  req.resourceLogs.flatMap ResourceLogs.entries

namespace OtlpBatcher

theorem mergeScope_entries (scopes : List ScopeLogs) (incoming : ScopeLogs) :
    ((mergeScope scopes incoming).flatMap ScopeLogs.entries).Perm
      (scopes.flatMap ScopeLogs.entries ++ incoming.entries) := by
  apply Grouping.upsert_perm
  intro sl hsame
  have hscope : sl.scope = incoming.scope := of_decide_eq_true hsame
  simp only [ScopeLogs.entries, map_append, hscope]
  exact .refl _

theorem mergeResource_entries (resources : List ResourceLogs) (incoming : ResourceLogs) :
    ((mergeResource resources incoming).flatMap ResourceLogs.entries).Perm
      (resources.flatMap ResourceLogs.entries ++ incoming.entries) := by
  apply Grouping.upsert_perm
  intro rl hsame
  have hresource : rl.resource = incoming.resource := of_decide_eq_true hsame
  have hscopes := Grouping.foldl_perm mergeScope_entries incoming.scopeLogs rl.scopeLogs
  have hmap := hscopes.map fun e => (incoming.resource, e)
  rw [map_append] at hmap
  simp only [ResourceLogs.entries, hresource]
  exact hmap

theorem merge_entries (now : Nat) (req : ExportLogsServiceRequest) (self : OtlpBatcher) :
    (self.merge now req).pending.entries.Perm (self.pending.entries ++ req.entries) :=
  Grouping.foldl_perm mergeResource_entries _ _

end OtlpBatcher

variable {codec : LogsCodec}

def Carries (codec : LogsCodec) (task : ExportTask) (post : Post) : Prop :=
  post.recordType = task.recordType ∧ (post.payload = task.payload
      ∨ ∃ req merged, codec.decode task.payload = some req ∧ post.payload = codec.encodeToVec merged
        ∧ req.entries.Subperm merged.entries)

def Posted (codec : LogsCodec) (task : ExportTask) (collectors : List Collector) : Prop :=
  ∀ c ∈ collectors, ∃ post ∈ c.accepted, Carries codec task post

theorem Posted.grew
    (h : Posted codec task before) (hgrew : Grew before after) : Posted codec task after := by
  intro d hd
  obtain ⟨c, hc, hstarts⟩ := hgrew.of_mem hd
  obtain ⟨post, hmem, hcarries⟩ := h c hc
  exact ⟨post, hstarts.subset hmem, hcarries⟩

theorem posted_payload (h : ∀ c ∈ collectors,
      ⟨task.recordType, task.payload⟩ ∈ c.accepted) : Posted codec task collectors :=
  fun c hc => ⟨_, h c hc, rfl, Or.inl rfl⟩

theorem posted_merged {batcher : OtlpBatcher} {now : Nat} {req : ExportLogsServiceRequest}
    (hlogs : task.recordType = .logs) (hdecode : codec.decode task.payload = some req)
    (h : ∀ c ∈ collectors, ⟨.logs, codec.encodeToVec
      (batcher.merge now req).pending⟩ ∈ c.accepted) : Posted codec task collectors := by
  intro c hc
  refine ⟨_, h c hc, hlogs.symm, Or.inr ⟨req, _, hdecode, rfl, ?_⟩⟩
  have hperm := batcher.merge_entries now req
  exact (sublist_append_right _ _).subperm.trans hperm.symm.subperm

namespace Exporter

theorem flush_ends (answers : Answers) (self : Exporter) : Ends (flush codec answers) self
      (fun _ after => Grew self.collectors after.collectors
        ∧ (self.batcher.pendingCount ≠ 0 → ∀ c ∈ after.collectors,
          ⟨.logs, codec.encodeToVec self.batcher.pending⟩ ∈ c.accepted))
      (fun _ after => Grew self.collectors after.collectors) := by
  apply Ends.get
  apply Ends.ite
  · intro hzero
    exact ⟨Grew.refl _, fun h => absurd hzero h⟩
  · intro _
    apply Ends.modify
    refine (post_ends _ _ _).mono ?_ ?_
    · intro _ after ⟨_, hgrew, hall⟩
      exact ⟨hgrew, fun _ => hall⟩
    · intro _ after ⟨_, hgrew⟩
      exact hgrew

theorem flushIfExpired_ends (now : Nat) (answers : Answers) (self : Exporter) :
    Ends (flushIfExpired codec now answers) self
      (fun _ after => Grew self.collectors after.collectors
        ∧ (self.batcher.expired now = true → ∀ c ∈ after.collectors,
          ⟨.logs, codec.encodeToVec self.batcher.pending⟩ ∈ c.accepted))
      (fun _ after => Grew self.collectors after.collectors) := by
  apply Ends.get
  apply Ends.ite
  · intro hexpired
    refine (flush_ends answers self).mono ?_ (fun _ _ h => h)
    intro _ after ⟨hgrew, hall⟩
    refine ⟨hgrew, fun _ => hall ?_⟩
    have hpos := (of_decide_eq_true hexpired).1
    omega
  · intro hnot
    exact ⟨Grew.refl _, fun h => absurd h hnot⟩

theorem add_ends {task : ExportTask} (hlogs : task.recordType = .logs)
    (now : Nat) (answers : Answers) (self : Exporter) :
    Ends (add codec task.payload now answers) self
      (fun _ after => Grew self.collectors after.collectors ∧ (Posted codec task after.collectors
          ∨ ∃ req, codec.decode task.payload = some req ∧ 1 < self.batcher.batchSize
            ∧ (self.batcher.merge now req).pendingCount < self.batcher.batchSize
            ∧ after.batcher = self.batcher.merge now req))
      (fun _ after => Grew self.collectors after.collectors) := by
  have hdirect : ∀ stays : Exporter → Prop, Ends (post ⟨.logs, task.payload⟩ answers) self
        (fun _ after => Grew self.collectors after.collectors
          ∧ (Posted codec task after.collectors ∨ stays after))
        (fun _ after => Grew self.collectors after.collectors) := by
    intro stays
    refine (post_ends _ _ _).mono ?_ (fun _ _ h => h.2)
    intro _ after ⟨_, hgrew, hall⟩
    rw [← hlogs] at hall
    exact ⟨hgrew, Or.inl (posted_payload hall)⟩
  apply Ends.get
  apply Ends.ite
  · intro _
    exact hdirect _
  · intro hsize
    cases hdecode : codec.decode task.payload with
    | none => exact hdirect _
    | some req =>
      apply Ends.modify
      apply Ends.ite
      · intro hfull
        refine (flush_ends answers _).mono ?_ (fun _ _ h => h)
        intro _ after ⟨hgrew, hall⟩
        refine ⟨hgrew, Or.inl (posted_merged hlogs hdecode (hall ?_))⟩
        simp only [OtlpBatcher.merge] at hfull ⊢
        omega
      · intro hroom
        refine ⟨Grew.refl _, Or.inr ⟨req, rfl, ?_, ?_, rfl⟩⟩
        · omega
        · simp only [OtlpBatcher.merge] at hroom ⊢
          omega

end Exporter

def PostsAtOnce (codec : LogsCodec) (env : ExportEnv)
    (batcher : OtlpBatcher) (payload : Bytes) : Prop :=
  batcher.batchSize ≤ 1
    ∨ match codec.decode payload with
      | none => True
      | some req =>
        batcher.batchSize ≤ batcher.pendingCount + OtlpBatcher.recordCount req
          ∨ (batcher.merge env.addedAt req).expired env.checkedAt = true

theorem exportTask_posted {env : ExportEnv} {self : Exporter}
    (hprompt : task.recordType = .logs → PostsAtOnce codec env self.batcher task.payload) :
    Ends (exportTask codec env task) self (fun result after => Grew self.collectors after.collectors
        ∧ ∀ outcome, result = .ok outcome → Posted codec task after.collectors)
      (fun _ after => Grew self.collectors after.collectors) := by
  apply Ends.ite
  · intro hlogs
    apply Ends.bind
    apply Ends.attempt
    refine (Exporter.add_ends hlogs env.addedAt env.addAnswers self).mono ?_ ?_
    · intro _ added ⟨hadded, hcases⟩
      apply Ends.bind
      refine (Exporter.flushIfExpired_ends env.checkedAt env.flushAnswers
        added).mono ?_ (fun _ after h => hadded.trans h)
      intro _ after ⟨hgrew, hexpired⟩
      refine ⟨hadded.trans hgrew, fun _ _ => ?_⟩
      rcases hcases with hposted | ⟨req, hdecode, hsize, hroom, hbatcher⟩
      · exact hposted.grew hgrew
      · have hcase := hprompt hlogs
        rw [PostsAtOnce, hdecode] at hcase
        rw [hbatcher] at hexpired
        simp only [OtlpBatcher.merge] at hroom
        rcases hcase with hone | hfull | htimer
        · omega
        · omega
        · exact posted_merged hlogs hdecode (hexpired htimer)
    · intro err added hadded
      apply Ends.bind
      refine (Exporter.flushIfExpired_ends env.checkedAt env.flushAnswers
        added).mono ?_ (fun _ after h => hadded.trans h)
      intro _ after ⟨hgrew, _⟩
      exact ⟨hadded.trans hgrew, fun _ h => nomatch h⟩
  · intro _
    apply Ends.bind
    apply Ends.attempt
    refine (Exporter.post_ends _ _ _).mono ?_ ?_
    · intro _ after ⟨_, hgrew, hall⟩
      exact ⟨hgrew, fun _ _ => posted_payload hall⟩
    · intro err after ⟨_, hgrew⟩
      exact ⟨hgrew, fun _ h => nomatch h⟩

end Logjet
