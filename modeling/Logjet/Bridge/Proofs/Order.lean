/-
A bridge with backpressure commits in the order it reads; the results are a
prefix of the queued among the pending.
-/
import Logjet.Bridge.Proofs.Backpressure

namespace Logjet

open List Transition

variable {codec : LogsCodec} {config : BridgeConfig}

def PendingExport.seq : PendingExport → UInt64
  | .queued seq | .dropped seq => seq

def PendingExport.queuedSeq : PendingExport → Option UInt64
  | .queued seq => some seq
  | .dropped _ => none

def BridgePhase.held : BridgePhase → List UInt64
  | .flushing record | .enqueueing record => [record.seq]
  | _ => []

def BridgePhase.ended : BridgePhase → Bool
  | .joining _ | .returned _ => true
  | _ => false

def WorkerPhase.held : WorkerPhase → List UInt64
  | .exporting task => [task.seq]
  | .reporting result => [result.seq]
  | _ => []

def WorkerPhase.working : WorkerPhase → Bool
  | .closing | .stopped _ => false
  | _ => true

def Bridge.OutOfOrder (b : Bridge) : Prop :=
  ∃ expectedSeq pending result results,
    b.pending = .queued expectedSeq :: pending
      ∧ b.results = result :: results ∧ result.seq ≠ expectedSeq

/-- Read is what is committed, pending, held or lost, in this order. -/
structure Ordered (events : List BridgeEvent) (b : Bridge) : Prop where
  reads : ∃ lost, (readBy events).map OwnedRecord.seq
      = committedBy events ++ b.pending.map PendingExport.seq ++ b.phase.held ++ lost
    ∧ (b.phase.ended = false → lost = [])
  results : ∃ rest, b.pending.filterMap PendingExport.queuedSeq
      = b.results.map ExportResult.seq ++ rest ∧ (b.worker.working = true →
      rest = b.worker.held ++ b.tasks.map ExportTask.seq)

theorem ordered_start (config : BridgeConfig) (session : Session) (collectors : List Collector) :
    Ordered [] (Bridge.start config session collectors) where
  reads := ⟨[], rfl, fun _ => rfl⟩
  results := ⟨[], rfl, fun _ => rfl⟩

theorem Ordered.inOrder {events : List BridgeEvent} {b : Bridge}
    (h : Ordered events b) : ¬ b.OutOfOrder := by
  intro ⟨expectedSeq, pending, result, results, hpending, hresults, hne⟩
  obtain ⟨rest, hqueued, -⟩ := h.results
  rw [hpending, hresults] at hqueued
  exact hne (List.cons.inj hqueued).1.symm

theorem readBy_snoc (events : List BridgeEvent) (e : BridgeEvent) :
    readBy (events ++ [e]) = readBy events ++ readBy [e] := filterMap_append

section Steps

variable {events : List BridgeEvent} {b b' : Bridge} {e : BridgeEvent}

def BridgeEvent.Between : BridgeEvent → Prop
  | .read _ | .commit _ => False
  | _ => True

theorem Ordered.between (h : Ordered events b) (hbetween : e.Between) :
    Ordered (events ++ [e]) b where
  reads := by
    have hnone : readBy [e] = [] ∧ committedBy [e] = [] := by
      cases e with
      | endOfStream | readFailed | enqueue | exported | silent => exact ⟨rfl, rfl⟩
      | read | commit => exact hbetween.elim
    rw [readBy_snoc, committedBy_snoc, hnone.1, hnone.2, append_nil, append_nil]
    exact h.reads
  results := h.results

theorem Ordered.withPhase (h : Ordered events b) (phase : BridgePhase) (hphase : phase.ended = true
      ∨ b.phase.ended = false ∧ phase.held = b.phase.held) : Ordered events { b with phase } where
  reads := by
    obtain ⟨lost, hreads, hlost⟩ := h.reads
    rcases hphase with hended | ⟨hgoing, hheld⟩
    · have hheld : phase.held = [] := by
        cases phase with
        | joining | returned => rfl
        | reading | flushing | enqueueing | finishing => cases hended
      refine ⟨b.phase.held ++ lost, ?_, fun h => ?_⟩
      · rw [hreads, hheld, append_nil, append_assoc]
      · exact absurd (hended.symm.trans h) (by decide)
    · exact ⟨lost, by rw [hreads, hheld], fun _ => hlost hgoing⟩
  results := h.results

theorem Ordered.withWorker (h : Ordered events b) (worker : WorkerPhase)
    (tasks : List ExportTask) (exporter : Exporter)
    (hworker : worker.working = true → b.worker.working = true
      ∧ worker.held ++ tasks.map ExportTask.seq = b.worker.held ++ b.tasks.map ExportTask.seq) :
    Ordered events { b with worker, tasks, exporter } where
  reads := h.reads
  results := by
    obtain ⟨rest, hqueued, hrest⟩ := h.results
    refine ⟨rest, hqueued, ?_⟩
    intro hworking
    obtain ⟨hworking', hsame⟩ := hworker hworking
    rw [hrest hworking', ← hsame]

theorem Ordered.read (h : Ordered events b) (record : WireRecord) (hphase : b.phase = .reading) :
    Ordered (events ++ [.read record]) { b with phase := .flushing record } where
  reads := by
    obtain ⟨lost, hreads, hlost⟩ := h.reads
    rw [hphase] at hreads hlost
    rw [hlost rfl] at hreads
    refine ⟨[], ?_, fun _ => rfl⟩
    rw [readBy_snoc, committedBy_snoc, map_append, hreads]
    simp [readBy, committedBy, BridgePhase.held]
  results := h.results

theorem Ordered.commit (h : Ordered events b) {seq : UInt64}
    {pending : List PendingExport} {results : List ExportResult}
    (hturn : flushTurn b.worker.connected b.pending b.results
      = .commit seq pending results) (session : Session) : Ordered (events ++ [.commit seq])
      { b with session, pending, results } := by
  obtain ⟨lost, hreads, hlost⟩ := h.reads
  obtain ⟨rest, hqueued, hrest⟩ := h.results
  have hfirst : ∀ front, b.pending = front :: pending → front.seq = seq →
      ∃ lost, (readBy (events ++ [.commit seq])).map OwnedRecord.seq
          = committedBy (events ++ [.commit seq])
            ++ pending.map PendingExport.seq ++ b.phase.held ++ lost
        ∧ (b.phase.ended = false → lost = []) := by
    intro front hfront hseq
    refine ⟨lost, ?_, hlost⟩
    rw [readBy_snoc, committedBy_snoc, map_append, hreads, hfront, ← hseq]
    simp [readBy, committedBy]
  rcases flushTurn_eq_commit hturn with ⟨hfront, hsame⟩
    | ⟨result, outcome, hfront, hsame, -⟩
  · rw [hfront] at hqueued
    exact ⟨hfirst _ hfront rfl, rest, by rw [hsame]; exact hqueued, hrest⟩
  · rw [hfront, hsame] at hqueued
    exact ⟨hfirst _ hfront rfl, rest, (List.cons.inj hqueued).2, hrest⟩

theorem Ordered.enqueue (h : Ordered events b) {record : WireRecord}
    {outcome : EnqueueOutcome} {tasks : List ExportTask} (hphase : b.phase = .enqueueing record)
    (henqueue : enqueueExportTask config b.worker.connected b.tasks
      (.ofRecord record) = some (.ok (outcome, tasks))) :
    Ordered (events ++ [.enqueue record outcome])
      { b with
        phase := .reading, tasks
        pending := b.pending ++ [pendingOf (record, outcome)] } := by
  obtain ⟨lost, hreads, hlost⟩ := (h.between (e := .enqueue record outcome) trivial).reads
  obtain ⟨rest, hqueued, hrest⟩ := h.results
  rw [hphase] at hreads hlost
  rw [hlost rfl] at hreads
  have hseq : (pendingOf (record, outcome)).seq = record.seq := by
    cases outcome with
    | queued => rfl
    | droppedNewest => rfl
  refine ⟨⟨[], ?_, fun _ => rfl⟩, ?_⟩
  · rw [hreads]
    simp [BridgePhase.held, hseq]
  · simp only [filterMap_append, hqueued]
    rcases enqueueExportTask_eq_ok henqueue with ⟨rfl, rfl⟩ | ⟨rfl, rfl⟩
    · refine ⟨rest ++ [record.seq], by simp [pendingOf, PendingExport.queuedSeq], ?_⟩
      intro hworking
      rw [hrest hworking]
      simp [ExportTask.ofRecord]
    · exact ⟨rest, by simp [pendingOf, PendingExport.queuedSeq], hrest⟩

theorem Ordered.report (h : Ordered events b) {result : ExportResult}
    (hworker : b.worker = .reporting result) : Ordered events
      { b with
        results := b.results ++ [result]
        worker := match result.outcome with
          | .ok _ => .idle
          | .error _ => .closing } where
  reads := h.reads
  results := by
    obtain ⟨rest, hqueued, hrest⟩ := h.results
    rw [hworker] at hrest
    rw [hrest rfl] at hqueued
    refine ⟨b.tasks.map ExportTask.seq, ?_, ?_⟩
    · rw [hqueued]
      simp [WorkerPhase.held]
    · cases result.outcome with
      | ok outcome => exact fun _ => rfl
      | error err => exact fun hworking => nomatch hworking

theorem Ordered.step (h : Ordered events b)
    (hstep : BridgeStep codec config b e b') : Ordered (events ++ [e]) b' := by
  cases hstep with
  | read record hphase => exact h.read record hphase
  | endOfStream hphase =>
    refine (h.between (e := .endOfStream) trivial).withPhase _ (Or.inr ?_)
    rw [hphase]
    exact ⟨rfl, rfl⟩
  | readFailed err _ => exact (h.between (e := .readFailed err) trivial).withPhase _ (Or.inl rfl)
  | commit fault _ hturn _ => exact h.commit hturn _
  | commitFailed fault _ hturn _ => exact (h.commit hturn _).withPhase _ (Or.inl rfl)
  | flushFailed _ _ => exact (h.between (e := .silent) trivial).withPhase _ (Or.inl rfl)
  | flushed hphase _ =>
    refine (h.between (e := .silent) trivial).withPhase _ (Or.inr ?_)
    rw [hphase]
    exact ⟨rfl, rfl⟩
  | enqueue hphase henqueue => exact h.enqueue hphase henqueue
  | enqueueFailed _ _ => exact (h.between (e := .silent) trivial).withPhase _ (Or.inl rfl)
  | finished _ _ => exact (h.between (e := .silent) trivial).withPhase _ (Or.inl rfl)
  | joined _ _ => exact (h.between (e := .silent) trivial).withPhase _ (Or.inl rfl)
  | opened hworker =>
    refine (h.between (e := .silent) trivial).withWorker _ _ _ fun _ => ?_
    rw [hworker]
    exact ⟨rfl, rfl⟩
  | openFailed err _ => exact (h.between (e := .silent) trivial).withWorker _ _ _ nofun
  | take hworker htasks =>
    refine (h.between (e := .silent) trivial).withWorker _ _ _ fun _ => ?_
    rw [hworker, htasks]
    exact ⟨rfl, rfl⟩
  | timeout now answers hworker _ _ _ =>
    exact (h.between (e := .silent) trivial).withWorker _ _ _ fun hworking => ⟨hworking, rfl⟩
  | timeoutFailed now answers _ _ _ _ =>
    exact (h.between (e := .silent) trivial).withWorker _ _ _ nofun
  | disconnected _ _ _ => exact (h.between (e := .silent) trivial).withWorker _ _ _ nofun
  | exported env hworker _ =>
    refine (h.between (e := .exported env) trivial).withWorker _ _ _ fun _ => ?_
    rw [hworker]
    exact ⟨rfl, rfl⟩
  | exportFailed env _ _ => exact (h.between (e := .exported env) trivial).withWorker _ _ _ nofun
  | report hworker _ => exact (h.between (e := .silent) trivial).report hworker
  | reportFailed _ _ => exact (h.between (e := .silent) trivial).withWorker _ _ _ nofun
  | close answers _ => exact (h.between (e := .silent) trivial).withWorker _ _ _ nofun

end Steps

theorem ordered_of_run {session : Session} {collectors : List Collector}
    {events : List BridgeEvent} {b : Bridge} (hrun : Run (BridgeStep codec config)
      (Bridge.start config session collectors) events b) : Ordered events b := by
  induction hrun with
  | nil => exact ordered_start config session collectors
  | snoc _ hstep ih => exact ih.step hstep

/-- Commits keep the order of the reads and skip none. -/
theorem commits_follow_reads (codec : LogsCodec) (config : BridgeConfig)
    (session : Session) (collectors : List Collector) {events : List BridgeEvent} {b : Bridge}
    (hrun : Run (BridgeStep codec config) (Bridge.start config session collectors) events b) :
    committedBy events <+: (readBy events).map OwnedRecord.seq ∧ ¬ b.OutOfOrder := by
  have h := ordered_of_run hrun
  refine ⟨?_, h.inOrder⟩
  obtain ⟨lost, hreads, -⟩ := h.reads
  rw [hreads, append_assoc, append_assoc]
  exact prefix_append _ _

def dropConfig : BridgeConfig :=
  { pairConfig with
    backpressureMode := .dropNewest, maxBufferedRecords := 1
    maxBuffered_pos := by decide }

def dropSecond (first second third : WireRecord) : List BridgeEvent :=
  [.silent, .read first, .silent, .enqueue first .queued, .read second,
    .silent, .enqueue second .droppedNewest, .silent, .exported atZero,
    .silent, .read third, .commit first.seq, .commit second.seq]

def droppedReads : List BridgeEvent :=
  dropSecond (logRecord 1 oneLog) (logRecord 2 oneLog) (logRecord 3 oneLog)

theorem commits_follow_reads_dropped : ∃ b, Run (BridgeStep tableCodec dropConfig)
        (.start dropConfig freshSession [⟨[]⟩]) droppedReads b
      ∧ committedBy droppedReads = [1, 2]
      ∧ committedBy droppedReads <+: (readBy droppedReads).map OwnedRecord.seq
      ∧ ¬ b.OutOfOrder := by
  have hrun : ∃ b, Run (BridgeStep tableCodec dropConfig)
      (.start dropConfig freshSession [⟨[]⟩]) droppedReads b :=
    ⟨_, .snoc (.snoc (.snoc (.snoc (.snoc (.snoc (.snoc (.snoc (.snoc (.snoc
      (.snoc (.snoc (.snoc .nil (.opened rfl)) (.read _ rfl))
      (.flushed rfl (.inl rfl))) (.enqueue rfl rfl)) (.read _ rfl))
      (.flushed rfl (.inr rfl))) (.enqueue rfl rfl)) (.take rfl rfl))
      (.exported atZero rfl rfl)) (.report rfl rfl)) (.read _ rfl))
      (.commit none rfl rfl rfl)) (.commit none rfl rfl rfl)⟩
  obtain ⟨b, hrun⟩ := hrun
  exact ⟨b, hrun, rfl, commits_follow_reads tableCodec dropConfig freshSession _ hrun⟩

end Logjet
