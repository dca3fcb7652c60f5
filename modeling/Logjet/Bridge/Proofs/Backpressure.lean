/-
Every commit of a bridge with backpressure has been posted, if no log payload
is left in a batch when its task is reported (`Books`).
-/
import Logjet.Bridge.Proofs.Batcher

namespace Logjet

open List EStateM Transition

variable {codec : LogsCodec} {config : BridgeConfig}

def queuedOf (entries : List (WireRecord × EnqueueOutcome)) : List ExportTask :=
  entries.filterMap fun e =>
    match e.2 with
    | .queued => some (.ofRecord e.1)
    | .droppedNewest => none

theorem queuedOf_append (a b : List (WireRecord × EnqueueOutcome)) :
    queuedOf (a ++ b) = queuedOf a ++ queuedOf b := filterMap_append

def Reported (codec : LogsCodec) (collectors : List Collector)
    (task : ExportTask) (result : ExportResult) : Prop :=
  result.seq = task.seq
    ∧ ∀ outcome, result.outcome = .ok outcome → Posted codec task collectors

theorem Reported.grew {before after : List Collector} {task : ExportTask}
    {result : ExportResult} (h : Reported codec before task result)
    (hgrew : Grew before after) : Reported codec after task result :=
  ⟨h.1, fun outcome hok => (h.2 outcome hok).grew hgrew⟩

def InHand (codec : LogsCodec) (collectors : List Collector)
    (tasks rest : List ExportTask) : WorkerPhase → Prop
  | .opening | .idle => rest = tasks
  | .exporting task => rest = task :: tasks
  | .reporting result => ∃ task, rest = task :: tasks ∧ Reported codec collectors task result
  | .closing | .stopped _ => True

structure Books (codec : LogsCodec) (events : List BridgeEvent) (b : Bridge)
    (handled waiting : List (WireRecord × EnqueueOutcome))
    (reported rest : List ExportTask) : Prop where
  enqueued : enqueuedBy events = handled ++ waiting
  committed : committedBy events = handled.map fun e => e.1.seq
  posted : ∀ e ∈ handled, e.2 = .queued → Posted codec (.ofRecord e.1) b.exporter.collectors
  pending : b.pending = waiting.map pendingOf
  queued : queuedOf waiting = reported ++ rest
  results : List.Forall₂ (Reported codec b.exporter.collectors) reported b.results
  inHand : InHand codec b.exporter.collectors b.tasks rest b.worker

def Booked (codec : LogsCodec) (events : List BridgeEvent) (b : Bridge) : Prop :=
  ∃ handled waiting reported rest, Books codec events b handled waiting reported rest

theorem booked_start (codec : LogsCodec) (config : BridgeConfig)
    (session : Session) (collectors : List Collector) :
    Booked codec [] (Bridge.start config session collectors) :=
  ⟨[], [], [], [], rfl, rfl, fun _ he => absurd he not_mem_nil, rfl, rfl, .nil, rfl⟩

def BridgeEvent.Aside : BridgeEvent → Prop
  | .enqueue _ _ | .commit _ => False
  | _ => True

theorem enqueuedBy_snoc (events : List BridgeEvent) (e : BridgeEvent) :
    enqueuedBy (events ++ [e]) = enqueuedBy events ++ enqueuedBy [e] := filterMap_append

theorem committedBy_snoc (events : List BridgeEvent) (e : BridgeEvent) :
    committedBy (events ++ [e]) = committedBy events ++ committedBy [e] := filterMap_append

section Steps

variable {events : List BridgeEvent} {b b' : Bridge} {e : BridgeEvent}

theorem Booked.aside (h : Booked codec events b) (haside : e.Aside)
    (hpending : b'.pending = b.pending) (hresults : b'.results = b.results)
    (hgrew : Grew b.exporter.collectors b'.exporter.collectors)
    (hhand : ∀ rest, InHand codec b.exporter.collectors b.tasks rest b.worker →
      InHand codec b'.exporter.collectors b'.tasks rest b'.worker) :
    Booked codec (events ++ [e]) b' := by
  obtain ⟨handled, waiting, reported, rest, hbooks⟩ := h
  have hnone : enqueuedBy [e] = [] ∧ committedBy [e] = [] := by
    cases e with
    | read | endOfStream | readFailed | exported | silent => exact ⟨rfl, rfl⟩
    | enqueue | commit => exact haside.elim
  refine ⟨handled, waiting, reported, rest, ?_, ?_, ?_, ?_, hbooks.queued, ?_,
    hhand rest hbooks.inHand⟩
  · rw [enqueuedBy_snoc, hnone.1, append_nil, hbooks.enqueued]
  · rw [committedBy_snoc, hnone.2, append_nil, hbooks.committed]
  · exact fun e he hq => (hbooks.posted e he hq).grew hgrew
  · rw [hpending, hbooks.pending]
  · rw [hresults]
    exact hbooks.results.imp fun _ _ hreported => hreported.grew hgrew

theorem Booked.moved (h : Booked codec events b) (haside : e.Aside) (phase : BridgePhase) :
    Booked codec (events ++ [e]) { b with phase } :=
  h.aside haside rfl rfl (Grew.refl _) fun _ hhand => hhand

variable {connected : Bool} {tasks : List ExportTask} {task : ExportTask} {outcome : EnqueueOutcome}

theorem flushTurn_eq_commit {pending : List PendingExport}
    {results results' : List ExportResult} {seq : UInt64} {rest : List PendingExport}
    (h : flushTurn connected pending results = .commit seq rest results') :
    (pending = .dropped seq :: rest ∧ results' = results)
      ∨ ∃ result outcome, pending = .queued seq :: rest
        ∧ results = result :: results' ∧ result.outcome = .ok outcome := by
  unfold flushTurn at h
  cases pending with
  | nil => cases h
  | cons front tail =>
    cases front with
    | dropped n =>
      cases h
      exact Or.inl ⟨rfl, rfl⟩
    | queued n =>
      cases results with
      | nil =>
        cases connected
        · cases h
        · cases h
      | cons result later =>
        simp only at h
        by_cases hseq : result.seq ≠ n
        · rw [if_pos hseq] at h
          cases h
        · rw [if_neg hseq] at h
          cases houtcome : result.outcome with
          | error err =>
            rw [houtcome] at h
            cases h
          | ok outcome =>
            rw [houtcome] at h
            cases h
            rw [← not_ne_iff.mp hseq]
            exact Or.inr ⟨result, outcome, rfl, rfl, houtcome⟩

theorem Booked.commit (h : Booked codec events b) {seq : UInt64}
    {pending : List PendingExport} {results : List ExportResult}
    (hturn : flushTurn b.worker.connected b.pending b.results
      = .commit seq pending results) (phase : BridgePhase) (session : Session) :
    Booked codec (events ++ [.commit seq]) { b with phase, session, pending, results } := by
  obtain ⟨handled, waiting, reported, rest, hbooks⟩ := h
  have hpending := hbooks.pending
  have hqueued := hbooks.queued
  have hresults := hbooks.results
  have hmove : ∀ (e : WireRecord × EnqueueOutcome) later reported',
      waiting = e :: later → e.1.seq = seq → pending = later.map pendingOf → (e.2 = .queued →
        Posted codec (.ofRecord e.1) b.exporter.collectors) → queuedOf later = reported' ++ rest →
      List.Forall₂ (Reported codec b.exporter.collectors) reported' results →
      Booked codec (events ++ [.commit seq]) { b with phase, session, pending, results } := by
    intro e later reported' hwaiting hseq hlater hposted hq hr
    refine ⟨handled ++ [e], later, reported', rest, ?_, ?_, ?_, hlater, hq, hr, hbooks.inHand⟩
    · rw [enqueuedBy_snoc, hbooks.enqueued, hwaiting]
      exact (append_nil _).trans (append_cons _ _ _)
    · rw [committedBy_snoc, hbooks.committed, map_append]
      exact congrArg (fun n => _ ++ [n]) hseq.symm
    · intro e' he'
      rcases mem_append.mp he' with he' | he'
      · exact hbooks.posted e' he'
      · rw [mem_singleton.mp he']
        exact hposted
  rcases flushTurn_eq_commit hturn with ⟨hfront, hsame⟩
    | ⟨result, outcome, hfront, hsame, hok⟩
  · rw [hfront] at hpending
    cases waiting with
    | nil => cases hpending
    | cons e later =>
      obtain ⟨record, outcome⟩ := e
      cases outcome with
      | queued => cases hpending
      | droppedNewest =>
        rw [map_cons, pendingOf, List.cons.injEq, PendingExport.dropped.injEq] at hpending
        refine hmove _ later reported rfl hpending.1.symm hpending.2 (fun h => nomatch h) hqueued ?_
        rw [hsame]
        exact hresults
  · rw [hfront] at hpending
    cases waiting with
    | nil => cases hpending
    | cons e later =>
      obtain ⟨record, outcome⟩ := e
      cases outcome with
      | droppedNewest => cases hpending
      | queued =>
        rw [map_cons, pendingOf, List.cons.injEq, PendingExport.queued.injEq] at hpending
        rw [hsame] at hresults
        cases hresults with
        | @cons task _ reported' _ hreported hlater =>
          have hfirst : ExportTask.ofRecord record
              :: queuedOf later = task :: (reported' ++ rest) := hqueued
          rw [List.cons.injEq] at hfirst
          refine hmove _ later reported' rfl hpending.1.symm hpending.2
            (fun _ => ?_) hfirst.2 hlater
          rw [hfirst.1]
          exact hreported.2 outcome hok

theorem enqueueExportTask_eq_ok {tasks' : List ExportTask}
    (h : enqueueExportTask config connected tasks task = some (.ok (outcome, tasks'))) :
    (outcome = .queued ∧ tasks' = tasks ++ [task])
      ∨ (outcome = .droppedNewest ∧ tasks' = tasks) := by
  unfold enqueueExportTask trySend at h
  cases connected with
  | false => cases h
  | true =>
    by_cases hroom : tasks.length < config.maxBufferedRecords
    · simp only [Bool.not_true, Bool.false_eq_true, if_false, if_pos hroom] at h
      cases h
      exact Or.inl ⟨rfl, rfl⟩
    · simp only [Bool.not_true, Bool.false_eq_true, if_false, if_neg hroom] at h
      cases hmode : config.backpressureMode with
      | block => rw [hmode] at h; cases h
      | disconnect => rw [hmode] at h; cases h
      | dropNewest =>
        rw [hmode] at h
        cases h
        exact Or.inr ⟨rfl, rfl⟩

theorem InHand.enqueue {collectors : List Collector} {rest : List ExportTask} {worker : WorkerPhase}
    (h : InHand codec collectors tasks rest worker) (task : ExportTask) :
    InHand codec collectors (tasks ++ [task]) (rest ++ [task]) worker := by
  cases worker with
  | opening | idle => exact congrArg (· ++ [task]) h
  | exporting current => exact congrArg (· ++ [task]) h
  | reporting result =>
    obtain ⟨current, hrest, hreported⟩ := h
    exact ⟨current, congrArg (· ++ [task]) hrest, hreported⟩
  | closing | stopped => exact trivial

theorem Booked.enqueue (h : Booked codec events b) {record : WireRecord}
    (henqueue : enqueueExportTask config b.worker.connected b.tasks
      (.ofRecord record) = some (.ok (outcome, tasks))) (phase : BridgePhase) :
    Booked codec (events ++ [.enqueue record outcome])
      { b with
        phase, tasks
        pending := b.pending ++ [pendingOf (record, outcome)] } := by
  obtain ⟨handled, waiting, reported, rest, hbooks⟩ := h
  have henqueued : enqueuedBy (events ++ [.enqueue record outcome])
      = handled ++ (waiting ++ [(record, outcome)]) := by
    rw [enqueuedBy_snoc, hbooks.enqueued, append_assoc]
    rfl
  have hcommitted : committedBy (events ++ [.enqueue record outcome])
      = handled.map fun e => e.1.seq := by
    rw [committedBy_snoc, hbooks.committed]
    exact append_nil _
  have hpending : b.pending ++ [pendingOf (record, outcome)]
      = (waiting ++ [(record, outcome)]).map pendingOf := by
    rw [map_append, hbooks.pending]
    rfl
  rcases enqueueExportTask_eq_ok henqueue with ⟨rfl, rfl⟩ | ⟨rfl, rfl⟩
  · refine ⟨handled, _, reported, rest ++ [.ofRecord record], henqueued,
      hcommitted, hbooks.posted, hpending, ?_, hbooks.results, hbooks.inHand.enqueue _⟩
    rw [queuedOf_append, hbooks.queued, append_assoc]
    rfl
  · refine ⟨handled, _, reported, rest, henqueued, hcommitted, hbooks.posted,
      hpending, ?_, hbooks.results, hbooks.inHand⟩
    rw [queuedOf_append, hbooks.queued]
    exact append_nil _

theorem Booked.report (h : Booked codec events b) {result : ExportResult}
    (hworker : b.worker = .reporting result) : Booked codec (events ++ [.silent])
      { b with
        results := b.results ++ [result]
        worker := match result.outcome with
          | .ok _ => .idle
          | .error _ => .closing } := by
  obtain ⟨handled, waiting, reported, rest, hbooks⟩ := h
  have hhand := hbooks.inHand
  rw [hworker] at hhand
  obtain ⟨task, hrest, hreported⟩ := hhand
  refine ⟨handled, waiting, reported ++ [task], b.tasks, ?_, ?_,
    hbooks.posted, hbooks.pending, ?_, ?_, ?_⟩
  · rw [enqueuedBy_snoc, hbooks.enqueued]
    exact append_nil _
  · rw [committedBy_snoc, hbooks.committed]
    exact append_nil _
  · rw [hbooks.queued, hrest, append_assoc]
    rfl
  · exact rel_append hbooks.results (.cons hreported .nil)
  · cases result.outcome with
    | ok outcome => rfl
    | error err => exact trivial

def Prompt (codec : LogsCodec) (b : Bridge) : BridgeEvent → Prop
  | .exported env => ∀ task, b.worker = .exporting task → task.recordType = .logs →
        PostsAtOnce codec env b.exporter.batcher task.payload
  | _ => True

theorem Booked.exported (h : Booked codec events b)
    {env : ExportEnv} {exporter : Exporter} {outcome : Except IoError ExportOutcome}
    (hworker : b.worker = .exporting task) (hends : Grew b.exporter.collectors exporter.collectors
      ∧ ∀ o, outcome = .ok o → Posted codec task exporter.collectors) :
    Booked codec (events ++ [.exported env])
      { b with worker := .reporting { seq := task.seq, outcome }
               exporter } := by
  refine h.aside trivial rfl rfl hends.1 ?_
  intro rest hhand
  rw [hworker] at hhand
  exact ⟨task, hhand, rfl, hends.2⟩

theorem Booked.step (h : Booked codec events b)
    (hstep : BridgeStep codec config b e b') (hprompt : Prompt codec b e) :
    Booked codec (events ++ [e]) b' := by
  cases hstep with
  | read record _ => exact h.moved (e := .read record) trivial _
  | endOfStream _ => exact h.moved (e := .endOfStream) trivial _
  | readFailed err _ => exact h.moved (e := .readFailed err) trivial _
  | commit fault _ hturn _ => exact h.commit hturn _ _
  | commitFailed fault _ hturn _ => exact h.commit hturn _ _
  | flushFailed _ _ => exact h.moved (e := .silent) trivial _
  | flushed _ _ => exact h.moved (e := .silent) trivial _
  | enqueue _ henqueue => exact h.enqueue henqueue _
  | enqueueFailed _ _ => exact h.moved (e := .silent) trivial _
  | finished _ _ => exact h.moved (e := .silent) trivial _
  | joined _ _ => exact h.moved (e := .silent) trivial _
  | opened hworker =>
    refine h.aside trivial rfl rfl (Grew.refl _) ?_
    intro rest hhand
    rw [hworker] at hhand
    exact hhand
  | openFailed err _ => exact h.aside trivial rfl rfl (Grew.refl _) fun _ _ => trivial
  | take hworker htasks =>
    refine h.aside trivial rfl rfl (Grew.refl _) ?_
    intro rest hhand
    rw [hworker, htasks] at hhand
    exact hhand
  | timeout now answers hworker _ _ hflush =>
    have hends := (Exporter.flushIfExpired_ends now answers _).ok hflush
    refine h.aside trivial rfl rfl hends.1 ?_
    intro rest hhand
    rw [hworker] at hhand
    simp only [hworker]
    exact hhand
  | timeoutFailed now answers _ _ _ hflush =>
    have hgrew := (Exporter.flushIfExpired_ends now answers _).error hflush
    exact h.aside trivial rfl rfl hgrew fun _ _ => trivial
  | disconnected _ _ _ => exact h.aside trivial rfl rfl (Grew.refl _) fun _ _ => trivial
  | exported env hworker hexport =>
    exact h.exported hworker ((exportTask_posted (hprompt _ hworker)).ok hexport)
  | exportFailed env hworker hexport =>
    have hgrew := (exportTask_posted (hprompt _ hworker)).error hexport
    exact h.aside trivial rfl rfl hgrew fun _ _ => trivial
  | report hworker _ => exact h.report hworker
  | reportFailed _ _ => exact h.aside trivial rfl rfl (Grew.refl _) fun _ _ => trivial
  | close answers _ =>
    refine h.aside trivial rfl rfl ?_ fun _ _ => trivial
    have hends := @Exporter.flush_ends codec answers b.exporter
    unfold Ends at hends
    cases hflush : Exporter.flush codec answers b.exporter with
    | ok u exporter => rw [hflush] at hends; exact hends.1
    | error err exporter => rw [hflush] at hends; exact hends

end Steps

def PromptStep (codec : LogsCodec) (config : BridgeConfig) (b : Bridge)
    (e : BridgeEvent) (b' : Bridge) : Prop := BridgeStep codec config b e b' ∧ Prompt codec b e

theorem booked_of_run {session : Session} {collectors : List Collector}
    {events : List BridgeEvent} {b : Bridge} (hrun : Run (PromptStep codec config)
      (Bridge.start config session collectors) events b) : Booked codec events b := by
  induction hrun with
  | nil => exact booked_start codec config session collectors
  | snoc _ hstep ih => exact ih.step hstep.1 hstep.2

/-- In a prompt run, what is committed after queueing has been posted. -/
theorem commits_are_posted (codec : LogsCodec) (config : BridgeConfig)
    (session : Session) (collectors : List Collector) {events : List BridgeEvent} {b : Bridge}
    (hrun : Run (PromptStep codec config) (Bridge.start config session collectors) events b) :
    ∃ handled, handled <+: enqueuedBy events ∧ committedBy events = handled.map (fun e => e.1.seq)
      ∧ ∀ e ∈ handled, e.2 = .queued → Posted codec (.ofRecord e.1) b.exporter.collectors := by
  obtain ⟨handled, waiting, reported, rest, hbooks⟩ := booked_of_run hrun
  refine ⟨handled, ?_, hbooks.committed, hbooks.posted⟩
  rw [hbooks.enqueued]
  exact prefix_append _ _

def emptyLogs (n : Nat) : ExportLogsServiceRequest :=
  ⟨[⟨none, [⟨none, List.replicate n { severityText := "", other := [] }, ""⟩], ""⟩]⟩

/-- `emptyLogs 1` and `emptyLogs 2` on the wire. -/
def oneLog : Bytes := [10, 4, 18, 2, 18, 0]

def twoLogs : Bytes := [10, 6, 18, 4, 18, 0, 18, 0]

/-- A table of what `prost` gives on these batches. -/
def tableCodec : LogsCodec where
  decode payload :=
    if payload = oneLog then some (emptyLogs 1)
    else if payload = twoLogs then some (emptyLogs 2)
    else none
  encodeToVec req :=
    if req = emptyLogs 1 then oneLog else if req = emptyLogs 2 then twoLogs else []

def pairConfig : BridgeConfig where
  backpressureMode := .block
  maxBufferedRecords := 16
  maxBuffered_pos := by decide
  batchSize := 2
  batchTimeoutMs := 0
  upstreamMode := .drain

def logRecord (seq : UInt64) (payload : Bytes) : WireRecord :=
  { recordType := .logs, seq, tsUnixNs := seq, payload }

def freshSession : Session :=
  { state := { streamId := some 1, lastSeq := 0 }, stateFile := true
    saved := none, acks := [] }

def pairStart : Bridge := .start pairConfig freshSession [⟨[]⟩]

def atZero : ExportEnv := ⟨0, [], 0, []⟩

def twoReads (first second : WireRecord) : List BridgeEvent :=
  [.silent, .read first, .silent, .enqueue first .queued, .silent,
    .exported atZero, .silent, .read second, .commit first.seq]

def fullReads : List BridgeEvent := twoReads (logRecord 1 twoLogs) (logRecord 2 oneLog)

theorem commits_are_posted_full : ∃ b, Run (PromptStep tableCodec pairConfig) pairStart fullReads b
      ∧ ∃ handled, handled <+: enqueuedBy fullReads
        ∧ committedBy fullReads = handled.map (fun e => e.1.seq)
        ∧ ∀ e ∈ handled, e.2 = .queued →
          Posted tableCodec (.ofRecord e.1) b.exporter.collectors := by
  have hrun : ∃ b, Run (PromptStep tableCodec pairConfig) pairStart fullReads b := by
    refine ⟨_, .snoc (.snoc (.snoc (.snoc (.snoc (.snoc (.snoc (.snoc (.snoc
      .nil ⟨.opened rfl, trivial⟩) ⟨.read _ rfl, trivial⟩)
      ⟨.flushed rfl (.inl rfl), trivial⟩) ⟨.enqueue rfl rfl, trivial⟩)
      ⟨.take rfl rfl, trivial⟩) ⟨.exported atZero rfl rfl, ?_⟩)
      ⟨.report rfl rfl, trivial⟩) ⟨.read _ rfl, trivial⟩) ⟨.commit none rfl rfl rfl, trivial⟩⟩
    intro task htask _
    cases htask
    exact Or.inr (Or.inl (by decide))
  obtain ⟨b, hrun⟩ := hrun
  exact ⟨b, hrun, commits_are_posted tableCodec pairConfig freshSession _ hrun⟩

def halfFullReads : List BridgeEvent := twoReads (logRecord 1 oneLog) (logRecord 2 oneLog)

theorem commit_precedes_post : ∃ b,
      Run (BridgeStep tableCodec pairConfig) pairStart halfFullReads b
        ∧ enqueuedBy halfFullReads = [(logRecord 1 oneLog, .queued)]
        ∧ committedBy halfFullReads = [1]
        ∧ b.session.saved = some { streamId := some 1, lastSeq := 1 } ∧ b.session.acks = [1]
        ∧ ¬ Posted tableCodec (.ofRecord (logRecord 1 oneLog)) b.exporter.collectors := by
  refine ⟨_, .snoc (.snoc (.snoc (.snoc (.snoc (.snoc (.snoc (.snoc (.snoc
    .nil (.opened rfl)) (.read _ rfl)) (.flushed rfl (.inl rfl)))
    (.enqueue rfl rfl)) (.take rfl rfl)) (.exported atZero rfl rfl))
    (.report rfl rfl)) (.read _ rfl)) (.commit none rfl rfl rfl), rfl, rfl, rfl, rfl, ?_⟩
  intro hposted
  obtain ⟨post, hmem, -⟩ := hposted ⟨[]⟩ (mem_singleton_self _)
  cases hmem

end Logjet
