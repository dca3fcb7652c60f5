/-
A bridge with backpressure: `bridge_transport` and its `export_worker`
(replay.rs), two threads with a bounded channel of tasks between them and an
unbounded one of results back. A step is what one thread does up to the next
point where the other can tell; what the outside decides comes with it.
-/
import Logjet.Bridge.Batcher
import Logjet.Bridge.Session
import Logjet.Lib.Transition

namespace Logjet

inductive BackpressureMode
  | block
  | disconnect
  | dropNewest
  deriving DecidableEq, Repr

structure BridgeConfig where
  backpressureMode : BackpressureMode
  maxBufferedRecords : Nat
  maxBuffered_pos : 0 < maxBufferedRecords
  batchSize : Nat
  batchTimeoutMs : UInt64
  upstreamMode : UpstreamMode

structure ExportTask where
  seq : UInt64
  recordType : RecordType
  payload : Bytes
  deriving DecidableEq, Repr

def ExportTask.ofRecord (record : WireRecord) : ExportTask :=
  { seq := record.seq, recordType := record.recordType
    payload := record.payload }

inductive ExportOutcome
  | delivered
  | droppedNewest
  deriving DecidableEq, Repr

structure ExportResult where
  seq : UInt64
  outcome : Except IoError ExportOutcome

inductive PendingExport
  | queued (seq : UInt64)
  | dropped (seq : UInt64)
  deriving DecidableEq, Repr

inductive EnqueueOutcome
  | queued
  | droppedNewest
  deriving DecidableEq, Repr

def pendingOf (e : WireRecord × EnqueueOutcome) : PendingExport :=
  match e.2 with
  | .queued => .queued e.1.seq
  | .droppedNewest => .dropped e.1.seq

inductive TrySend
  | sent (tasks : List ExportTask)
  | full
  | disconnected

def trySend (capacity : Nat) (connected : Bool) (tasks : List ExportTask)
    (task : ExportTask) : TrySend :=
  if !connected then .disconnected
  else if tasks.length < capacity then .sent (tasks ++ [task])
  else .full

def workerStopped : IoError := ⟨.brokenPipe, "collector export worker stopped"⟩

def enqueueExportTask (config : BridgeConfig) (connected : Bool)
    (tasks : List ExportTask) (task : ExportTask) :
    Option (Except IoError (EnqueueOutcome × List ExportTask)) :=
  match trySend config.maxBufferedRecords connected tasks task, config.backpressureMode with
  | .sent tasks, _ => some (.ok (.queued, tasks))
  | .disconnected, _ => some (.error workerStopped)
  | .full, .block => none
  | .full, .disconnect => some (.error ⟨.timedOut,
      "collector export buffer is full; disconnecting bridge"⟩)
  | .full, .dropNewest => some (.ok (.droppedNewest, tasks))

inductive FlushTurn
  | done
  | empty
  | commit (seq : UInt64) (pending : List PendingExport) (results : List ExportResult)
  | fail (err : IoError)

def flushTurn (connected : Bool) (pending : List PendingExport)
    (results : List ExportResult) : FlushTurn :=
  match pending with
  | [] => .done
  | .dropped seq :: rest => .commit seq rest results
  | .queued expectedSeq :: rest =>
    match results with
    | [] => if connected then .empty else .fail workerStopped
    | result :: results =>
      if result.seq ≠ expectedSeq then
        .fail ⟨.invalidData, "collector export worker returned seq="
          ++ toString result.seq ++ " out of order; expected " ++ toString expectedSeq⟩
      else
        match result.outcome with
        | .ok _ => .commit result.seq rest results
        | .error err => .fail err

structure ExportEnv where
  addedAt : Nat
  addAnswers : Answers
  checkedAt : Nat
  flushAnswers : Answers
  deriving DecidableEq, Repr

def exportTask (codec : LogsCodec) (env : ExportEnv) (task : ExportTask) :
    EStateM IoError Exporter (Except IoError ExportOutcome) := do
  if task.recordType = .logs then
    let result ← EStateM.attempt (Exporter.add codec task.payload env.addedAt env.addAnswers)
    Exporter.flushIfExpired codec env.checkedAt env.flushAnswers
    return result.map fun () => .delivered
  else
    let result ← EStateM.attempt
      (Exporter.post { recordType := task.recordType, payload := task.payload } env.addAnswers)
    return result.map fun () => .delivered

inductive WorkerPhase
  | opening
  | idle
  | exporting (task : ExportTask)
  | reporting (result : ExportResult)
  | closing
  | stopped (result : Except IoError Unit)

def WorkerPhase.connected : WorkerPhase → Bool
  | .stopped _ => false
  | _ => true

inductive BridgePhase
  | reading
  | flushing (record : WireRecord)
  | enqueueing (record : WireRecord)
  | finishing
  | joining (err : Option IoError)
  | returned (result : Except IoError Unit)

def BridgePhase.sending : BridgePhase → Bool
  | .reading | .flushing _ | .enqueueing _ => true
  | _ => false

def BridgePhase.receiving : BridgePhase → Bool
  | .returned _ => false
  | _ => true

def BridgePhase.inFlush : BridgePhase → Bool
  | .flushing _ | .finishing => true
  | _ => false

def joinResult (err : Option IoError) (worker : Except IoError Unit) : Except IoError Unit :=
  match err with
  | some err => .error err
  | none => worker

structure Bridge where
  phase : BridgePhase
  session : Session
  pending : List PendingExport
  tasks : List ExportTask
  results : List ExportResult
  worker : WorkerPhase
  exporter : Exporter

def Bridge.start (config : BridgeConfig) (session : Session)
    (collectors : List Collector) : Bridge :=
  { phase := .reading, session, pending := [], tasks := [], results := []
    worker := .opening
    exporter :=
      { batcher := .new config.batchSize config.batchTimeoutMs, collectors } }

inductive BridgeEvent
  | read (record : WireRecord)
  | endOfStream
  | readFailed (err : IoError)
  | enqueue (record : WireRecord) (outcome : EnqueueOutcome)
  | commit (seq : UInt64)
  | exported (env : ExportEnv)
  | silent

def BridgeEvent.fromUpstream : BridgeEvent → Bool
  | .read _ | .endOfStream | .readFailed _ => true
  | _ => false

inductive BridgeStep (codec : LogsCodec) (config : BridgeConfig) :
    Bridge → BridgeEvent → Bridge → Prop
  | read {b : Bridge} (record : WireRecord) (hphase : b.phase = .reading) :
      BridgeStep codec config b (.read record) { b with phase := .flushing record }
  | endOfStream {b : Bridge} (hphase : b.phase = .reading) :
      BridgeStep codec config b .endOfStream { b with phase := .finishing }
  | readFailed {b : Bridge} (err : IoError) (hphase : b.phase = .reading) :
      BridgeStep codec config b (.readFailed err) { b with phase := .returned (.error err) }
  | commit {b : Bridge} {seq : UInt64} {pending : List PendingExport}
      {results : List ExportResult} {session : Session}
      (fault : Option CommitFault) (hphase : b.phase.inFlush = true)
      (hturn : flushTurn b.worker.connected b.pending b.results = .commit seq pending results)
      (hcommit : Session.commitRecord config.upstreamMode seq fault b.session = .ok () session) :
      BridgeStep codec config b (.commit seq) { b with session, pending, results }
  | commitFailed {b : Bridge} {seq : UInt64} {pending : List PendingExport}
      {results : List ExportResult} {session : Session} {err : IoError}
      (fault : Option CommitFault) (hphase : b.phase.inFlush = true)
      (hturn : flushTurn b.worker.connected b.pending b.results = .commit seq pending results)
      (hcommit : Session.commitRecord config.upstreamMode seq fault b.session
        = .error err session) : BridgeStep codec config b (.commit seq)
        { b with phase := .returned (.error err), session, pending, results }
  | flushFailed {b : Bridge} {err : IoError} (hphase : b.phase.inFlush = true)
      (hturn : flushTurn b.worker.connected b.pending b.results = .fail err) :
      BridgeStep codec config b .silent { b with phase := .returned (.error err) }
  | flushed {b : Bridge} {record : WireRecord} (hphase : b.phase = .flushing record)
      (hturn : flushTurn b.worker.connected b.pending b.results = .done
        ∨ flushTurn b.worker.connected b.pending b.results = .empty) :
      BridgeStep codec config b .silent { b with phase := .enqueueing record }
  | enqueue {b : Bridge} {record : WireRecord} {outcome : EnqueueOutcome}
      {tasks : List ExportTask} (hphase : b.phase = .enqueueing record)
      (henqueue : enqueueExportTask config b.worker.connected b.tasks
        (.ofRecord record) = some (.ok (outcome, tasks))) :
      BridgeStep codec config b (.enqueue record outcome)
        { b with
          phase := .reading
          tasks
          pending := b.pending ++ [pendingOf (record, outcome)] }
  | enqueueFailed {b : Bridge} {record : WireRecord} {err : IoError}
      (hphase : b.phase = .enqueueing record)
      (henqueue : enqueueExportTask config b.worker.connected b.tasks
        (.ofRecord record) = some (.error err)) : BridgeStep codec config b .silent
        { b with phase := .joining (some err) }
  | finished {b : Bridge} (hphase : b.phase = .finishing)
      (hturn : flushTurn b.worker.connected b.pending b.results = .done) :
      BridgeStep codec config b .silent { b with phase := .joining none }
  | joined {b : Bridge} {err : Option IoError} {result : Except IoError Unit}
      (hphase : b.phase = .joining err) (hworker : b.worker = .stopped result) :
      BridgeStep codec config b .silent { b with phase := .returned (joinResult err result) }
  | opened {b : Bridge} (hworker : b.worker = .opening) :
      BridgeStep codec config b .silent { b with worker := .idle }
  | openFailed {b : Bridge} (err : IoError) (hworker : b.worker = .opening) :
      BridgeStep codec config b .silent { b with worker := .stopped (.error err) }
  | take {b : Bridge} {task : ExportTask} {tasks : List ExportTask}
      (hworker : b.worker = .idle) (htasks : b.tasks = task :: tasks) :
      BridgeStep codec config b .silent { b with worker := .exporting task, tasks }
  | timeout {b : Bridge} {exporter : Exporter} (now : Nat)
      (answers : Answers) (hworker : b.worker = .idle) (htasks : b.tasks = [])
      (hsending : b.phase.sending = true)
      (hflush : Exporter.flushIfExpired codec now answers b.exporter = .ok () exporter) :
      BridgeStep codec config b .silent { b with exporter }
  | timeoutFailed {b : Bridge} {exporter : Exporter} {err : IoError}
      (now : Nat) (answers : Answers) (hworker : b.worker = .idle)
      (htasks : b.tasks = []) (hsending : b.phase.sending = true)
      (hflush : Exporter.flushIfExpired codec now answers b.exporter = .error err exporter) :
      BridgeStep codec config b .silent { b with worker := .stopped (.error err), exporter }
  | disconnected {b : Bridge} (hworker : b.worker = .idle)
      (htasks : b.tasks = []) (hsending : b.phase.sending = false) :
      BridgeStep codec config b .silent { b with worker := .closing }
  | exported {b : Bridge} {task : ExportTask} {exporter : Exporter}
      {outcome : Except IoError ExportOutcome} (env : ExportEnv)
      (hworker : b.worker = .exporting task) (hexport : exportTask codec env task b.exporter
        = .ok outcome exporter) : BridgeStep codec config b (.exported env)
        { b with worker := .reporting { seq := task.seq, outcome }, exporter }
  | exportFailed {b : Bridge} {task : ExportTask} {exporter : Exporter}
      {err : IoError} (env : ExportEnv) (hworker : b.worker = .exporting task)
      (hexport : exportTask codec env task b.exporter = .error err exporter) :
      BridgeStep codec config b (.exported env) { b with worker := .stopped (.error err), exporter }
  | report {b : Bridge} {result : ExportResult} (hworker : b.worker = .reporting result)
      (hreceiving : b.phase.receiving = true) : BridgeStep codec config b .silent
        { b with
          results := b.results ++ [result]
          worker := match result.outcome with
            | .ok _ => .idle
            | .error _ => .closing }
  | reportFailed {b : Bridge} {result : ExportResult} (hworker : b.worker = .reporting result)
      (hreceiving : b.phase.receiving = false) :
      BridgeStep codec config b .silent { b with worker := .closing }
  | close {b : Bridge} (answers : Answers) (hworker : b.worker = .closing) :
      BridgeStep codec config b .silent
        { b with
          worker := .stopped (.ok ())
          exporter := match Exporter.flush codec answers b.exporter with
            | .ok () exporter => exporter
            | .error _ exporter => exporter }

def readBy (events : List BridgeEvent) : List WireRecord :=
  events.filterMap fun
    | .read record => some record
    | _ => none

def enqueuedBy (events : List BridgeEvent) : List (WireRecord × EnqueueOutcome) :=
  events.filterMap fun
    | .enqueue record outcome => some (record, outcome)
    | _ => none

def committedBy (events : List BridgeEvent) : List UInt64 :=
  events.filterMap fun
    | .commit seq => some seq
    | _ => none

end Logjet
