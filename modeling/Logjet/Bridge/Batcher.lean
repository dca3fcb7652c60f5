/-
Posting to the collectors (replay.rs `MultiCollectorConnection`,
`OtlpBatcher`). A collector is what it has accepted; its answers come with
each `post_for`, as does the time.
-/
import Logjet.Lib.Grouping
import Logjet.Otlp

namespace Logjet

structure Post where
  recordType : RecordType
  payload : Bytes
  deriving DecidableEq, Repr

structure Collector where
  accepted : List Post
  deriving DecidableEq, Repr

abbrev Answers := List (Option IoError)

def postFor (post : Post) : Answers → EStateM IoError (List Collector) Unit
  | _, [] => .ok () []
  | answers, collector :: collectors =>
    match answers.headD none with
    | some err => .error err (collector :: collectors)
    | none =>
      let collector := { accepted := collector.accepted ++ [post] }
      match postFor post answers.tail collectors with
      | .ok () collectors => .ok () (collector :: collectors)
      | .error err collectors => .error err (collector :: collectors)

structure LogsCodec where
  decode : DecodeLogs
  encodeToVec : ExportLogsServiceRequest → Bytes

structure OtlpBatcher where
  batchSize : Nat
  batchTimeout : Nat
  pending : ExportLogsServiceRequest
  pendingCount : Nat
  firstAdded : Option Nat
  deriving DecidableEq, Repr

def fromMillis (ms : UInt64) : Nat := ms.toNat * 1000000

structure Exporter where
  batcher : OtlpBatcher
  collectors : List Collector
  deriving DecidableEq, Repr

namespace OtlpBatcher

def new (batchSize : Nat) (batchTimeoutMs : UInt64) : OtlpBatcher :=
  { batchSize, batchTimeout := fromMillis batchTimeoutMs
    pending := { resourceLogs := [] }, pendingCount := 0, firstAdded := none }

def mergeScope (scopes : List ScopeLogs) (incoming : ScopeLogs) : List ScopeLogs :=
  Grouping.upsert (fun sl => sl.scope = incoming.scope)
    (fun sl => { sl with logRecords := sl.logRecords ++ incoming.logRecords }) incoming scopes

def mergeResource (resources : List ResourceLogs) (incoming : ResourceLogs) : List ResourceLogs :=
  Grouping.upsert (fun rl => rl.resource = incoming.resource)
    (fun rl => { rl with
      scopeLogs := incoming.scopeLogs.foldl mergeScope rl.scopeLogs })
    incoming resources

def recordCount (req : ExportLogsServiceRequest) : Nat :=
  (req.resourceLogs.map fun rl =>
    (rl.scopeLogs.map fun sl => sl.logRecords.length).sum).sum

def merge (now : Nat) (req : ExportLogsServiceRequest) (self : OtlpBatcher) : OtlpBatcher :=
  { self with
    firstAdded := self.firstAdded.or (some now)
    pending :=
      { resourceLogs :=
          req.resourceLogs.foldl mergeResource self.pending.resourceLogs }
    pendingCount := self.pendingCount + recordCount req }

def expired (now : Nat) (self : OtlpBatcher) : Bool :=
  self.pendingCount > 0 ∧ self.batchTimeout / 1000000 > 0
    ∧ self.firstAdded.any fun t => now - t ≥ self.batchTimeout

end OtlpBatcher

namespace Exporter

variable (codec : LogsCodec)

def post (post : Post) (answers : Answers) : EStateM IoError Exporter Unit :=
  fun self =>
    match postFor post answers self.collectors with
    | .ok () collectors => .ok () { self with collectors }
    | .error err collectors => .error err { self with collectors }

def flush (answers : Answers) : EStateM IoError Exporter Unit := do
  let self ← get
  if self.batcher.pendingCount = 0 then return ()
  let merged := self.batcher.pending
  modify fun self =>
    { self with batcher :=
      { self.batcher with
        pending := { resourceLogs := [] }
        pendingCount := 0
        firstAdded := none } }
  post { recordType := .logs, payload := codec.encodeToVec merged } answers

def add (payload : Bytes) (now : Nat) (answers : Answers) : EStateM IoError Exporter Unit := do
  let self ← get
  if self.batcher.batchSize ≤ 1 then
    post { recordType := .logs, payload } answers
  else
    match codec.decode payload with
    | some req =>
      let batcher := self.batcher.merge now req
      set { self with batcher }
      if batcher.pendingCount ≥ batcher.batchSize then
        flush codec answers
      else return ()
    | none => post { recordType := .logs, payload } answers

def flushIfExpired (now : Nat) (answers : Answers) : EStateM IoError Exporter Unit := do
  let self ← get
  if self.batcher.expired now then flush codec answers else return ()

end Exporter

end Logjet
