/-
`ljx discover` (src/ljx/src/commands/discover.rs): what a dataset holds,
scanned by several workers. A `BTreeMap<String, u64>` is given by its
lookups; counting up wraps.
-/
import Logjet.Lib.WorkPool
import Logjet.Ljx.Input

namespace Logjet.Ljx

structure DatasetEntry where
  path : Text
  size : UInt64
  modifiedNs : Option UInt64
  firstSeq : Option UInt64
  lastSeq : Option UInt64
  firstTsUnixNs : Option UInt64
  lastTsUnixNs : Option UInt64
  index : Option DatasetIndex
  deriving DecidableEq, Repr

structure SpanJson where
  first : Option UInt64
  last : Option UInt64
  deriving DecidableEq, Repr

structure FileSummary where
  path : Text
  size : UInt64
  modifiedUnixNs : Option UInt64
  sourceSequenceSpan : SpanJson
  sourceTimeSpanUnixNs : SpanJson
  recordsScanned : UInt64
  recordsMatched : UInt64
  logEvents : UInt64
  timeSpanUnixNs : SpanJson
  skippedByIndex : Bool
  deriving DecidableEq, Repr

abbrev Counts := String → Option UInt64

def Counts.empty : Counts := fun _ => none

def incrementCount (counts : Counts) (value : String) : Counts :=
  fun k =>
  if k = value then some ((counts k).getD 0 + 1) else counts k

def mergeCounts (target source : Counts) : Counts :=
  fun k =>
  match source k with
  | some count => some ((target k).getD 0 + count)
  | none => target k

def updateSpan (span : SpanJson) (tsUnixNs : UInt64) : SpanJson :=
  { first := some (span.first.elim tsUnixNs (min · tsUnixNs))
    last := some (span.last.elim tsUnixNs (max · tsUnixNs)) }

structure FileScan where
  row : FileSummary
  services : Counts
  severities : Counts

structure LogEventSummary where
  count : UInt64
  services : Counts
  severities : Counts

def LogEventSummary.default : LogEventSummary :=
  { count := 0, services := .empty, severities := .empty }

def serviceName (rl : ResourceLogs) : Option String :=
  rl.resource.bind fun resource => resource.attributes.findSome? fun attr =>
    if attr.key ≠ "service.name" then none else attr.stringValue

def serviceAllowed (serviceFilter : Option (Finset String)) (service : Option String) : Bool :=
  serviceFilter.all fun allowed => service.any fun value => value ∈ allowed

def severityAllowed (severityFilter : Option (Finset String)) (lr : LogRecord) : Bool :=
  severityFilter.all fun allowed => lr.severityText ∈ allowed

def severityLabel (lr : LogRecord) : String :=
  if lr.severityText.isEmpty then "<unset>" else lr.severityText

def countLogRecord (severityFilter : Option (Finset String))
    (service : Option String) (summary : LogEventSummary) (lr : LogRecord) :
    Except LjxError LogEventSummary := do
  if !severityAllowed severityFilter lr then return summary
  let count ← lift (checkedAdd "discover log_events" summary.count 1)
  return { count
           services := service.elim summary.services
             (incrementCount summary.services)
           severities :=
             incrementCount summary.severities (severityLabel lr) }

def countResourceLogs (serviceFilter severityFilter : Option (Finset String))
    (summary : LogEventSummary) (rl : ResourceLogs) :
    Except LjxError LogEventSummary :=
  let service := serviceName rl
  if !serviceAllowed serviceFilter service then .ok summary
  else rl.scopeLogs.foldlM (fun summary sl =>
    sl.logRecords.foldlM (countLogRecord severityFilter service) summary)
      summary

def summariseMatchingLogEvents (decode : DecodeLogs) (record : OwnedRecord)
    (serviceFilter severityFilter : Option (Finset String)) : Except LjxError LogEventSummary :=
  if record.recordType ≠ .logs then .ok .default
  else
    match decode record.payload with
    | none => .ok .default
    | some batch => batch.resourceLogs.foldlM
        (countResourceLogs serviceFilter severityFilter) .default

section

variable (x : External) (decode : DecodeLogs) (predicate : RecordPredicate)
  (serviceFilter severityFilter : Option (Finset String))

def scanRecord (scan : FileScan) (record : OwnedRecord) : Except LjxError FileScan := do
  let row := scan.row
  let recordsScanned ← lift (checkedAdd "discover records_scanned" row.recordsScanned 1)
  let row := { row with recordsScanned }
  if !predicate.matches decode record then return { scan with row }
  let recordsMatched ← lift (checkedAdd "discover records_matched" row.recordsMatched 1)
  let timeSpanUnixNs := updateSpan row.timeSpanUnixNs record.tsUnixNs
  let logSummary ← summariseMatchingLogEvents decode record serviceFilter severityFilter
  let logEvents ← lift (checkedAdd "discover log_events" row.logEvents logSummary.count.toNat)
  return { row := { row with recordsMatched, timeSpanUnixNs, logEvents }
           services := mergeCounts scan.services logSummary.services
           severities := mergeCounts scan.severities logSummary.severities }

def scanEntryLoop (r : LogjetReader) (scan : FileScan) : Except LjxError FileScan :=
  match _hnext : nextRecord x r with
  | .error err _ => lift (.error err)
  | .ok none _ => .ok scan
  | .ok (some record) r' =>
    match scanRecord decode predicate serviceFilter severityFilter scan record with
    | .error err => .error err
    | .ok scan => scanEntryLoop r' scan
termination_by r.remaining
decreasing_by exact nextRecord_uses x _hnext

def readInput (sys : Surroundings) (files : Directory) (path : Text) : Except LjxError Bytes :=
  match InputHandle.open sys path files with
  | .ok handle files => .ok ((files.get? handle.file).getD [])
  | .error err _ => .error err

def DatasetEntry.row (entry : DatasetEntry) : FileSummary :=
  { path := entry.path
    size := entry.size
    modifiedUnixNs := entry.modifiedNs
    sourceSequenceSpan := ⟨entry.firstSeq, entry.lastSeq⟩
    sourceTimeSpanUnixNs := ⟨entry.firstTsUnixNs, entry.lastTsUnixNs⟩
    recordsScanned := 0
    recordsMatched := 0
    logEvents := 0
    timeSpanUnixNs := ⟨none, none⟩
    skippedByIndex := false }

def scanEntry (sys : Surroundings) (files : Directory)
    (entry : DatasetEntry) : Except LjxError FileScan :=
  if entry.index.any fun index => !index.summary.mayMatch predicate then
    .ok { row := { entry.row with skippedByIndex := true }
          services := .empty
          severities := .empty }
  else do
    let data ← readInput sys files entry.path
    scanEntryLoop x decode predicate serviceFilter severityFilter
      (LogjetReader.withConfig data .default)
      { row := entry.row, services := .empty, severities := .empty }

def scanEntries (sys : Surroundings) (files : Directory)
    (entries : List DatasetEntry) : Except LjxError (List FileScan) :=
  entries.mapM (scanEntry x decode predicate serviceFilter severityFilter sys files)

def collectResults (results : List (Option (Except LjxError FileScan))) :
    Except LjxError (List FileScan) :=
  results.mapM fun result =>
    result.getD (.error (.usage "missing worker scan result"))

def workerCount (workers : Nat) (entries : List DatasetEntry) : Nat :=
  min (max workers 1) entries.length

def scanEntriesParallel (sys : Surroundings) (files : Directory)
    (entries : List DatasetEntry) (workers : Nat) (schedule : List WorkPool.Move) :
    Option (Except LjxError (List FileScan)) :=
  if entries.isEmpty then some (.ok [])
  else if workerCount workers entries = 1 then
    some (scanEntries x decode predicate serviceFilter severityFilter sys files entries)
  else do
    let p ← (WorkPool.Pool.start entries (workerCount workers entries)).run
      entries (scanEntry x decode predicate serviceFilter severityFilter sys files) schedule
    if p.done then some (collectResults p.results) else none

end

structure DiscoverySummary where
  recordsScanned : UInt64
  recordsMatched : UInt64
  logEvents : UInt64
  firstTsUnixNs : Option UInt64
  lastTsUnixNs : Option UInt64
  services : Counts
  severities : Counts

def DiscoverySummary.default : DiscoverySummary :=
  { recordsScanned := 0, recordsMatched := 0, logEvents := 0
    firstTsUnixNs := none, lastTsUnixNs := none
    services := .empty, severities := .empty }

def mergeSpan (first last : Option UInt64) (span : SpanJson) : Option UInt64 × Option UInt64 :=
  (span.first.elim first fun value => some (first.elim value (min · value)),
    span.last.elim last fun value => some (last.elim value (max · value)))

def DiscoverySummary.merge (self : DiscoverySummary) (file : FileScan) : DiscoverySummary :=
  let span := mergeSpan self.firstTsUnixNs self.lastTsUnixNs file.row.timeSpanUnixNs
  { recordsScanned := self.recordsScanned + file.row.recordsScanned
    recordsMatched := self.recordsMatched + file.row.recordsMatched
    logEvents := self.logEvents + file.row.logEvents
    firstTsUnixNs := span.1
    lastTsUnixNs := span.2
    services := mergeCounts self.services file.services
    severities := mergeCounts self.severities file.severities }

def summarise (files : List FileScan) : List FileSummary × DiscoverySummary :=
  (files.map FileScan.row, files.foldl DiscoverySummary.merge .default)

end Logjet.Ljx
