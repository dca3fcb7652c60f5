/-
Ingest over OTLP/HTTP (daemon.rs `handle_otlp_http_request`): one request,
from its method and path to the record in the spool. A request is what hyper
hands over; the decoders are parameters.
-/
import Logjet.Otlp
import Logjet.Spool
import Logjet.Daemon.Policy

namespace Logjet

def extractBatchTimestamp (batch : ExportLogsServiceRequest) : Option UInt64 :=
  batch.resourceLogs.findSome? fun resourceLogs =>
    resourceLogs.scopeLogs.findSome? fun scopeLogs =>
      scopeLogs.logRecords.findSome? fun record =>
        if record.timeUnixNano ≠ 0 then some record.timeUnixNano
        else if record.observedTimeUnixNano ≠ 0 then
          some record.observedTimeUnixNano
        else none

def firstTime (dataPoints : List DataPoint) : Option UInt64 :=
  dataPoints.findSome? fun dp =>
    if dp.timeUnixNano ≠ 0 then some dp.timeUnixNano else none

def MetricData.firstTime : MetricData → Option UInt64
  | .gauge dataPoints => Logjet.firstTime dataPoints
  | .sum dataPoints => Logjet.firstTime dataPoints
  | .histogram dataPoints => Logjet.firstTime dataPoints
  | .exponentialHistogram dataPoints => Logjet.firstTime dataPoints
  | .summary dataPoints => Logjet.firstTime dataPoints

def extractBatchTimestampMetrics (batch : ExportMetricsServiceRequest) : Option UInt64 :=
  Option.join <| batch.resourceMetrics.findSome? fun resourceMetrics =>
      resourceMetrics.scopeMetrics.findSome? fun scopeMetrics =>
        scopeMetrics.metrics.findSome? fun metric =>
          match metric.data with
          | none => some none
          | some data => data.firstTime.map some

def extractBatchTimestampTraces (batch : ExportTraceServiceRequest) : Option UInt64 :=
  batch.resourceSpans.findSome? fun resourceSpans =>
    resourceSpans.scopeSpans.findSome? fun scopeSpans =>
      scopeSpans.spans.findSome? fun span =>
        if span.startTimeUnixNano ≠ 0 then some span.startTimeUnixNano
        else none

def priorityFromSeverityNumber (severityNumber : Int32) : BatchPriority :=
  if 21 ≤ severityNumber ∧ severityNumber ≤ 24 then .fatal
  else if 17 ≤ severityNumber ∧ severityNumber ≤ 20 then .error
  else if 13 ≤ severityNumber ∧ severityNumber ≤ 16 then .warn
  else if 9 ≤ severityNumber ∧ severityNumber ≤ 12 then .info
  else if 5 ≤ severityNumber ∧ severityNumber ≤ 8 then .debug
  else if 1 ≤ severityNumber ∧ severityNumber ≤ 4 then .trace
  else .unknown

def classifyOtlpBatchPriority (batch : ExportLogsServiceRequest) : BatchPriority :=
  (batch.resourceLogs.flatMap fun resourceLogs =>
    resourceLogs.scopeLogs.flatMap fun scopeLogs => scopeLogs.logRecords)
    |>.foldl (fun highest record => highest.max
        (priorityFromSeverityNumber record.severityNumber)) .unknown

structure HttpExternal where
  gunzip : Bytes → Except String Bytes
  decodeLogs : Bytes → Except String ExportLogsServiceRequest
  decodeMetrics : Bytes → Except String ExportMetricsServiceRequest
  decodeTraces : Bytes → Except String ExportTraceServiceRequest

structure Clock where
  now : Nat
  reportNow : Nat
  unixTimeNanos : UInt64
  deriving DecidableEq, Repr

structure HttpRequest where
  method : String
  path : String
  headers : List (String × Bytes)
  body : Except String Bytes

structure HttpResponse where
  status : Nat
  body : String
  deriving DecidableEq, Repr

def headerToStr (value : Bytes) : Option Text :=
  if value.all fun b => (32 ≤ b && b < 127) || b = 9 then
    some (value.map fun b => Char.ofNat b.toNat)
  else none

def HttpRequest.header (req : HttpRequest) (name : String) : Option Text :=
  (req.headers.find? (·.1 = name)).bind fun entry => headerToStr entry.2

def HttpRequest.contentLength (req : HttpRequest) : Option UInt64 :=
  (req.header "content-length").bind fun text => (parseU64 text).toOption

def maybeDecompressBody (h : HttpExternal) (body : Bytes)
    (encoding : Option Text) : Except IoError Bytes :=
  if encoding = some "gzip".toList ∨ encoding = some "x-gzip".toList then
    (h.gunzip body).mapError fun err => ⟨.invalidData, "gzip decompression failed: " ++ err⟩
  else .ok body

structure HttpIngest where
  policy : IngestPolicyState
  nextSeq : UInt64
  spool : Spool
  generation : UInt64
  appended : List WireRecord
  deriving Repr

namespace HttpIngest

def decide (overload : IngestOverloadConfig) (clock : Clock)
    (priority : BatchPriority) : EStateM IoError HttpIngest IngestDecision :=
  modifyGet fun s =>
    let (decision, policy) := s.policy.decide overload clock.now clock.reportNow priority
    (decision, { s with policy })

def noteOversize (overload : IngestOverloadConfig) (clock : Clock) :
    EStateM IoError HttpIngest Unit :=
  modify fun s =>
    { s with policy := s.policy.noteOversize overload clock.reportNow }

def fetchAdd : EStateM IoError HttpIngest UInt64 :=
  modifyGet fun s => (s.nextSeq, { s with nextSeq := s.nextSeq + 1 })

def append (x : External) (record : WireRecord) : EStateM IoError HttpIngest Unit :=
  fun s =>
  let s := { s with appended := s.appended ++ [record] }
  match Spool.append x record s.spool with
  | .ok () spool => .ok () { s with spool }
  | .error err spool => .error err { s with spool }

def notifyChange : EStateM IoError HttpIngest Unit :=
  modify fun s => { s with generation := saturatingSucc s.generation }

def appendBatchRecord (x : External) (record : WireRecord) : EStateM IoError HttpIngest Unit := do
  append x record
  notifyChange

end HttpIngest

structure Signal (β : Type) where
  recordType : RecordType
  decode : Bytes → Except String β
  priority : β → BatchPriority
  timestamp : β → Option UInt64

def metricsSignal (h : HttpExternal) : Signal ExportMetricsServiceRequest :=
  { recordType := .metrics, decode := h.decodeMetrics
    priority := fun _ => .unknown
    timestamp := extractBatchTimestampMetrics }

def tracesSignal (h : HttpExternal) : Signal ExportTraceServiceRequest :=
  { recordType := .traces, decode := h.decodeTraces
    priority := fun _ => .unknown
    timestamp := extractBatchTimestampTraces }

def logsSignal (h : HttpExternal) : Signal ExportLogsServiceRequest :=
  { recordType := .logs, decode := h.decodeLogs
    priority := classifyOtlpBatchPriority
    timestamp := extractBatchTimestamp }

section

variable (x : External) (overload : IngestOverloadConfig) (clock : Clock)

def Signal.ingest {β : Type} (signal : Signal β) (bodyVec : Bytes) :
    EStateM IoError HttpIngest HttpResponse :=
  match signal.decode bodyVec with
  | .error err => return ⟨400, "decode error: " ++ err⟩
  | .ok batch => do
      let decision ← HttpIngest.decide overload clock (signal.priority batch)
      if decision = .rejectRateLimited then
        return ⟨429, "rate limit exceeded"⟩
      else
        let seq ← HttpIngest.fetchAdd
        HttpIngest.appendBatchRecord x
          { recordType := signal.recordType
            seq
            tsUnixNs := (signal.timestamp batch).getD clock.unixTimeNanos
            payload := bodyVec }
        return ⟨200, ""⟩

def payloadTooLarge : EStateM IoError HttpIngest HttpResponse := do
  HttpIngest.noteOversize overload clock
  return ⟨413, "payload too large"⟩

variable (h : HttpExternal) (maxBatchBytes : Nat)

def handleBody (req : HttpRequest) (bodyBytes : Bytes) : EStateM IoError HttpIngest HttpResponse :=
  if bodyBytes.length > maxBatchBytes then payloadTooLarge overload clock
  else
    match maybeDecompressBody h bodyBytes (req.header "content-encoding") with
    | .error err => return ⟨400, "decompression error: " ++ err.message⟩
    | .ok bodyVec =>
      if req.path = "/v1/metrics" then
        (metricsSignal h).ingest x overload clock bodyVec
      else if req.path = "/v1/traces" then
        (tracesSignal h).ingest x overload clock bodyVec
      else (logsSignal h).ingest x overload clock bodyVec

def handleOtlpHttpRequest (req : HttpRequest) : EStateM IoError HttpIngest HttpResponse :=
  if req.method ≠ "POST" ∨ req.path ∉ ["/v1/logs", "/v1/metrics", "/v1/traces"] then
    return ⟨404, "not found"⟩
  else if req.contentLength.any (·.toNat > maxBatchBytes) then
    payloadTooLarge overload clock
  else
    match req.body with
    | .error err => throw ⟨.other, "failed to read request body: " ++ err⟩
    | .ok bodyBytes => handleBody x overload clock h maxBatchBytes req bodyBytes

def appendedWhile (req : HttpRequest) (s : HttpIngest) : List WireRecord :=
  match handleOtlpHttpRequest x overload clock h maxBatchBytes req s with
  | .ok _ s' => s'.appended.drop s.appended.length
  | .error _ s' => s'.appended.drop s.appended.length

end

end Logjet
