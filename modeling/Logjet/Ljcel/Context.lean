/-
What a CEL expression sees of a record (src/ljcel/src/context.rs). The engine
is a crate and `F` is its `f64`; a context is the list of its variables, a
`HashMap` that of its entries by first key. The message types are declared
again, apart from `Logjet.Otlp`: this decoder reads other fields of the same
bytes, and each model keeps the fields its own code reads.
-/
import Logjet.Format
import Logjet.Lib.HashMap

namespace Logjet.Ljcel

structure AnyValueOf (V : Type) where
  value : Option V
  deriving DecidableEq, Repr

structure KeyValueOf (V : Type) where
  key : String
  value : Option (AnyValueOf V)
  deriving DecidableEq, Repr

inductive OtelValue (F : Type)
  | stringValue (value : String)
  | boolValue (value : Bool)
  | intValue (value : Int64)
  | doubleValue (value : F)
  | bytesValue (value : Bytes)
  | arrayValue (values : List (AnyValueOf (OtelValue F)))
  | kvlistValue (values : List (KeyValueOf (OtelValue F)))
  deriving Repr

abbrev AnyValue (F : Type) := AnyValueOf (OtelValue F)

abbrev KeyValue (F : Type) := KeyValueOf (OtelValue F)

variable (F : Type)

structure Resource where
  attributes : List (KeyValue F)
  deriving Repr

structure InstrumentationScope where
  name : String
  attributes : List (KeyValue F)
  deriving Repr

structure LogRecord where
  timeUnixNano : UInt64 := 0
  observedTimeUnixNano : UInt64 := 0
  severityNumber : Int32 := 0
  severityText : String := ""
  body : Option (AnyValue F) := none
  attributes : List (KeyValue F) := []
  flags : UInt32 := 0
  traceId : Bytes := []
  spanId : Bytes := []
  eventName : String := ""
  deriving Repr

structure ScopeLogs where
  scope : Option (InstrumentationScope F)
  logRecords : List (LogRecord F)
  deriving Repr

structure ResourceLogs where
  resource : Option (Resource F)
  scopeLogs : List (ScopeLogs F)
  deriving Repr

structure ExportLogsServiceRequest where
  resourceLogs : List (ResourceLogs F)
  deriving Repr

inductive NumberValue
  | asDouble (value : F)
  | asInt (value : Int64)
  deriving Repr

structure NumberDataPoint where
  attributes : List (KeyValue F)
  timeUnixNano : UInt64
  value : Option (NumberValue F)
  deriving Repr

structure HistogramDataPoint where
  attributes : List (KeyValue F)
  timeUnixNano : UInt64
  count : UInt64
  sum : Option F
  deriving Repr

structure SummaryDataPoint where
  attributes : List (KeyValue F)
  timeUnixNano : UInt64
  count : UInt64
  sum : F
  deriving Repr

inductive MetricData
  | gauge (dataPoints : List (NumberDataPoint F))
  | sum (dataPoints : List (NumberDataPoint F))
  | histogram (dataPoints : List (HistogramDataPoint F))
  | exponentialHistogram (dataPoints : List (HistogramDataPoint F))
  | summary (dataPoints : List (SummaryDataPoint F))
  deriving Repr

structure Metric where
  name : String
  description : String
  unit : String
  data : Option (MetricData F)
  deriving Repr

structure ScopeMetrics where
  scope : Option (InstrumentationScope F)
  metrics : List (Metric F)
  deriving Repr

structure ResourceMetrics where
  resource : Option (Resource F)
  scopeMetrics : List (ScopeMetrics F)
  deriving Repr

structure ExportMetricsServiceRequest where
  resourceMetrics : List (ResourceMetrics F)
  deriving Repr

structure Status where
  message : String
  code : Int32
  deriving DecidableEq, Repr

structure Span where
  traceId : Bytes
  spanId : Bytes
  parentSpanId : Bytes
  name : String
  kind : Int32
  startTimeUnixNano : UInt64
  endTimeUnixNano : UInt64
  attributes : List (KeyValue F)
  status : Option Status
  deriving Repr

structure ScopeSpans where
  scope : Option (InstrumentationScope F)
  spans : List (Span F)
  deriving Repr

structure ResourceSpans where
  resource : Option (Resource F)
  scopeSpans : List (ScopeSpans F)
  deriving Repr

structure ExportTraceServiceRequest where
  resourceSpans : List (ResourceSpans F)
  deriving Repr

inductive CelValue
  | string (value : String)
  | bool (value : Bool)
  | int (value : Int64)
  | float (value : F)
  | list (values : List CelValue)
  | map (entries : List (String × CelValue))
  | other (debug : String)
  deriving Repr

abbrev Context := List (String × CelValue F)

structure Engine where
  convert : CelValue F → Except String (CelValue F)
  debug : CelValue F → String
  zero : F
  ofInt : Int64 → F

inductive CelError
  | compile (msg : String)
  | notBoolean (msg : String)
  | decode (msg : String)
  deriving DecidableEq, Repr

variable {F}

mutual

def anyValueToCel : AnyValueOf (OtelValue F) → CelValue F
  | ⟨some (.stringValue s)⟩ => .string s
  | ⟨some (.boolValue b)⟩ => .bool b
  | ⟨some (.intValue n)⟩ => .int n
  | ⟨some (.doubleValue d)⟩ => .float d
  | ⟨some (.bytesValue b)⟩ => .string s!"<{b.length} bytes>"
  | ⟨some (.arrayValue values)⟩ => .list (anyValuesToCel values)
  | ⟨some (.kvlistValue values)⟩ =>
    .map ((kvlistEntries values).foldl (fun map (key, value) => HashMap.insert key value map) [])
  | ⟨none⟩ => .string ""

def anyValuesToCel : List (AnyValueOf (OtelValue F)) → List (CelValue F)
  | [] => []
  | value :: values => anyValueToCel value :: anyValuesToCel values

def kvlistEntries : List (KeyValueOf (OtelValue F)) → List (String × CelValue F)
  | [] => []
  | ⟨key, some value⟩ :: items => (key, anyValueToCel value) :: kvlistEntries items
  | ⟨_, none⟩ :: items => kvlistEntries items

end

def keyValueToCel (state : List String × List (String × CelValue F))
    (attr : KeyValue F) : List String × List (String × CelValue F) :=
  let (seen, map) := state
  if attr.key ∈ seen then (seen, map)
  else
    match attr.value with
    | some value => (attr.key :: seen, HashMap.insert attr.key (anyValueToCel value) map)
    | none => (attr.key :: seen, map)

def keyValuesToCelMap (attrs : List (KeyValue F)) : CelValue F :=
  .map (attrs.foldl keyValueToCel ([], [])).2

def AnyValueOf.stringValue (v : AnyValue F) : Option String :=
  match v.value with
  | some (.stringValue s) => some s
  | _ => none

def extractServiceName (resourceAttrs : List (KeyValue F)) : String :=
  (((resourceAttrs.find? (·.key = "service.name")).bind (·.value)).bind
    AnyValueOf.stringValue).getD ""

def hexDigit (nibble : UInt8) : Char := "0123456789abcdef".toList.getD nibble.toNat '0'

def hexEncode (bytes : Bytes) : String :=
  String.ofList (bytes.flatMap fun (byte : UInt8) =>
    [hexDigit (byte >>> 4), hexDigit (byte &&& 0x0f)])

def onlyIf (c : Bool) (name : String) (value : CelValue F) : Context F :=
  if c then [(name, value)] else []

def Engine.toCelContext (engine : Engine F) (vars : Context F) : Except CelError (Context F) :=
  vars.mapM fun (name, value) =>
    match engine.convert value with
    | .ok value => .ok (name, value)
    | .error e => .error (.compile (name ++ ": " ++ e))

structure LogRecordContext (F : Type) where
  body : String
  severityText : String
  severityNumber : Int64
  eventName : String
  serviceName : String
  scopeName : String
  timeUnixNano : Int64
  observedTimeUnixNano : Int64
  traceId : String
  spanId : String
  flags : Int32
  resource : CelValue F
  scope : CelValue F
  attributes : CelValue F

def LogRecordContext.vars (c : LogRecordContext F) : Context F :=
  [("body", .string c.body), ("severity_text", .string c.severityText),
    ("severity_number", .int c.severityNumber)]
  ++ onlyIf (c.eventName ≠ "") "event_name" (.string c.eventName)
  ++ onlyIf (c.serviceName ≠ "") "service_name" (.string c.serviceName)
  ++ onlyIf (c.scopeName ≠ "") "scope_name" (.string c.scopeName)
  ++ [("time_unix_nano", .int c.timeUnixNano)]
  ++ onlyIf (c.observedTimeUnixNano > 0) "observed_time_unix_nano" (.int c.observedTimeUnixNano)
  ++ onlyIf (c.traceId ≠ "") "trace_id" (.string c.traceId)
  ++ onlyIf (c.spanId ≠ "") "span_id" (.string c.spanId)
  ++ onlyIf (c.flags ≠ 0) "flags" (.int c.flags.toInt64)
  ++ [("resource", c.resource), ("scope", c.scope), ("attributes", c.attributes)]

structure MetricDataPointContext (F : Type) where
  metricName : String
  metricUnit : String
  metricDescription : String
  metricType : String
  value : F
  count : Int64
  sum : F
  timeUnixNano : Int64
  serviceName : String
  scopeName : String
  resource : CelValue F
  scope : CelValue F
  attributes : CelValue F

def MetricDataPointContext.vars (c : MetricDataPointContext F) : Context F :=
  [("metric_name", .string c.metricName)]
  ++ onlyIf (c.metricUnit ≠ "") "metric_unit" (.string c.metricUnit)
  ++ onlyIf (c.metricDescription ≠ "") "metric_description" (.string c.metricDescription)
  ++ [("metric_type", .string c.metricType), ("value", .float c.value),
    ("count", .int c.count), ("sum", .float c.sum)]
  ++ onlyIf (c.timeUnixNano > 0) "time_unix_nano" (.int c.timeUnixNano)
  ++ onlyIf (c.serviceName ≠ "") "service_name" (.string c.serviceName)
  ++ onlyIf (c.scopeName ≠ "") "scope_name" (.string c.scopeName)
  ++ [("resource", c.resource), ("scope", c.scope), ("attributes", c.attributes)]

structure SpanContext (F : Type) where
  traceId : String
  spanId : String
  parentSpanId : String
  name : String
  kind : Int64
  startTimeUnixNano : Int64
  endTimeUnixNano : Int64
  durationNs : Int64
  statusCode : Int64
  statusMessage : String
  serviceName : String
  scopeName : String
  resource : CelValue F
  scope : CelValue F
  attributes : CelValue F

def SpanContext.vars (c : SpanContext F) : Context F :=
  onlyIf (c.traceId ≠ "") "trace_id" (.string c.traceId) ++ [("span_id", .string c.spanId)]
  ++ onlyIf (c.parentSpanId ≠ "") "parent_span_id" (.string c.parentSpanId)
  ++ [("name", .string c.name), ("kind", .int c.kind)]
  ++ onlyIf (c.startTimeUnixNano > 0) "start_time_unix_nano" (.int c.startTimeUnixNano)
  ++ onlyIf (c.endTimeUnixNano > 0) "end_time_unix_nano" (.int c.endTimeUnixNano)
  ++ onlyIf (c.durationNs > 0) "duration_ns" (.int c.durationNs)
  ++ [("status_code", .int c.statusCode)] ++ onlyIf (c.statusMessage ≠ "") "status_message"
    (.string c.statusMessage) ++ onlyIf (c.serviceName ≠ "") "service_name" (.string c.serviceName)
  ++ onlyIf (c.scopeName ≠ "") "scope_name" (.string c.scopeName)
  ++ [("resource", c.resource), ("scope", c.scope), ("attributes", c.attributes)]

end Logjet.Ljcel
