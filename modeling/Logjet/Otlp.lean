/-
The OTLP payloads, as far as this repository looks into them. Decoding is
`prost`'s, a parameter wherever it is used and with no property assumed.
What the code never reads of a value is one field, in its encoded form; so
equality here is of bytes, where the derived `PartialEq` of a double has NaN
unequal to itself and the two zeros equal.
-/
import Logjet.Format

namespace Logjet

inductive Value
  | stringValue (value : String)
  | intValue (value : Int64)
  | other (encoded : Bytes)
  deriving DecidableEq, Repr

structure AnyValue where
  value : Option Value
  deriving DecidableEq, Repr

structure KeyValue where
  key : String
  value : Option AnyValue
  deriving DecidableEq, Repr

structure Resource where
  attributes : List KeyValue
  other : Bytes
  deriving DecidableEq, Repr

structure InstrumentationScope where
  name : String := ""
  attributes : List KeyValue := []
  encoded : Bytes
  deriving DecidableEq, Repr

structure LogRecord where
  timeUnixNano : UInt64 := 0
  observedTimeUnixNano : UInt64 := 0
  severityNumber : Int32 := 0
  severityText : String
  body : Option AnyValue := none
  attributes : List KeyValue := []
  traceId : Bytes := []
  spanId : Bytes := []
  eventName : String := ""
  other : Bytes
  deriving DecidableEq, Repr

structure ScopeLogs where
  scope : Option InstrumentationScope
  logRecords : List LogRecord
  schemaUrl : String
  deriving DecidableEq, Repr

structure ResourceLogs where
  resource : Option Resource
  scopeLogs : List ScopeLogs
  schemaUrl : String
  deriving DecidableEq, Repr

structure ExportLogsServiceRequest where
  resourceLogs : List ResourceLogs
  deriving DecidableEq, Repr

structure DataPoint where
  timeUnixNano : UInt64
  other : Bytes
  deriving DecidableEq, Repr

inductive MetricData
  | gauge (dataPoints : List DataPoint)
  | sum (dataPoints : List DataPoint)
  | histogram (dataPoints : List DataPoint)
  | exponentialHistogram (dataPoints : List DataPoint)
  | summary (dataPoints : List DataPoint)
  deriving DecidableEq, Repr

structure Metric where
  data : Option MetricData
  other : Bytes
  deriving DecidableEq, Repr

structure ScopeMetrics where
  metrics : List Metric
  other : Bytes
  deriving DecidableEq, Repr

structure ResourceMetrics where
  scopeMetrics : List ScopeMetrics
  other : Bytes
  deriving DecidableEq, Repr

structure ExportMetricsServiceRequest where
  resourceMetrics : List ResourceMetrics
  deriving DecidableEq, Repr

structure Span where
  startTimeUnixNano : UInt64
  other : Bytes
  deriving DecidableEq, Repr

structure ScopeSpans where
  spans : List Span
  other : Bytes
  deriving DecidableEq, Repr

structure ResourceSpans where
  scopeSpans : List ScopeSpans
  other : Bytes
  deriving DecidableEq, Repr

structure ExportTraceServiceRequest where
  resourceSpans : List ResourceSpans
  deriving DecidableEq, Repr

abbrev DecodeLogs := Bytes → Option ExportLogsServiceRequest

def KeyValue.stringValue (attr : KeyValue) : Option String :=
  match attr.value with
  | some ⟨some (.stringValue value)⟩ => some value
  | _ => none

end Logjet
