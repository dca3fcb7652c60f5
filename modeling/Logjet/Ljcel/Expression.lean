/-
Matching a payload against a CEL expression (src/ljcel/src/expression.rs):
the first log record, data point or span that gives `true` decides. A compiled
program is a function of the context, to a value or an error.
-/
import Logjet.Ljcel.Context
import Logjet.Ljx.Predicate

namespace Logjet.Ljcel

variable {F : Type}

structure CelExpression (F : Type) where
  program : Context F → Except String (CelValue F)

structure Decoders (F : Type) where
  logs : Bytes → Except String (ExportLogsServiceRequest F)
  metrics : Bytes → Except String (ExportMetricsServiceRequest F)
  traces : Bytes → Except String (ExportTraceServiceRequest F)

def resourceAttributes (resource : Option (Resource F)) : List (KeyValue F) :=
  resource.elim [] Resource.attributes

def scopeAttributes (scope : Option (InstrumentationScope F)) : List (KeyValue F) :=
  scope.elim [] InstrumentationScope.attributes

def scopeName (scope : Option (InstrumentationScope F)) : String :=
  scope.elim "" InstrumentationScope.name

def logContext (resource : Option (Resource F))
    (scope : Option (InstrumentationScope F)) (lr : LogRecord F) : LogRecordContext F where
  body := (lr.body.bind AnyValueOf.stringValue).getD ""
  severityText := lr.severityText
  severityNumber := lr.severityNumber.toInt64
  eventName := lr.eventName
  serviceName := extractServiceName (resourceAttributes resource)
  scopeName := scopeName scope
  timeUnixNano := lr.timeUnixNano.toInt64
  observedTimeUnixNano := lr.observedTimeUnixNano.toInt64
  traceId := hexEncode lr.traceId
  spanId := hexEncode lr.spanId
  flags := lr.flags.toInt32
  resource := keyValuesToCelMap (resourceAttributes resource)
  scope := keyValuesToCelMap (scopeAttributes scope)
  attributes := keyValuesToCelMap lr.attributes

variable (engine : Engine F)

def numberValue (value : Option (NumberValue F)) : F :=
  match value with
  | some (.asDouble d) => d
  | some (.asInt i) => engine.ofInt i
  | none => engine.zero

def dataPointContext (resource : Option (Resource F))
    (scope : Option (InstrumentationScope F)) (metric : Metric F)
    (metricType : String) (value : F) (count : UInt64) (sum : F)
    (timeUnixNano : UInt64) (attributes : List (KeyValue F)) : MetricDataPointContext F where
  metricName := metric.name
  metricUnit := metric.unit
  metricDescription := metric.description
  metricType := metricType
  value := value
  count := count.toInt64
  sum := sum
  timeUnixNano := timeUnixNano.toInt64
  serviceName := extractServiceName (resourceAttributes resource)
  scopeName := scopeName scope
  resource := keyValuesToCelMap (resourceAttributes resource)
  scope := keyValuesToCelMap (scopeAttributes scope)
  attributes := keyValuesToCelMap attributes

def metricContexts (resource : Option (Resource F))
    (scope : Option (InstrumentationScope F)) (metric : Metric F) :
    List (MetricDataPointContext F) :=
  let number (metricType : String) (dp : NumberDataPoint F) :=
    dataPointContext resource scope metric metricType
      (numberValue engine dp.value) 0 engine.zero dp.timeUnixNano
      dp.attributes
  let histogram (metricType : String) (dp : HistogramDataPoint F) :=
    dataPointContext resource scope metric metricType engine.zero dp.count
      (dp.sum.getD engine.zero) dp.timeUnixNano dp.attributes
  match metric.data with
  | some (.gauge dataPoints) => dataPoints.map (number "Gauge")
  | some (.sum dataPoints) => dataPoints.map (number "Sum")
  | some (.histogram dataPoints) => dataPoints.map (histogram "Histogram")
  | some (.exponentialHistogram dataPoints) =>
      dataPoints.map (histogram "ExponentialHistogram")
  | some (.summary dataPoints) => dataPoints.map fun dp =>
      dataPointContext resource scope metric "Summary" engine.zero dp.count
        dp.sum dp.timeUnixNano dp.attributes
  | none => []

def spanContext (resource : Option (Resource F))
    (scope : Option (InstrumentationScope F)) (span : Span F) : SpanContext F where
  traceId := hexEncode span.traceId
  spanId := hexEncode span.spanId
  parentSpanId := hexEncode span.parentSpanId
  name := span.name
  kind := span.kind.toInt64
  startTimeUnixNano := span.startTimeUnixNano.toInt64
  endTimeUnixNano := span.endTimeUnixNano.toInt64
  durationNs := (saturatingSub span.endTimeUnixNano span.startTimeUnixNano).toInt64
  statusCode := (span.status.elim 0 Status.code).toInt64
  statusMessage := span.status.elim "" Status.message
  serviceName := extractServiceName (resourceAttributes resource)
  scopeName := scopeName scope
  resource := keyValuesToCelMap (resourceAttributes resource)
  scope := keyValuesToCelMap (scopeAttributes scope)
  attributes := keyValuesToCelMap span.attributes

namespace CelExpression

variable (decode : Decoders F) (self : CelExpression F)

def evalBool (celCtx : Context F) : Except CelError Bool :=
  match self.program celCtx with
  | .ok (.bool true) => .ok true
  | .ok (.bool false) => .ok false
  | .ok other => .error (.notBoolean (engine.debug other))
  | .error e => .error (.compile e)

def eval (vars : Context F) : Except CelError Bool := do
  let celCtx ← engine.toCelContext vars
  self.evalBool engine celCtx

def evalLog (ctx : LogRecordContext F) : Except CelError Bool := self.eval engine ctx.vars

def evalMetric (ctx : MetricDataPointContext F) : Except CelError Bool := self.eval engine ctx.vars

def evalSpan (ctx : SpanContext F) : Except CelError Bool := self.eval engine ctx.vars

def decoded {α : Type} (result : Except String α) : Except CelError α := result.mapError .decode

def matchesLogsPayload (payload : Bytes) : Except CelError Bool := do
  let batch ← decoded (decode.logs payload)
  batch.resourceLogs.anyM fun rl =>
    rl.scopeLogs.anyM fun sl =>
      sl.logRecords.anyM fun lr => self.evalLog engine (logContext rl.resource sl.scope lr)

def matchesMetricsPayload (payload : Bytes) : Except CelError Bool := do
  let batch ← decoded (decode.metrics payload)
  batch.resourceMetrics.anyM fun rm =>
    rm.scopeMetrics.anyM fun sm =>
      sm.metrics.anyM fun metric =>
        (metricContexts engine rm.resource sm.scope metric).anyM (self.evalMetric engine)

def matchesTracesPayload (payload : Bytes) : Except CelError Bool := do
  let batch ← decoded (decode.traces payload)
  batch.resourceSpans.anyM fun rs =>
    rs.scopeSpans.anyM fun ss =>
      ss.spans.anyM fun span => self.evalSpan engine (spanContext rs.resource ss.scope span)

def matchesPayload (recordType : RecordType) (payload : Bytes) : Except CelError Bool :=
  match recordType with
  | .logs => self.matchesLogsPayload engine decode payload
  | .metrics => self.matchesMetricsPayload engine decode payload
  | .traces => self.matchesTracesPayload engine decode payload
  | .events => .ok true

def query : Ljx.CelExpression where
  matchesPayload := fun recordType payload =>
    (self.matchesPayload engine decode recordType payload).toOption

end CelExpression

end Logjet.Ljcel
