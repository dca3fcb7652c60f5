/-
The records `ljx dedup` works on (src/ljx/src/dedup/unpack.rs): the log
records of all batches in order, each with what it has from its resource
and scope. Decoding is a parameter.
-/
import Logjet.Ljx.Dedup

namespace Logjet.Ljx

def sourceLocationStep (found : Option String × Option Int64)
    (attr : KeyValue) : Option String × Option Int64 :=
  if attr.key = "code.filepath" then
    match attr.value with
    | some ⟨some (.stringValue s)⟩ => (some s, found.2)
    | _ => found
  else if attr.key = "code.lineno" then
    match attr.value with
    | some ⟨some (.intValue n)⟩ => (found.1, some n)
    | _ => found
  else found

def extractSourceLocation (attrs : List KeyValue) : Option String × Option Int64 :=
  attrs.foldl sourceLocationStep (none, none)

def bodyText (body : Option AnyValue) : String :=
  (body.bind fun b =>
    match b.value with
    | some (.stringValue s) => some s
    | _ => none).getD ""

def flatRecord (resource : Option Resource)
    (scope : Option InstrumentationScope) (lr : LogRecord) : FlatRecord :=
  let (codeFilepath, codeLineno) := extractSourceLocation lr.attributes
  { serviceName := (resource.bind fun r =>
      (r.attributes.find? (·.key = "service.name")).bind
        KeyValue.stringValue).getD ""
    severityNumber := lr.severityNumber
    severityText := lr.severityText
    scopeName := scope.elim "" InstrumentationScope.name
    eventName := lr.eventName
    codeFilepath, codeLineno
    traceId := lr.traceId
    spanId := lr.spanId
    timeUnixNano := lr.timeUnixNano
    observedTimeUnixNano := lr.observedTimeUnixNano
    body := bodyText lr.body
    resourceAttrs := resource.elim [] Resource.attributes
    scopeAttrs := scope.elim [] InstrumentationScope.attributes
    recordAttrs := lr.attributes }

def flattenBatch (batch : ExportLogsServiceRequest) : List FlatRecord :=
  batch.resourceLogs.flatMap fun rl =>
    rl.scopeLogs.flatMap fun sl => sl.logRecords.map (flatRecord rl.resource sl.scope)

structure UnpackResult where
  records : List FlatRecord
  passthrough : List OwnedRecord
  deriving DecidableEq, Repr

def UnpackResult.add (decode : DecodeLogs) (self : UnpackResult)
    (rec : OwnedRecord) : UnpackResult :=
  if rec.recordType ≠ .logs then
    { self with passthrough := self.passthrough ++ [rec] }
  else
    match decode rec.payload with
    | none => { self with passthrough := self.passthrough ++ [rec] }
    | some batch => { self with records := self.records ++ flattenBatch batch }

def unpack (decode : DecodeLogs) (recs : List OwnedRecord) : UnpackResult :=
  recs.foldl (UnpackResult.add decode) ⟨[], []⟩

end Logjet.Ljx
