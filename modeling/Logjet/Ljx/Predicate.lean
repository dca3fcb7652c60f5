/-
Which records a query of `ljx` selects (src/ljx/src/predicate.rs). Regular
expressions and CEL are other crates': compiled matchers are functions. A
`HashSet<String>` is a `Finset String`.
-/
import Logjet.Otlp
import Mathlib.Data.Finset.Card
import Mathlib.Data.Finset.Sort
import Mathlib.Data.String.Basic

namespace Logjet.Ljx

structure FieldFilter where
  severities : Option (Finset String)
  services : Option (Finset String)
  deriving DecidableEq

def FieldFilter.default : FieldFilter := { severities := none, services := none }

def FieldFilter.isEmpty (self : FieldFilter) : Bool :=
  self.severities.isNone && self.services.isNone

def serviceOf (rl : ResourceLogs) : Option String :=
  rl.resource.bind fun r =>
    (r.attributes.find? (·.key = "service.name")).bind KeyValue.stringValue

def FieldFilter.admits (self : FieldFilter) (rl : ResourceLogs) : Bool :=
  !(self.services.any fun allowed => (serviceOf rl).any fun svc => svc ∉ allowed)
    && rl.scopeLogs.all fun sl => sl.logRecords.all fun lr =>
      !(self.severities.any fun allowed => lr.severityText ∉ allowed)

def FieldFilter.matchesPayload (decode : DecodeLogs) (self : FieldFilter)
    (payload : Bytes) : Bool :=
  if self.isEmpty then true
  else
    match decode payload with
    | none => true
    | some batch => batch.resourceLogs.all self.admits

structure PayloadMatcher where
  isMatch : Bytes → Bool

structure CelExpression where
  matchesPayload : RecordType → Bytes → Option Bool

structure RecordPredicate where
  recordType : Option RecordType
  seqMin : Option UInt64
  seqMax : Option UInt64
  tsMin : Option UInt64
  tsMax : Option UInt64
  payloadMatchers : List PayloadMatcher
  celQueries : List CelExpression
  fieldFilter : FieldFilter

def RecordPredicate.default : RecordPredicate :=
  { recordType := none, seqMin := none, seqMax := none, tsMin := none,
    tsMax := none, payloadMatchers := [], celQueries := [],
    fieldFilter := .default }

def RecordPredicate.matches (decode : DecodeLogs) (self : RecordPredicate)
    (record : OwnedRecord) : Bool :=
  if self.recordType.any fun expected => record.recordType ≠ expected then
    false
  else if self.seqMin.any fun min => record.seq < min then false
  else if self.seqMax.any fun max => record.seq > max then false
  else if self.tsMin.any fun min => record.tsUnixNs < min then false
  else if self.tsMax.any fun max => record.tsUnixNs > max then false
  else if self.payloadMatchers.any fun matcher => !matcher.isMatch record.payload then false
  else if self.celQueries.any fun cel =>
      !(cel.matchesPayload record.recordType record.payload).getD false then
    false
  else self.fieldFilter.matchesPayload decode record.payload

end Logjet.Ljx
