/-
A batch against a CEL expression: where the evaluation fails on a record
before the first match, the match is missed.
-/
import Logjet.Lib.FirstMatch
import Logjet.Ljcel.Expression
import Logjet.Text
import Logjet.Writer

namespace Logjet.Ljcel

open List

variable {F : Type} (engine : Engine F) (decode : Decoders F)

def logContexts (batch : ExportLogsServiceRequest F) : List (LogRecordContext F) :=
  batch.resourceLogs.flatMap fun rl => rl.scopeLogs.flatMap fun sl =>
    sl.logRecords.map (logContext rl.resource sl.scope)

def dataPointContexts (batch : ExportMetricsServiceRequest F) : List (MetricDataPointContext F) :=
  batch.resourceMetrics.flatMap fun rm => rm.scopeMetrics.flatMap fun sm =>
    sm.metrics.flatMap (metricContexts engine rm.resource sm.scope)

def spanContexts (batch : ExportTraceServiceRequest F) : List (SpanContext F) :=
  batch.resourceSpans.flatMap fun rs => rs.scopeSpans.flatMap fun ss =>
    ss.spans.map (spanContext rs.resource ss.scope)

def batchVars (recordType : RecordType) (payload : Bytes) : Option (List (Context F)) :=
  match recordType with
  | .logs => (decode.logs payload).toOption.map fun batch =>
    (logContexts batch).map LogRecordContext.vars
  | .metrics => (decode.metrics payload).toOption.map fun batch =>
    (dataPointContexts engine batch).map MetricDataPointContext.vars
  | .traces => (decode.traces payload).toOption.map fun batch =>
    (spanContexts batch).map SpanContext.vars
  | .events => none

variable {engine decode} {recordType : RecordType} {payload : Bytes} {records : List (Context F)}

theorem matchesPayload_eq (self : CelExpression F)
    (h : batchVars engine decode recordType payload = some records) :
    self.matchesPayload engine decode recordType payload = records.anyM (self.eval engine) := by
  unfold batchVars at h
  cases recordType with
  | logs =>
    unfold CelExpression.matchesPayload CelExpression.matchesLogsPayload
    cases hdecode : decode.logs payload with
    | error e => simp [hdecode, Except.toOption] at h
    | ok batch =>
      simp only [hdecode, Except.toOption, Option.map_some, Option.some.injEq] at h
      rw [← h]
      simp only [CelExpression.decoded, Except.mapError, Except.ok_bind,
        logContexts, anyM_map, anyM_flatMap]
      rfl
  | metrics =>
    unfold CelExpression.matchesPayload CelExpression.matchesMetricsPayload
    cases hdecode : decode.metrics payload with
    | error e => simp [hdecode, Except.toOption] at h
    | ok batch =>
      simp only [hdecode, Except.toOption, Option.map_some, Option.some.injEq] at h
      rw [← h]
      simp only [CelExpression.decoded, Except.mapError, Except.ok_bind,
        dataPointContexts, anyM_map, anyM_flatMap]
      rfl
  | traces =>
    unfold CelExpression.matchesPayload CelExpression.matchesTracesPayload
    cases hdecode : decode.traces payload with
    | error e => simp [hdecode, Except.toOption] at h
    | ok batch =>
      simp only [hdecode, Except.toOption, Option.map_some, Option.some.injEq] at h
      rw [← h]
      simp only [CelExpression.decoded, Except.mapError, Except.ok_bind,
        spanContexts, anyM_map, anyM_flatMap]
      rfl
  | events => cases h

def celPredicate (engine : Engine F) (decode : Decoders F)
    (queries : List (CelExpression F)) : Ljx.RecordPredicate :=
  { Ljx.RecordPredicate.default with
    celQueries := queries.map (CelExpression.query engine decode) }

theorem celPredicate_matches (decodeLogs : DecodeLogs)
    (queries : List (CelExpression F)) (record : OwnedRecord) :
    (celPredicate engine decode queries).matches decodeLogs record = true
      ↔ ∀ q ∈ queries, q.matchesPayload engine decode record.recordType
          record.payload = .ok true := by
  have hone (q : CelExpression F) : ((q.query engine decode).matchesPayload record.recordType
          record.payload).getD false = true
        ↔ q.matchesPayload engine decode record.recordType record.payload = .ok true := by
    show (q.matchesPayload engine decode record.recordType
      record.payload).toOption.getD false = true ↔ _
    cases q.matchesPayload engine decode record.recordType record.payload with
    | error e => simp [Except.toOption]
    | ok b => simp [Except.toOption]
  simp [celPredicate, Ljx.RecordPredicate.matches,
    Ljx.RecordPredicate.default, Ljx.FieldFilter.matchesPayload,
    Ljx.FieldFilter.isEmpty, Ljx.FieldFilter.default, hone]

variable {record : OwnedRecord} {self : CelExpression F} {vars : Context F}

theorem celPredicate_single (decodeLogs : DecodeLogs) (self : CelExpression F)
    (h : batchVars engine decode record.recordType record.payload = some records) :
    (celPredicate engine decode [self]).matches decodeLogs record = true
      ↔ ∃ before vars after, records = before ++ vars :: after
        ∧ (∀ v ∈ before, self.eval engine v = .ok false) ∧ self.eval engine vars = .ok true := by
  rw [celPredicate_matches, forall_mem_singleton, matchesPayload_eq self h, anyM_eq_ok_true_iff]

/-- A query finds its match iff nothing before it fails to evaluate. -/
theorem cel_filter_matches_iff (engine : Engine F) (decode : Decoders F)
    (decodeLogs : DecodeLogs) (self : CelExpression F)
    (record : OwnedRecord) (records : List (Context F))
    (h : batchVars engine decode record.recordType record.payload = some records) :
    ((celPredicate engine decode [self]).matches decodeLogs record = true
        ↔ ∃ vars ∈ records, self.eval engine vars = .ok true)
      ↔ ∀ before vars after, records = before ++ vars :: after → self.eval engine vars = .ok true →
          (∀ v ∈ before, self.eval engine v ≠ .ok true) →
          ∀ v ∈ before, self.eval engine v = .ok false := by
  rw [celPredicate_single decodeLogs self h]
  constructor
  · intro hiff before vars after hsplit htrue hfirst
    obtain ⟨before', vars', after', hsplit', hfalse, htrue'⟩ :=
      hiff.mpr ⟨vars, by rw [hsplit]; simp, htrue⟩
    have hfirst' : ∀ v ∈ before', ¬ self.eval engine v = .ok true := by
      intro v hv
      rw [hfalse v hv]
      exact nofun
    rw [first_unique (hsplit.symm.trans hsplit') hfirst htrue hfirst' htrue']
    exact hfalse
  · intro hnone
    constructor
    · rintro ⟨before, vars, after, rfl, -, htrue⟩
      exact ⟨vars, by simp, htrue⟩
    · intro hmatch
      obtain ⟨before, vars, after, hsplit, hfirst, htrue⟩ := exists_first hmatch
      exact ⟨before, vars, after, hsplit, hnone before vars after hsplit htrue hfirst, htrue⟩

def plainEngine : Engine Int where
  convert := .ok
  debug := fun _ => "value"
  zero := 0
  ofInt := Int64.toInt

def codeQuery : CelExpression Int where
  program := fun ctx =>
    match HashMap.get "attributes" ctx with
    | some (.map entries) =>
      match HashMap.get "code" entries with
      | some (.int code) => .ok (.bool (code = 500))
      | some _ => .ok (.bool false)
      | none => .error "No such key: code"
    | _ => .error "Undeclared reference to 'attributes'"

def bareLog : LogRecord Int := { body := some ⟨some (.stringValue "up")⟩ }

def codedLog : LogRecord Int := { attributes := [⟨"code", some ⟨some (.intValue 500)⟩⟩] }

/-- A protobuf field with up to 127 bytes in it. -/
def field (number : UInt8) (bytes : Bytes) : Bytes :=
  (8 * number + 2) :: UInt8.ofNat bytes.length :: bytes

/-- What `prost` writes for a record with no other fields than these. -/
def encodeLog (lr : LogRecord Int) : Bytes :=
  (if lr.severityNumber = 0 then [] else [16, lr.severityNumber.toUInt32.toUInt8])
    ++ (match lr.body with
      | some ⟨some (.stringValue text)⟩ => field 5 (field 1 (utf8 text.toList))
      | _ => [])
    ++ lr.attributes.flatMap fun kv =>
      field 6 (field 1 (utf8 kv.key.toList) ++ match kv.value with
        | some ⟨some (.intValue n)⟩ => field 2 (24 :: encodeVarint n.toUInt64)
        | _ => [])

def encodeBatch (logRecords : List (LogRecord Int)) : Bytes :=
  field 1 (field 2 (logRecords.flatMap fun lr => field 2 (encodeLog lr)))

/-- A table of one line: the batch and its bytes. -/
def decodeTo (logRecords : List (LogRecord Int)) : Decoders Int where
  logs := fun payload =>
    if payload = encodeBatch logRecords then .ok ⟨[⟨none, [⟨none, logRecords⟩]⟩]⟩
    else .error "failed to decode Protobuf message"
  metrics := fun _ => .error "failed to decode Protobuf message"
  traces := fun _ => .error "failed to decode Protobuf message"

def batchRecord (logRecords : List (LogRecord Int)) : OwnedRecord :=
  ⟨.logs, 1, 1, encodeBatch logRecords⟩

theorem batchVars_decodeTo (logRecords : List (LogRecord Int)) :
    batchVars plainEngine (decodeTo logRecords) .logs (encodeBatch logRecords)
      = some (logRecords.map fun lr => (logContext none none lr).vars) := by
  simp [batchVars, decodeTo, logContexts, Except.toOption]

def outcomesOf (logRecords : List (LogRecord Int)) : List (Except CelError Bool) :=
  match batchVars plainEngine (decodeTo logRecords) .logs (encodeBatch logRecords) with
  | some records => records.map (codeQuery.eval plainEngine)
  | none => []

theorem cel_filter_matches_iff_coded : (celPredicate plainEngine (decodeTo [codedLog, bareLog])
        [codeQuery]).matches (fun _ => none) (batchRecord [codedLog, bareLog]) = true
      ↔ ∃ vars ∈ [(logContext none none codedLog).vars, (logContext none none bareLog).vars],
        codeQuery.eval plainEngine vars = .ok true := by
  refine (cel_filter_matches_iff plainEngine (decodeTo [codedLog, bareLog])
    (fun _ => none) codeQuery (batchRecord [codedLog, bareLog]) _ (batchVars_decodeTo _)).mpr ?_
  intro before vars after hsplit htrue hfirst
  cases before with
  | nil => nofun
  | cons v before =>
    have hcoded : codeQuery.eval plainEngine (logContext none none codedLog).vars = .ok true := by
      decide +kernel
    have hhead : (logContext none none codedLog).vars = v := (List.cons.inj hsplit).1
    rw [hhead] at hcoded
    exact absurd hcoded (hfirst v mem_cons_self)

theorem cel_filter_misses_match : outcomesOf [bareLog, codedLog]
        = [.error (.compile "No such key: code"), .ok true]
      ∧ (celPredicate plainEngine (decodeTo [bareLog, codedLog])
          [codeQuery]).matches (fun _ => none) (batchRecord [bareLog, codedLog]) = false
      ∧ (celPredicate plainEngine (decodeTo [codedLog, bareLog])
          [codeQuery]).matches (fun _ => none) (batchRecord [codedLog, bareLog]) = true := by
  decide +kernel

def Boolean (engine : Engine F) (q : CelExpression F) (records : List (Context F)) : Prop :=
  ∀ vars ∈ records, ∃ b, q.eval engine vars = .ok b

def Conjunction (a b both : CelExpression F) : Prop :=
  ∀ ctx p q, a.program ctx = .ok (.bool p) → b.program ctx = .ok (.bool q) →
    both.program ctx = .ok (.bool (p && q))

theorem eval_eq_ok_iff {b : Bool} :
    self.eval engine vars = .ok b ↔ ∃ ctx, engine.toCelContext vars = .ok ctx
        ∧ self.program ctx = .ok (.bool b) := by
  have hbool (ctx : Context F) : self.evalBool engine ctx = .ok b
      ↔ self.program ctx = .ok (.bool b) := by
    unfold CelExpression.evalBool
    cases self.program ctx with
    | error e => simp
    | ok v =>
      cases v with
      | bool c => cases c <;> simp
      | _ => simp
  unfold CelExpression.eval
  rw [Except.bind_eq_ok_iff]
  simp only [hbool]

theorem Conjunction.eval {a b both : CelExpression F} (hand : Conjunction a b both) {p q : Bool}
    (ha : a.eval engine vars = .ok p) (hb : b.eval engine vars = .ok q) :
    both.eval engine vars = .ok (p && q) := by
  obtain ⟨ctx, hctx, hp⟩ := eval_eq_ok_iff.mp ha
  obtain ⟨ctx', hctx', hq⟩ := eval_eq_ok_iff.mp hb
  rw [hctx] at hctx'
  cases hctx'
  exact eval_eq_ok_iff.mpr ⟨ctx, hctx, hand ctx p q hp hq⟩

theorem celPredicate_boolean (decodeLogs : DecodeLogs)
    (h : batchVars engine decode record.recordType record.payload
      = some records) (hbool : Boolean engine self records) :
    (celPredicate engine decode [self]).matches decodeLogs record = true
      ↔ ∃ vars ∈ records, self.eval engine vars = .ok true := by
  rw [celPredicate_single decodeLogs self h]
  constructor
  · rintro ⟨before, vars, after, rfl, -, htrue⟩
    exact ⟨vars, by simp, htrue⟩
  · intro hmatch
    obtain ⟨before, vars, after, rfl, hfirst, htrue⟩ := exists_first hmatch
    refine ⟨before, vars, after, rfl, ?_, htrue⟩
    intro v hv
    obtain ⟨b, hb⟩ := hbool v (mem_append_left _ hv)
    cases b with
    | true => exact absurd hb (hfirst v hv)
    | false => exact hb

/-- Two queries may be met by two different records. -/
theorem cel_queries_match_iff (engine : Engine F) (decode : Decoders F)
    (decodeLogs : DecodeLogs) (a b both : CelExpression F)
    (hand : Conjunction a b both) (record : OwnedRecord) (records : List (Context F))
    (h : batchVars engine decode record.recordType record.payload = some records)
    (ha : Boolean engine a records) (hb : Boolean engine b records) :
    ((celPredicate engine decode [a, b]).matches decodeLogs record = true
        ↔ (celPredicate engine decode [a]).matches decodeLogs record = true
          ∧ (celPredicate engine decode [b]).matches decodeLogs record = true)
      ∧ ((celPredicate engine decode [a, b]).matches decodeLogs record = true
        ↔ (∃ v ∈ records, a.eval engine v = .ok true)
          ∧ ∃ v ∈ records, b.eval engine v = .ok true)
      ∧ ((celPredicate engine decode [both]).matches decodeLogs record = true →
        (celPredicate engine decode [a, b]).matches decodeLogs record = true)
      ∧ (((celPredicate engine decode [a, b]).matches decodeLogs record = true
          ↔ (celPredicate engine decode [both]).matches decodeLogs record = true)
        ↔ ((∃ v ∈ records, a.eval engine v = .ok true) →
          (∃ v ∈ records, b.eval engine v = .ok true) → ∃ v ∈ records, a.eval engine v = .ok true
            ∧ b.eval engine v = .ok true)) := by
  have hboth : Boolean engine both records := by
    intro v hv
    obtain ⟨p, hp⟩ := ha v hv
    obtain ⟨q, hq⟩ := hb v hv
    exact ⟨_, hand.eval hp hq⟩
  have htwo : (celPredicate engine decode [a, b]).matches decodeLogs record = true
      ↔ (∃ v ∈ records, a.eval engine v = .ok true)
        ∧ ∃ v ∈ records, b.eval engine v = .ok true := by
    rw [← celPredicate_boolean decodeLogs h ha,
      ← celPredicate_boolean decodeLogs h hb, celPredicate_matches,
      celPredicate_matches, celPredicate_matches]
    simp
  have hone : (celPredicate engine decode [both]).matches decodeLogs record = true
      ↔ ∃ v ∈ records, a.eval engine v = .ok true ∧ b.eval engine v = .ok true := by
    rw [celPredicate_boolean decodeLogs h hboth]
    refine exists_congr fun v => and_congr_right fun hv => ?_
    obtain ⟨p, hp⟩ := ha v hv
    obtain ⟨q, hq⟩ := hb v hv
    rw [hand.eval hp hq, hp, hq]
    simp
  rw [htwo, hone, celPredicate_boolean decodeLogs h ha, celPredicate_boolean decodeLogs h hb]
  refine ⟨Iff.rfl, Iff.rfl, ?_, ?_⟩
  · rintro ⟨v, hv, hp, hq⟩
    exact ⟨⟨v, hv, hp⟩, v, hv, hq⟩
  · constructor
    · exact fun hiff hp hq => hiff.mp ⟨hp, hq⟩
    · intro himp
      refine ⟨fun hpq => himp hpq.1 hpq.2, ?_⟩
      rintro ⟨v, hv, hp, hq⟩
      exact ⟨⟨v, hv, hp⟩, v, hv, hq⟩

def errorQuery : CelExpression Int where
  program := fun ctx =>
    match HashMap.get "severity_number" ctx with
    | some (.int n) => .ok (.bool (n = 17))
    | _ => .error "Undeclared reference to 'severity_number'"

def timeoutQuery : CelExpression Int where
  program := fun ctx =>
    match HashMap.get "body" ctx with
    | some (.string body) => .ok (.bool (body = "timeout"))
    | _ => .error "Undeclared reference to 'body'"

def errorAndTimeoutQuery : CelExpression Int where
  program := fun ctx =>
    match errorQuery.program ctx, timeoutQuery.program ctx with
    | .ok (.bool p), .ok (.bool q) => .ok (.bool (p && q))
    | .error e, _ => .error e
    | _, .error e => .error e
    | _, _ => .error "No such overload"

theorem errorAndTimeout_conjunction : Conjunction errorQuery timeoutQuery errorAndTimeoutQuery := by
  intro ctx p q hp hq
  simp only [errorAndTimeoutQuery, hp, hq]

def plainLog (severityNumber : Int32) (body : String) : LogRecord Int :=
  { severityNumber, body := some ⟨some (.stringValue body)⟩ }

theorem boolean_pair {q : CelExpression Int} {lr lr' : LogRecord Int} {p p' : Bool}
    (h : q.eval plainEngine (logContext none none lr).vars = .ok p)
    (h' : q.eval plainEngine (logContext none none lr').vars = .ok p') : Boolean plainEngine q
      ([lr, lr'].map fun lr => (logContext none none lr).vars) := by
  intro vars hvars
  rcases mem_cons.mp hvars with rfl | hvars
  · exact ⟨p, h⟩
  · rw [mem_singleton.mp hvars]
    exact ⟨p', h'⟩

def upThenTimeout (first second : Int32) : List (LogRecord Int) :=
  [plainLog first "up", plainLog second "timeout"]

def selects (queries : List (CelExpression Int)) (logRecords : List (LogRecord Int)) : Bool :=
  (celPredicate plainEngine (decodeTo logRecords) queries).matches (fun _ => none)
    (batchRecord logRecords)

theorem cel_queries_match_iff_same :
    selects [errorQuery, timeoutQuery] (upThenTimeout 9 17) = true
      ↔ selects [errorAndTimeoutQuery] (upThenTimeout 9 17) = true := by
  have hboth : errorQuery.eval plainEngine
        (logContext none none (plainLog 17 "timeout")).vars = .ok true
      ∧ timeoutQuery.eval plainEngine
        (logContext none none (plainLog 17 "timeout")).vars = .ok true := by decide +kernel
  refine (cel_queries_match_iff plainEngine (decodeTo (upThenTimeout 9 17)) (fun _ => none)
    errorQuery timeoutQuery errorAndTimeoutQuery errorAndTimeout_conjunction
    (batchRecord (upThenTimeout 9 17)) _ (batchVars_decodeTo _)
    (@boolean_pair errorQuery (plainLog 9 "up") (plainLog 17 "timeout")
      false true (by decide +kernel) hboth.1)
    (@boolean_pair timeoutQuery (plainLog 9 "up") (plainLog 17 "timeout")
      false true (by decide +kernel) hboth.2)).2.2.2.mpr fun _ _ => ?_
  exact ⟨_, mem_cons_of_mem _ mem_cons_self, hboth⟩

theorem cel_queries_not_conjunction : Conjunction errorQuery timeoutQuery errorAndTimeoutQuery
      ∧ Boolean plainEngine errorQuery
        ((upThenTimeout 17 9).map fun lr => (logContext none none lr).vars)
      ∧ Boolean plainEngine timeoutQuery
        ((upThenTimeout 17 9).map fun lr => (logContext none none lr).vars)
      ∧ selects [errorQuery, timeoutQuery] (upThenTimeout 17 9) = true
      ∧ selects [errorAndTimeoutQuery] (upThenTimeout 17 9) = false := by
  refine ⟨errorAndTimeout_conjunction,
    @boolean_pair errorQuery (plainLog 17 "up") (plainLog 9 "timeout")
      true false (by decide +kernel) (by decide +kernel),
    @boolean_pair timeoutQuery (plainLog 17 "up") (plainLog 9 "timeout")
      false true (by decide +kernel) (by decide +kernel), ?_⟩
  decide +kernel

end Logjet.Ljcel
