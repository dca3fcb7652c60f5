/-
What discovery counts: all events, exactly when no batch that is turned away
holds one.
-/
import Logjet.Ljx.Discover
import Logjet.Ljx.Proofs.Prune
import Logjet.Ljx.Proofs.Filter

namespace Logjet.Ljx

open List Reference LogjetWriter Except

variable {x : External} {decode : DecodeLogs} {predicate : RecordPredicate}
  {serviceFilter severityFilter : Option (Finset String)}

def tally (names : List String) : Counts :=
  fun k =>
  if names.count k = 0 then none else some (UInt64.ofNat (names.count k))

theorem getD_tally (names : List String) (k : String) :
    (tally names k).getD 0 = UInt64.ofNat (names.count k) := by
  unfold tally
  split
  next h =>
    rw [h]
    rfl
  · rfl

theorem incrementCount_tally (names : List String) (value : String) :
    incrementCount (tally names) value = tally (names ++ [value]) := by
  funext k
  unfold incrementCount
  by_cases hk : k = value
  · subst hk
    rw [if_pos rfl, getD_tally]
    unfold tally
    rw [count_append, count_singleton_self, if_neg (Nat.succ_ne_zero _), UInt64.ofNat_add]
    rfl
  · have hsame : (names ++ [value]).count k = names.count k := by
      have hnone : [value].count k = 0 := count_eq_zero.mpr (mt mem_singleton.mp hk)
      rw [count_append, hnone, Nat.add_zero]
    rw [if_neg hk, tally, tally, hsame]

theorem mergeCounts_tally (a b : List String) :
    mergeCounts (tally a) (tally b) = tally (a ++ b) := by
  funext k
  unfold mergeCounts
  by_cases hb : b.count k = 0
  · have hnone : tally b k = none := if_pos hb
    rw [hnone]
    unfold tally
    rw [count_append, hb, Nat.add_zero]
  · have hsome : tally b k = some (UInt64.ofNat (b.count k)) := if_neg hb
    rw [hsome]
    dsimp only
    rw [getD_tally, ← UInt64.ofNat_add]
    unfold tally
    rw [count_append, if_neg (by omega)]

structure Event where
  service : Option String
  logRecord : LogRecord
  deriving DecidableEq, Repr

def batchEvents (serviceFilter severityFilter : Option (Finset String))
    (batch : ExportLogsServiceRequest) : List Event :=
  batch.resourceLogs.flatMap fun rl =>
    if serviceAllowed serviceFilter (serviceName rl) then
      rl.scopeLogs.flatMap fun sl =>
        (sl.logRecords.filter (severityAllowed severityFilter)).map (Event.mk (serviceName rl))
    else []

def events (decode : DecodeLogs) (serviceFilter severityFilter : Option (Finset String))
    (record : OwnedRecord) : List Event :=
  if record.recordType = .logs then
    ((decode record.payload).map (batchEvents serviceFilter severityFilter)).getD []
  else []

def summaryOf (events : List Event) : LogEventSummary :=
  { count := UInt64.ofNat events.length
    services := tally (events.filterMap Event.service)
    severities := tally (events.map fun e => severityLabel e.logRecord) }

def CountsUp (step : LogEventSummary → Except LjxError LogEventSummary) (new : List Event) : Prop :=
  ∀ done : List Event, done.length < 2 ^ 64 → step (summaryOf done)
      = if (done ++ new).length < 2 ^ 64 then .ok (summaryOf (done ++ new))
        else .error (.logjet (.numericOverflow "discover log_events"))

theorem CountsUp.nil : CountsUp .ok [] := by
  intro done hdone
  rw [append_nil, if_pos hdone]

theorem CountsUp.bind {f g : LogEventSummary → Except LjxError LogEventSummary}
    {a b : List Event} (hf : CountsUp f a) (hg : CountsUp g b) :
    CountsUp (fun s => f s >>= g) (a ++ b) := by
  intro done hdone
  dsimp only
  rw [hf done hdone]
  by_cases ha : (done ++ a).length < 2 ^ 64
  · rw [if_pos ha, ok_bind, hg _ ha, append_assoc]
  · have hb : ¬ (done ++ (a ++ b)).length < 2 ^ 64 := by
      simp only [length_append] at ha ⊢
      omega
    rw [if_neg ha, if_neg hb, error_bind]

variable {α β : Type} {record : OwnedRecord} {row : FileSummary} {sys : Surroundings}
  {files : Directory} {data : Bytes}

theorem CountsUp.foldlM {step : LogEventSummary → α → Except LjxError LogEventSummary}
    {new : α → List Event} (h : ∀ a, CountsUp (step · a) (new a))
    (l : List α) : CountsUp (l.foldlM step ·) (l.flatMap new) := by
  induction l with
  | nil => exact CountsUp.nil
  | cons a l ih => exact (h a).bind ih

theorem lift_checkedAdd {field : String} {n m : Nat} (hn : n < 2 ^ 64) :
    lift (checkedAdd field (UInt64.ofNat n) m) = if n + m < 2 ^ 64 then .ok (UInt64.ofNat (n + m))
        else .error (.logjet (.numericOverflow field)) := by
  unfold checkedAdd
  rw [UInt64.toNat_ofNat_of_lt' hn]
  split
  · rfl
  · rfl

theorem summaryOf_concat (done : List Event) (e : Event) : summaryOf (done ++ [e])
      = { count := UInt64.ofNat (done.length + 1)
          services := e.service.elim (summaryOf done).services
            (incrementCount (summaryOf done).services)
          severities := incrementCount (summaryOf done).severities
            (severityLabel e.logRecord) } := by
  obtain ⟨service, lr⟩ := e
  cases service with
  | none => simp [summaryOf, incrementCount_tally]
  | some value => simp [summaryOf, incrementCount_tally]

theorem summaryOf_append (a b : List Event) : summaryOf (a ++ b)
      = { count := UInt64.ofNat (a.length + b.length)
          services := mergeCounts (summaryOf a).services
            (summaryOf b).services
          severities := mergeCounts (summaryOf a).severities
            (summaryOf b).severities } := by simp [summaryOf, mergeCounts_tally]

theorem countLogRecord_countsUp (service : Option String) (lr : LogRecord) :
    CountsUp (countLogRecord severityFilter service · lr)
      (([lr].filter (severityAllowed severityFilter)).map (Event.mk service)) := by
  intro done hdone
  unfold countLogRecord
  by_cases hallowed : severityAllowed severityFilter lr = true
  · have hcount : lift (checkedAdd "discover log_events" (summaryOf done).count 1)
        = if done.length + 1 < 2 ^ 64 then
            .ok (UInt64.ofNat (done.length + 1))
          else .error (.logjet (.numericOverflow "discover log_events")) :=
      lift_checkedAdd hdone
    rw [filter_cons_of_pos hallowed]
    simp only [hallowed, Bool.not_true, Bool.false_eq_true, if_false,
      filter_nil, map_cons, map_nil, hcount, summaryOf_concat, length_append, length_singleton]
    by_cases hfits : done.length + 1 < 2 ^ 64
    · rw [if_pos hfits, if_pos hfits]
      rfl
    · rw [if_neg hfits, if_neg hfits]
      rfl
  · rw [filter_cons_of_neg hallowed]
    simp only [hallowed, Bool.not_false, if_true]
    exact CountsUp.nil done hdone

theorem flatMap_filter_map (p : α → Bool) (f : α → β) (l : List α) :
    (l.flatMap fun a => ([a].filter p).map f) = (l.filter p).map f := by
  induction l with
  | nil => rfl
  | cons a l ih => rw [flatMap_cons, ih, ← map_append, ← filter_append, singleton_append]

theorem scopeLogs_countsUp (service : Option String) (scopes : List ScopeLogs) :
    CountsUp (fun summary => scopes.foldlM (fun summary sl =>
        sl.logRecords.foldlM (countLogRecord severityFilter service) summary) summary)
      (scopes.flatMap fun sl =>
        (sl.logRecords.filter (severityAllowed severityFilter)).map (Event.mk service)) := by
  apply CountsUp.foldlM
  intro sl
  have hrecords := CountsUp.foldlM (@countLogRecord_countsUp severityFilter service) sl.logRecords
  rw [flatMap_filter_map] at hrecords
  exact hrecords

theorem countResourceLogs_countsUp (rl : ResourceLogs) :
    CountsUp (countResourceLogs serviceFilter severityFilter · rl)
      (if serviceAllowed serviceFilter (serviceName rl) then
        rl.scopeLogs.flatMap fun sl =>
          (sl.logRecords.filter (severityAllowed severityFilter)).map (Event.mk (serviceName rl))
      else []) := by
  unfold countResourceLogs
  by_cases hallowed : serviceAllowed serviceFilter (serviceName rl) = true
  · simp only [hallowed, Bool.not_true, Bool.false_eq_true, if_false, if_true]
    exact scopeLogs_countsUp (serviceName rl) rl.scopeLogs
  · simp only [Bool.not_eq_true] at hallowed
    simp only [hallowed, Bool.not_false, if_true, Bool.false_eq_true, if_false]
    exact CountsUp.nil

theorem summariseMatchingLogEvents_eq (record : OwnedRecord) :
    summariseMatchingLogEvents decode record serviceFilter severityFilter
      = if (events decode serviceFilter severityFilter record).length < 2 ^ 64 then
          .ok (summaryOf (events decode serviceFilter severityFilter record))
        else .error (.logjet (.numericOverflow "discover log_events")) := by
  unfold summariseMatchingLogEvents events
  by_cases hlogs : record.recordType = .logs
  · rw [if_neg (not_not.mpr hlogs), if_pos hlogs]
    cases decode record.payload with
    | none => rfl
    | some batch =>
      exact CountsUp.foldlM (@countResourceLogs_countsUp serviceFilter
        severityFilter) batch.resourceLogs [] (by decide)
  · rw [if_pos hlogs, if_neg hlogs]
    rfl

/-- What one scan is asked to count. -/
structure Query where
  decode : DecodeLogs
  predicate : RecordPredicate
  serviceFilter : Option (Finset String)
  severityFilter : Option (Finset String)

namespace Query

variable (q : Query)

abbrev selects (record : OwnedRecord) : Bool := q.predicate.matches q.decode record

abbrev events : OwnedRecord → List Event := Ljx.events q.decode q.serviceFilter q.severityFilter

def counted (records : List OwnedRecord) : List Event := (records.filter q.selects).flatMap q.events

def Fits (records : List OwnedRecord) : Prop :=
  records.length < 2 ^ 64 ∧ (q.counted records).length < 2 ^ 64

def scanOf (row : FileSummary) (records : List OwnedRecord) : FileScan :=
  let matched := records.filter q.selects
  let summary := summaryOf (q.counted records)
  { row := { row with
      recordsScanned := UInt64.ofNat records.length
      recordsMatched := UInt64.ofNat matched.length
      logEvents := summary.count
      timeSpanUnixNs := matched.foldl
        (fun span record => updateSpan span record.tsUnixNs)
        row.timeSpanUnixNs }
    services := summary.services
    severities := summary.severities }

abbrev step : FileScan → OwnedRecord → Except LjxError FileScan :=
  scanRecord q.decode q.predicate q.serviceFilter q.severityFilter

abbrev loop (x : External) : LogjetReader → FileScan → Except LjxError FileScan :=
  scanEntryLoop x q.decode q.predicate q.serviceFilter q.severityFilter

variable {q} {done : List OwnedRecord}

theorem counted_append (a b : List OwnedRecord) : q.counted (a ++ b)
      = q.counted a ++ q.counted b := by
  rw [counted, filter_append, flatMap_append]
  rfl

theorem Fits.nil : q.Fits [] := ⟨Nat.two_pow_pos 64, Nat.two_pow_pos 64⟩

theorem fits_append_iff {a b : List OwnedRecord} : q.Fits (a ++ b)
      ↔ a.length + b.length < 2 ^ 64 ∧ (q.counted a).length + (q.counted b).length < 2 ^ 64 := by
  rw [Fits, counted_append, length_append, length_append]

theorem Fits.of_append {a b : List OwnedRecord} (h : q.Fits (a ++ b)) : q.Fits a := by
  obtain ⟨hlen, hevents⟩ := fits_append_iff.mp h
  exact ⟨by omega, by omega⟩

theorem counted_unmatched (hmatch : ¬ q.selects record) : q.counted [record] = [] := by
  rw [counted, filter_cons_of_neg hmatch]
  rfl

theorem counted_matched (hmatch : q.selects record) : q.counted [record] = q.events record := by
  rw [counted, filter_cons_of_pos hmatch]
  exact append_nil _

theorem step_scanOf (row : FileSummary) (record : OwnedRecord) (hdone : q.Fits done) :
    (q.Fits (done ++ [record]) →
      q.step (q.scanOf row done) record = .ok (q.scanOf row (done ++ [record])))
    ∧ (¬ q.Fits (done ++ [record]) → ∃ err, q.step (q.scanOf row done) record = .error err) := by
  have hscanned := @lift_checkedAdd "discover records_scanned" done.length 1 hdone.1
  rw [fits_append_iff]
  unfold step scanRecord
  by_cases hlen : done.length + 1 < 2 ^ 64
  · rw [if_pos hlen] at hscanned
    by_cases hmatch : q.selects record = true
    · have hle : (done.filter q.selects).length ≤ done.length := length_filter_le _ _
      have hmatched := @lift_checkedAdd "discover records_matched"
        (done.filter q.selects).length 1 (by omega)
      rw [if_pos (by omega)] at hmatched
      have hsummary := @summariseMatchingLogEvents_eq q.decode q.serviceFilter q.severityFilter
        record
      rw [counted_matched hmatch]
      by_cases hown : (q.events record).length < 2 ^ 64
      · rw [if_pos hown] at hsummary
        have hcount : (summaryOf (q.events record)).count.toNat = (q.events record).length :=
          UInt64.toNat_ofNat_of_lt' hown
        have hlogs : lift (checkedAdd "discover log_events" (summaryOf (q.counted done)).count
            (q.events record).length) = _ := lift_checkedAdd hdone.2
        by_cases hsum : (q.counted done).length + (q.events record).length < 2 ^ 64
        · rw [if_pos hsum] at hlogs
          refine ⟨fun _ => ?_, fun h => absurd ⟨hlen, hsum⟩ h⟩
          simp only [scanOf, hscanned, ok_bind, hmatch, Bool.not_true,
            Bool.false_eq_true, if_false, hmatched, hsummary, hcount, hlogs,
            counted_append, counted_matched hmatch, summaryOf_append,
            filter_append, filter_cons_of_pos hmatch, filter_nil,
            foldl_append, foldl_cons, foldl_nil, length_append, length_singleton]
          rfl
        · rw [if_neg hsum] at hlogs
          refine ⟨fun h => absurd h.2 hsum, fun _ => ?_⟩
          simp only [scanOf, hscanned, ok_bind, hmatch, Bool.not_true,
            Bool.false_eq_true, if_false, hmatched, hsummary, hcount, hlogs]
          exact ⟨_, rfl⟩
      · rw [if_neg hown] at hsummary
        refine ⟨fun h => by omega, fun _ => ?_⟩
        simp only [scanOf, hscanned, ok_bind, hmatch, Bool.not_true,
          Bool.false_eq_true, if_false, hmatched, hsummary]
        exact ⟨_, rfl⟩
    · rw [counted_unmatched hmatch]
      refine ⟨fun _ => ?_, fun h => absurd ⟨hlen, hdone.2⟩ h⟩
      simp only [scanOf, hscanned, ok_bind, hmatch, Bool.not_false,
        if_true, counted_append, counted_unmatched hmatch,
        filter_append, filter_cons_of_neg hmatch, filter_nil,
        append_nil, length_append, length_singleton]
      rfl
  · rw [if_neg hlen] at hscanned
    refine ⟨fun h => absurd h.1 hlen, fun _ => ?_⟩
    simp only [scanOf, hscanned, error_bind]
    exact ⟨_, rfl⟩

theorem loop_next {r r' : LogjetReader} (hnext : nextRecord x r = .ok (some record) r')
    (scan : FileScan) : q.loop x r scan = q.step scan record >>= q.loop x r' := by
  unfold loop step
  rw [scanEntryLoop]
  split
  next hnext' => rw [hnext] at hnext'; cases hnext'
  next hnext' => rw [hnext] at hnext'; cases hnext'
  next hnext' =>
    rw [hnext] at hnext'
    cases hnext'
    cases scanRecord q.decode q.predicate q.serviceFilter q.severityFilter scan record with
    | error err => rw [error_bind]
    | ok scan' => rw [ok_bind]

theorem loop_of_yields (row : FileSummary) {r r' : LogjetReader} {records : List OwnedRecord}
    (hread : Yields x r records r') (hdone : q.Fits done) :
    (q.Fits (done ++ records) →
      q.loop x r (q.scanOf row done) = .ok (q.scanOf row (done ++ records)))
    ∧ (¬ q.Fits (done ++ records) → ∃ err, q.loop x r (q.scanOf row done) = .error err) := by
  induction hread generalizing done with
  | done hnext =>
    rw [append_nil]
    refine ⟨fun _ => ?_, fun h => absurd hdone h⟩
    unfold loop
    rw [scanEntryLoop]
    split
    next hnext' => rw [hnext] at hnext'; cases hnext'
    next => rfl
    next hnext' => rw [hnext] at hnext'; cases hnext'
  | @more r r₁ r' record records hnext _ ih =>
    have hstep := step_scanOf row record hdone
    rw [loop_next hnext, append_cons]
    by_cases hfits : q.Fits (done ++ [record])
    · rw [hstep.1 hfits, ok_bind]
      exact ih hfits
    · obtain ⟨err, herr⟩ := hstep.2 hfits
      rw [herr, error_bind]
      exact ⟨fun h => absurd h.of_append hfits, fun _ => ⟨err, rfl⟩⟩

end Query

structure FileScan.CountsEvents (scan : FileScan) (total : List Event) : Prop where
  logEvents : scan.row.logEvents.toNat = total.length
  services : ∀ name, (scan.services name).elim 0 UInt64.toNat
    = (total.filterMap Event.service).count name
  severities : ∀ label, (scan.severities label).elim 0 UInt64.toNat
    = (total.map fun e => severityLabel e.logRecord).count label

theorem elim_tally {names : List String} (h : names.length < 2 ^ 64)
    (k : String) : (tally names k).elim 0 UInt64.toNat = names.count k := by
  unfold tally
  by_cases hk : names.count k = 0
  · rw [if_pos hk, hk]
    rfl
  · rw [if_neg hk]
    exact UInt64.toNat_ofNat_of_lt' (Nat.lt_of_le_of_lt count_le_length h)

theorem Query.Fits.scanOf_countsEvents {q : Query} {records : List OwnedRecord}
    (hfits : q.Fits records) : (q.scanOf row records).CountsEvents (q.counted records) := by
  have hevents := hfits.2
  refine ⟨UInt64.toNat_ofNat_of_lt' hevents, elim_tally ?_, elim_tally ?_⟩
  · exact Nat.lt_of_le_of_lt (length_filterMap_le _ _) hevents
  · rw [length_map]
    exact hevents

def filterPredicate (serviceFilter severityFilter : Option (Finset String)) : RecordPredicate :=
  { RecordPredicate.default with
    fieldFilter := { severities := severityFilter
                     services := serviceFilter } }

abbrev Query.filtered (decode : DecodeLogs)
    (serviceFilter severityFilter : Option (Finset String)) : Query :=
  ⟨decode, filterPredicate serviceFilter severityFilter, serviceFilter, severityFilter⟩

structure LetThrough (decode : DecodeLogs) (serviceFilter severityFilter : Option (Finset String))
    (record : OwnedRecord) : Prop where
  services : ∀ allowed ∈ serviceFilter, ∀ svc ∈ filterServices decode record.payload, svc ∈ allowed
  severities : ∀ allowed ∈ severityFilter,
    ∀ sev ∈ filterSeverities decode record.payload, sev ∈ allowed

theorem filterPredicate_matches_iff :
    (filterPredicate serviceFilter severityFilter).matches decode record = true
      ↔ LetThrough decode serviceFilter severityFilter record := by
  rw [RecordPredicate.matches_iff]
  constructor
  · intro h
    exact ⟨h.service, h.severity⟩
  · intro h
    exact { kind := by rintro _ ⟨⟩
            seqMin := by rintro _ ⟨⟩
            seqMax := by rintro _ ⟨⟩
            tsMin := by rintro _ ⟨⟩
            tsMax := by rintro _ ⟨⟩
            payload := by rintro _ ⟨⟩
            cel := by rintro _ ⟨⟩
            service := h.services
            severity := h.severities }

theorem length_flatMap_filter_iff {p : α → Bool} {f : α → List β} {l : List α} :
    ((l.filter p).flatMap f).length = (l.flatMap f).length ↔ ∀ a ∈ l, f a ≠ [] → p a = true := by
  induction l with
  | nil => simp
  | cons a l ih =>
    have hle : ((l.filter p).flatMap f).length ≤ (l.flatMap f).length :=
      (filter_sublist.flatMap f).length_le
    rw [forall_mem_cons, ← ih]
    by_cases ha : p a = true
    · rw [filter_cons_of_pos ha]
      simp only [flatMap_cons, length_append, ha, implies_true, true_and, Nat.add_left_cancel_iff]
    · have hempty : f a = [] ↔ (f a).length = 0 := length_eq_zero_iff.symm
      rw [filter_cons_of_neg ha]
      simp only [flatMap_cons, length_append, ha, ne_eq, hempty,
        Bool.false_eq_true, imp_false, not_not]
      omega

theorem readInput_file {path : Text} (hpath : path ≠ "-".toList)
    (hfile : files.get? path = some data) : readInput sys files path = .ok data := by
  have hhas : files.has path = true := by
    rw [Directory.has, hfile]
    rfl
  have hopen : InputHandle.open sys path files
      = .ok { file := path, pos := 0, tempPath := none } files :=
    (congrFun (if_neg hpath) files).trans (if_pos hhas)
  rw [readInput, hopen]
  dsimp only
  rw [hfile, Option.getD_some]

theorem scanEntry_file {q : Query} {entry : DatasetEntry} (hindex : entry.index = none)
    (hpath : entry.path ≠ "-".toList) (hfile : files.get? entry.path = some data) :
    scanEntry x q.decode q.predicate q.serviceFilter q.severityFilter sys files entry
      = q.loop x (LogjetReader.withConfig data .default) (q.scanOf entry.row []) := by
  have hskip : (entry.index.any fun index => !index.summary.mayMatch q.predicate) = false := by
    rw [hindex]
    rfl
  rw [scanEntry, hskip, if_neg Bool.false_ne_true, readInput_file hpath hfile, ok_bind]
  rfl

section

variable (x : External) (decode : DecodeLogs)
  (serviceFilter severityFilter : Option (Finset String))

def ReportsEvents (sys : Surroundings) (files : Directory)
    (entry : DatasetEntry) (data : Bytes) : Prop :=
  ∃ records r' scan,
    Yields x (LogjetReader.withConfig data .default) records r'
      ∧ scanEntry x decode (filterPredicate serviceFilter severityFilter)
          serviceFilter severityFilter sys files entry = .ok scan ∧ scan.CountsEvents
          (records.flatMap (events decode serviceFilter severityFilter))

def Countable (data : Bytes) : Prop :=
  ∃ records r', Yields x (LogjetReader.withConfig data .default) records r'
    ∧ records.length < 2 ^ 64 ∧ (records.flatMap
        (events decode serviceFilter severityFilter)).length < 2 ^ 64 ∧ ∀ record ∈ records,
      events decode serviceFilter severityFilter record ≠ [] →
      LetThrough decode serviceFilter severityFilter record

end

section

variable {sys : Surroundings} {files : Directory} {entry : DatasetEntry} {data : Bytes}

theorem Countable.reportsEvents (h : Countable x decode serviceFilter severityFilter data)
    (hindex : entry.index = none) (hpath : entry.path ≠ "-".toList)
    (hfile : files.get? entry.path = some data) :
    ReportsEvents x decode serviceFilter severityFilter sys files entry data := by
  obtain ⟨records, r', hread, hlen, hevents, hpass⟩ := h
  simp only [← filterPredicate_matches_iff] at hpass
  have hall : (Query.filtered decode serviceFilter severityFilter).counted records
      = records.flatMap (events decode serviceFilter severityFilter) :=
    (filter_sublist.flatMap _).eq_of_length (length_flatMap_filter_iff.mpr hpass)
  have hfits : (Query.filtered decode serviceFilter severityFilter).Fits records :=
    ⟨hlen, by rwa [hall]⟩
  have hloop := (Query.loop_of_yields entry.row hread .nil).1 hfits
  refine ⟨records, r', _, hread, (scanEntry_file hindex hpath hfile).trans hloop, ?_⟩
  rw [← hall]
  exact hfits.scanOf_countsEvents

theorem ReportsEvents.countable
    (h : ReportsEvents x decode serviceFilter severityFilter sys files entry data)
    (hindex : entry.index = none) (hpath : entry.path ≠ "-".toList)
    (hfile : files.get? entry.path = some data) :
    Countable x decode serviceFilter severityFilter data := by
  obtain ⟨records, r', scan, hread, hok, hcounts⟩ := h
  have hloop := Query.loop_of_yields (q := .filtered decode serviceFilter severityFilter)
    entry.row hread .nil
  rw [nil_append, ← scanEntry_file hindex hpath hfile, hok] at hloop
  by_cases hfits : (Query.filtered decode serviceFilter severityFilter).Fits records
  · have hsame := hloop.1 hfits
    cases hsame
    have hlength : ((Query.filtered decode serviceFilter severityFilter).counted records).length
        = (records.flatMap (events decode serviceFilter severityFilter)).length :=
      hfits.scanOf_countsEvents.logEvents.symm.trans hcounts.logEvents
    refine ⟨records, r', hread, hfits.1, ?_, ?_⟩
    · rw [← hlength]
      exact hfits.2
    · simp only [← filterPredicate_matches_iff]
      exact length_flatMap_filter_iff.mp hlength
  · obtain ⟨err, herr⟩ := hloop.2 hfits
    cases herr

end

/-- Discovery counts every event iff the file is `Countable`. -/
theorem discover_counts_events_iff (x : External) (decode : DecodeLogs)
    (serviceFilter severityFilter : Option (Finset String))
    (sys : Surroundings) (files : Directory) (entry : DatasetEntry)
    (data : Bytes) (hindex : entry.index = none) (hpath : entry.path ≠ "-".toList)
    (hfile : files.get? entry.path = some data) :
    ReportsEvents x decode serviceFilter severityFilter sys files entry data
      ↔ Countable x decode serviceFilter severityFilter data := by
  constructor
  · intro h
    exact h.countable hindex hpath hfile
  · intro h
    exact h.reportsEvents hindex hpath hfile

def mixedBatch : ExportLogsServiceRequest :=
  ⟨[⟨none, [⟨none, [{ severityText := "INFO", other := [] },
    { severityText := "WARN", other := [] }], ""⟩], ""⟩]⟩

def mixedBytes : Bytes :=
  [0x0a, 0x12, 0x12, 0x10, 0x12, 0x06, 0x1a, 0x04, 73, 78, 70, 79,
    0x12, 0x06, 0x1a, 0x04, 87, 65, 82, 78]

def decodeMixed : DecodeLogs :=
  fun payload =>
  if payload = mixedBytes then some mixedBatch else none

def mixedRecord : OwnedRecord := ⟨.logs, 1, 1, mixedBytes⟩

def mixedFile : Bytes :=
  match intoInner external (runOps external [.push mixedRecord, .flushBlock]
      (inMemory (filterConfig 65536 .none))).2 with
  | .ok chunks => chunks.flatten
  | .error _ => []

def mixedEntry : DatasetEntry := ⟨"a".toList, 0, none, none, none, none, none, none⟩

set_option maxRecDepth 2000 in
theorem yields_mixedFile : ∃ r', Yields external (LogjetReader.withConfig mixedFile .default)
      [mixedRecord] r' := by
  obtain ⟨r', hyields, -⟩ := @yields_scanRecords external .default mixedFile
    defaultSyncMarker_syncable (by decide +kernel)
  have hscan : scanRecords external .default mixedFile 0 = [mixedRecord] := by decide +kernel
  rw [hscan] at hyields
  exact ⟨r', hyields⟩

theorem discover_counts_both_severities :
    ReportsEvents external decodeMixed none (some {"INFO", "WARN"})
      ⟨[], 1, .ok 0⟩ ⟨[("a".toList, mixedFile)], by decide⟩ mixedEntry mixedFile := by
  obtain ⟨r', hread⟩ := yields_mixedFile
  refine (discover_counts_events_iff external decodeMixed none _ _ _
    mixedEntry mixedFile rfl (by decide) rfl).mpr ⟨_, r', hread, ?_⟩
  refine ⟨by decide, by decide +kernel, ?_⟩
  intro record hrecord _
  cases mem_singleton.mp hrecord
  exact ⟨by decide +kernel, by decide +kernel⟩

theorem discover_misses_mixed_batch : ¬ ReportsEvents external decodeMixed none (some {"INFO"})
      ⟨[], 1, .ok 0⟩ ⟨[("a".toList, mixedFile)], by decide⟩ mixedEntry mixedFile := by
  intro h
  obtain ⟨records, r', hread, -, -, hpass⟩ := h.countable rfl (by decide) rfl
  obtain ⟨r₁, hmixed⟩ := yields_mixedFile
  cases hread.eq hmixed
  have hlet := hpass mixedRecord (mem_singleton.mpr rfl) (by decide +kernel)
  exact absurd (hlet.severities _ rfl "WARN" (by decide +kernel)) (by decide)

end Logjet.Ljx
