/-
The time of a metrics batch (daemon.rs `extract_batch_timestamp_metrics`): a
metric without data ends the search (`?`).
-/
import Logjet.Daemon.Http

namespace Logjet

open List

def MetricData.dataPoints : MetricData → List DataPoint
  | .gauge dataPoints => dataPoints
  | .sum dataPoints => dataPoints
  | .histogram dataPoints => dataPoints
  | .exponentialHistogram dataPoints => dataPoints
  | .summary dataPoints => dataPoints

def Metric.dataPoints (metric : Metric) : List DataPoint :=
  metric.data.elim [] MetricData.dataPoints

namespace ExportMetricsServiceRequest

def metrics (batch : ExportMetricsServiceRequest) : List Metric :=
  batch.resourceMetrics.flatMap fun resourceMetrics =>
    resourceMetrics.scopeMetrics.flatMap fun scopeMetrics => scopeMetrics.metrics

def dataPoints (batch : ExportMetricsServiceRequest) : List DataPoint :=
  batch.metrics.flatMap Metric.dataPoints

end ExportMetricsServiceRequest

def TakesFirstTime (batch : ExportMetricsServiceRequest) : Prop :=
  (∀ time, extractBatchTimestampMetrics batch = some time ↔ time ≠ 0 ∧ ∃ before dp behind,
        batch.dataPoints = before ++ dp :: behind ∧ dp.timeUnixNano = time
          ∧ ∀ dp' ∈ before, dp'.timeUnixNano = 0) ∧ (extractBatchTimestampMetrics batch = none
    ↔ ∀ dp ∈ batch.dataPoints, dp.timeUnixNano = 0)

/-- No metric without data stands before the first time. -/
def NoneCutOff (metrics : List Metric) : Prop :=
  ∀ before metric behind, metrics = before ++ metric :: behind → metric.data = none →
      (∃ dp ∈ before.flatMap Metric.dataPoints, dp.timeUnixNano ≠ 0)
      ∨ ∀ dp ∈ behind.flatMap Metric.dataPoints, dp.timeUnixNano = 0

theorem firstTime_eq_some_iff {dataPoints : List DataPoint} {time : UInt64} :
    firstTime dataPoints = some time ↔ time ≠ 0 ∧ ∃ before dp behind,
          dataPoints = before ++ dp :: behind ∧ dp.timeUnixNano = time
            ∧ ∀ dp' ∈ before, dp'.timeUnixNano = 0 := by
  unfold firstTime
  rw [findSome?_eq_some_iff]
  constructor
  · rintro ⟨before, dp, behind, hsplit, htime, hbefore⟩
    simp only [ite_not, Option.ite_none_left_eq_some, Option.some.injEq] at htime
    obtain ⟨hne, rfl⟩ := htime
    refine ⟨hne, before, dp, behind, hsplit, rfl, ?_⟩
    intro dp' hdp'
    simpa using hbefore dp' hdp'
  · rintro ⟨hne, before, dp, behind, hsplit, rfl, hbefore⟩
    refine ⟨before, dp, behind, hsplit, if_pos hne, ?_⟩
    intro dp' hdp'
    simpa using hbefore dp' hdp'

theorem firstTime_eq_none_iff {dataPoints : List DataPoint} : firstTime dataPoints = none
      ↔ ∀ dp ∈ dataPoints, dp.timeUnixNano = 0 := by simp [firstTime]

theorem takesFirstTime_iff {batch : ExportMetricsServiceRequest} : TakesFirstTime batch
      ↔ extractBatchTimestampMetrics batch = firstTime batch.dataPoints := by
  constructor
  · intro ⟨hsome, hnone⟩
    cases hfound : extractBatchTimestampMetrics batch with
    | none => exact (firstTime_eq_none_iff.mpr (hnone.mp hfound)).symm
    | some time => exact (firstTime_eq_some_iff.mpr ((hsome time).mp hfound)).symm
  · intro heq
    unfold TakesFirstTime
    rw [heq]
    exact ⟨fun _ => firstTime_eq_some_iff, firstTime_eq_none_iff⟩

def Metric.outcome (metric : Metric) : Option (Option UInt64) :=
  match metric.data with
  | none => some none
  | some data => data.firstTime.map some

theorem findSome?_flatMap {α β γ : Type} (l : List α) (f : α → List β) (g : β → Option γ) :
    (l.flatMap f).findSome? g = l.findSome? fun a => (f a).findSome? g := by
  induction l with
  | nil => rfl
  | cons a l ih =>
    rw [flatMap_cons, findSome?_append, ih, findSome?_cons]
    cases (f a).findSome? g <;> rfl

theorem extractBatchTimestampMetrics_eq (batch : ExportMetricsServiceRequest) :
    extractBatchTimestampMetrics batch = (batch.metrics.findSome? Metric.outcome).join := by
  unfold ExportMetricsServiceRequest.metrics
  simp only [findSome?_flatMap]
  rfl

theorem MetricData.firstTime_eq (data : MetricData) :
    data.firstTime = Logjet.firstTime data.dataPoints := by cases data <;> rfl

variable {metric : Metric} {metrics : List Metric}

theorem noneCutOff_cons_of_none (hdata : metric.data = none) : NoneCutOff (metric :: metrics)
      ↔ ∀ dp ∈ metrics.flatMap Metric.dataPoints, dp.timeUnixNano = 0 := by
  constructor
  · intro h
    rcases h [] metric metrics rfl hdata with ⟨dp, hdp, -⟩ | hzero
    · cases hdp
    · exact hzero
  · intro hzero before metric' behind hsplit _
    refine Or.inr fun dp hdp => ?_
    cases before with
    | nil =>
      cases hsplit
      exact hzero dp hdp
    | cons first before =>
      rw [cons_append, List.cons.injEq] at hsplit
      apply hzero
      rw [hsplit.2, flatMap_append, flatMap_cons]
      exact mem_append_right _ (mem_append_right _ hdp)

theorem noneCutOff_cons_of_time (hdata : metric.data ≠ none)
    (htime : ∃ dp ∈ metric.dataPoints, dp.timeUnixNano ≠ 0) : NoneCutOff (metric :: metrics) := by
  intro before metric' behind hsplit hnone
  cases before with
  | nil =>
    cases hsplit
    exact absurd hnone hdata
  | cons first before =>
    cases hsplit
    obtain ⟨dp, hdp, hne⟩ := htime
    exact Or.inl ⟨dp, mem_append_left _ hdp, hne⟩

theorem noneCutOff_cons_of_zero (hdata : metric.data ≠ none)
    (hzero : ∀ dp ∈ metric.dataPoints, dp.timeUnixNano = 0) :
    NoneCutOff (metric :: metrics) ↔ NoneCutOff metrics := by
  constructor
  · intro h before metric' behind hsplit hnone
    have hcons := h (metric :: before) metric' behind (by rw [hsplit, cons_append]) hnone
    rcases hcons with ⟨dp, hdp, hne⟩ | hlater
    · rw [flatMap_cons] at hdp
      rcases mem_append.mp hdp with hown | hbefore
      · exact absurd (hzero dp hown) hne
      · exact Or.inl ⟨dp, hbefore, hne⟩
    · exact Or.inr hlater
  · intro h before metric' behind hsplit hnone
    cases before with
    | nil =>
      cases hsplit
      exact absurd hnone hdata
    | cons first before =>
      rw [cons_append, List.cons.injEq] at hsplit
      rcases h before metric' behind hsplit.2 hnone with
        ⟨dp, hdp, hne⟩ | hlater
      · rw [flatMap_cons]
        exact Or.inl ⟨dp, mem_append_right _ hdp, hne⟩
      · exact Or.inr hlater

theorem firstTime_append (front behind : List DataPoint) :
    firstTime (front ++ behind) = (firstTime front).or (firstTime behind) := findSome?_append

theorem outcome_eq_firstTime_iff (metrics : List Metric) : (metrics.findSome? Metric.outcome).join
        = firstTime (metrics.flatMap Metric.dataPoints) ↔ NoneCutOff metrics := by
  induction metrics with
  | nil =>
    refine ⟨fun _ before metric behind hsplit => ?_, fun _ => rfl⟩
    simp at hsplit
  | cons metric metrics ih =>
    rw [findSome?_cons, flatMap_cons, firstTime_append]
    cases hdata : metric.data with
    | none =>
      have hpoints : metric.dataPoints = [] := by
        rw [Metric.dataPoints, hdata]
        rfl
      have houtcome : metric.outcome = some none := by rw [Metric.outcome, hdata]
      rw [houtcome, hpoints, noneCutOff_cons_of_none hdata, ← firstTime_eq_none_iff]
      exact eq_comm
    | some data =>
      have hpoints : metric.dataPoints = data.dataPoints := by
        rw [Metric.dataPoints, hdata]
        rfl
      have houtcome : metric.outcome = (firstTime metric.dataPoints).map some := by
        rw [Metric.outcome, hdata, hpoints, ← data.firstTime_eq]
      have hsome : metric.data ≠ none := by simp [hdata]
      rw [houtcome]
      cases hfirst : firstTime metric.dataPoints with
      | some time =>
        obtain ⟨hne, before, dp, behind, hsplit, rfl, -⟩ := firstTime_eq_some_iff.mp hfirst
        have hdp : dp ∈ metric.dataPoints := by simp [hsplit]
        have hkept := @noneCutOff_cons_of_time metric metrics hsome ⟨dp, hdp, hne⟩
        exact ⟨fun _ => hkept, fun _ => rfl⟩
      | none =>
        rw [noneCutOff_cons_of_zero hsome (firstTime_eq_none_iff.mp hfirst), ← ih]
        rfl

/-- A batch of metrics gets its first time iff `NoneCutOff`. -/
theorem metrics_time_iff (batch : ExportMetricsServiceRequest) :
    TakesFirstTime batch ↔ NoneCutOff batch.metrics := by
  rw [takesFirstTime_iff, extractBatchTimestampMetrics_eq, ExportMetricsServiceRequest.dataPoints]
  exact outcome_eq_firstTime_iff batch.metrics

def cutOffBatch : ExportMetricsServiceRequest :=
  ⟨[⟨[⟨[⟨none, []⟩, ⟨some (.gauge [⟨7, []⟩]), []⟩], []⟩], []⟩]⟩

theorem metrics_time_cut_off : ¬ TakesFirstTime cutOffBatch := by
  intro h
  have hzero := h.2.mp (by decide) ⟨7, []⟩ (by decide)
  exact absurd hzero (by decide)

end Logjet
