/-
What a summary says about the records below it (`Summarises`); `push` and
`merge` keep it.
-/
import Logjet.Ljx.Summary

namespace Logjet.Ljx

open List

variable {decode : DecodeLogs}

def serviceNames (rl : ResourceLogs) : List String :=
  ((rl.resource.map Resource.attributes).getD []).filterMap fun attr =>
    if attr.key = "service.name" then attr.stringValue else none

def severityTexts (rl : ResourceLogs) : List String :=
  rl.scopeLogs.flatMap fun sl => sl.logRecords.map LogRecord.severityText

def batches (decode : DecodeLogs) (payload : Bytes) : List ResourceLogs :=
  match decode payload with
  | none => []
  | some batch => batch.resourceLogs

def indexedServices (decode : DecodeLogs) (records : List OwnedRecord) : Finset String :=
  ((records.filter (·.recordType = .logs)).flatMap fun r =>
    (batches decode r.payload).flatMap serviceNames).toFinset

def indexedSeverities (decode : DecodeLogs) (records : List OwnedRecord) : Finset String :=
  ((records.filter (·.recordType = .logs)).flatMap fun r =>
    ((batches decode r.payload).flatMap severityTexts).filter (! ·.isEmpty)).toFinset

variable {set : Capped} {all : Finset String}

theorem foldl_insertCapped (h : set.Holds summaryLimit all) (values : List String) :
    (values.foldl insertCapped set).Holds summaryLimit (all ∪ values.toFinset) := h.foldl values

theorem mergeSet_holds {other : Capped} {all' : Finset String}
    (h : set.Holds summaryLimit all) (h' : other.Holds summaryLimit all')
    {values : List String} (hvalues : ∀ v, v ∈ values ↔ v ∈ other.values) :
    (mergeSet set values other.complete).Holds summaryLimit (all ∪ all') := by
  unfold mergeSet
  cases hset : set.complete with
  | false => exact h.incomplete hset Finset.subset_union_left hset
  | true =>
    cases hother : other.complete with
    | false => exact h'.incomplete hother Finset.subset_union_right rfl
    | true =>
      have hall : values.toFinset = all' := by
        ext v
        rw [mem_toFinset, hvalues, h'.values hother]
      rw [← hall]
      exact foldl_insertCapped h values

theorem foldl_collectService (attrs : List KeyValue) (services : Capped) :
    attrs.foldl collectService services = (attrs.filterMap fun attr =>
          if attr.key = "service.name" then attr.stringValue else none).foldl
        insertCapped services := by
  induction attrs generalizing services with
  | nil => rfl
  | cons attr attrs ih =>
    rw [foldl_cons, ih, filterMap_cons, collectService]
    by_cases hkey : attr.key = "service.name"
    · rw [if_pos hkey, if_pos hkey]
      cases attr.stringValue <;> rfl
    · rw [if_neg hkey, if_neg hkey]

theorem foldl_collectSeverity (records : List LogRecord) (severities : Capped) :
    records.foldl collectSeverity severities
      = ((records.map LogRecord.severityText).filter (! ·.isEmpty)).foldl
        insertCapped severities := by
  induction records generalizing severities with
  | nil => rfl
  | cons lr records ih =>
    rw [foldl_cons, ih, map_cons, filter_cons, collectSeverity]
    cases hempty : lr.severityText.isEmpty with
    | true => rfl
    | false => rfl

theorem foldl_scopeLogs (scopes : List ScopeLogs) (severities : Capped) :
    scopes.foldl (fun severities sl => sl.logRecords.foldl collectSeverity severities) severities
      = ((scopes.flatMap fun sl =>
          sl.logRecords.map LogRecord.severityText).filter
            (! ·.isEmpty)).foldl insertCapped severities := by
  induction scopes generalizing severities with
  | nil => rfl
  | cons sl scopes ih =>
    rw [foldl_cons, ih, foldl_collectSeverity, flatMap_cons, filter_append, foldl_append]

theorem collectResourceLogs_eq (sets : Capped × Capped) (rl : ResourceLogs) :
    collectResourceLogs sets rl = ((serviceNames rl).foldl insertCapped sets.1,
        ((severityTexts rl).filter (! ·.isEmpty)).foldl insertCapped sets.2) := by
  rw [collectResourceLogs, foldl_collectService, foldl_scopeLogs]
  rfl

theorem foldl_collectResourceLogs (rls : List ResourceLogs) (sets : Capped × Capped) :
    rls.foldl collectResourceLogs sets = ((rls.flatMap serviceNames).foldl insertCapped sets.1,
        ((rls.flatMap severityTexts).filter (! ·.isEmpty)).foldl insertCapped sets.2) := by
  induction rls generalizing sets with
  | nil => rfl
  | cons rl rls ih =>
    rw [foldl_cons, ih, collectResourceLogs_eq, flatMap_cons,
      flatMap_cons, filter_append, foldl_append, foldl_append]

theorem collectLogSummaries_eq (payload : Bytes) (services severities : Capped) :
    collectLogSummaries decode payload services severities
      = (((batches decode payload).flatMap serviceNames).foldl insertCapped services,
        (((batches decode payload).flatMap severityTexts).filter
          (! ·.isEmpty)).foldl insertCapped severities) := by
  unfold collectLogSummaries batches
  cases decode payload with
  | none => rfl
  | some batch => exact foldl_collectResourceLogs _ _

structure SummaryBuilder.Summarises (decode : DecodeLogs)
    (builder : SummaryBuilder) (records : List OwnedRecord) : Prop where
  firstSeq : builder.firstSeq = records.head?.map OwnedRecord.seq
  lastSeq : builder.lastSeq = records.getLast?.map OwnedRecord.seq
  firstTs : builder.firstTsUnixNs = records.head?.map OwnedRecord.tsUnixNs
  lastTs : builder.lastTsUnixNs = records.getLast?.map OwnedRecord.tsUnixNs
  types : ∀ r ∈ records, builder.recordTypes &&& recordTypeBit r.recordType ≠ 0
  services : builder.services.Holds summaryLimit (indexedServices decode records)
  severities : builder.severities.Holds summaryLimit (indexedSeverities decode records)

theorem indexedServices_append (rs rs' : List OwnedRecord) : indexedServices decode (rs ++ rs')
      = indexedServices decode rs ∪ indexedServices decode rs' := by
  simp only [indexedServices, filter_append, flatMap_append, toFinset_append]

theorem indexedSeverities_append (rs rs' : List OwnedRecord) : indexedSeverities decode (rs ++ rs')
      = indexedSeverities decode rs ∪ indexedSeverities decode rs' := by
  simp only [indexedSeverities, filter_append, flatMap_append, toFinset_append]

theorem or_and_ne_zero {a b bit : UInt8}
    (h : a &&& bit ≠ 0 ∨ b &&& bit ≠ 0) : (a ||| b) &&& bit ≠ 0 := by
  have hdistrib : (a ||| b) &&& bit = (a &&& bit) ||| (b &&& bit) :=
    UInt8.toBitVec_inj.mp BitVec.and_or_distrib_right
  rw [hdistrib]
  intro hzero
  obtain ⟨ha, hb⟩ := UInt8.or_eq_zero_iff.mp hzero
  rcases h with h | h
  · exact h ha
  · exact h hb

namespace SummaryBuilder

theorem summarises_default : SummaryBuilder.default.Summarises decode [] :=
  ⟨rfl, rfl, rfl, rfl, nofun, CappedSet.empty_holds, CappedSet.empty_holds⟩

variable {builder : SummaryBuilder} {records : List OwnedRecord}

theorem Summarises.push (h : builder.Summarises decode records) (r : OwnedRecord) :
    (builder.push decode r).Summarises decode (records ++ [r]) := by
  refine ⟨?_, ?_, ?_, ?_, ?_, ?_, ?_⟩
  · show builder.firstSeq.or (some r.seq) = _
    rw [h.firstSeq]
    cases records <;> rfl
  · show some r.seq = _
    rw [getLast?_concat]
    rfl
  · show builder.firstTsUnixNs.or (some r.tsUnixNs) = _
    rw [h.firstTs]
    cases records <;> rfl
  · show some r.tsUnixNs = _
    rw [getLast?_concat]
    rfl
  · intro r' hr'
    refine or_and_ne_zero ?_
    rcases mem_append.mp hr' with hr' | hr'
    · exact Or.inl (h.types r' hr')
    · rw [mem_singleton.mp hr']
      refine Or.inr ?_
      cases r.recordType <;> decide
  · rw [indexedServices_append]
    by_cases hlogs : r.recordType = .logs
    · have hfold := foldl_insertCapped h.services ((batches decode r.payload).flatMap serviceNames)
      simpa [SummaryBuilder.push, hlogs, collectLogSummaries_eq, indexedServices] using hfold
    · simpa [SummaryBuilder.push, hlogs, indexedServices] using h.services
  · rw [indexedSeverities_append]
    by_cases hlogs : r.recordType = .logs
    · have hfold := foldl_insertCapped h.severities
        (((batches decode r.payload).flatMap severityTexts).filter (! ·.isEmpty))
      simpa [SummaryBuilder.push, hlogs, collectLogSummaries_eq, indexedSeverities] using hfold
    · simpa [SummaryBuilder.push, hlogs, indexedSeverities] using h.severities

theorem Summarises.foldl (h : builder.Summarises decode records) (rs : List OwnedRecord) :
    (rs.foldl (SummaryBuilder.push decode) builder).Summarises decode (records ++ rs) := by
  induction rs generalizing builder records with
  | nil => simpa using h
  | cons r rs ih =>
    have hrest := ih (h.push r)
    rw [append_assoc] at hrest
    exact hrest

theorem Summarises.merge {other : SummaryBuilder} {records' : List OwnedRecord}
    (h : builder.Summarises decode records)
    (h' : other.Summarises decode records') (offset len : Nat) :
    (builder.merge (.ofSummary offset len
      (other.finish len none))).Summarises decode (records ++ records') := by
  refine ⟨?_, ?_, ?_, ?_, ?_, ?_, ?_⟩
  · show builder.firstSeq.or other.firstSeq = _
    rw [h.firstSeq, h'.firstSeq]
    cases records <;> rfl
  · show other.lastSeq.or builder.lastSeq = _
    rw [h.lastSeq, h'.lastSeq, getLast?_append, Option.map_or]
  · show builder.firstTsUnixNs.or other.firstTsUnixNs = _
    rw [h.firstTs, h'.firstTs]
    cases records <;> rfl
  · show other.lastTsUnixNs.or builder.lastTsUnixNs = _
    rw [h.lastTs, h'.lastTs, getLast?_append, Option.map_or]
  · intro r hr
    refine or_and_ne_zero ?_
    rcases mem_append.mp hr with hr | hr
    · exact Or.inl (h.types r hr)
    · exact Or.inr (h'.types r hr)
  · rw [indexedServices_append]
    exact mergeSet_holds h.services h'.services fun v => Finset.mem_sort _
  · rw [indexedSeverities_append]
    exact mergeSet_holds h.severities h'.severities fun v => Finset.mem_sort _

theorem summarises_records (records : List OwnedRecord) :
    (records.foldl (SummaryBuilder.push decode) .default).Summarises decode records :=
  summarises_default.foldl records

theorem summarises_blocks (blocks : List (Nat × Nat × List OwnedRecord)) :
    ((blocks.map fun b => IndexBlock.ofRecords decode b.1 b.2.1 b.2.2).foldl
      SummaryBuilder.merge .default).Summarises decode (blocks.flatMap fun b => b.2.2) := by
  suffices hrun : ∀ (builder : SummaryBuilder) (records : List OwnedRecord),
      builder.Summarises decode records →
      ((blocks.map fun b => IndexBlock.ofRecords decode b.1 b.2.1
        b.2.2).foldl SummaryBuilder.merge builder).Summarises decode
          (records ++ blocks.flatMap fun b => b.2.2) from
    hrun .default [] summarises_default
  induction blocks with
  | nil =>
    intro builder records h
    simpa using h
  | cons b blocks ih =>
    intro builder records h
    have hrest := ih _ _ (h.merge (summarises_records b.2.2) b.1 b.2.1)
    rw [append_assoc] at hrest
    exact hrest

end SummaryBuilder

end Logjet.Ljx
