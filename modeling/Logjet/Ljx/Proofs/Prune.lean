/-
When pruning by the index is sound: for each kind of filter a property of the
records alone (`Prunable`).
-/
import Logjet.Ljx.Proofs.Summary

namespace Logjet.Ljx

variable {decode : DecodeLogs}

def filterServices (decode : DecodeLogs) (payload : Bytes) : List String :=
  (batches decode payload).filterMap serviceOf

def filterSeverities (decode : DecodeLogs) (payload : Bytes) : List String :=
  (batches decode payload).flatMap severityTexts

structure RecordPredicate.Selects (decode : DecodeLogs)
    (p : RecordPredicate) (r : OwnedRecord) : Prop where
  kind : ∀ kind ∈ p.recordType, r.recordType = kind
  seqMin : ∀ min ∈ p.seqMin, min ≤ r.seq
  seqMax : ∀ max ∈ p.seqMax, r.seq ≤ max
  tsMin : ∀ min ∈ p.tsMin, min ≤ r.tsUnixNs
  tsMax : ∀ max ∈ p.tsMax, r.tsUnixNs ≤ max
  payload : ∀ matcher ∈ p.payloadMatchers, matcher.isMatch r.payload = true
  cel : ∀ cel ∈ p.celQueries, (cel.matchesPayload r.recordType r.payload).getD false = true
  service : ∀ allowed ∈ p.fieldFilter.services,
    ∀ svc ∈ filterServices decode r.payload, svc ∈ allowed
  severity : ∀ allowed ∈ p.fieldFilter.severities,
    ∀ sev ∈ filterSeverities decode r.payload, sev ∈ allowed

theorem any_eq_false {α : Type} {filter : Option α} {test : α → Bool} :
    filter.any test = false ↔ ∀ v ∈ filter, test v = false := by cases filter <;> simp

theorem FieldFilter.admits_iff {f : FieldFilter} {rl : ResourceLogs} : f.admits rl = true
      ↔ (∀ allowed ∈ f.services, ∀ svc ∈ serviceOf rl, svc ∈ allowed)
        ∧ ∀ allowed ∈ f.severities, ∀ sev ∈ severityTexts rl, sev ∈ allowed := by
  rw [FieldFilter.admits, Bool.and_eq_true, Bool.not_eq_true']
  refine and_congr ?_ ?_
  · simp only [any_eq_false, decide_eq_false_iff_not, not_not]
  · simp only [List.all_eq_true, Bool.not_eq_true', any_eq_false,
      decide_eq_false_iff_not, not_not, severityTexts, List.mem_flatMap, List.mem_map]
    constructor
    · intro h allowed hallowed sev ⟨sl, hsl, lr, hlr, hsev⟩
      rw [← hsev]
      exact h sl hsl lr hlr allowed hallowed
    · intro h sl hsl lr hlr allowed hallowed
      exact h allowed hallowed _ ⟨sl, hsl, lr, hlr, rfl⟩

theorem FieldFilter.matchesPayload_iff {f : FieldFilter} {payload : Bytes} :
    f.matchesPayload decode payload = true ↔ (∀ allowed ∈ f.services,
          ∀ svc ∈ filterServices decode payload, svc ∈ allowed) ∧ ∀ allowed ∈ f.severities,
          ∀ sev ∈ filterSeverities decode payload, sev ∈ allowed := by
  have hall : f.matchesPayload decode payload = true
      ↔ ∀ rl ∈ batches decode payload, f.admits rl = true := by
    unfold FieldFilter.matchesPayload batches
    by_cases hempty : f.isEmpty = true
    · rw [if_pos hempty]
      simp only [FieldFilter.isEmpty, Bool.and_eq_true, Option.isNone_iff_eq_none] at hempty
      simp [FieldFilter.admits_iff, hempty]
    · rw [if_neg hempty]
      cases decode payload <;> simp
  rw [hall]
  simp only [FieldFilter.admits_iff, filterServices, filterSeverities,
    List.mem_filterMap, List.mem_flatMap]
  constructor
  · intro h
    refine ⟨?_, ?_⟩
    · intro allowed hallowed svc ⟨rl, hrl, hsvc⟩
      exact (h rl hrl).1 allowed hallowed svc hsvc
    · intro allowed hallowed sev ⟨rl, hrl, hsev⟩
      exact (h rl hrl).2 allowed hallowed sev hsev
  · intro ⟨hservices, hseverities⟩ rl hrl
    exact ⟨fun allowed ha svc hsvc => hservices allowed ha svc ⟨rl, hrl, hsvc⟩,
      fun allowed ha sev hsev => hseverities allowed ha sev ⟨rl, hrl, hsev⟩⟩

theorem RecordPredicate.matches_iff {p : RecordPredicate} {r : OwnedRecord} :
    p.matches decode r = true ↔ p.Selects decode r := by
  simp only [RecordPredicate.matches, Bool.if_false_left, Bool.and_eq_true,
    Bool.not_eq_true', decide_eq_false_iff_not, Bool.not_eq_true,
    Bool.not_eq_false, any_eq_false, not_not, List.any_eq_false,
    FieldFilter.matchesPayload_iff, ne_eq, gt_iff_lt, UInt64.not_lt]
  constructor
  · intro ⟨h₁, h₂, h₃, h₄, h₅, h₆, h₇, h₈, h₉⟩
    exact ⟨h₁, h₂, h₃, h₄, h₅, h₆, h₇, h₈, h₉⟩
  · intro ⟨h₁, h₂, h₃, h₄, h₅, h₆, h₇, h₈, h₉⟩
    exact ⟨h₁, h₂, h₃, h₄, h₅, h₆, h₇, h₈, h₉⟩

structure IndexSummary.Admits (s : IndexSummary) (p : RecordPredicate) : Prop where
  kind : ∀ kind ∈ p.recordType, s.recordTypes &&& recordTypeBit kind ≠ 0
  seqMin : ∀ min ∈ p.seqMin, ∀ last ∈ s.lastSeq, min ≤ last
  seqMax : ∀ max ∈ p.seqMax, ∀ first ∈ s.firstSeq, first ≤ max
  tsMin : ∀ min ∈ p.tsMin, ∀ last ∈ s.lastTsUnixNs, min ≤ last
  tsMax : ∀ max ∈ p.tsMax, ∀ first ∈ s.firstTsUnixNs, first ≤ max
  service : ∀ allowed ∈ p.fieldFilter.services,
    s.servicesComplete = true → ∃ svc ∈ allowed, svc ∈ s.services
  severity : ∀ allowed ∈ p.fieldFilter.severities,
    s.severitiesComplete = true → ∃ sev ∈ allowed, sev ∈ s.severities

theorem and_not_eq_false {c : Bool} {P : Prop} [Decidable P] :
    (c && !decide P) = false ↔ (c = true → P) := by cases c <;> simp

theorem IndexSummary.mayMatch_iff {s : IndexSummary} {p : RecordPredicate} :
    s.mayMatch p = true ↔ s.Admits p := by
  simp only [IndexSummary.mayMatch, Bool.if_false_left, Bool.and_eq_true,
    Bool.not_eq_true', decide_eq_false_iff_not, Bool.not_eq_true,
    any_eq_false, and_not_eq_false, gt_iff_lt, UInt64.not_lt]
  constructor
  · intro ⟨h₁, h₂, h₃, h₄, h₅, h₆, h₇, _⟩
    exact ⟨h₁, h₂, h₃, h₄, h₅, h₆, h₇⟩
  · intro ⟨h₁, h₂, h₃, h₄, h₅, h₆, h₇⟩
    exact ⟨h₁, h₂, h₃, h₄, h₅, h₆, h₇, trivial⟩

inductive FilterKind
  | seqMin
  | seqMax
  | tsMin
  | tsMax
  | service
  | severity
  deriving DecidableEq, Repr

structure RecordPredicate.UsesOnly (p : RecordPredicate) (kinds : Set FilterKind) : Prop where
  seqMin : p.seqMin ≠ none → .seqMin ∈ kinds
  seqMax : p.seqMax ≠ none → .seqMax ∈ kinds
  tsMin : p.tsMin ≠ none → .tsMin ∈ kinds
  tsMax : p.tsMax ≠ none → .tsMax ∈ kinds
  service : p.fieldFilter.services ≠ none → .service ∈ kinds
  severity : p.fieldFilter.severities ≠ none → .severity ∈ kinds

structure Prunable (decode : DecodeLogs) (kinds : Set FilterKind)
    (records : List OwnedRecord) : Prop where
  seqMin : .seqMin ∈ kinds → ∀ last ∈ records.getLast?, ∀ r ∈ records, r.seq ≤ last.seq
  seqMax : .seqMax ∈ kinds → ∀ first ∈ records.head?, ∀ r ∈ records, first.seq ≤ r.seq
  tsMin : .tsMin ∈ kinds → ∀ last ∈ records.getLast?, ∀ r ∈ records, r.tsUnixNs ≤ last.tsUnixNs
  tsMax : .tsMax ∈ kinds → ∀ first ∈ records.head?, ∀ r ∈ records, first.tsUnixNs ≤ r.tsUnixNs
  service : .service ∈ kinds → (indexedServices decode records).card ≤ summaryLimit →
    ∀ r ∈ records, ∃ svc ∈ filterServices decode r.payload, svc ∈ indexedServices decode records
  severity : .severity ∈ kinds → (indexedSeverities decode records).card ≤ summaryLimit →
    ∀ r ∈ records, ∃ sev ∈ filterSeverities decode r.payload, sev ∈ indexedSeverities decode records

def SoundFor (decode : DecodeLogs) (kinds : Set FilterKind)
    (mayMatch : RecordPredicate → Bool) (records : List OwnedRecord) : Prop :=
  ∀ p : RecordPredicate, p.UsesOnly kinds → mayMatch p = false →
    ∀ r ∈ records, p.matches decode r = false

section Sound

variable {builder : SummaryBuilder} {records : List OwnedRecord}
  {kinds : Set FilterKind} {size : Nat} {modified : Option UInt64}

theorem Prunable.admits (h : builder.Summarises decode records)
    (hprune : Prunable decode kinds records) {p : RecordPredicate}
    (huses : p.UsesOnly kinds) {r : OwnedRecord} (hr : r ∈ records) (hsel : p.Selects decode r) :
    (builder.finish size modified).Admits p := by
  refine ⟨?_, ?_, ?_, ?_, ?_, ?_, ?_⟩
  · intro kind hkind
    rw [← hsel.kind kind hkind]
    exact h.types r hr
  · intro min hmin last hlast
    obtain ⟨l, hl, rfl⟩ := Option.map_eq_some_iff.mp (h.lastSeq.symm.trans hlast)
    exact UInt64.le_trans (hsel.seqMin min hmin)
      (hprune.seqMin (huses.seqMin (Option.ne_none_iff_exists'.mpr ⟨min, hmin⟩)) l hl r hr)
  · intro max hmax first hfirst
    obtain ⟨f, hf, rfl⟩ := Option.map_eq_some_iff.mp (h.firstSeq.symm.trans hfirst)
    exact UInt64.le_trans (hprune.seqMax (huses.seqMax
      (Option.ne_none_iff_exists'.mpr ⟨max, hmax⟩)) f hf r hr) (hsel.seqMax max hmax)
  · intro min hmin last hlast
    obtain ⟨l, hl, rfl⟩ := Option.map_eq_some_iff.mp (h.lastTs.symm.trans hlast)
    exact UInt64.le_trans (hsel.tsMin min hmin)
      (hprune.tsMin (huses.tsMin (Option.ne_none_iff_exists'.mpr ⟨min, hmin⟩)) l hl r hr)
  · intro max hmax first hfirst
    obtain ⟨f, hf, rfl⟩ := Option.map_eq_some_iff.mp (h.firstTs.symm.trans hfirst)
    exact UInt64.le_trans (hprune.tsMax (huses.tsMax
      (Option.ne_none_iff_exists'.mpr ⟨max, hmax⟩)) f hf r hr) (hsel.tsMax max hmax)
  · intro allowed hallowed hcomplete
    obtain ⟨svc, hsvc, hindexed⟩ := hprune.service (huses.service
      (Option.ne_none_iff_exists'.mpr ⟨allowed, hallowed⟩)) (h.services.complete.mp hcomplete) r hr
    refine ⟨svc, hsel.service allowed hallowed svc hsvc, ?_⟩
    rw [← h.services.values hcomplete] at hindexed
    exact (Finset.mem_sort _).mpr hindexed
  · intro allowed hallowed hcomplete
    obtain ⟨sev, hsev, hindexed⟩ := hprune.severity (huses.severity
      (Option.ne_none_iff_exists'.mpr ⟨allowed, hallowed⟩))
      (h.severities.complete.mp hcomplete) r hr
    refine ⟨sev, hsel.severity allowed hallowed sev hsev, ?_⟩
    rw [← h.severities.values hcomplete] at hindexed
    exact (Finset.mem_sort _).mpr hindexed

theorem soundFor_iff_admits {s : IndexSummary} : SoundFor decode kinds s.mayMatch records
      ↔ ∀ p : RecordPredicate, p.UsesOnly kinds → ∀ r ∈ records,
        p.Selects decode r → s.Admits p := by
  simp only [← RecordPredicate.matches_iff, ← IndexSummary.mayMatch_iff]
  constructor
  · intro h p huses r hr hmatch
    by_contra hmay
    rw [h p huses (Bool.not_eq_true _ ▸ hmay) r hr] at hmatch
    cases hmatch
  · intro h p huses hmay r hr
    by_contra hmatch
    rw [h p huses r hr (Bool.not_eq_false _ ▸ hmatch)] at hmay
    cases hmay

def onlyServices (allowed : Finset String) : RecordPredicate :=
  { RecordPredicate.default with
    fieldFilter := { severities := none, services := some allowed } }

def onlySeverities (allowed : Finset String) : RecordPredicate :=
  { RecordPredicate.default with
    fieldFilter := { severities := some allowed, services := none } }

theorem Prunable.of_admits (h : builder.Summarises decode records)
    (hsound : ∀ p : RecordPredicate, p.UsesOnly kinds → ∀ r ∈ records,
      p.Selects decode r → (builder.finish size modified).Admits p) :
    Prunable decode kinds records := by
  have hnot : ∀ {α : Type} {P : Prop}, (none : Option α) ≠ none → P := fun h => absurd rfl h
  refine ⟨?_, ?_, ?_, ?_, ?_, ?_⟩
  · intro hkind last hlast r hr
    refine (hsound { RecordPredicate.default with seqMin := some r.seq }
      ⟨fun _ => hkind, hnot, hnot, hnot, hnot, hnot⟩ r hr ?_).seqMin r.seq rfl last.seq ?_
    · refine ⟨nofun, ?_, nofun, nofun, nofun, nofun, nofun, nofun, nofun⟩
      intro min hmin
      cases hmin
      exact UInt64.le_refl _
    · exact h.lastSeq.trans (congrArg (Option.map _) hlast)
  · intro hkind first hfirst r hr
    refine (hsound { RecordPredicate.default with seqMax := some r.seq }
      ⟨hnot, fun _ => hkind, hnot, hnot, hnot, hnot⟩ r hr ?_).seqMax r.seq rfl first.seq ?_
    · refine ⟨nofun, nofun, ?_, nofun, nofun, nofun, nofun, nofun, nofun⟩
      intro max hmax
      cases hmax
      exact UInt64.le_refl _
    · exact h.firstSeq.trans (congrArg (Option.map _) hfirst)
  · intro hkind last hlast r hr
    refine (hsound { RecordPredicate.default with tsMin := some r.tsUnixNs }
      ⟨hnot, hnot, fun _ => hkind, hnot, hnot, hnot⟩ r hr ?_).tsMin r.tsUnixNs rfl last.tsUnixNs ?_
    · refine ⟨nofun, nofun, nofun, ?_, nofun, nofun, nofun, nofun, nofun⟩
      intro min hmin
      cases hmin
      exact UInt64.le_refl _
    · exact h.lastTs.trans (congrArg (Option.map _) hlast)
  · intro hkind first hfirst r hr
    refine (hsound { RecordPredicate.default with tsMax := some r.tsUnixNs }
      ⟨hnot, hnot, hnot, fun _ => hkind, hnot, hnot⟩ r hr ?_).tsMax r.tsUnixNs rfl first.tsUnixNs ?_
    · refine ⟨nofun, nofun, nofun, nofun, ?_, nofun, nofun, nofun, nofun⟩
      intro max hmax
      cases hmax
      exact UInt64.le_refl _
    · exact h.firstTs.trans (congrArg (Option.map _) hfirst)
  · intro hkind hfew r hr
    have hcomplete := h.services.complete.mpr hfew
    have hsel : (onlyServices (filterServices decode r.payload).toFinset).Selects decode r := by
      refine ⟨nofun, nofun, nofun, nofun, nofun, nofun, nofun, ?_, nofun⟩
      intro allowed hallowed svc hsvc
      cases hallowed
      exact List.mem_toFinset.mpr hsvc
    obtain ⟨svc, hsvc, hmem⟩ := (hsound _
      ⟨hnot, hnot, hnot, hnot, fun _ => hkind, hnot⟩ r hr hsel).service
      _ rfl hcomplete
    refine ⟨svc, List.mem_toFinset.mp hsvc, ?_⟩
    rw [← h.services.values hcomplete]
    exact (Finset.mem_sort _).mp hmem
  · intro hkind hfew r hr
    have hcomplete := h.severities.complete.mpr hfew
    have hsel : (onlySeverities (filterSeverities decode r.payload).toFinset).Selects decode r := by
      refine ⟨nofun, nofun, nofun, nofun, nofun, nofun, nofun, nofun, ?_⟩
      intro allowed hallowed sev hsev
      cases hallowed
      exact List.mem_toFinset.mpr hsev
    obtain ⟨sev, hsev, hmem⟩ := (hsound _
      ⟨hnot, hnot, hnot, hnot, hnot, fun _ => hkind⟩ r hr hsel).severity
      _ rfl hcomplete
    refine ⟨sev, List.mem_toFinset.mp hsev, ?_⟩
    rw [← h.severities.values hcomplete]
    exact (Finset.mem_sort _).mp hmem

theorem SummaryBuilder.Summarises.soundFor_iff (h : builder.Summarises decode records) :
    SoundFor decode kinds (builder.finish size modified).mayMatch records
      ↔ Prunable decode kinds records := by
  rw [soundFor_iff_admits]
  constructor
  · exact Prunable.of_admits h
  · intro hprune p huses r hr hsel
    exact hprune.admits h huses hr hsel

end Sound

/-- No match is pruned away, exactly on `Prunable` records. -/
theorem pruning_sound_iff (decode : DecodeLogs) (kinds : Set FilterKind) :
    (∀ (offset len : Nat) (records : List OwnedRecord), SoundFor decode kinds
          (IndexBlock.ofRecords decode offset len records).mayMatch records
        ↔ Prunable decode kinds records) ∧ ∀ (size : Nat) (modified : Option UInt64)
        (blocks : List (Nat × Nat × List OwnedRecord)),
      SoundFor decode kinds (IndexSummary.ofBlocks size modified
          (blocks.map fun b => .ofRecords decode b.1 b.2.1 b.2.2)).mayMatch
          (blocks.flatMap fun b => b.2.2)
        ↔ Prunable decode kinds (blocks.flatMap fun b => b.2.2) := by
  refine ⟨?_, ?_⟩
  · intro offset len records
    exact (SummaryBuilder.summarises_records records).soundFor_iff
  · intro size modified blocks
    exact (SummaryBuilder.summarises_blocks blocks).soundFor_iff

theorem pruning_hides_record : ((IndexBlock.ofRecords (fun _ => none) 0 64
        [⟨.logs, 1, 9, []⟩, ⟨.logs, 5, 9, []⟩, ⟨.logs, 3, 9, []⟩]).mayMatch
          { RecordPredicate.default with seqMin := some 4 } = false
      ∧ RecordPredicate.matches (fun _ => none) { RecordPredicate.default with seqMin := some 4 }
        ⟨.logs, 5, 9, []⟩ = true) ∧ (IndexBlock.ofRecords (fun _ => none) 0 60
        [⟨.logs, 5, 9, [255]⟩]).mayMatch (onlyServices {"api"}) = false
      ∧ RecordPredicate.matches (fun _ => none) (onlyServices {"api"})
        ⟨.logs, 5, 9, [255]⟩ = true := by decide +kernel

end Logjet.Ljx
