/-
The bodies of the groups of distinct/exact: only strings are kept apart and
written back.
-/
import Logjet.Ljx.Emit
import Logjet.Ljx.Unpack
import Logjet.Ljx.Proofs.Distinct

namespace Logjet.Ljx

open List IndexedGroups

structure SourceLog where
  resource : Option Resource
  scope : Option InstrumentationScope
  record : LogRecord
  deriving DecidableEq, Repr

def SourceLog.flat (s : SourceLog) : FlatRecord := flatRecord s.resource s.scope s.record

def sourceLogs (batch : ExportLogsServiceRequest) : List SourceLog :=
  batch.resourceLogs.flatMap fun rl => rl.scopeLogs.flatMap fun sl =>
    sl.logRecords.map fun lr => ⟨rl.resource, sl.scope, lr⟩

theorem flattenBatch_eq (batch : ExportLogsServiceRequest) :
    flattenBatch batch = (sourceLogs batch).map SourceLog.flat := by
  simp only [flattenBatch, sourceLogs, map_flatMap, map_map]
  rfl

def logBatches (decode : DecodeLogs) (recs : List OwnedRecord) : List ExportLogsServiceRequest :=
  recs.filterMap fun rec => if rec.recordType ≠ .logs then none else decode rec.payload

theorem add_records (decode : DecodeLogs) (self : UnpackResult) (rec : OwnedRecord) :
    (self.add decode rec).records
      = self.records ++ (logBatches decode [rec]).flatMap flattenBatch := by
  simp only [UnpackResult.add, logBatches, filterMap_cons, filterMap_nil]
  by_cases hlogs : rec.recordType ≠ .logs
  · simp [hlogs]
  · cases hdecode : decode rec.payload with
    | none => simp [hlogs]
    | some batch => simp [hlogs]

theorem foldl_add_records (decode : DecodeLogs) (recs : List OwnedRecord) (self : UnpackResult) :
    (recs.foldl (UnpackResult.add decode) self).records
      = self.records ++ (logBatches decode recs).flatMap flattenBatch := by
  induction recs generalizing self with
  | nil => exact (append_nil _).symm
  | cons rec recs ih =>
    have hcons : logBatches decode (rec :: recs)
        = logBatches decode [rec] ++ logBatches decode recs := @filterMap_append _ _ [rec] recs _
    rw [foldl_cons, ih, add_records, hcons, flatMap_append, append_assoc]

def sourcesOf (decode : DecodeLogs) (recs : List OwnedRecord) : List SourceLog :=
  (logBatches decode recs).flatMap sourceLogs

theorem unpack_records (decode : DecodeLogs) (recs : List OwnedRecord) :
    (unpack decode recs).records = (sourcesOf decode recs).map SourceLog.flat := by
  rw [unpack, foldl_add_records, nil_append, sourcesOf, map_flatMap]
  exact congrArg (List.flatMap · _) (funext flattenBatch_eq)

section

variable (fns : DedupExternal)

def membersOf (sources : List SourceLog) (g : DedupGroup) : List SourceLog :=
  sources.filter fun s => fns.hash s.flat.body = g.signature

structure MadeOf (sources : List SourceLog) (groups : List DedupGroup) : Prop where
  absorbed : ∀ g ∈ groups, groupOf (fun r => .new globalKey (fns.hash r.body) r) DedupGroup.absorb
      ((membersOf fns sources g).map SourceLog.flat) = some g
  covered : ∀ s ∈ sources, ∃ g ∈ groups, s ∈ membersOf fns sources g
  apart : groups.Pairwise fun g g' => ∀ s ∈ membersOf fns sources g, s ∉ membersOf fns sources g'

variable {fns} {sources : List SourceLog}

theorem mem_membersOf {g : DedupGroup} {s : SourceLog} : s ∈ membersOf fns sources g
      ↔ s ∈ sources ∧ fns.hash s.flat.body = g.signature := by
  rw [membersOf, mem_filter, decide_eq_true_eq]

theorem groupOf_absorb {key : BucketKey} {rs : List FlatRecord} {g : DedupGroup}
    (h : groupOf (fun r => .new key (fns.hash r.body) r) DedupGroup.absorb rs = some g) :
    rs.head? = some g.representative ∧ g.signature = fns.hash g.representative.body := by
  cases rs with
  | nil => cases h
  | cons r rs =>
    cases h
    obtain ⟨-, hsig, hrep, -⟩ := foldl_absorb rs (Describes.new key (fns.hash r.body) r)
    rw [hsig, hrep]
    exact ⟨rfl, rfl⟩

theorem dedupBucket_madeOf : MadeOf fns sources
      (dedupBucket fns globalKey (sources.map SourceLog.flat)) := by
  obtain ⟨keys, hnodup, hmem, hbuild⟩ := build_classes (fun r : FlatRecord => fns.hash r.body)
    (fun r => .new globalKey (fns.hash r.body) r) DedupGroup.absorb (sources.map SourceLog.flat)
  have hsig : List.Forall₂ (fun g k => (groupOf
      (fun r => .new globalKey (fns.hash r.body) r) DedupGroup.absorb
      ((membersOf fns sources g).map SourceLog.flat) = some g) ∧ g.signature = k)
      (dedupBucket fns globalKey (sources.map SourceLog.flat)) keys := by
    refine hbuild.imp fun g k hg => ?_
    obtain ⟨hhead, hg'⟩ := groupOf_absorb hg
    have hk := (mem_ofKey.mp (mem_of_mem_head? hhead)).2
    have hkey : g.signature = k := hg'.trans hk
    refine ⟨?_, hkey⟩
    rw [← hg, ← hkey, List.ofKey, filter_map]
    rfl
  obtain ⟨habsorbed, hkeys⟩ := (forall₂_and_left _ _).mp hsig
  have hsigs : (dedupBucket fns globalKey
      (sources.map SourceLog.flat)).map DedupGroup.signature = keys := by
    rw [← forall₂_eq_eq_eq, forall₂_map_left_iff]
    exact hkeys
  refine ⟨habsorbed, ?_, ?_⟩
  · intro s hs
    have hin : fns.hash s.flat.body ∈ keys := (hmem _).mpr (mem_map_of_mem (mem_map_of_mem hs))
    rw [← hsigs] at hin
    obtain ⟨g, hg, hsame⟩ := mem_map.mp hin
    exact ⟨g, hg, mem_membersOf.mpr ⟨hs, hsame.symm⟩⟩
  · rw [← hsigs, nodup_iff_pairwise_ne, pairwise_map] at hnodup
    refine hnodup.imp fun {g g'} hne s hs hs' => hne ?_
    exact (mem_membersOf.mp hs).2.symm.trans (mem_membersOf.mp hs').2

end

def SourceLog.IsString (s : SourceLog) : Prop :=
  ∃ text, s.record.body = some ⟨some (.stringValue text)⟩

def emittedBodies (batch : ExportLogsServiceRequest) : List (Option AnyValue) :=
  (sourceLogs batch).map (·.record.body)

structure KeepsBody (members : List SourceLog) (g : DedupGroup) (label : String) : Prop where
  same : ∀ s ∈ members, ∀ s' ∈ members, s.record.body = s'.record.body
  emitted : ∀ s ∈ members.head?, emittedBodies (dedupBatch g label) = [s.record.body]

theorem emittedBodies_dedupBatch (g : DedupGroup) (label : String) :
    emittedBodies (dedupBatch g label) = [some ⟨some (.stringValue g.representative.body)⟩] := rfl

theorem SourceLog.IsString.body_eq {s : SourceLog} (h : s.IsString) :
    s.record.body = some ⟨some (.stringValue s.flat.body)⟩ := by
  obtain ⟨text, htext⟩ := h
  have hflat : s.flat.body = text := by
    simp only [SourceLog.flat, flatRecord, bodyText, htext]
    rfl
  rw [hflat, htext]

section

variable {fns : DedupExternal} {sources : List SourceLog}
  {groups : List DedupGroup} {label : String}

theorem MadeOf.body_eq (h : MadeOf fns sources groups) (hhash : ∀ s ∈ sources, ∀ s' ∈ sources,
      fns.hash s.flat.body = fns.hash s'.flat.body →
        s.flat.body = s'.flat.body) {g : DedupGroup} (hg : g ∈ groups)
    {s : SourceLog} (hs : s ∈ membersOf fns sources g) : s.flat.body = g.representative.body := by
  obtain ⟨hhead, hsig⟩ := groupOf_absorb (h.absorbed g hg)
  rw [head?_map] at hhead
  obtain ⟨first, hfirst, hrep⟩ := Option.map_eq_some_iff.mp hhead
  have hin := mem_membersOf.mp (mem_of_mem_head? hfirst)
  have hin' := mem_membersOf.mp hs
  rw [← hrep]
  exact hhash s hin'.1 first hin.1 (hin'.2.trans hin.2.symm)

theorem MadeOf.keepsBody (h : MadeOf fns sources groups) (hhash : ∀ s ∈ sources, ∀ s' ∈ sources,
      fns.hash s.flat.body = fns.hash s'.flat.body → s.flat.body = s'.flat.body)
    (hstring : ∀ s ∈ sources, s.IsString) {g : DedupGroup} (hg : g ∈ groups) :
    KeepsBody (membersOf fns sources g) g label := by
  have hbody : ∀ s ∈ membersOf fns sources g, s.record.body
      = some ⟨some (.stringValue g.representative.body)⟩ := by
    intro s hs
    rw [(hstring s (mem_membersOf.mp hs).1).body_eq, h.body_eq hhash hg hs]
  constructor
  · intro s hs s' hs'
    rw [hbody s hs, hbody s' hs']
  · intro s hs
    rw [emittedBodies_dedupBatch, hbody s (mem_of_mem_head? hs)]

theorem MadeOf.isString (h : MadeOf fns sources groups)
    (hkept : ∀ g ∈ groups, KeepsBody (membersOf fns sources g) g label)
    {s : SourceLog} (hs : s ∈ sources) : s.IsString := by
  obtain ⟨g, hg, hin⟩ := h.covered s hs
  obtain ⟨hhead, -⟩ := groupOf_absorb (h.absorbed g hg)
  rw [head?_map] at hhead
  obtain ⟨first, hfirst, -⟩ := Option.map_eq_some_iff.mp hhead
  have hemitted := (hkept g hg).emitted first hfirst
  have hsame := (hkept g hg).same s hin first (mem_of_mem_head? hfirst)
  exact ⟨g.representative.body, hsame.trans (List.cons.inj hemitted).1.symm⟩

end

/-- Exact groups keep their bodies iff all of them are strings. -/
theorem exact_bodies_kept_iff {F : Type} [Similarity F]
    (fns : DedupExternal) (order : HashOrder) (opts : DedupOpts F)
    (hmode : opts.mode = .distinct) (hmatch : opts.matchMode = .exact)
    (decode : DecodeLogs) (recs : List OwnedRecord)
    (hhash : ∀ s ∈ sourcesOf decode recs, ∀ s' ∈ sourcesOf decode recs,
      fns.hash s.flat.body = fns.hash s'.flat.body → s.flat.body = s'.flat.body) : ∃ groups,
      dedupGroups fns order opts (unpack decode recs).records = some groups
        ∧ MadeOf fns (sourcesOf decode recs) groups ∧ ((∀ g ∈ groups, KeepsBody
              (membersOf fns (sourcesOf decode recs) g) g (modeLabel opts))
            ↔ ∀ s ∈ sourcesOf decode recs, s.IsString) := by
  have hmade := @dedupBucket_madeOf fns (sourcesOf decode recs)
  refine ⟨_, ?_, hmade, ?_⟩
  · rw [dedupGroups, hmode, hmatch, unpack_records]
    exact congrArg some (exactDedup_global fns order _)
  · exact ⟨fun hkept s hs => hmade.isString hkept hs,
      fun hstring g hg => hmade.keepsBody hhash hstring hg⟩

def bodiesBatch (bodies : List (Option AnyValue)) : ExportLogsServiceRequest :=
  ⟨[⟨none, [⟨none, bodies.map fun body => { severityText := "", body, other := [] }, ""⟩], ""⟩]⟩

def bodiesDecode (bodies : List (Option AnyValue)) : DecodeLogs :=
  fun payload => if payload = [1] then some (bodiesBatch bodies) else none

def batchRecord : OwnedRecord := ⟨.logs, 0, 0, [1]⟩

def textBodies : List (Option AnyValue) :=
  ["a", "b", "a"].map fun text => some ⟨some (.stringValue text)⟩

theorem exact_bodies_kept_iff_texts : ∃ groups, dedupGroups abFns .insertion exactOpts
          (unpack (bodiesDecode textBodies) [batchRecord]).records = some groups
      ∧ ∀ g ∈ groups, KeepsBody (membersOf abFns (sourcesOf (bodiesDecode textBodies) [batchRecord])
            g) g "distinct/exact" := by
  obtain ⟨groups, hrun, -, hiff⟩ := exact_bodies_kept_iff abFns .insertion
    exactOpts rfl rfl (bodiesDecode textBodies) [batchRecord] (by decide +kernel)
  refine ⟨groups, hrun, hiff.mpr ?_⟩
  intro s hs
  have hall : s ∈ [
      (⟨none, none, { severityText := "", other := []
                      body := some ⟨some (.stringValue "a")⟩ }⟩ : SourceLog),
      ⟨none, none, { severityText := "", other := []
                     body := some ⟨some (.stringValue "b")⟩ }⟩,
      ⟨none, none, { severityText := "", other := []
                     body := some ⟨some (.stringValue "a")⟩ }⟩] := hs
  simp only [mem_cons, not_mem_nil, or_false] at hall
  obtain rfl | rfl | rfl := hall
  · exact ⟨"a", rfl⟩
  · exact ⟨"b", rfl⟩
  · exact ⟨"a", rfl⟩

def emptyFns : DedupExternal where
  xxh3 := fun bytes => if bytes = [] then 0x2d06800538d394c2 else 0
  canonicaliseBody := fun body => (body, "freetext")

def numberBodies : List (Option AnyValue) := [some ⟨some (.intValue 1)⟩, some ⟨some (.intValue 2)⟩]

theorem exact_merges_numbers : (dedupGroups emptyFns .insertion exactOpts
        (unpack (bodiesDecode numberBodies) [batchRecord]).records).map (List.map fun g =>
        ((membersOf emptyFns (sourcesOf (bodiesDecode numberBodies) [batchRecord]) g).map
          (·.record.body),
        emittedBodies (dedupBatch g "distinct/exact")))
      = some [(numberBodies, [some ⟨some (.stringValue "")⟩])] := by
  decide +kernel

end Logjet.Ljx
