/-
What `ljx dedup` conserves: the groups stand for the records, each once.
-/
import Logjet.Lib.Partition
import Logjet.Ljx.Dedup
import Logjet.Ljx.Proofs.Drain3

namespace Logjet.Ljx

open List

structure Describes (g : DedupGroup) (members : List FlatRecord) : Prop where
  count : g.count = members.length
  representative : g.representative ∈ members
  firstSeen : ∃ r ∈ members, effectiveTimestamp r = g.firstSeenNs
  first_le : ∀ r ∈ members, g.firstSeenNs ≤ effectiveTimestamp r
  lastSeen : ∃ r ∈ members, effectiveTimestamp r = g.lastSeenNs
  le_last : ∀ r ∈ members, effectiveTimestamp r ≤ g.lastSeenNs

namespace Describes

variable {g g' : DedupGroup} {members members' : List FlatRecord}

theorem new (key : BucketKey) (signature : UInt64) (r : FlatRecord) :
    Describes (.new key signature r) [r] where
  count := rfl
  representative := mem_singleton_self r
  firstSeen := ⟨r, mem_singleton_self r, rfl⟩
  first_le := fun r' h => by
    rw [mem_singleton.mp h]
    exact UInt64.le_refl _
  lastSeen := ⟨r, mem_singleton_self r, rfl⟩
  le_last := fun r' h => by
    rw [mem_singleton.mp h]
    exact UInt64.le_refl _

theorem mergeGroup (h : Describes g members) (h' : Describes g' members') :
    Describes (g.mergeGroup g') (members ++ members') where
  count := by
    rw [length_append, ← h.count, ← h'.count]
    rfl
  representative := mem_append_left _ h.representative
  firstSeen := by
    simp only [DedupGroup.mergeGroup]
    split
    · obtain ⟨r, hr, hts⟩ := h'.firstSeen
      exact ⟨r, mem_append_right _ hr, hts⟩
    · obtain ⟨r, hr, hts⟩ := h.firstSeen
      exact ⟨r, mem_append_left _ hr, hts⟩
  first_le := by
    intro r hr
    simp only [DedupGroup.mergeGroup]
    rcases mem_append.mp hr with hr | hr
    · have := h.first_le r hr
      split <;> grind
    · have := h'.first_le r hr
      split <;> grind
  lastSeen := by
    simp only [DedupGroup.mergeGroup]
    split
    · obtain ⟨r, hr, hts⟩ := h'.lastSeen
      exact ⟨r, mem_append_right _ hr, hts⟩
    · obtain ⟨r, hr, hts⟩ := h.lastSeen
      exact ⟨r, mem_append_left _ hr, hts⟩
  le_last := by
    intro r hr
    simp only [DedupGroup.mergeGroup]
    rcases mem_append.mp hr with hr | hr
    · have := h.le_last r hr
      split <;> grind
    · have := h'.le_last r hr
      split <;> grind

theorem relabel (h : Describes g members) (hcount : g'.count = g.count)
    (hrep : g'.representative = g.representative) (hfirst : g'.firstSeenNs = g.firstSeenNs)
    (hlast : g'.lastSeenNs = g.lastSeenNs) : Describes g' members where
  count := hcount.trans h.count
  representative := hrep ▸ h.representative
  firstSeen := hfirst ▸ h.firstSeen
  first_le := hfirst ▸ h.first_le
  lastSeen := hlast ▸ h.lastSeen
  le_last := hlast ▸ h.le_last

theorem absorb (h : Describes g members) (r : FlatRecord) :
    Describes (g.absorb r) (members ++ [r]) :=
  (h.mergeGroup (new g.bucketKey g.signature r)).relabel rfl rfl rfl rfl

theorem foldl_mergeGroup {others : List DedupGroup}
    {parts : List (List FlatRecord)} (h : Describes g members)
    (hothers : List.Forall₂ Describes others parts) :
    Describes (others.foldl DedupGroup.mergeGroup g) (members ++ parts.flatten) := by
  induction hothers generalizing g members with
  | nil => simpa using h
  | cons hfirst _ ih =>
    rw [foldl_cons, flatten_cons, ← append_assoc]
    exact ih (h.mergeGroup hfirst)

end Describes

variable {groups : List DedupGroup} {records : List FlatRecord}

theorem sum_count_of_divides (h : Divides Describes groups records) :
    (groups.map DedupGroup.count).sum = records.length := by
  obtain ⟨parts, hparts, hperm⟩ := h
  rw [← hperm.length_eq]
  clear hperm
  induction hparts with
  | nil => rfl
  | cons hg _ ih => rw [map_cons, sum_cons, flatten_cons, length_append, ih, hg.count]

theorem length_le_of_divides (h : Divides Describes groups records) :
    groups.length ≤ records.length := by
  obtain ⟨parts, hparts, hperm⟩ := h
  rw [← hperm.length_eq]
  clear hperm
  induction hparts with
  | nil => exact Nat.le_refl _
  | cons hg _ ih =>
    have hpos := length_pos_of_mem hg.representative
    rw [length_cons, flatten_cons, length_append]
    omega

variable (fns : DedupExternal) (order : HashOrder)

theorem dedupBucket_divides (key : BucketKey) (records : List FlatRecord) :
    Divides Describes (dedupBucket fns key records) records := by
  have hsingles : Divides (fun r part => part = [r]) records records := by
    have h := Divides.singles (D := fun (r : FlatRecord) part => part = [r]) (fun _ => rfl) records
    rwa [map_id'] at h
  refine hsingles.indexed_build ?_ ?_
  · intro r part hpart
    rw [hpart]
    exact .new _ _ r
  · intro g r part part' hg hpart'
    rw [hpart']
    exact hg.absorb r

theorem exactDedup_divides (records : List FlatRecord) (kind : BucketKeyKind) :
    Divides Describes (exactDedup fns order (bucketGroup records kind)) records := by
  have hbuckets : Divides Describes (exactDedup fns order (bucketGroup records kind))
      ((order.iter [0] (bucketGroup records kind)).flatMap Prod.snd) :=
    Divides.flatMap fun b _ => dedupBucket_divides fns b.1 b.2
  exact hbuckets.perm_items (((order.perm _ _).flatMap_right _).trans
    (HashMap.groupBy_perm _ records))

theorem canonDedup_divides (h : Divides Describes groups records) :
    Divides Describes (canonDedup fns groups) records := by
  have hannotated : Divides Describes (groups.map (annotate fns)) records :=
    h.map fun g part hg => hg.relabel rfl rfl rfl rfl
  refine hannotated.indexed_build ?_ ?_
  · intro g part hg
    exact hg.relabel rfl rfl rfl rfl
  · intro g g' part part' hg hg'
    exact hg.mergeGroup hg'

section Residuals

variable {F : Type}

variable {residuals : List DedupGroup}

theorem mergeCluster_returns (engine : Drain F) {entry : Int × List Nat}
    (hne : entry.2 ≠ []) (hbound : ∀ i ∈ entry.2, i < residuals.length) :
    ∃ g, mergeCluster fns engine residuals entry = some g ∧ ∀ parts, List.Forall₂ Describes
          (entry.2.filterMap (residuals[·]?)) parts → Describes g parts.flatten := by
  obtain ⟨cid, indices⟩ := entry
  obtain ⟨i, rest, rfl⟩ := exists_cons_of_ne_nil hne
  obtain ⟨first, hfirst⟩ : ∃ first, residuals[i]? = some first :=
    ⟨_, getElem?_eq_getElem (hbound i mem_cons_self)⟩
  have hrest := mapM_getElem? fun j hj => hbound j (mem_cons_of_mem i hj)
  rw [filterMap_cons_some hfirst]
  cases rest with
  | nil =>
    refine ⟨first, hfirst, ?_⟩
    intro parts hparts
    obtain ⟨part, _, hpart, hnil, rfl⟩ := forall₂_cons_left_iff.mp hparts
    cases hnil
    simpa using hpart
  | cons j rest =>
    simp only [mergeCluster, hfirst, hrest, Option.bind_eq_bind,
      Option.bind_some, Option.pure_def, Option.some.injEq, exists_eq_left']
    intro parts hparts
    obtain ⟨part, parts', hpart, hparts', rfl⟩ := forall₂_cons_left_iff.mp hparts
    exact (hpart.foldl_mergeGroup hparts').relabel rfl rfl rfl rfl

theorem clusters_divide (engine : Drain F)
    {entries : List (Int × List Nat)} (hperm : (entries.flatMap Prod.snd).Perm
      (List.range residuals.length)) (hne : ∀ entry ∈ entries, entry.2 ≠ []) :
    ∃ clustered, entries.mapM (mergeCluster fns engine residuals) = some clustered
      ∧ ∀ records, Divides Describes residuals records → Divides Describes clustered records := by
  have hbound : ∀ entry ∈ entries, ∀ i ∈ entry.2, i < residuals.length := by
    intro entry hentry i hi
    exact mem_range.mp (hperm.subset (mem_flatMap.mpr ⟨entry, hentry, hi⟩))
  obtain ⟨clustered, hrun, hall⟩ := mapM_returns fun entry hentry =>
    mergeCluster_returns fns engine (hne entry hentry) (hbound entry hentry)
  refine ⟨clustered, hrun, ?_⟩
  intro records h
  have hblocks : Divides Describes (entries.map fun entry => entry.2.filterMap
        (residuals[·]?)).flatten records := by
    refine h.perm_groups ?_
    have hread := hperm.filterMap (residuals[·]?)
    rw [filterMap_range_getElem?, flatMap_def, filterMap_flatten, map_map] at hread
    exact hread
  refine hblocks.regroup ?_
  rw [forall₂_map_right_iff]
  exact hall

theorem sound_drainConfig (drain : DrainOpts F) (maxClusters : Nat) :
    (Drain.new (drainConfig drain maxClusters)).Sound :=
  Drain.sound_new (by decide : (0 : Int) < 100)

variable [Similarity F] (drain : DrainOpts F)

theorem assignClusters_returns {path : List Nat} {i : Nat}
    {residuals : List DedupGroup} {engine : Drain F}
    {drainGroups : List (Int × List Nat)} (hs : engine.Sound)
    (hne : ∀ entry ∈ drainGroups, entry.2 ≠ []) :
    ∃ engine' drainGroups', assignClusters order path i residuals engine
        drainGroups = some (engine', drainGroups') ∧ (drainGroups'.flatMap Prod.snd).Perm
        (drainGroups.flatMap Prod.snd ++ List.range' i residuals.length)
      ∧ ∀ entry ∈ drainGroups', entry.2 ≠ [] := by
  induction residuals generalizing i engine drainGroups with
  | nil => exact ⟨engine, drainGroups, rfl, by simp, hne⟩
  | cons g residuals ih =>
    obtain ⟨⟨cid, _⟩, engine₁, hadd, hs₁⟩ := Drain.addLogMessage_returns hs order path
        (g.canonicalBody.getD g.representative.body).toList
    have hne₁ : ∀ entry ∈ HashMap.pushAt cid i drainGroups,
        entry.2 ≠ [] := HashMap.pushAt_ne_nil hne
    obtain ⟨engine', drainGroups', hrest, hperm, hne'⟩ := ih hs₁ hne₁
    refine ⟨engine', drainGroups', ?_, hperm.trans ?_, hne'⟩
    · rw [assignClusters, hadd]
      exact hrest
    · rw [length_cons, range'_succ]
      refine ((HashMap.pushAt_perm cid i _).append_right _).trans ?_
      rw [append_assoc]
      exact .refl _

theorem dedupResidualBucket_returns (n : Nat) (bucketGroups : List DedupGroup) :
    ∃ out, dedupResidualBucket fns order drain n bucketGroups = some out
      ∧ ∀ records, Divides Describes bucketGroups records → Divides Describes out records := by
  have hsplit : (bucketGroups.filter (·.count > 1)
      ++ bucketGroups.filter (! ·.count > 1)).Perm bucketGroups := filter_append_perm _ _
  unfold dedupResidualBucket
  dsimp only
  split
  next => exact ⟨_, rfl, fun records h => h.perm_groups hsplit⟩
  next =>
    generalize bucketGroups.filter (·.count > 1) = merged at hsplit ⊢
    generalize bucketGroups.filter (! ·.count > 1) = residuals at hsplit ⊢
    obtain ⟨engine, drainGroups, hassign, hindices, hne⟩ :=
      @assignClusters_returns order F _ [3, n] 0 residuals _ []
        (sound_drainConfig drain (residuals.length / 2)) nofun
    have hiter := order.perm [2, n] drainGroups
    rw [flatMap_nil, nil_append, ← range_eq_range'] at hindices
    obtain ⟨clustered, hclustered, hdivides⟩ := clusters_divide fns engine
      ((hiter.flatMap_right _).trans hindices) fun entry hentry => hne entry (hiter.subset hentry)
    refine ⟨clustered ++ merged, ?_, ?_⟩
    · rw [hassign, Option.bind_eq_bind, Option.bind_some, hclustered]
      rfl
    · intro records h
      obtain ⟨left, right, hmerged, hresiduals, hperm⟩ := (h.perm_groups hsplit).split
      exact ((hdivides right hresiduals).append hmerged).perm_items (perm_append_comm.trans hperm)

theorem dedupResiduals_returns {groups : List DedupGroup}
    {records : List FlatRecord} (h : Divides Describes groups records) :
    ∃ out, dedupResiduals fns order drain groups = some out ∧ Divides Describes out records := by
  have hperm := ((order.perm [1] (HashMap.groupBy DedupGroup.bucketKey
    groups)).flatMap_right Prod.snd).trans (HashMap.groupBy_perm _ groups)
  unfold dedupResiduals
  dsimp only
  generalize order.iter [1] (HashMap.groupBy DedupGroup.bucketKey groups) = buckets at hperm ⊢
  obtain ⟨results, hrun, hall⟩ := mapM_returns (l := buckets.zipIdx) fun bucket _ =>
      dedupResidualBucket_returns fns order drain bucket.2 bucket.1.2
  refine ⟨results.flatten, ?_, ?_⟩
  · rw [Option.bind_eq_bind, hrun]
    rfl
  · have hbuckets : Divides Describes
        (buckets.zipIdx.map fun bucket => bucket.1.2).flatten records := by
      refine h.perm_groups ?_
      have hfst : (buckets.zipIdx.map fun bucket => bucket.1.2) = buckets.map Prod.snd := by
        rw [← zipIdx_map_fst 0 buckets, map_map, zipIdx_map_fst]
        rfl
      rw [hfst, ← flatMap_def]
      exact hperm
    refine hbuckets.flatten ?_
    rw [forall₂_map_right_iff]
    exact hall

end Residuals

section Collapse

variable {F : Type} [Similarity F] (opts : DedupOpts F)

theorem drainMatches_returns (drain : DrainOpts F) (path : List Nat)
    (group : DedupGroup) (candidate : CollapseCandidate) :
    ∃ target, drainMatches fns order drain path group candidate = some target
      ∧ ∀ g ∈ target, ∀ members, Describes group members → Describes g members := by
  obtain ⟨result₁, engine₁, hleft, hs₁⟩ := Drain.addLogMessage_returns
    (sound_drainConfig drain 4) order path ((group.drain3Template.or group.canonicalBody).getD
      group.representative.body).toList
  obtain ⟨⟨cid, isNew⟩, engine₂, hright, -⟩ := Drain.addLogMessage_returns hs₁ order path
    (candidate.canonicalBody.getD candidate.record.body).toList
  simp only [drainMatches, hleft, hright, Option.bind_eq_bind, Option.bind_some]
  cases isNew with
  | true => exact ⟨none, rfl, by simp⟩
  | false =>
    refine ⟨some _, rfl, ?_⟩
    intro g hg members h
    rw [← Option.some.inj hg]
    exact h.relabel rfl rfl rfl rfl

theorem collapseTarget_returns (n : Nat) (groups : List DedupGroup)
    (candidate : CollapseCandidate) : ∃ target, collapseTarget fns order opts n groups candidate
        = some target ∧ ∀ g ∈ target, ∃ last, groups.getLast? = some last
        ∧ ∀ members, Describes last members → Describes g members := by
  unfold collapseTarget
  split
  next => exact ⟨none, rfl, by simp⟩
  next last hlast =>
    split
    next => exact ⟨none, rfl, by simp⟩
    next =>
      split
      next =>
        refine ⟨some last, rfl, ?_⟩
        intro g hg
        rw [← Option.some.inj hg]
        exact ⟨last, hlast, fun _ h => h⟩
      next =>
        split
        next =>
          obtain ⟨target, hrun, hsame⟩ := drainMatches_returns fns order
            opts.drain [4, n] last candidate
          exact ⟨target, hrun, fun g hg => ⟨last, hlast, hsame g hg⟩⟩
        next => exact ⟨none, rfl, by simp⟩

theorem fromRecord_record (record : FlatRecord) (key : BucketKey) (matchMode : DedupMatchMode) :
    (CollapseCandidate.fromRecord fns record key matchMode).record = record := by
  cases matchMode <;> rfl

variable {groups : List DedupGroup} {before : List FlatRecord}

theorem collapseStep_returns (n : Nat) (h : Divides Describes groups before) (record : FlatRecord) :
    ∃ groups', collapseStep fns order opts n groups record = some groups'
      ∧ Divides Describes groups' (before ++ [record]) := by
  unfold collapseStep
  dsimp only
  have hrecord := fromRecord_record fns record
    (BucketKey.fromRecord record opts.bucketKey) opts.matchMode
  generalize CollapseCandidate.fromRecord fns record
    (BucketKey.fromRecord record opts.bucketKey) opts.matchMode = candidate at hrecord ⊢
  obtain ⟨target, htarget, hlast⟩ := collapseTarget_returns fns order opts n groups candidate
  rw [htarget, Option.bind_eq_bind, Option.bind_some, ← hrecord]
  cases target with
  | none =>
    refine ⟨_, rfl, h.append (Divides.single ?_)⟩
    exact (Describes.new candidate.bucketKey candidate.signature
      candidate.record).relabel rfl rfl rfl rfl
  | some g =>
    refine ⟨_, rfl, ?_⟩
    obtain ⟨last, hgroups, hsame⟩ := hlast g rfl
    have hlen : groups.length - 1 < groups.length := by
      have hne : groups ≠ [] := by
        intro hnil
        rw [hnil] at hgroups
        cases hgroups
      have := length_pos_iff.mpr hne
      omega
    have hset : groups.set (groups.length - 1) (g.absorb candidate.record)
        = groups.modify (groups.length - 1) fun _ => g.absorb candidate.record :=
      set_eq_modify _ _ _
    rw [hset]
    refine h.modify hlen ?_
    intro g' hg' part hpart
    rw [getLast?_eq_getElem?] at hgroups
    rw [hgroups] at hg'
    cases hg'
    exact (hsame part hpart).absorb candidate.record

theorem collapseDedup_invariant {I : List DedupGroup → List FlatRecord → Prop} (hnil : I [] [])
    (hstep : ∀ n groups before record, I groups before → ∃ groups',
      collapseStep fns order opts n groups record = some groups' ∧ I groups' (before ++ [record]))
    (records : List FlatRecord) :
    ∃ groups, collapseDedup fns order opts records = some groups ∧ I groups records := by
  have hloop : ∀ (records before : List FlatRecord) (n : Nat) (groups : List DedupGroup),
      I groups before → ∃ groups', (records.zipIdx n).foldlM (fun groups p =>
          collapseStep fns order opts p.2 groups p.1) groups = some groups'
        ∧ I groups' (before ++ records) := by
    intro records
    induction records with
    | nil => exact fun before n groups h => ⟨groups, rfl, by rwa [append_nil]⟩
    | cons record records ih =>
      intro before n groups h
      obtain ⟨groups₁, hfirst, h₁⟩ := hstep n groups before record h
      obtain ⟨groups', hrest, h'⟩ := ih (before ++ [record]) (n + 1) groups₁ h₁
      rw [append_assoc] at h'
      refine ⟨groups', ?_, h'⟩
      rw [zipIdx_cons, foldlM_cons]
      rw [hfirst]
      exact hrest
  exact hloop records [] 0 [] hnil

end Collapse

theorem dedupGroups_returns {F : Type} [Similarity F] (opts : DedupOpts F)
    (records : List FlatRecord) : ∃ groups, dedupGroups fns order opts records = some groups
      ∧ Divides Describes groups records := by
  have hcanon : ∀ kind, Divides Describes (if opts.matchMode.rank ≥ DedupMatchMode.hash2.rank then
        canonDedup fns (exactDedup fns order (bucketGroup records kind))
      else exactDedup fns order (bucketGroup records kind)) records := by
    intro kind
    have hexact := exactDedup_divides fns order records kind
    split
    · exact canonDedup_divides fns hexact
    · exact hexact
  unfold dedupGroups
  split
  next =>
    dsimp only
    split
    · exact dedupResiduals_returns fns order opts.drain (hcanon _)
    · exact ⟨_, rfl, hcanon _⟩
  next =>
    exact collapseDedup_invariant fns order opts Divides.nil
      (fun n _ _ record h => collapseStep_returns fns order opts n h record) records

def plainRecord (body : String) (time : UInt64) : FlatRecord :=
  { serviceName := "svc", severityNumber := 9, severityText := "INFO"
    scopeName := "", eventName := "", codeFilepath := none
    codeLineno := none, traceId := [], spanId := [], timeUnixNano := time
    observedTimeUnixNano := 0, body, resourceAttrs := []
    scopeAttrs := [], recordAttrs := [] }

end Logjet.Ljx
