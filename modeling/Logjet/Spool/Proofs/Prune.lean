/-
What `ljd prune --keep-bytes` removes: what is kept is a run of the newest
segments.
-/
import Logjet.Reference
import Logjet.Spool.Prune
import Logjet.Spool.Proofs.Reading
import Logjet.Spool.Proofs.SegmentRetention

namespace Logjet

open List

variable {limit : UInt64} {summaries : List SegmentSummary}

def totalBytes (summaries : List SegmentSummary) : Nat :=
  (summaries.map fun summary => summary.sizeBytes.toNat).sum

/-- One removal goes from over the limit to under it. -/
def Oversteps (limit : UInt64) (summaries : List SegmentSummary) : Prop :=
  ∃ before summary behind, summaries = before ++ summary :: behind
    ∧ behind ≠ [] ∧ totalBytes behind < limit.toNat ∧ limit.toNat < totalBytes (summary :: behind)

@[simp] theorem totalBytes_cons (summary : SegmentSummary) (summaries : List SegmentSummary) :
    totalBytes (summary :: summaries) = summary.sizeBytes.toNat + totalBytes summaries := by
  rfl

theorem totalBytes_le_of_suffix {l l' : List SegmentSummary}
    (h : l <:+ l') : totalBytes l ≤ totalBytes l' :=
  List.Sublist.sum_le_sum (h.sublist.map _) fun _ _ => Nat.zero_le _

theorem toNat_saturatingAdd (a b : UInt64) :
    (saturatingAdd a b).toNat = min (2 ^ 64 - 1) (a.toNat + b.toNat) := by
  unfold saturatingAdd
  split
  · rename_i hroom
    rw [UInt64.toNat_add, Nat.mod_eq_of_lt hroom]
    omega
  · rw [UInt64.toNat_ofNat_of_lt' (by decide)]
    omega

theorem keepFlags_cons (summary : SegmentSummary) (behind : List SegmentSummary) :
    keepFlags limit (summary :: behind)
      = if behind.isEmpty || (keepFlags limit behind).1 < limit then
          (saturatingAdd (keepFlags limit behind).1 summary.sizeBytes,
            true :: (keepFlags limit behind).2)
        else ((keepFlags limit behind).1, false :: (keepFlags limit behind).2) := rfl

structure Split (limit : UInt64) (summaries removed kept : List SegmentSummary) : Prop where
  split : summaries = removed ++ kept
  newest : summaries ≠ [] → kept ≠ []
  enough : removed ≠ [] → limit.toNat ≤ totalBytes kept
  needed : ∀ summary behind, kept = summary :: behind → behind ≠ [] →
    totalBytes behind < limit.toNat

theorem keepFlags_spec (limit : UInt64) (summaries : List SegmentSummary) :
    ∃ removed kept, Split limit summaries removed kept ∧ (keepFlags limit summaries).2
        = List.replicate removed.length false ++ List.replicate kept.length true
      ∧ (keepFlags limit summaries).1.toNat = min (2 ^ 64 - 1) (totalBytes kept) := by
  induction summaries with
  | nil => exact ⟨[], [], ⟨rfl, fun h => absurd rfl h, fun h => absurd rfl h, nofun⟩, rfl, rfl⟩
  | cons summary behind ih =>
    obtain ⟨removed, kept, hsplit, hflags, htotal⟩ := ih
    have hlimit := limit.toNat_lt
    rw [keepFlags_cons]
    by_cases hkeep : (behind.isEmpty
        || (keepFlags limit behind).1 < limit) = true
    · rw [if_pos hkeep]
      have hbelow : behind = [] ∨ totalBytes kept < limit.toNat := by
        rcases (Bool.or_eq_true _ _).mp hkeep with hempty | hless
        · exact Or.inl (isEmpty_iff.mp hempty)
        · rw [decide_eq_true_eq, UInt64.lt_iff_toNat_lt, htotal] at hless
          exact Or.inr (by omega)
      have hnone : removed = [] := by
        by_contra hsome
        have henough := hsplit.enough hsome
        rcases hbelow with rfl | hless
        · exact hsome (append_eq_nil_iff.mp hsplit.split.symm).1
        · omega
      subst hnone
      have hkept : behind = kept := hsplit.split
      subst hkept
      refine ⟨[], summary :: behind, ⟨rfl, fun _ => cons_ne_nil _ _,
        fun h => absurd rfl h, ?_⟩, ?_, ?_⟩
      · intro summary' behind' hcons hne
        cases hcons
        exact hbelow.resolve_left hne
      · rw [hflags]
        rfl
      · rw [toNat_saturatingAdd, htotal, totalBytes_cons]
        omega
    · rw [if_neg hkeep]
      rw [Bool.or_eq_true, not_or, decide_eq_true_eq, UInt64.lt_iff_toNat_lt, htotal] at hkeep
      have hne : behind ≠ [] := fun heq => hkeep.1 (by simp [heq])
      refine ⟨summary :: removed, kept, ⟨?_, fun _ => hsplit.newest hne,
        fun _ => ?_, hsplit.needed⟩, ?_, htotal⟩
      · rw [hsplit.split]
        rfl
      · omega
      · rw [hflags]
        rfl

theorem removedByBytes_eq (limit : UInt64) (summaries : List SegmentSummary) :
    ∃ removed kept, Split limit summaries removed kept ∧ removedByBytes limit summaries
        = removed.map SegmentSummary.path := by
  obtain ⟨removed, kept, hsplit, hflags, -⟩ := keepFlags_spec limit summaries
  refine ⟨removed, kept, hsplit, ?_⟩
  rw [removedByBytes, hflags, hsplit.split]
  clear hsplit hflags
  induction removed with
  | nil =>
    rw [map_nil, nil_append, length_nil, replicate_zero, nil_append]
    induction kept with
    | nil => rfl
    | cons summary kept ih =>
      rw [length_cons, replicate_succ, zip_cons_cons, filterMap_cons_none rfl, ih]
  | cons summary removed ih =>
    rw [cons_append, length_cons, replicate_succ,
      cons_append, zip_cons_cons, filterMap_cons, map_cons, ← ih]
    rfl

theorem Split.kept_eq {removed kept before behind : List SegmentSummary}
    {summary : SegmentSummary} (h : Split limit summaries removed kept)
    (hsplit : summaries = before ++ summary :: behind) (hbelow : totalBytes behind < limit.toNat)
    (habove : limit.toNat < totalBytes (summary :: behind)) : kept = summary :: behind := by
  have hkept : kept <:+ summaries := ⟨removed, h.split.symm⟩
  have hover : summary :: behind <:+ summaries := ⟨before, hsplit.symm⟩
  have hbehind : behind <:+ summaries := (suffix_cons summary behind).trans hover
  have hlen : (summary :: behind).length = behind.length + 1 := length_cons
  rcases Nat.lt_trichotomy kept.length (behind.length + 1) with
    hless | hsame | hmore
  · have hle := totalBytes_le_of_suffix (suffix_of_suffix_length_le hkept hbehind (by omega))
    have hsome : removed ≠ [] := by
      rintro rfl
      have hall : kept.length = summaries.length := (congrArg List.length h.split).symm
      have hlen' := hover.length_le
      omega
    have henough := h.enough hsome
    omega
  · exact (suffix_of_suffix_length_le hkept hover (by omega)).eq_of_length (by omega)
  · cases kept with
    | nil => exact absurd hmore (by simp)
    | cons summary' behind' =>
      rw [length_cons] at hmore
      have hle := totalBytes_le_of_suffix (suffix_of_suffix_length_le
        hover ((suffix_cons summary' behind').trans hkept) (by omega))
      have hneeded := h.needed summary' behind' rfl (by
        rintro rfl
        rw [length_nil] at hmore
        omega)
      omega

theorem Split.within_iff {removed kept : List SegmentSummary}
    (h : Split limit summaries removed kept) : totalBytes kept ≤ limit.toNat ∨ kept.length ≤ 1
      ↔ ¬ Oversteps limit summaries := by
  constructor
  · rintro hwithin ⟨before, summary, behind, hsplit, hne, hbelow, habove⟩
    have hpos := length_pos_iff.mpr hne
    rw [h.kept_eq hsplit hbelow habove, length_cons] at hwithin
    omega
  · intro hnone
    by_contra hnot
    rw [not_or] at hnot
    cases kept with
    | nil => exact hnot.2 (Nat.zero_le _)
    | cons summary behind =>
      have hne : behind ≠ [] := by
        rintro rfl
        exact hnot.2 (Nat.le_refl _)
      exact hnone ⟨removed, summary, behind, h.split, hne,
        h.needed summary behind rfl hne, by omega⟩

variable {x : External} {dir : Directory} {fileName : Text}

theorem removeFiles_eq {paths : List Text} (hnodup : paths.Nodup)
    (hhas : ∀ path ∈ paths, dir.has path = true) :
    removeFiles paths dir = .ok () (dir.without paths) := by
  induction paths generalizing dir with
  | nil => rfl
  | cons path paths ih =>
    obtain ⟨hfresh, hnodup'⟩ := nodup_cons.mp hnodup
    have hhas' : ∀ p ∈ paths, (dir.erase path).has p = true := by
      intro p hp
      have hne : p ≠ path := fun heq => hfresh (heq ▸ hp)
      rw [Directory.has_erase_of_ne hne]
      exact hhas p (mem_cons_of_mem _ hp)
    rw [removeFiles, EStateM.get_bind, Directory.removeFile_eq (hhas path mem_cons_self)]
    exact ih hnodup' hhas'

def SegmentSummary.info (summary : SegmentSummary) : SegmentInfo := ⟨summary.id, summary.path⟩

theorem info_summariseSegment {segment : SegmentInfo} {summary : SegmentSummary}
    (h : summariseSegment x dir segment = .ok summary) : summary.info = segment := by
  obtain ⟨range, -, h⟩ := Except.bind_eq_ok_iff.mp h
  obtain ⟨sizeBytes, -, h⟩ := Except.bind_eq_ok_iff.mp h
  cases h
  rfl

theorem listSegments_sorted (d : Directory) (stem : Text) :
    (listSegments d stem).Pairwise fun a b => a.id ≤ b.id := pairwise_insertionSort _ _

section Summaries

variable (h : summariseNamedSegments x dir fileName = .ok summaries)

include h

theorem map_info_summarise :
    summaries.map SegmentSummary.info = listSegments dir (deriveBaseStem fileName) := by
  rw [summariseNamedSegments] at h
  generalize listSegments dir (deriveBaseStem fileName) = segments at h
  induction segments generalizing summaries with
  | nil =>
    cases h
    rfl
  | cons segment segments ih =>
    rw [mapM_cons] at h
    obtain ⟨summary, hsummary, h⟩ := Except.bind_eq_ok_iff.mp h
    obtain ⟨rest, hrest, h⟩ := Except.bind_eq_ok_iff.mp h
    cases h
    rw [map_cons, info_summariseSegment hsummary, ih hrest]

theorem map_path_summarise :
    summaries.map SegmentSummary.path = (listSegments dir (deriveBaseStem fileName)).map
        SegmentInfo.path := by
  rw [← map_info_summarise h, map_map]
  rfl

theorem summarise_sorted :
    summaries.Pairwise fun a b => a.id ≤ b.id := by
  have hsorted := listSegments_sorted dir (deriveBaseStem fileName)
  rw [← map_info_summarise h, pairwise_map] at hsorted
  exact hsorted

theorem pruneSelection_bytes :
    pruneSelection x dir fileName none (some limit) = .ok (removedByBytes limit summaries) := by
  have hrun : pruneSelection x dir fileName none (some limit) = if summaries.length ≤ 1 then .ok []
        else .ok (removedByBytes limit summaries) := by
    unfold pruneSelection
    rw [h]
    rfl
  rw [hrun]
  split
  · rename_i hone
    match summaries, hone with
    | [], _ => rfl
    | [summary], _ => rfl
  · rfl

theorem prune_bytes_dry :
    pruneNamedSegments x fileName none (some limit) true dir
      = .ok (removedByBytes limit summaries) dir := by
  rw [pruneNamedSegments, EStateM.get_bind, pruneSelection_bytes h]
  rfl

theorem prune_bytes_wet {dir' : Directory}
    (hremove : removeFiles (removedByBytes limit summaries) dir = .ok () dir') :
    pruneNamedSegments x fileName none (some limit) false dir
      = .ok (removedByBytes limit summaries) dir' := by
  rw [pruneNamedSegments, EStateM.get_bind, pruneSelection_bytes h]
  exact EStateM.bind_of_ok hremove

end Summaries

def PrunesWithin (x : External) (dir : Directory) (fileName : Text) (limit : UInt64) : Prop :=
  ∃ removed kept, summariseNamedSegments x dir fileName = .ok (removed ++ kept)
    ∧ ((removed ++ kept).Pairwise fun a b => a.id ≤ b.id) ∧ (removed ++ kept ≠ [] → kept ≠ [])
    ∧ (totalBytes kept ≤ limit.toNat ∨ kept.length ≤ 1)
    ∧ pruneNamedSegments x fileName none (some limit) true dir
      = .ok (removed.map SegmentSummary.path) dir
    ∧ pruneNamedSegments x fileName none (some limit) false dir
      = .ok (removed.map SegmentSummary.path) (dir.without (removed.map SegmentSummary.path))

theorem PrunesWithin.not_oversteps (h : PrunesWithin x dir fileName limit)
    (hsummaries : summariseNamedSegments x dir fileName = .ok summaries) :
    ¬ Oversteps limit summaries := by
  obtain ⟨removed, kept, hlist, -, -, hwithin, hdry, -⟩ := h
  have heq : summaries = removed ++ kept := Except.ok.inj (hsummaries.symm.trans hlist)
  obtain ⟨removed', kept', hsplit, hpaths⟩ := removedByBytes_eq limit summaries
  rw [prune_bytes_dry hsummaries, hpaths] at hdry
  have hlength : removed'.length = removed.length := by
    have hmap : removed'.map SegmentSummary.path = removed.map SegmentSummary.path := by
      injection hdry
    simpa using congrArg List.length hmap
  have hsame := append_inj (hsplit.split.symm.trans heq) hlength
  rw [← hsame.2] at hwithin
  exact hsplit.within_iff.mp hwithin

/-- Pruning by bytes stops within the limit iff nothing `Oversteps`. -/
theorem prune_bytes_iff (x : External) (dir : Directory) (fileName : Text) (limit : UInt64) :
    PrunesWithin x dir fileName limit
      ↔ ∃ summaries, summariseNamedSegments x dir fileName = .ok summaries
        ∧ ¬ Oversteps limit summaries := by
  constructor
  · intro h
    obtain ⟨removed, kept, hlist, -⟩ := id h
    exact ⟨_, hlist, h.not_oversteps hlist⟩
  · rintro ⟨summaries, hsummaries, hnone⟩
    obtain ⟨removed, kept, hsplit, hpaths⟩ := removedByBytes_eq limit summaries
    have hlisted := map_path_summarise hsummaries
    have hnodup := nodup_listSegments dir (deriveBaseStem fileName)
    have hfront : removed.map SegmentSummary.path <+: summaries.map SegmentSummary.path := by
      rw [hsplit.split, map_append]
      exact prefix_append _ _
    rw [hlisted] at hfront
    have hremove : removeFiles (removedByBytes limit summaries) dir
        = .ok () (dir.without (removed.map SegmentSummary.path)) := by
      rw [hpaths]
      refine removeFiles_eq (hnodup.sublist hfront.sublist) ?_
      intro path hpath
      obtain ⟨segment, hsegment, rfl⟩ := mem_map.mp (hfront.subset hpath)
      exact (mem_listSegments.mp hsegment).1
    have hdry := @prune_bytes_dry limit _ _ _ _ hsummaries
    have hwet := prune_bytes_wet hsummaries hremove
    rw [hpaths] at hdry hwet
    have hwithin := hsplit.within_iff.mpr hnone
    have hnewest := hsplit.newest
    have hsorted := summarise_sorted hsummaries
    rw [hsplit.split] at hsummaries hsorted hnewest
    exact ⟨removed, kept, hsummaries, hsorted, hnewest, hwithin, hdry, hwet⟩

open FileSpool Reference

def tenBytes : Bytes := List.replicate 10 0

theorem summariseSegment_tenBytes {segment : SegmentInfo}
    (h : (threeFiles tenBytes).get? segment.path = some tenBytes) :
    summariseSegment external (threeFiles tenBytes) segment
      = .ok ⟨segment.id, segment.path, 10, 0, none, none⟩ := by
  have hrecords : contentRecords external tenBytes = [] := by decide +kernel
  have hrange := forSegment_eq h (show CountersFit external .default tenBytes by decide +kernel)
    SeqRange.add {}
  have hlen : (threeFiles tenBytes).len segment.path = .ok 10 := by
    rw [Directory.len, h]
    rfl
  rw [hrecords] at hrange
  rw [summariseSegment, hrange, Except.ok_bind, hlen]
  rfl

theorem prune_bytes_over_limit : ¬ PrunesWithin external (threeFiles tenBytes) "logs.logjet".toList
      15 := by
  intro h
  have hlist : listSegments (threeFiles tenBytes) (deriveBaseStem "logs.logjet".toList)
        = closedTwo ++ [activeThird] := by decide +kernel
  have hsummaries : summariseNamedSegments external (threeFiles tenBytes) "logs.logjet".toList
        = .ok [⟨0, "logs.logjet".toList, 10, 0, none, none⟩,
          ⟨1, "logs-1.logjet".toList, 10, 0, none, none⟩,
          ⟨2, "logs-2.logjet".toList, 10, 0, none, none⟩] := by
    rw [summariseNamedSegments, hlist, closedTwo, activeThird,
      cons_append, cons_append, nil_append, mapM_cons, mapM_cons, mapM_cons, mapM_nil,
      summariseSegment_tenBytes rfl, summariseSegment_tenBytes rfl, summariseSegment_tenBytes rfl]
    rfl
  refine h.not_oversteps hsummaries ⟨[⟨0, "logs.logjet".toList, 10, 0, none,
    none⟩], _, _, rfl, cons_ne_nil _ _, ?_, ?_⟩
  · rw [totalBytes_cons]
    decide
  · rw [totalBytes_cons, totalBytes_cons]
    decide

end Logjet
