/-
What `enforce_retention` removes: the oldest segments, as few as needed, and
never the active one.
-/
import Mathlib.Algebra.Order.BigOperators.Group.List
import Mathlib.Algebra.Order.Group.Nat
import Logjet.Spool.Proofs.Removal

namespace Logjet

open List UInt64

def takenOff (excess : Nat) : List Nat → Nat
  | [] => 0
  | size :: sizes => if excess = 0 then 0 else takenOff (excess - size) sizes + 1

theorem takenOff_le_length (excess : Nat) (sizes : List Nat) :
    takenOff excess sizes ≤ sizes.length := by
  induction sizes generalizing excess with
  | nil => exact Nat.le_refl 0
  | cons size sizes ih =>
    unfold takenOff
    split
    · exact Nat.zero_le _
    · exact Nat.succ_le_succ (ih _)

variable {excess : Nat} {sizes : List Nat}

theorem lt_of_lt_takenOff {j : Nat}
    (hj : j < takenOff excess sizes) : (sizes.take j).sum < excess := by
  induction sizes generalizing excess j with
  | nil => exact absurd hj (Nat.not_lt_zero _)
  | cons size sizes ih =>
    unfold takenOff at hj
    split at hj
    · exact absurd hj (Nat.not_lt_zero _)
    · cases j with
      | zero =>
        rw [take_zero, sum_nil]
        omega
      | succ j =>
        have hrest := ih (Nat.lt_of_succ_lt_succ hj)
        rw [take_succ_cons, sum_cons]
        omega

theorem le_of_takenOff_lt (h : takenOff excess sizes < sizes.length) :
    excess ≤ (sizes.take (takenOff excess sizes)).sum := by
  induction sizes generalizing excess with
  | nil => exact absurd h (Nat.not_lt_zero _)
  | cons size sizes ih =>
    unfold takenOff at h ⊢
    split
    · rename_i hzero
      omega
    · rename_i hne
      rw [if_neg hne] at h
      have hrest := ih (Nat.lt_of_succ_lt_succ h)
      rw [take_succ_cons, sum_cons]
      omega

namespace FileSpool

variable {sp : FileSpool} {front : List SegmentInfo} {active : SegmentInfo}

theorem removeFile_eq {path : Text} (h : sp.dir.has path = true) :
    removeFile path sp = .ok () (sp.withDir (sp.dir.erase path)) := by
  unfold removeFile
  rw [EStateM.get_bind, Directory.removeFile_eq h]
  rfl

theorem toNat_saturatingSub (a b : UInt64) :
    (if b ≤ a then a - b else 0).toNat = a.toNat - b.toNat := by
  split
  · rename_i hle
    rw [UInt64.toNat_sub_of_le _ _ hle]
  · rename_i hlt
    rw [UInt64.le_iff_toNat_le] at hlt
    rw [UInt64.toNat_zero]
    omega

theorem retentionLoop_spec (excess : UInt64) (hnodup : (front.map SegmentInfo.path).Nodup)
    (hhas : ∀ s ∈ front, sp.dir.has s.path = true ∧ sp.dir.size s.path < 2 ^ 64)
    (hids : ∀ s ∈ front, s.id ≠ sp.activeSegmentId) (hactive : active.id = sp.activeSegmentId) :
    retentionLoop excess (front ++ [active]) sp = .ok () (sp.withDir (sp.dir.without
          ((front.take (takenOff excess.toNat (front.map fun s => sp.dir.size s.path))).map
              SegmentInfo.path))) := by
  induction front generalizing sp excess with
  | nil =>
    have hstop : (excess = 0 || active.id = sp.activeSegmentId) = true := by simp [hactive]
    rw [nil_append, retentionLoop, EStateM.get_bind, if_pos hstop]
    rfl
  | cons s front ih =>
    have hid := hids s mem_cons_self
    obtain ⟨hs, hsize⟩ := hhas s mem_cons_self
    rw [cons_append, retentionLoop, EStateM.get_bind, map_cons, takenOff]
    by_cases hzero : excess = 0
    · have hnone : excess.toNat = 0 := by rw [hzero]; rfl
      rw [if_pos (by simp [hzero]), if_pos hnone]
      rfl
    · have hsome : excess.toNat ≠ 0 := fun heq => hzero (UInt64.toNat_inj.mp heq)
      obtain ⟨hfresh, hnodup'⟩ := nodup_cons.mp hnodup
      have hne : ∀ t ∈ front, t.path ≠ s.path := fun t ht heq => hfresh (heq ▸ mem_map_of_mem ht)
      have hsizes : (front.map fun t => (sp.dir.erase s.path).size t.path)
          = front.map fun t => sp.dir.size t.path :=
        map_congr_left fun t ht => Directory.size_erase_of_ne (hne t ht)
      have hhas' : ∀ t ∈ front, (sp.dir.erase s.path).has t.path = true
            ∧ (sp.dir.erase s.path).size t.path < 2 ^ 64 := by
        intro t ht
        rw [Directory.has_erase_of_ne (hne t ht), Directory.size_erase_of_ne (hne t ht)]
        exact hhas t (mem_cons_of_mem _ ht)
      have hrest := @ih (sp.withDir (sp.dir.erase s.path))
        (if UInt64.ofNat (sp.dir.size s.path) ≤ excess then
          excess - UInt64.ofNat (sp.dir.size s.path) else 0) hnodup' hhas'
        (fun t ht => hids t (mem_cons_of_mem _ ht)) hactive
      have hleft : (if UInt64.ofNat (sp.dir.size s.path) ≤ excess then
          excess - UInt64.ofNat (sp.dir.size s.path) else 0).toNat
            = excess.toNat - sp.dir.size s.path := by
        rw [toNat_saturatingSub, toNat_ofNat_of_lt' hsize]
      have hdir : (sp.withDir (sp.dir.erase s.path)).dir = sp.dir.erase s.path := rfl
      rw [hleft, hdir, hsizes] at hrest
      rw [if_neg (by simp [hzero, hid]), if_neg hsome,
        Directory.len_eq hs, take_succ_cons, map_cons]
      exact (EStateM.bind_of_ok (removeFile_eq hs)).trans hrest

variable {d : Directory} {segments : List SegmentInfo} {j : Nat} {content : Bytes} {limit : UInt64}

theorem toNat_sum_len (hhas : ∀ s ∈ segments, d.has s.path = true) :
    (segments.filterMap fun s => (d.len s.path).toOption).sum.toNat
      = segmentsSize d segments % 2 ^ 64 := by
  induction segments with
  | nil => rfl
  | cons s segments ih =>
    have hcons : segmentsSize d (s :: segments) = d.size s.path + segmentsSize d segments := by
      rfl
    have hrest := ih fun t ht => hhas t (mem_cons_of_mem _ ht)
    have hlen : (d.len s.path).toOption = some (UInt64.ofNat (d.size s.path)) := by
      rw [Directory.len_eq (hhas s mem_cons_self)]
      rfl
    rw [filterMap_cons, hlen]
    rw [sum_cons, UInt64.toNat_add, hrest, UInt64.toNat_ofNat', hcons, ← Nat.add_mod]

theorem segmentsSize_drop_add (d : Directory) {j : Nat} (hj : j ≤ front.length) :
    segmentsSize d ((front ++ [active]).drop j) + segmentsSize d (front.take j)
      = segmentsSize d (front ++ [active]) := by
  have hsplit : front ++ [active] = front.take j ++ (front ++ [active]).drop j := by
    rw [← take_append_of_le_length hj, take_append_drop]
  conv => rhs; rw [hsplit]
  unfold segmentsSize
  rw [map_append, sum_append, Nat.add_comm]

theorem sum_take_sizes (d : Directory) (segments : List SegmentInfo) (j : Nat) :
    ((segments.map fun s => d.size s.path).take j).sum = segmentsSize d (segments.take j) := by
  rw [segmentsSize, map_take]

theorem segmentsSize_take_succ_le (hlen : ∀ s ∈ segments, d.size s.path ≤ File.maxLen) (j : Nat) :
    segmentsSize d (segments.take (j + 1)) ≤ segmentsSize d (segments.take j) + File.maxLen := by
  rw [take_add_one]
  unfold segmentsSize
  rw [map_append, sum_append]
  cases hget : segments[j]? with
  | none => exact Nat.add_le_add_left (Nat.zero_le _) _
  | some s =>
    have hs := hlen s (mem_of_getElem? hget)
    simpa using hs

def removedCount (sp : FileSpool) (front : List SegmentInfo) (active : SegmentInfo) : Nat :=
  takenOff (segmentsSize sp.dir (front ++ [active]) % 2 ^ 64
    - sp.maxTotalBytes.toNat) (front.map fun s => sp.dir.size s.path)

theorem removedCount_le : removedCount sp front active ≤ front.length := by
  have hle := takenOff_le_length (segmentsSize sp.dir (front ++ [active])
    % 2 ^ 64 - sp.maxTotalBytes.toNat) (front.map fun s => sp.dir.size s.path)
  rw [length_map] at hle
  exact hle

theorem lt_of_lt_removedCount (hj : j < removedCount sp front active) :
    sp.maxTotalBytes.toNat + segmentsSize sp.dir (front.take j)
      < segmentsSize sp.dir (front ++ [active]) % 2 ^ 64 := by
  have hless := lt_of_lt_takenOff hj
  rw [sum_take_sizes] at hless
  omega

theorem le_of_removedCount_lt (h : removedCount sp front active < front.length) :
    segmentsSize sp.dir (front ++ [active]) % 2 ^ 64 ≤ sp.maxTotalBytes.toNat
        + segmentsSize sp.dir (front.take (removedCount sp front active)) := by
  have hmore := le_of_takenOff_lt (by rw [length_map]; exact h)
  rw [sum_take_sizes] at hmore
  exact Nat.sub_le_iff_le_add'.mp hmore

theorem has_of_listed (hlist : listSegments sp.dir sp.baseStem = front ++ [active])
    {s : SegmentInfo} (hs : s ∈ front ++ [active]) : sp.dir.has s.path = true := by
  rw [← hlist] at hs
  exact (mem_listSegments.mp hs).1

theorem nodup_closed (hlist : listSegments sp.dir sp.baseStem = front ++ [active]) :
    (front.map SegmentInfo.path).Nodup ∧ active.path ∉ front.map SegmentInfo.path := by
  have hnodup := nodup_listSegments sp.dir sp.baseStem
  rw [hlist, map_append, nodup_append] at hnodup
  exact ⟨hnodup.1, fun hmem => hnodup.2.2 _ hmem active.path mem_cons_self rfl⟩

theorem enforceRetention_eq (hmax : 0 < sp.maxTotalBytes)
    (hlist : listSegments sp.dir sp.baseStem = front ++ [active])
    (hactive : active.id = sp.activeSegmentId) (hlast : ∀ s ∈ front, s.id < active.id)
    (hlen : ∀ s ∈ front, sp.dir.size s.path ≤ File.maxLen) :
    enforceRetention sp = .ok () (sp.withDir (sp.dir.without
      ((front.take (removedCount sp front active)).map SegmentInfo.path))) := by
  have htotal := toNat_sum_len fun s hs => has_of_listed hlist hs
  have hne : sp.maxTotalBytes ≠ 0 := (UInt64.ne_of_lt hmax).symm
  rw [enforceRetention, EStateM.get_bind, if_neg hne, hlist]
  by_cases hwithin : (List.filterMap (fun segment =>
      (sp.dir.len segment.path).toOption) (front ++ [active])).sum ≤ sp.maxTotalBytes
  · rw [if_pos hwithin]
    rw [le_iff_toNat_le, htotal] at hwithin
    have hnone : removedCount sp front active = 0 := by
      by_contra hsome
      have hless := lt_of_lt_removedCount (Nat.pos_of_ne_zero hsome)
      omega
    rw [hnone]
    rfl
  · rw [if_neg hwithin]
    have hsizes : ∀ s ∈ front, sp.dir.has s.path = true ∧ sp.dir.size s.path < 2 ^ 64 := by
      intro s hs
      have hle := hlen s hs
      unfold File.maxLen at hle
      exact ⟨has_of_listed hlist (mem_append_left _ hs), by omega⟩
    have hids : ∀ s ∈ front, s.id ≠ sp.activeSegmentId := fun s hs =>
      hactive ▸ UInt64.ne_of_lt (hlast s hs)
    have hloop := retentionLoop_spec ((List.filterMap (fun segment =>
      (sp.dir.len segment.path).toOption) (front ++ [active])).sum
        - sp.maxTotalBytes) (nodup_closed hlist).1 hsizes hids hactive
    rw [UInt64.toNat_sub_of_le _ _ (UInt64.le_of_lt (UInt64.not_le.mp hwithin)), htotal] at hloop
    exact hloop

def RemovesShortest (sp : FileSpool) (front : List SegmentInfo) (active : SegmentInfo) : Prop :=
  ∃ k ≤ front.length, enforceRetention sp = .ok () (sp.withDir (sp.dir.without
      ((front.take k).map SegmentInfo.path))) ∧ active.path ∉ (front.take k).map SegmentInfo.path
    ∧ (∀ j < k, sp.maxTotalBytes.toNat < segmentsSize sp.dir ((front ++ [active]).drop j))
    ∧ (segmentsSize sp.dir ((front ++ [active]).drop k) ≤ sp.maxTotalBytes.toNat ∨ k = front.length)

theorem not_lt_of_without_eq {paths : List Text} {i : Nat}
    (hnodup : paths.Nodup) (hhas : ∀ path ∈ paths, d.has path = true) (hj : j ≤ paths.length)
    (h : d.without (paths.take i) = d.without (paths.take j)) : ¬ i < j := by
  intro hlt
  have hi : i < paths.length := by omega
  have hin : paths[i] ∈ paths.take j := mem_take_iff_getElem.mpr ⟨i, by omega, rfl⟩
  have hout : paths[i] ∉ paths.take i := by
    intro hmem
    obtain ⟨k, hk, heq⟩ := mem_take_iff_getElem.mp hmem
    have hsame := hnodup.getElem_inj_iff.mp heq
    omega
  have hget := congrArg (fun d => d.get? paths[i]) h
  simp only [Directory.get?_without, if_neg hout, if_pos hin] at hget
  have hsome := hhas paths[i] (getElem_mem hi)
  rw [Directory.has, hget] at hsome
  cases hsome

theorem RemovesShortest.count (hmax : 0 < sp.maxTotalBytes)
    (hlist : listSegments sp.dir sp.baseStem = front ++ [active])
    (hactive : active.id = sp.activeSegmentId) (hlast : ∀ s ∈ front, s.id < active.id)
    (hlen : ∀ s ∈ front, sp.dir.size s.path ≤ File.maxLen) {k : Nat} (hk : k ≤ front.length)
    (hrun : enforceRetention sp = .ok () (sp.withDir (sp.dir.without
      ((front.take k).map SegmentInfo.path)))) : k = removedCount sp front active := by
  have hcount := @removedCount_le sp front active
  rw [enforceRetention_eq hmax hlist hactive hlast hlen] at hrun
  have hdirs : sp.dir.without ((front.take (removedCount sp front active)).map SegmentInfo.path)
        = sp.dir.without ((front.take k).map SegmentInfo.path) := by
    injection hrun with _ hsp
    exact congrArg FileSpool.dir hsp
  rw [map_take, map_take] at hdirs
  have hhas : ∀ path ∈ front.map SegmentInfo.path, sp.dir.has path = true := by
    intro path hpath
    obtain ⟨s, hs, rfl⟩ := mem_map.mp hpath
    exact has_of_listed hlist (mem_append_left _ hs)
  obtain ⟨hnodup, -⟩ := nodup_closed hlist
  have hmore := not_lt_of_without_eq hnodup hhas (by rw [length_map]; exact hk) hdirs
  have hless := not_lt_of_without_eq hnodup hhas (by rw [length_map]; exact hcount) hdirs.symm
  omega

def AsksForAll (sp : FileSpool) (front : List SegmentInfo) (active : SegmentInfo) : Prop :=
  ∀ j < front.length, sp.maxTotalBytes.toNat + segmentsSize sp.dir (front.take j)
      < segmentsSize sp.dir (front ++ [active]) % 2 ^ 64

/-- Retention removes no more than it must, but for overflow. -/
theorem retention_shortest_iff (hmax : 0 < sp.maxTotalBytes)
    (hlist : listSegments sp.dir sp.baseStem = front ++ [active])
    (hactive : active.id = sp.activeSegmentId) (hlast : ∀ s ∈ front, s.id < active.id)
    (hlen : ∀ s ∈ front, sp.dir.size s.path ≤ File.maxLen) : RemovesShortest sp front active
      ↔ segmentsSize sp.dir (front ++ [active]) < 2 ^ 64 ∨ AsksForAll sp front active := by
  have hlimit := sp.maxTotalBytes.toNat_lt
  constructor
  · rintro ⟨k, hk, hrun, -, -, hleft⟩
    have hcount := RemovesShortest.count hmax hlist hactive hlast hlen hk hrun
    refine or_iff_not_imp_left.mpr fun hwraps => ?_
    rcases hleft with hwithin | hall
    · have hsum := @segmentsSize_drop_add front active sp.dir k hk
      cases k with
      | zero =>
        rw [take_zero, drop_zero] at *
        omega
      | succ i =>
        have hless := lt_of_lt_removedCount (show i < removedCount sp front active by omega)
        have hnext := segmentsSize_take_succ_le hlen i
        unfold File.maxLen at hnext
        omega
    · intro j hj
      exact lt_of_lt_removedCount (by omega)
  · intro hwhen
    have hcount := @removedCount_le sp front active
    refine ⟨removedCount sp front active, hcount,
      enforceRetention_eq hmax hlist hactive hlast hlen, ?_, ?_, ?_⟩
    · intro hmem
      have hfront := (take_sublist (removedCount sp front active) front).map SegmentInfo.path
      exact (nodup_closed hlist).2 (hfront.subset hmem)
    · intro j hj
      have hless := lt_of_lt_removedCount hj
      have hsum := @segmentsSize_drop_add front active sp.dir j (by omega)
      omega
    · rcases Nat.lt_or_eq_of_le hcount with hlt | heq
      · have hmore := le_of_removedCount_lt hlt
        have hsum := @segmentsSize_drop_add front active sp.dir _ hcount
        rcases hwhen with hfit | hall
        · exact Or.inl (by omega)
        · have hless := hall _ hlt
          omega
      · exact Or.inr heq

def threeFiles (content : Bytes) : Directory where
  files := [("logs.logjet".toList, content), ("logs-1.logjet".toList, content),
    ("logs-2.logjet".toList, content)]
  nodup := by
    show ["logs.logjet".toList, "logs-1.logjet".toList, "logs-2.logjet".toList].Nodup
    decide +kernel

def threeSegments (content : Bytes) (maxTotalBytes : UInt64) : FileSpool :=
  { baseStem := "logs".toList
    statePath := "logs.state".toList
    streamId := 1
    activeSegmentId := 2
    activeSegmentPath := "logs-2.logjet".toList
    activeWriter := LogjetWriter.withConfig
      (BufWriter.new ⟨threeFiles content, "logs-2.logjet".toList⟩)
      (segmentWriterConfig .none 0)
    activeSizeBytes := 0
    segmentTargetBytes := 1
    codec := .none
    blockAlignment := 0
    maxTotalBytes
    consumedThroughSeq := 0 }

def closedTwo : List SegmentInfo := [⟨0, "logs.logjet".toList⟩, ⟨1, "logs-1.logjet".toList⟩]

def activeThird : SegmentInfo := ⟨2, "logs-2.logjet".toList⟩

theorem listSegments_threeSegments (content : Bytes) (limit : UInt64) :
    listSegments (threeSegments content limit).dir (threeSegments content limit).baseStem
      = closedTwo ++ [activeThird] := by
  have hnames : (threeFiles content).files.map Prod.fst
      = ["logs.logjet".toList, "logs-1.logjet".toList, "logs-2.logjet".toList] := rfl
  show ((((threeFiles content).files.map Prod.fst).filterMap
    (segmentInfo "logs".toList)).insertionSort fun a b => a.id ≤ b.id) = _
  rw [hnames]
  decide +kernel

theorem segmentsSize_threeSegments (content : Bytes) (limit : UInt64)
    (h : segments ⊆ closedTwo ++ [activeThird]) :
    segmentsSize (threeSegments content limit).dir segments = segments.length * content.length := by
  have hsize : ∀ s ∈ segments, (threeSegments content limit).dir.size s.path = content.length := by
    intro s hs
    have hmem := h hs
    simp only [closedTwo, activeThird, cons_append, nil_append,
      mem_cons, not_mem_nil, or_false] at hmem
    rcases hmem with rfl | rfl | rfl
    · rfl
    · rfl
    · rfl
  rw [segmentsSize, map_congr_left hsize, map_const', sum_replicate]
  rfl

theorem retention_shortest_three :
    RemovesShortest (threeSegments (List.replicate 10 0) 20) closedTwo activeThird := by
  have hfit : segmentsSize (threeSegments (List.replicate 10 0) 20).dir
      (closedTwo ++ [activeThird]) < 2 ^ 64 := by
    decide
  have hlen : ∀ s ∈ closedTwo, (threeSegments (List.replicate 10 0) 20).dir.size
      s.path ≤ File.maxLen := by decide +kernel
  exact (retention_shortest_iff (by decide) (listSegments_threeSegments _ _)
    rfl (by decide) hlen).mpr (Or.inl hfit)

theorem enforceRetention_threeSegments (hne : limit ≠ 0)
    (hsum : [UInt64.ofNat content.length, UInt64.ofNat content.length,
      UInt64.ofNat content.length].sum ≤ limit) : enforceRetention (threeSegments content limit)
      = .ok () (threeSegments content limit) := by
  have hmax : (threeSegments content limit).maxTotalBytes ≠ 0 := hne
  rw [enforceRetention, EStateM.get_bind, if_neg hmax, listSegments_threeSegments]
  exact congrFun (if_pos hsum) _

theorem not_removesShortest_threeSegments (hne : limit ≠ 0)
    (hsum : [UInt64.ofNat content.length, UInt64.ofNat content.length,
      UInt64.ofNat content.length].sum ≤ limit) (hover : limit.toNat < 3 * content.length) :
    ¬ RemovesShortest (threeSegments content limit) closedTwo activeThird := by
  rintro ⟨k, -, hrun, -, -, hleft⟩
  rw [enforceRetention_threeSegments hne hsum] at hrun
  cases k with
  | zero =>
    rcases hleft with hwithin | hall
    · rw [drop_zero, segmentsSize_threeSegments _ _ (List.Subset.refl _)] at hwithin
      exact absurd hwithin (Nat.not_le_of_lt hover)
    · cases hall
  | succ k =>
    have hdir := congrArg (fun r : EStateM.Result IoError FileSpool Unit =>
      match r with
      | .ok _ sp => sp.dir.get? "logs.logjet".toList
      | .error _ _ => none) hrun
    have hgone : ((threeSegments content limit).dir.without
        ((closedTwo.take (k + 1)).map SegmentInfo.path)).get? "logs.logjet".toList = none := by
      rw [Directory.get?_without, if_pos]
      exact mem_cons_self
    exact absurd (hdir.trans hgone) (Option.some_ne_none content)

theorem retention_wraps : ¬ RemovesShortest (threeSegments (List.replicate File.maxLen 0)
      (2 ^ 63)) closedTwo activeThird := by
  have hne : (2 ^ 63 : UInt64) ≠ 0 := by decide +kernel
  apply not_removesShortest_threeSegments hne
  · rw [length_replicate]
    decide +kernel
  · rw [length_replicate]
    decide +kernel

end FileSpool

end Logjet
