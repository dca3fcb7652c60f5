/-
What the reading methods of the spool return: a loop over a legible file is a
fold over the records of its blocks (`forRecords_of_yields`).
-/
import Logjet.Proofs.Layout
import Logjet.Spool.Proofs.Disk
import Logjet.Spool.Run

namespace Logjet

open List

variable {x : External}

def foldSteps {α β : Type} (body : α → β → ForInStep β) : β → List α → β
  | acc, [] => acc
  | acc, a :: as =>
    match body a acc with
    | .done acc => acc
    | .yield acc => foldSteps body acc as

theorem forRecords_of_yields {β : Type} {r r' : LogjetReader}
    {records : List OwnedRecord} (h : Yields x r records r')
    (body : OwnedRecord → β → ForInStep β) (acc : β) :
    forRecords x body acc r = .ok (foldSteps body acc records) := by
  induction h generalizing acc with
  | done hnext =>
    rw [forRecords]
    split
    · rename_i heq
      rw [hnext] at heq
      cases heq
    · rfl
    · rename_i heq
      rw [hnext] at heq
      cases heq
  | more hnext tail ih =>
    rename_i record records
    rw [forRecords]
    split
    · rename_i heq
      rw [hnext] at heq
      cases heq
    · rename_i heq
      rw [hnext] at heq
      cases heq
    · rename_i heq
      rw [hnext] at heq
      cases heq
      rw [foldSteps]
      cases body record acc with
      | done acc' => rfl
      | yield acc' => exact ih acc'

def contentRecords (x : External) (content : Bytes) : List OwnedRecord :=
  scanRecords x .default content 0

theorem forSegment_eq {β : Type} {d : Directory} {path : Text}
    {content : Bytes} (hget : d.get? path = some content) (hfit : CountersFit x .default content)
    (body : OwnedRecord → β → ForInStep β) (acc : β) : forSegment x d path body acc
      = .ok (foldSteps body acc (contentRecords x content)) := by
  obtain ⟨r', hy, -⟩ := yields_scanRecords (show Syncable ReaderConfig.default.syncMarker from
      defaultSyncMarker_syncable) hfit
  have hread : d.read path = .ok content := by
    rw [Directory.read, hget]
    rfl
  rw [forSegment, hread, Except.ok_bind]
  simp only
  rw [forRecords_of_yields hy]
  rfl

theorem foldSteps_last (records : List OwnedRecord) (acc : Option UInt64) :
    foldSteps (fun record _ => .yield (some record.seq)) acc records
      = (records.getLast?.map OwnedRecord.seq).or acc := by
  induction records generalizing acc with
  | nil => rfl
  | cons r records ih =>
    rw [foldSteps]
    simp only [ih]
    cases hlast : records.getLast? with
    | none => simp [getLast?_cons, hlast]
    | some last => simp [getLast?_cons, hlast]

variable {d : Directory} {path : Text} {content : Bytes} {a b c floor : UInt64}
  {files : List SegmentRecords}

theorem segmentMaxSeq_eq
    (hget : d.get? path = some content) (hfit : CountersFit x .default content) :
    segmentMaxSeq x d path = .ok ((contentRecords x content).getLast?.map OwnedRecord.seq) := by
  rw [segmentMaxSeq, forSegment_eq hget hfit, foldSteps_last, Option.or_none]

theorem foldSteps_find (records : List OwnedRecord) (floor : UInt64) :
    foldSteps (fun record _ => if record.seq ≤ floor then .yield none
        else .done (some record)) none records = records.find? fun r => floor < r.seq := by
  induction records with
  | nil => rfl
  | cons r records ih =>
    rw [foldSteps]
    by_cases hle : r.seq ≤ floor
    · rw [if_pos hle, find?_cons_of_neg]
      · exact ih
      · simpa using hle
    · rw [if_neg hle, find?_cons_of_pos]
      simpa using hle

theorem segmentFirstAbove_eq (hget : d.get? path = some content)
    (hfit : CountersFit x .default content) (floor : UInt64) : segmentFirstAbove x d path floor
      = .ok ((contentRecords x content).find? fun r => floor < r.seq) := by
  rw [segmentFirstAbove, forSegment_eq hget hfit, foldSteps_find]

abbrev SegmentRecords := UInt64 × List OwnedRecord

def Segment.read (x : External) (s : Segment) : SegmentRecords := (s.id, contentRecords x s.content)

theorem legible_iff {stem : Text} {segs : List Segment} (hd : d.Holds stem segs) :
    Legible x d stem ↔ ∀ s ∈ segs, CountersFit x .default s.content := by
  constructor
  · intro h s hs
    apply h (s.info stem)
    · rw [hd.listSegments]
      exact mem_map_of_mem hs
    · exact hd.get hs
  · intro h info hinfo content hget
    rw [hd.listSegments] at hinfo
    obtain ⟨s, hs, rfl⟩ := mem_map.mp hinfo
    rw [show d.get? (s.info stem).path = _ from hd.get hs] at hget
    cases hget
    exact h s hs

theorem countersFit_nil (x : External) : CountersFit x .default [] := by
  have hend : ∀ w, scanTally x .default [] w 0 = 0 := fun w => Greedy.tally_end w (Nat.le_refl _)
  refine ⟨by decide, ?_, ?_, ?_⟩
  · rw [show scanRecords x .default [] 0 = [] from
      Greedy.records_end (Nat.le_refl _)]
    decide
  · rw [hend]
    decide
  · rw [hend]
    decide

def nextIn (floor : UInt64) : List SegmentRecords → FileReplayCursor →
      Option OwnedRecord × FileReplayCursor
  | [], c => (none, c)
  | (id, records) :: files, c =>
    if id < c.nextSegmentIdHint then nextIn floor files c
    else
      match records.find? fun r => floor < r.seq with
      | some r => (some r, { nextSegmentIdHint := id, lastSeq := r.seq })
      | none => nextIn floor files { c with nextSegmentIdHint := id }

namespace FileSpool

variable {segs : List Segment}

theorem nextInSegments_eq {d : Directory} {stem : Text} (floor : UInt64)
    (hget : ∀ s ∈ segs, d.get? (segmentPath stem s.id) = some s.content)
    (hfit : ∀ s ∈ segs, CountersFit x .default s.content) (c : FileReplayCursor) :
    nextInSegments x d floor (segs.map (Segment.info stem)) c
      = .ok (nextIn floor (segs.map (Segment.read x)) c).1
          (nextIn floor (segs.map (Segment.read x)) c).2 := by
  induction segs generalizing c with
  | nil => rfl
  | cons s segs ih =>
    have hrest := ih (fun t ht => hget t (by simp [ht])) (fun t ht => hfit t (by simp [ht]))
    have hfirst : segmentFirstAbove x d (s.info stem).path floor = _ :=
      segmentFirstAbove_eq (hget s (by simp)) (hfit s (by simp)) floor
    rw [map_cons, map_cons, nextInSegments, EStateM.get_bind, Segment.read, nextIn]
    by_cases hskip : s.id < c.nextSegmentIdHint
    · rw [if_pos hskip, if_pos (show (s.info stem).id < _ from hskip)]
      exact hrest c
    · rw [if_neg hskip, if_neg (show ¬ (s.info stem).id < _ from hskip),
        hfirst, EStateM.ofExcept_ok_bind]
      cases (contentRecords x s.content).find? fun r => floor < r.seq with
      | some r => rfl
      | none => exact hrest _

theorem nextForCursor_eq {sp : FileSpool} (hd : sp.dir.Holds sp.baseStem segs)
    (hlegible : Legible x sp.dir sp.baseStem) (c : FileReplayCursor) : nextForCursor x sp c
      = .ok (nextIn (max c.lastSeq sp.consumedThroughSeq) (segs.map (Segment.read x)) c).1
          (nextIn (max c.lastSeq sp.consumedThroughSeq) (segs.map (Segment.read x)) c).2 := by
  rw [nextForCursor, EStateM.get_bind, hd.listSegments]
  exact nextInSegments_eq _ (fun s hs => hd.get hs) ((legible_iff hd).mp hlegible) c

end FileSpool

theorem foldSteps_bounds (consumed : UInt64) (records : List OwnedRecord)
    (first last : Option UInt64) : foldSteps (FileSpool.boundsStep consumed) (first, last) records
      = (first.or ((records.filter (consumed < ·.seq)).head?.map (·.seq)),
        ((records.filter (consumed < ·.seq)).getLast?.map (·.seq)).or last) := by
  induction records generalizing first last with
  | nil => simp [foldSteps]
  | cons r records ih =>
    rw [foldSteps, FileSpool.boundsStep]
    by_cases hle : r.seq ≤ consumed
    · rw [if_pos hle]
      simp only
      rw [ih, filter_cons_of_neg (by simpa using hle)]
    · rw [if_neg hle]
      simp only
      rw [ih, filter_cons_of_pos (by simpa using hle)]
      simp only [head?_cons, Option.map_some, getLast?_cons]
      cases first <;>
        cases (records.filter (consumed < ·.seq)).getLast? <;> simp

namespace FileSpool

theorem foldlM_bounds {d : Directory} {stem : Text} (consumed : UInt64) {segs : List Segment}
    (hget : ∀ s ∈ segs, d.get? (segmentPath stem s.id) = some s.content)
    (hfit : ∀ s ∈ segs, CountersFit x .default s.content) (first last : Option UInt64) :
    let above :=
  ((segs.map (Segment.read x)).flatMap Prod.snd).filter (consumed < ·.seq)
    (segs.map (Segment.info stem)).foldlM (fun bounds segment =>
        forSegment x d segment.path (boundsStep consumed) bounds)
        (first, last)
      = .ok (first.or (above.head?.map (·.seq)), (above.getLast?.map (·.seq)).or last) := by
  induction segs generalizing first last with
  | nil => simp [pure, Except.pure]
  | cons s segs ih =>
    simp only [map_cons, foldlM_cons, flatMap_cons, filter_append, head?_append, getLast?_append]
    rw [@forSegment_eq _ _ _ (s.info stem).path _
      (hget s (mem_cons_self ..)) (hfit s (mem_cons_self ..)),
      Except.ok_bind, foldSteps_bounds, ih (fun t ht => hget t (mem_cons_of_mem _ ht))
        (fun t ht => hfit t (mem_cons_of_mem _ ht))]
    simp only [Segment.read, Option.map_or, Option.or_assoc]

theorem sequenceBounds_eq {sp : FileSpool} {segs : List Segment}
    (hd : sp.dir.Holds sp.baseStem segs)
    (hlegible : Legible x sp.dir sp.baseStem) {above : List OwnedRecord}
    (habove : ((segs.map (Segment.read x)).flatMap Prod.snd).filter
      (sp.consumedThroughSeq < ·.seq) = above) :
    sequenceBounds x sp = .ok (above.head?.bind fun first =>
      above.getLast?.map fun last => (first.seq, last.seq)) := by
  rw [sequenceBounds, hd.listSegments, foldlM_bounds _
    (fun s hs => hd.get hs) ((legible_iff hd).mp hlegible), Except.ok_bind,
    habove, Option.none_or, Option.or_none]
  cases above with
  | nil => rfl
  | cons r records =>
    rfl

end FileSpool

theorem max_lt_iff_seq : max a b < c ↔ a < c ∧ b < c := by
  show (if a ≤ b then b else a) < c ↔ _
  by_cases hle : a ≤ b
  · rw [if_pos hle]
    exact ⟨fun h => ⟨UInt64.lt_of_le_of_lt hle h, h⟩, fun h => h.2⟩
  · rw [if_neg hle]
    have hlt := UInt64.not_le.mp hle
    exact ⟨fun h => ⟨h, UInt64.lt_trans hlt h⟩, fun h => h.1⟩

theorem max_mono_seq (a : UInt64) (h : b ≤ c) : max a b ≤ max a c := by
  apply UInt64.not_lt.mp
  intro hlt
  obtain ⟨ha, hc⟩ := max_lt_iff_seq.mp hlt
  have hmax : max a b < max a b := max_lt_iff_seq.mpr ⟨ha, UInt64.lt_of_le_of_lt h hc⟩
  exact UInt64.lt_irrefl _ hmax

theorem max_eq_left_seq (h : b ≤ a) : max a b = a := by
  show (if a ≤ b then b else a) = a
  by_cases hle : a ≤ b
  · rw [if_pos hle]
    exact UInt64.le_antisymm h hle
  · rw [if_neg hle]

def Passed (files : List SegmentRecords) (hint floor : UInt64) : Prop :=
  ∀ f ∈ files, f.1 < hint → ∀ r ∈ f.2, r.seq ≤ floor

theorem Passed.mono {hint floor' : UInt64}
    (h : Passed files hint floor) (hle : floor ≤ floor') : Passed files hint floor' :=
  fun f hf hlt r hr => UInt64.le_trans (h f hf hlt r hr) hle

theorem nextIn_fst (hsorted : files.Pairwise fun a b => a.1 < b.1) {c : FileReplayCursor}
    (hpassed : Passed files c.nextSegmentIdHint floor) : (nextIn floor files c).1
      = (files.flatMap Prod.snd).find? fun r => floor < r.seq := by
  fun_induction nextIn floor files c with
  | case1 c => rfl
  | case2 id records files c hskip ih =>
    have hnone : records.find? (fun r => floor < r.seq) = none := by
      rw [find?_eq_none]
      intro r hr
      simpa using hpassed (id, records) (by simp) hskip r hr
    rw [flatMap_cons, find?_append, hnone, Option.none_or]
    exact ih hsorted.tail fun f hf => hpassed f (by simp [hf])
  | case3 id records files c hskip r hfind => rw [flatMap_cons, find?_append, hfind, Option.some_or]
  | case4 id records files c hskip hfind ih =>
    rw [flatMap_cons, find?_append, hfind, Option.none_or]
    exact ih hsorted.tail fun f hf hlt =>
      absurd hlt (UInt64.lt_asymm ((pairwise_cons.mp hsorted).1 f hf))

theorem nextIn_lastSeq (floor : UInt64) (files : List SegmentRecords) (c : FileReplayCursor) :
    (nextIn floor files c).2.lastSeq
      = ((nextIn floor files c).1.map OwnedRecord.seq).getD c.lastSeq := by
  fun_induction nextIn floor files c with
  | case1 c => rfl
  | case2 id records files c hskip ih => exact ih
  | case3 id records files c hskip r hfind => rfl
  | case4 id records files c hskip hfind ih => exact ih

theorem nextIn_hint (floor : UInt64) (files : List SegmentRecords) (c : FileReplayCursor) :
    (nextIn floor files c).2.nextSegmentIdHint = c.nextSegmentIdHint
      ∨ ∃ f ∈ files, (nextIn floor files c).2.nextSegmentIdHint = f.1 := by
  fun_induction nextIn floor files c with
  | case1 c => exact Or.inl rfl
  | case2 id records files c hskip ih =>
    exact ih.imp_right exists_mem_cons_of_exists
  | case3 id records files c hskip r hfind => exact Or.inr ⟨(id, records), mem_cons_self, rfl⟩
  | case4 id records files c hskip hfind ih =>
    rcases ih with h | h
    · exact Or.inr ⟨(id, records), mem_cons_self, h⟩
    · exact Or.inr (exists_mem_cons_of_exists h)

theorem nextIn_passed (hsorted : files.Pairwise fun a b => a.1 < b.1) {c : FileReplayCursor}
    (hpassed : Passed files c.nextSegmentIdHint floor) :
    Passed files (nextIn floor files c).2.nextSegmentIdHint floor := by
  fun_induction nextIn floor files c with
  | case1 c => exact hpassed
  | case2 id records files c hskip ih =>
    obtain ⟨hhead, htail⟩ := forall_mem_cons.mp hpassed
    exact forall_mem_cons.mpr ⟨fun _ => hhead hskip, ih hsorted.tail htail⟩
  | case3 id records files c hskip r hfind =>
    obtain ⟨hlater, -⟩ := pairwise_cons.mp hsorted
    refine forall_mem_cons.mpr ⟨fun hlt => absurd hlt (UInt64.lt_irrefl _), fun f hf hlt => ?_⟩
    exact absurd hlt (UInt64.lt_asymm (hlater f hf))
  | case4 id records files c hskip hfind ih =>
    obtain ⟨hlater, htail⟩ := pairwise_cons.mp hsorted
    refine forall_mem_cons.mpr ⟨fun _ r hr => ?_, ih htail fun f hf hlt => ?_⟩
    · simpa using find?_eq_none.mp hfind r hr
    · exact absurd hlt (UInt64.lt_asymm (hlater f hf))

end Logjet
