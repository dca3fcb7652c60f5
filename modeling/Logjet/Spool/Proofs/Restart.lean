/-
Starting a file spool again after a crash. With any content in the segments
this fails in four ways only (`restart_iff`).
-/
import Logjet.Spool.Crash
import Logjet.Spool.Proofs.Frame
import Logjet.Spool.Proofs.Seed

namespace Logjet

open List Except

open EStateM (Ends)
open Reference

variable {x : External}

def Directory.segments (d : Directory) (stem : Text) : List Segment :=
  (listSegments d stem).map fun info => ⟨info.id, (d.get? info.path).getD []⟩

theorem Directory.Torn.holds {stem : Text} {d d' : Directory}
    (h : Directory.Torn stem d d') : d'.Holds stem (d'.segments stem) := by
  obtain ⟨-, hsorted, hpath⟩ := h
  refine ⟨pairwise_map.mpr hsorted, ?_⟩
  have hentries : d'.segmentEntries stem = ((d'.segmentEntries stem).map Prod.fst).map fun info =>
        (info, (d'.get? info.path).getD []) := by
    rw [map_map]
    refine ((map_congr_left fun e he => ?_).trans (map_id _)).symm
    have hget := Directory.get?_eq_some_iff.mpr (Directory.mem_segmentEntries.mp he).1
    simp only [Function.comp_apply, hget, Option.getD_some, id_eq]
  have hinfos : (d'.segments stem).map (fun s => (s.info stem, s.content))
      = (listSegments d' stem).map fun info =>
        (info, (d'.get? info.path).getD []) := by
    rw [Directory.segments, map_map]
    apply map_congr_left
    intro info hinfo
    simp only [Function.comp_apply, Segment.info, ← hpath info hinfo]
  rw [hentries, hinfos, ← Directory.segmentEntries_map_fst]
  exact (perm_insertionSort _ _).symm.map _

namespace FileSpool

structure Idle (sp : FileSpool) (closed : List Segment) (content : Bytes) : Prop where
  dir : sp.dir.Holds sp.baseStem (closed ++ [⟨sp.activeSegmentId, content⟩])
  path : sp.activeSegmentPath = segmentPath sp.baseStem sp.activeSegmentId
  name : sp.activeWriter.inner.inner.name = segmentPath sp.baseStem sp.activeSegmentId
  buf : sp.activeWriter.inner.buf = []
  pending : sp.activeWriter.payloadBuf = []

variable {sp sp' : FileSpool} {closed : List Segment} {content : Bytes}

theorem Idle.flushBlock (h : sp.Idle closed content) :
    onWriter (LogjetWriter.flushBlock x) sp = .ok () sp := by
  rw [onWriter, LogjetWriter.flushBlock, EStateM.get_bind, h.pending]
  rfl

variable {s : Segment} {stem path : Text} {value : UInt64} {content : Bytes}

theorem Idle.lt_active (h : sp.Idle closed content)
    (hs : s ∈ closed) : s.id < sp.activeSegmentId :=
  (pairwise_append.mp h.dir.sorted).2.2 s hs _ (mem_singleton_self _)

theorem close_of_empty {w : BufWriter} {segs : List Segment}
    (hbuf : w.buf = []) {id : UInt64} (hname : w.inner.name = segmentPath stem id)
    (hd : w.inner.dir.Holds stem segs) : w.close.Holds stem segs := by
  rcases w.close_eq with h | ⟨h, -⟩
  · rw [h, hbuf, hname]
    have hsame : segs.map (fun s => if s.id = id
        then { s with content := s.content ++ [] } else s) = segs := by
      refine (map_congr_left fun s _ => ?_).trans (map_id _)
      simp
    have haltered := hd.alter id (· ++ [])
    rw [hsame] at haltered
    exact haltered
  · rw [h]
    exact hd

theorem Idle.openNextSegment (h : sp.Idle closed content) : Ends openNextSegment sp
      (fun _ sp' => sp.activeSegmentId.toNat + 1 < 2 ^ 64
        ∧ sp'.Idle (closed ++ [⟨sp.activeSegmentId, content⟩]) [] ∧ sp'.settings = sp.settings
        ∧ sp'.consumedThroughSeq = sp.consumedThroughSeq)
      fun _ _ => ¬ sp.activeSegmentId.toNat + 1 < 2 ^ 64 := by
  apply Ends.get
  cases hid : nextSegmentId sp.activeSegmentId with
  | error e =>
    intro hlt
    rw [nextSegmentId, if_pos hlt] at hid
    cases hid
  | ok id =>
    have hlt := lt_nextSegmentId hid
    refine ⟨(nextSegmentId_eq_ok_iff.mp hid).1, ⟨?_, rfl, rfl, rfl, rfl⟩, rfl, rfl⟩
    apply close_of_empty (w := (sp.withDir (sp.dir.create
      (segmentPath sp.baseStem id))).activeWriter.inner) h.buf h.name
    apply h.dir.create
    intro s hs
    rcases mem_snoc.mp hs with hs | rfl
    · exact UInt64.lt_trans (h.lt_active hs) hlt
    · exact hlt

theorem Idle.removeFile {before after : List Segment} {s : Segment}
    (h : sp.Idle (before ++ s :: after) content) :
    Ends (removeFile (segmentPath sp.baseStem s.id)) sp
      (fun _ sp' => sp'.Idle (before ++ after) content ∧ sp'.settings = sp.settings
        ∧ sp'.consumedThroughSeq = sp.consumedThroughSeq ∧ sp'.activeSegmentId = sp.activeSegmentId)
      fun _ _ => False := by
  have hget := h.dir.get (s := s) (by simp)
  have hhas : sp.dir.has (segmentPath sp.baseStem s.id) = true := by
    rw [Directory.has, hget]
    rfl
  apply Ends.get
  rw [Directory.removeFile, if_pos hhas]
  refine ⟨⟨?_, h.path, h.name, h.buf, h.pending⟩, rfl, rfl, rfl⟩
  have herased := h.dir.erase s.id
  have hsplit : ((before ++ s :: after) ++ [(⟨sp.activeSegmentId, content⟩ : Segment)]).filter
        (fun t => t.id ≠ s.id) = (before ++ after) ++ [⟨sp.activeSegmentId, content⟩] := by
    have hsorted := h.dir.sorted
    rw [append_assoc, cons_append, pairwise_append, pairwise_cons] at hsorted
    obtain ⟨-, ⟨hlater, -⟩, hearlier⟩ := hsorted
    rw [append_assoc, cons_append, filter_append,
      filter_cons_of_neg (by simp), append_assoc]
    congr 1
    · rw [filter_eq_self]
      intro t ht
      simpa using UInt64.ne_of_lt (hearlier t ht s (mem_cons_self ..))
    · rw [filter_eq_self]
      intro t ht
      simpa using (UInt64.ne_of_lt (hlater t ht)).symm
  rw [hsplit] at herased
  exact herased

theorem Idle.advanceEmptyActiveSegment (h : sp.Idle closed content) :
    Ends (advanceEmptyActiveSegment x) sp (fun _ sp' => sp.activeSegmentId.toNat + 1 < 2 ^ 64
        ∧ sp'.Idle closed [] ∧ sp'.settings = sp.settings
        ∧ sp'.consumedThroughSeq = sp.consumedThroughSeq)
      fun _ _ => ¬ sp.activeSegmentId.toNat + 1 < 2 ^ 64 := by
  apply Ends.bind
  rw [Ends, h.flushBlock]
  apply Ends.get
  refine Ends.bind (h.openNextSegment.mono ?_ fun _ _ hlt => hlt)
  intro _ sp₁ hres
  obtain ⟨hlt, h₁, hsettings, hconsumed⟩ := hres
  have hold : sp.activeSegmentPath = segmentPath sp₁.baseStem sp.activeSegmentId := by
    rw [show sp₁.baseStem = sp.baseStem from
      congrArg Settings.baseStem hsettings]
    exact h.path
  refine Ends.get (Ends.ite (fun _ => ?_) fun hnot => ?_)
  · rw [hold]
    refine Ends.mono (@Idle.removeFile sp₁ [] closed []
      ⟨sp.activeSegmentId, content⟩ h₁) ?_ fun _ _ h => h.elim
    intro _ sp₂ hres
    obtain ⟨h₂, hsettings₂, hconsumed₂, _⟩ := hres
    rw [append_nil] at h₂
    exact ⟨hlt, h₂, hsettings₂.trans hsettings, hconsumed₂.trans hconsumed⟩
  · refine absurd ?_ hnot
    rw [hold, Directory.has, h₁.dir.get (s := ⟨sp.activeSegmentId, content⟩) (by simp)]
    rfl

theorem Idle.cleanupLoop {before rest : List Segment} (h : sp.Idle (before ++ rest) content)
    (hfit : ∀ s ∈ rest, CountersFit x .default s.content)
    (hactive : CountersFit x .default content) : Ends (cleanupLoop x ((rest
        ++ [(⟨sp.activeSegmentId, content⟩ : Segment)]).map (Segment.info sp.baseStem))) sp
      (fun _ sp' =>
        (Spent sp.consumedThroughSeq (contentRecords x content) →
          sp.activeSegmentId.toNat + 1 < 2 ^ 64)
        ∧ sp'.Idle (before ++ rest.filter fun s =>
            ¬ Spent sp.consumedThroughSeq (contentRecords x s.content))
          (if Spent sp.consumedThroughSeq (contentRecords x content) then []
            else content)
        ∧ sp'.settings = sp.settings
        ∧ sp'.consumedThroughSeq = sp.consumedThroughSeq)
      fun _ _ => Spent sp.consumedThroughSeq (contentRecords x content)
        ∧ ¬ sp.activeSegmentId.toNat + 1 < 2 ^ 64 := by
  induction rest generalizing sp before with
  | nil =>
    have hget : sp.dir.get? (Segment.info sp.baseStem
        ⟨sp.activeSegmentId, content⟩).path = some content :=
      h.dir.get (s := ⟨sp.activeSegmentId, content⟩) (by simp)
    have hid : (Segment.info sp.baseStem
        ⟨sp.activeSegmentId, content⟩).id = sp.activeSegmentId := rfl
    refine Ends.bind ?_
    rw [Ends, cleanupSegment_eq hget hactive]
    by_cases hspent : Spent sp.consumedThroughSeq (contentRecords x content)
    · rw [if_pos hspent, if_pos hid]
      refine h.advanceEmptyActiveSegment.mono ?_ fun _ _ hno => ⟨hspent, hno⟩
      intro _ sp' hres
      obtain ⟨hlt, h', hsettings, hconsumed⟩ := hres
      rw [if_pos hspent]
      exact ⟨fun _ => hlt, h', hsettings, hconsumed⟩
    · rw [if_neg hspent]
      rw [if_neg hspent]
      exact ⟨fun hs => absurd hs hspent, h, rfl, rfl⟩
  | cons s rest ih =>
    have hget : sp.dir.get? (s.info sp.baseStem).path = some s.content := h.dir.get (by simp)
    have hne : (s.info sp.baseStem).id ≠ sp.activeSegmentId :=
      UInt64.ne_of_lt (h.lt_active (by simp))
    refine Ends.bind ?_
    rw [Ends, cleanupSegment_eq hget (hfit s (mem_cons_self ..))]
    have hrest := fun t ht => hfit t (mem_cons_of_mem s ht)
    by_cases hspent : Spent sp.consumedThroughSeq (contentRecords x s.content)
    · rw [if_pos hspent, if_neg hne, filter_cons_of_neg (by simpa using hspent)]
      refine Ends.mono (Idle.removeFile h) ?_ fun _ _ h => h.elim
      intro _ sp₁ hres
      obtain ⟨h₁, hsettings, hconsumed, hid⟩ := hres
      have hloop := ih h₁ hrest
      rw [hid, hconsumed, hsettings, show sp₁.baseStem = sp.baseStem from
        congrArg Settings.baseStem hsettings] at hloop
      exact hloop
    · rw [if_neg hspent, filter_cons_of_pos (by simpa using hspent)]
      have hloop := @ih sp (before ++ [s]) (by rw [append_assoc]; exact h) hrest
      rw [append_assoc] at hloop
      exact hloop

def Full (config : FileConfig) (content : Bytes) : Prop :=
  config.segmentSizeBytes ≤ UInt64.ofNat content.length

variable {config : FileConfig} {fresh consumed streamId : UInt64}
  {d d' : Directory} {segs : List Segment}

instance (config : FileConfig) (content : Bytes) : Decidable (Full config content) :=
  inferInstanceAs (Decidable (_ ≤ _))

theorem chooseActive_last
    (hget : d.get? (segmentPath stem s.id) = some s.content) :
    chooseActive config stem d (some (s.info stem)) = if Full config s.content then
          (nextSegmentId s.id).bind fun id => .ok (id, segmentPath stem id, 0)
        else .ok (s.id, segmentPath stem s.id, UInt64.ofNat s.content.length) := by
  have hlen : d.len (s.info stem).path = .ok (UInt64.ofNat s.content.length) := by
    rw [Directory.len, show d.get? (s.info stem).path = _ from hget]
    rfl
  rw [chooseActive, hlen, ok_bind]
  by_cases hfull : Full config s.content
  · rw [if_pos hfull, if_neg (UInt64.not_lt.mpr hfull)]
    rfl
  · rw [if_neg hfull, if_pos (UInt64.not_le.mp hfull)]
    rfl

theorem openActive_eq (hconsumed : readConsumedState d
      (deriveBaseStem config.name ++ ".state".toList) = .ok consumed)
    (hstream : readOrCreateStreamId d (deriveBaseStem config.name ++ ".stream-id".toList) fresh
        = .ok (streamId, d')) : openActive config fresh d
      = (chooseActive config (deriveBaseStem config.name) d'
          (listSegments d (deriveBaseStem config.name)).getLast?).bind fun (id, path, size) => .ok
          { baseStem := deriveBaseStem config.name
            statePath := deriveBaseStem config.name ++ ".state".toList
            streamId
            activeSegmentId := id
            activeSegmentPath := path
            activeSizeBytes := size
            consumedThroughSeq := consumed
            activeWriter := LogjetWriter.withConfig
              (BufWriter.new ⟨d'.create path, path⟩)
              (segmentWriterConfig config.codec config.blockAlignment)
            segmentTargetBytes := config.segmentSizeBytes
            codec := config.codec
            blockAlignment := config.blockAlignment
            maxTotalBytes := config.maxTotalBytes } := by
  rw [openActive]
  simp only [hconsumed, hstream, ok_bind]
  rfl

theorem openActive_idle (hd : d.Holds (deriveBaseStem config.name) segs)
    (hconsumed : readConsumedState d (deriveBaseStem config.name ++ ".state".toList) = .ok consumed)
    (hstream : readOrCreateStreamId d (deriveBaseStem config.name ++ ".stream-id".toList) fresh
        = .ok (streamId, d')) : (∃ sp closed content, openActive config fresh d = .ok sp
        ∧ sp.Idle closed content ∧ sp.baseStem = deriveBaseStem config.name
        ∧ sp.consumedThroughSeq = consumed ∧ ((segs = closed ++ [⟨sp.activeSegmentId, content⟩]
            ∧ ¬ Full config content) ∨ (segs = closed ∧ content = []
            ∧ ∀ s ∈ segs.getLast?, Full config s.content ∧ s.id.toNat + 1 < 2 ^ 64)))
      ∨ ∃ err, openActive config fresh d = .error err ∧ ∃ s ∈ segs.getLast?, Full config s.content
          ∧ ¬ s.id.toNat + 1 < 2 ^ 64 := by
  have hd' : d'.Holds (deriveBaseStem config.name) segs := by
    rcases (readOrCreateStreamId_eq_ok hstream).2 with
      rfl | ⟨-, content, rfl⟩
    · exact hd
    · exact hd.write_other (parseSegmentId_streamId _) content
  rw [openActive_eq hconsumed hstream, hd.listSegments, getLast?_map]
  cases hlast : segs.getLast? with
  | none =>
    have hnil := getLast?_eq_none_iff.mp hlast
    refine .inl ⟨_, [], [], rfl, ⟨?_, rfl, rfl, rfl, rfl⟩, rfl, rfl, .inr ⟨hnil, rfl, nofun⟩⟩
    rw [hnil] at hd'
    exact hd'.create nofun
  | some s =>
    obtain ⟨init, rfl⟩ := getLast?_eq_some_iff.mp hlast
    have hs : s ∈ init ++ [s] := by simp
    rw [Option.map_some, chooseActive_last (hd'.get hs)]
    by_cases hfull : Full config s.content
    · rw [if_pos hfull]
      cases hid : nextSegmentId s.id with
      | error err =>
        refine .inr ⟨err, rfl, s, rfl, hfull, ?_⟩
        intro hlt
        rw [nextSegmentId, if_pos hlt] at hid
        cases hid
      | ok id =>
        have hlt := (nextSegmentId_eq_ok_iff.mp hid).1
        refine .inl ⟨_, init ++ [s], [], rfl, ⟨?_, rfl, rfl, rfl, rfl⟩,
          rfl, rfl, .inr ⟨rfl, rfl, ?_⟩⟩
        · apply hd'.create
          intro t ht
          refine UInt64.lt_of_le_of_lt ?_ (lt_nextSegmentId hid)
          rcases mem_snoc.mp ht with ht | rfl
          · exact UInt64.le_of_lt ((pairwise_append.mp
              hd'.sorted).2.2 t ht s (mem_singleton_self _))
          · exact UInt64.le_refl _
        · intro t ht
          cases ht
          exact ⟨hfull, hlt⟩
    · rw [if_neg hfull]
      refine .inl ⟨_, init, s.content, rfl, ⟨?_, rfl, rfl, rfl, rfl⟩, rfl, rfl, .inl ⟨rfl, hfull⟩⟩
      rw [Directory.create_of_get (hd'.get hs)]
      exact hd'

theorem contentRecords_nil : contentRecords x [] = [] := Greedy.records_end (Nat.le_refl _)

theorem not_spent_nil (consumed : UInt64) : ¬ Spent consumed (contentRecords x []) := by
  rw [contentRecords_nil]
  intro ⟨r, hr, _⟩
  cases hr

def unspent (x : External) (consumed : UInt64) (segs : List Segment) : List OwnedRecord :=
  (segs.filter fun s =>
    ¬ Spent consumed (contentRecords x s.content)).flatMap fun s => contentRecords x s.content

theorem unspent_append (segs segs' : List Segment) : unspent x consumed (segs ++ segs')
      = unspent x consumed segs ++ unspent x consumed segs' := by
  rw [unspent, filter_append, flatMap_append]
  rfl

def NumbersLeft (x : External) (config : FileConfig) (consumed : UInt64)
    (segs : List Segment) : Prop :=
  ∀ s ∈ segs.getLast?,
    Full config s.content ∨ Spent consumed (contentRecords x s.content) → s.id.toNat + 1 < 2 ^ 64

instance (x : External) (config : FileConfig) (consumed : UInt64)
    (segs : List Segment) : Decidable (NumbersLeft x config consumed segs) :=
  inferInstanceAs (Decidable (∀ s ∈ segs.getLast?, _))

theorem Idle.cleanup (h : sp.Idle closed content)
    (hfit : ∀ s ∈ closed, CountersFit x .default s.content)
    (hactive : CountersFit x .default content) : Ends (cleanupConsumedSegments x) sp (fun _ sp' =>
        (Spent sp.consumedThroughSeq (contentRecords x content) →
          sp.activeSegmentId.toNat + 1 < 2 ^ 64)
        ∧ sp'.consumedThroughSeq = sp.consumedThroughSeq
        ∧ ∃ segs, sp'.dir.Holds sp'.baseStem segs ∧ (∀ s ∈ segs, CountersFit x .default s.content)
          ∧ segs.flatMap (fun s => contentRecords x s.content) = unspent x sp.consumedThroughSeq
              (closed ++ [⟨sp.activeSegmentId, content⟩]))
      fun _ _ => Spent sp.consumedThroughSeq (contentRecords x content)
        ∧ ¬ sp.activeSegmentId.toNat + 1 < 2 ^ 64 := by
  apply Ends.get
  rw [h.dir.listSegments]
  refine Ends.mono (@Idle.cleanupLoop x sp content [] closed h hfit hactive) ?_ fun _ _ he => he
  intro _ sp' ⟨hnumber, h', _, hconsumed⟩
  refine ⟨hnumber, hconsumed, _, h'.dir, ?_, ?_⟩
  · intro s hs
    rcases mem_snoc.mp hs with hs | rfl
    · exact hfit s (mem_filter.mp hs).1
    · simp only
      split
      · exact countersFit_nil x
      · exact hactive
  · rw [unspent_append, flatMap_append, nil_append]
    congr 1
    rw [flatMap_singleton, unspent]
    by_cases hspent : Spent sp.consumedThroughSeq (contentRecords x content)
    · rw [if_pos hspent, contentRecords_nil, filter_cons_of_neg (by simpa using hspent)]
      rfl
    · rw [if_neg hspent, filter_cons_of_pos (by simpa using hspent)]
      simp

theorem openIn_cases (hd : d.Holds (deriveBaseStem config.name) segs)
    (hfit : ∀ s ∈ segs, CountersFit x .default s.content) (hconsumed : readConsumedState d
      (deriveBaseStem config.name ++ ".state".toList) = .ok consumed)
    (hstream : readOrCreateStreamId d (deriveBaseStem config.name ++ ".stream-id".toList) fresh
        = .ok (streamId, d')) : (∃ sp kept, openIn x config fresh d = .ok sp
        ∧ NumbersLeft x config consumed segs ∧ sp.consumedThroughSeq = consumed
        ∧ sp.dir.Holds sp.baseStem kept ∧ (∀ s ∈ kept, CountersFit x .default s.content)
        ∧ kept.flatMap (fun s => contentRecords x s.content) = unspent x consumed segs)
      ∨ ∃ err, openIn x config fresh d = .error err ∧ ¬ NumbersLeft x config consumed segs := by
  rcases openActive_idle hd hconsumed hstream with
    ⟨sp, closed, content, hopen, hidle, hstem, rfl, hchoice⟩
      | ⟨err, hopen, s, hs, hfull, hnone⟩
  · have hfits : (∀ s ∈ closed, CountersFit x .default s.content)
        ∧ CountersFit x .default content := by
      rcases hchoice with ⟨rfl, -⟩ | ⟨rfl, rfl, -⟩
      · exact ⟨fun s hs => hfit s (mem_append_left _ hs),
          hfit ⟨sp.activeSegmentId, content⟩ (by simp)⟩
      · exact ⟨hfit, countersFit_nil x⟩
    have hunspent : unspent x sp.consumedThroughSeq (closed ++ [⟨sp.activeSegmentId, content⟩])
          = unspent x sp.consumedThroughSeq segs := by
      rcases hchoice with ⟨rfl, -⟩ | ⟨rfl, rfl, -⟩
      · rfl
      · rw [unspent_append, unspent, unspent,
          filter_cons_of_pos (by simpa using not_spent_nil _)]
        simp [contentRecords_nil]
    have hnumbers : (Spent sp.consumedThroughSeq (contentRecords x content) →
          sp.activeSegmentId.toNat + 1 < 2 ^ 64)
        ↔ NumbersLeft x config sp.consumedThroughSeq segs := by
      rcases hchoice with ⟨rfl, hroom⟩ | ⟨rfl, rfl, hnext⟩
      · simp [NumbersLeft, hroom]
      · refine ⟨fun _ s hs _ => (hnext s hs).2, fun _ hspent => ?_⟩
        exact absurd hspent (not_spent_nil _)
    have hclean := hidle.cleanup hfits.1 hfits.2
    rw [openIn, hopen, ok_bind]
    cases hrun : cleanupConsumedSegments x sp with
    | ok _ sp' =>
      obtain ⟨hnumber, hconsumed', kept, hkept, hfit', hrecords⟩ := hclean.ok hrun
      exact .inl ⟨sp', kept, rfl, hnumbers.mp hnumber, hconsumed', hkept,
        hfit', hrecords.trans hunspent⟩
    | error err sp' =>
      obtain ⟨hspent, hnone⟩ := hclean.error hrun
      exact .inr ⟨err, rfl, fun h => hnone (hnumbers.mpr h hspent)⟩
  · refine .inr ⟨err, ?_, fun h => hnone (h s hs (.inl hfull))⟩
    rw [openIn, hopen]
    rfl

theorem nextSequenceSeed_iff {kept : List Segment} (hd : sp.dir.Holds sp.baseStem kept)
    (hfit : ∀ s ∈ kept, CountersFit x .default s.content) :
    (∃ seed, Spool.nextSequenceSeed x (.file sp) = .ok seed)
      ↔ ∀ r ∈ ((kept.flatMap fun s => contentRecords x s.content).filter
          (sp.consumedThroughSeq < ·.seq)).getLast?, r.seq.toNat + 1 < 2 ^ 64 := by
  generalize habove : (kept.flatMap fun s => contentRecords x s.content).filter
    (sp.consumedThroughSeq < ·.seq) = above
  have hbounds := @sequenceBounds_eq x sp kept hd
    ((legible_iff hd).mpr hfit) above (by rw [flatMap_map]; exact habove)
  rw [@Spool.nextSequenceSeed_eq x (.file sp) _ hbounds, bounds_map_snd]
  cases above.getLast? with
  | none =>
    refine ⟨fun _ r hr => ?_, fun _ => ⟨1, rfl⟩⟩
    cases hr
  | some last =>
    rw [Option.map_some, Option.getD_some]
    by_cases hlt : last.seq.toNat + 1 < 2 ^ 64
    · rw [if_pos hlt]
      refine ⟨fun _ r hr => ?_, fun _ => ⟨_, rfl⟩⟩
      cases hr
      exact hlt
    · rw [if_neg hlt]
      refine ⟨fun ⟨_, h⟩ => (nomatch h), fun h => ?_⟩
      exact absurd (h last rfl) hlt

theorem readToString_of_empty (h : d.get? path = some []) (heading : String) :
    ∃ err, (d.readToString path).bind (parseNumber heading) = .error err := by
  have hread : d.readToString path = .ok [] := @Directory.readToString_of_get d path [] h
  rw [hread]
  exact ⟨_, rfl⟩

theorem readToString_of_cut {text : Text}
    (hget : d.get? path = some (utf8 text)) (htext : text <+: toText value) (heading : String) :
    d.get? path ≠ some [] ↔ ∃ v ≤ value, (d.readToString path).bind (parseNumber heading)
        = .ok v := by
  constructor
  · intro hne
    have htext' : text ≠ [] := by
      intro hnil
      rw [hnil] at hget
      exact hne hget
    rw [Directory.readToString_of_get hget]
    exact parseNumber_of_prefix heading htext htext'
  · intro ⟨v, _, hv⟩ hempty
    obtain ⟨err, herr⟩ := readToString_of_empty hempty heading
    rw [herr] at hv
    cases hv

theorem state_ne_streamId (stem : Text) :
    stem ++ ".state".toList ≠ stem ++ ".stream-id".toList := by
  intro heq
  exact absurd (append_cancel_left heq) (by decide)

theorem ne_empty_of_state (h : readConsumedState d path = .ok consumed) :
    d.get? path ≠ some [] := by
  intro hempty
  obtain ⟨err, herr⟩ := readToString_of_empty hempty "invalid consumed state: "
  have hhas : d.has path = true := by
    rw [Directory.has, hempty]
    rfl
  rw [readConsumedState, hhas] at h
  cases h.symm.trans herr

theorem readConsumedState_of_get (h : d.get? path = some content) :
    readConsumedState d path
      = (d.readToString path).bind (parseNumber "invalid consumed state: ") := by
  have hhas : d.has path = true := by
    rw [Directory.has, h]
    rfl
  rw [readConsumedState, hhas]
  rfl

theorem Crash.state (h : Crash x config d consumed) :
    d.get? (deriveBaseStem config.name ++ ".state".toList) ≠ some []
      ↔ ∃ c ≤ consumed, readConsumedState d
        (deriveBaseStem config.name ++ ".state".toList) = .ok c := by
  have hsame : ∀ {start : Directory}, readConsumedState start
      (deriveBaseStem config.name ++ ".state".toList) = .ok consumed →
      Directory.Torn (deriveBaseStem config.name) start d →
      (d.get? (deriveBaseStem config.name ++ ".state".toList) ≠ some []
        ↔ ∃ c ≤ consumed, readConsumedState d
          (deriveBaseStem config.name ++ ".state".toList) = .ok c) := by
    intro start hstate htorn
    rw [← readConsumedState_congr (htorn.1 _ (parseSegmentId_state _))] at hstate
    exact ⟨fun _ => ⟨consumed, UInt64.le_refl _, hstate⟩, fun _ => ne_empty_of_state hstate⟩
  cases h with
  | running run torn =>
    have hsettled := run.settled
    have hstate := hsettled.side.state
    rw [hsettled.settings] at hstate
    exact hsame hstate (hsettled.baseStem ▸ torn)
  | consuming run _ part torn =>
    rename_i text _
    have hsettled := run.settled
    have hget : d.get? (deriveBaseStem config.name ++ ".state".toList) = some (utf8 text) := by
      refine (torn.1 _ (hsettled.baseStem ▸ parseSegmentId_state _)).trans ?_
      rw [Directory.get?_write, if_pos hsettled.statePath.symm]
    rw [readConsumedState_of_get hget]
    exact readToString_of_cut hget part _
  | opening _ hopen _ _ torn =>
    obtain ⟨sp₀, hactive, hclean⟩ := openIn_eq_ok_iff.mp hopen
    have hconsumed := ((cleanupConsumedSegments_keeps
      (settled_openActive hactive).named).ok hclean).consumed
    obtain ⟨c, hstate, hactive⟩ := bind_eq_ok_iff.mp hactive
    obtain ⟨_, -, hactive⟩ := bind_eq_ok_iff.mp hactive
    obtain ⟨_, -, hactive⟩ := bind_eq_ok_iff.mp hactive
    cases hactive
    refine hsame ?_ torn
    rw [readConsumedState_congr, hstate, hconsumed]
    rw [Directory.get?_write, if_neg (state_ne_streamId _)]

theorem readOrCreateStreamId_of_get
    (h : d.get? path = some content) (fresh : UInt64) : readOrCreateStreamId d path fresh
      = ((d.readToString path).bind (parseNumber "invalid stream id: ")).bind
        fun id => .ok (id, d) := by
  have hhas : d.has path = true := by
    rw [Directory.has, h]
    rfl
  rw [readOrCreateStreamId, if_pos hhas]
  cases d.readToString path with
  | error err => rfl
  | ok text => rfl

theorem exists_of_readToString {heading : String}
    (h : (d.readToString path).bind (parseNumber heading) = .ok value) :
    ∃ content, d.get? path = some content := by
  cases hget : d.get? path with
  | some content => exact ⟨content, rfl⟩
  | none =>
    rw [Directory.readToString_of_not_has] at h
    · cases h
    · rw [Directory.has, hget]
      decide

theorem Settled.stream (h : Settled config sp)
    (hget : d.get? (deriveBaseStem config.name ++ ".stream-id".toList)
      = sp.dir.get? (deriveBaseStem config.name ++ ".stream-id".toList)) :
    ∃ content id, d.get? (deriveBaseStem config.name ++ ".stream-id".toList) = some content
      ∧ (d.readToString (deriveBaseStem config.name
        ++ ".stream-id".toList)).bind (parseNumber "invalid stream id: ") = .ok id := by
  have hstream := h.side.streamId
  rw [h.settings] at hstream
  simp only [settingsOf] at hstream
  rw [← Directory.readToString_congr hget] at hstream
  obtain ⟨content, hcontent⟩ := exists_of_readToString hstream
  exact ⟨content, _, hcontent, hstream⟩

theorem Crash.stream (h : Crash x config d consumed) (fresh : UInt64) :
    d.get? (deriveBaseStem config.name ++ ".stream-id".toList) ≠ some []
      ↔ ∃ id d', readOrCreateStreamId d (deriveBaseStem config.name ++ ".stream-id".toList) fresh
          = .ok (id, d') := by
  constructor
  · intro hne
    have hread : ∃ content id, d.get? (deriveBaseStem config.name
          ++ ".stream-id".toList) = some content ∧ (d.readToString (deriveBaseStem config.name
          ++ ".stream-id".toList)).bind (parseNumber "invalid stream id: ") = .ok id := by
      cases h with
      | running run torn =>
        have hsettled := run.settled
        exact hsettled.stream (torn.1 _ (hsettled.baseStem ▸ parseSegmentId_streamId _))
      | consuming run _ _ torn =>
        have hsettled := run.settled
        apply hsettled.stream
        refine (torn.1 _ (hsettled.baseStem ▸ parseSegmentId_streamId _)).trans ?_
        rw [Directory.get?_write, if_neg]
        rw [hsettled.statePath]
        exact (state_ne_streamId _).symm
      | opening hnone hopen hnew part torn =>
        rename_i text
        have hget : d.get? (deriveBaseStem config.name
            ++ ".stream-id".toList) = some (utf8 text) := by
          rw [torn.1 _ (parseSegmentId_streamId _), Directory.get?_write, if_pos rfl]
        obtain ⟨id, -, hid⟩ := (readToString_of_cut hget part "invalid stream id: ").mp hne
        exact ⟨_, id, hget, hid⟩
    obtain ⟨content, id, hget, hid⟩ := hread
    refine ⟨id, d, ?_⟩
    rw [readOrCreateStreamId_of_get hget, hid]
    rfl
  · intro ⟨id, d', hid⟩ hempty
    obtain ⟨err, herr⟩ := readToString_of_empty hempty "invalid stream id: "
    rw [readOrCreateStreamId_of_get hempty, herr] at hid
    cases hid

theorem Crash.holds (h : Crash x config d consumed) : d.Holds (deriveBaseStem config.name)
      (d.segments (deriveBaseStem config.name)) := by
  cases h with
  | running run torn => exact run.settled.baseStem ▸ torn.holds
  | consuming run _ _ torn => exact run.settled.baseStem ▸ torn.holds
  | opening _ _ _ _ torn => exact torn.holds

def Restartable (x : External) (config : FileConfig) (d : Directory) :
    Prop :=
  let stem := deriveBaseStem config.name
  let consumed :=
    (readConsumedState d (stem ++ ".state".toList)).toOption.getD 0
  d.get? (stem ++ ".state".toList) ≠ some []
    ∧ d.get? (stem ++ ".stream-id".toList) ≠ some []
    ∧ NumbersLeft x config consumed (d.segments stem)
    ∧ ∀ r ∈ ((unspent x consumed (d.segments stem)).filter
        (consumed < ·.seq)).getLast?, r.seq.toNat + 1 < 2 ^ 64

instance (x : External) (config : FileConfig) (d : Directory) :
    Decidable (Restartable x config d) := inferInstanceAs (Decidable (_ ∧ _ ∧ _ ∧ _))

/-- After a crash the spool opens iff its files are `Restartable`. -/
theorem restart_iff (x : External) {config : FileConfig} {d : Directory}
    {written : UInt64} (hcrash : Crash x config d written)
    (hlegible : Legible x d (deriveBaseStem config.name)) (fresh : UInt64) :
    (∃ sp seed, openIn x config fresh d = .ok sp ∧ Spool.nextSequenceSeed x (.file sp) = .ok seed
        ∧ sp.consumedThroughSeq ≤ written) ↔ Restartable x config d := by
  have hd := hcrash.holds
  have hfit := (legible_iff hd).mp hlegible
  unfold Restartable
  simp only
  constructor
  · intro ⟨sp, seed, hopen, hseed, hle⟩
    obtain ⟨c, hc, hrest⟩ : ∃ c, readConsumedState d
        (deriveBaseStem config.name ++ ".state".toList) = .ok c ∧ ∃ id d', readOrCreateStreamId d
          (deriveBaseStem config.name ++ ".stream-id".toList) fresh = .ok (id, d') := by
      obtain ⟨sp₀, hactive, -⟩ := openIn_eq_ok_iff.mp hopen
      obtain ⟨c, hc, hactive⟩ := bind_eq_ok_iff.mp hactive
      obtain ⟨⟨id, d'⟩, hid, -⟩ := bind_eq_ok_iff.mp hactive
      exact ⟨c, hc, id, d', hid⟩
    obtain ⟨id, d', hid⟩ := hrest
    rw [hc]
    refine ⟨ne_empty_of_state hc, (hcrash.stream fresh).mpr ⟨id, d', hid⟩, ?_⟩
    rcases openIn_cases hd hfit hc hid with
      ⟨sp', kept, hopen', hnumbers, rfl, hkept, hfit', hrecords⟩
        | ⟨err, herr, -⟩
    · rw [hopen] at hopen'
      cases hopen'
      refine ⟨hnumbers, ?_⟩
      have hseqs := (nextSequenceSeed_iff hkept hfit').mp ⟨seed, hseed⟩
      rw [hrecords] at hseqs
      exact hseqs
    · rw [hopen] at herr
      cases herr
  · intro ⟨hstate, hstream, hnumbers, hseqs⟩
    obtain ⟨c, hle, hc⟩ := hcrash.state.mp hstate
    obtain ⟨id, d', hid⟩ := (hcrash.stream fresh).mp hstream
    rw [hc] at hnumbers hseqs
    rcases openIn_cases hd hfit hc hid with
      ⟨sp, kept, hopen, -, rfl, hkept, hfit', hrecords⟩ | ⟨err, -, hnone⟩
    · obtain ⟨seed, hseed⟩ := (nextSequenceSeed_iff hkept hfit').mpr (by
        rw [hrecords]
        exact hseqs)
      exact ⟨sp, seed, hopen, hseed, hle⟩
    · exact absurd hnumbers hnone

/-- Whether `test` holds of the files of `smallSpool` when it is killed with
`text`, the first bytes of `seq`, in its state file. -/
def smallCrash (seq : UInt64) (text : Text) (test : Directory → Bool) : Bool :=
  smallRun [some (smallRecord 2), none] fun sp =>
    let d := sp.dir.write sp.statePath (utf8 text)
    decide (sp.consumedThroughSeq < seq ∧ text <+: toText seq
      ∧ Legible external d (deriveBaseStem smallSpool.name)
      ∧ (listSegments d sp.baseStem).Pairwise (fun a b => a.id < b.id)
      ∧ (∀ info ∈ listSegments d sp.baseStem, info.path = segmentPath sp.baseStem info.id)
      ∧ test d = true)

theorem crash_of_smallCrash {seq : UInt64} {text : Text} {test : Directory → Bool}
    (h : smallCrash seq text test = true) : ∃ d, Crash external smallSpool d seq
      ∧ Legible external d (deriveBaseStem smallSpool.name) ∧ test d = true := by
  obtain ⟨sp, hrun, h⟩ := run_of_smallRun h
  obtain ⟨hbelow, hpart, hlegible, hsorted, hpaths, htest⟩ := of_decide_eq_true h
  exact ⟨_, .consuming hrun hbelow hpart ⟨fun _ _ => rfl, hsorted, hpaths⟩, hlegible, htest⟩

theorem restart_after_first_digit : ∃ d sp seed, Crash external smallSpool d 12
      ∧ d.get? "logs.state".toList = some (utf8 ['1']) ∧ openIn external smallSpool 8 d = .ok sp
      ∧ Spool.nextSequenceSeed external (.file sp) = .ok seed ∧ sp.consumedThroughSeq ≤ 12 := by
  have hcalls : smallCrash 12 ['1'] (fun d => decide (d.get? "logs.state".toList = some (utf8 ['1'])
      ∧ Restartable external smallSpool d)) = true := by
    decide +kernel
  obtain ⟨d, hcrash, hlegible, h⟩ := crash_of_smallCrash hcalls
  obtain ⟨hget, hrestartable⟩ := of_decide_eq_true h
  obtain ⟨sp', seed, hopened, hseed, hle⟩ :=
    (restart_iff external hcrash hlegible 8).mpr hrestartable
  exact ⟨d, sp', seed, hcrash, hget, hopened, hseed, hle⟩

theorem restart_fails_on_empty_state : ∃ d, Crash external smallSpool d 2
      ∧ Legible external d (deriveBaseStem smallSpool.name) ∧ d.get? "logs.state".toList = some []
      ∧ ∀ fresh, openIn external smallSpool fresh d = .error ⟨.invalidData,
        "invalid consumed state: cannot parse integer from empty string"⟩ := by
  have hcalls : smallCrash 2 [] (fun d => decide (d.get? "logs.state".toList = some []
      ∧ readConsumedState d (deriveBaseStem smallSpool.name ++ ".state".toList)
        = .error ⟨.invalidData,
          "invalid consumed state: cannot parse integer from empty string"⟩)) = true := by
    decide +kernel
  obtain ⟨d, hcrash, hlegible, h⟩ := crash_of_smallCrash hcalls
  obtain ⟨hget, herror⟩ := of_decide_eq_true h
  refine ⟨d, hcrash, hlegible, hget, ?_⟩
  intro fresh
  rw [openIn, openActive]
  simp only [herror]
  rfl

end FileSpool

end Logjet
