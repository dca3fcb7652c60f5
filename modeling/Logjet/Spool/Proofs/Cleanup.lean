/-
Consuming, closing and opening a file spool (`SegmentLog.cleanup`).
-/
import Logjet.Spool.Proofs.Operations
import Mathlib.Data.List.Flatten

namespace Logjet

open List EStateM Except

variable {x : External}

def SegmentLog.files (v : SegmentLog x) (activeId : UInt64) : List SegmentRecords :=
  v.closed.map (fun s => (s.id, s.records)) ++ [(activeId, v.active.onDisk)]

theorem SegmentLog.files_records (v : SegmentLog x) (activeId : UInt64) :
    (v.files activeId).flatMap Prod.snd = v.readable := by
  rw [SegmentLog.files, flatMap_append, flatMap_map, flatMap_singleton]
  rfl

theorem SegmentLog.stored_of_flushed (v : SegmentLog x)
    (hbuffered : v.active.buffered = []) (hpending : v.active.pending = []) (id : UInt64) :
    v.stored = (v.closed ++ [(⟨id, v.active.disk⟩ : ClosedSegment x)]).flatMap
      ClosedSegment.records := by
  rw [SegmentLog.stored, ActiveSegment.records_eq, hbuffered, hpending,
    append_nil, append_nil, flatMap_append, flatMap_singleton]
  rfl

theorem contentRecords_pieces (hx : x.RoundTrip) {pieces : List (Piece x)}
    (h : ∀ p ∈ pieces, p.Readable .default) : contentRecords x (pieces.flatMap Piece.bytes)
      = pieces.flatMap Piece.records := scanRecords_pieces hx defaultSyncMarker_syncable h

namespace FileSpool

variable {sp sp' : FileSpool} {v : SegmentLog x}

theorem Shows.read (hx : x.RoundTrip) (h : sp.Shows v) : (v.closed.map ClosedSegment.file
        ++ [(⟨sp.activeSegmentId, v.active.disk.flatMap Piece.bytes⟩ :
          Segment)]).map (Segment.read x) = v.files sp.activeSegmentId := by
  rw [map_append, map_map, SegmentLog.files, map_singleton]
  congr 1
  · apply map_congr_left
    intro s hs
    exact congrArg (Prod.mk s.id) (contentRecords_pieces hx (h.closed s hs))
  · rw [Segment.read, contentRecords_pieces hx]
    · rfl
    · exact fun p hp => h.writer.readable p (mem_append_left _ hp)

theorem Shows.files_sorted (h : sp.Shows v) :
    (v.files sp.activeSegmentId).Pairwise fun a b => a.1 < b.1 := by
  have hsorted := h.holds.sorted
  rw [pairwise_append, pairwise_map] at hsorted
  rw [SegmentLog.files, pairwise_append, pairwise_map]
  refine ⟨hsorted.1, pairwise_singleton _ _, ?_⟩
  intro a ha b hb
  obtain ⟨s, hs, rfl⟩ := mem_map.mp ha
  rw [mem_singleton.mp hb]
  exact h.lt_active hs

theorem Shows.nextForCursor (hx : x.RoundTrip) (h : sp.Shows v)
    (hlegible : Legible x sp.dir sp.baseStem) (c : FileReplayCursor) : nextForCursor x sp c
      = .ok (nextIn (max c.lastSeq sp.consumedThroughSeq) (v.files sp.activeSegmentId) c).1
          (nextIn (max c.lastSeq sp.consumedThroughSeq) (v.files sp.activeSegmentId) c).2 := by
  rw [nextForCursor_eq h.holds hlegible, h.read hx]

end FileSpool

def Spent (consumed : UInt64) (records : List OwnedRecord) : Prop :=
  ∃ r ∈ records.getLast?, r.seq ≤ consumed

instance (consumed : UInt64) (records : List OwnedRecord) : Decidable (Spent consumed records) :=
  match h : records.getLast? with
  | none => .isFalse fun ⟨r, hr, _⟩ => by rw [h] at hr; cases hr
  | some r =>
    if hle : r.seq ≤ consumed then .isTrue ⟨r, h, hle⟩
    else .isFalse fun ⟨r', hr, hle'⟩ => by
      rw [h] at hr
      cases hr
      exact hle hle'

def SegmentLog.cleanup (v : SegmentLog x) (consumed : UInt64) : SegmentLog x where
  closed := v.closed.filter fun s => ¬ Spent consumed s.records
  active := if Spent consumed v.active.onDisk then ⟨[], [], []⟩ else v.active

theorem SegmentLog.cleanup_stored_sublist (v : SegmentLog x)
    (consumed : UInt64) : (v.cleanup consumed).stored.Sublist v.stored := by
  apply List.Sublist.append
  · exact filter_sublist.flatMap _
  · unfold SegmentLog.cleanup
    split
    · exact nil_sublist _
    · exact List.Sublist.refl _

theorem Spent.le {consumed : UInt64} {records : List OwnedRecord} (h : Spent consumed records)
    (hsorted : records.Pairwise fun a b => a.seq < b.seq)
    {r : OwnedRecord} (hr : r ∈ records) : r.seq ≤ consumed := by
  obtain ⟨last, hlast, hle⟩ := h
  obtain ⟨init, rfl⟩ := getLast?_eq_some_iff.mp hlast
  rcases mem_snoc.mp hr with hr | rfl
  · have hlt := (pairwise_append.mp hsorted).2.2 r hr last (mem_singleton_self _)
    exact UInt64.le_trans (UInt64.le_of_lt hlt) hle
  · exact hle

theorem filter_flatMap_filter {α β : Type} {p : α → Bool} {q : β → Bool}
    {f : α → List β} {as : List α} (h : ∀ a ∈ as, p a = false → ∀ b ∈ f a, q b = false) :
    ((as.filter p).flatMap f).filter q = (as.flatMap f).filter q := by
  induction as with
  | nil => rfl
  | cons a as ih =>
    have hrest := ih fun b hb => h b (mem_cons_of_mem _ hb)
    rw [flatMap_cons, filter_append, ← hrest]
    cases hp : p a with
    | true => rw [filter_cons_of_pos hp, flatMap_cons, filter_append]
    | false =>
      have hnone : (f a).filter q = [] := filter_eq_nil_iff.mpr
        fun b hb => by simp [h a (mem_cons_self ..) hp b hb]
      rw [filter_cons_of_neg (by simp [hp]), hnone, nil_append]

theorem SegmentLog.cleanup_filter {v : SegmentLog x}
    (hbuffered : v.active.buffered = []) (hpending : v.active.pending = [])
    (hsorted : v.stored.Pairwise fun a b => a.seq < b.seq) (seq : UInt64) :
    (v.cleanup seq).stored.filter (seq < ·.seq) = v.stored.filter (seq < ·.seq) := by
  obtain ⟨hclosed, hactive, -⟩ := pairwise_append.mp hsorted
  rw [SegmentLog.stored, SegmentLog.stored, filter_append, filter_append]
  congr 1
  · apply filter_flatMap_filter
    intro s hs hspent r hr
    have hspent : Spent seq s.records := by simpa using hspent
    have hle := hspent.le (hclosed.sublist (sublist_flatten_of_mem (mem_map_of_mem hs))) hr
    simpa using hle
  · by_cases hspent : Spent seq v.active.onDisk
    · rw [SegmentLog.cleanup, if_pos hspent]
      symm
      apply filter_eq_nil_iff.mpr
      have hrecords : v.active.records = v.active.onDisk := by
        rw [ActiveSegment.records, ActiveSegment.unflushed, hbuffered, hpending]
        exact append_nil _
      rw [hrecords] at hactive ⊢
      intro r hr
      simpa using hspent.le hactive hr
    · rw [SegmentLog.cleanup, if_neg hspent]

namespace FileSpool

variable {sp sp' : FileSpool} {v : SegmentLog x}

variable {info : SegmentInfo} {content : Bytes} {d d' : Directory} {path : Text}
  {fresh id : UInt64} {config : FileConfig}

theorem cleanupSegment_eq
    (hget : sp.dir.get? info.path = some content) (hfit : CountersFit x .default content) :
    cleanupSegment x info sp = if Spent sp.consumedThroughSeq (contentRecords x content) then
          if info.id = sp.activeSegmentId then advanceEmptyActiveSegment x sp
          else FileSpool.removeFile info.path sp
        else .ok () sp := by
  rw [cleanupSegment, get_bind, segmentMaxSeq_eq hget hfit, ofExcept_ok_bind]
  cases hlast : (contentRecords x content).getLast? with
  | none =>
    have hnot : ¬ Spent sp.consumedThroughSeq (contentRecords x content) := by
      intro ⟨r, hr, _⟩
      rw [hlast] at hr
      cases hr
    rw [if_neg hnot]
    rfl
  | some r =>
    simp only [Option.map_some]
    by_cases habove : r.seq > sp.consumedThroughSeq
    · have hnot : ¬ Spent sp.consumedThroughSeq (contentRecords x content) := by
        intro ⟨r', hr', hle⟩
        rw [hlast] at hr'
        cases hr'
        exact absurd habove (UInt64.not_lt.mpr hle)
      rw [if_pos habove, if_neg hnot]
      rfl
    · have hspent : Spent sp.consumedThroughSeq (contentRecords x content) :=
        ⟨r, hlast, UInt64.not_lt.mp habove⟩
      rw [if_neg habove, if_pos hspent]
      by_cases hid : info.id = sp.activeSegmentId
      · rw [if_pos hid, if_pos hid]
      · rw [if_neg hid, if_neg hid]

theorem cleanupSegment_eq_ok
    (hget : sp.dir.get? info.path = some content) (hfit : CountersFit x .default content)
    (hrun : cleanupSegment x info sp = .ok () sp') :
    (¬ Spent sp.consumedThroughSeq (contentRecords x content) ∧ sp' = sp)
      ∨ (Spent sp.consumedThroughSeq (contentRecords x content) ∧ (info.id = sp.activeSegmentId →
          advanceEmptyActiveSegment x sp = .ok () sp') ∧ (info.id ≠ sp.activeSegmentId →
          FileSpool.removeFile info.path sp = .ok () sp')) := by
  rw [cleanupSegment_eq hget hfit] at hrun
  by_cases hspent : Spent sp.consumedThroughSeq (contentRecords x content)
  · rw [if_pos hspent] at hrun
    refine Or.inr ⟨hspent, fun hid => ?_, fun hid => ?_⟩
    · rw [if_pos hid] at hrun
      exact hrun
    · rw [if_neg hid] at hrun
      exact hrun
  · rw [if_neg hspent] at hrun
    cases hrun
    exact Or.inl ⟨hspent, rfl⟩

theorem Shows.advanceEmptyActiveSegment (h : sp.Shows v)
    (hcut : Cuttable x sp.writerConfig v.active.pending)
    (hrun : advanceEmptyActiveSegment x sp = .ok () sp') :
    sp'.Shows (⟨v.closed, ⟨[], [], []⟩⟩ : SegmentLog x) ∧ sp'.settings = sp.settings
      ∧ sp'.consumedThroughSeq = sp.consumedThroughSeq
      ∧ sp.activeSegmentId < sp'.activeSegmentId := by
  obtain ⟨_, sp₁, hblock, hrun⟩ := bind_eq_ok_iff.mp hrun
  obtain ⟨a, -, hgrew, hid⟩ := h.flushBlock hcut hblock
  rw [get_bind] at hrun
  obtain ⟨_, sp₂, hnext, hrun⟩ := bind_eq_ok_iff.mp hrun
  obtain ⟨disk, -, hshows, hsettings, hconsumed, hlt⟩ := hgrew.shows.openNextSegment hnext
  have hold : (⟨sp₁.activeSegmentId, disk⟩ : ClosedSegment x)
      ∈ v.closed ++ [⟨sp₁.activeSegmentId, disk⟩] := mem_append_right _ (mem_singleton_self _)
  have hpath : sp₁.activeSegmentPath = segmentPath sp₂.baseStem sp₁.activeSegmentId := by
    rw [show sp₂.baseStem = sp₁.baseStem from
      congrArg Settings.baseStem hsettings]
    exact hgrew.shows.path
  have hhas : sp₂.dir.has sp₁.activeSegmentPath = true := by
    have hget := hshows.holds.get (mem_append_left _ (mem_map_of_mem hold))
    rw [Directory.has, hpath]
    exact congrArg Option.isSome hget
  rw [get_bind] at hrun
  simp only [hhas, if_true] at hrun
  rw [hpath] at hrun
  obtain ⟨hshows', hsettings', hconsumed', hid'⟩ := hshows.removeFile hrun
  rw [append_nil] at hshows'
  refine ⟨hshows', hsettings'.trans (hsettings.trans hgrew.settings),
    hconsumed'.trans (hconsumed.trans hgrew.consumed), ?_⟩
  rw [hid', ← hid]
  exact hlt

theorem Shows.cleanupLoop (hx : x.RoundTrip)
    {done rest : List (ClosedSegment x)} {active : ActiveSegment x}
    (h : sp.Shows ⟨done ++ rest, active⟩) (hcut : Cuttable x sp.writerConfig active.pending)
    (hfit : ∀ s ∈ rest, CountersFit x .default s.file.content)
    (hactive : CountersFit x .default (active.disk.flatMap Piece.bytes))
    (hrun : cleanupLoop x ((rest.map ClosedSegment.file
      ++ [(⟨sp.activeSegmentId, active.disk.flatMap Piece.bytes⟩ :
        Segment)]).map (Segment.info sp.baseStem)) sp = .ok () sp') : sp'.Shows ⟨done ++ rest.filter
          (fun s => ¬ Spent sp.consumedThroughSeq s.records),
        if Spent sp.consumedThroughSeq active.onDisk then ⟨[], [], []⟩
        else active⟩ ∧ sp'.settings = sp.settings ∧ sp'.consumedThroughSeq = sp.consumedThroughSeq
      ∧ sp.activeSegmentId ≤ sp'.activeSegmentId := by
  induction rest generalizing sp done with
  | nil =>
    have hget := h.holds.get (mem_append_right _ (mem_singleton_self _))
    have hread : contentRecords x (active.disk.flatMap Piece.bytes)
        = active.onDisk := contentRecords_pieces hx fun p hp =>
      h.writer.readable p (mem_append_left _ hp)
    obtain ⟨_, sp₁, hseg, hdone⟩ := bind_eq_ok_iff.mp hrun
    cases hdone
    rcases cleanupSegment_eq_ok hget hactive hseg with
      ⟨hnot, rfl⟩ | ⟨hspent, hadvance, -⟩
    · rw [hread] at hnot
      rw [if_neg hnot]
      exact ⟨h, rfl, rfl, UInt64.le_refl _⟩
    · rw [hread] at hspent
      rw [if_pos hspent]
      obtain ⟨hshows, hsettings, hconsumed, hlt⟩ := h.advanceEmptyActiveSegment hcut (hadvance rfl)
      exact ⟨hshows, hsettings, hconsumed, UInt64.le_of_lt hlt⟩
  | cons s rest ih =>
    have hmem : s ∈ done ++ s :: rest := mem_append_right _ (mem_cons_self ..)
    have hread : contentRecords x s.file.content = s.records :=
      contentRecords_pieces hx (h.closed s hmem)
    obtain ⟨_, sp₁, hseg, hrun⟩ := bind_eq_ok_iff.mp hrun
    rcases cleanupSegment_eq_ok (h.holds.get (mem_append_left _ (mem_map_of_mem hmem)))
        (hfit s (mem_cons_self ..)) hseg with
      ⟨hnot, rfl⟩ | ⟨hspent, -, hremove⟩
    · rw [hread] at hnot
      rw [filter_cons_of_pos (by simpa using hnot)]
      have hrest := @ih _ (done ++ [s]) (by rw [append_assoc]; exact h) hcut
        (fun t ht => hfit t (mem_cons_of_mem _ ht)) hrun
      rw [append_assoc] at hrest
      exact hrest
    · rw [hread] at hspent
      rw [filter_cons_of_neg (by simpa using hspent)]
      obtain ⟨hshows, hsettings, hconsumed, hid⟩ := h.removeFile
        (hremove (UInt64.ne_of_lt (h.lt_active hmem)))
      have hstem : sp₁.baseStem = sp.baseStem := congrArg Settings.baseStem hsettings
      have hrest := ih hshows (writerConfig_of_settings hsettings ▸ hcut)
        (fun t ht => hfit t (mem_cons_of_mem _ ht)) (by rw [hid, hstem]; exact hrun)
      rw [hconsumed, hid, hsettings] at hrest
      exact hrest

theorem Shows.cleanupConsumedSegments (hx : x.RoundTrip) (h : sp.Shows v)
    (hcut : Cuttable x sp.writerConfig v.active.pending) (hlegible : Legible x sp.dir sp.baseStem)
    (hrun : cleanupConsumedSegments x sp = .ok () sp') : sp'.Shows (v.cleanup sp.consumedThroughSeq)
      ∧ sp'.settings = sp.settings ∧ sp'.consumedThroughSeq = sp.consumedThroughSeq
      ∧ sp.activeSegmentId ≤ sp'.activeSegmentId := by
  rw [FileSpool.cleanupConsumedSegments, get_bind, h.holds.listSegments] at hrun
  have hfit := (legible_iff h.holds).mp hlegible
  apply @Shows.cleanupLoop _ _ _ hx [] _ _ h hcut _ _ hrun
  · intro s hs
    exact hfit _ (mem_append_left _ (mem_map_of_mem hs))
  · exact hfit _ (mem_append_right _ (mem_singleton_self _))

theorem Shows.setConsumed (h : sp.Shows v) (seq : UInt64) :
    (FileSpool.withDir { sp with consumedThroughSeq := seq }
      (writeConsumedState sp.dir sp.statePath seq)).Shows v := by
  have hother : ∀ name, name ≠ sp.statePath → (writeConsumedState sp.dir sp.statePath seq).get? name
        = sp.dir.get? name := by
    intro name hname
    rw [writeConsumedState, Directory.get?_write, if_neg hname]
  apply h.withDir _ (fun s hs => hs)
  · refine ⟨h.side.statePath, readConsumedState_write _ _ _, ?_⟩
    rw [← h.side.streamId, Directory.readToString_congr (hother _ _)]
    rw [show sp.statePath = _ from h.side.statePath]
    intro heq
    exact absurd (append_cancel_left heq) (by decide)
  · exact h.holds.write_other h.side.state_name _

theorem Shows.consumeThrough (hx : x.RoundTrip) (h : sp.Shows v)
    (hcut : Cuttable x sp.writerConfig v.active.pending)
    (hlegible : Legible x sp.dir sp.baseStem) {seq : UInt64}
    (hrun : consumeThrough x seq sp = .ok () sp') : (seq ≤ sp.consumedThroughSeq ∧ sp' = sp)
      ∨ (sp.consumedThroughSeq < seq ∧ sp'.Shows (v.cleanup seq) ∧ sp'.settings = sp.settings
        ∧ sp'.consumedThroughSeq = seq ∧ sp.activeSegmentId ≤ sp'.activeSegmentId) := by
  rw [FileSpool.consumeThrough, get_bind] at hrun
  by_cases hle : seq ≤ sp.consumedThroughSeq
  · rw [if_pos hle] at hrun
    cases hrun
    exact Or.inl ⟨hle, rfl⟩
  · rw [if_neg hle] at hrun
    obtain ⟨_, sp₁, hset, hrun⟩ := bind_eq_ok_iff.mp hrun
    cases hset
    have hwritten := h.setConsumed seq
    have hlegible' : Legible x (writeConsumedState sp.dir sp.statePath seq) sp.baseStem :=
      (legible_iff hwritten.holds).mpr ((legible_iff h.holds).mp hlegible)
    obtain ⟨hshows, hsettings, hconsumed, hid⟩ :=
      hwritten.cleanupConsumedSegments hx hcut hlegible' hrun
    exact Or.inr ⟨UInt64.not_le.mp hle, hshows, hsettings, hconsumed, hid⟩

def settingsOf (config : FileConfig) (streamId : UInt64) : Settings :=
  { baseStem := deriveBaseStem config.name
    statePath := deriveBaseStem config.name ++ ".state".toList
    streamId
    segmentTargetBytes := config.segmentSizeBytes
    codec := config.codec
    blockAlignment := config.blockAlignment
    maxTotalBytes := config.maxTotalBytes }

theorem readOrCreateStreamId_eq_ok (h : readOrCreateStreamId d path fresh = .ok (id, d')) :
    (d'.readToString path).bind (parseNumber "invalid stream id: ") = .ok id
      ∧ (d' = d ∨ (¬ d.has path ∧ ∃ content, d' = d.write path content)) := by
  unfold readOrCreateStreamId at h
  by_cases hhas : d.has path
  · rw [if_pos hhas] at h
    obtain ⟨text, htext, h⟩ := bind_eq_ok_iff.mp h
    obtain ⟨n, hn, h⟩ := bind_eq_ok_iff.mp h
    cases h
    rw [htext]
    exact ⟨hn, Or.inl rfl⟩
  · rw [if_neg hhas] at h
    cases h
    refine ⟨?_, Or.inr ⟨hhas, _, rfl⟩⟩
    rw [@Directory.readToString_of_get _ _ (toText fresh)]
    · exact parseNumber_toText _ _
    · rw [Directory.get?_write, if_pos rfl]

theorem sidecars_of_open {consumed streamId : UInt64}
    (hconsumed : readConsumedState d (deriveBaseStem config.name ++ ".state".toList) = .ok consumed)
    (hstream : readOrCreateStreamId d (deriveBaseStem config.name ++ ".stream-id".toList) fresh
        = .ok (streamId, d')) : Sidecars (settingsOf config streamId) consumed d' := by
  obtain ⟨hid, hwrite⟩ := readOrCreateStreamId_eq_ok hstream
  refine ⟨rfl, ?_, hid⟩
  rw [← hconsumed]
  apply readConsumedState_congr
  rcases hwrite with rfl | ⟨-, content, rfl⟩
  · rfl
  · rw [Directory.get?_write, if_neg]
    intro heq
    exact absurd (append_cancel_left heq) (by decide)

theorem chooseActive_eq_ok {stem : Text} {last : Option SegmentInfo} {size : UInt64}
    (h : chooseActive config stem d last = .ok (id, path, size)) :
    (∃ info ∈ last, id = info.id ∧ path = info.path)
      ∨ ((∀ info ∈ last, info.id < id) ∧ path = segmentPath stem id) := by
  cases last with
  | none =>
    cases h
    exact Or.inr ⟨nofun, rfl⟩
  | some info =>
    obtain ⟨len, hlen, h⟩ := bind_eq_ok_iff.mp h
    by_cases hroom : len < config.segmentSizeBytes
    · rw [if_pos hroom] at h
      cases h
      exact Or.inl ⟨info, rfl, rfl, rfl⟩
    · rw [if_neg hroom] at h
      obtain ⟨next, hnext, h⟩ := bind_eq_ok_iff.mp h
      cases h
      refine Or.inr ⟨?_, rfl⟩
      intro i hi
      cases hi
      exact lt_nextSegmentId hnext

theorem openActive_eq_ok {config : FileConfig} {fresh : UInt64}
    {d : Directory} {segs : List (ClosedSegment x)} (hd : d.Holds (deriveBaseStem config.name)
      (segs.map ClosedSegment.file)) (hreadable : ∀ s ∈ segs, ∀ p ∈ s.pieces, p.Readable .default)
    (hsize : ∀ s ∈ segs.getLast?, s.file.content.length ≤ File.maxLen)
    (hrun : openActive config fresh d = .ok sp) : ∃ v : SegmentLog x, sp.Shows v
      ∧ sp.settings = settingsOf config sp.streamId
      ∧ readConsumedState d sp.statePath = .ok sp.consumedThroughSeq
      ∧ (∀ id, (d.readToString (sp.baseStem ++ ".stream-id".toList)).bind
          (parseNumber "invalid stream id: ") = .ok id → sp.streamId = id)
      ∧ v.active.buffered = [] ∧ v.active.pending = []
      ∧ (segs = v.closed ++ [⟨sp.activeSegmentId, v.active.disk⟩]
        ∨ (segs = v.closed ∧ v.active.disk = [] ∧ ∀ s ∈ segs, s.id < sp.activeSegmentId)) := by
  obtain ⟨consumed, hconsumed, hrun⟩ := bind_eq_ok_iff.mp hrun
  obtain ⟨⟨streamId, d'⟩, hstream, hrun⟩ := bind_eq_ok_iff.mp hrun
  obtain ⟨⟨id, path, size⟩, hchoose, hrun⟩ := bind_eq_ok_iff.mp hrun
  cases hrun
  obtain ⟨hid, hwrite⟩ := readOrCreateStreamId_eq_ok hstream
  have hd' : d'.Holds (deriveBaseStem config.name) (segs.map ClosedSegment.file) := by
    rcases hwrite with rfl | ⟨-, content, rfl⟩
    · exact hd
    · exact hd.write_other (parseSegmentId_streamId _) content
  have hside := sidecars_of_open hconsumed hstream
  have hkept : ∀ id, (d.readToString (deriveBaseStem config.name
      ++ ".stream-id".toList)).bind (parseNumber "invalid stream id: ")
        = .ok id → streamId = id := by
    intro id' hid'
    rcases hwrite with rfl | ⟨hnone, -⟩
    · exact Except.ok.inj (hid.symm.trans hid')
    · rw [Directory.readToString_of_not_has hnone] at hid'
      cases hid'
  rw [hd.listSegments, getLast?_map, getLast?_map] at hchoose
  rcases chooseActive_eq_ok hchoose with
    ⟨info, hinfo, rfl, rfl⟩ | ⟨hlt, rfl⟩
  · obtain ⟨_, hfile, rfl⟩ := Option.mem_map.mp hinfo
    obtain ⟨s, hlast, rfl⟩ := Option.mem_map.mp hfile
    obtain ⟨init, rfl⟩ := getLast?_eq_some_iff.mp hlast
    have hs : s ∈ init ++ [s] := mem_append_right _ (mem_singleton_self _)
    have hsame : d'.create (s.file.info (deriveBaseStem config.name)).path
        = d' := Directory.create_of_get (hd'.get (mem_map_of_mem hs))
    rw [map_append] at hd'
    refine ⟨⟨init, ⟨s.pieces, [], []⟩⟩, ⟨?_, rfl, rfl, ?_, ?_⟩, rfl,
      hconsumed, hkept, rfl, rfl, Or.inl rfl⟩
    · apply carries_new _ (hsize s hlast) (hreadable s hs)
      rw [hsame]
      exact hd'
    · exact fun t ht => hreadable t (mem_append_left _ ht)
    · show Sidecars _ _ (d'.create _)
      rw [hsame]
      exact hside
  · have hall : ∀ s ∈ segs, s.id < id := by
      intro s hs
      cases hlast : segs.getLast? with
      | none =>
        rw [getLast?_eq_none_iff.mp hlast] at hs
        cases hs
      | some last =>
        have hlastlt : last.id < id := by
          rw [hlast] at hlt
          exact hlt _ rfl
        obtain ⟨init, rfl⟩ := getLast?_eq_some_iff.mp hlast
        have hsorted := hd.sorted
        rw [map_append, pairwise_append] at hsorted
        rcases mem_snoc.mp hs with hs | rfl
        · exact UInt64.lt_trans (hsorted.2.2 s.file
            (mem_map_of_mem hs) last.file (mem_singleton_self _)) hlastlt
        · exact hlastlt
    refine ⟨⟨segs, ⟨[], [], []⟩⟩, ⟨?_, rfl, rfl, hreadable, ?_⟩, rfl,
      hconsumed, hkept, rfl, rfl, Or.inr ⟨rfl, rfl, hall⟩⟩
    · apply @carries_new _ _ _ _ _ [] _ (Nat.zero_le _) nofun
      apply hd'.create
      intro t ht
      obtain ⟨s, hs, rfl⟩ := mem_map.mp ht
      exact hall s hs
    · exact hside.congr (Directory.agrees_create _ _ _)

theorem Shows.openActive
    (h : sp.Shows v) (hbuffered : v.active.buffered = []) (hpending : v.active.pending = [])
    (hsettings : sp.settings = settingsOf config sp.streamId)
    (hrun : openActive config fresh sp.dir = .ok sp') : ∃ v', Grew sp v sp' v' []
      ∧ v'.active.buffered = [] ∧ v'.active.pending = []
      ∧ (Legible x sp.dir sp.baseStem → Legible x sp'.dir sp'.baseStem) := by
  have hstem : sp.baseStem = deriveBaseStem config.name := congrArg Settings.baseStem hsettings
  have hd : sp.dir.Holds (deriveBaseStem config.name)
      ((v.closed ++ [(⟨sp.activeSegmentId, v.active.disk⟩ :
        ClosedSegment x)]).map ClosedSegment.file) := by
    rw [← hstem, map_append]
    exact h.holds
  obtain ⟨v', hshows, hsettings', hconsumed, hstream, hbuffered', hpending',
    hsegs⟩ := openActive_eq_ok (x := x) hd (by
        intro s hs p hp
        rcases mem_snoc.mp hs with hs | rfl
        · exact h.closed s hs p hp
        · exact h.writer.readable p (mem_append_left _ hp))
      (by
        intro s hs
        rw [getLast?_concat] at hs
        cases hs
        exact h.writer.sink.size) hrun
  have hid : sp'.streamId = sp.streamId := by
    apply hstream
    rw [show sp'.baseStem = sp.baseStem from
      (congrArg Settings.baseStem hsettings').trans hstem.symm]
    exact h.side.streamId
  have hsame : sp'.settings = sp.settings := by rw [hsettings', hsettings, hid]
  have hsame' : sp'.consumedThroughSeq = sp.consumedThroughSeq := by
    apply Except.ok.inj (hconsumed.symm.trans _)
    rw [show sp'.statePath = sp.statePath from
      congrArg Settings.statePath hsame]
    exact h.side.state
  have hstored := v.stored_of_flushed hbuffered hpending sp.activeSegmentId
  have hpending'' : v'.active.pending <:+ v.active.pending ++ [] := by
    rw [hpending']
    exact nil_suffix
  have hlegible' : Legible x sp.dir sp.baseStem → Legible x sp'.dir sp'.baseStem := by
    intro hlegible
    rw [legible_iff hshows.holds]
    have hfit := (legible_iff (hstem ▸ hd)).mp hlegible
    rcases hsegs with hsegs | ⟨hsegs, hempty, -⟩
    · rw [hsegs, map_append] at hfit
      exact hfit
    · rw [hsegs] at hfit
      intro s hs
      rcases mem_snoc.mp hs with hs | rfl
      · exact hfit s hs
      · rw [hempty]
        exact countersFit_nil x
  refine ⟨v', ?_, hbuffered', hpending', hlegible'⟩
  rcases hsegs with hsegs | ⟨hsegs, hempty, hlt⟩
  · have hstored' := v'.stored_of_flushed hbuffered' hpending' sp'.activeSegmentId
    obtain ⟨hclosed, hactive⟩ := append_inj' hsegs rfl
    have hactive := List.cons.inj hactive
    refine ⟨hshows, hsame, hsame', ⟨[], ?_, fun _ => rfl⟩, ?_, ?_, hpending''⟩
    · rw [nil_append, append_nil, hstored, hstored', hsegs]
    · rw [show sp'.activeSegmentId = sp.activeSegmentId from
        (congrArg ClosedSegment.id hactive.1).symm]
      exact UInt64.le_refl _
    · intro s hs _
      rw [hclosed]
      exact hs
  · have hold := hlt _ (mem_append_right _ (mem_singleton_self _))
    refine ⟨hshows, hsame, hsame', ⟨[], ?_, fun _ => rfl⟩, UInt64.le_of_lt hold, ?_, hpending''⟩
    · rw [nil_append, append_nil, hstored, hsegs,
        SegmentLog.stored, ActiveSegment.records_eq, hbuffered', hpending', hempty]
      exact append_nil _
    · intro s hs hlt
      rw [← hsegs] at hs
      rcases mem_snoc.mp hs with hs | rfl
      · exact hs
      · exact absurd hlt (UInt64.lt_irrefl _)

theorem openIn_eq_ok_iff :
    openIn x config fresh d = .ok sp' ↔ ∃ sp, FileSpool.openActive config fresh d = .ok sp
        ∧ cleanupConsumedSegments x sp = .ok () sp' := by
  rw [openIn, Except.bind_eq_ok_iff]
  constructor
  · intro ⟨sp, hopen, hrun⟩
    refine ⟨sp, hopen, ?_⟩
    cases hclean : cleanupConsumedSegments x sp with
    | ok u sp₁ =>
      rw [hclean] at hrun
      cases hrun
      rfl
    | error err sp₁ =>
      rw [hclean] at hrun
      cases hrun
  · intro ⟨sp, hopen, hrun⟩
    refine ⟨sp, hopen, ?_⟩
    rw [hrun]
    rfl

theorem drop_eq (h : flushPending x sp = .ok () sp') : sp.drop x = sp'.dir := by
  obtain ⟨_, sp₁, hblock, h⟩ := bind_eq_ok_iff.mp h
  obtain ⟨_, sp₂, hflush, hsize⟩ := bind_eq_ok_iff.mp h
  obtain ⟨w, hwriter, rfl⟩ := onWriter_eq_ok_iff.mp hblock
  obtain ⟨inner, hinner, rfl⟩ := onInner_eq_ok_iff.mp hflush
  obtain ⟨len, -, hset⟩ := ofExcept_bind_eq_ok_iff.mp hsize
  cases hset
  rw [drop, hwriter]
  simp only [BufWriter.close]
  rw [show BufWriter.flush w.inner = _ from hinner]
  rfl

end FileSpool

end Logjet
