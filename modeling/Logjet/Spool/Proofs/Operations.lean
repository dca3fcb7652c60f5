/-
The methods of the file spool, one lemma each. `Shows` ties a spool to a log
kept in segments (`SegmentLog`).
-/
import Logjet.Spool.Proofs.Segment
import Logjet.Spool.Proofs.Reading

namespace Logjet

open List EStateM

variable {x : External}

structure ClosedSegment (x : External) where
  id : UInt64
  pieces : List (Piece x)

def ClosedSegment.file (s : ClosedSegment x) : Segment := ⟨s.id, s.pieces.flatMap Piece.bytes⟩

def ClosedSegment.records (s : ClosedSegment x) : List OwnedRecord := s.pieces.flatMap Piece.records

structure SegmentLog (x : External) where
  closed : List (ClosedSegment x)
  active : ActiveSegment x

namespace SegmentLog

def closedRecords (v : SegmentLog x) : List OwnedRecord := v.closed.flatMap ClosedSegment.records

def stored (v : SegmentLog x) : List OwnedRecord := v.closedRecords ++ v.active.records

def readable (v : SegmentLog x) : List OwnedRecord := v.closedRecords ++ v.active.onDisk

def Room (v : SegmentLog x) : Prop :=
  ((v.active.disk ++ v.active.buffered).flatMap Piece.bytes).length ≤ File.maxLen

end SegmentLog

namespace FileSpool

structure Settings where
  baseStem : Text
  statePath : Text
  streamId : UInt64
  segmentTargetBytes : UInt64
  codec : Codec
  blockAlignment : Nat
  maxTotalBytes : UInt64

def settings (sp : FileSpool) : Settings :=
  { baseStem := sp.baseStem, statePath := sp.statePath
    streamId := sp.streamId, segmentTargetBytes := sp.segmentTargetBytes
    codec := sp.codec, blockAlignment := sp.blockAlignment
    maxTotalBytes := sp.maxTotalBytes }

def writerConfig (sp : FileSpool) : WriterConfig := segmentWriterConfig sp.codec sp.blockAlignment

structure Sidecars (s : Settings) (consumed : UInt64) (d : Directory) : Prop where
  statePath : s.statePath = s.baseStem ++ ".state".toList
  state : readConsumedState d s.statePath = .ok consumed
  streamId : (d.readToString (s.baseStem ++ ".stream-id".toList)).bind
    (parseNumber "invalid stream id: ") = .ok s.streamId

structure Shows (sp : FileSpool) (v : SegmentLog x) : Prop where
  writer : sp.activeWriter.Carries sp.baseStem
    (v.closed.map ClosedSegment.file) sp.activeSegmentId v.active
  path : sp.activeSegmentPath = segmentPath sp.baseStem sp.activeSegmentId
  config : sp.activeWriter.config = sp.writerConfig
  closed : ∀ s ∈ v.closed, ∀ p ∈ s.pieces, p.Readable .default
  side : Sidecars sp.settings sp.consumedThroughSeq sp.dir

variable {sp sp' : FileSpool} {v : SegmentLog x}

theorem writerConfig_of_settings (h : sp'.settings = sp.settings) :
    sp'.writerConfig = sp.writerConfig :=
  congrArg₂ segmentWriterConfig (congrArg Settings.codec h)
    (congrArg Settings.blockAlignment h)

theorem Shows.holds (h : sp.Shows v) : sp.dir.Holds sp.baseStem (v.closed.map ClosedSegment.file
      ++ [⟨sp.activeSegmentId, v.active.disk.flatMap Piece.bytes⟩]) := h.writer.sink.dir

theorem Shows.lt_active (h : sp.Shows v) {s : ClosedSegment x}
    (hs : s ∈ v.closed) : s.id < sp.activeSegmentId :=
  (pairwise_append.mp h.holds.sorted).2.2 s.file (mem_map_of_mem hs) _ (mem_singleton_self _)

variable {s : Settings} {consumed id id' : UInt64} {d : Directory} {sp₁ sp₂ : FileSpool}
  {new : List OwnedRecord} {α : Type} {a : α}

theorem Sidecars.state_name (h : Sidecars s consumed d) :
    parseSegmentId s.statePath s.baseStem = none := by
  rw [h.statePath]
  exact parseSegmentId_state _

theorem Sidecars.congr {d' : Directory} (h : Sidecars s consumed d)
    (hagrees : Directory.Agrees s.baseStem d d') : Sidecars s consumed d' := by
  refine ⟨h.statePath, ?_, ?_⟩
  · rw [← h.state]
    exact readConsumedState_congr (hagrees _ h.state_name)
  · rw [← h.streamId, Directory.readToString_congr (hagrees _ (parseSegmentId_streamId _))]

theorem Shows.side_of_agrees (h : sp.Shows v) (hagrees : Directory.Agrees sp.baseStem sp.dir d) :
    Sidecars sp.settings sp.consumedThroughSeq d := h.side.congr hagrees

structure Grew (sp : FileSpool) (v : SegmentLog x) (sp' : FileSpool)
    (v' : SegmentLog x) (new : List OwnedRecord) : Prop where
  shows : sp'.Shows v'
  settings : sp'.settings = sp.settings
  consumed : sp'.consumedThroughSeq = sp.consumedThroughSeq
  stored : ∃ dropped, dropped ++ v'.stored = v.stored ++ new ∧ (sp.maxTotalBytes = 0 → dropped = [])
  ids : sp.activeSegmentId ≤ sp'.activeSegmentId
  older : ∀ s ∈ v'.closed, s.id < sp.activeSegmentId → s ∈ v.closed
  pending : v'.active.pending <:+ v.active.pending ++ new

theorem Grew.trans {v₁ v₂ : SegmentLog x} {new' : List OwnedRecord} (h : Grew sp v sp₁ v₁ new)
    (h' : Grew sp₁ v₁ sp₂ v₂ new') : Grew sp v sp₂ v₂ (new ++ new') := by
  obtain ⟨dropped, hstored, hnone⟩ := h.stored
  obtain ⟨dropped', hstored', hnone'⟩ := h'.stored
  have hmax : sp₁.maxTotalBytes = sp.maxTotalBytes := congrArg Settings.maxTotalBytes h.settings
  refine ⟨h'.shows, h'.settings.trans h.settings,
    h'.consumed.trans h.consumed, ⟨dropped ++ dropped', ?_, ?_⟩,
    UInt64.le_trans h.ids h'.ids, ?_, ?_⟩
  · rw [append_assoc, hstored', ← append_assoc, hstored, append_assoc]
  · intro hzero
    rw [hnone hzero, hnone' (hmax.trans hzero)]
    rfl
  · intro s hs hlt
    exact h.older s (h'.older s hs (UInt64.lt_of_lt_of_le hlt h.ids)) hlt
  · refine h'.pending.trans ?_
    rw [← append_assoc]
    exact suffix_append_self_iff.mpr h.pending

theorem onWriter_eq_ok_iff {act : EStateM Error (LogjetWriter BufWriter) α} :
    onWriter act sp = .ok a sp' ↔ ∃ w, act sp.activeWriter = .ok a w
        ∧ sp' = { sp with activeWriter := w } := by
  unfold onWriter
  cases act sp.activeWriter with
  | ok b w =>
    simp only [EStateM.Result.ok.injEq]
    constructor
    · intro ⟨hb, hw⟩
      exact ⟨w, ⟨hb, rfl⟩, hw.symm⟩
    · intro ⟨w', ⟨hb, hw⟩, hsp⟩
      exact ⟨hb, hw ▸ hsp.symm⟩
  | error err w => simp

theorem onInner_eq_ok_iff {act : EStateM IoError BufWriter α} :
    onInner act sp = .ok a sp' ↔ ∃ inner, act sp.activeWriter.inner = .ok a inner
        ∧ sp' = { sp with activeWriter := { sp.activeWriter with inner } } := by
  unfold onInner
  cases act sp.activeWriter.inner with
  | ok b inner =>
    simp only [EStateM.Result.ok.injEq]
    constructor
    · intro ⟨hb, hw⟩
      exact ⟨inner, ⟨hb, rfl⟩, hw.symm⟩
    · intro ⟨inner', ⟨hb, hw⟩, hsp⟩
      exact ⟨hb, hw ▸ hsp.symm⟩
  | error err inner => simp

theorem Shows.grew_writer (h : sp.Shows v) {w : LogjetWriter BufWriter} {a : ActiveSegment x}
    (hcarries : w.Carries sp.baseStem (v.closed.map ClosedSegment.file) sp.activeSegmentId a)
    (hconfig : w.config = sp.activeWriter.config)
    (hagrees : Directory.Agrees sp.baseStem sp.dir w.inner.inner.dir)
    (hrecords : a.records = v.active.records ++ new)
    (hpending : a.pending <:+ v.active.pending ++ new) :
    Grew sp v { sp with activeWriter := w } { v with active := a } new := by
  refine ⟨⟨hcarries, h.path, hconfig.trans h.config, h.closed, ?_⟩, rfl, rfl,
    ⟨[], ?_, fun _ => rfl⟩, UInt64.le_refl _, fun _ hs _ => hs, hpending⟩
  · exact h.side_of_agrees hagrees
  · show v.closedRecords ++ a.records = _
    rw [hrecords, ← append_assoc]
    rfl

theorem Shows.push (h : sp.Shows v) {r : WireRecord}
    (hcut : Cuttable x sp.writerConfig (v.active.pending ++ [r]))
    (hrun : onWriter (LogjetWriter.push x r) sp = .ok () sp') : ∃ v', Grew sp v sp' v' [r] := by
  obtain ⟨w, hpush, rfl⟩ := onWriter_eq_ok_iff.mp hrun
  rw [← h.config] at hcut
  obtain ⟨a, hcarries, hrecords, hpending, hconfig, hagrees⟩ := h.writer.push hcut hpush
  exact ⟨_, h.grew_writer hcarries hconfig hagrees hrecords hpending⟩

theorem Shows.flushBlock (h : sp.Shows v) (hcut : Cuttable x sp.writerConfig v.active.pending)
    (hrun : onWriter (LogjetWriter.flushBlock x) sp = .ok () sp') :
    ∃ a : ActiveSegment x, a.pending = [] ∧ Grew sp v sp' { v with active := a } []
      ∧ sp'.activeSegmentId = sp.activeSegmentId := by
  obtain ⟨w, hwriter, rfl⟩ := onWriter_eq_ok_iff.mp hrun
  rw [← h.config] at hcut
  obtain ⟨a, hcarries, hempty, hrecords, hconfig, hagrees⟩ := h.writer.flushBlock hcut hwriter
  refine ⟨a, hempty, h.grew_writer hcarries hconfig hagrees ?_ ?_, rfl⟩
  · rw [hrecords, append_nil]
  · rw [hempty]
    exact nil_suffix

theorem Shows.flushAll (h : sp.Shows v) (hcut : Cuttable x sp.writerConfig v.active.pending)
    (hblock : onWriter (LogjetWriter.flushBlock x) sp = .ok () sp₁)
    (hflush : onInner BufWriter.flush sp₁ = .ok () sp') : ∃ disk : List (Piece x),
      disk.flatMap Piece.records = v.active.records
        ∧ Grew sp v sp' { v with active := ⟨disk, [], []⟩ } []
        ∧ sp'.activeSegmentId = sp.activeSegmentId := by
  obtain ⟨w, hwriter, rfl⟩ := onWriter_eq_ok_iff.mp hblock
  obtain ⟨inner, hinner, rfl⟩ := onInner_eq_ok_iff.mp hflush
  rw [← h.config] at hcut
  obtain ⟨a, hcarries, hempty, hrecords, hconfig, hagrees⟩ := h.writer.flushBlock hcut hwriter
  obtain ⟨hcarries', hagrees'⟩ := hcarries.flushInner hinner
  rw [hempty] at hcarries'
  have hall : (a.disk ++ a.buffered).flatMap Piece.records = v.active.records := by
    rw [← hrecords, ActiveSegment.records_eq, hempty, append_nil]
  refine ⟨a.disk ++ a.buffered, hall,
    h.grew_writer hcarries' hconfig (hagrees.trans hagrees') ?_ ?_, rfl⟩
  · rw [ActiveSegment.records_eq]
    simpa using hall
  · exact nil_suffix

theorem Shows.refreshActiveSize (h : sp.Shows v) (hrun : refreshActiveSize sp = .ok () sp') :
    sp' = { sp with activeSizeBytes :=
        UInt64.ofNat (v.active.disk.flatMap Piece.bytes).length } := by
  rw [FileSpool.refreshActiveSize, get_bind] at hrun
  have hget : sp.dir.get? sp.activeSegmentPath = some (v.active.disk.flatMap Piece.bytes) := by
    rw [h.path]
    exact h.holds.get (mem_append_right _ (mem_singleton_self _))
  rw [Directory.len, hget] at hrun
  cases hrun
  rfl

theorem Shows.withSize (h : sp.Shows v) (size : UInt64) :
    Grew sp v { sp with activeSizeBytes := size } v [] :=
  ⟨⟨h.writer, h.path, h.config, h.closed, h.side⟩, rfl, rfl,
    ⟨[], (append_nil _).symm, fun _ => rfl⟩, UInt64.le_refl _, fun _ hs _ => hs, by rw [append_nil]⟩

theorem Shows.flushPending (h : sp.Shows v) (hcut : Cuttable x sp.writerConfig v.active.pending)
    (hrun : flushPending x sp = .ok () sp') : ∃ disk : List (Piece x),
      disk.flatMap Piece.records = v.active.records
        ∧ Grew sp v sp' { v with active := ⟨disk, [], []⟩ } []
        ∧ sp'.activeSegmentId = sp.activeSegmentId := by
  obtain ⟨_, sp₁, hblock, hrun⟩ := bind_eq_ok_iff.mp hrun
  obtain ⟨_, sp₂, hflush, hsize⟩ := bind_eq_ok_iff.mp hrun
  obtain ⟨disk, hrecords, hgrew, hid⟩ := h.flushAll hcut hblock hflush
  rw [hgrew.shows.refreshActiveSize hsize]
  exact ⟨disk, hrecords, hgrew.trans (hgrew.shows.withSize _), hid⟩

theorem nextSegmentId_eq_ok_iff :
    nextSegmentId id = .ok id' ↔ id.toNat + 1 < 2 ^ 64 ∧ id' = id + 1 := by
  unfold nextSegmentId
  by_cases hlt : id.toNat + 1 < 2 ^ 64
  · rw [if_pos hlt, Except.ok.injEq]
    exact ⟨fun h => ⟨hlt, h.symm⟩, fun h => h.2.symm⟩
  · rw [if_neg hlt]
    constructor
    · intro h
      cases h
    · intro h
      exact absurd h.1 hlt

theorem lt_nextSegmentId (h : nextSegmentId id = .ok id') : id < id' := by
  obtain ⟨hlt, rfl⟩ := nextSegmentId_eq_ok_iff.mp h
  rw [UInt64.lt_iff_toNat_lt, UInt64.toNat_add]
  simp only [UInt64.toNat_one]
  omega

theorem carries_new {d : Directory} {stem : Text} {closed : List Segment}
    {id : UInt64} {disk : List (Piece x)}
    (hd : d.Holds stem (closed ++ [⟨id, disk.flatMap Piece.bytes⟩]))
    (hsize : (disk.flatMap Piece.bytes).length ≤ File.maxLen)
    (hreadable : ∀ p ∈ disk, p.Readable .default) (config : WriterConfig) :
    (LogjetWriter.withConfig (BufWriter.new ⟨d, segmentPath stem id⟩)
      config).Carries stem closed id (⟨disk, [], []⟩ : ActiveSegment x) := by
  refine ⟨⟨hd, hsize, rfl, rfl⟩, ⟨⟨0, 0⟩, ⟨nofun, nofun, rfl, rfl⟩,
    ⟨fun _ => ⟨rfl, rfl⟩, by simp, by simp⟩⟩, ?_⟩
  intro p hp
  rw [append_nil] at hp
  exact hreadable p hp

theorem Shows.openNextSegment (h : sp.Shows v) (hrun : openNextSegment sp = .ok () sp') :
    ∃ disk : List (Piece x), ((disk = v.active.disk ∧ ¬ v.Room)
          ∨ disk = v.active.disk ++ v.active.buffered)
        ∧ sp'.Shows (⟨v.closed ++ [⟨sp.activeSegmentId, disk⟩], ⟨[], [], []⟩⟩ : SegmentLog x)
        ∧ sp'.settings = sp.settings ∧ sp'.consumedThroughSeq = sp.consumedThroughSeq
        ∧ sp.activeSegmentId < sp'.activeSegmentId := by
  obtain ⟨id, hid, hrun⟩ := ofExcept_bind_eq_ok_iff.mp hrun
  have hlt := lt_nextSegmentId hid
  cases hrun
  let created := sp.dir.create (segmentPath sp.baseStem id)
  let old : BufWriter := { sp.activeWriter.inner with
    inner := { sp.activeWriter.inner.inner with dir := created } }
  have hcreated : created.Holds sp.baseStem (v.closed.map ClosedSegment.file ++ ⟨sp.activeSegmentId,
        v.active.disk.flatMap Piece.bytes⟩ :: [⟨id, []⟩]) := by
    have hnew := @Directory.Holds.create _ _ _ h.holds id (by
      intro s hs
      rcases mem_snoc.mp hs with hs | rfl
      · obtain ⟨t, ht, rfl⟩ := mem_map.mp hs
        exact UInt64.lt_trans (h.lt_active ht) hlt
      · exact hlt)
    rw [append_assoc] at hnew
    exact hnew
  have hclosed : ∃ disk : List (Piece x), ((disk = v.active.disk ∧ ¬ v.Room)
          ∨ disk = v.active.disk ++ v.active.buffered) ∧ old.close.Holds sp.baseStem
          (v.closed.map ClosedSegment.file ++ ⟨sp.activeSegmentId,
            disk.flatMap Piece.bytes⟩ :: [⟨id, []⟩])
        ∧ Directory.Agrees sp.baseStem sp.dir old.close := by
    have hcreate : Directory.Agrees sp.baseStem sp.dir created := Directory.agrees_create _ _ _
    rcases old.close_eq with hclose | ⟨hclose, hroom⟩
    · refine ⟨_, Or.inr rfl, ?_, ?_⟩
      · rw [hclose, flatMap_append, ← h.writer.sink.buf]
        show (created.alter sp.activeWriter.inner.inner.name _).Holds _ _
        rw [h.writer.sink.name]
        exact hcreated.alter_at _
      · intro name hname
        rw [hclose, Directory.get?_alter, if_neg]
        · exact hcreate name hname
        · show name ≠ sp.activeWriter.inner.inner.name
          rw [h.writer.sink.name]
          exact ne_segmentPath hname _
    · refine ⟨_, Or.inl ⟨rfl, ?_⟩, ?_, ?_⟩
      · have hget : created.get? old.inner.name = some (v.active.disk.flatMap Piece.bytes) := by
          rw [show old.inner.name = _ from h.writer.sink.name]
          exact hcreated.get (s := ⟨sp.activeSegmentId,
            v.active.disk.flatMap Piece.bytes⟩) (by simp)
        rw [show old.inner.dir = created from rfl, hget,
          show old.buf = _ from h.writer.sink.buf, Option.getD_some,
          ← length_append, ← flatMap_append] at hroom
        exact hroom
      · rw [hclose]
        exact hcreated
      · rw [hclose]
        exact hcreate
  obtain ⟨disk, hdisk, hholds, hagrees⟩ := hclosed
  refine ⟨disk, hdisk, ⟨?_, rfl, rfl, ?_, ?_⟩, rfl, rfl, hlt⟩
  · apply @carries_new _ _ _ _ _ [] _ (Nat.zero_le _) nofun
    rw [map_append, append_assoc]
    exact hholds
  · intro s hs p hp
    rcases mem_snoc.mp hs with hs | rfl
    · exact h.closed s hs p hp
    · apply h.writer.readable p
      rcases hdisk with ⟨rfl, -⟩ | rfl
      · exact mem_append_left _ hp
      · exact hp
  · exact h.side_of_agrees hagrees

theorem Shows.withDir (h : sp.Shows v)
    {closed : List (ClosedSegment x)} (hd : d.Holds sp.baseStem (closed.map ClosedSegment.file
      ++ [⟨sp.activeSegmentId, v.active.disk.flatMap Piece.bytes⟩]))
    (hclosed : ∀ s ∈ closed, s ∈ v.closed) (hside : Sidecars sp.settings consumed d) :
    (withDir { sp with consumedThroughSeq := consumed } d).Shows { v with closed := closed } := by
  obtain ⟨base, hp, hneat⟩ := h.writer.pending
  exact ⟨⟨⟨hd, h.writer.sink.size, h.writer.sink.name, h.writer.sink.buf⟩,
      ⟨base, ⟨hp.based, hp.below, hp.buf, hp.count⟩,
        ⟨hneat.unset, hneat.first, hneat.target⟩⟩, h.writer.readable⟩,
    h.path, h.config, fun s hs => h.closed s (hclosed s hs), hside⟩

theorem Shows.filter_id {before after : List (ClosedSegment x)}
    {s : ClosedSegment x} {active : ActiveSegment x} (h : sp.Shows ⟨before ++ s :: after, active⟩) :
    (before ++ s :: after).filter (fun t => t.id ≠ s.id) = before ++ after := by
  have hsorted := (pairwise_append.mp h.holds.sorted).1
  rw [pairwise_map, pairwise_append, pairwise_cons] at hsorted
  obtain ⟨-, ⟨hafter, -⟩, hbefore⟩ := hsorted
  rw [filter_append, filter_cons_of_neg (by simp)]
  congr 1
  · rw [filter_eq_self]
    intro t ht
    exact decide_eq_true (UInt64.ne_of_lt (hbefore t ht s (mem_cons_self ..)))
  · rw [filter_eq_self]
    intro t ht
    exact decide_eq_true (UInt64.ne_of_lt (hafter t ht)).symm

theorem Shows.removeFile {before after : List (ClosedSegment x)}
    {s : ClosedSegment x} {active : ActiveSegment x} (h : sp.Shows ⟨before ++ s :: after, active⟩)
    (hrun : removeFile (segmentPath sp.baseStem s.id) sp = .ok () sp') :
    sp'.Shows ⟨before ++ after, active⟩ ∧ sp'.settings = sp.settings
      ∧ sp'.consumedThroughSeq = sp.consumedThroughSeq
      ∧ sp'.activeSegmentId = sp.activeSegmentId := by
  have hs : s ∈ before ++ s :: after := mem_append_right _ (mem_cons_self ..)
  obtain ⟨d, hd, hrun⟩ := ofExcept_bind_eq_ok_iff.mp hrun
  unfold Directory.removeFile at hd
  split at hd
  · cases hd
    cases hrun
    rw [← h.filter_id]
    refine ⟨h.withDir ?_ (fun t ht => mem_of_mem_filter ht) ?_, rfl, rfl, rfl⟩
    · have herase := h.holds.erase s.id
      have hactive : decide (sp.activeSegmentId ≠ s.id) = true :=
        decide_eq_true (UInt64.ne_of_lt (h.lt_active hs)).symm
      rw [filter_append, filter_map] at herase
      simp only [filter_cons, hactive, if_true, filter_nil] at herase
      exact herase
    · apply h.side_of_agrees
      intro name hname
      rw [Directory.get?_erase, if_neg (ne_segmentPath hname s.id)]
  · cases hd

theorem Shows.retentionLoop (h : sp.Shows v) (excess : UInt64)
    (hrun : retentionLoop excess ((v.closed.map ClosedSegment.file
      ++ [(⟨sp.activeSegmentId, v.active.disk.flatMap Piece.bytes⟩ :
        Segment)]).map (Segment.info sp.baseStem)) sp = .ok () sp') :
    ∃ dropped rest, v.closed = dropped ++ rest ∧ sp'.Shows { v with closed := rest }
      ∧ sp'.settings = sp.settings ∧ sp'.consumedThroughSeq = sp.consumedThroughSeq
      ∧ sp'.activeSegmentId = sp.activeSegmentId := by
  obtain ⟨closed, active⟩ := v
  induction closed generalizing sp excess with
  | nil =>
    rw [map_nil, nil_append, map_cons, map_nil, FileSpool.retentionLoop, get_bind, if_pos] at hrun
    · cases hrun
      exact ⟨[], [], rfl, h, rfl, rfl, rfl⟩
    · simp [Segment.info]
  | cons s closed ih =>
    rw [map_cons, cons_append, map_cons, FileSpool.retentionLoop, get_bind] at hrun
    by_cases hstop : (excess = 0 || (s.file.info sp.baseStem).id = sp.activeSegmentId) = true
    · rw [if_pos hstop] at hrun
      cases hrun
      exact ⟨[], s :: closed, rfl, h, rfl, rfl, rfl⟩
    · rw [if_neg hstop] at hrun
      obtain ⟨_, sp₁, hremove, hrun⟩ := bind_eq_ok_iff.mp hrun
      obtain ⟨hshows, hsettings, hconsumed, hid⟩ := @Shows.removeFile _ _ _ [] _ _ _ h hremove
      have hstem : sp₁.baseStem = sp.baseStem := congrArg Settings.baseStem hsettings
      rw [← hid, ← hstem] at hrun
      obtain ⟨dropped, rest, hsplit, hshows', hsettings', hconsumed', hid'⟩ := ih _ hshows hrun
      exact ⟨s :: dropped, rest, congrArg (s :: ·) hsplit, hshows',
        hsettings'.trans hsettings, hconsumed'.trans hconsumed, hid'.trans hid⟩

theorem Shows.enforceRetention (h : sp.Shows v) (hrun : enforceRetention sp = .ok () sp') :
    ∃ dropped rest, v.closed = dropped ++ rest ∧ (sp.maxTotalBytes = 0 → dropped = [])
      ∧ sp'.Shows { v with closed := rest } ∧ sp'.settings = sp.settings
      ∧ sp'.consumedThroughSeq = sp.consumedThroughSeq
      ∧ sp'.activeSegmentId = sp.activeSegmentId := by
  rw [FileSpool.enforceRetention, get_bind] at hrun
  by_cases hzero : sp.maxTotalBytes = 0
  · rw [if_pos hzero] at hrun
    cases hrun
    exact ⟨[], v.closed, rfl, fun _ => rfl, h, rfl, rfl, rfl⟩
  · rw [if_neg hzero] at hrun
    split at hrun
    · cases hrun
      exact ⟨[], v.closed, rfl, fun _ => rfl, h, rfl, rfl, rfl⟩
    · rw [h.holds.listSegments] at hrun
      obtain ⟨dropped, rest, hsplit, hrest⟩ := h.retentionLoop _ hrun
      exact ⟨dropped, rest, hsplit, fun h0 => absurd h0 hzero, hrest⟩

theorem Shows.setLen (h : sp.Shows v) {len : UInt64}
    (hlen : len = UInt64.ofNat (v.active.disk.flatMap Piece.bytes).length) :
    (sp.withDir (sp.dir.setLen sp.activeWriter.inner.inner.name len)).Shows v := by
  have hroom := h.writer.sink.size
  have hnat : len.toNat = (v.active.disk.flatMap Piece.bytes).length := by
    rw [hlen]
    unfold File.maxLen at hroom
    exact UInt64.toNat_ofNat_of_lt'
      (show (v.active.disk.flatMap Piece.bytes).length < 2 ^ 64 by omega)
  rw [h.writer.sink.name]
  refine h.withDir ?_ (fun s hs => hs) ?_
  · have halter := h.holds.alter_at fun content => content.take len.toNat
      ++ List.replicate (len.toNat - content.length) 0
    rw [hnat, take_length, Nat.sub_self, replicate_zero, append_nil, ← hnat] at halter
    exact halter
  · apply h.side_of_agrees
    intro name hname
    rw [Directory.setLen, Directory.get?_alter, if_neg (ne_segmentPath hname _)]

theorem Shows.closeSegment (h : sp.Shows v) (hcut : Cuttable x sp.writerConfig v.active.pending)
    {sp₃ sp₄ : FileSpool} (hblock : onWriter (LogjetWriter.flushBlock x) sp = .ok () sp₁)
    (hflush : onInner BufWriter.flush sp₁ = .ok () sp₂)
    (hsize : FileSpool.refreshActiveSize sp₂ = .ok () sp₃)
    (hnext : FileSpool.openNextSegment (sp₃.withDir (sp₃.dir.setLen
      sp₃.activeWriter.inner.inner.name sp₃.activeSizeBytes)) = .ok () sp₄) :
    ∃ disk : List (Piece x), disk.flatMap Piece.records = v.active.records
        ∧ sp₄.Shows (⟨v.closed ++ [⟨sp.activeSegmentId, disk⟩], ⟨[], [], []⟩⟩ : SegmentLog x)
        ∧ sp₄.settings = sp.settings ∧ sp₄.consumedThroughSeq = sp.consumedThroughSeq
        ∧ sp.activeSegmentId < sp₄.activeSegmentId := by
  obtain ⟨disk, hrecords, hgrew, hid⟩ := h.flushAll hcut hblock hflush
  have hsp₃ := hgrew.shows.refreshActiveSize hsize
  have hgrew₃ := hgrew.trans (hgrew.shows.withSize (UInt64.ofNat (disk.flatMap Piece.bytes).length))
  rw [← hsp₃] at hgrew₃
  have hset := @Shows.setLen _ _ _ hgrew₃.shows sp₃.activeSizeBytes (by rw [hsp₃])
  obtain ⟨disk', hdisk', hshows, hsettings, hconsumed, hlt⟩ := hset.openNextSegment hnext
  have hdisk : disk' = disk := by
    rcases hdisk' with ⟨h', -⟩ | h'
    · exact h'
    · rw [h']
      exact append_nil _
  have hid₃ : sp₃.activeSegmentId = sp.activeSegmentId := by
    rw [hsp₃]
    exact hid
  refine ⟨disk, hrecords, ?_, hsettings.trans hgrew₃.settings,
    hconsumed.trans hgrew₃.consumed, hid₃ ▸ hlt⟩
  rw [hdisk] at hshows
  rw [← hid₃]
  exact hshows

theorem Shows.rotate (h : sp.Shows v) (hcut : Cuttable x sp.writerConfig v.active.pending)
    (hrun : rotate x sp = .ok () sp') : ∃ v', Grew sp v sp' v' [] ∧ v'.active = ⟨[], [], []⟩
      ∧ sp.activeSegmentId < sp'.activeSegmentId := by
  obtain ⟨_, sp₁, hblock, hrun⟩ := bind_eq_ok_iff.mp hrun
  obtain ⟨_, sp₂, hflush, hrun⟩ := bind_eq_ok_iff.mp hrun
  obtain ⟨_, sp₃, hsize, hrun⟩ := bind_eq_ok_iff.mp hrun
  rw [get_bind, set_bind] at hrun
  obtain ⟨_, sp₄, hnext, hretain⟩ := bind_eq_ok_iff.mp hrun
  obtain ⟨disk, hrecords, hshows₄, hsettings₄, hconsumed₄, hlt⟩ :=
    h.closeSegment hcut hblock hflush hsize hnext
  obtain ⟨dropped, rest, hsplit, hnone, hshows', hsettings', hconsumed', hid'⟩ :=
    hshows₄.enforceRetention hretain
  change v.closed ++ [⟨sp.activeSegmentId, disk⟩] = dropped ++ rest at hsplit
  refine ⟨⟨rest, ⟨[], [], []⟩⟩, ⟨hshows', ?_, ?_, ?_, ?_, ?_, nil_suffix⟩, rfl, ?_⟩
  · exact hsettings'.trans hsettings₄
  · exact hconsumed'.trans hconsumed₄
  · refine ⟨dropped.flatMap ClosedSegment.records, ?_, ?_⟩
    · have hall : v.stored = (v.closed ++ [(⟨sp.activeSegmentId, disk⟩ :
              ClosedSegment x)]).flatMap ClosedSegment.records := by
        rw [flatMap_append, flatMap_singleton]
        show v.closedRecords ++ v.active.records = _
        rw [← hrecords]
        rfl
      rw [hall, hsplit, flatMap_append, append_nil]
      exact congrArg _ (append_nil _)
    · intro hzero
      have hmax : sp₄.maxTotalBytes = sp.maxTotalBytes := congrArg Settings.maxTotalBytes hsettings₄
      rw [hnone (hmax.trans hzero)]
      rfl
  · rw [hid']
    exact UInt64.le_of_lt hlt
  · intro s hs hlt'
    have hmem : s ∈ v.closed ++ [⟨sp.activeSegmentId, disk⟩] := by
      rw [hsplit]
      exact mem_append_right _ hs
    rcases mem_snoc.mp hmem with hmem | rfl
    · exact hmem
    · exact absurd hlt' (UInt64.lt_irrefl _)
  · rw [hid']
    exact hlt

theorem Shows.rotateIf (h : sp.Shows v)
    (hcut : Cuttable x sp.writerConfig v.active.pending) {c : Prop} [Decidable c]
    (hrun : (if c then FileSpool.rotate x else pure () :
      EStateM IoError FileSpool Unit) sp = .ok () sp') : ∃ v', Grew sp v sp' v' [] := by
  by_cases hc : c
  · rw [if_pos hc] at hrun
    obtain ⟨v', hgrew, -⟩ := h.rotate hcut hrun
    exact ⟨v', hgrew⟩
  · rw [if_neg hc] at hrun
    cases hrun
    exact ⟨v, h.withSize sp.activeSizeBytes⟩

theorem Shows.append (h : sp.Shows v) {r : WireRecord}
    (hcut : Cuttable x sp.writerConfig (v.active.pending ++ [r]))
    (hrun : append x r sp = .ok () sp') : ∃ v', Grew sp v sp' v' [r] := by
  obtain ⟨_, sp₁, hfull, hrun⟩ := bind_eq_ok_iff.mp hrun
  obtain ⟨_, sp₂, hpush, hrun⟩ := bind_eq_ok_iff.mp hrun
  obtain ⟨_, sp₃, hsize, hreached⟩ := bind_eq_ok_iff.mp hrun
  obtain ⟨v₁, hgrew₁⟩ := h.rotateIf (hcut.mono (prefix_append _ _).isInfix) hfull
  have hpending₁ := hgrew₁.pending
  rw [append_nil] at hpending₁
  obtain ⟨v₂, hgrew₂⟩ := hgrew₁.shows.push (by
    rw [writerConfig_of_settings hgrew₁.settings]
    exact hcut.mono (suffix_append_self_iff.mpr hpending₁).isInfix) hpush
  have hgrew := hgrew₁.trans hgrew₂
  rw [hgrew.shows.refreshActiveSize hsize] at hreached
  have hgrew₃ := hgrew.trans (hgrew.shows.withSize
    (UInt64.ofNat (v₂.active.disk.flatMap Piece.bytes).length))
  obtain ⟨v₃, hgrew₄⟩ := hgrew₃.shows.rotateIf (by
    rw [writerConfig_of_settings hgrew₃.settings]
    exact hcut.mono hgrew₃.pending.isInfix) hreached
  have hall := hgrew₃.trans hgrew₄
  exact ⟨v₃, hall⟩

end FileSpool

end Logjet
