/-
What holds in every run of a file spool: a log of segments with some of the
appended records in their order.
-/
import Logjet.Lib.Ascent
import Logjet.Reference
import Logjet.Spool.Proofs.Cleanup
import Mathlib.Data.List.ReduceOption

namespace Logjet

open List Ascent UInt64

variable {x : External}

namespace FileSpool

variable {sp sp' : FileSpool} {v : SegmentLog x}

theorem Shows.readable_eq (hx : x.RoundTrip) (h : sp.Shows v) : sp.readable x = v.readable := by
  rw [← v.files_records sp.activeSegmentId, ← h.read hx,
    FileSpool.readable, h.holds.listSegments, flatMap_map, flatMap_map]
  apply flatMap_congr
  intro s hs
  rw [show sp.dir.get? (s.info sp.baseStem).path = _ from h.holds.get hs]
  rfl

theorem Shows.replays (hx : x.RoundTrip) (h : sp.Shows v)
    (hlegible : Legible x sp.dir sp.baseStem) {c : FileReplayCursor}
    (hpassed : Passed (v.files sp.activeSegmentId) c.nextSegmentIdHint
      (max c.lastSeq sp.consumedThroughSeq)) : ∃ c', Replays x sp c
      (ascent OwnedRecord.seq (max c.lastSeq sp.consumedThroughSeq) v.readable) c' := by
  induction hn : (ascent OwnedRecord.seq (max c.lastSeq sp.consumedThroughSeq) v.readable).length
    using Nat.strong_induction_on generalizing c with
  | _ n ih =>
    have hnext := h.nextForCursor hx hlegible c
    have hfst := nextIn_fst h.files_sorted hpassed
    have hlast := nextIn_lastSeq (max c.lastSeq sp.consumedThroughSeq)
      (v.files sp.activeSegmentId) c
    have hpassed' := nextIn_passed h.files_sorted hpassed
    rw [SegmentLog.files_records] at hfst
    generalize nextIn (max c.lastSeq sp.consumedThroughSeq)
      (v.files sp.activeSegmentId) c = found at *
    obtain ⟨found, c₁⟩ := found
    cases hfind : v.readable.find? fun r =>
        max c.lastSeq sp.consumedThroughSeq < r.seq with
    | none =>
      rw [hfind] at hfst
      cases hfst
      rw [ascent_of_find_none hfind]
      exact ⟨c₁, .done hnext⟩
    | some r =>
      rw [hfind] at hfst
      cases hfst
      have habove : max c.lastSeq sp.consumedThroughSeq < r.seq := by
        simpa using find?_some hfind
      have hfloor : max c₁.lastSeq sp.consumedThroughSeq = r.seq := by
        rw [show c₁.lastSeq = r.seq from hlast]
        exact max_eq_left_seq (UInt64.le_of_lt (max_lt_iff_seq.mp habove).2)
      rw [ascent_of_find hfind] at hn ⊢
      obtain ⟨c', htail⟩ := ih _ (by rw [hfloor, ← hn]; simp)
        (hfloor ▸ hpassed'.mono (UInt64.le_of_lt habove)) rfl
      rw [hfloor] at htail
      exact ⟨c', .more hnext htail⟩

theorem Replays.eq {c c₁ c₂ : FileReplayCursor}
    {records₁ records₂ : List WireRecord} (h₁ : Replays x sp c records₁ c₁)
    (h₂ : Replays x sp c records₂ c₂) : records₁ = records₂ := by
  induction h₁ generalizing records₂ with
  | done hnext =>
    cases h₂ with
    | done hnext' => rfl
    | more hnext' _ =>
      rw [hnext] at hnext'
      cases hnext'
  | more hnext _ ih =>
    cases h₂ with
    | done hnext' =>
      rw [hnext] at hnext'
      cases hnext'
    | more hnext' htail =>
      rw [hnext] at hnext'
      cases hnext'
      rw [ih htail]

variable {config : FileConfig} {appended : List WireRecord}

theorem Filled.grew {new : List WireRecord} (hfilled : Filled x sp new sp') (h : sp.Shows v)
    (hcut : Cuttable x sp.writerConfig (v.active.pending ++ new)) : ∃ v', Grew sp v sp' v' new := by
  induction hfilled with
  | nil => exact ⟨v, h.withSize sp.activeSizeBytes⟩
  | append _ hrun ih =>
    rw [← append_assoc] at hcut
    obtain ⟨v₁, hgrew⟩ := ih (hcut.mono (prefix_append _ _).isInfix)
    obtain ⟨v', hgrew'⟩ := hgrew.shows.append (by
      rw [writerConfig_of_settings hgrew.settings]
      exact hcut.mono (suffix_append_self_iff.mpr hgrew.pending).isInfix) hrun
    exact ⟨v', hgrew.trans hgrew'⟩
  | flushPending _ hrun ih =>
    obtain ⟨v₁, hgrew⟩ := ih hcut
    obtain ⟨disk, -, hgrew', -⟩ := hgrew.shows.flushPending (by
      rw [writerConfig_of_settings hgrew.settings]
      exact hcut.mono hgrew.pending.isInfix) hrun
    have hall := hgrew.trans hgrew'
    rw [append_nil] at hall
    exact ⟨_, hall⟩

theorem settings_of (h : sp.settings = settingsOf config sp.streamId)
    (hsame : sp'.settings = sp.settings) : sp'.settings = settingsOf config sp'.streamId := by
  rw [hsame, h]
  exact congrArg (settingsOf config) (congrArg Settings.streamId hsame).symm

theorem Shows.reopen (hx : x.RoundTrip) (h : sp.Shows v)
    (hsettings : sp.settings = settingsOf config sp.streamId)
    (hcut : Cuttable x sp.writerConfig v.active.pending)
    (hlegible : Legible x (sp.drop x) sp.baseStem) (hrun : Reopens x config sp sp') :
    ∃ sp₁ v₁, Grew sp v sp₁ v₁ [] ∧ v₁.active.buffered = [] ∧ v₁.active.pending = []
      ∧ sp'.Shows (v₁.cleanup sp.consumedThroughSeq) ∧ sp'.settings = sp.settings
      ∧ sp'.consumedThroughSeq = sp.consumedThroughSeq
      ∧ sp₁.activeSegmentId ≤ sp'.activeSegmentId := by
  obtain ⟨fresh, flushed, hflush, hopen⟩ := hrun
  obtain ⟨disk, hdisk, hgrew, -⟩ := h.flushPending hcut hflush
  have hsettings' := settings_of hsettings hgrew.settings
  obtain ⟨sp₁, hactive, hclean⟩ := openIn_eq_ok_iff.mp hopen
  rw [drop_eq hflush] at hactive hlegible
  obtain ⟨v₁, hgrew₁, hbuffered, hpending, hlegible₁⟩ :=
    hgrew.shows.openActive rfl rfl hsettings' hactive
  have hstem : flushed.baseStem = sp.baseStem := congrArg Settings.baseStem hgrew.settings
  obtain ⟨hshows, hsame, hconsumed, hid⟩ := hgrew₁.shows.cleanupConsumedSegments hx
      (hpending ▸ cuttable_nil _) (hlegible₁ (hstem ▸ hlegible)) hclean
  rw [hgrew₁.consumed, hgrew.consumed] at hshows hconsumed
  exact ⟨sp₁, v₁, hgrew.trans hgrew₁, hbuffered, hpending, hshows,
    hsame.trans (hgrew₁.settings.trans hgrew.settings), hconsumed, hid⟩

/-- The files and the buffer hold `v`, records of those appended. -/
structure Tracks (config : FileConfig) (appended : List WireRecord)
    (sp : FileSpool) (v : SegmentLog x) : Prop where
  shows : sp.Shows v
  settings : sp.settings = settingsOf config sp.streamId
  stored : v.stored.Sublist appended
  pending : v.active.pending <:+ appended

abbrev Fits (x : External) (config : FileConfig) (records : List WireRecord) : Prop :=
  Cuttable x (segmentWriterConfig config.codec config.blockAlignment) records

theorem cuttable_of_fits (h : sp.settings = settingsOf config sp.streamId)
    {records : List WireRecord} (hfits : Fits x config records) :
    Cuttable x sp.writerConfig records := by
  have hconfig : sp.writerConfig = segmentWriterConfig config.codec config.blockAlignment :=
    congrArg₂ segmentWriterConfig (congrArg Settings.codec h) (congrArg Settings.blockAlignment h)
  rw [hconfig]
  exact hfits

theorem Tracks.cuttable (h : Tracks config appended sp v) (hfits : Fits x config appended) :
    Cuttable x sp.writerConfig v.active.pending :=
  cuttable_of_fits h.settings (hfits.mono h.pending.isInfix)

theorem Tracks.grew {v' : SegmentLog x} {new : List WireRecord}
    (h : Tracks config appended sp v) (hgrew : Grew sp v sp' v' new) :
    Tracks config (appended ++ new) sp' v' := by
  obtain ⟨dropped, hstored, -⟩ := hgrew.stored
  refine ⟨hgrew.shows, settings_of h.settings hgrew.settings, ?_, ?_⟩
  · have hsuffix : v'.stored.Sublist (v.stored ++ new) := by
      rw [← hstored]
      exact sublist_append_right _ _
    exact hsuffix.trans (h.stored.append_right new)
  · exact hgrew.pending.trans (suffix_append_self_iff.mpr h.pending)

theorem Tracks.grew_nil {v' : SegmentLog x}
    (h : Tracks config appended sp v) (hgrew : Grew sp v sp' v' []) :
    Tracks config appended sp' v' := by
  rw [← append_nil appended]
  exact h.grew hgrew

theorem Tracks.cleanup {consumed : UInt64} (h : Tracks config appended sp v)
    (hshows : sp'.Shows (v.cleanup consumed)) (hsettings : sp'.settings = sp.settings) :
    Tracks config appended sp' (v.cleanup consumed) := by
  refine ⟨hshows, settings_of h.settings hsettings, ?_, ?_⟩
  · exact (v.cleanup_stored_sublist consumed).trans h.stored
  · rw [SegmentLog.cleanup]
    split
    · exact nil_suffix
    · exact h.pending

theorem Tracks.append (h : Tracks config appended sp v) {r : WireRecord}
    (hfits : Fits x config (appended ++ [r]))
    (hrun : append x r sp = .ok () sp') : ∃ v', Grew sp v sp' v' [r] := by
  apply h.shows.append _ hrun
  apply cuttable_of_fits h.settings
  exact hfits.mono (suffix_append_self_iff.mpr h.pending).isInfix

theorem Tracks.flushPending (h : Tracks config appended sp v) (hfits : Fits x config appended)
    (hrun : flushPending x sp = .ok () sp') : ∃ disk : List (Piece x),
      disk.flatMap Piece.records = v.active.records
        ∧ Grew sp v sp' { v with active := ⟨disk, [], []⟩ } []
        ∧ sp'.activeSegmentId = sp.activeSegmentId := h.shows.flushPending (h.cuttable hfits) hrun

theorem Tracks.consumeThrough (hx : x.RoundTrip)
    (h : Tracks config appended sp v) (hfits : Fits x config appended)
    (hlegible : Legible x sp.dir sp.baseStem) {seq : UInt64}
    (hrun : consumeThrough x seq sp = .ok () sp') : Tracks config appended sp'
        (if seq ≤ sp.consumedThroughSeq then v else v.cleanup seq)
      ∧ sp'.consumedThroughSeq = max seq sp.consumedThroughSeq
      ∧ sp.activeSegmentId ≤ sp'.activeSegmentId := by
  have hmax : max seq sp.consumedThroughSeq
      = if seq ≤ sp.consumedThroughSeq then sp.consumedThroughSeq
        else seq := rfl
  rcases h.shows.consumeThrough hx (h.cuttable hfits) hlegible hrun with
    ⟨hle, rfl⟩ | ⟨hlt, hshows, hsettings, hconsumed, hid⟩
  · rw [hmax, if_pos hle, if_pos hle]
    exact ⟨h, rfl, UInt64.le_refl _⟩
  · have hnot := UInt64.not_le.mpr hlt
    rw [hmax, if_neg hnot, if_neg hnot]
    exact ⟨h.cleanup hshows hsettings, hconsumed, hid⟩

theorem Tracks.replays_flushed (hx : x.RoundTrip)
    (h : Tracks config appended sp v) (hfits : Fits x config appended)
    (hrun : FileSpool.flushPending x sp = .ok () sp')
    (hlegible : Legible x sp'.dir sp'.baseStem) (seq : UInt64) :
    ∃ c, Replays x sp' (replayCursorAfter seq)
      (ascent OwnedRecord.seq (max seq sp.consumedThroughSeq) v.stored) c := by
  obtain ⟨disk, hdisk, hgrew, -⟩ := h.flushPending hfits hrun
  obtain ⟨c, hreplays⟩ := hgrew.shows.replays hx hlegible (c := replayCursorAfter seq)
    fun _ _ hlt => absurd hlt UInt64.not_lt_zero
  rw [hgrew.consumed, SegmentLog.readable, ActiveSegment.onDisk, hdisk] at hreplays
  exact ⟨c, hreplays⟩

theorem Tracks.mem_stored (hx : x.RoundTrip)
    (h : Tracks config appended sp v) (hfits : Fits x config appended)
    {r : WireRecord} (hr : sp.Stores x r) : r ∈ v.stored := by
  obtain ⟨sp', hflush, hr⟩ := hr
  obtain ⟨disk, hdisk, hgrew, -⟩ := h.flushPending hfits hflush
  rw [hgrew.shows.readable_eq hx, SegmentLog.readable, ActiveSegment.onDisk, hdisk] at hr
  exact hr

theorem tracks_start (hx : x.RoundTrip) {fresh : UInt64} {d : Directory}
    (hnone : listSegments d (deriveBaseStem config.name) = [])
    (hrun : openIn x config fresh d = .ok sp) :
    Tracks config [] sp (⟨[], ⟨[], [], []⟩⟩ : SegmentLog x) := by
  obtain ⟨sp₀, hopen, hclean⟩ := openIn_eq_ok_iff.mp hrun
  obtain ⟨⟨closed, disk, buffered, pending⟩, hshows, hsettings, -, -,
    hbuffered, hpending, hsegs⟩ := @openActive_eq_ok x _ _ _ _
      [] (Directory.holds_nil hnone) nofun nofun hopen
  rcases hsegs with hsegs | ⟨hclosed, hdisk, -⟩
  · exact absurd hsegs.symm (append_ne_nil_of_right_ne_nil _ (by simp))
  · cases hclosed
    cases hdisk
    cases hbuffered
    cases hpending
    have hlegible : Legible x sp₀.dir sp₀.baseStem := by
      rw [legible_iff hshows.holds]
      intro s hs
      rw [mem_singleton.mp hs]
      exact countersFit_nil x
    obtain ⟨hshows', hsettings', -, -⟩ :=
      hshows.cleanupConsumedSegments hx (cuttable_nil _) hlegible hclean
    exact ⟨hshows', settings_of hsettings hsettings', List.Sublist.refl _, suffix_refl _⟩

theorem Run.tracks (hx : x.RoundTrip) (hrun : Run x config appended sp)
    (hfits : Fits x config appended) : ∃ v : SegmentLog x, Tracks config appended sp v := by
  induction hrun with
  | start hnone h => exact ⟨_, tracks_start hx hnone h⟩
  | append _ h ih =>
    obtain ⟨v, hv⟩ := ih (hfits.mono (prefix_append _ _).isInfix)
    obtain ⟨v', hgrew⟩ := hv.append hfits h
    exact ⟨v', hv.grew hgrew⟩
  | flushPending _ h ih =>
    obtain ⟨v, hv⟩ := ih hfits
    obtain ⟨disk, -, hgrew, -⟩ := hv.flushPending hfits h
    exact ⟨_, hv.grew_nil hgrew⟩
  | rotate _ h ih =>
    obtain ⟨v, hv⟩ := ih hfits
    obtain ⟨v', hgrew, -⟩ := hv.shows.rotate (hv.cuttable hfits) h
    exact ⟨v', hv.grew_nil hgrew⟩
  | consumeThrough _ hlegible h ih =>
    obtain ⟨v, hv⟩ := ih hfits
    exact ⟨_, (hv.consumeThrough hx hfits hlegible h).1⟩
  | reopen _ hlegible h ih =>
    obtain ⟨v, hv⟩ := ih hfits
    obtain ⟨sp₁, v₁, hgrew, -, -, hshows, hsettings, -, -⟩ := hv.shows.reopen hx hv.settings
        (hv.cuttable hfits) hlegible h
    exact ⟨_, (hv.grew_nil hgrew).cleanup hshows (hsettings.trans hgrew.settings.symm)⟩

end FileSpool

namespace Reference

def smallSpool : FileConfig :=
  { name := "logs.logjet".toList, segmentSizeBytes := 1048576
    codec := .none, maxTotalBytes := 0, blockAlignment := 0 }

def smallRecord (seq : UInt64) : WireRecord :=
  { recordType := .logs, seq, tsUnixNs := seq, payload := [42] }

theorem smallPayloads_fit {records : List WireRecord} (h : ∀ r ∈ records, r.payload = [42]) :
    FileSpool.Fits external smallSpool records := by
  apply cuttable_of_length rfl (by decide)
  · intro input output hlen hok
    cases hok
    exact hlen
  · intro r hr
    have hlength : ∀ recordType, (encodeRecord recordType 0 0 [42]).length = 5 := by
      intro recordType
      cases recordType with
      | logs => decide +kernel
      | metrics => decide +kernel
      | traces => decide +kernel
      | events => decide +kernel
    simp only [OwnedRecord.encode, OwnedRecord.ownBase, sub_self, h r hr, hlength]
    decide

theorem smallRecords_fit (seqs : List UInt64) :
    FileSpool.Fits external smallSpool (seqs.map smallRecord) := by
  apply smallPayloads_fit
  intro r hr
  obtain ⟨seq, -, rfl⟩ := mem_map.mp hr
  rfl

/-- Whether `test` holds of the spool that these calls leave, all of them
returning `Ok`; `none` stands for a flush. -/
def smallRunFrom (test : FileSpool → Bool) : List (Option WireRecord) → FileSpool → Bool
  | [], sp => test sp
  | some r :: calls, sp =>
    (FileSpool.append external r).okAnd sp fun _ sp' => smallRunFrom test calls sp'
  | none :: calls, sp =>
    (FileSpool.flushPending external).okAnd sp fun _ sp' => smallRunFrom test calls sp'

def smallRun (calls : List (Option WireRecord)) (test : FileSpool → Bool) : Bool :=
  (FileSpool.openIn external smallSpool 7 .empty).okAnd fun sp => smallRunFrom test calls sp

theorem run_of_smallRunFrom {test : FileSpool → Bool} {calls : List (Option WireRecord)}
    {appended : List WireRecord} {sp : FileSpool}
    (hrun : FileSpool.Run external smallSpool appended sp) (h : smallRunFrom test calls sp = true) :
    ∃ sp', FileSpool.Run external smallSpool (appended ++ calls.reduceOption) sp'
      ∧ test sp' = true := by
  induction calls generalizing appended sp with
  | nil => exact ⟨sp, by rwa [reduceOption_nil, append_nil], h⟩
  | cons call calls ih =>
    cases call with
    | none =>
      obtain ⟨_, sp₁, hflush, h⟩ := EStateM.okAnd_eq_true.mp h
      exact ih (.flushPending hrun hflush) h
    | some r =>
      obtain ⟨_, sp₁, happend, h⟩ := EStateM.okAnd_eq_true.mp h
      rw [reduceOption_cons_of_some, append_cons]
      exact ih (.append hrun happend) h

theorem run_of_smallRun {calls : List (Option WireRecord)} {test : FileSpool → Bool}
    (h : smallRun calls test = true) :
    ∃ sp, FileSpool.Run external smallSpool calls.reduceOption sp ∧ test sp = true := by
  obtain ⟨sp, hopen, h⟩ := Except.okAnd_eq_true.mp h
  exact run_of_smallRunFrom (.start (by decide +kernel) hopen) h

def bulkSpool : FileConfig := { smallSpool with segmentSizeBytes := 2 ^ 63, codec := .lz4 }

def bulkDir (content : Bytes) : Directory where
  files := [("logs.stream-id".toList, [55]), ("logs.logjet".toList, content)]
  nodup := by
    show ["logs.stream-id".toList, "logs.logjet".toList].Nodup
    decide

def bulkStored (content buf : Bytes) : FileSpool where
  baseStem := "logs".toList
  statePath := "logs.state".toList
  streamId := 7
  activeSegmentId := 0
  activeSegmentPath := "logs.logjet".toList
  activeWriter := LogjetWriter.withConfig ⟨⟨bulkDir content, "logs.logjet".toList⟩, buf⟩
    (segmentWriterConfig .lz4 0)
  activeSizeBytes := UInt64.ofNat content.length
  segmentTargetBytes := 2 ^ 63
  codec := .lz4
  blockAlignment := 0
  maxTotalBytes := 0
  consumedThroughSeq := 0

def bulkState (content : Bytes) : FileSpool := bulkStored content []

theorem openIn_bulk : FileSpool.openIn external bulkSpool 7 .empty = .ok (bulkState []) := by
  decide +kernel

theorem writeAll_bulk (content : Bytes) {body : Bytes} (hlen : body.length < BufWriter.capacity) :
    Sink.writeAll body (bulkState content).activeWriter.inner
      = .ok () ⟨⟨bulkDir content, "logs.logjet".toList⟩, body⟩ := by
  show BufWriter.writeAll _ _ = _
  exact congrFun (if_pos hlen) _

theorem flushStored_bulk {content body : Bytes}
    (hroom : content.length + body.length ≤ File.maxLen) :
    (do FileSpool.onInner BufWriter.flush
        FileSpool.refreshActiveSize) (bulkStored content body)
      = .ok () (bulkState (content ++ body)) := by
  have hfile : File.writeAll body ⟨bulkDir content, "logs.logjet".toList⟩
      = .ok () ⟨bulkDir (content ++ body), "logs.logjet".toList⟩ :=
    if_pos hroom
  have hinner : BufWriter.flush
      ⟨⟨bulkDir content, "logs.logjet".toList⟩, body⟩
        = .ok () (BufWriter.new
          ⟨bulkDir (content ++ body), "logs.logjet".toList⟩) := by
    rw [BufWriter.flush, EStateM.get_bind]
    simp only [BufWriter.writeThrough, hfile, bind, EStateM.bind]
    rfl
  have hflush : FileSpool.onInner BufWriter.flush (bulkStored content body)
      = .ok () { bulkState (content ++ body) with
          activeSizeBytes := UInt64.ofNat content.length } := by
    rw [FileSpool.onInner]
    simp only [bulkStored, LogjetWriter.withConfig, hinner]
    rfl
  rw [EStateM.bind_of_ok hflush]
  rfl

theorem listSegments_bulkDir (content : Bytes) : listSegments (bulkDir content) "logs".toList
      = [⟨0, "logs.logjet".toList⟩] := by rfl

theorem rotateIfFull_bulk {content : Bytes} (hlen : content.length < 2 ^ 62) :
    FileSpool.rotateIfFull external (bulkState content) = .ok () (bulkState content) := by
  have hsize : (UInt64.ofNat content.length).toNat = content.length :=
    toNat_ofNat_of_lt' (by simp only [UInt64.size]; omega)
  have htarget : (2 ^ 63 : UInt64).toNat = 2 ^ 63 := by decide +kernel
  have hroom : ¬ UInt64.ofNat content.length ≥ 2 ^ 63 := by
    rw [ge_iff_le, le_iff_toNat_le, hsize, htarget]
    omega
  rw [FileSpool.rotateIfFull, EStateM.get_bind]
  exact congrFun (if_neg fun h => hroom h.1) _

end Reference

end Logjet
