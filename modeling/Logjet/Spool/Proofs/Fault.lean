/-
What a failed rotation leaves behind: a log with all the records, unless the
next segment could not be opened.
-/
import Logjet.Spool.Fault
import Logjet.Spool.Proofs.Accept

namespace Logjet

open List EStateM

open EStateM (Ends)
open Reference

variable {x : External}

theorem BufWriter.On.writeFails {w w' : BufWriter} {stem : Text}
    {closed : List Segment} {id : UInt64} {disk buffered : List (Piece x)}
    {data : Bytes} (h : w.On stem closed id disk buffered) (hfails : w.WriteFails data w') :
    ∃ disk' buffered', disk' ++ buffered' = disk ++ buffered ∧ w'.On stem closed id disk' buffered'
      ∧ Directory.Agrees stem w.inner.dir w'.inner.dir := by
  cases hfails with
  | room _ _ => exact ⟨disk, buffered, rfl, h, .refl _ _⟩
  | through _ hroom _ =>
    obtain ⟨disk', buffered', hsplit, hon, -, hagrees⟩ := h.makeRoom hroom
    exact ⟨disk', buffered', hsplit, hon, hagrees⟩

namespace LogjetWriter

variable {w w' : LogjetWriter BufWriter} {stem : Text}
  {closed : List Segment} {id : UInt64} {a : ActiveSegment x}

theorem Carries.withInner (h : w.Carries stem closed id a)
    {inner : BufWriter} {disk buffered : List (Piece x)}
    (hon : inner.On stem closed id disk buffered)
    (hreadable : ∀ p ∈ disk ++ buffered, p.Readable .default) :
    LogjetWriter.Carries { w with inner } stem closed id
      (⟨disk, buffered, a.pending⟩ : ActiveSegment x) := by
  obtain ⟨base, hp, hneat⟩ := h.pending
  exact ⟨hon, ⟨base, ⟨hp.based, hp.below, hp.buf, hp.count⟩,
    ⟨hneat.unset, hneat.first, hneat.target⟩⟩, hreadable⟩

theorem Carries.blockFails (h : w.Carries stem closed id a)
    (hcut : Cuttable x w.config a.pending) (hfails : w.BlockFails x w') :
    ∃ a' : ActiveSegment x, w'.Carries stem closed id a' ∧ a'.pending = a.pending
      ∧ (∃ again, a'.records = (a.disk ++ a.buffered).flatMap Piece.records ++ again ++ a.pending)
      ∧ w'.config = w.config ∧ Directory.Agrees stem w.inner.inner.dir w'.inner.inner.dir := by
  cases hfails with
  | body hne hbuild hwrite =>
    obtain ⟨disk, buffered, hsplit, hon, hagrees⟩ := h.sink.writeFails hwrite
    refine ⟨⟨disk, buffered, a.pending⟩, h.withInner hon ?_, rfl, ⟨[], ?_⟩, rfl, hagrees⟩
    · rw [hsplit]
      exact h.readable
    · rw [ActiveSegment.records_eq, append_nil]
      exact congrArg (fun l => l.flatMap Piece.records ++ a.pending) hsplit
  | padding hne hbuild hbody hzeroes hwrite =>
    obtain ⟨base, hp, hneat⟩ := h.pending
    have hpending : a.pending ≠ [] := by
      intro hnil
      rw [hp.buf, hnil] at hne
      exact hne rfl
    obtain ⟨b, hconfig, hbase, hrecords, rfl⟩ := hp.block hpending hbuild
    have hb : b.Readable .default := hcut b (hneat.block hp hpending hrecords hbase hconfig) hconfig
      (hrecords ▸ infix_rfl)
    obtain ⟨disk₁, buffered₁, hsplit₁, hon₁, hagrees₁⟩ := h.sink.writeAll (.block b) hbody
    obtain ⟨disk, buffered, hsplit, hon, hagrees⟩ := hon₁.writeFails hwrite
    refine ⟨⟨disk, buffered, a.pending⟩, h.withInner hon ?_, rfl,
      ⟨b.records, ?_⟩, rfl, hagrees₁.trans hagrees⟩
    · rw [hsplit, hsplit₁]
      intro p hp
      rcases mem_snoc.mp hp with hp | rfl
      · exact h.readable p hp
      · exact hb
    · rw [ActiveSegment.records_eq]
      show (disk ++ buffered).flatMap Piece.records ++ _ = _
      rw [hsplit, hsplit₁, flatMap_append, flatMap_singleton]
      rfl

end LogjetWriter

namespace FileSpool

variable {sp sp' : FileSpool} {v v' : SegmentLog x} {call : FsCall}

structure Survives (sp : FileSpool) (v : SegmentLog x) (sp' : FileSpool)
    (v' : SegmentLog x) : Prop where
  shows : sp'.Shows v'
  settings : sp'.settings = sp.settings
  pending : v'.active.pending <:+ v.active.pending
  stored : sp.maxTotalBytes = 0 → v.stored ⊆ v'.stored

theorem Grew.survives (h : Grew sp v sp' v' []) : Survives sp v sp' v' := by
  obtain ⟨dropped, hstored, hnone⟩ := h.stored
  have hpending := h.pending
  rw [append_nil] at hpending hstored
  refine ⟨h.shows, h.settings, hpending, fun hzero => ?_⟩
  rw [hnone hzero, nil_append] at hstored
  rw [hstored]
  exact List.Subset.refl _

theorem Shows.blockFails (h : sp.Shows v) (hcut : Cuttable x sp.writerConfig v.active.pending)
    {w : LogjetWriter BufWriter} (hfails : sp.activeWriter.BlockFails x w) :
    ∃ v', Survives sp v { sp with activeWriter := w } v' := by
  rw [← h.config] at hcut
  obtain ⟨a, hcarries, hpending, ⟨again, hrecords⟩, hconfig, hagrees⟩ :=
    h.writer.blockFails hcut hfails
  refine ⟨{ v with active := a }, ⟨hcarries, h.path, hconfig.trans h.config,
    h.closed, h.side_of_agrees hagrees⟩, rfl, ?_, fun _ => ?_⟩
  · rw [hpending]
  · intro r hr
    rcases mem_append.mp hr with hr | hr
    · exact mem_append_left _ hr
    · refine mem_append_right _ ?_
      rw [hrecords]
      rw [ActiveSegment.records_eq] at hr
      rcases mem_append.mp hr with hr | hr
      · exact mem_append_left _ (mem_append_left _ hr)
      · exact mem_append_right _ hr

theorem Shows.retentionLoopFails (h : sp.Shows v) {excess : UInt64}
    (hfails : RetentionLoopFails excess ((v.closed.map ClosedSegment.file
      ++ [(⟨sp.activeSegmentId, v.active.disk.flatMap Piece.bytes⟩ :
        Segment)]).map (Segment.info sp.baseStem)) sp sp') :
    ∃ rest, sp'.Shows { v with closed := rest } ∧ sp'.settings = sp.settings := by
  obtain ⟨closed, active⟩ := v
  induction closed generalizing sp excess with
  | nil =>
    cases hfails with
    | here => exact ⟨[], h, rfl⟩
    | later hgoes _ _ => exact absurd (by simp [Segment.info]) hgoes
  | cons s closed ih =>
    cases hfails with
    | here => exact ⟨s :: closed, h, rfl⟩
    | later hgoes hremove hrest =>
      obtain ⟨hshows, hsettings, -, hid⟩ := @Shows.removeFile x sp _ [] closed s active h hremove
      rw [← hid, ← show _ = sp.baseStem from
        congrArg Settings.baseStem hsettings] at hrest
      obtain ⟨rest, hshows', hsettings'⟩ := ih hshows hrest
      exact ⟨rest, hshows', hsettings'.trans hsettings⟩

theorem Shows.retentionFails (h : sp.Shows v) (hfails : RetentionFails sp call sp') :
    sp.maxTotalBytes ≠ 0 ∧ ∃ rest, sp'.Shows { v with closed := rest }
      ∧ sp'.settings = sp.settings := by
  cases hfails with
  | readDir hmax => exact ⟨hmax, v.closed, h, rfl⟩
  | removeFile hmax _ hloop =>
    rw [h.holds.listSegments] at hloop
    exact ⟨hmax, h.retentionLoopFails hloop⟩

theorem RotateFails.survives (hfails : RotateFails x sp call sp')
    (h : sp.Shows v) (hcut : Cuttable x sp.writerConfig v.active.pending)
    (hcall : call ≠ .openNext) : ∃ v', Survives sp v sp' v' := by
  cases hfails with
  | block hblock => exact h.blockFails hcut hblock
  | flush hblock _ =>
    obtain ⟨a, -, hgrew, -⟩ := h.flushBlock hcut hblock
    exact ⟨_, hgrew.survives⟩
  | metadata hblock hflush =>
    obtain ⟨disk, -, hgrew, -⟩ := h.flushAll hcut hblock hflush
    exact ⟨_, hgrew.survives⟩
  | openNext => exact absurd rfl hcall
  | retention hblock hflush hsize hnext hretain =>
    obtain ⟨disk, -, hshows, hsettings, -, -⟩ := h.closeSegment hcut hblock hflush hsize hnext
    obtain ⟨hmax, rest, hshows', hsettings'⟩ := hshows.retentionFails hretain
    refine ⟨_, hshows', hsettings'.trans hsettings, nil_suffix, ?_⟩
    intro hzero
    exact absurd ((congrArg Settings.maxTotalBytes hsettings).trans hzero) hmax

theorem AdvanceFails.survives (hfails : AdvanceFails x sp call sp')
    (h : sp.Shows v) (hcut : Cuttable x sp.writerConfig v.active.pending)
    (hcall : call ≠ .openNext) : ∃ v', Survives sp v sp' v' := by
  cases hfails with
  | block hblock => exact h.blockFails hcut hblock
  | openNext => exact absurd rfl hcall
  | removeFile hblock hnext hroom _ =>
    obtain ⟨a, hempty, hgrew, -⟩ := h.flushBlock hcut hblock
    obtain ⟨disk, hdisk, hshows, hsettings, -, -⟩ := hgrew.shows.openNextSegment hnext
    refine ⟨_, hshows, hsettings.trans hgrew.settings, nil_suffix, ?_⟩
    intro hzero r hr
    have hr' := hgrew.survives.stored hzero hr
    have hroom' : disk = a.disk ++ a.buffered := by
      rcases hdisk with ⟨-, hno⟩ | hall
      · refine absurd ?_ hno
        have hget := hgrew.shows.holds.get (mem_append_right _ (mem_singleton_self _))
        have hsink := hgrew.shows.writer.sink
        rw [SegmentLog.Room, flatMap_append, length_append, ← hsink.buf]
        rw [FileSpool.dir, hsink.name] at hroom
        rw [FileSpool.dir] at hget
        rw [hget] at hroom
        exact hroom
      · exact hall
    rcases mem_append.mp hr' with hr' | hr'
    · exact mem_append_left _ (mem_flatMap.mpr (by
        obtain ⟨s, hs, hmem⟩ := mem_flatMap.mp hr'
        exact ⟨s, mem_append_left _ hs, hmem⟩))
    · refine mem_append_left _ (mem_flatMap.mpr ⟨_, mem_append_right _ (mem_singleton_self _), ?_⟩)
      rw [ActiveSegment.records_eq, hempty, append_nil] at hr'
      rw [hroom']
      exact hr'

structure Recoverable (x : External) (kept : List WireRecord) (sp : FileSpool) : Prop where
  path : sp.activeSegmentPath = sp.activeWriter.inner.inner.name
  id : segmentPath sp.baseStem sp.activeSegmentId = sp.activeWriter.inner.inner.name
  accepts : ∀ later sp₁ r, Filled x sp later sp₁ →
    Cuttable x sp.writerConfig (kept ++ later ++ [r]) →
    (∀ a ∈ kept ++ later, a.seq < r.seq) → sp₁.Accepts r →
    ∀ err sp₂, append x r sp₁ = .error err sp₂ → err.Outward ∧ err.Found
  keeps : sp.maxTotalBytes = 0 → ∀ later sp₁ sp₂, Filled x sp later sp₁ →
    Cuttable x sp.writerConfig (kept ++ later) → flushPending x sp₁ = .ok () sp₂ →
    ∀ r ∈ kept ++ later, r ∈ sp₂.readable x

theorem Survives.recoverable (hx : x.RoundTrip) (h : Survives sp v sp' v') :
    Recoverable x v.stored sp' := by
  have hpending : v'.active.pending <:+ v.stored := by
    refine h.pending.trans (List.IsSuffix.trans ?_ (suffix_append _ _))
    rw [ActiveSegment.records_eq]
    exact suffix_append _ _
  refine ⟨?_, h.shows.writer.sink.name.symm, ?_, ?_⟩
  · rw [h.shows.path, h.shows.writer.sink.name]
  · intro later sp₁ r hfilled hcut hseq haccepts err sp₂ herr
    obtain ⟨v₁, hgrew⟩ := hfilled.grew h.shows (hcut.mono
      ((suffix_append_self_iff.mpr hpending).isInfix.trans (prefix_append _ _).isInfix))
    have hlast : v₁.active.pending <:+ v.stored ++ later :=
      hgrew.pending.trans (suffix_append_self_iff.mpr hpending)
    have hcut₁ : Cuttable x sp₁.writerConfig (v₁.active.pending ++ [r]) := by
      rw [writerConfig_of_settings hgrew.settings]
      exact hcut.mono (suffix_append_self_iff.mpr hlast).isInfix
    exact (hgrew.shows.append_plain hcut₁
      (fun a ha => hseq a (hlast.subset ha)) haccepts).error herr
  · intro hzero later sp₁ sp₂ hfilled hcut hflush r hr
    obtain ⟨v₁, hgrew⟩ := hfilled.grew h.shows
      (hcut.mono (suffix_append_self_iff.mpr hpending).isInfix)
    have hlast : v₁.active.pending <:+ v.stored ++ later :=
      hgrew.pending.trans (suffix_append_self_iff.mpr hpending)
    obtain ⟨disk, hdisk, hflushed, -⟩ := hgrew.shows.flushPending (by
      rw [writerConfig_of_settings hgrew.settings]
      exact hcut.mono hlast.isInfix) hflush
    rw [hflushed.shows.readable_eq hx, SegmentLog.readable, ActiveSegment.onDisk, hdisk]
    show r ∈ v₁.stored
    obtain ⟨dropped, hstored, hnone⟩ := hgrew.stored
    rw [hnone hzero, nil_append] at hstored
    rw [hstored]
    rcases mem_append.mp hr with hr | hr
    · refine mem_append_left _ (h.stored ?_ hr)
      exact (congrArg Settings.maxTotalBytes h.settings).symm.trans hzero
    · exact mem_append_right _ hr

theorem Shows.nextUnopened_path (h : sp.Shows v) {id : UInt64}
    (hid : nextSegmentId sp.activeSegmentId = .ok id) : (sp.nextUnopened id).activeSegmentPath
      ≠ (sp.nextUnopened id).activeWriter.inner.inner.name := by
  show segmentPath sp.baseStem id ≠ sp.activeWriter.inner.inner.name
  rw [h.writer.sink.name]
  intro heq
  exact UInt64.ne_of_lt (lt_nextSegmentId hid) (segmentPath_inj heq).symm

theorem RotateFails.path_ne (hfails : RotateFails x sp .openNext sp')
    (h : sp.Shows v) (hcut : Cuttable x sp.writerConfig v.active.pending) :
    sp'.activeSegmentPath ≠ sp'.activeWriter.inner.inner.name := by
  cases hfails with
  | openNext hblock hflush hsize hid =>
    obtain ⟨disk, -, hgrew, -⟩ := h.flushAll hcut hblock hflush
    have hsp₃ := hgrew.shows.refreshActiveSize hsize
    have hshows₃ := (hgrew.shows.withSize (UInt64.ofNat (disk.flatMap Piece.bytes).length)).shows
    rw [← hsp₃] at hshows₃
    have hcut₃ := hshows₃.setLen (congrArg activeSizeBytes hsp₃)
    exact Shows.nextUnopened_path hcut₃ hid
  | retention _ _ _ _ hretain => cases hretain

theorem AdvanceFails.path_ne (hfails : AdvanceFails x sp .openNext sp')
    (h : sp.Shows v) (hcut : Cuttable x sp.writerConfig v.active.pending) :
    sp'.activeSegmentPath ≠ sp'.activeWriter.inner.inner.name := by
  cases hfails with
  | openNext hblock hid =>
    obtain ⟨a, -, hgrew, -⟩ := h.flushBlock hcut hblock
    exact hgrew.shows.nextUnopened_path hid

/-- After a failed rotation the spool goes on, unless `openNext` failed. -/
theorem rotation_recoverable_iff (x : External) (hx : x.RoundTrip)
    {sp sp' : FileSpool} {v : SegmentLog x} {call : FsCall} (hshows : sp.Shows v)
    (hcut : Cuttable x sp.writerConfig v.active.pending)
    (hfails : RotateFails x sp call sp' ∨ AdvanceFails x sp call sp') :
    Recoverable x v.stored sp' ↔ call ≠ .openNext := by
  constructor
  · intro hrec hcall
    rw [hcall] at hfails
    rcases hfails with hfails | hfails
    · exact hfails.path_ne hshows hcut hrec.path
    · exact hfails.path_ne hshows hcut hrec.path
  · intro hcall
    rcases hfails with hfails | hfails
    · obtain ⟨v', h⟩ := hfails.survives hshows hcut hcall
      exact h.recoverable hx
    · obtain ⟨v', h⟩ := hfails.survives hshows hcut hcall
      exact h.recoverable hx

theorem rotation_recoverable_metadata : ∃ (sp sp' : FileSpool) (v : SegmentLog external),
      sp.Shows v ∧ v.stored = [smallRecord 1] ∧ RotateFails external sp .metadata sp'
      ∧ Recoverable external v.stored sp' := by
  have hcalls : (openIn external smallSpool 7 .empty).okAnd (fun sp₀ =>
      (append external (smallRecord 1)).okAnd sp₀ fun _ sp =>
      (onWriter (LogjetWriter.flushBlock external)).okAnd sp fun _ sp₁ =>
      (onInner BufWriter.flush).okAnd sp₁ fun _ _ => true) = true := by
    decide +kernel
  obtain ⟨sp₀, hopen, h⟩ := Except.okAnd_eq_true.mp hcalls
  obtain ⟨_, sp, happend, h⟩ := okAnd_eq_true.mp h
  obtain ⟨_, sp₁, hblock, h⟩ := okAnd_eq_true.mp h
  obtain ⟨_, sp₂, hflush, -⟩ := okAnd_eq_true.mp h
  have htracks := tracks_start external_roundTrip (by decide +kernel) hopen
  have hcut := cuttable_of_fits htracks.settings (smallRecords_fit [1])
  obtain ⟨v, hgrew⟩ := (Filled.append .nil happend).grew htracks.shows hcut
  have hstored : v.stored = [smallRecord 1] := by
    obtain ⟨dropped, hstored, hnone⟩ := hgrew.stored
    rw [hnone (congrArg Settings.maxTotalBytes htracks.settings)] at hstored
    exact hstored
  have hfails : RotateFails external sp .metadata sp₂ := .metadata hblock hflush
  refine ⟨sp, sp₂, v, hgrew.shows, hstored, hfails, ?_⟩
  refine (rotation_recoverable_iff external external_roundTrip hgrew.shows ?_
    (.inl hfails)).mpr (by decide)
  rw [writerConfig_of_settings hgrew.settings]
  exact hcut.mono hgrew.pending.isInfix

theorem rotation_unopened_blocks_append : ∃ sp sp', Run external smallSpool [smallRecord 1] sp
      ∧ RotateFails external sp .openNext sp' ∧ sp'.activeSegmentPath = "logs-1.logjet".toList
      ∧ sp'.activeWriter.inner.inner.name = "logs.logjet".toList
      ∧ (∃ sp₁, append external (smallRecord 2) sp' = .error Directory.notFound sp₁)
      ∧ ∃ sp₁, flushPending external sp' = .error Directory.notFound sp₁ := by
  have hcalls : smallRun [some (smallRecord 1)] (fun sp =>
      (onWriter (LogjetWriter.flushBlock external)).okAnd sp fun _ sp₁ =>
      (onInner BufWriter.flush).okAnd sp₁ fun _ sp₂ =>
      refreshActiveSize.okAnd sp₂ fun _ sp₃ =>
      let sp' := sp₃.cutToSize.nextUnopened 1
      decide (nextSegmentId sp₃.activeSegmentId = .ok 1
        ∧ sp'.activeSegmentPath = "logs-1.logjet".toList
        ∧ sp'.activeWriter.inner.inner.name = "logs.logjet".toList
        ∧ (append external (smallRecord 2)).fails sp' Directory.notFound
        ∧ (flushPending external).fails sp' Directory.notFound)) = true := by
    decide +kernel
  obtain ⟨sp, hrun, h⟩ := run_of_smallRun hcalls
  obtain ⟨_, sp₁, hblock, h⟩ := okAnd_eq_true.mp h
  obtain ⟨_, sp₂, hflush, h⟩ := okAnd_eq_true.mp h
  obtain ⟨_, sp₃, hsize, h⟩ := okAnd_eq_true.mp h
  obtain ⟨hid, hpath, hname, hfirst, hsecond⟩ := of_decide_eq_true h
  exact ⟨sp, _, hrun, .openNext hblock hflush hsize hid, hpath, hname,
    fails_eq_true.mp hfirst, fails_eq_true.mp hsecond⟩

end FileSpool

end Logjet
