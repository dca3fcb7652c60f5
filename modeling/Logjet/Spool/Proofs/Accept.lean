/-
Which records `append` refuses: those before the first record of the block
being buffered, in number or in time.
-/
import Logjet.Spool.Buffer
import Logjet.Spool.Proofs.Run

namespace Logjet

open List Ascent Reference EStateM Except
open EStateM (Ends)

variable {x : External}

def Error.Outward : Error → Prop
  | .io _ | .codec _ | .lengthTooLarge .. | .numericOverflow _ => True
  | _ => False

def IoError.Outward (err : IoError) : Prop :=
  err.kind ≠ .invalidData ∨ err.message = "segment id overflow"
    ∨ ∃ e : Error, e.Outward ∧ err = toIoError e

def IoError.Found (err : IoError) : Prop := err.kind ≠ .notFound

def IoError.Plain (err : IoError) : Prop := err.Outward ∧ err.Found

namespace LogjetWriter

variable {W : Type} [Sink W] {w : LogjetWriter W}

def HasBase (w : LogjetWriter W) : Prop :=
  ∃ baseSeq baseTs, w.blockBaseSeq = some baseSeq
    ∧ w.blockBaseTsUnixNs = some baseTs

theorem buildBlock_outward {config : WriterConfig} {payload : Bytes}
    {baseSeq baseTs : UInt64} {count : UInt32} {e : Error}
    (h : buildBlock x config payload (some baseSeq) (some baseTs) count
      = .error e) : e.Outward := by
  simp only [buildBlock, Option.elim, ok_bind] at h
  cases hcompress : config.codec.compress x payload with
  | error e' =>
    rw [hcompress] at h
    cases h
    unfold Codec.compress at hcompress
    split at hcompress
    · cases hcompress
    · cases hcompress
    · split at hcompress
      · cases hcompress
      · cases hcompress
        trivial
  | ok compressed =>
    rw [hcompress, ok_bind] at h
    by_cases hu : payload.length < 2 ^ 32
    · rw [ensure_true hu, ok_bind] at h
      by_cases hc : compressed.length < 2 ^ 32
      · rw [ensure_true hc] at h
        cases h
      · rw [Except.ensure, if_neg hc] at h
        cases h
        trivial
    · rw [Except.ensure, if_neg hu] at h
      cases h
      trivial

theorem flushBlock_outward (h : w.payloadBuf ≠ [] → w.HasBase) :
    Ends (flushBlock x) w (fun _ _ => True) (fun e _ => e.Outward) := by
  apply Ends.get
  apply Ends.ite
  · intro _
    trivial
  · intro hne
    obtain ⟨baseSeq, baseTs, hseq, hts⟩ := h (by simpa using hne)
    rw [hseq, hts]
    cases hbuild : buildBlock x w.config w.payloadBuf (some baseSeq)
        (some baseTs) w.recordCount with
    | error e => exact buildBlock_outward hbuild
    | ok body => exact writeBlock_ends (fun _ _ => trivial) fun _ _ _ => trivial

omit [Sink W] in
theorem encodeAgainstBase_outward {r : OwnedRecord} (hbelow : (w.baseFor r).Below r) :
    Ends (encodeAgainstBase r) w (fun _ w' => w'.HasBase) (fun e _ => e.Outward) := by
  refine Ends.bind ?_
  rw [Ends, takeBase_eq]
  refine Ends.bind (Ends.ensure (fun _ => ?_) fun h => absurd hbelow.1 h)
  refine Ends.bind (Ends.ensure (fun _ => ?_) fun h => absurd hbelow.2 h)
  refine Ends.bind (Ends.ensure (fun _ => ?_) fun _ => trivial)
  exact ⟨_, _, rfl, rfl⟩

theorem splitBlock_outward (h : w.HasBase) (r : OwnedRecord) (encoded : Bytes) :
    Ends (splitBlock x r encoded) w (fun _ w' => w'.HasBase) (fun e _ => e.Outward) := by
  apply Ends.get
  refine Ends.bind (Ends.ensure (fun _ => ?_) fun _ => trivial)
  apply Ends.ite
  · intro _
    refine Ends.bind ((flushBlock_outward fun _ => h).mono ?_ fun _ _ he => he)
    intro _ w' _
    exact ⟨_, _, rfl, rfl⟩
  · intro _
    exact h

omit [Sink W] in
theorem appendEncoded_outward (h : w.HasBase) (encoded : Bytes) :
    Ends (appendEncoded encoded) w (fun _ w' => w'.HasBase) (fun e _ => e.Outward) := by
  refine Ends.modify (Ends.get ?_)
  refine Ends.bind (Ends.ensure (fun _ => ?_) fun _ => trivial)
  exact h

theorem flushIfFull_outward (h : w.HasBase) :
    Ends (flushIfFull x) w (fun _ _ => True) (fun e _ => e.Outward) := by
  apply Ends.get
  apply Ends.ite
  · intro _
    exact flushBlock_outward fun _ => h
  · intro _
    trivial

theorem push_outward {r : OwnedRecord} (hbelow : (w.baseFor r).Below r) :
    Ends (push x r) w (fun _ _ => True) (fun e _ => e.Outward) := by
  refine Ends.bind ((encodeAgainstBase_outward hbelow).mono ?_ fun _ _ he => he)
  intro encoded w₁ h₁
  refine Ends.bind ((splitBlock_outward h₁ r encoded).mono ?_ fun _ _ he => he)
  intro encoded w₂ h₂
  refine Ends.bind ((appendEncoded_outward h₂ encoded).mono ?_ fun _ _ he => he)
  intro _ w₃ h₃
  exact flushIfFull_outward h₃

end LogjetWriter

namespace FileSpool

variable {sp sp' : FileSpool} {v : SegmentLog x}

theorem onWriter_plain {act : EStateM Error (LogjetWriter BufWriter) Unit}
    (h : Ends act sp.activeWriter (fun _ _ => True) (fun e _ => e.Outward)) :
    Ends (onWriter act) sp (fun _ _ => True) (fun e _ => e.Plain) := by
  unfold Ends onWriter at *
  cases hact : act sp.activeWriter with
  | ok _ w => trivial
  | error e w =>
    rw [hact] at h
    exact ⟨.inr (.inr ⟨e, h, rfl⟩), (by decide : ErrorKind.invalidData ≠ .notFound)⟩

theorem flushInner_plain : Ends (onInner BufWriter.flush) sp (fun _ _ => True)
      (fun e _ => e.Plain) := by
  have hflush : Ends BufWriter.flush sp.activeWriter.inner (fun _ _ => True)
      (fun e _ => e.kind = .fileTooLarge) := by
    refine Ends.get (Ends.bind ?_)
    unfold Ends
    rw [BufWriter.writeThrough_eq]
    by_cases hroom : ((sp.activeWriter.inner.inner.dir.get?
        sp.activeWriter.inner.inner.name).getD []).length
          + sp.activeWriter.inner.buf.length ≤ File.maxLen
    · rw [if_pos hroom]
      trivial
    · rw [if_neg hroom]
  unfold Ends onInner at *
  cases hact : BufWriter.flush sp.activeWriter.inner with
  | ok _ w => trivial
  | error e w =>
    rw [hact] at hflush
    change e.kind = .fileTooLarge at hflush
    exact ⟨.inl (by rw [hflush]; decide), by rw [IoError.Found, hflush]; decide⟩

theorem Shows.refreshActiveSize_plain (h : sp.Shows v) :
    Ends FileSpool.refreshActiveSize sp (fun _ _ => True) (fun e _ => e.Plain) := by
  have hget : sp.dir.get? sp.activeSegmentPath = some (v.active.disk.flatMap Piece.bytes) := by
    rw [h.path]
    exact h.holds.get (mem_append_right _ (mem_singleton_self _))
  apply Ends.get
  rw [Directory.len, hget]
  trivial

theorem openNextSegment_plain : Ends openNextSegment sp (fun _ _ => True) (fun e _ => e.Plain) := by
  apply Ends.get
  apply Ends.bind
  unfold Ends nextSegmentId
  by_cases hid : sp.activeSegmentId.toNat + 1 < 2 ^ 64
  · rw [if_pos hid]
    trivial
  · rw [if_neg hid]
    exact ⟨.inr (.inl rfl), (by decide : ErrorKind.invalidData ≠ .notFound)⟩

theorem Shows.retentionLoop_plain (h : sp.Shows v) (excess : UInt64) :
    Ends (FileSpool.retentionLoop excess ((v.closed.map ClosedSegment.file
      ++ [(⟨sp.activeSegmentId, v.active.disk.flatMap Piece.bytes⟩ :
        Segment)]).map (Segment.info sp.baseStem))) sp (fun _ _ => True) (fun e _ => e.Plain) := by
  obtain ⟨closed, active⟩ := v
  induction closed generalizing sp excess with
  | nil =>
    refine Ends.get (Ends.ite (fun _ => trivial) fun hgoes => ?_)
    exact absurd (by simp [Segment.info]) hgoes
  | cons s closed ih =>
    refine Ends.get (Ends.ite (fun _ => trivial) fun _ => ?_)
    have hget := h.holds.get (s := s.file) (by simp)
    have hremove : Ends (FileSpool.removeFile (s.file.info sp.baseStem).path) sp
        (fun _ _ => True) (fun e _ => e.Plain) := by
      apply Ends.get
      rw [Directory.removeFile, if_pos]
      · trivial
      · rw [Directory.has, show sp.dir.get? (s.file.info sp.baseStem).path = _ from hget]
        rfl
    refine Ends.bind (hremove.withRun.mono ?_ fun _ _ he => he)
    intro _ sp₁ hremoved
    obtain ⟨hshows, hsettings, -, hid⟩ :=
      @Shows.removeFile x sp sp₁ [] closed s active h hremoved.1
    rw [← hid, ← show sp₁.baseStem = sp.baseStem from
      congrArg Settings.baseStem hsettings]
    exact ih _ hshows

theorem Shows.enforceRetention_plain (h : sp.Shows v) :
    Ends FileSpool.enforceRetention sp (fun _ _ => True) (fun e _ => e.Plain) := by
  refine Ends.get (Ends.ite (fun _ => trivial) fun _ => ?_)
  refine Ends.ite (fun _ => trivial) fun _ => ?_
  rw [h.holds.listSegments]
  exact h.retentionLoop_plain _

theorem Shows.hasBase (h : sp.Shows v)
    (hne : sp.activeWriter.payloadBuf ≠ []) : sp.activeWriter.HasBase := by
  obtain ⟨base, hp, -⟩ := h.writer.pending
  have hpending : v.active.pending ≠ [] := by
    intro hnil
    rw [hp.buf, hnil] at hne
    exact hne rfl
  exact ⟨_, _, hp.based hpending⟩

theorem Shows.below (h : sp.Shows v) {r : WireRecord} (hseq : ∀ a ∈ v.active.pending, a.seq < r.seq)
    (hts : ∀ baseTs ∈ sp.activeWriter.blockBaseTsUnixNs,
      baseTs ≤ r.tsUnixNs) : (sp.activeWriter.baseFor r).Below r := by
  obtain ⟨base, hp, hneat⟩ := h.writer.pending
  cases hpending : v.active.pending with
  | nil =>
    obtain ⟨hseqNone, htsNone⟩ := hneat.unset hpending
    rw [LogjetWriter.baseFor, hseqNone, htsNone]
    exact ⟨UInt64.le_refl _, UInt64.le_refl _⟩
  | cons first rest =>
    obtain ⟨hbaseSeq, hbaseTs⟩ := hp.based (by simp [hpending])
    have hfirst : base = first.ownBase := hneat.first first (by
      rw [hpending]
      rfl)
    rw [LogjetWriter.baseFor, hbaseSeq, hbaseTs]
    refine ⟨?_, hts _ hbaseTs⟩
    rw [hfirst]
    exact UInt64.le_of_lt (hseq first (by simp [hpending]))

theorem Shows.rotate_plain (h : sp.Shows v) (hcut : Cuttable x sp.writerConfig v.active.pending) :
    Ends (FileSpool.rotate x) sp (fun _ _ => True) (fun e _ => e.Plain) := by
  refine Ends.bind ((onWriter_plain
    (LogjetWriter.flushBlock_outward h.hasBase)).withRun.mono ?_ fun _ _ he => he)
  intro _ sp₁ ⟨hblock, _⟩
  refine Ends.bind (flushInner_plain.withRun.mono ?_ fun _ _ he => he)
  intro _ sp₂ ⟨hflush, _⟩
  obtain ⟨disk, -, hgrew, -⟩ := h.flushAll hcut hblock hflush
  refine Ends.bind (hgrew.shows.refreshActiveSize_plain.withRun.mono ?_ fun _ _ he => he)
  intro _ sp₃ ⟨hsize, _⟩
  refine Ends.get (Ends.bind ?_)
  show Ends (do FileSpool.openNextSegment; FileSpool.enforceRetention) _ _ _
  refine Ends.bind (openNextSegment_plain.withRun.mono ?_ fun _ _ he => he)
  intro _ sp₄ ⟨hnext, _⟩
  obtain ⟨disk, -, hshows, -⟩ := h.closeSegment hcut hblock hflush hsize hnext
  exact hshows.enforceRetention_plain

def Accepts (sp : FileSpool) (r : WireRecord) : Prop :=
  (sp.activeSizeBytes ≥ sp.segmentTargetBytes ∧ sp.activeSizeBytes > 0)
    ∨ ∀ baseTs ∈ sp.activeWriter.blockBaseTsUnixNs, baseTs ≤ r.tsUnixNs

instance (sp : FileSpool) (r : WireRecord) : Decidable (sp.Accepts r) :=
  have := Option.decidableForallMem (p := (· ≤ r.tsUnixNs)) sp.activeWriter.blockBaseTsUnixNs
  inferInstanceAs (Decidable (_ ∨ _))

theorem Shows.rotateIfFull_below (h : sp.Shows v) {r : WireRecord}
    (hcut : Cuttable x sp.writerConfig v.active.pending)
    (hseq : ∀ a ∈ v.active.pending, a.seq < r.seq) (haccepts : sp.Accepts r)
    (hrun : rotateIfFull x sp = .ok () sp') : (sp'.activeWriter.baseFor r).Below r
      ∧ ∃ v' : SegmentLog x, Grew sp v sp' v' [] := by
  rw [rotateIfFull, get_bind] at hrun
  by_cases hdue : sp.activeSizeBytes ≥ sp.segmentTargetBytes ∧ sp.activeSizeBytes > 0
  · rw [if_pos hdue] at hrun
    obtain ⟨v', hgrew, hactive, -⟩ := h.rotate hcut hrun
    refine ⟨hgrew.shows.below ?_ ?_, v', hgrew⟩
    · rw [hactive]
      intro a ha
      cases ha
    · obtain ⟨base, -, hneat⟩ := hgrew.shows.writer.pending
      rw [(hneat.unset (by rw [hactive])).2]
      intro baseTs hbaseTs
      cases hbaseTs
  · rw [if_neg hdue] at hrun
    cases hrun
    exact ⟨h.below hseq (haccepts.resolve_left hdue), v, h.withSize sp.activeSizeBytes⟩

theorem Shows.append_plain (h : sp.Shows v) {r : WireRecord}
    (hcut : Cuttable x sp.writerConfig (v.active.pending ++ [r]))
    (hseq : ∀ a ∈ v.active.pending, a.seq < r.seq) (haccepts : sp.Accepts r) :
    Ends (FileSpool.append x r) sp (fun _ _ => True) (fun e _ => e.Plain) := by
  have hcut₀ := hcut.mono (prefix_append v.active.pending [r]).isInfix
  have hfull : Ends (rotateIfFull x) sp (fun _ _ => True) (fun e _ => e.Plain) :=
    Ends.get (Ends.ite (fun _ => h.rotate_plain hcut₀) fun _ => trivial)
  refine Ends.bind (hfull.withRun.mono ?_ fun _ _ he => he)
  intro _ sp₁ ⟨hrun, _⟩
  obtain ⟨hbelow, v₁, hgrew₁⟩ := h.rotateIfFull_below hcut₀ hseq haccepts hrun
  refine Ends.bind ((onWriter_plain
    (LogjetWriter.push_outward hbelow)).withRun.mono ?_ fun _ _ he => he)
  intro _ sp₂ ⟨hpush, _⟩
  have hpending₁ := hgrew₁.pending
  rw [append_nil] at hpending₁
  obtain ⟨v₂, hgrew₂⟩ := hgrew₁.shows.push (by
    rw [writerConfig_of_settings hgrew₁.settings]
    exact hcut.mono (suffix_append_self_iff.mpr hpending₁).isInfix) hpush
  refine Ends.bind (hgrew₂.shows.refreshActiveSize_plain.withRun.mono ?_ fun _ _ he => he)
  intro _ sp₃ ⟨hsize, _⟩
  refine Ends.get (Ends.ite (fun _ => ?_) fun _ => trivial)
  rw [hgrew₂.shows.refreshActiveSize hsize]
  refine (hgrew₂.shows.withSize _).shows.rotate_plain ?_
  have hgrew := hgrew₁.trans hgrew₂
  show Cuttable x sp₂.writerConfig v₂.active.pending
  rw [writerConfig_of_settings hgrew.settings]
  exact hcut.mono hgrew.pending.isInfix

theorem Shows.accepts_of_append (h : sp.Shows v) {r : WireRecord}
    (hrun : FileSpool.append x r sp = .ok () sp') : sp.Accepts r := by
  obtain ⟨_, sp₁, hfull, hrun⟩ := bind_eq_ok_iff.mp hrun
  obtain ⟨_, sp₂, hpush, -⟩ := bind_eq_ok_iff.mp hrun
  rw [rotateIfFull, get_bind] at hfull
  by_cases hdue : sp.activeSizeBytes ≥ sp.segmentTargetBytes ∧ sp.activeSizeBytes > 0
  · exact .inl hdue
  · rw [if_neg hdue] at hfull
    cases hfull
    right
    intro baseTs hbaseTs
    obtain ⟨w, hw, -⟩ := onWriter_eq_ok_iff.mp hpush
    have hbelow := LogjetWriter.below_of_push hw
    obtain ⟨base, hp, hneat⟩ := h.writer.pending
    by_cases hnil : v.active.pending = []
    · rw [(hneat.unset hnil).2] at hbaseTs
      cases hbaseTs
    · rw [LogjetWriter.baseFor, (hp.based hnil).1, hbaseTs] at hbelow
      exact hbelow.2

/-- An append is kept and replayed iff the spool `Accepts` it. -/
theorem append_accepts_iff (x : External) (hx : x.RoundTrip)
    {config : FileConfig} (hmax : config.maxTotalBytes = 0)
    {appended : List WireRecord} {sp : FileSpool} (hrun : Run x config appended sp) {r : WireRecord}
    (hfits : Fits x config (appended ++ [r])) (hseq : ∀ a ∈ appended, a.seq < r.seq)
    (hcalls : ∀ err sp', append x r sp = .error err sp' → ¬ err.Outward) :
    (∃ sp₁, append x r sp = .ok () sp₁ ∧ ∀ sp₂, flushPending x sp₁ = .ok () sp₂ →
          Legible x sp₂.dir sp₂.baseStem → ∀ lastSeq, max lastSeq sp.consumedThroughSeq < r.seq →
            ∃ records c, Replays x sp₂ (replayCursorAfter lastSeq) records c ∧ r ∈ records)
      ↔ sp.Accepts r := by
  have hfits₀ := hfits.mono (prefix_append appended [r]).isInfix
  obtain ⟨v, htracks⟩ := hrun.tracks hx hfits₀
  have hpending : ∀ a ∈ v.active.pending, a.seq < r.seq :=
    fun a ha => hseq a (htracks.pending.subset ha)
  constructor
  · intro ⟨sp₁, happend, _⟩
    exact htracks.shows.accepts_of_append happend
  · intro haccepts
    have hcut : Cuttable x sp.writerConfig (v.active.pending ++ [r]) :=
      cuttable_of_fits htracks.settings (hfits.mono
        (suffix_append_self_iff.mpr htracks.pending).isInfix)
    have hends := htracks.shows.append_plain hcut hpending haccepts
    cases happend : append x r sp with
    | error err sp' => exact absurd (hends.error happend).1 (hcalls _ _ happend)
    | ok _ sp₁ =>
      refine ⟨sp₁, rfl, ?_⟩
      intro sp₂ hflush hlegible lastSeq habove
      obtain ⟨v₁, hgrew⟩ := htracks.append hfits happend
      obtain ⟨c, hreplays⟩ := (htracks.grew hgrew).replays_flushed hx hfits hflush hlegible lastSeq
      refine ⟨_, c, hreplays, ?_⟩
      obtain ⟨dropped, hstored, hnone⟩ := hgrew.stored
      have hzero : sp.maxTotalBytes = 0 :=
        (congrArg Settings.maxTotalBytes htracks.settings).trans hmax
      rw [hnone hzero, nil_append] at hstored
      rw [hstored, hgrew.consumed]
      exact mem_ascent_append habove fun b hb => hseq b (htracks.stored.subset hb)

def timedRecord (seq tsUnixNs : UInt64) : WireRecord := { smallRecord seq with tsUnixNs }

theorem append_accepts_after_flush : ∃ sp sp₁ sp₂, Run external smallSpool [timedRecord 1 5] sp
      ∧ append external (timedRecord 2 3) sp = .ok () sp₁ ∧ flushPending external sp₁ = .ok () sp₂
      ∧ ∃ records c, Replays external sp₂ (replayCursorAfter 1) records c
        ∧ timedRecord 2 3 ∈ records := by
  have hcalls : smallRun [some (timedRecord 1 5), none] (fun sp =>
      (append external (timedRecord 2 3)).okAnd sp fun _ sp₁ =>
      (flushPending external).okAnd sp₁ fun _ sp₂ =>
      decide (sp.Accepts (timedRecord 2 3) ∧ sp.consumedThroughSeq = 0
        ∧ Legible external sp₂.dir sp₂.baseStem)) = true := by
    decide +kernel
  obtain ⟨sp, hrun, h⟩ := run_of_smallRun hcalls
  obtain ⟨_, sp₁, happend, h⟩ := okAnd_eq_true.mp h
  obtain ⟨_, sp₂, hflush₂, h⟩ := okAnd_eq_true.mp h
  obtain ⟨haccepts, hconsumed, hlegible⟩ := of_decide_eq_true h
  have hsucceeds : ∀ err sp', append external (timedRecord 2 3) sp
      = .error err sp' → ¬ err.Outward := by
    intro err sp' herror
    rw [happend] at herror
    cases herror
  obtain ⟨sp₁', happend', hlater⟩ := (append_accepts_iff external
    external_roundTrip rfl hrun (smallPayloads_fit (by decide)) (by decide) hsucceeds).mpr haccepts
  rw [happend] at happend'
  cases happend'
  refine ⟨sp, sp₁, sp₂, hrun, happend, hflush₂, ?_⟩
  apply hlater sp₂ hflush₂ hlegible 1
  rw [hconsumed]
  decide

theorem append_refuses_earlier : ∃ sp err sp', Run external smallSpool [timedRecord 1 5] sp
      ∧ Fits external smallSpool [timedRecord 1 5, timedRecord 2 3]
      ∧ append external (timedRecord 2 3) sp = .error err sp' ∧ err = ⟨.invalidData,
        "invalid header: timestamp must be monotonic within block"⟩
      ∧ (BufferSpool.append (timedRecord 2 3) (BufferSpool.append
          (timedRecord 1 5) (.new ⟨.messages 100, 0⟩ 7))).records
        = [timedRecord 1 5, timedRecord 2 3] := by
  have hcalls : smallRun [some (timedRecord 1 5)] (fun sp =>
      (append external (timedRecord 2 3)).fails sp ⟨.invalidData,
        "invalid header: timestamp must be monotonic within block"⟩) = true := by
    decide +kernel
  obtain ⟨sp, hrun, h⟩ := run_of_smallRun hcalls
  obtain ⟨sp', happend⟩ := fails_eq_true.mp h
  exact ⟨sp, _, sp', hrun, smallPayloads_fit (by decide), happend, rfl, by decide +kernel⟩

end FileSpool

end Logjet
