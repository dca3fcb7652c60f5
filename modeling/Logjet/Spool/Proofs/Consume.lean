/-
What `consume_through` keeps: the unconsumed records survive exactly when the
active segment's file is not spent or nothing unconsumed is unflushed.
-/
import Logjet.Spool.Proofs.Run

namespace Logjet

open List Ascent Reference EStateM

variable {x : External}

theorem SegmentLog.mem_cleanup_stored {v : SegmentLog x} {consumed : UInt64}
    (hsorted : v.stored.Pairwise fun a b => a.seq < b.seq)
    {r : OwnedRecord} (hr : r ∈ v.stored) (habove : consumed < r.seq)
    (hsafe : Spent consumed v.active.onDisk → r ∈ v.readable) :
    r ∈ (v.cleanup consumed).stored := by
  have hnot := UInt64.not_le.mpr habove
  obtain ⟨hclosed, hactive, -⟩ := pairwise_append.mp hsorted
  have hfile : r ∈ v.closedRecords → r ∈ (v.cleanup consumed).stored := by
    intro hr
    obtain ⟨s, hs, hr⟩ := mem_flatMap.mp hr
    apply mem_append_left
    refine mem_flatMap.mpr ⟨s, mem_filter.mpr ⟨hs, ?_⟩, hr⟩
    apply decide_eq_true
    intro hspent
    exact hnot (hspent.le (hclosed.sublist (sublist_flatten_of_mem (mem_map_of_mem hs))) hr)
  rcases mem_append.mp hr with hr | hr
  · exact hfile hr
  · by_cases hspent : Spent consumed v.active.onDisk
    · rcases mem_append.mp (hsafe hspent) with hr | hr
      · exact hfile hr
      · exact absurd (hspent.le (hactive.sublist (sublist_append_left _ _)) hr) hnot
    · apply mem_append_right
      rw [SegmentLog.cleanup, if_neg hspent]
      exact hr

theorem SegmentLog.cleanup_stored_of_spent {v : SegmentLog x}
    {consumed : UInt64} (h : Spent consumed v.active.onDisk) :
    ∀ r ∈ (v.cleanup consumed).stored, r ∈ v.closedRecords := by
  intro r hr
  rw [SegmentLog.stored, SegmentLog.cleanup, if_pos h] at hr
  rw [show ActiveSegment.records (⟨[], [], []⟩ : ActiveSegment x) = [] from
    rfl, append_nil] at hr
  obtain ⟨s, hs, hr⟩ := mem_flatMap.mp hr
  exact mem_flatMap.mpr ⟨s, mem_of_mem_filter hs, hr⟩

namespace FileSpool

/-- The active file is not deleted while a later record is still buffered. -/
def ConsumeSafe (x : External) (sp : FileSpool) (s : UInt64) : Prop :=
  s ≤ sp.consumedThroughSeq
    ∨ (∀ m, segmentMaxSeq x sp.dir sp.activeSegmentPath = .ok (some m) → s < m)
    ∨ ∀ r, sp.Stores x r → s < r.seq → r ∈ sp.readable x

variable {sp sp₁ sp₂ : FileSpool} {config : FileConfig}
  {appended : List WireRecord} {v : SegmentLog x}

theorem Shows.segmentMaxSeq_active (hx : x.RoundTrip) (h : sp.Shows v)
    (hlegible : Legible x sp.dir sp.baseStem) : segmentMaxSeq x sp.dir sp.activeSegmentPath
      = .ok (v.active.onDisk.getLast?.map OwnedRecord.seq) := by
  have hmem : (⟨sp.activeSegmentId, v.active.disk.flatMap Piece.bytes⟩ :
      Segment) ∈ v.closed.map ClosedSegment.file
        ++ [⟨sp.activeSegmentId, v.active.disk.flatMap Piece.bytes⟩] :=
    mem_append_right _ (mem_singleton_self _)
  rw [h.path, segmentMaxSeq_eq (h.holds.get hmem)
    ((legible_iff h.holds).mp hlegible _ hmem), contentRecords_pieces hx]
  · rfl
  · exact fun p hp => h.writer.readable p (mem_append_left _ hp)

theorem Tracks.survives (hx : x.RoundTrip) (h : Tracks config appended sp v)
    (hsorted : v.stored.Pairwise fun a b => a.seq < b.seq) (hfits : Fits x config appended)
    (hlegible : Legible x sp.dir sp.baseStem) {s : UInt64}
    (hsafe : ConsumeSafe x sp s) {r : WireRecord} (hr : sp.Stores x r) (habove : s < r.seq) :
    r ∈ (if s ≤ sp.consumedThroughSeq then v else v.cleanup s).stored := by
  have hstored := h.mem_stored hx hfits hr
  by_cases hle : s ≤ sp.consumedThroughSeq
  · rw [if_pos hle]
    exact hstored
  · rw [if_neg hle]
    apply SegmentLog.mem_cleanup_stored hsorted hstored habove
    intro ⟨last, hlast, hspent⟩
    rcases hsafe with hsafe | hsafe | hsafe
    · exact absurd hsafe hle
    · rw [h.shows.segmentMaxSeq_active hx hlegible,
        show v.active.onDisk.getLast? = some last from hlast] at hsafe
      exact absurd (hsafe last.seq rfl) (UInt64.not_lt.mpr hspent)
    · rw [← h.shows.readable_eq hx]
      exact hsafe r hr habove

/-- An acknowledgement keeps the later records iff it is `ConsumeSafe`. -/
theorem consume_keeps_unconsumed_iff (x : External) (hx : x.RoundTrip)
    {config : FileConfig} {appended : List WireRecord}
    {sp sp₁ sp₂ : FileSpool} {s : UInt64} (hrun : Run x config appended sp)
    (hfits : Fits x config appended) (hseqs : appended.Pairwise fun a b => a.seq < b.seq)
    (hlegible : Legible x sp.dir sp.baseStem) (hconsume : consumeThrough x s sp = .ok () sp₁)
    (hflush : flushPending x sp₁ = .ok () sp₂) (hlegible₂ : Legible x sp₂.dir sp₂.baseStem) :
    (∀ r, sp.Stores x r → max sp.consumedThroughSeq s < r.seq →
        ∃ records c, Replays x sp₂ (replayCursorAfter s) records c ∧ r ∈ records)
      ↔ ConsumeSafe x sp s := by
  obtain ⟨v, hv⟩ := hrun.tracks hx hfits
  have hsorted := hseqs.sublist hv.stored
  obtain ⟨hv₁, hconsumed, -⟩ := hv.consumeThrough hx hfits hlegible hconsume
  obtain ⟨c, hreplays⟩ := hv₁.replays_flushed hx hfits hflush hlegible₂ s
  rw [ascent_eq_filter (hseqs.sublist hv₁.stored)] at hreplays
  have hmax := hv.shows.segmentMaxSeq_active hx hlegible
  constructor
  · intro hkept
    by_contra hunsafe
    rw [ConsumeSafe, not_or, not_or] at hunsafe
    obtain ⟨hnle, hspent, hlost⟩ := hunsafe
    push Not at hspent hlost
    have hlt := UInt64.not_le.mp hnle
    obtain ⟨m, hm, hle⟩ := hspent
    obtain ⟨r, hr, habove, hunread⟩ := hlost
    have hspent : Spent s v.active.onDisk := by
      rw [hmax] at hm
      obtain ⟨last, hlast, rfl⟩ := Option.map_eq_some_iff.mp (Except.ok.inj hm)
      exact ⟨last, hlast, UInt64.not_lt.mp hle⟩
    obtain ⟨records, c', hreplays', hmem⟩ := hkept r hr
      (max_lt_iff_seq.mpr ⟨UInt64.lt_trans hlt habove, habove⟩)
    rw [hreplays'.eq hreplays, if_neg hnle] at hmem
    apply hunread
    rw [hv.shows.readable_eq hx]
    exact mem_append_left _ (SegmentLog.cleanup_stored_of_spent hspent r (mem_of_mem_filter hmem))
  · intro hsafe r hr habove
    obtain ⟨hconsumed', hs⟩ := max_lt_iff_seq.mp habove
    refine ⟨_, c, hreplays, mem_filter.mpr ⟨?_, ?_⟩⟩
    · exact hv.survives hx hsorted hfits hlegible hsafe hr hs
    · rw [hconsumed]
      exact decide_eq_true (max_lt_iff_seq.mpr ⟨hs, max_lt_iff_seq.mpr ⟨hs, hconsumed'⟩⟩)

theorem consume_keeps_unconsumed_flushed :
    ∃ sp sp₁ sp₂, Run external smallSpool [smallRecord 1, smallRecord 2] sp
      ∧ consumeThrough external 1 sp = .ok () sp₁ ∧ flushPending external sp₁ = .ok () sp₂
      ∧ sp.Stores external (smallRecord 2)
      ∧ ∀ r, sp.Stores external r → max sp.consumedThroughSeq 1 < r.seq →
        ∃ records c, Replays external sp₂ (replayCursorAfter 1) records c ∧ r ∈ records := by
  have hcalls : smallRun [some (smallRecord 1), some (smallRecord 2), none] (fun sp =>
      (flushPending external).okAnd sp fun _ sp' =>
      (consumeThrough external 1).okAnd sp fun _ sp₁ =>
      (flushPending external).okAnd sp₁ fun _ sp₂ =>
      decide (Legible external sp.dir sp.baseStem ∧ Legible external sp₂.dir sp₂.baseStem
        ∧ segmentMaxSeq external sp.dir sp.activeSegmentPath = .ok (some 2)
        ∧ smallRecord 2 ∈ sp'.readable external)) = true := by
    decide +kernel
  obtain ⟨sp, hrun, h⟩ := run_of_smallRun hcalls
  obtain ⟨_, sp', hagain, h⟩ := okAnd_eq_true.mp h
  obtain ⟨_, sp₁, hconsume, h⟩ := okAnd_eq_true.mp h
  obtain ⟨_, sp₂, hflush₂, h⟩ := okAnd_eq_true.mp h
  obtain ⟨hlegible, hlegible₂, hmax, hstores⟩ := of_decide_eq_true h
  refine ⟨sp, sp₁, sp₂, hrun, hconsume, hflush₂, ⟨sp', hagain, hstores⟩, ?_⟩
  rw [consume_keeps_unconsumed_iff external external_roundTrip hrun
    (smallRecords_fit [1, 2]) (by decide) hlegible hconsume hflush₂ hlegible₂]
  refine Or.inr (Or.inl ?_)
  intro m hm
  rw [hmax] at hm
  cases hm
  decide

theorem consume_destroys_unflushed : ∃ appended sp sp₁ sp₂ r, Run external smallSpool appended sp
      ∧ Fits external smallSpool appended ∧ (appended.Pairwise fun a b => a.seq < b.seq)
      ∧ (appended.Pairwise fun a b => a.tsUnixNs ≤ b.tsUnixNs)
      ∧ consumeThrough external 1 sp = .ok () sp₁ ∧ flushPending external sp₁ = .ok () sp₂
      ∧ r ∈ appended ∧ sp.Stores external r ∧ max sp.consumedThroughSeq 1 < r.seq
      ∧ ¬ ∃ records c, Replays external sp₂ (replayCursorAfter 1) records c ∧ r ∈ records := by
  have hcalls : smallRun [some (smallRecord 1), none, some (smallRecord 2)] (fun sp =>
      (flushPending external).okAnd sp fun _ sp' =>
      (consumeThrough external 1).okAnd sp fun _ sp₁ =>
      (flushPending external).okAnd sp₁ fun _ sp₂ =>
      (nextForCursor external sp₂).okAnd (replayCursorAfter 1) fun found _ =>
      decide (smallRecord 2 ∈ sp'.readable external
        ∧ max sp.consumedThroughSeq 1 < 2 ∧ found = none)) = true := by
    decide +kernel
  obtain ⟨sp, hrun, h⟩ := run_of_smallRun hcalls
  obtain ⟨_, sp', hflush', h⟩ := okAnd_eq_true.mp h
  obtain ⟨_, sp₁, hconsume, h⟩ := okAnd_eq_true.mp h
  obtain ⟨_, sp₂, hflush₂, h⟩ := okAnd_eq_true.mp h
  obtain ⟨found, c, hnext, h⟩ := okAnd_eq_true.mp h
  obtain ⟨hstores, habove, rfl⟩ := of_decide_eq_true h
  refine ⟨[smallRecord 1, smallRecord 2], sp, sp₁, sp₂, smallRecord 2, hrun,
    smallRecords_fit [1, 2], by decide, by decide, hconsume, hflush₂,
    by decide, ⟨sp', hflush', hstores⟩, habove, ?_⟩
  intro ⟨records, c', hreplays, hmem⟩
  rw [hreplays.eq (.done hnext)] at hmem
  cases hmem

end FileSpool

end Logjet
