/-
The file spool refines the list. `Mirrors` ties the files to it, `Follows` each
cursor; both survive every call (`Serves.step`).
-/
import Logjet.Proofs.Stream
import Logjet.Spool.ListLog
import Logjet.Spool.Proofs.Run

namespace Logjet

open List Ascent LogjetWriter Reference Transition EStateM UInt64

variable {x : External}

namespace FileSpool

structure Mirrors (config : FileConfig) (sp : FileSpool) (v : SegmentLog x)
    (log : ListLog) : Prop where
  shows : sp.Shows v
  settings : sp.settings = settingsOf config sp.streamId
  buffered : v.active.buffered = []
  pending : v.active.pending = []
  consumed : sp.consumedThroughSeq = log.consumed
  sublist : v.stored.Sublist log.records
  unconsumed : v.stored.filter (log.consumed < ·.seq) = log.records.filter (log.consumed < ·.seq)

structure Follows (sp : FileSpool) (v : SegmentLog x)
    (c : FileReplayCursor) (lastSeq : UInt64) : Prop where
  lastSeq : c.lastSeq = lastSeq
  hint : c.nextSegmentIdHint ≤ sp.activeSegmentId
  passed : Passed (v.files sp.activeSegmentId) c.nextSegmentIdHint
    (max c.lastSeq sp.consumedThroughSeq)

variable {config : FileConfig} {sp sp' : FileSpool} {v v' : SegmentLog x}
  {log : ListLog} {c : FileReplayCursor} {lastSeq : UInt64}

theorem Mirrors.readable (h : Mirrors config sp v log) : v.readable = v.stored := by
  rw [SegmentLog.readable, SegmentLog.stored, ActiveSegment.records,
    ActiveSegment.unflushed, h.buffered, h.pending]
  exact congrArg _ (append_nil _).symm

theorem Mirrors.withCursors (h : Mirrors config sp v log) (cursors : List UInt64) :
    Mirrors config sp v { log with cursors := cursors } :=
  ⟨h.shows, h.settings, h.buffered, h.pending, h.consumed, h.sublist, h.unconsumed⟩

theorem Mirrors.visible (h : Mirrors config sp v log) (lastSeq : UInt64) :
    v.readable.filter (max lastSeq sp.consumedThroughSeq < ·.seq) = log.visible lastSeq := by
  have hsplit : ∀ records : List WireRecord,
      records.filter (max lastSeq sp.consumedThroughSeq < ·.seq)
        = (records.filter (log.consumed < ·.seq)).filter (lastSeq < ·.seq) := by
    intro records
    rw [filter_filter]
    apply filter_congr
    intro r _
    rw [h.consumed, Bool.eq_iff_iff]
    simp [max_lt_iff_seq]
  rw [h.readable, hsplit, h.unconsumed, ListLog.visible, filter_filter]
  apply filter_congr
  intro r _
  simp

variable {new : List WireRecord} {seq : UInt64}

theorem Follows.grew (h : Follows sp v c lastSeq)
    (hgrew : Grew sp v sp' v' new) : Follows sp' v' c lastSeq := by
  refine ⟨h.lastSeq, UInt64.le_trans h.hint hgrew.ids, ?_⟩
  rw [hgrew.consumed]
  intro f hf hlt
  rcases mem_snoc.mp hf with hf | rfl
  · obtain ⟨s, hs, rfl⟩ := mem_map.mp hf
    have hold := hgrew.older s hs (UInt64.lt_of_lt_of_le hlt h.hint)
    exact h.passed _ (mem_append_left _ (mem_map_of_mem hold)) hlt
  · exact absurd (UInt64.lt_of_lt_of_le hlt (UInt64.le_trans h.hint hgrew.ids)) (UInt64.lt_irrefl _)

theorem Follows.cleanup (h : Follows sp v c lastSeq)
    (hconsumed : sp.consumedThroughSeq ≤ sp'.consumedThroughSeq)
    (hid : sp.activeSegmentId ≤ sp'.activeSegmentId) : Follows sp' (v.cleanup seq) c lastSeq := by
  refine ⟨h.lastSeq, UInt64.le_trans h.hint hid, ?_⟩
  intro f hf hlt
  rcases mem_snoc.mp hf with hf | rfl
  · obtain ⟨s, hs, rfl⟩ := mem_map.mp hf
    have hold : (s.id, s.records) ∈ v.files sp.activeSegmentId := mem_append_left _
        (mem_map_of_mem (mem_of_mem_filter hs))
    intro r hr
    exact UInt64.le_trans (h.passed _ hold hlt r hr) (max_mono_seq _ hconsumed)
  · exact absurd (UInt64.lt_of_lt_of_le hlt (UInt64.le_trans h.hint hid)) (UInt64.lt_irrefl _)

theorem Mirrors.grew (h : Mirrors config sp v log)
    (hmax : config.maxTotalBytes = 0) (hgrew : Grew sp v sp' v' new)
    (hbuffered : v'.active.buffered = []) (hpending : v'.active.pending = []) :
    Mirrors config sp' v' { log with records := log.records ++ new } := by
  obtain ⟨dropped, hstored, hnone⟩ := hgrew.stored
  have hzero : sp.maxTotalBytes = 0 := (congrArg Settings.maxTotalBytes h.settings).trans hmax
  rw [hnone hzero, nil_append] at hstored
  refine ⟨hgrew.shows, settings_of h.settings hgrew.settings, hbuffered,
    hpending, hgrew.consumed.trans h.consumed, ?_, ?_⟩
  · rw [hstored]
    exact h.sublist.append_right new
  · rw [hstored, filter_append, filter_append, h.unconsumed]

theorem Mirrors.cleanup (h : Mirrors config sp v log)
    (hsorted : log.records.Pairwise fun a b => a.seq < b.seq) (hle : log.consumed ≤ seq)
    (hshows : sp'.Shows (v.cleanup seq))
    (hsettings : sp'.settings = sp.settings) (hconsumed : sp'.consumedThroughSeq = seq) :
    Mirrors config sp' (v.cleanup seq) { log with consumed := seq } := by
  have habove : ∀ records : List WireRecord, records.filter (seq < ·.seq)
        = (records.filter (log.consumed < ·.seq)).filter (seq < ·.seq) := by
    intro records
    rw [filter_filter]
    apply filter_congr
    intro r _
    rw [Bool.eq_iff_iff]
    simp only [Bool.and_eq_true, decide_eq_true_eq]
    exact ⟨fun hlt => ⟨hlt, UInt64.lt_of_le_of_lt hle hlt⟩, fun h => h.1⟩
  refine ⟨hshows, settings_of h.settings hsettings, ?_, ?_, hconsumed,
    (v.cleanup_stored_sublist seq).trans h.sublist, ?_⟩
  · rw [SegmentLog.cleanup]
    split
    · rfl
    · exact h.buffered
  · rw [SegmentLog.cleanup]
    split
    · rfl
    · exact h.pending
  · rw [SegmentLog.cleanup_filter h.buffered h.pending
      (hsorted.sublist h.sublist), habove v.stored, h.unconsumed, ← habove log.records]

def Serves (x : External) (config : FileConfig) (st : Serving) (log : ListLog) : Prop :=
  ∃ v : SegmentLog x, Mirrors config st.spool v log
    ∧ List.Forall₂ (Follows st.spool v) st.cursors log.cursors

theorem Follows.next (hx : x.RoundTrip) (hshows : sp.Shows v)
    (hc : Follows sp v c lastSeq) (hlegible : Legible x sp.dir sp.baseStem) :
    ∃ found c', nextForCursor x sp c = .ok found c' ∧ found = v.readable.find?
        (fun r => max lastSeq sp.consumedThroughSeq < r.seq)
      ∧ Follows sp v c' ((found.map OwnedRecord.seq).getD lastSeq) := by
  have hfst := nextIn_fst hshows.files_sorted hc.passed
  have hlast := nextIn_lastSeq (max c.lastSeq sp.consumedThroughSeq) (v.files sp.activeSegmentId) c
  have hhint := nextIn_hint (max c.lastSeq sp.consumedThroughSeq) (v.files sp.activeSegmentId) c
  have hpassed := nextIn_passed hshows.files_sorted hc.passed
  have hnext := hshows.nextForCursor hx hlegible c
  generalize nextIn (max c.lastSeq sp.consumedThroughSeq)
    (v.files sp.activeSegmentId) c = result at *
  obtain ⟨found, c'⟩ := result
  rw [SegmentLog.files_records] at hfst
  rw [hc.lastSeq] at hfst hlast hpassed
  refine ⟨found, c', hnext, hfst, hlast, ?_, ?_⟩
  · rcases hhint with hhint | ⟨f, hf, hhint⟩
    · rw [hhint]
      exact hc.hint
    · rw [hhint]
      rcases mem_snoc.mp hf with hf | rfl
      · obtain ⟨s, hs, rfl⟩ := mem_map.mp hf
        exact UInt64.le_of_lt (hshows.lt_active hs)
      · exact UInt64.le_refl _
  · rw [hlast]
    cases found with
    | none => exact hpassed
    | some r =>
      have habove := find?_some hfst.symm
      simp only [decide_eq_true_eq] at habove
      show Passed _ _ (max r.seq _)
      rw [max_eq_left_seq (UInt64.le_of_lt (max_lt_iff_seq.mp habove).2)]
      exact hpassed.mono (UInt64.le_of_lt habove)

theorem Mirrors.nextForCursor (hx : x.RoundTrip)
    (h : Mirrors config sp v log) (hc : Follows sp v c lastSeq)
    (hlegible : Legible x sp.dir sp.baseStem) :
    ∃ c', nextForCursor x sp c = .ok (log.visible lastSeq).head? c'
      ∧ Follows sp v c' (((log.visible lastSeq).head?.map OwnedRecord.seq).getD lastSeq) := by
  obtain ⟨found, c', hnext, hfound, hc'⟩ := hc.next hx h.shows hlegible
  rw [← head?_filter, h.visible lastSeq] at hfound
  subst hfound
  exact ⟨c', hnext, hc'⟩

variable {st st' : Serving} {r : WireRecord}

theorem Serves.append {sp₁ sp₂ : FileSpool} {cursors : List FileReplayCursor}
    (hmax : config.maxTotalBytes = 0)
    (h : Serves x config ⟨sp, cursors⟩ log) (hfits : Fits x config [r])
    (happend : FileSpool.append x r sp = .ok () sp₁) (hflush : flushPending x sp₁ = .ok () sp₂) :
    Serves x config ⟨sp₂, cursors⟩ { log with records := log.records ++ [r] } := by
  obtain ⟨v, hm, hcursors⟩ := h
  obtain ⟨v₁, hgrew₁⟩ := hm.shows.append (by
      rw [hm.pending]
      exact cuttable_of_fits hm.settings hfits) happend
  have hpending := hgrew₁.pending
  rw [hm.pending, nil_append] at hpending
  obtain ⟨disk, -, hgrew₂, -⟩ := hgrew₁.shows.flushPending
    (cuttable_of_fits (settings_of hm.settings hgrew₁.settings)
      (hfits.mono hpending.isInfix)) hflush
  have hgrew := hgrew₁.trans hgrew₂
  exact ⟨_, hm.grew hmax hgrew rfl rfl, hcursors.imp fun c last hc => hc.grew hgrew⟩

theorem Serves.consumeThrough (hx : x.RoundTrip) {cursors : List FileReplayCursor} {seq : UInt64}
    (h : Serves x config ⟨sp, cursors⟩ log)
    (hsorted : log.records.Pairwise fun a b => a.seq < b.seq)
    (hlegible : Legible x sp.dir sp.baseStem)
    (hrun : FileSpool.consumeThrough x seq sp = .ok () sp') : Serves x config ⟨sp', cursors⟩
      { log with consumed := max seq log.consumed } := by
  obtain ⟨v, hm, hcursors⟩ := h
  have hmaxdef : max seq log.consumed = if seq ≤ log.consumed then log.consumed else seq := rfl
  rcases hm.shows.consumeThrough hx (hm.pending ▸ cuttable_nil _) hlegible
      hrun with ⟨hle, rfl⟩ | ⟨hlt, hshows, hsettings, hconsumed, hid⟩
  · rw [hm.consumed] at hle
    rw [hmaxdef, if_pos hle]
    exact ⟨v, hm, hcursors⟩
  · rw [hm.consumed] at hlt
    rw [hmaxdef, if_neg (UInt64.not_le.mpr hlt)]
    have hle := UInt64.le_of_lt hlt
    refine ⟨_, hm.cleanup hsorted hle hshows hsettings hconsumed,
      hcursors.imp fun c last hc => hc.cleanup ?_ hid⟩
    rw [hconsumed, show sp.consumedThroughSeq = _ from hm.consumed]
    exact hle

theorem Serves.reopen (hx : x.RoundTrip) {cursors : List FileReplayCursor}
    (hmax : config.maxTotalBytes = 0) (h : Serves x config ⟨sp, cursors⟩ log)
    (hsorted : log.records.Pairwise fun a b => a.seq < b.seq)
    (hlegible : Legible x (sp.drop x) sp.baseStem)
    (hrun : Reopens x config sp sp') : Serves x config ⟨sp', cursors⟩ log := by
  obtain ⟨v, hm, hcursors⟩ := h
  obtain ⟨sp₁, v₁, hgrew, hbuffered, hpending, hshows, hsettings, hconsumed,
    hid⟩ := hm.shows.reopen hx hm.settings (hm.pending ▸ cuttable_nil _) hlegible hrun
  have hm₁ := hm.grew hmax hgrew hbuffered hpending
  rw [append_nil] at hm₁
  rw [show sp.consumedThroughSeq = _ from hm.consumed] at hshows hconsumed
  refine ⟨_, hm₁.cleanup hsorted (UInt64.le_refl _) hshows
    (hsettings.trans hgrew.settings.symm) hconsumed,
    hcursors.imp fun c last hc => (hc.grew hgrew).cleanup ?_ hid⟩
  rw [hconsumed, hgrew.consumed, show sp.consumedThroughSeq = _ from hm.consumed]
  exact UInt64.le_refl _

theorem Serves.step (hx : x.RoundTrip) (hmax : config.maxTotalBytes = 0)
    (h : Serves x config st log) {e : SpoolEvent}
    (hsorted : log.records.Pairwise fun a b => a.seq < b.seq)
    (hfits : ∀ r, e = .append r → Fits x config [r])
    (hstep : FileStep x config (Legible x) st e st') :
    ∃ log', ListLog.Step log e log' ∧ Serves x config st' log' := by
  cases hstep with
  | append happend hflush => exact ⟨_, .append _, h.append hmax (hfits _ rfl) happend hflush⟩
  | consumeThrough hlegible hrun =>
    exact ⟨_, .consumeThrough _, h.consumeThrough hx hsorted hlegible hrun⟩
  | newCursor lastSeq =>
    obtain ⟨v, hm, hcursors⟩ := h
    refine ⟨_, .newCursor lastSeq, v, hm.withCursors _, ?_⟩
    apply rel_append hcursors
    refine .cons ⟨rfl, UInt64.zero_le, ?_⟩ .nil
    exact fun _ _ hlt => absurd hlt UInt64.not_lt_zero
  | next hcursor hlegible hrun =>
    obtain ⟨v, hm, hcursors⟩ := h
    obtain ⟨last, hlast, hc⟩ := forall₂_getElem? hcursors hcursor
    obtain ⟨c', hnext, hc'⟩ := hm.nextForCursor hx hc hlegible
    rw [hnext] at hrun
    cases hrun
    exact ⟨_, .next hlast, v, hm.withCursors _, forall₂_set hcursors _ hc'⟩
  | reopen hlegible hrun => exact ⟨_, .reopen, h.reopen hx hmax hsorted hlegible hrun⟩

end FileSpool

variable {log log' : ListLog} {content : Bytes} {n : Nat}

theorem ListLog.Step.records {e : SpoolEvent} (h : log.Step e log') :
    log'.records = log.records ++ appendedBy [e] := by
  cases h with
  | append r => rfl
  | consumeThrough seq => exact (append_nil _).symm
  | newCursor lastSeq => exact (append_nil _).symm
  | next h => exact (append_nil _).symm
  | reopen => exact (append_nil _).symm

/-- The segments on disk stand for a list of records. -/
theorem file_spool_refines_list (x : External) (hx : x.RoundTrip)
    {config : FileConfig} (hmax : config.maxTotalBytes = 0)
    {fresh : UInt64} {d : Directory} {sp : FileSpool}
    (hnone : listSegments d (deriveBaseStem config.name) = [])
    (hopen : FileSpool.openIn x config fresh d = .ok sp) {events : List SpoolEvent} {st : Serving}
    (hrun : Run (FileStep x config (Legible x)) ⟨sp, []⟩ events st)
    (hseqs : (appendedBy events).Pairwise fun a b => a.seq < b.seq)
    (hfits : ∀ r ∈ appendedBy events, FileSpool.Fits x config [r]) :
    (∃ log, Run ListLog.Step ⟨[], sp.consumedThroughSeq, []⟩ events log)
      ∧ ∀ c ∈ st.cursors, Legible x st.spool.dir st.spool.baseStem →
        ∃ found c', st.spool.nextForCursor x c = .ok found c' := by
  have hsim : ∃ log, Run ListLog.Step ⟨[], sp.consumedThroughSeq, []⟩ events
      log ∧ log.records = appendedBy events ∧ FileSpool.Serves x config st log := by
    -- over the run: the spool serves what the events have put on the list
    induction hrun with
    | nil =>
      have htracks := FileSpool.tracks_start hx hnone hopen
      exact ⟨_, .nil, rfl, ⟨[], ⟨[], [], []⟩⟩, ⟨htracks.shows,
        htracks.settings, rfl, rfl, rfl, List.Sublist.refl _, rfl⟩, .nil⟩
    | snoc _ hstep ih =>
      rw [appendedBy, filterMap_append] at hseqs hfits
      obtain ⟨log, hlog, hrecords, hserves⟩ := ih (pairwise_append.mp hseqs).1
        fun r hr => hfits r (mem_append_left _ hr)
      obtain ⟨log', hstep', hserves'⟩ := hserves.step hx hmax (by
          rw [hrecords]
          exact (pairwise_append.mp hseqs).1)
        (by
          intro r hr
          apply hfits r
          rw [hr]
          exact mem_append_right _ (mem_singleton_self _))
        hstep
      refine ⟨log', .snoc hlog hstep', ?_, hserves'⟩
      rw [hstep'.records, hrecords, appendedBy, appendedBy, appendedBy, filterMap_append]
  obtain ⟨log, hlog, -, v, hm, hcursors⟩ := hsim
  refine ⟨⟨log, hlog⟩, ?_⟩
  intro c hc hlegible
  obtain ⟨i, hi⟩ := mem_iff_getElem?.mp hc
  obtain ⟨last, -, hfollows⟩ := forall₂_getElem? hcursors hi
  obtain ⟨c', hnext, -⟩ := hm.nextForCursor hx hfollows hlegible
  exact ⟨_, c', hnext⟩

def sampleEvents : List SpoolEvent :=
  [.append (smallRecord 1), .newCursor 0, .next 0 (some (smallRecord 1)),
    .append (smallRecord 2), .consumeThrough 1,
    .next 0 (some (smallRecord 2)), .reopen, .next 0 none]

theorem file_spool_refines_list_sample :
    ∃ sp st, FileSpool.openIn external smallSpool 7 .empty = .ok sp
      ∧ Run (FileStep external smallSpool (Legible external)) ⟨sp, []⟩ sampleEvents st
      ∧ (∃ log, Run ListLog.Step ⟨[], sp.consumedThroughSeq, []⟩ sampleEvents log)
      ∧ ∀ c ∈ st.cursors, Legible external st.spool.dir st.spool.baseStem →
        ∃ found c', st.spool.nextForCursor external c = .ok found c' := by
  have hcalls : (FileSpool.openIn external smallSpool 7 .empty).okAnd (fun sp =>
      (FileSpool.append external (smallRecord 1)).okAnd sp fun _ sp₁ =>
      (FileSpool.flushPending external).okAnd sp₁ fun _ sp₂ =>
      (sp₂.nextForCursor external).okAnd (FileSpool.replayCursorAfter 0) fun found₁ c₁ =>
      (FileSpool.append external (smallRecord 2)).okAnd sp₂ fun _ sp₃ =>
      (FileSpool.flushPending external).okAnd sp₃ fun _ sp₄ =>
      (FileSpool.consumeThrough external 1).okAnd sp₄ fun _ sp₅ =>
      (sp₅.nextForCursor external).okAnd c₁ fun found₂ c₂ =>
      (FileSpool.flushPending external).okAnd sp₅ fun _ _ =>
      (FileSpool.openIn external smallSpool 8 (sp₅.drop external)).okAnd fun sp₆ =>
      (sp₆.nextForCursor external).okAnd c₂ fun found₃ _ =>
      decide (Legible external sp₂.dir sp₂.baseStem ∧ Legible external sp₄.dir sp₄.baseStem
        ∧ Legible external sp₅.dir sp₅.baseStem ∧ Legible external (sp₅.drop external) sp₅.baseStem
        ∧ Legible external sp₆.dir sp₆.baseStem
        ∧ found₁ = some (smallRecord 1) ∧ found₂ = some (smallRecord 2)
        ∧ found₃ = none)) = true := by
    decide +kernel
  obtain ⟨sp, hopen, h⟩ := Except.okAnd_eq_true.mp hcalls
  obtain ⟨_, sp₁, happend₁, h⟩ := okAnd_eq_true.mp h
  obtain ⟨_, sp₂, hflush₁, h⟩ := okAnd_eq_true.mp h
  obtain ⟨_, c₁, hnext₁, h⟩ := okAnd_eq_true.mp h
  obtain ⟨_, sp₃, happend₂, h⟩ := okAnd_eq_true.mp h
  obtain ⟨_, sp₄, hflush₂, h⟩ := okAnd_eq_true.mp h
  obtain ⟨_, sp₅, hconsume, h⟩ := okAnd_eq_true.mp h
  obtain ⟨_, c₂, hnext₂, h⟩ := okAnd_eq_true.mp h
  obtain ⟨_, _, hlast, h⟩ := okAnd_eq_true.mp h
  obtain ⟨sp₆, hreopen, h⟩ := Except.okAnd_eq_true.mp h
  obtain ⟨_, c₃, hnext₃, h⟩ := okAnd_eq_true.mp h
  obtain ⟨hfit₂, hfit₄, hfit₅, hfit₅', hfit₆, rfl, rfl, rfl⟩ := of_decide_eq_true h
  have hrun : Run (FileStep external smallSpool (Legible external)) ⟨sp, []⟩
      sampleEvents ⟨sp₆, [c₃]⟩ := by
    have r₁ : Run (FileStep external smallSpool (Legible external)) ⟨sp, []⟩
        _ _ := .snoc .nil (.append happend₁ hflush₁)
    have r₂ := r₁.snoc (.newCursor 0)
    have r₃ := r₂.snoc (@FileStep.next _ _ _ _ _ 0 _ _ _ rfl hfit₂ hnext₁)
    have r₄ := r₃.snoc (.append happend₂ hflush₂)
    have r₅ := r₄.snoc (.consumeThrough hfit₄ hconsume)
    have r₆ := r₅.snoc (@FileStep.next _ _ _ _ _ 0 _ _ _ rfl hfit₅ hnext₂)
    have r₇ := r₆.snoc (.reopen hfit₅' ⟨8, _, hlast, hreopen⟩)
    exact r₇.snoc (@FileStep.next _ _ _ _ _ 0 _ _ _ rfl hfit₆ hnext₃)
  refine ⟨sp, _, hopen, hrun, ?_⟩
  apply file_spool_refines_list external external_roundTrip rfl
    (by decide +kernel) hopen hrun (by decide)
  intro r hr
  have hsmall : r = smallRecord 1 ∨ r = smallRecord 2 := by
    simpa [appendedBy, sampleEvents] using hr
  rcases hsmall with rfl | rfl
  · exact smallRecords_fit [1]
  · exact smallRecords_fit [2]

def bulkRecord (seq : UInt64) : WireRecord := ⟨.logs, seq, 0, List.replicate 65529 0⟩

def bulkHeader (seq : UInt64) : BlockHeader :=
  sealHeader external .lz4 65535 6 1 (BlockHeaderExt.encode ⟨seq, 0⟩)

def bulkBody (seq : UInt64) : Bytes :=
  assembleBlock external defaultSyncMarker (bulkHeader seq)
    (BlockHeaderExt.encode ⟨seq, 0⟩) [1, 0, 0, 0xf9, 0xff, 0x03]

theorem bulkRecord_encode (seq : UInt64) : (bulkRecord seq).encode ⟨seq, 0⟩
      = [1, 0, 0, 0xf9, 0xff, 0x03] ++ List.replicate 65529 0 := by
  have hvarint : encodeVarint (UInt64.ofNat 65529) = [0xf9, 0xff, 0x03] := by decide +kernel
  have hzero : encodeVarint 0 = [0] := by decide +kernel
  rw [OwnedRecord.encode, encodeRecord, bulkRecord, length_replicate, hvarint]
  simp only [sub_self, hzero]
  rfl

theorem bulkRecord_encode_length (seq : UInt64) :
    ((bulkRecord seq).encode ⟨seq, 0⟩).length = 65535 := by
  rw [bulkRecord_encode, length_append, length_replicate]
  rfl

theorem buildBlock_bulk (seq : UInt64) : buildBlock external (segmentWriterConfig .lz4 0)
      ((bulkRecord seq).encode ⟨seq, 0⟩) (some seq) (some 0) 1 = .ok (bulkBody seq) := by
  have hcompress : Codec.compress external .lz4 ((bulkRecord seq).encode ⟨seq, 0⟩)
        = .ok [1, 0, 0, 0xf9, 0xff, 0x03] := by
    show Except.ok (compress ((bulkRecord seq).encode ⟨seq, 0⟩)) = _
    rw [bulkRecord_encode, compress_append]
    decide +kernel
  refine (@buildBlock_eq_ok_iff external _ _ _ ⟨seq, 0⟩ 1).mpr ⟨_, hcompress, ?_, by decide, ?_⟩
  · rw [bulkRecord_encode_length]
    decide
  · rw [bulkRecord_encode_length]
    rfl

def bulkBlock (seq : UInt64) : Block external where
  config := segmentWriterConfig .lz4 0
  base := ⟨seq, 0⟩
  records := [bulkRecord seq]
  below := by
    intro r hr
    rw [mem_singleton.mp hr]
    exact ⟨UInt64.le_refl _, UInt64.le_refl _⟩
  body := bulkBody seq
  built := by
    rw [encodeRecords, flatMap_singleton]
    exact buildBlock_bulk seq

theorem bulkBody_length (seq : UInt64) : (bulkBody seq).length = 58 := by
  simp [bulkBody, assembleBlock]

theorem loneBlock_bulkBody (seq : UInt64) :
    LoneBlock external .default 6 65535 (bulkBody seq) (bulkRecord seq) where
  marked := by
    exact prefix_append _ _
  read := by
    intro data pre post hdata
    have hheaderOf : headerOf (bulkBody seq) = some (bulkHeader seq) := headerOf_assembleBlock rfl
    have hlimits : WithinLimits .default (bulkBody seq) := by
      intro header hheader
      rw [hheaderOf] at hheader
      cases hheader
      have hc : (6 : UInt32).toNat ≤ ReaderConfig.default.maxCompressedLen := by decide
      have hu : (65535 : UInt32).toNat ≤ ReaderConfig.default.maxUncompressedLen := by decide
      exact ⟨hc, hu⟩
    obtain ⟨frame, hframe, hheader, hdecode, hend⟩ :=
      (bulkBlock seq).readFrame_body external_roundTrip rfl hlimits hdata
    have hbulk : bulkHeader seq = frame.header := Option.some.inj (hheaderOf.symm.trans hheader)
    exact ⟨frame, hframe, hbulk ▸ rfl, hbulk ▸ rfl, hdecode, hend⟩

theorem bulkRecord_fits (seq : UInt64) : FileSpool.Fits external bulkSpool [bulkRecord seq] := by
  apply cuttable_of_length rfl (by decide)
  · intro input output hlen hok
    cases hok
    have hfront : compress input <+: input := rdropWhile_prefix _ _
    exact Nat.le_trans hfront.length_le hlen
  · intro r hr
    rw [mem_singleton.mp hr]
    have hlen := bulkRecord_encode_length seq
    rw [show (bulkRecord seq).ownBase = ⟨seq, 0⟩ from rfl, hlen]
    decide

def bulkPending (content : Bytes) (seq : UInt64) : FileSpool :=
  { bulkState content with
    activeWriter := { (bulkState content).activeWriter with
      payloadBuf := (bulkRecord seq).encode ⟨seq, 0⟩
      blockBaseSeq := some seq, blockBaseTsUnixNs := some 0
      recordCount := 1 } }

theorem append_bulk (hlen : content.length < 2 ^ 62) (seq : UInt64) :
    FileSpool.append external (bulkRecord seq) (bulkState content)
      = .ok () (bulkPending content seq) := by
  have hsize : (UInt64.ofNat content.length).toNat = content.length :=
    toNat_ofNat_of_lt' (by simp only [UInt64.size]; omega)
  have htarget : (2 ^ 63 : UInt64).toNat = 2 ^ 63 := by decide +kernel
  have hencode := bulkRecord_encode_length seq
  have hpush : FileSpool.onWriter (push external (bulkRecord seq))
      (bulkState content) = .ok () (bulkPending content seq) := by
    rw [FileSpool.onWriter, push_opening rfl rfl rfl (lt_of_eq_of_lt hencode (by decide))
      (lt_of_eq_of_lt hencode (show 65535 < 65536 by decide))]
    rfl
  have hafter : FileSpool.rotateIfReached external (bulkPending content seq)
      = .ok () (bulkPending content seq) := by
    have hroom : ¬ UInt64.ofNat content.length
        + UInt64.ofNat ((bulkRecord seq).encode ⟨seq, 0⟩).length ≥ 2 ^ 63 := by
      rw [ge_iff_le, UInt64.le_iff_toNat_le, UInt64.toNat_add, hsize,
        hencode, htarget, UInt64.toNat_ofNat_of_lt' (by decide)]
      omega
    rw [FileSpool.rotateIfReached, get_bind]
    exact congrFun (if_neg hroom) _
  have hrefresh : FileSpool.refreshActiveSize (bulkPending content seq)
      = .ok () (bulkPending content seq) := by
    rfl
  rw [FileSpool.append, bind_of_ok (rotateIfFull_bulk hlen), bind_of_ok hpush,
    bind_of_ok hrefresh, hafter]

theorem flushPending_bulk (hlen : content.length < 2 ^ 62) (seq : UInt64) :
    FileSpool.flushPending external (bulkPending content seq)
      = .ok () (bulkState (content ++ bulkBody seq)) := by
  have hbody := bulkBody_length seq
  have hne : (bulkRecord seq).encode ⟨seq, 0⟩ ≠ [] := by
    exact cons_ne_nil _ _
  have hblock : FileSpool.onWriter (flushBlock external) (bulkPending content seq)
        = .ok () (bulkStored content (bulkBody seq)) := by
    have hflush := @flushBlock_unpadded _ _ external
      (bulkPending content seq).activeWriter _ _ hne (buildBlock_bulk seq)
      rfl (writeAll_bulk content (by rw [hbody]; decide))
    rw [FileSpool.onWriter, hflush]
    rfl
  rw [FileSpool.flushPending, bind_of_ok hblock]
  exact flushStored_bulk (by rw [hbody, File.maxLen]; omega)

def bulkSeqs (n : Nat) : List UInt64 := (List.range n).map fun i => UInt64.ofNat (i + 1)

theorem run_bulk (n : Nat) (hn : n ≤ 2 ^ 49) :
    Run (FileStep external bulkSpool fun _ _ => True) ⟨bulkState [], []⟩
      (((bulkSeqs n).map bulkRecord).map .append)
      ⟨bulkState ((bulkSeqs n).flatMap bulkBody), []⟩ := by
  induction n with
  | zero => exact .nil
  | succ n ih =>
    have hlen : ((bulkSeqs n).flatMap bulkBody).length = n * 58 := by
      rw [length_flatMap]
      simp only [bulkBody_length, map_const', bulkSeqs, length_map, length_range, sum_replicate_nat]
    have hroom : ((bulkSeqs n).flatMap bulkBody).length < 2 ^ 62 := by omega
    rw [bulkSeqs, range_succ, map_append, map_append, map_append, flatMap_append]
    refine .snoc (ih (by omega)) ?_
    exact .append (append_bulk hroom _) (flushPending_bulk hroom _)

theorem bulkSeqs_toNat (hn : n < 2 ^ 64) {seq : UInt64}
    (h : seq ∈ bulkSeqs n) : 1 ≤ seq.toNat ∧ seq.toNat ≤ n := by
  obtain ⟨i, hi, rfl⟩ := mem_map.mp h
  rw [mem_range] at hi
  rw [toNat_ofNat_of_lt' (by simp only [UInt64.size]; omega)]
  omega

theorem bulkSeqs_pairwise (hn : n < 2 ^ 64) : (bulkSeqs n).Pairwise (· < ·) := by
  rw [bulkSeqs, pairwise_map]
  refine List.Pairwise.imp_of_mem ?_ pairwise_lt_range
  intro i j hi hj hij
  rw [mem_range] at hi hj
  rw [lt_iff_toNat_lt, toNat_ofNat_of_lt' (by simp only [UInt64.size]; omega),
    toNat_ofNat_of_lt' (by simp only [UInt64.size]; omega)]
  omega

theorem bulkSeqs_succ (n : Nat) : bulkSeqs (n + 1) = bulkSeqs n ++ [UInt64.ofNat (n + 1)] := by
  rw [bulkSeqs, range_succ, map_append]
  rfl

theorem bulkBody_flatMap_length (seqs : List UInt64) :
    (seqs.flatMap bulkBody).length = seqs.length * 58 := by
  rw [length_flatMap]
  simp only [bulkBody_length, map_const', sum_replicate_nat]

theorem yields_bulk (n : Nat) (hn : n = 2 ^ 48 + 2 ^ 32 + 2 ^ 16 + 1) :
    ∃ r', Yields external (LogjetReader.withConfig ((bulkSeqs (n + 1)).flatMap bulkBody) .default)
      ((bulkSeqs n).map bulkRecord) r' := by
  have htail : defaultSyncMarker.get 0 ∉ (bulkBody (UInt64.ofNat (n + 1))).tail := by
    rw [hn]
    decide +kernel
  have hcons : bulkBody (UInt64.ofNat (n + 1)) = defaultSyncMarker.get 0
      :: (bulkBody (UInt64.ofNat (n + 1))).tail := by
    rw [hn]
    decide +kernel
  have hlen : (bulkSeqs n).length = n := by rw [bulkSeqs, length_map, length_range]
  have hsplit : (bulkSeqs (n + 1)).flatMap bulkBody = [] ++ ((((bulkSeqs n).map fun seq =>
          (bulkBody seq, bulkRecord seq)).map Prod.fst).flatten
        ++ bulkBody (UInt64.ofNat (n + 1))) := by
    rw [bulkSeqs_succ, flatMap_append, flatMap_singleton, map_map, nil_append]
    rfl
  have hbytes : ((bulkSeqs (n + 1)).flatMap bulkBody).length = (n + 1) * 58 := by
    rw [bulkBody_flatMap_length, bulkSeqs_succ, length_append, hlen, length_singleton]
  have hy := @yields_until_overflow external .default
    defaultSyncMarker_syncable _ _ _ _ _ _ (loneBlock_bulkBody _)
    hcons htail ((bulkSeqs n).map fun seq => (bulkBody seq, bulkRecord seq)) (by
      intro p hp
      obtain ⟨seq, -, rfl⟩ := mem_map.mp hp
      exact loneBlock_bulkBody seq)
    (LogjetReader.withConfig ((bulkSeqs (n + 1)).flatMap bulkBody) .default)
    [] rfl rfl rfl hsplit
  rw [map_map] at hy
  apply hy
  all_goals
    simp only [LogjetReader.withConfig, ReaderStats.default,
      UInt64.toNat_zero, length_map, hlen, hbytes]
    omega

theorem nextForCursor_bulk (n : Nat) (hn : n = 2 ^ 48 + 2 ^ 32 + 2 ^ 16 + 1) :
    ∃ c', FileSpool.nextForCursor external (bulkState ((bulkSeqs (n + 1)).flatMap bulkBody))
      (FileSpool.replayCursorAfter (UInt64.ofNat n)) = .ok none c' := by
  obtain ⟨r', hy⟩ := yields_bulk n hn
  have hfind : ((bulkSeqs n).map bulkRecord).find? (fun r => UInt64.ofNat n < r.seq) = none := by
    rw [find?_eq_none]
    intro r hr
    obtain ⟨seq, hseq, rfl⟩ := mem_map.mp hr
    have hle := (bulkSeqs_toNat (by omega) hseq).2
    rw [decide_eq_true_eq, lt_iff_toNat_lt, toNat_ofNat_of_lt' (by simp only [UInt64.size]; omega)]
    exact Nat.not_lt.mpr hle
  generalize (bulkSeqs (n + 1)).flatMap bulkBody = content at hy
  generalize UInt64.ofNat n = floor at hfind
  have hfirst : segmentFirstAbove external (bulkDir content)
      "logs.logjet".toList floor = .ok none := by
    have hread : (bulkDir content).read "logs.logjet".toList = .ok content := rfl
    rw [segmentFirstAbove, forSegment, hread, Except.ok_bind]
    simp only
    rw [forRecords_of_yields hy, foldSteps_find, hfind]
    rfl
  have hfloor : max floor 0 = floor := max_eq_left_seq UInt64.zero_le
  have hhint : ¬ (0 : UInt64) < 0 := by decide
  rw [FileSpool.nextForCursor, get_bind]
  show ∃ c', FileSpool.nextInSegments external (bulkDir content)
    (max floor 0) (listSegments (bulkDir content) "logs".toList) ⟨0, floor⟩ = .ok none c'
  rw [listSegments_bulkDir, hfloor, FileSpool.nextInSegments,
    get_bind, if_neg hhint, hfirst, ofExcept_ok_bind]
  exact ⟨_, rfl⟩

theorem ListLog.run_append {records : List WireRecord}
    (h : Run ListLog.Step log (records.map SpoolEvent.append) log') :
    log' = { log with records := log.records ++ records } := by
  generalize hevents : records.map SpoolEvent.append = events at h
  induction h generalizing records with
  | nil => rw [map_eq_nil_iff.mp hevents, append_nil]
  | snoc _ hstep ih =>
    rw [map_eq_append_iff] at hevents
    obtain ⟨before, last, rfl, hbefore, hlast⟩ := hevents
    obtain ⟨r, rfl, rfl⟩ := map_eq_singleton_iff.mp hlast
    cases hstep
    rw [ih hbefore, append_assoc]

theorem file_spool_hides_record_on_overflow : external.RoundTrip ∧ bulkSpool.maxTotalBytes = 0
      ∧ listSegments .empty (deriveBaseStem bulkSpool.name) = []
      ∧ ∃ sp events st, FileSpool.openIn external bulkSpool 7 .empty = .ok sp
        ∧ Run (FileStep external bulkSpool fun _ _ => True) ⟨sp, []⟩ events st
        ∧ ((appendedBy events).Pairwise fun a b => a.seq < b.seq)
        ∧ (∀ r ∈ appendedBy events, FileSpool.Fits external bulkSpool [r])
        ∧ ¬ ∃ log, Run ListLog.Step ⟨[], sp.consumedThroughSeq, []⟩ events log := by
  obtain ⟨n, hn⟩ : ∃ n, n = 2 ^ 48 + 2 ^ 32 + 2 ^ 16 + 1 := ⟨_, rfl⟩
  obtain ⟨c', hnext⟩ := nextForCursor_bulk n hn
  have happends := run_bulk (n + 1) (by omega)
  have hcursor : Run (FileStep external bulkSpool fun _ _ => True) ⟨bulkState [], []⟩
      (((bulkSeqs (n + 1)).map bulkRecord).map .append ++ [.newCursor (UInt64.ofNat n)]) _ :=
    .snoc happends (.newCursor _)
  have happended : appendedBy ((((bulkSeqs (n + 1)).map bulkRecord).map
      .append ++ [.newCursor (UInt64.ofNat n)]) ++ [.next 0 none])
        = (bulkSeqs (n + 1)).map bulkRecord := by
    rw [appendedBy, filterMap_append, filterMap_append, filterMap_map]
    simp only [filterMap_cons, filterMap_nil, append_nil]
    exact filterMap_some
  refine ⟨external_roundTrip, rfl, by decide +kernel, bulkState [], _, _,
    openIn_bulk, .snoc hcursor (@FileStep.next _ _ _ _ _ 0 _ c' none rfl trivial hnext), ?_, ?_, ?_⟩
  · rw [happended, pairwise_map]
    exact bulkSeqs_pairwise (by omega)
  · intro r hr
    rw [happended] at hr
    obtain ⟨seq, -, rfl⟩ := mem_map.mp hr
    exact bulkRecord_fits seq
  · intro ⟨log, hlog⟩
    obtain ⟨log₂, hlog₂, hnone⟩ := hlog.of_snoc
    obtain ⟨log₁, hlog₁, hnew⟩ := hlog₂.of_snoc
    cases hnew
    rw [ListLog.run_append hlog₁] at hnone
    generalize hfound : (none : Option WireRecord) = found at hnone
    cases hnone with
    | next hc =>
      cases hc
      have hmem : bulkRecord (UInt64.ofNat (n + 1))
          ∈ ListLog.visible ⟨(bulkSeqs (n + 1)).map bulkRecord, 0,
            [UInt64.ofNat n]⟩ (UInt64.ofNat n) := by
        apply mem_filter.mpr
        refine ⟨mem_map_of_mem ?_, ?_⟩
        · rw [bulkSeqs_succ]
          exact mem_append_right _ (mem_singleton_self _)
        · rw [hn]
          decide +kernel
      have hnil := head?_eq_none_iff.mp hfound.symm
      exact absurd (hnil ▸ hmem) not_mem_nil

end Logjet
