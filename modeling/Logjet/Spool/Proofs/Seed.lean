/-
The number a re-opened file spool goes on from: safe exactly when a record
with the greatest number is the last unconsumed in the files.
-/
import Logjet.Spool
import Logjet.Spool.Proofs.Run

namespace Logjet

open List Ascent Reference EStateM UInt64

variable {x : External}

theorem Spool.nextSequenceSeed_eq {self : Spool} {bounds : Option (UInt64 × UInt64)}
    (hbounds : self.sequenceBounds x = .ok bounds) : self.nextSequenceSeed x
      = if ((bounds.map Prod.snd).getD 0).toNat + 1 < 2 ^ 64 then
          .ok ((bounds.map Prod.snd).getD 0 + 1)
        else .error ⟨.invalidData, "sequence seed overflow"⟩ := by
  rw [Spool.nextSequenceSeed, hbounds, Except.ok_bind]
  cases bounds with
  | none => rfl
  | some bounds => rfl

theorem Spool.nextSequenceSeed_eq_ok {self : Spool} {seed : UInt64}
    {bounds : Option (UInt64 × UInt64)} (hbounds : self.sequenceBounds x = .ok bounds)
    (h : self.nextSequenceSeed x = .ok seed) :
    seed.toNat = ((bounds.map Prod.snd).getD 0).toNat + 1 := by
  rw [Spool.nextSequenceSeed_eq hbounds] at h
  by_cases hlt : ((bounds.map Prod.snd).getD 0).toNat + 1 < 2 ^ 64
  · rw [if_pos hlt] at h
    cases h
    exact Nat.mod_eq_of_lt hlt
  · rw [if_neg hlt] at h
    cases h

theorem bounds_map_snd (above : List OwnedRecord) : (above.head?.bind fun first =>
        above.getLast?.map fun last => (first.seq, last.seq)).map Prod.snd
      = above.getLast?.map OwnedRecord.seq := by
  cases above with
  | nil => rfl
  | cons r records =>
    rfl

namespace FileSpool

def lastUnconsumedSeq (x : External) (sp : FileSpool) : UInt64 :=
  (((sp.readable x).filter (sp.consumedThroughSeq < ·.seq)).getLast?.map OwnedRecord.seq).getD 0

/-- The last unconsumed record in the files has the greatest number. -/
def SeedSafe (x : External) (appended : List WireRecord) (sp : FileSpool) : Prop :=
  sp.consumedThroughSeq ≤ sp.lastUnconsumedSeq x ∧ ∀ r ∈ appended, r.seq ≤ sp.lastUnconsumedSeq x

variable {sp sp' : FileSpool} {v : SegmentLog x} {config : FileConfig} {appended : List WireRecord}

theorem Shows.lt_seed_iff (hx : x.RoundTrip) (h : sp.Shows v)
    (hlegible : Legible x sp.dir sp.baseStem) {seed : UInt64}
    (hseed : Spool.nextSequenceSeed x (.file sp) = .ok seed)
    (seq : UInt64) : seq < seed ↔ seq ≤ sp.lastUnconsumedSeq x := by
  have hbounds := sequenceBounds_eq h.holds hlegible (by
    rw [h.read hx, SegmentLog.files_records, ← h.readable_eq hx])
  have hnat := @Spool.nextSequenceSeed_eq_ok _ (.file sp) _ _ hbounds hseed
  rw [bounds_map_snd, ← lastUnconsumedSeq] at hnat
  rw [lt_iff_toNat_lt, le_iff_toNat_le]
  omega

theorem Tracks.returns_new (hx : x.RoundTrip) (h : Tracks config appended sp v) {r : WireRecord}
    (hfits : Fits x config (appended ++ [r])) (hconsumed : sp.consumedThroughSeq < r.seq)
    (habove : ∀ r' ∈ appended, r'.seq < r.seq) {sp₁ sp₂ : FileSpool}
    (happend : FileSpool.append x r sp = .ok () sp₁)
    (hflush : FileSpool.flushPending x sp₁ = .ok () sp₂) (hlegible : Legible x sp₂.dir sp₂.baseStem)
    (hkept : config.maxTotalBytes = 0 ∨ r ∈ sp₂.readable x) :
    ∃ records c, Replays x sp₂ (replayCursorAfter 0) records c ∧ r ∈ records := by
  obtain ⟨v₁, hgrew⟩ := h.append hfits happend
  have hv₁ := h.grew hgrew
  obtain ⟨c, hreplays⟩ := hv₁.replays_flushed hx hfits hflush hlegible 0
  refine ⟨_, c, hreplays, ?_⟩
  obtain ⟨dropped, hstored, hnone⟩ := hgrew.stored
  have hmem : r ∈ v₁.stored := by
    rcases hkept with hzero | hr
    · have hmax : sp.maxTotalBytes = 0 := (congrArg Settings.maxTotalBytes h.settings).trans hzero
      rw [hnone hmax, nil_append] at hstored
      rw [hstored]
      exact mem_append_right _ (mem_singleton_self _)
    · exact hv₁.mem_stored hx hfits ⟨sp₂, hflush, hr⟩
  rcases suffix_concat_iff.mp ⟨dropped, hstored⟩ with
    hnil | ⟨before, hsplit, hbefore⟩
  · rw [hnil] at hmem
    cases hmem
  · rw [hsplit, hgrew.consumed]
    apply mem_ascent_append
    · exact max_lt_iff_seq.mpr ⟨UInt64.lt_of_le_of_lt (UInt64.zero_le) hconsumed, hconsumed⟩
    · intro r' hr'
      exact habove r' (h.stored.subset (hbefore.subset hr'))

/-- Numbering after a restart starts above every record iff `SeedSafe`. -/
theorem seed_safe_iff (x : External) (hx : x.RoundTrip)
    {config : FileConfig} {appended : List WireRecord}
    {sp sp' : FileSpool} {seed : UInt64} (hrun : Run x config appended sp)
    (hfits : Fits x config appended) (hlegible : Legible x (sp.drop x) sp.baseStem)
    (hreopen : Reopens x config sp sp') (hlegible' : Legible x sp'.dir sp'.baseStem)
    (hseed : Spool.nextSequenceSeed x (.file sp') = .ok seed) : (sp'.consumedThroughSeq < seed
        ∧ (∀ r ∈ appended, r.seq < seed)
        ∧ ∀ r sp₁ sp₂, seed ≤ r.seq → Fits x config (appended ++ [r]) →
          append x r sp' = .ok () sp₁ → flushPending x sp₁ = .ok () sp₂ →
          Legible x sp₂.dir sp₂.baseStem → (config.maxTotalBytes = 0 ∨ r ∈ sp₂.readable x) →
          ∃ records c, Replays x sp₂ (replayCursorAfter 0) records c ∧ r ∈ records)
      ↔ SeedSafe x appended sp' := by
  obtain ⟨v, hv⟩ := (Run.reopen hrun hlegible hreopen).tracks hx hfits
  have hlt := hv.shows.lt_seed_iff hx hlegible' hseed
  constructor
  · intro ⟨hconsumed, hall, _⟩
    exact ⟨(hlt _).mp hconsumed, fun r hr => (hlt _).mp (hall r hr)⟩
  · intro ⟨hconsumed, hall⟩
    have hconsumed := (hlt _).mpr hconsumed
    have hall := fun r hr => (hlt _).mpr (hall r hr)
    refine ⟨hconsumed, hall, ?_⟩
    intro r sp₁ sp₂ hr hfits' happend hflush hlegible₂ hkept
    exact hv.returns_new hx hfits' (UInt64.lt_of_lt_of_le hconsumed hr)
      (fun r' hr' => UInt64.lt_of_lt_of_le (hall r' hr') hr) happend hflush hlegible₂ hkept

theorem seed_safe_unconsumed : ∃ sp sp', Run external smallSpool [smallRecord 1, smallRecord 2] sp
      ∧ Reopens external smallSpool sp sp' ∧ sp'.consumedThroughSeq = 1
      ∧ Spool.nextSequenceSeed external (.file sp') = .ok 3 ∧ ∀ r sp₁ sp₂, 3 ≤ r.seq →
        Fits external smallSpool ([smallRecord 1, smallRecord 2] ++ [r]) →
        append external r sp' = .ok () sp₁ → flushPending external sp₁ = .ok () sp₂ →
        Legible external sp₂.dir sp₂.baseStem →
        ∃ records c, Replays external sp₂ (replayCursorAfter 0) records c ∧ r ∈ records := by
  have hcalls : smallRun [some (smallRecord 1), some (smallRecord 2), none] (fun spc =>
      (consumeThrough external 1).okAnd spc fun _ sp =>
      (flushPending external).okAnd sp fun _ _ =>
      (openIn external smallSpool 8 (sp.drop external)).okAnd fun sp' =>
      decide (Legible external spc.dir spc.baseStem
        ∧ Legible external (sp.drop external) sp.baseStem ∧ Legible external sp'.dir sp'.baseStem
        ∧ Spool.nextSequenceSeed external (.file sp') = .ok 3 ∧ sp'.consumedThroughSeq = 1
        ∧ sp'.lastUnconsumedSeq external = 2)) = true := by
    decide +kernel
  obtain ⟨spc, hfilled, h⟩ := run_of_smallRun hcalls
  obtain ⟨_, sp, hconsume, h⟩ := okAnd_eq_true.mp h
  obtain ⟨_, flushed, hflushed, h⟩ := okAnd_eq_true.mp h
  obtain ⟨sp', hreopen, h⟩ := Except.okAnd_eq_true.mp h
  obtain ⟨hlegible, hdropped, hlegible', hseed, hconsumed, hlast⟩ := of_decide_eq_true h
  have hrun : Run external smallSpool [smallRecord 1, smallRecord 2] sp :=
    .consumeThrough hfilled hlegible hconsume
  have hreopens : Reopens external smallSpool sp sp' := ⟨8, flushed, hflushed, hreopen⟩
  refine ⟨sp, sp', hrun, hreopens, hconsumed, hseed, ?_⟩
  have hsafe := (seed_safe_iff external external_roundTrip hrun
    (smallRecords_fit [1, 2]) hdropped hreopens hlegible' hseed).mpr (by
      rw [SeedSafe, hlast, hconsumed]
      decide)
  intro r sp₁ sp₂ hr hfits happend hflush hlegible₂
  exact hsafe.2.2 r sp₁ sp₂ hr hfits happend hflush hlegible₂ (Or.inl rfl)

theorem seed_reused_after_consume : ∃ spa sp sp' sp₁ sp₂ cursor,
      Run external smallSpool [smallRecord 1] spa ∧ nextForCursor external spa (replayCursorAfter 0)
        = .ok (some (smallRecord 1)) cursor ∧ consumeThrough external 1 spa = .ok () sp
      ∧ Run external smallSpool [smallRecord 1] sp
      ∧ Reopens external smallSpool sp sp' ∧ sp'.streamId = spa.streamId
      ∧ Spool.nextSequenceSeed external (.file sp') = .ok 1
      ∧ ¬ sp'.consumedThroughSeq < 1 ∧ ¬ (smallRecord 1).seq < 1
      ∧ append external (smallRecord 1) sp' = .ok () sp₁ ∧ flushPending external sp₁ = .ok () sp₂
      ∧ ¬ ∃ records c, Replays external sp₂ (replayCursorAfter 0) records c
        ∧ smallRecord 1 ∈ records := by
  have hcalls : smallRun [some (smallRecord 1), none] (fun spa =>
      (nextForCursor external spa).okAnd (replayCursorAfter 0) fun found _ =>
      (consumeThrough external 1).okAnd spa fun _ sp =>
      (flushPending external).okAnd sp fun _ _ =>
      (openIn external smallSpool 8 (sp.drop external)).okAnd fun sp' =>
      (append external (smallRecord 1)).okAnd sp' fun _ sp₁ =>
      (flushPending external).okAnd sp₁ fun _ sp₂ =>
      (nextForCursor external sp₂).okAnd (replayCursorAfter 0) fun lost _ =>
      decide (found = some (smallRecord 1) ∧ Legible external spa.dir spa.baseStem
        ∧ sp'.streamId = spa.streamId ∧ Spool.nextSequenceSeed external (.file sp') = .ok 1
        ∧ ¬ sp'.consumedThroughSeq < 1 ∧ lost = none)) = true := by
    decide +kernel
  obtain ⟨spa, hrun, h⟩ := run_of_smallRun hcalls
  obtain ⟨found, cursor, hnext, h⟩ := okAnd_eq_true.mp h
  obtain ⟨_, sp, hconsume, h⟩ := okAnd_eq_true.mp h
  obtain ⟨_, flushed, hflushed, h⟩ := okAnd_eq_true.mp h
  obtain ⟨sp', hreopen, h⟩ := Except.okAnd_eq_true.mp h
  obtain ⟨_, sp₁, happend, h⟩ := okAnd_eq_true.mp h
  obtain ⟨_, sp₂, hflush₂, h⟩ := okAnd_eq_true.mp h
  obtain ⟨lost, c, hlost, h⟩ := okAnd_eq_true.mp h
  obtain ⟨rfl, hlegible, hstream, hseed, hbelow, rfl⟩ := of_decide_eq_true h
  refine ⟨spa, sp, sp', sp₁, sp₂, cursor, hrun, hnext, hconsume,
    .consumeThrough hrun hlegible hconsume, ⟨8, flushed, hflushed, hreopen⟩,
    hstream, hseed, hbelow, by decide, happend, hflush₂, ?_⟩
  intro ⟨records, c', hreplays, hmem⟩
  rw [hreplays.eq (.done hlost)] at hmem
  cases hmem

end FileSpool

end Logjet
