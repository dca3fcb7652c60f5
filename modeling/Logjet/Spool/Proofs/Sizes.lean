/-
What is stored can be read, unless in a block of more than 16 MiB
(`Storable`).
-/
import Logjet.Spool.Proofs.Run

namespace Logjet

open List Ascent LogjetWriter Reference EStateM

variable {x : External}

def Storable (x : External) (codec : Codec) (r : WireRecord) : Prop :=
  (r.encode r.ownBase).length ≤ defaultMaxBlockSize
    ∧ ∀ output, codec.compress x (r.encode r.ownBase) = .ok output →
      output.length ≤ defaultMaxBlockSize

def Codec.Tame (x : External) (codec : Codec) : Prop :=
  ∀ input output, input.length ≤ defaultBlockTargetSize → codec.compress x input = .ok output →
      output.length ≤ defaultMaxBlockSize

namespace FileSpool

variable {config : FileConfig} {start sp sp' : FileSpool} {appended : List WireRecord}

theorem fits_of_storable (htame : config.codec.Tame x)
    (h : ∀ r ∈ appended, Storable x config.codec r) : Fits x config appended :=
  cuttable_of_each rfl
    (show defaultBlockTargetSize ≤ defaultMaxBlockSize by decide) htame h

theorem Filled.tracks (hmax : config.maxTotalBytes = 0)
    {v₀ : SegmentLog x} (hstart : Tracks config [] start v₀)
    (hempty : v₀.stored = []) (hfilled : Filled x start appended sp)
    (hfits : Fits x config appended) :
    ∃ v : SegmentLog x, Tracks config appended sp v ∧ v.stored = appended
      ∧ sp.consumedThroughSeq = start.consumedThroughSeq := by
  obtain ⟨v, hgrew⟩ := hfilled.grew hstart.shows (by
    apply cuttable_of_fits hstart.settings
    rw [suffix_nil.mp hstart.pending]
    exact hfits)
  obtain ⟨dropped, hstored, hnone⟩ := hgrew.stored
  have hzero := (congrArg Settings.maxTotalBytes hstart.settings).trans hmax
  rw [hnone hzero, nil_append, hempty, nil_append] at hstored
  exact ⟨v, hstart.grew hgrew, hstored, hgrew.consumed⟩

/-- Every stored record can be read back. -/
theorem stored_is_read (x : External) (hx : x.RoundTrip)
    {config : FileConfig} (hmax : config.maxTotalBytes = 0)
    (htame : config.codec.Tame x) {fresh : UInt64} {d : Directory} {start sp sp' : FileSpool}
    (hnone : listSegments d (deriveBaseStem config.name) = [])
    (hopen : openIn x config fresh d = .ok start) (hconsumed : start.consumedThroughSeq = 0)
    {appended : List WireRecord} (hfilled : Filled x start appended sp)
    (hflush : flushPending x sp = .ok () sp') (hlegible : Legible x sp'.dir sp'.baseStem)
    (hpositive : ∀ r ∈ appended, 0 < r.seq) (hseqs : appended.Pairwise fun a b => a.seq < b.seq)
    (hstorable : ∀ r ∈ appended, Storable x config.codec r) :
    ∃ c, Replays x sp' (replayCursorAfter 0) appended c := by
  have hfits := fits_of_storable htame hstorable
  obtain ⟨v, htracks, hstored, hconsumed'⟩ :=
    hfilled.tracks hmax (tracks_start hx hnone hopen) rfl hfits
  obtain ⟨c, hreplays⟩ := htracks.replays_flushed hx hfits hflush hlegible 0
  have hfloor : max 0 sp.consumedThroughSeq = 0 := by
    rw [hconsumed', hconsumed]
    decide
  rw [hfloor, hstored, ascent_eq_self_iff.mpr ⟨hpositive, hseqs⟩] at hreplays
  exact ⟨c, hreplays⟩

theorem stored_is_read_small : ∃ start sp sp', openIn external smallSpool 7 .empty = .ok start
      ∧ Filled external start [smallRecord 1, smallRecord 2] sp
      ∧ flushPending external sp = .ok () sp' ∧ ∃ c, Replays external sp' (replayCursorAfter 0)
        [smallRecord 1, smallRecord 2] c := by
  have hcalls : (openIn external smallSpool 7 .empty).okAnd (fun start =>
      (append external (smallRecord 1)).okAnd start fun _ sp₁ =>
      (append external (smallRecord 2)).okAnd sp₁ fun _ sp =>
      (flushPending external).okAnd sp fun _ sp' =>
      decide (start.consumedThroughSeq = 0 ∧ Legible external sp'.dir sp'.baseStem)) = true := by
    decide +kernel
  obtain ⟨start, hopen, h⟩ := Except.okAnd_eq_true.mp hcalls
  obtain ⟨_, sp₁, hfirst, h⟩ := okAnd_eq_true.mp h
  obtain ⟨_, sp, hsecond, h⟩ := okAnd_eq_true.mp h
  obtain ⟨_, sp', hflush, h⟩ := okAnd_eq_true.mp h
  obtain ⟨hconsumed, hlegible⟩ := of_decide_eq_true h
  have hfilled : Filled external start [smallRecord 1, smallRecord 2] sp :=
    .append (.append .nil hfirst) hsecond
  have htame : smallSpool.codec.Tame external := by
    intro input output hlen hok
    cases hok
    exact Nat.le_trans hlen (by decide)
  refine ⟨start, sp, sp', hopen, hfilled, hflush, ?_⟩
  apply stored_is_read external external_roundTrip rfl htame
    (by decide +kernel) hopen hconsumed hfilled hflush hlegible (by decide) (by decide)
  intro r hr
  have hsmall : r = smallRecord 1 ∨ r = smallRecord 2 := by simpa using hr
  have hlength : (r.encode r.ownBase).length ≤ defaultMaxBlockSize := by
    rcases hsmall with rfl | rfl
    · decide +kernel
    · decide +kernel
  refine ⟨hlength, ?_⟩
  intro output hok
  cases hok
  exact hlength

def hugeRecord : WireRecord := ⟨.logs, 1, 0, List.replicate (2 ^ 24) 0⟩

def hugeBody : Bytes :=
  assembleBlock external defaultSyncMarker
    (sealHeader external .lz4 (UInt32.ofNat (2 ^ 24 + 7)) 7 1 (BlockHeaderExt.encode ⟨1, 0⟩))
    (BlockHeaderExt.encode ⟨1, 0⟩) [1, 0, 0, 0x80, 0x80, 0x80, 0x08]

theorem hugeRecord_encode : hugeRecord.encode ⟨1, 0⟩
    = [1, 0, 0, 0x80, 0x80, 0x80, 0x08] ++ List.replicate (2 ^ 24) 0 := by
  have hvarint : encodeVarint (UInt64.ofNat (2 ^ 24)) = [0x80, 0x80, 0x80, 0x08] := by
    decide +kernel
  have hzero : encodeVarint 0 = [0] := by decide +kernel
  rw [OwnedRecord.encode, encodeRecord, hugeRecord, length_replicate, hvarint]
  simp only [UInt64.sub_self, hzero]
  rfl

theorem hugeRecord_encode_length : (hugeRecord.encode ⟨1, 0⟩).length = 2 ^ 24 + 7 := by
  rw [hugeRecord_encode, length_append, length_replicate, Nat.add_comm]
  rfl

theorem buildBlock_huge : buildBlock external (segmentWriterConfig .lz4 0)
      (hugeRecord.encode ⟨1, 0⟩) (some 1) (some 0) 1 = .ok hugeBody := by
  have hcompress : Codec.compress external .lz4 (hugeRecord.encode ⟨1, 0⟩)
      = .ok [1, 0, 0, 0x80, 0x80, 0x80, 0x08] := by
    show Except.ok (compress (hugeRecord.encode ⟨1, 0⟩)) = _
    rw [hugeRecord_encode, compress_append]
    decide +kernel
  refine (@buildBlock_eq_ok_iff external _ _ _ ⟨1, 0⟩ 1).mpr ⟨_, hcompress, ?_, by decide, ?_⟩
  · rw [hugeRecord_encode_length]
    decide
  · rw [hugeRecord_encode_length]
    rfl

theorem append_huge : append external hugeRecord (bulkState [])
      = .ok () (bulkStored [] hugeBody) := by
  have hencode := hugeRecord_encode_length
  have hlength : hugeBody.length < BufWriter.capacity := by decide +kernel
  have hne : hugeRecord.encode ⟨1, 0⟩ ≠ [] := by
    exact cons_ne_nil _ _
  have hpush : onWriter (push external hugeRecord) (bulkState [])
      = .ok () (bulkStored [] hugeBody) := by
    have hfull : push external hugeRecord (bulkState []).activeWriter
        = .ok () (bulkStored [] hugeBody).activeWriter := by
      rw [push_opening_eq rfl rfl rfl (lt_of_eq_of_lt hencode (by decide)), flushIfFull, get_bind]
      have htarget : (hugeRecord.encode ⟨1, 0⟩).length
          ≥ (segmentWriterConfig .lz4 0).blockTargetSize := by
        rw [hencode]
        decide
      refine (congrFun (if_pos htarget) _).trans ?_
      exact flushBlock_unpadded hne buildBlock_huge rfl (writeAll_bulk [] hlength)
    rw [onWriter, hfull]
    rfl
  rw [append, bind_of_ok (rotateIfFull_bulk (by decide)), bind_of_ok hpush]
  have hrefresh : refreshActiveSize (bulkStored [] hugeBody)
      = .ok () (bulkStored [] hugeBody) := rfl
  have hroom : ¬ (bulkStored [] hugeBody).activeSizeBytes
      + UInt64.ofNat (bulkStored [] hugeBody).activeWriter.pendingBytes
        ≥ (bulkStored [] hugeBody).segmentTargetBytes := by decide +kernel
  rw [bind_of_ok hrefresh, rotateIfReached, get_bind]
  exact congrFun (if_neg hroom) _

theorem flushPending_huge : flushPending external (bulkStored [] hugeBody)
      = .ok () (bulkState hugeBody) := by
  have hblock : onWriter (flushBlock external) (bulkStored [] hugeBody)
      = .ok () (bulkStored [] hugeBody) := rfl
  rw [flushPending, bind_of_ok hblock]
  exact flushStored_bulk (by decide +kernel)

theorem stored_is_hidden_above_limit :
    ∃ start sp sp', openIn external bulkSpool 7 .empty = .ok start
      ∧ bulkSpool.maxTotalBytes = 0 ∧ start.consumedThroughSeq = 0
      ∧ Filled external start [hugeRecord] sp ∧ flushPending external sp = .ok () sp'
      ∧ Legible external sp'.dir sp'.baseStem
      ∧ ¬ ∃ records c, Replays external sp' (replayCursorAfter 0) records c
        ∧ hugeRecord ∈ records := by
  have hread : (nextForCursor external (bulkState hugeBody)).okAnd
      (replayCursorAfter 0) (fun found _ => found.isNone) = true := by decide +kernel
  obtain ⟨found, c, hnext, hfound⟩ := okAnd_eq_true.mp hread
  rw [Option.isNone_iff_eq_none] at hfound
  subst hfound
  refine ⟨_, _, _, openIn_bulk, rfl, rfl, .append .nil append_huge,
    flushPending_huge, by decide +kernel, ?_⟩
  intro ⟨records, c', hreplays, hmem⟩
  rw [hreplays.eq (.done hnext)] at hmem
  cases hmem

end FileSpool

end Logjet
