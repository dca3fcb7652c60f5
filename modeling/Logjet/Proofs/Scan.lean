/-
The reader is the greedy scan: an attempt succeeds exactly where a valid block
stands (`tryReadBlockAt_spec`). `Room`: no counter overflows from here on; what
a step adds to it, it takes from what lies ahead.
-/
import Logjet.Proofs.Block

namespace Logjet

open List hiding Vector
open EStateM

variable {x : External}

structure Syncable (marker : Vector UInt8 8) : Prop where
  unique : ∀ i : Fin 8, i ≠ 0 → marker.get i ≠ marker.get 0
  nonzero : marker.get 0 ≠ 0

theorem defaultSyncMarker_syncable : Syncable defaultSyncMarker := ⟨by decide, by decide⟩

/-- Where its first byte occurs again, the marker begins again. -/
structure Repeats (marker : Vector UInt8 8) : Prop where
  goesOn : ∀ p : Fin 8, marker.get p = marker.get 0 → marker.toList.drop p.val <+: marker.toList

variable {marker : Vector UInt8 8} {i p pos : Nat} {matched : Fin 8} {rest data : Bytes}
  {config : ReaderConfig} {stats : ReaderStats} {r : LogjetReader}

theorem Syncable.repeats (hm : Syncable marker) : Repeats marker := by
  refine ⟨fun p hp => ?_⟩
  by_cases hzero : p = 0
  · subst hzero
    exact prefix_refl _
  · exact absurd hp (hm.unique p hzero)

theorem getElem?_of_occurrence {text : Bytes} (h : marker.toList <+: text.drop i) (k : Fin 8) :
    text[i + k.val]? = some (marker.get k) := by
  have hk := prefix_iff_getElem?.mp h k.val (by simp)
  rw [getElem?_drop] at hk
  rw [hk, Vector.getElem_toList]
  rfl

theorem not_occurrence_of_mismatch
    (hm : Repeats marker) {candidate : UInt8} (hc : candidate ≠ marker.get matched)
    (hi : i < matched.val ∨ i = matched.val ∧ candidate ≠ marker.get 0) : ¬ marker.toList
      <+: (marker.toList.take matched.val ++ candidate :: rest).drop i := by
  intro hocc
  have hlen : (marker.toList.take matched.val).length = matched.val := by simp
  have hbad : (marker.toList.take matched.val ++ candidate :: rest)[
      matched.val]? = some candidate := by
    simp
  have hhead := getElem?_of_occurrence hocc 0
  rcases hi with hlt | ⟨rfl, hzero⟩
  · have hin : (marker.toList.take matched.val ++ candidate :: rest)[i + 0]? = some marker[i] := by
      rw [getElem?_append_left (by omega)]
      simp [hlt]
    have hfirst := Option.some.inj (hin.symm.trans hhead)
    have hagain := hm.goesOn ⟨i, by omega⟩ hfirst
    have hat := getElem?_of_occurrence hocc ⟨matched.val - i, by omega⟩
    rw [Nat.add_sub_cancel' (Nat.le_of_lt hlt), hbad] at hat
    have hsame := prefix_iff_getElem?.mp hagain (matched.val - i) (by simp; omega)
    simp only [getElem_drop, Nat.add_sub_cancel' (Nat.le_of_lt hlt),
      Vector.getElem_toList, Vector.getElem?_toList] at hsame
    rw [Vector.getElem?_eq_getElem (by omega)] at hsame
    exact hc ((Option.some.inj hat).trans (Option.some.inj hsame))
  · have hat : some candidate = some marker[(0 : Fin 8)] := hbad.symm.trans hhead
    exact hzero (Option.some.inj hat)

theorem syncLoop_eq_first (hm : Repeats marker) {start : Nat}
    {offset : Nat} (hmatched : matched.val ≤ offset) : syncLoop marker start rest matched offset
      = (Search.first marker.toList (marker.toList.take matched.val ++ rest)).map
        (fun i => start + (offset - matched.val) + i) := by
  induction rest generalizing matched offset with
  | nil =>
    cases hfirst : Search.first marker.toList (marker.toList.take matched.val ++ []) with
    | none => rfl
    | some i =>
      obtain ⟨-, hocc, -⟩ := Search.first_some hfirst
      have hlen := hocc.length_le
      simp only [append_nil, length_drop, length_take, Vector.length_toList] at hlen
      omega
  | cons candidate rest ih =>
    simp only [syncLoop]
    by_cases hc : candidate = marker[matched]
    · have htake : marker.toList.take matched.val ++ candidate :: rest
          = marker.toList.take (matched.val + 1) ++ rest := by
        rw [take_succ_eq_append_getElem (by simp), hc]
        simp
      rw [if_pos hc, htake]
      by_cases hend : matched.val + 1 < 8
      · rw [dif_pos hend, ih (by simpa using hmatched)]
        simp only [Nat.add_sub_add_right]
      · have hfull : marker.toList.take (matched.val + 1)
            = marker.toList := take_of_length_le (by simp; omega)
        rw [dif_neg hend, hfull, Search.first_eq_zero (prefix_append _ _)]
        simp only [Option.map_some, Option.some.injEq]
        omega
    · rw [if_neg hc]
      have hlen : (marker.toList.take matched.val).length = matched.val := by simp
      by_cases hzero : candidate = marker[0]
      · have hskip : Search.first marker.toList
            (marker.toList.take matched.val ++ candidate :: rest)
              = (Search.first marker.toList (candidate :: rest)).map (· + matched.val) := by
          rw [Search.first_append, hlen]
          intro i hi
          exact not_occurrence_of_mismatch hm hc (Or.inl (hlen ▸ hi))
        have hone : marker.toList.take (1 : Fin 8).val ++ rest = candidate :: rest := by
          rw [hzero, show (1 : Fin 8).val = 0 + 1 from rfl, take_succ_eq_append_getElem (by simp)]
          simp
        rw [if_pos hzero, ih (by simp), hone, hskip, Option.map_map]
        congr 1
        funext i
        show start + (offset + 1 - 1) + i = start + (offset - matched.val) + (i + matched.val)
        omega
      · have hskip : Search.first marker.toList
            (marker.toList.take matched.val ++ candidate :: rest)
              = (Search.first marker.toList rest).map (· + (matched.val + 1)) := by
          have hsplit : marker.toList.take matched.val ++ candidate :: rest
              = (marker.toList.take matched.val ++ [candidate]) ++ rest := by simp
          rw [hsplit, Search.first_append, length_append, hlen, length_singleton]
          intro i hi
          rw [length_append, hlen, length_singleton] at hi
          rw [← hsplit]
          rcases Nat.lt_or_eq_of_le (Nat.le_of_lt_succ hi) with h | h
          · exact not_occurrence_of_mismatch hm hc (Or.inl h)
          · exact not_occurrence_of_mismatch hm hc (Or.inr ⟨h, hzero⟩)
        have hnone : marker.toList.take (0 : Fin 8).val ++ rest = rest := rfl
        rw [if_neg hzero, ih (by simp), hnone, hskip, Option.map_map]
        congr 1
        funext i
        show start + (offset + 1 - 0) + i = start + (offset - matched.val) + (i + (matched.val + 1))
        omega

theorem findNextSync_eq_first
    (hm : Repeats marker) (data : Bytes) (pos : Nat) : findNextSync marker data pos
      = (Search.first marker.toList (data.drop pos)).map (pos + ·) := by
  rw [findNextSync, syncLoop_eq_first hm (Nat.le_refl 0)]
  simp

def MarkerAt (marker : Vector UInt8 8) (data : Bytes) (p : Nat) : Prop :=
  slice data p 8 = marker.toList

instance (marker : Vector UInt8 8) (data : Bytes) (p : Nat) : Decidable (MarkerAt marker data p) :=
  inferInstanceAs (Decidable (_ = _))

theorem markerAt_iff_isPrefix : MarkerAt marker data p ↔ marker.toList <+: data.drop p := by
  rw [prefix_iff_eq_take, Vector.length_toList]
  exact eq_comm

theorem findNextSync_none (hm : Repeats marker) (h : findNextSync marker data pos = none)
    (hp : pos ≤ p) : ¬ MarkerAt marker data p := by
  rw [findNextSync_eq_first hm, Option.map_eq_none_iff] at h
  have hnone := Search.first_none h (p - pos)
  rwa [drop_drop, Nat.add_sub_cancel' hp, ← markerAt_iff_isPrefix] at hnone

theorem findNextSync_some (hm : Repeats marker) (h : findNextSync marker data pos = some p) :
    MarkerAt marker data p ∧ ∀ q, pos ≤ q → q < p → ¬ MarkerAt marker data q := by
  rw [findNextSync_eq_first hm, Option.map_eq_some_iff] at h
  obtain ⟨i, hfirst, rfl⟩ := h
  obtain ⟨-, hocc, hmin⟩ := Search.first_some hfirst
  rw [drop_drop, ← markerAt_iff_isPrefix] at hocc
  refine ⟨hocc, fun q hle hlt => ?_⟩
  have hno := hmin (q - pos) (by omega)
  rwa [drop_drop, Nat.add_sub_cancel' hle, ← markerAt_iff_isPrefix] at hno

def Recoverable {α : Type} (a : Except Error α) : Prop :=
  ∀ err, a = .error err → err.isFatal = false

namespace Recoverable

variable {α β : Type}

theorem ok (v : α) : Recoverable (.ok v) := nofun

theorem bind {a : Except Error α} {f : α → Except Error β}
    (ha : Recoverable a) (hf : ∀ v, Recoverable (f v)) : Recoverable (a >>= f) := by
  cases a with
  | ok v => exact hf v
  | error e => intro err h; cases h; exact ha e rfl

theorem ensure {c : Prop} [Decidable c] {e : Error}
    (he : e.isFatal = false) : Recoverable (Except.ensure c e) := by
  intro err h
  unfold Except.ensure at h
  split at h
  · cases h
  · cases h
    exact he

theorem checkedAdd (field : String) (a : UInt64) (b : Nat) :
    Recoverable (Logjet.checkedAdd field a b) := by
  intro err h
  unfold Logjet.checkedAdd at h
  split at h <;> cases h
  rfl

theorem readExact (data : Bytes) (pos n : Nat) : Recoverable (Logjet.readExact data pos n) := by
  intro err h
  unfold Logjet.readExact at h
  split at h <;> cases h
  rfl

theorem decodeVarintLoop (value : UInt64) (shift : Nat) (bytes : Bytes) :
    Recoverable (Logjet.decodeVarintLoop value shift bytes) := by
  induction bytes generalizing value shift with
  | nil => intro err h; cases h; rfl
  | cons byte rest ih =>
    unfold Logjet.decodeVarintLoop
    intro err h
    split at h
    · cases h
    · split at h
      · cases h
        rfl
      · exact ih _ _ err h

theorem fromU8 (v : UInt8) : Recoverable (RecordType.fromU8 v) := by
  intro err h
  unfold RecordType.fromU8 at h
  split at h <;> cases h
  rfl

theorem codec_fromU8 (v : UInt8) : Recoverable (Codec.fromU8 v) := by
  intro err h
  unfold Codec.fromU8 at h
  split at h <;> cases h
  rfl

theorem parseRecord (base : BlockHeaderExt) (total : Nat) (rest : Bytes) :
    Recoverable (Logjet.parseRecord base total rest) := by
  unfold Logjet.parseRecord
  split
  · refine (fromU8 _).bind fun _ => ?_
    refine (decodeVarintLoop _ _ _).bind fun _ => ?_
    refine (decodeVarintLoop _ _ _).bind fun _ => ?_
    refine (decodeVarintLoop _ _ _).bind fun _ => ?_
    refine (ensure rfl).bind fun _ => ?_
    refine (ensure rfl).bind fun _ => ?_
    refine (checkedAdd _ _ _).bind fun _ => ?_
    exact (checkedAdd _ _ _).bind fun _ => ok _
  · intro err h
    cases h
    rfl

theorem parseRecordsLoop (base : BlockHeaderExt) (total count : Nat) (rest : Bytes) :
    Recoverable (Logjet.parseRecordsLoop base total count rest) := by
  induction count generalizing rest with
  | zero =>
    intro err h
    unfold Logjet.parseRecordsLoop at h
    split at h <;> cases h
    rfl
  | succ count ih => exact (parseRecord _ _ _).bind fun _ => (ih _).bind fun _ => ok _

theorem decompress (c : Codec) (input : Bytes) (n : Nat) :
    Recoverable (c.decompress x input n) := by
  intro err h
  unfold Codec.decompress at h
  split at h
  · split at h <;> cases h
    rfl
  · split at h
    · split at h <;> cases h
      rfl
    · cases h
      rfl
  · split at h <;> cases h
    rfl

theorem decodePayload (frame : Frame) : Recoverable (Logjet.decodePayload x frame) :=
  (decompress _ _ _).bind fun _ => parseRecordsLoop _ _ _ _

theorem readFrame (config : ReaderConfig) (data : Bytes) (p : Nat) :
    Recoverable (Logjet.readFrame x config data p) := by
  have hheader : ∀ bytes, Recoverable (BlockHeader.decode bytes) :=
    fun _ => (ensure rfl).bind fun _ => (ensure rfl).bind fun _ =>
      (codec_fromU8 _).bind fun _ => ok _
  have hext : ∀ bytes, Recoverable (BlockHeaderExt.decode bytes) :=
    fun _ => (ensure rfl).bind fun _ => ok _
  refine (readExact _ _ _).bind fun _ => ?_
  refine (ensure rfl).bind fun _ => ?_
  refine (readExact _ _ _).bind fun _ => ?_
  refine (hheader _).bind fun _ => ?_
  refine (ensure rfl).bind fun _ => ?_
  refine (ensure rfl).bind fun _ => ?_
  refine (ensure rfl).bind fun _ => ?_
  refine (ensure rfl).bind fun _ => ?_
  refine (readExact _ _ _).bind fun _ => ?_
  refine (ensure rfl).bind fun _ => ?_
  refine (hext _).bind fun _ => ?_
  refine (readExact _ _ _).bind fun _ => ?_
  refine (readExact _ _ _).bind fun _ => ?_
  exact (ensure rfl).bind fun _ => ok _

end Recoverable

theorem addTotals_ok {header : BlockHeader} {stats : ReaderStats}
    (hc : stats.totalCompressedBytes.toNat + header.compressedLen.toNat < 2 ^ 64)
    (hu : stats.totalUncompressedBytes.toNat + header.uncompressedLen.toNat < 2 ^ 64) :
    ∃ c u : UInt64, addTotals header stats
        = .ok () { stats with totalCompressedBytes := c,
                              totalUncompressedBytes := u }
      ∧ c.toNat = stats.totalCompressedBytes.toNat + header.compressedLen.toNat
      ∧ u.toNat = stats.totalUncompressedBytes.toNat + header.uncompressedLen.toNat := by
  obtain ⟨c, hceq, hcval⟩ := @checkedAdd_ok "total_compressed_bytes" _ _ hc
  obtain ⟨u, hueq, huval⟩ := @checkedAdd_ok "total_uncompressed_bytes" _ _ hu
  refine ⟨c, u, ?_, hcval, huval⟩
  simp only [addTotals, bind_eq_ok_iff, ofExcept_eq_ok_iff]
  exact ⟨_, _, rfl, c, _, ⟨hceq, rfl⟩, _, _, rfl, u, _, ⟨hueq, rfl⟩, rfl⟩

theorem tryReadBlockAt_of_error {err : Error} (h : readFrame x config data p = .error err) :
    tryReadBlockAt x config data p stats = .error err stats := by
  simp only [tryReadBlockAt, h]
  rfl

theorem tryReadBlockAt_of_frame {stats' : ReaderStats} {frame : Frame}
    (hframe : readFrame x config data p = .ok frame)
    (htotals : addTotals frame.header stats = .ok () stats') : tryReadBlockAt x config data p stats
      = match decodePayload x frame with
        | .ok records => .ok (records, frame.endPos) stats'
        | .error err => .error err stats' := by
  unfold tryReadBlockAt
  rw [hframe]
  refine (bind_of_ok htotals).trans ?_
  cases decodePayload x frame <;> rfl

theorem finishScan_ok {origin : Nat} {r : LogjetReader}
    (h : r.stats.bytesSkipped.toNat + (r.data.length - origin) < 2 ^ 64) :
    ∃ r', finishScan origin r = .ok false r' ∧ r'.stats.blocksBad = r.stats.blocksBad := by
  obtain ⟨s, hs, -⟩ := @checkedAdd_ok "bytes_skipped" _ _ h
  refine ⟨{ r with pos := r.data.length,
                   stats := { r.stats with bytesSkipped := s } }, ?_, rfl⟩
  simp only [finishScan, bind_eq_ok_iff, ofExcept_eq_ok_iff]
  exact ⟨_, _, rfl, _, _, rfl, s, _, ⟨hs, rfl⟩, _, _, rfl, rfl⟩

theorem acceptBlock_ok {origin p : Nat} {records : List OwnedRecord}
    {r : LogjetReader} (hb : r.stats.blocksOk.toNat + 1 < 2 ^ 64)
    (hs : r.stats.bytesSkipped.toNat + (p - origin) < 2 ^ 64) :
    ∃ b s : UInt64, acceptBlock origin p records r
        = .ok true { r with
            stats := { r.stats with blocksOk := b, bytesSkipped := s }
            pending := r.pending ++ records }
      ∧ b.toNat = r.stats.blocksOk.toNat + 1
      ∧ s.toNat = r.stats.bytesSkipped.toNat + (p - origin) := by
  obtain ⟨b, hbeq, hbval⟩ := @checkedAdd_ok "blocks_ok" _ _ hb
  obtain ⟨s, hseq, hsval⟩ := @checkedAdd_ok "bytes_skipped" _ _ hs
  refine ⟨b, s, ?_, hbval, hsval⟩
  simp only [acceptBlock, bind_eq_ok_iff, ofExcept_eq_ok_iff]
  exact ⟨_, _, rfl, b, _, ⟨hbeq, rfl⟩, _, _, rfl, s, _, ⟨hseq, rfl⟩, _, _, rfl, rfl⟩

def badWeight (x : External) (config : ReaderConfig) (data : Bytes) (p : Nat) : Nat :=
  if MarkerAt config.syncMarker data p ∧ blockAt x config data p = none
  then 1 else 0

structure Room (x : External) (origin : Nat) (r : LogjetReader) : Prop where
  inside : r.pos ≤ r.data.length
  origin_le : origin ≤ r.pos
  blocksOk : r.stats.blocksOk.toNat + (r.data.length - r.pos) < 2 ^ 64
  blocksBad : r.stats.blocksBad.toNat + (r.data.length - r.pos) < 2 ^ 64
  skipped : r.stats.bytesSkipped.toNat + (r.data.length - origin) < 2 ^ 64
  recordsOk : r.stats.recordsOk.toNat + r.pending.length
    + (scanRecords x r.config r.data r.pos).length < 2 ^ 64
  compressed : r.stats.totalCompressedBytes.toNat + scanTally x r.config r.data
        (frameWeight x r.config r.data BlockHeader.compressedLen) r.pos < 2 ^ 64
  uncompressed : r.stats.totalUncompressedBytes.toNat + scanTally x r.config r.data
        (frameWeight x r.config r.data BlockHeader.uncompressedLen) r.pos < 2 ^ 64

def badAhead (x : External) (r : LogjetReader) : Nat :=
  scanTally x r.config r.data (badWeight x r.config r.data) r.pos

section Skip

variable {config : ReaderConfig} {data : Bytes} {p : Nat}

theorem readFrame_of_not_marker (h : ¬ MarkerAt config.syncMarker data p) :
    ∃ err, readFrame x config data p = .error err := by
  cases hf : readFrame x config data p with
  | error err => exact ⟨err, rfl⟩
  | ok frame => exact absurd (readFrame_eq_ok_iff.mp hf).marker h

variable {err : Error} {frame : Frame} {field : BlockHeader → UInt32}

theorem blockAt_of_error (h : readFrame x config data p = .error err) :
    blockAt x config data p = none := by simp only [blockAt, h]

theorem blockAt_of_frame (h : readFrame x config data p = .ok frame) :
    blockAt x config data p = match decodePayload x frame with
        | .ok records => some (records, frame.endPos)
        | .error _ => none := by
  simp only [blockAt, h]
  cases decodePayload x frame <;> rfl

theorem frameWeight_of_error
    (h : readFrame x config data p = .error err) : frameWeight x config data field p = 0 := by
  simp only [frameWeight, h]

theorem frameWeight_of_frame (h : readFrame x config data p = .ok frame) :
    frameWeight x config data field p = (field frame.header).toNat := by simp only [frameWeight, h]

theorem Block.blockAt_body (b : Block x) (hx : x.RoundTrip)
    (hmarker : config.syncMarker = b.config.syncMarker)
    (hlimits : WithinLimits config b.body) {pre post : Bytes}
    (hdata : data = pre ++ (b.body ++ post)) : blockAt x config data pre.length
      = some (b.records, pre.length + b.body.length) := by
  obtain ⟨frame, hframe, -, hdecode, hend⟩ := b.readFrame_body hx hmarker hlimits hdata
  rw [blockAt_of_frame hframe, hdecode, hend]

theorem weightless_of_not_marker (h : ¬ MarkerAt config.syncMarker data p) :
    blockAt x config data p = none ∧ (∀ field, frameWeight x config data field p = 0)
      ∧ badWeight x config data p = 0 := by
  obtain ⟨err, herr⟩ := readFrame_of_not_marker (x := x) h
  refine ⟨blockAt_of_error herr, fun _ => frameWeight_of_error herr, ?_⟩
  rw [badWeight, if_neg fun hbad => h hbad.1]

end Skip

theorem tryReadBlockAt_spec (hc : stats.totalCompressedBytes.toNat
      + frameWeight x config data BlockHeader.compressedLen p < 2 ^ 64)
    (hu : stats.totalUncompressedBytes.toNat
      + frameWeight x config data BlockHeader.uncompressedLen p < 2 ^ 64) : ∃ c u : UInt64,
      c.toNat = stats.totalCompressedBytes.toNat
          + frameWeight x config data BlockHeader.compressedLen p
      ∧ u.toNat = stats.totalUncompressedBytes.toNat
          + frameWeight x config data BlockHeader.uncompressedLen p
      ∧ ((∃ records e, blockAt x config data p = some (records, e)
            ∧ tryReadBlockAt x config data p stats
              = .ok (records, e) { stats with totalCompressedBytes := c,
                                              totalUncompressedBytes := u })
        ∨ (blockAt x config data p = none ∧ ∃ err, err.isFatal = false
            ∧ tryReadBlockAt x config data p stats
              = .error err { stats with totalCompressedBytes := c,
                                        totalUncompressedBytes := u })) := by
  cases hf : readFrame x config data p with
  | error err =>
    simp only [frameWeight_of_error hf] at hc hu ⊢
    exact ⟨_, _, rfl, rfl, Or.inr ⟨blockAt_of_error hf, err,
      Recoverable.readFrame _ _ _ err hf, tryReadBlockAt_of_error hf⟩⟩
  | ok frame =>
    simp only [frameWeight_of_frame hf] at hc hu ⊢
    obtain ⟨c, u, htotals, hcval, huval⟩ := addTotals_ok hc hu
    have hread := tryReadBlockAt_of_frame hf htotals
    have hblock := blockAt_of_frame hf
    refine ⟨c, u, hcval, huval, ?_⟩
    cases hd : decodePayload x frame with
    | ok records =>
      rw [hd] at hread hblock
      exact Or.inl ⟨records, frame.endPos, hblock, hread⟩
    | error err =>
      rw [hd] at hread hblock
      exact Or.inr ⟨hblock, err, Recoverable.decodePayload _ err hd, hread⟩

section Steps

variable {config : ReaderConfig} {data : Bytes}

variable {p e : Nat} {records : List OwnedRecord}

theorem scan_skip {c : Nat} (hle : c ≤ p) (hp : p ≤ data.length)
    (hno : ∀ q, c ≤ q → q < p → ¬ MarkerAt config.syncMarker data q) :
    scanRecords x config data c = scanRecords x config data p
      ∧ (∀ field, scanTally x config data (frameWeight x config data field) c
          = scanTally x config data (frameWeight x config data field) p)
      ∧ scanTally x config data (badWeight x config data) c
          = scanTally x config data (badWeight x config data) p := by
  have hnone : ∀ q, c ≤ q → q < p → blockAt x config data q = none :=
    fun q h1 h2 => (weightless_of_not_marker (hno q h1 h2)).1
  refine ⟨Greedy.records_skip hle hp hnone, fun field => ?_, ?_⟩
  · exact Greedy.tally_skip hle hp hnone fun q h1 h2 =>
      (weightless_of_not_marker (hno q h1 h2)).2.1 field
  · exact Greedy.tally_skip hle hp hnone fun q h1 h2 => (weightless_of_not_marker (hno q h1 h2)).2.2

theorem scanRecords_none (hp : p < data.length) (h : blockAt x config data p = none) :
    scanRecords x config data p = scanRecords x config data (p + 1) := Greedy.records_none hp h

theorem scanRecords_some
    (h : blockAt x config data p = some (records, e)) : scanRecords x config data p
      = records ++ scanRecords x config data e :=
  Greedy.records_some (blockAt_advances config data) h

theorem scanTally_none (w : Nat → Nat) (hp : p < data.length) (h : blockAt x config data p = none) :
    scanTally x config data w p = w p + scanTally x config data w (p + 1) :=
  Greedy.tally_none w hp h

theorem scanTally_some (w : Nat → Nat) (h : blockAt x config data p = some (records, e)) :
    scanTally x config data w p = w p + scanTally x config data w e :=
  Greedy.tally_some (blockAt_advances config data) w h

end Steps

section Arms

variable {origin p : Nat} {r : LogjetReader} {stats : ReaderStats}

theorem scanLoop_of_none (hfind : findNextSync r.config.syncMarker r.data r.pos = none) :
    scanLoop x origin r = finishScan origin r := by
  rw [scanLoop]
  split
  · rfl
  · rename_i h
    rw [hfind] at h
    cases h

theorem scanLoop_of_block {records : List OwnedRecord} {e : Nat}
    (hfind : findNextSync r.config.syncMarker r.data r.pos = some p)
    (htry : tryReadBlockAt x r.config r.data p r.stats = .ok (records, e) stats) :
    scanLoop x origin r = acceptBlock origin p records { r with pos := e, stats := stats } := by
  rw [scanLoop]
  split
  · rename_i h
    rw [hfind] at h
    cases h
  · rename_i q h
    rw [hfind] at h
    cases h
    rw [htry]

theorem scanLoop_of_bad {err : Error} {b : UInt64}
    (hfind : findNextSync r.config.syncMarker r.data r.pos = some p)
    (htry : tryReadBlockAt x r.config r.data p r.stats = .error err stats)
    (hfatal : err.isFatal = false) (hadd : checkedAdd "blocks_bad" stats.blocksBad 1 = .ok b) :
    scanLoop x origin r
      = scanLoop x origin { r with
          pos := p + 1, stats := { stats with blocksBad := b } } := by
  rw [scanLoop]
  split
  · rename_i h
    rw [hfind] at h
    cases h
  · rename_i q h
    rw [hfind] at h
    cases h
    rw [htry]
    simp only [hfatal, hadd, Bool.false_eq_true, if_false]

end Arms

theorem scanLoop_spec {origin : Nat}
    (hm : Syncable r.config.syncMarker) (hroom : Room x origin r) (hpending : r.pending = []) :
    (∃ r', scanLoop x origin r = .ok false r' ∧ scanRecords x r.config r.data r.pos = []
        ∧ r'.stats.blocksBad.toNat = r.stats.blocksBad.toNat + badAhead x r)
      ∨ ∃ r', scanLoop x origin r = .ok true r' ∧ scanRecords x r.config r.data r.pos
            = r'.pending ++ scanRecords x r.config r.data r'.pos ∧ Room x r'.pos r'
        ∧ r'.stats.blocksBad.toNat + badAhead x r' = r.stats.blocksBad.toNat + badAhead x r := by
  induction hn : r.data.length - r.pos using Nat.strong_induction_on generalizing r with
  | _ n ih =>
    obtain ⟨hinside, horigin, hbok, hbbad, hskip, hrec, hcomp, huncomp⟩ := hroom
    cases hfind : findNextSync r.config.syncMarker r.data r.pos with
    | none =>
      obtain ⟨hrecords, -, hbad⟩ := scan_skip (x := x) hinside (Nat.le_refl _) fun q h1 _ =>
          findNextSync_none hm.repeats hfind h1
      obtain ⟨r', hfinish, hsame⟩ := finishScan_ok hskip
      refine Or.inl ⟨r', by rw [scanLoop_of_none hfind, hfinish], ?_, ?_⟩
      · rw [hrecords]
        exact Greedy.records_end (Nat.le_refl _)
      · rw [hsame, badAhead, hbad, scanTally, Greedy.tally_end _ (Nat.le_refl _)]
        rfl
    | some p =>
      obtain ⟨hle, hend⟩ := findNextSync_bounds hfind
      obtain ⟨hmarker, hno⟩ := findNextSync_some hm.repeats hfind
      obtain ⟨hrecords, hfields, hbad⟩ := scan_skip (x := x) hle (by omega) hno
      rw [hrecords] at hrec ⊢
      rw [hfields] at hcomp huncomp
      have hbadAhead : badAhead x r = scanTally x r.config r.data (badWeight x r.config r.data) p :=
        hbad
      rw [hbadAhead]
      have hweigh : ∀ w, w p ≤ scanTally x r.config r.data w p := by
        intro w
        cases hb : blockAt x r.config r.data p with
        | none => rw [scanTally_none w (by omega) hb]; omega
        | some be => rw [scanTally_some w hb]; omega
      obtain ⟨c, u, hcval, huval, hattempt⟩ := tryReadBlockAt_spec
        (Nat.lt_of_le_of_lt (Nat.add_le_add_left (hweigh _) _) hcomp)
        (Nat.lt_of_le_of_lt (Nat.add_le_add_left (hweigh _) _) huncomp)
      rcases hattempt with ⟨records, e, hblock, htry⟩
          | ⟨hblock, err, hfatal, htry⟩
      · obtain ⟨hlt, hein⟩ := blockAt_advances _ _ p records e hblock
        have hgood : badWeight x r.config r.data p = 0 := if_neg fun h => by simp [hblock] at h
        rw [scanRecords_some hblock, length_append] at hrec
        rw [scanTally_some _ hblock] at hcomp huncomp
        rw [scanRecords_some hblock, scanTally_some _ hblock, hgood]
        obtain ⟨b, s, haccept, hbval, hsval⟩ := @acceptBlock_ok origin p
          records { r with pos := e, stats := { r.stats with
            totalCompressedBytes := c, totalUncompressedBytes := u } }
          (by simp only; omega) (by simp only; omega)
        refine Or.inr ⟨_, by rw [scanLoop_of_block hfind htry, haccept], ?_, ?_, ?_⟩
        · simp only [hpending, nil_append]
        · refine ⟨hein, Nat.le_refl e, ?_, ?_, ?_, ?_, ?_, ?_⟩
          · simp only [hbval]
            omega
          · simp only
            omega
          · simp only [hsval]
            omega
          · simp only [hpending, nil_append]
            omega
          · simp only [hcval]
            omega
          · simp only [huval]
            omega
        · simp only [badAhead]
          omega
      · have hone : badWeight x r.config r.data p = 1 := if_pos ⟨hmarker, hblock⟩
        rw [scanRecords_none (by omega) hblock] at hrec
        rw [scanTally_none _ (by omega) hblock] at hcomp huncomp
        rw [scanRecords_none (by omega) hblock, scanTally_none _ (by omega) hblock, hone]
        obtain ⟨b, hbeq, hbval⟩ := @checkedAdd_ok "blocks_bad" r.stats.blocksBad 1 (by omega)
        obtain ⟨r₁, hr₁⟩ : ∃ r₁ : LogjetReader, r₁ = { r with
            pos := p + 1
            stats := { r.stats with
              blocksBad := b, totalCompressedBytes := c,
              totalUncompressedBytes := u } } := ⟨_, rfl⟩
        have hnext : Room x origin r₁ := by
          subst hr₁
          refine ⟨?_, ?_, ?_, ?_, hskip, hrec, ?_, ?_⟩
          all_goals simp only [hbval, hcval, huval]
          all_goals omega
        have hstep : scanLoop x origin r = scanLoop x origin r₁ := by
          rw [scanLoop_of_bad hfind htry hfatal hbeq, hr₁]
        have hrest := ih (r.data.length - (p + 1)) (by omega)
          (hr₁ ▸ hm) hnext (hr₁ ▸ hpending) (hr₁ ▸ rfl)
        rw [← hstep] at hrest
        have hcount : r₁.stats.blocksBad.toNat + badAhead x r₁
            = r.stats.blocksBad.toNat + (1 + scanTally x r.config r.data
              (badWeight x r.config r.data) (p + 1)) := by
          rw [hr₁]
          simp only [badAhead, hbval]
          omega
        rw [hcount, hr₁] at hrest
        exact hrest

section Calls

variable {r r' : LogjetReader}

theorem nextRecord_of_pending {record : OwnedRecord} {pending : List OwnedRecord} {n : UInt64}
    (hpending : r.pending = record :: pending)
    (hadd : checkedAdd "records_ok" r.stats.recordsOk 1 = .ok n) :
    nextRecord x r = .ok (some record) { r with
      pending := pending, stats := { r.stats with recordsOk := n } } := by
  rw [nextRecord]
  simp only [hpending, hadd]

theorem nextRecord_of_end (hpending : r.pending = []) (hscan : scanNextBlock x r = .ok false r') :
    nextRecord x r = .ok none r' := by
  rw [nextRecord]
  simp only [hpending]
  split
  all_goals
    rename_i h
    rw [hscan] at h
    cases h
  rfl

theorem nextRecord_of_block (hpending : r.pending = []) (hscan : scanNextBlock x r = .ok true r') :
    nextRecord x r = nextRecord x r' := by
  rw [nextRecord]
  simp only [hpending]
  split
  all_goals
    rename_i h
    rw [hscan] at h
    cases h
  rfl

variable {r₁ : LogjetReader}

theorem Yields.of_nextRecord_eq {records : List OwnedRecord} (h : nextRecord x r = nextRecord x r₁)
    (hy : Yields x r₁ records r') : Yields x r records r' := by
  cases hy with
  | done hnext => exact .done (h.trans hnext)
  | more hnext tail => exact .more (h.trans hnext) tail

theorem Yields.eq {r r₂ : LogjetReader}
    {records₁ records₂ : List OwnedRecord} (h₁ : Yields x r records₁ r₁)
    (h₂ : Yields x r records₂ r₂) : records₁ = records₂ := by
  induction h₁ generalizing records₂ with
  | done hnext =>
    cases h₂ with
    | done hnext' => rfl
    | more hnext' _ =>
      rw [hnext] at hnext'
      cases hnext'
  | more hnext _ ih =>
    cases h₂ with
    | done hnext' =>
      rw [hnext] at hnext'
      cases hnext'
    | more hnext' htail =>
      rw [hnext] at hnext'
      cases hnext'
      rw [ih htail]

end Calls

theorem yields_of_room
    (hm : Syncable r.config.syncMarker) (hroom : Room x r.pos r) : ∃ r', Yields x r
        (r.pending ++ scanRecords x r.config r.data r.pos) r' ∧ r'.stats.blocksBad.toNat
          = r.stats.blocksBad.toNat + badAhead x r := by
  induction hn : r.data.length - r.pos using Nat.strong_induction_on generalizing r with
  | _ n ih =>
    induction hp : r.pending generalizing r with
    | cons record pending ihp =>
      have hrec := hroom.recordsOk
      rw [hp, length_cons] at hrec
      obtain ⟨v, hv, hval⟩ := @checkedAdd_ok "records_ok" r.stats.recordsOk 1 (by omega)
      have hroom' : Room x r.pos { r with
          pending := pending
          stats := { r.stats with recordsOk := v } } :=
        { hroom with
          recordsOk := by
            simp only [hval]
            omega }
      obtain ⟨r', hy, hbad⟩ := ihp (r := { r with
          pending := pending
          stats := { r.stats with recordsOk := v } }) hm hroom' hn rfl
      exact ⟨r', .more (nextRecord_of_pending hp hv) hy, hbad⟩
    | nil =>
      rcases scanLoop_spec hm hroom hp with
        ⟨r', hscan, hrecords, hbad⟩ | ⟨r₁, hscan, hrecords, hroom₁, hbad⟩
      · rw [hrecords]
        exact ⟨r', .done (nextRecord_of_end hp hscan), hbad⟩
      · obtain ⟨hdata, hconfig, hfwd, hin, -⟩ := scanLoop_true x hscan
        obtain ⟨r', hy, hbad'⟩ := ih (r₁.data.length - r₁.pos)
          (by rw [hdata]; omega) (hconfig ▸ hm) hroom₁ rfl
        rw [hdata, hconfig, ← hrecords] at hy
        exact ⟨r', hy.of_nextRecord_eq (nextRecord_of_block hp hscan), by omega⟩

theorem room_of_countersFit (h : CountersFit x config data) :
    Room x 0 (LogjetReader.withConfig data config) := by
  obtain ⟨hlen, hrecords, hcompressed, huncompressed⟩ := h
  refine ⟨Nat.zero_le _, Nat.le_refl _, ?_, ?_, ?_, ?_, ?_, ?_⟩
  all_goals
    simp only [LogjetReader.withConfig, ReaderStats.default,
      UInt64.toNat_zero, Nat.zero_add, length_nil, Nat.sub_zero]
    assumption

theorem yields_scanRecords {config : ReaderConfig} {data : Bytes}
    (hm : Syncable config.syncMarker) (h : CountersFit x config data) :
    ∃ r', Yields x (LogjetReader.withConfig data config) (scanRecords x config data 0) r'
      ∧ r'.stats.blocksBad.toNat = scanTally x config data (badWeight x config data) 0 := by
  obtain ⟨r', hy, hbad⟩ := yields_of_room
    (r := LogjetReader.withConfig data config) hm (room_of_countersFit h)
  refine ⟨r', hy, hbad.trans ?_⟩
  exact Nat.zero_add _

theorem validBlock_eq_decodes (config : ReaderConfig) (data : Bytes) :
    ValidBlock x config data = Greedy.Decodes (blockAt x config data) := by
  funext p records e
  exact propext blockAt_eq_some_iff.symm

theorem scan_scanRecords (config : ReaderConfig) (data : Bytes) :
    Greedy.Scan (ValidBlock x config data) 0 (scanRecords x config data 0) := by
  rw [validBlock_eq_decodes]
  exact Greedy.scan_records (blockAt_advances config data) 0

end Logjet
