/-
What the limit of `read_record_with_limit` bounds: the length of the wire
payload, which for an LZ4 block is the block with four bytes before it.
-/
import Logjet.Lib.Lz4
import Logjet.Proofs.Protocol

namespace Logjet

open List ByteReader LittleEndian Reference EStateM

namespace Wire

variable {x : External}

def codecAt (input : Bytes) : UInt8 := input.getD 10 0

def wirePayloadAt (input : Bytes) : Bytes := (input.drop 32).take (toU32 (input.drop 28)).toNat

def ExpandsWithin (x : External) (maxPayloadLen : Nat) (input : Bytes) : Prop :=
  codecAt input = 1 → ∀ payload, x.lz4Decompress ((wirePayloadAt input).drop 4)
        (toU32 (wirePayloadAt input)).toNat = .ok payload → payload.length ≤ maxPayloadLen

variable {maxPayloadLen : Nat} {input rest payload wirePayload : Bytes} {record : WireRecord}
  {codec : UInt8} {compress : Bool}

theorem readFrameAfter_eq_ok {magic : Bytes}
    (h : readFrameAfter x maxPayloadLen magic input = .ok record rest) :
    ∃ header wirePayload behind, input = header ++ (wirePayload ++ behind) ∧ header.length = 24
      ∧ wirePayload.length = (toU32 (header.drop 20)).toNat ∧ wirePayload.length ≤ maxPayloadLen
      ∧ decodeWirePayload x (header.getD 2 0) wirePayload = .ok record.payload := by
  obtain ⟨-, -, h⟩ := ofExcept_bind_eq_ok_iff.mp h
  obtain ⟨header, rest₁, hheader, h⟩ := bind_eq_ok_iff.mp h
  obtain ⟨-, -, h⟩ := ofExcept_bind_eq_ok_iff.mp h
  obtain ⟨recordType, -, h⟩ := ofExcept_bind_eq_ok_iff.mp h
  obtain ⟨_, hmax, h⟩ := ofExcept_bind_eq_ok_iff.mp h
  obtain ⟨wirePayload, rest₂, hwire, h⟩ := bind_eq_ok_iff.mp h
  obtain ⟨crcBytes, rest₃, -, h⟩ := bind_eq_ok_iff.mp h
  obtain ⟨-, -, h⟩ := ofExcept_bind_eq_ok_iff.mp h
  obtain ⟨payload, hdecode, h⟩ := ofExcept_bind_eq_ok_iff.mp h
  cases h
  obtain ⟨rfl, hlength⟩ := readExact_eq_ok hheader
  obtain ⟨rfl, hlength'⟩ := readExact_eq_ok hwire
  refine ⟨header, wirePayload, rest₂, rfl, hlength, hlength', ?_, hdecode⟩
  rw [hlength']
  exact Except.ensure_eq_ok_iff.mp hmax

theorem readRecordWithLimit_eq_some
    (h : readRecordWithLimit x maxPayloadLen input = .ok (some record) rest) :
    ∃ magic behind, input = magic ++ behind ∧ magic.length = 8
      ∧ readFrameAfter x maxPayloadLen magic behind = .ok record rest := by
  rcases Nat.lt_or_ge input.length 8 with hshort | hlong
  · rw [readRecordWithLimit_end _ hshort] at h
    cases h
  · have hmagic := length_take_of_le hlong
    rw [← take_append_drop 8 input, readRecordWithLimit_magic _ hmagic] at h
    obtain ⟨record', mid, hframe, h⟩ := bind_eq_ok_iff.mp h
    cases h
    exact ⟨_, _, (take_append_drop 8 input).symm, hmagic, hframe⟩

theorem toU32_append {bytes : Bytes} (h : bytes.length = 4) (rest : Bytes) :
    toU32 (bytes ++ rest) = toU32 bytes := by
  rw [toU32, toU32, take_left' h, take_of_length_le (by omega)]

theorem parts_at {magic header wirePayload behind : Bytes}
    (hmagic : magic.length = 8) (hheader : header.length = 24)
    (hwire : wirePayload.length = (toU32 (header.drop 20)).toNat) :
    codecAt (magic ++ (header ++ (wirePayload ++ behind))) = header.getD 2 0
      ∧ wirePayloadAt (magic ++ (header ++ (wirePayload ++ behind))) = wirePayload := by
  constructor
  · simp [codecAt, getElem?_append, hmagic, hheader]
  · have hlen : (magic ++ (header ++ (wirePayload ++ behind))).drop 28
        = header.drop 20 ++ (wirePayload ++ behind) := by
      rw [show 28 = 8 + 20 from rfl, ← drop_drop,
        drop_left' hmagic, drop_append_of_le_length (by omega)]
    have hbody : (magic ++ (header ++ (wirePayload ++ behind))).drop 32
        = wirePayload ++ behind := by
      rw [show 32 = 8 + 24 from rfl, ← drop_drop, drop_left' hmagic, drop_left' hheader]
    rw [wirePayloadAt, hlen, hbody, toU32_append (by rw [length_drop]; omega), ← hwire, take_left]

theorem decodeWirePayload_eq_ok
    (h : decodeWirePayload x codec wirePayload = .ok payload) : (codec = 0 ∧ payload = wirePayload)
      ∨ (codec = 1 ∧ x.lz4Decompress (wirePayload.drop 4)
        (toU32 wirePayload).toNat = .ok payload) := by
  unfold decodeWirePayload at h
  split at h
  case h_1 =>
    cases h
    exact Or.inl ⟨rfl, rfl⟩
  case h_2 =>
    right
    refine ⟨rfl, ?_⟩
    split at h
    case isTrue => cases h
    case isFalse =>
      split at h
      case h_1 hok =>
        cases h
        exact hok
      case h_2 => cases h
  case h_3 => cases h

theorem returned_within_iff
    (h : readRecordWithLimit x maxPayloadLen input = .ok (some record) rest) :
    record.payload.length ≤ maxPayloadLen ↔ ExpandsWithin x maxPayloadLen input := by
  obtain ⟨magic, behind, rfl, hmagic, hframe⟩ := readRecordWithLimit_eq_some h
  obtain ⟨header, wirePayload, behind, rfl, hheader, hwire, hmax, hdecode⟩ :=
    readFrameAfter_eq_ok hframe
  obtain ⟨hcodec, hpayload⟩ := @parts_at _ _ _ behind hmagic hheader hwire
  rw [ExpandsWithin, hcodec, hpayload]
  rcases decodeWirePayload_eq_ok hdecode with ⟨hraw, heq⟩ | ⟨hlz4, hblock⟩
  · rw [heq, hraw]
    exact iff_of_true hmax (fun h => absurd h (by decide))
  · constructor
    · intro hle _ payload hpayload
      rw [hblock] at hpayload
      cases hpayload
      exact hle
    · intro hall
      exact hall hlz4 _ hblock

theorem wirePayloadOf_length
    (h : wirePayloadOf x payload compress = .ok (codec, wirePayload)) : wirePayload.length
      = if compress = true ∧ (x.lz4Compress payload).length < payload.length then
          4 + (x.lz4Compress payload).length
        else payload.length := by
  unfold wirePayloadOf at h
  cases compress with
  | false =>
    cases h
    simp
  | true =>
    dsimp only at h
    rw [if_pos rfl] at h
    split at h
    case isFalse hno =>
      cases h
      simp [hno]
    case isTrue hsmaller =>
      obtain ⟨len, -, h⟩ := Except.bind_eq_ok_iff.mp h
      cases h
      simp [hsmaller]

theorem read_written (hlz4 : ∀ input,
      x.lz4Decompress (x.lz4Compress input) input.length = .ok input)
    {frame : Bytes} (h : writeRecord x record compress = .ok frame)
    (hmax : (if compress = true
        ∧ (x.lz4Compress record.payload).length < record.payload.length then
          4 + (x.lz4Compress record.payload).length
        else record.payload.length) ≤ maxPayloadLen) :
    readRecordWithLimit x maxPayloadLen frame = .ok (some record) [] := by
  obtain ⟨codec, wirePayload, payloadLen, hpayload, hlen, rfl⟩ :=
    writeRecord_eq_ok h
  rw [← wirePayloadOf_length hpayload] at hmax
  have htakes := (takes_frame hlz4 hpayload hlen hmax).whole []
  rw [append_nil] at htakes
  rw [readRecordWithLimit_magic _ rfl, bind_of_ok htakes]
  rfl

theorem accepted_iff (hlz4 : ∀ input,
      x.lz4Decompress (x.lz4Compress input) input.length = .ok input) {frame : Bytes}
    (h : writeRecord x record compress = .ok frame) (maxPayloadLen : Nat) :
    (∃ accepted rest, readRecordWithLimit x maxPayloadLen frame = .ok (some accepted) rest)
      ↔ (if compress = true ∧ (x.lz4Compress record.payload).length < record.payload.length then
          4 + (x.lz4Compress record.payload).length
        else record.payload.length) ≤ maxPayloadLen := by
  constructor
  · intro ⟨accepted, rest, hread⟩
    obtain ⟨codec, wirePayload, payloadLen, hpayload, hlen, rfl⟩ :=
      writeRecord_eq_ok h
    rw [← wirePayloadOf_length hpayload]
    obtain ⟨magic, behind, heq, hmagic, hframe⟩ := readRecordWithLimit_eq_some hread
    obtain ⟨rfl, rfl⟩ := append_inj heq (by rw [hmagic]; rfl)
    obtain ⟨header, wirePayload', behind, heq, hheader, hwire, hmax, -⟩ :=
      readFrameAfter_eq_ok hframe
    obtain ⟨rfl, -⟩ := append_inj heq (by rw [hheader, wireHeader_length])
    rw [(wireHeader_fields record codec payloadLen).2.2.2.2.2, hlen] at hwire
    rw [← hwire]
    exact hmax
  · intro hmax
    exact ⟨record, [], read_written hlz4 h hmax⟩

/-- Where the payload limit bounds the payload that is returned. -/
theorem wire_limit_iff (x : External) (hlz4 : ∀ input,
      x.lz4Decompress (x.lz4Compress input) input.length = .ok input) (maxPayloadLen : Nat) :
    (∀ input record rest, readRecordWithLimit x maxPayloadLen input = .ok (some record) rest →
        (record.payload.length ≤ maxPayloadLen ↔ ExpandsWithin x maxPayloadLen input))
      ∧ ∀ record compress frame, writeRecord x record compress = .ok frame →
        (((∃ accepted rest, readRecordWithLimit x maxPayloadLen frame = .ok (some accepted) rest)
            ↔ record.payload.length ≤ maxPayloadLen) ↔ (compress = true
              → (x.lz4Compress record.payload).length < record.payload.length
              → (4 + (x.lz4Compress record.payload).length ≤ maxPayloadLen
                ↔ record.payload.length ≤ maxPayloadLen))) := by
  refine ⟨fun input record rest h => returned_within_iff h, ?_⟩
  intro record compress frame h
  rw [accepted_iff hlz4 h]
  by_cases hlz : compress = true ∧ (x.lz4Compress record.payload).length < record.payload.length
  · rw [if_pos hlz]
    exact ⟨fun h _ _ => h, fun h => h hlz.1 hlz.2⟩
  · rw [if_neg hlz]
    exact iff_of_true Iff.rfl fun hc hlt => absurd ⟨hc, hlt⟩ hlz

theorem wire_limit_iff_short : ∃ frame, writeRecord external shortMetric true = .ok frame
      ∧ (((∃ accepted rest, readRecordWithLimit external 10 frame = .ok (some accepted) rest)
          ↔ shortMetric.payload.length ≤ 10) ↔ (true = true
            → (external.lz4Compress shortMetric.payload).length < shortMetric.payload.length
            → (4 + (external.lz4Compress shortMetric.payload).length ≤ 10
              ↔ shortMetric.payload.length ≤ 10))) := by
  have hwrite : (writeRecord external shortMetric true).okAnd (fun _ => true) = true := by
    decide +kernel
  obtain ⟨frame, hframe, -⟩ := Except.okAnd_eq_true.mp hwrite
  exact ⟨frame, hframe, (wire_limit_iff external external_roundTrip.lz4
    10).2 shortMetric true frame hframe⟩

/-- Nineteen different bytes and thirteen zeros. -/
def nearlyRaw : WireRecord :=
  { shortMetric with
    payload := [1, 2, 3, 4, 5, 6, 7, 8, 9, 10, 11, 12, 13, 14, 15, 16,
      17, 18, 19] ++ List.replicate 13 0 }

/-- The blocks `lz4_flex` 0.11 makes of two payloads. Of the zeros one is a
literal, 33 are a match at offset 1 and the last six are literals again;
of `nearlyRaw` there are twenty literals and a match of six zeros. -/
def lz4Blocks : List (Bytes × Bytes) :=
  [(zeroLog.payload, [0x1f, 0, 1, 0, 14, 0x60, 0, 0, 0, 0, 0, 0]),
    (nearlyRaw.payload, [0xf2, 5, 1, 2, 3, 4, 5, 6, 7, 8, 9, 10, 11, 12,
      13, 14, 15, 16, 17, 18, 19, 0, 1, 0, 0x60, 0, 0, 0, 0, 0, 0])]

/-- LZ4 with these blocks, and literals for any other payload. -/
def lz4External : External :=
  { external with
    lz4Compress := fun input => ((lz4Blocks.find? (·.1 = input)).map
      Prod.snd).getD (Lz4.lastLiterals input)
    lz4Decompress := Lz4.decompress }

theorem lz4External_roundTrip (input : Bytes) :
    lz4External.lz4Decompress (lz4External.lz4Compress input)
      input.length = .ok input := by
  have hblocks : ∀ row ∈ lz4Blocks,
      Lz4.decompress row.2 row.1.length = .ok row.1 := by decide +kernel
  simp only [lz4External]
  cases hrow : lz4Blocks.find? (·.1 = input) with
  | none => exact Lz4.decompress_lastLiterals input
  | some row =>
    have hfound := find?_some hrow
    have hinput : row.1 = input := of_decide_eq_true hfound
    rw [← hinput]
    exact hblocks row (mem_of_find?_eq_some hrow)

/-- Forty zeros make sixteen bytes on the wire and pass under every limit
from 16 on; the 32 bytes of `nearlyRaw` make 35 and are refused at 32. -/
theorem wire_limit_missed :
    (∀ input, lz4External.lz4Decompress (lz4External.lz4Compress input)
        input.length = .ok input)
      ∧ (∀ input output expectedLen,
        lz4External.lz4Decompress input expectedLen = .ok output →
          output.length ≤ expectedLen)
      ∧ (∃ frame, writeRecord lz4External zeroLog true = .ok frame
        ∧ zeroLog.payload.length = 40
        ∧ ∀ maxPayloadLen, 16 ≤ maxPayloadLen → maxPayloadLen < 40 →
          readRecordWithLimit lz4External maxPayloadLen frame
            = .ok (some zeroLog) [])
      ∧ ∃ frame, writeRecord lz4External nearlyRaw true = .ok frame
        ∧ nearlyRaw.payload.length = 32
        ∧ (lz4External.lz4Compress nearlyRaw.payload).length = 31
        ∧ ¬ ∃ accepted rest, readRecordWithLimit lz4External 32 frame
          = .ok (some accepted) rest := by
  have hzero : (writeRecord lz4External zeroLog true).okAnd
      (fun _ => true) = true := by decide +kernel
  have hnear : (writeRecord lz4External nearlyRaw true).okAnd
      (fun _ => true) = true := by decide +kernel
  obtain ⟨frame, hframe, -⟩ := Except.okAnd_eq_true.mp hzero
  obtain ⟨frame', hframe', -⟩ := Except.okAnd_eq_true.mp hnear
  refine ⟨lz4External_roundTrip, fun _ _ _ h => Lz4.decompress_length_le h,
    ⟨frame, hframe, rfl, ?_⟩,
    frame', hframe', rfl, by decide +kernel, ?_⟩
  · intro maxPayloadLen hfrom _
    have hblock : (if true = true ∧ (lz4External.lz4Compress
          zeroLog.payload).length < zeroLog.payload.length then
        4 + (lz4External.lz4Compress zeroLog.payload).length
      else zeroLog.payload.length) = 16 := by decide +kernel
    exact read_written lz4External_roundTrip hframe (hblock ▸ hfrom)
  · rw [accepted_iff lz4External_roundTrip hframe']
    decide +kernel

end Wire

end Logjet
