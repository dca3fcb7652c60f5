/-
Frames are read back as they were written, and a stream that ends inside one
is noticed unless it ends inside the magic.
-/
import Logjet.Protocol
import Logjet.Reference

namespace Logjet

open List ByteReader LittleEndian Reference Except

namespace Wire

variable {x : External}

theorem wireLen_eq_ok {n : Nat} {len : UInt32} (h : wireLen n = .ok len) : len.toNat = n := by
  unfold wireLen at h
  split at h
  case isTrue hlt =>
    cases h
    exact UInt32.toNat_ofNat_of_lt' hlt
  case isFalse => cases h

theorem wireHeader_length (record : WireRecord) (codec : UInt8) (payloadLen : UInt32) :
    (wireHeader record codec payloadLen).length = 24 := by simp [wireHeader]

variable {wirePayload input rest : Bytes} {compress : Bool} {codec : UInt8} {record : WireRecord}
  {maxPayloadLen : Nat}

theorem decodeWirePayload_of (hlz4 : ∀ input,
      x.lz4Decompress (x.lz4Compress input) input.length = .ok input) {payload : Bytes}
    (h : wirePayloadOf x payload compress = .ok (codec, wirePayload)) :
    decodeWirePayload x codec wirePayload = .ok payload := by
  unfold wirePayloadOf at h
  split at h
  case isFalse =>
    cases h
    rfl
  case isTrue =>
    dsimp only at h
    split at h
    case isFalse =>
      cases h
      rfl
    case isTrue =>
      obtain ⟨len, hlen, h⟩ := bind_eq_ok_iff.mp h
      cases h
      have hle : ¬ (u32 len ++ x.lz4Compress payload).length < 4 := by simp
      simp only [decodeWirePayload, if_neg hle, toU32_u32,
        drop_left' (u32_length len), wireLen_eq_ok hlen, hlz4]

theorem wireHeader_fields (record : WireRecord) (codec : UInt8) (payloadLen : UInt32) :
    (wireHeader record codec payloadLen).getD 0 0 = wireVersion
      ∧ (wireHeader record codec payloadLen).getD 1 0 = record.recordType.toU8
      ∧ (wireHeader record codec payloadLen).getD 2 0 = codec
      ∧ toU64 ((wireHeader record codec payloadLen).drop 4) = record.seq
      ∧ toU64 ((wireHeader record codec payloadLen).drop 12) = record.tsUnixNs
      ∧ toU32 ((wireHeader record codec payloadLen).drop 20) = payloadLen := by
  exact ⟨rfl, rfl, rfl, toU64_u64 _ _, toU64_u64 _ _, toU32_u32_self _⟩

theorem writeRecord_eq_ok {frame : Bytes} (h : writeRecord x record compress = .ok frame) :
    ∃ codec wirePayload payloadLen,
      wirePayloadOf x record.payload compress = .ok (codec, wirePayload)
        ∧ payloadLen.toNat = wirePayload.length
        ∧ frame = wireMagic ++ (wireHeader record codec payloadLen ++ (wirePayload ++ u32 (x.crc32c
            (wireHeader record codec payloadLen ++ wirePayload)))) := by
  obtain ⟨⟨codec, wirePayload⟩, hpayload, h⟩ := bind_eq_ok_iff.mp h
  obtain ⟨payloadLen, hlen, h⟩ := bind_eq_ok_iff.mp h
  cases h
  refine ⟨codec, wirePayload, payloadLen, hpayload, wireLen_eq_ok hlen, ?_⟩
  simp only [append_assoc]

theorem takes_frame (hlz4 : ∀ input, x.lz4Decompress (x.lz4Compress input) input.length = .ok input)
    {payloadLen : UInt32}
    (hpayload : wirePayloadOf x record.payload compress = .ok (codec, wirePayload))
    (hlen : payloadLen.toNat = wirePayload.length) (hmax : wirePayload.length ≤ maxPayloadLen) :
    Takes (readFrameAfter x maxPayloadLen wireMagic)
      (wireHeader record codec payloadLen ++ (wirePayload ++ u32 (x.crc32c
        (wireHeader record codec payloadLen ++ wirePayload)))) record := by
  obtain ⟨hversion, htype, hcodec, hseq, hts, hpayloadLen⟩ :=
    wireHeader_fields record codec payloadLen
  apply (takes_ensure rfl).check
  apply (takes_readExact _ (wireHeader_length ..)).bind
  apply (takes_ensure hversion).check
  apply (takes_ofExcept (v := record.recordType) (by
    rw [htype, wireRecordType, RecordType.fromU8_toU8])).check
  rw [hpayloadLen, hlen]
  apply (takes_ensure hmax).check
  apply (takes_readExact _ rfl).bind
  apply (takes_readExact _ (u32_length _)).bind
  apply (takes_ensure (toU32_u32_self _).symm).check
  apply (takes_ofExcept (v := record.payload) (by
    exact decodeWirePayload_of hlz4 hpayload)).check
  rw [hseq, hts]
  exact takes_pure _

theorem readRecordWithLimit_magic (maxPayloadLen : Nat) {magic : Bytes}
    (h : magic.length = 8) (rest : Bytes) : readRecordWithLimit x maxPayloadLen (magic ++ rest)
      = (do return some (← readFrameAfter x maxPayloadLen magic)) rest := by
  have hread : EStateM.attempt (readExact 8) (magic ++ rest) = .ok (.ok magic) rest := by
    rw [EStateM.attempt, readExact, (takes_readExact _ h).whole]
  rw [readRecordWithLimit, EStateM.bind_of_ok hread]

theorem readRecordWithLimit_end (maxPayloadLen : Nat) (h : input.length < 8) :
    readRecordWithLimit x maxPayloadLen input = .ok none [] := by
  have hread : EStateM.attempt (readExact 8) input
      = .ok (.error ⟨.unexpectedEof, "failed to fill whole buffer"⟩) [] := by
    rw [EStateM.attempt, readExact, ByteReader.readExact, if_pos h]
  rw [readRecordWithLimit, EStateM.bind_of_ok hread]
  rfl

section Frame

variable (hlz4 : ∀ input, x.lz4Decompress (x.lz4Compress input) input.length = .ok input)
  {record : WireRecord} {compress : Bool} {frame : Bytes}

include hlz4

theorem exists_takes (h : writeRecord x record compress = .ok frame)
    (maxPayloadLen : Nat) (hmax : 2 ^ 32 ≤ maxPayloadLen + 1) :
    ∃ behind, frame = wireMagic ++ behind
      ∧ Takes (readFrameAfter x maxPayloadLen wireMagic) behind record := by
  obtain ⟨codec, wirePayload, payloadLen, hpayload, hlen, rfl⟩ := writeRecord_eq_ok h
  refine ⟨_, rfl, takes_frame hlz4 hpayload hlen ?_⟩
  have hlt := payloadLen.toNat_lt
  omega

theorem readRecord_frame (h : writeRecord x record compress = .ok frame) (rest : Bytes) :
    readRecord x (frame ++ rest) = .ok (some record) rest := by
  obtain ⟨behind, rfl, htakes⟩ := exists_takes hlz4 h (2 ^ 64 - 1) (by decide)
  rw [readRecord, append_assoc, readRecordWithLimit_magic _ rfl,
    EStateM.bind_of_ok (htakes.whole rest)]
  rfl

theorem readRecord_cut (h : writeRecord x record compress = .ok frame)
    {cut : Bytes} (hcut : cut <+: frame) (hne : cut ≠ frame) (hmagic : 8 ≤ cut.length) :
    ∃ err rest, readRecord x cut = .error err rest := by
  obtain ⟨behind, rfl, htakes⟩ := exists_takes hlz4 h (2 ^ 64 - 1) (by decide)
  rcases cut_append hcut hne with ⟨hshort, hshort'⟩ | ⟨cut', rfl, hcut', hne'⟩
  · exact absurd (hshort.eq_of_length_le hmagic) hshort'
  · obtain ⟨err, rest, herr⟩ := htakes.short cut' hcut' hne'
    refine ⟨err, rest, ?_⟩
    rw [readRecord, readRecordWithLimit_magic _ rfl, EStateM.bind_of_error herr]

end Frame

theorem readRecords_of_some
    (h : readRecordWithLimit x maxPayloadLen input = .ok (some record) rest) :
    readRecords x maxPayloadLen input = (record :: (readRecords x maxPayloadLen rest).1,
        (readRecords x maxPayloadLen rest).2) := by
  rw [readRecords]
  split
  case h_1 heq =>
    rw [h] at heq
    cases heq
    rfl
  case h_2 heq => rw [h] at heq; cases heq
  case h_3 heq => rw [h] at heq; cases heq

theorem readRecords_of_none (h : readRecordWithLimit x maxPayloadLen input = .ok none rest) :
    readRecords x maxPayloadLen input = ([], none) := by
  rw [readRecords]
  split
  case h_1 heq => rw [h] at heq; cases heq
  case h_2 => rfl
  case h_3 heq => rw [h] at heq; cases heq

theorem readRecords_of_error {err : IoError}
    (h : readRecordWithLimit x maxPayloadLen input = .error err rest) :
    readRecords x maxPayloadLen input = ([], some err) := by
  rw [readRecords]
  split
  case h_1 heq => rw [h] at heq; cases heq
  case h_2 heq => rw [h] at heq; cases heq
  case h_3 heq =>
    rw [h] at heq
    cases heq
    rfl

theorem readRecords_append (hlz4 : ∀ input,
      x.lz4Decompress (x.lz4Compress input) input.length = .ok input)
    {entries : List (WireRecord × Bool)} {frames : Bytes}
    (h : writeRecords x entries = .ok frames) (rest : Bytes) :
    readRecords x (2 ^ 64 - 1) (frames ++ rest)
      = (entries.map Prod.fst ++ (readRecords x (2 ^ 64 - 1) rest).1,
        (readRecords x (2 ^ 64 - 1) rest).2) := by
  induction entries generalizing frames with
  | nil =>
    cases h
    rfl
  | cons entry entries ih =>
    obtain ⟨frame, hframe, h⟩ := bind_eq_ok_iff.mp h
    obtain ⟨frames', hframes, h⟩ := bind_eq_ok_iff.mp h
    cases h
    rw [append_assoc, readRecords_of_some (readRecord_frame hlz4 hframe _), ih hframes]
    rfl

/-- A stream of frames reads back to the records written. -/
theorem stream_of_frames_round_trip (x : External) (hlz4 : ∀ input,
      x.lz4Decompress (x.lz4Compress input) input.length = .ok input)
    {entries : List (WireRecord × Bool)} {frames : Bytes}
    (h : writeRecords x entries = .ok frames) :
    readRecords x (2 ^ 64 - 1) frames = (entries.map Prod.fst, none) := by
  have hend : readRecords x (2 ^ 64 - 1) [] = ([], none) :=
    readRecords_of_none (readRecordWithLimit_end _ (by decide))
  have hread := readRecords_append hlz4 h []
  rw [append_nil, hend, append_nil] at hread
  exact hread

def zeroLog : WireRecord :=
  { recordType := .logs, seq := 1, tsUnixNs := 5
    payload := List.replicate 40 0 }

def shortMetric : WireRecord :=
  { recordType := .metrics, seq := 2, tsUnixNs := 6, payload := [1, 2] }

theorem stream_of_frames_round_trip_mixed : ∃ frames,
    writeRecords external [(zeroLog, true), (shortMetric, true)] = .ok frames
      ∧ readRecords external (2 ^ 64 - 1) frames = ([zeroLog, shortMetric], none) := by
  have hwrite : (writeRecords external [(zeroLog, true), (shortMetric, true)]).okAnd (fun _ => true)
      = true := by decide +kernel
  obtain ⟨frames, hframes, -⟩ := okAnd_eq_true.mp hwrite
  exact ⟨frames, hframes, stream_of_frames_round_trip external external_roundTrip.lz4 hframes⟩

/-- A cut frame is an error iff its magic was read whole. -/
theorem cut_stream_fails_iff (x : External) (hlz4 : ∀ input,
      x.lz4Decompress (x.lz4Compress input) input.length = .ok input)
    {entries : List (WireRecord × Bool)} {frames : Bytes}
    (h : writeRecords x entries = .ok frames) {record : WireRecord}
    {compress : Bool} {frame : Bytes}
    (hframe : writeRecord x record compress = .ok frame) {cut : Bytes}
    (hcut : cut <+: frame) (hproper : cut ≠ frame) :
    (∃ err, readRecords x (2 ^ 64 - 1) (frames ++ cut) = (entries.map Prod.fst, some err))
      ↔ 8 ≤ cut.length := by
  rw [readRecords_append hlz4 h]
  constructor
  · intro ⟨err, hread⟩
    rcases Nat.lt_or_ge cut.length 8 with hshort | hlong
    · rw [readRecords_of_none (readRecordWithLimit_end _ hshort)] at hread
      cases (Prod.mk.inj hread).2
    · exact hlong
  · intro hlong
    obtain ⟨err, rest, herr⟩ := readRecord_cut hlz4 hframe hcut hproper hlong
    rw [readRecords_of_error herr]
    exact ⟨err, by rw [append_nil]⟩

theorem cut_stream_fails_in_crc : ∃ frames frame,
    writeRecords external [(zeroLog, true)] = .ok frames
      ∧ writeRecord external shortMetric false = .ok frame ∧ frame.length = 38
      ∧ ((∃ err, readRecords external (2 ^ 64 - 1) (frames ++ frame.take 36)
          = ([zeroLog], some err)) ↔ 8 ≤ (frame.take 36).length) := by
  have hwrite : (writeRecords external [(zeroLog, true)]).okAnd (fun _ =>
      (writeRecord external shortMetric false).okAnd fun frame =>
        decide (frame.length = 38 ∧ frame.take 36 ≠ frame)) = true := by
    decide +kernel
  obtain ⟨frames, hframes, h⟩ := okAnd_eq_true.mp hwrite
  obtain ⟨frame, hframe, h⟩ := okAnd_eq_true.mp h
  obtain ⟨hlength, hproper⟩ := of_decide_eq_true h
  have hcut : frame.take 36 <+: frame := take_prefix _ _
  exact ⟨frames, frame, hframes, hframe, hlength,
    cut_stream_fails_iff external external_roundTrip.lz4 hframes hframe hcut hproper⟩

theorem cut_in_magic_ends_stream : ∃ frames frame,
    writeRecords external [(zeroLog, true)] = .ok frames
      ∧ writeRecord external shortMetric false = .ok frame
      ∧ frame.take 7 ≠ [] ∧ frame.take 7 ≠ frame
      ∧ readRecords external (2 ^ 64 - 1) (frames ++ frame.take 7) = ([zeroLog], none) := by
  have hwrite : (writeRecords external [(zeroLog, true)]).okAnd (fun _ =>
      (writeRecord external shortMetric false).okAnd fun frame =>
        decide (frame.take 7 ≠ [] ∧ frame.take 7 ≠ frame ∧ (frame.take 7).length < 8)) = true := by
    decide +kernel
  obtain ⟨frames, hframes, h⟩ := okAnd_eq_true.mp hwrite
  obtain ⟨frame, hframe, h⟩ := okAnd_eq_true.mp h
  obtain ⟨hne, hproper, hshort⟩ := of_decide_eq_true h
  refine ⟨frames, frame, hframes, hframe, hne, hproper, ?_⟩
  rw [readRecords_append external_roundTrip.lz4 hframes,
    readRecords_of_none (readRecordWithLimit_end _ hshort)]
  rfl

end Wire

end Logjet
