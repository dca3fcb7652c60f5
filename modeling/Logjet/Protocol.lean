/-
The wire protocol (protocol.rs): one frame a record. The wire payload is
the record's, or its length and an LZ4 block where that is asked for and
smaller. A reader's state is what is left of the stream.
-/
import Logjet.Format
import Logjet.Lib.ByteReader

namespace Logjet

open LittleEndian

namespace Wire

def wireMagic : Bytes := [76, 74, 78, 69, 84, 86, 48, 49]

def wireVersion : UInt8 := 1

variable (x : External)

def payloadTooLarge : IoError := ⟨.invalidInput, "payload too large for wire protocol"⟩

def wireLen (n : Nat) : Except IoError UInt32 :=
  if n < 2 ^ 32 then .ok (.ofNat n) else .error payloadTooLarge

def wirePayloadOf (payload : Bytes) (compress : Bool) : Except IoError (UInt8 × Bytes) :=
  if compress then
    let compressed := x.lz4Compress payload
    if compressed.length < payload.length then do
      let uncompressedLen ← wireLen payload.length
      return (1, u32 uncompressedLen ++ compressed)
    else .ok (0, payload)
  else .ok (0, payload)

def wireHeader (record : WireRecord) (codec : UInt8) (payloadLen : UInt32) : Bytes :=
  [wireVersion, record.recordType.toU8, codec, 0] ++ u64 record.seq
    ++ u64 record.tsUnixNs ++ u32 payloadLen

def writeRecord (record : WireRecord) (compress : Bool) : Except IoError Bytes := do
  let (codec, wirePayload) ← wirePayloadOf x record.payload compress
  let payloadLen ← wireLen wirePayload.length
  let header := wireHeader record codec payloadLen
  return wireMagic ++ header ++ wirePayload ++ u32 (x.crc32c (header ++ wirePayload))

def readExact (n : Nat) : EStateM IoError Bytes Bytes :=
  ByteReader.readExact ⟨.unexpectedEof, "failed to fill whole buffer"⟩ n

def decodeWirePayload (codec : UInt8) (wirePayload : Bytes) : Except IoError Bytes :=
  match codec with
  | 0 => .ok wirePayload
  | 1 =>
    if wirePayload.length < 4 then
      .error ⟨.invalidData, "LZ4 wire payload too short for uncompressed length"⟩
    else
      match x.lz4Decompress (wirePayload.drop 4) (toU32 wirePayload).toNat with
      | .ok payload => .ok payload
      | .error err => .error ⟨.invalidData, "LZ4 decompress failed: " ++ err⟩
  | other => .error ⟨.invalidData, s!"unknown wire codec: {other}"⟩

def wireRecordType (value : UInt8) : Except IoError RecordType :=
  match RecordType.fromU8 value with
  | .ok recordType => .ok recordType
  | .error err => .error ⟨.invalidData, "invalid wire record type: " ++ err.display⟩

def readFrameAfter (maxPayloadLen : Nat) (magic : Bytes) : EStateM IoError Bytes WireRecord := do
  EStateM.ofExcept (Except.ensure (magic = wireMagic) ⟨.invalidData, "invalid wire protocol magic"⟩)
  let header ← readExact 24
  EStateM.ofExcept (Except.ensure (header.getD 0 0 = wireVersion) ⟨.invalidData,
      s!"unsupported wire protocol version: {header.getD 0 0}"⟩)
  let recordType ← EStateM.ofExcept (wireRecordType (header.getD 1 0))
  let payloadLen := (toU32 (header.drop 20)).toNat
  EStateM.ofExcept (Except.ensure (payloadLen ≤ maxPayloadLen) ⟨.invalidData,
      s!"wire payload too large: {payloadLen} > {maxPayloadLen}"⟩)
  let wirePayload ← readExact payloadLen
  let crcBytes ← readExact 4
  let actualCrc := x.crc32c (header ++ wirePayload)
  EStateM.ofExcept (Except.ensure (actualCrc = toU32 crcBytes)
    ⟨.invalidData, "wire record CRC32C mismatch: expected "
      ++ hex32 (toU32 crcBytes) ++ ", got " ++ hex32 actualCrc⟩)
  let payload ← EStateM.ofExcept (decodeWirePayload x (header.getD 2 0) wirePayload)
  return { recordType, seq := toU64 (header.drop 4)
           tsUnixNs := toU64 (header.drop 12), payload }

def readRecordWithLimit (maxPayloadLen : Nat) : EStateM IoError Bytes (Option WireRecord) := do
  match ← EStateM.attempt (readExact 8) with
  | .ok magic => return some (← readFrameAfter x maxPayloadLen magic)
  | .error err => if err.kind = .unexpectedEof then return none else throw err

def readRecord : EStateM IoError Bytes (Option WireRecord) := readRecordWithLimit x (2 ^ 64 - 1)

theorem leaves_readFrameAfter (maxPayloadLen : Nat) (magic : Bytes) :
    ByteReader.Leaves (readFrameAfter x maxPayloadLen magic) := by
  refine (ByteReader.leaves_ofExcept _).bind fun _ => ?_
  refine (ByteReader.leaves_readExact _ _).bind fun header => ?_
  refine (ByteReader.leaves_ofExcept _).bind fun _ => ?_
  refine (ByteReader.leaves_ofExcept _).bind fun recordType => ?_
  refine (ByteReader.leaves_ofExcept _).bind fun _ => ?_
  refine (ByteReader.leaves_readExact _ _).bind fun wirePayload => ?_
  refine (ByteReader.leaves_readExact _ _).bind fun crcBytes => ?_
  refine (ByteReader.leaves_ofExcept _).bind fun _ => ?_
  refine (ByteReader.leaves_ofExcept _).bind fun payload => ?_
  exact ByteReader.leaves_pure _

theorem readRecordWithLimit_shorter {maxPayloadLen : Nat} {input rest : Bytes} {record : WireRecord}
    (h : readRecordWithLimit x maxPayloadLen input = .ok (some record) rest) :
    rest.length < input.length := by
  obtain ⟨result, behind, hmagic, h⟩ := EStateM.bind_eq_ok_iff.mp h
  unfold EStateM.attempt readExact ByteReader.readExact at hmagic
  by_cases hshort : input.length < 8
  · rw [if_pos hshort] at hmagic
    cases hmagic
    cases h
  · rw [if_neg hshort] at hmagic
    cases hmagic
    obtain ⟨record', mid, hframe, h⟩ := EStateM.bind_eq_ok_iff.mp h
    cases h
    have hle := (leaves_readFrameAfter x _ _ _ _ _ hframe).length_le
    rw [List.length_drop] at hle
    omega

def readRecords (maxPayloadLen : Nat) (input : Bytes) : List WireRecord × Option IoError :=
  match _hread : readRecordWithLimit x maxPayloadLen input with
  | .ok (some record) rest =>
    let (records, err) := readRecords maxPayloadLen rest
    (record :: records, err)
  | .ok none _ => ([], none)
  | .error err _ => ([], some err)
termination_by input.length
decreasing_by exact readRecordWithLimit_shorter x _hread

def writeRecords : List (WireRecord × Bool) → Except IoError Bytes
  | [] => .ok []
  | (record, compress) :: entries => do
      let frame ← writeRecord x record compress
      let frames ← writeRecords entries
      return frame ++ frames

end Wire

end Logjet
