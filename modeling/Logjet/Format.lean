/-
The `.logjet` container: record types, codecs, errors and the block
header (src/src/record.rs, codec.rs, error.rs, format.rs, crc.rs). The crates
for checksum and compression are functions (`External`), of which at most
`External.RoundTrip` is assumed. A `usize` is a `Nat`, with the source's checks.
-/
import Logjet.Lib.LittleEndian
import Logjet.Lib.Result

namespace Logjet

abbrev Bytes := List UInt8

/-- `saturating_add(1)` of a u64. -/
def saturatingSucc (n : UInt64) : UInt64 := if n.toNat + 1 < 2 ^ 64 then n + 1 else n

theorem toNat_saturatingSucc (n : UInt64) :
    (saturatingSucc n).toNat = min (2 ^ 64 - 1) (n.toNat + 1) := by
  have hn := n.toNat_lt
  unfold saturatingSucc
  split
  · rename_i hroom
    rw [UInt64.toNat_add, UInt64.toNat_one, Nat.mod_eq_of_lt hroom]
    omega
  · omega

/-- `saturating_sub` of two u64. -/
def saturatingSub (a b : UInt64) : UInt64 := if b ≤ a then a - b else 0

inductive ErrorKind
  | unexpectedEof
  | notFound
  | alreadyExists
  | fileTooLarge
  | invalidData
  | invalidInput
  | timedOut
  | brokenPipe
  | other
  deriving DecidableEq, Repr

structure IoError where
  kind : ErrorKind
  message : String
  deriving DecidableEq, Repr

inductive Error
  | io (err : IoError)
  | invalidRecordType (value : UInt8)
  | unknownCodec (value : UInt8)
  | unknownVersion (value : UInt8)
  | headerTooShort (value : UInt16)
  | headerCrcMismatch (expected actual : UInt32)
  | blockCrcMismatch (expected actual : UInt32)
  | lengthTooLarge (field : String) (value limit : Nat)
  | invalidHeader (msg : String)
  | truncated (msg : String)
  | varintTooLong
  | numericOverflow (field : String)
  | codec (msg : String)
  deriving DecidableEq, Repr

def hex32 (v : UInt32) : String :=
  let digits := Nat.toDigits 16 v.toNat
  "0x" ++ String.ofList (List.replicate (8 - digits.length) '0' ++ digits)

def Error.display : Error → String
  | .io err => "io error: " ++ err.message
  | .invalidRecordType value => s!"invalid record type: {value}"
  | .unknownCodec value => s!"unknown codec: {value}"
  | .unknownVersion value => s!"unknown version: {value}"
  | .headerTooShort value => s!"header too short: {value}"
  | .headerCrcMismatch expected actual =>
    "header crc mismatch: expected " ++ hex32 expected ++ ", got " ++ hex32 actual
  | .blockCrcMismatch expected actual =>
    "block crc mismatch: expected " ++ hex32 expected ++ ", got " ++ hex32 actual
  | .lengthTooLarge field value limit => s!"{field} too large: {value} > {limit}"
  | .invalidHeader msg => "invalid header: " ++ msg
  | .truncated msg => "truncated data: " ++ msg
  | .varintTooLong => "varint too long"
  | .numericOverflow field => "numeric overflow: " ++ field
  | .codec msg => "codec error: " ++ msg

def checkedAdd (field : String) (a : UInt64) (b : Nat) : Except Error UInt64 :=
  if a.toNat + b < 2 ^ 64 then .ok (UInt64.ofNat (a.toNat + b))
  else .error (.numericOverflow field)

theorem checkedAdd_ok {field : String} {a : UInt64} {b : Nat} (h : a.toNat + b < 2 ^ 64) :
    ∃ s : UInt64, checkedAdd field a b = .ok s ∧ s.toNat = a.toNat + b :=
  ⟨UInt64.ofNat (a.toNat + b), if_pos h, UInt64.toNat_ofNat_of_lt h⟩

inductive RecordType
  | logs
  | metrics
  | traces
  | events
  deriving DecidableEq, Repr

def RecordType.toU8 : RecordType → UInt8
  | .logs => 1
  | .metrics => 2
  | .traces => 3
  | .events => 4

def RecordType.fromU8 (value : UInt8) : Except Error RecordType :=
  match value with
  | 1 => .ok .logs
  | 2 => .ok .metrics
  | 3 => .ok .traces
  | 4 => .ok .events
  | other => .error (.invalidRecordType other)

@[simp] theorem RecordType.fromU8_toU8 (t : RecordType) : RecordType.fromU8 t.toU8 = .ok t := by
  cases t <;> rfl

structure OwnedRecord where
  recordType : RecordType
  seq : UInt64
  tsUnixNs : UInt64
  payload : Bytes
  deriving DecidableEq, Repr

abbrev WireRecord := OwnedRecord

inductive Codec
  | none
  | lz4
  | zstd
  deriving DecidableEq, Repr

def Codec.toU8 : Codec → UInt8
  | .none => 0
  | .lz4 => 1
  | .zstd => 2

def Codec.fromU8 (value : UInt8) : Except Error Codec :=
  match value with
  | 0 => .ok .none
  | 1 => .ok .lz4
  | 2 => .ok .zstd
  | other => .error (.unknownCodec other)

@[simp] theorem Codec.fromU8_toU8 (c : Codec) : Codec.fromU8 c.toU8 = .ok c := by cases c <;> rfl

structure External where
  crc32c : Bytes → UInt32
  lz4Compress : Bytes → Bytes
  lz4Decompress : Bytes → Nat → Except String Bytes
  zstdCompress : Bytes → Except String Bytes
  zstdDecompress : Bytes → Nat → Except String Bytes

structure External.RoundTrip (x : External) : Prop where
  lz4 : ∀ input, x.lz4Decompress (x.lz4Compress input) input.length = .ok input
  zstd : ∀ input output, x.zstdCompress input = .ok output →
    x.zstdDecompress output input.length = .ok input

variable (x : External)

def Codec.compress (c : Codec) (input : Bytes) : Except Error Bytes :=
  match c with
  | .none => .ok input
  | .lz4 => .ok (x.lz4Compress input)
  | .zstd =>
    match x.zstdCompress input with
    | .ok compressed => .ok compressed
    | .error err => .error (.codec err)

def Codec.decompress (c : Codec) (input : Bytes) (expectedLen : Nat) : Except Error Bytes :=
  match c with
  | .none =>
    if input.length ≠ expectedLen then
      .error (.invalidHeader "raw payload length mismatch")
    else .ok input
  | .lz4 =>
    match x.lz4Decompress input expectedLen with
    | .ok decoded =>
      if decoded.length ≠ expectedLen then
        .error (.codec (s!"LZ4 decompressed {decoded.length} bytes, "
          ++ s!"expected {expectedLen}"))
      else .ok decoded
    | .error err => .error (.codec err)
  | .zstd =>
    match x.zstdDecompress input expectedLen with
    | .ok decoded => .ok decoded
    | .error err => .error (.codec err)

theorem Codec.decompress_compress {x : External} (hx : x.RoundTrip)
    {c : Codec} {input output : Bytes} (h : c.compress x input = .ok output) :
    c.decompress x output input.length = .ok input := by
  cases c with
  | none =>
    simp only [Codec.compress, Except.ok.injEq] at h
    subst h
    simp [Codec.decompress]
  | lz4 =>
    simp only [Codec.compress, Except.ok.injEq] at h
    subst h
    simp [Codec.decompress, hx.lz4 input]
  | zstd =>
    cases hz : x.zstdCompress input with
    | error err => simp [Codec.compress, hz] at h
    | ok compressed =>
      simp only [Codec.compress, hz, Except.ok.injEq] at h
      subst h
      simp [Codec.decompress, hx.zstd input compressed hz]

def formatVersion : UInt8 := 1

def defaultSyncMarker : Vector UInt8 8 := #v[79, 84, 76, 80, 66, 76, 75, 33]

def defaultBlockTargetSize : Nat := 64 * 1024
def defaultMaxBlockSize : Nat := 16 * 1024 * 1024
def blockHeaderFixedLen : Nat := 24
def blockHeaderExtLen : Nat := 16
def blockHeaderTotalLen : Nat := blockHeaderFixedLen + blockHeaderExtLen

structure BlockHeader where
  version : UInt8
  codec : Codec
  flags : UInt16
  headerLen : UInt16
  reserved : UInt16
  uncompressedLen : UInt32
  compressedLen : UInt32
  recordCount : UInt32
  headerCrc32c : UInt32
  deriving DecidableEq, Repr

structure BlockHeaderExt where
  baseSeq : UInt64
  baseTsUnixNs : UInt64
  deriving DecidableEq, Repr

open LittleEndian

def BlockHeader.encodeWithoutCrc (h : BlockHeader) : Bytes :=
  [h.version, h.codec.toU8] ++ u16 h.flags ++ u16 h.headerLen
    ++ u16 h.reserved ++ u32 h.uncompressedLen ++ u32 h.compressedLen ++ u32 h.recordCount

def BlockHeader.encode (h : BlockHeader) : Bytes := h.encodeWithoutCrc ++ u32 h.headerCrc32c

def BlockHeader.decode (bytes : Bytes) : Except Error BlockHeader := do
  Except.ensure (blockHeaderFixedLen ≤ bytes.length) (.truncated "block header")
  let version := bytes.headD 0
  Except.ensure (version = formatVersion) (.unknownVersion version)
  let codec ← Codec.fromU8 ((bytes.drop 1).headD 0)
  return {
    version := version
    codec := codec
    flags := toU16 (bytes.drop 2)
    headerLen := toU16 (bytes.drop 4)
    reserved := toU16 (bytes.drop 6)
    uncompressedLen := toU32 (bytes.drop 8)
    compressedLen := toU32 (bytes.drop 12)
    recordCount := toU32 (bytes.drop 16)
    headerCrc32c := toU32 (bytes.drop 20) }

def BlockHeader.computeHeaderCrc (h : BlockHeader) (extBytes : Bytes) : UInt32 :=
  x.crc32c (h.encodeWithoutCrc ++ extBytes)

def BlockHeaderExt.encode (base : BlockHeaderExt) : Bytes :=
  u64 base.baseSeq ++ u64 base.baseTsUnixNs

def BlockHeaderExt.decode (bytes : Bytes) : Except Error BlockHeaderExt := do
  Except.ensure (blockHeaderExtLen ≤ bytes.length) (.truncated "block header extension")
  return {
    baseSeq := toU64 bytes
    baseTsUnixNs := toU64 (bytes.drop 8) }

@[simp] theorem BlockHeader.encodeWithoutCrc_length (h : BlockHeader) :
    h.encodeWithoutCrc.length = 20 := by simp [BlockHeader.encodeWithoutCrc]

@[simp] theorem BlockHeader.encode_length (h : BlockHeader) : h.encode.length = 24 := by
  simp [BlockHeader.encode]

@[simp] theorem BlockHeaderExt.encode_length (base : BlockHeaderExt) : base.encode.length = 16 := by
  simp [BlockHeaderExt.encode]

theorem BlockHeader.decode_encode {h : BlockHeader} (hv : h.version = formatVersion) :
    BlockHeader.decode h.encode = .ok h := by
  have hlen : blockHeaderFixedLen ≤ h.encode.length := by simp [blockHeaderFixedLen]
  obtain ⟨version, codec, flags, headerLen, reserved, ulen, clen, count, crc⟩ := h
  subst hv
  unfold BlockHeader.decode
  rw [Except.ensure_true hlen]
  simp [BlockHeader.encode, BlockHeader.encodeWithoutCrc, List.drop_append,
    List.append_assoc, List.drop_of_length_le, Except.ensure]

theorem BlockHeaderExt.decode_encode (base : BlockHeaderExt) :
    BlockHeaderExt.decode base.encode = .ok base := by
  have hlen : blockHeaderExtLen ≤ base.encode.length := by simp [blockHeaderExtLen]
  unfold BlockHeaderExt.decode
  rw [Except.ensure_true hlen]
  simp [BlockHeaderExt.encode]

end Logjet
