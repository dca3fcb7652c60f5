/-
The block writer (src/src/writer.rs): records are delta-encoded into
`payload_buf`, and a block is cut when the next record would overflow
`block_target_size`, when the buffer has reached it, or on demand. A method
is an action of `EStateM`, which keeps what was changed before an error.
-/
import Logjet.Format

namespace Logjet

open LittleEndian

class Sink (W : Type) where
  writeAll : Bytes → EStateM IoError W Unit

instance : Sink (List Bytes) where
  writeAll buf := modify (· ++ [buf])

structure WriterConfig where
  blockTargetSize : Nat
  codec : Codec
  syncMarker : Vector UInt8 8
  blockAlignment : Nat
  deriving DecidableEq, Repr

def WriterConfig.default : WriterConfig :=
  { blockTargetSize := defaultBlockTargetSize, codec := .lz4,
    syncMarker := defaultSyncMarker, blockAlignment := 0 }

structure LogjetWriter (W : Type) where
  inner : W
  config : WriterConfig
  payloadBuf : Bytes
  blockBaseSeq : Option UInt64
  blockBaseTsUnixNs : Option UInt64
  recordCount : UInt32
  deriving DecidableEq, Repr

variable {W : Type}

def LogjetWriter.withConfig (inner : W) (config : WriterConfig) : LogjetWriter W :=
  { inner, config, payloadBuf := [], blockBaseSeq := none,
    blockBaseTsUnixNs := none, recordCount := 0 }

def LogjetWriter.inMemory (config : WriterConfig) : LogjetWriter (List Bytes) :=
  .withConfig [] config

def LogjetWriter.pendingBytes (w : LogjetWriter W) : Nat := w.payloadBuf.length

def encodeVarint (value : UInt64) : Bytes :=
  if value ≥ 0x80 then
    ((value &&& 0x7f).toUInt8 ||| 0x80) :: encodeVarint (value >>> 7)
  else [value.toUInt8]
termination_by value.toNat
decreasing_by
  rename_i h
  have hge : 128 ≤ value.toNat := UInt64.le_iff_toNat_le.mp h
  have hshift : (value >>> 7).toNat = value.toNat / 128 := by
    rw [UInt64.toNat_shiftRight, Nat.shiftRight_eq_div_pow]
    rfl
  omega

def encodeRecord (recordType : RecordType) (seqDelta tsDelta : UInt64) (payload : Bytes) : Bytes :=
  [recordType.toU8] ++ encodeVarint seqDelta ++ encodeVarint tsDelta
    ++ encodeVarint (UInt64.ofNat payload.length) ++ payload

def sealHeader (x : External) (codec : Codec)
    (uncompressedLen compressedLen recordCount : UInt32)
    (extBytes : Bytes) : BlockHeader :=
  let header : BlockHeader := {
    version := formatVersion
    codec := codec
    flags := 0
    headerLen := UInt16.ofNat blockHeaderTotalLen
    reserved := 0
    uncompressedLen := uncompressedLen
    compressedLen := compressedLen
    recordCount := recordCount
    headerCrc32c := 0 }
  { header with headerCrc32c := header.computeHeaderCrc x extBytes }

theorem sealHeader_crc (x : External) (codec : Codec)
    (uncompressedLen compressedLen recordCount : UInt32) (extBytes : Bytes) :
    (sealHeader x codec uncompressedLen compressedLen recordCount
        extBytes).computeHeaderCrc x extBytes
      = (sealHeader x codec uncompressedLen compressedLen recordCount extBytes).headerCrc32c := rfl

def assembleBlock (x : External) (marker : Vector UInt8 8)
    (header : BlockHeader) (extBytes compressed : Bytes) : Bytes :=
  let body := header.encode ++ extBytes ++ compressed
  marker.toList ++ body ++ u32 (x.crc32c body)

def buildBlock (x : External) (config : WriterConfig)
    (payloadBuf : Bytes) (baseSeq baseTs : Option UInt64)
    (recordCount : UInt32) : Except Error Bytes := do
  let baseSeq ← baseSeq.elim (.error (.invalidHeader "missing block base seq")) .ok
  let baseTs ← baseTs.elim (.error (.invalidHeader "missing block base ts")) .ok
  let compressed ← config.codec.compress x payloadBuf
  Except.ensure (payloadBuf.length < 2 ^ 32)
    (.lengthTooLarge "uncompressed_len" payloadBuf.length (2 ^ 32 - 1))
  Except.ensure (compressed.length < 2 ^ 32)
    (.lengthTooLarge "compressed_len" compressed.length (2 ^ 32 - 1))
  let extBytes := BlockHeaderExt.encode { baseSeq := baseSeq, baseTsUnixNs := baseTs }
  let header := sealHeader x config.codec (UInt32.ofNat payloadBuf.length)
    (UInt32.ofNat compressed.length) recordCount extBytes
  return assembleBlock x config.syncMarker header extBytes compressed

namespace LogjetWriter

variable [Sink W] (x : External)

def ensure (c : Prop) [Decidable c] (err : Error) : EStateM Error (LogjetWriter W) Unit :=
  EStateM.ofExcept (Except.ensure c err)

def writeInner (buf : Bytes) : EStateM Error (LogjetWriter W) Unit :=
  fun w =>
    match Sink.writeAll buf w.inner with
    | .ok () inner => .ok () { w with inner }
    | .error err inner => .error (.io err) { w with inner }

def resetBlockState (w : LogjetWriter W) : LogjetWriter W :=
  { w with payloadBuf := [], blockBaseSeq := none,
           blockBaseTsUnixNs := none, recordCount := 0 }

def padding (config : WriterConfig) (len : Nat) : Bytes :=
  if config.blockAlignment > 0 then
    let remainder := len % config.blockAlignment
    if remainder > 0 then
      List.replicate (config.blockAlignment - remainder) 0
    else []
  else []

def writePadding (zeroes : Bytes) : EStateM Error (LogjetWriter W) Unit :=
  if zeroes.isEmpty then pure () else writeInner zeroes

def flushBlock : EStateM Error (LogjetWriter W) Unit := do
  let self ← get
  if self.payloadBuf.isEmpty then
    return ()
  else
    let blockBuf ← EStateM.ofExcept (buildBlock x self.config
      self.payloadBuf self.blockBaseSeq self.blockBaseTsUnixNs self.recordCount)
    writeInner blockBuf
    writePadding (padding self.config blockBuf.length)
    modify resetBlockState

def takeBase (seq ts : UInt64) : EStateM Error (LogjetWriter W) (UInt64 × UInt64) := do
  let self ← get
  match self.blockBaseSeq, self.blockBaseTsUnixNs with
  | some baseSeq, some baseTs => return (baseSeq, baseTs)
  | _, _ =>
    set { self with blockBaseSeq := some seq, blockBaseTsUnixNs := some ts }
    return (seq, ts)

def encodeAgainstBase (record : OwnedRecord) : EStateM Error (LogjetWriter W) Bytes := do
  let (baseSeq, baseTs) ← takeBase record.seq record.tsUnixNs
  ensure (baseSeq ≤ record.seq) (.invalidHeader "sequence must be monotonic within block")
  ensure (baseTs ≤ record.tsUnixNs) (.invalidHeader "timestamp must be monotonic within block")
  ensure (record.payload.length < 2 ^ 64) (.numericOverflow "payload len")
  return encodeRecord record.recordType (record.seq - baseSeq)
    (record.tsUnixNs - baseTs) record.payload

def splitBlock (record : OwnedRecord) (encoded : Bytes) : EStateM Error (LogjetWriter W) Bytes := do
  let self ← get
  let projected := self.payloadBuf.length + encoded.length
  ensure (projected < 2 ^ 64) (.numericOverflow "payload buf growth")
  if !self.payloadBuf.isEmpty && projected > self.config.blockTargetSize
  then
    flushBlock x
    modify fun w => { w with blockBaseSeq := some record.seq,
                             blockBaseTsUnixNs := some record.tsUnixNs }
    return encodeRecord record.recordType 0 0 record.payload
  else
    return encoded

def appendEncoded (encoded : Bytes) : EStateM Error (LogjetWriter W) Unit := do
  modify fun w => { w with payloadBuf := w.payloadBuf ++ encoded }
  let self ← get
  ensure (self.recordCount.toNat + 1 < 2 ^ 32) (.numericOverflow "record_count")
  set { self with recordCount := self.recordCount + 1 }

def flushIfFull : EStateM Error (LogjetWriter W) Unit := do
  let self ← get
  if self.payloadBuf.length ≥ self.config.blockTargetSize then
    flushBlock x

def push (record : OwnedRecord) : EStateM Error (LogjetWriter W) Unit := do
  let encoded ← encodeAgainstBase record
  let encoded ← splitBlock x record encoded
  appendEncoded encoded
  flushIfFull x

def intoInner (w : LogjetWriter W) : Except Error W :=
  match flushBlock x w with
  | .ok () w => .ok w.inner
  | .error err _ => .error err

end LogjetWriter

inductive WriterOp
  | push (record : OwnedRecord)
  | flushBlock
  deriving DecidableEq, Repr

variable [Sink W] (x : External)

def WriterOp.run (op : WriterOp) (w : LogjetWriter W) : List OwnedRecord × LogjetWriter W :=
  match op with
  | .push record =>
    match LogjetWriter.push x record w with
    | .ok _ w' => ([record], w')
    | .error _ w' => ([], w')
  | .flushBlock =>
    match LogjetWriter.flushBlock x w with
    | .ok _ w' => ([], w')
    | .error _ w' => ([], w')

def failedMonotonic : Except Error Unit → Bool
  | .error (.invalidHeader msg) =>
    msg == "sequence must be monotonic within block"
      || msg == "timestamp must be monotonic within block"
  | _ => false

def runOps : List WriterOp → LogjetWriter W → List OwnedRecord × LogjetWriter W
  | [], w => ([], w)
  | op :: ops, w =>
    let (accepted, w') := op.run x w
    let (later, w'') := runOps ops w'
    (accepted ++ later, w'')

def pushAll : List OwnedRecord → EStateM Error (LogjetWriter W) Unit
  | [] => pure ()
  | record :: records => do
      LogjetWriter.push x record
      pushAll records

def writeChunks : List Bytes → EStateM IoError W Unit
  | [] => pure ()
  | chunk :: chunks => do
      Sink.writeAll chunk
      writeChunks chunks

end Logjet
