/-
The block writer with its scratch buffers (src/src/writer.rs), which
`LogjetWriter` leaves out.
-/
import Logjet.Writer

namespace Logjet

open LittleEndian

structure ScratchWriter (W : Type) extends LogjetWriter W where
  encodedRecordBuf : Bytes
  compressedBuf : Bytes
  blockBuf : Bytes
  deriving DecidableEq, Repr

namespace ScratchWriter

variable {W : Type}

def withConfig (inner : W) (config : WriterConfig) : ScratchWriter W :=
  { toLogjetWriter := .withConfig inner config
    encodedRecordBuf := [], compressedBuf := [], blockBuf := [] }

def onWriter {α : Type} (act : EStateM Error (LogjetWriter W) α) :
    EStateM Error (ScratchWriter W) α :=
  fun s =>
  match act s.toLogjetWriter with
  | .ok a w => .ok a { s with toLogjetWriter := w }
  | .error err w => .error err { s with toLogjetWriter := w }

def ensure (c : Prop) [Decidable c] (err : Error) : EStateM Error (ScratchWriter W) Unit :=
  EStateM.ofExcept (Except.ensure c err)

variable (x : External)

def compressPayload : EStateM Error (ScratchWriter W) Unit := do
  modify fun s => { s with compressedBuf := [] }
  let self ← get
  let compressed ← EStateM.ofExcept (self.config.codec.compress x self.payloadBuf)
  modify fun s => { s with compressedBuf := s.compressedBuf ++ compressed }

def pushBlock (bytes : Bytes) (s : ScratchWriter W) : ScratchWriter W :=
  { s with blockBuf := s.blockBuf ++ bytes }

def assemble (header : BlockHeader) (extBytes : Bytes) : EStateM Error (ScratchWriter W) Unit := do
  modify fun s => { s with blockBuf := [] }
  modify fun s => pushBlock s.config.syncMarker.toList s
  modify (pushBlock header.encode)
  modify (pushBlock extBytes)
  modify fun s => pushBlock s.compressedBuf s
  let self ← get
  let crc := x.crc32c (self.blockBuf.drop self.config.syncMarker.size)
  modify (pushBlock (u32 crc))

def resetBlockState (s : ScratchWriter W) : ScratchWriter W :=
  { s with toLogjetWriter := s.toLogjetWriter.resetBlockState,
           encodedRecordBuf := [], compressedBuf := [] }

def pushEncoded (bytes : Bytes) (s : ScratchWriter W) : ScratchWriter W :=
  { s with encodedRecordBuf := s.encodedRecordBuf ++ bytes }

def encodeInto (record : OwnedRecord) (seqDelta tsDelta : UInt64) :
    EStateM Error (ScratchWriter W) Unit := do
  modify (pushEncoded ([record.recordType.toU8] ++ encodeVarint seqDelta ++ encodeVarint tsDelta))
  ensure (record.payload.length < 2 ^ 64) (.numericOverflow "payload len")
  modify (pushEncoded (encodeVarint (UInt64.ofNat record.payload.length) ++ record.payload))

variable [Sink W]

def writeBlock : EStateM Error (ScratchWriter W) Unit := do
  let self ← get
  let baseSeq ← EStateM.ofExcept (self.blockBaseSeq.elim
    (.error (.invalidHeader "missing block base seq")) .ok)
  let baseTs ← EStateM.ofExcept (self.blockBaseTsUnixNs.elim
    (.error (.invalidHeader "missing block base ts")) .ok)
  compressPayload x
  let self ← get
  ensure (self.payloadBuf.length < 2 ^ 32) (.lengthTooLarge
    "uncompressed_len" self.payloadBuf.length (2 ^ 32 - 1))
  ensure (self.compressedBuf.length < 2 ^ 32) (.lengthTooLarge
    "compressed_len" self.compressedBuf.length (2 ^ 32 - 1))
  let extBytes := BlockHeaderExt.encode { baseSeq := baseSeq, baseTsUnixNs := baseTs }
  let header := sealHeader x self.config.codec (UInt32.ofNat self.payloadBuf.length)
    (UInt32.ofNat self.compressedBuf.length) self.recordCount extBytes
  assemble x header extBytes
  let self ← get
  onWriter (LogjetWriter.writeInner self.blockBuf)
  onWriter (LogjetWriter.writePadding (LogjetWriter.padding self.config self.blockBuf.length))
  modify resetBlockState

def flushBlock : EStateM Error (ScratchWriter W) Unit := do
  let self ← get
  if self.payloadBuf.isEmpty then
    return ()
  else
    writeBlock x

def encodeAgainstBase (record : OwnedRecord) : EStateM Error (ScratchWriter W) Unit := do
  modify fun s => { s with encodedRecordBuf := [] }
  let (baseSeq, baseTs) ← onWriter (LogjetWriter.takeBase record.seq record.tsUnixNs)
  ensure (baseSeq ≤ record.seq) (.invalidHeader "sequence must be monotonic within block")
  ensure (baseTs ≤ record.tsUnixNs) (.invalidHeader "timestamp must be monotonic within block")
  encodeInto record (record.seq - baseSeq) (record.tsUnixNs - baseTs)

def splitBlock (record : OwnedRecord) : EStateM Error (ScratchWriter W) Unit := do
  let self ← get
  let projected := self.payloadBuf.length + self.encodedRecordBuf.length
  ensure (projected < 2 ^ 64) (.numericOverflow "payload buf growth")
  if !self.payloadBuf.isEmpty && projected > self.config.blockTargetSize
  then
    flushBlock x
    modify fun s => { s with blockBaseSeq := some record.seq,
                             blockBaseTsUnixNs := some record.tsUnixNs }
    modify fun s => { s with encodedRecordBuf := [] }
    encodeInto record 0 0

def appendEncoded : EStateM Error (ScratchWriter W) Unit := do
  modify fun s => { s with payloadBuf := s.payloadBuf
    ++ s.encodedRecordBuf }
  let self ← get
  ensure (self.recordCount.toNat + 1 < 2 ^ 32) (.numericOverflow "record_count")
  set { self with recordCount := self.recordCount + 1 }

def flushIfFull : EStateM Error (ScratchWriter W) Unit := do
  let self ← get
  if self.payloadBuf.length ≥ self.config.blockTargetSize then
    flushBlock x

def push (record : OwnedRecord) : EStateM Error (ScratchWriter W) Unit := do
  encodeAgainstBase record
  splitBlock x record
  appendEncoded
  flushIfFull x

def intoInner (s : ScratchWriter W) : Except Error W :=
  match flushBlock x s with
  | .ok () s => .ok s.inner
  | .error err _ => .error err

def call : WriterOp → EStateM Error (ScratchWriter W) Unit
  | .push record => push x record
  | .flushBlock => flushBlock x

end ScratchWriter

def LogjetWriter.call {W : Type} [Sink W] (x : External) :
    WriterOp → EStateM Error (LogjetWriter W) Unit
  | .push record => LogjetWriter.push x record
  | .flushBlock => LogjetWriter.flushBlock x

end Logjet
