/-
The index builder's own decoder (src/ljx/src/dataset_index.rs), which checks
no CRC, record count or length limit. A slice out of range is a panic, apart
from the errors (`panicked`); unchecked arithmetic wraps.
-/
import Logjet.Ljx.Summary
import Logjet.Block

namespace Logjet.Ljx

inductive LjxError
  | io (err : IoError)
  | logjet (err : Error)
  | usage (msg : String)
  | panicked
  deriving DecidableEq, Repr

def lift {α : Type} : Except Error α → Except LjxError α
  | .ok v => .ok v
  | .error (.io err) => .error (.io err)
  | .error err => .error (.logjet err)

def varintLoop (value : UInt64) (shift : Nat) : Bytes → Except LjxError (UInt64 × Bytes)
  | [] => .error (.logjet (.truncated "varint"))
  | byte :: rest =>
    let value := value ||| ((byte &&& 0x7f).toUInt64 <<< UInt64.ofNat shift)
    if byte &&& 0x80 = 0 then .ok (value, rest)
    else varintLoop value (shift + 7) rest

def decodeVarint (bytes : Bytes) : Except LjxError (UInt64 × Bytes) := varintLoop 0 0 bytes

def parseBlockRecord (ext : BlockHeaderExt) (total : Nat) (rest : Bytes) :
    Except LjxError (OwnedRecord × Bytes) := do
  let typeByte :: rest := rest
    | throw .panicked
  let recordType ← lift (RecordType.fromU8 typeByte)
  let (seqDelta, rest) ← decodeVarint rest
  let (tsDelta, rest) ← decodeVarint rest
  let (payloadLen, rest) ← decodeVarint rest
  let cursor := total - rest.length
  lift (Except.ensure (cursor + payloadLen.toNat < 2 ^ 64) (.numericOverflow "record payload end"))
  Except.ensure (cursor + payloadLen.toNat ≤ total) .panicked
  return ({ recordType, seq := ext.baseSeq + seqDelta,
            tsUnixNs := ext.baseTsUnixNs + tsDelta,
            payload := rest.take payloadLen.toNat }, rest.drop payloadLen.toNat)

theorem varintLoop_length {value v : UInt64} {shift : Nat}
    {bytes rest : Bytes} (h : varintLoop value shift bytes = .ok (v, rest)) :
    rest.length < bytes.length := by
  induction bytes generalizing value shift with
  | nil => cases h
  | cons byte bytes ih =>
    rw [varintLoop] at h
    by_cases hlast : byte &&& 0x80 = 0
    · rw [if_pos hlast] at h
      cases h
      exact Nat.lt_succ_self _
    · rw [if_neg hlast] at h
      exact Nat.lt_succ_of_lt (ih h)

theorem parseBlockRecord_length {ext : BlockHeaderExt} {total : Nat}
    {rest rest' : Bytes} {record : OwnedRecord}
    (h : parseBlockRecord ext total rest = .ok (record, rest')) : rest'.length < rest.length := by
  cases rest with
  | nil => cases h
  | cons typeByte rest =>
    simp only [parseBlockRecord, Except.bind_eq_ok_iff, Prod.exists] at h
    obtain ⟨_, -, _, rest₁, h₁, _, rest₂, h₂, _, rest₃, h₃, _, -, _, -, hret⟩ := h
    cases hret
    have h₁ := varintLoop_length h₁
    have h₂ := varintLoop_length h₂
    have h₃ := varintLoop_length h₃
    rw [List.length_drop, List.length_cons]
    omega

def parseBlockPayload (ext : BlockHeaderExt) (total : Nat) (rest : Bytes) :
    Except LjxError (List OwnedRecord) :=
  if rest.isEmpty then .ok []
  else
    match _hrecord : parseBlockRecord ext total rest with
    | .error err => .error err
    | .ok (record, rest') => do
        let records ← parseBlockPayload ext total rest'
        return record :: records
termination_by rest.length
decreasing_by exact parseBlockRecord_length _hrecord

variable (x : External)

def readBlockBody (data : Bytes) (pos : Nat) :
    Except LjxError (BlockHeader × List OwnedRecord) := do
  let (fixed, pos) ← lift (readExact data pos blockHeaderFixedLen)
  let header ← lift (BlockHeader.decode fixed)
  let extLen := header.headerLen.toNat - blockHeaderFixedLen
  let (extBytes, pos) ← lift (readExact data pos extLen)
  Except.ensure (blockHeaderExtLen ≤ extLen) .panicked
  let ext ← lift (BlockHeaderExt.decode (extBytes.take blockHeaderExtLen))
  let (compressed, pos) ← lift (readExact data pos header.compressedLen.toNat)
  let _ ← lift (readExact data pos 4)
  let payload ← lift (header.codec.decompress x compressed header.uncompressedLen.toNat)
  let records ← parseBlockPayload ext payload.length payload
  return (header, records)

def readBlockSummary (decode : DecodeLogs) (data : Bytes) (offset : Nat) :
    Except LjxError (Option IndexBlock) := do
  let read := slice data offset 8
  let sync := read ++ List.replicate (8 - read.length) 0
  if read.isEmpty then return none
  else if sync ≠ defaultSyncMarker.toList then return none
  else
    let (header, records) ← readBlockBody x data (offset + 8)
    let len := 8 + header.headerLen.toNat + header.compressedLen.toNat + 4
    return some (.ofRecords decode offset len records)

def readBlockRecords (data : Bytes) (block : IndexBlock) : Except LjxError (List OwnedRecord) := do
  let (_, pos) ← lift (readExact data block.offset 8)
  let (_, records) ← readBlockBody x data pos
  return records

structure DatasetIndex where
  summary : IndexSummary
  blocks : List IndexBlock
  deriving DecidableEq, Repr

def findNextSyncMarker (data : Bytes) (start size : Nat) : Option Nat :=
  findNextSync defaultSyncMarker (data.take size) start

def buildLoop (decode : DecodeLogs) (data : Bytes) (size offset : Nat) :
    Except LjxError (List IndexBlock) :=
  if offset < size then
    match readBlockSummary x decode data offset with
    | .error err => .error err
    | .ok (some block) => do
        let blocks ← buildLoop decode data size (max (block.offset + block.len) (offset + 1))
        return block :: blocks
    | .ok none =>
      match findNextSyncMarker data offset size with
      | some next => buildLoop decode data size (max next (offset + 1))
      | none => .ok []
  else .ok []
termination_by size - offset

def build (decode : DecodeLogs) (data : Bytes) (size : Nat)
    (modifiedNs : Option UInt64) : Except LjxError DatasetIndex := do
  let blocks ← buildLoop x decode data size 0
  if blocks.isEmpty then
    throw (.logjet (.invalidHeader "missing block sync"))
  else
    return { summary := .ofBlocks size modifiedNs blocks, blocks }

end Logjet.Ljx
