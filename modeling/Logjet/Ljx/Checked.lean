/-
The index builder with every operation that can trap
(src/ljx/src/dataset_index.rs `build` and below): slices, additions and
shifts, which `Ljx.Index` lets wrap. The loop of `build` itself is in
`Ljx.CheckedBuild`.
-/
import Logjet.Lib.Traps
import Logjet.Ljx.Index

namespace Logjet.Ljx

open List hiding Vector
open Trap

abbrev Checked := Except (Stop LjxError)

def varintLoopChecked (value : UInt64) (shift : Nat) : Bytes → Checked (UInt64 × Bytes)
  | [] => returned (.error (.logjet (.truncated "varint")))
  | byte :: rest => do
      require (shift < 64) .shift
      let value := value ||| ((byte &&& 0x7f).toUInt64 <<< UInt64.ofNat shift)
      if byte &&& 0x80 = 0 then return (value, rest)
      else
        require (shift + 7 < 2 ^ 32) .overflow
        varintLoopChecked value (shift + 7) rest

def decodeVarintChecked (bytes : Bytes) : Checked (UInt64 × Bytes) := varintLoopChecked 0 0 bytes

def parseBlockRecordChecked (ext : BlockHeaderExt) (total : Nat)
    (rest : Bytes) : Checked (OwnedRecord × Bytes) := do
  let typeByte :: rest := rest
    | throw (.trapped .slice)
  let recordType ← returned (lift (RecordType.fromU8 typeByte))
  let (seqDelta, rest) ← decodeVarintChecked rest
  let seq ← addU64 ext.baseSeq.toNat seqDelta.toNat
  let (tsDelta, rest) ← decodeVarintChecked rest
  let tsUnixNs ← addU64 ext.baseTsUnixNs.toNat tsDelta.toNat
  let (payloadLen, rest) ← decodeVarintChecked rest
  let cursor := total - rest.length
  returned (lift (Except.ensure (cursor + payloadLen.toNat < 2 ^ 64)
    (.numericOverflow "record payload end")))
  require (cursor + payloadLen.toNat ≤ total) .slice
  return ({ recordType, seq := UInt64.ofNat seq,
            tsUnixNs := UInt64.ofNat tsUnixNs,
            payload := rest.take payloadLen.toNat }, rest.drop payloadLen.toNat)

variable {rest : Bytes}

theorem varintLoopChecked_length {value v : UInt64} {shift : Nat} {bytes : Bytes}
    (h : varintLoopChecked value shift bytes = .ok (v, rest)) : rest.length < bytes.length := by
  induction bytes generalizing value shift with
  | nil => cases h
  | cons byte bytes ih =>
    obtain ⟨_, -, h⟩ := Except.bind_eq_ok_iff.mp h
    split at h
    · cases h
      exact Nat.lt_succ_self _
    · obtain ⟨_, -, h⟩ := Except.bind_eq_ok_iff.mp h
      exact Nat.lt_succ_of_lt (ih h)

theorem parseBlockRecordChecked_length {ext : BlockHeaderExt} {total : Nat} {rest' : Bytes}
    {record : OwnedRecord} (h : parseBlockRecordChecked ext total rest = .ok (record, rest')) :
    rest'.length < rest.length := by
  cases rest with
  | nil => cases h
  | cons typeByte rest =>
    simp only [parseBlockRecordChecked, Except.bind_eq_ok_iff, Prod.exists] at h
    obtain ⟨_, -, _, rest₁, h₁, _, -, _, rest₂, h₂, _, -, _, rest₃, h₃, _, -, _, -, hret⟩ := h
    cases hret
    have h₁ := varintLoopChecked_length h₁
    have h₂ := varintLoopChecked_length h₂
    have h₃ := varintLoopChecked_length h₃
    rw [length_drop, length_cons]
    omega

def parseBlockPayloadChecked (ext : BlockHeaderExt) (total : Nat)
    (rest : Bytes) : Checked (List OwnedRecord) :=
  if rest.isEmpty then .ok []
  else
    match _hrecord : parseBlockRecordChecked ext total rest with
    | .error stop => .error stop
    | .ok (record, rest') => do
        let records ← parseBlockPayloadChecked ext total rest'
        return record :: records
termination_by rest.length
decreasing_by exact parseBlockRecordChecked_length _hrecord

variable (x : External)

def readBlockBodyChecked (data : Bytes) (pos : Nat) : Checked (BlockHeader × List OwnedRecord) := do
  let (fixed, pos) ← returned (lift (readExact data pos blockHeaderFixedLen))
  let header ← returned (lift (BlockHeader.decode fixed))
  let extLen := header.headerLen.toNat - blockHeaderFixedLen
  let (extBytes, pos) ← returned (lift (readExact data pos extLen))
  require (blockHeaderExtLen ≤ extLen) .slice
  let ext ← returned (lift (BlockHeaderExt.decode (extBytes.take blockHeaderExtLen)))
  let (compressed, pos) ← returned (lift (readExact data pos header.compressedLen.toNat))
  let _ ← returned (lift (readExact data pos 4))
  let payload ← returned (lift (header.codec.decompress x compressed header.uncompressedLen.toNat))
  let records ← parseBlockPayloadChecked ext payload.length payload
  return (header, records)

def readBlockSummaryChecked (decode : DecodeLogs) (data : Bytes)
    (offset : Nat) : Checked (Option IndexBlock) := do
  let read := slice data offset 8
  let sync := read ++ List.replicate (8 - read.length) 0
  if read.isEmpty then return none
  else if sync ≠ defaultSyncMarker.toList then return none
  else
    let (header, records) ← readBlockBodyChecked x data (offset + 8)
    let len ← addU64 8 header.headerLen.toNat
    let len ← addU64 len header.compressedLen.toNat
    let len ← addU64 len 4
    return some (.ofRecords decode offset len records)

def chunkLoop (scanPos : Nat) : Bytes → Nat → Nat → Checked (Nat ⊕ Nat)
  | [], matched, _ => .ok (.inr matched)
  | byte :: rest, matched, idx =>
    match defaultSyncMarker.toList[matched]? with
    | none => throw (.trapped .slice)
    | some expected =>
      if byte = expected then
        if matched + 1 = 8 then do
          let pos ← addU64 scanPos idx
          let pos ← addU64 pos 1
          let pos ← subU64 pos 8
          return .inl pos
        else chunkLoop scanPos rest (matched + 1) (idx + 1)
      else
        chunkLoop scanPos rest (if some byte = defaultSyncMarker.toList.head? then 1 else 0)
          (idx + 1)

def markerLoop (data : Bytes) (size scanPos matched : Nat) : Checked (Option Nat) :=
  if _hin : scanPos < size then
    let chunk := slice data scanPos (min 4096 (size - scanPos))
    if _hempty : chunk = [] then .ok none
    else
      match chunkLoop scanPos chunk matched 0 with
      | .error stop => .error stop
      | .ok (.inl found) => .ok (some found)
      | .ok (.inr matched) =>
        match _hnext : (addU64 scanPos chunk.length : Checked Nat) with
        | .error stop => .error stop
        | .ok next => markerLoop data size next matched
  else .ok none
termination_by size - scanPos
decreasing_by
  obtain ⟨-, hnext⟩ := addU64_eq_ok_iff.mp _hnext
  have hpos := length_pos_iff.mpr _hempty
  omega

def findNextSyncMarkerChecked (data : Bytes) (start size : Nat) : Checked (Option Nat) :=
  markerLoop data size start 0

end Logjet.Ljx
