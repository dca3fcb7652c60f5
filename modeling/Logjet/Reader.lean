/-
The resynchronising block reader (src/src/reader.rs): scan for the sync
marker, validate header, lengths and both CRCs, decompress, split into
records; on any failure resume one byte past the rejected marker. Between
`readFrame` and `decodePayload` the statistics are added, so a block that fails
to decompress has been counted.
-/
import Mathlib.Data.Vector.Defs
import Logjet.Format

namespace Logjet

open List hiding Vector
open LittleEndian EStateM

structure ReaderConfig where
  syncMarker : Vector UInt8 8
  maxCompressedLen : Nat
  maxUncompressedLen : Nat
  deriving DecidableEq, Repr

def ReaderConfig.default : ReaderConfig :=
  { syncMarker := defaultSyncMarker,
    maxCompressedLen := defaultMaxBlockSize,
    maxUncompressedLen := defaultMaxBlockSize }

structure ReaderStats where
  blocksOk : UInt64
  blocksBad : UInt64
  bytesSkipped : UInt64
  recordsOk : UInt64
  totalCompressedBytes : UInt64
  totalUncompressedBytes : UInt64
  deriving DecidableEq, Repr

def ReaderStats.default : ReaderStats :=
  { blocksOk := 0, blocksBad := 0, bytesSkipped := 0, recordsOk := 0,
    totalCompressedBytes := 0, totalUncompressedBytes := 0 }

structure LogjetReader where
  data : Bytes
  pos : Nat
  config : ReaderConfig
  stats : ReaderStats
  pending : List OwnedRecord
  deriving DecidableEq, Repr

def LogjetReader.withConfig (data : Bytes) (config : ReaderConfig) : LogjetReader :=
  { data, pos := 0, config, stats := .default, pending := [] }

def decodeVarintLoop (value : UInt64) (shift : Nat) : Bytes → Except Error (UInt64 × Bytes)
  | [] => .error (.truncated "varint")
  | byte :: rest =>
    let value := value ||| ((byte &&& 0x7f).toUInt64 <<< UInt64.ofNat shift)
    if byte &&& 0x80 = 0 then .ok (value, rest)
    else if shift + 7 ≥ 64 then .error .varintTooLong
    else decodeVarintLoop value (shift + 7) rest

def decodeVarint (bytes : Bytes) : Except Error (UInt64 × Bytes) := decodeVarintLoop 0 0 bytes

def parseRecord (base : BlockHeaderExt) (total : Nat) (rest : Bytes) :
    Except Error (OwnedRecord × Bytes) := do
  let typeByte :: rest := rest
    | throw (.truncated "record_type")
  let recordType ← RecordType.fromU8 typeByte
  let (seqDelta, rest) ← decodeVarint rest
  let (tsDelta, rest) ← decodeVarint rest
  let (payloadLen, rest) ← decodeVarint rest
  let cursor := total - rest.length
  Except.ensure (cursor + payloadLen.toNat < 2 ^ 64) (.numericOverflow "record payload end")
  Except.ensure (cursor + payloadLen.toNat ≤ total) (.truncated "record payload")
  let seq ← checkedAdd "record seq" base.baseSeq seqDelta.toNat
  let tsUnixNs ← checkedAdd "record ts" base.baseTsUnixNs tsDelta.toNat
  return ({ recordType, seq, tsUnixNs,
            payload := rest.take payloadLen.toNat }, rest.drop payloadLen.toNat)

def parseRecordsLoop (base : BlockHeaderExt) (total : Nat) :
    Nat → Bytes → Except Error (List OwnedRecord)
  | 0, rest =>
    if rest.length ≠ 0 then
      .error (.invalidHeader "payload has trailing bytes")
    else .ok []
  | count + 1, rest => do
      let (record, rest) ← parseRecord base total rest
      let records ← parseRecordsLoop base total count rest
      return record :: records

def parseRecords (payload : Bytes) (recordCount : UInt32)
    (base : BlockHeaderExt) : Except Error (List OwnedRecord) :=
  parseRecordsLoop base payload.length recordCount.toNat payload

def syncLoop (marker : Vector UInt8 8) (start : Nat) : Bytes → Fin 8 → Nat → Option Nat
  | [], _, _ => none
  | candidate :: rest, matched, offset =>
    if candidate = marker[matched] then
      if hend : matched.val + 1 < 8 then
        syncLoop marker start rest ⟨matched.val + 1, hend⟩ (offset + 1)
      else some (start + offset + 1 - 8)
    else
      syncLoop marker start rest (if candidate = marker[0] then 1 else 0) (offset + 1)

def findNextSync (marker : Vector UInt8 8) (data : Bytes) (pos : Nat) : Option Nat :=
  syncLoop marker pos (data.drop pos) 0 0

def readExact (data : Bytes) (pos n : Nat) : Except Error (Bytes × Nat) :=
  if pos + n ≤ data.length then .ok ((data.drop pos).take n, pos + n)
  else .error (.io ⟨.unexpectedEof, "failed to fill whole buffer"⟩)

def validateLength (field : String) (value limit : Nat) : Except Error Unit :=
  Except.ensure (value ≤ limit) (.lengthTooLarge field value limit)

structure Frame where
  header : BlockHeader
  base : BlockHeaderExt
  compressed : Bytes
  endPos : Nat
  deriving DecidableEq, Repr

variable (x : External)

def readFrame (config : ReaderConfig) (data : Bytes) (syncStart : Nat) : Except Error Frame := do
  let (sync, pos) ← readExact data syncStart 8
  Except.ensure (sync = config.syncMarker.toList) (.invalidHeader "sync mismatch")
  let (fixed, pos) ← readExact data pos blockHeaderFixedLen
  let header ← BlockHeader.decode fixed
  Except.ensure (blockHeaderTotalLen ≤ header.headerLen.toNat) (.headerTooShort header.headerLen)
  let extLen := header.headerLen.toNat - blockHeaderFixedLen
  Except.ensure (blockHeaderExtLen ≤ extLen) (.invalidHeader "missing required header extension")
  validateLength "compressed_len" header.compressedLen.toNat config.maxCompressedLen
  validateLength "uncompressed_len" header.uncompressedLen.toNat config.maxUncompressedLen
  let (extBytes, pos) ← readExact data pos extLen
  let expectedHeaderCrc := header.computeHeaderCrc x extBytes
  Except.ensure (expectedHeaderCrc = header.headerCrc32c)
    (.headerCrcMismatch header.headerCrc32c expectedHeaderCrc)
  let base ← BlockHeaderExt.decode (extBytes.take blockHeaderExtLen)
  let (compressed, pos) ← readExact data pos header.compressedLen.toNat
  let (crcBytes, pos) ← readExact data pos 4
  let expectedBlockCrc := toU32 crcBytes
  let actualBlockCrc := x.crc32c (fixed ++ extBytes ++ compressed)
  Except.ensure (expectedBlockCrc = actualBlockCrc)
    (.blockCrcMismatch expectedBlockCrc actualBlockCrc)
  return { header, base, compressed, endPos := pos }

def decodePayload (frame : Frame) : Except Error (List OwnedRecord) := do
  let payload ← frame.header.codec.decompress x frame.compressed frame.header.uncompressedLen.toNat
  parseRecords payload frame.header.recordCount frame.base

def addTotals (header : BlockHeader) : EStateM Error ReaderStats Unit := do
  let stats ← get
  let compressed ← EStateM.ofExcept (checkedAdd "total_compressed_bytes"
    stats.totalCompressedBytes header.compressedLen.toNat)
  set { stats with totalCompressedBytes := compressed }
  let uncompressed ← EStateM.ofExcept (checkedAdd
    "total_uncompressed_bytes" stats.totalUncompressedBytes header.uncompressedLen.toNat)
  modify fun stats => { stats with totalUncompressedBytes := uncompressed }

def tryReadBlockAt (config : ReaderConfig) (data : Bytes) (syncStart : Nat) :
    EStateM Error ReaderStats (List OwnedRecord × Nat) := do
  let frame ← EStateM.ofExcept (readFrame x config data syncStart)
  addTotals frame.header
  let records ← EStateM.ofExcept (decodePayload x frame)
  return (records, frame.endPos)

variable {data rest : Bytes} {pos syncStart p scanOrigin : Nat} {config : ReaderConfig}
  {marker : Vector UInt8 8} {records : List OwnedRecord} {r r' : LogjetReader}

theorem readExact_eq_ok_iff {bytes : Bytes} {n e : Nat} :
    readExact data pos n = .ok (bytes, e) ↔ pos + n ≤ data.length ∧ bytes = (data.drop pos).take n
        ∧ e = pos + n := by
  unfold readExact
  by_cases h : pos + n ≤ data.length
  · simp only [h, if_true, Except.ok.injEq, Prod.mk.injEq, true_and]
    constructor <;> rintro ⟨rfl, rfl⟩ <;> exact ⟨rfl, rfl⟩
  · simp [h]

theorem readFrame_bounds {frame : Frame} (h : readFrame x config data syncStart = .ok frame) :
    syncStart < frame.endPos ∧ frame.endPos ≤ data.length := by
  simp only [readFrame, Except.bind_eq_ok_iff, Prod.exists, readExact_eq_ok_iff] at h
  obtain ⟨_, _, ⟨_, -, rfl⟩, _, -, _, _, ⟨_, -, rfl⟩, header, -, _, -, _, -,
    _, -, _, -, _, _, ⟨_, -, rfl⟩, _, -, _, -, _, _, ⟨_, -, rfl⟩, _, _,
    ⟨hend, -, rfl⟩, _, -, hframe⟩ := h
  cases hframe
  refine ⟨?_, hend⟩
  show syncStart < _ + 4
  omega

theorem syncLoop_bounds {start : Nat} {matched : Fin 8} {offset : Nat}
    (hmatched : matched.val ≤ offset) (h : syncLoop marker start rest matched offset = some p) :
    start ≤ p ∧ p + 8 ≤ start + offset + rest.length := by
  induction rest generalizing matched offset with
  | nil => cases h
  | cons candidate rest ih =>
    simp only [syncLoop] at h
    split at h
    · split at h
      · have hp := ih (by simpa using hmatched) h
        simp only [length_cons]
        omega
      · cases h
        simp only [length_cons]
        omega
    · have hstart : (if candidate = marker[0] then (1 : Fin 8) else 0).val ≤ offset + 1 := by
        split <;> simp
      have hp := ih hstart h
      simp only [length_cons]
      omega

theorem findNextSync_bounds (h : findNextSync marker data pos = some p) : pos ≤ p
    ∧ p + 8 ≤ data.length := by
  have hp := syncLoop_bounds (Nat.le_refl 0) h
  rw [length_drop] at hp
  omega

theorem parseRecordsLoop_length {base : BlockHeaderExt} {total count : Nat}
    (h : parseRecordsLoop base total count rest = .ok records) : records.length = count := by
  induction count generalizing rest records with
  | zero =>
    unfold parseRecordsLoop at h
    split at h <;> cases h
    rfl
  | succ count ih =>
    obtain ⟨_, -, h⟩ := Except.bind_eq_ok_iff.mp h
    obtain ⟨_, hrest, h⟩ := Except.bind_eq_ok_iff.mp h
    cases h
    rw [length_cons, ih hrest]

theorem tryReadBlockAt_bounds {endPos : Nat} {stats stats' : ReaderStats}
    (h : tryReadBlockAt x config data syncStart stats = .ok (records, endPos) stats') :
    syncStart < endPos ∧ endPos ≤ data.length ∧ records.length < 2 ^ 32 := by
  simp only [tryReadBlockAt, bind_eq_ok_iff, ofExcept_eq_ok_iff] at h
  obtain ⟨frame, _, ⟨hframe, -⟩, _, _, -, _, _, ⟨hdecode, -⟩, hret⟩ := h
  cases hret
  obtain ⟨hlo, hhi⟩ := readFrame_bounds x hframe
  obtain ⟨payload, -, hparse⟩ := Except.bind_eq_ok_iff.mp hdecode
  refine ⟨hlo, hhi, ?_⟩
  rw [parseRecordsLoop_length hparse]
  exact frame.header.recordCount.toNat_lt

def Error.isFatal : Error → Bool
  | .io err => err.kind ≠ .unexpectedEof
  | _ => false

def finishScan (scanOrigin : Nat) : EStateM Error LogjetReader Bool := do
  modify fun r => { r with pos := r.data.length }
  let r ← get
  let skipped ← EStateM.ofExcept (checkedAdd "bytes_skipped"
    r.stats.bytesSkipped (r.data.length - scanOrigin))
  set { r with stats := { r.stats with bytesSkipped := skipped } }
  return false

def acceptBlock (scanOrigin syncStart : Nat)
    (records : List OwnedRecord) : EStateM Error LogjetReader Bool := do
  let r ← get
  let blocksOk ← EStateM.ofExcept (checkedAdd "blocks_ok" r.stats.blocksOk 1)
  modify fun r => { r with stats := { r.stats with blocksOk := blocksOk } }
  let skipped ← EStateM.ofExcept (checkedAdd "bytes_skipped"
    r.stats.bytesSkipped (syncStart - scanOrigin))
  modify fun r => { r with
    stats := { r.stats with bytesSkipped := skipped }
    pending := r.pending ++ records }
  return true

def scanLoop (scanOrigin : Nat) (r : LogjetReader) : EStateM.Result Error LogjetReader Bool :=
  match _hsync : findNextSync r.config.syncMarker r.data r.pos with
  | none => finishScan scanOrigin r
  | some syncStart =>
    match tryReadBlockAt x r.config r.data syncStart r.stats with
    | .ok (records, endPos) stats =>
      acceptBlock scanOrigin syncStart records { r with pos := endPos, stats := stats }
    | .error err stats =>
      if err.isFatal then .error err { r with stats := stats }
      else
        match checkedAdd "blocks_bad" stats.blocksBad 1 with
        | .error err => .error err { r with stats := stats }
        | .ok blocksBad =>
          scanLoop scanOrigin { r with
            pos := syncStart + 1
            stats := { stats with blocksBad := blocksBad } }
termination_by r.data.length - r.pos
decreasing_by
  have hp := findNextSync_bounds _hsync
  omega

def scanNextBlock (r : LogjetReader) : EStateM.Result Error LogjetReader Bool := scanLoop x r.pos r

structure LogjetReader.Advance (r r' : LogjetReader) : Prop where
  data : r'.data = r.data
  config : r'.config = r.config
  forward : r.pos < r'.pos
  inside : r'.pos ≤ r.data.length
  pending : r'.pending.length < r.pending.length + 2 ^ 32

theorem acceptBlock_true (h : acceptBlock scanOrigin syncStart records r = .ok true r') :
    r'.data = r.data ∧ r'.config = r.config ∧ r'.pos = r.pos
      ∧ r'.pending = r.pending ++ records := by
  simp only [acceptBlock, bind_eq_ok_iff, ofExcept_eq_ok_iff] at h
  obtain ⟨_, _, hget, _, _, ⟨-, rfl⟩, _, _, hmod, _, _, ⟨-, rfl⟩, _, _, hmod', hret⟩ := h
  cases hget
  cases hmod
  cases hmod'
  cases hret
  exact ⟨rfl, rfl, rfl, rfl⟩

theorem finishScan_true : finishScan scanOrigin r ≠ .ok true r' := by
  intro h
  simp only [finishScan, bind_eq_ok_iff, ofExcept_eq_ok_iff] at h
  obtain ⟨_, _, -, _, _, -, _, _, -, _, _, -, hret⟩ := h
  cases hret

theorem scanLoop_true (h : scanLoop x scanOrigin r = .ok true r') : r.Advance r' := by
  fun_induction scanLoop x scanOrigin r with
  | case1 r hsync => exact absurd h finishScan_true
  | case2 r syncStart hsync records endPos stats hread =>
    obtain ⟨hle, hend⟩ := findNextSync_bounds hsync
    obtain ⟨hlt, hin, hfew⟩ := tryReadBlockAt_bounds x hread
    obtain ⟨hdata, hconfig, hpos, hpending⟩ := acceptBlock_true h
    refine ⟨hdata, hconfig, ?_, ?_, ?_⟩
    · rw [hpos]
      exact Nat.lt_of_le_of_lt hle hlt
    · rw [hpos]
      exact hin
    · rw [hpending, length_append]
      exact Nat.add_lt_add_left hfew _
  | case3 => cases h
  | case4 => cases h
  | case5 r syncStart hsync err stats hread hfatal blocksBad hadd ih =>
    obtain ⟨hle, hend⟩ := findNextSync_bounds hsync
    obtain ⟨hdata, hconfig, hfwd, hin, hpending⟩ := ih h
    exact ⟨hdata, hconfig, Nat.lt_trans (show r.pos < syncStart + 1 by omega) hfwd, hin, hpending⟩

def nextRecord (r : LogjetReader) : EStateM.Result Error LogjetReader (Option OwnedRecord) :=
  match r.pending with
  | record :: pending =>
    match checkedAdd "records_ok" r.stats.recordsOk 1 with
    | .error err => .error err { r with pending := pending }
    | .ok recordsOk =>
      .ok (some record) { r with
        pending := pending
        stats := { r.stats with recordsOk := recordsOk } }
  | [] =>
    match _hscan : scanNextBlock x r with
    | .error err r' => .error err r'
    | .ok false r' => .ok none r'
    | .ok true r' => nextRecord r'
termination_by r.data.length - r.pos
decreasing_by
  obtain ⟨hdata, -, hfwd, hin⟩ := scanLoop_true x _hscan
  rw [hdata]
  omega

theorem finishScan_false (h : finishScan scanOrigin r = .ok false r') :
    r'.data = r.data ∧ r'.config = r.config ∧ r'.pos = r.data.length ∧ r'.pending = r.pending := by
  simp only [finishScan, bind_eq_ok_iff, ofExcept_eq_ok_iff] at h
  obtain ⟨_, _, hmod, _, _, hget, _, _, ⟨-, rfl⟩, _, _, hset, hret⟩ := h
  cases hmod
  cases hget
  cases hset
  cases hret
  exact ⟨rfl, rfl, rfl, rfl⟩

theorem acceptBlock_false : acceptBlock scanOrigin syncStart records r ≠ .ok false r' := by
  intro h
  simp only [acceptBlock, bind_eq_ok_iff, ofExcept_eq_ok_iff] at h
  obtain ⟨_, _, -, _, _, -, _, _, -, _, _, -, _, _, -, hret⟩ := h
  cases hret

theorem scanLoop_false (h : scanLoop x scanOrigin r = .ok false r') :
    r'.data = r.data ∧ r'.config = r.config ∧ r'.pos = r.data.length ∧ r'.pending = r.pending := by
  fun_induction scanLoop x scanOrigin r with
  | case1 => exact finishScan_false h
  | case2 => exact absurd h acceptBlock_false
  | case3 => cases h
  | case4 => cases h
  | case5 _ _ _ _ _ _ _ _ _ ih => exact ih h

theorem nextRecord_none (h : nextRecord x r = .ok none r') :
    r'.data = r.data ∧ r'.config = r.config ∧ r'.pos = r.data.length ∧ r'.pending = [] := by
  fun_induction nextRecord x r with
  | case1 => cases h
  | case2 => cases h
  | case3 => cases h
  | case4 r hpending r₁ hscan =>
    cases h
    obtain ⟨hdata, hconfig, hpos, hkept⟩ := scanLoop_false x hscan
    exact ⟨hdata, hconfig, hpos, hkept.trans hpending⟩
  | case5 r hpending r₁ hscan ih =>
    obtain ⟨hdata, hconfig, hfwd, hin, -⟩ := scanLoop_true x hscan
    obtain ⟨hdata', hconfig', hpos', hempty⟩ := ih h
    exact ⟨hdata'.trans hdata, hconfig'.trans hconfig, hpos'.trans (by rw [hdata]), hempty⟩

def LogjetReader.remaining (r : LogjetReader) : Nat :=
  (r.data.length - r.pos) * 2 ^ 32 + r.pending.length

theorem nextRecord_uses {record : OwnedRecord}
    (h : nextRecord x r = .ok (some record) r') : r'.remaining < r.remaining := by
  fun_induction nextRecord x r with
  | case1 => cases h
  | case2 r record pending hpending recordsOk hadd =>
    cases h
    simp [LogjetReader.remaining, hpending]
  | case3 => cases h
  | case4 => cases h
  | case5 r hpending r₁ hscan ih =>
    obtain ⟨hdata, -, hfwd, hin, hfew⟩ := scanLoop_true x hscan
    have hless : r₁.data.length - r₁.pos < r.data.length - r.pos := by
      rw [hdata]
      omega
    rw [hpending, length_nil] at hfew
    refine Nat.lt_trans (ih h) ?_
    simp only [LogjetReader.remaining, hpending, length_nil]
    omega

inductive Yields : LogjetReader → List OwnedRecord → LogjetReader → Prop
  | done {r r' : LogjetReader} (h : nextRecord x r = .ok none r') : Yields r [] r'
  | more {r r₁ r' : LogjetReader} {record : OwnedRecord} {records : List OwnedRecord}
      (h : nextRecord x r = .ok (some record) r₁)
      (tail : Yields r₁ records r') : Yields r (record :: records) r'

end Logjet
