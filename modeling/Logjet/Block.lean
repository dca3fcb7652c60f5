/-
What a block is: which bytes the reader must accept (`ValidBlock`), and what
the writer produces (`Block`).
-/
import Logjet.Lib.Search
import Logjet.Reader
import Logjet.Writer

namespace Logjet

open LittleEndian

def slice (data : Bytes) (pos n : Nat) : Bytes := (data.drop pos).take n

structure Framed (x : External) (config : ReaderConfig) (data : Bytes)
    (p : Nat) (frame : Frame) : Prop where
  marker : slice data p 8 = config.syncMarker.toList
  header : BlockHeader.decode (slice data (p + 8) 24) = .ok frame.header
  headerLen : 40 ≤ frame.header.headerLen.toNat
  compressedLen : frame.header.compressedLen.toNat ≤ config.maxCompressedLen
  uncompressedLen : frame.header.uncompressedLen.toNat ≤ config.maxUncompressedLen
  headerCrc : frame.header.computeHeaderCrc x
      (slice data (p + 32) (frame.header.headerLen.toNat - 24)) = frame.header.headerCrc32c
  base : BlockHeaderExt.decode (slice data (p + 32) 16) = .ok frame.base
  compressed : frame.compressed = slice data (p + 8 + frame.header.headerLen.toNat)
        frame.header.compressedLen.toNat
  blockCrc : toU32 (slice data (p + 8 + frame.header.headerLen.toNat
        + frame.header.compressedLen.toNat) 4)
    = x.crc32c (slice data (p + 8) (frame.header.headerLen.toNat
        + frame.header.compressedLen.toNat))
  endPos : frame.endPos = p + 8 + frame.header.headerLen.toNat
    + frame.header.compressedLen.toNat + 4
  inside : frame.endPos ≤ data.length

def ValidBlock (x : External) (config : ReaderConfig) (data : Bytes)
    (p : Nat) (records : List OwnedRecord) (e : Nat) : Prop :=
  ∃ frame payload, Framed x config data p frame ∧ frame.endPos = e
    ∧ frame.header.codec.decompress x frame.compressed
        frame.header.uncompressedLen.toNat = .ok payload
    ∧ parseRecords payload frame.header.recordCount frame.base = .ok records

def blockAt (x : External) (config : ReaderConfig) (data : Bytes)
    (p : Nat) : Option (List OwnedRecord × Nat) :=
  match readFrame x config data p with
  | .error _ => none
  | .ok frame =>
    match decodePayload x frame with
    | .error _ => none
    | .ok records => some (records, frame.endPos)

def frameWeight (x : External) (config : ReaderConfig) (data : Bytes)
    (field : BlockHeader → UInt32) (p : Nat) : Nat :=
  match readFrame x config data p with
  | .ok frame => (field frame.header).toNat
  | .error _ => 0

def scanTally (x : External) (config : ReaderConfig) (data : Bytes)
    (w : Nat → Nat) (c : Nat) : Nat := Greedy.tally (blockAt x config data) data.length w c

def scanRecords (x : External) (config : ReaderConfig) (data : Bytes)
    (c : Nat) : List OwnedRecord := Greedy.records (blockAt x config data) data.length c

structure CountersFit (x : External) (config : ReaderConfig) (data : Bytes) : Prop where
  length : data.length < 2 ^ 64
  records : (scanRecords x config data 0).length < 2 ^ 64
  compressed : scanTally x config data
    (frameWeight x config data BlockHeader.compressedLen) 0 < 2 ^ 64
  uncompressed : scanTally x config data
    (frameWeight x config data BlockHeader.uncompressedLen) 0 < 2 ^ 64

instance (x : External) (config : ReaderConfig) (data : Bytes) :
    Decidable (CountersFit x config data) :=
  decidable_of_iff (data.length < 2 ^ 64
      ∧ (scanRecords x config data 0).length < 2 ^ 64 ∧ scanTally x config data
        (frameWeight x config data BlockHeader.compressedLen) 0 < 2 ^ 64 ∧ scanTally x config data
        (frameWeight x config data BlockHeader.uncompressedLen) 0 < 2 ^ 64)
    ⟨fun ⟨h₁, h₂, h₃, h₄⟩ => ⟨h₁, h₂, h₃, h₄⟩, fun ⟨h₁, h₂, h₃, h₄⟩ => ⟨h₁, h₂, h₃, h₄⟩⟩

def BlockHeaderExt.Below (base : BlockHeaderExt) (r : OwnedRecord) : Prop :=
  base.baseSeq ≤ r.seq ∧ base.baseTsUnixNs ≤ r.tsUnixNs

def OwnedRecord.encode (base : BlockHeaderExt) (r : OwnedRecord) : Bytes :=
  encodeRecord r.recordType (r.seq - base.baseSeq) (r.tsUnixNs - base.baseTsUnixNs) r.payload

def encodeRecords (base : BlockHeaderExt) (records : List OwnedRecord) : Bytes :=
  records.flatMap (OwnedRecord.encode base)

def headerOf (chunk : Bytes) : Option BlockHeader :=
  match BlockHeader.decode (slice chunk 8 24) with
  | .ok header => some header
  | .error _ => none

def WithinLimits (config : ReaderConfig) (chunk : Bytes) : Prop :=
  ∀ header ∈ headerOf chunk,
    header.compressedLen.toNat ≤ config.maxCompressedLen
      ∧ header.uncompressedLen.toNat ≤ config.maxUncompressedLen

instance (config : ReaderConfig) (chunk : Bytes) : Decidable (WithinLimits config chunk) :=
  inferInstanceAs (Decidable (∀ header ∈ headerOf chunk, _))

structure Block (x : External) where
  config : WriterConfig
  base : BlockHeaderExt
  records : List OwnedRecord
  below : ∀ r ∈ records, base.Below r
  body : Bytes
  built : buildBlock x config (encodeRecords base records)
    (some base.baseSeq) (some base.baseTsUnixNs) (UInt32.ofNat records.length) = .ok body

def Block.bytes {x : External} (b : Block x) : Bytes :=
  b.body ++ LogjetWriter.padding b.config b.body.length

def Block.chunks {x : External} (b : Block x) : List Bytes :=
  let zeroes := LogjetWriter.padding b.config b.body.length
  b.body :: if zeroes.isEmpty then [] else [zeroes]

inductive Piece (x : External)
  | block (b : Block x)
  | zeros (n : Nat)

variable {x : External}

def Piece.bytes : Piece x → Bytes
  | .block b => b.body
  | .zeros n => List.replicate n 0

def Piece.records : Piece x → List OwnedRecord
  | .block b => b.records
  | .zeros _ => []

def Block.pieces (b : Block x) : List (Piece x) :=
  let zeroes := LogjetWriter.padding b.config b.body.length
  .block b :: if zeroes.isEmpty then [] else [.zeros zeroes.length]

def uncompressedTotal (chunks : List Bytes) : Nat :=
  ((chunks.filterMap headerOf).map fun header =>
    header.uncompressedLen.toNat).sum

end Logjet
