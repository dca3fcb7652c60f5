/-
Concrete crates to run the model with: the real CRC32C, and a compressor
that drops trailing zeros and puts them back up to the length it is told.
It stands in for `lz4_flex` and `zstd` where a payload of many megabytes
has to stay short enough to compute with and the round trip is all that
matters; where a length on the wire matters, real LZ4 blocks are used.
-/
import Mathlib.Data.List.DropRight
import Logjet.Format

namespace Logjet.Reference

open List

def crcBit (crc : UInt32) : UInt32 :=
  if crc &&& 1 = 1 then (crc >>> 1) ^^^ 0x82f63b78 else crc >>> 1

def crcByte (crc : UInt32) (byte : UInt8) : UInt32 :=
  crcBit (crcBit (crcBit (crcBit (crcBit (crcBit (crcBit (crcBit (crc ^^^ byte.toUInt32))))))))

def crc32c (bytes : Bytes) : UInt32 := bytes.foldl crcByte 0xffffffff ^^^ 0xffffffff

example : crc32c [49, 50, 51, 52, 53, 54, 55, 56, 57] = 0xe3069283 := by decide +kernel

def compress (input : Bytes) : Bytes := input.rdropWhile (· = 0)

def decompress (input : Bytes) (expectedLen : Nat) : Except String Bytes :=
  .ok (input ++ List.replicate (expectedLen - input.length) 0)

theorem compress_append_zeros (input : Bytes) : compress input
      ++ List.replicate (input.length - (compress input).length) 0 = input := by
  induction input using List.reverseRecOn with
  | nil => rfl
  | append_singleton input byte ih =>
    unfold compress at ih ⊢
    by_cases hzero : byte = 0
    · have hstarts : input.rdropWhile (· = 0) <+: input := rdropWhile_prefix _ _
      have hle := hstarts.length_le
      rw [rdropWhile_concat_pos _ _ _ (by simpa using hzero),
        length_append, length_singleton, Nat.sub_add_comm hle, replicate_succ',
        ← append_assoc, ih, hzero]
    · rw [rdropWhile_concat_neg _ _ _ (by simpa using hzero)]
      simp

theorem compress_append (input : Bytes) (n : Nat) :
    compress (input ++ List.replicate n 0) = compress input := by
  unfold compress
  induction n with
  | zero => simp
  | succ n ih => rw [replicate_succ', ← append_assoc, rdropWhile_concat_pos _ _ _ (by simp), ih]

def external : External where
  crc32c := crc32c
  lz4Compress := compress
  lz4Decompress := decompress
  zstdCompress input := .ok (compress input)
  zstdDecompress := decompress

theorem external_roundTrip : external.RoundTrip where
  lz4 input := congrArg Except.ok (compress_append_zeros input)
  zstd input output h := by
    cases h
    exact congrArg Except.ok (compress_append_zeros input)

end Logjet.Reference
