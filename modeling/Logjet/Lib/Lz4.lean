/-
The LZ4 block format: a decoder for every block, and the plainest encoder,
which knows literals only.

A block is a list of sequences. Each has a token (two nibbles), a run of
literals and a match: an offset back into the output and a length. The
last sequence stops after its literals. A nibble of 15 is continued by
bytes that are added up until one is not 255.
-/
import Logjet.Lib.Result

namespace Lz4

open List

variable {bytes rest out : List UInt8} {n : Nat}

-- ===================================================== decoding

/-- The bytes that continue a nibble of 15. -/
def readLength : List UInt8 → Option (Nat × List UInt8)
  | [] => none
  | b :: rest =>
    if b = 255 then (readLength rest).map fun p => (255 + p.1, p.2)
    else some (b.toNat, rest)

def lengthOf (nibble : Nat) (bytes : List UInt8) :
    Option (Nat × List UInt8) :=
  if nibble = 15 then (readLength bytes).map fun p => (15 + p.1, p.2)
  else some (nibble, bytes)

/-- A match may reach into what it writes itself: an offset of 1 repeats
the last byte. -/
def copyMatch (offset : Nat) : Nat → List UInt8 → List UInt8
  | 0, out => out
  | n + 1, out =>
    copyMatch offset n (out ++ [out.getD (out.length - offset) 0])

/-- The sequences of a block, after `out` has been written. -/
def sequences : Nat → List UInt8 → List UInt8 → Option (List UInt8)
  | 0, _, _ => none
  | _, [], _ => none
  | fuel + 1, token :: rest, out =>
    match lengthOf (token.toNat / 16) rest with
    | none => none
    | some (literals, rest) =>
      if rest.length < literals then none
      else
        match rest.drop literals with
        | [] => some (out ++ rest.take literals)
        | [_] => none
        | low :: high :: behind =>
          match lengthOf (token.toNat % 16) behind with
          | none => none
          | some (extra, behind) =>
            let out := out ++ rest.take literals
            let offset := low.toNat + 256 * high.toNat
            if offset = 0 ∨ out.length < offset then none
            else sequences fuel behind (copyMatch offset (4 + extra) out)

def decompress (block : List UInt8) (size : Nat) :
    Except String (List UInt8) :=
  match sequences block.length block [] with
  | none => .error "malformed block"
  | some out =>
    if out.length ≤ size then .ok out
    else .error "provided output is too small"

theorem decompress_length_le {block : List UInt8} {size : Nat}
    (h : decompress block size = .ok out) : out.length ≤ size := by
  unfold decompress at h
  split at h
  · cases h
  · split at h
    · cases h
      assumption
    · cases h

-- ===================================================== encoding

def continued (n : Nat) : List UInt8 :=
  if n < 15 then []
  else List.replicate ((n - 15) / 255) 255
    ++ [UInt8.ofNat ((n - 15) % 255)]

/-- A last sequence: literals and no match. -/
def lastLiterals (bytes : List UInt8) : List UInt8 :=
  UInt8.ofNat (16 * min bytes.length 15)
    :: (continued bytes.length ++ bytes)

theorem readLength_replicate (k : Nat) {b : UInt8} (hb : b ≠ 255) :
    readLength (List.replicate k 255 ++ b :: rest)
      = some (255 * k + b.toNat, rest) := by
  induction k with
  | zero => simp [readLength, hb]
  | succ k ih =>
    rw [replicate_succ, cons_append, readLength, if_pos rfl, ih]
    simp only [Option.map_some, Option.some.injEq, Prod.mk.injEq, and_true]
    omega

theorem lengthOf_continued (n : Nat) (rest : List UInt8) :
    lengthOf (min n 15) (continued n ++ rest) = some (n, rest) := by
  unfold lengthOf continued
  by_cases hn : n < 15
  · rw [if_neg (by omega), if_pos hn, Nat.min_eq_left (by omega), nil_append]
  · have hlt : (n - 15) % 255 < 255 := Nat.mod_lt _ (by decide)
    have hbyte : (UInt8.ofNat ((n - 15) % 255)).toNat = (n - 15) % 255 :=
      UInt8.toNat_ofNat_of_lt' (Nat.lt_trans hlt (by decide))
    have hmore : UInt8.ofNat ((n - 15) % 255) ≠ 255 := by
      intro h
      rw [h] at hbyte
      exact absurd hbyte.symm (Nat.ne_of_lt hlt)
    rw [if_pos (by omega), if_neg hn, append_assoc, singleton_append,
      readLength_replicate _ hmore, hbyte, Option.map_some]
    congr 2
    omega

theorem sequences_lastLiterals (fuel : Nat) :
    sequences (fuel + 1) (lastLiterals bytes) out = some (out ++ bytes) := by
  have htoken : (UInt8.ofNat (16 * min bytes.length 15)).toNat
      = 16 * min bytes.length 15 :=
    UInt8.toNat_ofNat_of_lt' (show 16 * min bytes.length 15 < 256 by omega)
  have hdiv : 16 * min bytes.length 15 / 16 = min bytes.length 15 := by omega
  simp only [lastLiterals, sequences, htoken, hdiv, lengthOf_continued,
    Nat.lt_irrefl, if_false, drop_length, take_length]

theorem decompress_lastLiterals (bytes : List UInt8) :
    decompress (lastLiterals bytes) bytes.length = .ok bytes := by
  have hall : sequences (lastLiterals bytes).length (lastLiterals bytes) []
      = some bytes := sequences_lastLiterals _
  rw [decompress, hall]
  exact if_pos (Nat.le_refl _)

end Lz4
