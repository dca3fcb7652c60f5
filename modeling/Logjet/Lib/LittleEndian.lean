/-
Little-endian integers as byte lists.
-/
import Mathlib.Data.Nat.Basic
import Mathlib.Tactic.Ring

namespace LittleEndian

def encode : Nat → Nat → List UInt8
  | 0, _ => []
  | w + 1, v => UInt8.ofNat v :: encode w (v / 256)

def decode : List UInt8 → Nat
  | [] => 0
  | b :: bs => b.toNat + 256 * decode bs

@[simp] theorem encode_length (w v : Nat) : (encode w v).length = w := by
  induction w generalizing v with
  | zero => rfl
  | succ w ih => simp [encode, ih]

theorem decode_encode {w v : Nat} (hv : v < 256 ^ w) : decode (encode w v) = v := by
  induction w generalizing v with
  | zero =>
    have h0 : v = 0 := by simpa using hv
    rw [h0]
    rfl
  | succ w ih =>
    have hq : v / 256 < 256 ^ w := by
      rw [Nat.pow_succ] at hv
      exact Nat.div_lt_of_lt_mul (by omega)
    simp only [encode, decode, ih hq, UInt8.toNat_ofNat']
    omega

def u16 (v : UInt16) : List UInt8 := encode 2 v.toNat

def u32 (v : UInt32) : List UInt8 := encode 4 v.toNat

def u64 (v : UInt64) : List UInt8 := encode 8 v.toNat

def toU16 (bs : List UInt8) : UInt16 := UInt16.ofNat (decode (bs.take 2))

def toU32 (bs : List UInt8) : UInt32 := UInt32.ofNat (decode (bs.take 4))

def toU64 (bs : List UInt8) : UInt64 := UInt64.ofNat (decode (bs.take 8))

@[simp] theorem u16_length (v : UInt16) : (u16 v).length = 2 := encode_length _ _

@[simp] theorem u32_length (v : UInt32) : (u32 v).length = 4 := encode_length _ _

@[simp] theorem u64_length (v : UInt64) : (u64 v).length = 8 := encode_length _ _

@[simp] theorem toU16_u16 (v : UInt16) (tail : List UInt8) : toU16 (u16 v ++ tail) = v := by
  unfold toU16 u16
  rw [List.take_left' (encode_length _ _), decode_encode v.toNat_lt]
  exact UInt16.ofNat_toNat

@[simp] theorem toU32_u32 (v : UInt32) (tail : List UInt8) : toU32 (u32 v ++ tail) = v := by
  unfold toU32 u32
  rw [List.take_left' (encode_length _ _), decode_encode v.toNat_lt]
  exact UInt32.ofNat_toNat

@[simp] theorem toU64_u64 (v : UInt64) (tail : List UInt8) : toU64 (u64 v ++ tail) = v := by
  unfold toU64 u64
  rw [List.take_left' (encode_length _ _), decode_encode v.toNat_lt]
  exact UInt64.ofNat_toNat

@[simp] theorem toU32_u32_self (v : UInt32) : toU32 (u32 v) = v := by simpa using toU32_u32 v []

@[simp] theorem toU64_u64_self (v : UInt64) : toU64 (u64 v) = v := by simpa using toU64_u64 v []

end LittleEndian
