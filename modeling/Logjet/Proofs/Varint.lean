/-
Varints. Of a tenth byte only the lowest bit gets in, and the others are
dropped without an error.
-/
import Logjet.Block

namespace Logjet

open List Except UInt64

inductive IsVarint : Bytes → Prop
  | last {b : UInt8} (h : b.toNat < 128) : IsVarint [b]
  | more {b : UInt8} {bytes : Bytes} (h : 128 ≤ b.toNat) (tail : IsVarint bytes) :
      IsVarint (b :: bytes)

def denoted : Bytes → Nat
  | [] => 0
  | b :: bytes => b.toNat % 128 + 128 * denoted bytes

theorem IsVarint.length_pos {enc : Bytes} (h : IsVarint enc) : 0 < enc.length := by
  cases h <;> exact Nat.succ_pos _

theorem and_0x80_eq_zero_iff (b : UInt8) : b &&& 0x80 = 0 ↔ b.toNat < 128 := by
  have hall : ∀ b : BitVec 8, b &&& 0x80#8 = 0#8 ↔ b.toNat < 128 := by decide
  rw [← UInt8.toBitVec_inj]
  exact hall b.toBitVec

theorem and_0x7f_toNat (b : UInt8) : (b &&& 0x7f).toNat = b.toNat % 128 := by
  exact Nat.and_two_pow_sub_one_eq_mod b.toNat 7

theorem shiftRight_7_toNat (n : UInt64) : (n >>> 7).toNat = n.toNat / 128 := by
  rw [UInt64.toNat_shiftRight, Nat.shiftRight_eq_div_pow]
  rfl

theorem continuation_toNat (value : UInt64) :
    ((value &&& 0x7f).toUInt8 ||| 0x80).toNat = value.toNat % 128 + 128 := by
  have hlow : (value &&& 0x7f).toUInt8.toNat = value.toNat % 128 := by
    have hand : (value &&& 0x7f).toNat = value.toNat % 128 := by
      exact Nat.and_two_pow_sub_one_eq_mod value.toNat 7
    rw [toNat_toUInt8, hand]
    omega
  rw [UInt8.toNat_or, hlow, Nat.or_comm]
  exact (Nat.two_pow_add_eq_or_of_lt (i := 7) (Nat.mod_lt _ (by decide)) 1).symm.trans (by omega)

theorem accumulate_toNat {value : UInt64} {b : UInt8} {shift : Nat}
    (hshift : shift < 64) (hvalue : value.toNat < 2 ^ shift) :
    (value ||| ((b &&& 0x7f).toUInt64 <<< UInt64.ofNat shift)).toNat
      = (value.toNat + 2 ^ shift * (b.toNat % 128)) % 2 ^ 64 := by
  have hs : (UInt64.ofNat shift).toNat % 64 = shift := by
    rw [toNat_ofNat']
    omega
  have hpow : 2 ^ 64 = 2 ^ shift * 2 ^ (64 - shift) := by
    rw [← Nat.pow_add]
    congr 1
    omega
  have hdiv : (value.toNat + 2 ^ shift * (b.toNat % 128)) / 2 ^ shift = b.toNat % 128 := by
    rw [Nat.add_mul_div_left _ _ (Nat.two_pow_pos _), Nat.div_eq_of_lt hvalue, Nat.zero_add]
  rw [UInt64.toNat_or, UInt64.toNat_shiftLeft, hs, UInt8.toNat_toUInt64, and_0x7f_toNat,
    Nat.shiftLeft_eq, Nat.mul_comm, hpow, Nat.mul_mod_mul_left, Nat.or_comm,
    ← Nat.two_pow_add_eq_or_of_lt hvalue, Nat.mod_mul, hdiv, Nat.add_mul_mod_self_left,
    Nat.mod_eq_of_lt hvalue, Nat.add_comm]

theorem decodeVarintLoop_eq_ok_iff {value v : UInt64} {k : Nat} {bytes rest : Bytes}
    (hk : k ≤ 9) (hvalue : value.toNat < 2 ^ (7 * k)) :
    decodeVarintLoop value (7 * k) bytes = .ok (v, rest)
      ↔ ∃ enc, IsVarint enc ∧ bytes = enc ++ rest ∧ k + enc.length ≤ 10
        ∧ v.toNat = (value.toNat + 2 ^ (7 * k) * denoted enc) % 2 ^ 64 := by
  induction bytes generalizing value k with
  | nil =>
    refine ⟨fun h => (by cases h), ?_⟩
    rintro ⟨enc, henc, hnil, -⟩
    rw [(append_eq_nil_iff.mp hnil.symm).1] at henc
    cases henc
  | cons b bytes ih =>
    have hacc := @accumulate_toNat value b (7 * k) (by omega) hvalue
    rw [decodeVarintLoop]
    generalize value ||| _ = acc at hacc ⊢
    by_cases hb : b.toNat < 128
    · rw [if_pos ((and_0x80_eq_zero_iff b).mpr hb)]
      constructor
      · intro h
        cases h
        refine ⟨[b], .last hb, rfl, by rw [length_singleton]; omega, ?_⟩
        rw [hacc, denoted, denoted, Nat.mul_zero, Nat.add_zero]
      · rintro ⟨enc, henc, hbytes, -, hv⟩
        cases henc with
        | last =>
          cases hbytes
          rw [denoted, denoted, Nat.mul_zero, Nat.add_zero, ← hacc, UInt64.toNat_inj] at hv
          rw [hv]
          rfl
        | more hmore =>
          cases hbytes
          omega
    · rw [if_neg fun h => hb ((and_0x80_eq_zero_iff b).mp h)]
      by_cases hlast : k = 9
      · rw [if_pos (by omega)]
        refine ⟨fun h => (by cases h), ?_⟩
        rintro ⟨enc, henc, hbytes, hlen, -⟩
        cases henc with
        | last hlt =>
          cases hbytes
          exact absurd hlt hb
        | more _ htail =>
          have hpos := htail.length_pos
          rw [length_cons] at hlen
          omega
      · have hpow : 2 ^ (7 * (k + 1)) = 2 ^ (7 * k) * 128 := Nat.pow_add 2 (7 * k) 7
        have hbits : 2 ^ (7 * k) * (b.toNat % 128) ≤ 2 ^ (7 * k) * 127 :=
          Nat.mul_le_mul_left _ (by omega)
        have hroom : 2 ^ (7 * (k + 1)) ≤ 2 ^ 64 := Nat.pow_le_pow_right (by decide) (by omega)
        rw [Nat.mod_eq_of_lt (by omega)] at hacc
        have hsum : ∀ m, value.toNat + 2 ^ (7 * k) * (b.toNat % 128 + 128 * m)
            = acc.toNat + 2 ^ (7 * (k + 1)) * m := by
          intro m
          rw [hacc, hpow, Nat.mul_add, Nat.mul_assoc, Nat.add_assoc]
        rw [if_neg (by omega)]
        refine (ih (k := k + 1) (by omega) (by omega)).trans ?_
        constructor
        · rintro ⟨enc, henc, rfl, hlen, hv⟩
          refine ⟨b :: enc, .more (by omega) henc, rfl, by rw [length_cons]; omega, ?_⟩
          rw [hv, denoted, hsum]
        · rintro ⟨enc, henc, hbytes, hlen, hv⟩
          cases henc with
          | last hlt =>
            cases hbytes
            exact absurd hlt hb
          | more _ htail =>
            cases hbytes
            rw [length_cons] at hlen
            rw [denoted, hsum] at hv
            exact ⟨_, htail, rfl, by omega, hv⟩

theorem decodeVarint_eq_ok_iff {bytes rest : Bytes} {v : UInt64} :
    decodeVarint bytes = .ok (v, rest) ↔ ∃ enc, IsVarint enc ∧ bytes = enc ++ rest
      ∧ enc.length ≤ 10 ∧ v.toNat = denoted enc % 2 ^ 64 := by
  have h := @decodeVarintLoop_eq_ok_iff 0 v 0 bytes rest (by decide) (by decide)
  simpa [decodeVarint] using h

theorem isVarint_encode (n : UInt64) :
    IsVarint (encodeVarint n) ∧ denoted (encodeVarint n) = n.toNat := by
  fun_induction encodeVarint n with
  | case1 n hbig ih =>
    have hbyte := continuation_toNat n
    refine ⟨.more (by omega) ih.1, ?_⟩
    rw [denoted, ih.2, hbyte, shiftRight_7_toNat]
    omega
  | case2 n hsmall =>
    have hlt : n.toNat < 128 := Nat.lt_of_not_le fun h => hsmall (le_iff_toNat_le.mpr h)
    have hbyte : n.toUInt8.toNat = n.toNat := by
      rw [toNat_toUInt8]
      omega
    refine ⟨.last (by omega), ?_⟩
    rw [denoted, denoted, hbyte]
    omega

theorem encodeVarint_length_le (k : Nat) (value : UInt64) (h : value.toNat < 2 ^ (7 * (k + 1))) :
    (encodeVarint value).length ≤ k + 1 := by
  induction k generalizing value with
  | zero =>
    have hsmall : ¬ value ≥ 0x80 := fun hge =>
      absurd h (Nat.not_lt.mpr (UInt64.le_iff_toNat_le.mp hge))
    rw [encodeVarint, if_neg hsmall]
    rfl
  | succ k ih =>
    rw [encodeVarint]
    split
    · have hpow : 2 ^ (7 * (k + 1 + 1)) = 2 ^ (7 * (k + 1)) * 128 := Nat.pow_add 2 (7 * (k + 1)) 7
      have hrest := ih (value >>> 7) (by rw [shiftRight_7_toNat]; omega)
      rw [length_cons]
      omega
    · simp

theorem encodeVarint_length_le_ten (value : UInt64) : (encodeVarint value).length ≤ 10 :=
  encodeVarint_length_le 9 value (Nat.lt_of_lt_of_le value.toNat_lt (by decide))

theorem encodeVarint_length_pos (n : UInt64) : 0 < (encodeVarint n).length :=
  (isVarint_encode n).1.length_pos

theorem decodeVarint_encode (n : UInt64) (rest : Bytes) :
    decodeVarint (encodeVarint n ++ rest) = .ok (n, rest) := by
  obtain ⟨hvarint, hdenoted⟩ := isVarint_encode n
  refine decodeVarint_eq_ok_iff.mpr ⟨_, hvarint, rfl, encodeVarint_length_le_ten n, ?_⟩
  rw [hdenoted, Nat.mod_eq_of_lt n.toNat_lt]

/-- The decoder is exact iff no varint in front exceeds 64 bits. -/
theorem decode_varint_exact_iff (bytes : Bytes) :
    ((∀ v rest, decodeVarint bytes = .ok (v, rest) ↔ ∃ enc, IsVarint enc
          ∧ bytes = enc ++ rest ∧ enc.length ≤ 10 ∧ denoted enc = v.toNat)
        ↔ ∀ enc rest, IsVarint enc → bytes = enc ++ rest → enc.length ≤ 10 →
          denoted enc < 2 ^ 64)
      ∧ ∀ n rest, decodeVarint (encodeVarint n ++ rest) = .ok (n, rest) := by
  refine ⟨⟨?_, ?_⟩, decodeVarint_encode⟩
  · intro hexact enc rest henc hbytes hlen
    have hok : decodeVarint bytes = .ok (UInt64.ofNat (denoted enc), rest) :=
      decodeVarint_eq_ok_iff.mpr ⟨enc, henc, hbytes, hlen, toNat_ofNat'⟩
    obtain ⟨enc', -, hbytes', -, hdenoted⟩ := (hexact _ _).mp hok
    rw [append_cancel_right (hbytes.symm.trans hbytes'), hdenoted]
    exact UInt64.toNat_lt _
  · intro hsmall v rest
    rw [decodeVarint_eq_ok_iff]
    refine exists_congr fun enc => and_congr_right fun henc => and_congr_right fun hbytes =>
      and_congr_right fun hlen => ?_
    rw [Nat.mod_eq_of_lt (hsmall enc rest henc hbytes hlen), eq_comm]

def overlongVarint : Bytes := List.replicate 9 0x80 ++ [2]

theorem decode_varint_drops_bits : decodeVarint overlongVarint = .ok (0, [])
    ∧ IsVarint overlongVarint ∧ overlongVarint.length = 10 ∧ denoted overlongVarint = 2 ^ 64 := by
  refine ⟨by decide +kernel, ?_, rfl, by decide⟩
  iterate 9 refine .more (by decide) ?_
  exact .last (by decide)

theorem IsVarint.not_proper {enc all rest : Bytes} (h : IsVarint enc) (hall : IsVarint all)
    (heq : all = enc ++ rest) : rest = [] := by
  induction h generalizing all with
  | last hlast =>
    cases hall with
    | last => exact (cons.inj heq).2.symm
    | more hmore =>
      cases heq
      omega
  | more hmore _ ih =>
    cases hall with
    | last hlast =>
      cases (cons.inj heq).1
      omega
    | more _ htail => exact ih htail (cons.inj heq).2

theorem denoted_lt (enc : Bytes) : denoted enc < 2 ^ (7 * enc.length) := by
  induction enc with
  | nil => exact Nat.one_pos
  | cons b enc ih =>
    rw [denoted, length_cons, Nat.mul_succ, Nat.pow_add]
    omega

/-- What `decode_varint` reads is self-delimiting: it does not depend on what
follows, and no shorter part of it is read. What the writer puts for the same
value is the shortest of all. -/
theorem decode_varint_delimits {bytes rest : Bytes} {v : UInt64}
    (h : decodeVarint bytes = .ok (v, rest)) : ∃ enc, bytes = enc ++ rest
      ∧ (∀ rest', decodeVarint (enc ++ rest') = .ok (v, rest'))
      ∧ (∀ n < enc.length, ∃ e, decodeVarint (enc.take n) = .error e)
      ∧ (encodeVarint v).length ≤ enc.length := by
  obtain ⟨enc, henc, rfl, hlen, hv⟩ := decodeVarint_eq_ok_iff.mp h
  refine ⟨enc, rfl, fun rest' => decodeVarint_eq_ok_iff.mpr ⟨enc, henc, rfl, hlen, hv⟩, ?_, ?_⟩
  · intro n hn
    cases hread : decodeVarint (enc.take n) with
    | error e => exact ⟨e, rfl⟩
    | ok read =>
      obtain ⟨enc', henc', htake, -⟩ := decodeVarint_eq_ok_iff.mp hread
      have hsplit : enc' ++ (read.2 ++ enc.drop n) = enc := by
        rw [← append_assoc, ← htake, take_append_drop]
      have hnil := henc'.not_proper henc hsplit.symm
      have hdrop := drop_eq_nil_iff.mp (append_eq_nil_iff.mp hnil).2
      omega
  · obtain ⟨k, hk⟩ := Nat.exists_eq_add_of_lt henc.length_pos
    rw [Nat.zero_add] at hk
    rw [hk]
    refine encodeVarint_length_le k v ?_
    rw [hv, ← hk]
    exact Nat.lt_of_le_of_lt (Nat.mod_le _ _) (denoted_lt enc)

theorem decode_varint_delimits_300 : ∃ enc, [0xac, 0x02, 0x07] = enc ++ [0x07]
    ∧ ∀ rest', decodeVarint (enc ++ rest') = .ok (300, rest') := by
  obtain ⟨enc, hbytes, hreads, -⟩ := @decode_varint_delimits [0xac, 0x02, 0x07] _ _ rfl
  exact ⟨enc, hbytes, hreads⟩

end Logjet
