/-
Bytes read as text: UTF-8 with replacement characters, and lines.
-/
import Mathlib.Data.List.Basic

namespace Utf8

open List

def replacement : Char := Char.ofNat 0xfffd

structure Begun where
  lo : UInt8
  hi : UInt8
  value : Nat
  more : Nat
  continues : 0x80 ≤ lo

def lead (b : UInt8) : Option Begun :=
  if 0xc2 ≤ b ∧ b ≤ 0xdf then
    some ⟨0x80, 0xbf, b.toNat - 0xc0, 0, by decide⟩
  else if b = 0xe0 then some ⟨0xa0, 0xbf, 0, 1, by decide⟩
  else if b = 0xed then some ⟨0x80, 0x9f, 0xd, 1, by decide⟩
  else if 0xe1 ≤ b ∧ b ≤ 0xef then
    some ⟨0x80, 0xbf, b.toNat - 0xe0, 1, by decide⟩
  else if b = 0xf0 then some ⟨0x90, 0xbf, 0, 2, by decide⟩
  else if 0xf1 ≤ b ∧ b ≤ 0xf3 then
    some ⟨0x80, 0xbf, b.toNat - 0xf0, 2, by decide⟩
  else if b = 0xf4 then some ⟨0x80, 0x8f, 4, 2, by decide⟩
  else none

def charOf (value : Nat) : Char :=
  if 0x80 ≤ value ∧ value.isValidChar then Char.ofNat value
  else replacement

def firstByte (b : UInt8) : List Char × Option Begun :=
  if b < 0x80 then ([Char.ofNat b.toNat], none)
  else
    match lead b with
    | some p => ([], some p)
    | none => ([replacement], none)

def nextByte : Option Begun → UInt8 → List Char × Option Begun
  | none, b => firstByte b
  | some p, b =>
    if p.lo ≤ b ∧ b ≤ p.hi then
      let value := p.value * 64 + (b.toNat - 0x80)
      match p.more with
      | 0 => ([charOf value], none)
      | more + 1 => ([], some ⟨0x80, 0xbf, value, more, by decide⟩)
    else (replacement :: (firstByte b).1, (firstByte b).2)

def finish : Option Begun → List Char
  | none => []
  | some _ => [replacement]

def decodeFrom (p : Option Begun) : List UInt8 → List Char
  | [] => finish p
  | b :: bytes => (nextByte p b).1 ++ decodeFrom (nextByte p b).2 bytes

def fromUtf8Lossy (bytes : List UInt8) : List Char := decodeFrom none bytes

theorem nextByte_ascii (p : Option Begun) {b : UInt8} (hb : b < 0x80) :
    nextByte p b = (finish p ++ [Char.ofNat b.toNat], none) := by
  have hfirst : firstByte b = ([Char.ofNat b.toNat], none) := if_pos hb
  cases p with
  | none => exact hfirst
  | some p =>
    have hout : ¬ (p.lo ≤ b ∧ b ≤ p.hi) := by
      intro h
      exact absurd (UInt8.lt_of_le_of_lt (UInt8.le_trans p.continues h.1) hb) (by decide)
    rw [nextByte, if_neg hout, hfirst]
    rfl

theorem decodeFrom_ascii (p : Option Begun) (front : List UInt8) {b : UInt8}
    (hb : b < 0x80) (bytes : List UInt8) : decodeFrom p (front ++ b :: bytes)
      = decodeFrom p front ++ Char.ofNat b.toNat :: fromUtf8Lossy bytes := by
  induction front generalizing p with
  | nil =>
    show (nextByte p b).1 ++ decodeFrom (nextByte p b).2 bytes
      = finish p ++ Char.ofNat b.toNat :: fromUtf8Lossy bytes
    rw [nextByte_ascii p hb, append_assoc]
    rfl
  | cons c front ih => rw [cons_append, decodeFrom, ih, decodeFrom, append_assoc]

theorem fromUtf8Lossy_ascii (front : List UInt8) {b : UInt8} (hb : b < 0x80) (bytes : List UInt8) :
    fromUtf8Lossy (front ++ b :: bytes)
      = fromUtf8Lossy front ++ Char.ofNat b.toNat :: fromUtf8Lossy bytes :=
  decodeFrom_ascii none front hb bytes

def chars (bytes : List UInt8) : List Char := bytes.map fun b => Char.ofNat b.toNat

theorem fromUtf8Lossy_append {front : List UInt8} (h : ∀ b ∈ front, b < 0x80) (bytes : List UInt8) :
    fromUtf8Lossy (front ++ bytes) = chars front ++ fromUtf8Lossy bytes := by
  induction front with
  | nil => rfl
  | cons b front ih =>
    have hb := h b mem_cons_self
    have hcons := fromUtf8Lossy_ascii [] hb (front ++ bytes)
    rw [ih fun c hc => h c (mem_cons_of_mem _ hc)] at hcons
    exact hcons

theorem toNat_ofNat_of_valid {n : Nat} (h : n.isValidChar) : (Char.ofNat n).toNat = n := by
  rw [Char.ofNat, dif_pos h]
  exact UInt32.toNat_ofNatLT ..

theorem le_toNat_charOf (value : Nat) : 0x80 ≤ (charOf value).toNat := by
  unfold charOf
  split
  next h =>
    rw [toNat_ofNat_of_valid h.2]
    exact h.1
  · decide

def Stems (bytes : List UInt8) (c : Char) : Prop :=
  0x80 ≤ c.toNat ∨ ∃ b ∈ bytes, b < 0x80 ∧ c = Char.ofNat b.toNat

theorem firstByte_stems (b : UInt8) : ∀ c ∈ (firstByte b).1, Stems [b] c := by
  intro c hc
  unfold firstByte at hc
  split at hc
  next hb => exact .inr ⟨b, mem_singleton_self b, hb, mem_singleton.mp hc⟩
  · split at hc
    · cases hc
    · rw [mem_singleton.mp hc]
      exact .inl (by decide)

theorem nextByte_stems (p : Option Begun) (b : UInt8) : ∀ c ∈ (nextByte p b).1, Stems [b] c := by
  cases p with
  | none => exact firstByte_stems b
  | some p =>
    intro c hc
    rw [nextByte] at hc
    split at hc
    · dsimp only at hc
      split at hc
      · rw [mem_singleton.mp hc]
        exact .inl (le_toNat_charOf _)
      · cases hc
    · rcases mem_cons.mp hc with rfl | hc
      · exact .inl (by decide)
      · exact firstByte_stems b c hc

theorem decodeFrom_stems (p : Option Begun) (bytes : List UInt8) :
    ∀ c ∈ decodeFrom p bytes, Stems bytes c := by
  induction bytes generalizing p with
  | nil =>
    intro c hc
    cases p with
    | none => cases hc
    | some p =>
      rw [mem_singleton.mp hc]
      exact .inl (by decide)
  | cons b bytes ih =>
    intro c hc
    rcases mem_append.mp hc with hc | hc
    · refine (nextByte_stems p b c hc).imp_right ?_
      rintro ⟨b', hb', h⟩
      exact ⟨b', by simp [mem_singleton.mp hb'], h⟩
    · refine (ih _ c hc).imp_right ?_
      rintro ⟨b', hb', h⟩
      exact ⟨b', mem_cons_of_mem _ hb', h⟩

theorem newline_not_mem {bytes : List UInt8} (h : (10 : UInt8) ∉ bytes) :
    '\n' ∉ fromUtf8Lossy bytes := by
  intro hc
  rcases decodeFrom_stems none bytes _ hc with hbig | ⟨b, hb, hlt, heq⟩
  · exact absurd hbig (by decide)
  · have hbyte := b.toNat_lt
    have hnat : ('\n' : Char).toNat = b.toNat := by rw [heq, toNat_ofNat_of_valid (.inl (by omega))]
    have hten : b = 10 := UInt8.toNat_inj.mp hnat.symm
    exact h (hten ▸ hb)

def stripCarriageReturn (line : List Char) : List Char :=
  if line.getLast? = some '\r' then line.dropLast else line

def linesFrom (line : List Char) : List Char → List (List Char)
  | [] => if line.isEmpty then [] else [line]
  | c :: text =>
    if c = '\n' then stripCarriageReturn line :: linesFrom [] text
    else linesFrom (line ++ [c]) text

def lines (text : List Char) : List (List Char) := linesFrom [] text

theorem linesFrom_append {line front : List Char} (h : '\n' ∉ front) (text : List Char) :
    linesFrom line (front ++ text) = linesFrom (line ++ front) text := by
  induction front generalizing line with
  | nil => rw [nil_append, append_nil]
  | cons c front ih =>
    have hc : c ≠ '\n' := fun heq => h (heq ▸ mem_cons_self)
    rw [cons_append, linesFrom, if_neg hc, ih fun hmem => h (mem_cons_of_mem _ hmem), append_assoc]
    rfl

theorem lines_crlf {line : List Char} (h : '\n' ∉ line) (text : List Char) :
    lines (line ++ '\r' :: '\n' :: text) = line :: lines text := by
  have hcr : '\n' ∉ line ++ ['\r'] := by
    intro hmem
    rcases mem_append.mp hmem with hmem | hmem
    · exact h hmem
    · exact absurd (mem_singleton.mp hmem) (by decide)
  rw [show line ++ '\r' :: '\n' :: text = (line ++ ['\r']) ++ '\n' :: text by
    simp, lines, linesFrom_append hcr, nil_append, linesFrom,
    if_pos rfl, stripCarriageReturn, if_pos (by simp), dropLast_concat]
  rfl

end Utf8
