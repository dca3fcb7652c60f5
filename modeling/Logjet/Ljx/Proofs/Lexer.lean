/-
What the lexer of free text puts for a token, rule by rule (`Lexes`). On ASCII
the output lexes to itself.
-/
import Logjet.Ljx.CanonFreetext
import Logjet.Proofs.Text

namespace Logjet.Ljx

open List

def NotAhead (p : UInt8 → Bool) (rest : Bytes) : Prop := ∀ b, rest.head? = some b → p b = false

def isHexNumber (run : Bytes) : Bool := run.any isHexAlpha && run.any isAsciiDigit && 8 ≤ run.length

inductive Lexes : Bytes → Text → Prop
  | nil : Lexes [] []
  | byte {b rest out} : isAsciiHexdigit b = false → isAsciiAlphabetic b = false → Lexes rest out →
      Lexes (b :: rest) (byteChar b :: out)
  | hex {b run rest out} : (∀ a ∈ b :: run, isAsciiHexdigit a = true) →
      isHexNumber (b :: run) = true → NotAhead isAsciiHexdigit rest →
      Lexes rest out → Lexes (b :: run ++ rest) ("_HEX_".toList ++ out)
  | num {b run rest out} : isAsciiAlphabetic b = false →
      (∀ a ∈ b :: run, isAsciiHexdigit a = true) →
      isHexNumber (b :: run) = false → 3 ≤ (b :: run).length →
      NotAhead isAsciiHexdigit rest → Lexes rest out →
      Lexes (b :: run ++ rest) ("_N_".toList ++ out)
  | short {b run rest out} : isAsciiAlphabetic b = false →
      (∀ a ∈ b :: run, isAsciiHexdigit a = true) → (b :: run).length < 3 →
      NotAhead isAsciiHexdigit rest → Lexes rest out →
      Lexes (b :: run ++ rest) ((b :: run).map byteChar ++ out)
  | word {b run rest out} : (∀ a ∈ b :: run, isAsciiAlphabetic a = true) →
      isHexNumber ((b :: run ++ rest).takeWhile isAsciiHexdigit) = false →
      NotAhead isAsciiAlphabetic rest → Lexes rest out →
      Lexes (b :: run ++ rest) ((b :: run).map byteChar ++ out)

theorem takeWhile_run {p : UInt8 → Bool} {run rest : Bytes}
    (hrun : ∀ a ∈ run, p a = true) (hrest : NotAhead p rest) : (run ++ rest).takeWhile p = run := by
  induction run with
  | nil =>
    cases rest with
    | nil => rfl
    | cons b rest =>
      simp [hrest b rfl]
  | cons a run ih =>
    rw [cons_append, takeWhile_cons_of_pos (hrun a mem_cons_self),
      ih fun b hb => hrun b (mem_cons_of_mem _ hb)]

theorem notAhead_dropWhile (p : UInt8 → Bool) (bytes : Bytes) : NotAhead p (bytes.dropWhile p) := by
  intro b hb
  have hhead := head?_dropWhile_not p bytes
  rw [hb] at hhead
  simpa using hhead

theorem run_split {p : UInt8 → Bool} {b : UInt8} {rest : Bytes} (hb : p b = true) :
    ∃ run, (b :: rest).takeWhile p = b :: run
      ∧ b :: rest = b :: run ++ (b :: rest).drop (b :: run).length ∧ (∀ a ∈ b :: run, p a = true)
      ∧ NotAhead p ((b :: rest).drop (b :: run).length) := by
  have htake : (b :: rest).takeWhile p = b :: rest.takeWhile p := takeWhile_cons_of_pos hb
  have hdrop : (b :: rest).drop (b :: rest.takeWhile p).length = (b :: rest).dropWhile p := by
    rw [← htake]
    nth_rewrite 2 [← @takeWhile_append_dropWhile _ p (b :: rest)]
    exact drop_left
  refine ⟨rest.takeWhile p, htake, ?_, ?_, ?_⟩
  · rw [hdrop, ← htake, takeWhile_append_dropWhile]
  · rw [← htake]
    exact all_eq_true.mp all_takeWhile
  · rw [hdrop]
    exact notAhead_dropWhile p _

theorem not_frame_of_hex : ∀ {b}, isAsciiHexdigit b = true → ¬ isFrameChar b = true := by
  decide +kernel

theorem not_frame_of_alpha : ∀ {b}, isAsciiAlphabetic b = true → ¬ isFrameChar b = true := by
  decide +kernel

theorem alpha_of_hex : ∀ {b}, isAsciiHexdigit b = true → isAsciiAlphabetic b = !isAsciiDigit b := by
  decide +kernel

theorem digit_imp : ∀ {b}, isAsciiDigit b = true →
    isAsciiHexdigit b = true ∧ isAsciiAlphabetic b = false := by decide +kernel

variable {bytes run : Bytes} {out : Text} {p : UInt8 → Bool}

theorem exists_lexes (bytes : Bytes) : ∃ out, Lexes bytes out := by
  induction hn : bytes.length using Nat.strong_induction_on generalizing bytes with
  | h n ih =>
    subst hn
    cases bytes with
    | nil => exact ⟨_, .nil⟩
    | cons b rest =>
      have hword : isAsciiAlphabetic b = true →
          isHexNumber ((b :: rest).takeWhile isAsciiHexdigit) = false →
          ∃ out, Lexes (b :: rest) out := by
        intro halpha hnum
        obtain ⟨run, htake, hsplit, hall, hahead⟩ := @run_split _ b rest halpha
        obtain ⟨out, hout⟩ := ih _ (htake ▸ length_drop_takeWhile_lt halpha) _ rfl
        rw [hsplit] at hnum ⊢
        exact ⟨_, .word hall hnum hahead hout⟩
      cases hhex : isAsciiHexdigit b with
      | true =>
        obtain ⟨run, htake, hsplit, hall, hahead⟩ := @run_split _ b rest hhex
        obtain ⟨out, hout⟩ := ih _ (htake ▸ length_drop_takeWhile_lt hhex) _ rfl
        cases hnum : isHexNumber (b :: run) with
        | true =>
          rw [hsplit]
          exact ⟨_, .hex hall hnum hahead hout⟩
        | false =>
          cases halpha : isAsciiAlphabetic b with
          | true => exact hword halpha (htake ▸ hnum)
          | false =>
            rw [hsplit]
            by_cases hlen : 3 ≤ (b :: run).length
            · exact ⟨_, .num halpha hall hnum hlen hahead hout⟩
            · exact ⟨_, .short halpha hall (Nat.lt_of_not_le hlen) hahead hout⟩
      | false =>
        cases halpha : isAsciiAlphabetic b with
        | true =>
          refine hword halpha ?_
          rw [takeWhile_cons_of_neg (ne_true_of_eq_false hhex)]
          rfl
        | false =>
          obtain ⟨out, hout⟩ := ih rest.length (Nat.lt_succ_self _) rest rfl
          exact ⟨_, .byte hhex halpha hout⟩

theorem Lexes.eq (h : Lexes bytes out) : compoundMiniLexer bytes = out := by
  induction h with
  | nil => rw [compoundMiniLexer]
  | @byte b rest out hhex halpha _ ih =>
    rw [compoundMiniLexer, ih, dif_neg (ne_true_of_eq_false hhex),
      dif_neg (ne_true_of_eq_false halpha), ite_self]
  | @hex b run rest out hall hnum hahead _ ih =>
    have hb := hall b mem_cons_self
    have htake := takeWhile_run hall hahead
    unfold isHexNumber at hnum
    rw [cons_append] at htake ⊢
    rw [compoundMiniLexer, if_neg (not_frame_of_hex hb), dif_pos hb, htake,
      if_pos hnum, ← cons_append, drop_left, ih]
  | @num b run rest out halpha hall hnum hlen hahead _ ih =>
    have hb := hall b mem_cons_self
    have htake := takeWhile_run hall hahead
    unfold isHexNumber at hnum
    rw [cons_append] at htake ⊢
    rw [compoundMiniLexer, if_neg (not_frame_of_hex hb), dif_pos hb, htake,
      if_neg (ne_true_of_eq_false hnum), dif_neg (ne_true_of_eq_false halpha), if_pos hlen,
      ← cons_append, drop_left, ih]
  | @short b run rest out halpha hall hlen hahead _ ih =>
    have hb := hall b mem_cons_self
    have htake := takeWhile_run hall hahead
    have hnum : ¬ ((b :: run).any isHexAlpha && (b :: run).any isAsciiDigit
        && decide (8 ≤ (b :: run).length)) = true := by
      simp only [Bool.and_eq_true, decide_eq_true_eq]
      omega
    rw [cons_append] at htake ⊢
    rw [compoundMiniLexer, if_neg (not_frame_of_hex hb), dif_pos hb, htake,
      if_neg hnum, dif_neg (ne_true_of_eq_false halpha),
      if_neg (by omega), ← cons_append, drop_left, ih]
  | @word b run rest out hall hnum hahead _ ih =>
    have hb := hall b mem_cons_self
    have htake := takeWhile_run hall hahead
    unfold isHexNumber at hnum
    rw [cons_append] at htake hnum ⊢
    rw [compoundMiniLexer, if_neg (not_frame_of_alpha hb), htake,
      dif_pos hb, dif_pos hb, if_neg (ne_true_of_eq_false hnum),
      ← cons_append, drop_left, ih, dite_eq_ite, ite_self]

theorem lexes (bytes : Bytes) : Lexes bytes (compoundMiniLexer bytes) := by
  obtain ⟨out, h⟩ := exists_lexes bytes
  rw [h.eq]
  exact h

def isWordChar (c : Char) : Bool := c.isAlphanum || c = '_'

theorem isWordChar_of_hex : ∀ {b}, isAsciiHexdigit b = true → isWordChar (byteChar b) = true := by
  decide +kernel

theorem wordChar_map (h : ∀ a ∈ run, isAsciiHexdigit a = true) :
    ∀ c ∈ run.map byteChar, (!isWordChar c) = false := by
  intro c hc
  obtain ⟨b, hb, rfl⟩ := mem_map.mp hc
  rw [isWordChar_of_hex (h b hb)]
  rfl

theorem Lexes.masked (h : Lexes bytes out) :
    Masked (fun c => !isWordChar c) (bytes.map byteChar) out := by
  induction h with
  | nil => exact .nil
  | byte _ _ _ ih => exact .keep _ ih
  | hex hall _ _ _ ih =>
    rw [map_append]
    exact .swap (by simp) (by decide) (wordChar_map hall) (forall_mem_of_all_not rfl) ih
  | num _ hall _ _ _ _ ih =>
    rw [map_append]
    exact .swap (by simp) (by decide) (wordChar_map hall) (forall_mem_of_all_not rfl) ih
  | short _ _ _ _ _ ih =>
    rw [map_append]
    exact .keeps _ ih
  | word _ _ _ _ ih =>
    rw [map_append]
    exact .keeps _ ih

theorem isHigh_of_isWordChar {c : Char} (h : isWordChar c = true) : isHigh c = false := by
  rw [isWordChar, Bool.or_eq_true, decide_eq_true_eq] at h
  rcases h with h | rfl
  · exact isHigh_of_isAlphanum h
  · rfl

theorem Lexes.countP_high {p : Char → Bool}
    (h : Lexes bytes out) (hp : ∀ c, p c = true → isHigh c = true) :
    (bytes.map byteChar).countP p = out.countP p := by
  refine h.masked.countP_eq fun c hc => ?_
  cases hword : isWordChar c with
  | false => rfl
  | true =>
    have hhigh := hp c hc
    rw [isHigh_of_isWordChar hword] at hhigh
    cases hhigh

theorem Lexes.underscore_or_eq (h : Lexes bytes out) : '_' ∈ out ∨ out = bytes.map byteChar := by
  induction h with
  | nil => exact .inr rfl
  | byte _ _ _ ih =>
    rcases ih with ih | ih
    · exact .inl (mem_cons_of_mem _ ih)
    · exact .inr (by rw [ih, map_cons])
  | hex | num => exact .inl (mem_append_left _ (by decide))
  | short _ _ _ _ _ ih | word _ _ _ _ ih =>
    rcases ih with ih | ih
    · exact .inl (mem_append_right _ ih)
    · exact .inr (by rw [ih, map_append])

theorem isAlpha_byteChar : ∀ b, isAsciiAlphabetic b = (byteChar b).isAlpha := by decide +kernel

theorem isDigit_byteChar : ∀ b, isAsciiDigit b = (byteChar b).isDigit := by decide +kernel

theorem any_map_byteChar {q : Char → Bool} (hpq : ∀ b, p b = q (byteChar b)) (run : Bytes) :
    (run.map byteChar).any q = run.any p := by
  rw [any_map]
  exact congrArg _ (funext fun b => (hpq b).symm)

theorem Lexes.any_isAlpha (h : Lexes bytes out) (halpha : bytes.any isAsciiAlphabetic = true) :
    out.any Char.isAlpha = true := by
  induction h with
  | nil => cases halpha
  | @byte b _ _ _ hb _ ih =>
    rw [any_cons, hb, Bool.false_or] at halpha
    rw [any_cons, ih halpha, Bool.or_true]
  | hex | num => rw [any_append, show List.any _ Char.isAlpha = true by decide, Bool.true_or]
  | short _ _ _ _ _ ih | word _ _ _ _ ih =>
    rw [any_append, Bool.or_eq_true] at halpha
    rw [any_append, any_map_byteChar isAlpha_byteChar, Bool.or_eq_true]
    exact halpha.imp_right ih

inductive DigitsReplaced : Bytes → Prop
  | nil : DigitsReplaced []
  | byte {b rest} : isAsciiHexdigit b = false → isAsciiAlphabetic b = false → DigitsReplaced rest →
      DigitsReplaced (b :: rest)
  | number {b run rest} : (∀ a ∈ b :: run, isAsciiHexdigit a = true) → isHexNumber (b :: run) = true
        ∨ isAsciiAlphabetic b = false ∧ 3 ≤ (b :: run).length →
      NotAhead isAsciiHexdigit rest → DigitsReplaced rest → DigitsReplaced (b :: run ++ rest)
  | word {b run rest} : (∀ a ∈ b :: run, isAsciiAlphabetic a = true) →
      isHexNumber ((b :: run ++ rest).takeWhile isAsciiHexdigit) = false →
      NotAhead isAsciiAlphabetic rest → DigitsReplaced rest → DigitsReplaced (b :: run ++ rest)

theorem Lexes.no_digit_iff (h : Lexes bytes out) :
    out.any Char.isDigit = false ↔ DigitsReplaced bytes := by
  constructor
  · intro hnone
    induction h with
    | nil => exact .nil
    | byte hhex halpha _ ih =>
      rw [any_cons, Bool.or_eq_false_iff] at hnone
      exact .byte hhex halpha (ih hnone.2)
    | hex hall hnum hahead _ ih =>
      rw [any_append, Bool.or_eq_false_iff] at hnone
      exact .number hall (.inl hnum) hahead (ih hnone.2)
    | num halpha hall _ hlen hahead _ ih =>
      rw [any_append, Bool.or_eq_false_iff] at hnone
      exact .number hall (.inr ⟨halpha, hlen⟩) hahead (ih hnone.2)
    | @short b run rest out halpha hall =>
      have hdigit : isAsciiDigit b = true := by
        rw [alpha_of_hex (hall b mem_cons_self)] at halpha
        simpa using halpha
      rw [any_append, any_map_byteChar isDigit_byteChar, any_cons, hdigit] at hnone
      cases hnone
    | word hall hnum hahead _ ih =>
      rw [any_append, Bool.or_eq_false_iff] at hnone
      exact .word hall hnum hahead (ih hnone.2)
  · intro hreplaced
    rw [← h.eq]
    clear h
    induction hreplaced with
    | nil => rw [compoundMiniLexer]; rfl
    | byte hhex halpha _ ih =>
      rw [(Lexes.byte hhex halpha (lexes _)).eq, any_cons, ih, Bool.or_false, ← isDigit_byteChar]
      refine eq_false_of_ne_true fun hdigit => ?_
      exact ne_true_of_eq_false hhex (digit_imp hdigit).1
    | @number b run rest hall hlong hahead _ ih =>
      cases hnum : isHexNumber (b :: run) with
      | true =>
        rw [(Lexes.hex hall hnum hahead (lexes _)).eq, any_append, ih]
        decide
      | false =>
        rw [hnum] at hlong
        obtain ⟨halpha, hlen⟩ := hlong.resolve_left Bool.false_ne_true
        rw [(Lexes.num halpha hall hnum hlen hahead (lexes _)).eq, any_append, ih]
        decide
    | @word b run rest hall hnum hahead _ ih =>
      rw [(Lexes.word hall hnum hahead (lexes _)).eq, any_append, ih,
        any_map_byteChar isDigit_byteChar, Bool.or_false, List.any_eq_false]
      intro a ha hdigit
      have halpha := hall a ha
      rw [(digit_imp hdigit).2] at halpha
      cases halpha

def backBytes (text : Text) : Bytes := text.map fun c => UInt8.ofNat c.toNat

theorem backBytes_byteChar (b : UInt8) (text : Text) :
    backBytes (byteChar b :: text) = b :: backBytes text := by
  rw [backBytes, map_cons, toNat_byteChar, UInt8.ofNat_toNat]
  rfl

theorem backBytes_map (bytes : Bytes) : backBytes (bytes.map byteChar) = bytes := by
  induction bytes with
  | nil => rfl
  | cons b bytes ih => rw [map_cons, backBytes_byteChar, ih]

theorem backBytes_append (a b : Text) :
    backBytes (a ++ b) = backBytes a ++ backBytes b := map_append

theorem takeWhile_append_mono (run : Bytes) {x y : Bytes}
    (h : x.takeWhile p <+: y.takeWhile p) : (run ++ x).takeWhile p <+: (run ++ y).takeWhile p := by
  induction run with
  | nil => exact h
  | cons a run ih =>
    rw [cons_append, cons_append, takeWhile_cons, takeWhile_cons]
    split
    · rw [cons_prefix_cons]
      exact ⟨rfl, ih⟩
    · exact nil_prefix

theorem Lexes.takeWhile_le (h : Lexes bytes out) (hp : p 0x5f = false) (hword : ∀ b, p b = true →
      isAsciiHexdigit b = true ∨ isAsciiAlphabetic b = true) :
    (backBytes out).takeWhile p <+: bytes.takeWhile p := by
  have hput : ∀ (put out : Text), put.head? = some '_' →
      (backBytes (put ++ out)).takeWhile p = [] := by
    intro put out hhead
    cases put with
    | nil => cases hhead
    | cons c put =>
      cases hhead
      exact takeWhile_cons_of_neg (ne_true_of_eq_false hp)
  induction h with
  | nil => exact nil_prefix
  | @byte b rest out hhex halpha _ ih =>
    have hb : ¬ p b = true := by
      intro hb
      rcases hword b hb with hb | hb
      · exact ne_true_of_eq_false hhex hb
      · exact ne_true_of_eq_false halpha hb
    rw [backBytes_byteChar, takeWhile_cons_of_neg hb]
    exact nil_prefix
  | hex | num =>
    rw [hput _ _ rfl]
    exact nil_prefix
  | short _ _ _ _ _ ih | word _ _ _ _ ih =>
    rw [backBytes_append, backBytes_map]
    exact takeWhile_append_mono _ ih

theorem Lexes.notAhead (h : Lexes bytes out) (hp : p 0x5f = false) (hword : ∀ b, p b = true →
      isAsciiHexdigit b = true ∨ isAsciiAlphabetic b = true)
    (hahead : NotAhead p bytes) : NotAhead p (backBytes out) := by
  have hnone : bytes.takeWhile p = [] := @takeWhile_run p [] bytes (forall_mem_nil _) hahead
  have hle := h.takeWhile_le hp hword
  rw [hnone, prefix_nil] at hle
  intro b hb
  cases hback : backBytes out with
  | nil =>
    rw [hback] at hb
    cases hb
  | cons a rest =>
    rw [hback] at hb hle
    cases hb
    cases hpb : p b with
    | false => rfl
    | true =>
      rw [takeWhile_cons_of_pos hpb] at hle
      cases hle

theorem isHexNumber_mono {run' : Bytes} (h : run <+: run')
    (hnot : isHexNumber run' = false) : isHexNumber run = false := by
  obtain ⟨more, rfl⟩ := h
  cases hrun : isHexNumber run with
  | false => rfl
  | true =>
    refine absurd hnot (ne_false_of_eq_true ?_)
    simp only [isHexNumber, Bool.and_eq_true, decide_eq_true_eq] at hrun ⊢
    obtain ⟨⟨halpha, hdigit⟩, hlen⟩ := hrun
    rw [any_append, any_append, halpha, hdigit, length_append]
    refine ⟨⟨rfl, rfl⟩, ?_⟩
    omega

theorem Lexes.again (h : Lexes bytes out) : Lexes (backBytes out) out := by
  induction h with
  | nil => exact .nil
  | byte hhex halpha _ ih =>
    rw [backBytes_byteChar]
    exact .byte hhex halpha ih
  | @hex b run rest out hall hnum hahead h ih =>
    have hrest : Lexes (0x5f :: backBytes out) ('_' :: out) := .byte (b := 0x5f) rfl rfl ih
    have hword : Lexes ([0x48, 0x45, 0x58] ++ 0x5f :: backBytes out) ("HEX".toList ++ '_' :: out) :=
      .word (all_eq_true.mp rfl) rfl (by intro b hb; cases hb; rfl) hrest
    exact .byte (b := 0x5f) rfl rfl hword
  | @num b run rest out _ hall hnum hlen hahead h ih =>
    have hrest : Lexes (0x5f :: backBytes out) ('_' :: out) := .byte (b := 0x5f) rfl rfl ih
    have hword : Lexes ([0x4e] ++ 0x5f :: backBytes out) ("N".toList ++ '_' :: out) :=
      .word (all_eq_true.mp rfl) rfl (by intro b hb; cases hb; rfl) hrest
    exact .byte (b := 0x5f) rfl rfl hword
  | short halpha hall hlen hahead h ih =>
    rw [backBytes_append, backBytes_map]
    exact .short halpha hall hlen (h.notAhead rfl (fun _ => .inl) hahead) ih
  | @word b run rest out hall hnum hahead h ih =>
    rw [backBytes_append, backBytes_map]
    have hle := takeWhile_append_mono (b :: run)
      (h.takeWhile_le (p := isAsciiHexdigit) rfl fun _ => .inl)
    exact .word hall (isHexNumber_mono hle hnum) (h.notAhead rfl (fun _ => .inr) hahead) ih

theorem Lexes.digits_le (h : Lexes bytes out) :
    ((backBytes out).takeWhile isAsciiDigit).length ≤ 2 := by
  cases h with
  | nil => exact Nat.zero_le _
  | byte hhex =>
    rw [backBytes_byteChar, takeWhile_cons_of_neg]
    · exact Nat.zero_le _
    · intro hb
      exact ne_true_of_eq_false hhex (digit_imp hb).1
  | hex | num => exact Nat.zero_le _
  | @short b run rest out halpha hall hlen hahead h =>
    have hdigits : NotAhead isAsciiDigit rest := by
      intro a ha
      refine eq_false_of_ne_true fun hdigit => ?_
      exact ne_true_of_eq_false (hahead a ha) (digit_imp hdigit).1
    have hnone : (backBytes out).takeWhile isAsciiDigit = [] :=
      @takeWhile_run isAsciiDigit [] _ (forall_mem_nil _)
        (h.notAhead rfl (fun a ha => .inl (digit_imp ha).1) hdigits)
    have hle := takeWhile_append_mono (b :: run) (x := backBytes out) (y := []) (p := isAsciiDigit)
      (hnone ▸ nil_prefix)
    rw [backBytes_append, backBytes_map]
    have hfront : (b :: run ++ []).takeWhile isAsciiDigit <+: b :: run ++ [] :=
      takeWhile_prefix isAsciiDigit
    have hshort := hfront.length_le
    rw [append_nil] at hle hshort
    have := hle.length_le
    omega
  | @word b run rest out hall =>
    rw [backBytes_append, backBytes_map, cons_append, takeWhile_cons_of_neg]
    · exact Nat.zero_le _
    · intro hb
      have halpha := hall b mem_cons_self
      rw [(digit_imp hb).2] at halpha
      cases halpha

end Logjet.Ljx
