/-
What a second pass makes of what was put for a token: no replacing rule asks
for what is in it (`Tame`).
-/
import Logjet.Ljx.Proofs.Lexer

namespace Logjet.Ljx

open List

def isAlien (c : Char) : Bool := c = '_' || isHigh c

def isAlienByte (b : UInt8) : Bool := b = 0x5f || 0x80 ≤ b

theorem exists_alienByte {text : Text} (h : ∃ c ∈ text, isAlien c = true) :
    ∃ b ∈ utf8 text, isAlienByte b = true := by
  obtain ⟨c, hc, halien⟩ := h
  have hsub : ∀ b ∈ String.utf8EncodeChar c, b ∈ utf8 text := by
    intro b hb
    rw [utf8_eq_flatMap]
    exact mem_flatMap.mpr ⟨c, hc, hb⟩
  cases hhigh : isHigh c with
  | false =>
    rw [isAlien, hhigh, Bool.or_false, decide_eq_true_eq] at halien
    refine ⟨0x5f, hsub _ ?_, rfl⟩
    rw [halien]
    decide
  | true =>
    obtain ⟨hlen, hbytes⟩ := encode_high hhigh
    obtain ⟨b, hb⟩ := exists_mem_of_length_pos (show 0 < (String.utf8EncodeChar c).length by omega)
    refine ⟨b, hsub b hb, ?_⟩
    rw [isAlienByte, Bool.or_eq_true, decide_eq_true_eq]
    exact .inr (decide_eq_true (hbytes b hb))

theorem not_hex_of_alien : ∀ b, isAlienByte b = true → isAsciiHexdigit b = false := by
  decide +kernel

section

variable {text : Text} (halien : ∃ c ∈ text, isAlien c = true)

include halien

variable {p : UInt8 → Bool}

theorem not_all_of_alien (hp : ∀ b, isAlienByte b = true → p b = false) :
    (utf8 text).all p = false := by
  obtain ⟨b, hb, hbyte⟩ := exists_alienByte halien
  rw [all_eq_false]
  exact ⟨b, hb, ne_true_of_eq_false (hp b hbyte)⟩

theorem not_shape_of_alien {shape : Bool} (hshape : shape = true → ∀ b ∈ utf8 text, p b = true)
    (hp : ∀ b, isAlienByte b = true → p b = false) : shape = false := by
  cases hs : shape with
  | false => rfl
  | true =>
    have hall := all_eq_true.mpr (hshape hs)
    rw [not_all_of_alien halien hp] at hall
    cases hall

theorem not_isUuid : isUuid (utf8 text) = false := by
  refine not_shape_of_alien halien (p := fun b => isAsciiHexdigit b || b == 0x2d) ?_ (by
    decide +kernel)
  intro huuid b hb
  rw [isUuid, dashedHex, Bool.and_eq_true] at huuid
  obtain ⟨i, hi, rfl⟩ := mem_iff_getElem.mp hb
  have hall := all_eq_true.mp huuid.2 ((utf8 text)[i], i)
    (mem_zipIdx_iff_getElem?.mpr (by simp [hi]))
  dsimp only at hall
  split at hall
  · rw [of_decide_eq_true hall]
    rfl
  · rw [hall, Bool.true_or]

theorem not_isMac : isMac (utf8 text) = false := by
  refine not_shape_of_alien halien (p := fun b => isAsciiHexdigit b || b == 0x3a) ?_ (by
    decide +kernel)
  intro hmac b hb
  rw [isMac, Bool.and_eq_true, decide_eq_true_eq] at hmac
  obtain ⟨i, hi, rfl⟩ := mem_iff_getElem.mp hb
  have hall := all_eq_true.mp hmac.2 (i / 3) (mem_range.mpr (by omega))
  simp only [Bool.and_eq_true, Bool.or_eq_true, decide_eq_true_eq] at hall
  have hget : (utf8 text)[i]? = some (utf8 text)[i] := by simp [hi]
  obtain hr | hr | hr : i % 3 = 0 ∨ i % 3 = 1 ∨ i % 3 = 2 := by omega
  · rw [show 3 * (i / 3) = i by omega, hget] at hall
    rw [show isAsciiHexdigit (utf8 text)[i] = true from hall.1.1, Bool.true_or]
  · rw [show 3 * (i / 3) + 1 = i by omega, hget] at hall
    rw [show isAsciiHexdigit (utf8 text)[i] = true from hall.1.2, Bool.true_or]
  · rw [show 3 * (i / 3) + 2 = i by omega, hget] at hall
    rcases hall.2 with hlast | hcolon
    · omega
    · rw [Option.some.inj hcolon]
      rfl

theorem not_isIpv6 : isIpv6 text = false := by
  obtain ⟨c, hc, halien⟩ := halien
  have hcolon : c ≠ ':' := by
    rintro rfl
    cases halien
  rw [← @intercalate_splitOn _ text _ _ ':'] at hc
  rcases mem_intercalate hc with hc | ⟨g, hg, hcg⟩
  · exact absurd hc hcolon
  · have hgroup := not_all_of_alien ⟨c, hcg, halien⟩ not_hex_of_alien
    have hempty : g.isEmpty = false := isEmpty_eq_false_iff.mpr (ne_nil_of_mem hcg)
    rw [isIpv6, Bool.and_eq_false_iff]
    refine .inr (all_eq_false.mpr ⟨g, hg, ?_⟩)
    rw [hempty, hgroup, Bool.and_false]
    decide

theorem not_prefixed_hex : (2 < (utf8 text).length && (utf8 text)[0]? = some 0x30
      && ((utf8 text)[1]? = some 0x78 || (utf8 text)[1]? = some 0x58)
      && ((utf8 text).drop 2).all isAsciiHexdigit) = false := by
  refine not_shape_of_alien halien (p := fun b => isAsciiHexdigit b
    || b == 0x30 || b == 0x78 || b == 0x58) ?_ (by decide +kernel)
  generalize utf8 text = bytes
  intro hshape b hb
  simp only [Bool.and_eq_true, Bool.or_eq_true, decide_eq_true_eq, all_eq_true] at hshape
  obtain ⟨⟨⟨-, hzero⟩, hx⟩, hrest⟩ := hshape
  rcases bytes with _ | ⟨first, _ | ⟨second, rest⟩⟩
  · cases hb
  · simp at hx
  · simp only [getElem?_cons_zero, getElem?_cons_succ,
      Option.some.injEq, drop_succ_cons, drop_zero] at hzero hx hrest
    simp only [mem_cons] at hb
    rcases hb with rfl | rfl | hb
    · simp [hzero]
    · rcases hx with hx | hx <;> simp [hx]
    · simp [hrest b hb]

end

theorem not_isFloat {b : Bytes} (h : b.any isAsciiAlphabetic = true) : isFloat b = false := by
  have hstop : ∀ (b : Bytes) (n : Nat) (dotPos : Option Nat), b.any isAsciiAlphabetic = true →
        (b.zipIdx n).foldlM floatStep dotPos = none := by
    intro b
    induction b with
    | nil =>
      intro n dotPos h
      cases h
    | cons a b ih =>
      intro n dotPos h
      rw [zipIdx_cons, foldlM_cons]
      cases hstep : floatStep dotPos (a, n) with
      | none => rfl
      | some dotPos' =>
        refine ih (n + 1) dotPos' ?_
        rw [any_cons, Bool.or_eq_true] at h
        refine h.resolve_left fun ha => ?_
        have hdot : a ≠ 0x2e := by
          rintro rfl
          cases ha
        have hdigit : isAsciiDigit a = false := by
          refine eq_false_of_ne_true fun hdigit => ?_
          rw [(digit_imp hdigit).2] at ha
          cases ha
        simp [floatStep, hdot, hdigit] at hstep
  rw [isFloat, hstop b 0 none h]

section

variable (u : UnicodeClasses)

variable {text r : Text} {c : Prop} {a b : TokenClass}

theorem isIso8601_digits (h : isIso8601 u text = true) :
    ∃ a b c rest, text = a :: b :: c :: rest ∧ u.digit a = true
      ∧ u.digit b = true ∧ u.digit c = true := by
  rw [isIso8601, iso8601, Regex.find_start] at h
  obtain ⟨q, hq⟩ := Option.isSome_iff_exists.mp h
  obtain ⟨p, hp, -⟩ := mem_flatMap.mp (mem_of_mem_head? hq)
  obtain ⟨a, ra, rfl, ha, hp⟩ := Regex.mem_seq_one hp
  obtain ⟨b, rb, rfl, hb, hp⟩ := Regex.mem_seq_one hp
  obtain ⟨c, rest, rfl, hc, -⟩ := Regex.mem_seq_one hp
  exact ⟨a, b, c, rest, rfl, ha, hb, hc⟩

structure Tame (text : Text) : Prop where
  alpha : text.any Char.isAlpha = true
  alien : ∃ c ∈ text, isAlien c = true
  digits : ∀ a b c rest, text = a :: b :: c :: rest →
    ¬ (u.digit a = true ∧ u.digit b = true ∧ u.digit c = true)
  path : ¬ (text.head? = some '/' ∧ 2 ≤ text.count '/')
  quoted : isQuoted (utf8 text) = false

omit u in
theorem any_alpha_eq (text : Text) : (utf8 text).any isAsciiAlphabetic = text.any Char.isAlpha := by
  refine utf8_any isAlpha_byteChar (fun c hc => ?_) text
  exact isHigh_of_isAlphanum (by rw [Char.isAlphanum, hc, Bool.true_or])

omit u in
theorem any_digit_eq (text : Text) : (utf8 text).any isAsciiDigit = text.any Char.isDigit := by
  refine utf8_any isDigit_byteChar (fun c hc => ?_) text
  exact isHigh_of_isAlphanum (by rw [Char.isAlphanum, hc, Bool.or_true])

theorem Tame.classify (h : Tame u text) : classifyToken u text
      = if text.any Char.isDigit = true ∧ ¬ [':', ':'] <:+: text then
          .compound (compoundMiniLexer (utf8 text))
        else .preserve := by
  have halpha := (any_alpha_eq text).trans h.alpha
  have hempty : ¬ text.isEmpty = true := by
    obtain ⟨c, hc, -⟩ := h.alien
    simp [ne_nil_of_mem hc]
  have hiso : isIso8601 u text = false := by
    refine eq_false_of_ne_true fun hiso => ?_
    obtain ⟨a, b, c, rest, heq, hdigits⟩ := isIso8601_digits u hiso
    exact h.digits a b c rest heq hdigits
  have hpath : ¬ ((utf8 text)[0]? = some 0x2f && 2 ≤ text.count '/') = true := by
    rw [Bool.and_eq_true, decide_eq_true_eq, decide_eq_true_eq,
      ← head?_eq_getElem?, utf8_head?_iff rfl]
    exact h.path
  have hhex : (utf8 text).all isAsciiHexdigit = false := not_all_of_alien h.alien not_hex_of_alien
  have hdigits : (utf8 text).all isAsciiDigit = false :=
    not_all_of_alien h.alien (by decide +kernel)
  unfold classifyToken
  rw [if_neg hempty, if_neg (by simp [not_isUuid h.alien]), if_neg (by simp [not_isIpv6 h.alien]),
    if_neg (by simp [not_isMac h.alien]), if_neg (by simp [halpha]),
    if_neg (ne_true_of_eq_false (not_prefixed_hex h.alien)), if_neg (by simp [hiso]), if_neg hpath,
    if_neg (by simp [hhex]), if_neg (by simp [h.quoted]), halpha, hdigits,
    any_digit_eq, not_isFloat halpha]
  cases text.any Char.isDigit <;> simp

def underscored : List Text :=
  ["_UUID_", "_IPV6_", "_MAC_", "_IPV4_", "_HEX_", "_TS_", "_PATH_", "_N_", "_F_"].map String.toList

def quotedPlaceholder : Text := "\"_\"".toList

def Puts (c : TokenClass) : Prop := ∀ r, c = .replace r → r ∈ underscored ∨ r = quotedPlaceholder

omit u in
theorem Puts.ite [Decidable c] (ha : Puts a) (hb : Puts b) : Puts (if c then a else b) := by
  split
  · exact ha
  · exact hb

omit u in
theorem Puts.preserve : Puts .preserve := by
  intro r h
  cases h

omit u in
theorem Puts.underscored (hr : r ∈ underscored) : Puts (.replace r) := by
  intro r' h
  cases h
  exact .inl hr

theorem classify_puts (text : Text) : Puts (classifyToken u text) := by
  have hquoted : Puts (.replace quotedPlaceholder) := by
    intro r h
    cases h
    exact .inr rfl
  have hcompound : ∀ s, Puts (.compound s) := by
    intro s r h
    cases h
  refine .ite .preserve (.ite (.underscored (by decide)) ?_)
  refine .ite (.underscored (by decide)) (.ite (.underscored (by decide)) ?_)
  refine .ite (.underscored (by decide)) (.ite (.underscored (by decide)) ?_)
  refine .ite (.underscored (by decide)) (.ite (.underscored (by decide)) ?_)
  refine .ite (.underscored (by decide)) (.ite (.ite hquoted .preserve) ?_)
  refine .ite .preserve (.ite .preserve (.ite (hcompound _) ?_))
  refine .ite (.ite .preserve (.underscored (by decide))) ?_
  exact .ite (.underscored (by decide)) .preserve

omit u in
theorem underscored_facts : ∀ r ∈ underscored, r.head? = some '_' ∧ r.getLast? = some '_'
      ∧ r.any Char.isAlpha = true ∧ r.all (fun c => !isWhiteSpace c) = true
      ∧ r.all (fun c => !isHigh c) = true ∧ compoundMiniLexer (utf8 r) = r := by decide +kernel

theorem tame_of_head {a : Char} (hhead : r.head? = some a)
    (halien : isAlien a = true) (hlt : a.toNat < 0x100)
    (halpha : r.any Char.isAlpha = true) : Tame u r where
  alpha := halpha
  alien := ⟨a, mem_of_mem_head? hhead, halien⟩
  digits := by
    rintro a' b c rest rfl ⟨ha, -⟩
    cases hhead
    rw [u.digit_latin1 a hlt] at ha
    have hlow : isHigh a = false := isHigh_of_isAlphanum (by rw [Char.isAlphanum, ha, Bool.or_true])
    rw [isAlien, hlow, Bool.or_false, decide_eq_true_eq] at halien
    rw [halien] at ha
    cases ha
  path := by
    rw [hhead]
    rintro ⟨h, -⟩
    cases h
    cases halien
  quoted := by
    have hfirst : ∀ q : UInt8, isHigh (byteChar q) = false →
        isAlien (byteChar q) = false → (utf8 r).head? ≠ some q := by
      intro q hq hne hq'
      rw [utf8_head?_iff hq, hhead] at hq'
      rw [← Option.some.inj hq', halien] at hne
      cases hne
    rw [isQuoted]
    simp [hfirst 0x22 rfl rfl, hfirst 0x27 rfl rfl]

theorem classify_quotedPlaceholder : classifyToken u quotedPlaceholder = .preserve := by
  have hdigit : (utf8 quotedPlaceholder).any isAsciiDigit = false := by decide +kernel
  unfold classifyToken
  rw [if_neg (by decide), if_neg (by decide +kernel),
    if_neg (by decide +kernel), if_neg (by decide +kernel),
    if_neg (by decide +kernel), if_neg (by decide +kernel),
    if_neg (by simp [hdigit]), if_neg (by decide +kernel),
    if_neg (by decide +kernel), if_pos (by decide +kernel), if_neg (by decide +kernel)]

theorem placeholder_again (h : classifyToken u text = .replace r) :
    (classifyToken u r).rendered r = r := by
  rcases classify_puts u text r h with hr | rfl
  · obtain ⟨hhead, -, halpha, -, -, hlex⟩ := underscored_facts r hr
    rw [(tame_of_head u hhead rfl (by decide) halpha).classify]
    split
    · exact hlex
    · rfl
  · rw [classify_quotedPlaceholder]
    rfl

structure Compounded (core s : Text) : Prop where
  lexed : Lexes (utf8 core) s
  alpha : core.any Char.isAlpha = true
  digit : core.any Char.isDigit = true
  path : ¬ (core.head? = some '/' ∧ 2 ≤ core.count '/')
  quoted : isQuoted (utf8 core) = false
  pair : ¬ [':', ':'] <:+: core

omit u in
theorem of_ite_eq [Decidable c] {x : TokenClass}
    (h : (if c then a else b) = x) (ha : a ≠ x) : ¬ c ∧ b = x := by
  split at h
  · exact absurd h ha
  next hc => exact ⟨hc, h⟩

theorem classify_compound {core s : Text}
    (h : classifyToken u core = .compound s) : Compounded core s := by
  have hreplace : ∀ r, TokenClass.replace r ≠ .compound s := by
    intro r heq
    cases heq
  have hpreserve : TokenClass.preserve ≠ .compound s := by
    intro heq
    cases heq
  obtain ⟨-, h⟩ := of_ite_eq h hpreserve
  obtain ⟨-, h⟩ := of_ite_eq h (hreplace _)
  obtain ⟨-, h⟩ := of_ite_eq h (hreplace _)
  obtain ⟨-, h⟩ := of_ite_eq h (hreplace _)
  obtain ⟨-, h⟩ := of_ite_eq h (hreplace _)
  obtain ⟨-, h⟩ := of_ite_eq h (hreplace _)
  obtain ⟨-, h⟩ := of_ite_eq h (hreplace _)
  obtain ⟨hpath, h⟩ := of_ite_eq h (hreplace _)
  obtain ⟨-, h⟩ := of_ite_eq h (hreplace _)
  have hlong : (if 16 < (utf8 core).length - 2
      then TokenClass.replace "\"_\"".toList else .preserve) ≠ .compound s := by
    split
    · exact hreplace _
    · exact hpreserve
  obtain ⟨hquoted, h⟩ := of_ite_eq h hlong
  obtain ⟨-, h⟩ := of_ite_eq h hpreserve
  obtain ⟨hpair, h⟩ := of_ite_eq h hpreserve
  by_cases hboth : ((utf8 core).any isAsciiAlphabetic && (utf8 core).any isAsciiDigit) = true
  · rw [if_pos hboth] at h
    rw [Bool.and_eq_true, any_alpha_eq, any_digit_eq] at hboth
    refine ⟨?_, hboth.1, hboth.2, ?_, eq_false_of_ne_true hquoted, hpair⟩
    · rw [← TokenClass.compound.inj h]
      exact lexes _
    · rwa [Bool.and_eq_true, decide_eq_true_eq, decide_eq_true_eq,
        ← head?_eq_getElem?, utf8_head?_iff rfl] at hpath
  · rw [if_neg hboth] at h
    have hdigits : (if (utf8 core).length ≤ 2 then TokenClass.preserve
        else .replace "_N_".toList) ≠ .compound s := by
      split
      · exact hpreserve
      · exact hreplace _
    obtain ⟨-, h⟩ := of_ite_eq h hdigits
    obtain ⟨-, h⟩ := of_ite_eq h (hreplace _)
    exact absurd h hpreserve

end

def isMark (c : Char) : Bool := !isWordChar c && !isHigh c

namespace Compounded

variable {core s : Text} (h : Compounded core s)

include h

variable {q : Char}

theorem head?_iff (hq : isMark q = true) : core.head? = some q ↔ s.head? = some q := by
  rw [isMark, Bool.and_eq_true] at hq
  exact ((bytesText_masked core).head?_iff hq.2).trans (h.lexed.masked.head?_iff hq.1)

theorem getLast?_iff (hq : isMark q = true) : core.getLast? = some q ↔ s.getLast? = some q := by
  rw [isMark, Bool.and_eq_true] at hq
  exact ((bytesText_masked core).getLast?_iff hq.2).trans (h.lexed.masked.getLast?_iff hq.1)

theorem pair_iff (hq : isMark q = true) : [q, q] <:+: core ↔ [q, q] <:+: s := by
  rw [isMark, Bool.and_eq_true] at hq
  exact ((bytesText_masked core).pair_iff hq.2).trans (h.lexed.masked.pair_iff hq.1)

theorem count_eq (hq : isMark q = true) : core.count q = s.count q := by
  rw [isMark, Bool.and_eq_true] at hq
  refine ((bytesText_masked core).countP_eq fun a ha => ?_).trans
    (h.lexed.masked.countP_eq fun a ha => ?_)
  · rw [eq_of_beq ha]
    exact hq.2
  · rw [eq_of_beq ha]
    exact hq.1

theorem ascii_iff : (∀ c ∈ s, isHigh c = false) ↔ ∀ c ∈ core, isHigh c = false := by
  have hcount : (bytesText core).countP isHigh = s.countP isHigh :=
    h.lexed.countP_high fun _ hc => hc
  constructor
  · intro hs
    have hle := two_mul_high_le core
    rw [hcount, ascii_iff_countP.mp hs] at hle
    exact ascii_iff_countP.mpr (by omega)
  · intro hcore
    rw [bytesText_eq_self hcore, ascii_iff_countP.mp hcore] at hcount
    exact ascii_iff_countP.mpr hcount.symm

theorem latin1 : ∀ c ∈ s, c.toNat < 0x100 := by
  have hcount := h.lexed.countP_high (p := fun c => 0x100 ≤ c.toNat) (by
    intro c hc
    refine decide_eq_true ?_
    have := of_decide_eq_true hc
    omega)
  have hzero : ((utf8 core).map byteChar).countP (fun c => 0x100 ≤ c.toNat) = 0 := by
    rw [countP_eq_zero]
    intro c hc
    obtain ⟨b, -, rfl⟩ := mem_map.mp hc
    have := UInt8.toNat_lt b
    simp only [decide_eq_true_eq, toNat_byteChar]
    omega
  rw [hzero, eq_comm, countP_eq_zero] at hcount
  intro c hc
  simpa using hcount c hc

theorem two_le_length : 2 ≤ (utf8 core).length := by
  have halpha := (any_alpha_eq core).trans h.alpha
  have hdigit := (any_digit_eq core).trans h.digit
  cases hbytes : utf8 core with
  | nil =>
    rw [hbytes] at halpha
    cases halpha
  | cons b rest =>
    cases rest with
    | nil =>
      rw [hbytes, any_cons, any_nil, Bool.or_false] at halpha hdigit
      rw [(digit_imp hdigit).2] at halpha
      cases halpha
    | cons b' rest =>
      rw [length_cons, length_cons]
      omega

theorem not_quoted : isQuoted (utf8 s) = false := by
  have hends : ∀ q : UInt8, isMark (byteChar q) = true →
      (utf8 s).head? = some q ∧ (utf8 s).getLast? = some q →
      (utf8 core).head? = some q ∧ (utf8 core).getLast? = some q := by
    intro q hq hs
    have hhigh : isHigh (byteChar q) = false := by
      rw [isMark, Bool.and_eq_true] at hq
      simpa using hq.2
    rw [utf8_head?_iff hhigh, utf8_getLast?_iff hhigh] at hs ⊢
    exact ⟨(h.head?_iff hq).mpr hs.1, (h.getLast?_iff hq).mpr hs.2⟩
  refine eq_false_of_ne_true fun hquoted => ?_
  refine absurd h.quoted (ne_false_of_eq_true ?_)
  simp only [isQuoted, Bool.and_eq_true, Bool.or_eq_true, decide_eq_true_eq] at hquoted ⊢
  refine ⟨h.two_le_length, ?_⟩
  exact hquoted.2.imp (hends 0x22 rfl) (hends 0x27 rfl)

theorem tame_or_eq (u : UnicodeClasses) : Tame u s ∨ s = core := by
  by_cases halien : ∃ c ∈ s, isAlien c = true
  · refine .inl ⟨?_, halien, ?_, ?_, h.not_quoted⟩
    · exact h.lexed.any_isAlpha ((any_alpha_eq core).trans h.alpha)
    · rintro a b c rest rfl ⟨ha, hb, hc⟩
      have hdigits := h.lexed.digits_le
      have hbyte : ∀ d ∈ a :: b :: c :: rest, u.digit d = true →
          isAsciiDigit (UInt8.ofNat d.toNat) = true := by
        intro d hd hdigit
        have hlt := h.latin1 d hd
        rw [isDigit_byteChar, byteChar_ofNat hlt, ← u.digit_latin1 d hlt]
        exact hdigit
      have ha' := hbyte a (by simp) ha
      have hb' := hbyte b (by simp) hb
      have hc' := hbyte c (by simp) hc
      simp [backBytes, ha', hb', hc'] at hdigits
    · rw [← h.head?_iff rfl, ← h.count_eq rfl]
      exact h.path
  · right
    have hclean : ∀ c ∈ s, c ≠ '_' ∧ isHigh c = false := by
      intro c hc
      have hnot : ¬ isAlien c = true := fun ha => halien ⟨c, hc, ha⟩
      simpa [isAlien] using hnot
    have hs : s = bytesText core := by
      refine h.lexed.underscore_or_eq.resolve_left fun hmem => ?_
      exact (hclean '_' hmem).1 rfl
    rw [hs]
    exact bytesText_eq_self (h.ascii_iff.mp fun c hc => (hclean c hc).2)

theorem again (hascii : ∀ c ∈ s, isHigh c = false) : compoundMiniLexer (utf8 s) = s := by
  have hback : backBytes s = utf8 s := by
    have hmap : (utf8 s).map byteChar = s := bytesText_eq_self hascii
    rw [← backBytes_map (utf8 s), hmap]
  rw [← hback]
  exact h.lexed.again.eq

end Compounded

theorem ascii_of_lexed_eq {s : Text} (h : compoundMiniLexer (utf8 s) = s) :
    ∀ c ∈ s, isHigh c = false := by
  have hcount := (lexes (utf8 s)).countP_high (p := isHigh) fun _ hc => hc
  rw [h] at hcount
  have hle := two_mul_high_le s
  change (bytesText s).countP isHigh = s.countP isHigh at hcount
  exact ascii_iff_countP.mpr (by omega)

section

variable (u : UnicodeClasses)

def mid (core : Text) : Text := (classifyToken u core).rendered core

theorem mid_of {core : Text} {c : TokenClass} (h : classifyToken u core = c) :
    mid u core = c.rendered core := by rw [mid, h]

theorem mid_again_iff (core : Text) : mid u (mid u core) = mid u core
      ↔ ∀ s, classifyToken u core = .compound s →
        (∀ c ∈ s, isHigh c = false) ∨ s.any Char.isDigit = false := by
  cases hclass : classifyToken u core with
  | preserve =>
    have hmid : mid u core = core := mid_of u hclass
    refine iff_of_true (by rw [hmid, hmid]) fun s hs => ?_
    cases hs
  | replace r =>
    have hmid : mid u core = r := mid_of u hclass
    refine iff_of_true ?_ fun s hs => ?_
    · rw [hmid]
      exact placeholder_again u hclass
    · cases hs
  | compound s =>
    have h := classify_compound u hclass
    have hmid : mid u core = s := mid_of u hclass
    have hone : (∀ s', TokenClass.compound s = .compound s' →
        (∀ c ∈ s', isHigh c = false) ∨ s'.any Char.isDigit = false)
        ↔ (∀ c ∈ s, isHigh c = false) ∨ s.any Char.isDigit = false := by
      constructor
      · exact fun hall => hall s rfl
      · intro hs s' heq
        cases heq
        exact hs
    rw [hmid, hone]
    rcases h.tame_or_eq u with htame | rfl
    · rw [mid, htame.classify]
      constructor
      · intro heq
        cases hdigit : s.any Char.isDigit with
        | false => exact .inr rfl
        | true =>
          have hpair : ¬ [':', ':'] <:+: s := fun hp => h.pair ((h.pair_iff rfl).mpr hp)
          rw [if_pos ⟨hdigit, hpair⟩] at heq
          exact .inl (ascii_of_lexed_eq heq)
      · rintro (hascii | hdigit)
        · split
          · exact h.again hascii
          · rfl
        · rw [hdigit, if_neg (by simp)]
          rfl
    · refine iff_of_true hmid (.inl (ascii_of_lexed_eq h.lexed.eq))

end

end Logjet.Ljx
