/-
Texts, their bytes and their tokens. The bytes, read as characters, are the
text but for those from U+0080 on (`bytesText_masked`).
-/
import Logjet.Text
import Logjet.Lib.Masked

namespace Logjet

open List

theorem toNat_byteChar (b : UInt8) : (byteChar b).toNat = b.toNat := by
  have hb : b.toNat < 256 := UInt8.toNat_lt b
  have hvalid : b.toNat.isValidChar := .inl (by omega)
  rw [byteChar, Char.ofNat, dif_pos hvalid]
  exact UInt32.toNat_ofNatLT ..

theorem byteChar_inj {b b' : UInt8} : byteChar b = byteChar b' ↔ b = b' := by
  constructor
  · intro h
    have hnat := congrArg Char.toNat h
    rw [toNat_byteChar, toNat_byteChar] at hnat
    exact UInt8.toNat_inj.mp hnat
  · exact congrArg byteChar

variable {p : UInt8 → Bool} {c w : Char} {text : Text} {q : UInt8} {texts : List Text}

instance (priority := low) decidableForallByte {p : UInt8 → Prop} [DecidablePred p] : Decidable
    (∀ b, p b) :=
  @decidable_of_iff _ (∀ n < 256, p (UInt8.ofNat n)) ⟨fun h b => by
    have hb := h b.toNat (UInt8.toNat_lt b)
    rwa [UInt8.ofNat_toNat] at hb, fun h _ _ => h _⟩ (Nat.decidableBallLT 256 _)

theorem byteChar_ofNat (hc : c.toNat < 0x100) : byteChar (UInt8.ofNat c.toNat) = c := by
  rw [byteChar, UInt8.toNat_ofNat', Nat.mod_eq_of_lt hc, Char.ofNat_toNat]

theorem utf8_eq_flatMap (text : Text) : utf8 text = text.flatMap String.utf8EncodeChar := by
  simp [utf8, String.toUTF8, List.utf8Encode]

theorem utf8_cons (c : Char) (text : Text) :
    utf8 (c :: text) = String.utf8EncodeChar c ++ utf8 text := by
  rw [utf8_eq_flatMap, utf8_eq_flatMap, flatMap_cons]

def isHigh (c : Char) : Bool := 0x80 ≤ c.toNat

theorem encode_ascii (hc : isHigh c = false) : String.utf8EncodeChar c = [UInt8.ofNat c.toNat] := by
  have hle : c.val.toNat ≤ 127 := by
    have hlt := of_decide_eq_false hc
    change c.val.toNat ≤ 127
    change ¬ 0x80 ≤ c.val.toNat at hlt
    omega
  rw [String.utf8EncodeChar, if_pos hle]
  rfl

theorem encode_high (hc : isHigh c = true) : 2 ≤ (String.utf8EncodeChar c).length
      ∧ ∀ b ∈ String.utf8EncodeChar c, 0x80 ≤ b.toNat := by
  have hnot : ¬ c.val.toNat ≤ 127 := by
    have hle := of_decide_eq_true hc
    change 0x80 ≤ c.val.toNat at hle
    omega
  unfold String.utf8EncodeChar
  rw [if_neg hnot]
  split
  · refine ⟨by simp, ?_⟩
    simp only [mem_cons, not_mem_nil, or_false]
    rintro b (rfl | rfl) <;> rw [UInt8.toNat_ofNat'] <;> omega
  · split
    · refine ⟨by simp, ?_⟩
      simp only [mem_cons, not_mem_nil, or_false]
      rintro b (rfl | rfl | rfl) <;> rw [UInt8.toNat_ofNat'] <;> omega
    · refine ⟨by simp, ?_⟩
      simp only [mem_cons, not_mem_nil, or_false]
      rintro b (rfl | rfl | rfl | rfl) <;> rw [UInt8.toNat_ofNat'] <;> omega

def bytesText (text : Text) : Text := (utf8 text).map byteChar

theorem bytesText_nil : bytesText [] = [] := by
  rfl

theorem bytesText_ascii (hc : isHigh c = false) (text : Text) :
    bytesText (c :: text) = c :: bytesText text := by
  have hlt : c.toNat < 0x100 := by
    have := of_decide_eq_false hc
    omega
  rw [bytesText, utf8_cons, encode_ascii hc, map_append, map_singleton, byteChar_ofNat hlt]
  rfl

theorem bytesText_high (hc : isHigh c = true) (text : Text) :
    ∃ hs : Text, bytesText (c :: text) = hs ++ bytesText text
      ∧ 2 ≤ hs.length ∧ ∀ h ∈ hs, isHigh h = true := by
  obtain ⟨hlen, hbytes⟩ := encode_high hc
  refine ⟨(String.utf8EncodeChar c).map byteChar, ?_, ?_, ?_⟩
  · rw [bytesText, utf8_cons, map_append]
    rfl
  · rw [length_map]
    exact hlen
  · intro h hh
    obtain ⟨b, hb, rfl⟩ := mem_map.mp hh
    refine decide_eq_true ?_
    rw [toNat_byteChar]
    exact hbytes b hb

theorem bytesText_masked (text : Text) : Masked (fun c => !isHigh c) text (bytesText text) := by
  induction text with
  | nil =>
    exact .nil
  | cons c text ih =>
    cases hc : isHigh c with
    | false =>
      rw [bytesText_ascii hc]
      exact .keep c ih
    | true =>
      obtain ⟨hs, heq, hlen, hhigh⟩ := bytesText_high hc text
      rw [heq]
      refine .swap (cons_ne_nil c []) ?_ ?_ ?_ ih
      · rintro rfl
        simp at hlen
      · simp [hc]
      · intro h hh
        simp [hhigh h hh]

theorem bytesText_eq_self (h : ∀ c ∈ text, isHigh c = false) : bytesText text = text := by
  induction text with
  | nil => exact bytesText_nil
  | cons c text ih =>
    rw [bytesText_ascii (h c mem_cons_self), ih fun d hd => h d (mem_cons_of_mem _ hd)]

theorem ascii_iff_countP : (∀ c ∈ text, isHigh c = false) ↔ text.countP isHigh = 0 := by
  simp [countP_eq_zero]

theorem two_mul_high_le (text : Text) :
    2 * text.countP isHigh ≤ (bytesText text).countP isHigh := by
  induction text with
  | nil => exact Nat.zero_le _
  | cons c text ih =>
    cases hc : isHigh c with
    | false =>
      rw [bytesText_ascii hc, countP_cons_of_neg (by simp [hc]), countP_cons_of_neg (by simp [hc])]
      exact ih
    | true =>
      obtain ⟨hs, heq, hlen, hhigh⟩ := bytesText_high hc text
      rw [heq, countP_cons_of_pos hc, countP_append, countP_eq_length.mpr hhigh]
      omega

theorem utf8_any {q : Char → Bool} (hpq : ∀ b, p b = q (byteChar b))
    (hq : ∀ c, q c = true → isHigh c = false) (text : Text) : (utf8 text).any p = text.any q := by
  have hbytes : (utf8 text).any p = (bytesText text).any q := by
    rw [bytesText, any_map]
    exact congrArg _ (funext hpq)
  rw [hbytes]
  refine ((bytesText_masked text).any_eq fun c hc => ?_).symm
  rw [hq c hc]
  rfl

theorem toNat_of_isAlphanum (h : c.isAlphanum = true) :
    0x30 ≤ c.toNat ∧ c.toNat < 0x3a ∨ 0x41 ≤ c.toNat ∧ c.toNat < 0x5b
      ∨ 0x61 ≤ c.toNat ∧ c.toNat < 0x7b := by
  delta Char.isAlphanum Char.isAlpha Char.isUpper Char.isLower Char.isDigit at h
  simp [UInt32.le_iff_toNat_le] at h
  omega

theorem isHigh_of_isAlphanum (h : c.isAlphanum = true) : isHigh c = false := by
  have hrange := toNat_of_isAlphanum h
  exact decide_eq_false (by omega)

theorem map_byteChar_eq_some {o : Option UInt8} : o.map byteChar = some (byteChar q) ↔ o = some q :=
  (Option.map_injective fun _ _ => byteChar_inj.mp).eq_iff' rfl

theorem utf8_head?_iff (hq : isHigh (byteChar q) = false) (text : Text) :
    (utf8 text).head? = some q ↔ text.head? = some (byteChar q) := by
  rw [(bytesText_masked text).head?_iff (by simp [hq]), bytesText, head?_map, map_byteChar_eq_some]

theorem utf8_getLast?_iff (hq : isHigh (byteChar q) = false) (text : Text) :
    (utf8 text).getLast? = some q ↔ text.getLast? = some (byteChar q) := by
  rw [(bytesText_masked text).getLast?_iff (by simp [hq]), bytesText, getLast?_map,
    map_byteChar_eq_some]

def Solid (text : Text) : Prop := ∀ c ∈ text, isWhiteSpace c = false

theorem solid_append {a b : Text} : Solid (a ++ b) ↔ Solid a ∧ Solid b := forall_mem_append

theorem splitWhitespaceFrom_solid {piece : Text} (hpiece : Solid piece) (text : Text) :
    ∀ token ∈ splitWhitespaceFrom piece text, token ≠ [] ∧ Solid token := by
  induction text generalizing piece with
  | nil =>
    intro token htoken
    unfold splitWhitespaceFrom at htoken
    split at htoken
    · cases htoken
    next hempty =>
      rw [mem_singleton.mp htoken]
      exact ⟨by simpa using hempty, hpiece⟩
  | cons c text ih =>
    intro token htoken
    unfold splitWhitespaceFrom at htoken
    split at htoken
    · split at htoken
      · exact ih (forall_mem_nil _) token htoken
      next hempty =>
        rcases mem_cons.mp htoken with rfl | htoken
        · exact ⟨by simpa using hempty, hpiece⟩
        · exact ih (forall_mem_nil _) token htoken
    next hc =>
      refine ih (solid_append.mpr ⟨hpiece, ?_⟩) token htoken
      simpa [Solid] using hc

theorem splitWhitespace_solid (text : Text) :
    ∀ token ∈ splitWhitespace text, token ≠ [] ∧ Solid token :=
  splitWhitespaceFrom_solid (forall_mem_nil _) text

theorem splitWhitespaceFrom_flatten (piece text : Text) : (splitWhitespaceFrom piece text).flatten
      = piece ++ text.filter (!isWhiteSpace ·) := by
  induction text generalizing piece with
  | nil =>
    unfold splitWhitespaceFrom
    split
    next hempty => simp [isEmpty_iff.mp hempty]
    · simp
  | cons c text ih =>
    unfold splitWhitespaceFrom
    split
    next hc =>
      split
      next hempty => simp [ih, hc, isEmpty_iff.mp hempty]
      · simp [ih, hc]
    next hc => simp [ih, hc]

theorem splitWhitespaceFrom_append (hw : isWhiteSpace w = true) (piece a b : Text) :
    splitWhitespaceFrom piece (a ++ w :: b) = splitWhitespaceFrom piece a ++ splitWhitespace b := by
  induction a generalizing piece with
  | nil =>
    unfold splitWhitespaceFrom
    rw [nil_append]
    dsimp only
    rw [if_pos hw]
    split
    · rfl
    · rfl
  | cons c a ih =>
    rw [cons_append, splitWhitespaceFrom, splitWhitespaceFrom]
    split
    · split
      · exact ih []
      · rw [ih [], cons_append]
    · exact ih _

theorem splitWhitespaceFrom_of_solid (h : Solid text) (piece : Text) (hne : piece ++ text ≠ []) :
    splitWhitespaceFrom piece text = [piece ++ text] := by
  induction text generalizing piece with
  | nil =>
    rw [append_nil] at hne ⊢
    rw [splitWhitespaceFrom, if_neg (by simpa using hne)]
  | cons c text ih =>
    have hc : ¬ isWhiteSpace c = true := by simp [h c mem_cons_self]
    rw [splitWhitespaceFrom, if_neg hc, ih (fun d hd => h d (mem_cons_of_mem _ hd)) _ (by simp)]
    simp

theorem splitWhitespace_of_solid (h : Solid text)
    (hne : text ≠ []) : splitWhitespace text = [text] := splitWhitespaceFrom_of_solid h [] hne

theorem mem_intercalate (h : c ∈ [w].intercalate texts) : c = w ∨ ∃ t ∈ texts, c ∈ t := by
  induction texts with
  | nil => simp at h
  | cons a texts ih =>
    cases texts with
    | nil =>
      rw [intercalate_singleton] at h
      exact .inr ⟨a, mem_singleton_self a, h⟩
    | cons b texts =>
      rw [intercalate_cons_cons, mem_append, mem_append, mem_singleton] at h
      rcases h with (h | h) | h
      · exact .inr ⟨a, mem_cons_self, h⟩
      · exact .inl h
      · rcases ih h with h | ⟨t, ht, hct⟩
        · exact .inl h
        · exact .inr ⟨t, mem_cons_of_mem a ht, hct⟩

theorem mem_intercalate_of_mem {t : Text}
    (ht : t ∈ texts) (hc : c ∈ t) : c ∈ [w].intercalate texts := by
  induction texts with
  | nil => cases ht
  | cons a texts ih =>
    cases texts with
    | nil =>
      rw [intercalate_singleton, ← mem_singleton.mp ht]
      exact hc
    | cons b texts =>
      rw [intercalate_cons_cons, mem_append, mem_append]
      rcases mem_cons.mp ht with rfl | ht
      · exact .inl (.inl hc)
      · exact .inr (ih ht)

theorem splitWhitespace_intercalate (texts : List Text) : splitWhitespace ([' '].intercalate texts)
      = texts.flatMap splitWhitespace := by
  induction texts with
  | nil => rfl
  | cons a texts ih =>
    cases texts with
    | nil => simp [List.intercalate]
    | cons b texts =>
      rw [flatMap_cons, ← ih]
      exact splitWhitespaceFrom_append rfl [] a _

theorem splitWhitespace_spaces {text : Text} (h : ∀ c ∈ text, isWhiteSpace c = true) :
    splitWhitespace text = [] := by
  induction text with
  | nil => rfl
  | cons c text ih =>
    obtain ⟨hc, hrest⟩ := forall_mem_cons.mp h
    rw [splitWhitespace, ← nil_append (c :: text), splitWhitespaceFrom_append hc, ih hrest]
    rfl

theorem splitWhitespace_trim (text : Text) :
    splitWhitespace (trim text) = splitWhitespace text := by
  have hfront : ∀ text : Text, splitWhitespace (text.dropWhile isWhiteSpace)
      = splitWhitespace text := by
    intro text
    induction text with
    | nil => rfl
    | cons c text ih =>
      by_cases hc : isWhiteSpace c = true
      · rw [dropWhile_cons_of_pos hc, ih, splitWhitespace, splitWhitespace,
          ← nil_append (c :: text), splitWhitespaceFrom_append hc]
        rfl
      · rw [dropWhile_cons_of_neg hc]
  have hback : ∀ text : Text, splitWhitespace (text.reverse.dropWhile isWhiteSpace).reverse
      = splitWhitespace text := by
    intro text
    have hspaces : ∀ c ∈ (text.reverse.takeWhile isWhiteSpace).reverse,
        isWhiteSpace c = true := by
      intro c hc
      exact all_eq_true.mp all_takeWhile c (mem_reverse.mp hc)
    have htext : (text.reverse.dropWhile isWhiteSpace).reverse
        ++ (text.reverse.takeWhile isWhiteSpace).reverse = text := by
      rw [← reverse_append, takeWhile_append_dropWhile, reverse_reverse]
    generalize (text.reverse.dropWhile isWhiteSpace).reverse = front at htext ⊢
    generalize (text.reverse.takeWhile isWhiteSpace).reverse = spaces at htext hspaces
    subst htext
    cases spaces with
    | nil => rw [append_nil]
    | cons c spaces =>
      obtain ⟨hc, hrest⟩ := forall_mem_cons.mp hspaces
      rw [splitWhitespace, splitWhitespace, splitWhitespaceFrom_append hc,
        splitWhitespace_spaces hrest, append_nil]
  rw [trim, hback, hfront]

end Logjet
