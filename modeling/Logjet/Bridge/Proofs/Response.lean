/-
What a response leaves on the connection: nothing, when the field's name is
written in one of two ways.
-/
import Logjet.Bridge.Response

namespace Logjet

open List EStateM Utf8

def crlf : Bytes := [13, 10]

def asciiBytes (text : String) : Bytes := text.toList.map fun c => UInt8.ofNat c.toNat

def toAsciiLowercase (b : UInt8) : UInt8 := if 65 ≤ b ∧ b ≤ 90 then b + 32 else b

def IsLine (line : Bytes) : Prop := line ≠ [] ∧ (10 : UInt8) ∉ line

structure HeaderField where
  name : Bytes
  value : Bytes
  ascii : ∀ b ∈ name, b < 0x80
  colon : (58 : UInt8) ∉ name
  nameLine : (10 : UInt8) ∉ name
  valueLine : (10 : UInt8) ∉ value

def HeaderField.line (field : HeaderField) : Bytes := field.name ++ 58 :: field.value

def HeaderField.IsContentLength (field : HeaderField) : Prop :=
  field.name.map toAsciiLowercase = asciiBytes "content-length"

def decimalFrom (value : Nat) (digits : Bytes) : Nat :=
  digits.foldl (fun value b => 10 * value + (b.toNat - '0'.toNat)) value

structure OkResponse where
  reason : Bytes
  before : List HeaderField
  contentLength : HeaderField
  after : List HeaderField
  padBefore : Bytes
  digits : Bytes
  padAfter : Bytes
  reasonLine : (10 : UInt8) ∉ reason
  isContentLength : contentLength.IsContentLength
  others : ∀ field ∈ before ++ after, ¬ field.IsContentLength
  value : contentLength.value = padBefore ++ digits ++ padAfter
  blank : ∀ b ∈ padBefore ++ padAfter, b = 32 ∨ b = 9
  digitsNe : digits ≠ []
  isDigit : ∀ b ∈ digits, 48 ≤ b ∧ b ≤ 57

namespace OkResponse

def statusLine (resp : OkResponse) : Bytes := asciiBytes "HTTP/1.1 200" ++ resp.reason

def headLines (resp : OkResponse) : List Bytes :=
  resp.statusLine :: (resp.before ++ resp.contentLength :: resp.after).map HeaderField.line

def head (resp : OkResponse) : Bytes := resp.headLines.flatMap (· ++ crlf) ++ crlf

def length (resp : OkResponse) : Nat := decimalFrom 0 resp.digits

end OkResponse

def Quiet (hdrBuf : Bytes) : Bytes → Prop
  | [] => True
  | b :: bytes => ¬ headersEnd <:+ hdrBuf ++ [b] ∧ Quiet (hdrBuf ++ [b]) bytes

variable {hdrBuf : Bytes}

theorem Quiet.append {a b : Bytes} (ha : Quiet hdrBuf a)
    (hb : Quiet (hdrBuf ++ a) b) : Quiet hdrBuf (a ++ b) := by
  induction a generalizing hdrBuf with
  | nil =>
    rw [append_nil] at hb
    exact hb
  | cons c a ih =>
    refine ⟨ha.1, ih ha.2 ?_⟩
    rw [append_assoc]
    exact hb

variable {b : UInt8}

theorem not_headersEnd_of_ne (hb : b ≠ 10) :
    ¬ headersEnd <:+ hdrBuf ++ [b] := by
  intro h
  have hlast := h.getLast (by decide)
  rw [getLast_concat] at hlast
  exact hb hlast.symm

theorem quiet_of_not_mem {bytes : Bytes} (h : (10 : UInt8) ∉ bytes)
    (hdrBuf : Bytes) : Quiet hdrBuf bytes := by
  induction bytes generalizing hdrBuf with
  | nil => trivial
  | cons b bytes ih =>
    refine ⟨not_headersEnd_of_ne ?_, ih ?_ _⟩
    · intro hb
      exact h (hb ▸ mem_cons_self)
    · intro hmem
      exact h (mem_cons_of_mem _ hmem)

theorem IsLine.quiet {line : Bytes} (h : IsLine line) (hdrBuf : Bytes) :
    Quiet hdrBuf (line ++ crlf) := by
  refine (quiet_of_not_mem h.2 hdrBuf).append ⟨not_headersEnd_of_ne (by decide), ?_, trivial⟩
  intro hend
  have hline : crlf <:+ hdrBuf ++ line := by
    rw [append_assoc _ [13] [10]] at hend
    exact suffix_append_self_iff.mp hend
  have hlast : (10 : UInt8) = line.getLast h.1 := by
    have hlast := hline.getLast (by decide)
    rw [getLast_append_of_ne_nil _ h.1] at hlast
    exact hlast
  exact h.2 (hlast ▸ getLast_mem h.1)

theorem quiet_lines {lines : List Bytes} (h : ∀ line ∈ lines, IsLine line)
    (hdrBuf : Bytes) : Quiet hdrBuf (lines.flatMap (· ++ crlf)) := by
  induction lines generalizing hdrBuf with
  | nil => trivial
  | cons line lines ih =>
    exact ((h line mem_cons_self).quiet hdrBuf).append
      (ih (fun l hl => h l (mem_cons_of_mem _ hl)) _)

theorem drop_eq_headersEnd_iff :
    (hdrBuf.length ≥ 4 ∧ hdrBuf.drop (hdrBuf.length - 4) = headersEnd) ↔ headersEnd <:+ hdrBuf := by
  constructor
  · rintro ⟨-, hdrop⟩
    rw [← hdrop]
    exact drop_suffix _ _
  · intro h
    exact ⟨h.length_le, (suffix_iff_eq_drop.mp h).symm⟩

theorem read_one (b : UInt8) (data : Bytes) (splits : List Nat) :
    ResponseStream.read 1 ⟨b :: data, splits⟩ = .ok [b] ⟨data, splits.tail⟩ := by
  have hone : readSize 1 splits = 1 := by
    cases splits with
    | nil => rfl
    | cons split _ => exact Nat.min_eq_left (Nat.le_add_left 1 split)
  unfold ResponseStream.read
  rw [hone]
  rfl

theorem readHeaders_step (hquiet : ¬ headersEnd <:+ hdrBuf ++ [b])
    (hlen : (hdrBuf ++ [b]).length ≤ 16384) (data : Bytes) (splits : List Nat) :
    readHeaders hdrBuf ⟨b :: data, splits⟩ = readHeaders (hdrBuf ++ [b]) ⟨data, splits.tail⟩ := by
  rw [readHeaders, bind_of_ok (read_one b data splits)]
  dsimp only
  rw [if_neg (mt drop_eq_headersEnd_iff.mp hquiet), if_neg]
  exact Nat.not_lt.mpr hlen

theorem readHeaders_last (hend : headersEnd <:+ hdrBuf ++ [b]) (data : Bytes) (splits : List Nat) :
    readHeaders hdrBuf ⟨b :: data, splits⟩ = .ok (hdrBuf ++ [b]) ⟨data, splits.tail⟩ := by
  rw [readHeaders, bind_of_ok (read_one b data splits)]
  dsimp only
  rw [if_pos (drop_eq_headersEnd_iff.mpr hend)]
  rfl

theorem readHeaders_quiet {bytes : Bytes} (h : Quiet hdrBuf bytes)
    (hlen : (hdrBuf ++ bytes).length ≤ 16384) (data : Bytes) (splits : List Nat) :
    readHeaders hdrBuf ⟨bytes ++ data, splits⟩
      = readHeaders (hdrBuf ++ bytes) ⟨data, splits.drop bytes.length⟩ := by
  induction bytes generalizing hdrBuf splits with
  | nil => rw [append_nil, nil_append, length_nil, drop_zero]
  | cons b bytes ih =>
    have hsplit : hdrBuf ++ b :: bytes = hdrBuf ++ [b] ++ bytes := append_cons ..
    have hfirst : (hdrBuf ++ [b]).length ≤ 16384 := by
      simp only [length_append, length_cons, length_nil] at hlen ⊢
      omega
    rw [hsplit] at hlen ⊢
    rw [cons_append, readHeaders_step h.1 hfirst, ih h.2 hlen, length_cons, drop_tail]

theorem readHeaders_lines {lines : List Bytes} (hne : lines ≠ []) (h : ∀ line ∈ lines, IsLine line)
    (hlen : (lines.flatMap (· ++ crlf) ++ crlf).length ≤ 16384) (data : Bytes) (splits : List Nat) :
    ∃ splits', readHeaders [] ⟨lines.flatMap (· ++ crlf) ++ crlf ++ data, splits⟩
      = .ok (lines.flatMap (· ++ crlf) ++ crlf) ⟨data, splits'⟩ := by
  have hends : crlf <:+ lines.flatMap (· ++ crlf) := by
    rw [← dropLast_append_getLast hne, flatMap_append, flatMap_singleton]
    exact (suffix_append _ _).trans (suffix_append _ _)
  generalize hall : lines.flatMap (· ++ crlf) = all at hends hlen ⊢
  have hquiet : Quiet [] (all ++ [13]) :=
    Quiet.append (hall ▸ quiet_lines h []) ⟨not_headersEnd_of_ne (by decide), trivial⟩
  have hblock : all ++ crlf = all ++ [13] ++ [10] := (append_assoc all [13] [10]).symm
  have hend : headersEnd <:+ all ++ [13] ++ [10] := by
    rw [← hblock]
    exact suffix_append_self_iff.mpr hends
  refine ⟨(splits.drop (all ++ [13]).length).tail, ?_⟩
  rw [hblock] at hlen ⊢
  rw [append_assoc _ [10], readHeaders_quiet hquiet (by
    simp only [nil_append, length_append, length_singleton] at hlen ⊢
    omega)]
  exact readHeaders_last hend data _

theorem discardBody_body (body data : Bytes) (splits : List Nat) :
    ∃ splits', discardBody body.length ⟨body ++ data, splits⟩ = .ok () ⟨data, splits'⟩ := by
  generalize hlen : body.length = remaining
  induction remaining using Nat.strongRecOn generalizing body splits with
  | _ remaining ih =>
    by_cases hzero : remaining = 0
    · subst hzero
      rw [length_eq_zero_iff.mp hlen, discardBody, if_neg (by decide)]
      exact ⟨splits, rfl⟩
    · have hsize : ∃ n, readSize (min 4096 remaining) splits = n ∧ 0 < n ∧ n ≤ remaining := by
        refine ⟨_, rfl, ?_, ?_⟩
        all_goals
          unfold readSize
          split
          all_goals omega
      obtain ⟨n, hn, hpos, hle⟩ := hsize
      have hread : ResponseStream.read (min 4096 remaining) ⟨body ++ data, splits⟩
          = .ok (body.take n) ⟨body.drop n ++ data, splits.tail⟩ := by
        unfold ResponseStream.read
        dsimp only
        rw [hn, take_append_of_le_length (by omega), drop_append_of_le_length (by omega)]
      have htake : (body.take n).length = n := length_take_of_le (by omega)
      have hdrop : (body.drop n).length = remaining - n := by rw [length_drop, hlen]
      obtain ⟨splits', hrest⟩ := ih (remaining - n) (by omega) (body.drop n) splits.tail hdrop
      refine ⟨splits', ?_⟩
      rw [discardBody, if_pos (Nat.pos_of_ne_zero hzero),
        bind_of_ok hread, htake, if_neg (by omega)]
      exact hrest

theorem stripText_eq_some_iff {pattern text rest : Text} :
    stripText pattern text = some rest ↔ text = pattern ++ rest := by
  induction pattern generalizing text with
  | nil => rw [stripText, Option.some.injEq, nil_append]
  | cons p pattern ih =>
    cases text with
    | nil => simp [stripText]
    | cons c text =>
      rw [stripText]
      split
      next h => rw [ih, h, cons_append, List.cons.injEq, eq_self, true_and]
      next h =>
        simp only [cons_append, List.cons.injEq, reduceCtorEq, false_iff, not_and]
        intro heq
        exact absurd heq.symm h

theorem decimalFrom_cons (value : Nat) (b : UInt8) (digits : Bytes) :
    decimalFrom value (b :: digits) = decimalFrom (10 * value + (b.toNat - '0'.toNat)) digits := by
  rw [decimalFrom, foldl_cons, decimalFrom]

theorem le_decimalFrom (value : Nat) (digits : Bytes) : value ≤ decimalFrom value digits := by
  induction digits generalizing value with
  | nil => exact Nat.le_refl _
  | cons b digits ih =>
    refine Nat.le_trans ?_ (ih _)
    exact Nat.le_add_right_of_le (Nat.le_mul_of_pos_left _ (by decide))

theorem toNat_char (b : UInt8) : (Char.ofNat b.toNat).toNat = b.toNat := by
  have hbyte := b.toNat_lt
  exact toNat_ofNat_of_valid (.inl (by omega))

theorem isDigit_char (h : 48 ≤ b ∧ b ≤ 57) : (Char.ofNat b.toNat).isDigit := by
  have hnat := toNat_char b
  have hlo := UInt8.le_iff_toNat_le.mp h.1
  have hhi := UInt8.le_iff_toNat_le.mp h.2
  rw [Char.isDigit, Bool.and_eq_true, decide_eq_true_iff, decide_eq_true_iff]
  refine ⟨UInt32.le_iff_toNat_le.mpr ?_, UInt32.le_iff_toNat_le.mpr ?_⟩
  · exact Nat.le_trans hlo (Nat.le_of_eq hnat.symm)
  · exact Nat.le_trans (Nat.le_of_eq hnat) hhi

theorem parseDigits_chars {digits : Bytes} (h : ∀ b ∈ digits, 48 ≤ b ∧ b ≤ 57) {value : Nat}
    (hvalue : value < 2 ^ 64) : (parseDigits value (chars digits)).toOption
      = if decimalFrom value digits < 2 ^ 64 then
          some (UInt64.ofNat (decimalFrom value digits))
        else none := by
  induction digits generalizing value with
  | nil =>
    rw [if_pos (show decimalFrom value [] < 2 ^ 64 from hvalue)]
    rfl
  | cons b digits ih =>
    have hdigit := isDigit_char (h b mem_cons_self)
    show (parseDigits value (Char.ofNat b.toNat :: chars digits)).toOption = _
    rw [parseDigits, if_pos hdigit, toNat_char, decimalFrom_cons]
    generalize 10 * value + (b.toNat - '0'.toNat) = value'
    by_cases hless : value' < 2 ^ 64
    · rw [if_pos hless]
      exact ih (fun c hc => h c (mem_cons_of_mem _ hc)) hless
    · have hle := le_decimalFrom value' digits
      rw [if_neg hless, if_neg fun h => hless (Nat.lt_of_le_of_lt hle h)]
      rfl

def lineLength (line : Text) : Option UInt64 :=
  ((stripText "Content-Length:".toList line).or
    (stripText "content-length:".toList line)).bind fun val => (parseU64 (trim val)).toOption

theorem parseContentLength_eq (headers : Text) : parseContentLength headers
      = ((lines headers).findSome? lineLength).elim 0 UInt64.toNat := rfl

theorem chars_inj {a b : Bytes} (h : chars a = chars b) : a = b := by
  refine map_injective_iff.mpr ?_ h
  intro c d hcd
  have hnat := congrArg Char.toNat hcd
  rw [toNat_char, toNat_char] at hnat
  exact UInt8.toNat_inj.mp hnat

theorem HeaderField.fromUtf8Lossy_line (field : HeaderField) : fromUtf8Lossy field.line
      = chars field.name ++ ':' :: fromUtf8Lossy field.value := by
  have hname : fromUtf8Lossy field.name = chars field.name := by
    have happend := fromUtf8Lossy_append field.ascii []
    rw [append_nil] at happend
    rw [happend]
    exact append_nil _
  rw [HeaderField.line, fromUtf8Lossy_ascii _ (by decide), hname]
  rfl

theorem HeaderField.colon_not_mem (field : HeaderField) : ':' ∉ chars field.name := by
  intro hmem
  obtain ⟨b, hb, heq⟩ := mem_map.mp hmem
  have hb58 : b = 58 := by
    have hnat := congrArg Char.toNat heq
    rw [toNat_char] at hnat
    exact UInt8.toNat_inj.mp hnat
  exact field.colon (hb58 ▸ hb)

theorem before_colon_inj {a b v w : Text} (ha : ':' ∉ a) (hb : ':' ∉ b)
    (h : a ++ ':' :: v = b ++ ':' :: w) : a = b := by
  have hcut := congrArg (List.takeWhile (· ≠ ':')) h
  have htake : ∀ {c u : Text}, ':' ∉ c → (c ++ ':' :: u).takeWhile (· ≠ ':') = c := by
    intro c u hc
    rw [takeWhile_append_of_pos]
    · rw [takeWhile_cons_of_neg (by decide), append_nil]
    · intro d hd
      exact decide_eq_true fun heq => hc (heq ▸ hd)
  rw [htake ha, htake hb] at hcut
  exact hcut

theorem HeaderField.stripText_line (field : HeaderField) {name : Bytes}
    (hcolon : ':' ∉ chars name) : stripText (chars name ++ [':']) (fromUtf8Lossy field.line)
      = if field.name = name then some (fromUtf8Lossy field.value)
        else none := by
  have hline := field.fromUtf8Lossy_line
  by_cases hname : field.name = name
  · rw [if_pos hname, stripText_eq_some_iff, hline, hname, append_assoc, singleton_append]
  · rw [if_neg hname, Option.eq_none_iff_forall_ne_some]
    intro rest hrest
    rw [stripText_eq_some_iff, hline, append_assoc, singleton_append] at hrest
    exact hname (chars_inj (before_colon_inj field.colon_not_mem hcolon hrest))

def HeaderField.Spelled (field : HeaderField) : Prop :=
  field.name = asciiBytes "Content-Length"
    ∨ field.name = asciiBytes "content-length"

instance (field : HeaderField) : Decidable field.Spelled := inferInstanceAs (Decidable (_ ∨ _))

theorem HeaderField.lineLength_line (field : HeaderField) : lineLength (fromUtf8Lossy field.line)
      = if field.Spelled then
          (parseU64 (trim (fromUtf8Lossy field.value))).toOption
        else none := by
  have hupper := field.stripText_line (show ':' ∉ chars (asciiBytes "Content-Length") by decide)
  have hlower := field.stripText_line (show ':' ∉ chars (asciiBytes "content-length") by decide)
  unfold lineLength
  rw [show "Content-Length:".toList
      = chars (asciiBytes "Content-Length") ++ [':'] by decide, hupper,
    show "content-length:".toList = chars (asciiBytes "content-length") ++ [':'] by decide, hlower]
  by_cases hu : field.name = asciiBytes "Content-Length"
  · have hs : field.Spelled := .inl hu
    rw [if_pos hu, if_pos hs, Option.some_or, Option.bind_some]
  · by_cases hl : field.name = asciiBytes "content-length"
    · have hs : field.Spelled := .inr hl
      rw [if_neg hu, if_pos hl, if_pos hs, Option.none_or, Option.bind_some]
    · have hs : ¬ field.Spelled := not_or.mpr ⟨hu, hl⟩
      rw [if_neg hu, if_neg hl, if_neg hs, Option.none_or, Option.bind_none]

theorem HeaderField.Spelled.isContentLength {field : HeaderField}
    (h : field.Spelled) : field.IsContentLength := by
  unfold HeaderField.IsContentLength
  rcases h with h | h
  · rw [h]
    decide
  · rw [h]
    decide

theorem trim_padded {front word back : Text}
    (hfront : ∀ c ∈ front, isWhiteSpace c) (hne : word ≠ []) (hword : ∀ c ∈ word, ¬ isWhiteSpace c)
    (hback : ∀ c ∈ back, isWhiteSpace c) : trim (front ++ word ++ back) = word := by
  have hkeep : ∀ {u v : Text}, u ≠ [] → (∀ c ∈ u, ¬ isWhiteSpace c) →
      (u ++ v).dropWhile isWhiteSpace = u ++ v := by
    intro u v hu hall
    cases u with
    | nil => exact absurd rfl hu
    | cons c u => exact dropWhile_cons_of_neg (hall c mem_cons_self)
  unfold trim
  rw [append_assoc, dropWhile_append_of_pos hfront,
    hkeep hne hword, reverse_append, dropWhile_append_of_pos]
  · have hrev := @hkeep word.reverse [] (by simpa using hne)
      (fun c hc => hword c (mem_reverse.mp hc))
    rw [append_nil] at hrev
    rw [hrev, reverse_reverse]
  · intro c hc
    exact hback c (mem_reverse.mp hc)

theorem parseU64_of_ne {c : Char} {text : Text} (hc : c ≠ '+') :
    parseU64 (c :: text) = parseDigits 0 (c :: text) := by
  unfold parseU64
  split
  next h => cases h
  next h =>
    cases h
    exact absurd rfl hc
  next h =>
    cases h
    exact absurd rfl hc
  · rfl

theorem not_isWhiteSpace_digit (h : 48 ≤ b ∧ b ≤ 57) :
    ¬ isWhiteSpace (Char.ofNat b.toNat) := by
  have hlo : 48 ≤ b.toNat := UInt8.le_iff_toNat_le.mp h.1
  have hhi : b.toNat ≤ 57 := UInt8.le_iff_toNat_le.mp h.2
  simp only [isWhiteSpace, toNat_char, Bool.or_eq_true, Bool.and_eq_true, decide_eq_true_iff]
  omega

namespace OkResponse

variable (resp : OkResponse)

theorem trim_value : trim (fromUtf8Lossy resp.contentLength.value) = chars resp.digits := by
  have hpad : ∀ b ∈ resp.padBefore ++ resp.padAfter,
      b < 0x80 ∧ isWhiteSpace (Char.ofNat b.toNat) := by
    intro b hb
    rcases resp.blank b hb with rfl | rfl
    · decide
    · decide
  have hblank : ∀ {pad : Bytes}, pad ⊆ resp.padBefore ++ resp.padAfter →
      ∀ c ∈ chars pad, isWhiteSpace c := by
    intro pad hsub c hc
    obtain ⟨b, hb, rfl⟩ := mem_map.mp hc
    exact (hpad b (hsub hb)).2
  have hword : ∀ c ∈ chars resp.digits, ¬ isWhiteSpace c := by
    intro c hc
    obtain ⟨b, hb, rfl⟩ := mem_map.mp hc
    exact not_isWhiteSpace_digit (resp.isDigit b hb)
  have hascii : ∀ b ∈ resp.padBefore ++ resp.digits ++ resp.padAfter, b < 0x80 := by
    intro b hb
    rw [mem_append, mem_append] at hb
    rcases hb with (hb | hb) | hb
    · exact (hpad b (mem_append_left _ hb)).1
    · exact UInt8.lt_of_le_of_lt (resp.isDigit b hb).2 (by decide)
    · exact (hpad b (mem_append_right _ hb)).1
  have htext := fromUtf8Lossy_append hascii []
  rw [append_nil] at htext
  rw [resp.value, htext]
  simp only [chars, map_append]
  exact (congrArg trim (append_nil _)).trans (trim_padded (hblank (subset_append_left _ _))
      (mt map_eq_nil_iff.mp resp.digitsNe) hword (hblank (subset_append_right _ _)))

theorem parseU64_digits : (parseU64 (chars resp.digits)).toOption
      = if resp.length < 2 ^ 64 then some (UInt64.ofNat resp.length)
        else none := by
  have hplain : parseU64 (chars resp.digits) = parseDigits 0 (chars resp.digits) := by
    cases hdigits : resp.digits with
    | nil => exact absurd hdigits resp.digitsNe
    | cons b digits =>
      have hdigit := isDigit_char (resp.isDigit b (hdigits ▸ mem_cons_self))
      have hplus : Char.ofNat b.toNat ≠ '+' := by
        intro heq
        rw [heq] at hdigit
        exact absurd hdigit (by decide)
      exact parseU64_of_ne hplus
  rw [hplain, parseDigits_chars resp.isDigit (by decide)]
  rfl

theorem lineLength_contentLength : lineLength (fromUtf8Lossy resp.contentLength.line)
      = if resp.contentLength.Spelled ∧ resp.length < 2 ^ 64 then
          some (UInt64.ofNat resp.length)
        else none := by
  rw [resp.contentLength.lineLength_line, resp.trim_value, resp.parseU64_digits, ite_and]

def found : Nat :=
  if resp.contentLength.Spelled ∧ resp.length < 2 ^ 64 then resp.length
  else 0

theorem isLine_headLines : ∀ line ∈ resp.headLines, IsLine line := by
  intro line hline
  rcases mem_cons.mp hline with rfl | hline
  · refine ⟨by simp [statusLine, asciiBytes], ?_⟩
    intro hmem
    rcases mem_append.mp hmem with hmem | hmem
    · exact absurd hmem (by decide)
    · exact resp.reasonLine hmem
  · obtain ⟨field, -, rfl⟩ := mem_map.mp hline
    refine ⟨by simp [HeaderField.line], ?_⟩
    intro hmem
    rcases mem_append.mp hmem with hmem | hmem
    · exact field.nameLine hmem
    · rcases mem_cons.mp hmem with heq | hmem
      · exact absurd heq (by decide)
      · exact field.valueLine hmem

theorem lines_block {block : List Bytes} (h : ∀ line ∈ block, IsLine line) :
    lines (fromUtf8Lossy (block.flatMap (· ++ crlf) ++ crlf))
      = block.map fromUtf8Lossy ++ [[]] := by
  induction block with
  | nil => decide
  | cons line block ih =>
    have hline := h line mem_cons_self
    have hbytes : (line :: block).flatMap (· ++ crlf) ++ crlf
        = line ++ 13 :: 10 :: (block.flatMap (· ++ crlf) ++ crlf) := by simp [crlf]
    rw [hbytes, fromUtf8Lossy_ascii _ (by decide),
      show ∀ bytes, fromUtf8Lossy (10 :: bytes) = '\n' :: fromUtf8Lossy bytes
        from fun bytes => fromUtf8Lossy_ascii [] (by decide) bytes]
    have hrest := lines_crlf (newline_not_mem hline.2)
      (fromUtf8Lossy (block.flatMap (· ++ crlf) ++ crlf))
    rw [ih fun l hl => h l (mem_cons_of_mem _ hl)] at hrest
    exact hrest

theorem lineLength_statusLine : lineLength (fromUtf8Lossy resp.statusLine) = none := by
  rfl

theorem lineLength_other {fields : List HeaderField}
    (h : ∀ field ∈ fields, ¬ field.IsContentLength) :
    ((fields.map HeaderField.line).map fromUtf8Lossy).findSome? lineLength = none := by
  rw [findSome?_eq_none_iff]
  intro text htext
  obtain ⟨line, hline, rfl⟩ := mem_map.mp htext
  obtain ⟨field, hfield, rfl⟩ := mem_map.mp hline
  rw [field.lineLength_line, if_neg]
  exact fun hs => h field hfield hs.isContentLength

theorem parseContentLength_head : parseContentLength (fromUtf8Lossy resp.head) = resp.found := by
  have hbefore := lineLength_other fun field hfield => resp.others field (mem_append_left _ hfield)
  have hafter := lineLength_other fun field hfield => resp.others field (mem_append_right _ hfield)
  rw [parseContentLength_eq, head, lines_block resp.isLine_headLines, headLines]
  simp only [map_cons, map_append, findSome?_append,
    findSome?_cons, lineLength_statusLine, hbefore, hafter, lineLength_contentLength, found]
  by_cases hfound : resp.contentLength.Spelled ∧ resp.length < 2 ^ 64
  · rw [if_pos hfound, if_pos hfound]
    exact UInt64.toNat_ofNat_of_lt' hfound.2
  · rw [if_neg hfound, if_neg hfound]
    rfl

theorem readHttpResponse_head (hhead : resp.head.length ≤ 16384)
    {body data : Bytes} (hbody : body.length = resp.found) (splits : List Nat) :
    ∃ splits', readHttpResponse ⟨resp.head ++ (body ++ data), splits⟩ = .ok () ⟨data, splits'⟩ := by
  obtain ⟨splits₁, hread⟩ : ∃ splits₁, readHeaders [] ⟨resp.head ++ (body ++ data), splits⟩
      = .ok resp.head ⟨body ++ data, splits₁⟩ :=
    readHeaders_lines (cons_ne_nil _ _) resp.isLine_headLines hhead (body ++ data) splits
  obtain ⟨splits₂, hdiscard⟩ := discardBody_body body data splits₁
  have hstatus : (stripText "HTTP/1.1 200".toList
      ((lines (fromUtf8Lossy resp.head)).headD [])).isNone = false := by
    rw [head, lines_block resp.isLine_headLines]
    show (stripText _ (fromUtf8Lossy resp.statusLine)).isNone = false
    rfl
  refine ⟨splits₂, ?_⟩
  unfold readHttpResponse
  rw [bind_of_ok hread]
  rw [if_neg fun h => absurd (hstatus.symm.trans h.1) (by decide),
    resp.parseContentLength_head, ← hbody]
  exact hdiscard

end OkResponse

/-- A response is consumed to its end iff its length is understood. -/
theorem response_consumed_iff (resp : OkResponse) (hhead : resp.head.length ≤ 16384) (body : Bytes)
    (hbody : body.length = resp.length) (next : Bytes) (splits : List Nat) :
    (∃ splits', readHttpResponse ⟨resp.head ++ body ++ next, splits⟩ = .ok () ⟨next, splits'⟩)
      ↔ (resp.contentLength.name = asciiBytes "Content-Length"
            ∨ resp.contentLength.name = asciiBytes "content-length") ∧ body.length < 2 ^ 64
        ∨ body = [] := by
  have hfound : resp.found = if resp.contentLength.Spelled ∧ body.length < 2 ^ 64 then body.length
        else 0 := by rw [OkResponse.found, hbody]
  rw [append_assoc]
  by_cases hspelled : resp.contentLength.Spelled ∧ body.length < 2 ^ 64
  · rw [if_pos hspelled] at hfound
    exact iff_of_true (resp.readHttpResponse_head hhead hfound.symm splits) (.inl hspelled)
  · rw [if_neg hspelled] at hfound
    obtain ⟨left, hleft⟩ := @OkResponse.readHttpResponse_head resp hhead []
      (body ++ next) hfound.symm splits
    rw [nil_append] at hleft
    rw [hleft]
    constructor
    · rintro ⟨splits', hok⟩
      injection hok with _ hstream
      injection hstream with hdata _
      exact .inr (append_left_eq_self.mp hdata)
    · rintro (h | rfl)
      · exact absurd h hspelled
      · exact ⟨left, rfl⟩

def LengthName (name : Bytes) : Prop :=
  (∀ b ∈ name, b < 0x80) ∧ (58 : UInt8) ∉ name ∧ (10 : UInt8) ∉ name
    ∧ name.map toAsciiLowercase = asciiBytes "content-length"

theorem lengthName_mixed : LengthName (asciiBytes "Content-Length") := by
  unfold LengthName
  decide +kernel

theorem lengthName_capitals : LengthName (asciiBytes "CONTENT-LENGTH") := by
  unfold LengthName
  decide +kernel

def twoBytes (name : Bytes) (hname : LengthName name) : OkResponse where
  reason := asciiBytes " OK"
  before := []
  contentLength :=
    { name, value := asciiBytes " 2", ascii := hname.1, colon := hname.2.1
      nameLine := hname.2.2.1, valueLine := by decide }
  after := []
  padBefore := [32]
  digits := [50]
  padAfter := []
  reasonLine := by decide
  isContentLength := hname.2.2.2
  others := by simp
  value := rfl
  blank := by decide +kernel
  digitsNe := by decide
  isDigit := by decide +kernel

theorem response_consumed_plain : ∃ splits', readHttpResponse
        ⟨(twoBytes (asciiBytes "Content-Length") lengthName_mixed).head
          ++ asciiBytes "\x7b\x7d" ++ asciiBytes "HTTP/1.1 200", [0, 3, 1]⟩
      = .ok () ⟨asciiBytes "HTTP/1.1 200", splits'⟩ :=
  (response_consumed_iff
    (twoBytes (asciiBytes "Content-Length") lengthName_mixed)
    (by decide) (asciiBytes "\x7b\x7d") (by decide) _ _).mpr (.inl ⟨.inl rfl, by decide⟩)

theorem response_body_left : ¬ ∃ splits', readHttpResponse
        ⟨(twoBytes (asciiBytes "CONTENT-LENGTH") lengthName_capitals).head
          ++ asciiBytes "\x7b\x7d" ++ asciiBytes "HTTP/1.1 200", []⟩
      = .ok () ⟨asciiBytes "HTTP/1.1 200", splits'⟩ := by
  have hfound : ([] : Bytes).length
      = (twoBytes (asciiBytes "CONTENT-LENGTH") lengthName_capitals).found :=
    (if_neg fun h => absurd h.1 (by decide)).symm
  obtain ⟨left, hleft⟩ := OkResponse.readHttpResponse_head _ (by decide) hfound []
  rintro ⟨splits', hok⟩
  have hdata := hleft.symm.trans hok
  injection hdata with _ hstream
  injection hstream with hdata _
  exact absurd hdata (by decide)

end Logjet
