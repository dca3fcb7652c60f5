/-
When the canonical form of free text is its own: exactly if each token is
stable. No token is ever lost (`List.flatMap_eq_self`).
-/
import Logjet.Ljx.Proofs.Tokens
import Mathlib.Data.List.Forall2

variable {α : Type} {f : α → List α} {l : List α}

theorem List.length_le_flatMap (hne : ∀ a ∈ l, f a ≠ []) : l.length ≤ (l.flatMap f).length := by
  induction l with
  | nil => exact Nat.zero_le _
  | cons a l ih =>
    have hrest := ih fun b hb => hne b (List.mem_cons_of_mem _ hb)
    have ha := List.length_pos_iff.mpr (hne a List.mem_cons_self)
    rw [List.flatMap_cons, List.length_append, List.length_cons]
    omega

theorem List.flatMap_singletons {l' : List α}
    (hne : ∀ a ∈ l, f a ≠ []) (h : l.flatMap f = l') (hlen : l'.length = l.length) :
    List.Forall₂ (fun a b => f a = [b]) l l' := by
  induction l generalizing l' with
  | nil =>
    rw [← h]
    exact .nil
  | cons a l ih =>
    have hne' : ∀ b ∈ l, f b ≠ [] := fun b hb => hne b (List.mem_cons_of_mem _ hb)
    have hle := List.length_le_flatMap hne'
    obtain ⟨x, xs, hx⟩ := List.exists_cons_of_ne_nil (hne a List.mem_cons_self)
    rw [List.flatMap_cons, hx, List.cons_append] at h
    rw [← h, List.length_cons, List.length_append, List.length_cons] at hlen
    have hxs : xs = [] := List.eq_nil_of_length_eq_zero (by omega)
    rw [hxs] at hx h hlen
    rw [← h]
    exact .cons hx (ih hne' rfl (by simpa using hlen))

theorem List.flatMap_eq_self (hne : ∀ a ∈ l, f a ≠ []) (h : l.flatMap f = l) : ∀ a ∈ l, f a = [a] :=
  List.forall₂_same.mp (List.flatMap_singletons hne h rfl)

namespace Logjet.Ljx

open List

variable {c : Char} {text core s : Text}

theorem encode_latin1 (hc : isHigh c = true) (hlt : c.toNat < 0x100) :
    String.utf8EncodeChar c = [UInt8.ofNat (c.toNat / 64 + 192), UInt8.ofNat (c.toNat % 64 + 128)]
    := by
  have hle := of_decide_eq_true hc
  change 0x80 ≤ c.val.toNat at hle
  change c.val.toNat < 0x100 at hlt
  rw [String.utf8EncodeChar, if_neg (by omega), if_pos (by omega),
    Nat.mod_eq_of_lt (by omega : c.val.toNat / 64 < 32)]
  rfl

def leadChar (c : Char) : Char := if c.toNat < 0xc0 then Char.ofNat 0xc2 else Char.ofNat 0xc3

theorem bytesText_latin1 (hc : isHigh c = true) (hlt : c.toNat < 0x100) (text : Text) :
    bytesText (c :: text) = leadChar c :: byteChar (UInt8.ofNat (c.toNat % 64 + 128))
        :: bytesText text := by
  have hlead : byteChar (UInt8.ofNat (c.toNat / 64 + 192)) = leadChar c := by
    have hle := of_decide_eq_true hc
    unfold leadChar
    split
    next h => rw [show c.toNat / 64 + 192 = 0xc2 by omega]; rfl
    next h => rw [show c.toNat / 64 + 192 = 0xc3 by omega]; rfl
  rw [bytesText, utf8_cons, encode_latin1 hc hlt, map_append, map_cons, hlead]
  rfl

def isHighSolid (c : Char) : Bool := isHigh c && !isWhiteSpace c

theorem isHighSolid_leadChar (c : Char) : isHighSolid (leadChar c) = true := by
  unfold leadChar
  split
  · decide
  · decide

theorem high_add_count_le (hlt : ∀ c ∈ text, c.toNat < 0x100) :
    text.countP isHigh + text.count (Char.ofNat 0xc3) ≤ (bytesText text).countP isHighSolid := by
  induction text with
  | nil => exact Nat.zero_le _
  | cons c text ih =>
    have hrest := ih fun d hd => hlt d (mem_cons_of_mem _ hd)
    cases hc : isHigh c with
    | false =>
      have hne : c ≠ Char.ofNat 0xc3 := by
        rintro rfl
        cases hc
      rw [bytesText_ascii hc, countP_cons_of_neg (by simp [hc]),
        count_cons_of_ne hne, countP_cons_of_neg (by simp [isHighSolid, hc])]
      exact hrest
    | true =>
      rw [bytesText_latin1 hc (hlt c mem_cons_self), countP_cons_of_pos hc,
        countP_cons_of_pos (isHighSolid_leadChar c)]
      by_cases hsame : c = Char.ofNat 0xc3
      · have hlast : isHighSolid (byteChar (UInt8.ofNat (c.toNat % 64 + 128))) = true := by
          rw [hsame]
          decide
        rw [countP_cons_of_pos hlast, hsame, count_cons_self]
        omega
      · rw [count_cons_of_ne hsame, countP_cons]
        omega

theorem Compounded.filter_ne (h : Compounded core s)
    (hhigh : ∃ c ∈ core, isHigh c = true) (heq : s.filter (!isWhiteSpace ·) = core) : False := by
  have hlt : ∀ c ∈ core, c.toNat < 0x100 := by
    intro c hc
    rw [← heq] at hc
    exact h.latin1 c (mem_filter.mp hc).1
  have hlead : ∀ c ∈ core, isHigh c = true → leadChar c ∈ core := by
    intro c hc hch
    obtain ⟨before, behind, rfl⟩ := append_of_mem hc
    have hbytes : leadChar c ∈ (utf8 (before ++ c :: behind)).map byteChar := by
      have happend : bytesText (before ++ c :: behind)
          = bytesText before ++ bytesText (c :: behind) := by
        rw [bytesText, utf8_eq_flatMap, flatMap_append, map_append,
          ← utf8_eq_flatMap, ← utf8_eq_flatMap]
        rfl
      change leadChar c ∈ bytesText (before ++ c :: behind)
      rw [happend, bytesText_latin1 hch (hlt c hc)]
      exact mem_append_right _ mem_cons_self
    have hsolid := isHighSolid_leadChar c
    rw [isHighSolid, Bool.and_eq_true] at hsolid
    have hcount := h.lexed.countP_high (p := (· == leadChar c)) (by
      intro d hd
      rw [eq_of_beq hd]
      exact hsolid.1)
    have hmem : leadChar c ∈ s := by
      rw [← count_pos_iff, List.count, ← hcount]
      exact count_pos_iff.mpr hbytes
    rw [← heq]
    exact mem_filter.mpr ⟨hmem, hsolid.2⟩
  have htilde : Char.ofNat 0xc3 ∈ core := by
    obtain ⟨c, hc, hch⟩ := hhigh
    have hfirst := hlead c hc hch
    unfold leadChar at hfirst
    split at hfirst
    · exact hlead _ hfirst rfl
    · exact hfirst
  have hcount : core.countP isHigh = (bytesText core).countP isHighSolid := by
    nth_rewrite 1 [← heq]
    rw [countP_filter]
    refine (h.lexed.countP_high (p := isHighSolid) fun c hc => ?_).symm
    rw [isHighSolid, Bool.and_eq_true] at hc
    exact hc.1
  have hle := high_add_count_le hlt
  have hpos := count_pos_iff.mpr htilde
  omega

structure Parts (core suffix : Text) : Prop where
  core_last : ∀ q, core.getLast? = some q → isTrailingPunct q = false
  suffix_all : ∀ c ∈ suffix, isTrailingPunct c = true

theorem Parts.split {suffix : Text} (h : Parts core suffix) :
    splitTrailingPunct (core ++ suffix) = (core, suffix) := by
  have hsuffix : ∀ c ∈ suffix.reverse, isTrailingPunct c = true :=
    fun c hc => h.suffix_all c (mem_reverse.mp hc)
  have hcore : ∀ q, core.reverse.head? = some q → isTrailingPunct q = false := by
    intro q hq
    rw [head?_reverse] at hq
    exact h.core_last q hq
  have hstop : core.reverse.dropWhile isTrailingPunct = core.reverse
      ∧ core.reverse.takeWhile isTrailingPunct = [] := by
    cases hrev : core.reverse with
    | nil => exact ⟨rfl, rfl⟩
    | cons q rest =>
      rw [hrev] at hcore
      have hq := ne_true_of_eq_false (hcore q rfl)
      exact ⟨dropWhile_cons_of_neg hq, takeWhile_cons_of_neg hq⟩
  rw [splitTrailingPunct, reverse_append, dropWhile_append_of_pos hsuffix,
    takeWhile_append_of_pos hsuffix, hstop.1, hstop.2, append_nil, reverse_reverse, reverse_reverse]

theorem exists_parts (token : Text) :
    ∃ core suffix, token = core ++ suffix ∧ Parts core suffix := by
  refine ⟨(token.reverse.dropWhile isTrailingPunct).reverse,
    (token.reverse.takeWhile isTrailingPunct).reverse, ?_, ?_, ?_⟩
  · rw [← reverse_append, takeWhile_append_dropWhile, reverse_reverse]
  · intro q hq
    rw [getLast?_reverse] at hq
    have hhead := head?_dropWhile_not isTrailingPunct token.reverse
    rw [hq] at hhead
    simpa using hhead
  · intro c hc
    exact all_eq_true.mp all_takeWhile c (mem_reverse.mp hc)

theorem isWhiteSpace_of_isWordChar (h : isWordChar c = true) : isWhiteSpace c = false := by
  rw [isWordChar, Bool.or_eq_true, decide_eq_true_eq] at h
  rcases h with h | rfl
  · have hrange := toNat_of_isAlphanum h
    simp [isWhiteSpace]
    omega
  · decide

namespace Compounded

variable {core s : Text} (h : Compounded core s)

include h

theorem isHigh_of_isWhiteSpace (hcore : Solid core) {c : Char} (hc : c ∈ s)
    (hspace : isWhiteSpace c = true) : isHigh c = true := by
  by_contra hhigh
  have hmark : isMark c = true := by
    rw [isMark, eq_false_of_ne_true hhigh,
      eq_false_of_ne_true (mt isWhiteSpace_of_isWordChar (ne_false_of_eq_true hspace))]
    rfl
  have hpos := count_pos_iff.mpr hc
  rw [← h.count_eq hmark, count_pos_iff] at hpos
  rw [hcore c hpos] at hspace
  cases hspace

theorem solid_of_ascii (hcore : Solid core) (hascii : ∀ c ∈ s, isHigh c = false) : Solid s := by
  intro c hc
  refine eq_false_of_ne_true fun hspace => ?_
  have hhigh := h.isHigh_of_isWhiteSpace hcore hc hspace
  rw [hascii c hc] at hhigh
  cases hhigh

theorem solid_iff (hcore : Solid core) : Solid s ↔ ∀ b ∈ utf8 core, b ≠ 0x85 ∧ b ≠ 0xa0 := by
  have hmem : ∀ b : UInt8, isHigh (byteChar b) = true → (byteChar b ∈ s ↔ b ∈ utf8 core) := by
    intro b hb
    have hcount := h.lexed.countP_high (p := (· == byteChar b)) (by
      intro c hc
      rw [eq_of_beq hc]
      exact hb)
    rw [← count_pos_iff, List.count, ← hcount]
    change 0 < List.count (byteChar b) ((utf8 core).map byteChar) ↔ _
    rw [count_pos_iff, mem_map]
    constructor
    · rintro ⟨a, ha, heq⟩
      rwa [← byteChar_inj.mp heq]
    · exact fun hb' => ⟨b, hb', rfl⟩
  constructor
  · intro hs b hb
    constructor
    · rintro rfl
      have hspace := hs _ ((hmem 0x85 rfl).mpr hb)
      cases hspace
    · rintro rfl
      have hspace := hs _ ((hmem 0xa0 rfl).mpr hb)
      cases hspace
  · intro hbytes c hc
    refine eq_false_of_ne_true fun hspace => ?_
    have hhigh := h.isHigh_of_isWhiteSpace hcore hc hspace
    have hlt := h.latin1 c hc
    have hin : UInt8.ofNat c.toNat ∈ utf8 core := by
      rw [← hmem _ (by rw [byteChar_ofNat hlt]; exact hhigh), byteChar_ofNat hlt]
      exact hc
    obtain ⟨hne, hne'⟩ := hbytes _ hin
    have hcode : c.toNat = 0x85 ∨ c.toNat = 0xa0 := by
      simp only [isHigh, decide_eq_true_eq] at hhigh
      simp only [isWhiteSpace, Bool.or_eq_true, Bool.and_eq_true, decide_eq_true_eq] at hspace
      omega
    rcases hcode with hcode | hcode
    · exact hne (by rw [hcode]; rfl)
    · exact hne' (by rw [hcode]; rfl)

end Compounded

section

variable (u : UnicodeClasses) {core suffix : Text}

theorem mid_cases (core : Text) : mid u core = core ∨ mid u core ∈ underscored
      ∨ mid u core = quotedPlaceholder ∨ classifyToken u core = .compound (mid u core)
        ∧ Compounded core (mid u core) := by
  cases hclass : classifyToken u core with
  | preserve => exact .inl (mid_of u hclass)
  | replace r =>
    have hmid : mid u core = r := mid_of u hclass
    rw [hmid]
    exact .inr ((classify_puts u core r hclass).imp_right .inl)
  | compound s =>
    have hmid : mid u core = s := mid_of u hclass
    rw [hmid]
    exact .inr (.inr (.inr ⟨rfl, classify_compound u hclass⟩))

theorem isMark_of_isTrailingPunct {q : Char} (h : isTrailingPunct q = true) : isMark q = true := by
  rw [isTrailingPunct, contains_iff_mem] at h
  have hall : [',', ';', ':', ')', ']', '}'].all isMark = true := rfl
  exact all_eq_true.mp hall q h

theorem Parts.mid (h : Parts core suffix) : Parts (mid u core) suffix := by
  refine ⟨fun q hq => ?_, h.suffix_all⟩
  rcases mid_cases u core with hmid | hmid | hmid | ⟨-, hc⟩
  · rw [hmid] at hq
    exact h.core_last q hq
  · rw [(underscored_facts _ hmid).2.1] at hq
    cases hq
    rfl
  · rw [hmid] at hq
    cases hq
    rfl
  · refine eq_false_of_ne_true fun hpunct => ?_
    have hlast := (hc.getLast?_iff (isMark_of_isTrailingPunct hpunct)).mpr hq
    rw [h.core_last q hlast] at hpunct
    cases hpunct

theorem Parts.render (h : Parts core suffix) :
    renderToken u (core ++ suffix) = Ljx.mid u core ++ suffix := by
  rw [renderToken, h.split]
  rfl

theorem mid_solid (hcore : Solid core) (hs : ∀ s, classifyToken u core = .compound s → Solid s) :
    Solid (mid u core) := by
  rcases mid_cases u core with hmid | hmid | hmid | ⟨hclass, -⟩
  · rw [hmid]
    exact hcore
  · intro c hc
    simpa using all_eq_true.mp (underscored_facts _ hmid).2.2.2.1 c hc
  · rw [hmid]
    exact forall_mem_of_all_not rfl
  · exact hs _ hclass

theorem exists_solid_mid (hcore : Solid core) (hne : core ≠ []) :
    ∃ c ∈ mid u core, isWhiteSpace c = false := by
  have hword : ∀ {c : Char}, c.isAlpha = true → isWhiteSpace c = false := by
    intro c hc
    refine isWhiteSpace_of_isWordChar ?_
    rw [isWordChar, Char.isAlphanum, hc]
    rfl
  rcases mid_cases u core with hmid | hmid | hmid | ⟨-, hc⟩
  · rw [hmid]
    obtain ⟨c, rest, rfl⟩ := exists_cons_of_ne_nil hne
    exact ⟨c, mem_cons_self, hcore c mem_cons_self⟩
  · obtain ⟨c, hc, halpha⟩ := any_eq_true.mp (underscored_facts _ hmid).2.2.1
    exact ⟨c, hc, hword halpha⟩
  · rw [hmid]
    exact ⟨'_', by decide, by decide⟩
  · obtain ⟨c, hcs, halpha⟩ := any_eq_true.mp
      (hc.lexed.any_isAlpha ((any_alpha_eq core).trans hc.alpha))
    exact ⟨c, hcs, hword halpha⟩

variable {token : Text}

theorem isHigh_of_mem_render (hsolid : Solid token) {c : Char}
    (hc : c ∈ renderToken u token) (hspace : isWhiteSpace c = true) : isHigh c = true := by
  obtain ⟨core, suffix, rfl, hparts⟩ := exists_parts token
  obtain ⟨hcore, hsuffix⟩ := solid_append.mp hsolid
  have hout : ∀ {text : Text}, Solid text → c ∉ text := by
    intro text htext hmem
    rw [htext c hmem] at hspace
    cases hspace
  rw [hparts.render] at hc
  rcases mem_append.mp hc with hc | hc
  · by_cases hcompound : ∃ s, classifyToken u core = .compound s
    · obtain ⟨s, hclass⟩ := hcompound
      rw [mid_of u hclass] at hc
      exact (classify_compound u hclass).isHigh_of_isWhiteSpace hcore hc hspace
    · refine absurd hc (hout (mid_solid u hcore fun s hs => ?_))
      exact absurd ⟨s, hs⟩ hcompound
  · exact absurd hc (hout hsuffix)

theorem splitWhitespace_render_ne_nil (hne : token ≠ [])
    (hsolid : Solid token) : splitWhitespace (renderToken u token) ≠ [] := by
  obtain ⟨core, suffix, rfl, hparts⟩ := exists_parts token
  rw [hparts.render]
  have hsome : ∃ c ∈ mid u core ++ suffix, isWhiteSpace c = false := by
    by_cases hcore : core = []
    · rw [hcore, nil_append] at hne hsolid
      obtain ⟨c, rest, rfl⟩ := exists_cons_of_ne_nil hne
      exact ⟨c, mem_append_right _ mem_cons_self, hsolid c mem_cons_self⟩
    · obtain ⟨c, hc, hspace⟩ := exists_solid_mid u (solid_append.mp hsolid).1 hcore
      exact ⟨c, mem_append_left _ hc, hspace⟩
  obtain ⟨c, hc, hspace⟩ := hsome
  intro hnone
  have hflat := splitWhitespaceFrom_flatten [] (mid u core ++ suffix)
  rw [show splitWhitespaceFrom [] (mid u core ++ suffix) = [] from hnone] at hflat
  have hmem : c ∈ (mid u core ++ suffix).filter (!isWhiteSpace ·) :=
    mem_filter.mpr ⟨hc, by simp [hspace]⟩
  rw [nil_append] at hflat
  rw [← hflat] at hmem
  cases hmem

theorem render_eq_self (hne : token ≠ []) (hsolid : Solid token)
    (hagain : splitWhitespace (renderToken u token) = [token]) : renderToken u token = token := by
  obtain ⟨core, suffix, rfl, hparts⟩ := exists_parts token
  obtain ⟨hcore, hsuffix⟩ := solid_append.mp hsolid
  rw [hparts.render] at hagain ⊢
  by_cases hs : ∀ s, classifyToken u core = .compound s → Solid s
  · have hall := solid_append.mpr ⟨mid_solid u hcore hs, hsuffix⟩
    have hne' : mid u core ++ suffix ≠ [] := by
      intro hnil
      rw [hnil] at hagain
      cases hagain
    rw [splitWhitespace_of_solid hall hne'] at hagain
    exact singleton_inj.mp hagain
  · exfalso
    push Not at hs
    obtain ⟨s, hclass, hspace⟩ := hs
    have h := classify_compound u hclass
    have hmid : mid u core = s := mid_of u hclass
    have hbeyond : ∃ c ∈ core, isHigh c = true := by
      by_contra hnone
      have hascii := h.ascii_iff.mpr fun c hc => eq_false_of_ne_true fun hch => hnone ⟨c, hc, hch⟩
      exact hspace (h.solid_of_ascii hcore hascii)
    refine h.filter_ne hbeyond ?_
    have hkept : suffix.filter (!isWhiteSpace ·) = suffix :=
      filter_eq_self.mpr fun c hc => by simp [hsuffix c hc]
    have hflat := splitWhitespaceFrom_flatten [] (s ++ suffix)
    rw [hmid] at hagain
    rw [show splitWhitespaceFrom [] (s ++ suffix) = [core ++ suffix]
      from hagain, flatten_singleton, nil_append, filter_append, hkept] at hflat
    exact (append_cancel_right hflat).symm

end

section

variable (u : UnicodeClasses)

def Stable (token : Text) : Prop :=
  (∃ s, classifyToken u (splitTrailingPunct token).1 = .compound s) →
    (∀ c ∈ (splitTrailingPunct token).1, isHigh c = false)
      ∨ (DigitsReplaced (utf8 (splitTrailingPunct token).1)
        ∧ ∀ b ∈ utf8 (splitTrailingPunct token).1, b ≠ 0x85 ∧ b ≠ 0xa0)

theorem stable_iff {token : Text} (hsolid : Solid token) :
    Stable u token ↔ Solid (renderToken u token)
      ∧ renderToken u (renderToken u token) = renderToken u token := by
  obtain ⟨core, suffix, rfl, hparts⟩ := exists_parts token
  obtain ⟨hcore, hsuffix⟩ := solid_append.mp hsolid
  rw [Stable, hparts.split, hparts.render, (hparts.mid u).render, append_left_inj, mid_again_iff]
  constructor
  · intro hstable
    refine ⟨solid_append.mpr ⟨mid_solid u hcore fun s hs => ?_, hsuffix⟩, fun s hs => ?_⟩
    · have h := classify_compound u hs
      rcases hstable ⟨s, hs⟩ with hascii | ⟨-, hbytes⟩
      · exact h.solid_of_ascii hcore (h.ascii_iff.mpr hascii)
      · exact (h.solid_iff hcore).mpr hbytes
    · have h := classify_compound u hs
      exact (hstable ⟨s, hs⟩).imp h.ascii_iff.mpr fun hdigits => h.lexed.no_digit_iff.mpr hdigits.1
  · rintro ⟨hall, hagain⟩ ⟨s, hs⟩
    have h := classify_compound u hs
    rw [mid_of u hs] at hall
    rcases hagain s hs with hascii | hdigit
    · exact .inl (h.ascii_iff.mp hascii)
    · exact .inr ⟨h.lexed.no_digit_iff.mp hdigit, (h.solid_iff hcore).mp (solid_append.mp hall).1⟩

end

theorem canonicaliseFreetext_of_fixed (u : UnicodeClasses) {tokens : List Text}
    (h : ∀ t ∈ tokens, t ≠ [] ∧ Solid t ∧ renderToken u t = t) :
    canonicaliseFreetext u ([' '].intercalate tokens) = [' '].intercalate tokens := by
  have htokens : tokens.flatMap splitWhitespace = tokens := by
    have hone : tokens.flatMap splitWhitespace = tokens.flatMap fun t => [t] := by
      refine flatMap_congr fun t ht => ?_
      obtain ⟨hne, hsolid, -⟩ := h t ht
      exact splitWhitespace_of_solid hsolid hne
    rw [hone, flatMap_singleton']
  have hrender : tokens.map (renderToken u) = tokens :=
    (map_congr_left fun t ht => (h t ht).2.2).trans (map_id tokens)
  rw [canonicaliseFreetext, splitWhitespace_intercalate, htokens, hrender]

theorem render_of_canonicalise_eq (u : UnicodeClasses)
    (h : canonicaliseFreetext u text = text) : ∀ t ∈ splitWhitespace text, renderToken u t = t := by
  have hself : (splitWhitespace text).flatMap
      (fun t => splitWhitespace (renderToken u t)) = splitWhitespace text := by
    have htokens := splitWhitespace_intercalate ((splitWhitespace text).map (renderToken u))
    rw [flatMap_map] at htokens
    rw [← htokens]
    exact congrArg splitWhitespace h
  intro t ht
  obtain ⟨hne, hsolid⟩ := splitWhitespace_solid text t ht
  refine render_eq_self u hne hsolid (flatMap_eq_self ?_ hself t ht)
  intro t' ht'
  obtain ⟨hne', hsolid'⟩ := splitWhitespace_solid text t' ht'
  exact splitWhitespace_render_ne_nil u hne' hsolid'

theorem render_ne_nil (u : UnicodeClasses) {token : Text} (hne : token ≠ [])
    (hsolid : Solid token) : renderToken u token ≠ [] := by
  intro hnil
  have hsome := splitWhitespace_render_ne_nil u hne hsolid
  rw [hnil] at hsome
  exact hsome rfl

/-- One pass over free text is enough iff its tokens are stable. -/
theorem freetext_idempotent_iff (u : UnicodeClasses) (body : Text) :
    canonicaliseFreetext u (canonicaliseFreetext u body) = canonicaliseFreetext u body
      ↔ ∀ token ∈ splitWhitespace body, Stable u token := by
  have htoken := splitWhitespace_solid body
  constructor
  · intro h token ht
    have hfixed := render_of_canonicalise_eq u h
    have hform : [' '].intercalate (splitWhitespace (canonicaliseFreetext u body))
        = canonicaliseFreetext u body := by
      nth_rewrite 2 [← h]
      exact congrArg _ ((map_congr_left hfixed).trans (map_id _)).symm
    have hrendered : renderToken u token ∈ (splitWhitespace body).map (renderToken u) :=
      mem_map_of_mem ht
    have hsolid : Solid (renderToken u token) := by
      intro c hc
      have hin : c ∈ canonicaliseFreetext u body := mem_intercalate_of_mem hrendered hc
      rw [← hform] at hin
      rcases mem_intercalate hin with rfl | ⟨t, ht', hct⟩
      · exact absurd (isHigh_of_mem_render u (htoken token ht).2 hc rfl) Bool.false_ne_true
      · exact (splitWhitespace_solid _ t ht').2 c hct
    rw [stable_iff u (htoken token ht).2]
    refine ⟨hsolid, hfixed _ ?_⟩
    rw [canonicaliseFreetext, splitWhitespace_intercalate]
    refine mem_flatMap.mpr ⟨_, hrendered, ?_⟩
    rw [splitWhitespace_of_solid hsolid (render_ne_nil u (htoken token ht).1 (htoken token ht).2)]
    exact mem_singleton_self _
  · intro h
    refine canonicaliseFreetext_of_fixed u fun r hr => ?_
    obtain ⟨token, ht, rfl⟩ := mem_map.mp hr
    obtain ⟨hne, hsolid⟩ := htoken token ht
    exact ⟨render_ne_nil u hne hsolid, (stable_iff u hsolid).mp (h token ht)⟩

theorem canonicaliseFreetext_compound (u : UnicodeClasses) (htokens : splitWhitespace text = [text])
    (hparts : splitTrailingPunct text = (text, [])) (htame : Tame u text)
    (hdigit : text.any Char.isDigit = true) (hpair : ¬ [':', ':'] <:+: text)
    (hlexed : compoundMiniLexer (utf8 text) = s) : canonicaliseFreetext u text = s := by
  rw [canonicaliseFreetext, htokens, map_singleton, intercalate_singleton, renderToken, hparts]
  dsimp only
  rw [htame.classify, if_pos ⟨hdigit, hpair⟩, hlexed, append_nil]
  rfl

def latin1Letters : List (Nat × Nat) :=
  [(0xaa, 0xaa), (0xb5, 0xb5), (0xba, 0xba), (0xc0, 0xd6), (0xd8, 0xf6), (0xf8, 0xff)]

def latin1Word (c : Char) : Bool :=
  c.isAlphanum || c = '_' || latin1Letters.any fun r => r.1 ≤ c.toNat && c.toNat ≤ r.2

theorem latin1Word_ascii (c : Char) (hc : c.toNat < 0x80) :
    latin1Word c = (c.isAlphanum || c = '_') := by
  have hnone : (latin1Letters.any fun r => r.1 ≤ c.toNat && c.toNat ≤ r.2) = false := by
    simp [latin1Letters]
    omega
  rw [latin1Word, hnone, Bool.or_false]

def UnicodeClasses.latin1 : UnicodeClasses where
  digit := Char.isDigit
  word := latin1Word
  digit_latin1 := UnicodeClasses.ascii.digit_latin1
  word_ascii := latin1Word_ascii

theorem freetext_not_idempotent :
    canonicaliseFreetext .latin1 "é1a".toList = "Ã©1a".toList
      ∧ canonicaliseFreetext .latin1 "Ã©1a".toList = "Ã\u0083Â©1a".toList := by
  constructor
  · exact canonicaliseFreetext_compound _ (by decide) (by decide)
      (tame_of_head _ (a := 'é') (by decide) (by decide) (by decide)
        (by decide)) (by decide) (by decide) (by decide +kernel)
  · exact canonicaliseFreetext_compound _ (by decide) (by decide)
      (tame_of_head _ (a := 'Ã') (by decide) (by decide) (by decide)
        (by decide)) (by decide) (by decide) (by decide +kernel)

end Logjet.Ljx
