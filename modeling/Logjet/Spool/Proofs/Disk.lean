/-
The directory as a map from names to contents, numbers as text, and the
segment files of a stem (`Directory.Holds`).
-/
import Mathlib.Data.List.Pairwise
import Logjet.Spool.File

namespace Logjet

open List UInt64

theorem le_ofDigitChars (text : Text) (value : Nat) : value ≤ Nat.ofDigitChars 10 text value := by
  induction text generalizing value with
  | nil => exact Nat.le_refl _
  | cons c text ih =>
    refine Nat.le_trans ?_ (ih (10 * value + (c.toNat - '0'.toNat)))
    omega

variable {text path stem : Text} {value : UInt64} {c : Char} {d d' : Directory}

theorem parseDigits_eq_ok_iff {n : Nat} (hn : n < 2 ^ 64) : parseDigits n text = .ok value
    ↔ (∀ c ∈ text, c.isDigit) ∧ Nat.ofDigitChars 10 text n = value.toNat := by
  induction text generalizing n with
  | nil =>
    rw [parseDigits, Except.ok.injEq, ← UInt64.toNat_inj, toNat_ofNat_of_lt' hn]
    simp [Nat.ofDigitChars]
  | cons c text ih =>
    have hcons : Nat.ofDigitChars 10 (c :: text) n
        = Nat.ofDigitChars 10 text (10 * n + (c.toNat - '0'.toNat)) := rfl
    rw [hcons, parseDigits, forall_mem_cons]
    by_cases hc : c.isDigit
    · rw [if_pos hc]
      by_cases hlt : 10 * n + (c.toNat - '0'.toNat) < 2 ^ 64
      · rw [if_pos hlt, ih hlt, and_iff_right hc]
      · rw [if_neg hlt]
        refine ⟨fun h => (by cases h), ?_⟩
        rintro ⟨-, hvalue⟩
        have hfirst := le_ofDigitChars text (10 * n + (c.toNat - '0'.toNat))
        have := value.toNat_lt
        omega
    · rw [if_neg hc]
      exact ⟨fun h => (by cases h), fun h => absurd h.1.1 hc⟩

def Spells (text : Text) (value : UInt64) : Prop :=
  ∃ digits, (text = digits ∨ text = '+' :: digits) ∧ digits ≠ [] ∧ (∀ c ∈ digits, c.isDigit)
    ∧ Nat.ofDigitChars 10 digits 0 = value.toNat

theorem parseU64_eq_ok_iff : parseU64 text = .ok value ↔ Spells text value := by
  have hplus : ¬ '+'.isDigit := by decide
  unfold parseU64
  split
  · refine ⟨fun h => (by cases h), ?_⟩
    rintro ⟨digits, rfl | h, hne, -⟩
    · exact absurd rfl hne
    · cases h
  · refine ⟨fun h => (by cases h), ?_⟩
    rintro ⟨digits, rfl | h, hne, hdigits, -⟩
    · exact absurd (hdigits _ mem_cons_self) hplus
    · cases h
      exact absurd rfl hne
  · rename_i digits hne
    rw [parseDigits_eq_ok_iff (by decide)]
    constructor
    · intro h
      exact ⟨digits, .inr rfl, fun h => hne (by rw [h]), h⟩
    · rintro ⟨_, rfl | h, -, hdigits, hvalue⟩
      · exact absurd (hdigits _ mem_cons_self) hplus
      · cases h
        exact ⟨hdigits, hvalue⟩
  · rename_i hnil _ hsign
    rw [parseDigits_eq_ok_iff (by decide)]
    constructor
    · intro h
      exact ⟨_, .inl rfl, hnil, h⟩
    · rintro ⟨digits, rfl | h, -, hdigits, hvalue⟩
      · exact ⟨hdigits, hvalue⟩
      · exact absurd h (hsign _)

theorem isDigit_of_mem_toText (h : c ∈ toText value) : c.isDigit :=
  Nat.isDigit_of_mem_toDigits (by decide) (by decide) h

theorem ofDigitChars_toText (value : UInt64) : Nat.ofDigitChars 10 (toText value) 0 = value.toNat :=
  Nat.ofDigitChars_toDigits (by decide) (by decide)

theorem spells_toText (value : UInt64) : Spells (toText value) value :=
  ⟨_, .inl rfl, Nat.toDigits_ne_nil, fun _ => isDigit_of_mem_toText, ofDigitChars_toText value⟩

theorem not_isWhiteSpace_of_isDigit (h : c.isDigit) : isWhiteSpace c = false := by
  simp only [Char.isDigit, Bool.and_eq_true, decide_eq_true_eq] at h
  have hlo : 48 ≤ c.toNat := h.1
  have hhi : c.toNat ≤ 57 := h.2
  simp only [isWhiteSpace, Bool.or_eq_false_iff, Bool.and_eq_false_iff, decide_eq_false_iff_not]
  omega

theorem trim_digits (hdigits : ∀ c ∈ text, c.isDigit) : trim text = text := by
  have hkeep : ∀ text : Text, (∀ c ∈ text, c.isDigit) → text.dropWhile isWhiteSpace = text := by
    intro text hdigits
    cases text with
    | nil => rfl
    | cons c text =>
      simp [not_isWhiteSpace_of_isDigit (hdigits c (by simp))]
  unfold trim
  rw [hkeep _ hdigits, hkeep, reverse_reverse]
  intro c hc
  exact hdigits c (mem_reverse.mp hc)

theorem parseNumber_toText (heading : String) (value : UInt64) :
    parseNumber heading (toText value) = .ok value := by
  rw [parseNumber, trim_digits fun c hc => isDigit_of_mem_toText hc,
    parseU64_eq_ok_iff.mpr (spells_toText value)]

theorem parseNumber_of_prefix (heading : String) (htext : text <+: toText value) (hne : text ≠ []) :
    ∃ v ≤ value, parseNumber heading text = .ok v := by
  have hdigits : ∀ c ∈ text, c.isDigit := fun c hc => isDigit_of_mem_toText (htext.subset hc)
  have hle : Nat.ofDigitChars 10 text 0 ≤ value.toNat := by
    obtain ⟨rest, hrest⟩ := htext
    rw [← ofDigitChars_toText value, ← hrest, Nat.ofDigitChars_append]
    exact le_ofDigitChars rest _
  have hlt := Nat.lt_of_le_of_lt hle value.toNat_lt
  refine ⟨UInt64.ofNat (Nat.ofDigitChars 10 text 0), ?_, ?_⟩
  · rw [le_iff_toNat_le, toNat_ofNat_of_lt' hlt]
    exact hle
  · rw [parseNumber, trim_digits hdigits, parseU64_eq_ok_iff.mpr
      ⟨text, .inl rfl, hne, hdigits, (toNat_ofNat_of_lt' hlt).symm⟩]

namespace Directory

variable {d : Directory} {name : Text}

theorem get?_eq_some_iff {content : Bytes} :
    d.get? name = some content ↔ (name, content) ∈ d.files := by
  unfold get?
  rw [lookup_eq_some_iff]
  constructor
  · intro ⟨l₁, l₂, hsplit, _⟩
    rw [hsplit]
    simp
  · intro hmem
    obtain ⟨l₁, l₂, hsplit⟩ := append_of_mem hmem
    refine ⟨l₁, l₂, hsplit, ?_⟩
    intro p hp
    have hnodup := d.nodup
    rw [hsplit, map_append, nodup_append] at hnodup
    rw [bne_iff_ne]
    intro heq
    exact hnodup.2.2 _ (mem_map_of_mem hp) name (by simp) heq.symm

theorem get?_eq_none_iff : d.get? name = none ↔ name ∉ d.files.map Prod.fst := by
  constructor
  · intro hnone hmem
    obtain ⟨⟨n, content⟩, hfile, rfl⟩ := mem_map.mp hmem
    rw [get?_eq_some_iff.mpr hfile] at hnone
    cases hnone
  · intro hnot
    cases h : d.get? name with
    | none => rfl
    | some content => exact absurd (mem_map_of_mem (get?_eq_some_iff.mp h)) hnot

theorem get?_congr {d' : Directory} {name' : Text}
    (h : ∀ content, (name, content) ∈ d.files ↔ (name', content) ∈ d'.files) :
    d.get? name = d'.get? name' := by
  apply Option.ext
  intro content
  rw [get?_eq_some_iff, get?_eq_some_iff]
  exact h content

theorem get?_alter (f : Bytes → Bytes) (n : Text) : (d.alter name f).get? n
      = if n = name then (d.get? n).map f else d.get? n := by
  by_cases hn : n = name
  · rw [if_pos hn]
    cases h : d.get? n with
    | none =>
      rw [Option.map_none, get?_eq_none_iff]
      rw [get?_eq_none_iff] at h
      simpa [alter] using h
    | some content =>
      rw [Option.map_some, get?_eq_some_iff]
      refine mem_map.mpr ⟨(n, content), get?_eq_some_iff.mp h, ?_⟩
      simp [hn]
  · rw [if_neg hn]
    apply get?_congr
    intro content
    constructor
    · intro hmem
      obtain ⟨⟨m, c⟩, hfile, heq⟩ := mem_map.mp hmem
      cases heq
      rw [if_neg hn]
      exact hfile
    · intro hmem
      refine mem_map.mpr ⟨(n, content), hmem, ?_⟩
      simp [hn]

theorem get?_create (n : Text) : (d.create name).get? n
      = if n = name then some ((d.get? n).getD []) else d.get? n := by
  by_cases hmem : name ∈ d.files.map Prod.fst
  · have hsame : (d.create name).get? n = d.get? n :=
      get?_congr fun content => by simp [create, hmem]
    rw [hsame]
    by_cases hn : n = name
    · rw [if_pos hn]
      cases h : d.get? n with
      | none => exact absurd hmem (hn ▸ get?_eq_none_iff.mp h)
      | some content => rfl
    · rw [if_neg hn]
  · by_cases hn : n = name
    · rw [if_pos hn, hn, get?_eq_none_iff.mpr hmem, get?_eq_some_iff]
      simp [create, hmem]
    · rw [if_neg hn]
      apply get?_congr
      intro content
      simp [create, hmem, hn]

theorem get?_erase (n : Text) : (d.erase name).get? n = if n = name then none else d.get? n := by
  by_cases hn : n = name
  · rw [if_pos hn, get?_eq_none_iff, hn]
    simp [erase]
  · rw [if_neg hn]
    apply get?_congr
    intro content
    simp [erase, hn]

theorem get?_write (content : Bytes) (n : Text) : (d.write name content).get? n
      = if n = name then some content else d.get? n := by
  rw [write, get?_alter, get?_create]
  by_cases hn : n = name
  · simp [hn]
  · simp [hn]

theorem readToString_of_get {text : Text} (h : d.get? name = some (utf8 text)) :
    d.readToString name = .ok text := by
  have hutf8 : String.fromUTF8? ⟨(utf8 text).toArray⟩ = some (String.ofList text) := by
    have hbytes : (⟨(utf8 text).toArray⟩ : ByteArray) = (String.ofList text).toByteArray := by
      simp [utf8, String.toUTF8]
    rw [hbytes, String.fromUTF8?, dif_pos (String.ofList text).isValidUTF8]
    rfl
  rw [readToString, read, h]
  simp only [Option.elim_some, Except.ok_bind, hutf8, String.toList_ofList]
  rfl

end Directory

theorem Directory.readToString_of_not_has
    (h : ¬ d.has path) : d.readToString path = .error Directory.notFound := by
  unfold Directory.readToString Directory.read
  rw [Directory.has, Option.not_isSome_iff_eq_none] at h
  rw [h]
  rfl

theorem Directory.readToString_congr
    (h : d'.get? path = d.get? path) : d'.readToString path = d.readToString path := by
  unfold Directory.readToString Directory.read
  rw [h]

theorem readConsumedState_congr (h : d'.get? path = d.get? path) :
    readConsumedState d' path = readConsumedState d path := by
  have hread := Directory.readToString_congr h
  rw [readConsumedState, readConsumedState, Directory.has, Directory.has, h, hread]

theorem readConsumedState_write (d : Directory) (path : Text) (seq : UInt64) :
    readConsumedState (writeConsumedState d path seq) path = .ok seq := by
  have hget : (writeConsumedState d path seq).get? path = some (utf8 (toText seq)) := by
    rw [writeConsumedState, Directory.get?_write, if_pos rfl]
  rw [readConsumedState, Directory.has, hget, Directory.readToString_of_get hget]
  simp only [Option.isSome_some, Bool.not_true, Bool.false_eq_true, if_false,
    Except.ok_bind, parseNumber_toText]

theorem eq_of_prefix_suffix {name : Text} (hstart : stem ++ ['-'] <+: name)
    (hend : logjetSuffix <:+ name) : ∃ value, name = stem ++ ['-'] ++ value ++ logjetSuffix := by
  obtain ⟨t, rfl⟩ := hstart
  obtain ⟨u, hu⟩ := hend
  rcases append_eq_append_iff.mp hu with ⟨c, hc, hsuffix⟩ | ⟨value, rfl, rfl⟩
  · rcases eq_nil_or_concat c with rfl | ⟨front, last, rfl⟩
    · exact ⟨[], by rw [append_nil, hsuffix]; rfl⟩
    · rw [concat_eq_append, ← append_assoc] at hc
      have hlast : '-' = last := (append_inj' hc rfl).2 |> cons.inj |>.1
      have hmem : '-' ∈ logjetSuffix := by
        rw [hsuffix, hlast]
        simp
      exact absurd hmem (by decide)
  · exact ⟨value, (append_assoc ..).symm⟩

theorem ne_stem_suffix (stem value : Text) :
    stem ++ ['-'] ++ value ++ logjetSuffix ≠ stem ++ logjetSuffix := by
  rw [append_assoc, append_assoc]
  intro h
  have htail := congrArg List.head? (append_cancel_left h)
  exact absurd htail (show some '-' ≠ logjetSuffix.head? by decide)

theorem parseSegmentId_value (stem value : Text) :
    parseSegmentId (stem ++ ['-'] ++ value ++ logjetSuffix) stem = (parseU64 value).toOption := by
  have hstart : (stem ++ ['-']).isPrefixOf (stem ++ ['-'] ++ value ++ logjetSuffix) = true := by
    rw [ isPrefixOf_iff_prefix, append_assoc]
    exact prefix_append _ _
  have hend : logjetSuffix.isSuffixOf (stem ++ ['-'] ++ value ++ logjetSuffix) = true := by
    rw [isSuffixOf_iff_suffix]
    exact suffix_append _ _
  have hlen : (stem ++ ['-'] ++ value ++ logjetSuffix).length - logjetSuffix.length
      = (stem ++ ['-'] ++ value).length := by rw [length_append, Nat.add_sub_cancel]
  rw [parseSegmentId, if_neg (ne_stem_suffix stem value)]
  simp only [hstart, hend, Bool.not_true, Bool.or_self, Bool.false_eq_true, if_false]
  rw [hlen, take_left, drop_left]

theorem parseSegmentId_eq_some_iff {name : Text} {id : UInt64} :
    parseSegmentId name stem = some id ↔ (name = stem ++ logjetSuffix ∧ id = 0)
      ∨ ∃ value, name = stem ++ ['-'] ++ value ++ logjetSuffix ∧ Spells value id := by
  constructor
  · intro h
    by_cases hfirst : name = stem ++ logjetSuffix
    · rw [parseSegmentId, if_pos hfirst] at h
      cases h
      exact .inl ⟨hfirst, rfl⟩
    · have hparts := h
      rw [parseSegmentId, if_neg hfirst] at hparts
      dsimp only at hparts
      split at hparts
      · cases hparts
      · rename_i hboth
        simp only [Bool.or_eq_true, Bool.not_eq_true', not_or, Bool.not_eq_false,
          isPrefixOf_iff_prefix, isSuffixOf_iff_suffix] at hboth
        obtain ⟨value, rfl⟩ := eq_of_prefix_suffix hboth.1 hboth.2
        rw [parseSegmentId_value] at h
        refine .inr ⟨value, rfl, parseU64_eq_ok_iff.mp ?_⟩
        cases hparse : parseU64 value with
        | error e =>
          rw [hparse] at h
          cases h
        | ok v =>
          rw [hparse] at h
          cases h
          rfl
  · rintro (⟨rfl, rfl⟩ | ⟨value, rfl, hvalue⟩)
    · rw [parseSegmentId, if_pos rfl]
    · rw [parseSegmentId_value, parseU64_eq_ok_iff.mpr hvalue]
      rfl

theorem parseSegmentId_segmentPath (stem : Text) (id : UInt64) :
    parseSegmentId (segmentPath stem id) stem = some id := by
  rw [parseSegmentId_eq_some_iff, segmentPath]
  by_cases hid : id = 0
  · exact .inl ⟨if_pos hid, hid⟩
  · exact .inr ⟨toText id, if_neg hid, spells_toText id⟩

theorem segmentPath_inj {a b : UInt64} (h : segmentPath stem a = segmentPath stem b) : a = b := by
  have hparse := parseSegmentId_segmentPath stem a
  rw [h, parseSegmentId_segmentPath] at hparse
  exact (Option.some.inj hparse).symm

theorem parseSegmentId_dot {rest : Text} (hrest : '.' :: rest ≠ logjetSuffix) :
    parseSegmentId (stem ++ '.' :: rest) stem = none := by
  rw [Option.eq_none_iff_forall_ne_some]
  intro id h
  rcases parseSegmentId_eq_some_iff.mp h with ⟨heq, -⟩ | ⟨value, heq, -⟩
  · exact hrest (append_cancel_left heq)
  · rw [append_assoc, append_assoc] at heq
    cases append_cancel_left heq

theorem parseSegmentId_state (stem : Text) : parseSegmentId (stem ++ ".state".toList) stem = none :=
  parseSegmentId_dot (by decide)

theorem parseSegmentId_streamId (stem : Text) :
    parseSegmentId (stem ++ ".stream-id".toList) stem = none := parseSegmentId_dot (by decide)

theorem ne_segmentPath {name : Text} (h : parseSegmentId name stem = none) (id : UInt64) :
    name ≠ segmentPath stem id := by
  intro heq
  rw [heq, parseSegmentId_segmentPath] at h
  cases h

theorem listSegments_pairwise (d : Directory) (stem : Text) :
    (listSegments d stem).Pairwise fun a b => a.path ≠ b.path := by
  have hpath : ∀ {name i}, segmentInfo stem name = some i → i.path = name := by
    intro name i hi
    obtain ⟨id, -, rfl⟩ := Option.map_eq_some_iff.mp hi
    rfl
  rw [listSegments, (perm_insertionSort _ _).pairwise_iff fun h => h.symm, pairwise_filterMap]
  refine d.nodup.imp ?_
  intro a b hne i hi j hj heq
  exact hne (by rw [← hpath hi, ← hpath hj, heq])

/-- A segment's file name gives its id back. -/
theorem segment_names_ids (stem name : Text) (id : UInt64) (d : Directory) :
    (parseSegmentId name stem = some id ↔ (name = segmentPath stem 0 ∧ id = 0)
        ∨ ∃ value, name = stem ++ ['-'] ++ value ++ logjetSuffix ∧ Spells value id)
      ∧ parseSegmentId (segmentPath stem id) stem = some id
      ∧ (stem ++ ['-'] <+: name → logjetSuffix <:+ name →
        ∃ value, name = stem ++ ['-'] ++ value ++ logjetSuffix)
      ∧ (listSegments d stem).Pairwise fun a b => a.path ≠ b.path
        ∧ (a.path = segmentPath stem a.id → b.path = segmentPath stem b.id → a.id ≠ b.id) := by
  refine ⟨parseSegmentId_eq_some_iff, parseSegmentId_segmentPath stem id, eq_of_prefix_suffix, ?_⟩
  refine (listSegments_pairwise d stem).imp fun hne => ⟨hne, ?_⟩
  intro ha hb hid
  exact hne (by rw [ha, hb, hid])

def twoSpellings : Directory where
  files := [("logs-7.logjet".toList, []), ("logs-07.logjet".toList, [])]
  nodup := by decide

theorem segment_id_spelled_twice :
    parseSegmentId "logs-07.logjet".toList "logs".toList = some 7
      ∧ "logs-07.logjet".toList ≠ segmentPath "logs".toList 7
      ∧ (listSegments twoSpellings "logs".toList).map SegmentInfo.id = [7, 7] := by
  decide +kernel

structure Segment where
  id : UInt64
  content : Bytes

def Segment.info (stem : Text) (s : Segment) : SegmentInfo := ⟨s.id, segmentPath stem s.id⟩

def Directory.segmentEntries (d : Directory) (stem : Text) : List (SegmentInfo × Bytes) :=
  d.files.filterMap fun (name, content) => (segmentInfo stem name).map (·, content)

namespace Directory

structure Holds (d : Directory) (stem : Text) (segs : List Segment) : Prop where
  sorted : segs.Pairwise fun a b => a.id < b.id
  entries : (d.segmentEntries stem).Perm (segs.map fun s => (s.info stem, s.content))

variable {d : Directory} {stem name : Text} {segs : List Segment}
variable {s : Segment} {content : Bytes} {id : UInt64}

theorem Holds.eq_of_id (h : d.Holds stem segs) {t : Segment}
    (hs : s ∈ segs) (ht : t ∈ segs) (hid : s.id = t.id) : s = t := by
  by_contra hne
  have hdiff : segs.Pairwise fun a b => a.id ≠ b.id := h.sorted.imp fun hlt => UInt64.ne_of_lt hlt
  have hsymm : Std.Symm fun a b : Segment => a.id ≠ b.id := ⟨fun _ _ hab => hab.symm⟩
  exact hdiff.forall hs ht hne hid

theorem mem_segmentEntries {i : SegmentInfo} : (i, content) ∈ d.segmentEntries stem
      ↔ (i.path, content) ∈ d.files ∧ segmentInfo stem i.path = some i := by
  simp only [segmentEntries, mem_filterMap, Option.map_eq_some_iff, Prod.exists, Prod.mk.injEq]
  constructor
  · intro ⟨name, c, hfile, i', hinfo, hi, hc⟩
    subst hi hc
    obtain ⟨id, hid, rfl⟩ := Option.map_eq_some_iff.mp hinfo
    exact ⟨hfile, hinfo⟩
  · intro ⟨hfile, hinfo⟩
    exact ⟨i.path, content, hfile, i, hinfo, rfl, rfl⟩

theorem segmentInfo_segmentPath (stem : Text) (id : UInt64) :
    segmentInfo stem (segmentPath stem id) = some ⟨id, segmentPath stem id⟩ := by
  rw [segmentInfo, parseSegmentId_segmentPath]
  rfl

theorem Holds.get (h : d.Holds stem segs) (hs : s ∈ segs) :
    d.get? (segmentPath stem s.id) = some s.content := by
  have hmem : (s.info stem, s.content) ∈ d.segmentEntries stem :=
    h.entries.mem_iff.mpr (mem_map_of_mem hs)
  exact get?_eq_some_iff.mpr (mem_segmentEntries.mp hmem).1

theorem Holds.get_none (h : d.Holds stem segs)
    (hid : ∀ s ∈ segs, s.id ≠ id) : d.get? (segmentPath stem id) = none := by
  cases hget : d.get? (segmentPath stem id) with
  | none => rfl
  | some content =>
    have hentry : (⟨id, segmentPath stem id⟩, content)
        ∈ d.segmentEntries stem := mem_segmentEntries.mpr
      ⟨get?_eq_some_iff.mp hget, segmentInfo_segmentPath stem id⟩
    have hmem := h.entries.mem_iff.mp hentry
    obtain ⟨s, hs, heq⟩ := mem_map.mp hmem
    exact absurd (congrArg (·.1.id) heq) (hid s hs)

theorem segmentEntries_map_fst (d : Directory) (stem : Text) :
    (d.files.map Prod.fst).filterMap (segmentInfo stem) = (d.segmentEntries stem).map Prod.fst := by
  rw [segmentEntries, filterMap_map, map_filterMap]
  apply filterMap_congr
  intro ⟨name, content⟩ _
  simp [Option.map_map, Function.comp_def]

theorem Holds.listSegments (h : d.Holds stem segs) :
    listSegments d stem = segs.map (Segment.info stem) := by
  have hperm : (Logjet.listSegments d stem).Perm (segs.map (Segment.info stem)) := by
    refine (perm_insertionSort _ _).trans ?_
    rw [d.segmentEntries_map_fst stem]
    refine (h.entries.map Prod.fst).trans ?_
    rw [map_map]
    exact List.Perm.refl _
  apply hperm.eq_of_pairwise _ (pairwise_insertionSort _ _) _
  · intro a b ha hb hab hba
    obtain ⟨s, hs, rfl⟩ := mem_map.mp (hperm.mem_iff.mp ha)
    obtain ⟨t, ht, rfl⟩ := mem_map.mp hb
    rw [h.eq_of_id hs ht (UInt64.le_antisymm hab hba)]
  · rw [pairwise_map]
    exact h.sorted.imp UInt64.le_of_lt

theorem holds_nil (h : Logjet.listSegments d stem = []) : d.Holds stem [] := by
  have hnames : (d.files.map Prod.fst).filterMap (segmentInfo stem) = [] :=
    length_eq_zero_iff.mp ((length_insertionSort _ _).symm.trans (congrArg List.length h))
  refine ⟨List.Pairwise.nil, ?_⟩
  have hentries : d.segmentEntries stem = [] := by
    apply map_eq_nil_iff.mp
    rw [← segmentEntries_map_fst]
    exact hnames
  rw [hentries]
  exact List.Perm.nil

theorem Holds.alter (h : d.Holds stem segs) (id : UInt64) (f : Bytes → Bytes) :
    (d.alter (segmentPath stem id) f).Holds stem (segs.map fun s =>
      if s.id = id then { s with content := f s.content } else s) := by
  have hid : ∀ s : Segment, (if s.id = id
      then { s with content := f s.content } else s).id = s.id := by
    intro s
    split <;> rfl
  refine ⟨?_, ?_⟩
  · rw [pairwise_map]
    simp only [hid]
    exact h.sorted
  · have hentries : (d.alter (segmentPath stem id) f).segmentEntries stem
        = (d.segmentEntries stem).map fun (i, content) =>
            (i, if i.path = segmentPath stem id then f content
              else content) := by
      simp only [segmentEntries, Directory.alter, filterMap_map, map_filterMap]
      apply filterMap_congr
      intro ⟨n, content⟩ _
      simp only [Function.comp_apply, segmentInfo]
      cases parseSegmentId n stem <;> rfl
    rw [hentries]
    refine (h.entries.map _).trans ?_
    rw [map_map, map_map]
    refine List.Perm.of_eq (map_congr_left fun s _ => ?_)
    by_cases hs : s.id = id
    · simp [Segment.info, hs]
    · have hpath : segmentPath stem s.id ≠ segmentPath stem id :=
        fun heq => hs (segmentPath_inj heq)
      simp [Segment.info, hs, hpath]

theorem Holds.alter_at {before after : List Segment}
    (h : d.Holds stem (before ++ ⟨id, content⟩ :: after)) (f : Bytes → Bytes) :
    (d.alter (segmentPath stem id) f).Holds stem (before ++ ⟨id, f content⟩ :: after) := by
  have hall := h.alter id f
  rw [map_append, map_cons, if_pos rfl] at hall
  obtain ⟨-, hlater, hbefore⟩ := pairwise_append.mp h.sorted
  have hsame : ∀ segs : List Segment, (∀ s ∈ segs, s.id ≠ id) → segs.map (fun s => if s.id = id
        then { s with content := f s.content } else s) = segs := by
    intro segs hne
    refine (map_congr_left fun s hs => ?_).trans (map_id _)
    rw [if_neg (hne s hs), id_eq]
  rw [hsame before, hsame after] at hall
  · exact hall
  · intro s hs
    exact (UInt64.ne_of_lt ((pairwise_cons.mp hlater).1 s hs)).symm
  · intro s hs
    exact UInt64.ne_of_lt (hbefore s hs _ mem_cons_self)

theorem Holds.create (h : d.Holds stem segs) {id : UInt64} (hid : ∀ s ∈ segs, s.id < id) :
    (d.create (segmentPath stem id)).Holds stem (segs ++ [⟨id, []⟩]) := by
  have hnew : segmentPath stem id ∉ d.files.map Prod.fst := get?_eq_none_iff.mp
      (h.get_none fun s hs => UInt64.ne_of_lt (hid s hs))
  refine ⟨?_, ?_⟩
  · rw [pairwise_append]
    refine ⟨h.sorted, pairwise_singleton _ _, ?_⟩
    intro s hs t ht
    rw [mem_singleton.mp ht]
    exact hid s hs
  · have hentries : (d.create (segmentPath stem id)).segmentEntries stem
        = d.segmentEntries stem ++ [(⟨id, segmentPath stem id⟩, [])] := by
      simp only [segmentEntries, Directory.create, if_neg hnew,
        filterMap_append, filterMap_cons, filterMap_nil, segmentInfo_segmentPath, Option.map_some]
    rw [hentries, map_append]
    exact h.entries.append_right _

theorem create_of_get (h : d.get? name = some content) : d.create name = d := by
  have hmem : name ∈ d.files.map Prod.fst := mem_map_of_mem (get?_eq_some_iff.mp h)
  simp only [Directory.create, if_pos hmem]

theorem Holds.erase (h : d.Holds stem segs) (id : UInt64) :
    (d.erase (segmentPath stem id)).Holds stem (segs.filter fun s => s.id ≠ id) := by
  refine ⟨h.sorted.filter _, ?_⟩
  have hentries : (d.erase (segmentPath stem id)).segmentEntries stem
      = (d.segmentEntries stem).filter fun (i, _) =>
          i.path ≠ segmentPath stem id := by
    simp only [segmentEntries, Directory.erase, filterMap_filter, filter_filterMap]
    apply filterMap_congr
    intro ⟨n, content⟩ _
    by_cases hn : n = segmentPath stem id
    · simp [hn, segmentInfo_segmentPath, Option.filter]
    · simp only [segmentInfo]
      cases parseSegmentId n stem <;> simp [hn, Option.filter]
  rw [hentries]
  refine (h.entries.filter _).trans ?_
  rw [filter_map]
  refine List.Perm.of_eq (congrArg _ (filter_congr fun s _ => ?_))
  by_cases hs : s.id = id
  · simp [Segment.info, hs]
  · have hpath : segmentPath stem s.id ≠ segmentPath stem id := fun heq => hs (segmentPath_inj heq)
    simp [Segment.info, hs, hpath]

theorem Holds.write_other (h : d.Holds stem segs)
    (hname : parseSegmentId name stem = none) (content : Bytes) :
    (d.write name content).Holds stem segs := by
  refine ⟨h.sorted, ?_⟩
  have hentries : (d.write name content).segmentEntries stem = d.segmentEntries stem := by
    have hskip : ∀ files : List (Text × Bytes), (files.map fun (n, bytes) =>
          (n, if n = name then content else bytes)).filterMap
            (fun (n, c) => (segmentInfo stem n).map (·, c))
          = files.filterMap fun (n, c) =>
              (segmentInfo stem n).map (·, c) := by
      intro files
      rw [filterMap_map]
      apply filterMap_congr
      intro ⟨n, c⟩ _
      by_cases hn : n = name
      · simp [hn, segmentInfo, hname]
      · simp [hn]
    simp only [segmentEntries, Directory.write, Directory.alter, Directory.create]
    rw [hskip]
    by_cases hmem : name ∈ d.files.map Prod.fst
    · rw [if_pos hmem]
    · rw [if_neg hmem, filterMap_append]
      simp [segmentInfo, hname]
  rw [hentries]
  exact h.entries

end Directory

end Logjet
