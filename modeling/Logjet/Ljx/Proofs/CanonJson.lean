/-
The canonical form of a JSON body depends neither on the order of keys nor on
white space.
-/
import Logjet.Ljx.CanonJson

namespace Logjet.Ljx

open List Json

variable {F : Type}

section

variable (serde : SerdeJson F)

def objectText (texts : List (String × Text)) : Text :=
  '{' :: [','].intercalate
    (((texts.map Prod.fst).mergeSort (· ≤ ·)).map (memberText serde texts))
    ++ ['}']

theorem mergeSort_perm_eq {ks ks' : List String} (h : ks.Perm ks') :
    ks.mergeSort (· ≤ ·) = ks'.mergeSort (· ≤ ·) :=
  (((mergeSort_perm ks _).trans h).trans
    (mergeSort_perm ks' _).symm).eq_of_pairwise' (pairwise_mergeSort' (· ≤ ·) ks)
    (pairwise_mergeSort' (· ≤ ·) ks')

theorem objectText_perm {texts texts' : List (String × Text)}
    (h : texts.Perm texts') (hkeys : (texts.map Prod.fst).Nodup) :
    objectText serde texts = objectText serde texts' := by
  have htext : memberText serde texts = memberText serde texts' := by
    funext k
    rw [memberText, memberText, HashMap.get_perm h hkeys]
  rw [objectText, objectText, mergeSort_perm_eq (h.map Prod.fst), htext]

variable [BEq F] [OfNat F 0] [OfNat F 1]

def jsonText (key : String) (v : JsonValue F) : Text :=
  sortedJsonString serde (canonicaliseValue key v)

theorem memberStrings_canonicalise (ms : List (String × JsonValue F)) :
    memberStrings serde (canonicaliseMembers ms)
      = ms.map fun m => (m.1, jsonText serde m.1 m.2) := by
  induction ms with
  | nil => rfl
  | cons m ms ih =>
    rw [canonicaliseMembers, memberStrings, ih]
    rfl

theorem keys_canonicalise (ms : List (String × JsonValue F)) :
    (canonicaliseMembers ms).map Prod.fst = ms.map Prod.fst := by
  induction ms with
  | nil => rfl
  | cons m ms ih =>
    rw [canonicaliseMembers, map_cons, ih]
    rfl

theorem jsonText_object (key : String) (ms : List (String × JsonValue F)) :
    jsonText serde key (.object ms) = objectText serde
          (ms.map fun m => (m.1, jsonText serde m.1 m.2)) := by
  rw [jsonText, canonicaliseValue, sortedJsonString]
  simp only [memberStrings_canonicalise, keys_canonicalise, objectText, map_map]
  rfl

variable {v' v : JsonValue F}

omit [BEq F] [OfNat F 0] [OfNat F 1] in
theorem isScalar_reordered (h : Reordered v v') :
    isScalar v = isScalar v' := by
  induction h with
  | refl => rfl
  | trans _ _ ih ih' => exact ih.trans ih'
  | members | member | element => rfl

def shapeOf : JsonValue F → Option (List String)
  | .object members => some ((members.map Prod.fst).mergeSort (· ≤ ·))
  | _ => none

omit [BEq F] [OfNat F 0] [OfNat F 1] in
theorem shapeOf_reordered (h : Reordered v v') : shapeOf v = shapeOf v' := by
  induction h with
  | refl => rfl
  | trans _ _ ih ih' => exact ih.trans ih'
  | members hperm => exact congrArg some (mergeSort_perm_eq (hperm.map Prod.fst))
  | member before k behind _ _ => simp only [shapeOf, map_append, map_cons]
  | element => rfl

omit [BEq F] [OfNat F 0] [OfNat F 1] in
theorem canonicaliseArray_eq (first : JsonValue F) (rest : List (JsonValue F)) :
    canonicaliseArray (first :: rest) = if (first :: rest).all isScalar then
          .object [("__arr", .string "scalar")]
        else
          match shapeOf first with
          | some shape => .object [("__arr", .string "object"),
              ("__shape", .array (shape.map .string))]
          | none => .object [("__arr", .string "mixed")] := by
  cases first with
  | null | bool | number | string | array | object => rfl

omit [BEq F] [OfNat F 0] [OfNat F 1] in
theorem canonicaliseArray_reordered (before behind : List (JsonValue F)) (h : Reordered v v') :
    canonicaliseArray (before ++ v :: behind) = canonicaliseArray (before ++ v' :: behind) := by
  have hscalar := isScalar_reordered h
  cases before with
  | nil =>
    rw [nil_append, nil_append, canonicaliseArray_eq,
      canonicaliseArray_eq, all_cons, all_cons, hscalar, shapeOf_reordered h]
  | cons first before =>
    simp only [cons_append, canonicaliseArray_eq, all_cons, all_append, hscalar]

theorem jsonText_reordered (h : Reordered v v')
    (hunique : UniqueKeys v) (key : String) : jsonText serde key v = jsonText serde key v' := by
  induction h generalizing key with
  | refl => rfl
  | trans h _ ih ih' => exact (ih hunique key).trans (ih' (hunique.reordered h) key)
  | members hperm =>
    cases hunique with
    | object hkeys _ =>
      rw [jsonText_object, jsonText_object]
      refine objectText_perm serde (hperm.map _) ?_
      rw [map_map]
      exact hkeys
  | member before k behind _ ih =>
    cases hunique with
    | object _ hvalues =>
      have hvalue := ih (hvalues (k, _) (mem_append_right _ mem_cons_self)) k
      simp only [jsonText_object, map_append, map_cons, hvalue]
  | element before behind h _ =>
    rw [jsonText, jsonText, canonicaliseValue, canonicaliseValue,
      canonicaliseArray_reordered before behind h]

end

structure LiteralReader (F : Type) where
  number : Text → Option (Number F)
  string : Text → Option String

def LiteralReader.value (lits : LiteralReader F) (doc : Json Text Text) : Option (JsonValue F) :=
  if doc.depth < 128 then doc.traverse lits.number lits.string else none

structure Reads (serde : SerdeJson F) (lits : LiteralReader F)
    (doc : Json Text Text) (text : Text) : Prop where
  spelled : Spells doc text
  absent : lits.value doc = none → serde.fromStr text = none
  present : ∀ v, lits.value doc = some v → ∃ v', serde.fromStr text = some v' ∧ Reordered v v'

theorem LiteralReader.value_reordered (lits : LiteralReader F)
    {doc doc' : Json Text Text} (h : Reordered doc doc') {v : JsonValue F}
    (hv : lits.value doc = some v) : ∃ v', lits.value doc' = some v' ∧ Reordered v v' := by
  unfold LiteralReader.value at hv ⊢
  rw [← h.depth_eq]
  split at hv
  next hdepth =>
    rw [if_pos hdepth]
    exact h.traverse lits.number lits.string hv
  · cases hv

/-- Canonical JSON forgets the order of the keys. -/
theorem json_key_order_ignored [BEq F] [OfNat F 0] [OfNat F 1]
    (serde : SerdeJson F) (lits : LiteralReader F) {doc doc' : Json Text Text} {text text' : Text}
    (hreads : Reads serde lits doc text)
    (hreads' : Reads serde lits doc' text') (hsame : Reordered doc doc')
    (hunique : ∀ v, lits.value doc = some v → UniqueKeys v) : canonicaliseJsonToString serde text
      = canonicaliseJsonToString serde text' := by
  cases hv : lits.value doc with
  | none =>
    have hv' : lits.value doc' = none := by
      rw [Option.eq_none_iff_forall_ne_some]
      intro v' hv'
      obtain ⟨v, hsome, -⟩ := lits.value_reordered hsame.symm hv'
      rw [hv] at hsome
      cases hsome
    rw [canonicaliseJsonToString, canonicaliseJsonToString, hreads.absent hv, hreads'.absent hv']
  | some v =>
    obtain ⟨v', hv', horder⟩ := lits.value_reordered hsame hv
    obtain ⟨w, hw, hread⟩ := hreads.present v hv
    obtain ⟨w', hw', hread'⟩ := hreads'.present v' hv'
    have hall : Reordered w w' := (hread.symm.trans horder).trans hread'
    have htext := jsonText_reordered serde hall ((hunique v hv).reordered hread) ""
    rw [canonicaliseJsonToString, canonicaliseJsonToString, hw, hw']
    exact congrArg some htext

def abDoc : Json Text Text := .object [("\"a\"".toList, .number ['7']), ("\"b\"".toList, .null)]

def baDoc : Json Text Text := .object [("\"b\"".toList, .null), ("\"a\"".toList, .number ['7'])]

def abText : Text := "\x7b\"a\":7,\"b\":null\x7d".toList

def baText : Text := " \x7b\"b\" : null, \"a\":7\x7d\n".toList

def abLits : LiteralReader Int where
  number := fun lit => if lit = ['7'] then some (.posInt 7) else none
  string := fun lit =>
    if lit = "\"a\"".toList then some "a"
    else if lit = "\"b\"".toList then some "b"
    else none

def abValue : JsonValue Int := .object [("a", .number (.posInt 7)), ("b", .null)]

def abSerde : SerdeJson Int where
  fromStr := fun text => if text = abText ∨ text = baText then some abValue else none
  numberText := fun
    | .posInt n => toText n
    | .negInt n => n.toInt.repr.toList
    | .float f => f.repr.toList
  stringText := fun s => '"' :: s.toList ++ ['"']

theorem spells_two {m m' : MemberText}
    (hkey : stringLiteral.matchesAll m.key ∧ Padded m.key m.paddedKey)
    (hkey' : stringLiteral.matchesAll m'.key ∧ Padded m'.key m'.paddedKey)
    (hvalue : Spells m.value m.text) (hvalue' : Spells m'.value m'.text) :
    Spells (.object [m.member, m'.member]) ('{' :: m.written ++ ',' :: m'.written ++ ['}']) := by
  have hall := @Spells.members [m, m'] (cons_ne_nil _ _)
    (by simp [hkey, hkey']) (by simp [hvalue, hvalue'])
  rw [show '{' :: m.written ++ ',' :: m'.written ++ ['}']
      = '{' :: [','].intercalate ([m, m'].map MemberText.written) ++ ['}'] by
    simp [List.intercalate, List.intersperse]]
  exact hall

theorem abDoc_spelled : Spells abDoc abText := by
  have hall := @spells_two ⟨"\"a\"".toList, "\"a\"".toList, .number ['7'], ['7']⟩
    ⟨"\"b\"".toList, "\"b\"".toList, .null, "null".toList⟩
    ⟨by decide +kernel, [], [], rfl, rfl, rfl⟩ ⟨by decide +kernel, [], [], rfl, rfl, rfl⟩
    (.number (by decide +kernel)) .null
  have htext : abText = '{' :: ("\"a\"".toList ++ [':', '7'])
      ++ ',' :: ("\"b\"".toList ++ ':' :: "null".toList) ++ ['}'] := by decide +kernel
  exact htext ▸ hall

theorem baDoc_spelled : Spells baDoc baText := by
  have hall := @spells_two ⟨"\"b\"".toList, "\"b\" ".toList, .null, " null".toList⟩
    ⟨"\"a\"".toList, " \"a\"".toList, .number ['7'], ['7']⟩
    ⟨by decide +kernel, [], [' '], rfl, rfl, by decide +kernel⟩
    ⟨by decide +kernel, [' '], [], rfl, rfl, by decide +kernel⟩
    (.padded ⟨[' '], [], rfl, rfl, by decide +kernel⟩ .null) (.number (by decide +kernel))
  refine .padded ⟨[' '], ['\n'], rfl, rfl, ?_⟩ hall
  decide +kernel

theorem json_key_order_ignored_ab : canonicaliseJsonToString abSerde abText
      = canonicaliseJsonToString abSerde baText := by
  have hvalue : abLits.value abDoc = some abValue := rfl
  have hvalue' : abLits.value baDoc
      = some (.object [("b", .null), ("a", .number (.posInt 7))]) := rfl
  have hread : abSerde.fromStr abText = some abValue := by simp [abSerde]
  have hread' : abSerde.fromStr baText = some abValue := by simp [abSerde]
  refine json_key_order_ignored abSerde abLits ⟨abDoc_spelled, ?_, ?_⟩
    ⟨baDoc_spelled, ?_, ?_⟩ (.members (.swap ..)) ?_
  · rw [hvalue]
    intro h
    cases h
  · intro v hv
    cases hv
    exact ⟨abValue, hread, .refl _⟩
  · rw [hvalue']
    intro h
    cases h
  · intro v hv
    cases hv
    exact ⟨abValue, hread', .members (.swap ..)⟩
  · intro v hv
    cases hv
    refine .object (by decide) fun m hm => ?_
    simp only [mem_cons, not_mem_nil, or_false] at hm
    obtain rfl | rfl := hm
    · exact .number _
    · exact .null

end Logjet.Ljx
