/-
How deep `canonicalise_body` calls itself: once more than prefixes are
stacked.
-/
import Logjet.Ljx.Canon
import Logjet.Ljx.Dedup

namespace Logjet.Ljx

open List

theorem opensJson_solid {c : Char} (h : opensJson c = true) : isWhiteSpace c = false := by
  simp only [opensJson, Bool.or_eq_true, decide_eq_true_eq] at h
  rcases h with rfl | rfl <;> rfl

theorem trimStart_of_opens {text : Text}
    (h : text.head?.any opensJson = true) : trimStart text = text := by
  cases text with
  | nil => rfl
  | cons c text => exact dropWhile_cons_of_neg (ne_true_of_eq_false (opensJson_solid h))

variable {body suffix : Text}

theorem stripSourcePrefix_length {u : UnicodeClasses}
    (h : stripSourcePrefix u body = some suffix) : suffix.length + 9 ≤ body.length := by
  unfold stripSourcePrefix at h
  split at h
  · cases h
  next m hm =>
    split at h
    · cases h
    · cases h
      rw [sourcePrefix, Regex.find_start] at hm
      have hle := Regex.least_le _ (mem_of_head? hm)
      have hleast : (9 : Nat) + m.behind.length ≤ body.length := hle
      omega

section

variable {F : Type} (serde : SerdeJson F)

def IsJson (text : Text) : Prop :=
  text.head?.any opensJson = true ∧ (serde.fromStr text).isSome = true

variable {serde}

theorem jsonSuffixFrom_spec {trimmedStart idx : Nat} {text : Text}
    (h : jsonSuffixFrom serde trimmedStart idx text = some suffix) :
    IsJson serde suffix ∧ suffix <:+ text ∧ idx + (text.length - suffix.length) ≠ trimmedStart := by
  induction text generalizing idx with
  | nil => cases h
  | cons ch rest ih =>
    have hlater : jsonSuffixFrom serde trimmedStart (idx + 1) rest
        = some suffix → IsJson serde suffix ∧ suffix <:+ ch :: rest
          ∧ idx + ((ch :: rest).length - suffix.length) ≠ trimmedStart := by
      intro h
      obtain ⟨hjson, hsuffix, hidx⟩ := ih h
      refine ⟨hjson, hsuffix.trans (suffix_cons ch rest), ?_⟩
      have hle := hsuffix.length_le
      rw [length_cons]
      omega
    rw [jsonSuffixFrom] at h
    split at h
    · exact hlater h
    next hopens =>
      have htrim : trimStart (ch :: rest) = ch :: rest := trimStart_of_opens (by simpa using hopens)
      split at h
      · exact hlater h
      · split at h
        · exact hlater h
        next hidx =>
          split at h
          next hread =>
            rw [htrim] at h hread
            cases h
            refine ⟨⟨by simpa using hopens, hread⟩, suffix_refl _, ?_⟩
            rwa [Nat.sub_self]
          · exact hlater h

theorem stripJsonPrefix_spec (h : stripJsonPrefix serde body = some suffix) :
    IsJson serde suffix ∧ suffix.length < body.length := by
  obtain ⟨hjson, hsuffix, hidx⟩ := jsonSuffixFrom_spec h
  refine ⟨hjson, Nat.lt_of_le_of_ne hsuffix.length_le fun hlength => ?_⟩
  have hbody : suffix = body := hsuffix.eq_of_length hlength
  rw [← hbody, trimStart_of_opens hjson.1] at hidx
  omega

end

section

variable {F : Type} {serde : SerdeJson F} {u : UnicodeClasses}

theorem detect_json (h : IsJson serde body) :
    detect serde u body = ⟨.json, none⟩ := by
  rw [detect]
  rw [trimStart_of_opens h.1, h.1, h.2]
  rfl

theorem detect_cases (serde : SerdeJson F) (u : UnicodeClasses) (body : Text) :
    ((detect serde u body).shape ≠ .sourcePrefixed ∧ (detect serde u body).strippedSuffix = none)
      ∨ ∃ suffix, detect serde u body = ⟨.sourcePrefixed, some suffix⟩
        ∧ (IsJson serde suffix ∧ suffix.length < body.length
          ∨ suffix.length + 9 ≤ body.length) := by
  rw [detect]
  split
  · exact .inl ⟨by decide, rfl⟩
  · split
    next suffix hjson => exact .inr ⟨suffix, rfl, .inl (stripJsonPrefix_spec hjson)⟩
    · split
      · exact .inl ⟨by decide, rfl⟩
      · split
        next suffix hsource => exact .inr ⟨suffix, rfl, .inr (stripSourcePrefix_length hsource)⟩
        · exact .inl ⟨by decide, rfl⟩

theorem strippedSuffix_length
    (h : (detect serde u body).strippedSuffix = some suffix) : suffix.length < body.length := by
  rcases detect_cases serde u body with ⟨-, hnone⟩ | ⟨s, hdetect, hs⟩
  · rw [hnone] at h
    cases h
  · rw [hdetect] at h
    cases h
    omega

end

section

variable {F : Type} (serde : SerdeJson F) (u : UnicodeClasses)

def prefixCount (body : Text) : Nat :=
  match _h : (detect serde u body).strippedSuffix with
  | none => 0
  | some suffix => prefixCount suffix + 1
termination_by body.length
decreasing_by exact strippedSuffix_length _h

theorem prefixCount_of_none (h : (detect serde u body).strippedSuffix = none) :
    prefixCount serde u body = 0 := by
  rw [prefixCount]
  split
  · rfl
  next suffix hsome =>
    rw [h] at hsome
    cases hsome

theorem prefixCount_of_some (h : (detect serde u body).strippedSuffix = some suffix) :
    prefixCount serde u body = prefixCount serde u suffix + 1 := by
  rw [prefixCount]
  split
  next hnone =>
    rw [h] at hnone
    cases hnone
  next suffix' hsome =>
    rw [h] at hsome
    cases hsome
    rfl

theorem prefixCount_le (body : Text) : prefixCount serde u body ≤ body.length / 9 + 1 := by
  induction hlength : body.length using Nat.strong_induction_on generalizing body with
  | _ n ih =>
    rcases detect_cases serde u body with ⟨-, hnone⟩ | ⟨s, hdetect, hs⟩
    · rw [prefixCount_of_none serde u hnone]
      exact Nat.zero_le _
    · rw [prefixCount_of_some serde u (congrArg _ hdetect)]
      rcases hs with ⟨hjson, -⟩ | hnine
      · rw [prefixCount_of_none serde u (congrArg _ (detect_json hjson))]
        omega
      · have hle := ih s.length (by omega) s rfl
        omega

end

section

variable {F : Type} [BEq F] [OfNat F 0] [OfNat F 1] (serde : SerdeJson F) (u : UnicodeClasses)

theorem canonicaliseBody_of_none
    (hshape : (detect serde u body).shape ≠ .sourcePrefixed) : ∃ result, ∀ frames,
      canonicaliseBody serde u (frames + 1) body = some result := by
  cases hs : (detect serde u body).shape with
  | json =>
    cases hcanon : canonicaliseJsonToString serde (trimStart body) with
    | some canon =>
      refine ⟨(canon, "json".toList), fun frames => ?_⟩
      simp only [canonicaliseBody, hs, hcanon]
    | none =>
      refine ⟨(canonicaliseFreetext u body, "freetext".toList), fun frames => ?_⟩
      simp only [canonicaliseBody, hs, hcanon]
  | keyValue =>
    refine ⟨(canonicaliseKv u body, "kv".toList), fun frames => ?_⟩
    simp only [canonicaliseBody, hs]
  | sourcePrefixed => exact absurd hs hshape
  | freeText =>
    refine ⟨(canonicaliseFreetext u body, "freetext".toList), fun frames => ?_⟩
    simp only [canonicaliseBody, hs]

theorem canonicaliseBody_of_prefixed
    (h : detect serde u body = ⟨.sourcePrefixed, some suffix⟩) (frames : Nat) :
    canonicaliseBody serde u (frames + 1) body
      = (canonicaliseBody serde u frames suffix).map fun result =>
        (result.1, "prefixed/".toList ++ result.2) := by
  simp only [canonicaliseBody, h]
  rfl

theorem canonicaliseBody_eq (body : Text) : ∃ result, ∀ frames, canonicaliseBody serde u frames body
      = if prefixCount serde u body < frames then some result else none := by
  induction hcount : prefixCount serde u body generalizing body with
  | zero =>
    rcases detect_cases serde u body with ⟨hshape, -⟩ | ⟨s, hdetect, -⟩
    · obtain ⟨result, hresult⟩ := canonicaliseBody_of_none serde u hshape
      refine ⟨result, fun frames => ?_⟩
      cases frames with
      | zero => rfl
      | succ frames => rw [hresult, if_pos (Nat.succ_pos frames)]
    · rw [prefixCount_of_some serde u (congrArg _ hdetect)] at hcount
      omega
  | succ n ih =>
    rcases detect_cases serde u body with ⟨-, hnone⟩ | ⟨s, hdetect, -⟩
    · rw [prefixCount_of_none serde u hnone] at hcount
      omega
    · rw [prefixCount_of_some serde u (congrArg _ hdetect)] at hcount
      obtain ⟨result, hresult⟩ := ih s (by omega)
      refine ⟨(result.1, "prefixed/".toList ++ result.2), fun frames => ?_⟩
      cases frames with
      | zero => rfl
      | succ frames =>
        rw [canonicaliseBody_of_prefixed serde u hdetect, hresult, apply_ite (Option.map _)]
        simp only [Nat.add_lt_add_iff_right, Option.map_some, Option.map_none]

/-- The recursion is as deep as there are prefixes to strip. -/
theorem canonicalise_body_returns (body : Text) : prefixCount serde u body ≤ body.length / 9 + 1
      ∧ ∃ result, ∀ frames, canonicaliseBody serde u frames body
        = if prefixCount serde u body < frames then some result else none :=
  ⟨prefixCount_le serde u body, canonicaliseBody_eq serde u body⟩

end

def stacked : Nat → Text
  | 0 => ['x']
  | n + 1 => "[1] a.b:1: ".toList ++ stacked n

theorem stacked_succ (n : Nat) :
    stacked (n + 1) = '[' :: '1' :: ']' :: ' ' :: 'a' :: '.' :: 'b' :: ':'
      :: '1' :: ':' :: ' ' :: stacked n := rfl

theorem stacked_head (n : Nat) : (stacked n).head?.any isWhiteSpace = false := by
  cases n with
  | zero => rfl
  | succ n => rfl

theorem isKeyValue_stacked (u : UnicodeClasses) (n : Nat) : isKeyValue u (stacked n) = false := by
  have hnone : ∀ c ∈ stacked n, decide (c = '=') = false := by
    induction n with
    | zero => exact forall_mem_of_all_not rfl
    | succ n ih =>
      intro c hc
      rcases mem_append.mp hc with hc | hc
      · exact forall_mem_of_all_not (p := fun c => decide (c = '=')) (by decide) c hc
      · exact ih c hc
  have hcount : (keyValuePair u).matchCount (stacked n) = 0 := by
    refine Regex.matchCount_eq_zero (fun p q hq => ?_) hnone
    obtain ⟨p', hp', hq⟩ := mem_flatMap.mp hq
    obtain ⟨taken, hbehind, -⟩ := Regex.ends_leads _ hp'
    obtain ⟨c, hc, heq⟩ := Regex.exists_of_seq_one hq
    exact ⟨c, hbehind ▸ mem_append_right _ hc, heq⟩
  rw [isKeyValue, hcount]
  rfl

theorem stripSourcePrefix_stacked (u : UnicodeClasses) (n : Nat) :
    stripSourcePrefix u (stacked (n + 1)) = some (stacked n) := by
  have hdigit : u.digit '1' = true ∧ u.digit ']' = false ∧ u.digit ':' = false :=
    ⟨u.digit_latin1 '1' (by decide), u.digit_latin1 ']' (by decide), u.digit_latin1 ':' (by decide)⟩
  have hword : u.word 'b' = true ∧ u.word ':' = false :=
    ⟨u.word_ascii 'b' (by decide), u.word_ascii ':' (by decide)⟩
  have hspace : isWhiteSpace ' ' = true ∧ isWhiteSpace 'a' = false
      ∧ isWhiteSpace ':' = false := ⟨rfl, rfl, rfl⟩
  have hfind : (sourcePrefix u).find [] (stacked (n + 1))
      = some ⟨" :1:b.a ]1[".toList, stacked n⟩ := by
    rw [sourcePrefix, Regex.find_start, stacked_succ]
    -- one part of the pattern after the other, not `ends` itself
    simp [-Regex.ends, Regex.seqs, Regex.seq_one_cons, Regex.seq_plus_cons,
      Regex.seq_star_cons, Regex.seq_opt, Regex.ends_empty,
      Regex.seq_star_stop (stacked_head n), hdigit, hword, hspace]
  rw [stripSourcePrefix, hfind]
  cases n with
  | zero => rfl
  | succ n => rfl

section

variable {F : Type} {serde : SerdeJson F}
  (hserde : ∀ rest, serde.fromStr ("[1] a".toList ++ rest) = none)

include hserde

theorem fromStr_stacked (n : Nat) : serde.fromStr (stacked (n + 1)) = none :=
  hserde (".b:1: ".toList ++ stacked n)

theorem not_isJson_stacked {n : Nat} (h : suffix <:+ stacked n) : ¬ IsJson serde suffix:= by
  rintro ⟨hopens, hread⟩
  induction n with
  | zero =>
    rcases suffix_cons_iff.mp h with rfl | h
    · cases hopens
    · rw [suffix_nil.mp h] at hopens
      cases hopens
  | succ n ih =>
    simp only [stacked_succ, suffix_cons_iff] at h
    rcases h with rfl | rfl | rfl | rfl | rfl | rfl | rfl | rfl | rfl | rfl
      | rfl | h
    · rw [← stacked_succ, fromStr_stacked hserde] at hread
      cases hread
    all_goals first
      | exact ih h
      | cases hopens

theorem stripJsonPrefix_stacked (n : Nat) : stripJsonPrefix serde (stacked n) = none := by
  cases hstrip : stripJsonPrefix serde (stacked n) with
  | none => rfl
  | some suffix =>
    obtain ⟨hjson, hsuffix, -⟩ := jsonSuffixFrom_spec hstrip
    exact absurd hjson (not_isJson_stacked hserde hsuffix)

theorem detect_stacked (u : UnicodeClasses) (n : Nat) :
    detect serde u (stacked (n + 1)) = ⟨.sourcePrefixed, some (stacked n)⟩ := by
  have htrim : trimStart (stacked (n + 1)) = stacked (n + 1) := trimStart_of_opens rfl
  rw [detect, htrim, fromStr_stacked hserde, Option.isSome_none,
    Bool.and_false, if_neg Bool.false_ne_true, stripJsonPrefix_stacked hserde, isKeyValue_stacked,
    stripSourcePrefix_stacked]
  rfl

theorem canonicaliseBody_stacked [BEq F] [OfNat F 0] [OfNat F 1]
    (u : UnicodeClasses) {frames n : Nat} (h : frames ≤ n) :
    canonicaliseBody serde u frames (stacked n) = none := by
  induction frames generalizing n with
  | zero => rfl
  | succ frames ih =>
    obtain ⟨m, rfl⟩ : ∃ m, n = m + 1 := ⟨n - 1, by omega⟩
    rw [canonicaliseBody_of_prefixed serde u (detect_stacked hserde u m), ih (by omega)]
    rfl

end

def digitArrays : SerdeJson Int where
  fromStr := fun text =>
    match text with
    | '[' :: d :: ']' :: rest =>
      if d.isDigit && rest.all fun c => [' ', '\t', '\n', '\r'].contains c
      then some (.array [.number (.posInt (UInt64.ofNat (d.toNat - 48)))])
      else none
    | _ => none
  numberText := fun
    | .posInt n => toText n
    | .negInt n => n.toInt.repr.toList
    | .float f => f.repr.toList
  stringText := fun s => '"' :: s.toList ++ ['"']

theorem canonicalise_body_unbounded :
    ¬ ∃ frames, ∀ body, (canonicaliseBody digitArrays UnicodeClasses.ascii
      frames body).isSome = true := by
  rintro ⟨frames, hall⟩
  have hnone : canonicaliseBody digitArrays UnicodeClasses.ascii frames (stacked frames) = none :=
    canonicaliseBody_stacked (fun _ => rfl) _ (Nat.le_refl frames)
  have hsome := hall (stacked frames)
  rw [hnone] at hsome
  cases hsome

end Logjet.Ljx
