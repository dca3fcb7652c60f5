/-
JSON documents as trees, their grammar (`Spells`), and objects with their
members in another order (`Reordered`).
-/
import Logjet.Lib.Regex
import Mathlib.Data.List.Perm.Basic
import Mathlib.Order.Lattice

theorem List.forall₂_middle {α β : Type} {R : α → β → Prop}
    {before behind : List α} {a : α} {l : List β} : List.Forall₂ R (before ++ a :: behind) l
      ↔ ∃ lb b lt, List.Forall₂ R before lb ∧ R a b
        ∧ List.Forall₂ R behind lt ∧ l = lb ++ b :: lt := by
  induction before generalizing l with
  | nil => simp [List.forall₂_cons_left_iff]
  | cons c before ih =>
    rw [List.cons_append, List.forall₂_cons_left_iff]
    constructor
    · rintro ⟨d, rest, hd, hrest, rfl⟩
      obtain ⟨lb, b, lt, hb, hab, ht, rfl⟩ := ih.mp hrest
      exact ⟨d :: lb, b, lt, .cons hd hb, hab, ht, rfl⟩
    · rintro ⟨lb, b, lt, hb, hab, ht, rfl⟩
      cases hb with
      | cons hd hb => exact ⟨_, _, hd, ih.mpr ⟨_, b, lt, hb, hab, ht, rfl⟩, rfl⟩

inductive Json (N S : Type)
  | null
  | bool (b : Bool)
  | number (n : N)
  | string (s : S)
  | array (elements : List (Json N S))
  | object (members : List (S × Json N S))
  deriving Inhabited

namespace Json

open List

variable {N S N' S' : Type}

inductive Reordered : Json N S → Json N S → Prop
  | refl (v) : Reordered v v
  | trans {u v w} : Reordered u v → Reordered v w → Reordered u w
  | members {ms ms'} : ms.Perm ms' → Reordered (.object ms) (.object ms')
  | member {v v'} (before k behind) : Reordered v v' →
      Reordered (.object (before ++ (k, v) :: behind)) (.object (before ++ (k, v') :: behind))
  | element {v v'} (before behind) : Reordered v v' → Reordered (.array (before ++ v :: behind))
        (.array (before ++ v' :: behind))

theorem Reordered.symm {v v' : Json N S} (h : Reordered v v') : Reordered v' v := by
  induction h with
  | refl v => exact .refl v
  | trans _ _ ih ih' => exact ih'.trans ih
  | members hperm => exact .members hperm.symm
  | member before k behind _ ih => exact .member before k behind ih
  | element before behind _ ih => exact .element before behind ih

inductive UniqueKeys : Json N S → Prop
  | null : UniqueKeys .null
  | bool (b) : UniqueKeys (.bool b)
  | number (n) : UniqueKeys (.number n)
  | string (s) : UniqueKeys (.string s)
  | array {es} : (∀ e ∈ es, UniqueKeys e) → UniqueKeys (.array es)
  | object {ms} : (ms.map Prod.fst).Nodup → (∀ m ∈ ms, UniqueKeys m.2) → UniqueKeys (.object ms)

theorem UniqueKeys.reordered {v v' : Json N S} (h : Reordered v v')
    (hu : UniqueKeys v) : UniqueKeys v' := by
  induction h with
  | refl => exact hu
  | trans _ _ ih ih' => exact ih' (ih hu)
  | members hperm =>
    cases hu with
    | object hkeys hvalues =>
      exact .object ((hperm.map Prod.fst).nodup_iff.mp hkeys)
        fun m hm => hvalues m (hperm.mem_iff.mpr hm)
  | member before k behind _ ih =>
    cases hu with
    | object hkeys hvalues =>
      refine .object (by simpa using hkeys) fun m hm => ?_
      rcases mem_append.mp hm with hm | hm
      · exact hvalues m (mem_append_left _ hm)
      · rcases mem_cons.mp hm with rfl | hm
        · exact ih (hvalues (k, _) (mem_append_right _ mem_cons_self))
        · exact hvalues m (mem_append_right _ (mem_cons_of_mem _ hm))
  | element before behind _ ih =>
    cases hu with
    | array helements =>
      refine .array fun e he => ?_
      rcases mem_append.mp he with he | he
      · exact helements e (mem_append_left _ he)
      · rcases mem_cons.mp he with rfl | he
        · exact ih (helements _ (mem_append_right _ mem_cons_self))
        · exact helements e (mem_append_right _ (mem_cons_of_mem _ he))

mutual

def depth : Json N S → Nat
  | .null | .bool _ | .number _ | .string _ => 0
  | .array elements => depthElements elements + 1
  | .object members => depthMembers members + 1

def depthElements : List (Json N S) → Nat
  | [] => 0
  | e :: elements => max (depth e) (depthElements elements)

def depthMembers : List (S × Json N S) → Nat
  | [] => 0
  | (_, v) :: members => max (depth v) (depthMembers members)

end

theorem depthElements_append (es es' : List (Json N S)) : depthElements (es ++ es')
      = max (depthElements es) (depthElements es') := by
  induction es with
  | nil => exact (Nat.zero_max _).symm
  | cons e es ih => simp only [cons_append, depthElements, ih, max_assoc]

theorem depthMembers_append (ms ms' : List (S × Json N S)) : depthMembers (ms ++ ms')
      = max (depthMembers ms) (depthMembers ms') := by
  induction ms with
  | nil => exact (Nat.zero_max _).symm
  | cons m ms ih => simp only [cons_append, depthMembers, ih, max_assoc]

theorem depthMembers_perm {ms ms' : List (S × Json N S)}
    (h : ms.Perm ms') : depthMembers ms = depthMembers ms' := by
  induction h with
  | nil => rfl
  | cons m _ ih => simp only [depthMembers, ih]
  | swap m m' ms => simp only [depthMembers, max_left_comm]
  | trans _ _ ih ih' => exact ih.trans ih'

theorem Reordered.depth_eq {v v' : Json N S} (h : Reordered v v') : v.depth = v'.depth := by
  induction h with
  | refl => rfl
  | trans _ _ ih ih' => exact ih.trans ih'
  | members hperm => simp only [depth, depthMembers_perm hperm]
  | member before k behind _ ih => simp only [depth, depthMembers_append, depthMembers, ih]
  | element before behind _ ih => simp only [depth, depthElements_append, depthElements, ih]

section

variable (f : N → Option N') (g : S → Option S')

mutual

def traverse : Json N S → Option (Json N' S')
  | .null => some .null
  | .bool b => some (.bool b)
  | .number n => (f n).map .number
  | .string s => (g s).map .string
  | .array elements => (traverseElements elements).map .array
  | .object members => (traverseMembers members).map .object

def traverseElements : List (Json N S) → Option (List (Json N' S'))
  | [] => some []
  | e :: elements => do
      return (← traverse e) :: (← traverseElements elements)

def traverseMembers : List (S × Json N S) → Option (List (S' × Json N' S'))
  | [] => some []
  | (k, v) :: members => do
      return (← g k, ← traverse v) :: (← traverseMembers members)

end

theorem traverseElements_eq_some {es : List (Json N S)} {l : List (Json N' S')} :
    traverseElements f g es = some l ↔ List.Forall₂ (fun e r => traverse f g e = some r) es l := by
  induction es generalizing l with
  | nil => simp [traverseElements, eq_comm]
  | cons e es ih =>
    simp [traverseElements, forall₂_cons_left_iff, ← ih, Option.bind_eq_some_iff, @eq_comm _ l]

theorem traverseMembers_eq_some {ms : List (S × Json N S)} {l : List (S' × Json N' S')} :
    traverseMembers f g ms = some l ↔ List.Forall₂ (fun m r => g m.1 = some r.1
          ∧ traverse f g m.2 = some r.2) ms l := by
  induction ms generalizing l with
  | nil => simp [traverseMembers, eq_comm]
  | cons m ms ih =>
    simp [traverseMembers, forall₂_cons_left_iff, ← ih,
      Option.bind_eq_some_iff, and_assoc, @eq_comm _ l]

theorem Reordered.traverse {v v' : Json N S} (h : Reordered v v')
    {w : Json N' S'} (hw : Json.traverse f g v = some w) :
    ∃ w', Json.traverse f g v' = some w' ∧ Reordered w w' := by
  induction h generalizing w with
  | refl => exact ⟨w, hw, .refl w⟩
  | trans _ _ ih ih' =>
    obtain ⟨w', hw', hr⟩ := ih hw
    obtain ⟨w'', hw'', hr'⟩ := ih' hw'
    exact ⟨w'', hw'', hr.trans hr'⟩
  | members hperm =>
    obtain ⟨l, hl, rfl⟩ := Option.map_eq_some_iff.mp hw
    obtain ⟨l', hl', hperm'⟩ := perm_comp_forall₂ hperm.symm ((traverseMembers_eq_some f g).mp hl)
    refine ⟨.object l', ?_, .members hperm'.symm⟩
    rw [Json.traverse, (traverseMembers_eq_some f g).mpr hl']
    rfl
  | @member _ v' before k behind _ ih =>
    obtain ⟨l, hl, rfl⟩ := Option.map_eq_some_iff.mp hw
    obtain ⟨lb, r, lt, hb, ⟨hk, hv⟩, ht, rfl⟩ := forall₂_middle.mp
      ((traverseMembers_eq_some f g).mp hl)
    obtain ⟨r', hr', hr⟩ := ih hv
    refine ⟨.object (lb ++ (r.1, r') :: lt), ?_, .member lb r.1 lt hr⟩
    have hmembers := forall₂_middle (a := (k, v')).mpr ⟨lb, (r.1, r'), lt, hb, ⟨hk, hr'⟩, ht, rfl⟩
    rw [Json.traverse, (traverseMembers_eq_some f g).mpr hmembers]
    rfl
  | element before behind _ ih =>
    obtain ⟨l, hl, rfl⟩ := Option.map_eq_some_iff.mp hw
    obtain ⟨lb, r, lt, hb, hv, ht, rfl⟩ := forall₂_middle.mp ((traverseElements_eq_some f g).mp hl)
    obtain ⟨r', hr', hr⟩ := ih hv
    refine ⟨.array (lb ++ r' :: lt), ?_, .element lb lt hr⟩
    have helements := forall₂_middle.mpr ⟨lb, r', lt, hb, hr', ht, rfl⟩
    rw [Json.traverse, (traverseElements_eq_some f g).mpr helements]
    rfl

end

def isSpace (c : Char) : Bool := c = ' ' || c = '\t' || c = '\n' || c = '\r'

def Padded (text padded : List Char) : Prop :=
  ∃ w w' : List Char, w.all isSpace ∧ w'.all isSpace
    ∧ padded = w ++ text ++ w'

section

private def char (c : Char) : Regex Char := .one (· = c)

private def digit : Regex Char := .one Char.isDigit

private def hexDigit : Regex Char :=
  .one fun c => c.isDigit || ('a' ≤ c && c ≤ 'f') || ('A' ≤ c && c ≤ 'F')

def numberLiteral : Regex Char :=
  .seqs [(char '-').opt,
    .alt (char '0') (.seq (.one fun c => '1' ≤ c && c ≤ '9') (.star digit)),
    (Regex.seq (char '.') digit.plus).opt, (Regex.seqs [.alt (char 'e') (char 'E'),
      (Regex.alt (char '+') (char '-')).opt, digit.plus]).opt]

def stringLiteral : Regex Char :=
  .seqs [char '"',
    .star (.alt (.one fun c => ' ' ≤ c && c ≠ '"' && c ≠ '\\') (.seq (char '\\') (.alt
        (.one fun c => ['"', '\\', '/', 'b', 'f', 'n', 'r', 't'].contains c)
        (.seq (char 'u') (.times 4 hexDigit))))), char '"']

end

structure MemberText where
  key : List Char
  paddedKey : List Char
  value : Json (List Char) (List Char)
  text : List Char

def MemberText.member (m : MemberText) :
    List Char × Json (List Char) (List Char) := (m.key, m.value)

def MemberText.written (m : MemberText) : List Char := m.paddedKey ++ ':' :: m.text

inductive Spells : Json (List Char) (List Char) → List Char → Prop
  | null : Spells .null "null".toList
  | true : Spells (.bool true) "true".toList
  | false : Spells (.bool false) "false".toList
  | number {lit} : numberLiteral.matchesAll lit → Spells (.number lit) lit
  | string {lit} : stringLiteral.matchesAll lit → Spells (.string lit) lit
  | padded {doc text text'} : Padded text text' → Spells doc text → Spells doc text'
  | noElements {w} : w.all isSpace → Spells (.array []) ('[' :: w ++ [']'])
  | elements {items : List (Json (List Char) (List Char) × List Char)} :
      items ≠ [] → (∀ item ∈ items, Spells item.1 item.2) → Spells (.array (items.map Prod.fst))
        ('[' :: [','].intercalate (items.map Prod.snd) ++ [']'])
  | noMembers {w} : w.all isSpace → Spells (.object []) ('{' :: w ++ ['}'])
  | members {ms : List MemberText} : ms ≠ [] →
      (∀ m ∈ ms, stringLiteral.matchesAll m.key ∧ Padded m.key m.paddedKey) →
      (∀ m ∈ ms, Spells m.value m.text) → Spells (.object (ms.map MemberText.member))
        ('{' :: [','].intercalate (ms.map MemberText.written) ++ ['}'])

end Json
