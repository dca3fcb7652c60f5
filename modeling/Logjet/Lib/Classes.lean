/-
The groups over an index are the classes of their items (`build_classes`).
-/
import Logjet.Lib.HashMap

variable {κ γ α : Type} [DecidableEq κ]

def List.ofKey (key : α → κ) (items : List α) (k : κ) : List α := items.filter fun a => key a = k

namespace List

variable {key : α → κ} {items : List α} {k : κ} {a : α}

theorem mem_ofKey : a ∈ items.ofKey key k ↔ a ∈ items ∧ key a = k := by
  rw [ofKey, mem_filter, decide_eq_true_eq]

theorem ofKey_eq_nil_iff : items.ofKey key k = [] ↔ k ∉ items.map key := by
  rw [ofKey, filter_eq_nil_iff]
  simp

theorem ofKey_concat_self : (items ++ [a]).ofKey key (key a) = items.ofKey key (key a) ++ [a] := by
  rw [ofKey, filter_append, filter_cons_of_pos (by simp), filter_nil]
  rfl

theorem ofKey_concat_of_ne (h : k ≠ key a) : (items ++ [a]).ofKey key k = items.ofKey key k := by
  rw [ofKey, filter_append, filter_cons_of_neg (by simpa using h.symm), filter_nil, append_nil]
  rfl

theorem flatMap_filter_parts {β : Type} {p : α → Bool} {q : β → Bool}
    {part : α → List β} {l : List α} (h : ∀ a ∈ l, ∀ b ∈ part a, q b = p a) :
    (l.filter p).flatMap part = (l.flatMap part).filter q := by
  induction l with
  | nil => rfl
  | cons a l ih =>
    have hrest := ih fun a' ha' => h a' (mem_cons_of_mem _ ha')
    have ha := h a mem_cons_self
    rw [flatMap_cons, filter_append, ← hrest]
    cases hp : p a with
    | true =>
      rw [filter_cons_of_pos hp, flatMap_cons, filter_eq_self.mpr fun b hb => (ha b hb).trans hp]
    | false =>
      have hnone : (part a).filter q = [] := filter_eq_nil_iff.mpr fun b hb => by simp [ha b hb, hp]
      rw [filter_cons_of_neg (by simp [hp]), hnone, nil_append]

theorem filter_append_perm_or {p q : α → Bool} {l : List α}
    (h : ∀ a ∈ l, p a = true → q a = false) :
    (l.filter p ++ l.filter q).Perm (l.filter fun a => p a || q a) := by
  induction l with
  | nil => exact .refl _
  | cons a l ih =>
    have hrest := ih fun b hb => h b (mem_cons_of_mem _ hb)
    cases hp : p a with
    | true =>
      have hq := h a mem_cons_self hp
      rw [filter_cons_of_pos hp, filter_cons_of_neg (by simp [hq]),
        filter_cons_of_pos (by simp [hp])]
      exact hrest.cons a
    | false =>
      rw [filter_cons_of_neg (by simp [hp])]
      cases hq : q a with
      | true =>
        rw [filter_cons_of_pos hq, filter_cons_of_pos (by simp [hq])]
        exact perm_middle.trans (hrest.cons a)
      | false =>
        rw [filter_cons_of_neg (by simp [hq]), filter_cons_of_neg (by simp [hp, hq])]
        exact hrest

theorem flatMap_ofKey_perm {keys : List κ} (hkeys : keys.Nodup) (items : List α) :
    (keys.flatMap (items.ofKey key)).Perm (items.filter fun a => key a ∈ keys) := by
  induction keys with
  | nil => simp
  | cons k keys ih =>
    obtain ⟨hnot, hrest⟩ := nodup_cons.mp hkeys
    have hboth : (items.ofKey key k ++ items.filter fun a => key a ∈ keys).Perm
        (items.filter fun a =>
          decide (key a = k) || decide (key a ∈ keys)) := by
      refine filter_append_perm_or fun a _ ha => ?_
      rw [decide_eq_true_eq] at ha
      rw [ha]
      exact decide_eq_false hnot
    refine ((ih hrest).append_left _).trans (hboth.trans ?_)
    refine .of_eq (filter_congr fun a _ => ?_)
    simp

end List

namespace IndexedGroups

variable {key : α → κ} {open' : α → γ} {merge : γ → α → γ}

def groupOf (open' : α → γ) (merge : γ → α → γ) : List α → Option γ
  | [] => none
  | a :: items => some (items.foldl merge (open' a))

theorem groupOf_concat {items : List α} {a : α} {g : γ} (h : groupOf open' merge items = some g) :
    groupOf open' merge (items ++ [a]) = some (merge g a) := by
  cases items with
  | nil => cases h
  | cons b items =>
    cases h
    rw [List.cons_append, groupOf, List.foldl_append]
    rfl

structure Holds (key : α → κ) (open' : α → γ) (merge : γ → α → γ)
    (items : List α) (keys : List κ) (s : IndexedGroups κ γ) : Prop where
  nodup : keys.Nodup
  mem : ∀ k, k ∈ keys ↔ k ∈ items.map key
  index : ∀ k i, HashMap.get k s.index = some i ↔ keys[i]? = some k
  groups : s.groups.map some = keys.map fun k => groupOf open' merge (items.ofKey key k)

variable {items : List α} {keys : List κ} {s : IndexedGroups κ γ} {a : α}

theorem Holds.nil : Holds key open' merge [] [] ⟨[], []⟩ where
  nodup := List.nodup_nil
  mem := fun k => by simp
  index := fun k i => by simp [HashMap.get]
  groups := rfl

theorem Holds.getElem? (h : Holds key open' merge items keys s) (i : Nat) : s.groups[i]?.map some
      = keys[i]?.map fun k => groupOf open' merge (items.ofKey key k) := by
  rw [← List.getElem?_map, h.groups, List.getElem?_map]

theorem Holds.merge_into {idx : Nat} (h : Holds key open' merge items keys s)
    (hidx : HashMap.get (key a) s.index = some idx) : Holds key open' merge (items ++ [a]) keys
      (s.add key open' merge a) := by
  have hkey := (h.index _ _).mp hidx
  have hmem := (h.mem _).mp (List.mem_of_getElem? hkey)
  simp only [IndexedGroups.add, hidx]
  refine ⟨h.nodup, ?_, h.index, ?_⟩
  · intro k
    rw [h.mem, List.map_append, List.mem_append]
    constructor
    · exact .inl
    · rintro (hk | hk)
      · exact hk
      · rw [List.mem_singleton.mp hk]
        exact hmem
  · refine List.ext_getElem? fun i => ?_
    rw [List.getElem?_map, List.getElem?_map, List.getElem?_modify]
    have hi := h.getElem? i
    cases hk : keys[i]? with
    | none =>
      rw [hk, Option.map_none, Option.map_eq_none_iff] at hi
      rw [hi]
      rfl
    | some k =>
      rw [hk, Option.map_some] at hi
      obtain ⟨g, hg, hgroup⟩ := Option.map_eq_some_iff.mp hi
      rw [hg, Option.map_some]
      by_cases hsame : idx = i
      · subst hsame
        rw [hkey] at hk
        cases hk
        rw [List.ofKey_concat_self, groupOf_concat hgroup.symm]
        simp
      · have hne : k ≠ key a := by
          rintro rfl
          exact hsame ((List.getElem?_inj (List.getElem?_eq_some_iff.mp
            hkey).1 h.nodup).mp (hkey.trans hk.symm))
        rw [List.ofKey_concat_of_ne hne, ← hgroup]
        simp [hsame]

theorem Holds.open_new (h : Holds key open' merge items keys s)
    (hnone : HashMap.get (key a) s.index = none) :
    Holds key open' merge (items ++ [a]) (keys ++ [key a]) (s.add key open' merge a) := by
  have hnew : key a ∉ keys := by
    intro hmem
    obtain ⟨i, hi⟩ := List.mem_iff_getElem?.mp hmem
    rw [(h.index _ _).mpr hi] at hnone
    cases hnone
  have hlength : s.groups.length = keys.length := by simpa using congrArg List.length h.groups
  simp only [IndexedGroups.add, hnone]
  refine ⟨?_, ?_, ?_, ?_⟩
  · exact List.nodup_append.mpr ⟨h.nodup, List.nodup_singleton _, by
      rintro k hk _ hself rfl
      exact hnew (List.mem_singleton.mp hself ▸ hk)⟩
  · intro k
    rw [List.mem_append, List.map_append, List.mem_append, h.mem]
    rfl
  · intro k i
    by_cases hk : k = key a
    · subst hk
      rw [HashMap.get_insert_self, hlength]
      constructor
      · intro hi
        rw [← Option.some.inj hi]
        exact List.getElem?_concat_length
      · intro hi
        by_cases hlt : i < keys.length
        · rw [List.getElem?_append_left hlt] at hi
          exact absurd (List.mem_of_getElem? hi) hnew
        · have hbound := (List.getElem?_eq_some_iff.mp hi).1
          rw [List.length_append, List.length_singleton] at hbound
          exact congrArg some (by omega)
    · rw [HashMap.get_insert_of_ne hk, h.index]
      by_cases hlt : i < keys.length
      · rw [List.getElem?_append_left hlt]
      · rw [List.getElem?_append_right (by omega), List.getElem?_eq_none (by omega)]
        constructor
        · intro hi
          cases hi
        · intro hi
          have hself := List.mem_of_getElem? hi
          exact absurd (List.mem_singleton.mp hself) hk
  · have hold : keys.map (fun k => groupOf open' merge ((items ++ [a]).ofKey key k))
        = keys.map fun k => groupOf open' merge (items.ofKey key k) := by
      refine List.map_congr_left fun k hk => ?_
      have hne : k ≠ key a := by
        rintro rfl
        exact hnew hk
      rw [List.ofKey_concat_of_ne hne]
    have hempty : items.ofKey key (key a) = [] := List.ofKey_eq_nil_iff.mpr (mt (h.mem _).mpr hnew)
    rw [List.map_append, List.map_append, h.groups, hold, List.map_singleton,
      List.map_singleton, List.ofKey_concat_self, hempty]
    rfl

theorem Holds.add (h : Holds key open' merge items keys s) (a : α) :
    ∃ keys', Holds key open' merge (items ++ [a]) keys' (s.add key open' merge a) := by
  cases hget : HashMap.get (key a) s.index with
  | some idx => exact ⟨keys, h.merge_into hget⟩
  | none => exact ⟨keys ++ [key a], h.open_new hget⟩

theorem build_classes (key : α → κ) (open' : α → γ) (merge : γ → α → γ) (items : List α) :
    ∃ keys : List κ, keys.Nodup ∧ (∀ k, k ∈ keys ↔ k ∈ items.map key) ∧ List.Forall₂ (fun g k =>
          groupOf open' merge (items.ofKey key k) = some g)
        (build key open' merge items) keys := by
  suffices hrun : ∀ (rest done : List α) (keys : List κ)
      (s : IndexedGroups κ γ), Holds key open' merge done keys s →
        ∃ keys', Holds key open' merge (done ++ rest) keys'
          (rest.foldl (IndexedGroups.add key open' merge) s) by
    obtain ⟨keys, h⟩ := hrun items [] [] _ Holds.nil
    refine ⟨keys, h.nodup, h.mem, ?_⟩
    have hsame : List.Forall₂ Eq (keys.map fun k => groupOf open' merge (items.ofKey key k))
        ((build key open' merge items).map some) := by
      rw [List.forall₂_eq_eq_eq]
      exact h.groups.symm
    rw [List.forall₂_map_left_iff, List.forall₂_map_right_iff] at hsame
    exact hsame.flip
  intro rest
  induction rest with
  | nil =>
    intro done keys s h
    rw [List.append_nil]
    exact ⟨keys, h⟩
  | cons a rest ih =>
    intro done keys s h
    obtain ⟨keys', h'⟩ := h.add a
    rw [List.append_cons]
    exact ih _ keys' _ h'

theorem mem_build {g : γ} (hg : g ∈ build key open' merge items) :
    ∃ k, groupOf open' merge (items.ofKey key k) = some g := by
  obtain ⟨keys, -, -, hbuild⟩ := build_classes key open' merge items
  have hboth : List.Forall₂ (fun g _ =>
      (∃ k, groupOf open' merge (items.ofKey key k) = some g) ∧ True)
      (build key open' merge items) keys :=
    hbuild.imp fun g k hk => ⟨⟨k, hk⟩, trivial⟩
  exact ((List.forall₂_and_left _ _).mp hboth).1 g hg

end IndexedGroups
