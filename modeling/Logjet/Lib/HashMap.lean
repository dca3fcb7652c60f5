/-
Hash maps whose iteration order is not known: a `HashOrder` is any choice of
the orders loops see.
-/
import Logjet.Lib.Grouping

structure HashOrder where
  iter : {α : Type} → List Nat → List α → List α
  perm : ∀ {α : Type} (map : List Nat) (entries : List α), (iter map entries).Perm entries

def HashOrder.insertion : HashOrder := ⟨fun _ entries => entries, fun _ _ => .refl _⟩

def HashOrder.reversed : HashOrder :=
  ⟨fun _ entries => entries.reverse,
  fun _ entries => entries.reverse_perm⟩

namespace HashMap

open List

variable {κ α β : Type} [DecidableEq κ]

def get (key : κ) (map : List (κ × β)) : Option β := (map.find? (·.1 = key)).map Prod.snd

def insert (key : κ) (value : β) (map : List (κ × β)) : List (κ × β) :=
  Grouping.upsert (fun entry => entry.1 = key) (fun _ => (key, value)) (key, value) map

def pushAt (key : κ) (value : α) (map : List (κ × List α)) : List (κ × List α) :=
  Grouping.upsert (fun entry => entry.1 = key)
    (fun entry => (entry.1, entry.2 ++ [value])) (key, [value]) map

def groupBy (key : α → κ) (values : List α) : List (κ × List α) :=
  values.foldl (fun map value => pushAt (key value) value map) []

theorem pushAt_perm (key : κ) (value : α) (map : List (κ × List α)) :
    ((pushAt key value map).flatMap Prod.snd).Perm (map.flatMap Prod.snd ++ [value]) :=
  Grouping.upsert_perm Prod.snd (fun _ _ => .refl _) map

theorem groupBy_perm (key : α → κ) (values : List α) :
    ((groupBy key values).flatMap Prod.snd).Perm values := by
  have hall := @Grouping.foldl_perm _ _ _ _ Prod.snd (fun value => [value])
    (fun map value => pushAt_perm (key value) value map) values []
  simpa [groupBy] using hall

theorem groupBy_const {key : α → κ} {k : κ} {values : List α}
    (hne : values ≠ []) (h : ∀ value ∈ values, key value = k) :
    groupBy key values = [(k, values)] := by
  have hrun : ∀ (rest done : List α), (∀ value ∈ rest, key value = k) →
      rest.foldl (fun map value => pushAt (key value) value map)
        [(k, done)] = [(k, done ++ rest)] := by
    intro rest
    induction rest with
    | nil =>
      intro done _
      rw [append_nil]
      rfl
    | cons value rest ih =>
      intro done hrest
      have hpush : pushAt (key value) value [(k, done)] = [(k, done ++ [value])] := by
        rw [hrest value mem_cons_self]
        exact if_pos (decide_eq_true rfl)
      rw [foldl_cons, hpush, append_cons done value rest]
      exact ih _ fun v hv => hrest v (mem_cons_of_mem _ hv)
  obtain ⟨value, rest, rfl⟩ := exists_cons_of_ne_nil hne
  rw [groupBy, foldl_cons, h value mem_cons_self]
  exact hrun rest [value] fun v hv => h v (mem_cons_of_mem _ hv)

variable {key key' : κ} {value : β} {map : List (κ × β)} {entry : κ × β}

theorem pushAt_ne_nil {value : α} {map : List (κ × List α)}
    (h : ∀ entry ∈ map, entry.2 ≠ []) : ∀ entry ∈ pushAt key value map, entry.2 ≠ [] := by
  unfold pushAt
  fun_induction Grouping.upsert with
  | case1 => exact forall_mem_singleton.mpr (cons_ne_nil _ _)
  | case2 first map =>
    obtain ⟨-, hrest⟩ := forall_mem_cons.mp h
    exact forall_mem_cons.mpr ⟨by simp, hrest⟩
  | case3 first map _ ih =>
    obtain ⟨hfirst, hrest⟩ := forall_mem_cons.mp h
    exact forall_mem_cons.mpr ⟨hfirst, ih hrest⟩

theorem mem_insert (h : entry ∈ insert key value map) : entry = (key, value) ∨ entry ∈ map := by
  unfold insert at h
  fun_induction Grouping.upsert with
  | case1 => exact .inl (mem_singleton.mp h)
  | case2 first map => exact (mem_cons.mp h).imp_right (mem_cons_of_mem _)
  | case3 first map _ ih =>
    rcases mem_cons.mp h with rfl | h
    · exact .inr mem_cons_self
    · exact (ih h).imp_right (mem_cons_of_mem _)

theorem mem_insert_of_mem (key : κ) (value : β) (h : entry ∈ map) : entry ∈ insert key value map
      ∨ entry.1 = key ∧ get key map = some entry.2 := by
  unfold get insert
  fun_induction Grouping.upsert with
  | case1 => cases h
  | case2 first map hfirst =>
    rcases mem_cons.mp h with rfl | h
    · exact .inr ⟨of_decide_eq_true hfirst, by simp [of_decide_eq_true hfirst]⟩
    · exact .inl (mem_cons_of_mem _ h)
  | case3 first map hfirst ih =>
    rcases mem_cons.mp h with rfl | h
    · exact .inl mem_cons_self
    · rw [decide_eq_true_eq] at hfirst
      simpa [hfirst] using (ih h).imp_left .inr

theorem mem_of_get (h : get key map = some value) : (key, value) ∈ map := by
  unfold get at h
  rw [Option.map_eq_some_iff] at h
  obtain ⟨⟨k, v⟩, hfind, rfl⟩ := h
  have hkey : k = key := by simpa using find?_some hfind
  rw [← hkey]
  exact mem_of_find?_eq_some hfind

theorem get_perm {map' : List (κ × β)} (h : map.Perm map')
    (hkeys : (map.map Prod.fst).Nodup) : get key map = get key map' := by
  induction h with
  | nil => rfl
  | cons e _ ih =>
    have hrest := ih (nodup_cons.mp hkeys).2
    unfold get at hrest ⊢
    rw [find?_cons, find?_cons]
    split
    · rfl
    · exact hrest
  | swap e e' map =>
    have hne : e'.1 ≠ e.1 := by
      intro heq
      exact (nodup_cons.mp hkeys).1 (heq ▸ mem_cons_self)
    unfold get
    by_cases h : e.1 = key
    · have h' : e'.1 ≠ key := h ▸ hne
      simp [h, h']
    · simp [find?_cons, h]
  | trans h₁ _ ih ih' => exact (ih hkeys).trans (ih' ((h₁.map Prod.fst).nodup_iff.mp hkeys))

theorem get_insert_self (key : κ) (value : β) (map : List (κ × β)) :
    get key (insert key value map) = some value := by
  unfold get insert
  fun_induction Grouping.upsert with
  | case1 => simp
  | case2 => simp
  | case3 first map hfirst ih =>
    rw [decide_eq_true_eq] at hfirst
    simpa [hfirst] using ih

theorem get_insert_of_ne (hne : key' ≠ key) : get key' (insert key value map) = get key' map := by
  unfold get insert
  fun_induction Grouping.upsert with
  | case1 => simp [hne.symm]
  | case2 first map hfirst => simp [of_decide_eq_true hfirst, hne.symm]
  | case3 first map _ ih =>
    rw [find?_cons, find?_cons]
    split
    · rfl
    · exact ih

theorem isSome_get_insert
    (h : (get key' map).isSome) : (get key' (insert key value map)).isSome := by
  by_cases hkey : key' = key
  · rw [hkey, get_insert_self]
    rfl
  · rw [get_insert_of_ne hkey]
    exact h

theorem length_insert (key : κ) (value : β) (map : List (κ × β)) :
    (insert key value map).length = map.length + if (get key map).isSome then 0 else 1 := by
  unfold get insert
  fun_induction Grouping.upsert with
  | case1 => rfl
  | case2 first map hfirst => simp [of_decide_eq_true hfirst]
  | case3 first map hfirst ih =>
    rw [decide_eq_true_eq] at hfirst
    simp only [hfirst, decide_false, find?_cons, length_cons, ih]
    omega

end HashMap

structure IndexedGroups (κ γ : Type) where
  index : List (κ × Nat)
  groups : List γ

namespace IndexedGroups

variable {κ γ α : Type} [DecidableEq κ]

def add (key : α → κ) (open' : α → γ) (merge : γ → α → γ)
    (self : IndexedGroups κ γ) (a : α) : IndexedGroups κ γ :=
  match HashMap.get (key a) self.index with
  | some idx => { self with groups := self.groups.modify idx (merge · a) }
  | none =>
    { index := HashMap.insert (key a) self.groups.length self.index
      groups := self.groups ++ [open' a] }

def build (key : α → κ) (open' : α → γ) (merge : γ → α → γ) (items : List α) : List γ :=
  (items.foldl (add key open' merge) ⟨[], []⟩).groups

def Bounded (self : IndexedGroups κ γ) : Prop := ∀ entry ∈ self.index, entry.2 < self.groups.length

theorem Bounded.add {key : α → κ} {open' : α → γ} {merge : γ → α → γ}
    {self : IndexedGroups κ γ} (h : self.Bounded) (a : α) :
    (self.add key open' merge a).Bounded := by
  unfold IndexedGroups.add
  split
  · intro entry hentry
    rw [List.length_modify]
    exact h entry hentry
  · intro entry hentry
    rw [List.length_append, List.length_singleton]
    rcases HashMap.mem_insert hentry with rfl | hentry
    · exact Nat.lt_succ_self _
    · exact Nat.lt_succ_of_lt (h entry hentry)

end IndexedGroups
