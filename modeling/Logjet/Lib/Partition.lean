/-
Summaries of a partition. `D g part` says what a group tells of its part.
-/
import Mathlib.Data.List.Perm.Basic
import Logjet.Lib.HashMap

namespace List

theorem mapM_getElem? {α : Type} {l : List α} {indices : List Nat}
    (h : ∀ i ∈ indices, i < l.length) :
    indices.mapM (l[·]?) = some (indices.filterMap (l[·]?)) := by
  induction indices with
  | nil => rfl
  | cons i indices ih =>
    obtain ⟨a, hi⟩ : ∃ a, l[i]? = some a := ⟨_, List.getElem?_eq_getElem (h i List.mem_cons_self)⟩
    rw [List.mapM_cons, hi, ih fun j hj => h j (List.mem_cons_of_mem _ hj),
      List.filterMap_cons_some hi]
    rfl

theorem mapM_returns {α β : Type} {f : α → Option β} {P : β → α → Prop}
    {l : List α} (h : ∀ a ∈ l, ∃ b, f a = some b ∧ P b a) :
    ∃ bs, l.mapM f = some bs ∧ List.Forall₂ P bs l := by
  induction l with
  | nil => exact ⟨[], rfl, .nil⟩
  | cons a l ih =>
    obtain ⟨b, hb, hP⟩ := h a List.mem_cons_self
    obtain ⟨bs, hbs, hall⟩ := ih fun a' ha' => h a' (List.mem_cons_of_mem _ ha')
    refine ⟨b :: bs, ?_, .cons hP hall⟩
    rw [List.mapM_cons, hb, hbs]
    rfl

theorem filterMap_range_getElem? {α : Type} (l : List α) :
    (List.range l.length).filterMap (l[·]?) = l := by
  have hmap : (List.range l.length).map (l[·]?) = l.map some := by
    apply List.ext_getElem?
    intro i
    rw [List.getElem?_map, List.getElem?_map]
    by_cases hi : i < l.length
    · rw [List.getElem?_range hi, Option.map_some, List.getElem?_eq_getElem hi, Option.map_some]
    · rw [List.getElem?_eq_none (by simpa using hi), List.getElem?_eq_none (by simpa using hi)]
      rfl
  have hid := congrArg (List.filterMap id) hmap
  rwa [List.filterMap_map, List.filterMap_map, Function.id_comp,
    Function.id_comp, List.filterMap_some] at hid

end List

variable {γ δ α : Type} {D : γ → List α → Prop} {E : δ → List α → Prop}

def Divides (D : γ → List α → Prop) (groups : List γ) (items : List α) : Prop :=
  ∃ parts : List (List α), List.Forall₂ D groups parts ∧ parts.flatten.Perm items

namespace Divides

variable {groups groups' : List γ} {items items' : List α}

theorem nil : Divides D [] [] := ⟨[], .nil, .refl _⟩

theorem single {g : γ} (h : D g items) : Divides D [g] items := ⟨[items], .cons h .nil, by simp⟩

theorem singles {open' : α → γ} (h : ∀ a, D (open' a) [a])
    (items : List α) : Divides D (items.map open') items := by
  refine ⟨items.map fun a => [a], ?_, ?_⟩
  · rw [List.forall₂_map_left_iff, List.forall₂_map_right_iff]
    exact List.forall₂_same.mpr fun a _ => h a
  · rw [← List.flatMap_def, List.flatMap_singleton']

theorem append (h : Divides D groups items) (h' : Divides D groups' items') :
    Divides D (groups ++ groups') (items ++ items') := by
  obtain ⟨parts, hparts, hperm⟩ := h
  obtain ⟨parts', hparts', hperm'⟩ := h'
  refine ⟨parts ++ parts', List.rel_append hparts hparts', ?_⟩
  rw [List.flatten_append]
  exact hperm.append hperm'

theorem perm_items (h : Divides D groups items) (hp : items.Perm items') :
    Divides D groups items' := by
  obtain ⟨parts, hparts, hperm⟩ := h
  exact ⟨parts, hparts, hperm.trans hp⟩

theorem perm_groups (h : Divides D groups items)
    (hp : groups'.Perm groups) : Divides D groups' items := by
  obtain ⟨parts, hparts, hperm⟩ := h
  obtain ⟨parts', hparts', hperm'⟩ := List.perm_comp_forall₂ hp hparts
  exact ⟨parts', hparts', hperm'.flatten.trans hperm⟩

theorem map {f : γ → δ} (h : Divides D groups items) (hf : ∀ g part, D g part → E (f g) part) :
    Divides E (groups.map f) items := by
  obtain ⟨parts, hparts, hperm⟩ := h
  refine ⟨parts, ?_, hperm⟩
  rw [List.forall₂_map_left_iff]
  exact hparts.imp hf

theorem modify {f : γ → γ} {i : Nat} (h : Divides D groups items) (hi : i < groups.length)
    (hf : ∀ g ∈ groups[i]?, ∀ part, D g part → D (f g) (part ++ items')) :
    Divides D (groups.modify i f) (items ++ items') := by
  obtain ⟨parts, hparts, hperm⟩ := h
  suffices hnew : ∃ parts' : List (List α), List.Forall₂ D (groups.modify i f) parts'
        ∧ parts'.flatten.Perm (parts.flatten ++ items') by
    obtain ⟨parts', hparts', hperm'⟩ := hnew
    exact ⟨parts', hparts', hperm'.trans (hperm.append_right _)⟩
  clear hperm
  induction hparts generalizing i with
  | nil => cases hi
  | @cons g part groups parts hg hparts ih =>
    cases i with
    | zero =>
      refine ⟨(part ++ items') :: parts, .cons (hf g rfl part hg) hparts, ?_⟩
      rw [List.flatten_cons, List.flatten_cons, List.append_assoc, List.append_assoc]
      exact List.perm_append_comm.append_left _
    | succ i =>
      obtain ⟨parts', hparts', hperm'⟩ := ih (Nat.lt_of_succ_lt_succ hi) hf
      refine ⟨part :: parts', .cons hg hparts', ?_⟩
      rw [List.flatten_cons, List.flatten_cons, List.append_assoc]
      exact hperm'.append_left _

theorem split (h : Divides D (groups ++ groups') items) :
    ∃ left right, Divides D groups left ∧ Divides D groups' right ∧ (left ++ right).Perm items := by
  obtain ⟨parts, hparts, hperm⟩ := h
  refine ⟨(parts.take groups.length).flatten, (parts.drop groups.length).flatten,
    ⟨_, (List.forall₂_take_append _ _ _ hparts.flip).flip, .refl _⟩,
    ⟨_, (List.forall₂_drop_append _ _ _ hparts.flip).flip, .refl _⟩, ?_⟩
  rw [← List.flatten_append, List.take_append_drop]
  exact hperm

theorem regroup {blocks : List (List γ)} {merged : List δ} (h : Divides D blocks.flatten items)
    (hmerge : List.Forall₂ (fun g block => ∀ parts,
      List.Forall₂ D block parts → E g parts.flatten) merged blocks) : Divides E merged items := by
  induction hmerge generalizing items with
  | nil =>
    obtain ⟨parts, hparts, hperm⟩ := h
    cases hparts
    exact ⟨[], .nil, hperm⟩
  | cons hg _ ih =>
    obtain ⟨left, right, ⟨parts, hparts, hleft⟩, hright, hperm⟩ := h.split
    have hfirst := (single (hg parts hparts)).perm_items hleft
    exact (hfirst.append (ih hright)).perm_items hperm

theorem flatMap {β : Type} {f : β → List γ} {contents : β → List α}
    {bs : List β} (h : ∀ b ∈ bs, Divides D (f b) (contents b)) :
    Divides D (bs.flatMap f) (bs.flatMap contents) := by
  induction bs with
  | nil => exact nil
  | cons b bs ih =>
    exact (h b List.mem_cons_self).append (ih fun b' hb' => h b' (List.mem_cons_of_mem _ hb'))

theorem flatten {outs gss : List (List γ)}
    (hout : List.Forall₂ (fun out gs => ∀ items, Divides D gs items → Divides D out items) outs gss)
    (h : Divides D gss.flatten items) : Divides D outs.flatten items := by
  induction hout generalizing items with
  | nil => exact h
  | cons hfirst _ ih =>
    obtain ⟨left, right, hleft, hright, hperm⟩ := h.split
    exact ((hfirst left hleft).append (ih hright)).perm_items hperm

theorem uncons {g : γ} (h : Divides D (g :: groups) items) :
    ∃ part items', D g part ∧ Divides D groups items' ∧ (part ++ items').Perm items := by
  obtain ⟨parts, hparts, hperm⟩ := h
  obtain ⟨part, parts', hg, hparts', rfl⟩ := List.forall₂_cons_left_iff.mp hparts
  exact ⟨part, parts'.flatten, hg, ⟨parts', hparts', .refl _⟩, hperm⟩

section Indexed

variable {κ : Type} [DecidableEq κ] {key : δ → κ} {open' : δ → γ} {merge : γ → δ → γ}

theorem indexed_add {a : δ} {self : IndexedGroups κ γ}
    (hopen : ∀ a part, E a part → D (open' a) part)
    (hmerge : ∀ g a part part', D g part → E a part' →
      D (merge g a) (part ++ part')) (hb : self.Bounded)
    (h : Divides D self.groups items) {part : List α} (ha : E a part) :
    Divides D (self.add key open' merge a).groups (items ++ part) := by
  unfold IndexedGroups.add
  split
  next idx hidx =>
    exact h.modify (hb _ (HashMap.mem_of_get hidx)) fun g _ part' hg => hmerge g a part' part hg ha
  next => exact h.append (single (hopen a part ha))

theorem indexed_build (hopen : ∀ a part, E a part → D (open' a) part)
    (hmerge : ∀ g a part part', D g part → E a part' →
      D (merge g a) (part ++ part')) {inputs : List δ} (h : Divides E inputs items) :
    Divides D (IndexedGroups.build key open' merge inputs) items := by
  suffices hrun : ∀ (self : IndexedGroups κ γ) (before : List α),
      self.Bounded → Divides D self.groups before →
        Divides D (inputs.foldl (IndexedGroups.add key open' merge)
          self).groups (before ++ items) by exact hrun ⟨[], []⟩ [] nofun nil
  induction inputs generalizing items with
  | nil =>
    intro self before _ hbefore
    obtain ⟨parts, hparts, hperm⟩ := h
    cases hparts
    exact hbefore.perm_items (by simpa using hperm.append_left before)
  | cons a inputs ih =>
    intro self before hb hbefore
    obtain ⟨part, rest, ha, hrest, hperm⟩ := h.uncons
    have hadd : Divides D (self.add key open' merge a).groups
        (before ++ part) := indexed_add hopen hmerge hb hbefore ha
    have hall := ih hrest _ _ (hb.add a) hadd
    rw [List.append_assoc] at hall
    exact hall.perm_items (hperm.append_left before)

end Indexed

end Divides
