/-
Distinct mode does not depend on the order of the records: the groups are the
classes of the records under the matcher's text (`Classifies`).
-/
import Logjet.Lib.Classes
import Logjet.Ljx.Proofs.Dedup

namespace Logjet.Ljx

open List IndexedGroups

structure Classifies (text : FlatRecord → String) (hash : String → UInt64)
    (groups : List DedupGroup) (records : List FlatRecord) : Prop where
  nodup : (groups.map fun g => text g.representative).Nodup
  classes : ∀ t, t ∈ groups.map (fun g => text g.representative) ↔ t ∈ records.map text
  describes : ∀ g ∈ groups, Describes g (records.ofKey text (text g.representative))
  signature : ∀ g ∈ groups, g.signature = hash (text g.representative)

def DedupGroup.tuple (g : DedupGroup) : UInt64 × Nat × UInt64 × UInt64 :=
  (g.signature, g.count, g.firstSeenNs, g.lastSeenNs)

theorem Describes.perm {g : DedupGroup} {members members' : List FlatRecord}
    (h : Describes g members) (hp : members.Perm members') : Describes g members' where
  count := h.count.trans hp.length_eq
  representative := hp.mem_iff.mp h.representative
  firstSeen := by
    obtain ⟨r, hr, hts⟩ := h.firstSeen
    exact ⟨r, hp.mem_iff.mp hr, hts⟩
  first_le := fun r hr => h.first_le r (hp.mem_iff.mpr hr)
  lastSeen := by
    obtain ⟨r, hr, hts⟩ := h.lastSeen
    exact ⟨r, hp.mem_iff.mp hr, hts⟩
  le_last := fun r hr => h.le_last r (hp.mem_iff.mpr hr)

theorem Describes.eq {g g' : DedupGroup} {members : List FlatRecord}
    (h : Describes g members) (h' : Describes g' members) :
    g.count = g'.count ∧ g.firstSeenNs = g'.firstSeenNs ∧ g.lastSeenNs = g'.lastSeenNs := by
  obtain ⟨r, hr, hfirst⟩ := h.firstSeen
  obtain ⟨r', hr', hfirst'⟩ := h'.firstSeen
  obtain ⟨s, hs, hlast⟩ := h.lastSeen
  obtain ⟨s', hs', hlast'⟩ := h'.lastSeen
  refine ⟨h.count.trans h'.count.symm, ?_, ?_⟩
  · refine UInt64.le_antisymm ?_ ?_
    · rw [← hfirst']
      exact h.first_le r' hr'
    · rw [← hfirst]
      exact h'.first_le r hr
  · refine UInt64.le_antisymm ?_ ?_
    · rw [← hlast]
      exact h'.le_last s hs
    · rw [← hlast']
      exact h.le_last s' hs'

section

variable {text : FlatRecord → String} {hash : String → UInt64}
  {groups groups' : List DedupGroup} {records records' : List FlatRecord}

theorem Classifies.tuples_perm (h : Classifies text hash groups records)
    (h' : Classifies text hash groups' records') (hp : records.Perm records') :
    (groups.map DedupGroup.tuple).Perm (groups'.map DedupGroup.tuple) := by
  have hsub : ∀ {gs gs' : List DedupGroup} {rs rs' : List FlatRecord},
      Classifies text hash gs rs → Classifies text hash gs' rs' →
      rs.Perm rs' → ∀ e ∈ gs.map fun g => (text g.representative, g.tuple),
        e ∈ gs'.map fun g => (text g.representative, g.tuple) := by
    intro gs gs' rs rs' hgs hgs' hperm e he
    obtain ⟨g, hg, rfl⟩ := mem_map.mp he
    have hclass : text g.representative ∈ rs.map text := (hgs.classes _).mp (mem_map_of_mem hg)
    obtain ⟨g', hg', htext⟩ := mem_map.mp
      ((hgs'.classes _).mpr ((hperm.map text).mem_iff.mp hclass))
    have hdesc := (hgs.describes g hg).perm (hperm.filter _)
    have hdesc' := hgs'.describes g' hg'
    rw [htext] at hdesc'
    obtain ⟨hcount, hfirst, hlast⟩ := hdesc.eq hdesc'
    refine mem_map.mpr ⟨g', hg', ?_⟩
    rw [DedupGroup.tuple, DedupGroup.tuple, htext, hcount, hfirst, hlast,
      hgs.signature g hg, hgs'.signature g' hg', htext]
  have hpairs : (groups.map fun g => (text g.representative, g.tuple)).Perm
      (groups'.map fun g => (text g.representative, g.tuple)) := by
    refine (perm_ext_iff_of_nodup ?_ ?_).mpr fun e => ⟨hsub h h' hp e, hsub h' h hp.symm e⟩
    · refine List.Nodup.of_map Prod.fst ?_
      rw [map_map]
      exact h.nodup
    · refine List.Nodup.of_map Prod.fst ?_
      rw [map_map]
      exact h'.nodup
  have htuples := hpairs.map Prod.snd
  rw [map_map, map_map] at htuples
  exact htuples

theorem classifies_build {δ κ : Type} [DecidableEq κ] {items : List δ}
    {part : δ → List FlatRecord} {key : δ → κ} {mark : String → κ}
    {open' : δ → DedupGroup} {merge : DedupGroup → δ → DedupGroup}
    (hparts : (items.flatMap part).Perm records)
    (hkey : ∀ a ∈ items, ∀ r ∈ part a, key a = mark (text r))
    (hmark : ∀ r ∈ records, ∀ r' ∈ records, mark (text r) = mark (text r') → text r = text r')
    (hgroup : ∀ k g, groupOf open' merge (items.ofKey key k) = some g →
      Describes g ((items.ofKey key k).flatMap part) ∧ g.signature = hash (text g.representative)) :
    Classifies text hash (build key open' merge items) records := by
  obtain ⟨keys, hnodup, hmem, hbuild⟩ := build_classes key open' merge items
  have hclass : ∀ k g, groupOf open' merge (items.ofKey key k) = some g →
      g.representative ∈ records ∧ mark (text g.representative) = k
        ∧ Describes g (records.ofKey text (text g.representative)) := by
    intro k g hg
    have hdesc := (hgroup k g hg).1
    obtain ⟨a, ha, hrep⟩ := mem_flatMap.mp hdesc.representative
    obtain ⟨hitem, hk⟩ := mem_ofKey.mp ha
    have hrecord : g.representative ∈ records :=
      hparts.mem_iff.mp (mem_flatMap.mpr ⟨a, hitem, hrep⟩)
    have hmarked : mark (text g.representative) = k := (hkey a hitem _ hrep).symm.trans hk
    refine ⟨hrecord, hmarked, hdesc.perm ?_⟩
    have hchosen : (items.ofKey key k).flatMap part
        = (items.flatMap part).filter fun r => mark (text r) = k := by
      refine flatMap_filter_parts fun b hb r hr => ?_
      rw [hkey b hb r hr]
    rw [hchosen]
    refine (hparts.filter _).trans (.of_eq (filter_congr ?_))
    intro r hr
    rw [← hmarked]
    exact decide_eq_decide.mpr ⟨hmark r hr _ hrecord, congrArg mark⟩
  have hboth : List.Forall₂ (fun g k =>
      (g.representative ∈ records ∧ Describes g (records.ofKey text (text g.representative))
          ∧ g.signature = hash (text g.representative)) ∧ mark (text g.representative) = k)
      (build key open' merge items) keys := by
    refine hbuild.imp fun g k hg => ?_
    obtain ⟨hrecord, hmarked, hdesc⟩ := hclass k g hg
    exact ⟨⟨hrecord, hdesc, (hgroup k g hg).2⟩, hmarked⟩
  obtain ⟨hall, hmarks⟩ := (forall₂_and_left _ _).mp hboth
  have hkeys : (build key open' merge items).map
      (fun g => mark (text g.representative)) = keys := by
    rw [← forall₂_eq_eq_eq, forall₂_map_left_iff]
    exact hmarks
  refine ⟨?_, ?_, fun g hg => (hall g hg).2.1, fun g hg => (hall g hg).2.2⟩
  · refine List.Nodup.of_map mark ?_
    rw [map_map]
    exact hkeys ▸ hnodup
  · intro t
    constructor
    · intro ht
      obtain ⟨g, hg, rfl⟩ := mem_map.mp ht
      exact mem_map_of_mem (hall g hg).1
    · intro ht
      obtain ⟨r, hr, rfl⟩ := mem_map.mp ht
      obtain ⟨a, ha, hra⟩ := mem_flatMap.mp (hparts.mem_iff.mpr hr)
      have hin : mark (text r) ∈ keys := (hmem _).mpr (mem_map.mpr ⟨a, ha, hkey a ha r hra⟩)
      rw [← hkeys] at hin
      obtain ⟨g, hg, hsame⟩ := mem_map.mp hin
      rw [hmark r hr _ (hall g hg).1 hsame.symm]
      exact mem_map_of_mem hg

end

section

variable (fns : DedupExternal) (order : HashOrder) {records : List FlatRecord}

theorem foldl_absorb (rs : List FlatRecord) {g : DedupGroup}
    {members : List FlatRecord} (h : Describes g members) :
    Describes (rs.foldl DedupGroup.absorb g) (members ++ rs)
      ∧ (rs.foldl DedupGroup.absorb g).signature = g.signature
      ∧ (rs.foldl DedupGroup.absorb g).representative = g.representative
      ∧ (rs.foldl DedupGroup.absorb g).bucketKey = g.bucketKey := by
  induction rs generalizing g members with
  | nil =>
    rw [append_nil]
    exact ⟨h, rfl, rfl, rfl⟩
  | cons r rs ih =>
    rw [append_cons]
    exact ih (h.absorb r)

theorem dedupBucket_classifies (key : BucketKey) (hhash : ∀ r ∈ records, ∀ r' ∈ records,
      fns.hash r.body = fns.hash r'.body → r.body = r'.body) :
    Classifies FlatRecord.body fns.hash (dedupBucket fns key records) records := by
  refine @classifies_build FlatRecord.body fns.hash records _ _ _ records
    (fun r => [r]) _ fns.hash _ _ ?_ ?_ hhash ?_
  · rw [flatMap_singleton']
  · intro r _ r' hr'
    rw [mem_singleton.mp hr']
  · intro k g hg
    rw [flatMap_singleton']
    cases hclass : records.ofKey (fun r => fns.hash r.body) k with
    | nil =>
      rw [hclass] at hg
      cases hg
    | cons r rs =>
      rw [hclass] at hg
      cases hg
      obtain ⟨hdesc, hsig, hrep, -⟩ := foldl_absorb rs (Describes.new key (fns.hash r.body) r)
      refine ⟨hdesc, ?_⟩
      rw [hsig, hrep]
      rfl

def canonText (r : FlatRecord) : String := (fns.canonicaliseBody r.body).1

theorem foldl_mergeGroup_fields (gs : List DedupGroup) (g : DedupGroup) :
    (gs.foldl DedupGroup.mergeGroup g).signature = g.signature
      ∧ (gs.foldl DedupGroup.mergeGroup g).representative = g.representative := by
  induction gs generalizing g with
  | nil => exact ⟨rfl, rfl⟩
  | cons g' gs ih => exact ih (g.mergeGroup g')

theorem canonDedup_classifies {groups : List DedupGroup} {key : BucketKey}
    (h : Classifies FlatRecord.body fns.hash groups records)
    (hbucket : ∀ g ∈ groups, g.bucketKey = key) (hhash : ∀ r ∈ records, ∀ r' ∈ records,
      fns.hash (canonText fns r) = fns.hash (canonText fns r') →
        canonText fns r = canonText fns r') :
    Classifies (canonText fns) fns.hash (canonDedup fns groups) records := by
  refine @classifies_build (canonText fns) fns.hash records _ _ _ (groups.map (annotate fns))
    (fun g => records.ofKey FlatRecord.body g.representative.body) _
    (fun t => (key, fns.hash t)) _ _ ?_ ?_ ?_ ?_
  · have hall := @flatMap_ofKey_perm _ _ _ FlatRecord.body _ h.nodup records
    rw [filter_eq_self.mpr fun r hr => decide_eq_true
      ((h.classes _).mpr (mem_map_of_mem hr)), flatMap_map] at hall
    rw [flatMap_map]
    exact hall
  · intro a ha r hr
    obtain ⟨g, hg, rfl⟩ := mem_map.mp ha
    obtain ⟨-, hbody⟩ := mem_ofKey.mp hr
    have hcanon : canonHash fns (annotate fns g) = fns.hash (canonText fns g.representative) := rfl
    have hsame : canonText fns r = canonText fns g.representative :=
      congrArg (fun body => (fns.canonicaliseBody body).1) hbody
    rw [hsame, ← hcanon, ← hbucket g hg]
    rfl
  · intro r hr r' hr' heq
    exact hhash r hr r' hr' (congrArg Prod.snd heq)
  · intro k g hg
    have hparts : ∀ e ∈ (groups.map (annotate fns)).ofKey
        (fun g => (g.bucketKey, canonHash fns g)) k,
        Describes e (records.ofKey FlatRecord.body e.representative.body)
          ∧ canonHash fns e = fns.hash (canonText fns e.representative) := by
      intro e he
      obtain ⟨g, hg, rfl⟩ := mem_map.mp (mem_ofKey.mp he).1
      exact ⟨(h.describes g hg).relabel rfl rfl rfl rfl, rfl⟩
    cases hclass : (groups.map (annotate fns)).ofKey
        (fun g => (g.bucketKey, canonHash fns g)) k with
    | nil =>
      rw [hclass] at hg
      cases hg
    | cons e es =>
      rw [hclass] at hg hparts
      cases hg
      obtain ⟨hfirst, hcanon⟩ := hparts e mem_cons_self
      have hothers : List.Forall₂ Describes es (es.map fun e =>
          records.ofKey FlatRecord.body e.representative.body) := by
        rw [forall₂_map_right_iff, forall₂_same]
        exact fun e' he' => (hparts e' (mem_cons_of_mem _ he')).1
      have hopened : Describes { e with signature := canonHash fns e }
          (records.ofKey FlatRecord.body e.representative.body) := hfirst.relabel rfl rfl rfl rfl
      obtain ⟨hsig, hrep⟩ := foldl_mergeGroup_fields es { e with signature := canonHash fns e }
      refine ⟨?_, ?_⟩
      · rw [flatMap_cons, flatMap_def]
        exact hopened.foldl_mergeGroup hothers
      · rw [hsig, hrep]
        exact hcanon

def globalKey : BucketKey :=
  { serviceName := "", severityNumber := 0, scopeName := none
    codeFilepath := none, codeLineno := none }

theorem exactDedup_global (records : List FlatRecord) :
    exactDedup fns order (bucketGroup records .global) = dedupBucket fns globalKey records := by
  by_cases hne : records = []
  · rw [hne]
    have hnone : order.iter [0] (bucketGroup [] .global) = [] := perm_nil.mp (order.perm _ _)
    rw [exactDedup, hnone]
    rfl
  · have hone : bucketGroup records .global = [(globalKey, records)] :=
      HashMap.groupBy_const hne fun _ _ => rfl
    have hiter : order.iter [0] (bucketGroup records .global) = [(globalKey, records)] := by
      rw [hone]
      exact perm_singleton.mp (order.perm _ _)
    rw [exactDedup, hiter]
    exact append_nil _

theorem dedupBucket_bucketKey (key : BucketKey) :
    ∀ g ∈ dedupBucket fns key records, g.bucketKey = key := by
  intro g hg
  obtain ⟨k, hk⟩ := mem_build hg
  cases hclass : records.ofKey (fun r => fns.hash r.body) k with
  | nil =>
    rw [hclass] at hk
    cases hk
  | cons r rs =>
    rw [hclass] at hk
    cases hk
    obtain ⟨-, -, -, hbucket⟩ := foldl_absorb rs (Describes.new key (fns.hash r.body) r)
    exact hbucket

def matchText (matchMode : DedupMatchMode) : FlatRecord → String :=
  match matchMode with
  | .exact => FlatRecord.body
  | .hash2 | .full => canonText fns

variable {F : Type} [Similarity F] {opts : DedupOpts F}

theorem distinct_classifies (hmode : opts.mode = .distinct) (hmatch : opts.matchMode ≠ .full)
    (hbodies : ∀ r ∈ records, ∀ r' ∈ records, fns.hash r.body = fns.hash r'.body → r.body = r'.body)
    (htexts : ∀ r ∈ records, ∀ r' ∈ records, fns.hash (matchText fns opts.matchMode r)
          = fns.hash (matchText fns opts.matchMode r') →
        matchText fns opts.matchMode r = matchText fns opts.matchMode r') :
    ∃ groups, dedupGroups fns order opts records = some groups
      ∧ Classifies (matchText fns opts.matchMode) fns.hash groups records := by
  have hexact := dedupBucket_classifies fns globalKey hbodies
  have hglobal : exactDedup fns order (bucketGroup records .global)
      = dedupBucket fns globalKey records := exactDedup_global fns order records
  unfold dedupGroups
  rw [hmode]
  cases hm : opts.matchMode with
  | exact =>
    refine ⟨_, rfl, ?_⟩
    exact hglobal ▸ hexact
  | hash2 =>
    rw [hm] at htexts
    refine ⟨_, rfl, ?_⟩
    exact hglobal ▸ canonDedup_classifies fns hexact (dedupBucket_bucketKey fns globalKey) htexts
  | full => exact absurd hm hmatch

end

/-- The distinct groups do not depend on the order of arrival. -/
theorem distinct_order_independent {F : Type} [Similarity F]
    (fns : DedupExternal) (order order' : HashOrder) (opts : DedupOpts F)
    (hmode : opts.mode = .distinct) (hmatch : opts.matchMode ≠ .full)
    (records records' : List FlatRecord) (hperm : records.Perm records')
    (hbodies : ∀ r ∈ records, ∀ r' ∈ records, fns.hash r.body = fns.hash r'.body → r.body = r'.body)
    (htexts : ∀ r ∈ records, ∀ r' ∈ records, fns.hash (matchText fns opts.matchMode r)
          = fns.hash (matchText fns opts.matchMode r') →
        matchText fns opts.matchMode r = matchText fns opts.matchMode r') :
    ∃ groups groups', dedupGroups fns order opts records = some groups
      ∧ dedupGroups fns order' opts records' = some groups'
      ∧ Classifies (matchText fns opts.matchMode) fns.hash groups records
      ∧ (groups.map DedupGroup.tuple).Perm (groups'.map DedupGroup.tuple) := by
  have hin : ∀ r ∈ records', r ∈ records := fun r => hperm.mem_iff.mpr
  obtain ⟨groups, hrun, hgroups⟩ := distinct_classifies fns order hmode hmatch hbodies htexts
  obtain ⟨groups', hrun', hgroups'⟩ := @distinct_classifies fns order'
    records' F _ opts hmode hmatch (fun r hr r' hr' => hbodies r (hin r hr) r' (hin r' hr'))
    (fun r hr r' hr' => htexts r (hin r hr) r' (hin r' hr'))
  exact ⟨groups, groups', hrun, hrun', hgroups, hgroups.tuples_perm hgroups' hperm⟩

/-- A table of XXH3-64 on the bodies below. -/
def abFns : DedupExternal where
  xxh3 := fun bytes =>
    if bytes = utf8 "a".toList then 0xe6c632b61e964e1f
    else if bytes = utf8 "b".toList then 0x575a0b1c44d8843f
    else if bytes = utf8 "a b c d".toList then 0x187df3c45cb370bb
    else if bytes = utf8 "a b c e".toList then 0x7744346d8c45cb06
    else 0
  canonicaliseBody := fun body => (body, "freetext")

def abRecords : List FlatRecord := [plainRecord "a" 5, plainRecord "b" 3, plainRecord "a" 8]

def exactOpts : DedupOpts Rat := ⟨.distinct, .exact, .default, ⟨1 / 2, 4, []⟩⟩

theorem distinct_order_independent_ab : ∃ groups groups',
      dedupGroups abFns .insertion exactOpts abRecords = some groups
        ∧ dedupGroups abFns .reversed exactOpts abRecords.reverse = some groups'
        ∧ (groups.map DedupGroup.tuple).Perm (groups'.map DedupGroup.tuple) := by
  obtain ⟨groups, groups', hrun, hrun', -, hperm⟩ :=
    distinct_order_independent abFns .insertion .reversed exactOpts rfl
      (by decide) abRecords abRecords.reverse (reverse_perm _).symm
      (by decide +kernel) (by decide +kernel)
  exact ⟨groups, groups', hrun, hrun', hperm⟩

end Logjet.Ljx
