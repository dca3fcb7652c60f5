/-
Collapse mode with the miner: consecutive records of one bucket and canonical
body share a group, whose template generalises what it took in.
-/
import Logjet.Ljx.Proofs.Collapse
import Logjet.Ljx.Proofs.Template
import Logjet.Proofs.Text

namespace Logjet

open List

namespace Ljx

open Drain Similarity Transition

variable {template tokens words : List Text}

theorem Drain.Generalises.trans (h : Generalises template tokens)
    (h' : Generalises tokens words) : Generalises template words := by
  induction h generalizing words with
  | nil =>
    cases h'
    exact .nil
  | cons hfirst _ ih =>
    cases h' with
    | cons hnext hrest =>
      refine .cons (fun hne => ?_) (ih hrest)
      have heq := hfirst hne
      exact heq.trans (hnext (heq ▸ hne))

theorem splitWhitespace_template {cluster : LogCluster} {message : Text}
    (h : Generalises cluster.templateTokens (splitWhitespace message)) :
    splitWhitespace cluster.template = cluster.templateTokens := by
  rw [LogCluster.template, splitWhitespace_intercalate]
  have hword : ∀ t ∈ cluster.templateTokens, splitWhitespace t = [t] := by
    intro t ht
    by_cases hwild : t = "<*>".toList
    · rw [hwild]
      rfl
    · obtain ⟨i, hi⟩ := mem_iff_getElem?.mp ht
      obtain ⟨w, hw, hmatch⟩ := forall₂_getElem? h hi
      obtain ⟨hne, hsolid⟩ := splitWhitespace_solid message t
        (hmatch hwild ▸ mem_of_getElem? hw)
      exact splitWhitespace_of_solid hsolid hne
  rw [flatMap_congr hword]
  exact flatMap_singleton' _

section Pair

variable {F : Type} {order : HashOrder} {path : List Nat} {drain : DrainOpts F}

theorem tokenise_eq {log : List (Text × Int)} {d : Drain F} {n : Nat}
    (hdelim : drain.extraDelimiters = []) (h : Faithful (drainConfig drain n) log d)
    (message : Text) : d.tokenise message = splitWhitespace message := by
  rw [tokenise, h.delimiters, drainConfig, hdelim, foldl_nil, splitWhitespace_trim]

theorem addLogMessage_pair [Similarity F] [Lawful F]
    (hdelim : drain.extraDelimiters = []) (hsim : ge (ofInt 1) drain.simTh)
    (n : Nat) (left right : Text) : ∃ result d₁ cid isNew d₂ cluster,
      (Drain.new (drainConfig drain n)).addLogMessage order path left = some (result, d₁)
      ∧ d₁.addLogMessage order path right = some ((cid, isNew), d₂)
      ∧ HashMap.get cid d₂.clusters = some cluster
      ∧ Generalises cluster.templateTokens (splitWhitespace right)
      ∧ (Generalises (splitWhitespace left) (splitWhitespace right) → isNew = false) := by
  have hmax : 0 < (drainConfig drain n).maxChildren := Int.sign_eq_one_iff_pos.mp rfl
  obtain ⟨⟨c₁, n₁⟩, d₁, hleft, hsound⟩ := addLogMessage_returns (sound_new hmax) order path left
  obtain ⟨⟨cid, isNew⟩, d₂, hright, -⟩ := addLogMessage_returns hsound order path right
  have hadds₁ : Adds (Drain.new (drainConfig drain n)) (left, c₁) d₁ := ⟨order, path, n₁, hleft⟩
  have hadds₂ : d₁.Adds (right, cid) d₂ := ⟨order, path, isNew, hright⟩
  have h₁ := (faithful_new (drainConfig drain n)).step hsim hadds₁
  have h₂ := h₁.step hsim hadds₂
  obtain ⟨first, hfirst, hfirstGeneral⟩ := h₁.general (left, c₁) mem_cons_self
  obtain ⟨cluster, hcluster, hgeneral⟩ := h₂.general (right, cid) (mem_snoc.mpr (.inr rfl))
  rw [tokenise_eq hdelim h₁] at hfirstGeneral
  rw [tokenise_eq hdelim h₂] at hgeneral
  refine ⟨_, d₁, cid, isNew, d₂, cluster, hleft, hright, hcluster, hgeneral, ?_⟩
  intro hmore
  have hsome : (d₁.matched order path (splitWhitespace right)).isSome :=
    h₁.matched_isSome hsim hfirst (hfirstGeneral.trans hmore)
  obtain ⟨found, hmatched⟩ := Option.isSome_iff_exists.mp hsome
  rw [← tokenise_eq hdelim h₁] at hmatched
  obtain ⟨d', hjoin, -⟩ := h₁.join hmatched
  rw [hjoin] at hright
  cases hright
  rfl

end Pair

section Groups

variable {F : Type} (fns : DedupExternal) (opts : DedupOpts F)

def canonKey (record : FlatRecord) : BucketKey × String :=
  (BucketKey.fromRecord record opts.bucketKey, (fns.canonicaliseBody record.body).1)

def OpenTo (g : DedupGroup) (record : FlatRecord) : Prop :=
  g.bucketKey = (canonKey fns opts record).1
    ∧ (g.signature = fns.hash (canonKey fns opts record).2
      ∨ ∃ template, g.drain3Template = some template
        ∧ Generalises (splitWhitespace template.toList)
          (splitWhitespace (canonKey fns opts record).2.toList))

structure Took (g : DedupGroup) (run : List FlatRecord) : Prop where
  count : g.count = run.length
  first : run.head? = some g.representative
  last : ∀ record ∈ run.getLast?, OpenTo fns opts g record

variable {fns opts}

theorem took_intoGroup (hmatch : opts.matchMode = .full) (record : FlatRecord) :
    Took fns opts (CollapseCandidate.fromRecord fns record (canonKey fns opts record).1
      opts.matchMode).intoGroup [record] := by
  rw [hmatch]
  refine ⟨rfl, rfl, ?_⟩
  intro r hr
  cases hr
  exact ⟨rfl, .inl rfl⟩

variable [Similarity F] (order : HashOrder) {groups : List DedupGroup} {last : DedupGroup}
  {before : List FlatRecord} {runs : List (List FlatRecord)}

theorem drainMatches_spec [Lawful F]
    (hdelim : opts.drain.extraDelimiters = []) (hsim : ge (ofInt 1) opts.drain.simTh)
    (path : List Nat) (record : FlatRecord) {candidate : CollapseCandidate}
    (hbody : candidate.canonicalBody = some (canonKey fns opts record).2)
    (hbucket : last.bucketKey = (canonKey fns opts record).1) :
    ∃ target, drainMatches fns order opts.drain path last candidate = some target
      ∧ (∀ g ∈ target, OpenTo fns opts g record ∧ g.count = last.count
        ∧ g.representative = last.representative)
      ∧ ∀ template, last.drain3Template = some template →
        Generalises (splitWhitespace template.toList)
          (splitWhitespace (canonKey fns opts record).2.toList) → target ≠ none := by
  obtain ⟨result, d₁, cid, isNew, d₂, cluster, hleft, hright, hcluster, hgeneral, hold⟩ :=
    @addLogMessage_pair F order path opts.drain _ _ hdelim hsim 4
      ((last.drain3Template.or last.canonicalBody).getD last.representative.body).toList
      (canonKey fns opts record).2.toList
  unfold drainMatches
  simp only [hbody, Option.getD_some, hleft, Option.bind_eq_bind, Option.bind_some, hright,
    hcluster, Option.map_some]
  cases isNew with
  | true =>
    refine ⟨none, rfl, fun g hg => (by cases hg), ?_⟩
    intro template htemplate hmore
    rw [htemplate] at hold
    cases hold hmore
  | false =>
    refine ⟨_, rfl, ?_, fun _ _ _ h => (by cases h)⟩
    intro g hg
    cases hg
    refine ⟨⟨hbucket, .inr ⟨_, rfl, ?_⟩⟩, rfl, rfl⟩
    rw [String.toList_ofList, splitWhitespace_template hgeneral]
    exact hgeneral

theorem collapseTarget_spec [Lawful F] (hmatch : opts.matchMode = .full)
    (hdelim : opts.drain.extraDelimiters = []) (hsim : ge (ofInt 1) opts.drain.simTh) (n : Nat)
    (record : FlatRecord) : ∃ target, collapseTarget fns order opts n (groups ++ [last])
        (CollapseCandidate.fromRecord fns record (canonKey fns opts record).1 opts.matchMode)
          = some target
      ∧ (∀ g ∈ target, OpenTo fns opts g record ∧ g.count = last.count
        ∧ g.representative = last.representative)
      ∧ (OpenTo fns opts last record → target ≠ none) := by
  unfold collapseTarget
  rw [getLast?_concat, hmatch]
  by_cases hbucket : last.bucketKey = (canonKey fns opts record).1
  · by_cases hsig : last.signature = fns.hash (canonKey fns opts record).2
    · refine ⟨some last, ?_, ?_, fun _ h => (by cases h)⟩
      · exact (if_neg (not_not.mpr hbucket)).trans (if_pos hsig)
      · intro g hg
        cases hg
        exact ⟨⟨hbucket, .inl hsig⟩, rfl, rfl⟩
    · have hbody : (CollapseCandidate.fromRecord fns record (canonKey fns opts record).1
          .full).canonicalBody = some (canonKey fns opts record).2 := rfl
      obtain ⟨target, hrun, htook, hopen⟩ :=
        drainMatches_spec order hdelim hsim [4, n] record hbody hbucket
      refine ⟨target, ?_, htook, ?_⟩
      · exact (if_neg (not_not.mpr hbucket)).trans ((if_neg hsig).trans ((if_pos rfl).trans hrun))
      · rintro ⟨-, hsame | ⟨template, htemplate, hmore⟩⟩
        · exact absurd hsame hsig
        · exact hopen template htemplate hmore
  · exact ⟨none, if_pos hbucket, fun g hg => (by cases hg), fun hopen => absurd hopen.1 hbucket⟩

theorem collapseStep_full [Lawful F] (hmatch : opts.matchMode = .full)
    (hdelim : opts.drain.extraDelimiters = []) (hsim : ge (ofInt 1) opts.drain.simTh) (n : Nat)
    (h : ∃ runs, CutRuns (fun a b => canonKey fns opts a ≠ canonKey fns opts b) before runs
      ∧ List.Forall₂ (Took fns opts) groups runs) (record : FlatRecord) :
    ∃ groups', collapseStep fns order opts n groups record = some groups'
      ∧ ∃ runs', CutRuns (fun a b => canonKey fns opts a ≠ canonKey fns opts b)
        (before ++ [record]) runs' ∧ List.Forall₂ (Took fns opts) groups' runs' := by
  obtain ⟨runs, hruns, htook⟩ := h
  have hnew := @took_intoGroup F fns opts hmatch record
  rcases eq_nil_or_concat runs with rfl | ⟨runs₀, run, rfl⟩
  · cases htook
    exact ⟨_, rfl, _, hruns.start nofun, .cons hnew .nil⟩
  · rw [concat_eq_append] at hruns htook
    obtain ⟨groups₀, last, rfl, htook₀, hlast⟩ := forall₂_concat_right htook
    obtain ⟨target, hrun, htarget, hopen⟩ :=
      @collapseTarget_spec F fns opts _ order groups₀ last _ hmatch hdelim hsim n record
    unfold collapseStep
    dsimp only
    rw [show BucketKey.fromRecord record opts.bucketKey = (canonKey fns opts record).1 from rfl,
      hrun, Option.bind_eq_bind, Option.bind_some]
    cases target with
    | some g =>
      obtain ⟨hg, hcount, hrep⟩ := htarget g rfl
      refine ⟨_, rfl, runs₀ ++ [run ++ [record]], hruns.extend record, ?_⟩
      rw [length_append, length_singleton, Nat.add_sub_cancel,
        set_append_right _ _ (Nat.le_refl _), Nat.sub_self, fromRecord_record]
      refine rel_append htook₀ (.cons ⟨?_, ?_, ?_⟩ .nil)
      · rw [length_append, length_singleton, ← hlast.count, ← hcount]
        rfl
      · rw [head?_append, hlast.first, ← hrep]
        rfl
      · rw [getLast?_concat]
        intro r hr
        cases hr
        exact hg
    | none =>
      refine ⟨_, rfl, runs₀ ++ [run] ++ [[record]], hruns.start ?_,
        rel_append htook (.cons hnew .nil)⟩
      rw [getLast?_concat]
      intro _ heq b hb hkey
      cases heq
      have hb' := hlast.last b hb
      unfold OpenTo at hb'
      rw [hkey] at hb'
      exact hopen hb' rfl

end Groups

/-- Full matching cuts only where the canonical text changes. -/
theorem collapse_full_keeps_canon {F : Type} [Similarity F] [Lawful F]
    (fns : DedupExternal) (order : HashOrder) (opts : DedupOpts F)
    (hmode : opts.mode = .collapse) (hmatch : opts.matchMode = .full)
    (hdelim : opts.drain.extraDelimiters = [])
    (hsim : ge (ofInt 1) opts.drain.simTh = true) (records : List FlatRecord) :
    ∃ groups runs, dedupGroups fns order opts records = some groups
      ∧ CutRuns (fun a b => canonKey fns opts a ≠ canonKey fns opts b) records runs
      ∧ List.Forall₂ (Took fns opts) groups runs := by
  unfold dedupGroups
  rw [hmode]
  obtain ⟨groups, hrun, runs, hruns, htook⟩ :=
    collapseDedup_invariant fns order opts (I := fun groups before => ∃ runs, CutRuns
      (fun a b => canonKey fns opts a ≠ canonKey fns opts b) before runs
        ∧ List.Forall₂ (Took fns opts) groups runs) ⟨[], CutRuns.nil, .nil⟩
      (fun n _ _ record h => collapseStep_full order hmatch hdelim hsim n h record) records
  exact ⟨groups, runs, hrun, hruns, htook⟩

def fullCollapse : DedupOpts Rat := { exactOpts with mode := .collapse, matchMode := .full }

theorem collapse_full_keeps_canon_ab : ∃ groups runs,
      dedupGroups abFns .insertion fullCollapse lastWordRecords = some groups
        ∧ CutRuns (fun a b => canonKey abFns fullCollapse a ≠ canonKey abFns fullCollapse b)
          lastWordRecords runs
        ∧ List.Forall₂ (Took abFns fullCollapse) groups runs :=
  collapse_full_keeps_canon abFns .insertion fullCollapse rfl rfl rfl (by decide +kernel)
    lastWordRecords

end Ljx

end Logjet
