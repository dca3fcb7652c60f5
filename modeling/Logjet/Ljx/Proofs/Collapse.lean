/-
The groups of collapse mode: with the exact and the canonical matcher, one for
every maximal run of one bucket and signature.
-/
import Logjet.Lib.Runs
import Logjet.Ljx.Proofs.Distinct

namespace Logjet.Ljx

open List

section Runs

variable (fns : DedupExternal) {F : Type} (opts : DedupOpts F)

def collapseKey (record : FlatRecord) : BucketKey × UInt64 :=
  (BucketKey.fromRecord record opts.bucketKey, fns.hash (matchText fns opts.matchMode record))

structure StandsFor (g : DedupGroup) (run : List FlatRecord) : Prop where
  key : ∀ record ∈ run, collapseKey fns opts record = (g.bucketKey, g.signature)
  count : g.count = run.length
  first : run.head? = some g.representative

variable {fns opts}

theorem fromRecord_key (record : FlatRecord) : ((CollapseCandidate.fromRecord fns record
        (BucketKey.fromRecord record opts.bucketKey) opts.matchMode).bucketKey,
      (CollapseCandidate.fromRecord fns record (BucketKey.fromRecord record opts.bucketKey)
        opts.matchMode).signature) = collapseKey fns opts record := by
  unfold collapseKey matchText CollapseCandidate.fromRecord
  cases opts.matchMode <;> rfl

variable {record : FlatRecord} {groups : List DedupGroup} {before : List FlatRecord}
  {runs : List (List FlatRecord)}

theorem StandsFor.single {candidate : CollapseCandidate} (hrecord : candidate.record = record)
    (hkey : (candidate.bucketKey, candidate.signature) = collapseKey fns opts record) :
    StandsFor fns opts candidate.intoGroup [record] where
  key := by
    intro r hr
    rw [mem_singleton.mp hr]
    exact hkey.symm
  count := rfl
  first := congrArg some hrecord.symm

theorem StandsFor.absorb {g : DedupGroup} {run : List FlatRecord} (h : StandsFor fns opts g run)
    (hkey : collapseKey fns opts record = (g.bucketKey, g.signature)) :
    StandsFor fns opts (g.absorb record) (run ++ [record]) where
  key := by
    intro r hr
    rcases mem_snoc.mp hr with hr | rfl
    · exact h.key r hr
    · exact hkey
  count := by
    rw [length_append, length_singleton, ← h.count]
    rfl
  first := by
    rw [head?_append, h.first]
    rfl

variable [Similarity F] (order : HashOrder)

theorem collapseTarget_eq (hmode : opts.matchMode ≠ .full) (n : Nat)
    (groups : List DedupGroup) (candidate : CollapseCandidate) :
    collapseTarget fns order opts n groups candidate = some (groups.getLast?.filter fun last =>
          (last.bucketKey, last.signature) = (candidate.bucketKey, candidate.signature)) := by
  unfold collapseTarget
  cases groups.getLast? with
  | none => rfl
  | some last =>
    dsimp only
    rw [if_neg hmode, Option.filter_some]
    by_cases hbucket : last.bucketKey = candidate.bucketKey
    · by_cases hsig : last.signature = candidate.signature
      · simp [hbucket, hsig]
      · simp [hbucket, hsig]
    · simp [hbucket]

theorem collapseStep_runs (hmode : opts.matchMode ≠ .full) (n : Nat)
    (h : ∃ runs, MaximalRuns (collapseKey fns opts) before runs
      ∧ List.Forall₂ (StandsFor fns opts) groups runs) (record : FlatRecord) :
    ∃ groups', collapseStep fns order opts n groups record = some groups'
      ∧ ∃ runs', MaximalRuns (collapseKey fns opts) (before ++ [record]) runs'
      ∧ List.Forall₂ (StandsFor fns opts) groups' runs' := by
  obtain ⟨runs, hruns, hstand⟩ := h
  have hrecord := fromRecord_record fns record
    (BucketKey.fromRecord record opts.bucketKey) opts.matchMode
  have hkey := @fromRecord_key fns F opts record
  unfold collapseStep
  dsimp only
  generalize CollapseCandidate.fromRecord fns record
    (BucketKey.fromRecord record opts.bucketKey) opts.matchMode = candidate at hrecord hkey ⊢
  rw [collapseTarget_eq order hmode, hkey, Option.bind_eq_bind, Option.bind_some]
  rcases eq_nil_or_concat runs with rfl | ⟨runs₀, run, rfl⟩
  · cases hstand
    exact ⟨_, rfl, _, hruns.start nofun, .cons (.single hrecord hkey) .nil⟩
  · rw [concat_eq_append] at hruns hstand
    obtain ⟨groups₀, last, rfl, hstand₀, hlast⟩ := forall₂_concat_right hstand
    rw [getLast?_concat, Option.filter_some]
    by_cases hsame : (last.bucketKey, last.signature) = collapseKey fns opts record
    · rw [if_pos (decide_eq_true hsame)]
      refine ⟨_, rfl, runs₀ ++ [run ++ [record]],
        hruns.extend fun r hr => (hlast.key r hr).trans hsame, ?_⟩
      rw [length_append, length_singleton, Nat.add_sub_cancel,
        set_append_right _ _ (Nat.le_refl _), Nat.sub_self, hrecord]
      exact rel_append hstand₀ (.cons (hlast.absorb hsame.symm) .nil)
    · rw [if_neg (by simpa using hsame)]
      refine ⟨_, rfl, runs₀ ++ [run] ++ [[record]], hruns.start ?_,
        rel_append hstand (.cons (.single hrecord hkey) .nil)⟩
      rw [getLast?_concat]
      intro _ hrun r hr
      cases hrun
      rw [hlast.key r hr]
      exact hsame

end Runs

/-- Collapsing groups the maximal runs of one key. -/
theorem collapse_groups_maximal_runs (fns : DedupExternal) {F : Type}
    [Similarity F] (order : HashOrder) (opts : DedupOpts F) (hmode : opts.mode = .collapse)
    (hmatch : opts.matchMode = .exact ∨ opts.matchMode = .hash2) (records : List FlatRecord) :
    ∃ groups runs, dedupGroups fns order opts records = some groups
      ∧ MaximalRuns (collapseKey fns opts) records runs
      ∧ List.Forall₂ (StandsFor fns opts) groups runs := by
  have hfull : opts.matchMode ≠ .full := by rcases hmatch with h | h <;> simp [h]
  unfold dedupGroups
  rw [hmode]
  obtain ⟨groups, hrun, runs, hruns, hstand⟩ :=
    collapseDedup_invariant fns order opts (I := fun groups before => ∃ runs, MaximalRuns
      (collapseKey fns opts) before runs ∧ List.Forall₂ (StandsFor fns opts) groups runs)
      ⟨[], MaximalRuns.nil, .nil⟩
      (fun n _ _ record h => collapseStep_runs order hfull n h record) records
  exact ⟨groups, runs, hrun, hruns, hstand⟩

/-- Two runs for `exact`; the miner joins the second to the first. -/
def lastWordRecords : List FlatRecord :=
  [plainRecord "a b c d" 5, plainRecord "a b c e" 6, plainRecord "a b c e" 8]

def exactCollapse : DedupOpts Rat := { exactOpts with mode := .collapse }

theorem collapse_groups_maximal_runs_ab : ∃ groups runs,
      dedupGroups abFns .insertion exactCollapse lastWordRecords = some groups
        ∧ MaximalRuns (collapseKey abFns exactCollapse) lastWordRecords runs
        ∧ List.Forall₂ (StandsFor abFns exactCollapse) groups runs :=
  collapse_groups_maximal_runs abFns .insertion exactCollapse rfl (.inl rfl) lastWordRecords

end Logjet.Ljx
