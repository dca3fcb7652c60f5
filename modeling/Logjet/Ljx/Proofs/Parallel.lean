/-
Scanning by several workers gives what scanning one by one gives
(`Lib/WorkPool`), errors included.
-/
import Logjet.Ljx.Discover
import Logjet.Reference

namespace Logjet.Ljx

open List WorkPool

variable {x : External} {decode : DecodeLogs} {predicate : RecordPredicate}
  {serviceFilter severityFilter : Option (Finset String)}
  {sys : Surroundings} {files : Directory} {entries : List DatasetEntry} {workers : Nat}

def discoverOneByOne (x : External) (decode : DecodeLogs) (predicate : RecordPredicate)
    (serviceFilter severityFilter : Option (Finset String))
    (sys : Surroundings) (files : Directory) (entries : List DatasetEntry) :
    Except LjxError (List FileSummary × DiscoverySummary) :=
  entries.foldlM (fun done entry => do
    let file ← scanEntry x decode predicate serviceFilter severityFilter sys files entry
    return (done.1 ++ [file.row], done.2.merge file)) ([], .default)

theorem map_mapM_merge {α : Type} (scan : α → Except LjxError FileScan)
    (l : List α) (done : List FileScan) : l.foldlM (fun done a => do
        let file ← scan a
        return (done.1 ++ [file.row], done.2.merge file)) (summarise done)
      = (l.mapM scan).map fun files => summarise (done ++ files) := by
  induction l generalizing done with
  | nil =>
    exact congrArg (fun l => Except.ok (summarise l)) (append_nil done).symm
  | cons a l ih =>
    rw [foldlM_cons, mapM_cons]
    cases scan a with
    | error err => rfl
    | ok file =>
      have hmerged : ((summarise done).1 ++ [file.row],
          (summarise done).2.merge file) = summarise (done ++ [file]) := by
        rw [summarise, summarise, map_append, foldl_append]
        rfl
      simp only [Except.ok_bind, pure_bind, hmerged, ih]
      cases l.mapM scan with
      | error err => rfl
      | ok files =>
        exact congrArg (fun l => Except.ok (summarise l)) (append_assoc done [file] files)

theorem collectResults_map {α : Type} (scan : α → Except LjxError FileScan) (l : List α) :
    collectResults (l.map fun a => some (scan a)) = l.mapM scan := by
  rw [collectResults, mapM_map]
  rfl

theorem workerCount_pos (hentries : entries.isEmpty = false) : 0 < workerCount workers entries := by
  have hlength : 0 < entries.length := length_pos_iff.mpr (isEmpty_eq_false_iff.mp hentries)
  rw [workerCount]
  omega

theorem scanEntriesParallel_eq {schedule : List Move} {result : Except LjxError (List FileScan)}
    (h : scanEntriesParallel x decode predicate serviceFilter severityFilter
      sys files entries workers schedule = some result) :
    result = scanEntries x decode predicate serviceFilter severityFilter sys files entries := by
  unfold scanEntriesParallel at h
  split at h
  next hempty =>
    cases h
    rw [isEmpty_iff.mp hempty]
    rfl
  next hempty =>
    split at h
    next =>
      cases h
      rfl
    next =>
      obtain ⟨p, hrun, hend⟩ := Option.bind_eq_some_iff.mp h
      split at hend
      next hdone =>
        cases hend
        rw [results_of_run (workerCount_pos (Bool.eq_false_iff.mpr hempty)) hrun hdone]
        exact collectResults_map _ entries
      next => cases hend

theorem scanEntriesParallel_isSome {schedule : List Move}
    {p : Pool DatasetEntry (Except LjxError FileScan)}
    (hrun : (Pool.start entries (workerCount workers entries)).run entries
      (scanEntry x decode predicate serviceFilter severityFilter sys files)
      schedule = some p) (hdone : p.done = true) :
    (scanEntriesParallel x decode predicate serviceFilter severityFilter sys
      files entries workers schedule).isSome := by
  unfold scanEntriesParallel
  split
  · rfl
  · split
    · rfl
    · rw [hrun]
      simp only [Option.bind_eq_bind, Option.bind_some, hdone, if_true, Option.isSome_some]

/-- The parallel scan ends with the result of the sequential one. -/
theorem parallel_scan_is_sequential (x : External) (decode : DecodeLogs)
    (predicate : RecordPredicate) (serviceFilter severityFilter : Option (Finset String))
    (sys : Surroundings) (files : Directory) (entries : List DatasetEntry) (workers : Nat) :
    (∀ schedule result, scanEntriesParallel x decode predicate serviceFilter severityFilter sys
          files entries workers schedule = some result →
        result = scanEntries x decode predicate serviceFilter severityFilter sys files entries
          ∧ result.map summarise = discoverOneByOne x decode predicate
            serviceFilter severityFilter sys files entries) ∧ ∀ schedule p,
      (Pool.start entries (workerCount workers entries)).run entries
          (scanEntry x decode predicate serviceFilter severityFilter sys files) schedule = some p →
        schedule.length ≤ 4 * entries.length + workerCount workers entries
          ∧ ∃ more, (scanEntriesParallel x decode predicate serviceFilter
            severityFilter sys files entries workers (schedule ++ more)).isSome := by
  refine ⟨?_, ?_⟩
  · intro schedule result hresult
    have heq := scanEntriesParallel_eq hresult
    refine ⟨heq, ?_⟩
    rw [heq]
    exact (map_mapM_merge _ entries []).symm
  · intro schedule p hrun
    refine ⟨length_run_start hrun, ?_⟩
    obtain ⟨more, p', hmore, hdone⟩ := exists_run_done entries
      (scanEntry x decode predicate serviceFilter severityFilter sys files) p
    exact ⟨more, scanEntriesParallel_isSome (run_append hrun hmore) hdone⟩

def goneAndSkipped : List DatasetEntry :=
  [⟨"a".toList, 0, none, none, none, none, none, none⟩,
    ⟨"b".toList, 0, none, none, some 1, none, none,
      some ⟨⟨0, none, none, some 1, none, none, 0, [], true, [], true⟩, []⟩⟩]

def secondFirst : List Move :=
  [.take 0, .take 1, .send 1, .receive, .take 1, .send 0, .take 0, .receive]

theorem parallel_scan_gone_and_skipped : scanEntriesParallel Reference.external (fun _ => none)
        { RecordPredicate.default with seqMin := some 5 } none none
        ⟨[], 1, .ok 0⟩ Directory.empty goneAndSkipped 2 secondFirst
      = some (.error (.io Directory.notFound)) ∧ .error (.io Directory.notFound)
      = scanEntries Reference.external (fun _ => none)
        { RecordPredicate.default with seqMin := some 5 } none none
        ⟨[], 1, .ok 0⟩ Directory.empty goneAndSkipped := by
  have hrun : scanEntriesParallel Reference.external (fun _ => none)
        { RecordPredicate.default with seqMin := some 5 } none none
        ⟨[], 1, .ok 0⟩ Directory.empty goneAndSkipped 2 secondFirst
      = some (.error (.io Directory.notFound)) := rfl
  exact ⟨hrun, ((parallel_scan_is_sequential _ _ _ _ _ _ _ _ 2).1 _ _ hrun).1⟩

end Logjet.Ljx
