/-
What `ljx filter` keeps: it fails at the first record below the open output
block, unless a cut comes just before it.
-/
import Logjet.Reference
import Logjet.Proofs.Cutting
import Logjet.Ljx.Filter

namespace Logjet.Ljx

open List LogjetWriter Reference

variable {x : External} {decode : DecodeLogs} {predicate : RecordPredicate}

theorem filterLoop_of_yields {W : Type} [Sink W] {r r' : LogjetReader}
    {records : List OwnedRecord} (hread : Yields x r records r') (w : LogjetWriter W) :
    filterLoop x decode predicate r w
      = match pushAll x (records.filter (predicate.matches decode)) w with
        | .ok () w' => .ok w'
        | .error err _ => .error err := by
  induction hread generalizing w with
  | done hnext =>
    rw [filterLoop]
    split
    next hnext' => rw [hnext] at hnext'; cases hnext'
    next => rfl
    next hnext' => rw [hnext] at hnext'; cases hnext'
  | @more r r₁ r' record records hnext _ ih =>
    rw [filterLoop]
    split
    next hnext' => rw [hnext] at hnext'; cases hnext'
    next hnext' => rw [hnext] at hnext'; cases hnext'
    next hnext' =>
      rw [hnext] at hnext'
      cases hnext'
      by_cases hmatch : predicate.matches decode record
      · rw [if_pos hmatch, filter_cons_of_pos hmatch]
        cases hpush : LogjetWriter.push x record w with
        | error err w₁ =>
          have hfail : pushAll x (record :: records.filter
              (predicate.matches decode)) w = .error err w₁ := EStateM.bind_of_error hpush
          rw [hfail]
        | ok _ w₁ =>
          have hrest : pushAll x (record :: records.filter (predicate.matches decode)) w = pushAll x
                (records.filter (predicate.matches decode)) w₁ := EStateM.bind_of_ok hpush
          rw [hrest]
          exact ih w₁
      · rw [if_neg hmatch, filter_cons_of_neg hmatch]
        exact ih w

/-- The output reads back to the matches iff none is out of order. -/
theorem filter_keeps_matching_iff (x : External) (hx : x.RoundTrip)
    (decode : DecodeLogs) (predicate : RecordPredicate)
    (blockTargetSize : Nat) (codec : Codec) (data : Bytes)
    (records : List OwnedRecord) (r' : LogjetReader)
    (hread : Yields x (LogjetReader.withConfig data .default) records r')
    (hbuild : Buildable x (filterConfig blockTargetSize codec)
      (records.filter (predicate.matches decode)))
    (hcut : Cuttable x (filterConfig blockTargetSize codec)
      (records.filter (predicate.matches decode)))
    (htotal : ∀ chunks, filterRun x decode predicate blockTargetSize codec
      data = .ok chunks → chunks.flatten.length < 2 ^ 64 ∧ uncompressedTotal chunks < 2 ^ 64) :
    (∃ chunks r'', filterRun x decode predicate blockTargetSize codec data = .ok chunks
      ∧ Yields x (LogjetReader.withConfig chunks.flatten .default)
        (records.filter (predicate.matches decode)) r'')
      ↔ Ascends x (records.filter (predicate.matches decode))
        (inMemory (filterConfig blockTargetSize codec)) := by
  have htidy : Tidy x (filterConfig blockTargetSize codec) []
      (inMemory (filterConfig blockTargetSize codec)) := tidy_inMemory _
  rw [← htidy.pushAll_ok_iff (by rw [nil_append]; exact hbuild)]
  have hloop := @filterLoop_of_yields x decode predicate (List Bytes) _ _ r'
    records hread (inMemory (filterConfig blockTargetSize codec))
  constructor
  · intro ⟨chunks, _, hrun, _⟩
    obtain ⟨w, hw, -⟩ := Except.bind_eq_ok_iff.mp hrun
    rw [hloop] at hw
    split at hw
    next w' hpush => exact ⟨w', hpush⟩
    next => cases hw
  · intro ⟨w', hpush⟩
    have hrest := htidy.pushAll hpush
    rw [nil_append] at hrest
    obtain ⟨blocks, hinto, hrecords, hblocks⟩ := hrest.intoInner_returns hbuild
    have hrun : filterRun x decode predicate blockTargetSize codec data
        = .ok (blocks.flatMap Block.chunks) := by
      rw [filterRun, hloop, hpush]
      exact hinto
    obtain ⟨hlength, huncompressed⟩ := htotal _ hrun
    have hall : ∀ b ∈ blocks, b.Readable .default := by
      intro b hb
      obtain ⟨hown, hneat⟩ := hblocks b hb
      refine hcut b hneat hown ?_
      obtain ⟨l₁, l₂, hmem⟩ := append_of_mem hb
      rw [hrecords, hmem, flatMap_append, flatMap_cons]
      exact ⟨l₁.flatMap Block.records, l₂.flatMap Block.records, by simp only [append_assoc]⟩
    obtain ⟨r'', hyields, -⟩ := yields_chunks hx defaultSyncMarker_syncable
      hall hlength huncompressed
    rw [← hrecords] at hyields
    exact ⟨_, r'', hrun, hyields⟩

def twoRecords (seq₁ seq₂ : UInt64) : List OwnedRecord :=
  [⟨.logs, seq₁, 1, [1]⟩, ⟨.metrics, seq₂, 1, [2]⟩]

def twoBlocks (seq₁ seq₂ : UInt64) : Bytes :=
  match intoInner external (runOps external
      ((twoRecords seq₁ seq₂).flatMap fun r => [.push r, .flushBlock])
      (inMemory (filterConfig 65536 .none))).2 with
  | .ok chunks => chunks.flatten
  | .error _ => []

theorem yields_twoBlocks {seq₁ seq₂ : UInt64}
    (hfit : CountersFit external .default (twoBlocks seq₁ seq₂))
    (hscan : scanRecords external .default (twoBlocks seq₁ seq₂) 0 = twoRecords seq₁ seq₂) :
    ∃ r', Yields external (LogjetReader.withConfig (twoBlocks seq₁ seq₂)
      .default) (twoRecords seq₁ seq₂) r' := by
  obtain ⟨r', hyields, -⟩ := yields_scanRecords defaultSyncMarker_syncable hfit
  rw [hscan] at hyields
  exact ⟨r', hyields⟩

theorem filter_keeps_rising_blocks :
    ∃ chunks r'', filterRun external (fun _ => none) .default 65536 .none
        (twoBlocks 5 7) = .ok chunks
      ∧ Yields external (LogjetReader.withConfig chunks.flatten .default) ((twoRecords 5 7).filter
          (RecordPredicate.default.matches fun _ => none)) r'' := by
  have hlen : ∀ r ∈ (twoRecords 5 7).filter (RecordPredicate.default.matches fun _ => none),
      (r.encode r.ownBase).length ≤ 16 := by decide +kernel
  obtain ⟨r', hread⟩ := @yields_twoBlocks 5 7 (by decide +kernel) (by decide +kernel)
  refine (filter_keeps_matching_iff external external_roundTrip _ _ 65536
    .none _ _ r' hread ?_ ?_ ?_).mpr ?_
  · exact buildable_of_length (by decide) (fun input h => ⟨input, rfl, h⟩)
      fun r hr => Nat.lt_of_le_of_lt (hlen r hr) (by decide)
  · refine cuttable_of_length rfl (by decide) ?_ fun r hr => Nat.le_trans (hlen r hr) (by decide)
    intro input output h hok
    cases hok
    exact h
  · intro chunks hrun
    have hcheck : (filterRun external (fun _ => none) .default 65536 .none
        (twoBlocks 5 7)).okAnd (fun chunks => chunks.flatten.length < 2 ^ 64
          ∧ uncompressedTotal chunks < 2 ^ 64) = true := by decide +kernel
    obtain ⟨chunks', hrun', hfits⟩ := Except.okAnd_eq_true.mp hcheck
    rw [hrun] at hrun'
    cases hrun'
    simpa using hfits
  · decide +kernel

theorem filter_fails_on_falling_blocks :
    (∃ r', Yields external (LogjetReader.withConfig (twoBlocks 5 1) .default) (twoRecords 5 1) r')
      ∧ (twoRecords 5 1).filter (RecordPredicate.default.matches fun _ => none) = twoRecords 5 1
      ∧ filterRun external (fun _ => none) .default 65536 .none (twoBlocks 5 1)
        = .error (.invalidHeader "sequence must be monotonic within block") := by
  refine ⟨yields_twoBlocks (by decide +kernel) (by decide +kernel), by decide +kernel, ?_⟩
  decide +kernel

end Logjet.Ljx
