/-
What `ljx dedup` writes, sorted by time and numbered as they come.
-/
import Logjet.Reference
import Logjet.Proofs.Cutting
import Logjet.Ljx.Emit
import Logjet.Ljx.Proofs.Dedup

namespace Logjet.Ljx

open List LogjetWriter Reference

variable {encode : ExportLogsServiceRequest → Bytes} {label : String}
  {groups : List DedupGroup} {passthrough : List OwnedRecord}

def content (r : OwnedRecord) : UInt64 × RecordType × Bytes := (r.tsUnixNs, r.recordType, r.payload)

theorem map_content_emitPushes : (emitPushes encode label groups passthrough).map content
      = (emitRecords encode label groups passthrough).mergeSort fun a b => a.1 ≤ b.1 := by
  rw [emitPushes, map_map]
  exact zipIdx_map_fst 0 _

theorem emitPushes_perm : ((emitPushes encode label groups passthrough).map content).Perm
      (emitRecords encode label groups passthrough) := by
  rw [map_content_emitPushes]
  exact mergeSort_perm _ _

theorem length_emitPushes : (emitPushes encode label groups passthrough).length
      = groups.length + passthrough.length := by
  have h := (@emitPushes_perm encode label groups passthrough).length_eq
  simpa [emitRecords] using h

theorem emitPushes_times : (emitPushes encode label groups passthrough).Pairwise
      fun a b => a.tsUnixNs ≤ b.tsUnixNs := by
  have h : ((emitPushes encode label groups passthrough).map
      content).Pairwise fun a b => decide (a.1 ≤ b.1) = true := by
    rw [map_content_emitPushes]
    refine pairwise_mergeSort ?_ ?_ _
    · intro a b c hab hbc
      simp only [decide_eq_true_eq] at hab hbc ⊢
      exact UInt64.le_trans hab hbc
    · intro a b
      simpa using UInt64.le_total a.1 b.1
  exact (pairwise_map.mp h).imp of_decide_eq_true

theorem emitPushes_seqs (hmany : groups.length + passthrough.length ≤ 2 ^ 64) :
    (emitPushes encode label groups passthrough).Pairwise fun a b => a.seq ≤ b.seq := by
  have hlen := @length_emitPushes encode label groups passthrough
  have hseq : ∀ i (hi : i < (emitPushes encode label groups passthrough).length),
      (emitPushes encode label groups passthrough)[i].seq.toNat = i := by
    intro i hi
    have hfit : i < 2 ^ 64 := by omega
    simp only [emitPushes, getElem_map, getElem_zipIdx, Nat.zero_add, UInt64.toNat_ofNat']
    exact Nat.mod_eq_of_lt hfit
  rw [pairwise_iff_getElem]
  intro i j hi hj hij
  rw [UInt64.le_iff_toNat_le, hseq i hi, hseq j hj]
  exact Nat.le_of_lt hij

theorem emitWrite_returns {x : External} {config : WriterConfig}
    (hmany : groups.length + passthrough.length ≤ 2 ^ 64) (hbuild : Buildable x config
      (emitPushes encode label groups passthrough)) :
    ∃ w, emitWrite encode label x groups passthrough (inMemory config)
        = .ok ⟨(groups.map DedupGroup.count).sum, groups.length⟩ w
      ∧ Tidy x config (emitPushes encode label groups passthrough) w := by
  have htidy : Tidy x config [] (inMemory config) := tidy_inMemory config
  have hsorted := (@emitPushes_seqs encode label _ _ hmany).and emitPushes_times
  have hpush : ∃ w, pushAll x (emitPushes encode label groups passthrough)
      (inMemory config) = .ok () w := by
    refine (htidy.pushAll_ok_iff ?_).mpr (htidy.ascends ?_ ?_)
    · exact hbuild
    · exact hbuild
    · exact hsorted
  obtain ⟨w, hpush⟩ := hpush
  exact ⟨w, EStateM.bind_of_ok hpush, htidy.pushAll hpush⟩

/-- No record is lost: each is in one group, each group is written. -/
theorem dedup_conserves {F : Type} [Similarity F] (x : External)
    (fns : DedupExternal) (encode : ExportLogsServiceRequest → Bytes)
    (order : HashOrder) (opts : DedupOpts F) (config : WriterConfig)
    (records : List FlatRecord) (passthrough : List OwnedRecord)
    (hmany : records.length + passthrough.length ≤ 2 ^ 64) :
    ∃ groups, dedupGroups fns order opts records = some groups ∧ Divides Describes groups records
      ∧ (groups.map DedupGroup.count).sum = records.length
      ∧ ((emitPushes encode (modeLabel opts) groups passthrough).map content).Perm
        (emitRecords encode (modeLabel opts) groups passthrough)
      ∧ (emitPushes encode (modeLabel opts) groups passthrough).Pairwise
        (fun a b => a.tsUnixNs ≤ b.tsUnixNs) ∧ (Buildable x config
          (emitPushes encode (modeLabel opts) groups passthrough) →
        ∃ w, emitWrite encode (modeLabel opts) x groups passthrough
            (inMemory config) = .ok ⟨records.length, groups.length⟩ w ∧ Tidy x config
            (emitPushes encode (modeLabel opts) groups passthrough) w) := by
  obtain ⟨groups, hrun, hdivides⟩ := dedupGroups_returns fns order opts records
  have hsum := sum_count_of_divides hdivides
  have hfew := length_le_of_divides hdivides
  refine ⟨groups, hrun, hdivides, hsum, emitPushes_perm, emitPushes_times, ?_⟩
  intro hbuild
  rw [← hsum]
  exact emitWrite_returns (by omega) hbuild

def threeRecords : List FlatRecord := [5, 3, 8].map (plainRecord "up")

def plainFns : DedupExternal := ⟨fun _ => 0, fun body => (body, "text")⟩

def fullOpts : DedupOpts Rat := ⟨.distinct, .full, .default, ⟨1 / 2, 4, []⟩⟩

theorem dedup_conserves_three : ∃ groups, dedupGroups plainFns .reversed fullOpts threeRecords
        = some groups ∧ ∃ w, emitWrite (fun _ => [1]) (modeLabel fullOpts) external groups
          [⟨.metrics, 4, 4, [2]⟩] (inMemory .default) = .ok ⟨3, groups.length⟩ w := by
  obtain ⟨groups, hrun, -, -, hperm, -, hwrite⟩ := dedup_conserves external
    plainFns (fun _ => [1]) .reversed fullOpts .default threeRecords
    [⟨.metrics, 4, 4, [2]⟩] (by decide)
  have hbuild : Buildable external .default (emitPushes (fun _ => [1])
      (modeLabel fullOpts) groups [⟨.metrics, 4, 4, [2]⟩]) := by
    refine buildable_of_length (by decide) ?_ ?_
    · intro input hinput
      have hstarts : Reference.compress input <+: input := rdropWhile_prefix _ _
      exact ⟨_, rfl, Nat.lt_of_le_of_lt hstarts.length_le hinput⟩
    · intro r hr
      have hmem := hperm.subset (mem_map_of_mem hr)
      have hpayload : r.payload.length = 1 := by
        simp only [emitRecords, mem_append, mem_map,
          map_cons, map_nil, mem_singleton, content] at hmem
        rcases hmem with ⟨g, -, hg⟩ | hr
        · exact (congrArg (fun c => c.2.2.length) hg).symm
        · exact congrArg (fun c => c.2.2.length) hr
      have hlen := r.encode_length_le r.ownBase
      omega
  obtain ⟨w, hw, -⟩ := hwrite hbuild
  exact ⟨groups, hrun, w, hw⟩

theorem dedup_push_fails_on_length : dedupGroups plainFns .insertion fullOpts [] = some []
      ∧ ∃ err w, emitWrite (fun _ => [1]) (modeLabel fullOpts) external []
          [⟨.metrics, 0, 0, List.replicate (2 ^ 32) 0⟩] (inMemory .default) = .error err w := by
  refine ⟨by decide +kernel, ?_⟩
  have hpushes : emitPushes (fun _ => [1]) (modeLabel fullOpts) []
      [⟨.metrics, 0, 0, List.replicate (2 ^ 32) 0⟩]
        = [⟨.metrics, 0, 0, List.replicate (2 ^ 32) 0⟩] := by
    simp only [emitPushes, emitRecords, map_nil, nil_append,
      map_cons, mergeSort_singleton, zipIdx_cons, zipIdx_nil]
    rfl
  generalize hr : (⟨.metrics, 0, 0, List.replicate (2 ^ 32) 0⟩ : OwnedRecord) = r at hpushes ⊢
  have hpayload : r.payload.length = 2 ^ 32 := by
    rw [← hr]
    exact length_replicate
  have hupper := r.encode_length_le r.ownBase
  have hlower := r.encode_length r.ownBase
  obtain ⟨err, hbuild⟩ := @buildBlock_of_length external .default
    (r.encode r.ownBase) r.ownBase 1 (by omega)
  have hne : r.encode r.ownBase ≠ [] := by
    apply ne_nil_of_length_pos
    omega
  have hfull : defaultBlockTargetSize ≤ (r.encode r.ownBase).length := by
    have : defaultBlockTargetSize ≤ 2 ^ 32 := by decide
    omega
  have hpush : ∃ w, LogjetWriter.push external r (inMemory .default) = .error err w := by
    rw [push_opening_eq rfl rfl rfl (by
      change (r.encode r.ownBase).length < 2 ^ 64
      omega), flushIfFull, EStateM.get_bind]
    exact ⟨_, (congrFun (if_pos hfull) _).trans (flushBlock_of_error hne hbuild)⟩
  obtain ⟨w, hpush⟩ := hpush
  refine ⟨err, w, ?_⟩
  rw [emitWrite, hpushes]
  exact EStateM.bind_of_error (EStateM.bind_of_error hpush)

end Logjet.Ljx
