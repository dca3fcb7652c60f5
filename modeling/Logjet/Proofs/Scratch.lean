/-
The scratch buffers are never seen: the two writers run in lockstep.
-/
import Logjet.Lib.Lockstep
import Logjet.Proofs.Monotonic
import Logjet.Scratch

namespace Logjet

open List EStateM Except

open EStateM (Ends Lockstep)

namespace ScratchWriter

variable {W : Type} {x : External}

def Over (s : ScratchWriter W) (w : LogjetWriter W) : Prop := s.toLogjetWriter = w

theorem onWriter_lockstep {α : Type}
    (act : EStateM Error (LogjetWriter W) α) (s : ScratchWriter W) :
    Lockstep (onWriter act) s act s.toLogjetWriter
      (fun a s' b w' => a = b ∧ s' = { s with toLogjetWriter := w' })
      (fun s' w' => s' = { s with toLogjetWriter := w' }) := by
  unfold Lockstep onWriter
  cases act s.toLogjetWriter with
  | ok a w => exact ⟨rfl, rfl⟩
  | error err w => exact ⟨rfl, rfl⟩

theorem assemble_eq (header : BlockHeader) (extBytes : Bytes) (s : ScratchWriter W) :
    assemble x header extBytes s = .ok () { s with
      blockBuf := assembleBlock x s.config.syncMarker header extBytes
        s.compressedBuf } := by
  have hdrop (tail : Bytes) : (s.config.syncMarker.toList ++ tail).drop
      s.config.syncMarker.size = tail := by rw [drop_left' (by simp)]
  show EStateM.Result.ok () (ScratchWriter.mk s.toLogjetWriter
    s.encodedRecordBuf s.compressedBuf _) = _
  simp only [pushBlock, nil_append, append_assoc, hdrop, assembleBlock]

variable {s : ScratchWriter W} {record : OwnedRecord}

theorem compressPayload_of_ok {compressed : Bytes}
    (h : s.config.codec.compress x s.payloadBuf = .ok compressed) :
    compressPayload x s = .ok () { s with compressedBuf := compressed } := by
  simp only [compressPayload, modify_bind, get_bind, h, ofExcept_ok_bind]
  rfl

theorem compressPayload_of_error {err : Error}
    (h : s.config.codec.compress x s.payloadBuf = .error err) :
    compressPayload x s = .error err { s with compressedBuf := [] } := by
  simp only [compressPayload, modify_bind, get_bind, h, ofExcept_error_bind]

def writeOut [Sink W] (config : WriterConfig) (body : Bytes) :
    EStateM Error (ScratchWriter W) Unit := do
  onWriter (LogjetWriter.writeInner body)
  onWriter (LogjetWriter.writePadding (LogjetWriter.padding config body.length))
  modify resetBlockState

theorem writeBlock_eq [Sink W] (s : ScratchWriter W) :
    ∃ s₁ : ScratchWriter W, s₁.toLogjetWriter = s.toLogjetWriter ∧ writeBlock x s = (do
        let body ← EStateM.ofExcept (buildBlock x s.config s.payloadBuf
          s.blockBaseSeq s.blockBaseTsUnixNs s.recordCount)
        writeOut s.config body) s₁ := by
  cases hseq : s.blockBaseSeq with
  | none =>
    refine ⟨s, rfl, ?_⟩
    simp only [writeBlock, get_bind, hseq]
    rfl
  | some baseSeq =>
  cases hts : s.blockBaseTsUnixNs with
  | none =>
    refine ⟨s, rfl, ?_⟩
    simp only [writeBlock, get_bind, hseq, hts]
    rfl
  | some baseTs =>
  cases hcomp : s.config.codec.compress x s.payloadBuf with
  | error err =>
    refine ⟨{ s with compressedBuf := [] }, rfl, ?_⟩
    simp only [writeBlock, get_bind, hseq, hts, Option.elim_some, ofExcept_ok_bind,
      bind_of_error (compressPayload_of_error hcomp), buildBlock,
      ok_bind, hcomp, error_bind]
    rfl
  | ok compressed =>
    by_cases hlen : s.payloadBuf.length < 2 ^ 32
    · by_cases hclen : compressed.length < 2 ^ 32
      · let ext := BlockHeaderExt.encode ⟨baseSeq, baseTs⟩
        let header := sealHeader x s.config.codec (UInt32.ofNat s.payloadBuf.length)
          (UInt32.ofNat compressed.length) s.recordCount ext
        refine ⟨{ s with
          compressedBuf := compressed
          blockBuf := assembleBlock x s.config.syncMarker header ext
            compressed }, rfl, ?_⟩
        simp only [writeBlock, get_bind, hseq, hts,
          Option.elim_some, ofExcept_ok_bind,
          bind_of_ok (compressPayload_of_ok hcomp), ensure,
          ensure_true hlen, ensure_true hclen,
          bind_of_ok (assemble_eq _ _ _), buildBlock, ok_bind, hcomp]
        rfl
      · refine ⟨{ s with compressedBuf := compressed }, rfl, ?_⟩
        simp only [writeBlock, get_bind, hseq, hts,
          Option.elim_some, ofExcept_ok_bind,
          bind_of_ok (compressPayload_of_ok hcomp), ensure,
          ensure_true hlen, ensure_false hclen, buildBlock, ok_bind, hcomp]
        rfl
    · refine ⟨{ s with compressedBuf := compressed }, rfl, ?_⟩
      simp only [writeBlock, get_bind, hseq, hts,
        Option.elim_some, ofExcept_ok_bind,
        bind_of_ok (compressPayload_of_ok hcomp), ensure,
        ensure_false hlen, buildBlock, ok_bind, hcomp]
      rfl

theorem writeOut_lockstep [Sink W] (config : WriterConfig) (body : Bytes) (s : ScratchWriter W) :
    Lockstep (writeOut config body) s (do
        LogjetWriter.writeInner body
        LogjetWriter.writePadding (LogjetWriter.padding config body.length)
        modify LogjetWriter.resetBlockState) s.toLogjetWriter
      (fun _ s' _ w' => s'.Over w') Over := by
  refine Lockstep.bind ((onWriter_lockstep _ s).mono ?_ ?_)
  · rintro _ s₁ _ w₁ ⟨-, rfl⟩
    refine Lockstep.bind ((onWriter_lockstep _ { s with toLogjetWriter := w₁ }).mono ?_ ?_)
    · rintro _ s₂ _ w₂ ⟨-, rfl⟩
      exact rfl
    · rintro s₂ w₂ rfl
      exact rfl
  · rintro s₁ w₁ rfl
    exact rfl

theorem flushBlock_lockstep [Sink W] (s : ScratchWriter W) :
    Lockstep (flushBlock x) s (LogjetWriter.flushBlock x) s.toLogjetWriter
      (fun _ s' _ w' => s'.Over w') Over := by
  refine Lockstep.get (Lockstep.ite (fun _ => rfl) fun _ => ?_)
  obtain ⟨s₁, hover, hrun⟩ := writeBlock_eq (x := x) s
  refine Lockstep.of_run_eq hrun ?_
  rw [← hover]
  exact Lockstep.bind (Lockstep.ofExcept (fun body _ => writeOut_lockstep s₁.config body s₁) rfl)

theorem encodeInto_of_lt
    (hlen : record.payload.length < 2 ^ 64) (seqDelta tsDelta : UInt64) (s : ScratchWriter W) :
    encodeInto record seqDelta tsDelta s
      = .ok () (pushEncoded (encodeRecord record.recordType seqDelta
          tsDelta record.payload) s) := by
  simp only [encodeInto, modify_bind, ensure,
    ensure_true hlen, ofExcept_ok_bind]
  show EStateM.Result.ok () (pushEncoded _ (pushEncoded _ s)) = _
  simp only [pushEncoded, encodeRecord, append_assoc]

theorem encodeInto_lockstep (seqDelta tsDelta : UInt64) (hbuf : s.encodedRecordBuf = []) :
    Lockstep (encodeInto record seqDelta tsDelta) s (do
        LogjetWriter.ensure (record.payload.length < 2 ^ 64) (.numericOverflow "payload len")
        return encodeRecord record.recordType seqDelta tsDelta record.payload) s.toLogjetWriter
      (fun _ s' encoded w' => s'.Over w' ∧ s'.encodedRecordBuf = encoded
        ∧ record.payload.length < 2 ^ 64) Over := by
  by_cases hlen : record.payload.length < 2 ^ 64
  · refine Lockstep.of_run_eq (f := pure ()) (encodeInto_of_lt hlen seqDelta tsDelta s) ?_
    simp only [LogjetWriter.ensure, ensure_true hlen]
    refine ⟨rfl, ?_, hlen⟩
    simp only [pushEncoded, hbuf, nil_append]
  · unfold Lockstep encodeInto
    simp only [modify_bind, ensure, LogjetWriter.ensure,
      ensure_false hlen, ofExcept_error_bind]
    exact ⟨trivial, rfl⟩

theorem encodeAgainstBase_lockstep [Sink W] (record : OwnedRecord) (s : ScratchWriter W) :
    Lockstep (encodeAgainstBase record) s (LogjetWriter.encodeAgainstBase record) s.toLogjetWriter
      (fun _ s' encoded w' => s'.Over w' ∧ s'.encodedRecordBuf = encoded
        ∧ record.payload.length < 2 ^ 64) Over := by
  refine Lockstep.bind (s := { s with encodedRecordBuf := [] }) ((onWriter_lockstep _ _).mono ?_ ?_)
  · rintro ⟨baseSeq, baseTs⟩ s₁ _ w₁ ⟨rfl, rfl⟩
    refine Lockstep.bind (Lockstep.ensure (fun _ => ?_) rfl)
    refine Lockstep.bind (Lockstep.ensure (fun _ => ?_) rfl)
    exact encodeInto_lockstep _ _ rfl
  · rintro s₁ w₁ rfl
    exact rfl

theorem splitBlock_lockstep [Sink W]
    (hlen : record.payload.length < 2 ^ 64) (s : ScratchWriter W) : Lockstep (splitBlock x record) s
      (LogjetWriter.splitBlock x record s.encodedRecordBuf) s.toLogjetWriter
      (fun _ s' encoded w' => s'.Over w' ∧ s'.encodedRecordBuf = encoded) Over := by
  refine Lockstep.get (Lockstep.bind (Lockstep.ensure (fun _ => ?_) rfl))
  refine Lockstep.ite (fun _ => ?_) fun _ => ⟨rfl, rfl⟩
  refine Lockstep.bind ((flushBlock_lockstep s).mono ?_ fun _ _ h => h)
  rintro _ s₁ _ w₁ rfl
  refine Lockstep.of_run_eq (f := pure ()) (encodeInto_of_lt hlen 0 0 _) ?_
  exact ⟨rfl, rfl⟩

theorem appendEncoded_lockstep [Sink W] (s : ScratchWriter W) : Lockstep appendEncoded s
      (LogjetWriter.appendEncoded s.encodedRecordBuf) s.toLogjetWriter
      (fun _ s' _ w' => s'.Over w') Over := by
  refine Lockstep.modify (Lockstep.get ?_)
  exact Lockstep.bind (Lockstep.ensure (fun _ => rfl) rfl)

theorem push_lockstep [Sink W] (record : OwnedRecord) (s : ScratchWriter W) :
    Lockstep (push x record) s (LogjetWriter.push x record) s.toLogjetWriter
      (fun _ s' _ w' => s'.Over w') Over := by
  refine Lockstep.bind ((encodeAgainstBase_lockstep record s).mono ?_ fun _ _ h => h)
  rintro _ s₁ _ w₁ ⟨rfl, rfl, hlen⟩
  refine Lockstep.bind ((splitBlock_lockstep hlen s₁).mono ?_ fun _ _ h => h)
  rintro _ s₂ _ w₂ ⟨rfl, rfl⟩
  refine Lockstep.bind ((appendEncoded_lockstep s₂).mono ?_ fun _ _ h => h)
  rintro _ s₃ _ w₃ rfl
  exact Lockstep.get (Lockstep.ite (fun _ => flushBlock_lockstep s₃) fun _ => rfl)

theorem call_lockstep [Sink W] (op : WriterOp) (s : ScratchWriter W)
    (w : LogjetWriter W) (h : s.Over w) : Lockstep (call x op) s (LogjetWriter.call x op) w
      (fun _ s' _ w' => s'.Over w') Over := by
  subst h
  cases op with
  | push record => exact push_lockstep record s
  | flushBlock => exact flushBlock_lockstep s

theorem intoInner_eq [Sink W] (s : ScratchWriter W) :
    intoInner x s = LogjetWriter.intoInner x s.toLogjetWriter := by
  have hstep := flushBlock_lockstep (x := x) s
  unfold Lockstep at hstep
  unfold intoInner LogjetWriter.intoInner
  cases hrun : flushBlock x s with
  | ok u s' =>
    cases hrun' : LogjetWriter.flushBlock x s.toLogjetWriter with
    | ok u w' =>
      rw [hrun, hrun'] at hstep
      exact congrArg (fun w => Except.ok w.inner) hstep
    | error err w' => rw [hrun, hrun'] at hstep; exact hstep.elim
  | error err s' =>
    cases hrun' : LogjetWriter.flushBlock x s.toLogjetWriter with
    | ok u w' => rw [hrun, hrun'] at hstep; exact hstep.elim
    | error err' w' =>
      rw [hrun, hrun'] at hstep
      exact congrArg Except.error hstep.1

end ScratchWriter

namespace LogjetWriter

variable {W : Type} {x : External}

theorem call_failedMonotonic [Sink W] (op : WriterOp) (w : LogjetWriter W)
    (h : failedMonotonic (EStateM.result (call x op) w).1 = true) :
    (EStateM.result (call x op) w).2 = w := by
  cases op with
  | push r =>
    have hends := push_failedMonotonic (x := x) r w
    unfold EStateM.result call at h ⊢
    cases hrun : push x r w with
    | ok u w' => simp only [hrun] at h; cases h
    | error err w' =>
      simp only [hrun] at h ⊢
      exact (hends.error hrun h).1
  | flushBlock =>
    have hends := flushBlock_not_failedMonotonic (x := x) w
    unfold EStateM.result call at h
    cases hrun : flushBlock x w with
    | ok u w' => simp only [hrun] at h; cases h
    | error err w' =>
      simp only [hrun] at h
      rw [hends.error hrun] at h
      cases h

end LogjetWriter

/-- Leaving out the rejected pushes changes nothing. -/
theorem rejected_pushes_leave_no_trace (x : External) {W : Type} [Sink W]
    (ops : List WriterOp) (s : ScratchWriter W) :
    let run := EStateM.results (ScratchWriter.call x) ops s
    let kept := run.1.filter fun c => !failedMonotonic c.2
    let rerun := EStateM.results (ScratchWriter.call x)
      (kept.map Prod.fst) s
    rerun.1 = kept
      ∧ ScratchWriter.intoInner x rerun.2
        = ScratchWriter.intoInner x run.2 := by
  intro run kept rerun
  obtain ⟨hrun, hend⟩ := results_lockstep
    (ScratchWriter.call_lockstep (x := x)) ops (rfl : s.Over _)
  obtain ⟨hrerun, hend'⟩ := results_lockstep
    (ScratchWriter.call_lockstep (x := x)) (kept.map Prod.fst)
    (rfl : s.Over _)
  have hfilter := @results_filter _ _ _ (LogjetWriter.call x) (fun r => !failedMonotonic r)
    (fun op w h => LogjetWriter.call_failedMonotonic op w (by simpa using h))
    ops s.toLogjetWriter
  rw [← hrun] at hfilter
  refine ⟨hrerun.trans (congrArg Prod.fst hfilter), ?_⟩
  rw [ScratchWriter.intoInner_eq, ScratchWriter.intoInner_eq]
  congr 1
  exact hend'.trans ((congrArg Prod.snd hfilter).trans hend.symm)

end Logjet
