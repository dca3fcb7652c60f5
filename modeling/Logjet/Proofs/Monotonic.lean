/-
The two monotonicity checks of `push`, among its other failures. A push that
fails one of them has changed nothing (`push_failedMonotonic`).
-/
import Logjet.Proofs.Writer

namespace Logjet

open Except

open EStateM (Ends)

namespace LogjetWriter

variable {W : Type} {x : External}

theorem withBase_of_not_below {w : LogjetWriter W} {r : OwnedRecord}
    (h : ¬ (w.baseFor r).Below r) : w.withBase (w.baseFor r) = w := by
  obtain ⟨inner, config, buf, baseSeq, baseTs, count⟩ := w
  cases baseSeq with
  | none => exact absurd ⟨UInt64.le_refl _, UInt64.le_refl _⟩ h
  | some baseSeq =>
    cases baseTs with
    | none => exact absurd ⟨UInt64.le_refl _, UInt64.le_refl _⟩ h
    | some baseTs => rfl

theorem compress_not_failedMonotonic {codec : Codec} {payload : Bytes}
    {err : Error} (h : codec.compress x payload = .error err) :
    failedMonotonic (.error err) = false := by
  cases codec with
  | none => cases h
  | lz4 => cases h
  | zstd =>
    unfold Codec.compress at h
    cases hzstd : x.zstdCompress payload with
    | ok compressed => rw [hzstd] at h; cases h
    | error msg => rw [hzstd] at h; cases h; rfl

theorem buildBlock_not_failedMonotonic {config : WriterConfig}
    {payload : Bytes} {baseSeq baseTs : Option UInt64} {count : UInt32}
    {err : Error} (h : buildBlock x config payload baseSeq baseTs count
      = .error err) : failedMonotonic (.error err) = false := by
  unfold buildBlock at h
  cases baseSeq with
  | none => cases h; decide
  | some baseSeq =>
  cases baseTs with
  | none => cases h; decide
  | some baseTs =>
  cases hcomp : config.codec.compress x payload with
  | error err =>
    simp only [Option.elim_some, ok_bind, hcomp] at h
    cases h
    exact compress_not_failedMonotonic hcomp
  | ok compressed =>
    simp only [Option.elim_some, ok_bind, hcomp] at h
    by_cases hlen : payload.length < 2 ^ 32
    · by_cases hclen : compressed.length < 2 ^ 32
      · rw [ensure_true hlen, ensure_true hclen] at h
        cases h
      · rw [ensure_true hlen, ensure_false hclen] at h
        cases h
        rfl
    · rw [ensure_false hlen] at h
      cases h
      rfl

theorem flushBlock_not_failedMonotonic [Sink W] (w : LogjetWriter W) :
    Ends (flushBlock x) w (fun _ _ => True) fun err _ => failedMonotonic (.error err) = false := by
  refine Ends.get (Ends.ite (fun _ => trivial) fun _ => ?_)
  cases hbuild : buildBlock x w.config w.payloadBuf w.blockBaseSeq
      w.blockBaseTsUnixNs w.recordCount with
  | error err => exact buildBlock_not_failedMonotonic hbuild
  | ok body => exact writeBlock_ends (fun _ _ => trivial) fun _ _ _ => rfl

theorem push_failedMonotonic [Sink W] (r : OwnedRecord) (w : LogjetWriter W) :
    Ends (push x r) w (fun _ _ => True) fun err w' => failedMonotonic (.error err) = true →
        w' = w ∧ ¬ (w.baseFor r).Below r := by
  have hflush (w₁ : LogjetWriter W) : Ends (flushBlock x) w₁ (fun _ _ => True)
      fun err w' => failedMonotonic (.error err) = true → w' = w ∧ ¬ (w.baseFor r).Below r := by
    refine (flushBlock_not_failedMonotonic w₁).mono (fun _ _ h => h) ?_
    intro err w' hother hmono
    rw [hother] at hmono
    cases hmono
  refine Ends.bind ?_
  refine Ends.bind ?_
  rw [Ends, takeBase_eq]
  have hrefused (h : ¬ (w.baseFor r).Below r) :
      w.withBase (w.baseFor r) = w ∧ ¬ (w.baseFor r).Below r := ⟨withBase_of_not_below h, h⟩
  refine Ends.bind (Ends.ensure (fun _ => ?_) fun hseq _ => hrefused fun h => hseq h.1)
  refine Ends.bind (Ends.ensure (fun _ => ?_) fun hts _ => hrefused fun h => hts h.2)
  refine Ends.bind (Ends.ensure (fun _ => ?_) fun _ h => absurd h Bool.false_ne_true)
  refine Ends.bind (Ends.get (Ends.bind (Ends.ensure (fun _ => ?_) ?_)))
  swap
  · exact fun _ h => absurd h Bool.false_ne_true
  have hstore (encoded : Bytes) (w₁ : LogjetWriter W) :
      Ends (do appendEncoded encoded; flushIfFull x) w₁ (fun _ _ => True)
        fun err w' => failedMonotonic (.error err) = true → w' = w ∧ ¬ (w.baseFor r).Below r := by
    refine Ends.bind (Ends.modify (Ends.get (Ends.bind (Ends.ensure (fun _ => ?_) ?_))))
    · exact Ends.get (Ends.ite (fun _ => hflush _) fun _ => trivial)
    · exact fun _ h => absurd h Bool.false_ne_true
  refine Ends.ite (fun _ => ?_) fun _ => hstore _ _
  refine Ends.bind ((hflush _).mono (fun _ w₂ _ => ?_) fun _ _ h => h)
  exact hstore _ _

end LogjetWriter

end Logjet
