/-
The shape of what the writer leaves in the file: how much goes into one block,
how much stays in the buffer, and where blocks start (`Shaped`).
-/
import Logjet.Proofs.Layout

namespace Logjet

open List

open EStateM (Ends)

variable {x : External} {config : WriterConfig}

theorem Block.alignment_dvd (b : Block x) (halign : 0 < b.config.blockAlignment) :
    b.config.blockAlignment ∣ b.bytes.length := by
  have hmod := Nat.mod_add_div b.body.length b.config.blockAlignment
  have hlt := Nat.mod_lt b.body.length halign
  unfold Block.bytes LogjetWriter.padding
  simp only [halign, if_true, length_append]
  by_cases hrem : b.body.length % b.config.blockAlignment > 0
  · refine ⟨b.body.length / b.config.blockAlignment + 1, ?_⟩
    rw [if_pos hrem, length_replicate, Nat.mul_add, Nat.mul_one]
    omega
  · rw [if_neg hrem, length_nil, Nat.add_zero]
    exact Nat.dvd_of_mod_eq_zero (by omega)

theorem alignment_dvd_blocks {blocks : List (Block x)} (halign : 0 < config.blockAlignment)
    (hown : ∀ b ∈ blocks, b.config = config) :
    config.blockAlignment ∣ (blocks.flatMap Block.bytes).length := by
  induction blocks with
  | nil => exact Nat.dvd_zero _
  | cons b blocks ih =>
    obtain ⟨rfl, hown⟩ := forall_mem_cons.mp hown
    rw [flatMap_cons, length_append]
    exact Nat.dvd_add (b.alignment_dvd halign) (ih hown)

theorem Block.headerOf_payload (b : Block x) : ∃ header, headerOf b.body = some header
      ∧ header.uncompressedLen.toNat = (encodeRecords b.base b.records).length
      ∧ header.recordCount.toNat = b.records.length := by
  obtain ⟨compressed, -, hlen, -, hbody⟩ := b.exists_layout
  have hcount : b.records.length < UInt32.size := by
    have hbytes := encodeRecords_length b.base b.records
    show _ < 2 ^ 32
    omega
  refine ⟨_, by rw [hbody]; exact headerOf_assembleBlock rfl, ?_, ?_⟩
  · show (UInt32.ofNat _).toNat = _
    exact UInt32.toNat_ofNat_of_lt' hlen
  · show (UInt32.ofNat _).toNat = _
    exact UInt32.toNat_ofNat_of_lt' hcount

namespace LogjetWriter

section Pending

variable {W : Type} [Sink W]

theorem flushBlock_empties (w : LogjetWriter W) :
    Ends (flushBlock x) w (fun _ w' => w'.payloadBuf = []) fun _ _ => True := by
  refine Ends.get (Ends.ite (fun hempty => ?_) fun _ => ?_)
  · exact isEmpty_iff.mp hempty
  · cases buildBlock x w.config w.payloadBuf w.blockBaseSeq w.blockBaseTsUnixNs w.recordCount with
    | error err => trivial
    | ok body => exact writeBlock_ends (fun _ _ => rfl) fun _ _ _ => trivial

theorem push_pendingBytes (w : LogjetWriter W) (r : OwnedRecord) : Ends (push x r) w
      (fun _ w' => 0 < w'.config.blockTargetSize → w'.pendingBytes < w'.config.blockTargetSize)
      fun _ _ => True := by
  refine Ends.bind (Ends.of_forall (fun encoded w₁ => ?_) fun _ _ => trivial)
  refine Ends.bind (Ends.of_forall (fun encoded w₂ => ?_) fun _ _ => trivial)
  refine Ends.bind (Ends.of_forall (fun _ w₃ => ?_) fun _ _ => trivial)
  refine Ends.get (Ends.ite (fun _ => ?_) fun hfull _ => ?_)
  · refine (flushBlock_empties w₃).mono ?_ fun _ _ h => h
    intro _ w' hempty htarget
    rw [pendingBytes, hempty]
    exact htarget
  · exact Nat.not_le.mp hfull

end Pending

def Shaped (x : External) (config : WriterConfig) (w : LogjetWriter (List Bytes)) : Prop :=
  w.config = config ∧ ∃ blocks : List (Block x), w.inner = blocks.flatMap Block.chunks
      ∧ (∀ b ∈ blocks, b.config = config ∧ b.Fits)
      ∧ ((∃ records base, w.Pending records base ∧ w.Fits records) ∨ w.Doomed x)

theorem shaped_inMemory (config : WriterConfig) : Shaped x config (inMemory config) :=
  ⟨rfl, [], rfl, nofun, Or.inl ⟨[], ⟨0, 0⟩, ⟨nofun, nofun, rfl, rfl⟩, nofun⟩⟩

variable {w w' : LogjetWriter (List Bytes)}

theorem Shaped.extend (h : Shaped x config w) {blocks : List (Block x)}
    (hwrote : w.Wrote w' blocks) (hfits : ∀ b ∈ blocks, b.Fits)
    (hrest : (∃ records base, w'.Pending records base ∧ w'.Fits records)
      ∨ w'.Doomed x) : Shaped x config w' := by
  obtain ⟨hconfig, written, hinner, hown, -⟩ := h
  have hw := hwrote.inner
  rw [writeChunks_memory, hinner, EStateM.Result.ok.injEq] at hw
  refine ⟨hwrote.config.trans hconfig, written ++ blocks, ?_, ?_, hrest⟩
  · rw [flatMap_append]
    exact hw.2.symm
  · intro b hb
    rcases mem_append.mp hb with hb | hb
    · exact hown b hb
    · exact ⟨(hwrote.own b hb).trans hconfig, hfits b hb⟩

theorem Shaped.push (h : Shaped x config w) {records : List OwnedRecord} {base : BlockHeaderExt}
    (hp : w.Pending records base) (hf : w.Fits records) (r : OwnedRecord) :
    Ends (push x r) w (fun _ w' => Shaped x config w') fun _ w' => Shaped x config w' := by
  refine (push_ends (x := x) hp r).mono ?_ ?_
  · rintro _ w' ⟨blocks, records', base', hwrote, hp', -, -, hfits⟩
    obtain ⟨hf', hblocks⟩ := hfits hf
    exact h.extend hwrote hblocks (Or.inl ⟨records', base', hp', hf'⟩)
  · rintro _ w' (⟨base', hp', hinner, hconfig, hbuf⟩
      | ⟨hd, blocks, hwrote, hfits⟩ | hfallible)
    · have hwrote : w.Wrote w' ([] : List (Block x)) := ⟨hconfig, nofun, hinner ▸ rfl⟩
      refine h.extend hwrote (forall_mem_nil _)
        (Or.inl ⟨records, base', hp', ?_⟩)
      rw [Fits, hbuf, hconfig]
      exact hf
    · exact h.extend hwrote (hfits hf) (Or.inr hd)
    · exact absurd hfallible not_fallible_memory

theorem Shaped.flushBlock (h : Shaped x config w)
    {records : List OwnedRecord} {base : BlockHeaderExt}
    (hp : w.Pending records base) (hf : w.Fits records) :
    Ends (flushBlock x) w (fun _ w' => Shaped x config w') fun _ w' => Shaped x config w' := by
  refine (flushBlock_ends (x := x) hp).mono ?_ ?_
  · rintro _ w' (⟨-, rfl⟩ | ⟨hne, hempty, -, b, hrecords, hbase, hwrote⟩)
    · exact h
    · refine h.extend hwrote (forall_mem_singleton.mpr ?_) (Or.inl ⟨[], base, hempty, nofun⟩)
      exact hf.block hp hne hrecords hbase (hwrote.own b (mem_singleton_self b))
  · rintro _ w' (⟨rfl, -⟩ | hfallible)
    · exact h
    · exact absurd hfallible not_fallible_memory

theorem Shaped.step (h : Shaped x config w) (op : WriterOp) : Shaped x config (op.run x w).2 := by
  obtain ⟨-, -, -, -, ⟨records, base, hp, hf⟩ | hd⟩ := id h
  · cases op with
    | push r =>
      have hends := h.push hp hf r
      cases hrun : LogjetWriter.push x r w with
      | ok u w' =>
        simp only [WriterOp.run, hrun]
        exact hends.ok hrun
      | error err w' =>
        simp only [WriterOp.run, hrun]
        exact hends.error hrun
    | flushBlock =>
      have hends := h.flushBlock hp hf
      cases hrun : LogjetWriter.flushBlock x w with
      | ok u w' =>
        simp only [WriterOp.run, hrun]
        exact hends.ok hrun
      | error err w' =>
        simp only [WriterOp.run, hrun]
        exact hends.error hrun
  · obtain ⟨hd', hwrote⟩ := hd.run op
    exact h.extend hwrote (forall_mem_nil _) (Or.inr hd')

theorem Shaped.run (h : Shaped x config w) (ops : List WriterOp) :
    Shaped x config (runOps x ops w).2 := by
  induction ops generalizing w with
  | nil => exact h
  | cons op ops ih => exact ih (h.step op)

end LogjetWriter

/-- The shape of every block the writer cuts. -/
theorem writer_block_shape (x : External) (config : WriterConfig) (ops : List WriterOp) :
    ∃ blocks : List (Block x), (runOps x ops (LogjetWriter.inMemory config)).2.inner
        = blocks.flatMap Block.chunks ∧ (∀ b ∈ blocks, ∃ header, headerOf b.body = some header
        ∧ header.recordCount.toNat = b.records.length ∧ (b.records.length = 1
          ∨ header.uncompressedLen.toNat ≤ config.blockTargetSize))
      ∧ (∀ record w', LogjetWriter.push x record
            (runOps x ops (LogjetWriter.inMemory config)).2 = .ok () w' →
          0 < config.blockTargetSize → w'.pendingBytes < config.blockTargetSize)
      ∧ (0 < config.blockAlignment → ∀ before b after,
          blocks = before ++ b :: after → config.blockAlignment
            ∣ (before.flatMap Block.chunks).flatten.length) := by
  have hshape := (LogjetWriter.shaped_inMemory (x := x) config).run ops
  obtain ⟨-, blocks, hinner, hown, -⟩ := id hshape
  refine ⟨blocks, hinner, ?_, ?_, ?_⟩
  · intro b hb
    obtain ⟨header, hheader, hlen, hcount⟩ := b.headerOf_payload
    obtain ⟨rfl, hfits⟩ := hown b hb
    refine ⟨header, hheader, hcount, ?_⟩
    have hpos := length_pos_iff.mpr hfits.nonempty
    by_cases hone : b.records.length = 1
    · exact Or.inl hone
    · rw [hlen]
      exact Or.inr (hfits.target (by omega))
  · intro record w' hrun htarget
    obtain ⟨hconfig, -⟩ := hshape.step (.push record)
    simp only [WriterOp.run, hrun] at hconfig
    rw [← hconfig] at htarget ⊢
    exact (LogjetWriter.push_pendingBytes _ record).ok hrun htarget
  · rintro halign before b after rfl
    rw [chunks_flatten]
    exact alignment_dvd_blocks halign fun b' hb' => (hown b' (mem_append_left _ hb')).1

end Logjet
