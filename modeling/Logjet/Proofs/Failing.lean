/-
A writer over a failing sink: what its file reads as (`Accounted`).
-/
import Logjet.Failing
import Logjet.Proofs.Stream

namespace Logjet

open List EStateM

open EStateM (Ends)
open Reference LogjetWriter

variable {x : External} {W : Type} [Sink W] {held : W → Bytes}

theorem Sink.Holds.keeps (h : Sink.Holds held) : Sink.Keeps fun w w' => held w <+: held w' where
  refl w := prefix_refl (held w)
  trans h₁ h₂ := h₁.trans h₂
  write buf w := by
    unfold Ends
    cases hrun : Sink.writeAll buf w with
    | ok u w' => exact ⟨buf, (h.ok hrun).symm⟩
    | error err w' =>
      obtain ⟨n, hn⟩ := h.error hrun
      exact ⟨_, hn.symm⟩

theorem Sink.Holds.writeChunks (h : Sink.Holds held) {chunks : List Bytes}
    {w w' : W} (hrun : Logjet.writeChunks chunks w = .ok () w') :
    held w' = held w ++ chunks.flatten := by
  induction chunks generalizing w with
  | nil =>
    cases hrun
    simp
  | cons chunk chunks ih =>
    obtain ⟨_, w₁, hone, hrest⟩ := bind_eq_ok_iff.mp hrun
    rw [ih hrest, h.ok hone, append_assoc, flatten_cons]

variable {w w' : LogjetWriter W} {records : List OwnedRecord} {base : BlockHeaderExt}
  {r : OwnedRecord} {limits : ReaderConfig}

theorem Sink.Holds.wrote (h : Sink.Holds held)
    {blocks : List (Block x)} (hwrote : w.Wrote w' blocks) :
    held w'.inner = held w.inner ++ blocks.flatMap Block.bytes := by
  rw [h.writeChunks hwrote.inner, chunks_flatten]

theorem WriterOp.run_prefix (h : Sink.Holds held) (op : WriterOp) (w : LogjetWriter W) :
    held w.inner <+: held (op.run x w).2.inner := by
  cases op with
  | push record =>
    have hends := push_keeps (x := x) h.keeps record w
    cases hrun : LogjetWriter.push x record w with
    | ok u w' =>
      simp only [WriterOp.run, hrun]
      exact hends.ok hrun
    | error err w' =>
      simp only [WriterOp.run, hrun]
      exact hends.error hrun
  | flushBlock =>
    have hends := flushBlock_keeps (x := x) h.keeps w
    cases hrun : LogjetWriter.flushBlock x w with
    | ok u w' =>
      simp only [WriterOp.run, hrun]
      exact hends.ok hrun
    | error err w' =>
      simp only [WriterOp.run, hrun]
      exact hends.error hrun

theorem runOps_extends (h : Sink.Holds held) (ops : List WriterOp) (w : LogjetWriter W) :
    held w.inner <+: held (runOps x ops w).2.inner := by
  induction ops generalizing w with
  | nil => exact prefix_refl _
  | cons op ops ih => exact (op.run_prefix h w).trans (ih _)

omit [Sink W] in
theorem LogjetWriter.Pending.withInner (hp : w.Pending records base) (inner : W) :
    LogjetWriter.Pending { w with inner } records base := ⟨hp.based, hp.below, hp.buf, hp.count⟩

theorem flushBlock_fails (w : LogjetWriter W) : Ends (flushBlock x) w (fun _ _ => True)
      fun err w' => (∃ inner, w' = { w with inner })
        ∧ ((∃ e, err = .io e) ∨ w' = w ∧ w.payloadBuf ≠ []
          ∧ ∃ err, buildBlock x w.config w.payloadBuf w.blockBaseSeq
            w.blockBaseTsUnixNs w.recordCount = .error err) := by
  apply Ends.get
  apply Ends.ite
  · intro _
    trivial
  · intro hne
    cases hbuild : buildBlock x w.config w.payloadBuf w.blockBaseSeq
        w.blockBaseTsUnixNs w.recordCount with
    | error e => exact ⟨⟨w.inner, rfl⟩, Or.inr ⟨rfl, by simpa using hne, e, rfl⟩⟩
    | ok body =>
      exact writeBlock_ends (fun _ _ => trivial)
        fun err inner _ => ⟨⟨inner, rfl⟩, Or.inl ⟨err, rfl⟩⟩

theorem splitBlock_fails (w : LogjetWriter W) (r : OwnedRecord) (encoded : Bytes) :
    Ends (splitBlock x r encoded) w (fun _ _ => True)
      fun _ w' => ∃ inner, w' = { w with inner } := by
  apply Ends.get
  refine Ends.bind (Ends.ensure (fun _ => ?_) fun _ => ⟨w.inner, rfl⟩)
  apply Ends.ite
  · intro _
    exact Ends.bind ((flushBlock_fails w).mono (fun _ _ _ => trivial) fun _ _ h => h.1)
  · intro _
    trivial

theorem push_eq_store (r : OwnedRecord) (w : LogjetWriter W) :
    push x r w = (do store x r; flushIfFull x) w := by
  rw [push, store, bind_assoc]
  simp only [bind_assoc]

theorem store_ends (hp : w.Pending records base) (r : OwnedRecord) : Ends (store x r) w
      (fun _ w' => ∃ records' base', w'.Pending records' base' ∧ records' ≠ [])
      fun _ w' => (∃ base', w'.Pending records base' ∧ w'.config = w.config) ∨ w'.Doomed x := by
  obtain ⟨hp', -⟩ := hp.withBase r
  refine Ends.bind ((encodeAgainstBase_ends w r).mono ?_ ?_)
  · intro encoded w₁ ⟨hw₁, hbelow, hencoded⟩
    subst hw₁ hencoded
    refine Ends.bind ?_
    have hends := splitBlock_ends (x := x) hp' rfl hbelow
    have hfails := splitBlock_fails (x := x) (w.withBase (w.baseFor r)) r (r.encode (w.baseFor r))
    unfold Ends
    cases hrun : splitBlock x r (r.encode (w.baseFor r)) (w.withBase (w.baseFor r)) with
    | ok encoded w₂ =>
      obtain ⟨base₂, hbase₂, hbelow₂, rfl, hcase⟩ := hends.ok hrun
      have hp₂ : ∃ records₂, w₂.Pending records₂ base₂ := by
        rcases hcase with ⟨rfl, rfl, -⟩ | ⟨-, -, hp₂, -⟩
        · exact ⟨records, hp'⟩
        · exact ⟨[], hp₂⟩
      obtain ⟨records₂, hp₂⟩ := hp₂
      refine (appendEncoded_ends hp₂ hbase₂ hbelow₂).mono ?_ ?_
      · intro _ w₃ ⟨hp₃, _⟩
        exact ⟨_, _, hp₃, by simp⟩
      · intro _ w₃ ⟨hbased, hlen, _⟩
        exact Or.inr (doomed_of_length hbased hlen)
    | error err w₂ =>
      obtain ⟨inner, rfl⟩ := hfails.error hrun
      exact Or.inl ⟨_, hp'.withInner inner, rfl⟩
  · intro _ w₁ hw₁
    subst hw₁
    exact Or.inl ⟨_, hp', rfl⟩

theorem flushIfFull_fails (hp : w.Pending records base) (hne : records ≠ []) :
    Ends (flushIfFull x) w (fun _ _ => True) fun err w' => (∃ e, err = .io e) ∨ w'.Doomed x := by
  obtain ⟨hseq, hts⟩ := hp.based hne
  refine Ends.get (Ends.ite (fun hfull => ?_) fun _ => trivial)
  refine (flushBlock_fails w).mono (fun _ _ _ => trivial) ?_
  intro err w' ⟨_, hwhy⟩
  rcases hwhy with hio | ⟨rfl, hbuf, herr⟩
  · exact Or.inl hio
  · refine Or.inr ⟨⟨base, ?_⟩, hbuf, herr, Or.inr hfull⟩
    simp only [withBase, ← hseq, ← hts]

theorem push_fails (hp : w.Pending records base)
    (hunkept : ∀ w₁, store x r w = .ok () w₁ → ∀ err w₂, flushIfFull x w₁ ≠ .error (.io err) w₂)
    {err : Error} (hrun : push x r w = .error err w') :
    (∃ base', w'.Pending records base' ∧ w'.config = w.config) ∨ w'.Doomed x := by
  have hends := store_ends (x := x) hp r
  rw [push_eq_store] at hrun
  cases hstore : store x r w with
  | error e w₁ =>
    rw [bind_of_error hstore] at hrun
    cases hrun
    exact hends.error hstore
  | ok u w₁ =>
    rw [bind_of_ok hstore] at hrun
    obtain ⟨records₁, base₁, hp₁, hne⟩ := hends.ok hstore
    rcases (flushIfFull_fails hp₁ hne).error hrun with ⟨e, rfl⟩ | hd
    · exact absurd hrun (hunkept w₁ hstore e w')
    · exact Or.inr hd

def Accounted (x : External) (limits : ReaderConfig) (held : W → Bytes)
    (data : Bytes) (config : WriterConfig) (accepted : List OwnedRecord)
    (w : LogjetWriter W) : Prop :=
  (∃ written records base, w.config = config ∧ w.Pending records base
      ∧ accepted = written ++ records ∧ scanRecords x limits data 0
        = written ++ scanRecords x limits data (held w.inner).length) ∨ w.Doomed x

section Account

variable {limits : ReaderConfig} {data : Bytes} {config : WriterConfig}
  {accepted : List OwnedRecord} {w w' : LogjetWriter W}

variable {blocks : List (Block x)} {records written : List OwnedRecord} {base : BlockHeaderExt}

theorem scanRecords_wrote (hx : x.RoundTrip) (hheld : Sink.Holds held)
    (hm : Syncable limits.syncMarker) (hwrote : w.Wrote w' blocks) (hin : held w'.inner <+: data)
    (hread : ∀ b : Block x, b.config = w.config → b.body <:+: data → b.Readable limits) :
    scanRecords x limits data (held w.inner).length = blocks.flatMap Block.records
        ++ scanRecords x limits data (held w'.inner).length := by
  obtain ⟨post, hpost⟩ := hin
  have hdata : data = held w.inner ++ (blocks.flatMap Block.bytes ++ post) :=
    by rw [← hpost, hheld.wrote hwrote, append_assoc]
  have hall : ∀ b ∈ blocks, b.Readable limits := by
    intro b hb
    refine hread b (hwrote.own b hb) ?_
    have hbytes : b.bytes <:+: blocks.flatMap Block.bytes := by
      exact infix_of_mem_flatten (mem_map_of_mem hb)
    have hblocks : blocks.flatMap Block.bytes <:+: data :=
      ⟨held w.inner, post, by rw [hdata, append_assoc]⟩
    have hbody : b.body <:+: b.bytes := (prefix_append _ _).isInfix
    exact (hbody.trans hbytes).trans hblocks
  rw [(scan_blocks hx hm hall hdata).records, hheld.wrote hwrote, length_append]

theorem scanRecords_torn {p e : Nat} (hle : p ≤ e) (hin : e ≤ data.length)
    (hnone : ∀ q, p ≤ q → q < e → ∀ records e, ¬ ValidBlock x limits data q records e) :
    scanRecords x limits data p = scanRecords x limits data e := by
  refine Greedy.records_skip hle hin fun q h1 h2 => ?_
  cases hb : blockAt x limits data q with
  | none => rfl
  | some be => exact absurd (blockAt_eq_some_iff.mp hb) (hnone q h1 h2 _ _)

theorem Accounted.extend (hx : x.RoundTrip) (hheld : Sink.Holds held)
    (hm : Syncable limits.syncMarker) (hconfig : w.config = config)
    (hscan : scanRecords x limits data 0
      = written ++ scanRecords x limits data (held w.inner).length)
    (hwrote : w.Wrote w' blocks) (hp : w'.Pending records base) (hacc : accepted
      = written ++ (blocks.flatMap Block.records ++ records)) (hin : held w'.inner <+: data)
    (hread : ∀ b : Block x, b.config = config → b.body <:+: data → b.Readable limits) :
    Accounted x limits held data config accepted w' := by
  refine Or.inl ⟨written ++ blocks.flatMap Block.records, records, base,
    hwrote.config.trans hconfig, hp, ?_, ?_⟩
  · rw [hacc, append_assoc]
  · rw [hscan, scanRecords_wrote hx hheld hm hwrote hin
      (fun b hb => hread b (hb.trans hconfig)), append_assoc]

omit [Sink W] in
theorem Accounted.skip (hconfig : w'.config = config) (hscan : scanRecords x limits data 0
      = written ++ scanRecords x limits data (held w.inner).length)
    (hp : w'.Pending records base) (hacc : accepted = written ++ records)
    (hgrow : held w.inner <+: held w'.inner) (hin : held w'.inner <+: data)
    (hnone : ∀ q, (held w.inner).length ≤ q → q < (held w'.inner).length →
      ∀ records e, ¬ ValidBlock x limits data q records e) :
    Accounted x limits held data config accepted w' :=
  Or.inl ⟨written, records, base, hconfig, hp, hacc, by
    rw [hscan, scanRecords_torn hgrow.length_le hin.length_le hnone]⟩

variable (hx : x.RoundTrip) (hheld : Sink.Holds held) (hm : Syncable limits.syncMarker)
  (hread : ∀ b : Block x, b.config = config → b.body <:+: data → b.Readable limits)
  (h : Accounted x limits held data config accepted w)

include hx hheld hm hread h

theorem Accounted.step {op : WriterOp} (hop : Contained x limits held data op w)
    (hin : held (op.run x w).2.inner <+: data) :
    Accounted x limits held data config (accepted ++ (op.run x w).1) (op.run x w).2 := by
  have hgrow := op.run_prefix (x := x) hheld w
  rcases h with ⟨written, records, base, hconfig, hp, rfl, hscan⟩ | hd
  · cases op with
    | push r =>
      have hends := push_ends (x := x) hp r
      cases hrun : push x r w with
      | ok u w' =>
        simp only [WriterOp.run, hrun] at hin ⊢
        obtain ⟨blocks, records', base', hwrote, hp', hsplit, -⟩ := hends.ok hrun
        exact Accounted.extend hx hheld hm hconfig hscan hwrote hp'
          (by rw [append_assoc, hsplit]) hin hread
      | error err w' =>
        have hnone := hop.torn ⟨err, w', hrun⟩
        simp only [WriterOp.run, hrun, append_nil] at hin hgrow hnone ⊢
        rcases push_fails hp (hop.unkept r · rfl) hrun with
          ⟨base', hp', hconf⟩ | hd
        · exact Accounted.skip (hconf.trans hconfig) hscan hp' rfl hgrow hin hnone
        · exact Or.inr hd
    | flushBlock =>
      have hends := flushBlock_ends (x := x) hp
      cases hrun : flushBlock x w with
      | ok u w' =>
        simp only [WriterOp.run, hrun, append_nil] at hin ⊢
        rcases hends.ok hrun with
          ⟨rfl, rfl⟩ | ⟨-, hempty, -, b, rfl, -, hwrote⟩
        · exact Or.inl ⟨written, [], base, hconfig, hp, rfl, hscan⟩
        · exact Accounted.extend hx hheld hm hconfig hscan hwrote hempty (by simp) hin hread
      | error err w' =>
        have hnone := hop.torn ⟨err, w', hrun⟩
        simp only [WriterOp.run, hrun, append_nil] at hin hgrow hnone ⊢
        obtain ⟨⟨inner, rfl⟩, -⟩ := (flushBlock_fails w).error hrun
        exact Accounted.skip hconfig hscan (hp.withInner inner) rfl hgrow hin hnone
  · exact Or.inr (hd.run op).1

theorem Accounted.run {ops : List WriterOp}
    (hops : ∀ c ∈ calls x ops w, Contained x limits held data c.1 c.2)
    (hin : held (runOps x ops w).2.inner <+: data) :
    Accounted x limits held data config (accepted ++ (runOps x ops w).1) (runOps x ops w).2 := by
  induction ops generalizing accepted w with
  | nil => simpa [runOps] using h
  | cons op ops ih =>
    have hfirst := (runOps_extends hheld ops (op.run x w).2).trans hin
    have hrest := ih (h.step hx hheld hm hread (hops _ mem_cons_self) hfirst)
      (fun c hc => hops c (mem_cons_of_mem _ hc)) hin
    rw [append_assoc] at hrest
    exact hrest

theorem Accounted.flushed (hrun : flushBlock x w = .ok () w') (hdata : data = held w'.inner) :
    scanRecords x limits data 0 = accepted := by
  have hend : scanRecords x limits data (held w'.inner).length = [] :=
    Greedy.records_end (by rw [hdata])
  rcases h with ⟨written, records, base, hconfig, hp, rfl, hscan⟩ | hd
  · rcases (flushBlock_ends (x := x) hp).ok hrun with
      ⟨rfl, rfl⟩ | ⟨-, -, -, b, rfl, -, hwrote⟩
    · rw [hscan, hend]
    · rw [hscan, scanRecords_wrote hx hheld hm hwrote (hdata ▸ prefix_refl _)
        (fun b hb => hread b (hb.trans hconfig)), hend]
      simp
  · obtain ⟨err, herr⟩ := hd.unbuildable
    rw [flushBlock_of_error hd.nonempty herr] at hrun
    cases hrun

end Account

/-- If failed calls stay `Contained`, what was accepted is read back. -/
theorem failing_sink_reads_accepted (x : External) (hx : x.RoundTrip)
    {W : Type} [Sink W] (held : W → Bytes) (hheld : Sink.Holds held)
    (config : WriterConfig) (hwriter : config.syncMarker = defaultSyncMarker)
    (inner : W) (hnew : held inner = []) (ops : List WriterOp) (w' : LogjetWriter W)
    (hflush : flushBlock x (runOps x ops (.withConfig inner config)).2 = .ok () w')
    (limits : ReaderConfig) (hreader : limits.syncMarker = defaultSyncMarker)
    (hlimits : ∀ b : Block x, b.config = config →
      b.body <:+: held w'.inner → WithinLimits limits b.body)
    (hfit : CountersFit x limits (held w'.inner))
    (hops : ∀ c ∈ calls x ops (.withConfig inner config),
      Contained x limits held (held w'.inner) c.1 c.2) :
    ∃ r', Yields x (LogjetReader.withConfig (held w'.inner) limits)
      (runOps x ops (.withConfig inner config)).1 r' := by
  have hm : Syncable limits.syncMarker := hreader ▸ defaultSyncMarker_syncable
  have hread : ∀ b : Block x, b.config = config →
      b.body <:+: held w'.inner → b.Readable limits := fun b hb hin =>
    ⟨by rw [hb, hwriter, hreader], hlimits b hb hin⟩
  have hstart : Accounted x limits held (held w'.inner) config [] (.withConfig inner config) :=
    Or.inl ⟨[], [], ⟨0, 0⟩, rfl, ⟨nofun, nofun, rfl, rfl⟩, rfl, by
      show _ = scanRecords x limits _ (held inner).length
      rw [hnew]
      rfl⟩
  have hlast := (flushBlock_keeps (x := x) hheld.keeps _).ok hflush
  have hacc := hstart.run hx hheld hm hread hops hlast
  obtain ⟨r', hy, -⟩ := yields_scanRecords hm hfit
  rw [hacc.flushed hx hheld hm hread hflush rfl, nil_append] at hy
  exact ⟨r', hy⟩

def tornOps : List WriterOp := [.push ⟨.logs, 5, 9, [1, 2]⟩, .flushBlock, .push ⟨.logs, 6, 9, [3]⟩]

def outOfSpace : IoError := ⟨.other, "no space left on device"⟩

def plainConfig : WriterConfig := { WriterConfig.default with codec := .none }

def tornWriter : LogjetWriter FailingSink := .withConfig ⟨[], [some (30, outOfSpace)]⟩ plainConfig

def tornBytes : Bytes :=
  match flushBlock external (runOps external tornOps tornWriter).2 with
  | .ok _ w' => w'.inner.bytes
  | .error _ _ => []

theorem withinLimits_of_length {b : Block x}
    (hcodec : b.config.codec = .none) (hc : b.body.length ≤ limits.maxCompressedLen)
    (hu : b.body.length ≤ limits.maxUncompressedLen) : WithinLimits limits b.body := by
  obtain ⟨compressed, hstored, hulen, hclen, hbody⟩ := b.exists_layout
  rw [hcodec] at hstored
  cases hstored
  have hlen : (encodeRecords b.base b.records).length ≤ b.body.length := by
    rw [hbody, assembleBlock_length]
    omega
  have hheader := @headerOf_assembleBlock x b.config.syncMarker (sealHeader x b.config.codec
      (UInt32.ofNat (encodeRecords b.base b.records).length)
      (UInt32.ofNat (encodeRecords b.base b.records).length)
      (UInt32.ofNat b.records.length) b.base.encode) b.base (encodeRecords b.base b.records) rfl
  rw [← hbody] at hheader
  intro header hmem
  rw [hheader] at hmem
  cases hmem
  show (UInt32.ofNat _).toNat ≤ _ ∧ (UInt32.ofNat _).toNat ≤ _
  rw [UInt32.toNat_ofNat_of_lt' hulen]
  omega

theorem contained_of_ok {data : Bytes} {op : WriterOp} (h : ¬ op.Fails x w) :
    Contained x limits held data op w := by
  refine ⟨fun hf => absurd hf h, ?_⟩
  intro record w₁ hop hstore err w₂ hflush
  subst hop
  refine h ⟨.io err, w₂, ?_⟩
  show push x record w = _
  rw [push_eq_store, bind_of_ok hstore, hflush]

theorem not_fails_push
    (h : (push x r).okAnd w fun _ _ => true) : ¬ WriterOp.Fails x (.push r) w := by
  obtain ⟨u, w', hok, -⟩ := okAnd_eq_true.mp h
  intro ⟨err, w'', herr⟩
  rw [show push x r w = _ from herr] at hok
  cases hok

theorem failing_sink_reads_accepted_torn :
    (runOps external tornOps tornWriter).2.inner.bytes.length = 30
      ∧ (runOps external tornOps tornWriter).1.length = 2
      ∧ ∃ r', Yields external (LogjetReader.withConfig tornBytes .default)
        (runOps external tornOps tornWriter).1 r' := by
  obtain ⟨u, w', hflush, hbytes⟩ : ∃ u w', flushBlock external
      (runOps external tornOps tornWriter).2 = .ok u w'
        ∧ decide (w'.inner.bytes = tornBytes) = true := okAnd_eq_true.mp (by decide +kernel)
  have hbytes : w'.inner.bytes = tornBytes := of_decide_eq_true hbytes
  have hlen : tornBytes.length ≤ 100 := by decide +kernel
  have hyields := failing_sink_reads_accepted external external_roundTrip
    FailingSink.bytes FailingSink.holds plainConfig rfl
    ⟨[], [some (30, outOfSpace)]⟩ rfl tornOps w' hflush .default rfl
  rw [hbytes] at hyields
  refine ⟨by decide +kernel, by decide +kernel, hyields ?_ ?_ ?_⟩
  · intro b hb hin
    have hle := hin.length_le.trans hlen
    exact withinLimits_of_length (by rw [hb]; rfl) (hle.trans (by decide)) (hle.trans (by decide))
  · decide +kernel
  · intro c hc
    have hnone : ∀ q < 30, blockAt external .default tornBytes q = none := by decide +kernel
    rcases mem_cons.mp hc with rfl | hc
    · exact contained_of_ok (not_fails_push (by decide +kernel))
    rcases mem_cons.mp hc with rfl | hc
    · refine ⟨fun _ q _ hq records e hvalid => ?_, nofun⟩
      rw [← blockAt_eq_some_iff, hnone q (hq.trans_le (by decide +kernel))] at hvalid
      cases hvalid
    rcases mem_cons.mp hc with rfl | hc
    · exact contained_of_ok (not_fails_push (by decide +kernel))
    · cases hc

def paddingWriter : LogjetWriter FailingSink :=
  .withConfig ⟨[], [none, some (0, outOfSpace)]⟩ sampleConfig

def eagerWriter : LogjetWriter FailingSink :=
  .withConfig ⟨[], [some (0, outOfSpace)]⟩
    { plainConfig with blockTargetSize := 1 }

theorem flushed_reads_otherwise {w : LogjetWriter FailingSink}
    (h : (flushBlock external).okAnd w (fun _ w' => decide
      (CountersFit external .default w'.inner.bytes
        ∧ scanRecords external .default w'.inner.bytes 0 ≠ records))) :
    ∃ w', flushBlock external w = .ok () w' ∧ ¬ ∃ r', Yields external
        (LogjetReader.withConfig w'.inner.bytes .default) records r' := by
  obtain ⟨u, w', hok, hread⟩ := okAnd_eq_true.mp h
  obtain ⟨hfit, hne⟩ := of_decide_eq_true hread
  refine ⟨w', hok, ?_⟩
  intro ⟨r', hy⟩
  obtain ⟨r'', hscan, -⟩ := yields_scanRecords defaultSyncMarker_syncable hfit
  exact hne (hscan.eq hy)

theorem failed_call_shows : ((runOps external [.push ⟨.logs, 5, 9, [1]⟩, .flushBlock]
          paddingWriter).1 = [⟨.logs, 5, 9, [1]⟩] ∧ ∃ w', flushBlock external (runOps external
          [.push ⟨.logs, 5, 9, [1]⟩, .flushBlock] paddingWriter).2 = .ok () w'
        ∧ ¬ ∃ r', Yields external (LogjetReader.withConfig w'.inner.bytes .default)
          [⟨.logs, 5, 9, [1]⟩] r') ∧ (runOps external [.push ⟨.logs, 5, 9, [1]⟩] eagerWriter).1 = []
      ∧ ∃ w', flushBlock external (runOps external
          [.push ⟨.logs, 5, 9, [1]⟩] eagerWriter).2 = .ok () w' ∧ ¬ ∃ r', Yields external
          (LogjetReader.withConfig w'.inner.bytes .default) [] r' := by
  refine ⟨⟨?_, ?_⟩, ?_, ?_⟩
  · decide +kernel
  · exact flushed_reads_otherwise (by decide +kernel)
  · decide +kernel
  · exact flushed_reads_otherwise (by decide +kernel)

end Logjet
