/-
The blocks that can be cut from a sequence of records (`Block.Neat`): `push`
refuses only records below the base of the open block (`pushAll_ok_iff`).
-/
import Logjet.Proofs.Layout

namespace Logjet

open List

open EStateM (Ends)

variable {x : External}

def Cuttable (x : External) (config : WriterConfig) (records : List OwnedRecord) : Prop :=
  ∀ b : Block x, b.Neat → b.config = config → b.records <:+: records → b.Readable .default

theorem cuttable_nil (config : WriterConfig) : Cuttable x config [] :=
  fun _ hneat _ hb => absurd (infix_nil.mp hb) hneat.nonempty

variable {config : WriterConfig} {records records' : List OwnedRecord}

theorem cuttable_of_each (hmarker : config.syncMarker = defaultSyncMarker)
    (htarget : config.blockTargetSize ≤ defaultMaxBlockSize)
    (hsmall : ∀ input output, input.length ≤ config.blockTargetSize →
      config.codec.compress x input = .ok output → output.length ≤ defaultMaxBlockSize)
    (hrecords : ∀ r ∈ records, (r.encode r.ownBase).length ≤ defaultMaxBlockSize
        ∧ ∀ output, config.codec.compress x (r.encode r.ownBase) = .ok output →
          output.length ≤ defaultMaxBlockSize) : Cuttable x config records := by
  intro b hneat rfl hb
  refine ⟨hmarker.symm, ?_⟩
  have hlen : (encodeRecords b.base b.records).length ≤ defaultMaxBlockSize
      ∧ ∀ output, b.config.codec.compress x (encodeRecords b.base b.records)
          = .ok output → output.length ≤ defaultMaxBlockSize := by
    by_cases htwo : 2 ≤ b.records.length
    · exact ⟨Nat.le_trans (hneat.target htwo) htarget,
        fun output => hsmall _ output (hneat.target htwo)⟩
    · have hne := length_pos_iff.mpr hneat.nonempty
      obtain ⟨r, hr⟩ := length_eq_one_iff.mp (show b.records.length = 1 by omega)
      have hfirst : b.base = r.ownBase := hneat.first r (by rw [hr]; rfl)
      rw [hr, hfirst, encodeRecords, flatMap_singleton]
      exact hrecords r (hb.subset (by rw [hr]; simp))
  obtain ⟨compressed, hok, hu, hc, hbody⟩ := b.exists_layout
  intro header hheader
  rw [hbody, headerOf_assembleBlock rfl] at hheader
  cases hheader
  refine ⟨?_, ?_⟩
  · show (UInt32.ofNat compressed.length).toNat ≤ _
    rw [UInt32.toNat_ofNat_of_lt' hc]
    exact hlen.2 _ hok
  · show (UInt32.ofNat _).toNat ≤ _
    rw [UInt32.toNat_ofNat_of_lt' hu]
    exact hlen.1

theorem cuttable_of_length (hmarker : config.syncMarker = defaultSyncMarker)
    (htarget : config.blockTargetSize ≤ defaultMaxBlockSize)
    (hcompress : ∀ input output, input.length ≤ defaultMaxBlockSize →
      config.codec.compress x input = .ok output → output.length ≤ defaultMaxBlockSize)
    (hrecords : ∀ r ∈ records, (r.encode r.ownBase).length ≤ defaultMaxBlockSize) :
    Cuttable x config records :=
  cuttable_of_each hmarker htarget
    (fun input output hlen => hcompress input output (Nat.le_trans hlen htarget))
    fun r hr => ⟨hrecords r hr, fun output => hcompress _ output (hrecords r hr)⟩

theorem Cuttable.mono (h : Cuttable x config records)
    (hwithin : records' <:+: records) : Cuttable x config records' :=
  fun b hneat hconfig hb => h b hneat hconfig (hb.trans hwithin)

def Buildable (x : External) (config : WriterConfig) (records : List OwnedRecord) : Prop :=
  ∀ (run : List OwnedRecord) (r : OwnedRecord), run <:+: records →
    run.head? = some r → (∀ r' ∈ run, r.ownBase.Below r') → (2 ≤ run.length →
      (encodeRecords r.ownBase run).length ≤ config.blockTargetSize) →
    ∃ body, buildBlock x config (encodeRecords r.ownBase run) (some r.seq)
      (some r.tsUnixNs) (UInt32.ofNat run.length) = .ok body

theorem Buildable.mono (h : Buildable x config records)
    (hwithin : records' <:+: records) : Buildable x config records' :=
  fun run r hrun => h run r (hrun.trans hwithin)

theorem Buildable.block {config : WriterConfig} {run : List OwnedRecord}
    {base : BlockHeaderExt} (h : Buildable x config run) (hne : run ≠ [])
    (hfirst : ∀ r ∈ run.head?, base = r.ownBase) (hbelow : ∀ r ∈ run, base.Below r)
    (htarget : 2 ≤ run.length → (encodeRecords base run).length ≤ config.blockTargetSize) :
    ∃ body, buildBlock x config (encodeRecords base run)
      (some base.baseSeq) (some base.baseTsUnixNs) (UInt32.ofNat run.length) = .ok body := by
  obtain ⟨r, tail, rfl⟩ := exists_cons_of_ne_nil hne
  obtain rfl : base = r.ownBase := hfirst r rfl
  exact h (r :: tail) r infix_rfl rfl hbelow htarget

theorem buildable_of_length (htarget : config.blockTargetSize < 2 ^ 32)
    (hcompress : ∀ input : Bytes, input.length < 2 ^ 32 →
      ∃ output, config.codec.compress x input = .ok output ∧ output.length < 2 ^ 32)
    (hrecords : ∀ r ∈ records, (r.encode r.ownBase).length < 2 ^ 32) :
    Buildable x config records := by
  intro run r hrun hhead hbelow hlen
  have hrange : (encodeRecords r.ownBase run).length < 2 ^ 32 := by
    by_cases htwo : 2 ≤ run.length
    · exact Nat.lt_of_le_of_lt (hlen htwo) htarget
    · obtain ⟨tail, rfl⟩ := head?_eq_some_iff.mp hhead
      have hnil : tail = [] := by
        cases tail with
        | nil => rfl
        | cons r' tail => simp at htwo
      rw [hnil, encodeRecords, flatMap_singleton]
      exact hrecords r (hrun.subset mem_cons_self)
  obtain ⟨compressed, hok, hclen⟩ := hcompress _ hrange
  exact ⟨_, (@buildBlock_eq_ok_iff _ _ _ _ r.ownBase _).mpr ⟨compressed, hok, hrange, hclen, rfl⟩⟩

theorem OwnedRecord.encode_length_le (base : BlockHeaderExt)
    (r : OwnedRecord) : (r.encode base).length ≤ 31 + r.payload.length := by
  have h₁ := encodeVarint_length_le_ten (r.seq - base.baseSeq)
  have h₂ := encodeVarint_length_le_ten (r.tsUnixNs - base.baseTsUnixNs)
  have h₃ := encodeVarint_length_le_ten (UInt64.ofNat r.payload.length)
  simp only [OwnedRecord.encode, encodeRecord, length_append, length_singleton]
  omega

namespace LogjetWriter

variable {W : Type} [Sink W] {w : LogjetWriter W}
  {records : List OwnedRecord} {base : BlockHeaderExt} {r : OwnedRecord}

theorem below_of_push {r : OwnedRecord} {w' : LogjetWriter W}
    (h : push x r w = .ok () w') : (w.baseFor r).Below r := by
  obtain ⟨encoded, w₁, hencode, -⟩ := EStateM.bind_eq_ok_iff.mp h
  exact ((encodeAgainstBase_ends w r).ok hencode).2.1

omit [Sink W] in
theorem Neat.builds (hp : w.Pending records base) (hn : w.Neat records base)
    (hne : records ≠ []) (hbuild : Buildable x w.config records) :
    ∃ body, buildBlock x w.config w.payloadBuf w.blockBaseSeq
      w.blockBaseTsUnixNs w.recordCount = .ok body := by
  obtain ⟨hseq, hts⟩ := hp.based hne
  have hcount : w.recordCount = UInt32.ofNat records.length := by
    rw [← hp.count, UInt32.ofNat_toNat]
  rw [hp.buf, hseq, hts, hcount]
  exact hbuild.block hne hn.first hp.below (hp.buf ▸ hn.target)

omit [Sink W] in
theorem Neat.length_lt (hp : w.Pending records base) (hn : w.Neat records base) (hne : records ≠ [])
    (hbuild : Buildable x w.config records) : w.payloadBuf.length < 2 ^ 32 := by
  obtain ⟨body, hok⟩ := hn.builds hp hne hbuild
  obtain ⟨hseq, hts⟩ := hp.based hne
  rw [hseq, hts] at hok
  obtain ⟨_, -, hlen, -⟩ := buildBlock_eq_ok_iff.mp hok
  exact hlen

theorem flushBlock_returns (hsink : ¬ Fallible W) (hp : w.Pending records base)
    (hn : records ≠ [] → w.Neat records base) (hbuild : Buildable x w.config records) :
    Ends (flushBlock x) w (fun _ _ => True) fun _ _ => False := by
  refine (flushBlock_ends (x := x) hp).mono (fun _ _ _ => trivial) ?_
  intro _ w' hfails
  rcases hfails with ⟨-, hbuf, err, herr⟩ | hf
  · have hne : records ≠ [] := by
      intro hnil
      rw [hp.buf, hnil] at hbuf
      exact hbuf rfl
    obtain ⟨body, hok⟩ := (hn hne).builds hp hne hbuild
    rw [herr] at hok
    cases hok
  · exact hsink hf

variable {encoded : Bytes}

omit [Sink W] in
theorem appendEncoded_returns (hcount : w.recordCount.toNat + 1 < 2 ^ 32) :
    Ends (appendEncoded encoded) w (fun _ _ => True) fun _ _ => False := by
  refine Ends.modify (Ends.get ?_)
  exact Ends.bind (Ends.ensure (fun _ => trivial) fun h => h hcount)

theorem storeEncoded_returns (hsink : ¬ Fallible W)
    (hp : w.Pending records base) (hbase : w.withBase base = w) (hbelow : base.Below r)
    (hfirst : ∀ r₀ ∈ (records ++ [r]).head?, base = r₀.ownBase)
    (hfits : records ≠ [] → w.payloadBuf.length + (r.encode base).length ≤ w.config.blockTargetSize)
    (hbuild : Buildable x w.config (records ++ [r])) :
    Ends (do appendEncoded (r.encode base); flushIfFull x) w
      (fun _ _ => True) fun _ _ => False := by
  have hcount : w.recordCount.toNat + 1 < 2 ^ 32 := by
    have hencode : encodeRecords base (records ++ [r]) = w.payloadBuf ++ r.encode base := by
      rw [hp.buf]
      simp [encodeRecords]
    obtain ⟨body, hok⟩ := hbuild.block (by simp) hfirst
      (forall_mem_append.mpr ⟨hp.below, by simpa using hbelow⟩) (by
        intro htwo
        rw [hencode, length_append]
        apply hfits
        intro hnil
        simp [hnil] at htwo)
    obtain ⟨_, -, hlen, -⟩ := buildBlock_eq_ok_iff.mp hok
    have hfew := encodeRecords_length base (records ++ [r])
    rw [length_append, length_singleton, ← hp.count] at hfew
    omega
  apply Ends.bind
  refine ((appendEncoded_ends hp hbase hbelow).noError
    (appendEncoded_returns hcount)).mono ?_ fun _ _ h => h
  intro _ w₁ hres
  obtain ⟨hp₁, _, hconfig⟩ := hres
  refine Ends.get (Ends.ite (fun _ => ?_) fun _ => trivial)
  exact flushBlock_returns hsink hp₁
    (fun _ => Neat.append hp hp₁ hconfig hfirst hfits) (hconfig ▸ hbuild)

omit [Sink W] in
theorem encodeAgainstBase_returns (hbelow : (w.baseFor r).Below r)
    (hlen : r.payload.length < 2 ^ 64) :
    Ends (encodeAgainstBase r) w (fun _ _ => True) fun _ _ => False := by
  refine Ends.bind ?_
  rw [Ends, takeBase_eq]
  refine Ends.bind (Ends.ensure (fun _ => ?_) fun h => h hbelow.1)
  refine Ends.bind (Ends.ensure (fun _ => ?_) fun h => h hbelow.2)
  exact Ends.bind (Ends.ensure (fun _ => trivial) fun h => h hlen)

theorem splitBlock_returns (hsink : ¬ Fallible W) (hp : w.Pending records base)
    (hn : records ≠ [] → w.Neat records base)
    (hbuild : Buildable x w.config records) (hlen : encoded.length < 2 ^ 33) :
    Ends (splitBlock x r encoded) w (fun _ _ => True) fun _ _ => False := by
  have hbuf : w.payloadBuf.length < 2 ^ 32 := by
    by_cases hnil : records = []
    · rw [hp.buf, hnil]
      exact Nat.two_pow_pos 32
    · exact (hn hnil).length_lt hp hnil hbuild
  apply Ends.get
  refine Ends.bind (Ends.ensure (fun _ => ?_) fun h => h (by omega))
  apply Ends.ite
  · intro _
    exact Ends.bind ((flushBlock_returns hsink hp hn hbuild).mono
      (fun _ _ _ => trivial) fun _ _ h => h)
  · intro _
    trivial

theorem push_returns (hsink : ¬ Fallible W) (hp : w.Pending records base) (hn : w.Neat records base)
    (hbuild : Buildable x w.config (records ++ [r])) (hbelow : (w.baseFor r).Below r) :
    Ends (push x r) w (fun _ _ => True) fun _ _ => False := by
  have halone : Buildable x w.config [r] := hbuild.mono (suffix_append records [r]).isInfix
  have hlen : r.payload.length < 2 ^ 32 := by
    obtain ⟨body, hok⟩ := @Buildable.block x w.config [r] r.ownBase halone
      (by simp) (by simp) (by simp [BlockHeaderExt.Below, OwnedRecord.ownBase]) (by simp)
    obtain ⟨_, -, hlt, -⟩ := buildBlock_eq_ok_iff.mp hok
    have henc := r.encode_length r.ownBase
    rw [encodeRecords, flatMap_singleton] at hlt
    omega
  have henc : (r.encode (w.baseFor r)).length < 2 ^ 33 := by
    have := r.encode_length_le (w.baseFor r)
    omega
  obtain ⟨hp', hsame⟩ := hp.withBase r
  refine Ends.bind (((encodeAgainstBase_ends w r).noError
    (encodeAgainstBase_returns hbelow (by omega))).mono ?_ fun _ _ h => h)
  intro encoded w₁ hres
  obtain ⟨hw₁, _, hencoded⟩ := hres
  subst hw₁ hencoded
  have hneat : records ≠ [] → (w.withBase (w.baseFor r)).Neat records (w.baseFor r) := by
    intro hne
    have hfirst := hn.baseFor hp r
    rw [hsame hne]
    refine ⟨hn.unset, ?_, hn.target⟩
    intro r₀ hr₀
    exact hfirst r₀ (by rw [head?_append, hr₀]; rfl)
  refine Ends.bind (((splitBlock_ends (x := x) hp' rfl hbelow).noError
    (splitBlock_returns hsink hp' hneat
      (hbuild.mono (prefix_append records [r]).isInfix) henc)).mono ?_ fun _ _ h => h)
  intro encoded w₂ hres
  obtain ⟨base₂, hbase₂, hbelow₂, hencoded, hcase⟩ := hres
  subst hencoded
  rcases hcase with ⟨rfl, rfl, hfits⟩ | ⟨_, rfl, hp₂, b, _, _, hwrote⟩
  · exact storeEncoded_returns hsink hp' rfl hbelow (hn.baseFor hp r) hfits hbuild
  · have hconfig : w₂.config = w.config := hwrote.config
    refine storeEncoded_returns hsink hp₂ hbase₂ hbelow₂ ?_
      (fun h => absurd rfl h) (hconfig ▸ halone)
    intro r₀ hr₀
    cases hr₀
    rfl

theorem push_refuses (h : ¬ (w.baseFor r).Below r) : ∃ err w', push x r w = .error err w' := by
  cases hrun : push x r w with
  | ok _ w' => exact absurd (below_of_push hrun) h
  | error err w' => exact ⟨err, w', rfl⟩

/-- No record comes before the base of the block it is put in. -/
def Ascends (x : External) : List OwnedRecord → LogjetWriter W → Prop
  | [], _ => True
  | r :: rs, w => (w.baseFor r).Below r ∧ Ascends x rs ((WriterOp.push r).run x w).2

instance (base : BlockHeaderExt) (r : OwnedRecord) : Decidable (base.Below r) :=
  inferInstanceAs (Decidable (_ ∧ _))

instance decidableAscends : (records : List OwnedRecord) →
    (w : LogjetWriter W) → Decidable (Ascends x records w)
  | [], _ => .isTrue trivial
  | r :: rs, w =>
    have := decidableAscends rs ((WriterOp.push r).run x w).2
    inferInstanceAs (Decidable (_ ∧ _))

def Tidy (x : External) (config : WriterConfig)
    (accepted : List OwnedRecord) (w : LogjetWriter (List Bytes)) : Prop :=
  ∃ (blocks : List (Block x)) (records : List OwnedRecord) (base : BlockHeaderExt),
    w.config = config ∧ w.inner = blocks.flatMap Block.chunks
      ∧ (∀ b ∈ blocks, b.config = config ∧ b.Neat) ∧ w.Pending records base ∧ w.Neat records base
      ∧ accepted = blocks.flatMap Block.records ++ records

theorem tidy_inMemory (config : WriterConfig) : Tidy x config [] (inMemory config) :=
  ⟨[], [], ⟨0, 0⟩, rfl, rfl, nofun, ⟨nofun, nofun, rfl, rfl⟩,
    ⟨fun _ => ⟨rfl, rfl⟩, nofun, nofun⟩, rfl⟩

namespace Tidy

variable {config : WriterConfig} {accepted : List OwnedRecord}
  {w w' : LogjetWriter (List Bytes)} {r : OwnedRecord} {records : List OwnedRecord}

theorem push (h : Tidy x config accepted w) (hrun : LogjetWriter.push x r w = .ok () w') :
    Tidy x config (accepted ++ [r]) w' := by
  obtain ⟨blocks, pending, base, hconfig, hinner, hown, hp, hn, rfl⟩ := h
  obtain ⟨blocks', pending', base', hwrote, hp', hsplit, hneat, -⟩ :=
    (push_ends (x := x) hp r).ok hrun
  obtain ⟨hn', hneat'⟩ := hneat hn
  have hinner' : w'.inner = (blocks ++ blocks').flatMap Block.chunks := by
    have hw := hwrote.inner
    rw [writeChunks_memory, hinner, EStateM.Result.ok.injEq] at hw
    rw [flatMap_append]
    exact hw.2.symm
  refine ⟨blocks ++ blocks', pending', base', hwrote.config.trans hconfig,
    hinner', ?_, hp', hn', ?_⟩
  · intro b hb
    rcases mem_append.mp hb with hb | hb
    · exact hown b hb
    · exact ⟨(hwrote.own b hb).trans hconfig, hneat' b hb⟩
  · rw [flatMap_append, append_assoc, hsplit, append_assoc]

theorem push_returns (h : Tidy x config accepted w) (hbuild : Buildable x config (accepted ++ [r]))
    (hbelow : (w.baseFor r).Below r) : ∃ w', LogjetWriter.push x r w = .ok () w' := by
  obtain ⟨blocks, pending, base, hconfig, -, -, hp, hn, rfl⟩ := h
  subst hconfig
  rw [append_assoc] at hbuild
  have hends := LogjetWriter.push_returns not_fallible_memory hp hn
    (hbuild.mono (suffix_append _ _).isInfix) hbelow
  obtain ⟨_, w', hrun, -⟩ := hends.returns
  exact ⟨w', hrun⟩

theorem pushAll (h : Tidy x config accepted w) (hrun : Logjet.pushAll x records w = .ok () w') :
    Tidy x config (accepted ++ records) w' := by
  induction records generalizing accepted w with
  | nil =>
    cases hrun
    rw [append_nil]
    exact h
  | cons r rs ih =>
    obtain ⟨_, w₁, hpush, hrest⟩ := EStateM.bind_eq_ok_iff.mp hrun
    have htidy := ih (h.push hpush) hrest
    rw [append_assoc] at htidy
    exact htidy

theorem run_push_of_ok (hpush : LogjetWriter.push x r w = .ok () w') :
    ((WriterOp.push r).run x w).2 = w' := by simp only [WriterOp.run, hpush]

theorem pushAll_ok_iff (h : Tidy x config accepted w)
    (hbuild : Buildable x config (accepted ++ records)) :
    (∃ w', Logjet.pushAll x records w = .ok () w') ↔ Ascends x records w := by
  induction records generalizing accepted w with
  | nil => exact ⟨fun _ => trivial, fun _ => ⟨w, rfl⟩⟩
  | cons r rs ih =>
    have happend : accepted ++ r :: rs = accepted ++ [r] ++ rs := by simp
    rw [happend] at hbuild
    by_cases hbelow : (w.baseFor r).Below r
    · obtain ⟨w₁, hpush⟩ := h.push_returns (hbuild.mono (prefix_append _ _).isInfix) hbelow
      have hsame : Logjet.pushAll x (r :: rs) w = Logjet.pushAll x rs w₁ := EStateM.bind_of_ok hpush
      rw [hsame, ih (h.push hpush) hbuild, Ascends, run_push_of_ok hpush]
      exact ⟨fun hrest => ⟨hbelow, hrest⟩, fun hall => hall.2⟩
    · obtain ⟨err, w₁, hpush⟩ := push_refuses (x := x) hbelow
      have hfail : Logjet.pushAll x (r :: rs) w = .error err w₁ := EStateM.bind_of_error hpush
      constructor
      · intro hres
        obtain ⟨w', hrun⟩ := hres
        rw [hfail] at hrun
        cases hrun
      · intro hall
        exact absurd hall.1 hbelow

theorem ascends (h : Tidy x config accepted w) (hbuild : Buildable x config (accepted ++ records))
    (hsorted : (accepted ++ records).Pairwise fun a b => a.seq ≤ b.seq ∧ a.tsUnixNs ≤ b.tsUnixNs) :
    Ascends x records w := by
  induction records generalizing accepted w with
  | nil => trivial
  | cons r rs ih =>
    have happend : accepted ++ r :: rs = accepted ++ [r] ++ rs := by simp
    have hbelow : (w.baseFor r).Below r := by
      obtain ⟨blocks, pending, base, -, -, -, hp, hn, rfl⟩ := h
      cases pending with
      | nil =>
        rw [hn.baseFor hp r r rfl]
        exact ⟨UInt64.le_refl _, UInt64.le_refl _⟩
      | cons r₀ pending =>
        rw [hn.baseFor hp r r₀ rfl]
        exact (pairwise_append.mp hsorted).2.2 r₀ (by simp) r (by simp)
    rw [happend] at hbuild hsorted
    obtain ⟨w₁, hpush⟩ := h.push_returns (hbuild.mono (prefix_append _ _).isInfix) hbelow
    refine ⟨hbelow, ?_⟩
    rw [run_push_of_ok hpush]
    exact ih (h.push hpush) hbuild hsorted

theorem flushBlock (h : Tidy x config accepted w) (hrun : LogjetWriter.flushBlock x w = .ok () w') :
    Tidy x config accepted w' ∧ w'.payloadBuf = [] := by
  obtain ⟨blocks, pending, base, hconfig, hinner, hown, hp, hn, rfl⟩ := h
  rcases (flushBlock_ends (x := x) hp).ok hrun with
    ⟨rfl, rfl⟩ | ⟨hne, hempty, hunset, b, hrecords, hbase, hwrote⟩
  · exact ⟨⟨blocks, [], base, hconfig, hinner, hown, hp, hn, rfl⟩, hp.buf⟩
  · have hw := hwrote.inner
    have hown' := hwrote.own b (mem_singleton_self b)
    rw [writeChunks_memory, hinner, EStateM.Result.ok.injEq] at hw
    refine ⟨⟨blocks ++ [b], [], base, hwrote.config.trans hconfig, ?_, ?_,
      hempty, ⟨fun _ => hunset, nofun, nofun⟩, by simp [hrecords]⟩, hempty.buf⟩
    · rw [flatMap_append]
      exact hw.2.symm
    · intro b' hb'
      rcases mem_append.mp hb' with hb' | hb'
      · exact hown b' hb'
      · rw [mem_singleton.mp hb']
        exact ⟨hown'.trans hconfig, hn.block hp hne hrecords hbase hown'⟩

theorem intoInner_returns (h : Tidy x config accepted w) (hbuild : Buildable x config accepted) :
    ∃ blocks : List (Block x), intoInner x w = .ok (blocks.flatMap Block.chunks)
        ∧ accepted = blocks.flatMap Block.records ∧ ∀ b ∈ blocks, b.config = config ∧ b.Neat := by
  obtain ⟨blocks, pending, base, hconfig, -, -, hp, hn, haccepted⟩ := id h
  rw [← hconfig, haccepted] at hbuild
  obtain ⟨_, w', hrun, -⟩ := (flushBlock_returns not_fallible_memory hp
    (fun _ => hn) (hbuild.mono (suffix_append _ _).isInfix)).returns
  have hinto : intoInner x w = .ok w'.inner := by simp only [intoInner, hrun]
  obtain ⟨⟨blocks', pending', base', -, hinner, hown, hp', -, rfl⟩, hbuf⟩ := h.flushBlock hrun
  rw [hp'.buf, encodeRecords_eq_nil] at hbuf
  subst hbuf
  exact ⟨blocks', by rw [hinto, hinner], by simp, hown⟩

end Tidy

end LogjetWriter

end Logjet
