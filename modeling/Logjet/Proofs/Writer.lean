/-
The writer's account: what it accepted is what it wrote and what it still
holds (`Accounts`). Two failures leave a record no block can be made of
(`Doomed`).
-/
import Logjet.Proofs.Block

namespace Logjet

open List EStateM

open EStateM (Ends)

def OwnedRecord.ownBase (r : OwnedRecord) : BlockHeaderExt := ⟨r.seq, r.tsUnixNs⟩

structure Block.Neat {x : External} (b : Block x) : Prop where
  nonempty : b.records ≠ []
  first : ∀ r ∈ b.records.head?, b.base = r.ownBase
  target : 2 ≤ b.records.length → (encodeRecords b.base b.records).length ≤ b.config.blockTargetSize

structure Block.Fits {x : External} (b : Block x) : Prop where
  nonempty : b.records ≠ []
  target : 2 ≤ b.records.length → (encodeRecords b.base b.records).length ≤ b.config.blockTargetSize

structure Sink.Keeps {W : Type} [Sink W] (R : W → W → Prop) : Prop where
  refl : ∀ w, R w w
  trans : ∀ {w w₁ w₂}, R w w₁ → R w₁ w₂ → R w w₂
  write : ∀ buf w, Ends (Sink.writeAll buf) w (fun _ w' => R w w') fun _ w' => R w w'

namespace LogjetWriter

variable {W : Type} [Sink W] {x : External}

structure Pending (w : LogjetWriter W) (records : List OwnedRecord)
    (base : BlockHeaderExt) : Prop where
  based : records ≠ [] → w.blockBaseSeq = some base.baseSeq
    ∧ w.blockBaseTsUnixNs = some base.baseTsUnixNs
  below : ∀ r ∈ records, base.Below r
  buf : w.payloadBuf = encodeRecords base records
  count : w.recordCount.toNat = records.length

def Unset (w : LogjetWriter W) : Prop := w.blockBaseSeq = none ∧ w.blockBaseTsUnixNs = none

structure Neat (w : LogjetWriter W) (records : List OwnedRecord)
    (base : BlockHeaderExt) : Prop where
  unset : records = [] → w.Unset
  first : ∀ r ∈ records.head?, base = r.ownBase
  target : 2 ≤ records.length → w.payloadBuf.length ≤ w.config.blockTargetSize

def Fits (w : LogjetWriter W) (records : List OwnedRecord) : Prop :=
  2 ≤ records.length → w.payloadBuf.length ≤ w.config.blockTargetSize

structure Wrote (w w' : LogjetWriter W) (blocks : List (Block x)) : Prop where
  config : w'.config = w.config
  own : ∀ b ∈ blocks, b.config = w.config
  inner : writeChunks (blocks.flatMap Block.chunks) w.inner = .ok () w'.inner

def Fallible (W : Type) [Sink W] : Prop :=
  ∃ (chunks : List Bytes) (inner inner' : W) (err : IoError),
    writeChunks chunks inner = .error err inner'

theorem Wrote.refl (w : LogjetWriter W) : Wrote (x := x) w w [] := ⟨rfl, nofun, rfl⟩

variable {w : LogjetWriter W} {Q : Unit → LogjetWriter W → Prop}
  {E : Error → LogjetWriter W → Prop} {base : BlockHeaderExt}
  {records accepted : List OwnedRecord} {r : OwnedRecord} {chunks : List Bytes}
  {config : WriterConfig}

theorem writeInner_ends {buf : Bytes} (hok : ∀ inner, Sink.writeAll buf w.inner = .ok () inner →
      Q () { w with inner }) (herr : ∀ err inner, Sink.writeAll buf w.inner = .error err inner →
      E (.io err) { w with inner }) : Ends (writeInner buf) w Q E := by
  unfold Ends writeInner
  cases h : Sink.writeAll buf w.inner with
  | ok u inner => exact hok inner h
  | error err inner => exact herr err inner h

theorem writeBlock_ends {body zeroes : Bytes}
    (hok : ∀ inner, writeChunks (body :: if zeroes.isEmpty then [] else [zeroes]) w.inner
          = .ok () inner → Q () (resetBlockState { w with inner })) (herr : ∀ err inner, writeChunks
        (body :: if zeroes.isEmpty then [] else [zeroes]) w.inner
          = .error err inner → E (.io err) { w with inner }) : Ends (do
      writeInner body
      writePadding zeroes
      modify resetBlockState) w Q E := by
  refine Ends.bind (writeInner_ends (fun inner hbody => ?_) fun err inner hbody => ?_)
  · by_cases hz : zeroes.isEmpty
    · simp only [writePadding, hz, if_true]
      refine hok inner ?_
      simp only [hz, if_true]
      exact bind_of_ok hbody
    · simp only [writePadding, hz, if_false, Bool.false_eq_true]
      refine Ends.bind (writeInner_ends (fun inner' hpad => ?_) fun err inner' hpad => ?_)
      · refine hok inner' ?_
        simp only [hz, Bool.false_eq_true, if_false]
        exact (bind_of_ok hbody).trans (bind_of_ok hpad)
      · refine herr err inner' ?_
        simp only [hz, Bool.false_eq_true, if_false]
        exact (bind_of_ok hbody).trans (bind_of_error hpad)
  · exact herr err inner (bind_of_error hbody)

theorem encodeRecords_eq_nil : encodeRecords base records = [] ↔ records = [] := by
  constructor
  · intro h
    have hlen := encodeRecords_length base records
    rw [h, length_nil] at hlen
    exact length_eq_zero_iff.mp (by omega)
  · rintro rfl
    rfl

variable {records : List OwnedRecord}

omit [Sink W] in
theorem Pending.block {w : LogjetWriter W}
    {base : BlockHeaderExt} (hp : w.Pending records base) (hne : records ≠ []) {body : Bytes}
    (hbuild : buildBlock x w.config w.payloadBuf w.blockBaseSeq
      w.blockBaseTsUnixNs w.recordCount = .ok body) :
    ∃ b : Block x, b.config = w.config ∧ b.base = base ∧ b.records = records ∧ b.body = body := by
  obtain ⟨hbase, hbelow, hbuf, hcount⟩ := hp
  obtain ⟨hseq, hts⟩ := hbase hne
  have hcount' : w.recordCount = UInt32.ofNat records.length := by rw [← hcount, UInt32.ofNat_toNat]
  rw [hbuf, hseq, hts, hcount'] at hbuild
  exact ⟨⟨w.config, base, records, hbelow, body, hbuild⟩, rfl, rfl, rfl, rfl⟩

def FlushFails (x : External) (w w' : LogjetWriter W) : Prop :=
  (w' = w ∧ w.payloadBuf ≠ [] ∧ ∃ err, buildBlock x w.config w.payloadBuf
    w.blockBaseSeq w.blockBaseTsUnixNs w.recordCount = .error err) ∨ Fallible W

theorem flushBlock_ends (hp : w.Pending records base) : Ends (flushBlock x) w
      (fun _ w' => (records = [] ∧ w' = w)
        ∨ (records ≠ [] ∧ w'.Pending [] base ∧ w'.Unset ∧ ∃ b : Block x,
            b.records = records ∧ b.base = base ∧ w.Wrote w' [b]))
      (fun _ w' => w.FlushFails x w') := by
  by_cases hnil : records = []
  · have hempty : w.payloadBuf = [] := by rw [hp.buf, hnil]; rfl
    unfold Ends
    simp only [flushBlock, get_bind, hempty, isEmpty_nil, if_true]
    exact Or.inl ⟨hnil, rfl⟩
  · have hne : w.payloadBuf ≠ [] := by
      rw [hp.buf]
      exact fun h => hnil (encodeRecords_eq_nil.mp h)
    cases hbuild : buildBlock x w.config w.payloadBuf w.blockBaseSeq
        w.blockBaseTsUnixNs w.recordCount with
    | error err =>
      unfold Ends
      simp only [flushBlock, get_bind, List.isEmpty_iff, hne, if_false, hbuild, ofExcept_error_bind]
      exact Or.inl ⟨rfl, hne, err, hbuild⟩
    | ok body =>
      obtain ⟨b, hconfig, hbase, hrecords, hbody⟩ := hp.block hnil hbuild
      have hrun : Ends (flushBlock x) w = Ends (do
          writeInner body
          writePadding (padding w.config body.length)
          modify resetBlockState) w := by
        unfold Ends
        simp only [flushBlock, get_bind, List.isEmpty_iff, hne, if_false, hbuild, ofExcept_ok_bind]
      rw [hrun]
      refine writeBlock_ends (fun inner hwrite => ?_)
        fun err inner hwrite => Or.inr ⟨_, _, inner, err, hwrite⟩
      refine Or.inr ⟨hnil, ⟨nofun, nofun, rfl, rfl⟩, ⟨rfl, rfl⟩, b, hrecords, hbase, rfl, ?_, ?_⟩
      · intro b' hb'
        rw [mem_singleton.mp hb']
        exact hconfig
      · simp only [flatMap_cons, flatMap_nil, append_nil, Block.chunks, hconfig, hbody]
        exact hwrite

def baseFor (w : LogjetWriter W) (r : OwnedRecord) : BlockHeaderExt :=
  match w.blockBaseSeq, w.blockBaseTsUnixNs with
  | some baseSeq, some baseTs => ⟨baseSeq, baseTs⟩
  | _, _ => ⟨r.seq, r.tsUnixNs⟩

def withBase (w : LogjetWriter W) (base : BlockHeaderExt) : LogjetWriter W :=
  { w with blockBaseSeq := some base.baseSeq,
           blockBaseTsUnixNs := some base.baseTsUnixNs }

omit [Sink W] in
theorem takeBase_eq (w : LogjetWriter W) (r : OwnedRecord) : takeBase r.seq r.tsUnixNs w
      = .ok ((w.baseFor r).baseSeq, (w.baseFor r).baseTsUnixNs) (w.withBase (w.baseFor r)) := by
  obtain ⟨inner, config, buf, baseSeq, baseTs, count⟩ := w
  cases baseSeq <;> cases baseTs <;> rfl

omit [Sink W] in
theorem encodeAgainstBase_ends (w : LogjetWriter W) (r : OwnedRecord) : Ends (encodeAgainstBase r) w
      (fun encoded w' => w' = w.withBase (w.baseFor r)
        ∧ (w.baseFor r).Below r ∧ encoded = r.encode (w.baseFor r))
      (fun _ w' => w' = w.withBase (w.baseFor r)) := by
  refine Ends.bind ?_
  rw [Ends, takeBase_eq]
  refine Ends.bind (Ends.ensure (fun hseq => ?_) fun _ => rfl)
  refine Ends.bind (Ends.ensure (fun hts => ?_) fun _ => rfl)
  refine Ends.bind (Ends.ensure (fun _ => ?_) fun _ => rfl)
  exact ⟨rfl, ⟨hseq, hts⟩, rfl⟩

omit [Sink W] in
theorem Pending.withBase (hp : w.Pending records base) (r : OwnedRecord) :
    (w.withBase (w.baseFor r)).Pending records (w.baseFor r)
      ∧ (records ≠ [] → w.withBase (w.baseFor r) = w) := by
  by_cases hnil : records = []
  · subst hnil
    exact ⟨⟨nofun, nofun, hp.buf, hp.count⟩, fun h => absurd rfl h⟩
  · obtain ⟨hseq, hts⟩ := hp.based hnil
    have hbase : w.baseFor r = base := by
      unfold baseFor
      rw [hseq, hts]
    have hsame : w.withBase base = w := by
      obtain ⟨inner, config, buf, baseSeq, baseTs, count⟩ := w
      cases hseq
      cases hts
      rfl
    rw [hbase, hsame]
    exact ⟨hp, fun _ => rfl⟩

omit [Sink W] in
theorem Neat.block {w : LogjetWriter W} {base : BlockHeaderExt} (hp : w.Pending records base)
    (hn : w.Neat records base) (hne : records ≠ []) {b : Block x}
    (hrecords : b.records = records) (hbase : b.base = base)
    (hconfig : b.config = w.config) : b.Neat := by
  refine ⟨hrecords ▸ hne, ?_, ?_⟩
  · rw [hrecords, hbase]
    exact hn.first
  · rw [hrecords, hbase, hconfig, ← hp.buf]
    exact hn.target

omit [Sink W] in
theorem Fits.block {w : LogjetWriter W} {base : BlockHeaderExt} (hf : w.Fits records)
    (hp : w.Pending records base) (hne : records ≠ []) {b : Block x}
    (hrecords : b.records = records) (hbase : b.base = base)
    (hconfig : b.config = w.config) : b.Fits := by
  refine ⟨hrecords ▸ hne, ?_⟩
  rw [hrecords, hbase, hconfig, ← hp.buf]
  exact hf

theorem splitBlock_ends (hp : w.Pending records base)
    (hbase : w.withBase base = w) (hbelow : base.Below r) : Ends (splitBlock x r (r.encode base)) w
      (fun encoded w' => ∃ base', w'.withBase base' = w' ∧ base'.Below r ∧ encoded = r.encode base'
        ∧ ((w' = w ∧ base' = base ∧ (records ≠ [] → w.payloadBuf.length + encoded.length
                ≤ w.config.blockTargetSize))
          ∨ (records ≠ [] ∧ base' = r.ownBase ∧ w'.Pending [] base'
            ∧ ∃ b : Block x, b.records = records ∧ b.base = base ∧ w.Wrote w' [b])))
      (fun _ w' => w' = w ∨ Fallible W) := by
  refine Ends.get (Ends.bind (Ends.ensure (fun _ => ?_) fun _ => Or.inl rfl))
  refine Ends.ite (fun hsplit => ?_) fun hsplit => ?_
  · refine Ends.bind ((flushBlock_ends (x := x) hp).mono ?_ ?_)
    · rintro _ w' (⟨rfl, rfl⟩ | ⟨hne, hempty, -, b, rfl, rfl, hwrote⟩)
      · simp [hp.buf, encodeRecords] at hsplit
      · refine ⟨r.ownBase, rfl, ⟨UInt64.le_refl _, UInt64.le_refl _⟩, ?_,
          Or.inr ⟨hne, rfl, ⟨by simp, by simp, hempty.buf, hempty.count⟩, b, rfl,
            rfl, hwrote.config, hwrote.own, hwrote.inner⟩⟩
        simp only [OwnedRecord.encode, OwnedRecord.ownBase, UInt64.sub_self]
    · rintro _ w' (⟨rfl, -⟩ | hsink)
      · exact Or.inl rfl
      · exact Or.inr hsink
  · refine ⟨base, hbase, hbelow, rfl, Or.inl ⟨rfl, rfl, ?_⟩⟩
    intro hne
    have hbuf : w.payloadBuf ≠ [] := by
      rw [hp.buf]
      exact fun h => hne (encodeRecords_eq_nil.mp h)
    simp [hbuf] at hsplit
    omega

omit [Sink W] in
theorem appendEncoded_ends
    (hp : w.Pending records base) (hbase : w.withBase base = w) (hbelow : base.Below r) :
    Ends (appendEncoded (r.encode base)) w
      (fun _ w' => w'.Pending (records ++ [r]) base ∧ w'.inner = w.inner ∧ w'.config = w.config)
      (fun _ w' => w'.withBase base = w' ∧ 2 ^ 32 ≤ w'.payloadBuf.length
        ∧ w'.inner = w.inner ∧ w'.config = w.config) := by
  have hbuf : w.payloadBuf ++ r.encode base = encodeRecords base (records ++ [r]) := by
    rw [hp.buf]
    simp [encodeRecords]
  have hseq : w.blockBaseSeq = some base.baseSeq := by rw [← hbase]; rfl
  have hts : w.blockBaseTsUnixNs = some base.baseTsUnixNs := by
    rw [← hbase]
    rfl
  refine Ends.modify (Ends.get (Ends.bind (Ends.ensure (fun hcount => ?_) fun hcount => ?_)))
  · refine ⟨⟨fun _ => ⟨hseq, hts⟩, ?_, hbuf, ?_⟩, rfl, rfl⟩
    · intro r' hr'
      rcases mem_snoc.mp hr' with h | rfl
      · exact hp.below r' h
      · exact hbelow
    · show (w.recordCount + 1).toNat = _
      rw [length_append, length_singleton, ← hp.count, UInt32.toNat_add]
      exact Nat.mod_eq_of_lt hcount
  · have hlen := encodeRecords_length base (records ++ [r])
    rw [length_append, length_singleton, ← hp.count] at hlen
    refine ⟨?_, ?_, rfl, rfl⟩
    · show LogjetWriter.withBase { w with payloadBuf := _ } base = { w with payloadBuf := _ }
      simp only [withBase, hseq, hts]
    · show 2 ^ 32 ≤ (w.payloadBuf ++ r.encode base).length
      rw [hbuf]
      simp only at hcount
      omega

theorem flushBlock_of_error {err : Error} (hne : w.payloadBuf ≠ [])
    (h : buildBlock x w.config w.payloadBuf w.blockBaseSeq
      w.blockBaseTsUnixNs w.recordCount = .error err) : flushBlock x w = .error err w := by
  simp only [flushBlock, get_bind, List.isEmpty_iff, hne, if_false, h, ofExcept_error_bind]

theorem buildBlock_of_length {config : WriterConfig} {payload : Bytes}
    {base : BlockHeaderExt} {count : UInt32} (hlen : 2 ^ 32 ≤ payload.length) :
    ∃ err, buildBlock x config payload (some base.baseSeq)
      (some base.baseTsUnixNs) count = .error err := by
  cases h : buildBlock x config payload (some base.baseSeq) (some base.baseTsUnixNs) count with
  | error err => exact ⟨err, rfl⟩
  | ok body =>
    obtain ⟨_, -, hlt, -⟩ := buildBlock_eq_ok_iff.mp h
    omega

structure Doomed (x : External) (w : LogjetWriter W) : Prop where
  based : ∃ base, w.withBase base = w
  nonempty : w.payloadBuf ≠ []
  unbuildable : ∃ err, buildBlock x w.config w.payloadBuf w.blockBaseSeq
    w.blockBaseTsUnixNs w.recordCount = .error err
  full : 2 ^ 32 ≤ w.payloadBuf.length ∨ w.config.blockTargetSize ≤ w.payloadBuf.length

omit [Sink W] in
theorem doomed_of_length {w : LogjetWriter W} {base : BlockHeaderExt}
    (hbase : w.withBase base = w) (hlen : 2 ^ 32 ≤ w.payloadBuf.length) : w.Doomed x := by
  refine ⟨⟨base, hbase⟩, fun h => by simp [h] at hlen, ?_, Or.inl hlen⟩
  rw [← hbase]
  exact buildBlock_of_length hlen

theorem Doomed.flushBlock_ends (hd : w.Doomed x) : Ends (flushBlock x) w Q
    (fun _ w' => w' = w) := by
  obtain ⟨err, herr⟩ := hd.unbuildable
  rw [Ends, flushBlock_of_error hd.nonempty herr]

theorem Doomed.flushIfFull_ends (hd : w.Doomed x) :
    Ends (flushIfFull x) w (fun _ w' => w' = w) (fun _ w' => w' = w) := by
  exact Ends.get (Ends.ite (fun _ => hd.flushBlock_ends) fun _ => rfl)

theorem Doomed.push_ends (hd : w.Doomed x) (r : OwnedRecord) :
    Ends (push x r) w (fun _ w' => w'.Doomed x ∧ w.Wrote (x := x) w' [])
      (fun _ w' => w'.Doomed x ∧ w.Wrote (x := x) w' []) := by
  obtain ⟨base, hext⟩ := hd.based
  have hsame : w.withBase (w.baseFor r) = w := by
    rw [← hext]
    rfl
  refine Ends.bind ((encodeAgainstBase_ends w r).mono ?_ ?_)
  · rintro encoded w' ⟨rfl, hbelow, rfl⟩
    rw [hsame]
    refine Ends.bind ?_
    refine Ends.get (Ends.bind (Ends.ensure (fun _ => ?_) fun _ => ⟨hd, .refl w⟩))
    refine Ends.ite (fun _ => ?_) fun hsplit => ?_
    · refine Ends.bind (hd.flushBlock_ends.mono (fun _ _ h => h) ?_)
      rintro _ w' rfl
      exact ⟨hd, .refl w'⟩
    · have hlen : 2 ^ 32 ≤ w.payloadBuf.length := by
        rcases hd.full with h | h
        · exact h
        · have henc := r.encode_length (w.baseFor r)
          simp [hd.nonempty] at hsplit
          omega
      have hgrown : ∀ encoded count, LogjetWriter.Doomed x { w with
          payloadBuf := w.payloadBuf ++ encoded, recordCount := count } := by
        intro encoded count
        refine @doomed_of_length _ _ _ (w.baseFor r) ?_ ?_
        · rw [← hsame]
          rfl
        · simp only [length_append]
          omega
      refine Ends.bind (Ends.modify (Ends.get (Ends.bind (Ends.ensure
        (fun _ => ?_) fun _ => ⟨hgrown _ _, rfl, nofun, rfl⟩))))
      refine (hgrown _ _).flushIfFull_ends.mono ?_ ?_
      · rintro _ w' rfl
        exact ⟨hgrown _ _, rfl, nofun, rfl⟩
      · rintro _ w' rfl
        exact ⟨hgrown _ _, rfl, nofun, rfl⟩
  · rintro _ w' rfl
    rw [hsame]
    exact ⟨hd, .refl w⟩

theorem flushIfFull_ends (hp : w.Pending records base) (hne : records ≠ []) :
    Ends (flushIfFull x) w (fun _ w' => w' = w ∨ (w'.Pending [] base ∧ w'.Unset ∧ ∃ b : Block x,
            b.records = records ∧ b.base = base ∧ w.Wrote w' [b]))
      (fun _ w' => (w'.Doomed x ∧ w' = w) ∨ Fallible W) := by
  obtain ⟨hseq, hts⟩ := hp.based hne
  refine Ends.get (Ends.ite (fun hfull => ?_) fun _ => ?_)
  · refine (flushBlock_ends (x := x) hp).mono ?_ ?_
    · rintro _ w' (⟨hnil, -⟩ | ⟨-, hcut⟩)
      · exact absurd hnil hne
      · exact Or.inr hcut
    · rintro _ w' (⟨rfl, hbuf, herr⟩ | hfail)
      · refine Or.inl ⟨⟨⟨base, ?_⟩, hbuf, herr, Or.inr hfull⟩, rfl⟩
        simp only [withBase, ← hseq, ← hts]
      · exact Or.inr hfail
  · exact Or.inl rfl

theorem writeChunks_append {W : Type} [Sink W] {chunks' : List Bytes}
    {s s₁ s₂ : W} (h : writeChunks chunks s = .ok () s₁) (h' : writeChunks chunks' s₁ = .ok () s₂) :
    writeChunks (chunks ++ chunks') s = .ok () s₂ := by
  induction chunks generalizing s with
  | nil =>
    cases h
    exact h'
  | cons chunk chunks ih =>
    obtain ⟨_, s', hchunk, hrest⟩ := bind_eq_ok_iff.mp h
    exact bind_eq_ok_iff.mpr ⟨_, s', hchunk, ih hrest⟩

theorem Wrote.trans {w₁ w₂ : LogjetWriter W} {bs bs' : List (Block x)}
    (h : w.Wrote w₁ bs) (h' : w₁.Wrote w₂ bs') : w.Wrote w₂ (bs ++ bs') := by
  refine ⟨h'.config.trans h.config, ?_, ?_⟩
  · intro b hb
    rcases mem_append.mp hb with hb | hb
    · exact h.own b hb
    · exact (h'.own b hb).trans h.config
  · rw [flatMap_append]
    exact writeChunks_append h.inner h'.inner

omit [Sink W] in
theorem Fits.append {base : BlockHeaderExt}
    {r : OwnedRecord} {w w₁ : LogjetWriter W} (hp : w.Pending records base)
    (hp₁ : w₁.Pending (records ++ [r]) base) (hconfig : w₁.config = w.config)
    (hfits : records ≠ [] → w.payloadBuf.length + (r.encode base).length
      ≤ w.config.blockTargetSize) : w₁.Fits (records ++ [r]) := by
  intro hlen
  have hne : records ≠ [] := by
    intro hnil
    simp [hnil] at hlen
  have hbuf : w₁.payloadBuf = w.payloadBuf ++ r.encode base := by
    rw [hp₁.buf, hp.buf]
    simp [encodeRecords]
  rw [hbuf, hconfig, length_append]
  exact hfits hne

omit [Sink W] in
theorem Neat.append {base : BlockHeaderExt}
    {r : OwnedRecord} {w w₁ : LogjetWriter W} (hp : w.Pending records base)
    (hp₁ : w₁.Pending (records ++ [r]) base) (hconfig : w₁.config = w.config)
    (hfirst : ∀ r₀ ∈ (records ++ [r]).head?, base = r₀.ownBase)
    (hfits : records ≠ [] → w.payloadBuf.length + (r.encode base).length
      ≤ w.config.blockTargetSize) : w₁.Neat (records ++ [r]) base :=
  ⟨by simp, hfirst, Fits.append hp hp₁ hconfig hfits⟩

theorem storeEncoded_ends (hp : w.Pending records base)
    (hbase : w.withBase base = w) (hbelow : base.Below r) :
    Ends (do appendEncoded (r.encode base); flushIfFull x) w
      (fun _ w' => ∃ blocks records' base', w.Wrote (x := x) w' blocks ∧ w'.Pending records' base'
        ∧ records ++ [r] = blocks.flatMap Block.records ++ records'
        ∧ ((∀ r₀ ∈ (records ++ [r]).head?, base = r₀.ownBase) →
            (records ≠ [] → w.payloadBuf.length + (r.encode base).length
              ≤ w.config.blockTargetSize) → w'.Neat records' base' ∧ ∀ b ∈ blocks, b.Neat)
        ∧ ((records ≠ [] → w.payloadBuf.length + (r.encode base).length
              ≤ w.config.blockTargetSize) → w'.Fits records' ∧ ∀ b ∈ blocks, b.Fits))
      (fun _ w' => (w'.Doomed x ∧ w.Wrote (x := x) w' []) ∨ Fallible W) := by
  refine Ends.bind ((appendEncoded_ends hp hbase hbelow).mono ?_ ?_)
  · intro _ w₁ ⟨hp₁, hinner, hconfig⟩
    have hneat := @Neat.append W records base r w w₁ hp hp₁ hconfig
    have hfitted := @Fits.append W records base r w w₁ hp hp₁ hconfig
    have hkept : w.Wrote (x := x) w₁ [] := ⟨hconfig, nofun, hinner ▸ rfl⟩
    refine (flushIfFull_ends (x := x) hp₁ (by simp)).mono ?_ ?_
    · intro _ w₂ hends
      rcases hends with rfl | ⟨hempty, hunset, b, hrecords, hb, hwrote⟩
      · exact ⟨[], records ++ [r], base, hkept, hp₁, rfl,
          fun hfirst hfits => ⟨hneat hfirst hfits, nofun⟩, fun hfits => ⟨hfitted hfits, nofun⟩⟩
      · have hown := hwrote.own b (mem_singleton_self b)
        refine ⟨[b], [], base, hkept.trans hwrote, hempty, by simp [hrecords], ?_, ?_⟩
        · intro hfirst hfits
          refine ⟨⟨fun _ => hunset, by simp, by simp⟩, ?_⟩
          intro b' hb'
          rw [mem_singleton.mp hb']
          exact (hneat hfirst hfits).block hp₁ (by simp) hrecords hb hown
        · intro hfits
          refine ⟨by simp [Fits], ?_⟩
          intro b' hb'
          rw [mem_singleton.mp hb']
          exact (hfitted hfits).block hp₁ (by simp) hrecords hb hown
    · rintro _ w₂ (⟨hd, rfl⟩ | hfallible)
      · exact Or.inl ⟨hd, hkept⟩
      · exact Or.inr hfallible
  · intro _ w' ⟨hbased, hlen, hinner, hconfig⟩
    exact Or.inl ⟨doomed_of_length hbased hlen, hconfig, nofun, hinner ▸ rfl⟩

omit [Sink W] in
theorem Neat.baseFor (hp : w.Pending records base) (hn : w.Neat records base) (r : OwnedRecord) :
    ∀ r₀ ∈ (records ++ [r]).head?, w.baseFor r = r₀.ownBase := by
  unfold LogjetWriter.baseFor
  cases records with
  | nil =>
    intro r₀ hr₀
    obtain ⟨hseq, hts⟩ := hn.unset rfl
    cases hr₀
    rw [hseq, hts]
    rfl
  | cons r₁ records =>
    intro r₀ hr₀
    obtain ⟨hseq, hts⟩ := hp.based (cons_ne_nil _ _)
    rw [hseq, hts]
    exact hn.first r₀ hr₀

theorem push_ends (hp : w.Pending records base) (r : OwnedRecord) : Ends (push x r) w
      (fun _ w' => ∃ blocks records' base', w.Wrote (x := x) w' blocks ∧ w'.Pending records' base'
        ∧ records ++ [r] = blocks.flatMap Block.records ++ records' ∧ (w.Neat records base →
            w'.Neat records' base' ∧ ∀ b ∈ blocks, b.Neat)
        ∧ (w.Fits records → w'.Fits records' ∧ ∀ b ∈ blocks, b.Fits))
      (fun _ w' => (∃ base', w'.Pending records base' ∧ w'.inner = w.inner
          ∧ w'.config = w.config ∧ w'.payloadBuf = w.payloadBuf)
        ∨ (w'.Doomed x ∧ ∃ blocks, w.Wrote (x := x) w' blocks
          ∧ (w.Fits records → ∀ b ∈ blocks, b.Fits)) ∨ Fallible W) := by
  obtain ⟨hp', -⟩ := hp.withBase r
  refine Ends.bind ((encodeAgainstBase_ends w r).mono ?_ ?_)
  · intro encoded w₁ ⟨hw₁, hbelow, hencoded⟩
    subst hw₁ hencoded
    refine Ends.bind ((splitBlock_ends (x := x) hp' rfl hbelow).mono ?_ ?_)
    · intro encoded w₂ ⟨base₂, hbase₂, hbelow₂, hencoded, hcase⟩
      subst hencoded
      rcases hcase with
        ⟨rfl, rfl, hfits⟩ | ⟨hne, rfl, hp₂, b, hrecords, hb, hwrote⟩
      · refine (storeEncoded_ends (x := x) hp' rfl hbelow).mono ?_ ?_
        · intro _ w' ⟨blocks, records', base', hwrote, hp'', hsplit, hneat, hfit⟩
          exact ⟨blocks, records', base', ⟨hwrote.config, hwrote.own, hwrote.inner⟩, hp'', hsplit,
            fun hn => hneat (hn.baseFor hp r) hfits, fun _ => hfit hfits⟩
        · rintro _ w' (⟨hd, hnone⟩ | hfallible)
          · exact Or.inr (Or.inl ⟨hd, [], ⟨hnone.config, nofun, hnone.inner⟩, fun _ => nofun⟩)
          · exact Or.inr (Or.inr hfallible)
      · have hcut : w.Wrote (x := x) w₂ [b] := ⟨hwrote.config, hwrote.own, hwrote.inner⟩
        have hbfits : w.Fits records → b.Fits := fun hf =>
          Fits.block (w := w.withBase (w.baseFor r)) hf hp' hne hrecords hb
            (hwrote.own b (mem_singleton_self b))
        refine (storeEncoded_ends (x := x) hp₂ hbase₂ hbelow₂).mono ?_ ?_
        · intro _ w' ⟨blocks, records', base', hwrote', hp'', hsplit, hneat, hfit⟩
          refine ⟨b :: blocks, records', base', hcut.trans hwrote', hp'', ?_, ?_, ?_⟩
          · rw [flatMap_cons, hrecords, append_assoc, ← hsplit]
            rfl
          · intro hn
            obtain ⟨hn', hblocks⟩ := hneat (fun r₀ hr₀ => by
              cases hr₀
              rfl) (fun h => absurd rfl h)
            refine ⟨hn', forall_mem_cons.mpr ⟨⟨hrecords ▸ hne, ?_,
              (hbfits hn.target).target⟩, hblocks⟩⟩
            rw [hrecords, hb]
            intro r₀ hr₀
            exact hn.baseFor hp r r₀ (by rw [head?_append, hr₀]; rfl)
          · intro hf
            obtain ⟨hfit', hblocks⟩ := hfit fun h => absurd rfl h
            exact ⟨hfit', forall_mem_cons.mpr ⟨hbfits hf, hblocks⟩⟩
        · rintro _ w' (⟨hd, hnone⟩ | hfallible)
          · refine Or.inr (Or.inl ⟨hd, [b], hcut.trans hnone, ?_⟩)
            exact fun hf => forall_mem_singleton.mpr (hbfits hf)
          · exact Or.inr (Or.inr hfallible)
    · intro _ w' hcase
      rcases hcase with rfl | hf
      · exact Or.inl ⟨_, hp', rfl, rfl, rfl⟩
      · exact Or.inr (Or.inr hf)
  · intro _ w' hw'
    subst hw'
    exact Or.inl ⟨_, hp', rfl, rfl, rfl⟩

theorem push_opening_eq
    (hbuf : w.payloadBuf = []) (hseq : w.blockBaseSeq = none) (hcount : w.recordCount = 0)
    (hlen : (r.encode ⟨r.seq, r.tsUnixNs⟩).length < 2 ^ 64) :
    push x r w = flushIfFull x { w with
      payloadBuf := r.encode ⟨r.seq, r.tsUnixNs⟩
      blockBaseSeq := some r.seq, blockBaseTsUnixNs := some r.tsUnixNs
      recordCount := 1 } := by
  obtain ⟨inner, config, buf, baseSeq, baseTs, count⟩ := w
  subst hbuf hseq hcount
  have hpayload := r.encode_length ⟨r.seq, r.tsUnixNs⟩
  have hencode : encodeAgainstBase r (⟨inner, config, [], none, baseTs, 0⟩ : LogjetWriter W)
        = .ok (r.encode ⟨r.seq, r.tsUnixNs⟩) ⟨inner, config, [], some r.seq,
          some r.tsUnixNs, 0⟩ := by
    have hends : Ends (encodeAgainstBase r) (⟨inner, config, [], none, baseTs, 0⟩ : LogjetWriter W)
        (fun encoded w' => encoded = r.encode ⟨r.seq, r.tsUnixNs⟩
          ∧ w' = ⟨inner, config, [], some r.seq, some r.tsUnixNs, 0⟩) (fun _ _ => False) := by
      refine Ends.bind ?_
      rw [Ends, takeBase_eq]
      refine Ends.bind (Ends.ensure (fun _ => ?_) fun h => h (UInt64.le_refl _))
      refine Ends.bind (Ends.ensure (fun _ => ?_) fun h => h (UInt64.le_refl _))
      refine Ends.bind (Ends.ensure (fun _ => ?_) fun h => h (by omega))
      exact ⟨rfl, rfl⟩
    obtain ⟨_, _, hrun, rfl, rfl⟩ := hends.returns
    exact hrun
  have hsplit : splitBlock x r (r.encode ⟨r.seq, r.tsUnixNs⟩)
      (⟨inner, config, [], some r.seq, some r.tsUnixNs, 0⟩ : LogjetWriter W)
        = .ok (r.encode ⟨r.seq, r.tsUnixNs⟩)
          ⟨inner, config, [], some r.seq, some r.tsUnixNs, 0⟩ := by
    have hends : Ends (splitBlock x r (r.encode ⟨r.seq, r.tsUnixNs⟩))
        (⟨inner, config, [], some r.seq, some r.tsUnixNs, 0⟩ : LogjetWriter W)
        (fun encoded w' => encoded = r.encode ⟨r.seq, r.tsUnixNs⟩
          ∧ w' = ⟨inner, config, [], some r.seq, some r.tsUnixNs, 0⟩) (fun _ _ => False) := by
      refine Ends.get (Ends.bind (Ends.ensure (fun _ => ?_)
        fun h => h (lt_of_eq_of_lt (Nat.zero_add _) hlen)))
      exact Ends.ite (fun h => absurd h Bool.false_ne_true) fun _ => ⟨rfl, rfl⟩
    obtain ⟨_, _, hrun, rfl, rfl⟩ := hends.returns
    exact hrun
  rw [push, bind_of_ok hencode, bind_of_ok hsplit]
  rfl

theorem push_opening
    (hbuf : w.payloadBuf = []) (hseq : w.blockBaseSeq = none) (hcount : w.recordCount = 0)
    (hlen : (r.encode ⟨r.seq, r.tsUnixNs⟩).length < 2 ^ 64)
    (htarget : (r.encode ⟨r.seq, r.tsUnixNs⟩).length < w.config.blockTargetSize) :
    push x r w = .ok () { w with
      payloadBuf := r.encode ⟨r.seq, r.tsUnixNs⟩
      blockBaseSeq := some r.seq, blockBaseTsUnixNs := some r.tsUnixNs
      recordCount := 1 } := by
  rw [push_opening_eq hbuf hseq hcount hlen, flushIfFull, get_bind]
  exact congrFun (if_neg (Nat.not_le.mpr htarget)) _

theorem flushBlock_unpadded {w : LogjetWriter W} {body : Bytes} {inner : W}
    (hne : w.payloadBuf ≠ []) (hbuild : buildBlock x w.config w.payloadBuf w.blockBaseSeq
      w.blockBaseTsUnixNs w.recordCount = .ok body) (halign : w.config.blockAlignment = 0)
    (hwrite : Sink.writeAll body w.inner = .ok () inner) :
    flushBlock x w = .ok () (resetBlockState { w with inner }) := by
  have hpad : padding w.config body.length = [] := by simp [padding, halign]
  have hinner : writeInner body w = .ok () { w with inner } := by simp only [writeInner, hwrite]
  simp only [flushBlock, get_bind, List.isEmpty_iff, hne, if_false, hbuild, ofExcept_ok_bind, hpad]
  rw [bind_of_ok hinner]
  rfl

theorem Doomed.run (hd : w.Doomed x) (op : WriterOp) :
    (op.run x w).2.Doomed x ∧ w.Wrote (x := x) (op.run x w).2 [] := by
  cases op with
  | push r =>
    cases hrun : push x r w with
    | ok u w' =>
      simp only [WriterOp.run, hrun]
      exact (hd.push_ends r).ok hrun
    | error err w' =>
      simp only [WriterOp.run, hrun]
      exact (hd.push_ends r).error hrun
  | flushBlock =>
    obtain ⟨err, herr⟩ := hd.unbuildable
    simp only [WriterOp.run, flushBlock_of_error hd.nonempty herr]
    exact ⟨hd, .refl w⟩

section Keeps

variable {R : W → W → Prop}

theorem writeChunks_keeps (hR : Sink.Keeps R) (chunks : List Bytes) (inner : W) :
    Ends (writeChunks chunks) inner (fun _ w' => R inner w') fun _ w' => R inner w' := by
  induction chunks generalizing inner with
  | nil => exact hR.refl inner
  | cons chunk chunks ih =>
    refine Ends.bind ((hR.write chunk inner).mono ?_ fun _ _ h => h)
    intro _ inner₁ h₁
    exact (ih inner₁).mono (fun _ _ h => hR.trans h₁ h) fun _ _ h => hR.trans h₁ h

theorem flushBlock_keeps (hR : Sink.Keeps R) (w : LogjetWriter W) :
    Ends (flushBlock x) w (fun _ w' => R w.inner w'.inner) fun _ w' => R w.inner w'.inner := by
  apply Ends.get
  apply Ends.ite
  · intro _
    exact hR.refl _
  · intro _
    cases buildBlock x w.config w.payloadBuf w.blockBaseSeq w.blockBaseTsUnixNs w.recordCount with
    | error e => exact hR.refl _
    | ok body =>
      exact writeBlock_ends (fun inner h => (writeChunks_keeps hR _ w.inner).ok h)
        fun err inner h => (writeChunks_keeps hR _ w.inner).error h

theorem push_keeps (hR : Sink.Keeps R) (r : OwnedRecord) (w : LogjetWriter W) :
    Ends (push x r) w (fun _ w' => R w.inner w'.inner) fun _ w' => R w.inner w'.inner := by
  have hencode : Ends (encodeAgainstBase r) w
      (fun _ w' => R w.inner w'.inner) fun _ w' => R w.inner w'.inner := by
    refine Ends.bind ?_
    rw [Ends, takeBase_eq]
    refine Ends.bind (Ends.ensure (fun _ => ?_) fun _ => hR.refl _)
    refine Ends.bind (Ends.ensure (fun _ => ?_) fun _ => hR.refl _)
    exact Ends.bind (Ends.ensure (fun _ => hR.refl _) fun _ => hR.refl _)
  refine Ends.bind (hencode.mono ?_ fun _ _ h => h)
  intro encoded w₁ h₁
  have hsplit : Ends (splitBlock x r encoded) w₁
      (fun _ w' => R w.inner w'.inner) fun _ w' => R w.inner w'.inner := by
    apply Ends.get
    refine Ends.bind (Ends.ensure (fun _ => ?_) fun _ => h₁)
    apply Ends.ite
    · intro _
      exact Ends.bind ((flushBlock_keeps hR w₁).mono
        (fun _ _ h => hR.trans h₁ h) fun _ _ h => hR.trans h₁ h)
    · intro _
      exact h₁
  refine Ends.bind (hsplit.mono ?_ fun _ _ h => h)
  intro encoded w₂ h₂
  have hstore : Ends (appendEncoded encoded) w₂
      (fun _ w' => R w.inner w'.inner) fun _ w' => R w.inner w'.inner := by
    refine Ends.modify (Ends.get ?_)
    exact Ends.bind (Ends.ensure (fun _ => h₂) fun _ => h₂)
  refine Ends.bind (hstore.mono ?_ fun _ _ h => h)
  intro _ w₃ h₃
  refine Ends.get (Ends.ite (fun _ => ?_) fun _ => h₃)
  exact (flushBlock_keeps hR w₃).mono (fun _ _ h => hR.trans h₃ h) fun _ _ h => hR.trans h₃ h

end Keeps

theorem writeChunks_memory (chunks inner : List Bytes) :
    writeChunks chunks inner = .ok () (inner ++ chunks) := by
  induction chunks generalizing inner with
  | nil => rw [append_nil]; rfl
  | cons chunk chunks ih =>
    have hone : Sink.writeAll chunk inner = .ok () (inner ++ [chunk]) := rfl
    rw [writeChunks, bind_of_ok hone, ih, append_assoc]
    rfl

theorem not_fallible_memory : ¬ Fallible (List Bytes) := by
  rintro ⟨chunks, inner, inner', err, h⟩
  rw [writeChunks_memory] at h
  cases h

def Accounts (x : External) (config : WriterConfig)
    (accepted : List OwnedRecord) (w : LogjetWriter (List Bytes)) : Prop :=
  (∃ (blocks : List (Block x)) (records : List OwnedRecord) (base : BlockHeaderExt),
    w.config = config ∧ w.inner = blocks.flatMap Block.chunks
      ∧ (∀ b ∈ blocks, b.config = config) ∧ w.Pending records base
      ∧ accepted = blocks.flatMap Block.records ++ records) ∨ w.Doomed x

theorem accounts_inMemory (config : WriterConfig) : Accounts x config [] (inMemory config) :=
  Or.inl ⟨[], [], ⟨0, 0⟩, rfl, rfl, nofun, ⟨nofun, nofun, rfl, rfl⟩, rfl⟩

variable {w : LogjetWriter (List Bytes)}

theorem Accounts.extend {w' : LogjetWriter (List Bytes)} {blocks blocks' : List (Block x)}
    (hconfig : w.config = config) (hinner : w.inner = blocks.flatMap Block.chunks)
    (hown : ∀ b ∈ blocks, b.config = config) (hwrote : w.Wrote w' blocks')
    (hp : w'.Pending records base) (hacc : accepted = blocks.flatMap Block.records
      ++ (blocks'.flatMap Block.records ++ records)) : Accounts x config accepted w' := by
  have hinner' : w'.inner = (blocks ++ blocks').flatMap Block.chunks := by
    have hw := hwrote.inner
    rw [writeChunks_memory, hinner, EStateM.Result.ok.injEq] at hw
    rw [flatMap_append]
    exact hw.2.symm
  refine Or.inl ⟨blocks ++ blocks', records, base, hwrote.config.trans hconfig, hinner', ?_, hp, ?_⟩
  · intro b hb
    rcases mem_append.mp hb with hb | hb
    · exact hown b hb
    · exact (hwrote.own b hb).trans hconfig
  · rw [hacc, flatMap_append, append_assoc]

theorem Accounts.step (h : Accounts x config accepted w) (op : WriterOp) :
    Accounts x config (accepted ++ (op.run x w).1) (op.run x w).2 := by
  rcases h with ⟨blocks, records, base, hconfig, hinner, hown, hp, rfl⟩ | hd
  · cases op with
    | push r =>
      have hends := push_ends (x := x) hp r
      cases hrun : push x r w with
      | ok u w' =>
        simp only [WriterOp.run, hrun]
        obtain ⟨blocks', records', base', hwrote, hp', hsplit, -⟩ := hends.ok hrun
        exact Accounts.extend hconfig hinner hown hwrote hp' (by rw [append_assoc, hsplit])
      | error err w' =>
        simp only [WriterOp.run, hrun, append_nil]
        rcases hends.error hrun with
          ⟨base', hp', hsame, hconf, -⟩ | ⟨hd, -⟩ | hf
        · exact Or.inl ⟨blocks, records, base', hconf.trans hconfig,
            hsame.trans hinner, hown, hp', rfl⟩
        · exact Or.inr hd
        · exact absurd hf not_fallible_memory
    | flushBlock =>
      have hends := flushBlock_ends (x := x) hp
      cases hrun : flushBlock x w with
      | ok u w' =>
        simp only [WriterOp.run, hrun, append_nil]
        rcases hends.ok hrun with
          ⟨rfl, rfl⟩ | ⟨-, hempty, -, b, rfl, -, hwrote⟩
        · exact Or.inl ⟨blocks, [], base, hconfig, hinner, hown, hp, rfl⟩
        · exact Accounts.extend hconfig hinner hown hwrote hempty (by simp)
      | error err w' =>
        simp only [WriterOp.run, hrun, append_nil]
        rcases hends.error hrun with ⟨rfl, -⟩ | hf
        · exact Or.inl ⟨blocks, records, base, hconfig, hinner, hown, hp, rfl⟩
        · exact absurd hf not_fallible_memory
  · exact Or.inr (hd.run op).1

theorem Accounts.run (h : Accounts x config accepted w) (ops : List WriterOp) :
    Accounts x config (accepted ++ (runOps x ops w).1) (runOps x ops w).2 := by
  induction ops generalizing accepted w with
  | nil => simpa [runOps] using h
  | cons op ops ih =>
    have hrest := ih (h.step op)
    rw [append_assoc] at hrest
    exact hrest

theorem Accounts.intoInner (h : Accounts x config accepted w) (hinto : intoInner x w = .ok chunks) :
    ∃ blocks : List (Block x), chunks = blocks.flatMap Block.chunks
      ∧ accepted = blocks.flatMap Block.records ∧ ∀ b ∈ blocks, b.config = config := by
  unfold LogjetWriter.intoInner at hinto
  rcases h with ⟨blocks, records, base, hconfig, hinner, hown, hp, rfl⟩ | hd
  · have hends := flushBlock_ends (x := x) hp
    cases hrun : flushBlock x w with
    | error err w' =>
      rw [hrun] at hinto
      cases hinto
    | ok u w' =>
      rw [hrun] at hinto
      cases hinto
      rcases hends.ok hrun with
        ⟨rfl, rfl⟩ | ⟨-, -, -, b, rfl, -, hwrote⟩
      · exact ⟨blocks, hinner, by simp, hown⟩
      · have hw := hwrote.inner
        rw [writeChunks_memory, hinner, EStateM.Result.ok.injEq] at hw
        refine ⟨blocks ++ [b], ?_, by simp, ?_⟩
        · rw [flatMap_append]
          exact hw.2.symm
        · intro b' hb'
          rcases mem_append.mp hb' with hb' | hb'
          · exact hown b' hb'
          · exact (hwrote.own b' hb').trans hconfig
  · obtain ⟨err, herr⟩ := hd.unbuildable
    rw [flushBlock_of_error hd.nonempty herr] at hinto
    cases hinto

end LogjetWriter

end Logjet
