/-
What a keep-mode replay client is sent while records come in: over any
interleaving the ascent of the accepted records (`delivered_eq_ascent`).
-/
import Logjet.Daemon.Ingest
import Logjet.Spool.Proofs.Buffer

namespace Logjet

open List Ascent Reference Transition

structure Replayed (records : List WireRecord) (c : BufferReplayCursor)
    (delivered : List WireRecord) : Prop where
  inside : c.nextIndex ≤ records.length
  behind : ∀ r ∈ records.take c.nextIndex, r.seq ≤ c.lastSeq
  ascent : ∀ tail, ascent OwnedRecord.seq 0 (records.take c.nextIndex ++ tail)
    = delivered ++ Ascent.ascent OwnedRecord.seq c.lastSeq tail

namespace Replayed

variable {records delivered : List WireRecord} {c : BufferReplayCursor}

theorem start (sp : BufferSpool) : Replayed sp.records (sp.replayCursorAfter 0) [] := by
  obtain ⟨i, hi, hinside, hzero⟩ : ∃ i, sp.replayCursorAfter 0 = ⟨i, 0⟩ ∧ i ≤ sp.records.length
      ∧ ∀ r ∈ sp.records.take i, r.seq ≤ 0 := by
    cases hfind : sp.records.findIdx? fun r => r.seq > 0 with
    | none =>
      refine ⟨_, by simp only [BufferSpool.replayCursorAfter, hfind]; rfl, Nat.le_refl _, ?_⟩
      intro r hr
      simpa using findIdx?_eq_none_iff.mp hfind r (mem_of_mem_take hr)
    | some i =>
      obtain ⟨hlt, -, hbefore⟩ := findIdx?_eq_some_iff_getElem.mp hfind
      refine ⟨i, by simp only [BufferSpool.replayCursorAfter, hfind]; rfl, Nat.le_of_lt hlt, ?_⟩
      intro r hr
      obtain ⟨j, hj, rfl⟩ := mem_take_iff_getElem.mp hr
      simpa using hbefore j (by omega)
  rw [hi]
  refine ⟨hinside, hzero, ?_⟩
  intro tail
  exact ascent_append_of_not_lt (fun r hr => UInt64.not_lt.mpr (hzero r hr)) tail

theorem append (h : Replayed records c delivered) (r : WireRecord) :
    Replayed (records ++ [r]) c delivered := by
  have htake : (records ++ [r]).take c.nextIndex
      = records.take c.nextIndex := take_append_of_le_length h.inside
  refine ⟨?_, htake ▸ h.behind, htake ▸ h.ascent⟩
  rw [length_append]
  exact Nat.le_add_right_of_le h.inside

theorem next {sp : BufferSpool} (h : Replayed sp.records c delivered) :
    Replayed sp.records (sp.nextForCursor c).2 (delivered ++ (sp.nextForCursor c).1.toList) := by
  rcases BufferSpool.nextForCursor_spec (fun _ => h.behind) with ⟨hnone, -⟩
    | ⟨before, r, after, hsplit, hbefore, habove, hsome⟩
  · rw [hnone]
    simpa using h
  · have hindex : c.nextIndex ≤ before.length := by
      apply Nat.le_of_not_lt
      intro hlt
      have hmem : r ∈ sp.records.take c.nextIndex := by
        rw [hsplit, take_append, mem_append]
        right
        obtain ⟨n, hn⟩ := Nat.exists_eq_add_of_lt hlt
        rw [show c.nextIndex - before.length = n + 1 by omega]
        exact mem_cons_self
      exact absurd (h.behind r hmem) (UInt64.not_le.mpr habove)
    have htake : sp.records.take (before.length + 1) = before ++ [r] := by
      rw [hsplit, take_append, take_of_length_le (by omega)]
      simp
    have hskipped : sp.records.take c.nextIndex ++ before.drop c.nextIndex = before := by
      rw [hsplit, take_append_of_le_length hindex, take_append_drop]
    rw [hsome]
    refine ⟨?_, ?_, ?_⟩
    · rw [hsplit]
      simp
    · rw [htake]
      intro q hq
      rcases mem_snoc.mp hq with hq | rfl
      · exact UInt64.le_of_lt (UInt64.lt_of_le_of_lt (hbefore q hq) habove)
      · exact UInt64.le_refl _
    · intro tail
      rw [htake, ← hskipped, append_assoc, append_assoc, h.ascent,
        ascent_append_of_not_lt, singleton_append,
        ascent_cons_of_lt habove, Option.toList_some, append_assoc]
      · rfl
      · intro q hq
        exact UInt64.not_lt.mpr (hbefore q (mem_of_mem_drop hq))

end Replayed

section Runs

variable {ι κ : Type} {events : List (IngestEvent ι κ)} {d d' : Daemon ι κ}

theorem acceptedBy_snoc (events : List (IngestEvent ι κ)) (e : IngestEvent ι κ) :
    acceptedBy (events ++ [e]) = acceptedBy events ++ acceptedBy [e] := filterMap_append

theorem deliveredBy_snoc (events : List (IngestEvent ι κ)) (e : IngestEvent ι κ) :
    deliveredBy (events ++ [e]) = deliveredBy events ++ deliveredBy [e] := filterMap_append

theorem deliveredBy_next (found : Option WireRecord) :
    deliveredBy [(.next found : IngestEvent ι κ)] = found.toList := by
  cases found with
  | none => rfl
  | some r => rfl

structure Keeps (events : List (IngestEvent ι κ)) (d : Daemon ι κ) : Prop where
  records : d.spool.records = acceptedBy events
  unasked : d.cursor = none → deliveredBy events = []
  replayed : ∀ c, d.cursor = some c → Replayed d.spool.records c (deliveredBy events)

theorem keeps_start (config : BufferConfig) (fresh seed : UInt64) (frames : κ → List WireRecord) :
    Keeps ([] : List (IngestEvent ι κ)) (.start (.new config fresh) seed frames) where
  records := rfl
  unasked := fun _ => rfl
  replayed := by
    intro c hc
    cases hc

theorem Keeps.append (h : Keeps events d) {e : IngestEvent ι κ}
    {r : WireRecord} (haccepted : acceptedBy [e] = [r])
    (hdelivered : deliveredBy [e] = []) (hroom : d.spool.Admits r)
    (hspool : d'.spool = d.spool.append r) (hcursor : d'.cursor = d.cursor) :
    Keeps (events ++ [e]) d' := by
  have hrecords : d'.spool.records = d.spool.records ++ [r] := by
    rw [hspool]
    exact hroom
  have hquiet : deliveredBy (events ++ [e]) = deliveredBy events := by
    rw [deliveredBy_snoc, hdelivered, append_nil]
  refine ⟨?_, ?_, ?_⟩
  · rw [hrecords, h.records, acceptedBy_snoc, haccepted]
  · rw [hcursor, hquiet]
    exact h.unasked
  · intro c hc
    rw [hrecords, hquiet]
    exact (h.replayed c (hcursor ▸ hc)).append r

variable {e : IngestEvent ι κ} {config : BufferConfig} {fresh seed : UInt64}
  {frames : κ → List WireRecord} {c : BufferReplayCursor}

theorem Keeps.aside (h : Keeps events d)
    (haccepted : acceptedBy [e] = []) (hdelivered : deliveredBy [e] = [])
    (hspool : d'.spool = d.spool) (hcursor : d'.cursor = d.cursor) : Keeps (events ++ [e]) d' := by
  have hquiet : deliveredBy (events ++ [e]) = deliveredBy events := by
    rw [deliveredBy_snoc, hdelivered, append_nil]
  refine ⟨?_, ?_, ?_⟩
  · rw [hspool, h.records, acceptedBy_snoc, haccepted, append_nil]
  · rw [hcursor, hquiet]
    exact h.unasked
  · intro c hc
    rw [hspool, hquiet]
    exact h.replayed c (hcursor ▸ hc)

variable [DecidableEq ι] [DecidableEq κ]

theorem Keeps.step (h : Keeps events d) (hstep : IngestStep d e d') : Keeps (events ++ [e]) d' := by
  cases hstep with
  | number batch hidle => exact h.aside rfl rfl rfl rfl
  | append hnumbered hroom => exact h.append rfl rfl hroom rfl rfl
  | appendFrame hframe hroom => exact h.append rfl rfl hroom rfl rfl
  | dropFrame hframe => exact h.aside rfl rfl rfl rfl
  | request hfirst =>
    refine ⟨?_, ?_, ?_⟩
    · rw [acceptedBy_snoc]
      exact h.records.trans (append_nil _).symm
    · intro hnone
      cases hnone
    · intro c hc
      cases hc
      rw [deliveredBy_snoc, h.unasked hfirst]
      exact Replayed.start d.spool
  | next hcursor =>
    refine ⟨?_, ?_, ?_⟩
    · rw [acceptedBy_snoc]
      exact h.records.trans (append_nil _).symm
    · intro hnone
      cases hnone
    · intro c hc
      cases hc
      rw [deliveredBy_snoc, deliveredBy_next]
      exact (h.replayed _ hcursor).next

theorem keeps_of_run
    (hrun : Run IngestStep (.start (.new config fresh) seed frames) events d) : Keeps events d := by
  induction hrun with
  | nil => exact keeps_start config fresh seed frames
  | snoc _ hstep ih => exact ih.step hstep

theorem delivered_eq_ascent
    (hrun : Run IngestStep (.start (.new config fresh) seed frames) events d)
    (hcursor : d.cursor = some c) (hnone : (d.spool.nextForCursor c).1 = none) :
    deliveredBy events = ascent OwnedRecord.seq 0 (acceptedBy events) := by
  have h := keeps_of_run hrun
  have hreplayed := h.replayed c hcursor
  have hall : ∀ r ∈ d.spool.records, r.seq ≤ c.lastSeq := by
    rcases BufferSpool.nextForCursor_spec (fun _ => hreplayed.behind)
      with ⟨-, hall⟩ | ⟨before, r, after, -, -, -, hsome⟩
    · exact hall
    · rw [hsome] at hnone
      cases hnone
  have hascent := hreplayed.ascent (d.spool.records.drop c.nextIndex)
  rw [take_append_drop, h.records] at hascent
  rw [hascent, ← append_nil (List.drop _ _), ascent_append_of_not_lt, ascent_nil, append_nil]
  intro r hr
  rw [← h.records] at hr
  exact UInt64.not_lt.mpr (hall r (mem_of_mem_drop hr))

def InOrder (accepted : List WireRecord) : Prop :=
  (∀ r ∈ accepted, 0 < r.seq) ∧ accepted.Pairwise fun a b => a.seq < b.seq

theorem delivers_all_iff (hrun : Run IngestStep (.start (.new config fresh) seed frames) events d)
    (hcursor : d.cursor = some c)
    (hnone : (d.spool.nextForCursor c).1 = none) : (deliveredBy events).Perm (acceptedBy events)
      ↔ InOrder (acceptedBy events) := by
  rw [delivered_eq_ascent hrun hcursor hnone, InOrder, ← ascent_eq_self_iff]
  constructor
  · intro hperm
    exact (ascent_sublist _ _).eq_of_length hperm.length_eq
  · intro heq
    rw [heq]

end Runs

/-- Every OTLP batch reaches the consumer iff they came in order. -/
theorem otlp_delivers_all_iff {ι : Type} [DecidableEq ι]
    (config : BufferConfig) (fresh seed : UInt64)
    {events : List (IngestEvent ι Empty)} {d : Daemon ι Empty}
    (hrun : Run IngestStep (.start (.new config fresh) seed Empty.elim) events d)
    {c : BufferReplayCursor} (hcursor : d.cursor = some c)
    (hnone : (d.spool.nextForCursor c).1 = none) : (deliveredBy events).Perm (acceptedBy events)
      ↔ InOrder (acceptedBy events) := delivers_all_iff hrun hcursor hnone

def roomyConfig : BufferConfig := { limit := .messages 100, keepMessages := 0 }

def sampleBatch : Batch := { recordType := .logs, tsUnixNs := 5, payload := [42] }

theorem otlp_delivers_in_turn : ∃ (events : List (IngestEvent Bool Empty)) (d : Daemon Bool Empty)
      (c : BufferReplayCursor), Run IngestStep (.start (.new roomyConfig 7) 1 Empty.elim) events d
        ∧ d.cursor = some c ∧ (d.spool.nextForCursor c).1 = none
        ∧ (acceptedBy events).map OwnedRecord.seq = [1, 2]
        ∧ (deliveredBy events).Perm (acceptedBy events) := by
  have r₁ : Run IngestStep (Daemon.start (.new roomyConfig 7) 1 Empty.elim)
      _ _ := .snoc .nil (@IngestStep.number Bool Empty _ _ _ true sampleBatch rfl)
  have r₂ := r₁.snoc (@IngestStep.number _ _ _ _ _ false sampleBatch rfl)
  have r₃ := r₂.snoc (@IngestStep.append _ _ _ _ _ true _ rfl (by decide +kernel))
  have r₄ := r₃.snoc (@IngestStep.append _ _ _ _ _ false _ rfl (by decide +kernel))
  have r₅ := r₄.snoc (.request rfl)
  have r₆ := r₅.snoc (.next rfl)
  have r₇ := r₆.snoc (.next rfl)
  refine ⟨_, _, _, r₇, rfl, by decide +kernel, by decide +kernel, ?_⟩
  rw [otlp_delivers_all_iff roomyConfig 7 1 r₇ rfl (by decide +kernel)]
  exact ⟨by decide +kernel, by decide +kernel⟩

theorem otlp_skips_overtaken : ∃ (events : List (IngestEvent Bool Empty)) (d : Daemon Bool Empty)
      (c : BufferReplayCursor), Run IngestStep (.start (.new roomyConfig 7) 1 Empty.elim) events d
        ∧ d.cursor = some c ∧ (d.spool.nextForCursor c).1 = none
        ∧ sampleBatch.record 1 ∈ acceptedBy events ∧ sampleBatch.record 1 ∉ deliveredBy events := by
  have r₁ : Run IngestStep (Daemon.start (.new roomyConfig 7) 1 Empty.elim)
      _ _ := .snoc .nil (@IngestStep.number Bool Empty _ _ _ true sampleBatch rfl)
  have r₂ := r₁.snoc (@IngestStep.number _ _ _ _ _ false sampleBatch rfl)
  have r₃ := r₂.snoc (@IngestStep.append _ _ _ _ _ false _ rfl (by decide +kernel))
  have r₄ := r₃.snoc (.request rfl)
  have r₅ := r₄.snoc (.next rfl)
  have r₆ := r₅.snoc (@IngestStep.append _ _ _ _ _ true _ rfl (by decide +kernel))
  exact ⟨_, _, _, r₆, rfl, by decide +kernel, by decide +kernel, by decide +kernel⟩

/-- Every wire record reaches the consumer iff they came in order. -/
theorem wire_delivers_all_iff {ι κ : Type} [DecidableEq ι] [DecidableEq κ]
    (config : BufferConfig) (fresh seed : UInt64)
    (frames : κ → List WireRecord) {events : List (IngestEvent ι κ)} {d : Daemon ι κ}
    (hrun : Run IngestStep (.start (.new config fresh) seed frames) events d)
    {c : BufferReplayCursor} (hcursor : d.cursor = some c)
    (hnone : (d.spool.nextForCursor c).1 = none) : (deliveredBy events).Perm (acceptedBy events)
      ↔ InOrder (acceptedBy events) := delivers_all_iff hrun hcursor hnone

theorem wire_delivers_counted : ∃ (events : List (IngestEvent Empty Unit)) (d : Daemon Empty Unit)
      (c : BufferReplayCursor), Run IngestStep (.start (.new roomyConfig 7) 1
          fun _ => [smallRecord 1, smallRecord 2]) events d
        ∧ d.cursor = some c ∧ (d.spool.nextForCursor c).1 = none
        ∧ (acceptedBy events).map OwnedRecord.seq = [1, 2]
        ∧ (deliveredBy events).Perm (acceptedBy events) := by
  have r₁ : Run IngestStep (Daemon.start (.new roomyConfig 7) 1
      fun _ => [smallRecord 1, smallRecord 2]) _ _ :=
    .snoc .nil (@IngestStep.appendFrame Empty Unit _ _ _ () _ _ rfl (by decide +kernel))
  have r₂ := r₁.snoc (.request rfl)
  have r₃ := r₂.snoc (.next rfl)
  have r₄ := r₃.snoc (@IngestStep.appendFrame _ _ _ _ _ () _ _ rfl (by decide +kernel))
  have r₅ := r₄.snoc (.next rfl)
  refine ⟨_, _, _, r₅, rfl, by decide +kernel, by decide +kernel, ?_⟩
  rw [wire_delivers_all_iff roomyConfig 7 1 _ r₅ rfl (by decide +kernel)]
  exact ⟨by decide +kernel, by decide +kernel⟩

def twoSenders : Bool → List WireRecord
  | true => [smallRecord 1]
  | false => [sampleBatch.record 1]

theorem wire_skips_second_sender :
    ∃ (events : List (IngestEvent Empty Bool)) (d : Daemon Empty Bool) (c : BufferReplayCursor),
      Run IngestStep (.start (.new roomyConfig 7) 1 twoSenders) events d
        ∧ d.cursor = some c ∧ (d.spool.nextForCursor c).1 = none
        ∧ sampleBatch.record 1 ∈ acceptedBy events ∧ sampleBatch.record 1 ∉ deliveredBy events := by
  have r₁ : Run IngestStep (Daemon.start (.new roomyConfig 7) 1 twoSenders)
      _ _ := .snoc .nil (@IngestStep.appendFrame Empty Bool _ _ _ true _ _ rfl (by decide +kernel))
  have r₂ := r₁.snoc (@IngestStep.appendFrame _ _ _ _ _ false _ _ rfl (by decide +kernel))
  have r₃ := r₂.snoc (.request rfl)
  have r₄ := r₃.snoc (.next rfl)
  exact ⟨_, _, _, r₄, rfl, by decide +kernel, by decide +kernel, by decide +kernel⟩

end Logjet
