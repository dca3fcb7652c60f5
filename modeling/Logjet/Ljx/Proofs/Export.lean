/-
A selection of records in any order can be written and read back (`Keeping`).
-/
import Logjet.Ljx.Export
import Logjet.Proofs.Cutting
import Logjet.Proofs.Monotonic
import Logjet.Proofs.Stream

namespace Logjet

open List

open EStateM (Ends)

variable {x : External} {config : WriterConfig} {accepted : List OwnedRecord} {r : OwnedRecord}

namespace LogjetWriter.Tidy

variable {w w' : LogjetWriter (List Bytes)}

theorem below_of_empty (h : Tidy x config accepted w)
    (hempty : w.pendingBytes = 0) (r : OwnedRecord) : (w.baseFor r).Below r := by
  obtain ⟨blocks, pending, base, -, -, -, hp, hn, -⟩ := h
  have hnil : pending = [] := by
    rw [← encodeRecords_eq_nil, ← hp.buf]
    exact length_eq_zero_iff.mp hempty
  subst hnil
  rw [hn.baseFor hp r r rfl]
  exact ⟨UInt64.le_refl _, UInt64.le_refl _⟩

theorem below_of_last (h : Tidy x config (accepted ++ [r]) w)
    (hpending : 0 < w.pendingBytes) {r' : OwnedRecord}
    (hseq : r.seq ≤ r'.seq) (hts : r.tsUnixNs ≤ r'.tsUnixNs) : (w.baseFor r').Below r' := by
  obtain ⟨blocks, pending, base, -, -, -, hp, -, hall⟩ := h
  have hne : pending ≠ [] := by
    rintro rfl
    rw [pendingBytes, hp.buf] at hpending
    exact Nat.lt_irrefl 0 hpending
  obtain ⟨hbaseSeq, hbaseTs⟩ := hp.based hne
  have hbase : w.baseFor r' = base := by
    unfold baseFor
    rw [hbaseSeq, hbaseTs]
  obtain ⟨before, last, rfl⟩ := eq_nil_or_concat pending |>.resolve_left hne
  rw [concat_eq_append, ← append_assoc] at hall
  obtain ⟨-, hlast⟩ := append_inj' hall rfl
  cases hlast
  obtain ⟨hlow, hlow'⟩ := hp.below r (by simp)
  rw [hbase]
  exact ⟨UInt64.le_trans hlow hseq, UInt64.le_trans hlow' hts⟩

theorem flushBlock_ends (h : Tidy x config accepted w) : Ends (LogjetWriter.flushBlock x) w
      (fun _ w' => Tidy x config accepted w' ∧ w'.pendingBytes = 0)
      fun err _ => failedMonotonic (.error err) = false ∧ ¬ Buildable x config accepted := by
  cases hrun : LogjetWriter.flushBlock x w with
  | ok u w' =>
    rw [Ends, hrun]
    obtain ⟨htidy, hempty⟩ := h.flushBlock hrun
    exact ⟨htidy, congrArg List.length hempty⟩
  | error err w' =>
    rw [Ends, hrun]
    refine ⟨(flushBlock_not_failedMonotonic w).error hrun, ?_⟩
    intro hbuild
    obtain ⟨blocks, pending, base, rfl, -, -, hp, hn, rfl⟩ := h
    exact (flushBlock_returns not_fallible_memory hp (fun _ => hn)
      (hbuild.mono (suffix_append _ _).isInfix)).error hrun

theorem push_ends (h : Tidy x config accepted w) (hbelow : (w.baseFor r).Below r) :
    Ends (LogjetWriter.push x r) w (fun _ w' => Tidy x config (accepted ++ [r]) w')
      fun err _ => failedMonotonic (.error err) = false
        ∧ ¬ Buildable x config (accepted ++ [r]) := by
  cases hrun : LogjetWriter.push x r w with
  | ok u w' =>
    rw [Ends, hrun]
    exact h.push hrun
  | error err w' =>
    rw [Ends, hrun]
    refine ⟨?_, ?_⟩
    · cases hmono : failedMonotonic (.error err) with
      | false => rfl
      | true => exact absurd hbelow ((push_failedMonotonic r w).error hrun hmono).2
    · intro hbuild
      obtain ⟨w', hok⟩ := h.push_returns hbuild hbelow
      rw [hrun] at hok
      cases hok

end LogjetWriter.Tidy

namespace Ljx.ExportWriter

open LogjetWriter (Tidy)

variable {e : ExportWriter (List Bytes)} {records : List OwnedRecord}

theorem onLogjet_ends {W α : Type} {act : EStateM Error (LogjetWriter W) α}
    {e : ExportWriter W} {Q : α → ExportWriter W → Prop} {E : Error → ExportWriter W → Prop}
    (h : Ends act e.logjet (fun a logjet => Q a { e with logjet })
      fun err logjet => E err { e with logjet }) : Ends (onLogjet act) e Q E := by
  unfold Ends onLogjet at *
  cases hact : act e.logjet with
  | ok a logjet => rw [hact] at h; exact h
  | error err logjet => rw [hact] at h; exact h

structure Keeping (x : External) (config : WriterConfig)
    (accepted : List OwnedRecord) (e : ExportWriter (List Bytes)) : Prop where
  tidy : Tidy x config accepted e.logjet
  last : 0 < e.logjet.pendingBytes → ∃ lastSeq lastTs,
    e.blockLast = some (lastSeq, lastTs) ∧ ∀ r : OwnedRecord,
      lastSeq ≤ r.seq → lastTs ≤ r.tsUnixNs → (e.logjet.baseFor r).Below r

theorem keeping_inMemory (config : WriterConfig) :
    Keeping x config [] ⟨.withConfig [] config, none⟩ :=
  ⟨LogjetWriter.tidy_inMemory config, fun h => absurd h (Nat.lt_irrefl 0)⟩

theorem Keeping.below (h : Keeping x config accepted e)
    (hahead : e.fallsBehind r = false) : (e.logjet.baseFor r).Below r := by
  rcases Nat.eq_zero_or_pos e.logjet.pendingBytes with hempty | hpending
  · exact h.tidy.below_of_empty hempty r
  · obtain ⟨lastSeq, lastTs, hlast, hbelow⟩ := h.last hpending
    simp only [fallsBehind, hlast, hpending, decide_true, Bool.true_and,
      Bool.or_eq_false_iff, decide_eq_false_iff_not, UInt64.not_lt] at hahead
    exact hbelow r hahead.1 hahead.2

theorem Keeping.cutIfBehind (h : Keeping x config accepted e) (r : OwnedRecord) :
    Ends (cutIfBehind x r) e (fun _ e' => Tidy x config accepted e'.logjet
        ∧ (e'.logjet.baseFor r).Below r) fun err _ => failedMonotonic (.error err) = false
        ∧ ¬ Buildable x config accepted := by
  refine Ends.get (Ends.ite (fun _ => ?_) fun hahead => ?_)
  · refine Ends.bind (onLogjet_ends (h.tidy.flushBlock_ends.mono ?_ fun _ _ h => h))
    rintro _ logjet ⟨htidy, hempty⟩
    exact ⟨htidy, htidy.below_of_empty hempty r⟩
  · exact ⟨h.tidy, h.below (Bool.eq_false_iff.mpr hahead)⟩

theorem Keeping.push (h : Keeping x config accepted e) (r : OwnedRecord) :
    Ends (pushPreservingViewOrder x r) e (fun _ e' => Keeping x config (accepted ++ [r]) e')
      fun err _ => failedMonotonic (.error err) = false
        ∧ ¬ Buildable x config (accepted ++ [r]) := by
  refine Ends.bind ((h.cutIfBehind r).mono ?_ ?_)
  · rintro _ e₁ ⟨htidy, hbelow⟩
    refine Ends.bind (onLogjet_ends ((htidy.push_ends hbelow).mono ?_ fun _ _ h => h))
    intro _ logjet htidy'
    show Keeping x config (accepted ++ [r]) (noteLast r { e₁ with logjet })
    unfold noteLast
    by_cases hempty : logjet.pendingBytes = 0
    · rw [if_pos hempty]
      exact ⟨htidy', fun hpending => absurd hempty (Nat.ne_of_gt hpending)⟩
    · rw [if_neg hempty]
      exact ⟨htidy', fun hpending => ⟨r.seq, r.tsUnixNs, rfl,
        fun _ => htidy'.below_of_last hpending⟩⟩
  · rintro err _ ⟨hother, hbuild⟩
    exact ⟨hother, fun h => hbuild (h.mono (prefix_append accepted [r]).isInfix)⟩

theorem Keeping.pushSelection (h : Keeping x config accepted e) (records : List OwnedRecord) :
    Ends (pushSelection x records) e (fun _ e' => Keeping x config (accepted ++ records) e')
      fun err _ => failedMonotonic (.error err) = false
        ∧ ¬ Buildable x config (accepted ++ records) := by
  induction records generalizing accepted e with
  | nil =>
    rw [append_nil]
    exact h
  | cons r records ih =>
    have hall : accepted ++ r :: records = accepted ++ [r] ++ records := by simp
    rw [hall]
    refine Ends.bind ((h.push r).mono (fun _ _ h₁ => ih h₁) ?_)
    rintro err _ ⟨hother, hbuild⟩
    exact ⟨hother, fun h => hbuild (h.mono (prefix_append (accepted ++ [r]) records).isInfix)⟩

end Ljx.ExportWriter

namespace Ljx

open Reference
open LogjetWriter (push_opening_eq flushIfFull flushBlock_unpadded)
open ExportWriter (keeping_inMemory pushSelection)

theorem writeExportSelection_blocks {records : List OwnedRecord} {chunks : List Bytes}
    (h : writeExportSelection x config [] records = .ok chunks) :
    ∃ blocks : List (Block x), chunks = blocks.flatMap Block.chunks
      ∧ records = blocks.flatMap Block.records ∧ ∀ b ∈ blocks, b.config = config := by
  have hends := (keeping_inMemory (x := x) config).pushSelection records
  unfold writeExportSelection at h
  cases hrun : pushSelection x records ⟨.withConfig ([] : List Bytes) config, none⟩ with
  | error err e => rw [hrun] at h; cases h
  | ok u e =>
    rw [hrun] at h
    obtain ⟨blocks, pending, base, hconfig, hinner, hown, hp, -, hall⟩ := (hends.ok hrun).tidy
    have hacc : LogjetWriter.Accounts x config ([] ++ records) e.logjet :=
      Or.inl ⟨blocks, pending, base, hconfig, hinner, fun b hb => (hown b hb).1, hp, hall⟩
    exact hacc.intoInner h

/-- An exported selection reads back as it was. -/
theorem view_selection_round_trip (x : External) (hx : x.RoundTrip)
    (config : WriterConfig) (hwriter : config.syncMarker = defaultSyncMarker)
    (records : List OwnedRecord) (limits : ReaderConfig)
    (hreader : limits.syncMarker = defaultSyncMarker) :
    (∀ err, writeExportSelection x config ([] : List Bytes) records
        = .error err → failedMonotonic (.error err) = false) ∧ (Buildable x config records →
        ∃ chunks, writeExportSelection x config ([] : List Bytes) records = .ok chunks)
      ∧ ∀ chunks, writeExportSelection x config [] records = .ok chunks →
        (∀ chunk ∈ chunks, WithinLimits limits chunk) → chunks.flatten.length < 2 ^ 64 →
        uncompressedTotal chunks < 2 ^ 64 →
        ∃ r', Yields x (LogjetReader.withConfig chunks.flatten limits) records r'
          ∧ r'.stats.blocksBad = 0 := by
  have hends := (keeping_inMemory (x := x) config).pushSelection records
  rw [nil_append] at hends
  refine ⟨?_, ?_, ?_⟩
  · intro err h
    unfold writeExportSelection at h
    cases hrun : pushSelection x records ⟨.withConfig ([] : List Bytes) config, none⟩ with
    | error err' e =>
      rw [hrun] at h
      cases h
      exact (hends.error hrun).1
    | ok u e =>
      rw [hrun] at h
      change LogjetWriter.intoInner x e.logjet = .error err at h
      cases hflush : LogjetWriter.flushBlock x e.logjet with
      | ok u w => simp only [LogjetWriter.intoInner, hflush] at h; cases h
      | error err' w =>
        simp only [LogjetWriter.intoInner, hflush] at h
        cases h
        exact ((hends.ok hrun).tidy.flushBlock_ends.error hflush).1
  · intro hbuild
    unfold writeExportSelection
    cases hrun : pushSelection x records ⟨.withConfig ([] : List Bytes) config, none⟩ with
    | error err e => exact absurd hbuild (hends.error hrun).2
    | ok u e =>
      obtain ⟨blocks, hinto, -⟩ := (hends.ok hrun).tidy.intoInner_returns hbuild
      exact ⟨_, hinto⟩
  · intro chunks h hlimits hlength htotal
    obtain ⟨blocks, rfl, rfl, hown⟩ := writeExportSelection_blocks h
    have hm : Syncable limits.syncMarker := hreader ▸ defaultSyncMarker_syncable
    refine yields_chunks hx hm ?_ hlength htotal
    intro b hb
    refine ⟨by rw [hown b hb, hwriter, hreader], hlimits _ ?_⟩
    exact mem_flatMap.mpr ⟨b, hb, by simp [Block.chunks]⟩

def sampleSelection : List OwnedRecord :=
  [⟨.logs, 5, 9, [1, 2]⟩, ⟨.metrics, 3, 20, []⟩, ⟨.logs, 4, 7, [3]⟩]

def sampleExport : List Bytes :=
  match writeExportSelection external sampleConfig [] sampleSelection with
  | .ok chunks => chunks
  | .error _ => []

theorem view_selection_round_trip_sample :
    writeExportSelection external sampleConfig [] sampleSelection = .ok sampleExport
      ∧ ∃ r', Yields external (LogjetReader.withConfig sampleExport.flatten .default)
          sampleSelection r' ∧ r'.stats.blocksBad = 0 := by
  have hexport : writeExportSelection external sampleConfig []
      sampleSelection = .ok sampleExport := by decide +kernel
  refine ⟨hexport, (view_selection_round_trip external external_roundTrip
    sampleConfig rfl sampleSelection .default rfl).2.2 sampleExport hexport ?_ ?_ ?_⟩
  · decide +kernel
  · decide +kernel
  · decide +kernel

theorem buildBlock_congr {config config' : WriterConfig} (hcodec : config.codec = config'.codec)
    (hmarker : config.syncMarker = config'.syncMarker) (payload : Bytes)
    (baseSeq baseTs : Option UInt64) (count : UInt32) :
    buildBlock x config payload baseSeq baseTs count
      = buildBlock x config' payload baseSeq baseTs count := by
  unfold buildBlock
  rw [hcodec, hmarker]

theorem push_wide_default (inner : List Bytes) :
    LogjetWriter.push external wideRecord (.withConfig inner .default)
      = .ok () (.withConfig (inner ++ [wideBody]) .default) := by
  have hlen : (wideRecord.encode ⟨1, 1⟩).length = 2 ^ 32 - 1 := wideRecord_encode_length
  refine (push_opening_eq rfl rfl rfl (lt_of_eq_of_lt hlen (by decide))).trans ?_
  rw [flushIfFull, EStateM.get_bind]
  refine (congrFun (if_pos (le_of_le_of_eq
    (show 64 * 1024 ≤ 2 ^ 32 - 1 by decide) hlen.symm)) _).trans ?_
  have hbuild : buildBlock external .default (wideRecord.encode ⟨1, 1⟩)
      (some 1) (some 1) 1 = .ok wideBody := by
    rw [@buildBlock_congr external .default wideWriter rfl rfl]
    exact buildBlock_wide
  exact flushBlock_unpadded wideRecord_encode_ne_nil hbuild rfl rfl

theorem pushPreservingViewOrder_of_empty {W : Type} [Sink W]
    {w w' : LogjetWriter W} {last : Option (UInt64 × UInt64)} (hempty : w.pendingBytes = 0)
    (hpush : LogjetWriter.push x r w = .ok () w') (hempty' : w'.pendingBytes = 0) :
    ExportWriter.pushPreservingViewOrder x r ⟨w, last⟩ = .ok () ⟨w', none⟩ := by
  have hahead : ExportWriter.fallsBehind ⟨w, last⟩ r = false := by
    simp [ExportWriter.fallsBehind, hempty]
  have hcut : ExportWriter.cutIfBehind x r ⟨w, last⟩ = .ok () ⟨w, last⟩ := by
    simp only [ExportWriter.cutIfBehind, EStateM.get_bind, hahead]
    rfl
  have hpush' : ExportWriter.onLogjet (LogjetWriter.push x r) ⟨w, last⟩ = .ok () ⟨w', last⟩ := by
    simp only [ExportWriter.onLogjet, hpush]
  rw [ExportWriter.pushPreservingViewOrder, EStateM.bind_of_ok hcut, EStateM.bind_of_ok hpush']
  show EStateM.Result.ok () (ExportWriter.noteLast r ⟨w', last⟩) = _
  rw [ExportWriter.noteLast, if_pos hempty']

theorem pushSelection_wide (n : Nat) (inner : List Bytes) :
    pushSelection external (List.replicate n wideRecord) ⟨.withConfig inner .default, none⟩
      = .ok () ⟨.withConfig (inner ++ List.replicate n wideBody) .default, none⟩ := by
  induction n generalizing inner with
  | zero =>
    rw [replicate_zero, replicate_zero, append_nil]
    rfl
  | succ n ih =>
    have hone := @pushPreservingViewOrder_of_empty _ _ _ _ _ _
      none rfl (push_wide_default inner) rfl
    rw [replicate_succ, pushSelection, EStateM.bind_of_ok hone, ih,
      append_assoc, singleton_append, replicate_succ]

theorem writeExportSelection_wide (n : Nat) :
    writeExportSelection external .default [] (List.replicate n wideRecord)
      = .ok (List.replicate n wideBody) := by
  unfold writeExportSelection
  rw [pushSelection_wide, nil_append]
  rfl

theorem not_yields_wide (n : Nat) (hn : n = 2 ^ 32 + 1) :
    ¬ ∃ r', Yields external (LogjetReader.withConfig
        (List.replicate (n + 1) wideBody).flatten wideConfig)
      (List.replicate (n + 1) wideRecord) r' := by
  rintro ⟨r', hy⟩
  obtain ⟨r'', hshort⟩ := yields_wide n hn
  have hlen := congrArg List.length (hy.eq hshort)
  rw [length_replicate, length_replicate] at hlen
  omega

theorem view_selection_loses_record_on_overflow :
    external.RoundTrip ∧ wideConfig.syncMarker = defaultSyncMarker
      ∧ ∃ chunks, writeExportSelection external .default []
            (List.replicate (2 ^ 32 + 1 + 1) wideRecord) = .ok chunks
        ∧ (∀ chunk ∈ chunks, WithinLimits wideConfig chunk) ∧ ¬ ∃ r', Yields external
            (LogjetReader.withConfig chunks.flatten wideConfig)
            (List.replicate (2 ^ 32 + 1 + 1) wideRecord) r' := by
  refine ⟨external_roundTrip, rfl, _, writeExportSelection_wide _, ?_, not_yields_wide _ rfl⟩
  intro chunk hchunk
  rw [eq_of_mem_replicate hchunk]
  exact withinLimits_wideBody

end Ljx

end Logjet
