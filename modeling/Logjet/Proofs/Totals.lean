/-
What the reader's two totals sum up: declared lengths of candidates with both
CRCs right, accepted or not (`totalled_of`).
-/
import Logjet.Proofs.Accounting

namespace Logjet

open List

variable {x : External} {config : ReaderConfig} {data : Bytes}

structure External.AtMost (x : External) : Prop where
  lz4 : ∀ {input n output}, x.lz4Decompress input n = .ok output → output.length ≤ n
  zstd : ∀ {input n output}, x.zstdDecompress input n = .ok output → output.length ≤ n

theorem decompress_length_le (hx : x.AtMost) {c : Codec} {input payload : Bytes} {n : Nat}
    (h : c.decompress x input n = .ok payload) : payload.length ≤ n := by
  cases c with
  | none =>
    unfold Codec.decompress at h
    dsimp only at h
    split at h
    · cases h
    · rename_i hlen
      cases h
      omega
  | lz4 =>
    unfold Codec.decompress at h
    cases hrun : x.lz4Decompress input n with
    | ok decoded =>
      have hle := hx.lz4 hrun
      simp only [hrun] at h
      split at h
      · cases h
      · cases h
        exact hle
    | error err =>
      rw [hrun] at h
      cases h
  | zstd =>
    unfold Codec.decompress at h
    cases hrun : x.zstdDecompress input n with
    | ok decoded =>
      have hle := hx.zstd hrun
      rw [hrun] at h
      cases h
      exact hle
    | error err =>
      rw [hrun] at h
      cases h

def Attempt.counted (x : External) (config : ReaderConfig) (data : Bytes)
    (a : Attempt) : Nat × Nat :=
  match readFrame x config data a.syncStart with
  | .error _ => (0, 0)
  | .ok frame =>
    if 2 ^ 64 ≤ a.stats.totalCompressedBytes.toNat + frame.header.compressedLen.toNat then (0, 0)
    else if 2 ^ 64 ≤ a.stats.totalUncompressedBytes.toNat + frame.header.uncompressedLen.toNat then
      (frame.header.compressedLen.toNat, 0)
    else (frame.header.compressedLen.toNat, frame.header.uncompressedLen.toNat)

structure ReaderStats.Adds (s s' : ReaderStats) (more : Nat × Nat) : Prop where
  compressed : s'.totalCompressedBytes.toNat = s.totalCompressedBytes.toNat + more.1
  uncompressed : s'.totalUncompressedBytes.toNat = s.totalUncompressedBytes.toNat + more.2

theorem ReaderStats.adds_zero (s : ReaderStats) : s.Adds s (0, 0) := ⟨rfl, rfl⟩

section Counted

variable {p : Nat} {stats : ReaderStats} {frame : Frame}

theorem counted_of_frame (hframe : readFrame x config data p = .ok frame) :
    (⟨p, stats⟩ : Attempt).counted x config data = if 2 ^ 64 ≤ stats.totalCompressedBytes.toNat
            + frame.header.compressedLen.toNat then (0, 0)
        else if 2 ^ 64 ≤ stats.totalUncompressedBytes.toNat
            + frame.header.uncompressedLen.toNat then
          (frame.header.compressedLen.toNat, 0)
        else (frame.header.compressedLen.toNat, frame.header.uncompressedLen.toNat) := by
  unfold Attempt.counted
  rw [hframe]

theorem addTotals_adds (hframe : readFrame x config data p = .ok frame) :
    (∃ stats', addTotals frame.header stats = .ok () stats'
        ∧ stats.Adds stats' ((⟨p, stats⟩ : Attempt).counted x config data)
        ∧ (⟨p, stats⟩ : Attempt).counted x config data = (frame.header.compressedLen.toNat,
            frame.header.uncompressedLen.toNat))
      ∨ (∃ err stats', addTotals frame.header stats = .error err stats' ∧ stats.Adds stats'
          ((⟨p, stats⟩ : Attempt).counted x config data)) := by
  rw [counted_of_frame hframe]
  rcases addTotals_cases frame.header stats with
    ⟨c, u, h, hc, hu⟩ | ⟨h, hfull⟩ | ⟨c, h, hc, hfull⟩
  · have hclt := c.toNat_lt
    have hult := u.toNat_lt
    rw [if_neg (by omega), if_neg (by omega)]
    exact Or.inl ⟨_, h, ⟨hc, hu⟩, rfl⟩
  · rw [if_pos hfull]
    exact Or.inr ⟨_, _, h, stats.adds_zero⟩
  · have hclt := c.toNat_lt
    rw [if_neg (by omega), if_pos hfull]
    exact Or.inr ⟨_, _, h, ⟨hc, rfl⟩⟩

theorem tryReadBlockAt_adds (p : Nat) (stats : ReaderStats) :
    (tryReadBlockAt x config data p).Ends stats (fun _ stats' => stats.Adds stats'
        ((⟨p, stats⟩ : Attempt).counted x config data)) (fun _ stats' => stats.Adds stats'
        ((⟨p, stats⟩ : Attempt).counted x config data)) := by
  unfold EStateM.Ends
  cases hframe : readFrame x config data p with
  | error err =>
    rw [tryReadBlockAt_of_error hframe]
    have hnone : (⟨p, stats⟩ : Attempt).counted x config data = (0, 0) := by
      unfold Attempt.counted
      rw [hframe]
    rw [hnone]
    exact stats.adds_zero
  | ok frame =>
    rcases @addTotals_adds x config data p stats frame hframe with
      ⟨stats', hadd, hadds, -⟩ | ⟨err, stats', hadd, hadds⟩
    · rw [tryReadBlockAt_of_frame hframe hadd]
      cases hdecode : decodePayload x frame with
      | ok records => exact hadds
      | error err => exact hadds
    · rw [tryReadBlockAt_of_totals hframe hadd]
      exact hadds

theorem counted_of_accepted {a : Attempt} {b : AcceptedBlock}
    (h : a.accepted? x config data = some b) : a.counted x config data = (b.frame.compressed.length,
        b.frame.header.uncompressedLen.toNat) ∧ b.frame.header.codec.decompress x b.frame.compressed
        b.frame.header.uncompressedLen.toNat = .ok b.payload := by
  obtain ⟨p, stats⟩ := a
  cases hread : tryReadBlockAt x config data p stats with
  | error err stats' =>
    rw [accepted?_of_error (a := ⟨p, stats⟩) hread] at h
    cases h
  | ok read stats' =>
    obtain ⟨b', hb', -, -, hframe, hpayload⟩ := accepted?_of_ok (a := ⟨p, stats⟩) hread
    rw [hb'] at h
    cases h
    refine ⟨?_, hpayload⟩
    have hframed := readFrame_eq_ok_iff.mp hframe
    have hlen : b.frame.compressed.length = b.frame.header.compressedLen.toNat := by
      have hinside := hframed.inside
      rw [hframed.endPos] at hinside
      rw [hframed.compressed, slice, length_take, length_drop]
      omega
    rw [hlen]
    rcases @addTotals_adds x config data p stats b.frame hframe with
      ⟨_, -, -, hcounted⟩ | ⟨err, _, hadd, -⟩
    · exact hcounted
    · rw [tryReadBlockAt_of_totals hframe hadd] at hread
      cases hread

end Counted

def countedSum (x : External) (config : ReaderConfig) (data : Bytes)
    (attempts : List Attempt) : Nat × Nat :=
  ((attempts.map fun a => (a.counted x config data).1).sum,
    (attempts.map fun a => (a.counted x config data).2).sum)

theorem countedSum_append_singleton (attempts : List Attempt) (a : Attempt) :
    countedSum x config data (attempts ++ [a])
      = ((countedSum x config data attempts).1 + (a.counted x config data).1,
        (countedSum x config data attempts).2 + (a.counted x config data).2) := by simp [countedSum]

structure Totalled (x : External) (config : ReaderConfig) (data : Bytes)
    (attempts : List Attempt) (r : LogjetReader) : Prop where
  data_eq : r.data = data
  config_eq : r.config = config
  totals : ReaderStats.default.Adds r.stats (countedSum x config data attempts)

def Leaves {α : Type} (P : LogjetReader → Prop) : EStateM.Result Error LogjetReader α → Prop
  | .ok _ r => P r
  | .error _ r => P r

namespace Totalled

variable {r : LogjetReader} {attempts : List Attempt} {origin p : Nat} {stats : ReaderStats}

theorem congr {r' : LogjetReader} (h : Totalled x config data attempts r)
    (hdata : r'.data = r.data) (hconfig : r'.config = r.config)
    (hc : r'.stats.totalCompressedBytes = r.stats.totalCompressedBytes)
    (hu : r'.stats.totalUncompressedBytes = r.stats.totalUncompressedBytes) :
    Totalled x config data attempts r' :=
  ⟨hdata.trans h.data_eq, hconfig.trans h.config_eq,
    hc ▸ h.totals.compressed, hu ▸ h.totals.uncompressed⟩

theorem finish (h : Totalled x config data attempts r) :
    Leaves (Totalled x config data attempts) (finishScan origin r) := by
  unfold finishScan
  rw [EStateM.modify_bind, EStateM.get_bind]
  cases checkedAdd "bytes_skipped" r.stats.bytesSkipped (r.data.length - origin) with
  | ok skipped => exact h.congr rfl rfl rfl rfl
  | error err => exact h.congr rfl rfl rfl rfl

theorem accept {records : List OwnedRecord} (h : Totalled x config data attempts r) :
    Leaves (Totalled x config data attempts) (acceptBlock origin p records r) := by
  unfold acceptBlock
  rw [EStateM.get_bind]
  cases checkedAdd "blocks_ok" r.stats.blocksOk 1 with
  | error err => exact h
  | ok ok =>
    cases checkedAdd "bytes_skipped" r.stats.bytesSkipped (p - origin) with
    | error err => exact h.congr rfl rfl rfl rfl
    | ok skipped => exact h.congr rfl rfl rfl rfl

theorem attempt (h : Totalled x config data attempts r) (hadds : r.stats.Adds stats
      ((⟨p, r.stats⟩ : Attempt).counted x config data)) (pos : Nat) :
    Totalled x config data (attempts ++ [⟨p, r.stats⟩]) { r with pos := pos, stats := stats } := by
  refine ⟨h.data_eq, h.config_eq, ?_⟩
  rw [countedSum_append_singleton]
  refine ⟨?_, ?_⟩
  · rw [hadds.compressed, h.totals.compressed, Nat.add_assoc]
  · rw [hadds.uncompressed, h.totals.uncompressed, Nat.add_assoc]

theorem of_scanned {made : List Attempt} {result : EStateM.Result Error LogjetReader Bool}
    (hrun : Scanned x origin r made result) (h : Totalled x config data attempts r) :
    Leaves (Totalled x config data (attempts ++ made)) result := by
  induction hrun generalizing attempts with
  | finish hfind =>
    rw [append_nil]
    exact h.finish
  | accept hfind htry =>
    rw [h.config_eq, h.data_eq] at htry
    exact (h.attempt ((tryReadBlockAt_adds _ _).ok htry) _).accept
  | reject hfind htry hadd rest ih =>
    rw [h.config_eq, h.data_eq] at htry
    have hnext := h.attempt ((tryReadBlockAt_adds _ _).error htry)
    rw [append_cons]
    exact ih ((hnext 0).congr rfl rfl rfl rfl)
  | full hfind htry hadd =>
    rw [h.config_eq, h.data_eq] at htry
    exact h.attempt ((tryReadBlockAt_adds _ _).error htry) _

theorem scan (h : Totalled x config data attempts r) :
    Leaves (Totalled x config data (attempts ++ scanAttempts x r)) (scanNextBlock x r) :=
  of_scanned (scanned r.pos r) h

theorem of_nexted {made : List Attempt}
    {result : EStateM.Result Error LogjetReader (Option OwnedRecord)}
    (hrun : Nexted x r made result) (h : Totalled x config data attempts r) :
    Leaves (Totalled x config data (attempts ++ made)) result := by
  induction hrun generalizing attempts with
  | pop hpending hadd =>
    rw [append_nil]
    exact h.congr rfl rfl rfl rfl
  | full hpending hadd =>
    rw [append_nil]
    exact h.congr rfl rfl rfl rfl
  | last hpending hscan =>
    have hleft := h.scan
    rw [hscan] at hleft
    exact hleft
  | fail hpending hscan =>
    have hleft := h.scan
    rw [hscan] at hleft
    exact hleft
  | more hpending hscan rest ih =>
    have hleft := h.scan
    rw [hscan] at hleft
    rw [← append_assoc]
    exact ih hleft

end Totalled

namespace Reading

variable {reading : Reading} {call : ReadCall} {calls : List ReadCall}

theorem leaves_nextRecord {P : LogjetReader → Prop} {r : LogjetReader}
    (h : Leaves P (nextRecord x r)) : P (ReadCall.nextRecord.run x r).2 := by
  unfold ReadCall.run
  cases hrun : nextRecord x r with
  | ok found r' =>
    rw [hrun] at h
    cases found with
    | some record => exact h
    | none => exact h
  | error err r' =>
    rw [hrun] at h
    exact h

theorem leaves_scanNextBlock {P : LogjetReader → Prop} {r : LogjetReader}
    (h : Leaves P (scanNextBlock x r)) : P (ReadCall.scanNextBlock.run x r).2 := by
  unfold ReadCall.run
  cases hrun : scanNextBlock x r with
  | ok found r' =>
    rw [hrun] at h
    cases found with
    | true => exact h
    | false => exact h
  | error err r' =>
    rw [hrun] at h
    exact h

theorem totalled_call (h : Totalled x config data reading.attempts reading.reader) :
    Totalled x config data (reading.call x call).attempts (reading.call x call).reader := by
  cases call with
  | nextRecord => exact leaves_nextRecord (h.of_nexted (nexted _))
  | scanNextBlock => exact leaves_scanNextBlock h.scan

theorem totalled_of (data : Bytes) (config : ReaderConfig) (calls : List ReadCall) :
    Totalled x config data (of x data config calls).attempts (of x data config calls).reader := by
  induction calls using List.reverseRecOn with
  | nil => exact ⟨rfl, rfl, rfl, rfl⟩
  | append_singleton calls call ih =>
    rw [of_append_singleton]
    exact totalled_call ih

end Reading

theorem sum_filterMap_iff {α β : Type} {f : α → Option β} {g : α → Nat}
    {h : β → Nat} {l : List α} (hle : ∀ a b, f a = some b → h b ≤ g a) :
    ((l.filterMap f).map h).sum ≤ (l.map g).sum ∧ ((l.map g).sum = ((l.filterMap f).map h).sum
        ↔ ∀ a ∈ l, g a = ((f a).map h).getD 0) := by
  induction l with
  | nil => simp
  | cons a l ih =>
    obtain ⟨hsum, hiff⟩ := ih
    rw [forall_mem_cons, ← hiff, filterMap_cons]
    cases hf : f a with
    | none =>
      simp only [map_cons, sum_cons, Option.map_none, Option.getD_none]
      omega
    | some b =>
      have hb := hle a b hf
      simp only [map_cons, sum_cons, Option.map_some, Option.getD_some]
      omega

namespace Reading

def TotalsMatch (x : External) (reading : Reading) : Prop :=
  reading.reader.stats.totalCompressedBytes.toNat
      = ((reading.accepted x).map fun b => b.frame.compressed.length).sum
    ∧ reading.reader.stats.totalUncompressedBytes.toNat
      = ((reading.accepted x).map fun b => b.payload.length).sum

/-- Headers tell the payload's length; what fails is not counted. -/
def Honest (x : External) (reading : Reading) : Prop :=
  ∀ a ∈ reading.attempts,
    match a.accepted? x reading.reader.config reading.reader.data with
    | some b => b.payload.length = b.frame.header.uncompressedLen.toNat
    | none => a.counted x reading.reader.config reading.reader.data = (0, 0)

theorem totalsMatch_iff_honest (hx : x.AtMost) (data : Bytes)
    (config : ReaderConfig) (calls : List ReadCall) : (of x data config calls).TotalsMatch x
      ↔ (of x data config calls).Honest x := by
  generalize hreading : of x data config calls = reading
  have htotal := totalled_of (x := x) data config calls
  rw [hreading] at htotal
  obtain ⟨rfl, rfl, hcompressed, huncompressed⟩ := htotal
  have hdefault : ReaderStats.default.totalCompressedBytes.toNat = 0
      ∧ ReaderStats.default.totalUncompressedBytes.toNat = 0 := ⟨rfl, rfl⟩
  rw [hdefault.1, Nat.zero_add] at hcompressed
  rw [hdefault.2, Nat.zero_add] at huncompressed
  rw [TotalsMatch, hcompressed, huncompressed]
  have hc := (sum_filterMap_iff (l := reading.attempts)
    (f := Attempt.accepted? x reading.reader.config reading.reader.data)
    (g := fun a => (a.counted x reading.reader.config reading.reader.data).1)
    (h := fun b => b.frame.compressed.length)
    (fun a b hab => by rw [(counted_of_accepted hab).1])).2
  have hu := (sum_filterMap_iff (l := reading.attempts)
    (f := Attempt.accepted? x reading.reader.config reading.reader.data)
    (g := fun a => (a.counted x reading.reader.config reading.reader.data).2)
    (h := fun b => b.payload.length) (fun a b hab => by
      obtain ⟨hcounted, hpayload⟩ := counted_of_accepted hab
      rw [hcounted]
      exact decompress_length_le hx hpayload)).2
  refine (and_congr hc hu).trans ?_
  rw [← forall₂_and]
  refine forall₂_congr fun a ha => ?_
  cases hab : a.accepted? x reading.reader.config reading.reader.data with
  | none => simp only [Option.map_none, Option.getD_none, Prod.ext_iff]
  | some b =>
    rw [(counted_of_accepted hab).1]
    simp only [Option.map_some, Option.getD_some, true_and]
    exact eq_comm

/-- The size totals are exact iff every attempt is `Honest`. -/
theorem size_totals_iff (x : External) (hx : x.AtMost) (data : Bytes)
    (config : ReaderConfig) (calls : List ReadCall) (hserved : data.length < 2 ^ 64
      ∨ ¬ (of x data config calls).Failed) : (of x data config calls).reader.stats.blocksOk.toNat
        = ((of x data config calls).accepted x).length ∧ ((of x data config calls).TotalsMatch x
        ↔ (of x data config calls).Honest x) := by
  have hbooked := booked_of hserved
  refine ⟨?_, totalsMatch_iff_honest hx data config calls⟩
  rw [accepted, hbooked.config_eq, hbooked.data_eq]
  exact hbooked.blocksOk

open Reference

def boundedExternal : External :=
  { external with
    lz4Decompress := fun input n =>
      if input.length ≤ n then decompress input n
      else .error "output too small"
    zstdDecompress := fun input n =>
      if input.length ≤ n then decompress input n
      else .error "destination buffer is too small" }

theorem boundedExternal_atMost : boundedExternal.AtMost := by
  have hlen : ∀ {input output : Bytes} {n : Nat} {err : String},
      (if input.length ≤ n then decompress input n else .error err)
        = .ok output → output.length ≤ n := by
    intro input output n err h
    split at h
    · cases h
      rw [length_append, length_replicate]
      omega
    · cases h
  exact ⟨hlen, hlen⟩

theorem size_totals_padded : (of boundedExternal paddedFile .default
        [.nextRecord, .nextRecord]).reader.stats.blocksOk.toNat
        = ((of boundedExternal paddedFile .default
            [.nextRecord, .nextRecord]).accepted boundedExternal).length
      ∧ ((of boundedExternal paddedFile .default
          [.nextRecord, .nextRecord]).TotalsMatch boundedExternal
        ↔ (of boundedExternal paddedFile .default
          [.nextRecord, .nextRecord]).Honest boundedExternal) :=
  size_totals_iff boundedExternal boundedExternal_atMost paddedFile .default
    [.nextRecord, .nextRecord] (Or.inl (by decide +kernel))

def mislabelledFile : Bytes :=
  assembleBlock boundedExternal defaultSyncMarker
    (sealHeader boundedExternal .none 6 5 1 (BlockHeaderExt.encode ⟨1, 1⟩))
    (BlockHeaderExt.encode ⟨1, 1⟩) [1, 0, 0, 1, 7]

theorem size_totals_count_rejected :
    (of boundedExternal mislabelledFile .default [.nextRecord]).outcomes = [.finished]
      ∧ ¬ (of boundedExternal mislabelledFile .default
        [.nextRecord]).TotalsMatch boundedExternal := by
  constructor
  · obtain ⟨r', hy, -⟩ := yields_scanRecords (x := boundedExternal) defaultSyncMarker_syncable
      (show CountersFit boundedExternal .default mislabelledFile by decide +kernel)
    have hnone : scanRecords boundedExternal .default mislabelledFile 0 = [] := by decide +kernel
    rw [hnone] at hy
    have hrun := @run_of_yields boundedExternal (start mislabelledFile .default) _ _ _ rfl hy
    show [(ReadCall.nextRecord.run boundedExternal (start mislabelledFile .default).reader).1] = _
    exact congrArg (fun out => [out.1]) hrun
  · rw [totalsMatch_iff_honest boundedExternal_atMost]
    intro hhonest
    have hmem := @mem_attempts_first boundedExternal .default mislabelledFile 0 (by decide +kernel)
    have hcounted := hhonest _ hmem
    have htotal := totalled_of (x := boundedExternal) mislabelledFile .default [.nextRecord]
    rw [htotal.config_eq, htotal.data_eq] at hcounted
    have hrejected : (⟨0, .default⟩ : Attempt).accepted? boundedExternal
        .default mislabelledFile = none := by decide +kernel
    rw [hrejected] at hcounted
    exact absurd hcounted (by decide +kernel)

end Reading

end Logjet
