/-
Where the reader and the greedy scan part: on a statistic that overflows. A
block shorter than its header says is rejected and still counted.
-/
import Logjet.Proofs.Scan
import Logjet.Reference

namespace Logjet

open List hiding Vector
open Reference

theorem findNextSync_past {marker : Vector UInt8 8} (hm : Syncable marker)
    {data pre tl rest : Bytes} {b : UInt8}
    (hdata : data = pre ++ (b :: tl ++ rest)) (htl : marker.get 0 ∉ tl) :
    findNextSync marker data (pre.length + 1) = (Search.first marker.toList rest).map
          (fun i => pre.length + (1 + tl.length) + i) := by
  have hdrop : data.drop (pre.length + 1) = tl ++ rest := by
    rw [hdata, ← drop_drop, drop_left]
    rfl
  rw [findNextSync_eq_first hm.repeats, hdrop, Search.first_append, Option.map_map]
  · congr 1
    funext i
    simp only [Function.comp_apply]
    omega
  · intro i hi hocc
    have hhead : (tl ++ rest)[i]? = some (marker.get 0) := getElem?_of_occurrence hocc 0
    rw [getElem?_append_left hi, getElem?_eq_some_iff] at hhead
    obtain ⟨hlt, heq⟩ := hhead
    exact htl (mem_of_getElem heq)

theorem scanLoop_of_undecoded {x : External} {origin p : Nat}
    {r : LogjetReader} {frame : Frame} {err : Error} {stats : ReaderStats}
    (hfind : findNextSync r.config.syncMarker r.data r.pos = some p)
    (hframe : readFrame x r.config r.data p = .ok frame)
    (htotals : addTotals frame.header r.stats = .ok () stats)
    (hdecode : decodePayload x frame = .error err) (hbad : stats.blocksBad.toNat + 1 < 2 ^ 64) :
    ∃ b : UInt64, b.toNat = stats.blocksBad.toNat + 1
      ∧ scanLoop x origin r = scanLoop x origin { r with
          pos := p + 1, stats := { stats with blocksBad := b } } := by
  obtain ⟨b, hbeq, hbval⟩ := @checkedAdd_ok "blocks_bad" _ _ hbad
  have htry := tryReadBlockAt_of_frame hframe htotals
  rw [hdecode] at htry
  exact ⟨b, hbval, scanLoop_of_bad hfind htry (Recoverable.decodePayload _ err hdecode) hbeq⟩

theorem scanLoop_of_overflow {x : External} {origin p : Nat} {r : LogjetReader} {frame : Frame}
    (hfind : findNextSync r.config.syncMarker r.data r.pos = some p)
    (hframe : readFrame x r.config r.data p = .ok frame) (hc : r.stats.totalCompressedBytes.toNat
      + frame.header.compressedLen.toNat < 2 ^ 64)
    (hu : 2 ^ 64 ≤ r.stats.totalUncompressedBytes.toNat + frame.header.uncompressedLen.toNat)
    (hbad : r.stats.blocksBad.toNat + 1 < 2 ^ 64) :
    ∃ b c : UInt64, b.toNat = r.stats.blocksBad.toNat + 1
      ∧ scanLoop x origin r = scanLoop x origin { r with
          pos := p + 1
          stats := { r.stats with blocksBad := b,
                                  totalCompressedBytes := c } } := by
  obtain ⟨b, hbeq, hbval⟩ := @checkedAdd_ok "blocks_bad" _ _ hbad
  obtain ⟨c, hceq, -⟩ := @checkedAdd_ok "total_compressed_bytes" _ _ hc
  have hover : checkedAdd "total_uncompressed_bytes"
      r.stats.totalUncompressedBytes frame.header.uncompressedLen.toNat
        = .error (.numericOverflow "total_uncompressed_bytes") := if_neg (by omega)
  have htotals : addTotals frame.header r.stats
      = .error (.numericOverflow "total_uncompressed_bytes")
          { r.stats with totalCompressedBytes := c } := by
    simp only [addTotals, EStateM.get_bind, EStateM.set_bind, hceq,
      EStateM.ofExcept_ok_bind, hover, EStateM.ofExcept_error_bind]
  have htry : tryReadBlockAt x r.config r.data p r.stats
      = .error (.numericOverflow "total_uncompressed_bytes")
          { r.stats with totalCompressedBytes := c } := by
    simp only [tryReadBlockAt, hframe, EStateM.ofExcept_ok_bind]
    exact EStateM.bind_of_error htotals
  exact ⟨b, c, hbval, scanLoop_of_bad hfind htry rfl hbeq⟩

theorem scanLoop_of_last_overflow {x : External} {origin : Nat}
    {r : LogjetReader} {frame : Frame} {pre tl : Bytes} {b : UInt8}
    (hm : Syncable r.config.syncMarker) (hdata : r.data = pre ++ b :: tl)
    (htl : r.config.syncMarker.get 0 ∉ tl) (hfind : findNextSync r.config.syncMarker r.data r.pos
      = some pre.length) (hframe : readFrame x r.config r.data pre.length = .ok frame)
    (hc : r.stats.totalCompressedBytes.toNat + frame.header.compressedLen.toNat < 2 ^ 64)
    (hu : 2 ^ 64 ≤ r.stats.totalUncompressedBytes.toNat + frame.header.uncompressedLen.toNat)
    (hbad : r.stats.blocksBad.toNat + 1 < 2 ^ 64)
    (hskip : r.stats.bytesSkipped.toNat + (r.data.length - origin) < 2 ^ 64) :
    ∃ r', scanLoop x origin r = .ok false r' := by
  obtain ⟨b', c, -, hstep⟩ := @scanLoop_of_overflow x origin _ _ _ hfind hframe hc hu hbad
  have hnone : findNextSync r.config.syncMarker r.data (pre.length + 1) = none := by
    have hcons : r.data = pre ++ (b :: tl ++ []) := by
      rw [append_nil]
      exact hdata
    have hne : r.config.syncMarker.toList ≠ [] := by
      intro h
      have hlen := congrArg List.length h
      simp at hlen
    rw [findNextSync_past hm hcons htl, Search.first, if_neg hne, Option.map_none]
  rw [hstep, scanLoop_of_none hnone]
  obtain ⟨r', hfinish, -⟩ := @finishScan_ok origin
    { r with pos := pre.length + 1, stats := { r.stats with
        blocksBad := b', totalCompressedBytes := c } } hskip
  exact ⟨r', hfinish⟩

def hollowHeader : BlockHeader :=
  sealHeader external .none 0xffffffff 0 0 (BlockHeaderExt.encode ⟨0, 0⟩)

def hollowBlock : Bytes :=
  assembleBlock external defaultSyncMarker hollowHeader
    (BlockHeaderExt.encode ⟨0, 0⟩) []

def lastBlock : Block external where
  config := { WriterConfig.default with codec := .none }
  base := ⟨1, 1⟩
  records := [⟨.logs, 1, 1, [7]⟩]
  below := by
    intro r hr
    rw [mem_singleton.mp hr]
    exact ⟨UInt64.le_refl _, UInt64.le_refl _⟩
  body := assembleBlock external defaultSyncMarker
    (sealHeader external .none 5 5 1 (BlockHeaderExt.encode ⟨1, 1⟩))
    (BlockHeaderExt.encode ⟨1, 1⟩) [1, 0, 0, 1, 7]
  built := by decide +kernel

def wideConfig : ReaderConfig := { ReaderConfig.default with maxUncompressedLen := 2 ^ 32 }

def hollowRun : Bytes := (List.replicate (2 ^ 32 + 1) hollowBlock).flatten

def overflowFile : Bytes := hollowRun ++ lastBlock.body

theorem hollowBlock_cons : hollowBlock = defaultSyncMarker.get 0 :: hollowBlock.tail := by
  decide +kernel

theorem hollowBlock_tail :
    hollowBlock.tail.length = 51 ∧ defaultSyncMarker.get 0 ∉ hollowBlock.tail := by decide +kernel

theorem lastBlock_body_cons : ∃ tl, lastBlock.body = defaultSyncMarker.get 0 :: tl
      ∧ defaultSyncMarker.get 0 ∉ tl := ⟨lastBlock.body.tail, by decide +kernel, by decide +kernel⟩

theorem marker_prefix_hollowBlock : defaultSyncMarker.toList <+: hollowBlock := by decide +kernel

theorem marker_prefix_lastBlock : defaultSyncMarker.toList <+: lastBlock.body := by decide +kernel

theorem marker_prefix_run (n : Nat) : defaultSyncMarker.toList
      <+: (List.replicate n hollowBlock).flatten ++ lastBlock.body := by
  cases n with
  | zero => exact marker_prefix_lastBlock
  | succ n =>
    rw [replicate_succ, flatten_cons, append_assoc]
    exact marker_prefix_hollowBlock.trans (prefix_append _ _)

section Hollow

variable {data pre rest : Bytes}

theorem readFrame_hollowBlock (hdata : data = pre ++ (hollowBlock ++ rest)) :
    ∃ frame, readFrame external wideConfig data pre.length = .ok frame ∧ frame.header = hollowHeader
      ∧ ∃ err, decodePayload external frame = .error err := by
  have hframed : Framed external wideConfig data pre.length ⟨hollowHeader, ⟨0, 0⟩, [], _⟩ :=
    framed_assembleBlock rfl rfl rfl (sealHeader_crc _ _ _ _ _ _) (Nat.zero_le _) (by decide) hdata
  exact ⟨_, readFrame_eq_ok_iff.mpr hframed, rfl, _, rfl⟩

theorem findNextSync_hollowBlock (hdata : data = pre ++ (hollowBlock ++ rest))
    (hrest : defaultSyncMarker.toList <+: rest) :
    findNextSync defaultSyncMarker data (pre.length + 1) = some (pre.length + 52) := by
  rw [hollowBlock_cons] at hdata
  rw [findNextSync_past defaultSyncMarker_syncable hdata hollowBlock_tail.2,
    Search.first_eq_zero hrest, Option.map_some, hollowBlock_tail.1]

end Hollow

theorem scanLoop_hollowBlocks {origin : Nat} (n : Nat) {r : LogjetReader}
    {pre : Bytes} (hconfig : r.config = wideConfig)
    (hdata : r.data = pre ++ ((List.replicate n hollowBlock).flatten ++ lastBlock.body))
    (hfind : findNextSync defaultSyncMarker r.data r.pos = some pre.length)
    (hc : r.stats.totalCompressedBytes = 0)
    (hu : r.stats.totalUncompressedBytes.toNat + n * (2 ^ 32 - 1) < 2 ^ 64)
    (hbad : r.stats.blocksBad.toNat + n < 2 ^ 64) :
    ∃ r', scanLoop external origin r = scanLoop external origin r'
      ∧ r'.config = wideConfig ∧ r'.data = r.data ∧ findNextSync defaultSyncMarker r'.data r'.pos
          = some (pre.length + n * 52) ∧ r'.stats.totalCompressedBytes = 0
      ∧ r'.stats.totalUncompressedBytes.toNat
          = r.stats.totalUncompressedBytes.toNat + n * (2 ^ 32 - 1)
      ∧ r'.stats.blocksBad.toNat = r.stats.blocksBad.toNat + n
      ∧ r'.stats.bytesSkipped = r.stats.bytesSkipped := by
  induction n generalizing r pre with
  | zero => exact ⟨r, rfl, hconfig, rfl, by simpa using hfind, hc, by simp, by simp, rfl⟩
  | succ n ih =>
    rw [replicate_succ, flatten_cons, append_assoc] at hdata
    obtain ⟨frame, hframe, hheader, err, hdecode⟩ := readFrame_hollowBlock hdata
    have hlen : frame.header.compressedLen.toNat = 0
        ∧ frame.header.uncompressedLen.toNat = 2 ^ 32 - 1 := by
      rw [hheader]
      exact ⟨rfl, rfl⟩
    obtain ⟨c, u, htotals, hcval, huval⟩ := @addTotals_ok frame.header
      r.stats (by rw [hlen.1, hc]; decide) (by rw [hlen.2]; omega)
    rw [hlen.1, hc] at hcval
    rw [hlen.2] at huval
    have hc0 : c = 0 := UInt64.toNat_inj.mp hcval
    obtain ⟨b, hbval, hstep⟩ := @scanLoop_of_undecoded external origin
      _ _ _ _ _ (by rw [hconfig]; exact hfind) (by rw [hconfig]; exact hframe) htotals hdecode
      (by simp only; omega)
    have hpre : pre.length + 52 = (pre ++ hollowBlock).length := by
      rw [length_append]
      rfl
    obtain ⟨r', hscan, hconfig', hdata', hfind', hc', hu', hbad', hskip'⟩ :=
      @ih { r with pos := pre.length + 1, stats := { r.stats with
          blocksBad := b, totalCompressedBytes := c,
          totalUncompressedBytes := u } } (pre ++ hollowBlock)
        hconfig (by rw [append_assoc]; exact hdata)
        (by
          rw [← hpre]
          exact findNextSync_hollowBlock hdata (marker_prefix_run n))
        hc0 (by simp only; omega) (by simp only at hbval ⊢; omega)
    refine ⟨r', hstep.trans hscan, hconfig', hdata', ?_, hc', ?_, ?_, hskip'⟩
    · rw [hfind', ← hpre]
      congr 1
      omega
    · rw [hu']
      simp only
      omega
    · rw [hbad']
      simp only at hbval ⊢
      omega

theorem readFrame_lastBlock {data pre : Bytes} (hdata : data = pre ++ lastBlock.body) :
    ∃ frame, readFrame external wideConfig data pre.length = .ok frame
      ∧ frame.header.compressedLen = 5 ∧ frame.header.uncompressedLen = 5 := by
  have hframed : Framed external wideConfig data pre.length
      ⟨sealHeader external .none 5 5 1 (BlockHeaderExt.encode ⟨1, 1⟩),
        ⟨1, 1⟩, [1, 0, 0, 1, 7], _⟩ := framed_assembleBlock rfl rfl rfl (sealHeader_crc _ _ _ _ _ _)
      (by decide) (by decide) (hdata.trans (by rw [append_nil]; rfl))
  exact ⟨_, readFrame_eq_ok_iff.mpr hframed, rfl, rfl⟩

theorem hollowRun_length : hollowRun.length = (2 ^ 32 + 1) * 52 := by
  rw [hollowRun, length_flatten, map_replicate, sum_replicate_nat]
  rfl

theorem overflowFile_length : overflowFile.length < 2 ^ 40 := by
  have hlast : lastBlock.body.length = 57 := by decide +kernel
  rw [overflowFile, length_append, hollowRun_length, hlast]
  decide

theorem nextRecord_overflowFile : ∃ r', nextRecord external
    (LogjetReader.withConfig overflowFile wideConfig) = .ok none r' := by
  have hstart : findNextSync defaultSyncMarker overflowFile 0 = some 0 := by
    rw [findNextSync_eq_first defaultSyncMarker_syncable.repeats,
      drop_zero, overflowFile, hollowRun, Search.first_eq_zero (marker_prefix_run _)]
    rfl
  obtain ⟨r₁, hscan₁, hconfig, hdata, hfind, hc, hu, hbad, hskip⟩ :=
    @scanLoop_hollowBlocks 0 (2 ^ 32 + 1)
      (LogjetReader.withConfig overflowFile wideConfig) [] rfl rfl hstart rfl
      (by decide) (by decide)
  rw [length_nil, Nat.zero_add, ← hollowRun_length] at hfind
  have hlen := overflowFile_length
  have hfile : r₁.data = hollowRun ++ lastBlock.body := by
    rw [hdata, LogjetReader.withConfig, overflowFile]
  obtain ⟨frame, hframe, hclen, hulen⟩ := readFrame_lastBlock hfile
  obtain ⟨tl, hbody, htl⟩ := lastBlock_body_cons
  rw [hbody] at hfile
  obtain ⟨r', hscan⟩ := @scanLoop_of_last_overflow external 0 r₁ frame hollowRun tl _
    (by rw [hconfig]; exact defaultSyncMarker_syncable) hfile (by rw [hconfig]; exact htl)
    (by rw [hconfig]; exact hfind) (by rw [hconfig]; exact hframe)
    (by rw [hc, hclen]; decide) (by rw [hu, hulen]; decide) (by rw [hbad]; decide)
    (by rw [hskip, hdata]; simp only [LogjetReader.withConfig,
          ReaderStats.default, UInt64.toNat_zero]; omega)
  exact ⟨r', nextRecord_of_end rfl (hscan₁.trans hscan)⟩

theorem blockAt_hollowBlocks (n : Nat) {data pre : Bytes}
    (hdata : data = pre ++ ((List.replicate n hollowBlock).flatten
      ++ lastBlock.body)) {q : Nat} (hlo : pre.length ≤ q) (hhi : q < pre.length + n * 52) :
    blockAt external wideConfig data q = none := by
  induction n generalizing pre with
  | zero => omega
  | succ n ih =>
    rw [replicate_succ, flatten_cons, append_assoc] at hdata
    obtain ⟨frame, hframe, -, err, hdecode⟩ := readFrame_hollowBlock hdata
    have hnext := findNextSync_hollowBlock hdata (marker_prefix_run n)
    obtain ⟨-, hno⟩ := findNextSync_some defaultSyncMarker_syncable.repeats hnext
    have hpre : (pre ++ hollowBlock).length = pre.length + 52 := by
      rw [length_append]
      rfl
    rcases Nat.eq_or_lt_of_le hlo with rfl | hlt
    · rw [blockAt_of_frame hframe, hdecode]
    · rcases Nat.lt_or_ge q (pre.length + 52) with hin | hout
      · exact (weightless_of_not_marker (hno q hlt hin)).1
      · exact ih (hdata.trans (append_assoc ..).symm)
          (by rw [hpre]; exact hout) (by rw [hpre]; omega)

theorem blockAt_hollowRun {q : Nat} (hq : q < hollowRun.length) :
    blockAt external wideConfig overflowFile q = none := by
  rw [hollowRun_length] at hq
  exact @blockAt_hollowBlocks (2 ^ 32 + 1) overflowFile [] rfl q
    (Nat.zero_le _) (by rw [length_nil]; omega)

theorem scanRecords_overflowFile :
    scanRecords external wideConfig overflowFile 0 = lastBlock.records := by
  have hlimits : WithinLimits wideConfig lastBlock.body := by
    intro header hheader
    have hh : headerOf lastBlock.body = some (sealHeader external .none 5 5 1
        (BlockHeaderExt.encode ⟨1, 1⟩)) := headerOf_assembleBlock rfl
    rw [hh] at hheader
    cases hheader
    exact ⟨by decide, by decide⟩
  have hfile : overflowFile = hollowRun ++ (lastBlock.body ++ []) := by
    rw [append_nil]
    rfl
  have hblock := lastBlock.blockAt_body external_roundTrip rfl hlimits hfile
  have hend : overflowFile.length = hollowRun.length + lastBlock.body.length := length_append
  have hskip : scanRecords external wideConfig overflowFile 0
      = scanRecords external wideConfig overflowFile hollowRun.length :=
    Greedy.records_skip (Nat.zero_le _) (by omega) fun q _ hq => blockAt_hollowRun hq
  rw [hskip, scanRecords_some hblock, ← hend]
  have hnil : scanRecords external wideConfig overflowFile
      overflowFile.length = [] := Greedy.records_end (Nat.le_refl _)
  rw [hnil, append_nil]

/-- The reader returns the records of the greedy scan of its bytes. -/
theorem reader_refines_greedy_scan (x : External) (config : ReaderConfig)
    (hmarker : config.syncMarker = defaultSyncMarker) (data : Bytes)
    (hfit : CountersFit x config data) :
    ∃ records r', Yields x (LogjetReader.withConfig data config) records r'
      ∧ Greedy.Scan (ValidBlock x config data) 0 records := by
  obtain ⟨r', hy, -⟩ := yields_scanRecords (hmarker ▸ defaultSyncMarker_syncable) hfit
  exact ⟨_, r', hy, scan_scanRecords config data⟩

theorem reader_refines_greedy_scan_damaged : CountersFit external .default
        ([79, 84, 76] ++ lastBlock.body ++ hollowBlock.take 30)
      ∧ ∃ records r', Yields external (LogjetReader.withConfig
          ([79, 84, 76] ++ lastBlock.body ++ hollowBlock.take 30) .default) records r'
        ∧ Greedy.Scan (ValidBlock external .default
          ([79, 84, 76] ++ lastBlock.body ++ hollowBlock.take 30)) 0 records := by
  have hfit : CountersFit external .default
      ([79, 84, 76] ++ lastBlock.body ++ hollowBlock.take 30) :=
    ⟨by decide +kernel, by decide +kernel, by decide +kernel, by decide +kernel⟩
  exact ⟨hfit, reader_refines_greedy_scan external .default rfl _ hfit⟩

theorem reader_loses_block_on_overflow : ¬ ∃ records r', Yields external
        (LogjetReader.withConfig overflowFile wideConfig) records r'
      ∧ Greedy.Scan (ValidBlock external wideConfig overflowFile) 0 records := by
  rintro ⟨records, r', hy, hscan⟩
  have hspec : records = lastBlock.records := by
    rw [validBlock_eq_decodes] at hscan
    rw [← scanRecords_overflowFile]
    exact hscan.unique (Greedy.scan_records (blockAt_advances _ _) 0)
  obtain ⟨r₁, hnone⟩ := nextRecord_overflowFile
  cases hy with
  | done => cases hspec
  | more hnext => rw [hnone] at hnext; cases hnext

end Logjet
