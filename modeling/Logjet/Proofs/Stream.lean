/-
Whole streams: the round trip of a writer's run, and what damage to one block
does to the others.
-/
import Logjet.Proofs.Layout
import Logjet.Proofs.Overflow

namespace Logjet

open List Reference LogjetWriter

variable {x : External} {config : ReaderConfig} {data : Bytes}

/-- What the writer accepted is what the reader reads back. -/
theorem stream_round_trip (x : External) (hx : x.RoundTrip)
    (config : WriterConfig) (hwriter : config.syncMarker = defaultSyncMarker)
    (ops : List WriterOp) (chunks : List Bytes) (hinto : LogjetWriter.intoInner x
      (runOps x ops (LogjetWriter.inMemory config)).2 = .ok chunks)
    (limits : ReaderConfig) (hreader : limits.syncMarker = defaultSyncMarker)
    (hlimits : ∀ chunk ∈ chunks, WithinLimits limits chunk)
    (hlength : chunks.flatten.length < 2 ^ 64) (htotal : uncompressedTotal chunks < 2 ^ 64) :
    ∃ r', Yields x (LogjetReader.withConfig chunks.flatten limits)
        (runOps x ops (LogjetWriter.inMemory config)).1 r' ∧ r'.stats.blocksBad = 0 := by
  have hacc := (LogjetWriter.accounts_inMemory (x := x) config).run ops
  obtain ⟨blocks, rfl, hrecords, hown⟩ := hacc.intoInner hinto
  rw [nil_append] at hrecords
  have hm : Syncable limits.syncMarker := hreader ▸ defaultSyncMarker_syncable
  have hall : ∀ b ∈ blocks, b.Readable limits := by
    intro b hb
    refine ⟨by rw [hown b hb, hwriter, hreader], hlimits _ ?_⟩
    exact mem_flatMap.mpr ⟨b, hb, by simp [Block.chunks]⟩
  rw [hrecords]
  exact yields_chunks hx hm hall hlength htotal

def sampleOps : List WriterOp :=
  [.push ⟨.logs, 5, 9, [1, 2]⟩, .push ⟨.metrics, 7, 9, []⟩,
    .push ⟨.logs, 4, 9, [3]⟩, .flushBlock, .push ⟨.traces, 8, 300, [4]⟩]

def sampleConfig : WriterConfig :=
  { WriterConfig.default with codec := .none, blockAlignment := 64 }

def sampleChunks : List Bytes :=
  match intoInner external
      (runOps external sampleOps (inMemory sampleConfig)).2 with
  | .ok chunks => chunks
  | .error _ => []

theorem stream_round_trip_sample : intoInner external (runOps external sampleOps
        (inMemory sampleConfig)).2 = .ok sampleChunks ∧ ∃ r', Yields external
          (LogjetReader.withConfig sampleChunks.flatten .default)
          (runOps external sampleOps (inMemory sampleConfig)).1 r' ∧ r'.stats.blocksBad = 0 := by
  have hinto : intoInner external (runOps external sampleOps
      (inMemory sampleConfig)).2 = .ok sampleChunks := by decide +kernel
  refine ⟨hinto, stream_round_trip external external_roundTrip sampleConfig
    rfl sampleOps sampleChunks hinto .default rfl ?_ ?_ ?_⟩
  · decide +kernel
  · decide +kernel
  · decide +kernel

def wideRecord : OwnedRecord := ⟨.logs, 1, 1, List.replicate (2 ^ 32 - 9) 0⟩

def wideWriter : WriterConfig := { WriterConfig.default with blockTargetSize := 2 ^ 33 }

def wideHeader : BlockHeader :=
  sealHeader external .lz4 0xffffffff 8 1 (BlockHeaderExt.encode ⟨1, 1⟩)

def wideBody : Bytes :=
  assembleBlock external defaultSyncMarker wideHeader
    (BlockHeaderExt.encode ⟨1, 1⟩) [1, 0, 0, 0xf7, 0xff, 0xff, 0xff, 0x0f]

theorem wideRecord_encode : wideRecord.encode ⟨1, 1⟩ = [1, 0, 0, 0xf7, 0xff, 0xff, 0xff, 0x0f]
      ++ List.replicate (2 ^ 32 - 9) 0 := by
  have hlen : wideRecord.payload.length = 2 ^ 32 - 9 := length_replicate
  have hvarint : encodeVarint (UInt64.ofNat (2 ^ 32 - 9))
      = [0xf7, 0xff, 0xff, 0xff, 0x0f] := by decide +kernel
  have hzero : encodeVarint 0 = [0] := by decide +kernel
  rw [OwnedRecord.encode, encodeRecord, hlen, hvarint]
  show [1] ++ encodeVarint (1 - 1) ++ encodeVarint (1 - 1) ++ _ ++ _ = _
  rw [UInt64.sub_self, hzero]
  rfl

theorem wideRecord_encode_length : (wideRecord.encode ⟨1, 1⟩).length = 2 ^ 32 - 1 := by
  rw [wideRecord_encode, length_append, length_replicate]
  rfl

theorem buildBlock_wide : buildBlock external wideWriter
    (wideRecord.encode ⟨1, 1⟩) (some 1) (some 1) 1 = .ok wideBody := by
  have hcompress : wideWriter.codec.compress external (wideRecord.encode ⟨1, 1⟩)
        = .ok [1, 0, 0, 0xf7, 0xff, 0xff, 0xff, 0x0f] := by
    show Except.ok (compress (wideRecord.encode ⟨1, 1⟩)) = _
    rw [wideRecord_encode, compress_append]
    decide +kernel
  refine (@buildBlock_eq_ok_iff external wideWriter _ _ ⟨1, 1⟩ 1).mpr ⟨_, hcompress, ?_, ?_, ?_⟩
  · rw [wideRecord_encode_length]
    decide
  · decide
  · rw [wideRecord_encode_length]
    rfl

def wideBuffered (inner : List Bytes) : LogjetWriter (List Bytes) :=
  { inner, config := wideWriter, payloadBuf := wideRecord.encode ⟨1, 1⟩,
    blockBaseSeq := some 1, blockBaseTsUnixNs := some 1, recordCount := 1 }

theorem wideRecord_encode_ne_nil : wideRecord.encode ⟨1, 1⟩ ≠ [] := by
  intro h
  have hlen := wideRecord_encode_length
  rw [h] at hlen
  exact absurd hlen (by decide)

theorem push_wide (inner : List Bytes) : push external wideRecord (withConfig inner wideWriter)
      = .ok () (wideBuffered inner) := by
  have hlen : (wideRecord.encode ⟨1, 1⟩).length = 2 ^ 32 - 1 := wideRecord_encode_length
  exact push_opening rfl rfl rfl (lt_of_eq_of_lt hlen (by decide))
    (lt_of_eq_of_lt hlen (show 2 ^ 32 - 1 < 2 ^ 33 by decide))

theorem flushBlock_wide (inner : List Bytes) : flushBlock external (wideBuffered inner)
      = .ok () (withConfig (inner ++ [wideBody]) wideWriter) :=
  flushBlock_unpadded wideRecord_encode_ne_nil buildBlock_wide rfl rfl

def repeatOps (r : OwnedRecord) : Nat → List WriterOp
  | 0 => []
  | n + 1 => .push r :: .flushBlock :: repeatOps r n

theorem runOps_repeat {x : External} {r : OwnedRecord} {config : WriterConfig} {body : Bytes}
    {buffered : List Bytes → LogjetWriter (List Bytes)}
    (hpush : ∀ inner, push x r (withConfig inner config) = .ok () (buffered inner))
    (hflush : ∀ inner, flushBlock x (buffered inner) = .ok () (withConfig (inner ++ [body]) config))
    (n : Nat) (inner : List Bytes) : runOps x (repeatOps r n) (withConfig inner config)
      = (List.replicate n r, withConfig (inner ++ List.replicate n body) config) := by
  induction n generalizing inner with
  | zero => simp [repeatOps, runOps]
  | succ n ih =>
    simp only [repeatOps, runOps, WriterOp.run, hpush, hflush, ih,
      replicate_succ, append_assoc, singleton_append, nil_append]

theorem nextRecord_of_single {x : External} {r : LogjetReader} {e : Nat}
    {record : OwnedRecord} {stats : ReaderStats} (hpending : r.pending = [])
    (hfind : findNextSync r.config.syncMarker r.data r.pos = some r.pos)
    (htry : tryReadBlockAt x r.config r.data r.pos r.stats = .ok ([record], e) stats)
    (hblocks : stats.blocksOk.toNat + 1 < 2 ^ 64) (hrecords : stats.recordsOk.toNat + 1 < 2 ^ 64) :
    ∃ b n : UInt64, b.toNat = stats.blocksOk.toNat + 1 ∧ n.toNat = stats.recordsOk.toNat + 1
      ∧ nextRecord x r = .ok (some record) { r with
          pos := e
          stats := { stats with blocksOk := b, recordsOk := n } } := by
  have hskip := stats.bytesSkipped.toNat_lt
  obtain ⟨b, s, haccept, hbval, hsval⟩ := @acceptBlock_ok r.pos r.pos [record]
    { r with pos := e, stats := stats } hblocks (by simp only; omega)
  have hs : s = stats.bytesSkipped :=
    UInt64.toNat_inj.mp (by rw [hsval, Nat.sub_self, Nat.add_zero])
  obtain ⟨n, hneq, hnval⟩ := @checkedAdd_ok "records_ok" _ _ hrecords
  have hscan : scanNextBlock x r = _ := (scanLoop_of_block hfind htry).trans haccept
  rw [nextRecord_of_block hpending hscan, nextRecord_of_pending (by rw [hpending]; rfl) hneq]
  obtain ⟨data, pos, config, stats₀, pending⟩ := r
  subst hs
  cases hpending
  exact ⟨b, n, hbval, hnval, rfl⟩

structure LoneBlock (x : External) (config : ReaderConfig)
    (clen ulen : Nat) (body : Bytes) (record : OwnedRecord) : Prop where
  marked : config.syncMarker.toList <+: body
  read : ∀ {data pre post : Bytes}, data = pre ++ (body ++ post) →
    ∃ frame, readFrame x config data pre.length = .ok frame
      ∧ frame.header.compressedLen.toNat = clen ∧ frame.header.uncompressedLen.toNat = ulen
      ∧ decodePayload x frame = .ok [record] ∧ frame.endPos = pre.length + body.length

theorem LoneBlock.findNextSync {clen ulen : Nat} {body : Bytes}
    {record : OwnedRecord} (h : LoneBlock x config clen ulen body record)
    (hm : Syncable config.syncMarker) {r : LogjetReader} {pre post : Bytes}
    (hconfig : r.config = config) (hpos : r.pos = pre.length)
    (hdata : r.data = pre ++ (body ++ post)) :
    findNextSync r.config.syncMarker r.data r.pos = some pre.length := by
  rw [hconfig, hpos, findNextSync_eq_first hm.repeats, hdata, drop_left,
    Search.first_eq_zero (h.marked.trans (prefix_append _ _))]
  rfl

theorem yields_until_overflow (hm : Syncable config.syncMarker)
    {clen ulen : Nat} {last tl : Bytes} {b : UInt8} {record : OwnedRecord}
    (hlast : LoneBlock x config clen ulen last record)
    (hcons : last = b :: tl) (htl : config.syncMarker.get 0 ∉ tl)
    (lone : List (Bytes × OwnedRecord)) (hlone : ∀ p ∈ lone, LoneBlock x config clen ulen p.1 p.2)
    {r : LogjetReader} {pre : Bytes} (hconfig : r.config = config)
    (hpending : r.pending = []) (hpos : r.pos = pre.length)
    (hdata : r.data = pre ++ ((lone.map Prod.fst).flatten ++ last))
    (hlt : r.stats.totalUncompressedBytes.toNat + lone.length * ulen < 2 ^ 64)
    (hge : 2 ^ 64 ≤ r.stats.totalUncompressedBytes.toNat + (lone.length + 1) * ulen)
    (hc : r.stats.totalCompressedBytes.toNat + (lone.length + 1) * clen < 2 ^ 64)
    (hblocks : r.stats.blocksOk.toNat + lone.length < 2 ^ 64)
    (hrecords : r.stats.recordsOk.toNat + lone.length < 2 ^ 64)
    (hbad : r.stats.blocksBad.toNat + 1 < 2 ^ 64)
    (hskip : r.stats.bytesSkipped.toNat + (r.data.length - r.pos) < 2 ^ 64) :
    ∃ r', Yields x r (lone.map Prod.snd) r' := by
  induction lone generalizing r pre with
  | nil =>
    rw [map_nil, flatten_nil, nil_append] at hdata
    have hdata' : r.data = pre ++ (last ++ []) := by
      rw [append_nil]
      exact hdata
    have hsync := hlast.findNextSync hm hconfig hpos hdata'
    obtain ⟨frame, hframe, hclen, hulen, -⟩ := hlast.read hdata'
    rw [← hconfig] at hframe
    rw [length_nil] at hlt hge hc
    rw [hcons] at hdata
    obtain ⟨r₁, hscan⟩ := scanLoop_of_last_overflow (hconfig ▸ hm) hdata
      (hconfig ▸ htl) hsync hframe (by omega) (by omega) hbad hskip
    exact ⟨_, .done (nextRecord_of_end hpending hscan)⟩
  | cons p lone ih =>
    obtain ⟨body, rec⟩ := p
    have hp := hlone _ mem_cons_self
    rw [map_cons, flatten_cons, append_assoc] at hdata
    have hsync := hp.findNextSync hm hconfig hpos hdata
    obtain ⟨frame, hframe, hclen, hulen, hdecode, hend⟩ := hp.read hdata
    rw [← hconfig] at hframe
    rw [length_cons] at hlt hge hc hblocks hrecords
    have hmul : (lone.length + 1 + 1) * ulen = (lone.length + 1) * ulen + ulen := by
      rw [Nat.add_mul (lone.length + 1), Nat.one_mul]
    have hmul' : (lone.length + 1) * ulen = lone.length * ulen + ulen := by
      rw [Nat.add_mul lone.length, Nat.one_mul]
    have hmulc : (lone.length + 1 + 1) * clen = (lone.length + 1) * clen + clen := by
      rw [Nat.add_mul (lone.length + 1), Nat.one_mul]
    obtain ⟨c, u, htotals, hcval, huval⟩ := @addTotals_ok frame.header r.stats (by omega) (by omega)
    have htry := tryReadBlockAt_of_frame hframe htotals
    rw [hdecode, hend, ← hpos] at htry
    obtain ⟨b', m, hbval, hmval, hnext⟩ := nextRecord_of_single hpending
      (hpos ▸ hsync) htry (by simp only; omega) (by simp only; omega)
    have hlen : r.data.length = pre.length + (body.length
        + ((lone.map Prod.fst).flatten ++ last).length) := by
      rw [hdata, length_append, length_append]
    obtain ⟨r', hy⟩ := @ih (fun q hq => hlone q (mem_cons_of_mem _ hq))
      { r with pos := r.pos + body.length
               stats := { r.stats with
                 totalCompressedBytes := c, totalUncompressedBytes := u
                 blocksOk := b', recordsOk := m } }
      (pre ++ body) hconfig hpending
      (by simp only [length_append, hpos])
      (by rw [append_assoc]; exact hdata)
      (by simp only; omega) (by simp only; omega) (by simp only; omega)
      (by simp only at hbval ⊢; omega) (by simp only at hmval ⊢; omega)
      hbad (by simp only; omega)
    exact ⟨r', .more hnext hy⟩

def wideBlock : Block external where
  config := wideWriter
  base := ⟨1, 1⟩
  records := [wideRecord]
  below := by
    intro r hr
    rw [mem_singleton.mp hr]
    exact ⟨UInt64.le_refl _, UInt64.le_refl _⟩
  body := wideBody
  built := by
    rw [encodeRecords, flatMap_singleton]
    exact buildBlock_wide

theorem headerOf_wideBody : headerOf wideBody = some wideHeader := headerOf_assembleBlock rfl

theorem withinLimits_wideBody : WithinLimits wideConfig wideBody := by
  intro header hheader
  rw [headerOf_wideBody] at hheader
  cases hheader
  exact ⟨by decide, by decide⟩

theorem wideBody_marker : defaultSyncMarker.toList <+: wideBody := by decide +kernel

theorem loneBlock_wideBody : LoneBlock external wideConfig 8 (2 ^ 32 - 1) wideBody wideRecord where
  marked := wideBody_marker
  read := by
    intro data pre post hdata
    obtain ⟨frame, hframe, hheader, hdecode, hend⟩ :=
      wideBlock.readFrame_body external_roundTrip rfl withinLimits_wideBody hdata
    have hwide : wideHeader = frame.header := Option.some.inj (headerOf_wideBody.symm.trans hheader)
    exact ⟨frame, hframe, hwide ▸ rfl, hwide ▸ rfl, hdecode, hend⟩

theorem wideBody_cons : ∃ tl, wideBody = defaultSyncMarker.get 0 :: tl
    ∧ defaultSyncMarker.get 0 ∉ tl := ⟨wideBody.tail, by decide +kernel, by decide +kernel⟩

theorem wideBody_length : wideBody.length = 60 := by decide +kernel

theorem yields_wide (n : Nat) (hn : n = 2 ^ 32 + 1) : ∃ r', Yields external (LogjetReader.withConfig
      (List.replicate (n + 1) wideBody).flatten wideConfig) (List.replicate n wideRecord) r' := by
  obtain ⟨tl, hbody, htl⟩ := wideBody_cons
  have hlen : (List.replicate (n + 1) wideBody).flatten.length = (n + 1) * 60 := by
    rw [length_flatten, map_replicate, sum_replicate_nat, wideBody_length]
  have hsplit : (List.replicate (n + 1) wideBody).flatten
      = [] ++ (((List.replicate n (wideBody, wideRecord)).map Prod.fst).flatten ++ wideBody) := by
    rw [map_replicate, replicate_succ', flatten_append, flatten_singleton, nil_append]
  have hy := @yields_until_overflow external wideConfig
    defaultSyncMarker_syncable _ _ _ tl _ _ loneBlock_wideBody hbody htl
    (List.replicate n (wideBody, wideRecord))
    (fun p hp => eq_of_mem_replicate hp ▸ loneBlock_wideBody)
    (LogjetReader.withConfig (List.replicate (n + 1) wideBody).flatten
      wideConfig) [] rfl rfl rfl hsplit
  rw [map_replicate] at hy
  apply hy
  all_goals
    simp only [LogjetReader.withConfig, ReaderStats.default,
      UInt64.toNat_zero, hlen, length_replicate]
    omega

theorem stream_loses_record_on_overflow :
    external.RoundTrip ∧ wideWriter.syncMarker = defaultSyncMarker
      ∧ wideConfig.syncMarker = defaultSyncMarker ∧ ∃ chunks, intoInner external (runOps external
            (repeatOps wideRecord (2 ^ 32 + 2)) (inMemory wideWriter)).2 = .ok chunks
        ∧ (∀ chunk ∈ chunks, WithinLimits wideConfig chunk) ∧ ¬ ∃ r', Yields external
              (LogjetReader.withConfig chunks.flatten wideConfig)
              (runOps external (repeatOps wideRecord (2 ^ 32 + 2)) (inMemory wideWriter)).1 r'
            ∧ r'.stats.blocksBad = 0 := by
  have hrun := runOps_repeat push_wide flushBlock_wide (2 ^ 32 + 1 + 1) []
  refine ⟨external_roundTrip, rfl, rfl, List.replicate (2 ^ 32 + 1 + 1) wideBody, ?_, ?_, ?_⟩
  · rw [inMemory, hrun]
    rfl
  · intro chunk hchunk
    rw [eq_of_mem_replicate hchunk]
    exact withinLimits_wideBody
  · rintro ⟨r', hy, -⟩
    rw [inMemory, hrun] at hy
    obtain ⟨r'', hshort⟩ := yields_wide (2 ^ 32 + 1) rfl
    have hlen := congrArg List.length (hy.eq hshort)
    rw [length_replicate, length_replicate] at hlen
    omega

/-- Damage to one block costs that block's records and no others. -/
theorem damage_contained (x : External) (hx : x.RoundTrip)
    (config : ReaderConfig) (hmarker : config.syncMarker = defaultSyncMarker)
    (blocks : List (Block x)) (hblocks : ∀ b ∈ blocks, b.config.syncMarker = defaultSyncMarker
      ∧ WithinLimits config b.body) (i : Nat) (hi : i < blocks.length) (damage data : Bytes)
    (hdata : data = ((blocks.map Block.bytes).set i damage).flatten)
    (hnone : ∀ q, ((blocks.take i).flatMap Block.bytes).length ≤ q →
      q < ((blocks.take i).flatMap Block.bytes).length + damage.length →
      ∀ records e, ¬ ValidBlock x config data q records e) (hfit : CountersFit x config data) :
    ∃ r', Yields x (LogjetReader.withConfig data config)
      ((blocks.eraseIdx i).flatMap Block.records) r' := by
  have hm : Syncable config.syncMarker := hmarker ▸ defaultSyncMarker_syncable
  have hread : ∀ b ∈ blocks, b.Readable config := fun b hb =>
    ⟨by rw [hmarker, (hblocks b hb).1], (hblocks b hb).2⟩
  have hfile : data = (blocks.take i).flatMap Block.bytes
      ++ (damage ++ (blocks.drop (i + 1)).flatMap Block.bytes) := by
    rw [hdata, set_eq_take_append_cons_drop, if_pos (by simpa using hi),
      flatten_append, flatten_cons, ← map_take, ← map_drop, flatMap_def, flatMap_def]
  obtain ⟨hbefore, -⟩ := @scan_blocks x config data hx hm (blocks.take i)
    (fun b hb => hread b (mem_of_mem_take hb)) [] _ hfile
  rw [length_nil, Nat.zero_add] at hbefore
  have hgap : scanRecords x config data ((blocks.take i).flatMap Block.bytes).length
        = scanRecords x config data (((blocks.take i).flatMap Block.bytes) ++ damage).length := by
    rw [length_append]
    refine Greedy.records_skip (Nat.le_add_right _ _) ?_ fun q h1 h2 => ?_
    · rw [hfile]
      simp only [length_append]
      omega
    · cases hb : blockAt x config data q with
      | none => rfl
      | some be => exact absurd (blockAt_eq_some_iff.mp hb) (hnone q h1 h2 _ _)
  have hlast : data = (blocks.take i).flatMap Block.bytes ++ damage
      ++ ((blocks.drop (i + 1)).flatMap Block.bytes ++ []) := by
    rw [append_nil, append_assoc]
    exact hfile
  obtain ⟨hafter, -⟩ := scan_blocks hx hm (fun b hb => hread b (mem_of_mem_drop hb)) hlast
  have hend : scanRecords x config data (((blocks.take i).flatMap Block.bytes ++ damage).length
        + ((blocks.drop (i + 1)).flatMap Block.bytes).length) = [] := by
    refine Greedy.records_end (Nat.le_of_eq ?_)
    rw [hlast]
    simp only [length_append, length_nil, Nat.add_zero]
  obtain ⟨r', hy, -⟩ := yields_scanRecords hm hfit
  rw [hbefore, hgap, hafter, hend, append_nil, ← flatMap_append, ← eraseIdx_eq_take_drop_succ] at hy
  exact ⟨r', hy⟩

theorem damage_contained_truncated : ∃ r', Yields external (LogjetReader.withConfig
      (([lastBlock, lastBlock].map Block.bytes).set 0
        (lastBlock.body.take 30 ++ defaultSyncMarker.toList)).flatten .default)
    (([lastBlock, lastBlock].eraseIdx 0).flatMap Block.records) r' := by
  have hlimits : WithinLimits .default lastBlock.body := by decide +kernel
  have hnone : ∀ q < 38, blockAt external .default (([lastBlock, lastBlock].map Block.bytes).set 0
        (lastBlock.body.take 30 ++ defaultSyncMarker.toList)).flatten q = none := by decide +kernel
  refine damage_contained external external_roundTrip .default rfl
    [lastBlock, lastBlock] ?_ 0 (by decide) _ _ rfl ?_
    ⟨by decide +kernel, by decide +kernel, by decide +kernel, by decide +kernel⟩
  · intro b hb
    rcases mem_cons.mp hb with rfl | hb
    · exact ⟨rfl, hlimits⟩
    · rw [mem_singleton.mp hb]
      exact ⟨rfl, hlimits⟩
  · intro q _ hq records e hvalid
    have hlen : (lastBlock.body.take 30 ++ defaultSyncMarker.toList).length = 38 := by
      decide +kernel
    rw [take_zero, flatMap_nil, length_nil, Nat.zero_add, hlen] at hq
    rw [← blockAt_eq_some_iff, hnone q hq] at hvalid
    cases hvalid

theorem damage_spreads_on_overflow :
    (∀ b ∈ [lastBlock, lastBlock], b.config.syncMarker = defaultSyncMarker
        ∧ WithinLimits wideConfig b.body)
      ∧ (∀ q, q < hollowRun.length → ∀ records e, ¬ ValidBlock external
          wideConfig (([lastBlock, lastBlock].map Block.bytes).set 0 hollowRun).flatten q records e)
      ∧ ¬ ∃ r', Yields external (LogjetReader.withConfig
          (([lastBlock, lastBlock].map Block.bytes).set 0 hollowRun).flatten wideConfig)
        (([lastBlock, lastBlock].eraseIdx 0).flatMap Block.records) r' := by
  have hbytes : lastBlock.bytes = lastBlock.body := by decide +kernel
  have hfile : (([lastBlock, lastBlock].map Block.bytes).set 0
      hollowRun).flatten = overflowFile := by
    simp only [map_cons, map_nil, set_cons_zero, flatten_cons, flatten_nil, append_nil, hbytes]
    rw [overflowFile]
  have hlimits : WithinLimits wideConfig lastBlock.body := by decide +kernel
  rw [hfile]
  refine ⟨?_, ?_, ?_⟩
  · intro b hb
    rcases mem_cons.mp hb with rfl | hb
    · exact ⟨rfl, hlimits⟩
    · rw [mem_singleton.mp hb]
      exact ⟨rfl, hlimits⟩
  · intro q hq records e hvalid
    rw [← blockAt_eq_some_iff, blockAt_hollowRun hq] at hvalid
    cases hvalid
  · rintro ⟨r', hy⟩
    obtain ⟨r₁, hnone⟩ := nextRecord_overflowFile
    cases hy with
    | more hnext => rw [hnone] at hnext; cases hnext

end Logjet
