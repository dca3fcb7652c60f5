/-
Following a file loses nothing as long as no poll meets a block half written.
A run is described against the finished file (`Follows`).
-/
import Logjet.Ljx.Follow
import Logjet.Proofs.Layout
import Logjet.Proofs.Overflow

namespace Logjet.Ljx

open List hiding Vector
open Reference

variable {x : External} {config : ReaderConfig} {data : Bytes}

def IsBlock (x : External) (b : Bytes) (records : List OwnedRecord) : Prop :=
  ValidBlock x .default b 0 records b.length

theorem IsBlock.passes {b : Bytes} {records : List OwnedRecord}
    (h : IsBlock x b records) {pre post : Bytes} (hdata : data = pre ++ (b ++ post)) :
    Passes x .default data pre.length (pre.length + b.length) records
      fun field => headerField field b := by
  obtain ⟨frame, payload, hf, hend, hpayload, hparse⟩ := h
  have hvalid : ValidBlock x .default data pre.length records (pre.length + b.length) := by
    have hembed := ValidBlock.embed ⟨frame, payload, hf, hend, hpayload, hparse⟩ pre post
    rw [append_assoc, ← hdata] at hembed
    exact hembed
  have hframe : readFrame x .default data pre.length
      = .ok { frame with endPos := pre.length + frame.endPos } := by
    have hembed := hf.embed pre post
    rw [append_assoc, ← hdata] at hembed
    exact readFrame_eq_ok_iff.mpr hembed
  have hheader : headerOf b = some frame.header := by
    rw [headerOf, show slice b 8 24 = slice b (0 + 8) 24 from rfl, hf.header]
  have hblock := blockAt_eq_some_iff.mpr hvalid
  have hgood : badWeight x .default data pre.length = 0 := if_neg fun h => by simp [hblock] at h
  refine ⟨?_, ?_, ?_⟩
  · rw [scanRecords_some hblock]
  · intro field
    rw [scanTally_some _ hblock, frameWeight_of_frame hframe, headerField_of_some hheader]
  · rw [scanTally_some _ hblock, hgood, Nat.zero_add]

theorem passes_isBlocks {blocks : List Bytes} {lists : List (List OwnedRecord)}
    (h : List.Forall₂ (IsBlock x) blocks lists) {pre post : Bytes}
    (hdata : data = pre ++ (blocks.flatten ++ post)) :
    Passes x .default data pre.length (pre.length + blocks.flatten.length) lists.flatten
      fun field => (blocks.map (headerField field)).sum := by
  induction h generalizing pre with
  | nil => exact Passes.refl _
  | @cons b records blocks lists hb _ ih =>
    rw [flatten_cons, append_assoc] at hdata
    have hfirst := hb.passes hdata
    have hrest := @ih (pre ++ b) (hdata.trans (append_assoc ..).symm)
    rw [length_append] at hrest
    have hboth := hfirst.trans hrest
    rw [Nat.add_assoc, ← length_append] at hboth
    exact hboth

theorem scan_isBlocks {blocks : List Bytes} {lists : List (List OwnedRecord)}
    (h : List.Forall₂ (IsBlock x) blocks lists) (old : Bytes) :
    scanRecords x .default (old ++ blocks.flatten) old.length = lists.flatten
      ∧ ∀ field, scanTally x .default (old ++ blocks.flatten)
          (frameWeight x .default (old ++ blocks.flatten) field) old.length
        = (blocks.map (headerField field)).sum := by
  have hpass := @passes_isBlocks x (old ++ blocks.flatten) blocks lists h old [] (by simp)
  rw [← length_append] at hpass
  constructor
  · rw [hpass.records, scanRecords, Greedy.records_end (Nat.le_refl _), append_nil]
  · intro field
    rw [hpass.fields, scanTally, Greedy.tally_end _ (Nat.le_refl _), Nat.add_zero]

structure Follows (x : External) (full : Bytes) (all : List OwnedRecord)
    (returned : List OwnedRecord) (r : LogjetReader) : Prop where
  config : r.config = .default
  part : r.data <+: full
  room : Room x r.pos { r with data := full }
  rest : all = returned ++ (r.pending ++ scanRecords x .default full r.pos)

theorem findNextSync_of_marker {marker : Vector UInt8 8}
    (hm : Syncable marker) {pos : Nat} (h : MarkerAt marker data pos) :
    findNextSync marker data pos = some pos := by
  rw [findNextSync_eq_first hm.repeats, Search.first_eq_zero (markerAt_iff_isPrefix.mp h)]
  rfl

section Steps

variable {full : Bytes} {all returned : List OwnedRecord} {r : LogjetReader}

theorem Follows.scan_block (h : Follows x full all returned r)
    (hpending : r.pending = []) {e : Nat} {records : List OwnedRecord}
    (hvalid : ValidBlock x .default r.data r.pos records e) :
    ∃ r', scanNextBlock x r = .ok true r' ∧ r'.data = r.data ∧ r'.pos = e ∧ r'.pending = records
      ∧ Follows x full all returned r' := by
  obtain ⟨post, hpost⟩ := h.part
  obtain ⟨frame, payload, hf, rfl, hpayload, hparse⟩ := hvalid
  have hconfig := h.config
  have hframe : readFrame x r.config r.data r.pos = .ok frame := by
    rw [hconfig]
    exact readFrame_eq_ok_iff.mpr hf
  have hffull : Framed x .default full r.pos frame := by
    have hembed := hf.embed [] post
    simpa [hpost] using hembed
  have hframe' : readFrame x r.config full r.pos = .ok frame := by
    rw [hconfig]
    exact readFrame_eq_ok_iff.mpr hffull
  have hdecode : decodePayload x frame = .ok records :=
    Except.bind_eq_ok_iff.mpr ⟨payload, hpayload, hparse⟩
  have hblock : blockAt x r.config full r.pos = some (records, frame.endPos) := by
    rw [blockAt_of_frame hframe', hdecode]
  obtain ⟨hlt, hle⟩ := readFrame_bounds x hframe'
  obtain ⟨hinside, -, hblocksOk, hblocksBad, hskipped, hrecordsOk,
    hcompressed, huncompressed⟩ := h.room
  simp only [scanTally_some _ hblock, scanRecords_some hblock,
    frameWeight_of_frame hframe', hpending, length_nil,
    length_append] at hcompressed huncompressed hrecordsOk
  simp only at hblocksOk hblocksBad hskipped
  obtain ⟨c, u, htotals, hc, hu⟩ := @addTotals_ok frame.header r.stats (by omega) (by omega)
  have htry := tryReadBlockAt_of_frame hframe htotals
  rw [hdecode] at htry
  have hmarker : MarkerAt r.config.syncMarker r.data r.pos := by
    rw [hconfig]
    exact hf.marker
  have hm : Syncable r.config.syncMarker := hconfig ▸ defaultSyncMarker_syncable
  obtain ⟨b, s, haccept, hb, hs⟩ := @acceptBlock_ok r.pos r.pos records
    { r with pos := frame.endPos, stats := { r.stats with
      totalCompressedBytes := c, totalUncompressedBytes := u } }
    (by simp only; omega) (by simp only; omega)
  refine ⟨_, (scanLoop_of_block (findNextSync_of_marker hm hmarker)
    htry).trans haccept, rfl, rfl, by simp [hpending], ?_⟩
  simp only at hb hs
  refine ⟨hconfig, h.part, ⟨hle, Nat.le_refl _, ?_, ?_, ?_, ?_, ?_, ?_⟩, ?_⟩
  all_goals simp only [hpending, nil_append]
  · omega
  · omega
  · omega
  · omega
  · omega
  · omega
  · have hscan : scanRecords x .default full r.pos
        = records ++ scanRecords x .default full frame.endPos := scanRecords_some (hconfig ▸ hblock)
    rw [h.rest, hpending, nil_append, hscan]

theorem Follows.pop (h : Follows x full all returned r) (hpending : r.pending ≠ []) :
    ∃ record r', nextRecord x r = .ok (some record) r' ∧ r'.data = r.data ∧ r'.pos = r.pos
      ∧ Follows x full all (returned ++ [record]) r' := by
  obtain ⟨record, pending, hpop⟩ := exists_cons_of_ne_nil hpending
  obtain ⟨hinside, horigin, hblocksOk, hblocksBad, hskipped, hrecordsOk,
    hcompressed, huncompressed⟩ := h.room
  simp only [hpop, length_cons] at hrecordsOk
  obtain ⟨n, hn, hval⟩ := @checkedAdd_ok "records_ok" r.stats.recordsOk 1 (by omega)
  refine ⟨record, _, nextRecord_of_pending hpop hn, rfl, rfl, h.config,
    h.part, ⟨hinside, horigin, hblocksOk, hblocksBad, hskipped, ?_, hcompressed, huncompressed⟩, ?_⟩
  · simp only [hval]
    omega
  · rw [h.rest, hpop]
    simp

theorem nextRecord_at_end (hpending : r.pending = [])
    (hpos : r.pos = r.data.length) : nextRecord x r = .ok none r := by
  have hfind : findNextSync r.config.syncMarker r.data r.pos = none := by
    rw [hpos, findNextSync, drop_length]
    rfl
  have hadd : checkedAdd "bytes_skipped" r.stats.bytesSkipped
      (r.data.length - r.pos) = .ok r.stats.bytesSkipped := by
    have hlt := r.stats.bytesSkipped.toNat_lt
    rw [checkedAdd, hpos, Nat.sub_self, Nat.add_zero, if_pos hlt, UInt64.ofNat_toNat]
  refine nextRecord_of_end hpending ((scanLoop_of_none hfind).trans ?_)
  simp only [finishScan, EStateM.bind_eq_ok_iff, EStateM.ofExcept_eq_ok_iff]
  refine ⟨_, _, rfl, _, _, rfl, _, _, ⟨hadd, rfl⟩, _, _, rfl, ?_⟩
  obtain ⟨data, pos, config, stats, pending⟩ := r
  simp only at hpos
  subst hpos
  rfl

theorem Follows.poll (h : Follows x full all returned r) (hwhole : Whole x r) :
    ∃ record r', nextRecord x r = .ok record r' ∧ r'.data = r.data
      ∧ Follows x full all (returned ++ record.toList) r' := by
  by_cases hpending : r.pending = []
  · have hclear := hwhole hpending
    clear hwhole
    generalize hp : r.pos = p at hclear
    generalize hd : r.data = written at hclear
    induction hclear generalizing r with
    | done =>
      refine ⟨none, r, nextRecord_at_end hpending (by rw [hp, hd]), hd, ?_⟩
      simpa using h
    | block hne hvalid =>
      subst hp hd
      obtain ⟨r₁, hscan, hdata, -, hrecords, h₁⟩ := h.scan_block hpending hvalid
      obtain ⟨record, r', hnext, hdata', -, h'⟩ := h₁.pop (hrecords ▸ hne)
      exact ⟨some record, r', (nextRecord_of_block hpending hscan).trans
        hnext, hdata'.trans hdata, h'⟩
    | empty hvalid _ ih =>
      subst hp hd
      obtain ⟨r₁, hscan, hdata, hpos, hrecords, h₁⟩ := h.scan_block hpending hvalid
      obtain ⟨record, r', hnext, hdata', h'⟩ := ih h₁ hrecords hpos hdata
      exact ⟨record, r', (nextRecord_of_block hpending hscan).trans hnext, hdata', h'⟩
  · obtain ⟨record, r', hnext, hdata, -, h'⟩ := h.pop hpending
    exact ⟨some record, r', hnext, hdata, h'⟩

theorem Follows.write (h : Follows x full all returned r) {bytes : Bytes}
    (hwritten : r.data ++ bytes <+: full) :
    Follows x full all returned { r with data := r.data ++ bytes } :=
  ⟨h.config, hwritten, h.room, h.rest⟩

theorem Follows.step (h : Follows x full all returned r) {step : FollowStep}
    {later : List FollowStep} (hwritten : r.data ++ written (step :: later) <+: full)
    (hwhole : step = .poll → Whole x r) : ∃ record r', step.run x r = .ok (record, r')
      ∧ r'.data ++ written later = r.data ++ written (step :: later)
      ∧ Follows x full all (returned ++ record.toList) r' := by
  cases step with
  | write bytes =>
    have hbytes : r.data ++ bytes ++ written later = r.data ++ written (.write bytes :: later) := by
      rw [append_assoc]
      rfl
    refine ⟨none, _, rfl, hbytes, ?_⟩
    rw [Option.toList_none, append_nil]
    rw [← hbytes] at hwritten
    exact h.write ((prefix_append _ _).trans hwritten)
  | poll =>
    obtain ⟨record, r', hnext, hdata, h'⟩ := h.poll (hwhole rfl)
    refine ⟨record, r', ?_, ?_, h'⟩
    · rw [FollowStep.run, hnext]
    · rw [hdata]
      rfl

theorem Follows.run (h : Follows x full all returned r)
    {steps : List FollowStep} (hwritten : r.data ++ written steps = full)
    (hwhole : ∀ r' ∈ polled x steps r, Whole x r') :
    ∃ records r', follow x steps r = .ok (records, r') ∧ r'.data = full
      ∧ Follows x full all (returned ++ records) r' := by
  induction steps generalizing returned r with
  | nil =>
    refine ⟨[], r, rfl, ?_, by simpa using h⟩
    rw [← hwritten]
    exact (append_nil _).symm
  | cons step steps ih =>
    have hhead : step = .poll → Whole x r := by
      intro hpoll
      apply hwhole
      rw [polled, if_pos hpoll]
      exact mem_append_left _ (mem_singleton_self r)
    have hstarts : r.data ++ written (step :: steps) <+: full := by rw [hwritten]
    obtain ⟨record, r₁, hrun, hdata, h₁⟩ := h.step hstarts hhead
    obtain ⟨records, r', hfollow, hfull, h'⟩ := ih h₁
      (hdata.trans hwritten) (fun r' hr' => hwhole r' (by
        simp only [polled, hrun, mem_append]
        exact Or.inr hr'))
    refine ⟨record.toList ++ records, r', ?_, hfull, ?_⟩
    · rw [follow]
      exact Except.bind_eq_ok_iff.mpr ⟨_, hrun, Except.bind_eq_ok_iff.mpr ⟨_, hfollow, rfl⟩⟩
    · rw [← append_assoc]
      exact h'

end Steps

/-- Polls that see whole blocks return all that was appended. -/
theorem follow_returns_appended (x : External) (old : Bytes)
    (blocks : List Bytes) (lists : List (List OwnedRecord))
    (hblocks : List.Forall₂ (IsBlock x) blocks lists) (hfit : CountersFit x .default blocks.flatten)
    (steps : List FollowStep) (hwritten : written steps = blocks.flatten)
    (hwhole : ∀ r ∈ polled x steps (openAtEnd old), Whole x r) :
    ∃ returned r, follow x steps (openAtEnd old) = .ok (returned, r)
      ∧ (∀ r', nextRecord x r = .ok none r' → returned = lists.flatten)
      ∧ ∃ rest r', Yields x r rest r' ∧ returned ++ rest = lists.flatten := by
  have hfull := scan_isBlocks hblocks old
  have hnew := scan_isBlocks hblocks []
  rw [nil_append, length_nil] at hnew
  have hstart : Follows x (old ++ blocks.flatten) lists.flatten [] (openAtEnd old) := by
    refine ⟨rfl, prefix_append _ _, ⟨?_, Nat.le_refl _, ?_, ?_, ?_, ?_, ?_, ?_⟩, ?_⟩
    all_goals simp only [openAtEnd, LogjetReader.withConfig,
      ReaderStats.default, length_append, length_nil,
      UInt64.toNat_zero, Nat.zero_add, Nat.add_sub_cancel_left, nil_append, hfull]
    · omega
    · exact hfit.length
    · exact hfit.length
    · exact hfit.length
    · have hrecords := hfit.records
      rw [hnew.1] at hrecords
      exact hrecords
    · have hcompressed := hfit.compressed
      rw [hnew.2] at hcompressed
      exact hcompressed
    · have huncompressed := hfit.uncompressed
      rw [hnew.2] at huncompressed
      exact huncompressed
  obtain ⟨returned, r, hfollow, hdata, hend⟩ := hstart.run (by rw [hwritten]; rfl) hwhole
  have hm : Syncable r.config.syncMarker := hend.config ▸ defaultSyncMarker_syncable
  have hroom := hend.room
  rw [← hdata] at hroom
  obtain ⟨r'', hy, -⟩ := yields_of_room hm hroom
  have hall := hend.rest
  rw [← hdata, ← hend.config, nil_append] at hall
  refine ⟨returned, r, hfollow, ?_, _, r'', hy, hall.symm⟩
  intro r' hnone
  have hrest : r.pending ++ scanRecords x r.config r.data r.pos = [] := hy.eq (.done hnone)
  rw [hrest, append_nil] at hall
  exact hall.symm

def wholeSteps : List FollowStep :=
  [.poll, .write (lastBlock.body.take 30), .write (lastBlock.body.drop 30), .poll, .poll]

theorem follow_returns_wholeSteps : ∃ returned r,
    follow external wholeSteps (openAtEnd [1, 2, 3]) = .ok (returned, r)
      ∧ (∀ r', nextRecord external r = .ok none r' → returned = [lastBlock.records].flatten)
      ∧ ∃ rest r', Yields external r rest r' ∧ returned ++ rest = [lastBlock.records].flatten := by
  refine follow_returns_appended external [1, 2, 3] [lastBlock.body]
    [lastBlock.records] (.cons ?_ .nil) (by decide +kernel) wholeSteps (by decide +kernel) ?_
  · exact blockAt_eq_some_iff.mp (by decide +kernel)
  · have hcheck : ∀ r ∈ polled external wholeSteps (openAtEnd [1, 2, 3]),
        r.pos = r.data.length ∨ blockAt external .default r.data r.pos
          = some (lastBlock.records, r.data.length) := by decide +kernel
    intro r hr _
    rcases hcheck r hr with hend | hblock
    · rw [hend]
      exact .done
    · exact .block (by decide +kernel) (blockAt_eq_some_iff.mp hblock)

def splitSteps : List FollowStep :=
  [.write (lastBlock.body.take 30), .poll, .write (lastBlock.body.drop 30)]

theorem follow_loses_split_block : ∃ r r', written splitSteps = lastBlock.body
      ∧ blockAt external .default lastBlock.body 0 = some (lastBlock.records, lastBlock.body.length)
      ∧ lastBlock.records ≠ [] ∧ follow external splitSteps (openAtEnd []) = .ok ([], r)
      ∧ nextRecord external r = .ok none r' := by
  obtain ⟨⟨returned, r⟩, hfollow, hend⟩ := Except.okAnd_eq_true.mp
    (show (follow external splitSteps (openAtEnd [])).okAnd (fun last =>
      last.1 = [] ∧ EStateM.okAnd (nextRecord external) last.2
        (fun record _ => record = none) = true) = true by decide +kernel)
  simp only [decide_eq_true_eq] at hend
  obtain ⟨hnil, hnext⟩ := hend
  obtain ⟨record, r', hnext, hnone⟩ := EStateM.okAnd_eq_true.mp hnext
  simp only [decide_eq_true_eq] at hnone
  subst hnil hnone
  exact ⟨r, r', by decide +kernel, by decide +kernel, by decide +kernel, hfollow, hnext⟩

end Logjet.Ljx
