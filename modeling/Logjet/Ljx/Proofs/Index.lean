/-
Where the index builder and the reader agree: exactly when the file is clean.
What the reader accepts the index decodes to the same records.
-/
import Logjet.Ljx.Index
import Logjet.Proofs.Overflow

namespace Logjet.Ljx

open List hiding Vector
open Reference Except

variable {x : External} {decode : DecodeLogs} {data : Bytes}

variable {v : UInt64} {rest : Bytes} {base : BlockHeaderExt} {total p : Nat}
  {records : List OwnedRecord} {config : ReaderConfig} {blocks : List IndexBlock}

theorem varintLoop_of_ok {value : UInt64} {shift : Nat} {bytes : Bytes}
    (h : decodeVarintLoop value shift bytes = .ok (v, rest)) :
    varintLoop value shift bytes = .ok (v, rest) := by
  induction bytes generalizing value shift with
  | nil => cases h
  | cons byte bytes ih =>
    rw [decodeVarintLoop] at h
    rw [varintLoop]
    by_cases hlast : byte &&& 0x80 = 0
    · rw [if_pos hlast] at h ⊢
      cases h
      rfl
    · rw [if_neg hlast] at h ⊢
      by_cases hlong : shift + 7 ≥ 64
      · rw [if_pos hlong] at h
        cases h
      · rw [if_neg hlong] at h
        exact ih h

theorem add_of_checkedAdd {field : String} {a b : UInt64}
    (h : checkedAdd field a b.toNat = .ok v) : v = a + b := by
  rw [checkedAdd] at h
  split at h
  · cases h
    rw [UInt64.ofNat_add, UInt64.ofNat_toNat, UInt64.ofNat_toNat]
  · cases h

theorem parseBlockRecord_of_ok {rest' : Bytes} {record : OwnedRecord}
    (h : parseRecord base total rest = .ok (record, rest')) :
    parseBlockRecord base total rest = .ok (record, rest') := by
  cases rest with
  | nil => cases h
  | cons typeByte rest =>
    simp only [parseRecord, bind_eq_ok_iff, Prod.exists, ensure_eq_ok_iff] at h
    obtain ⟨kind, hkind, seqDelta, rest₁, hseq, tsDelta, rest₂, hts, len,
      rest₃, hlen, _, hroom, _, hin, seq, haddSeq, ts, haddTs, hret⟩ := h
    cases hret
    rw [add_of_checkedAdd haddSeq, add_of_checkedAdd haddTs]
    simp only [parseBlockRecord, bind_eq_ok_iff, Prod.exists]
    refine ⟨kind, ?_, seqDelta, rest₁, varintLoop_of_ok hseq, tsDelta,
      rest₂, varintLoop_of_ok hts, len, rest₃, varintLoop_of_ok hlen, (),
      ?_, (), ensure_true hin _, rfl⟩
    · rw [hkind]
      rfl
    · rw [ensure_true hroom]
      rfl

theorem parseBlockPayload_of_ok {count : Nat}
    (h : parseRecordsLoop base total count rest = .ok records) :
    parseBlockPayload base total rest = .ok records := by
  induction count generalizing rest records with
  | zero =>
    rw [parseRecordsLoop] at h
    by_cases hlen : rest.length ≠ 0
    · rw [if_pos hlen] at h
      cases h
    · rw [if_neg hlen] at h
      cases h
      rw [parseBlockPayload, if_pos (by simpa using hlen)]
  | succ count ih =>
    obtain ⟨⟨record, rest'⟩, hrecord, hrest⟩ := bind_eq_ok_iff.mp h
    obtain ⟨records', hrecords, hret⟩ := bind_eq_ok_iff.mp hrest
    cases hret
    have hne : ¬ rest.isEmpty := by
      cases rest with
      | nil => cases hrecord
      | cons _ _ => simp
    have hparse := parseBlockRecord_of_ok hrecord
    rw [parseBlockPayload, if_neg hne]
    split
    · rename_i err herr
      rw [hparse] at herr
      cases herr
    · rename_i record' rest'' hok
      rw [hparse] at hok
      cases hok
      rw [ih hrecords]
      rfl

theorem lift_eq_ok_iff {α : Type} {a : Except Error α} {v : α} : lift a = .ok v ↔ a = .ok v := by
  cases a with
  | ok v' => simp [lift]
  | error err => cases err <;> simp [lift]

theorem readBlockBody_of_framed
    {frame : Frame} (hf : Framed x config data p frame) {payload : Bytes}
    (hpayload : frame.header.codec.decompress x frame.compressed
      frame.header.uncompressedLen.toNat = .ok payload) (hparse : parseRecords payload
      frame.header.recordCount frame.base = .ok records) :
    readBlockBody x data (p + 8) = .ok (frame.header, records) := by
  have hend := hf.inside
  have hhlen := hf.headerLen
  rw [hf.endPos] at hend
  have hpos : p + 8 + 24 + (frame.header.headerLen.toNat - 24)
      = p + 8 + frame.header.headerLen.toNat := by omega
  simp only [readBlockBody, bind_eq_ok_iff, Prod.exists,
    lift_eq_ok_iff, readExact_eq_ok_iff, ensure_eq_ok_iff]
  simp only [blockHeaderFixedLen, blockHeaderExtLen]
  refine ⟨_, _, ⟨by omega, rfl, rfl⟩, _, hf.header, _, _,
    ⟨by omega, rfl, rfl⟩, (), by omega, frame.base, ?_, _, _,
    ⟨by omega, rfl, rfl⟩, _, _, ⟨by omega, rfl, rfl⟩, payload, ?_, records,
    parseBlockPayload_of_ok hparse, rfl⟩
  · rw [← hf.base]
    exact congrArg _ (slice_take (by omega))
  · rw [hpos, ← hpayload, hf.compressed]
    rfl

def indexAt (x : External) (data : Bytes) (p : Nat) : Option (List OwnedRecord × Nat) :=
  if slice data p 8 = defaultSyncMarker.toList then
    match readBlockBody x data (p + 8) with
    | .ok (header, records) => some (records, p + (8
        + header.headerLen.toNat + header.compressedLen.toNat + 4))
    | .error _ => none
  else none

theorem indexAt_of_not_marker
    (h : ¬ MarkerAt defaultSyncMarker data p) : indexAt x data p = none := if_neg h

theorem indexAt_of_validBlock (hconfig : config.syncMarker = defaultSyncMarker) {e : Nat}
    (h : ValidBlock x config data p records e) : indexAt x data p = some (records, e) := by
  obtain ⟨frame, payload, hf, rfl, hpayload, hparse⟩ := h
  rw [indexAt, if_pos (hconfig ▸ hf.marker), readBlockBody_of_framed hf hpayload hparse, hf.endPos]
  simp only [Nat.add_assoc]

theorem indexAt_advances (x : External) (data : Bytes) :
    Greedy.Advances (indexAt x data) data.length := by
  intro p records e h
  rw [indexAt] at h
  split at h
  · split at h
    · rename_i header records' hbody
      cases h
      simp only [readBlockBody, bind_eq_ok_iff, Prod.exists,
        lift_eq_ok_iff, readExact_eq_ok_iff, ensure_eq_ok_iff] at hbody
      obtain ⟨_, _, ⟨_, -, rfl⟩, header', -, _, _, ⟨_, -, rfl⟩, _, hext, _,
        -, _, _, ⟨_, -, rfl⟩, _, _, ⟨hend, -, rfl⟩, _, -, _, -, hret⟩ := hbody
      cases hret
      omega
    · cases h
  · cases h

theorem padded_ne_marker (h : ¬ MarkerAt defaultSyncMarker data p) :
    slice data p 8 ++ List.replicate (8 - (slice data p 8).length) 0
      ≠ defaultSyncMarker.toList := by
  intro heq
  apply h
  have hzero : (0 : UInt8) ∉ defaultSyncMarker.toList := by decide
  have hfull : 8 - (slice data p 8).length = 0 := by
    by_contra hne
    apply hzero
    rw [← heq]
    exact mem_append_right _ (mem_replicate.mpr ⟨hne, rfl⟩)
  rw [hfull, replicate_zero, append_nil] at heq
  exact heq

theorem readBlockSummary_of_not_marker (h : ¬ MarkerAt defaultSyncMarker data p) :
    readBlockSummary x decode data p = .ok none := by
  rw [readBlockSummary]
  by_cases hempty : (slice data p 8).isEmpty
  · rw [if_pos hempty]
    rfl
  · rw [if_neg hempty, if_pos (padded_ne_marker h)]
    rfl

structure Entry (x : External) (data : Bytes) (block : IndexBlock)
    (b : Nat × List OwnedRecord × Nat) : Prop where
  offset : block.offset = b.1
  ends : block.offset + block.len = b.2.2
  records : readBlockRecords x data block = .ok b.2.1

theorem readBlockSummary_of_marker {p : Nat} (h : MarkerAt defaultSyncMarker data p) :
    (∃ err, readBlockSummary x decode data p = .error err) ∨ ∃ block records e,
        readBlockSummary x decode data p = .ok (some block) ∧ indexAt x data p = some (records, e)
        ∧ Entry x data block (p, records, e) := by
  have hslice : slice data p 8 = defaultSyncMarker.toList := h
  have hlen : p + 8 ≤ data.length := by
    have hlen := congrArg List.length hslice
    simp only [slice, length_take, length_drop, Vector.length_toList] at hlen
    omega
  have hread : readBlockSummary x decode data p
      = (readBlockBody x data (p + 8)).bind fun hr => .ok (some
          (.ofRecords decode p (8 + hr.1.headerLen.toNat
            + hr.1.compressedLen.toNat + 4) hr.2)) := by
    rw [readBlockSummary, hslice]
    rfl
  have hindex : indexAt x data p = match readBlockBody x data (p + 8) with
      | .ok (header, records) => some (records, p + (8
          + header.headerLen.toNat + header.compressedLen.toNat + 4))
      | .error _ => none := if_pos hslice
  cases hbody : readBlockBody x data (p + 8) with
  | error err =>
    rw [hread, hbody]
    exact Or.inl ⟨err, rfl⟩
  | ok hr =>
    obtain ⟨header, records⟩ := hr
    rw [hbody] at hread hindex
    refine Or.inr ⟨_, records, _, hread, hindex, rfl, rfl, ?_⟩
    have hexact : readExact data p 8 = .ok (slice data p 8, p + 8) := if_pos hlen
    exact bind_eq_ok_iff.mpr ⟨_, congrArg lift hexact, bind_eq_ok_iff.mpr ⟨_, hbody, rfl⟩⟩

theorem findNextSyncMarker_eq (data : Bytes) (start : Nat) :
    findNextSyncMarker data start data.length = findNextSync defaultSyncMarker data start := by
  rw [findNextSyncMarker, take_length]

theorem buildLoop_spec {c : Nat}
    (h : buildLoop x decode data data.length c = .ok blocks) : List.Forall₂ (Entry x data) blocks
        (Greedy.blocks (indexAt x data) data.length c)
      ∧ ∀ p ∈ Greedy.visited (indexAt x data) data.length c,
        MarkerAt defaultSyncMarker data p → indexAt x data p ≠ none := by
  induction hn : data.length - c using Nat.strong_induction_on generalizing c blocks with
  | _ n ih =>
    rw [buildLoop] at h
    by_cases hc : c < data.length
    · rw [if_pos hc] at h
      by_cases hmarker : MarkerAt defaultSyncMarker data c
      · rcases @readBlockSummary_of_marker x decode data c hmarker with
          ⟨err, herr⟩ | ⟨block, records, e, hok, hindex, hentry⟩
        · rw [herr] at h
          cases h
        · obtain ⟨hlt, hle⟩ := indexAt_advances x data c records e hindex
          rw [hok] at h
          simp only [hentry.ends, Nat.max_eq_left (show c + 1 ≤ e by omega)] at h
          obtain ⟨rest, hrest, hret⟩ := bind_eq_ok_iff.mp h
          cases hret
          obtain ⟨hall, hdone⟩ := ih _ (by omega) hrest rfl
          rw [Greedy.blocks_some (indexAt_advances x data) hindex,
            Greedy.visited_some (indexAt_advances x data) hindex]
          refine ⟨.cons hentry hall, ?_⟩
          intro p hp hm
          rcases mem_cons.mp hp with rfl | hp
          · rw [hindex]
            exact Option.some_ne_none _
          · exact hdone p hp hm
      · rw [readBlockSummary_of_not_marker hmarker] at h
        simp only [findNextSyncMarker_eq] at h
        cases hnext : findNextSync defaultSyncMarker data c with
        | some next =>
          obtain ⟨hat, hnone⟩ := findNextSync_some defaultSyncMarker_syncable.repeats hnext
          obtain ⟨hle, hin⟩ := findNextSync_bounds hnext
          have hne : c ≠ next := fun heq => hmarker (heq ▸ hat)
          rw [hnext] at h
          simp only [Nat.max_eq_left (show c + 1 ≤ next by omega)] at h
          obtain ⟨hall, hdone⟩ := ih _ (by omega) h rfl
          have hskip : ∀ q, c ≤ q → q < next → indexAt x data q = none :=
            fun q h1 h2 => indexAt_of_not_marker (hnone q h1 h2)
          rw [Greedy.blocks_skip hle (by omega) hskip]
          refine ⟨hall, ?_⟩
          intro p hp hm
          rcases Greedy.mem_visited_skip hle (by omega) hskip hp with
            ⟨h1, h2⟩ | hp
          · exact absurd hm (hnone p h1 h2)
          · exact hdone p hp hm
        | none =>
          have hnone : ∀ q, c ≤ q → ¬ MarkerAt defaultSyncMarker data q :=
            fun q hq => findNextSync_none defaultSyncMarker_syncable.repeats hnext hq
          have hskip : ∀ q, c ≤ q → q < data.length → indexAt x data q = none :=
            fun q h1 _ => indexAt_of_not_marker (hnone q h1)
          rw [hnext] at h
          cases h
          rw [Greedy.blocks_skip (by omega) (Nat.le_refl _) hskip,
            Greedy.blocks_end (Nat.le_refl _)]
          refine ⟨.nil, ?_⟩
          intro p hp hm
          rcases Greedy.mem_visited_skip (by omega) (Nat.le_refl _) hskip hp with ⟨h1, -⟩ | hp
          · exact absurd hm (hnone p h1)
          · rw [Greedy.visited_end (Nat.le_refl _)] at hp
            cases hp
    · rw [if_neg hc] at h
      cases h
      rw [Greedy.blocks_end (by omega), Greedy.visited_end (by omega)]
      exact ⟨.nil, by simp⟩

def readerBlocks (x : External) (data : Bytes) : List (Nat × List OwnedRecord × Nat) :=
  Greedy.blocks (blockAt x .default data) data.length 0

/-- Every marker the scan comes to begins a valid block. -/
def Clean (x : External) (data : Bytes) : Prop :=
  ∀ p ∈ Greedy.visited (blockAt x .default data) data.length 0,
    MarkerAt defaultSyncMarker data p → blockAt x .default data p ≠ none

def indexedBlocks (x : External) (data : Bytes) (index : DatasetIndex) :
    Except LjxError (List (Nat × List OwnedRecord × Nat)) :=
  index.blocks.mapM fun block => do
    let records ← readBlockRecords x data block
    return (block.offset, records, block.offset + block.len)

def Agrees (x : External) (data : Bytes) (index : DatasetIndex) : Prop :=
  ∃ found, indexedBlocks x data index = .ok found ∧ found = readerBlocks x data
    ∧ ∃ r', Yields x (LogjetReader.withConfig data .default) (found.flatMap fun b => b.2.1) r'

theorem mapM_entries {found : List (Nat × List OwnedRecord × Nat)}
    (h : List.Forall₂ (Entry x data) blocks found) : (blocks.mapM fun block => do
      let records ← readBlockRecords x data block
      return (block.offset, records, block.offset + block.len))
      = .ok found := by
  induction h with
  | nil => rfl
  | @cons block b blocks found hentry _ ih =>
    rw [mapM_cons, ih, hentry.records]
    show Except.ok ((block.offset, b.2.1, block.offset + block.len) :: found) = _
    rw [hentry.ends, hentry.offset]

theorem blockAt_of_not_marker (h : ¬ MarkerAt defaultSyncMarker data p) :
    blockAt x .default data p = none := by
  obtain ⟨err, herr⟩ : ∃ err, readFrame x .default data p = .error err := readFrame_of_not_marker h
  exact blockAt_of_error herr

theorem Clean.agree (h : Clean x data) :
    ∀ p ∈ Greedy.visited (blockAt x .default data) data.length 0,
      blockAt x .default data p = indexAt x data p := by
  intro p hp
  by_cases hm : MarkerAt defaultSyncMarker data p
  · obtain ⟨⟨records, e⟩, hb⟩ := Option.ne_none_iff_exists'.mp (h p hp hm)
    rw [hb, indexAt_of_validBlock rfl (blockAt_eq_some_iff.mp hb)]
  · rw [blockAt_of_not_marker hm, indexAt_of_not_marker hm]

/-- The index lists what the reader reads iff the file is `Clean`. -/
theorem index_agrees_iff (x : External) (decode : DecodeLogs) (data : Bytes)
    (modifiedNs : Option UInt64) (index : DatasetIndex)
    (hbuild : build x decode data data.length modifiedNs = .ok index)
    (hfit : CountersFit x .default data) : Agrees x data index ↔ Clean x data := by
  have hadv := blockAt_advances (x := x) .default data
  have hadv' := indexAt_advances x data
  obtain ⟨blocks, hloop, hret⟩ := bind_eq_ok_iff.mp hbuild
  have hblocks : index.blocks = blocks := by
    split at hret
    · cases hret
    · cases hret
      rfl
  obtain ⟨hentries, hdone⟩ := buildLoop_spec hloop
  have hfound : indexedBlocks x data index
      = .ok (Greedy.blocks (indexAt x data) data.length 0) := by
    rw [indexedBlocks, hblocks]
    exact mapM_entries hentries
  constructor
  · intro ⟨found, hok, hreader, _⟩ p hp hm
    rw [hfound] at hok
    cases hok
    obtain ⟨hvisited, hsame⟩ := (Greedy.blocks_eq_iff hadv hadv').mp hreader.symm
    rw [hsame p hp]
    exact hdone p (hvisited ▸ hp) hm
  · intro hclean
    have hsame := hclean.agree
    have heq : Greedy.blocks (indexAt x data) data.length 0 = readerBlocks x data :=
      ((Greedy.blocks_eq_iff hadv hadv').mpr ⟨Greedy.visited_congr hadv hadv' hsame, hsame⟩).symm
    obtain ⟨r', hy, -⟩ := yields_scanRecords defaultSyncMarker_syncable hfit
    rw [scanRecords, Greedy.records_eq_blocks hadv] at hy
    exact ⟨_, hfound, heq, r', heq ▸ hy⟩

instance (x : External) (data : Bytes) : Decidable (Clean x data) :=
  inferInstanceAs (Decidable (∀ p ∈ Greedy.visited (blockAt x .default data) data.length 0,
    slice data p 8 = defaultSyncMarker.toList → blockAt x .default data p ≠ none))

def cleanFile : Bytes := lastBlock.body ++ [0, 0, 0] ++ lastBlock.body

theorem index_agrees_cleanFile : ∃ index,
    build external (fun _ => none) cleanFile cleanFile.length none = .ok index
      ∧ Agrees external cleanFile index := by
  obtain ⟨index, hbuild, -⟩ := okAnd_eq_true.mp
    (show (build external (fun _ => none) cleanFile cleanFile.length
      none).okAnd (fun _ => true) = true by decide +kernel)
  exact ⟨index, hbuild, (index_agrees_iff external _ cleanFile none index
    hbuild (by decide +kernel)).mpr (by decide +kernel)⟩

def flippedFile : Bytes := lastBlock.body.dropLast ++ [lastBlock.body.getLastD 0 ^^^ 1]

theorem index_reads_rejected_block : ∃ index lists,
    build external (fun _ => none) flippedFile flippedFile.length none = .ok index
      ∧ index.blocks.mapM (readBlockRecords external flippedFile) = .ok lists
      ∧ lists.flatten = lastBlock.records ∧ ¬ ∃ r', Yields external
        (LogjetReader.withConfig flippedFile .default) lists.flatten r' := by
  obtain ⟨index, hbuild, hread⟩ := okAnd_eq_true.mp
    (show (build external (fun _ => none) flippedFile flippedFile.length
      none).okAnd (fun index => decide (index.blocks.mapM (readBlockRecords external flippedFile)
          = .ok [lastBlock.records])) = true by decide +kernel)
  refine ⟨index, [lastBlock.records], hbuild, of_decide_eq_true hread, ?_, ?_⟩
  · simp
  · intro ⟨r', hy⟩
    obtain ⟨r'', hscan, -⟩ := yields_scanRecords (x := external) defaultSyncMarker_syncable
      (show CountersFit external .default flippedFile by decide +kernel)
    have hnone : scanRecords external .default flippedFile 0 = [] := by decide +kernel
    have heq := hscan.eq hy
    rw [hnone] at heq
    cases heq

end Logjet.Ljx
