/-
What tailing misses: the blocks appended after the scan reader's last `None`
and before the follow reader goes to the end of the file (`Phase.between`).
-/
import Logjet.Ljx.Proofs.Follow
import Logjet.Ljx.Proofs.Merge
import Logjet.Ljx.Tail

namespace Logjet.Ljx

open List Reference

variable {x : External} {decode : DecodeLogs} {predicate : RecordPredicate}

structure AtBlocks (x : External) (data : Bytes) (pos : Nat) (blocks : List Bytes) : Prop where
  valid : ∀ b ∈ blocks, ∃ records, IsBlock x b records
  data : ∃ pre : Bytes, pre.length = pos ∧ data = pre ++ blocks.flatten

theorem AtBlocks.append {data b : Bytes} {pos : Nat} {blocks : List Bytes}
    {records : List OwnedRecord} (h : AtBlocks x data pos blocks) (hb : IsBlock x b records) :
    AtBlocks x (data ++ b) pos (blocks ++ [b]) := by
  obtain ⟨pre, hpre, hdata⟩ := h.data
  refine ⟨?_, pre, hpre, ?_⟩
  · intro b' hb'
    rcases mem_snoc.mp hb' with hold | rfl
    · exact h.valid b' hold
    · exact ⟨records, hb⟩
  · rw [hdata, flatten_append, flatten_singleton, append_assoc]

section

variable {full : Bytes} {all returned : List OwnedRecord}

variable {blocks : List Bytes}

theorem Follows.poll_blocks {r : LogjetReader}
    (h : Follows x full all returned r) (hat : AtBlocks x r.data r.pos blocks) :
    ∃ record r' blocks', nextRecord x r = .ok record r' ∧ r'.data = r.data
      ∧ Follows x full all (returned ++ record.toList) r' ∧ AtBlocks x r.data r'.pos blocks' := by
  by_cases hpending : r.pending = []
  · induction blocks generalizing r with
    | nil =>
      obtain ⟨pre, hpre, hdata⟩ := hat.data
      have hpos : r.pos = r.data.length := by rw [hdata, flatten_nil, append_nil, hpre]
      refine ⟨none, r, [], nextRecord_at_end hpending hpos, rfl, ?_, hat⟩
      rw [Option.toList_none, append_nil]
      exact h
    | cons b blocks ih =>
      obtain ⟨pre, hpre, hdata⟩ := hat.data
      obtain ⟨records, hb⟩ := hat.valid b (mem_cons_self ..)
      have hvalid : ValidBlock x .default r.data r.pos records (r.pos + b.length) := by
        have hembed := hb.embed pre blocks.flatten
        rw [append_assoc, ← flatten_cons, ← hdata, hpre] at hembed
        exact hembed
      obtain ⟨r₁, hscan, hdata₁, hpos₁, hrecords, h₁⟩ := h.scan_block hpending hvalid
      have hat₁ : AtBlocks x r₁.data r₁.pos blocks := by
        refine ⟨?_, pre ++ b, ?_, ?_⟩
        · intro b' hb'
          exact hat.valid b' (mem_cons_of_mem _ hb')
        · rw [length_append, hpre, hpos₁]
        · rw [hdata₁, hdata, flatten_cons, append_assoc]
      rw [nextRecord_of_block hpending hscan, ← hdata₁]
      by_cases hempty : r₁.pending = []
      · exact ih h₁ hat₁ hempty
      · obtain ⟨record, r', hnext, hdata', hpos', h'⟩ := h₁.pop hempty
        exact ⟨some record, r', blocks, hnext, hdata', h', hpos' ▸ hat₁⟩
  · obtain ⟨record, r', hnext, hdata, hpos, h'⟩ := h.pop hpending
    exact ⟨some record, r', blocks, hnext, hdata, h', hpos ▸ hat⟩

theorem exists_isBlocks (h : ∀ b ∈ blocks, ∃ records, IsBlock x b records) :
    ∃ lists, List.Forall₂ (IsBlock x) blocks lists := by
  induction blocks with
  | nil => exact ⟨[], .nil⟩
  | cons b blocks ih =>
    obtain ⟨records, hb⟩ := h b (mem_cons_self ..)
    obtain ⟨lists, hblocks⟩ := ih fun b' hb' => h b' (mem_cons_of_mem _ hb')
    exact ⟨records :: lists, .cons hb hblocks⟩

theorem isBlock_of_mem {lists : List (List OwnedRecord)}
    (h : List.Forall₂ (IsBlock x) blocks lists) : ∀ b ∈ blocks, ∃ records, IsBlock x b records := by
  induction h with
  | nil =>
    intro b hb
    cases hb
  | @cons b records blocks lists hb _ ih =>
    intro b' hb'
    rcases mem_cons.mp hb' with rfl | hb'
    · exact ⟨records, hb⟩
    · exact ih b' hb'

theorem follows_start {file : Bytes} {blocks : List Bytes} (hfit : CountersFit x .default full)
    (hblocks : ∀ b ∈ blocks, ∃ records, IsBlock x b records)
    (hfull : blocks.flatten <+: full) (hpart : file <+: full) :
    Follows x full (scanRecords x .default full blocks.flatten.length) []
      { LogjetReader.withConfig file .default with
        pos := blocks.flatten.length } := by
  obtain ⟨lists, hlists⟩ := exists_isBlocks hblocks
  obtain ⟨post, hpost⟩ := hfull
  have hpass := @passes_isBlocks x full blocks lists hlists [] post hpost.symm
  rw [length_nil, Nat.zero_add] at hpass
  have hrecords := hfit.records
  have hcompressed := hfit.compressed
  have huncompressed := hfit.uncompressed
  have hlength := hfit.length
  have hin : blocks.flatten.length ≤ full.length := by
    rw [← hpost, length_append]
    exact Nat.le_add_right _ _
  rw [hpass.records, length_append] at hrecords
  rw [hpass.fields] at hcompressed huncompressed
  refine ⟨rfl, hpart, ⟨hin, Nat.le_refl _, ?_, ?_, ?_, ?_, ?_, ?_⟩, rfl⟩
  all_goals simp only [LogjetReader.withConfig, ReaderStats.default, UInt64.toNat_zero, length_nil]
  all_goals omega

end

def ScanUpdate.entries : ScanUpdate → List EntryMeta
  | .batch entries => entries
  | .finished _ _ => []
  | .failed _ => []

def ScanThread.batch : ScanThread → List EntryMeta
  | .reading _ txBatch _ _ => txBatch
  | _ => []

def FollowThread.batch : FollowThread → List EntryMeta
  | .reading _ txBatch => txBatch
  | _ => []

def TailState.pipeline (s : TailState) : List EntryMeta :=
  s.entries ++ s.rx.flatMap ScanUpdate.entries ++ s.scan.batch
    ++ s.tailRx.flatMap ScanUpdate.entries ++ s.follow.batch

theorem pushEntry_entries (channel : List ScanUpdate)
    (txBatch : List EntryMeta) (entry : EntryMeta) :
    (pushEntry channel txBatch entry).1.flatMap ScanUpdate.entries
        ++ (pushEntry channel txBatch entry).2
      = channel.flatMap ScanUpdate.entries ++ txBatch ++ [entry] := by
  unfold pushEntry
  split
  · simp [ScanUpdate.entries]
  · simp

variable {channel : List ScanUpdate} {txBatch : List EntryMeta} {update : ScanUpdate}

theorem mem_pushEntry {entry : EntryMeta} (h : update ∈ (pushEntry channel txBatch entry).1) :
    update ∈ channel ∨ ∃ batch, update = .batch batch := by
  unfold pushEntry at h
  split at h
  · rcases mem_snoc.mp h with hold | hnew
    · exact Or.inl hold
    · exact Or.inr ⟨_, hnew⟩
  · exact Or.inl h

theorem sendRest_entries (channel : List ScanUpdate) (txBatch : List EntryMeta) :
    (sendRest channel txBatch).flatMap ScanUpdate.entries
      = channel.flatMap ScanUpdate.entries ++ txBatch := by
  cases txBatch with
  | nil => simp [sendRest]
  | cons entry txBatch => simp [sendRest, ScanUpdate.entries]

theorem mem_sendRest (h : update ∈ sendRest channel txBatch) :
    update ∈ channel ∨ ∃ batch, update = .batch batch := by
  unfold sendRest at h
  split at h
  · exact Or.inl h
  · rcases mem_snoc.mp h with hold | hnew
    · exact Or.inl hold
    · exact Or.inr ⟨_, hnew⟩

section

variable (x) (decode) (predicate)

inductive Phase (full : Bytes) (s : TailState) : List OwnedRecord → List OwnedRecord → Prop
  | opening (hscan : s.scan = .opening) : Phase full s [] []
  | scanning {reader : LogjetReader} {txBatch : List EntryMeta}
      {scanned matched : UInt64} {returned : List OwnedRecord} {blocks : List Bytes}
      (hscan : s.scan = .reading reader txBatch scanned matched)
      (hreads : Follows x full (scanRecords x .default full 0) returned
        { reader with data := s.file }) (hat : AtBlocks x s.file reader.pos blocks)
      (hscanned : scanned.toNat = returned.length) (hmatched : matched.toNat
        = (returned.filter (predicate.matches decode)).length) : Phase full s returned []
  | between {handled lost : List OwnedRecord} (hscan : (∃ counts, s.scan = .returned (.ok counts))
        ∨ s.scan = .ended) (hfollow : s.follow = .absent ∨ s.follow = .opening)
      (hall : scanRecords x .default full 0
        = handled ++ (lost ++ scanRecords x .default full s.file.length)) :
      Phase full s handled lost
  | following {reader : LogjetReader} {txBatch : List EntryMeta}
      {before lost ahead returned : List OwnedRecord} {blocks : List Bytes}
      (hscan : s.scan = .ended) (hfollow : s.follow = .reading reader txBatch)
      (hall : scanRecords x .default full 0 = before ++ (lost ++ ahead))
      (hreads : Follows x full ahead returned { reader with data := s.file })
      (hat : AtBlocks x s.file reader.pos blocks) : Phase full s (before ++ returned) lost

structure Tailing (full : Bytes) (s : TailState) (handled lost : List OwnedRecord) : Prop where
  phase : Phase x decode predicate full s handled lost
  shown : List.Forall₂ (Shows s.spool [s.path]) s.pipeline
    ((handled.filter (predicate.matches decode)).map (Prod.mk 0))
  file : ∃ blocks : List Bytes, s.file = blocks.flatten
    ∧ ∀ b ∈ blocks, ∃ records, IsBlock x b records
  part : s.file <+: full
  last : ∀ scanned matched, .finished scanned matched ∈ s.rx → s.scan = .ended
  done : s.finished = true → s.scan = .ended ∧ s.rx = []
  tail : s.follow ≠ .absent → s.finished = true ∧ s.tailMode = true
  idle : s.follow = .absent → s.tailRx = []
  fine : ∀ update ∈ s.rx, update.isFailed = false
  batches : ∀ update ∈ s.tailRx, ∃ batch, update = .batch batch

end

section

variable {full : Bytes} {s : TailState} {handled lost : List OwnedRecord}

theorem Phase.congr {s' : TailState} (h : Phase x decode predicate full s handled lost)
    (hscan' : s'.scan = s.scan) (hfollow' : s'.follow = s.follow) (hfile' : s'.file = s.file) :
    Phase x decode predicate full s' handled lost := by
  cases h with
  | opening hscan => exact .opening (hscan'.trans hscan)
  | scanning hscan hreads hat hscanned hmatched =>
    exact .scanning (hscan'.trans hscan) (hfile' ▸ hreads) (hfile' ▸ hat) hscanned hmatched
  | between hscan hfollow hall =>
    refine .between ?_ ?_ (hfile' ▸ hall)
    · rw [hscan']
      exact hscan
    · rw [hfollow']
      exact hfollow
  | following hscan hfollow hall hreads hat =>
    exact .following (hscan'.trans hscan) (hfollow'.trans hfollow) hall
      (hfile' ▸ hreads) (hfile' ▸ hat)

theorem Tailing.absent (h : Tailing x decode predicate full s handled lost)
    (hscan : s.scan ≠ .ended) : s.follow = .absent := by
  by_contra hfollow
  exact hscan (h.done (h.tail hfollow).1).1

theorem Tailing.unfinished (h : Tailing x decode predicate full s handled lost)
    (hscan : s.scan ≠ .ended) : ¬ s.finished = true := by
  intro hfinished
  exact hscan (h.done hfinished).1

variable {spool : Bytes} {handled' returned : List OwnedRecord} {record : OwnedRecord}
  {r reader : LogjetReader} {txBatch : List EntryMeta} {blocks : List Bytes}

theorem Tailing.rescan (h : Tailing x decode predicate full s handled lost)
    (hne : s.scan ≠ .ended) {scan : ScanThread} {rx : List ScanUpdate}
    (hphase : Phase x decode predicate full { s with scan, spool, rx } handled' lost)
    (hshown : List.Forall₂ (Shows spool [s.path]) (TailState.pipeline { s with scan, spool, rx })
      ((handled'.filter (predicate.matches decode)).map (Prod.mk 0))) (hrx : ∀ update ∈ rx,
      update ∈ s.rx ∨ ∃ batch, update = .batch batch) :
    Tailing x decode predicate full { s with scan, spool, rx } handled' lost := by
  refine ⟨hphase, hshown, h.file, h.part, ?_, ?_, h.tail, h.idle, ?_, h.batches⟩
  · intro n m hin
    rcases hrx _ hin with hold | ⟨batch, hbatch⟩
    · exact absurd (h.last n m hold) hne
    · cases hbatch
  · intro hfinished
    exact absurd hfinished (h.unfinished hne)
  · intro update hin
    rcases hrx update hin with hold | ⟨batch, rfl⟩
    · exact h.fine update hold
    · rfl

theorem Tailing.refollow (h : Tailing x decode predicate full s handled lost)
    (hne : s.follow ≠ .absent) {follow : FollowThread}
    {tailRx : List ScanUpdate} (hne' : follow ≠ .absent)
    (hphase : Phase x decode predicate full { s with follow, spool, tailRx } handled' lost)
    (hshown : List.Forall₂ (Shows spool [s.path])
      (TailState.pipeline { s with follow, spool, tailRx })
      ((handled'.filter (predicate.matches decode)).map (Prod.mk 0))) (htailRx : ∀ update ∈ tailRx,
      update ∈ s.tailRx ∨ ∃ batch, update = .batch batch) :
    Tailing x decode predicate full { s with follow, spool, tailRx } handled' lost := by
  refine ⟨hphase, hshown, h.file, h.part, h.last, h.done, fun _ => h.tail hne, ?_, h.fine, ?_⟩
  · intro habsent
    exact absurd habsent hne'
  · intro update hin
    rcases htailRx update hin with hold | hbatch
    · exact h.batches update hold
    · exact hbatch

def blockRecords (x : External) (b : Bytes) : List OwnedRecord :=
  ((blockAt x .default b 0).map Prod.fst).getD []

theorem IsBlock.blockRecords_eq {b : Bytes} {records : List OwnedRecord}
    (h : IsBlock x b records) : blockRecords x b = records := by
  rw [blockRecords, blockAt_eq_some_iff.mpr h]
  rfl

theorem Tailing.append (h : Tailing x decode predicate full s handled lost)
    {b : Bytes} (hb : ∃ records, IsBlock x b records) (hpart : s.file ++ b <+: full) :
    Tailing x decode predicate full { s with file := s.file ++ b } handled
      (lost ++ if s.unwatched then blockRecords x b else []) := by
  obtain ⟨records, hb⟩ := hb
  have hphase : Phase x decode predicate full { s with file := s.file ++ b } handled
      (lost ++ if s.unwatched then blockRecords x b else []) := by
    cases h.phase with
    | opening hscan =>
      have hwatched : s.unwatched = false := by
        unfold TailState.unwatched
        rw [hscan]
      rw [hwatched, if_neg Bool.false_ne_true, append_nil]
      exact .opening hscan
    | scanning hscan hreads hat hscanned hmatched =>
      have hwatched : s.unwatched = false := by
        unfold TailState.unwatched
        rw [hscan]
      rw [hwatched, if_neg Bool.false_ne_true, append_nil]
      exact .scanning hscan (hreads.write hpart) (hat.append hb) hscanned hmatched
    | between hscan hfollow hall =>
      have hunwatched : s.unwatched = true := by
        unfold TailState.unwatched
        rcases hscan with ⟨counts, hscan⟩ | hscan
        · rcases hfollow with hfollow | hfollow <;> rw [hscan, hfollow]
        · rcases hfollow with hfollow | hfollow <;> rw [hscan, hfollow]
      rw [hunwatched, if_pos rfl, hb.blockRecords_eq]
      refine .between hscan hfollow ?_
      obtain ⟨post, hpost⟩ := hpart
      have hpass := @IsBlock.passes x full b records hb s.file post (by rw [← hpost, append_assoc])
      rw [hall, hpass.records, length_append, append_assoc lost]
    | following hscan hfollow hall hreads hat =>
      have hwatched : s.unwatched = false := by
        unfold TailState.unwatched
        rw [hscan, hfollow]
      rw [hwatched, if_neg Bool.false_ne_true, append_nil]
      exact .following hscan hfollow hall (hreads.write hpart) (hat.append hb)
  obtain ⟨blocks, hfile, hblocks⟩ := h.file
  refine ⟨hphase, h.shown, ⟨blocks ++ [b], ?_, ?_⟩, hpart, h.last, h.done,
    h.tail, h.idle, h.fine, h.batches⟩
  · rw [flatten_append, flatten_singleton, ← hfile]
  · intro b' hb'
    rcases mem_snoc.mp hb' with hold | rfl
    · exact hblocks b' hold
    · exact ⟨records, hb⟩

theorem shown_push {path : Text} {entries : List EntryMeta}
    (h : List.Forall₂ (Shows spool [path]) entries
      ((handled.filter (predicate.matches decode)).map (Prod.mk 0))) (hmatch :
      predicate.matches decode record = true) :
    List.Forall₂ (Shows (writeSpoolRecord spool record path).2 [path])
      (entries ++ [(writeSpoolRecord spool record path).1])
      (((handled ++ [record]).filter (predicate.matches decode)).map (Prod.mk 0)) := by
  have hpush := @shows_push spool [path] entries _ h 0 path rfl record
  rw [filter_append, map_append, filter_cons_of_pos hmatch]
  exact hpush

theorem filter_skip (hmatch : ¬ predicate.matches decode record = true) :
    (handled ++ [record]).filter (predicate.matches decode)
      = handled.filter (predicate.matches decode) := by
  rw [filter_append, filter_cons_of_neg hmatch, filter_nil, append_nil]

section

variable {record : OwnedRecord} {reader : LogjetReader}
  {txBatch : List EntryMeta} {scanned matched : UInt64}

theorem TailState.scanRecord_match (hmatch : predicate.matches decode record = true)
    (hscanned : scanned.toNat + 1 < 2 ^ 64) (hmatched : matched.toNat + 1 < 2 ^ 64) :
    ∃ scanned' matched' : UInt64, scanned'.toNat = scanned.toNat + 1
      ∧ matched'.toNat = matched.toNat + 1
      ∧ s.scanRecord decode predicate record reader txBatch scanned matched
        = { s with
            spool := (writeSpoolRecord s.spool record s.path).2
            rx := (pushEntry s.rx txBatch
              (writeSpoolRecord s.spool record s.path).1).1
            scan := .reading reader (pushEntry s.rx txBatch
              (writeSpoolRecord s.spool record s.path).1).2 scanned'
              matched' } := by
  obtain ⟨scanned', hs, hs'⟩ := @checkedAdd_ok "view scanned" scanned 1 hscanned
  obtain ⟨matched', hm, hm'⟩ := @checkedAdd_ok "view matched" matched 1 hmatched
  refine ⟨scanned', matched', hs', hm', ?_⟩
  simp only [TailState.scanRecord, hs, hm, lift, hmatch, if_true]

theorem TailState.scanRecord_skip (hmatch : ¬ predicate.matches decode record = true)
    (hscanned : scanned.toNat + 1 < 2 ^ 64) :
    ∃ scanned' : UInt64, scanned'.toNat = scanned.toNat + 1
      ∧ s.scanRecord decode predicate record reader txBatch scanned matched
        = { s with scan := .reading reader txBatch scanned' matched } := by
  obtain ⟨scanned', hs, hs'⟩ := @checkedAdd_ok "view scanned" scanned 1 hscanned
  refine ⟨scanned', hs', ?_⟩
  simp only [TailState.scanRecord, hs, lift, hmatch, Bool.false_eq_true, if_false]

end

theorem LogjetReader.with_data {data : Bytes}
    (h : r.data = data) : { r with data := data } = r := by
  subst h
  rfl

theorem Follows.returned_le {all : List OwnedRecord} (h : Follows x full all returned r) :
    returned.length ≤ all.length := by
  rw [h.rest, length_append]
  exact Nat.le_add_right _ _

theorem Tailing.scan_open (hfit : CountersFit x .default full)
    (h : Tailing x decode predicate full s [] []) (hscan : s.scan = .opening) :
    Tailing x decode predicate full
      { s with
        scan := .reading (LogjetReader.withConfig s.file .default) [] 0 0 }
      [] [] := by
  obtain ⟨blocks, hfile, hblocks⟩ := h.file
  have hreads := @follows_start x full s.file [] hfit
    (fun b hb => absurd hb not_mem_nil) nil_prefix h.part
  have hat : AtBlocks x s.file 0 blocks := ⟨hblocks, [], rfl, hfile⟩
  refine h.rescan (by simp [hscan]) (.scanning rfl hreads hat rfl rfl) ?_ (fun _ => Or.inl)
  have hshown := h.shown
  simp only [TailState.pipeline, hscan, ScanThread.batch] at hshown ⊢
  exact hshown

theorem Tailing.scan_poll (hfit : CountersFit x .default full)
    (h : Tailing x decode predicate full s handled []) {scanned matched : UInt64}
    (hscan : s.scan = .reading reader txBatch scanned matched)
    (hreads : Follows x full (scanRecords x .default full 0) handled { reader with data := s.file })
    (hat : AtBlocks x s.file reader.pos blocks) (hscanned : scanned.toNat = handled.length)
    (hmatched : matched.toNat = (handled.filter (predicate.matches decode)).length) :
    ∃ handled', Tailing x decode predicate full (s.scanStep x decode predicate) handled' [] := by
  have hne : s.scan ≠ .ended := by simp [hscan]
  have hfollow := h.absent hne
  have hshown := h.shown
  obtain ⟨record, r', blocks', hnext, hdata, hreads', hat'⟩ := hreads.poll_blocks hat
  have hsame := LogjetReader.with_data hdata
  unfold TailState.scanStep
  rw [hscan]
  dsimp only
  rw [hnext]
  cases record with
  | none =>
    obtain ⟨-, -, hpos, hpending⟩ := nextRecord_none x hnext
    rw [Option.toList_none, append_nil] at hreads'
    have hall := hreads'.rest
    rw [hpending, hpos, nil_append] at hall
    refine ⟨handled, h.rescan hne (.between (Or.inl ⟨_, rfl⟩)
      (Or.inl hfollow) hall) ?_ (fun _ => mem_sendRest)⟩
    simp only [TailState.pipeline, hscan, ScanThread.batch,
      sendRest_entries, append_nil, append_assoc] at hshown ⊢
    exact hshown
  | some record =>
    have hcount := hreads'.returned_le
    have hroom := hfit.records
    rw [Option.toList_some] at hreads' hcount
    rw [length_append, length_singleton] at hcount
    have hfewer := length_filter_le (predicate.matches decode) handled
    refine ⟨handled ++ [record], ?_⟩
    dsimp only
    by_cases hmatch : predicate.matches decode record = true
    · obtain ⟨scanned', matched', hscanned', hmatched', hrecord⟩ :=
        @TailState.scanRecord_match decode predicate s record r' txBatch
          scanned matched hmatch (by omega) (by omega)
      rw [hrecord]
      refine h.rescan hne (.scanning rfl (hsame ▸ hreads') hat' ?_ ?_) ?_ (fun _ => mem_pushEntry)
      · rw [hscanned', hscanned, length_append, length_singleton]
      · rw [hmatched', hmatched, filter_append, length_append, filter_cons_of_pos hmatch]
        rfl
      · have hpush := shown_push hshown hmatch
        simp only [TailState.pipeline, hscan, ScanThread.batch, hfollow,
          FollowThread.batch, h.idle hfollow, flatMap_nil, append_nil, append_assoc] at hpush ⊢
        rw [pushEntry_entries, append_assoc]
        exact hpush
    · obtain ⟨scanned', hscanned', hrecord⟩ :=
        @TailState.scanRecord_skip decode predicate s record r' txBatch
          scanned matched hmatch (by omega)
      rw [hrecord]
      refine h.rescan hne (.scanning rfl (hsame ▸ hreads') hat' ?_ ?_) ?_ (fun _ => Or.inl)
      · rw [hscanned', hscanned, length_append, length_singleton]
      · rw [filter_skip hmatch]
        exact hmatched
      · rw [filter_skip hmatch]
        simp only [TailState.pipeline, hscan, ScanThread.batch] at hshown ⊢
        exact hshown

theorem Tailing.scan (hfit : CountersFit x .default full)
    (h : Tailing x decode predicate full s handled lost) :
    ∃ handled', Tailing x decode predicate full (s.scanStep x decode predicate) handled' lost := by
  cases h.phase with
  | opening hscan =>
    refine ⟨[], ?_⟩
    unfold TailState.scanStep
    rw [hscan]
    exact h.scan_open hfit hscan
  | scanning hscan hreads hat hscanned hmatched =>
    exact h.scan_poll hfit hscan hreads hat hscanned hmatched
  | between hscan hfollow hall =>
    refine ⟨handled, ?_⟩
    have hshown := h.shown
    unfold TailState.scanStep
    rcases hscan with ⟨⟨scanned, matched⟩, hscan⟩ | hscan
    · rw [hscan]
      refine ⟨.between (Or.inr rfl) hfollow hall, ?_, h.file, h.part, ?_, ?_,
        h.tail, h.idle, ?_, h.batches⟩
      · simp only [TailState.pipeline, hscan, ScanThread.batch,
          flatMap_append, flatMap_singleton, ScanUpdate.entries, append_nil] at hshown ⊢
        exact hshown
      · intro n m _
        rfl
      · intro hfinished
        exact absurd hfinished (h.unfinished (by simp [hscan]))
      · intro update hin
        rcases mem_snoc.mp hin with hold | rfl
        · exact h.fine update hold
        · rfl
    · rw [hscan]
      exact h
  | following hscan hfollow hall hreads hat =>
    have hstays : s.scanStep x decode predicate = s := by
      unfold TailState.scanStep
      rw [hscan]
    rw [hstays]
    exact ⟨_, h⟩

theorem Tailing.follow_open (hfit : CountersFit x .default full)
    (h : Tailing x decode predicate full s handled lost) (hfollow : s.follow = .opening)
    (hall : scanRecords x .default full 0
      = handled ++ (lost ++ scanRecords x .default full s.file.length)) :
    Tailing x decode predicate full
      { s with follow := .reading (openAtEnd s.file) [] } handled lost := by
  obtain ⟨blocks, hfile, hblocks⟩ := h.file
  have hne : s.follow ≠ .absent := by simp [hfollow]
  have hscan := (h.done (h.tail hne).1).1
  have hreads := @follows_start x full s.file blocks hfit hblocks (hfile ▸ h.part) h.part
  rw [← hfile] at hreads
  have hat : AtBlocks x s.file s.file.length [] :=
    ⟨fun b hb => absurd hb not_mem_nil, s.file, rfl, by simp⟩
  have hphase := @Phase.following x decode predicate full
    { s with follow := .reading (openAtEnd s.file) [] } _ _ handled lost _ []
    [] hscan rfl hall hreads hat
  rw [append_nil] at hphase
  refine h.refollow hne (by simp) hphase ?_ (fun _ => Or.inl)
  have hshown := h.shown
  simp only [TailState.pipeline, hfollow, FollowThread.batch] at hshown ⊢
  exact hshown

section

variable {record : OwnedRecord} {reader : LogjetReader} {txBatch : List EntryMeta}

theorem TailState.followRecord_match (hmatch : predicate.matches decode record = true) :
    s.followRecord decode predicate record reader txBatch
      = { s with
          spool := (writeSpoolRecord s.spool record s.path).2
          tailRx := (pushEntry s.tailRx txBatch
            (writeSpoolRecord s.spool record s.path).1).1
          follow := .reading reader (pushEntry s.tailRx txBatch
            (writeSpoolRecord s.spool record s.path).1).2 } := by
  simp only [TailState.followRecord, hmatch, if_true]

theorem TailState.followRecord_skip (hmatch : ¬ predicate.matches decode record = true) :
    s.followRecord decode predicate record reader txBatch
      = { s with follow := .reading reader txBatch } := if_neg hmatch

end

theorem Tailing.follow_poll {before ahead : List OwnedRecord}
    (h : Tailing x decode predicate full s (before ++ returned) lost)
    (hscan : s.scan = .ended) (hfollow : s.follow = .reading reader txBatch)
    (hall : scanRecords x .default full 0 = before ++ (lost ++ ahead))
    (hreads : Follows x full ahead returned { reader with data := s.file })
    (hat : AtBlocks x s.file reader.pos blocks) : ∃ handled', Tailing x decode predicate full
      (s.followStep x decode predicate) handled' lost := by
  have hne : s.follow ≠ .absent := by simp [hfollow]
  have hshown := h.shown
  obtain ⟨record, r', blocks', hnext, hdata, hreads', hat'⟩ := hreads.poll_blocks hat
  have hsame := LogjetReader.with_data hdata
  unfold TailState.followStep
  rw [hfollow]
  dsimp only
  rw [hnext]
  cases record with
  | none =>
    rw [Option.toList_none, append_nil] at hreads'
    refine ⟨before ++ returned, h.refollow hne (by simp)
      (.following hscan rfl hall (hsame ▸ hreads') hat') ?_ (fun _ => mem_sendRest)⟩
    simp only [TailState.pipeline, hfollow, FollowThread.batch,
      sendRest_entries, append_nil, append_assoc] at hshown ⊢
    exact hshown
  | some record =>
    refine ⟨before ++ (returned ++ [record]), ?_⟩
    dsimp only
    by_cases hmatch : predicate.matches decode record = true
    · rw [TailState.followRecord_match hmatch]
      refine h.refollow hne (by simp) (.following hscan rfl hall (hsame ▸ hreads') hat') ?_
        (fun _ => mem_pushEntry)
      have hpush := shown_push hshown hmatch
      simp only [TailState.pipeline, hfollow, FollowThread.batch, append_assoc] at hpush ⊢
      rw [pushEntry_entries, append_assoc]
      exact hpush
    · rw [TailState.followRecord_skip hmatch]
      refine h.refollow hne (by simp) (.following hscan rfl hall (hsame ▸ hreads') hat') ?_
        (fun _ => Or.inl)
      rw [← append_assoc, filter_skip hmatch]
      simp only [TailState.pipeline, hfollow, FollowThread.batch] at hshown ⊢
      exact hshown

theorem Tailing.follow (hfit : CountersFit x .default full)
    (h : Tailing x decode predicate full s handled lost) :
    ∃ handled', Tailing x decode predicate full
      (s.followStep x decode predicate) handled' lost := by
  by_cases habsent : s.follow = .absent
  · refine ⟨handled, ?_⟩
    unfold TailState.followStep
    rw [habsent]
    exact h
  · cases h.phase with
    | opening hscan => exact absurd (h.absent (by simp [hscan])) habsent
    | scanning hscan hreads hat hscanned hmatched =>
      exact absurd (h.absent (by simp [hscan])) habsent
    | between hscan hfollow hall =>
      rcases hfollow with hfollow | hfollow
      · exact absurd hfollow habsent
      · refine ⟨handled, ?_⟩
        unfold TailState.followStep
        rw [hfollow]
        exact h.follow_open hfit hfollow hall
    | following hscan hfollow hall hreads hat => exact h.follow_poll hscan hfollow hall hreads hat

def ScanUpdate.isFinished : ScanUpdate → Bool
  | .finished _ _ => true
  | _ => false

theorem foldl_applyUpdate {updates : List ScanUpdate}
    (h : ∀ update ∈ updates, update.isFailed = false) (s : TailState) :
    updates.foldl TailState.applyUpdate s
      = { s with
          entries := s.entries ++ updates.flatMap ScanUpdate.entries
          finished := s.finished || updates.any ScanUpdate.isFinished } := by
  induction updates generalizing s with
  | nil => simp
  | cons update updates ih =>
    rw [foldl_cons, ih fun u hu => h u (mem_cons_of_mem _ hu)]
    cases update with
    | batch batch => simp [TailState.applyUpdate, ScanUpdate.entries, ScanUpdate.isFinished]
    | finished scanned matched =>
      simp [TailState.applyUpdate, ScanUpdate.entries, ScanUpdate.isFinished]
    | failed err =>
      have hfailed := h (.failed err) (mem_cons_self ..)
      cases hfailed

theorem Tailing.received (h : Tailing x decode predicate full s handled lost) :
    Tailing x decode predicate full
      { s with
        rx := []
        tailRx := []
        entries := s.entries
          ++ (s.rx ++ s.tailRx).flatMap ScanUpdate.entries
        finished := s.finished
          || (s.rx ++ s.tailRx).any ScanUpdate.isFinished }
      handled lost := by
  have hpipeline : s.pipeline = s.entries
      ++ (s.rx ++ s.tailRx).flatMap ScanUpdate.entries ++ s.scan.batch ++ s.follow.batch := by
    by_cases habsent : s.follow = .absent
    · simp [TailState.pipeline, h.idle habsent]
    · have hscan := (h.done (h.tail habsent).1).1
      simp [TailState.pipeline, hscan, ScanThread.batch]
  refine ⟨h.phase.congr rfl rfl rfl, ?_, h.file, h.part, ?_, ?_, ?_, fun _ => rfl, ?_, ?_⟩
  · have hshown := h.shown
    rw [hpipeline] at hshown
    simpa [TailState.pipeline] using hshown
  · intro n m hin
    cases hin
  · intro hfinished
    refine ⟨?_, rfl⟩
    rw [Bool.or_eq_true] at hfinished
    rcases hfinished with hfinished | hany
    · exact (h.done hfinished).1
    · obtain ⟨update, hin, hupdate⟩ := any_eq_true.mp hany
      rcases mem_append.mp hin with hin | hin
      · cases update with
        | finished n m => exact h.last n m hin
        | batch batch => cases hupdate
        | failed err => cases hupdate
      · obtain ⟨batch, rfl⟩ := h.batches update hin
        cases hupdate
  · intro hfollow
    obtain ⟨hfinished, hmode⟩ := h.tail hfollow
    refine ⟨?_, hmode⟩
    rw [hfinished, Bool.true_or]
  · intro update hin
    cases hin
  · intro update hin
    cases hin

theorem Tailing.launch (h : Tailing x decode predicate full s handled lost) (tailOnLaunch : Bool) :
    Tailing x decode predicate full { s with tailOnLaunch } handled lost :=
  ⟨h.phase.congr rfl rfl rfl, h.shown, h.file, h.part, h.last, h.done, h.tail,
    h.idle, h.fine, h.batches⟩

theorem Tailing.startTail (h : Tailing x decode predicate full s handled lost) :
    Tailing x decode predicate full s.startTailMode handled lost := by
  unfold TailState.startTailMode
  split
  · exact h
  · rename_i hfinished
    split
    · exact h
    · rename_i hmode
      simp only [Bool.not_eq_true, Bool.not_eq_false'] at hfinished
      have habsent : s.follow = .absent := by
        by_contra hfollow
        exact hmode (h.tail hfollow).2
      obtain ⟨hscan, -⟩ := h.done hfinished
      have hall : scanRecords x .default full 0 = handled
          ++ (lost ++ scanRecords x .default full s.file.length) := by
        cases h.phase with
        | opening hopening =>
          rw [hscan] at hopening
          cases hopening
        | scanning hscanning =>
          rw [hscan] at hscanning
          cases hscanning
        | between _ _ hall => exact hall
        | following _ hfollow =>
          rw [habsent] at hfollow
          cases hfollow
      refine ⟨.between (Or.inr hscan) (Or.inr rfl) hall, ?_, h.file, h.part,
        h.last, h.done, fun _ => ⟨hfinished, rfl⟩, fun _ => rfl, h.fine, ?_⟩
      · have hshown := h.shown
        simp only [TailState.pipeline, habsent, h.idle habsent, FollowThread.batch] at hshown ⊢
        exact hshown
      · intro update hin
        cases hin

theorem Tailing.drain (h : Tailing x decode predicate full s handled lost) :
    Tailing x decode predicate full s.drain handled lost := by
  have hfine : ∀ update ∈ s.rx ++ s.tailRx, update.isFailed = false := by
    intro update hin
    rcases mem_append.mp hin with hin | hin
    · exact h.fine update hin
    · obtain ⟨batch, rfl⟩ := h.batches update hin
      rfl
  have hany : (s.rx ++ s.tailRx).any ScanUpdate.isFailed = false := by
    rw [List.any_eq_false]
    intro update hin
    rw [hfine update hin]
    exact Bool.false_ne_true
  unfold TailState.drain
  dsimp only
  rw [hany, if_neg Bool.false_ne_true, foldl_applyUpdate hfine]
  split
  · exact (h.received.launch false).startTail
  · exact h.received

theorem scanStep_file (s : TailState) : (s.scanStep x decode predicate).file = s.file := by
  unfold TailState.scanStep
  split
  · rfl
  · split
    · rfl
    · rfl
    · unfold TailState.scanRecord
      split
      · rfl
      · split
        · dsimp only
          split
          · rfl
          · rfl
        · rfl
  · rfl
  · rfl
  · rfl

theorem followStep_file (s : TailState) : (s.followStep x decode predicate).file = s.file := by
  unfold TailState.followStep
  split
  · rfl
  · rfl
  · split
    · rfl
    · rfl
    · unfold TailState.followRecord
      split
      · rfl
      · rfl
  · rfl
  · rfl

theorem startTailMode_file (s : TailState) : s.startTailMode.file = s.file := by
  unfold TailState.startTailMode
  split
  · rfl
  · split
    · rfl
    · rfl

theorem foldl_applyUpdate_file (updates : List ScanUpdate) (s : TailState) :
    (updates.foldl TailState.applyUpdate s).file = s.file := by
  induction updates generalizing s with
  | nil => rfl
  | cons update updates ih =>
    rw [foldl_cons, ih]
    cases update with
    | batch batch => rfl
    | finished scanned matched => rfl
    | failed err => rfl

theorem drain_file (s : TailState) : s.drain.file = s.file := by
  have hstop : ∀ (failed : Bool) (t : TailState),
      (if failed then t.stopTailMode else t).file = t.file := by
    intro failed t
    cases failed with
    | true => rfl
    | false => rfl
  have hlaunch : ∀ t : TailState, (if t.tailOnLaunch && t.finished && !t.tailMode then
        { t with tailOnLaunch := false }.startTailMode
      else t).file = t.file := by
    intro t
    split
    · exact startTailMode_file _
    · rfl
  exact (hlaunch _).trans ((hstop _ _).trans (foldl_applyUpdate_file _ _))

theorem step_file (s : TailState) (event : TailEvent) : (s.step x decode predicate event).file
      = s.file ++ (appended [event]).flatten := by
  cases event with
  | append block =>
    show s.file ++ block = s.file ++ [block].flatten
    rw [flatten_singleton]
  | scan => exact (scanStep_file s).trans (append_nil _).symm
  | follow => exact (followStep_file s).trans (append_nil _).symm
  | drain => exact (drain_file s).trans (append_nil _).symm
  | tailKey => exact (startTailMode_file s).trans (append_nil _).symm

theorem Tailing.step (hfit : CountersFit x .default full)
    (h : Tailing x decode predicate full s handled lost) {event : TailEvent}
    (hblocks : ∀ b ∈ appended [event], ∃ records, IsBlock x b records)
    (hpart : s.file ++ (appended [event]).flatten <+: full) :
    ∃ handled', Tailing x decode predicate full (s.step x decode predicate event) handled'
      (lost ++ (if s.unwatched then appended [event] else []).flatMap (blockRecords x)) := by
  cases event with
  | append block =>
    have hpart' : s.file ++ block <+: full := by
      rw [← flatten_singleton (l := block)]
      exact hpart
    have happend := h.append (hblocks block (mem_singleton_self _)) hpart'
    refine ⟨handled, ?_⟩
    cases hunwatched : s.unwatched with
    | true =>
      rw [hunwatched] at happend
      simpa [appended, TailState.step] using happend
    | false =>
      rw [hunwatched] at happend
      simpa [TailState.step] using happend
  | scan => simpa [appended, TailState.step] using h.scan hfit
  | follow => simpa [appended, TailState.step] using h.follow hfit
  | drain =>
    refine ⟨handled, ?_⟩
    simpa [appended, TailState.step] using h.drain
  | tailKey =>
    refine ⟨handled, ?_⟩
    simpa [appended, TailState.step] using h.startTail

theorem appended_cons (event : TailEvent) (events : List TailEvent) :
    appended (event :: events) = appended [event] ++ appended events := by
  show appended ([event] ++ events) = _
  rw [appended, filterMap_append]
  rfl

theorem Tailing.run (hfit : CountersFit x .default full)
    (h : Tailing x decode predicate full s handled lost) {events : List TailEvent}
    (hblocks : ∀ b ∈ appended events, ∃ records, IsBlock x b records)
    (hfull : s.file ++ (appended events).flatten = full) :
    ∃ handled', Tailing x decode predicate full (s.run x decode predicate events) handled'
        (lost ++ (unwatched x decode predicate events s).flatMap (blockRecords x))
      ∧ (s.run x decode predicate events).file = full := by
  induction events generalizing s handled lost with
  | nil =>
    refine ⟨handled, ?_, ?_⟩
    · simpa [unwatched, TailState.run] using h
    · simpa [appended, TailState.run] using hfull
  | cons event events ih =>
    rw [appended_cons] at hblocks hfull
    rw [flatten_append, ← append_assoc] at hfull
    obtain ⟨handled₁, h₁⟩ := h.step hfit (fun b hb => hblocks b (mem_append_left _ hb)) ⟨_, hfull⟩
    rw [← step_file] at hfull
    obtain ⟨handled', h', hfile⟩ := ih h₁ (fun b hb => hblocks b (mem_append_right _ hb)) hfull
    refine ⟨handled', ?_, hfile⟩
    rw [unwatched, flatMap_append, ← append_assoc]
    exact h'

theorem tailing_start {old : List Bytes} (path : Text) (tailOnLaunch : Bool)
    (hold : ∀ b ∈ old, ∃ records, IsBlock x b records) (hpart : old.flatten <+: full) :
    Tailing x decode predicate full (.start path old.flatten tailOnLaunch) [] [] := by
  refine ⟨.opening rfl, .nil, ⟨old, rfl, hold⟩, hpart, ?_, ?_, ?_, fun _ => rfl, ?_, ?_⟩
  · intro n m hin
    cases hin
  · intro hfinished
    cases hfinished
  · intro hfollow
    exact absurd rfl hfollow
  · intro update hin
    cases hin
  · intro update hin
    cases hin

theorem Tailing.caughtUp (h : Tailing x decode predicate full s handled lost)
    (hfile : s.file = full) (hcaught : s.CaughtUp x) :
    (∃ before returned, handled = before ++ returned
      ∧ scanRecords x .default full 0 = before ++ (lost ++ returned)) ∧ s.pipeline = s.entries := by
  obtain ⟨⟨reader, r', hfollow, hnext⟩, hrx, htailRx⟩ := hcaught
  have hne : s.follow ≠ .absent := by simp [hfollow]
  have hended := (h.done (h.tail hne).1).1
  refine ⟨?_, ?_⟩
  · cases h.phase with
    | opening hscan =>
      rw [hended] at hscan
      cases hscan
    | scanning hscan =>
      rw [hended] at hscan
      cases hscan
    | between _ hbetween =>
      rw [hfollow] at hbetween
      rcases hbetween with hbetween | hbetween <;> cases hbetween
    | @following _ _ before lost ahead returned _ _ hreading hall hreads hat =>
      rw [hfollow] at hreading
      cases hreading
      obtain ⟨record, r'', blocks', hnext', -, hreads', -⟩ := hreads.poll_blocks hat
      rw [hnext] at hnext'
      cases hnext'
      obtain ⟨-, -, hpos, hpending⟩ := nextRecord_none x hnext
      rw [Option.toList_none, append_nil] at hreads'
      have hrest := hreads'.rest
      have hnothing : scanRecords x .default full full.length = [] := by
        rw [scanRecords, Greedy.records_end (Nat.le_refl _)]
      rw [hpending, hpos, hfile, hnothing, append_nil, append_nil] at hrest
      exact ⟨before, returned, rfl, hrest ▸ hall⟩
  · simp [TailState.pipeline, hrx, htailRx, hended, hfollow, ScanThread.batch, FollowThread.batch]

end

def ShowsAll (decode : DecodeLogs) (predicate : RecordPredicate)
    (s : TailState) (records : List OwnedRecord) : Prop :=
  List.Forall₂ (Shows s.spool [s.path]) s.entries
    ((records.filter (predicate.matches decode)).map (Prod.mk 0))

/-- Every match is shown iff none came in while unwatched. -/
theorem tail_shows_all_iff (x : External) (decode : DecodeLogs)
    (predicate : RecordPredicate) (path : Text) (tailOnLaunch : Bool)
    (old : List Bytes) (oldLists : List (List OwnedRecord))
    (hold : List.Forall₂ (IsBlock x) old oldLists)
    (events : List TailEvent) (lists : List (List OwnedRecord))
    (hnew : List.Forall₂ (IsBlock x) (appended events) lists) (hfit : CountersFit x .default
      (old.flatten ++ (appended events).flatten)) (hcaught : TailState.CaughtUp x
      ((TailState.start path old.flatten tailOnLaunch).run x decode predicate events)) :
    ShowsAll decode predicate ((TailState.start path old.flatten tailOnLaunch).run x decode
          predicate events) (oldLists ++ lists).flatten ↔ ∀ b ∈ unwatched x decode predicate events
          (TailState.start path old.flatten tailOnLaunch), ∀ record ∈ blockRecords x b,
          predicate.matches decode record = false := by
  have hstart := @tailing_start x decode predicate _ old path tailOnLaunch (isBlock_of_mem hold)
    (prefix_append old.flatten (appended events).flatten)
  obtain ⟨handled, hend, hfile⟩ := hstart.run hfit (isBlock_of_mem hnew) rfl
  rw [nil_append] at hend
  obtain ⟨⟨before, returned, rfl, hall⟩, hentries⟩ := hend.caughtUp hfile hcaught
  have hshown := hend.shown
  rw [hentries] at hshown
  have hfull := (scan_isBlocks (rel_append hold hnew) []).1
  rw [flatten_append, nil_append, length_nil, hall] at hfull
  have hlost : (∀ b ∈ unwatched x decode predicate events
        (TailState.start path old.flatten tailOnLaunch), ∀ record ∈ blockRecords x b,
          predicate.matches decode record = false) ↔ ((unwatched x decode predicate events
          (TailState.start path old.flatten tailOnLaunch)).flatMap
            (blockRecords x)).filter (predicate.matches decode) = [] := by
    simp only [filter_eq_nil_iff, mem_flatMap, Bool.not_eq_true, forall_exists_index, and_imp]
    exact ⟨fun h record b hb hin => h b hb record hin, fun h b hb record hin => h record b hb hin⟩
  rw [hlost, ShowsAll, ← hfull]
  generalize (unwatched x decode predicate events
    (TailState.start path old.flatten tailOnLaunch)).flatMap (blockRecords x) = lost at hlost ⊢
  constructor
  · intro hshows
    have hlength := hshows.length_eq.symm.trans hshown.length_eq
    simp only [filter_append, map_append, length_append, length_map] at hlength
    exact length_eq_zero_iff.mp (by omega)
  · intro hnone
    rw [filter_append, filter_append, hnone, nil_append, ← filter_append]
    exact hshown

def TailState.caughtUp (x : External) (s : TailState) : Bool :=
  match s.follow with
  | .reading reader [] =>
    s.rx.isEmpty && s.tailRx.isEmpty && EStateM.okAnd (nextRecord x) { reader with data := s.file }
        fun record _ => record.isNone
  | _ => false

theorem caughtUp_eq_true {x : External} {s : TailState}
    (h : s.caughtUp x = true) : s.CaughtUp x := by
  unfold TailState.caughtUp at h
  split at h
  · rename_i reader hfollow
    simp only [Bool.and_eq_true, List.isEmpty_iff] at h
    obtain ⟨⟨hrx, htailRx⟩, hnext⟩ := h
    obtain ⟨record, r', hnext, hnone⟩ := EStateM.okAnd_eq_true.mp hnext
    cases Option.isNone_iff_eq_none.mp hnone
    exact ⟨⟨reader, r', hfollow, hnext⟩, hrx, htailRx⟩
  · cases h

theorem isBlock_lastBlock : IsBlock external lastBlock.body lastBlock.records :=
  blockAt_eq_some_iff.mp (by decide +kernel)

def tailedEvents : List TailEvent :=
  [.scan, .scan, .scan, .scan, .drain, .follow, .append lastBlock.body, .follow, .follow, .drain]

theorem tail_shows_tailed_block : ShowsAll (fun _ => none) .default
      ((TailState.start "a".toList [lastBlock.body].flatten true).run external
        (fun _ => none) .default tailedEvents)
      ([lastBlock.records] ++ [lastBlock.records]).flatten := by
  refine (tail_shows_all_iff external (fun _ => none) .default "a".toList
    true [lastBlock.body] [lastBlock.records] (.cons isBlock_lastBlock .nil)
    tailedEvents [lastBlock.records] (.cons isBlock_lastBlock .nil)
    (by decide +kernel) (caughtUp_eq_true (by decide +kernel))).mpr ?_
  decide +kernel

def missedEvents : List TailEvent :=
  [.scan, .scan, .append lastBlock.body, .scan, .drain, .follow, .follow, .drain]

theorem tail_misses_block : IsBlock external lastBlock.body lastBlock.records
      ∧ TailState.CaughtUp external
        ((TailState.start "a".toList [] true).run external (fun _ => none) .default missedEvents)
      ∧ ¬ ShowsAll (fun _ => none) .default
        ((TailState.start "a".toList [] true).run external (fun _ => none)
          .default missedEvents) lastBlock.records := by
  refine ⟨isBlock_lastBlock, caughtUp_eq_true (by decide +kernel), ?_⟩
  intro hshows
  have hlength := hshows.length_eq
  revert hlength
  decide +kernel

end Logjet.Ljx
