/-
The reader's books: every byte of the input is skipped or in an accepted
block (`Tallied`).
-/
import Logjet.Proofs.Attempts
import Logjet.Proofs.Overflow

namespace Logjet

open List EStateM

variable {x : External} {config : ReaderConfig} {data : Bytes}

def acceptedOf (x : External) (config : ReaderConfig) (data : Bytes)
    (attempts : List Attempt) : List AcceptedBlock :=
  attempts.filterMap (Attempt.accepted? x config data)

theorem acceptedOf_append (a b : List Attempt) : acceptedOf x config data (a ++ b)
      = acceptedOf x config data a ++ acceptedOf x config data b := filterMap_append

def totalLength (blocks : List AcceptedBlock) : Nat := (blocks.map AcceptedBlock.length).sum

structure Tallied (x : External) (config : ReaderConfig) (data : Bytes)
    (origin : Nat) (r : LogjetReader) (attempts : List Attempt) (returned : Nat) : Prop where
  data_eq : r.data = data
  config_eq : r.config = config
  origin_le : origin ≤ r.pos
  inside : r.pos ≤ data.length
  skipped : r.stats.bytesSkipped.toNat + totalLength (acceptedOf x config data attempts) = origin
  blocksOk : r.stats.blocksOk.toNat = (acceptedOf x config data attempts).length
  blocksOk_le : r.stats.blocksOk.toNat ≤ origin
  blocksBad_le : r.stats.blocksBad.toNat ≤ r.pos
  recordsOk : r.stats.recordsOk.toNat = returned

variable {r r' : LogjetReader} {attempts : List Attempt} {origin n : Nat}

theorem finishScan_cases (origin : Nat) (r : LogjetReader) :
    (∃ s : UInt64, finishScan origin r = .ok false { r with
          pos := r.data.length
          stats := { r.stats with bytesSkipped := s } }
        ∧ s.toNat = r.stats.bytesSkipped.toNat + (r.data.length - origin))
      ∨ (∃ err r', finishScan origin r = .error err r' ∧ r'.pending = r.pending
        ∧ 2 ^ 64 ≤ r.stats.bytesSkipped.toNat + (r.data.length - origin)) := by
  unfold finishScan
  rw [modify_bind, get_bind]
  rcases checkedAdd_cases "bytes_skipped" r.stats.bytesSkipped
      (r.data.length - origin) with ⟨s, hs, hval, -⟩ | ⟨hs, hfull⟩
  · exact Or.inl ⟨s, by rw [hs]; rfl, hval⟩
  · rw [hs, ofExcept_error_bind]
    exact Or.inr ⟨_, _, rfl, rfl, hfull⟩

theorem acceptBlock_cases (origin p : Nat) (records : List OwnedRecord) (r : LogjetReader) :
    (∃ b s : UInt64, acceptBlock origin p records r = .ok true { r with
          stats := { r.stats with blocksOk := b, bytesSkipped := s }
          pending := r.pending ++ records }
        ∧ b.toNat = r.stats.blocksOk.toNat + 1
        ∧ s.toNat = r.stats.bytesSkipped.toNat + (p - origin))
      ∨ (∃ err r', acceptBlock origin p records r = .error err r' ∧ r'.pending = r.pending
        ∧ (2 ^ 64 ≤ r.stats.blocksOk.toNat + 1
          ∨ 2 ^ 64 ≤ r.stats.bytesSkipped.toNat + (p - origin))) := by
  unfold acceptBlock
  rw [get_bind]
  rcases checkedAdd_cases "blocks_ok" r.stats.blocksOk 1 with
    ⟨b, hb, hbval, -⟩ | ⟨hb, hfull⟩
  · rw [hb, ofExcept_ok_bind, modify_bind]
    rcases checkedAdd_cases "bytes_skipped" r.stats.bytesSkipped
        (p - origin) with ⟨s, hs, hsval, -⟩ | ⟨hs, hfull⟩
    · exact Or.inl ⟨b, s, by rw [hs]; rfl, hbval, hsval⟩
    · rw [hs, ofExcept_error_bind]
      exact Or.inr ⟨_, _, rfl, rfl, Or.inr hfull⟩
  · rw [hb, ofExcept_error_bind]
    exact Or.inr ⟨_, _, rfl, rfl, Or.inl hfull⟩

def Closed (x : External) (config : ReaderConfig) (data : Bytes)
    (attempts : List Attempt) (returned : Nat) : EStateM.Result Error LogjetReader Bool → Prop
  | .ok _ r => Tallied x config data r.pos r attempts returned
  | .error _ _ => 2 ^ 64 ≤ data.length

namespace Tallied

theorem finish (h : Tallied x config data origin r attempts n) :
    Closed x config data attempts n (finishScan origin r) := by
  obtain ⟨rfl, rfl, horigin, hin, hskipped, hok, hokle, hbad, hrec⟩ := h
  rcases finishScan_cases origin r with ⟨s, hs, hval⟩ | ⟨err, r', hs, -, hfull⟩
  · rw [hs]
    refine ⟨rfl, rfl, Nat.le_refl _, Nat.le_refl _, ?_, hok, ?_, ?_, hrec⟩
    all_goals
      simp only
      omega
  · rw [hs]
    show 2 ^ 64 ≤ r.data.length
    omega

variable {p : Nat} {stats : ReaderStats} {err : Error} {made : List Attempt}

theorem accept {e : Nat} {records : List OwnedRecord}
    (h : Tallied x config data origin r attempts n) (hle : r.pos ≤ p)
    (htry : tryReadBlockAt x config data p r.stats = .ok (records, e) stats) :
    Closed x config data (attempts ++ [⟨p, r.stats⟩]) n
      (acceptBlock origin p records { r with pos := e, stats := stats }) := by
  obtain ⟨rfl, rfl, horigin, hin, hskipped, hok, hokle, hbad, hrec⟩ := h
  obtain ⟨hlt, hend, -⟩ := tryReadBlockAt_bounds x htry
  have hcounts := (tryReadBlockAt_sameCounts r.config r.data p r.stats).ok htry
  obtain ⟨b, hb, hstart, hframe, -⟩ :=
    @accepted?_of_ok x r.config r.data ⟨p, r.stats⟩ stats records e htry
  have hone : acceptedOf x r.config r.data [⟨p, r.stats⟩] = [b] := by
    rw [acceptedOf, filterMap_cons_some hb, filterMap_nil]
  have hlength : b.length = e - p := by rw [AcceptedBlock.length, hstart, hframe]
  rcases acceptBlock_cases origin p records { r with pos := e, stats := stats } with
    ⟨ok, s, hrun, hokval, hsval⟩ | ⟨err, r', hrun, -, hfull⟩
  · rw [hrun]
    simp only [hcounts.blocksOk, hcounts.bytesSkipped] at hokval hsval
    have hmore : totalLength (acceptedOf x r.config r.data attempts ++ [b])
        = totalLength (acceptedOf x r.config r.data attempts) + (e - p) := by
      simp [totalLength, hlength]
    refine ⟨rfl, rfl, Nat.le_refl _, hend, ?_, ?_, ?_, ?_, ?_⟩
    · rw [acceptedOf_append, hone, hmore]
      simp only [hsval]
      omega
    · rw [acceptedOf_append, hone, length_append, length_singleton, ← hok]
      exact hokval
    · simp only [hokval]
      omega
    · simp only [hcounts.blocksBad]
      omega
    · simp only [hcounts.recordsOk]
      exact hrec
  · rw [hrun]
    simp only [hcounts.blocksOk, hcounts.bytesSkipped] at hfull
    show 2 ^ 64 ≤ r.data.length
    omega

theorem reject {b : UInt64}
    (h : Tallied x config data origin r attempts n) (hle : r.pos ≤ p) (hin : p < data.length)
    (htry : tryReadBlockAt x config data p r.stats = .error err stats)
    (hadd : checkedAdd "blocks_bad" stats.blocksBad 1 = .ok b) :
    Tallied x config data origin { r with
        pos := p + 1, stats := { stats with blocksBad := b } }
      (attempts ++ [⟨p, r.stats⟩]) n := by
  obtain ⟨rfl, rfl, horigin, -, hskipped, hok, hokle, hbad, hrec⟩ := h
  obtain ⟨-, hcounts⟩ := (tryReadBlockAt_sameCounts r.config r.data p r.stats).error htry
  have hnone : acceptedOf x r.config r.data [⟨p, r.stats⟩] = [] := by
    rw [acceptedOf, filterMap_cons_none
      (accepted?_of_error (a := ⟨p, r.stats⟩) htry), filterMap_nil]
  have hbval : b.toNat = r.stats.blocksBad.toNat + 1 := by
    rcases checkedAdd_cases "blocks_bad" stats.blocksBad 1 with
      ⟨b', hb', hval, -⟩ | ⟨hb', -⟩
    · rw [hb'] at hadd
      cases hadd
      rw [hval, hcounts.blocksBad]
    · rw [hb'] at hadd
      cases hadd
  refine ⟨rfl, rfl, Nat.le_succ_of_le (Nat.le_trans horigin hle), hin, ?_, ?_, ?_, ?_, ?_⟩
  · rw [acceptedOf_append, hnone, append_nil]
    simp only [hcounts.bytesSkipped]
    exact hskipped
  · rw [acceptedOf_append, hnone, append_nil]
    simp only [hcounts.blocksOk]
    exact hok
  · simp only [hcounts.blocksOk]
    exact hokle
  · simp only [hbval]
    omega
  · simp only [hcounts.recordsOk]
    exact hrec

theorem full {err' : Error}
    (h : Tallied x config data origin r attempts n) (hle : r.pos ≤ p) (hin : p < data.length)
    (htry : tryReadBlockAt x config data p r.stats = .error err stats)
    (hadd : checkedAdd "blocks_bad" stats.blocksBad 1 = .error err') : 2 ^ 64 ≤ data.length := by
  obtain ⟨-, hcounts⟩ := (tryReadBlockAt_sameCounts config data p r.stats).error htry
  have hbad := h.blocksBad_le
  rcases checkedAdd_cases "blocks_bad" stats.blocksBad 1 with
    ⟨b, hb, -⟩ | ⟨-, hfull⟩
  · rw [hb] at hadd
    cases hadd
  · rw [hcounts.blocksBad] at hfull
    omega

theorem of_scanned {result : EStateM.Result Error LogjetReader Bool}
    (hrun : Scanned x origin r made result) (h : Tallied x config data origin r attempts n) :
    Closed x config data (attempts ++ made) n result := by
  induction hrun generalizing attempts with
  | finish hfind =>
    rw [append_nil]
    exact h.finish
  | accept hfind htry =>
    obtain ⟨hle, -⟩ := findNextSync_bounds hfind
    rw [h.config_eq, h.data_eq] at htry
    exact h.accept hle htry
  | reject hfind htry hadd rest ih =>
    obtain ⟨hle, hend⟩ := findNextSync_bounds hfind
    rw [h.config_eq, h.data_eq] at htry
    rw [h.data_eq] at hend
    rw [append_cons]
    exact ih (h.reject hle (by omega) htry hadd)
  | full hfind htry hadd =>
    obtain ⟨hle, hend⟩ := findNextSync_bounds hfind
    rw [h.config_eq, h.data_eq] at htry
    rw [h.data_eq] at hend
    exact h.full hle (by omega) htry hadd

theorem scan (h : Tallied x config data r.pos r attempts n) :
    Closed x config data (attempts ++ scanAttempts x r) n (scanNextBlock x r) :=
  of_scanned (scanned r.pos r) h

def Continued (x : External) (config : ReaderConfig) (data : Bytes)
    (attempts : List Attempt) (returned : Nat) :
    EStateM.Result Error LogjetReader (Option OwnedRecord) → Prop
  | .ok (some _) r => Tallied x config data r.pos r attempts (returned + 1)
  | .ok none r => Tallied x config data r.pos r attempts returned
  | .error _ r => 2 ^ 64 ≤ data.length ∨ Tallied x config data r.pos r attempts returned

theorem of_nexted
    {result : EStateM.Result Error LogjetReader (Option OwnedRecord)}
    (hrun : Nexted x r made result) (h : Tallied x config data r.pos r attempts n) :
    Continued x config data (attempts ++ made) n result := by
  induction hrun generalizing attempts with
  | pop hpending hadd =>
    rename_i r record pending v
    rw [append_nil]
    have hval : v.toNat = r.stats.recordsOk.toNat + 1 := by
      rcases checkedAdd_cases "records_ok" r.stats.recordsOk 1 with
        ⟨v', hv', hval, -⟩ | ⟨hv', -⟩
      · rw [hv'] at hadd
        cases hadd
        exact hval
      · rw [hv'] at hadd
        cases hadd
    exact { h with recordsOk := by rw [← h.recordsOk]; exact hval }
  | full hpending hadd =>
    rw [append_nil]
    exact Or.inr { h with }
  | last hpending hscan =>
    have hclosed := h.scan
    rw [hscan] at hclosed
    exact hclosed
  | fail hpending hscan =>
    have hclosed := h.scan
    rw [hscan] at hclosed
    exact Or.inl hclosed
  | more hpending hscan rest ih =>
    have hclosed := h.scan
    rw [hscan] at hclosed
    rw [← append_assoc]
    exact ih hclosed

end Tallied

def Reading.Booked (x : External) (config : ReaderConfig) (data : Bytes)
    (reading : Reading) : Prop :=
  Tallied x config data reading.reader.pos reading.reader reading.attempts reading.returned.length

namespace Reading

variable {reading : Reading} {call : ReadCall} {calls : List ReadCall}

theorem returned_call : (reading.call x call).returned
      = reading.returned ++ (match (call.run x reading.reader).1 with
        | .record record => [record]
        | _ => []) := by
  unfold returned Reading.call
  rw [filterMap_append, filterMap_cons]
  cases (call.run x reading.reader).1 <;> rfl

theorem booked_call (h : reading.Booked x config data) : (reading.call x call).Booked x config data
      ∨ (∃ err, (call.run x reading.reader).1 = .failed err) ∧ 2 ^ 64 ≤ data.length := by
  unfold Booked
  rw [returned_call]
  cases call with
  | nextRecord =>
    have hnext := Tallied.of_nexted (nexted reading.reader) h
    unfold Reading.call ReadCall.run ReadCall.attempts
    cases hrun : nextRecord x reading.reader with
    | ok found r' =>
      rw [hrun] at hnext
      cases found with
      | some record =>
        rw [length_append]
        exact Or.inl hnext
      | none =>
        rw [append_nil]
        exact Or.inl hnext
    | error err r' =>
      rw [hrun] at hnext
      rw [append_nil]
      rcases hnext with hbig | hkept
      · exact Or.inr ⟨⟨err, rfl⟩, hbig⟩
      · exact Or.inl hkept
  | scanNextBlock =>
    have hscan := Tallied.scan h
    unfold Reading.call ReadCall.run ReadCall.attempts
    cases hrun : scanNextBlock x reading.reader with
    | ok found r' =>
      rw [hrun] at hscan
      cases found with
      | true =>
        rw [append_nil]
        exact Or.inl hscan
      | false =>
        rw [append_nil]
        exact Or.inl hscan
    | error err r' =>
      rw [hrun] at hscan
      exact Or.inr ⟨⟨err, rfl⟩, hscan⟩

theorem of_append_singleton (data : Bytes) (config : ReaderConfig)
    (calls : List ReadCall) (call : ReadCall) : of x data config (calls ++ [call])
      = (of x data config calls).call x call := by
  rw [of, foldl_append]
  rfl

theorem booked_start (data : Bytes) (config : ReaderConfig) :
    (start data config).Booked x config data :=
  ⟨rfl, rfl, Nat.le_refl _, Nat.zero_le _, rfl, rfl, Nat.le_refl _, Nat.le_refl _, rfl⟩

theorem booked_of (hserved : data.length < 2 ^ 64 ∨ ¬ (of x data config calls).Failed) :
    (of x data config calls).Booked x config data := by
  induction calls using List.reverseRecOn with
  | nil => exact booked_start data config
  | append_singleton calls call ih =>
    rw [of_append_singleton] at hserved ⊢
    have hbefore : data.length < 2 ^ 64 ∨ ¬ (of x data config calls).Failed := by
      refine hserved.imp_right fun hnot ⟨err, herr⟩ => hnot ⟨err, ?_⟩
      exact mem_append_left _ herr
    rcases booked_call (ih hbefore) with hbooked | ⟨⟨err, herr⟩, hbig⟩
    · exact hbooked
    · rcases hserved with hsmall | hnot
      · exact absurd hsmall (Nat.not_lt_of_le hbig)
      · exact absurd ⟨err, mem_append_right _ (by simp [herr])⟩ hnot

theorem scanNextBlock_at_end {r : LogjetReader} (hpos : r.pos = r.data.length) :
    scanNextBlock x r = .ok false r := by
  have hfind : findNextSync r.config.syncMarker r.data r.pos = none := by
    rw [findNextSync, hpos, drop_length]
    rfl
  rw [scanNextBlock, scanLoop_of_none hfind]
  rcases finishScan_cases r.pos r with ⟨s, hs, hval⟩ | ⟨err, r', -, -, hfull⟩
  · have hsame : s = r.stats.bytesSkipped := by
      rw [hpos, Nat.sub_self, Nat.add_zero] at hval
      exact UInt64.toNat_inj.mp hval
    rw [hs, hsame, ← hpos]
  · have hlt := r.stats.bytesSkipped.toNat_lt
    omega

variable {r r' : LogjetReader}

theorem run_finished (h : call.run x r = (.finished, r')) :
    r'.data = r.data ∧ r'.pos = r'.data.length ∧ (call = .nextRecord → r'.pending = []) := by
  cases call with
  | nextRecord =>
    unfold ReadCall.run at h
    cases hrun : nextRecord x r with
    | ok found r₁ =>
      rw [hrun] at h
      cases found with
      | some record => cases h
      | none =>
        cases h
        obtain ⟨hdata, -, hpos, hempty⟩ := nextRecord_none x hrun
        exact ⟨hdata, by rw [hpos, hdata], fun _ => hempty⟩
    | error err r₁ =>
      rw [hrun] at h
      cases h
  | scanNextBlock =>
    unfold ReadCall.run at h
    cases hrun : scanNextBlock x r with
    | ok found r₁ =>
      rw [hrun] at h
      cases found with
      | true => cases h
      | false =>
        cases h
        obtain ⟨hdata, -, hpos, -⟩ := scanLoop_false x hrun
        exact ⟨hdata, by rw [hpos, hdata], nofun⟩
    | error err r₁ =>
      rw [hrun] at h
      cases h

theorem run_again (h : call.run x r = (.finished, r')) :
    call.run x r' = (.finished, r') := by
  obtain ⟨-, hpos, hempty⟩ := run_finished h
  have hscan := @scanNextBlock_at_end x r' hpos
  cases call with
  | nextRecord =>
    unfold ReadCall.run
    rw [nextRecord_of_end (hempty rfl) hscan]
  | scanNextBlock =>
    unfold ReadCall.run
    rw [hscan]

/-- At the end the statistics account for all that was read. -/
theorem reader_accounts (x : External) (data : Bytes)
    (config : ReaderConfig) (calls : List ReadCall) (call : ReadCall)
    (hend : (call.run x (of x data config calls).reader).1 = .finished)
    (hserved : data.length < 2 ^ 64
      ∨ ¬ (of x data config (calls ++ [call])).Failed) :
    let reading := of x data config (calls ++ [call])
    reading.reader.stats.bytesSkipped.toNat
        + ((reading.accepted x).map AcceptedBlock.length).sum = data.length
      ∧ reading.reader.stats.blocksOk.toNat = (reading.accepted x).length
      ∧ reading.reader.stats.recordsOk.toNat = reading.returned.length
      ∧ call.run x reading.reader = (.finished, reading.reader) := by
  intro reading
  have hbooked : reading.Booked x config data := booked_of hserved
  have hreader : reading.reader
      = (call.run x (of x data config calls).reader).2 := by
    show (of x data config (calls ++ [call])).reader = _
    rw [of_append_singleton]
    rfl
  have hrun : call.run x (of x data config calls).reader
      = (.finished, reading.reader) := by
    rw [hreader, ← hend]
  obtain ⟨-, hpos, -⟩ := run_finished hrun
  have haccepted : reading.accepted x
      = acceptedOf x config data reading.attempts := by
    rw [accepted, hbooked.config_eq, hbooked.data_eq]
    rfl
  refine ⟨?_, ?_, hbooked.recordsOk, run_again hrun⟩
  · have hskipped := hbooked.skipped
    rw [hpos, hbooked.data_eq] at hskipped
    rw [haccepted]
    exact hskipped
  · rw [haccepted]
    exact hbooked.blocksOk

theorem run_of_yields {reading : Reading} {r r' : LogjetReader}
    {records : List OwnedRecord} (hreader : reading.reader = r) (h : Yields x r records r') :
    ReadCall.nextRecord.run x ((List.replicate records.length
        ReadCall.nextRecord).foldl (Reading.call x) reading).reader = (.finished, r') := by
  induction h generalizing reading with
  | done hnext =>
    subst hreader
    unfold ReadCall.run
    dsimp only [length_nil, replicate_zero, foldl_nil]
    rw [hnext]
  | more hnext tail ih =>
    subst hreader
    refine ih ?_
    show (ReadCall.nextRecord.run x reading.reader).2 = _
    unfold ReadCall.run
    rw [hnext]

theorem mem_attempts_first {p : Nat} (hfind : findNextSync config.syncMarker data 0 = some p) :
    (⟨p, .default⟩ : Attempt) ∈ (of x data config [.nextRecord]).attempts := by
  have hr : findNextSync (LogjetReader.withConfig data config).config.syncMarker
      (LogjetReader.withConfig data config).data
      (LogjetReader.withConfig data config).pos = some p := hfind
  show _ ∈ [] ++ nextAttempts x (LogjetReader.withConfig data config)
  rw [nil_append, nextAttempts_of_nil rfl, scanAttempts_of_some hr]
  exact mem_append_left _ mem_cons_self

open Reference

def paddedFile : Bytes := [0, 0, 0] ++ lastBlock.body

theorem reader_accounts_padded :
    let reading := of external paddedFile .default
      ([.nextRecord] ++ [.nextRecord])
    reading.reader.stats.bytesSkipped.toNat
        + ((reading.accepted external).map AcceptedBlock.length).sum
          = paddedFile.length
      ∧ reading.reader.stats.blocksOk.toNat
        = (reading.accepted external).length
      ∧ reading.reader.stats.recordsOk.toNat = reading.returned.length
      ∧ ReadCall.nextRecord.run external reading.reader
        = (.finished, reading.reader) := by
  obtain ⟨r', hy, -⟩ := yields_scanRecords (x := external)
    defaultSyncMarker_syncable
    (show CountersFit external .default paddedFile by decide +kernel)
  have hone : scanRecords external .default paddedFile 0
      = lastBlock.records := by
    decide +kernel
  rw [hone] at hy
  have hrun := @run_of_yields external (start paddedFile .default) _ _ _ rfl
    hy
  exact reader_accounts external paddedFile .default [.nextRecord]
    .nextRecord (congrArg Prod.fst hrun) (Or.inl (by decide +kernel))

end Reading

end Logjet
