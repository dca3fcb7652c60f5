/-
What a scan can do, with its ledger: `Scanned` lists the ways a call of
`scan_next_block` goes.
-/
import Logjet.Attempts
import Logjet.Proofs.Scan

namespace Logjet

open EStateM

variable {x : External}

theorem checkedAdd_cases (field : String) (a : UInt64) (b : Nat) :
    (∃ s : UInt64, checkedAdd field a b = .ok s ∧ s.toNat = a.toNat + b ∧ a.toNat + b < 2 ^ 64)
      ∨ (checkedAdd field a b = .error (.numericOverflow field) ∧ 2 ^ 64 ≤ a.toNat + b) := by
  by_cases hroom : a.toNat + b < 2 ^ 64
  · obtain ⟨s, hs, hval⟩ := @checkedAdd_ok field a b hroom
    exact Or.inl ⟨s, hs, hval, hroom⟩
  · exact Or.inr ⟨if_neg hroom, Nat.le_of_not_lt hroom⟩

structure ReaderStats.SameCounts (s s' : ReaderStats) : Prop where
  blocksOk : s'.blocksOk = s.blocksOk
  blocksBad : s'.blocksBad = s.blocksBad
  bytesSkipped : s'.bytesSkipped = s.bytesSkipped
  recordsOk : s'.recordsOk = s.recordsOk

theorem addTotals_cases (header : BlockHeader) (stats : ReaderStats) :
    (∃ c u : UInt64, addTotals header stats
        = .ok () { stats with totalCompressedBytes := c,
                              totalUncompressedBytes := u }
      ∧ c.toNat = stats.totalCompressedBytes.toNat + header.compressedLen.toNat
      ∧ u.toNat = stats.totalUncompressedBytes.toNat + header.uncompressedLen.toNat)
    ∨ (addTotals header stats = .error (.numericOverflow "total_compressed_bytes") stats
      ∧ 2 ^ 64 ≤ stats.totalCompressedBytes.toNat + header.compressedLen.toNat)
    ∨ (∃ c : UInt64, addTotals header stats = .error (.numericOverflow "total_uncompressed_bytes")
            { stats with totalCompressedBytes := c } ∧ c.toNat = stats.totalCompressedBytes.toNat
          + header.compressedLen.toNat ∧ 2 ^ 64 ≤ stats.totalUncompressedBytes.toNat
          + header.uncompressedLen.toNat) := by
  unfold addTotals
  rw [get_bind]
  rcases checkedAdd_cases "total_compressed_bytes"
      stats.totalCompressedBytes header.compressedLen.toNat with
    ⟨c, hc, hcval, -⟩ | ⟨hc, hfull⟩
  · rw [hc, ofExcept_ok_bind, set_bind]
    rcases checkedAdd_cases "total_uncompressed_bytes"
        stats.totalUncompressedBytes header.uncompressedLen.toNat with
      ⟨u, hu, huval, -⟩ | ⟨hu, hfull⟩
    · rw [hu]
      exact Or.inl ⟨c, u, rfl, hcval, huval⟩
    · rw [hu]
      exact Or.inr (Or.inr ⟨c, rfl, hcval, hfull⟩)
  · rw [hc]
    exact Or.inr (Or.inl ⟨rfl, hfull⟩)

theorem addTotals_sameCounts (header : BlockHeader) (stats : ReaderStats) :
    (addTotals header).Ends stats (fun _ stats' => stats.SameCounts stats')
      (fun err stats' => err.isFatal = false ∧ stats.SameCounts stats') := by
  unfold EStateM.Ends
  rcases addTotals_cases header stats with
    ⟨c, u, h, -⟩ | ⟨h, -⟩ | ⟨c, h, -⟩
  · rw [h]
    exact ⟨rfl, rfl, rfl, rfl⟩
  · rw [h]
    exact ⟨rfl, rfl, rfl, rfl, rfl⟩
  · rw [h]
    exact ⟨rfl, rfl, rfl, rfl, rfl⟩

theorem tryReadBlockAt_of_totals {config : ReaderConfig} {data : Bytes}
    {p : Nat} {stats stats' : ReaderStats} {frame : Frame} {err : Error}
    (hframe : readFrame x config data p = .ok frame)
    (hadd : addTotals frame.header stats = .error err stats') :
    tryReadBlockAt x config data p stats = .error err stats' := by
  unfold tryReadBlockAt
  rw [hframe, ofExcept_ok_bind]
  exact bind_of_error hadd

theorem tryReadBlockAt_sameCounts (config : ReaderConfig) (data : Bytes)
    (p : Nat) (stats : ReaderStats) : (tryReadBlockAt x config data p).Ends stats
      (fun _ stats' => stats.SameCounts stats') (fun err stats' => err.isFatal = false
        ∧ stats.SameCounts stats') := by
  unfold EStateM.Ends
  cases hframe : readFrame x config data p with
  | error err =>
    rw [tryReadBlockAt_of_error hframe]
    exact ⟨Recoverable.readFrame _ _ _ err hframe, rfl, rfl, rfl, rfl⟩
  | ok frame =>
    have htotals := addTotals_sameCounts frame.header stats
    unfold EStateM.Ends at htotals
    cases hadd : addTotals frame.header stats with
    | ok _ stats' =>
      rw [hadd] at htotals
      rw [tryReadBlockAt_of_frame hframe hadd]
      cases hdecode : decodePayload x frame with
      | ok records => exact htotals
      | error err => exact ⟨Recoverable.decodePayload _ err hdecode, htotals⟩
    | error err stats' =>
      rw [hadd] at htotals
      rw [tryReadBlockAt_of_totals hframe hadd]
      exact htotals

section Accepted

variable {config : ReaderConfig} {data : Bytes} {a : Attempt} {stats : ReaderStats}

theorem accepted?_of_error {err : Error} (h : tryReadBlockAt x config data a.syncStart a.stats
      = .error err stats) : a.accepted? x config data = none := by
  unfold Attempt.accepted?
  rw [h]

theorem accepted?_of_ok {records : List OwnedRecord} {e : Nat}
    (h : tryReadBlockAt x config data a.syncStart a.stats = .ok (records, e) stats) :
    ∃ b, a.accepted? x config data = some b ∧ b.start = a.syncStart ∧ b.frame.endPos = e
      ∧ readFrame x config data a.syncStart = .ok b.frame
      ∧ b.frame.header.codec.decompress x b.frame.compressed
          b.frame.header.uncompressedLen.toNat = .ok b.payload := by
  have hparts := h
  simp only [tryReadBlockAt, bind_eq_ok_iff, ofExcept_eq_ok_iff] at hparts
  obtain ⟨frame, _, ⟨hframe, -⟩, _, _, -, _, _, ⟨hdecode, -⟩, hret⟩ := hparts
  cases hret
  obtain ⟨payload, hpayload, -⟩ := Except.bind_eq_ok_iff.mp hdecode
  refine ⟨⟨a.syncStart, frame, payload⟩, ?_, rfl, rfl, hframe, hpayload⟩
  unfold Attempt.accepted?
  rw [h]
  rw [hframe]
  dsimp only
  rw [hpayload]

end Accepted

inductive Scanned (x : External) (origin : Nat) : LogjetReader →
    List Attempt → EStateM.Result Error LogjetReader Bool → Prop
  | finish {r : LogjetReader} (hfind : findNextSync r.config.syncMarker r.data r.pos = none) :
      Scanned x origin r [] (finishScan origin r)
  | accept {r : LogjetReader} {p e : Nat} {records : List OwnedRecord} {stats : ReaderStats}
      (hfind : findNextSync r.config.syncMarker r.data r.pos = some p)
      (htry : tryReadBlockAt x r.config r.data p r.stats = .ok (records, e) stats) :
      Scanned x origin r [⟨p, r.stats⟩] (acceptBlock origin p records
        { r with pos := e, stats := stats })
  | reject {r : LogjetReader} {p : Nat} {err : Error} {stats : ReaderStats}
      {b : UInt64} {attempts : List Attempt} {result : EStateM.Result Error LogjetReader Bool}
      (hfind : findNextSync r.config.syncMarker r.data r.pos = some p)
      (htry : tryReadBlockAt x r.config r.data p r.stats = .error err stats)
      (hadd : checkedAdd "blocks_bad" stats.blocksBad 1 = .ok b)
      (rest : Scanned x origin { r with
        pos := p + 1, stats := { stats with blocksBad := b } }
        attempts result) :
      Scanned x origin r (⟨p, r.stats⟩ :: attempts) result
  | full {r : LogjetReader} {p : Nat} {err err' : Error} {stats : ReaderStats}
      (hfind : findNextSync r.config.syncMarker r.data r.pos = some p)
      (htry : tryReadBlockAt x r.config r.data p r.stats = .error err stats)
      (hadd : checkedAdd "blocks_bad" stats.blocksBad 1 = .error err') :
      Scanned x origin r [⟨p, r.stats⟩] (.error err' { r with stats })

section Arms

variable {r : LogjetReader} {p : Nat} {stats : ReaderStats}

theorem scanAttempts_of_none (hfind : findNextSync r.config.syncMarker r.data r.pos = none) :
    scanAttempts x r = [] := by
  rw [scanAttempts]
  split
  · rfl
  · rename_i h
    rw [hfind] at h
    cases h

theorem scanAttempts_of_some (hfind : findNextSync r.config.syncMarker r.data r.pos = some p) :
    scanAttempts x r = ⟨p, r.stats⟩ :: match tryReadBlockAt x r.config r.data p r.stats with
      | .ok _ _ => []
      | .error err stats =>
        if err.isFatal then []
        else
          match checkedAdd "blocks_bad" stats.blocksBad 1 with
          | .error _ => []
          | .ok b => scanAttempts x { r with
              pos := p + 1, stats := { stats with blocksBad := b } } := by
  rw [scanAttempts]
  split
  · rename_i h
    rw [hfind] at h
    cases h
  · rename_i q h
    rw [hfind] at h
    cases h
    rfl

end Arms

theorem scanned (origin : Nat) (r : LogjetReader) :
    Scanned x origin r (scanAttempts x r) (scanLoop x origin r) := by
  -- one case for each way out of the loop and one for going on
  fun_induction scanLoop x origin r with
  | case1 r hfind =>
    rw [scanAttempts_of_none hfind]
    exact .finish hfind
  | case2 r p hfind records e stats htry =>
    rw [scanAttempts_of_some hfind, htry]
    exact .accept hfind htry
  | case3 r p hfind err stats htry hfatal =>
    have hcounts := (@tryReadBlockAt_sameCounts x r.config r.data p r.stats).error htry
    exact absurd hfatal (by rw [hcounts.1]; exact Bool.false_ne_true)
  | case4 r p hfind err stats htry hfatal err' hadd =>
    rw [scanAttempts_of_some hfind, htry]
    dsimp only
    rw [if_neg hfatal, hadd]
    exact .full hfind htry hadd
  | case5 r p hfind err stats htry hfatal b hadd ih =>
    rw [scanAttempts_of_some hfind, htry]
    dsimp only
    rw [if_neg hfatal, hadd]
    exact .reject hfind htry hadd ih

inductive Nexted (x : External) : LogjetReader → List Attempt →
    EStateM.Result Error LogjetReader (Option OwnedRecord) → Prop
  | pop {r : LogjetReader} {record : OwnedRecord} {pending : List OwnedRecord} {v : UInt64}
      (hpending : r.pending = record :: pending)
      (hadd : checkedAdd "records_ok" r.stats.recordsOk 1 = .ok v) :
      Nexted x r [] (.ok (some record) { r with
        pending := pending, stats := { r.stats with recordsOk := v } })
  | full {r : LogjetReader} {record : OwnedRecord} {pending : List OwnedRecord} {err : Error}
      (hpending : r.pending = record :: pending)
      (hadd : checkedAdd "records_ok" r.stats.recordsOk 1 = .error err) :
      Nexted x r [] (.error err { r with pending })
  | last {r r' : LogjetReader} (hpending : r.pending = [])
      (hscan : scanNextBlock x r = .ok false r') : Nexted x r (scanAttempts x r) (.ok none r')
  | fail {r r' : LogjetReader} {err : Error} (hpending : r.pending = [])
      (hscan : scanNextBlock x r = .error err r') : Nexted x r (scanAttempts x r) (.error err r')
  | more {r r' : LogjetReader} {attempts : List Attempt}
      {result : EStateM.Result Error LogjetReader (Option OwnedRecord)} (hpending : r.pending = [])
      (hscan : scanNextBlock x r = .ok true r') (rest : Nexted x r' attempts result) :
      Nexted x r (scanAttempts x r ++ attempts) result

theorem nextAttempts_of_pending {r : LogjetReader} {record : OwnedRecord}
    {pending : List OwnedRecord} (hpending : r.pending = record :: pending) :
    nextAttempts x r = [] := by rw [nextAttempts, hpending]

theorem nextAttempts_of_nil {r : LogjetReader} (hpending : r.pending = []) :
    nextAttempts x r = scanAttempts x r ++ match scanNextBlock x r with
      | .ok true r' => nextAttempts x r'
      | _ => [] := by
  rw [nextAttempts, hpending]
  dsimp only
  congr 1
  split
  · rename_i hscan
    rw [hscan]
  · rename_i hscan
    split
    · rename_i hscan'
      exact absurd hscan' (hscan _)
    · rfl

theorem nexted (r : LogjetReader) : Nexted x r (nextAttempts x r) (nextRecord x r) := by
  fun_induction nextRecord x r with
  | case1 r record pending hpending err hadd =>
    rw [nextAttempts_of_pending hpending]
    exact .full hpending hadd
  | case2 r record pending hpending v hadd =>
    rw [nextAttempts_of_pending hpending]
    exact .pop hpending hadd
  | case3 r hpending err r' hscan =>
    rw [nextAttempts_of_nil hpending, hscan, List.append_nil]
    exact .fail hpending hscan
  | case4 r hpending r' hscan =>
    rw [nextAttempts_of_nil hpending, hscan, List.append_nil]
    exact .last hpending hscan
  | case5 r hpending r' hscan ih =>
    rw [nextAttempts_of_nil hpending, hscan]
    exact .more hpending hscan ih

end Logjet
