/-
When the index builder does not trap: exactly under a condition on the bytes
it comes to, and then it returns what `Ljx.Index` does.
-/
import Mathlib.Logic.Relation
import Logjet.Ljx.CheckedBuild
import Logjet.Ljx.Proofs.Index

namespace Logjet.Ljx

open List Trap Relation Reference

variable {x : External} {decode : DecodeLogs} {data : Bytes}

theorem forall_reached_iff {α : Type} {step : α → α → Prop} {P : α → Prop} {a : α} :
    (∀ b, ReflTransGen step a b → P b)
      ↔ P a ∧ ∀ c, step a c → ∀ b, ReflTransGen step c b → P b := by
  constructor
  · intro h
    exact ⟨h a .refl, fun c hstep b hreach => h b (.head hstep hreach)⟩
  · rintro ⟨ha, hrest⟩ b hreach
    cases hreach.cases_head with
    | inl heq => exact heq ▸ ha
    | inr hnext =>
      obtain ⟨c, hstep, hreach⟩ := hnext
      exact hrest c hstep b hreach

def VarintSafe (bytes : Bytes) : Prop :=
  ¬ (11 ≤ bytes.length ∧ ∀ byte ∈ bytes.take 10, byte &&& 0x80 ≠ 0)

theorem safe_varintLoopChecked_iff {value : UInt64} {bytes : Bytes} {k : Nat} (hk : k ≤ 10) :
    Safe (varintLoopChecked value (7 * k) bytes) ↔ ¬ (11 - k ≤ bytes.length
        ∧ ∀ byte ∈ bytes.take (10 - k), byte &&& 0x80 ≠ 0) := by
  induction bytes generalizing value k with
  | nil =>
    refine iff_of_true (safe_returned _) ?_
    rintro ⟨hlen, -⟩
    rw [length_nil] at hlen
    omega
  | cons byte bytes ih =>
    rw [varintLoopChecked, safe_bind_iff, safe_require_iff, length_cons]
    rcases Nat.lt_or_eq_of_le hk with hlt | rfl
    · have htake : 10 - k = (10 - (k + 1)) + 1 := by omega
      rw [htake, take_succ_cons, forall_mem_cons]
      by_cases hlast : byte &&& 0x80 = 0
      · rw [if_pos hlast]
        exact iff_of_true ⟨by omega, fun _ _ => safe_pure _⟩ fun h => h.2.1 hlast
      · rw [if_neg hlast, safe_bind_iff, safe_require_iff]
        have hrest := @ih (value ||| ((byte &&& 0x7f).toUInt64
          <<< UInt64.ofNat (7 * k))) (k + 1) (by omega)
        rw [Nat.mul_succ] at hrest
        rw [hrest]
        constructor
        · rintro ⟨-, h⟩ ⟨hlen, -, hall⟩
          exact (h () (require_eq_ok_iff.mpr (by omega))).2 ()
            (require_eq_ok_iff.mpr (by omega)) ⟨by omega, hall⟩
        · intro h
          refine ⟨by omega, fun _ _ => ⟨by omega, fun _ _ hnot => h ?_⟩⟩
          exact ⟨by omega, hlast, hnot.2⟩
    · refine iff_of_false (fun h => absurd h.1 (by omega)) ?_
      exact not_not.mpr ⟨by omega, by simp⟩

theorem varintLoopChecked_returns (value : UInt64) (shift : Nat) (bytes : Bytes) :
    Returns (varintLoopChecked value shift bytes) (varintLoop value shift bytes) := by
  induction bytes generalizing value shift with
  | nil => exact .returned _
  | cons byte bytes ih =>
    rw [varintLoopChecked, varintLoop]
    refine .require fun _ => ?_
    by_cases hlast : byte &&& 0x80 = 0
    · rw [if_pos hlast, if_pos hlast]
      exact .pure _
    · rw [if_neg hlast, if_neg hlast]
      exact .require fun _ => ih _ _

theorem safe_decodeVarint_bind_iff {α : Type} {bytes : Bytes} {f : UInt64 × Bytes → Checked α} :
    Safe (decodeVarintChecked bytes >>= f) ↔ VarintSafe bytes
        ∧ ∀ read, decodeVarint bytes = .ok read → Safe (f read) := by
  have hsafe : Safe (decodeVarintChecked bytes) ↔ VarintSafe bytes :=
    safe_varintLoopChecked_iff (Nat.zero_le 10)
  rw [safe_bind_iff, hsafe]
  refine and_congr_right fun h => ?_
  have heq : decodeVarintChecked bytes = returned (decodeVarint bytes) :=
    varintLoopChecked_returns 0 0 bytes (hsafe.mpr h)
  simp only [heq, returned_eq_ok_iff]

def RecordSafe (ext : BlockHeaderExt) (total : Nat) (typeByte : UInt8) (bytes : Bytes) : Prop :=
  ∀ kind, RecordType.fromU8 typeByte = .ok kind → VarintSafe bytes
    ∧ ∀ seqDelta rest₁, decodeVarint bytes = .ok (seqDelta, rest₁) →
      ext.baseSeq.toNat + seqDelta.toNat < 2 ^ 64 ∧ VarintSafe rest₁
      ∧ ∀ tsDelta rest₂, decodeVarint rest₁ = .ok (tsDelta, rest₂) →
        ext.baseTsUnixNs.toNat + tsDelta.toNat < 2 ^ 64 ∧ VarintSafe rest₂ ∧ ∀ payloadLen rest₃,
          decodeVarint rest₂ = .ok (payloadLen, rest₃) →
          total - rest₃.length + payloadLen.toNat < 2 ^ 64 →
          total - rest₃.length + payloadLen.toNat ≤ total

theorem safe_parseBlockRecordChecked_iff {ext : BlockHeaderExt}
    {total : Nat} {typeByte : UInt8} {bytes : Bytes} :
    Safe (parseBlockRecordChecked ext total (typeByte :: bytes))
      ↔ RecordSafe ext total typeByte bytes := by
  simp only [parseBlockRecordChecked, RecordSafe, safe_decodeVarint_bind_iff,
    safe_addU64_bind_iff, safe_returned_bind_iff, safe_require_bind_iff,
    safe_pure, lift_eq_ok_iff, Except.ensure_eq_ok_iff, Prod.forall, and_true, forall_const]

theorem parseBlockRecordChecked_returns (ext : BlockHeaderExt) (total : Nat) (rest : Bytes) :
    Returns (parseBlockRecordChecked ext total rest) (parseBlockRecord ext total rest) := by
  cases rest with
  | nil => exact fun hsafe => absurd rfl (hsafe .slice)
  | cons typeByte rest =>
    refine (Returns.returned _).bind fun kind _ => ?_
    refine (varintLoopChecked_returns 0 0 _).bind ?_
    rintro ⟨seqDelta, _⟩ -
    refine .addU64 fun _ => ?_
    refine (varintLoopChecked_returns 0 0 _).bind ?_
    rintro ⟨tsDelta, _⟩ -
    refine .addU64 fun _ => ?_
    refine (varintLoopChecked_returns 0 0 _).bind ?_
    rintro ⟨len, _⟩ -
    refine (Returns.returned _).bind fun _ _ => ?_
    refine .both fun _ => ?_
    exact .pure _

def NextRecord (ext : BlockHeaderExt) (total : Nat) (rest rest' : Bytes) : Prop :=
  ∃ record, parseBlockRecord ext total rest = .ok (record, rest')

def PayloadSafe (ext : BlockHeaderExt) (total : Nat) (payload : Bytes) : Prop :=
  ∀ rest, ReflTransGen (NextRecord ext total) payload rest →
    ∀ typeByte bytes, rest = typeByte :: bytes → RecordSafe ext total typeByte bytes

section Payload

variable {ext : BlockHeaderExt} {total : Nat}

theorem safe_parseBlockPayloadChecked_nil : Safe (parseBlockPayloadChecked ext total []) := by
  rw [parseBlockPayloadChecked]
  exact safe_ok _

theorem payloadSafe_nil : PayloadSafe ext total [] := by
  refine forall_reached_iff.mpr ⟨nofun, ?_⟩
  rintro rest ⟨record, hrecord⟩
  cases hrecord

theorem parseBlockPayloadChecked_cons (typeByte : UInt8) (bytes : Bytes) :
    parseBlockPayloadChecked ext total (typeByte :: bytes)
      = parseBlockRecordChecked ext total (typeByte :: bytes) >>= fun read =>
        parseBlockPayloadChecked ext total read.2 >>= fun records =>
          pure (read.1 :: records) := by
  rw [parseBlockPayloadChecked, if_neg (by simp)]
  split
  · rename_i stop hstop
    rw [hstop]
    rfl
  · rename_i record rest' hrecord
    rw [hrecord]
    rfl

theorem parseBlockPayload_cons (typeByte : UInt8) (bytes : Bytes) :
    parseBlockPayload ext total (typeByte :: bytes)
      = parseBlockRecord ext total (typeByte :: bytes) >>= fun read =>
        parseBlockPayload ext total read.2 >>= fun records =>
          pure (read.1 :: records) := by
  rw [parseBlockPayload, if_neg (by simp)]
  split
  · rename_i err herr
    rw [herr]
    rfl
  · rename_i record rest' hrecord
    rw [hrecord]
    rfl

theorem parseBlockPayloadChecked_returns (rest : Bytes) :
    Returns (parseBlockPayloadChecked ext total rest) (parseBlockPayload ext total rest) := by
  induction hn : rest.length using Nat.strong_induction_on generalizing rest with
  | _ n ih =>
    cases rest with
    | nil =>
      rw [parseBlockPayloadChecked, parseBlockPayload]
      exact .pure _
    | cons typeByte bytes =>
      rw [parseBlockPayloadChecked_cons, parseBlockPayload_cons]
      refine (parseBlockRecordChecked_returns ext total _).bind ?_
      rintro ⟨record, rest'⟩ hrecord
      have hless := parseBlockRecordChecked_length hrecord
      exact (ih _ (by omega) rest' rfl).bind fun _ _ => .pure _

theorem safe_parseBlockPayloadChecked_step {typeByte : UInt8} {bytes : Bytes} :
    Safe (parseBlockPayloadChecked ext total (typeByte :: bytes))
      ↔ RecordSafe ext total typeByte bytes
        ∧ ∀ rest, NextRecord ext total (typeByte :: bytes) rest →
          Safe (parseBlockPayloadChecked ext total rest) := by
  rw [parseBlockPayloadChecked_cons, safe_bind_iff, safe_parseBlockRecordChecked_iff]
  refine and_congr_right fun hsafe => ?_
  rw [parseBlockRecordChecked_returns ext total (typeByte :: bytes)
    (safe_parseBlockRecordChecked_iff.mpr hsafe)]
  simp only [returned_eq_ok_iff]
  constructor
  · rintro h rest ⟨record, hrecord⟩
    exact (safe_bind_iff.mp (h _ hrecord)).1
  · rintro h ⟨record, rest⟩ hrecord
    exact safe_bind_iff.mpr ⟨h rest ⟨record, hrecord⟩, fun _ _ => safe_pure _⟩

theorem safe_parseBlockPayloadChecked_iff {payload : Bytes} :
    Safe (parseBlockPayloadChecked ext total payload) ↔ PayloadSafe ext total payload := by
  induction hn : payload.length using Nat.strong_induction_on generalizing payload with
  | _ n ih =>
    cases payload with
    | nil => exact iff_of_true safe_parseBlockPayloadChecked_nil payloadSafe_nil
    | cons typeByte bytes =>
      have hhead : (∀ t b, typeByte :: bytes = t :: b → RecordSafe ext total t b)
            ↔ RecordSafe ext total typeByte bytes := by
        constructor
        · intro h
          exact h _ _ rfl
        · rintro h t b ⟨⟩
          exact h
      rw [safe_parseBlockPayloadChecked_step, PayloadSafe, forall_reached_iff, hhead]
      refine and_congr_right fun _ => forall_congr' fun rest => ?_
      refine forall_congr' fun hnext => ?_
      obtain ⟨record, hrecord⟩ := hnext
      have hless := parseBlockRecord_length hrecord
      exact ih rest.length (by omega) rfl

end Payload

def BodySafe (x : External) (data : Bytes) (pos : Nat) : Prop :=
  ∀ header, pos + 24 ≤ data.length →
    BlockHeader.decode (slice data pos 24) = .ok header →
    pos + 24 + (header.headerLen.toNat - 24) ≤ data.length → 16 ≤ header.headerLen.toNat - 24
      ∧ ∀ ext payload, BlockHeaderExt.decode (slice data (pos + 24) 16) = .ok ext →
        pos + 24 + (header.headerLen.toNat - 24) + header.compressedLen.toNat + 4 ≤ data.length →
        header.codec.decompress x (slice data (pos + 24
          + (header.headerLen.toNat - 24)) header.compressedLen.toNat)
          header.uncompressedLen.toNat = .ok payload → PayloadSafe ext payload.length payload

theorem safe_readBlockBodyChecked_iff {pos : Nat} :
    Safe (readBlockBodyChecked x data pos) ↔ BodySafe x data pos := by
  simp only [readBlockBodyChecked, safe_returned_bind_iff,
    safe_require_bind_iff, lift_eq_ok_iff, Prod.forall, readExact_eq_ok_iff]
  constructor
  · intro h header hin hdecode hext
    obtain ⟨hlen, hrest⟩ := h _ _ ⟨hin, rfl, rfl⟩ header hdecode _ _ ⟨hext, rfl, rfl⟩
    refine ⟨hlen, fun ext payload hbase hend hpayload => ?_⟩
    rw [← slice_take (show 16 ≤ header.headerLen.toNat - 24 from hlen)] at hbase
    have hsafe := hrest ext hbase _ _ ⟨show pos + 24 + (header.headerLen.toNat - 24)
        + header.compressedLen.toNat ≤ data.length by omega, rfl, rfl⟩ _ _
      ⟨hend, rfl, rfl⟩ payload hpayload
    exact safe_parseBlockPayloadChecked_iff.mp (safe_bind_iff.mp hsafe).1
  · rintro h fixed _ ⟨hin, rfl, rfl⟩ header hdecode extBytes _ ⟨hext, rfl, rfl⟩
    obtain ⟨hlen, hrest⟩ := h header hin hdecode hext
    refine ⟨hlen, ?_⟩
    rintro ext hbase compressed _ ⟨-, rfl, rfl⟩ crc _ ⟨hend, -, -⟩ payload hpayload
    rw [← slice_take (show 16 ≤ header.headerLen.toNat - 24 from hlen)] at hrest
    have hsafe := hrest ext payload hbase hend hpayload
    exact safe_bind_iff.mpr ⟨safe_parseBlockPayloadChecked_iff.mpr hsafe, fun _ _ => safe_pure _⟩

theorem readBlockBodyChecked_returns (pos : Nat) :
    Returns (readBlockBodyChecked x data pos) (readBlockBody x data pos) := by
  refine (Returns.returned _).bind ?_
  rintro ⟨fixed, _⟩ -
  refine (Returns.returned _).bind fun header _ => ?_
  refine (Returns.returned _).bind ?_
  rintro ⟨extBytes, _⟩ -
  refine .both fun _ => ?_
  refine (Returns.returned _).bind fun ext _ => ?_
  refine (Returns.returned _).bind ?_
  rintro ⟨compressed, _⟩ -
  refine (Returns.returned _).bind fun _ _ => ?_
  refine (Returns.returned _).bind fun payload _ => ?_
  exact (parseBlockPayloadChecked_returns payload).bind fun _ _ => .pure _

theorem readBlockSummaryChecked_returns (offset : Nat) :
    Returns (readBlockSummaryChecked x decode data offset)
      (readBlockSummary x decode data offset) := by
  unfold readBlockSummaryChecked readBlockSummary
  dsimp only
  split
  · exact .pure _
  · split
    · exact .pure _
    · refine (readBlockBodyChecked_returns _).bind ?_
      rintro ⟨header, records⟩ -
      refine .addU64 fun _ => ?_
      refine .addU64 fun _ => ?_
      exact .addU64 fun _ => .pure _

theorem readBlockSummaryChecked_of_not_marker {offset : Nat}
    (h : ¬ MarkerAt defaultSyncMarker data offset) :
    readBlockSummaryChecked x decode data offset = .ok none := by
  rw [readBlockSummaryChecked]
  by_cases hempty : (slice data offset 8).isEmpty
  · rw [if_pos hempty]
    rfl
  · rw [if_neg hempty, if_pos (padded_ne_marker h)]
    rfl

theorem safe_readBlockSummaryChecked_iff {offset : Nat} :
    Safe (readBlockSummaryChecked x decode data offset) ↔ (MarkerAt defaultSyncMarker data offset →
        BodySafe x data (offset + 8)) := by
  by_cases hmarker : MarkerAt defaultSyncMarker data offset
  · rw [readBlockSummaryChecked_of_marker x hmarker, safe_bind_iff,
      safe_readBlockBodyChecked_iff, forall_prop_of_true hmarker]
    refine and_iff_left ?_
    rintro ⟨header, records⟩ -
    have hh := header.headerLen.toNat_lt
    have hc := header.compressedLen.toNat_lt
    simp only [safe_addU64_bind_iff, safe_pure, and_true]
    omega
  · rw [readBlockSummaryChecked_of_not_marker hmarker]
    exact iff_of_true (safe_ok _) fun h => absurd h hmarker

theorem chunkLoop_ok {scanPos idx : Nat} {chunk : Bytes} {matched : Fin 8}
    (hroom : scanPos + idx + chunk.length < 2 ^ 64) (hmatched : matched.val ≤ scanPos + idx) :
    (∃ p, chunkLoop scanPos chunk matched.val idx = .ok (.inl p))
      ∨ ∃ m : Fin 8, chunkLoop scanPos chunk matched.val idx = .ok (.inr m.val)
        ∧ m.val ≤ scanPos + idx + chunk.length := by
  induction chunk generalizing matched idx with
  | nil => exact Or.inr ⟨matched, rfl, hmatched⟩
  | cons byte chunk ih =>
    have hnext : scanPos + idx + (byte :: chunk).length = scanPos + (idx + 1) + chunk.length := by
      rw [length_cons]
      omega
    rw [chunkLoop_cons, hnext]
    by_cases hbyte : byte = defaultSyncMarker.get matched
    · rw [if_pos hbyte]
      by_cases hend : matched.val + 1 < 8
      · rw [if_neg (show matched.val + 1 ≠ 8 by omega)]
        exact @ih _ ⟨matched.val + 1, hend⟩ (by omega)
          (show matched.val + 1 ≤ scanPos + (idx + 1) by omega)
      · rw [if_pos (show matched.val + 1 = 8 by omega)]
        refine Or.inl ⟨scanPos + idx + 1 - 8, ?_⟩
        simp only [Except.bind_eq_ok_iff, addU64_eq_ok_iff, subU64_eq_ok_iff]
        exact ⟨_, ⟨by omega, rfl⟩, _, ⟨by omega, rfl⟩, _, ⟨by omega, rfl⟩, rfl⟩
    · rw [if_neg hbyte]
      refine ih (by omega) ?_
      split
      · exact Nat.le_add_left 1 (scanPos + idx)
      · exact Nat.zero_le _

theorem buffer_length_le (data : Bytes) (size scanPos : Nat) :
    (slice data scanPos (min 4096 (size - scanPos))).length ≤ size - scanPos := by
  rw [slice, length_take]
  omega

theorem markerLoop_ok {size scanPos m : Nat} {matched : Fin 8}
    (hsize : size < 2 ^ 64) (hm : m = matched.val) (hmatched : matched.val ≤ scanPos) :
    ∃ found, markerLoop data size scanPos m = .ok found := by
  fun_induction markerLoop data size scanPos m generalizing matched with
  | case1 => exact ⟨none, rfl⟩
  | case2 scanPos m _ chunk =>
    rename_i hchunk
    subst hm
    have hfit : chunk.length ≤ size - scanPos := buffer_length_le data size scanPos
    rcases @chunkLoop_ok scanPos 0 chunk matched (by omega) hmatched with ⟨p, hok⟩ | ⟨m', hok, -⟩
    · cases hchunk.symm.trans hok
    · cases hchunk.symm.trans hok
  | case3 _ _ _ _ _ p => exact ⟨some p, rfl⟩
  | case4 scanPos m _ chunk =>
    rename_i hnext
    have hfit : chunk.length ≤ size - scanPos := buffer_length_le data size scanPos
    cases hnext.symm.trans (addU64_eq_ok_iff.mpr ⟨by omega, rfl⟩)
  | case5 scanPos m _ chunk _ _ hchunk _ hnext =>
    rename_i ih
    subst hm
    obtain ⟨-, rfl⟩ := addU64_eq_ok_iff.mp hnext
    have hfit : chunk.length ≤ size - scanPos := buffer_length_le data size scanPos
    rcases @chunkLoop_ok scanPos 0 chunk matched (by omega) hmatched with ⟨p, hok⟩ | ⟨m', hok, hm⟩
    · cases hchunk.symm.trans hok
    · cases hchunk.symm.trans hok
      exact ih rfl hm
  | case6 => exact ⟨none, rfl⟩

theorem findNextSyncMarkerChecked_ok {start size : Nat} (hsize : size < 2 ^ 64) :
    findNextSyncMarkerChecked data start size = .ok (findNextSyncMarker data start size) := by
  obtain ⟨found, hfound⟩ := @markerLoop_ok data size start 0 0 hsize rfl (Nat.zero_le _)
  have hchecked : findNextSyncMarkerChecked data start size = .ok found := hfound
  rw [hchecked, findNextSyncMarkerChecked_eq hchecked]

def BuildStep (x : External) (decode : DecodeLogs) (data : Bytes)
    (size offset offset' : Nat) : Prop :=
  offset < size
    ∧ ((∃ block, readBlockSummary x decode data offset = .ok (some block)
        ∧ offset' = offset + block.len) ∨ readBlockSummary x decode data offset = .ok none
        ∧ findNextSyncMarker data offset size = some offset')

def BlockSafe (x : External) (decode : DecodeLogs) (data : Bytes) (offset : Nat) : Prop :=
  BodySafe x data (offset + 8) ∧ ∀ block, readBlockSummary x decode data offset = .ok (some block) →
      offset + block.len < 2 ^ 64

section Build

variable {size offset : Nat}

theorem buildLoopChecked_of_lt (h : offset < size) : buildLoopChecked x decode data size offset
      = readBlockSummaryChecked x decode data offset >>= fun read =>
        match read with
        | some block =>
          addU64 block.offset block.len >>= fun next =>
            buildLoopChecked x decode data size next >>= fun blocks => pure (block :: blocks)
        | none =>
          findNextSyncMarkerChecked data offset size >>= fun found =>
            match found with
            | some next => buildLoopChecked x decode data size next
            | none => .ok [] := by
  rw [buildLoopChecked, if_pos h]
  split
  · rename_i hread
    rw [hread]
    rfl
  · rename_i block hread
    rw [hread, Except.ok_bind]
    dsimp only
    split
    · rename_i hnext
      rw [hnext]
      rfl
    · rename_i hnext
      rw [hnext]
      rfl
  · rename_i hread
    rw [hread, Except.ok_bind]
    split
    · rename_i hfind
      rw [hfind]
      rfl
    · rename_i hfind
      rw [hfind]
      rfl
    · rename_i hfind
      rw [hfind]
      rfl

theorem readBlockSummary_some {block : IndexBlock}
    (h : readBlockSummary x decode data offset = .ok (some block)) :
    MarkerAt defaultSyncMarker data offset ∧ block.offset = offset ∧ 0 < block.len := by
  by_cases hmarker : MarkerAt defaultSyncMarker data offset
  · obtain ⟨err, herr⟩ | ⟨block, records, e, hok, hindex, hentry⟩ :=
      @readBlockSummary_of_marker x decode data offset hmarker
    · rw [herr] at h
      cases h
    · rw [hok] at h
      cases h
      obtain ⟨hlt, -⟩ := indexAt_advances x data offset records e hindex
      have hoffset : block.offset = offset := hentry.offset
      have hends : block.offset + block.len = e := hentry.ends
      exact ⟨hmarker, hoffset, by omega⟩
  · rw [readBlockSummary_of_not_marker hmarker] at h
    cases h

theorem BuildStep.lt {offset' : Nat}
    (h : BuildStep x decode data size offset offset') : offset < offset' := by
  obtain ⟨-, ⟨block, hblock, rfl⟩ | ⟨hnone, hfind⟩⟩ := h
  · obtain ⟨-, -, hlen⟩ := readBlockSummary_some hblock
    omega
  · refine findNextSyncMarker_gt (fun hmarker => ?_) hfind
    obtain ⟨err, herr⟩ | ⟨block, _, _, hok, -⟩ :=
      @readBlockSummary_of_marker x decode data offset hmarker
    · rw [herr] at hnone
      cases hnone
    · rw [hok] at hnone
      cases hnone

theorem safe_buildLoopChecked_step (hsize : size < 2 ^ 64) (hlt : offset < size) :
    Safe (buildLoopChecked x decode data size offset) ↔ (MarkerAt defaultSyncMarker data offset →
          BlockSafe x decode data offset) ∧ ∀ next, BuildStep x decode data size offset next →
          Safe (buildLoopChecked x decode data size next) := by
  rw [buildLoopChecked_of_lt hlt, safe_bind_iff]
  by_cases hread : Safe (readBlockSummaryChecked x decode data offset)
  · have hbody := safe_readBlockSummaryChecked_iff.mp hread
    rw [and_iff_right hread, readBlockSummaryChecked_returns offset hread]
    cases hres : readBlockSummary x decode data offset with
    | error err =>
      refine iff_of_true (fun read hread => ?_)
        ⟨fun hmarker => ⟨hbody hmarker, fun block hblock => ?_⟩, ?_⟩
      · cases hread
      · rw [hres] at hblock
        cases hblock
      · rintro next ⟨-, ⟨block, hblock, -⟩ | ⟨hnone, -⟩⟩
        · rw [hres] at hblock
          cases hblock
        · rw [hres] at hnone
          cases hnone
    | ok read =>
      cases read with
      | some block =>
        obtain ⟨hmarker, hoffset, -⟩ := readBlockSummary_some hres
        have hturn : ∀ next, BuildStep x decode data size offset next
            ↔ next = offset + block.len := by
          intro next
          simp [BuildStep, hlt, hres]
        have hends : BlockSafe x decode data offset ↔ offset + block.len < 2 ^ 64 := by
          simp [BlockSafe, hbody hmarker, hres]
        simp only [hturn, hends, forall_eq, forall_prop_of_true hmarker]
        rw [← hoffset]
        simp only [returned, Except.ok.injEq, forall_eq', safe_addU64_bind_iff]
        refine and_congr_right fun _ => ?_
        rw [safe_bind_iff]
        exact and_iff_left fun _ _ => safe_pure _
      | none =>
        have hturn : ∀ next, BuildStep x decode data size offset next
            ↔ findNextSyncMarker data offset size = some next := by
          intro next
          simp [BuildStep, hlt, hres]
        have hends : BlockSafe x decode data offset ↔ BodySafe x data (offset + 8) := by
          simp [BlockSafe, hres]
        simp only [hturn, hends, returned, Except.ok.injEq, forall_eq',
          findNextSyncMarkerChecked_ok hsize, Except.ok_bind]
        rw [and_iff_right hbody]
        cases findNextSyncMarker data offset size with
        | none => simp
        | some next => simp
  · refine iff_of_false (fun h => hread h.1) fun h => hread ?_
    exact safe_readBlockSummaryChecked_iff.mpr fun hmarker => (h.1 hmarker).1

theorem safe_buildLoopChecked_iff (hsize : size < 2 ^ 64) :
    Safe (buildLoopChecked x decode data size offset)
      ↔ ∀ b, ReflTransGen (BuildStep x decode data size) offset b →
        b < size → MarkerAt defaultSyncMarker data b → BlockSafe x decode data b := by
  induction hn : size - offset using Nat.strong_induction_on generalizing offset with
  | _ n ih =>
    rw [forall_reached_iff]
    by_cases hlt : offset < size
    · rw [safe_buildLoopChecked_step hsize hlt, forall_prop_of_true hlt]
      refine and_congr_right fun _ => forall_congr' fun next => ?_
      refine forall_congr' fun hstep => ?_
      have hforward := hstep.lt
      exact ih _ (by omega) rfl
    · rw [buildLoopChecked, if_neg hlt]
      refine iff_of_true (safe_ok _) ⟨fun h => absurd h hlt, ?_⟩
      rintro c ⟨h, -⟩
      exact absurd h hlt

theorem buildLoop_of_lt (h : offset < size) : buildLoop x decode data size offset
      = readBlockSummary x decode data offset >>= fun read =>
        match read with
        | some block =>
          buildLoop x decode data size (max (block.offset + block.len)
            (offset + 1)) >>= fun blocks => pure (block :: blocks)
        | none =>
          match findNextSyncMarker data offset size with
          | some next => buildLoop x decode data size (max next (offset + 1))
          | none => .ok [] := by
  rw [buildLoop, if_pos h]
  cases readBlockSummary x decode data offset with
  | error err => rfl
  | ok read =>
    cases read with
    | some block => rfl
    | none => rfl

theorem buildLoopChecked_returns (hsize : size < 2 ^ 64) :
    Returns (buildLoopChecked x decode data size offset) (buildLoop x decode data size offset) := by
  induction hn : size - offset using Nat.strong_induction_on generalizing offset with
  | _ n ih =>
    by_cases hlt : offset < size
    · rw [buildLoopChecked_of_lt hlt, buildLoop_of_lt hlt]
      refine (readBlockSummaryChecked_returns offset).bind fun read hread => ?_
      cases read with
      | some block =>
        obtain ⟨hoffset, hlen⟩ := readBlockSummaryChecked_len x hread
        have hmax : max (block.offset + block.len) (offset + 1) = block.offset + block.len :=
          Nat.max_eq_left (by omega)
        refine .addU64 fun _ => ?_
        dsimp only
        rw [hmax]
        exact (ih _ (by omega) rfl).bind fun _ _ => .pure _
      | none =>
        rw [findNextSyncMarkerChecked_ok hsize, Except.ok_bind]
        cases hfind : findNextSyncMarker data offset size with
        | none => exact .pure _
        | some next =>
          have hgt := findNextSyncMarkerChecked_gt x hread
            (by rw [findNextSyncMarkerChecked_ok hsize, hfind])
          dsimp only
          rw [Nat.max_eq_left (by omega)]
          exact ih _ (by omega) rfl
    · rw [buildLoopChecked, if_neg hlt, buildLoop, if_neg hlt]
      exact .pure _

end Build

theorem buildChecked_returns (size : UInt64) (modifiedNs : Option UInt64) :
    Returns (buildChecked x decode data size modifiedNs)
      (build x decode data size.toNat modifiedNs) := by
  refine (buildLoopChecked_returns size.toNat_lt).bind fun blocks _ => ?_
  by_cases hempty : blocks.isEmpty
  · rw [if_pos hempty, if_pos hempty]
    exact .returned (.error _)
  · rw [if_neg hempty, if_neg hempty]
    exact .pure _

theorem safe_buildChecked_iff {size : UInt64} {modifiedNs : Option UInt64} :
    Safe (buildChecked x decode data size modifiedNs) ↔ ∀ offset,
        ReflTransGen (BuildStep x decode data size.toNat) 0 offset →
        offset < size.toNat → MarkerAt defaultSyncMarker data offset →
          BlockSafe x decode data offset := by
  rw [buildChecked, safe_bind_iff, safe_buildLoopChecked_iff size.toNat_lt]
  refine and_iff_left fun blocks _ => ?_
  by_cases hempty : blocks.isEmpty
  · rw [if_pos hempty]
    exact safe_returned (.error _)
  · rw [if_neg hempty]
    exact safe_pure _

/-- The index builder never traps iff the blocks it meets are safe. -/
theorem build_safe_iff (x : External) (decode : DecodeLogs) (data : Bytes)
    (size : UInt64) (modifiedNs : Option UInt64) :
    (∃ result, buildChecked x decode data size modifiedNs = returned result) ↔ ∀ offset,
        ReflTransGen (BuildStep x decode data size.toNat) 0 offset →
        offset < size.toNat → MarkerAt defaultSyncMarker data offset →
          BlockSafe x decode data offset := by
  rw [← @safe_buildChecked_iff x decode data size modifiedNs]
  constructor
  · rintro ⟨result, hresult⟩
    rw [hresult]
    exact safe_returned result
  · intro hsafe
    exact ⟨_, buildChecked_returns size modifiedNs hsafe⟩

def shortHeaderFile : Bytes :=
  defaultSyncMarker.toList ++ [1, 0, 0, 0, 24, 0] ++ List.replicate 18 0

theorem build_traps_on_short_header :
    ¬ ∃ result, buildChecked external (fun _ => none) shortHeaderFile 32
      none = returned result := by
  have htrap : buildChecked external (fun _ => none) shortHeaderFile 32 none
      = .error (.trapped .slice) := by decide +kernel
  rintro ⟨result, hresult⟩
  rw [htrap] at hresult
  cases result with
  | ok index => cases hresult
  | error err => cases hresult

end Logjet.Ljx
