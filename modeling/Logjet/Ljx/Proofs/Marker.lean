/-
The checked marker search finds what `findNextSyncMarker` finds, and always
behind a block that cannot be read.
-/
import Logjet.Ljx.Checked
import Logjet.Proofs.Scan

namespace Logjet.Ljx

open List hiding Vector
open Trap

variable (x : External) {data : Bytes} {decode : DecodeLogs} {offset size next : Nat}

theorem readBlockSummaryChecked_len {block : IndexBlock}
    (h : readBlockSummaryChecked x decode data offset = .ok (some block)) :
    block.offset = offset ∧ 0 < block.len := by
  unfold readBlockSummaryChecked at h
  dsimp only at h
  split at h
  · cases h
  · split at h
    · cases h
    · simp only [Except.bind_eq_ok_iff, addU64_eq_ok_iff, Prod.exists] at h
      obtain ⟨header, records, -, _, ⟨-, rfl⟩, _, ⟨-, rfl⟩, _, ⟨-, rfl⟩, hret⟩ := h
      cases hret
      exact ⟨rfl, Nat.succ_pos _⟩

theorem chunkLoop_cons (scanPos : Nat) (byte : UInt8) (rest : Bytes) (matched : Fin 8) (idx : Nat) :
    chunkLoop scanPos (byte :: rest) matched.val idx = if byte = defaultSyncMarker.get matched then
          if matched.val + 1 = 8 then do
            let pos ← addU64 scanPos idx
            let pos ← addU64 pos 1
            let pos ← subU64 pos 8
            return .inl pos
          else chunkLoop scanPos rest (matched.val + 1) (idx + 1)
        else
          chunkLoop scanPos rest (if byte = defaultSyncMarker.get 0 then (1 : Fin 8) else 0).val
            (idx + 1) := by
  have hnext : defaultSyncMarker.toList[matched.val]? = some (defaultSyncMarker.get matched) := by
    revert matched
    decide
  have hhead : defaultSyncMarker.toList.head? = some (defaultSyncMarker.get 0) := rfl
  have hfirst : (if some byte = defaultSyncMarker.toList.head? then 1 else 0)
      = (if byte = defaultSyncMarker.get 0 then (1 : Fin 8) else 0).val := by
    rw [hhead]
    by_cases hbyte : byte = defaultSyncMarker.get 0
    · rw [if_pos hbyte, if_pos (congrArg some hbyte)]
      rfl
    · rw [if_neg hbyte, if_neg (fun h => hbyte (Option.some.inj h))]
      rfl
  rw [chunkLoop, hnext, hfirst]

theorem chunkLoop_eq {scanPos idx start offset : Nat} {chunk : Bytes}
    {matched : Fin 8} {found : Nat ⊕ Nat} (hpos : start + offset = scanPos + idx)
    (h : chunkLoop scanPos chunk matched.val idx = .ok found) (tail : Bytes) :
    ∃ found' : Nat ⊕ Fin 8, found = found'.map id Fin.val
      ∧ syncLoop defaultSyncMarker start (chunk ++ tail) matched offset
        = found'.elim some fun matched => syncLoop defaultSyncMarker start
            tail matched (offset + chunk.length) := by
  induction chunk generalizing matched idx offset with
  | nil =>
    cases h
    exact ⟨.inr matched, rfl, rfl⟩
  | cons byte chunk ih =>
    have hnext : offset + (byte :: chunk).length = offset + 1 + chunk.length := by
      rw [length_cons]
      omega
    have hpos' : start + (offset + 1) = scanPos + (idx + 1) := by omega
    rw [chunkLoop_cons] at h
    rw [cons_append, syncLoop, hnext]
    by_cases hbyte : byte = defaultSyncMarker.get matched
    · rw [if_pos hbyte] at h
      rw [if_pos (show byte = defaultSyncMarker[matched] from hbyte)]
      by_cases hend : matched.val + 1 < 8
      · rw [if_neg (show matched.val + 1 ≠ 8 by omega)] at h
        rw [dif_pos hend]
        exact @ih _ _ ⟨matched.val + 1, hend⟩ hpos' h
      · rw [if_pos (show matched.val + 1 = 8 by omega)] at h
        rw [dif_neg hend]
        simp only [Except.bind_eq_ok_iff, addU64_eq_ok_iff, subU64_eq_ok_iff] at h
        obtain ⟨_, ⟨-, rfl⟩, _, ⟨-, rfl⟩, _, ⟨-, rfl⟩, hret⟩ := h
        cases hret
        refine ⟨.inl (scanPos + idx + 1 - 8), rfl, ?_⟩
        rw [hpos]
        rfl
    · rw [if_neg hbyte] at h
      rw [if_neg (show byte ≠ defaultSyncMarker[matched] from hbyte)]
      exact ih hpos' h

theorem buffer_eq_take (data : Bytes) (size scanPos : Nat) :
    slice data scanPos (min 4096 (size - scanPos)) = ((data.take size).drop scanPos).take 4096 := by
  rw [slice, drop_take, take_take]

theorem take_drop_eq_buffer_append (data : Bytes) (size scanPos : Nat) :
    (data.take size).drop scanPos = slice data scanPos (min 4096 (size - scanPos))
        ++ (data.take size).drop (scanPos
          + (slice data scanPos (min 4096 (size - scanPos))).length) := by
  rw [buffer_eq_take, ← drop_drop, length_take]
  generalize (data.take size).drop scanPos = left
  rcases Nat.le_total 4096 left.length with hle | hle
  · rw [Nat.min_eq_left hle, take_append_drop]
  · rw [Nat.min_eq_right hle, drop_length, append_nil, take_of_length_le hle]

theorem markerLoop_eq {data : Bytes} {size scanPos m start offset : Nat}
    {matched : Fin 8} {found : Option Nat} (hpos : start + offset = scanPos) (hm : m = matched.val)
    (h : markerLoop data size scanPos m = .ok found) :
    found = syncLoop defaultSyncMarker start ((data.take size).drop scanPos) matched offset := by
  fun_induction markerLoop data size scanPos m generalizing matched offset with
  | case1 scanPos m _ chunk =>
    rename_i hempty
    cases h
    rw [show chunk = _ from buffer_eq_take data size scanPos, take_eq_nil_iff] at hempty
    rw [hempty.resolve_left (by decide)]
    rfl
  | case2 => cases h
  | case3 scanPos m _ chunk _ p =>
    rename_i hchunk
    subst hm
    cases h
    obtain ⟨found', hfound, hsync⟩ := chunkLoop_eq hpos hchunk
      ((data.take size).drop (scanPos + chunk.length))
    cases found' with
    | inl p' =>
      cases hfound
      rw [take_drop_eq_buffer_append, hsync]
      rfl
    | inr m => cases hfound
  | case4 => cases h
  | case5 scanPos m _ chunk _ _ hchunk next hnext =>
    rename_i ih
    subst hm
    obtain ⟨-, rfl⟩ := addU64_eq_ok_iff.mp hnext
    obtain ⟨found', hfound, hsync⟩ := chunkLoop_eq hpos hchunk
      ((data.take size).drop (scanPos + chunk.length))
    cases found' with
    | inl p' => cases hfound
    | inr m' =>
      cases hfound
      rw [take_drop_eq_buffer_append, hsync]
      exact ih (by omega) rfl h
  | case6 scanPos m hout =>
    cases h
    rw [drop_eq_nil_of_le (by rw [length_take]; omega)]
    rfl

theorem findNextSyncMarkerChecked_eq {start : Nat} {found : Option Nat}
    (h : findNextSyncMarkerChecked data start size = .ok found) :
    found = findNextSyncMarker data start size :=
  @markerLoop_eq data size start 0 start 0 0 found (Nat.add_zero start) rfl h

theorem markerAt_of_take {marker : Vector UInt8 8} {p : Nat}
    (h : MarkerAt marker (data.take size) p) : MarkerAt marker data p := by
  rw [markerAt_iff_isPrefix] at h ⊢
  rw [drop_take] at h
  refine h.trans ?_
  exact take_prefix _ _

theorem readBlockSummaryChecked_of_marker (h : MarkerAt defaultSyncMarker data offset) :
    readBlockSummaryChecked x decode data offset = (do
      let (header, records) ← readBlockBodyChecked x data (offset + 8)
      let len ← addU64 8 header.headerLen.toNat
      let len ← addU64 len header.compressedLen.toNat
      let len ← addU64 len 4
      return some (.ofRecords decode offset len records)) := by
  have hslice : slice data offset 8 = defaultSyncMarker.toList := h
  rw [readBlockSummaryChecked, hslice]
  rfl

theorem readBlockSummaryChecked_ne_none (h : MarkerAt defaultSyncMarker data offset) :
    readBlockSummaryChecked x decode data offset ≠ .ok none := by
  intro hnone
  rw [readBlockSummaryChecked_of_marker x h] at hnone
  simp only [Except.bind_eq_ok_iff, Prod.exists] at hnone
  obtain ⟨_, _, -, _, -, _, -, _, -, hret⟩ := hnone
  cases hret

theorem findNextSyncMarker_gt (hnot : ¬ MarkerAt defaultSyncMarker data offset)
    (hfind : findNextSyncMarker data offset size = some next) : offset < next := by
  obtain ⟨hmarker, -⟩ := findNextSync_some defaultSyncMarker_syncable.repeats hfind
  obtain ⟨hle, -⟩ := findNextSync_bounds hfind
  refine Nat.lt_of_le_of_ne hle ?_
  rintro rfl
  exact hnot (markerAt_of_take hmarker)

theorem findNextSyncMarkerChecked_gt
    (hread : readBlockSummaryChecked x decode data offset = .ok none)
    (hfind : findNextSyncMarkerChecked data offset size = .ok (some next)) : offset < next :=
  findNextSyncMarker_gt (fun hmarker => readBlockSummaryChecked_ne_none x hmarker hread)
    (findNextSyncMarkerChecked_eq hfind).symm

end Logjet.Ljx
