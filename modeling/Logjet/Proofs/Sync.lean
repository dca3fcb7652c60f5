/-
For which markers the sync search finds the first occurrence: those that
repeat themselves wherever their first byte stands (`Repeats`).
-/
import Mathlib.Order.Bounds.Basic
import Logjet.Proofs.Scan

namespace Logjet

open List hiding Vector

variable {marker : Vector UInt8 8}

def FindsFirst (marker : Vector UInt8 8) (data : Bytes) (pos : Nat) : Prop :=
  (∀ p, findNextSync marker data pos = some p ↔ IsLeast {q | pos ≤ q ∧ MarkerAt marker data q} p)
  ∧ (findNextSync marker data pos = none ↔ ∀ q, pos ≤ q → ¬ MarkerAt marker data q)

theorem Repeats.findsFirst (hm : Repeats marker) (data : Bytes)
    (pos : Nat) : FindsFirst marker data pos := by
  have hsome : ∀ p, findNextSync marker data pos = some p →
      IsLeast {q | pos ≤ q ∧ MarkerAt marker data q} p := by
    intro p hfind
    obtain ⟨hat, hno⟩ := findNextSync_some hm hfind
    refine ⟨⟨(findNextSync_bounds hfind).1, hat⟩, ?_⟩
    intro q ⟨hle, hq⟩
    by_contra hlt
    exact hno q hle (by omega) hq
  refine ⟨fun p => ⟨hsome p, ?_⟩, ?_, ?_⟩
  · intro hleast
    cases hfind : findNextSync marker data pos with
    | none => exact absurd hleast.1.2 (findNextSync_none hm hfind hleast.1.1)
    | some p' => rw [(hsome p' hfind).unique hleast]
  · intro hfind q hle
    exact findNextSync_none hm hfind hle
  · intro hnone
    cases hfind : findNextSync marker data pos with
    | none => rfl
    | some p => exact absurd (hsome p hfind).1.2 (hnone p (hsome p hfind).1.1)

theorem syncLoop_take {start offset : Nat} {rest : Bytes} (m : Fin 8) :
    syncLoop marker start (marker.toList.take m.val ++ rest) 0 offset
      = syncLoop marker start rest m (offset + m.val) := by
  obtain ⟨m, hm⟩ := m
  induction m generalizing rest with
  | zero => rfl
  | succ m ih =>
    rw [take_succ_eq_append_getElem (by simp; omega),
      append_assoc, ih (by omega), singleton_append, syncLoop, if_pos (by simp), dif_pos hm]
    rfl

theorem syncLoop_from {start : Nat} {rest : Bytes} {matched : Fin 8}
    {offset p : Nat} (hmatched : matched.val ≤ offset)
    (h : syncLoop marker start rest matched offset = some p) :
    start + offset ≤ p + matched.val := by
  induction rest generalizing matched offset with
  | nil => cases h
  | cons candidate rest ih =>
    simp only [syncLoop] at h
    split at h
    · split at h
      · have hp := ih (by simpa using hmatched) h
        simp only at hp
        omega
      · cases h
        omega
    · have hstart : (if candidate = marker[0] then (1 : Fin 8) else 0).val ≤ 1 := by split <;> simp
      have hp := ih (by omega) h
      omega

def overlap (marker : Vector UInt8 8) (p k : Nat) : Bytes :=
  marker.toList.take (p + k) ++ marker.toList.drop k

theorem findNextSync_overlap {pre : Bytes} {p k : Nat} (hk : 0 < k) (hpk : p + k < 8)
    (hdiffer : marker.toList[k]? ≠ marker.toList[p + k]?) :
    findNextSync marker (pre ++ overlap marker p k) pre.length = none := by
  have hcons : marker.toList.drop k = marker[k] :: marker.toList.drop (k + 1) := by
    rw [drop_eq_getElem_cons (by simp; omega)]
    simp
  have hne : marker[k] ≠ marker[(⟨p + k, hpk⟩ : Fin 8)] := by
    intro heq
    apply hdiffer
    rw [Vector.getElem?_toList, Vector.getElem?_toList,
      Vector.getElem?_eq_getElem (by omega), Vector.getElem?_eq_getElem hpk, heq]
    rfl
  rw [findNextSync, drop_left, overlap,
    syncLoop_take (⟨p + k, hpk⟩ : Fin 8), hcons, syncLoop, if_neg hne]
  cases hfind : syncLoop marker pre.length (marker.toList.drop (k + 1))
      (if marker[k] = marker[0] then 1 else 0) (0 + (p + k) + 1) with
  | none => rfl
  | some q =>
    have hstart : (if marker[k] = marker[0] then (1 : Fin 8) else 0).val ≤ 1 := by split <;> simp
    have hfrom := syncLoop_from (by omega) hfind
    have hend := (syncLoop_bounds (by omega) hfind).2
    simp only [length_drop, Vector.length_toList] at hend
    omega

theorem markerAt_overlap {pre : Bytes} {p k : Nat} (hpk : p + k < 8)
    (hsame : ∀ j < k, marker.toList[j]? = marker.toList[p + j]?) :
    MarkerAt marker (pre ++ overlap marker p k) (pre.length + p) := by
  have hlen : (marker.toList.take (p + k)).length = p + k := by
    simp
    omega
  have htake : (marker.toList.take (p + k)).drop p = marker.toList.take k := by
    apply ext_getElem?
    intro j
    by_cases hj : j < k
    · rw [getElem?_drop, getElem?_take_of_lt (by omega), getElem?_take_of_lt hj, hsame j hj]
    · rw [getElem?_drop, getElem?_take_eq_none (by omega), getElem?_take_eq_none (by omega)]
  rw [markerAt_iff_isPrefix, ← drop_drop, drop_left, overlap,
    drop_append_of_le_length (by omega), htake, take_append_drop]

theorem exists_overlap (hm : ¬ Repeats marker) :
    ∃ p k, 0 < k ∧ p + k < 8 ∧ marker.toList[k]? ≠ marker.toList[p + k]?
      ∧ ∀ j < k, marker.toList[j]? = marker.toList[p + j]? := by
  have hsome : ∃ p : Fin 8, marker.get p = marker.get 0
      ∧ ¬ marker.toList.drop p.val <+: marker.toList := by
    by_contra hall
    push Not at hall
    exact hm ⟨hall⟩
  obtain ⟨p, hfirst, hpre⟩ := hsome
  have hdiffer : ∃ k, p.val + k < 8 ∧ marker.toList[k]? ≠ marker.toList[p.val + k]? := by
    by_contra hnone
    push Not at hnone
    apply hpre
    rw [prefix_iff_getElem?]
    intro k hk
    rw [length_drop, Vector.length_toList] at hk
    rw [hnone k (by omega), getElem_drop, getElem?_eq_getElem]
  classical
  obtain ⟨hlt, hne⟩ := Nat.find_spec hdiffer
  refine ⟨p.val, Nat.find hdiffer, ?_, hlt, hne, ?_⟩
  · rw [Nat.pos_iff_ne_zero]
    intro hzero
    rw [hzero] at hne
    apply hne
    have hget : marker[p.val] = marker[0] := hfirst
    simp [hget]
  · intro j hj
    by_contra hno
    exact Nat.find_min hdiffer hj ⟨by omega, hno⟩

/-- One pass finds the first marker iff the marker `Repeats`. -/
theorem find_next_sync_first_iff (marker : Vector UInt8 8) (pos : Nat) :
    (∀ data, FindsFirst marker data pos) ↔ Repeats marker := by
  constructor
  · intro hall
    by_contra hm
    obtain ⟨p, k, hk, hpk, hdiffer, hsame⟩ := exists_overlap hm
    have hfirst := hall (List.replicate pos 0 ++ overlap marker p k)
    have hlen : (List.replicate pos (0 : UInt8)).length = pos := length_replicate
    have hnone := @findNextSync_overlap marker (List.replicate pos 0) p k hk hpk hdiffer
    have hat := @markerAt_overlap marker (List.replicate pos 0) p k hpk hsame
    rw [hlen] at hnone hat
    exact hfirst.2.mp hnone (pos + p) (Nat.le_add_right _ _) hat
  · intro hm data
    exact hm.findsFirst data pos

theorem find_next_sync_misses_marker : ¬ FindsFirst #v[65, 65, 65, 65, 65, 65, 65, 66]
      [65, 65, 65, 65, 65, 65, 65, 65, 66] 0 := by
  intro hfirst
  exact hfirst.2.mp (by decide) 1 (by decide) (by decide)

end Logjet
