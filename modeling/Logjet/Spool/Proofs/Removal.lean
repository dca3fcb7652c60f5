/-
Removing files, and the segments a directory lists (`Directory.without`).
-/
import Logjet.Spool.Proofs.Disk

namespace Logjet

open List

namespace Directory

variable {d : Directory} {name : Text} {content : Bytes}

def without (d : Directory) (names : List Text) : Directory := names.foldl erase d

theorem get?_without (names : List Text) (n : Text) :
    (d.without names).get? n = if n ∈ names then none else d.get? n := by
  induction names generalizing d with
  | nil => simp [without]
  | cons name names ih =>
    have hcons : d.without (name :: names) = (d.erase name).without names := rfl
    rw [hcons, ih, get?_erase]
    by_cases hn : n = name <;> simp [hn]

def size (d : Directory) (name : Text) : Nat := ((d.get? name).getD []).length

theorem size_erase_of_ne {n : Text} (h : n ≠ name) : (d.erase name).size n = d.size n := by
  rw [size, size, get?_erase, if_neg h]

theorem len_eq (h : d.has name = true) : d.len name = .ok (UInt64.ofNat (d.size name)) := by
  obtain ⟨content, hget⟩ := Option.isSome_iff_exists.mp h
  rw [len, size, hget]
  rfl

theorem removeFile_eq (h : d.has name = true) : d.removeFile name = .ok (d.erase name) := if_pos h

theorem has_erase_of_ne {n : Text} (h : n ≠ name) : (d.erase name).has n = d.has n := by
  rw [has, has, get?_erase, if_neg h]

theorem has_iff : d.has name = true ↔ name ∈ d.files.map Prod.fst := by
  rw [has, Option.isSome_iff_ne_none, ne_eq, get?_eq_none_iff, not_not]

end Directory

variable {d : Directory} {stem : Text}

theorem mem_listSegments {s : SegmentInfo} : s ∈ listSegments d stem
      ↔ d.has s.path = true ∧ parseSegmentId s.path stem = some s.id := by
  unfold listSegments
  rw [mem_insertionSort, mem_filterMap, Directory.has_iff]
  constructor
  · rintro ⟨name, hname, hinfo⟩
    obtain ⟨id, hid, rfl⟩ := Option.map_eq_some_iff.mp hinfo
    exact ⟨hname, hid⟩
  · rintro ⟨hname, hid⟩
    exact ⟨s.path, hname, by rw [segmentInfo, hid]; rfl⟩

theorem nodup_listSegments (d : Directory) (stem : Text) :
    ((listSegments d stem).map SegmentInfo.path).Nodup := by
  have hperm := (perm_insertionSort (fun a b : SegmentInfo => a.id ≤ b.id)
    ((d.files.map Prod.fst).filterMap (segmentInfo stem))).map SegmentInfo.path
  refine hperm.nodup_iff.mpr ?_
  have hsub : (((d.files.map Prod.fst).filterMap (segmentInfo stem)).map
      SegmentInfo.path).Sublist (d.files.map Prod.fst) := by
    generalize d.files.map Prod.fst = names
    induction names with
    | nil => exact .slnil
    | cons name names ih =>
      rw [filterMap_cons]
      cases hid : parseSegmentId name stem with
      | none =>
        simp only [segmentInfo, hid, Option.map_none]
        exact ih.cons _
      | some id =>
        simp only [segmentInfo, hid, Option.map_some]
        exact ih.cons_cons _
  exact d.nodup.sublist hsub

def segmentsSize (d : Directory) (segments : List SegmentInfo) : Nat :=
  (segments.map fun s => d.size s.path).sum

end Logjet
