/-
`build` and its loop with every operation that can trap
(src/ljx/src/dataset_index.rs). That the loop moves on, so that it ends, rests
on where the marker search stops.
-/
import Logjet.Ljx.Proofs.Marker

namespace Logjet.Ljx

open Trap

variable (x : External)

def buildLoopChecked (decode : DecodeLogs) (data : Bytes)
    (size offset : Nat) : Checked (List IndexBlock) :=
  if offset < size then
    match _hread : readBlockSummaryChecked x decode data offset with
    | .error stop => .error stop
    | .ok (some block) =>
      match _hnext : (addU64 block.offset block.len : Checked Nat) with
      | .error stop => .error stop
      | .ok next => do
          let blocks ← buildLoopChecked decode data size next
          return block :: blocks
    | .ok none =>
      match _hfind : findNextSyncMarkerChecked data offset size with
      | .error stop => .error stop
      | .ok (some next) => buildLoopChecked decode data size next
      | .ok none => .ok []
  else .ok []
termination_by size - offset
decreasing_by
  · obtain ⟨-, rfl⟩ := addU64_eq_ok_iff.mp _hnext
    obtain ⟨hoffset, hlen⟩ := readBlockSummaryChecked_len x _hread
    omega
  · have hgt := findNextSyncMarkerChecked_gt x _hread _hfind
    omega

def buildChecked (decode : DecodeLogs) (data : Bytes) (size : UInt64)
    (modifiedNs : Option UInt64) : Checked DatasetIndex := do
  let blocks ← buildLoopChecked x decode data size.toNat 0
  if blocks.isEmpty then
    throw (.failed (.logjet (.invalidHeader "missing block sync")))
  else
    return { summary := .ofBlocks size.toNat modifiedNs blocks, blocks }

end Logjet.Ljx
