/-
`ljd segments` and `ljd prune` (spool.rs `summarise_named_segments`,
`prune_named_segments`), on the directory alone.
-/
import Logjet.Spool.File

namespace Logjet

structure SegmentSummary where
  id : UInt64
  path : Text
  sizeBytes : UInt64
  recordCount : UInt64
  firstSeq : Option UInt64
  lastSeq : Option UInt64
  deriving DecidableEq, Repr

structure SeqRange where
  recordCount : UInt64 := 0
  firstSeq : Option UInt64 := none
  lastSeq : Option UInt64 := none
  deriving DecidableEq, Repr

def SeqRange.add (record : OwnedRecord) (range : SeqRange) : ForInStep SeqRange :=
  .yield { recordCount := saturatingSucc range.recordCount
           firstSeq := range.firstSeq.or (some record.seq)
           lastSeq := some record.seq }

variable (x : External)

def summariseSegment (dir : Directory) (segment : SegmentInfo) : Except IoError SegmentSummary := do
  let range ← forSegment x dir segment.path SeqRange.add {}
  let sizeBytes ← dir.len segment.path
  return { id := segment.id, path := segment.path, sizeBytes,
           recordCount := range.recordCount, firstSeq := range.firstSeq
           lastSeq := range.lastSeq }

def summariseNamedSegments (dir : Directory) (fileName : Text) :
    Except IoError (List SegmentSummary) :=
  (listSegments dir (deriveBaseStem fileName)).mapM (summariseSegment x dir)

def saturatingAdd (a b : UInt64) : UInt64 :=
  if a.toNat + b.toNat < 2 ^ 64 then a + b else UInt64.ofNat (2 ^ 64 - 1)

def keepFlags (limitBytes : UInt64) : List SegmentSummary → UInt64 × List Bool
  | [] => (0, [])
  | summary :: behind =>
    let (keptTotal, flags) := keepFlags limitBytes behind
    if behind.isEmpty || keptTotal < limitBytes then
      (saturatingAdd keptTotal summary.sizeBytes, true :: flags)
    else (keptTotal, false :: flags)

def removedByCount (limit : Nat) (summaries : List SegmentSummary) :
    List Text :=
  let keep := max limit 1
  if summaries.length > keep then
    (summaries.take (summaries.length - keep)).map SegmentSummary.path
  else []

def removedByBytes (limitBytes : UInt64) (summaries : List SegmentSummary) : List Text :=
  (summaries.zip (keepFlags limitBytes summaries).2).filterMap
    fun (summary, keep) => if keep then none else some summary.path

def removeFiles : List Text → EStateM IoError Directory Unit
  | [] => pure ()
  | path :: paths => do
      let dir ← get
      let dir ← EStateM.ofExcept (dir.removeFile path)
      set dir
      removeFiles paths

def pruneSelection (dir : Directory) (fileName : Text)
    (keepFiles : Option Nat) (keepBytes : Option UInt64) : Except IoError (List Text) := do
  if keepFiles.isNone && keepBytes.isNone then
    throw ⟨.invalidInput, "set --keep-files or --keep-bytes"⟩
  else if keepFiles.isSome && keepBytes.isSome then
    throw ⟨.invalidInput, "use either --keep-files or --keep-bytes, not both"⟩
  else
    let summaries ← summariseNamedSegments x dir fileName
    if summaries.length ≤ 1 then return []
    else
      match keepFiles, keepBytes with
      | some limit, _ => return removedByCount limit summaries
      | none, some limitBytes => return removedByBytes limitBytes summaries
      | none, none => return []

def pruneNamedSegments (fileName : Text) (keepFiles : Option Nat)
    (keepBytes : Option UInt64) (dryRun : Bool) : EStateM IoError Directory (List Text) := do
  let dir ← get
  let removedPaths ← EStateM.ofExcept (pruneSelection x dir fileName keepFiles keepBytes)
  if !dryRun then removeFiles removedPaths
  return removedPaths

end Logjet
