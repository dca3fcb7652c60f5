/-
The file spool (src/logjetd/src/spool.rs, `FileSpool`). Records go through a
`LogjetWriter` and a `BufWriter` into the active segment; reading goes by the
directory and does not see what is in either buffer. An error leaves what was
done before it (`EStateM`).
-/
import Mathlib.Data.UInt
import Mathlib.Data.List.Sort
import Logjet.Reader
import Logjet.Spool.Disk

namespace Logjet

def logjetSuffix : Text := ".logjet".toList

def deriveBaseStem (fileName : Text) : Text :=
  if logjetSuffix.isSuffixOf fileName then
    fileName.take (fileName.length - logjetSuffix.length)
  else fileName

def parseSegmentId (name baseStem : Text) : Option UInt64 :=
  if name = baseStem ++ logjetSuffix then some 0
  else
    let start := baseStem ++ ['-']
    if !start.isPrefixOf name || !logjetSuffix.isSuffixOf name then none
    else
      let value := (name.take (name.length - logjetSuffix.length)).drop start.length
      (parseU64 value).toOption

def segmentPath (baseStem : Text) (id : UInt64) : Text :=
  if id = 0 then baseStem ++ logjetSuffix
  else baseStem ++ ['-'] ++ toText id ++ logjetSuffix

structure SegmentInfo where
  id : UInt64
  path : Text
  deriving DecidableEq, Repr

def segmentInfo (baseStem name : Text) : Option SegmentInfo :=
  (parseSegmentId name baseStem).map fun id => ⟨id, name⟩

def listSegments (dir : Directory) (baseStem : Text) : List SegmentInfo :=
  ((dir.files.map Prod.fst).filterMap (segmentInfo baseStem)).insertionSort fun a b => a.id ≤ b.id

def nextSegmentId (id : UInt64) : Except IoError UInt64 :=
  if id.toNat + 1 < 2 ^ 64 then .ok (id + 1)
  else .error ⟨.invalidData, "segment id overflow"⟩

def toIoError (err : Error) : IoError := ⟨.invalidData, err.display⟩

def parseNumber (heading : String) (text : Text) : Except IoError UInt64 :=
  match parseU64 (trim text) with
  | .ok value => .ok value
  | .error err => .error ⟨.invalidData, heading ++ err.display⟩

def readConsumedState (dir : Directory) (path : Text) : Except IoError UInt64 :=
  if !dir.has path then .ok 0
  else do
    let text ← dir.readToString path
    parseNumber "invalid consumed state: " text

def writeConsumedState (dir : Directory) (path : Text) (seq : UInt64) : Directory :=
  dir.write path (utf8 (toText seq))

def readOrCreateStreamId (dir : Directory) (path : Text) (fresh : UInt64) :
    Except IoError (UInt64 × Directory) :=
  if dir.has path then do
    let text ← dir.readToString path
    let streamId ← parseNumber "invalid stream id: " text
    return (streamId, dir)
  else .ok (fresh, dir.write path (utf8 (toText fresh)))

variable (x : External)

def forRecords {β : Type} (body : OwnedRecord → β → ForInStep β) (acc : β)
    (r : LogjetReader) : Except Error β :=
  match _h : nextRecord x r with
  | .error err _ => .error err
  | .ok none _ => .ok acc
  | .ok (some record) r' =>
    match body record acc with
    | .done acc => .ok acc
    | .yield acc => forRecords body acc r'
termination_by r.remaining
decreasing_by exact nextRecord_uses x _h

def forSegment {β : Type} (dir : Directory) (path : Text)
    (body : OwnedRecord → β → ForInStep β) (acc : β) : Except IoError β := do
  let data ← dir.read path
  let reader := LogjetReader.withConfig data .default
  (forRecords x body acc reader).mapError toIoError

def segmentMaxSeq (dir : Directory) (path : Text) : Except IoError (Option UInt64) :=
  forSegment x dir path (fun record _ => .yield (some record.seq)) none

def segmentFirstAbove (dir : Directory) (path : Text) (floor : UInt64) :
    Except IoError (Option WireRecord) :=
  forSegment x dir path (fun record _ =>
      if record.seq ≤ floor then .yield none else .done (some record)) none

structure FileConfig where
  name : Text
  segmentSizeBytes : UInt64
  codec : Codec
  maxTotalBytes : UInt64
  blockAlignment : Nat
  deriving DecidableEq, Repr

structure FileSpool where
  baseStem : Text
  statePath : Text
  streamId : UInt64
  activeSegmentId : UInt64
  activeSegmentPath : Text
  activeWriter : LogjetWriter BufWriter
  activeSizeBytes : UInt64
  segmentTargetBytes : UInt64
  codec : Codec
  blockAlignment : Nat
  maxTotalBytes : UInt64
  consumedThroughSeq : UInt64
  deriving DecidableEq, Repr

structure FileReplayCursor where
  nextSegmentIdHint : UInt64
  lastSeq : UInt64
  deriving DecidableEq, Repr

def segmentWriterConfig (codec : Codec) (blockAlignment : Nat) : WriterConfig :=
  { WriterConfig.default with codec, blockAlignment }

namespace FileSpool

def dir (sp : FileSpool) : Directory := sp.activeWriter.inner.inner.dir

def withDir (sp : FileSpool) (dir : Directory) : FileSpool :=
  { sp with activeWriter := { sp.activeWriter with
      inner := { sp.activeWriter.inner with
        inner := { sp.activeWriter.inner.inner with dir } } } }

def onWriter {α : Type} (act : EStateM Error (LogjetWriter BufWriter) α) :
    EStateM IoError FileSpool α :=
  fun sp =>
  match act sp.activeWriter with
  | .ok a w => .ok a { sp with activeWriter := w }
  | .error err w => .error (toIoError err) { sp with activeWriter := w }

def onInner {α : Type} (act : EStateM IoError BufWriter α) :
    EStateM IoError FileSpool α :=
  fun sp =>
  match act sp.activeWriter.inner with
  | .ok a inner => .ok a { sp with activeWriter := { sp.activeWriter with inner } }
  | .error err inner => .error err { sp with activeWriter := { sp.activeWriter with inner } }

def removeFile (path : Text) : EStateM IoError FileSpool Unit := do
  let self ← get
  let dir ← EStateM.ofExcept (self.dir.removeFile path)
  set (self.withDir dir)

def refreshActiveSize : EStateM IoError FileSpool Unit := do
  let self ← get
  let len ← EStateM.ofExcept (self.dir.len self.activeSegmentPath)
  set { self with activeSizeBytes := len }

def replaceWriter (self : FileSpool) : FileSpool :=
  let opened := self.withDir (self.dir.create self.activeSegmentPath)
  let dir := opened.activeWriter.inner.close
  { self with
    activeWriter := LogjetWriter.withConfig
      (BufWriter.new { dir, name := self.activeSegmentPath })
      (segmentWriterConfig self.codec self.blockAlignment)
    activeSizeBytes := 0 }

def openNextSegment : EStateM IoError FileSpool Unit := do
  let self ← get
  let id ← EStateM.ofExcept (nextSegmentId self.activeSegmentId)
  set (replaceWriter { self with
    activeSegmentId := id
    activeSegmentPath := segmentPath self.baseStem id })

def retentionLoop (excess : UInt64) : List SegmentInfo → EStateM IoError FileSpool Unit
  | [] => pure ()
  | segment :: segments => do
      let self ← get
      if excess = 0 || segment.id = self.activeSegmentId then
        pure ()
      else
        let size := (self.dir.len segment.path).toOption.getD 0
        removeFile segment.path
        retentionLoop (if size ≤ excess then excess - size else 0) segments

def enforceRetention : EStateM IoError FileSpool Unit := do
  let self ← get
  if self.maxTotalBytes = 0 then
    pure ()
  else
    let segments := listSegments self.dir self.baseStem
    let total := (segments.filterMap fun segment => (self.dir.len segment.path).toOption).sum
    if total ≤ self.maxTotalBytes then pure ()
    else retentionLoop (total - self.maxTotalBytes) segments

def rotate : EStateM IoError FileSpool Unit := do
  onWriter (LogjetWriter.flushBlock x)
  onInner BufWriter.flush
  refreshActiveSize
  let self ← get
  set (self.withDir (self.dir.setLen self.activeWriter.inner.inner.name self.activeSizeBytes))
  openNextSegment
  enforceRetention

def rotateIfFull : EStateM IoError FileSpool Unit := do
  let self ← get
  if self.activeSizeBytes ≥ self.segmentTargetBytes ∧ self.activeSizeBytes > 0 then
    rotate x

def rotateIfReached : EStateM IoError FileSpool Unit := do
  let self ← get
  let effectiveSize := self.activeSizeBytes + UInt64.ofNat self.activeWriter.pendingBytes
  if effectiveSize ≥ self.segmentTargetBytes then
    rotate x

def append (record : WireRecord) : EStateM IoError FileSpool Unit := do
  rotateIfFull x
  onWriter (LogjetWriter.push x record)
  refreshActiveSize
  rotateIfReached x

def flushPending : EStateM IoError FileSpool Unit := do
  onWriter (LogjetWriter.flushBlock x)
  onInner BufWriter.flush
  refreshActiveSize

def replayCursorAfter (lastSeq : UInt64) : FileReplayCursor := { nextSegmentIdHint := 0, lastSeq }

def nextInSegments (dir : Directory) (floor : UInt64) :
    List SegmentInfo → EStateM IoError FileReplayCursor (Option WireRecord)
  | [] => return none
  | segment :: segments => do
      let cursor ← get
      if segment.id < cursor.nextSegmentIdHint then
        nextInSegments dir floor segments
      else
        let found ← EStateM.ofExcept (segmentFirstAbove x dir segment.path floor)
        match found with
        | some record =>
          set { nextSegmentIdHint := segment.id
                lastSeq := record.seq : FileReplayCursor }
          return some record
        | none =>
          set { cursor with nextSegmentIdHint := segment.id }
          nextInSegments dir floor segments

def nextForCursor (self : FileSpool) : EStateM IoError FileReplayCursor (Option WireRecord) := do
  let cursor ← get
  let floor := max cursor.lastSeq self.consumedThroughSeq
  nextInSegments x self.dir floor (listSegments self.dir self.baseStem)

def boundsStep (consumed : UInt64) (record : OwnedRecord) (bounds : Option UInt64 × Option UInt64) :
    ForInStep (Option UInt64 × Option UInt64) :=
  if record.seq ≤ consumed then .yield bounds
  else .yield (bounds.1.or (some record.seq), some record.seq)

def sequenceBounds (self : FileSpool) : Except IoError (Option (UInt64 × UInt64)) := do
  let bounds ← (listSegments self.dir self.baseStem).foldlM
    (fun bounds segment => forSegment x self.dir segment.path
      (boundsStep self.consumedThroughSeq) bounds) (none, none)
  match bounds with
  | (some firstSeq, some lastSeq) => return some (firstSeq, lastSeq)
  | _ => return none

def advanceEmptyActiveSegment : EStateM IoError FileSpool Unit := do
  onWriter (LogjetWriter.flushBlock x)
  let oldPath := (← get).activeSegmentPath
  openNextSegment
  let self ← get
  if self.dir.has oldPath then removeFile oldPath

def cleanupSegment (segment : SegmentInfo) : EStateM IoError FileSpool Unit := do
  let self ← get
  let found ← EStateM.ofExcept (segmentMaxSeq x self.dir segment.path)
  match found with
  | none => pure ()
  | some maxSeq =>
    if maxSeq > self.consumedThroughSeq then pure ()
    else if segment.id = self.activeSegmentId then
      advanceEmptyActiveSegment x
    else removeFile segment.path

def cleanupLoop : List SegmentInfo → EStateM IoError FileSpool Unit
  | [] => pure ()
  | segment :: segments => do
      cleanupSegment x segment
      cleanupLoop segments

def cleanupConsumedSegments : EStateM IoError FileSpool Unit := do
  let self ← get
  cleanupLoop x (listSegments self.dir self.baseStem)

def consumeThrough (seq : UInt64) : EStateM IoError FileSpool Unit := do
  let self ← get
  if seq ≤ self.consumedThroughSeq then
    pure ()
  else
    let self := { self with consumedThroughSeq := seq }
    set (self.withDir (writeConsumedState self.dir self.statePath seq))
    cleanupConsumedSegments x

def chooseActive (config : FileConfig) (baseStem : Text) (dir : Directory) :
    Option SegmentInfo → Except IoError (UInt64 × Text × UInt64)
  | some segment => do
      let size ← dir.len segment.path
      if size < config.segmentSizeBytes then
        return (segment.id, segment.path, size)
      else
        let nextId ← nextSegmentId segment.id
        return (nextId, segmentPath baseStem nextId, 0)
  | none => return (0, segmentPath baseStem 0, 0)

def openActive (config : FileConfig) (fresh : UInt64) (dir : Directory) :
    Except IoError FileSpool := do
  let baseStem := deriveBaseStem config.name
  let statePath := baseStem ++ ".state".toList
  let segments := listSegments dir baseStem
  let consumedThroughSeq ← readConsumedState dir statePath
  let (streamId, dir) ← readOrCreateStreamId dir (baseStem ++ ".stream-id".toList) fresh
  let (activeSegmentId, activeSegmentPath, activeSizeBytes) ←
    chooseActive config baseStem dir segments.getLast?
  let file : File := { dir := dir.create activeSegmentPath, name := activeSegmentPath }
  return { baseStem, statePath, streamId, activeSegmentId,
           activeSegmentPath, activeSizeBytes, consumedThroughSeq
           activeWriter := LogjetWriter.withConfig (BufWriter.new file)
             (segmentWriterConfig config.codec config.blockAlignment)
           segmentTargetBytes := config.segmentSizeBytes
           codec := config.codec
           blockAlignment := config.blockAlignment
           maxTotalBytes := config.maxTotalBytes }

def openIn (config : FileConfig) (fresh : UInt64) (dir : Directory) : Except IoError FileSpool := do
  let self ← openActive config fresh dir
  match cleanupConsumedSegments x self with
  | .ok () self => return self
  | .error err _ => throw err

def drop (self : FileSpool) : Directory :=
  match LogjetWriter.flushBlock x self.activeWriter with
  | .ok () w => w.inner.close
  | .error _ w => w.inner.close

end FileSpool

end Logjet
