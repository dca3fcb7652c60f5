/-
One filesystem call that fails in `rotate` or in
`advance_empty_active_segment`, doing nothing, with one constructor for
each call whose error is passed on.
-/
import Logjet.Spool.File

namespace Logjet

inductive FsCall
  | write
  | metadata
  | openNext
  | readDir
  | removeFile
  deriving DecidableEq, Repr

variable (x : External)

inductive BufWriter.WriteFails (data : Bytes) (w : BufWriter) : BufWriter → Prop
  | room (hfull : data.length > capacity - w.buf.length) (hbuf : w.buf ≠ []) : WriteFails data w w
  | through {w' : BufWriter} (hcold : ¬ data.length < capacity - w.buf.length)
      (hroom : makeRoom data.length w = .ok () w')
      (hlarge : data.length ≥ capacity) : WriteFails data w w'

inductive LogjetWriter.BlockFails (w : LogjetWriter BufWriter) : LogjetWriter BufWriter → Prop
  | body {body : Bytes} {inner : BufWriter} (hne : w.payloadBuf ≠ [])
      (hbuild : buildBlock x w.config w.payloadBuf w.blockBaseSeq
        w.blockBaseTsUnixNs w.recordCount = .ok body)
      (h : w.inner.WriteFails body inner) : BlockFails w { w with inner }
  | padding {body : Bytes} {inner inner' : BufWriter} (hne : w.payloadBuf ≠ [])
      (hbuild : buildBlock x w.config w.payloadBuf w.blockBaseSeq
        w.blockBaseTsUnixNs w.recordCount = .ok body)
      (hbody : BufWriter.writeAll body w.inner = .ok () inner)
      (hzeroes : padding w.config body.length ≠ [])
      (h : inner.WriteFails (padding w.config body.length) inner') :
      BlockFails w { w with inner := inner' }

namespace FileSpool

inductive RetentionLoopFails : UInt64 → List SegmentInfo → FileSpool → FileSpool → Prop
  | here {excess : UInt64} {segment : SegmentInfo} {segments : List SegmentInfo} {sp : FileSpool}
      (hgoes : ¬ (excess = 0 || segment.id = sp.activeSegmentId) = true) :
      RetentionLoopFails excess (segment :: segments) sp sp
  | later {excess : UInt64} {segment : SegmentInfo}
      {segments : List SegmentInfo} {sp sp₁ sp' : FileSpool}
      (hgoes : ¬ (excess = 0 || segment.id = sp.activeSegmentId) = true)
      (hremove : removeFile segment.path sp = .ok () sp₁) (hrest : RetentionLoopFails
        (let size := (sp.dir.len segment.path).toOption.getD 0
         if size ≤ excess then excess - size else 0) segments sp₁ sp') :
      RetentionLoopFails excess (segment :: segments) sp sp'

def totalBytes (sp : FileSpool) : UInt64 :=
  ((listSegments sp.dir sp.baseStem).filterMap fun segment =>
    (sp.dir.len segment.path).toOption).sum

inductive RetentionFails (sp : FileSpool) : FsCall → FileSpool → Prop
  | readDir (hmax : sp.maxTotalBytes ≠ 0) : RetentionFails sp .readDir sp
  | removeFile {sp' : FileSpool} (hmax : sp.maxTotalBytes ≠ 0)
      (htotal : ¬ sp.totalBytes ≤ sp.maxTotalBytes)
      (h : RetentionLoopFails (sp.totalBytes - sp.maxTotalBytes)
        (listSegments sp.dir sp.baseStem) sp sp') : RetentionFails sp .removeFile sp'

def cutToSize (sp : FileSpool) : FileSpool :=
  sp.withDir (sp.dir.setLen sp.activeWriter.inner.inner.name sp.activeSizeBytes)

def nextUnopened (sp : FileSpool) (id : UInt64) : FileSpool :=
  { sp with activeSegmentId := id
            activeSegmentPath := segmentPath sp.baseStem id }

inductive RotateFails (sp : FileSpool) : FsCall → FileSpool → Prop
  | block {w : LogjetWriter BufWriter} (h : LogjetWriter.BlockFails x sp.activeWriter w) :
      RotateFails sp .write { sp with activeWriter := w }
  | flush {sp₁ : FileSpool} (hblock : onWriter (LogjetWriter.flushBlock x) sp = .ok () sp₁)
      (hbuf : sp₁.activeWriter.inner.buf ≠ []) : RotateFails sp .write sp₁
  | metadata {sp₁ sp₂ : FileSpool} (hblock : onWriter (LogjetWriter.flushBlock x) sp = .ok () sp₁)
      (hflush : onInner BufWriter.flush sp₁ = .ok () sp₂) : RotateFails sp .metadata sp₂
  | openNext {sp₁ sp₂ sp₃ : FileSpool} {id : UInt64}
      (hblock : onWriter (LogjetWriter.flushBlock x) sp = .ok () sp₁)
      (hflush : onInner BufWriter.flush sp₁ = .ok () sp₂)
      (hsize : refreshActiveSize sp₂ = .ok () sp₃)
      (hid : nextSegmentId sp₃.activeSegmentId = .ok id) :
      RotateFails sp .openNext (sp₃.cutToSize.nextUnopened id)
  | retention {sp₁ sp₂ sp₃ sp₄ sp' : FileSpool} {call : FsCall}
      (hblock : onWriter (LogjetWriter.flushBlock x) sp = .ok () sp₁)
      (hflush : onInner BufWriter.flush sp₁ = .ok () sp₂)
      (hsize : refreshActiveSize sp₂ = .ok () sp₃)
      (hnext : openNextSegment sp₃.cutToSize = .ok () sp₄)
      (h : RetentionFails sp₄ call sp') : RotateFails sp call sp'

inductive AdvanceFails (sp : FileSpool) : FsCall → FileSpool → Prop
  | block {w : LogjetWriter BufWriter} (h : LogjetWriter.BlockFails x sp.activeWriter w) :
      AdvanceFails sp .write { sp with activeWriter := w }
  | openNext {sp₁ : FileSpool} {id : UInt64}
      (hblock : onWriter (LogjetWriter.flushBlock x) sp = .ok () sp₁)
      (hid : nextSegmentId sp₁.activeSegmentId = .ok id) :
      AdvanceFails sp .openNext (sp₁.nextUnopened id)
  | removeFile {sp₁ sp₂ : FileSpool} (hblock : onWriter (LogjetWriter.flushBlock x) sp = .ok () sp₁)
      (hnext : openNextSegment sp₁ = .ok () sp₂)
      (hroom : ((sp₁.dir.get? sp₁.activeWriter.inner.inner.name).getD
        []).length + sp₁.activeWriter.inner.buf.length ≤ File.maxLen)
      (hhas : sp₂.dir.has sp₁.activeSegmentPath) : AdvanceFails sp .removeFile sp₂

end FileSpool

end Logjet
