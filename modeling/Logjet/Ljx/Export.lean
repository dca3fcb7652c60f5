/-
Writing a selection of records in the order of the view
(src/ljx/src/commands/view/scan.rs). A block cannot hold a record below its
base, so the writer has it cut before one that falls behind the last.
-/
import Logjet.Writer

namespace Logjet.Ljx

variable {W : Type}

structure ExportWriter (W : Type) where
  logjet : LogjetWriter W
  blockLast : Option (UInt64 × UInt64)
  deriving DecidableEq, Repr

namespace ExportWriter

def onLogjet {α : Type} (act : EStateM Error (LogjetWriter W) α) :
    EStateM Error (ExportWriter W) α :=
  fun e =>
  match act e.logjet with
  | .ok a logjet => .ok a { e with logjet }
  | .error err logjet => .error err { e with logjet }

def fallsBehind (e : ExportWriter W) (record : OwnedRecord) : Bool :=
  e.logjet.pendingBytes > 0 &&
    match e.blockLast with
    | some (lastSeq, lastTs) => record.seq < lastSeq || record.tsUnixNs < lastTs
    | none => false

def noteLast (record : OwnedRecord) (e : ExportWriter W) : ExportWriter W :=
  if e.logjet.pendingBytes = 0 then { e with blockLast := none }
  else { e with blockLast := some (record.seq, record.tsUnixNs) }

variable [Sink W] (x : External)

def cutIfBehind (record : OwnedRecord) : EStateM Error (ExportWriter W) Unit := do
  let self ← get
  if self.fallsBehind record then
    onLogjet (LogjetWriter.flushBlock x)
    modify fun e => { e with blockLast := none }

def pushPreservingViewOrder (record : OwnedRecord) : EStateM Error (ExportWriter W) Unit := do
  cutIfBehind x record
  onLogjet (LogjetWriter.push x record)
  modify (noteLast record)

def pushSelection : List OwnedRecord → EStateM Error (ExportWriter W) Unit
  | [] => pure ()
  | record :: records => do
      pushPreservingViewOrder x record
      pushSelection records

end ExportWriter

def writeExportSelection [Sink W] (x : External) (config : WriterConfig)
    (inner : W) (records : List OwnedRecord) : Except Error W :=
  match ExportWriter.pushSelection x records ⟨.withConfig inner config, none⟩ with
  | .ok () e => LogjetWriter.intoInner x e.logjet
  | .error err _ => .error err

end Logjet.Ljx
