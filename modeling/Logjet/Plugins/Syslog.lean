/-
The framing of the syslog plugin (src/plugins/syslog-ingest/src/lib.rs):
each call cuts the lines that are complete by then. A line is what
`emit_record` gets. The pointers are valid, as the interface demands.
-/
import Mathlib.Data.List.DropRight
import Logjet.Format

namespace Logjet.Syslog

open List

def isAsciiWhitespace (b : UInt8) : Bool :=
  b == 0x20 || b == 0x09 || b == 0x0a || b == 0x0c || b == 0x0d

def stripTrailingWhitespace (data : Bytes) : Bytes := data.rdropWhile isAsciiWhitespace

def drainLines (buf : Bytes) : List Bytes × Bytes :=
  match _h : buf.idxOf? 0x0a with
  | none => ([], buf)
  | some pos =>
    let trimmed := stripTrailingWhitespace (buf.take (pos + 1))
    let (lines, rest) := drainLines (buf.drop (pos + 1))
    (if trimmed.isEmpty then lines else trimmed :: lines, rest)
termination_by buf.length
decreasing_by
  have hpos := (findIdx?_eq_some_iff_findIdx_eq.mp _h).1
  rw [length_drop]
  omega

structure SyslogPlugin where
  buf : Bytes := []

def maxLine : Nat := 256 * 1024

def feed (ctx : SyslogPlugin) (bytes : Bytes) : List Bytes × SyslogPlugin :=
  let (lines, rest) := drainLines (ctx.buf ++ bytes)
  (lines, if rest.length > maxLine then { buf := [] } else { buf := rest })

def feedAll (ctx : SyslogPlugin) : List Bytes → List Bytes
  | [] => []
  | chunk :: chunks =>
    let (lines, ctx) := feed ctx chunk
    lines ++ feedAll ctx chunks

end Logjet.Syslog
