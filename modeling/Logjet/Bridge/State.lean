/-
The text of a bridge's state file (replay.rs `write_bridge_state`,
`parse_bridge_state`), written in one call that may leave any beginning of it.
-/
import Logjet.Lib.Utf8
import Logjet.Spool.File
import Logjet.Bridge.Session

namespace Logjet

open Utf8

def streamIdText : Option UInt64 → Text
  | some value => toText value
  | none => "unset".toList

def bridgeStateText (state : BridgeState) : Text :=
  "stream_id=".toList ++ streamIdText state.streamId ++ ['\n']
    ++ "last_seq=".toList ++ toText state.lastSeq ++ ['\n']

structure StateFields where
  streamId : Option (Option UInt64) := none
  lastSeq : Option UInt64 := none
  deriving DecidableEq, Repr

def parseStateLine (fields : StateFields) (line : Text) : Except IoError StateFields :=
  match splitOnce '=' line with
  | none => .ok fields
  | some (key, value) =>
    if trim key = "stream_id".toList then
      if trim value = "unset".toList then
        .ok { fields with streamId := some none }
      else do
        let streamId ← parseNumber "invalid bridge state stream_id: " value
        return { fields with streamId := some (some streamId) }
    else if trim key = "last_seq".toList then do
      let lastSeq ← parseNumber "invalid bridge state last_seq: " value
      return { fields with lastSeq := some lastSeq }
    else .ok fields

def StateFields.finish (fields : StateFields) : Except IoError BridgeState :=
  match fields.lastSeq with
  | none => .error ⟨.invalidData, "invalid bridge state: missing last_seq"⟩
  | some lastSeq => .ok { streamId := fields.streamId.getD none, lastSeq }

def parseBridgeState (text : Text) : Except IoError BridgeState :=
  match parseU64 (trim text) with
  | .ok lastSeq => .ok { streamId := none, lastSeq }
  | .error _ => do
      let fields ← (lines text).foldlM parseStateLine {}
      fields.finish

end Logjet
