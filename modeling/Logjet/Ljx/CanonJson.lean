/-
JSON bodies in their canonical form (src/ljx/src/dedup/canon_json.rs).
`serde_json` and floats are parameters. An object is the list of its
members in the order of its map, whatever that is.
-/
import Logjet.Text
import Logjet.Lib.HashMap
import Logjet.Lib.Json
import Mathlib.Data.List.Sort
import Mathlib.Data.String.Basic

namespace Logjet.Ljx

inductive Number (F : Type)
  | posInt (n : UInt64)
  | negInt (n : Int64)
  | float (f : F)
  deriving DecidableEq, Repr

abbrev JsonValue (F : Type) := Json (Number F) String

structure SerdeJson (F : Type) where
  fromStr : Text → Option (JsonValue F)
  numberText : Number F → Text
  stringText : String → Text

variable {F : Type}

namespace Number

def isI64 : Number F → Bool
  | posInt n => n ≤ 0x7fffffffffffffff
  | negInt _ => true
  | float _ => false

def isU64 : Number F → Bool
  | posInt _ => true
  | negInt _ | float _ => false

def asI64 : Number F → Option Int64
  | posInt n => if n ≤ 0x7fffffffffffffff then some n.toInt64 else none
  | negInt n => some n
  | float _ => none

def asU64 : Number F → Option UInt64
  | posInt n => some n
  | negInt _ | float _ => none

def ofI64 (i : Int64) : Number F := if i < 0 then negInt i else posInt i.toUInt64

end Number

def alwaysNormalise : List Text :=
  ["requestid", "reqid", "pathid", "routeid", "sessionid", "correlationid",
    "traceid", "spanid", "messageid", "offset", "position", "cursor", "size",
    "length", "len", "task", "tasks", "count", "total", "num", "timestamp",
    "time", "epoch", "ts", "duration", "elapsed", "latency", "port", "pid",
    "tid", "threadid"].map String.toList

def normaliseKey (key : Text) : Text :=
  key.filterMap fun c =>
    if c = '_' || c = '-' || c = '.' then none
    else if c.isUpper then some c.toLower
    else if c.isAlphanum then some c
    else none

def canonicaliseNumber [BEq F] [OfNat F 0] [OfNat F 1] (key : String) (n : Number F) : Number F :=
  if alwaysNormalise.contains (normaliseKey key.toList) then .posInt 0
  else if !n.isI64 && !n.isU64 then
    match n with
    | .float f => if f == 0 || f == 1 then .float f else .float 0
    | _ => .float 0
  else
    match n.asI64 with
    | some i => if i.toInt.natAbs < 1000 then .ofI64 i else .posInt 0
    | none =>
      match n.asU64 with
      | some u => if u < 1000 then .posInt u else .posInt 0
      | none => .posInt 0

def looksLikeUuid (b : Bytes) : Bool := dashedHex b

def canonicaliseString (s : String) : String :=
  let b := utf8 s.toList
  if b.length = 36 && looksLikeUuid b then "_UUID_"
  else if s.toList.head? = some '/' then "_PATH_"
  else if b.length ≤ 12 && b.all fun b => isAsciiAlphabetic b || b = 0x5f then
    s
  else if b.length > 40 || b.any isAsciiDigit || s.toList.contains '.'
      || s.toList.contains '-' || s.toList.contains '/' then "_"
  else s

def isScalar : JsonValue F → Bool
  | .array _ | .object _ => false
  | _ => true

def canonicaliseArray : List (JsonValue F) → JsonValue F
  | [] => .array []
  | first :: rest =>
    if (first :: rest).all isScalar then
      .object [("__arr", .string "scalar")]
    else
      match first with
      | .object members =>
        let shape := (members.map Prod.fst).mergeSort (· ≤ ·)
        .object [("__arr", .string "object"), ("__shape", .array (shape.map .string))]
      | _ => .object [("__arr", .string "mixed")]

section

variable [BEq F] [OfNat F 0] [OfNat F 1]

mutual

def canonicaliseValue (parentKey : String) : JsonValue F → JsonValue F
  | .object members => .object (canonicaliseMembers members)
  | .array arr => canonicaliseArray arr
  | .string s => .string (canonicaliseString s)
  | .number n => .number (canonicaliseNumber parentKey n)
  | .bool b => .bool b
  | .null => .null

def canonicaliseMembers : List (String × JsonValue F) → List (String × JsonValue F)
  | [] => []
  | (k, v) :: members => (k, canonicaliseValue k v) :: canonicaliseMembers members

end

end

section

variable (serde : SerdeJson F)

def memberText (texts : List (String × Text)) (k : String) : Text :=
  serde.stringText k ++ ':' :: ((HashMap.get k texts).getD [])

mutual

def sortedJsonString : JsonValue F → Text
  | .object members =>
    let texts := memberStrings members
    let keys := (members.map Prod.fst).mergeSort (· ≤ ·)
    '{' :: [','].intercalate (keys.map (memberText serde texts)) ++ ['}']
  | .array arr => '[' :: [','].intercalate (itemStrings arr) ++ [']']
  | .string s => serde.stringText s
  | .number n => serde.numberText n
  | .bool b => (if b then "true" else "false").toList
  | .null => "null".toList

def memberStrings : List (String × JsonValue F) → List (String × Text)
  | [] => []
  | (k, v) :: members => (k, sortedJsonString v) :: memberStrings members

def itemStrings : List (JsonValue F) → List Text
  | [] => []
  | v :: arr => sortedJsonString v :: itemStrings arr

end

def canonicaliseJsonToString [BEq F] [OfNat F 0] [OfNat F 1] (body : Text) : Option Text :=
  (serde.fromStr body).map fun val => sortedJsonString serde (canonicaliseValue "" val)

end

end Logjet.Ljx
