/-
The canonical form of a body, whatever its shape (src/ljx/src/dedup/).
`canonicalise_body` calls itself: with `frames` calls allowed on the stack the
model is `none` where one more would be needed.
-/
import Logjet.Ljx.CanonFreetext
import Logjet.Ljx.CanonJson

namespace Logjet.Ljx

def alwaysNormaliseValue : List Text :=
  ["agentid", "requestid", "reqid", "traceid", "spanid", "messageid", "task",
    "tasks", "count", "total", "num", "size", "queuesize", "maxqueuesize",
    "maxqueuesizeseen"].map String.toList

def looksNumericish (token : Text) : Bool :=
  (utf8 token).all isAsciiDigit
    || (utf8 token).all fun b => isAsciiDigit b || b = 0x2e || b = 0x2d

section

variable (u : UnicodeClasses)

def classifyAndRender (token : Text) : Text := (classifyToken u token).rendered token

def canonicaliseValueForKey (key val : Text) : Text :=
  let (core, suffix) := splitTrailingPunct val
  if core.isEmpty then val
  else
    let rendered := if alwaysNormaliseValue.contains (normaliseKey key) && looksNumericish core then
        if core.contains '.' then "_F_".toList else "_N_".toList
      else classifyAndRender u core
    rendered ++ suffix

def canonicalisePair (token : Text) : Text :=
  match splitOnce '=' token with
  | some (key, val) =>
    if key.isEmpty then classifyAndRender u token
    else key ++ '=' :: canonicaliseValueForKey u key val
  | none => classifyAndRender u token

def canonicaliseKv (body : Text) : Text :=
  [' '].intercalate ((splitWhitespace body).map (canonicalisePair u))

end

inductive BodyShape
  | json
  | keyValue
  | sourcePrefixed
  | freeText
  deriving DecidableEq, Repr

structure Detected where
  shape : BodyShape
  strippedSuffix : Option Text
  deriving DecidableEq, Repr

def opensJson (c : Char) : Bool := c = '{' || c = '['

section

variable (u : UnicodeClasses)

def keyValuePair : Regex Char :=
  .seqs [.edge u.word, .plus (.one u.word), .one (· = '='),
    .plus (.one (!isWhiteSpace ·))]

def isKeyValue (body : Text) : Bool := 2 ≤ (keyValuePair u).matchCount body

def sourcePrefix : Regex Char :=
  .seq .start (.seqs [
    .one (· = '['), .plus (.one fun c => u.digit c || c = ':'),
    .one (· = ']'), .plus (.one isWhiteSpace),
    .plus (.one (!isWhiteSpace ·)), .one (· = '.'), .plus (.one u.word),
    .one (· = ':'), .plus (.one u.digit), .opt (.one (· = ':')), .star (.one isWhiteSpace)])

def stripSourcePrefix (body : Text) : Option Text :=
  match (sourcePrefix u).find [] body with
  | none => none
  | some m => if m.behind.isEmpty then none else some m.behind

end

section

variable {F : Type} (serde : SerdeJson F)

def jsonSuffixFrom (trimmedStart : Nat) : Nat → Text → Option Text
  | _, [] => none
  | idx, ch :: rest =>
    let suffix := trimStart (ch :: rest)
    if !opensJson ch then jsonSuffixFrom trimmedStart (idx + 1) rest
    else if !suffix.head?.any opensJson then
      jsonSuffixFrom trimmedStart (idx + 1) rest
    else if idx = trimmedStart then
      jsonSuffixFrom trimmedStart (idx + 1) rest
    else if (serde.fromStr suffix).isSome then some suffix
    else jsonSuffixFrom trimmedStart (idx + 1) rest

def stripJsonPrefix (body : Text) : Option Text :=
  jsonSuffixFrom serde (body.length - (trimStart body).length) 0 body

variable (u : UnicodeClasses)

def detect (body : Text) : Detected :=
  let trimmed := trimStart body
  if trimmed.head?.any opensJson && (serde.fromStr trimmed).isSome then
    ⟨.json, none⟩
  else
    match stripJsonPrefix serde body with
    | some suffix => ⟨.sourcePrefixed, some suffix⟩
    | none =>
      if isKeyValue u body then ⟨.keyValue, none⟩
      else
        match stripSourcePrefix u body with
        | some suffix => ⟨.sourcePrefixed, some suffix⟩
        | none => ⟨.freeText, none⟩

variable [BEq F] [OfNat F 0] [OfNat F 1]

def canonicaliseBody : Nat → Text → Option (Text × Text)
  | 0, _ => none
  | frames + 1, body =>
    let detected := detect serde u body
    match detected.shape with
    | .json =>
      match canonicaliseJsonToString serde (trimStart body) with
      | some canon => some (canon, "json".toList)
      | none => some (canonicaliseFreetext u body, "freetext".toList)
    | .keyValue => some (canonicaliseKv u body, "kv".toList)
    | .sourcePrefixed =>
      let suffix := detected.strippedSuffix.getD body
      (canonicaliseBody frames suffix).map fun (canon, innerShape) =>
        (canon, "prefixed/".toList ++ innerShape)
    | .freeText => some (canonicaliseFreetext u body, "freetext".toList)

end

end Logjet.Ljx
