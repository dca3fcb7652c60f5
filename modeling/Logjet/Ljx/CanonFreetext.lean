/-
Free text in its canonical form (src/ljx/src/dedup/canon_freetext.rs), lexed a
byte at a time. The Unicode classes of the regular expressions are parameters,
fixed up to U+0080, and `\d` up to U+0100.
-/
import Mathlib.Data.List.Infix
import Logjet.Text
import Logjet.Lib.Regex

namespace Logjet.Ljx

structure UnicodeClasses where
  digit : Char → Bool
  word : Char → Bool
  digit_latin1 : ∀ c : Char, c.toNat < 0x100 → digit c = c.isDigit
  word_ascii : ∀ c : Char, c.toNat < 0x80 → word c = (c.isAlphanum || c = '_')

def UnicodeClasses.ascii : UnicodeClasses where
  digit := Char.isDigit
  word := fun c => c.isAlphanum || c = '_'
  digit_latin1 := fun _ _ => rfl
  word_ascii := fun _ _ => rfl

inductive TokenClass
  | preserve
  | replace (placeholder : Text)
  | compound (text : Text)
  deriving DecidableEq, Repr

def isUuid (b : Bytes) : Bool := dashedHex b

def isIpv6 (token : Text) : Bool :=
  let groups := token.splitOn ':'
  7 ≤ groups.length && groups.all fun g =>
    g.isEmpty || ((utf8 g).length ≤ 4 && (utf8 g).all isAsciiHexdigit)

def isMac (b : Bytes) : Bool :=
  b.length = 17 && (List.range 6).all fun i =>
    (b[3 * i]?).any isAsciiHexdigit && (b[3 * i + 1]?).any isAsciiHexdigit
      && (5 ≤ i || b[3 * i + 2]? = some 0x3a)

def isIpv4 (token : Text) : Bool :=
  let groups := token.splitOn '.'
  groups.length = 4 && groups.all fun g =>
    !g.isEmpty && (utf8 g).length ≤ 3 && (utf8 g).all isAsciiDigit && match parseU64 g with
        | .ok n => n ≤ 255
        | .error _ => false

section

variable (u : UnicodeClasses)

def iso8601 : Regex Char :=
  .seq .start (.seqs [
    .times 4 (.one u.digit), .one (· = '-'), .times 2 (.one u.digit),
    .one (· = '-'), .times 2 (.one u.digit), .one fun c => c = 'T' || c = ' ',
    .times 2 (.one u.digit), .one (· = ':'), .times 2 (.one u.digit),
    .one (· = ':'), .times 2 (.one u.digit)])

def isIso8601 (token : Text) : Bool := ((iso8601 u).find [] token).isSome

end

def floatStep (dotPos : Option Nat) (at' : UInt8 × Nat) : Option (Option Nat) :=
  if at'.1 = 0x2e then
    if dotPos.isSome then none else some (some at'.2)
  else if isAsciiDigit at'.1 then some dotPos
  else none

def isFloat (b : Bytes) : Bool :=
  match b.zipIdx.foldlM floatStep none with
  | some (some p) => 0 < p && p < b.length - 1
  | _ => false

def isQuoted (b : Bytes) : Bool :=
  2 ≤ b.length && ((b.head? = some 0x22 && b.getLast? = some 0x22)
      || (b.head? = some 0x27 && b.getLast? = some 0x27))

def isFrameChar (b : UInt8) : Bool :=
  ['(', ')', '[', ']', '{', '}', '#', '=', '-', '.', ',', ':', '/', '@',
    '_'].any fun c => c.toNat = b.toNat

theorem length_drop_takeWhile_lt {p : UInt8 → Bool} {b : UInt8} {rest : Bytes} (h : p b = true) :
    ((b :: rest).drop ((b :: rest).takeWhile p).length).length < (b :: rest).length := by
  rw [List.takeWhile_cons_of_pos h, List.length_drop, List.length_cons, List.length_cons]
  omega

def compoundMiniLexer (bytes : Bytes) : Text :=
  match bytes with
  | [] => []
  | b :: rest =>
    let run := (b :: rest).takeWhile isAsciiHexdigit
    let letters := (b :: rest).takeWhile isAsciiAlphabetic
    if isFrameChar b then byteChar b :: compoundMiniLexer rest
    else if _hhex : isAsciiHexdigit b then
      if run.any isHexAlpha && run.any isAsciiDigit && 8 ≤ run.length then
        "_HEX_".toList ++ compoundMiniLexer ((b :: rest).drop run.length)
      else if _halpha : isAsciiAlphabetic b then
        letters.map byteChar ++ compoundMiniLexer ((b :: rest).drop letters.length)
      else if 3 ≤ run.length then
        "_N_".toList ++ compoundMiniLexer ((b :: rest).drop run.length)
      else
        run.map byteChar ++ compoundMiniLexer ((b :: rest).drop run.length)
    else if _halpha : isAsciiAlphabetic b then
      letters.map byteChar ++ compoundMiniLexer ((b :: rest).drop letters.length)
    else byteChar b :: compoundMiniLexer rest
termination_by bytes.length
decreasing_by
  · simp
  · exact length_drop_takeWhile_lt _hhex
  · exact length_drop_takeWhile_lt _halpha
  · exact length_drop_takeWhile_lt _hhex
  · exact length_drop_takeWhile_lt _hhex
  · exact length_drop_takeWhile_lt _halpha
  · simp

def isTrailingPunct (c : Char) : Bool := [',', ';', ':', ')', ']', '}'].contains c

def splitTrailingPunct (token : Text) : Text × Text :=
  ((token.reverse.dropWhile isTrailingPunct).reverse,
    (token.reverse.takeWhile isTrailingPunct).reverse)

section

variable (u : UnicodeClasses)

def classifyToken (token : Text) : TokenClass :=
  let bytes := utf8 token
  let len := bytes.length
  let hasAlpha := bytes.any isAsciiAlphabetic
  let hasDigit := bytes.any isAsciiDigit
  let hasColon := bytes.contains 0x3a
  let hasDot := bytes.contains 0x2e
  let hasDash := bytes.contains 0x2d
  if token.isEmpty then .preserve
  else if hasDash && len = 36 && isUuid bytes then .replace "_UUID_".toList
  else if hasColon && !hasDot && isIpv6 token then .replace "_IPV6_".toList
  else if hasColon && len = 17 && isMac bytes then .replace "_MAC_".toList
  else if hasDot && !hasAlpha && isIpv4 token then .replace "_IPV4_".toList
  else if 2 < len && bytes[0]? = some 0x30
      && (bytes[1]? = some 0x78 || bytes[1]? = some 0x58)
      && (bytes.drop 2).all isAsciiHexdigit then .replace "_HEX_".toList
  else if hasDigit && hasDash && 19 ≤ len && isIso8601 u token then
    .replace "_TS_".toList
  else if bytes[0]? = some 0x2f && 2 ≤ token.count '/' then
    .replace "_PATH_".toList
  else if 8 ≤ len && bytes.all isAsciiHexdigit && bytes.any isHexAlpha then
    .replace "_HEX_".toList
  else if isQuoted bytes then
    if 16 < len - 2 then .replace "\"_\"".toList else .preserve
  else if !hasDigit && hasAlpha && !hasColon && !hasDot then .preserve
  else if [':', ':'] <:+: token then .preserve
  else if hasAlpha && hasDigit then .compound (compoundMiniLexer bytes)
  else if bytes.all isAsciiDigit then
    if len ≤ 2 then .preserve else .replace "_N_".toList
  else if hasDot && isFloat bytes then .replace "_F_".toList
  else .preserve

def TokenClass.rendered (core : Text) : TokenClass → Text
  | .preserve => core
  | .replace r => r
  | .compound s => s

def renderToken (token : Text) : Text :=
  let (core, suffix) := splitTrailingPunct token
  (classifyToken u core).rendered core ++ suffix

def canonicaliseFreetext (body : Text) : Text :=
  [' '].intercalate ((splitWhitespace body).map (renderToken u))

end

end Logjet.Ljx
