/-
The functions of `std` on text that the repository uses. A text is a list
of characters.
-/
import Logjet.Format

namespace Logjet

abbrev Text := List Char

def utf8 (text : Text) : Bytes := (String.ofList text).toUTF8.data.toList

inductive ParseIntError
  | empty
  | invalidDigit
  | posOverflow
  deriving DecidableEq, Repr

def ParseIntError.display : ParseIntError → String
  | .empty => "cannot parse integer from empty string"
  | .invalidDigit => "invalid digit found in string"
  | .posOverflow => "number too large to fit in target type"

def parseDigits (value : Nat) : Text → Except ParseIntError UInt64
  | [] => .ok (UInt64.ofNat value)
  | c :: text =>
    if c.isDigit then
      let value := 10 * value + (c.toNat - '0'.toNat)
      if value < 2 ^ 64 then parseDigits value text
      else .error .posOverflow
    else .error .invalidDigit

def parseU64 : Text → Except ParseIntError UInt64
  | [] => .error .empty
  | ['+'] => .error .invalidDigit
  | '+' :: text => parseDigits 0 text
  | text => parseDigits 0 text

def toText (value : UInt64) : Text := Nat.toDigits 10 value.toNat

def isAsciiDigit (b : UInt8) : Bool := 0x30 ≤ b && b ≤ 0x39

def isAsciiAlphabetic (b : UInt8) : Bool := (0x41 ≤ b && b ≤ 0x5a) || (0x61 ≤ b && b ≤ 0x7a)

def isHexAlpha (b : UInt8) : Bool := (0x41 ≤ b && b ≤ 0x46) || (0x61 ≤ b && b ≤ 0x66)

def isAsciiHexdigit (b : UInt8) : Bool := isAsciiDigit b || isHexAlpha b

def dashedHex (b : Bytes) : Bool :=
  b.length = 36 && b.zipIdx.all fun (c, i) =>
    if i = 8 || i = 13 || i = 18 || i = 23 then c = 0x2d
    else isAsciiHexdigit c

def byteChar (b : UInt8) : Char := Char.ofNat b.toNat

def isWhiteSpace (c : Char) : Bool :=
  let n := c.toNat
  (0x09 ≤ n && n ≤ 0x0d) || n = 0x20 || n = 0x85 || n = 0xa0 || n = 0x1680
    || (0x2000 ≤ n && n ≤ 0x200a) || n = 0x2028 || n = 0x2029 || n = 0x202f
    || n = 0x205f || n = 0x3000

def trimStart (text : Text) : Text := text.dropWhile isWhiteSpace

def trim (text : Text) : Text :=
  ((text.dropWhile isWhiteSpace).reverse.dropWhile isWhiteSpace).reverse

def splitWhitespaceFrom (piece : Text) : Text → List Text
  | [] => if piece.isEmpty then [] else [piece]
  | c :: text =>
    if isWhiteSpace c then
      if piece.isEmpty then splitWhitespaceFrom [] text
      else piece :: splitWhitespaceFrom [] text
    else splitWhitespaceFrom (piece ++ [c]) text

def splitWhitespace (text : Text) : List Text := splitWhitespaceFrom [] text

def splitOnce (sep : Char) : Text → Option (Text × Text)
  | [] => none
  | c :: text =>
    if c = sep then some ([], text)
    else (splitOnce sep text).map fun (front, behind) => (c :: front, behind)

def stripText : Text → Text → Option Text
  | [], text => some text
  | _ :: _, [] => none
  | p :: pattern, c :: text => if p = c then stripText pattern text else none

theorem stripText_length {pattern text rest : Text} (h : stripText pattern text = some rest) :
    pattern.length + rest.length = text.length := by
  induction pattern generalizing text with
  | nil =>
    cases h
    simp
  | cons p pattern ih =>
    cases text with
    | nil => cases h
    | cons c text =>
      rw [stripText] at h
      split at h
      · have := ih h
        simp only [List.length_cons]
        omega
      · cases h

def replaceFrom (p : Char) (pattern put : Text) (text : Text) : Text :=
  match text with
  | [] => []
  | c :: rest =>
    match _h : stripText (p :: pattern) (c :: rest) with
    | some behind => put ++ replaceFrom p pattern put behind
    | none => c :: replaceFrom p pattern put rest
termination_by text.length
decreasing_by
  all_goals simp only [List.length_cons]
  · have := stripText_length _h
    simp only [List.length_cons] at this
    omega
  · omega

def replaceText (pattern put text : Text) : Text :=
  match pattern with
  | p :: pattern => replaceFrom p pattern put text
  | [] => put ++ text.flatMap fun c => c :: put

end Logjet
