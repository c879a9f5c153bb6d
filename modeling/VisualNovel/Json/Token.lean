import VisualNovel.Decimal.Reading
import VisualNovel.Text.Blank

/-
  The tokens of a JSON text: signs, words, texts and numbers, with blanks between them. A text
  stands in double quotes; control characters in it are escaped, and a character outside the
  basic plane may be escaped as two halves. A number out of range and a text in which a half has no
  other are tokens too, though they cannot be read: they may stand where nobody reads them.
-/

namespace VisualNovel.Json

open Decimal Text

/-- A value that is one token. -/
inductive Leaf where
  | null
  | bool (b : Bool)
  | int (i : Int)
  | float (x : Float)
  | str (s : List Char)
  | farNumber
  | brokenText

/-- A token of a JSON text. -/
inductive Token where
  | openBrace
  | closeBrace
  | openBracket
  | closeBracket
  | comma
  | colon
  | leaf (l : Leaf)

/-- What may stand between tokens. -/
def isSpace (c : Char) : Bool := c == ' ' || c == '\t' || c == '\r' || c == '\n'

/-- The value of a hexadecimal digit. -/
def hexValue? (c : Char) : Option Nat :=
  if c.isDigit then some (c.toNat - '0'.toNat)
  else if 'a' ≤ c && c ≤ 'f' then some (c.toNat - 'a'.toNat + 10)
  else if 'A' ≤ c && c ≤ 'F' then some (c.toNat - 'A'.toNat + 10)
  else none

/-- The value of four hexadecimal digits. -/
def hexUnit? (a b c d : Char) : Option Nat := do
  let a ← hexValue? a
  let b ← hexValue? b
  let c ← hexValue? c
  let d ← hexValue? d
  return ((a * 16 + b) * 16 + c) * 16 + d

/-- The character that a backslash and another character stand for. -/
def shortEscape? : Char → Option Char
  | '"' => some '"'
  | '\\' => some '\\'
  | '/' => some '/'
  | 'b' => some '\x08'
  | 'f' => some '\x0c'
  | 'n' => some '\n'
  | 'r' => some '\r'
  | 't' => some '\t'
  | _ => none

/-- The first of two halves of a character. -/
def isHighHalf (n : Nat) : Bool := 0xD800 ≤ n && n ≤ 0xDBFF

/-- The second of two halves of a character. -/
def isLowHalf (n : Nat) : Bool := 0xDC00 ≤ n && n ≤ 0xDFFF

/-- The rest of a text after its opening quote: its characters, and what follows its closing
    quote. `high` is a first half of a character that waits for the second. -/
def readString? (high : Option Nat) : List Char → Option (List Char × List Char)
  | '"' :: rest => if high.isSome then none else some ([], rest)
  | '\\' :: 'u' :: a :: b :: c :: d :: rest =>
    (hexUnit? a b c d).bind fun n =>
      match high with
      | some h =>
        if isLowHalf n then
          (readString? none rest).map fun r =>
            (Char.ofNat (0x10000 + (h - 0xD800) * 0x400 + (n - 0xDC00)) :: r.1, r.2)
        else none
      | none =>
        if isHighHalf n then readString? (some n) rest
        else if isLowHalf n then none
        else (readString? none rest).map fun r => (Char.ofNat n :: r.1, r.2)
  | '\\' :: c :: rest =>
    if high.isSome then none
    else
      (shortEscape? c).bind fun e => (readString? none rest).map fun r => (e :: r.1, r.2)
  | c :: rest =>
    if high.isSome || c.toNat < 0x20 then none
    else (readString? none rest).map fun r => (c :: r.1, r.2)
  | [] => none

/-- What follows the closing quote of a text that is passed over. -/
def skipString? : List Char → Option (List Char)
  | '"' :: rest => some rest
  | '\\' :: 'u' :: a :: b :: c :: d :: rest =>
    if (hexUnit? a b c d).isSome then skipString? rest else none
  | '\\' :: c :: rest => if (shortEscape? c).isSome then skipString? rest else none
  | c :: rest => if c.toNat < 0x20 then none else skipString? rest
  | [] => none

/-- The text behind an opening quote, and what follows it. -/
def readText? (s : List Char) : Option (Leaf × List Char) :=
  match readString? none s with
  | some (t, rest) => some (.str t, rest)
  | none => (skipString? s).map fun rest => (.brokenText, rest)

/-- A natural number without needless zeros in front. -/
def isWholePart : List Char → Bool
  | [] => false
  | '0' :: rest => rest.isEmpty
  | s => s.all Char.isDigit

/-- The places after the point, with the point, and the rest. -/
def splitPlaces? : List Char → Option (List Char × List Char)
  | '.' :: rest =>
    let places := rest.takeWhile Char.isDigit
    if places.isEmpty then none else some ('.' :: places, rest.dropWhile Char.isDigit)
  | s => some ([], s)

/-- The sign of an exponent and the rest. -/
def splitExponentSign : List Char → List Char × List Char
  | '-' :: rest => (['-'], rest)
  | '+' :: rest => (['+'], rest)
  | s => ([], s)

/-- The exponent, with its letter, and the rest. -/
def splitExponent? : List Char → Option (List Char × List Char)
  | c :: rest =>
    if c = 'e' || c = 'E' then
      let (sign, tail) := splitExponentSign rest
      let digits := tail.takeWhile Char.isDigit
      if digits.isEmpty then none
      else some (c :: sign ++ digits, tail.dropWhile Char.isDigit)
    else some ([], c :: rest)
  | [] => some ([], [])

/-- The number that a spelling stands for. Minus zero and what does not fit into 64 bits are
    of double precision, and out of range if they are not finite. -/
def numberLeaf (negative : Bool) (whole places exponent : List Char) : Leaf :=
  let n := digitsValue whole 0
  let i : Int := if negative then -(n : Int) else n
  let range := if negative then IntRange.int64 else IntRange.uint64
  if places.isEmpty && exponent.isEmpty && range.holds i && !(negative && n == 0) then
    .int i
  else
    let spelling := whole ++ places ++ exponent
    match readFloat? (if negative then '-' :: spelling else spelling) with
    | some x => if x.isFinite then .float x else .farNumber
    | none => .farNumber

/-- Splits an optional minus sign off. -/
def splitMinus : List Char → Bool × List Char
  | '-' :: rest => (true, rest)
  | s => (false, s)

/-- A number and the rest of the text. -/
def readNumber? (s : List Char) : Option (Leaf × List Char) :=
  let (negative, t) := splitMinus s
  let whole := t.takeWhile Char.isDigit
  if isWholePart whole then
    (splitPlaces? (t.dropWhile Char.isDigit)).bind fun (places, r) =>
      (splitExponent? r).map fun (exponent, rest) =>
        (numberLeaf negative whole places exponent, rest)
  else none

/-- The token that a text begins with and the rest of the text. -/
def firstToken? : List Char → Option (Token × List Char)
  | '\x7b' :: rest => some (.openBrace, rest)
  | '\x7d' :: rest => some (.closeBrace, rest)
  | '[' :: rest => some (.openBracket, rest)
  | ']' :: rest => some (.closeBracket, rest)
  | ',' :: rest => some (.comma, rest)
  | ':' :: rest => some (.colon, rest)
  | 'n' :: 'u' :: 'l' :: 'l' :: rest => some (.leaf .null, rest)
  | 't' :: 'r' :: 'u' :: 'e' :: rest => some (.leaf (.bool true), rest)
  | 'f' :: 'a' :: 'l' :: 's' :: 'e' :: rest => some (.leaf (.bool false), rest)
  | '"' :: rest => (readText? rest).map fun r => (.leaf r.1, r.2)
  | s => (readNumber? s).map fun r => (.leaf r.1, r.2)

/-- The tokens of a text. Each takes at least one character, so `limit`, the length of the
    text, is never exceeded. -/
def lexWithin? : Nat → List Char → Option (List Token)
  | _, [] => some []
  | 0, _ => none
  | limit + 1, c :: rest =>
    if isSpace c then lexWithin? limit rest
    else
      (firstToken? (c :: rest)).bind fun r => (lexWithin? limit r.2).map (r.1 :: ·)

/-- The tokens of a text. -/
def lex? (s : List Char) : Option (List Token) := lexWithin? s.length s

end VisualNovel.Json
