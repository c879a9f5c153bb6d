import VisualNovel.Decimal.Plain
import VisualNovel.Json.Basic

/-
  Writing JSON, over several lines or on one. Over several lines there are two spaces for each
  array or object around a value, one item or member to a line, and nothing between the brackets
  of an empty one. On one line there is no space at all.
-/

namespace VisualNovel.Json

open Decimal

/-- A hexadecimal digit. -/
def hexDigit (n : Nat) : Char := Nat.digitChar (n % 16)

/-- A character in quotes. Quotes and backslashes are escaped, and so are control characters,
    those with a short escape by it and the others by their number. -/
def escapeChar (c : Char) : List Char :=
  if c = '"' then ['\\', '"']
  else if c = '\\' then ['\\', '\\']
  else if c = '\x08' then ['\\', 'b']
  else if c = '\x0c' then ['\\', 'f']
  else if c = '\n' then ['\\', 'n']
  else if c = '\r' then ['\\', 'r']
  else if c = '\t' then ['\\', 't']
  else if c.toNat < 0x20 then ['\\', 'u', '0', '0', hexDigit (c.toNat / 16), hexDigit c.toNat]
  else [c]

/-- A text in quotes. -/
def quote (s : String) : List Char := '"' :: s.toList.flatMap escapeChar ++ ['"']

/-- A line break and the spaces before what stands `depth` deep. -/
def lineBreak (depth : Nat) : List Char := '\n' :: List.replicate (2 * depth) ' '

/-- Brackets around pieces, one to a line. -/
def block (opening closing : Char) (depth : Nat) (pieces : List (List Char)) : List Char :=
  if pieces.isEmpty then [opening, closing]
  else
    opening :: lineBreak (depth + 1) ++
      (pieces.intersperse (',' :: lineBreak (depth + 1))).flatten ++
      lineBreak depth ++ [closing]

mutual

/-- The text of a value that stands `depth` deep. -/
def printAt (depth : Nat) : Json → List Char
  | null => ['n', 'u', 'l', 'l']
  | bool true => ['t', 'r', 'u', 'e']
  | bool false => ['f', 'a', 'l', 's', 'e']
  | int i => (intText i).toList
  | float x => (floatText x).toList
  | str s => quote s
  | arr items => block '[' ']' depth (printItems (depth + 1) items)
  | obj members => block '\x7b' '\x7d' depth (printMembers (depth + 1) members)

/-- The texts of the items of an array. -/
def printItems (depth : Nat) : List Json → List (List Char)
  | [] => []
  | j :: rest => printAt depth j :: printItems depth rest

/-- The texts of the members of an object. -/
def printMembers (depth : Nat) : List (String × Json) → List (List Char)
  | [] => []
  | (name, j) :: rest =>
    (quote name ++ ':' :: ' ' :: printAt depth j) :: printMembers depth rest

end

/-- The text of a value. -/
def print (j : Json) : String := String.ofList (printAt 0 j)

/-- Pieces with commas between them, in brackets. -/
def inLine (opening closing : Char) (pieces : List (List Char)) : List Char :=
  opening :: (pieces.intersperse [',']).flatten ++ [closing]

mutual

/-- The text of a value on one line. -/
def lineOf : Json → List Char
  | arr items => inLine '[' ']' (lineItems items)
  | obj members => inLine '\x7b' '\x7d' (lineMembers members)
  | j => printAt 0 j

/-- The texts of items on one line. -/
def lineItems : List Json → List (List Char)
  | [] => []
  | j :: rest => lineOf j :: lineItems rest

/-- The texts of members on one line. -/
def lineMembers : List (String × Json) → List (List Char)
  | [] => []
  | (name, j) :: rest => (quote name ++ ':' :: lineOf j) :: lineMembers rest

end

/-- The text of a value on one line. -/
def printLine (j : Json) : String := String.ofList (lineOf j)

end VisualNovel.Json
