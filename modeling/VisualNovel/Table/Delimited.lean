import VisualNovel.Text.Blank

/-
  Delimited text. A text is split into rows of cells: a cell that starts with a quote runs to
  the closing quote, delimiters and line breaks included, and a quote in it is written twice;
  a row ends at a line feed, at a carriage return or at both; lines with nothing on them are
  left out, and so is a byte order mark at the start. Every text has a reading: a quote that
  is never closed runs to the end, and what follows a closing quote is taken as it stands.
-/

namespace VisualNovel.Table

/-- What separates the cells of a row. -/
inductive Delimiter where
  | comma
  | tab
  deriving Repr, DecidableEq

namespace Delimiter

/-- The separating character. -/
def char : Delimiter → Char
  | comma => ','
  | tab => '\t'

/-- The name of a delimiter in settings. -/
def name : Delimiter → String
  | comma => "comma"
  | tab => "tab"

/-- The delimiter with a name. -/
def ofName? (s : String) : Option Delimiter :=
  if s = "comma" then some comma else if s = "tab" then some tab else none

/-- Files with the extension `tsv` have tabs, all others commas. -/
def ofExtension (ext : String) : Delimiter :=
  if Text.sameIgnoringCase ext "tsv" then tab else comma

end Delimiter

/-- Where in a row the reader stands. -/
inductive Place where
  /-- Before the first character of a row. -/
  | rowStart
  /-- Before the first character of a cell. -/
  | cellStart
  /-- Within a cell, outside quotes. -/
  | plain
  /-- Within quotes. -/
  | quoted
  /-- Just after a quote within quotes. -/
  | closing
  deriving Repr, DecidableEq

/-- A row may end at this character. -/
def isLineEnd (c : Char) : Bool := c == '\n' || c == '\r'

/-- Reads the rows of a text. `row` holds the cells of the row so far and `cell` the
    characters of the cell so far, both last first; at the start of a row both are empty, at
    the start of a cell the latter is. -/
def readRows (d : Char) : Place → List (List Char) → List Char → List Char →
    List (List (List Char))
  | .rowStart, _, _, [] => []
  | _, row, cell, [] => [(cell.reverse :: row).reverse]
  | .rowStart, row, cell, c :: rest =>
    if isLineEnd c then readRows d .rowStart row cell rest
    else if c = '"' then readRows d .quoted row cell rest
    else if c = d then readRows d .cellStart (cell.reverse :: row) [] rest
    else readRows d .plain row (c :: cell) rest
  | .cellStart, row, cell, c :: rest =>
    if c = '"' then readRows d .quoted row cell rest
    else if c = d then readRows d .cellStart (cell.reverse :: row) [] rest
    else if isLineEnd c then (cell.reverse :: row).reverse :: readRows d .rowStart [] [] rest
    else readRows d .plain row (c :: cell) rest
  | .plain, row, cell, c :: rest =>
    if c = d then readRows d .cellStart (cell.reverse :: row) [] rest
    else if isLineEnd c then (cell.reverse :: row).reverse :: readRows d .rowStart [] [] rest
    else readRows d .plain row (c :: cell) rest
  | .quoted, row, cell, c :: rest =>
    if c = '"' then readRows d .closing row cell rest
    else readRows d .quoted row (c :: cell) rest
  | .closing, row, cell, c :: rest =>
    if c = '"' then readRows d .quoted row ('"' :: cell) rest
    else if c = d then readRows d .cellStart (cell.reverse :: row) [] rest
    else if isLineEnd c then (cell.reverse :: row).reverse :: readRows d .rowStart [] [] rest
    else readRows d .plain row (c :: cell) rest

/-- The end of the text ends a row that has begun. -/
theorem readRows_nil {place : Place} (hplace : place ≠ .rowStart) (d : Char)
    (row : List (List Char)) (cell : List Char) :
    readRows d place row cell [] = [(cell.reverse :: row).reverse] := by
  cases place with
  | rowStart => exact absurd rfl hplace
  | cellStart | plain | quoted | closing => simp [readRows]

/-- The byte order mark. -/
def byteOrderMark : Char := '\uFEFF'

/-- The text without a byte order mark at its start. -/
def dropMark : List Char → List Char
  | c :: rest => if c = byteOrderMark then rest else c :: rest
  | [] => []

/-- The rows of a delimited text. -/
def tokenize (delimiter : Delimiter) (text : String) : List (List String) :=
  (readRows delimiter.char .rowStart [] [] (dropMark text.toList)).map
    (List.map String.ofList)

end VisualNovel.Table
