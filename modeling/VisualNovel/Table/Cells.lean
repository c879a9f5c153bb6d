import VisualNovel.Error
import VisualNovel.Table.Delimited

/-
  Tables of cells. A table is a list of rows, of any lengths, one of which is the header; it
  names the columns by its cells, trimmed. A blank header cell names no column, and of two
  cells with the same name the first counts. The rows below the header hold the data.
-/

namespace VisualNovel.Table

open Text

/-- The names of the columns with their positions, the first position for each name. -/
abbrev HeaderIndex := List (String × Nat)

/-- Adds a header cell to the index unless it is blank or its name is there already. -/
def HeaderIndex.add (index : HeaderIndex) (cell : String × Nat) : HeaderIndex :=
  let name := trim cell.1
  if name = "" then index
  else if (index.lookup name).isSome then index
  else index ++ [(name, cell.2)]

/-- The index of a header row. -/
def HeaderIndex.ofCells (cells : List String) : HeaderIndex :=
  cells.zipIdx.foldl HeaderIndex.add []

/-- A table with its name, its rows, the position of the header and the index of its names. -/
structure CellTable where
  name : String
  rows : Array (List String)
  headerRow : Nat
  header : HeaderIndex
  deriving Repr, DecidableEq

namespace CellTable

/-- Reads the names of the columns from the header row; a table that does not reach it has no
    columns. -/
def parseHeader (t : CellTable) : CellTable :=
  { t with header := HeaderIndex.ofCells ((t.rows[t.headerRow]?).getD []) }

/-- A table whose first row is the header. -/
def ofRows (name : String) (rows : List (List String)) : CellTable :=
  parseHeader ⟨name, rows.toArray, 0, []⟩

/-- The table with another row as its header. -/
def withHeaderRow (t : CellTable) (row : Nat) : CellTable :=
  parseHeader { t with headerRow := row }

/-- The table of a delimited text. Every text has rows, so this never fails. -/
def ofDelimited (name text : String) (delimiter : Delimiter) : Except Error CellTable :=
  .ok (ofRows name (tokenize delimiter text))

/-- The position of a column. -/
def columnIndex? (t : CellTable) (column : String) : Option Nat := t.header.lookup column

/-- The position of the first row of data. -/
def dataTopRow (t : CellTable) : Nat := t.headerRow + 1

/-- The number of rows. -/
def size (t : CellTable) : Nat := t.rows.size

end CellTable

/-- A row of a table. -/
structure Row where
  table : CellTable
  index : Nat
  inTable : index < table.rows.size

namespace Row

/-- The cells of a row. -/
def cells (r : Row) : List String :=
  have := r.inTable
  r.table.rows[r.index]

/-- The number of a row, counted from one. -/
def number (r : Row) : Nat := r.index + 1

/-- Where an error in this row is found. -/
def context (r : Row) : RowContext := ⟨r.table.name, r.number⟩

/-- A row with nothing but blank cells. -/
def isEmpty (r : Row) : Bool := r.cells.all isBlankText

/-- The text of a cell as it stands; nothing if the column is not declared, the row does not
    reach it or the cell is blank. -/
def cell? (r : Row) (column : String) : Option String :=
  (r.table.columnIndex? column).bind fun i =>
    (r.cells[i]?).bind fun text => if isBlankText text then none else some text

/-- A row with nothing in it has no cell to read. -/
theorem cell?_of_isEmpty {r : Row} (h : r.isEmpty = true) (column : String) :
    r.cell? column = none := by
  unfold cell?
  refine Option.bind_eq_none_iff.mpr fun i _ => Option.bind_eq_none_iff.mpr fun text htext => ?_
  rw [if_pos (List.all_eq_true.mp h text (List.mem_of_getElem? htext))]

/-- Whether a cell is missing or blank. -/
def isEmptyCell (r : Row) (column : String) : Bool := (r.cell? column).isNone

/-- The number of a row and its cells, on one line. -/
def summary (r : Row) : String := Decimal.natText r.number ++ ": " ++ joinWith " | " r.cells

end Row

/-- The row at a position. -/
def CellTable.row? (t : CellTable) (index : Nat) : Option Row :=
  if h : index < t.rows.size then some ⟨t, index, h⟩ else none

/-- The positions of the rows of data. -/
def CellTable.dataIndices (t : CellTable) : List Nat :=
  List.range' t.dataTopRow (t.rows.size - t.dataTopRow)

/-- The rows of data, in order. -/
def CellTable.dataRows (t : CellTable) : List Row := t.dataIndices.filterMap t.row?

end VisualNovel.Table
