import VisualNovel.Decimal.Reading
import VisualNovel.Table.Cells

/-
  Cells as values. A cell is read as text, as a truth value or as a number, with three ways of
  asking: `parse` wants the cell to be there, `parseOptional` puts a default in its place, and
  `tryParse` takes what it can get. Around a truth value or a number blanks do not count.
-/

namespace VisualNovel.Table

open Text Decimal

/-- A type of values that cells can hold. -/
class CellValue (α : Type) where
  /-- What errors call the values of this type. -/
  typeName : String
  /-- The value of a cell that is not blank. -/
  ofCell? : String → Option α

instance : CellValue String where
  typeName := "text"
  ofCell? := some

instance : CellValue Bool where
  typeName := "bool"
  ofCell? raw :=
    let text := trim raw
    if sameIgnoringCase text "true" then some true
    else if sameIgnoringCase text "false" then some false
    else none

instance : CellValue Int32 where
  typeName := "integer"
  ofCell? raw := (IntRange.int32.read? (trim raw).toList).map Int32.ofInt

instance : CellValue Int64 where
  typeName := "integer"
  ofCell? raw := (IntRange.int64.read? (trim raw).toList).map Int64.ofInt

instance : CellValue UInt32 where
  typeName := "integer"
  ofCell? raw := (IntRange.uint32.read? (trim raw).toList).map fun i => UInt32.ofNat i.toNat

instance : CellValue UInt64 where
  typeName := "integer"
  ofCell? raw := (IntRange.uint64.read? (trim raw).toList).map fun i => UInt64.ofNat i.toNat

instance : CellValue Float32 where
  typeName := "number"
  ofCell? raw := readSingle? (trim raw).toList

instance : CellValue Float where
  typeName := "number"
  ofCell? raw := readFloat? (trim raw).toList

namespace Row

variable {α : Type} [CellValue α]

/-- Reads the text of a cell. -/
def convert (r : Row) (column raw : String) : Except Error α :=
  match CellValue.ofCell? raw with
  | some value => .ok value
  | none => .error (.table (.unparseable r.context column raw (CellValue.typeName α)))

/-- Reads a cell that has to be there. -/
def parse (r : Row) (column : String) : Except Error α :=
  match r.table.columnIndex? column with
  | none => .error (.table (.missingColumn r.context column))
  | some _ =>
    match r.cell? column with
    | none => .error (.table (.emptyCell r.context column))
    | some raw => r.convert column raw

/-- Reads a cell that may be missing or blank. -/
def parseOptional (r : Row) (column : String) (default : α) : Except Error α :=
  match r.cell? column with
  | none => .ok default
  | some raw => r.convert column raw

/-- Reads a cell if there is something to read. -/
def tryParse (r : Row) (column : String) : Option α :=
  (r.cell? column).bind CellValue.ofCell?

end Row

end VisualNovel.Table
