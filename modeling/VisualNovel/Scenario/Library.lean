import VisualNovel.Command.Reading

/-
  Where tables come from. A source is asked for labels and brings the tables that define them,
  sooner or later. A library is a source that has its tables at hand, each ready or not; a label
  belongs to the first table that brought it.
-/

namespace VisualNovel.Scenario

open Command (labelOf?)
open Table (CellTable Column)
open Text

/-- A source of tables: it can be asked to bring the table of a label, tells whether it is there
    and gives it. A label it does not know is as good as there. -/
class TableSource (ς : Type) where
  request : ς → String → ς
  isLoaded : ς → String → Bool
  table? : ς → String → Option CellTable

/-- A table, and whether it is ready. -/
structure Shelf where
  table : CellTable
  ready : Bool
  deriving Repr, DecidableEq

/-- Tables by name, the table of each label, and the labels that were asked for. -/
structure Library where
  shelves : List (String × Shelf)
  owners : List (String × String)
  requested : List String
  deriving Repr, DecidableEq

/-- The labels a table defines, in order, as often as it does. -/
def definedLabels (t : CellTable) : List String :=
  t.dataRows.filterMap fun r => (r.cell? Column.command.header).bind fun c => labelOf? (trim c)

namespace Library

/-- No tables. -/
def empty : Library := ⟨[], [], []⟩

/-- The name of the table a label belongs to. -/
def owner? (l : Library) (label : String) : Option String := l.owners.lookup label

/-- The shelf of a table. -/
def shelf? (l : Library) (name : String) : Option Shelf := l.shelves.lookup name

/-- The names of the tables. -/
def names (l : Library) : List String := l.shelves.map Prod.fst

/-- Gives a label to a table unless it has one. -/
def addOwner (name : String) (owners : List (String × String)) (label : String) :
    List (String × String) :=
  if (owners.lookup label).isSome then owners else owners ++ [(label, name)]

/-- Puts a shelf among others, in the place of one of the same name. -/
def putShelf (name : String) (shelf : Shelf) : List (String × Shelf) → List (String × Shelf)
  | [] => [(name, shelf)]
  | (n, s) :: rest =>
    if n = name then (name, shelf) :: rest else (n, s) :: putShelf name shelf rest

/-- Adds a table. -/
def insert (l : Library) (table : CellTable) (ready : Bool) : Library :=
  { l with
    shelves := putShelf table.name ⟨table, ready⟩ l.shelves
    owners := (definedLabels table).foldl (addOwner table.name) l.owners }

/-- Says whether a table is ready. -/
def setReady (l : Library) (name : String) (ready : Bool) : Library :=
  match l.shelf? name with
  | none => l
  | some s => { l with shelves := putShelf name { s with ready } l.shelves }

/-- Whether the table of a label is ready; a label of no table is. -/
def isLoaded (l : Library) (label : String) : Bool :=
  match l.owner? label with
  | none => true
  | some name => (l.shelf? name).any Shelf.ready

/-- The table of a label, if it is ready. -/
def table? (l : Library) (label : String) : Option CellTable := do
  let name ← l.owner? label
  let shelf ← l.shelf? name
  if shelf.ready then some shelf.table else none

instance : TableSource Library where
  request l label := { l with requested := l.requested ++ [label] }
  isLoaded := isLoaded
  table? := table?

end Library

end VisualNovel.Scenario
