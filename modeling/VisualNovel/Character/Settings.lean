import VisualNovel.Table.Cells
import VisualNovel.Table.Column

/-
  The characters of a story: the name each is shown under and the pictures of its patterns. A
  character sheet gives them row by row; a row without a name goes on with the character of the
  row before. A later name to show replaces an earlier one; of two pictures for one pattern the
  first counts.
-/

namespace VisualNovel.Character

open Text Table

/-- What is known of a character; the patterns with their files, in order. -/
structure Info where
  displayName : String
  patterns : List (String × String)
  deriving Repr, DecidableEq

namespace Info

/-- The file of a pattern, or of the first pattern. -/
def file? (i : Info) : Option String → Option String
  | none => i.patterns.head?.map Prod.snd
  | some pattern => i.patterns.lookup pattern

/-- The first pattern. -/
def defaultPattern? (i : Info) : Option String := i.patterns.head?.map Prod.fst

/-- Adds a pattern with its file unless it is there already. -/
def addPattern (i : Info) (pattern file : String) : Info :=
  if (i.patterns.lookup pattern).isSome then i
  else { i with patterns := i.patterns ++ [(pattern, file)] }

end Info

/-- What one row of a sheet says about a character. -/
structure Entry where
  displayName? : Option String
  pattern? : Option String
  file? : Option String
  deriving Repr, DecidableEq

/-- What is known of a character after an entry; a pattern counts only with a file. -/
def Info.update (i : Info) (e : Entry) : Info :=
  let i := { i with displayName := e.displayName?.getD i.displayName }
  match e.pattern?, e.file? with
  | some pattern, some file => i.addPattern pattern file
  | _, _ => i

/-- The characters by name. -/
structure Settings where
  characters : List (String × Info)
  deriving Repr, DecidableEq

namespace Settings

/-- No characters. -/
def empty : Settings := ⟨[]⟩

/-- What is known of a character. -/
def get? (s : Settings) (name : String) : Option Info := s.characters.lookup name

/-- The number of characters. -/
def size (s : Settings) : Nat := s.characters.length

/-- Puts an entry into a list of characters. -/
def addTo (name : String) (e : Entry) : List (String × Info) → List (String × Info)
  | [] => [(name, Info.update ⟨name, []⟩ e)]
  | (n, i) :: rest => if n = name then (n, i.update e) :: rest else (n, i) :: addTo name e rest

/-- Adds an entry; a character that is new is shown under its own name. -/
def add (s : Settings) (name : String) (e : Entry) : Settings := ⟨addTo name e s.characters⟩

/-- What a row says; without a file the pattern names it. -/
def entryOf (r : Row) : Entry :=
  let pattern := (r.cell? Column.pattern.header).map trim
  { displayName? := r.cell? Column.nameText.header
    pattern? := pattern
    file? := (((r.cell? Column.fileName.header).map trim).orElse fun _ => pattern) }

/-- Adds the rows of a sheet, those without a name to the character `current`. -/
def addRows : Option String → List Row → Settings → Settings
  | _, [], s => s
  | current, r :: rest, s =>
    if r.isEmpty then addRows current rest s
    else
      match ((r.cell? Column.characterName.header).map trim).orElse fun _ => current with
      | none => addRows none rest s
      | some name => addRows (some name) rest (s.add name (entryOf r))

/-- The characters of a sheet. -/
def ofTable (t : CellTable) : Settings := addRows none t.dataRows empty

end Settings

end VisualNovel.Character
