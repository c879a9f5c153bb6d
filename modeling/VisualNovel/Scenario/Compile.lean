import VisualNovel.Command.Reading

/-
  Scenarios: the commands of a script in order, with the places of its labels. A row of commands
  that has to be closed is closed right behind its last command, unless the script closes it
  itself. A row that cannot be read is left out and reported; so are a label that is there
  already, whose first place counts, and what does not fit together as blocks.
-/

namespace VisualNovel

/-- A script as it is played. -/
structure Scenario where
  name : String
  commands : List Command
  labels : List (String × Nat)
  diagnostics : List Error

namespace Scenario

open Command (Factory Settings Tag)
open Table (CellTable Row)

/-! ## Commands -/

/-- The commands of rows and the errors in their places; blank rows and rows without a command
    leave nothing. -/
def readRows (f : Factory) (s : Settings) (rows : List Row) : List (Except Error Command) :=
  rows.filterMap fun r =>
    if r.isEmpty then none
    else
      match f.read s r with
      | .ok none => none
      | .ok (some c) => some (.ok c)
      | .error e => some (.error e)

/-- What a row of commands is waiting for: the name its commands share and the command that
    closes it. -/
abbrev Opening := String × Command

/-- What is waited for after a command. Nothing was waited for before it, or a row that this
    command goes on with. -/
def opening? (o : Option Opening) (c : Command) : Option Opening :=
  match o with
  | some opening => some opening
  | none => c.closing?.map fun closing => (c.tag, closing)

/-- Puts the closing commands in, for a row that began with `o`. -/
def closeRows : Option Opening → List Command → List Command
  | none, [] => []
  | some o, [] => [o.2]
  | none, c :: rest => c :: closeRows (opening? none c) rest
  | some o, c :: rest =>
    if c.tag = o.1 then c :: closeRows (some o) rest
    else if c.tag = o.2.tag then c :: closeRows (opening? none c) rest
    else o.2 :: c :: closeRows (opening? none c) rest

/-- Adds a label to an index that does not have it. -/
def addLabel (index : List (String × Nat)) (label : String × Nat) : List (String × Nat) :=
  if (index.lookup label.1).isSome then index else index ++ [label]

/-- The labels of commands with their first places. -/
def labelsOf (commands : List Command) : List (String × Nat) :=
  (commands.zipIdx.filterMap fun c => c.1.label?.map fun l => (l, c.2)).foldl addLabel []

/-! ## Diagnostics -/

/-- What the commands up to some place make up: the number of open blocks and the labels. -/
structure Outline where
  depth : Nat
  labels : List String
  deriving Repr, DecidableEq

/-- The outline with a command that opens or closes a block, and the error if no block is open
    for it. Commands count by their names. -/
def Outline.nest (o : Outline) (c : Command) : Outline × List Error :=
  if c.tag = Tag.ifStart.name then ({ o with depth := o.depth + 1 }, [])
  else if c.tag = Tag.endIf.name ∨ c.tag = Tag.elseIf.name ∨ c.tag = Tag.elseBranch.name then
    if o.depth = 0 then
      (o, [.scenario (.unmatchedConditional (c.tag ++ " at " ++ c.context.text))])
    else if c.tag = Tag.endIf.name then ({ o with depth := o.depth - 1 }, [])
    else (o, [])
  else (o, [])

/-- The outline with the label of a command, and the error if it has that label already. -/
def Outline.name (o : Outline) (scenario : String) (c : Command) : Outline × List Error :=
  match c.label? with
  | none => (o, [])
  | some label =>
    if label ∈ o.labels then (o, [.scenario (.duplicateLabel label scenario)])
    else ({ o with labels := o.labels ++ [label] }, [])

/-- The errors of a script from some place on. -/
def diagnose (scenario : String) : Outline → List (Except Error Command) → List Error
  | o, [] =>
    if o.depth = 0 then []
    else
      [.scenario (.unmatchedConditional
        (Decimal.natText o.depth ++ " If block(s) left open in " ++ scenario))]
  | o, .error e :: rest => e :: diagnose scenario o rest
  | o, .ok c :: rest =>
    let (o, nesting) := o.nest c
    let (o, naming) := o.name scenario c
    nesting ++ naming ++ diagnose scenario o rest

/-! ## Compiling -/

/-- The commands that could be read. -/
def commandsOf (results : List (Except Error Command)) : List Command :=
  results.filterMap Except.toOption

/-- The scenario of a table. -/
def compile (f : Factory) (s : Settings) (t : CellTable) : Scenario :=
  let results := readRows f s t.dataRows
  let commands := closeRows none (commandsOf results)
  { name := t.name
    commands
    labels := labelsOf commands
    diagnostics := diagnose t.name ⟨0, []⟩ results }

/-! ## Places -/

/-- The place of a label. -/
def labelIndex? (s : Scenario) (label : String) : Option Nat := s.labels.lookup label

/-- The place behind the page that is the `page`-th of those that begin in `commands`, which are
    the commands from `index` on; no label may lie before it. -/
def seekPage? (page : Nat) (index : Nat) : List Command → Option Nat
  | [] => none
  | c :: rest =>
    if c.label?.isSome then none
    else if c.beginsPage then
      if page ≤ 1 then some (index + 1) else seekPage? (page - 1) (index + 1) rest
    else seekPage? page (index + 1) rest

/-- Where a page of a label begins: at the label itself, or behind the page before. -/
def seek (s : Scenario) (label : String) (page : Int) : Except Error Nat :=
  match s.labelIndex? label with
  | none => .error (.scenario (.undefinedLabel label))
  | some start =>
    if page ≤ 0 then .ok start
    else
      match seekPage? page.toNat (start + 1) (s.commands.drop (start + 1)) with
      | some index => .ok index
      | none => .error (.scenario (.pageOutOfRange label page))

end Scenario

end VisualNovel
