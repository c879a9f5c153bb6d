import VisualNovel.Scenario.Compile
import VisualNovel.Scenario.Library

/-
  The scenarios that were compiled so far. A table is compiled once, and under its name stays
  what it was then; a label leads to the first scenario that has it.
-/

namespace VisualNovel.Scenario

open Command (Factory HostReader Settings)
open Table (CellTable)

/-- How rows are read, and the scenarios in the order they were compiled. -/
structure Corpus where
  factory : Factory
  settings : Settings
  scenarios : List Scenario

namespace Corpus

/-- A corpus without scenarios. -/
def ofSettings (factory : Factory) (settings : Settings) : Corpus := ⟨factory, settings, []⟩

/-- The scenario of a table's name. -/
def named? (c : Corpus) (name : String) : Option Scenario :=
  c.scenarios.find? fun s => s.name == name

/-- The scenario of a label. -/
def scenario? (c : Corpus) (label : String) : Option Scenario :=
  c.scenarios.find? fun s => (s.labelIndex? label).isSome

/-- Compiles a table, unless one of its name was. -/
def compile (c : Corpus) (t : CellTable) : Corpus × Scenario :=
  match c.named? t.name with
  | some s => (c, s)
  | none =>
    let s := Scenario.compile c.factory c.settings t
    ({ c with scenarios := c.scenarios ++ [s] }, s)

/-- The scenario of a label, from a table of the source if need be. -/
def fetch {ς : Type} [TableSource ς] (c : Corpus) (source : ς) (label : String) :
    Corpus × Option Scenario :=
  match c.scenario? label with
  | some s => (c, some s)
  | none =>
    match TableSource.table? source label with
    | none => (c, none)
    | some t =>
      let c := (c.compile t).1
      (c, c.scenario? label)

/-- Adds a command of the game. -/
def register (c : Corpus) (tag : String) (reader : HostReader) : Corpus :=
  { c with factory := c.factory.register tag reader }

end Corpus

end VisualNovel.Scenario
