import VisualNovel.Configuration.Basic
import VisualNovel.Disk.FileTree
import VisualNovel.Scenario.Corpus

/-
  Scripts and character sheets as files. A table is named after its file, without the extension.
-/

namespace VisualNovel.Scenario

open VisualNovel.Configuration (ScriptSettings)
open Disk (FileTree)
open Table (CellTable)

/-- Reads the table at a path. -/
def loadTable (files : FileTree) (script : ScriptSettings) (path : String) :
    Except Error CellTable :=
  match files.readText path with
  | .error e => .error (.persistence ("Failed to read script: " ++ e.text) path)
  | .ok text => do
    let table ←
      CellTable.ofDelimited ((Disk.stem? path).getD "script") text (script.delimiterFor path)
    pure (table.withHeaderRow script.headerRow)

/-- Reads the tables at some paths, after those that are there. -/
def loadTables (files : FileTree) (script : ScriptSettings) :
    List String → Library → Except Error Library
  | [], l => .ok l
  | path :: rest, l => do
    let table ← loadTable files script path
    loadTables files script rest (l.insert table true)

/-- Reads the character sheet that is configured; without one there are no characters. -/
def loadCharacters (files : FileTree) (script : ScriptSettings) :
    Except Error Character.Settings :=
  match script.characters? with
  | none => .ok .empty
  | some path => (loadTable files script path).map Character.Settings.ofTable

/-- A corpus without scenarios, as it is configured. -/
def loadCorpus (files : FileTree) (settings : Configuration.Settings) : Except Error Corpus := do
  let characters ← loadCharacters files settings.script
  pure (.ofSettings .standard ⟨settings.assets, characters⟩)

end VisualNovel.Scenario
