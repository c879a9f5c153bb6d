import VisualNovel.Decimal.Reading
import VisualNovel.Disk.FileTree
import VisualNovel.Error
import VisualNovel.History.Basic
import VisualNovel.Json.Printer
import VisualNovel.Json.Reader

/-
  The reading history as a file in JSON. An object holds its parts by name, an array by their
  order; a part that is missing is empty, a part given twice is an error, and what the reader
  does not know it passes over, whatever stands there. Where no file is seen, be it that there is
  none or that a directory on the way is closed, there is an empty history.
-/

namespace VisualNovel.History

open Json (Tree)
open Stage (SavePoint)

/-! ## Reading -/

/-- The members of an object, if none of their names is broken. -/
def named? (members : List (Option String × Tree)) : Option (List (String × Tree)) :=
  members.mapM fun m => m.1.map fun name => (name, m.2)

/-- A page number. -/
def pageOfTree? : Tree → Option Int
  | .leaf (.int i) => if Decimal.IntRange.int32.holds i then some i else none
  | _ => none

/-- Puts an entry into an ordered list, over an older one with the same label. -/
def setPage (label : String) (page : Int) (pages : List (String × Int)) : List (String × Int) :=
  ReadHistory.insertPage label page (pages.filter fun p => p.1 != label)

/-- The furthest pages by label. -/
def pagesOfTree? : Tree → Option (List (String × Int))
  | .obj members => do
    (← named? members).foldlM
      (fun pages m => (pageOfTree? m.2).map fun page => setPage m.1 page pages) []
  | _ => none

/-- A set of scenes. -/
def scenesOfTree? : Tree → Option (List String)
  | .arr items =>
    items.foldlM (fun s t => t.text?.map fun scene => ReadHistory.insertScene scene s) []
  | _ => none

/-- The value of a part that is given at most once. -/
def part? (members : List (String × Tree)) (name : String) : Option (Option Tree) :=
  match Json.valuesOf members name with
  | [] => some none
  | [t] => some (some t)
  | _ => none

/-- A place to come back to. -/
def saveOfTree? : Tree → Option SavePoint
  | .obj members => do
    let members ← named? members
    let label ← (← part? members "label").bind Tree.text?
    let page ← (← part? members "page").bind pageOfTree?
    some ⟨label, page⟩
  | .arr [label, page] => do some ⟨← label.text?, ← pageOfTree? page⟩
  | _ => none

/-- The last save, or none. -/
def lastSaveOfTree? : Tree → Option (Option SavePoint)
  | .leaf .null => some none
  | t => (saveOfTree? t).map some

/-- A history of its parts, those that are missing empty. -/
def ofParts? (pages scenes save : Option Tree) : Option ReadHistory := do
  let pages ← (pages.map pagesOfTree?).getD (some [])
  let scenes ← (scenes.map scenesOfTree?).getD (some [])
  let save ← (save.map lastSaveOfTree?).getD (some none)
  some ⟨pages, scenes, save⟩

/-- Reads a history. -/
def ofTree? : Tree → Option ReadHistory
  | .obj members => do
    let members ← named? members
    ofParts? (← part? members "pages") (← part? members "viewed_scenes")
      (← part? members "last_save")
  | .arr items =>
    if items.length ≤ 3 then ofParts? items[0]? items[1]? items[2]? else none
  | _ => none

/-! ## Writing -/

/-- A place to come back to, as JSON. -/
def jsonOfSave (p : SavePoint) : Json := .obj [("label", .str p.label), ("page", .int p.page)]

/-- A history as JSON. -/
def toJson (h : ReadHistory) : Json :=
  .obj
    [("pages", .obj (h.pages.map fun p => (p.1, .int p.2))),
      ("viewed_scenes", .arr (h.viewedScenes.map .str)),
      ("last_save", ((h.lastSave?.map jsonOfSave).getD .null))]

/-! ## Files -/

/-- Reads the history at a path; there is nothing read yet if nothing is seen there. -/
def load (files : Disk.FileTree) (path : String) : Except Error ReadHistory :=
  if files.holds path then
    match files.readText path with
    | .error e => .error (.persistence ("Failed to read history file: " ++ e.text) path)
    | .ok text =>
      match (Json.readTree? text).bind ofTree? with
      | some h => .ok h
      | none => .error (.persistence "Failed to parse history file" path)
  else .ok .empty

/-- Writes a history to a path. -/
def save (h : ReadHistory) (files : Disk.FileTree) (path : String) :
    Except Error Disk.FileTree :=
  match files.writeText path (toJson h).print with
  | .ok files => .ok files
  | .error e => .error (.persistence ("Failed to write history file: " ++ e.text) path)

end VisualNovel.History
