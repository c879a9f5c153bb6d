import VisualNovel.Configuration.Basic
import VisualNovel.Configuration.Layers
import VisualNovel.Text.Blank

/-
  Reading a configuration off its tree. Texts, numbers and truth values stand for each other
  where one is wanted and another was given; a group of settings can also be given as an array,
  in order. What is missing has its usual value, and what is not known is passed over. Without a
  file of its own a program reads its defaults, then a file in the home directory, then a file
  in the current directory, one over the other.
-/

namespace VisualNovel.Configuration

open Asset (Category Directories Directory)
open Disk (FileTree)
open Expression (Params Value)
open Table (Delimiter)

/-! ## Values -/

/-- The number nearest to a float, halves away from zero, within the numbers of 64 bits. -/
def naturalOf (x : Float) : Nat :=
  match Decimal.BinaryFormat.double.decode x.toBits.toNat with
  | .nan => 0
  | .infinite =>
    if Decimal.BinaryFormat.double.isNegative x.toBits.toNat then 0 else Nat.pow 2 64 - 1
  | .finite m e =>
    if Decimal.BinaryFormat.double.isNegative x.toBits.toNat then 0
    else
      let rounded :=
        if 0 ≤ e then m * Nat.pow 2 e.toNat
        else (2 * m + Nat.pow 2 (-e).toNat) / (2 * Nat.pow 2 (-e).toNat)
      min rounded (Nat.pow 2 64 - 1)

/-- The number that a word or a spelling stands for. -/
def naturalOfText? (s : String) : Option Nat :=
  let word := Text.lowerAscii s
  if word = "true" ∨ word = "on" ∨ word = "yes" then some 1
  else if word = "false" ∨ word = "off" ∨ word = "no" then some 0
  else (Decimal.IntRange.uint64.read? s.toList).map Int.toNat

/-- A natural number. -/
def natural? : Json → Option Nat
  | .int i => if 0 ≤ i then some i.toNat else none
  | .str s => naturalOfText? s
  | .bool b => some (if b then 1 else 0)
  | .float x => some (naturalOf x)
  | _ => none

/-- A text. -/
def text? : Json → Option String
  | .str s => some s
  | .int i => some (Decimal.intText i)
  | .bool b => some (if b then "true" else "false")
  | .float x => some (Decimal.floatText x)
  | _ => none

/-- A value that null leaves out. -/
def optional? {α : Type} (read : Json → Option α) : Json → Option (Option α)
  | .null => some none
  | v => (read v).map some

/-- A value that is missing or has to be read. -/
def orUsual? {α : Type} (usual : α) (read : Json → Option α) : Option Json → Option α
  | none => some usual
  | some v => read v

/-- The values of a group of settings by their names, or in their order. -/
def group? (names : List String) : Json → Option (List (Option Json))
  | .obj members => some (names.map fun name => members.lookup name)
  | .arr items => some ((List.range names.length).map fun i => items[i]?)
  | _ => none

/-! ## Settings -/

/-- The settings of the player. -/
def player? (v : Json) : Option PlayerSettings := do
  let usual : PlayerSettings := {}
  match ← group? ["preload_cap", "frame_interval_ms"] v with
  | [cap, interval] =>
    some ⟨← orUsual? usual.preloadCap natural? cap,
      ← orUsual? usual.frameInterval natural? interval⟩
  | _ => none

/-- A delimiter by its name, or by a table with nothing but its name. -/
def delimiter? : Json → Option Delimiter
  | .str name => Delimiter.ofName? name
  | .obj [(name, _)] => Delimiter.ofName? name
  | _ => none

/-- The settings for scripts. -/
def script? (v : Json) : Option ScriptSettings := do
  match ← group? ["delimiter", "header_row", "characters"] v with
  | [delimiter, headerRow, characters] =>
    some ⟨← orUsual? none (optional? delimiter?) delimiter, ← orUsual? 0 natural? headerRow,
      ← orUsual? none (optional? text?) characters⟩
  | _ => none

/-- A directory, with both of its parts. -/
def directory? (v : Json) : Option Directory := do
  match ← group? ["dir", "ext"] v with
  | [some dir, some ext] => some ⟨← text? dir, ← text? ext⟩
  | _ => none

/-- The directories that are given for categories. -/
def directories? : List (Category × Option Json) → Option (List (Category × Directory))
  | [] => some []
  | (_, none) :: rest => directories? rest
  | (c, some v) :: rest => do
    let d ← directory? v
    (directories? rest).map ((c, d) :: ·)

/-- Where assets lie. -/
def assets? (v : Json) : Option Directories := do
  match ← group? ("root" :: Category.all.map Category.name) v with
  | root :: given =>
    some ⟨← orUsual? "" text? root, ← directories? (Category.all.zip given)⟩
  | [] => none

/-- The value of a parameter. -/
def param? : Json → Option Value
  | .bool b => some (.bool b)
  | .int i => some (.int (Int64.ofInt i))
  | .float x => some (.float x)
  | .str s => some (.str s)
  | _ => none

/-- The parameters of a story. -/
def params? : Json → Option Params
  | .obj members =>
    members.foldlM (fun ps m => (param? m.2).map fun v => ps.set m.1 v) Params.empty
  | _ => none

/-- A list of texts. -/
def texts? : Json → Option (List String)
  | .arr items => items.mapM text?
  | _ => none

/-- A whole configuration. -/
def settings? (tree : Json) : Option Settings := do
  let given (name : String) := tree.members.lookup name
  some ⟨← orUsual? {} player? (given "player"), ← orUsual? {} script? (given "script"),
    ← orUsual? .standard assets? (given "assets"), ← orUsual? .empty params? (given "params"),
    ← orUsual? [] texts? (given "gallery_labels")⟩

/-! ## Configurations -/

/-- The error of a tree that is no configuration. -/
def ofTree (tree : Json) : Except Error Settings :=
  match settings? tree with
  | some s => .ok s
  | none => .error (.configuration "Failed to parse configuration")

/-- Reads the configuration at a path. -/
def ofFile (files : FileTree) (path : String) : Except Error Settings :=
  match layerAt files path with
  | .document tree => ofTree (overlayDocument (.obj []) tree)
  | _ => .error (.configuration ("Failed to read configuration from " ++ path))

/-- What a program starts from when nothing is configured. -/
def defaults : Json :=
  let player : PlayerSettings := {}
  let script : ScriptSettings := {}
  let directories := Category.all.map fun c =>
    (c.name, Json.obj [("dir", .str c.directory.dir), ("ext", .str c.directory.ext)])
  .obj
    [("gallery_labels", .arr []),
      ("player", .obj [("preload_cap", .int player.preloadCap),
        ("frame_interval_ms", .int player.frameInterval)]),
      ("script", .obj [("header_row", .int script.headerRow)]),
      ("assets", .obj (("root", .str "") :: directories)),
      ("params", .obj [])]

/-- The file in the home directory. -/
def homeFile (home : String) : String :=
  Disk.joinPath home (".config/" ++ programName ++ "/" ++ programName ++ ".toml")

/-- The file in the current directory, without its extension. -/
def currentFile : String := programName

/-- Lays the layers over the defaults; a missing one says nothing. -/
def overlayLayers : Json → List Layer → Except Error Json
  | tree, [] => .ok tree
  | tree, .missing :: rest => overlayLayers tree rest
  | tree, .document document :: rest => overlayLayers (overlayDocument tree document) rest
  | _, .unreadable :: _ => .error (.configuration "Failed to build configuration")

/-- Reads the configuration of a program that is given none. -/
def load (files : FileTree) (home : String) : Except Error Settings :=
  (overlayLayers defaults [layerAt files (homeFile home), layerAt files currentFile]).bind ofTree

end VisualNovel.Configuration
