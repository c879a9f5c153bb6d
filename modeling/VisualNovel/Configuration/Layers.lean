import VisualNovel.Decimal.Reading
import VisualNovel.Disk.FileTree
import VisualNovel.Json.Reader
import VisualNovel.Toml.Reader

/-
  Configuration files and how they lie over each other. A file is in TOML or in JSON, as its
  name says; a name without its extension stands for the file with one. Of two layers the upper
  one counts, but tables go together member by member. A name at the top of a file can be a path
  into the tables below it.
-/

namespace VisualNovel.Configuration

open Disk (Content FileTree)

/-! ## Layers -/

/-- Puts a member in the place of another of its name, or at the end. -/
def putMember (name : String) (v : Json) : List (String × Json) → List (String × Json)
  | [] => [(name, v)]
  | (n, w) :: rest => if n = name then (name, v) :: rest else (n, w) :: putMember name v rest

/-- The value of a member, or null. -/
def memberOf (members : List (String × Json)) (name : String) : Json :=
  (members.lookup name).getD .null

mutual

/-- Lays a value over another. -/
def overlay (below : Json) : Json → Json
  | .obj members => .obj (overlayMembers below.members members)
  | v => v

/-- Lays members over others. -/
def overlayMembers (below : List (String × Json)) : List (String × Json) → List (String × Json)
  | [] => below
  | (name, v) :: rest =>
    overlayMembers (putMember name (overlay (memberOf below name) v) below) rest

end

/-! ## Names at the top -/

/-- A step of a path into tables and arrays. -/
inductive Step where
  | member (name : String)
  | item (index : Nat)
  deriving Repr, DecidableEq

/-- A character of a name in a path. -/
def isNamePart (c : Char) : Bool :=
  ('a' ≤ c && c ≤ 'z') || ('A' ≤ c && c ≤ 'Z') || c.isDigit || c == '_' || c == '-'

/-- Reads a name of a path. -/
def readName? (s : List Char) : Option (Step × List Char) :=
  let name := s.takeWhile isNamePart
  if name.isEmpty then none else some (.member (String.ofList name), s.drop name.length)

/-- Reads the steps behind the first name, `fuel` at most. -/
def readSteps? : Nat → List Char → Option (List Step)
  | _, [] => some []
  | 0, _ => none
  | fuel + 1, '.' :: s => do
    let (step, rest) ← readName? s
    (readSteps? fuel rest).map (step :: ·)
  | fuel + 1, '[' :: s => do
    let digits := s.takeWhile Char.isDigit
    match s.drop digits.length with
    | ']' :: rest =>
      let index ← Decimal.readDigits? digits
      (readSteps? fuel rest).map (.item index :: ·)
    | _ => none
  | _, _ => none

/-- The path that a name at the top stands for; a name that is no path stands for itself. -/
def pathOf (name : String) : List Step :=
  let s := name.toList
  match (readName? s).bind fun (step, rest) => (readSteps? s.length rest).map (step :: ·) with
  | some steps => steps
  | none => [.member name]

/-- Lays a value over what lies at a path. -/
def overlayAt (v : Json) : List Step → Json → Json
  | [], below => overlay below v
  | .member name :: path, below =>
    let members := below.members
    .obj (putMember name (overlayAt v path (memberOf members name)) members)
  | .item index :: path, below =>
    let items := below.items
    let items := items ++ List.replicate (index + 1 - items.length) .null
    .arr (items.set index (overlayAt v path (items.getD index .null)))

/-- Lays a document over another. -/
def overlayDocument (below document : Json) : Json :=
  document.members.foldl (fun below m => overlayAt m.2 (pathOf m.1) below) below

/-! ## Files -/

/-- The formats of configuration files. -/
inductive Format where
  | toml
  | json
  deriving Repr, DecidableEq

/-- The extension of a format. -/
def Format.extension : Format → String
  | toml => "toml"
  | json => "json"

/-- All formats. -/
def Format.all : List Format := [toml, json]

mutual

/-- A document as it is configured from: greater integers than those of 64 bits are of double
    precision, and of two members with one name the last counts. -/
def bounded : Json → Json
  | .int i => if Decimal.IntRange.int64.holds i then .int i else .float (Float.ofInt i)
  | .arr items => .arr (boundedItems items)
  | .obj members => .obj (boundedMembers members)
  | v => v

/-- Items as they are configured from. -/
def boundedItems : List Json → List Json
  | [] => []
  | v :: rest => bounded v :: boundedItems rest

/-- Members as they are configured from. -/
def boundedMembers : List (String × Json) → List (String × Json)
  | [] => []
  | (name, v) :: rest =>
    let members := boundedMembers rest
    if (members.lookup name).isSome then members else (name, bounded v) :: members

end

/-- Reads a document, which is a table. -/
def Format.read? (format : Format) (text : String) : Option Json :=
  match format with
  | toml => Toml.read? text
  | json =>
    match (Json.read? text).map bounded with
    | some (.obj members) => some (.obj members)
    | _ => none

/-- The file that a path stands for: the file at the path, which has to tell its format, or else
    the first with an extension behind it. -/
def findFile? (files : FileTree) (path : String) : Option (String × Format) :=
  if files.isFile path then
    let extension := (Disk.extension? path).getD ""
    (Format.all.find? fun f => f.extension == extension).map fun f => (path, f)
  else
    (Format.all.map fun f => (path ++ "." ++ f.extension, f)).find? fun c => files.isFile c.1

/-- The text of a content, read kindly and without the mark that may stand before it. -/
def textOf (content : Content) : String :=
  let text :=
    match content with
    | .text s => s
    | .bytes bs => Text.decodeUtf8Kindly bs
  Text.dropLeading (Char.ofNat 0xFEFF) text

/-- What a layer has to say. -/
inductive Layer where
  | missing
  | unreadable
  | document (tree : Json)

/-- Reads the layer that a path stands for. -/
def layerAt (files : FileTree) (path : String) : Layer :=
  match findFile? files path with
  | none => .missing
  | some (file, format) =>
    match files.read file with
    | .error _ => .missing
    | .ok content =>
      match format.read? (textOf content) with
      | some tree => .document tree
      | none => .unreadable

end VisualNovel.Configuration
