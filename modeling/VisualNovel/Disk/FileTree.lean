import VisualNovel.Disk.Path
import VisualNovel.Text.Utf8

/-
  The files a program sees: a tree of directories below one root, and the directory from which
  paths without a leading slash are seen. A path is followed part by part. Every part but the
  last has to lead to a directory, and so has a last part with a slash behind it; two dots lead
  one directory up, and from the root nowhere else. A directory may be closed, and a file locked:
  nothing is seen behind the one, and the other is there but cannot be opened.
-/

namespace VisualNovel.Disk

open Text

/-- What a file holds: a text, or bytes that need not be one. -/
inductive Content where
  | text (s : String)
  | bytes (bs : List UInt8)
  deriving Repr, DecidableEq

/-- What lies at a place. -/
inductive Node where
  | directory
  | closed
  | file (content : Content)
  | locked
  deriving Repr, DecidableEq

/-- Why a file cannot be reached, read or written. -/
inductive DiskError where
  | notFound
  | notADirectory
  | isADirectory
  | accessDenied
  | nameTooLong
  | nulInName
  | notText
  deriving Repr, DecidableEq

/-- The wording of a failure. -/
def DiskError.text : DiskError → String
  | notFound => "No such file or directory (os error 2)"
  | notADirectory => "Not a directory (os error 20)"
  | isADirectory => "Is a directory (os error 21)"
  | accessDenied => "Permission denied (os error 13)"
  | nameTooLong => "File name too long (os error 36)"
  | nulInName => "file name contained an unexpected NUL byte"
  | notText => "stream did not contain valid UTF-8"

/-- The text of a content. -/
def Content.asText : Content → Except DiskError String
  | .text s => .ok s
  | .bytes bs =>
    match decodeUtf8? bs with
    | some s => .ok s
    | none => .error .notText

/-- A place: the names that lead to it from the root, the last one first. -/
abbrev Place := List String

/-- What lies at the places of the tree, and the place from which paths are seen. The root is a
    directory. -/
structure FileTree where
  entries : List (Place × Node)
  current : Place
  deriving Repr, DecidableEq

namespace FileTree

/-- What lies at a place. -/
def node? (t : FileTree) (place : Place) : Option Node :=
  if place = [] then some .directory else t.entries.lookup place

/-- The longest name, in bytes. -/
def maxName : Nat := 255

/-- The longest path, in bytes. -/
def maxPath : Nat := 4095

/-- Follows the parts of a path. -/
def walk (t : FileTree) : Place → Node → List String → Except DiskError (Place × Node)
  | place, node, [] => .ok (place, node)
  | _, .file _, _ :: _ | _, .locked, _ :: _ => .error .notADirectory
  | place, .closed, part :: rest =>
    if part = "" then walk t place .closed rest else .error .accessDenied
  | place, .directory, part :: rest =>
    if part = "" ∨ part = "." then walk t place .directory rest
    else if part = ".." then walk t place.tail .directory rest
    else if maxName < part.utf8ByteSize then .error .nameTooLong
    else
      match t.node? (part :: place) with
      | some node => walk t (part :: place) node rest
      | none => .error .notFound

/-- The place a path starts from. -/
def origin (t : FileTree) (path : String) : Place := if isAbsolute path then [] else t.current

/-- What keeps a path from being followed at all. -/
def pathFault? (path : String) : Option DiskError :=
  if path.toList.contains '\x00' then some .nulInName
  else if path = "" then some .notFound
  else if maxPath < path.utf8ByteSize then some .nameTooLong
  else none

/-- Follows a path to the place it leads to. -/
def resolve (t : FileTree) (path : String) : Except DiskError (Place × Node) :=
  match pathFault? path with
  | some e => .error e
  | none => walk t (t.origin path) .directory (splitAt '/' path)

/-- Whether something lies at a path. -/
def holds (t : FileTree) (path : String) : Bool := (t.resolve path).isOk

/-- Whether a path leads to a file. -/
def isFile (t : FileTree) (path : String) : Bool :=
  match t.resolve path with
  | .ok (_, .file _) | .ok (_, .locked) => true
  | _ => false

/-- The content of the file at a path. -/
def read (t : FileTree) (path : String) : Except DiskError Content :=
  match t.resolve path with
  | .error e => .error e
  | .ok (_, .directory) => .error .isADirectory
  | .ok (_, .closed) | .ok (_, .locked) => .error .accessDenied
  | .ok (_, .file content) => .ok content

/-- The text of the file at a path. -/
def readText (t : FileTree) (path : String) : Except DiskError String :=
  (t.read path).bind Content.asText

/-- Puts a node at a place. -/
def put (t : FileTree) (place : Place) (node : Node) : FileTree :=
  { t with entries := (place, node) :: t.entries.filter fun e => e.1 != place }

/-- Splits the parts of a path into those before the last and the last. -/
def splitLast : List String → List String × String
  | [] => ([], "")
  | [part] => ([], part)
  | part :: rest => let (before, last) := splitLast rest; (part :: before, last)

/-- Writes a text to a path; its directory has to be there. A path that ends in a slash or in
    dots names a directory. -/
def writeText (t : FileTree) (path text : String) : Except DiskError FileTree :=
  match pathFault? path with
  | some e => .error e
  | none =>
    let (before, name) := splitLast (splitAt '/' path)
    match walk t (t.origin path) .directory before with
    | .error e => .error e
    | .ok (_, .file _) | .ok (_, .locked) => .error .notADirectory
    | .ok (_, .closed) => if name = "" then .error .isADirectory else .error .accessDenied
    | .ok (place, .directory) =>
      if name = "" ∨ name = "." ∨ name = ".." then .error .isADirectory
      else if maxName < name.utf8ByteSize then .error .nameTooLong
      else
        match t.node? (name :: place) with
        | some .directory | some .closed => .error .isADirectory
        | some .locked => .error .accessDenied
        | _ => .ok (t.put (name :: place) (.file (.text text)))

end FileTree

end VisualNovel.Disk
