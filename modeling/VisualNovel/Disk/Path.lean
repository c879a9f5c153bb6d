import VisualNovel.Text.Blank

/-
  Paths with slashes. The name a path leads to is its last part, empty parts and single dots
  left out; two dots lead to no name. A name splits at its last dot into stem and extension,
  unless that dot is its first character.
-/

namespace VisualNovel.Disk

open Text

/-- The parts of a path that lead somewhere: all but the empty ones and the single dots. -/
def parts (path : String) : List String :=
  (splitAt '/' path).filter fun p => !(p == "" || p == ".")

/-- The name a path ends in. -/
def fileName? (path : String) : Option String :=
  (parts path).getLast?.bind fun name => if name = ".." then none else some name

/-- The stem of a name and what follows its last dot. -/
def splitName (name : String) : String × Option String :=
  let cs := name.toList
  let after := (cs.reverse.takeWhile (· != '.')).reverse
  let before := cs.take (cs.length - after.length - 1)
  if before.isEmpty then (name, none) else (String.ofList before, some (String.ofList after))

/-- The extension of a path, without its dot. -/
def extension? (path : String) : Option String := (fileName? path).bind fun n => (splitName n).2

/-- The last name of a path without its extension. -/
def stem? (path : String) : Option String := (fileName? path).map fun n => (splitName n).1

/-- Whether a path starts at the root. -/
def isAbsolute (path : String) : Bool := path.toList.head? == some '/'

/-- The path `path` as seen from `base`; an absolute path stays itself. -/
def joinPath (base path : String) : String :=
  if isAbsolute path || base == "" then path
  else if base.toList.getLast? == some '/' then base ++ path
  else base ++ "/" ++ path

end VisualNovel.Disk
