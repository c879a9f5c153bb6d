import VisualNovel.Json.Basic
import VisualNovel.Json.Token

/-
  What stands in a JSON text. It need not be read to the last: a part that nobody asks for may hold
  numbers out of range and broken texts, and be nested as deep as it likes.
-/

namespace VisualNovel.Json

/-- A value as it stands in a text. A name that is broken is none. -/
inductive Tree where
  | leaf (l : Leaf)
  | arr (items : List Tree)
  | obj (members : List (Option String × Tree))

/-- The value of a leaf, unless it cannot be read. -/
def Leaf.json? : Leaf → Option Json
  | null => some .null
  | bool b => some (.bool b)
  | int i => some (.int i)
  | float x => some (.float x)
  | str s => some (.str (String.ofList s))
  | farNumber | brokenText => none

/-- The text that a tree is. -/
def Tree.text? : Tree → Option String
  | .leaf (.str s) => some (String.ofList s)
  | _ => none

/-- The name that a leaf is, if it is a text. -/
def Leaf.name? : Leaf → Option (Option String)
  | str s => some (some (String.ofList s))
  | brokenText => some none
  | _ => none

mutual

/-- The value of a tree, unless there is something in it that cannot be read. -/
def Tree.json? : Tree → Option Json
  | .leaf l => l.json?
  | .arr items => (itemsJson? items).map .arr
  | .obj members => (membersJson? members).map .obj

/-- The values of items. -/
def itemsJson? : List Tree → Option (List Json)
  | [] => some []
  | t :: rest => t.json?.bind fun j => (itemsJson? rest).map (j :: ·)

/-- The values of members. -/
def membersJson? : List (Option String × Tree) → Option (List (String × Json))
  | [] => some []
  | (name?, t) :: rest =>
    name?.bind fun name =>
      t.json?.bind fun j => (membersJson? rest).map ((name, j) :: ·)

end

mutual

/-- How deep a tree is nested. -/
def Tree.depth : Tree → Nat
  | .leaf _ => 0
  | .arr items => itemsDepth items + 1
  | .obj members => membersDepth members + 1

/-- How deep items are nested. -/
def itemsDepth : List Tree → Nat
  | [] => 0
  | t :: rest => max t.depth (itemsDepth rest)

/-- How deep members are nested. -/
def membersDepth : List (Option String × Tree) → Nat
  | [] => 0
  | (_, t) :: rest => max t.depth (membersDepth rest)

end

end VisualNovel.Json
