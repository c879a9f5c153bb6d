import VisualNovel.Json.Basic

/-
  Building up a document table by table. A table can be defined once: by a header, by the dots
  of keys, or as a value. A header may go on below a table that other headers or dots brought
  about, but may not define it again; the dots of a key do not reach into a table that a header
  has defined.
-/

namespace VisualNovel.Toml

/-- What a key stands for while a document is read: a value; a table, brought about on the way
    to another (`implicit`) or not, by dots (`dotted`) or not; or a series of tables, the last
    one first. -/
inductive Node where
  | value (v : Json)
  | table (implicit dotted : Bool) (members : List (String × Node))
  | series (tables : List (List (String × Node)))

/-- The members of a table. -/
abbrev Members := List (String × Node)

/-- Puts a node in the place of another of the same key, or at the end. -/
def Members.put (key : String) (node : Node) : Members → Members
  | [] => [(key, node)]
  | (k, n) :: rest => if k = key then (key, node) :: rest else (k, n) :: Members.put key node rest

/-- Defines a value below a table; `nested` says whether dots led to the table, `dotted` whether
    dots brought it about. -/
def define? (v : Json) (nested dotted : Bool) : List String → Members → Option Members
  | [], _ => none
  | [key], ms =>
    if nested != dotted || (ms.lookup key).isSome then none else some (ms ++ [(key, .value v)])
  | key :: path, ms =>
    match ms.lookup key with
    | none => (define? v true true path []).map fun sub => ms ++ [(key, .table true true sub)]
    | some (.table true dotted sub) =>
      (define? v true dotted path sub).map fun sub => ms.put key (.table true dotted sub)
    | some (.series (last :: others)) =>
      (define? v true false path last).map fun last => ms.put key (.series (last :: others))
    | _ => none

/-- Changes the table that a header named. -/
def within? (change : Members → Option Members) : List String → Members → Option Members
  | [], ms => change ms
  | key :: path, ms =>
    match ms.lookup key with
    | none => (within? change path []).map fun sub => ms ++ [(key, .table true false sub)]
    | some (.table implicit dotted sub) =>
      (within? change path sub).map fun sub => ms.put key (.table implicit dotted sub)
    | some (.series (last :: others)) =>
      (within? change path last).map fun last => ms.put key (.series (last :: others))
    | _ => none

/-- Opens the table of a header. -/
def openTable? (key : String) (ms : Members) : Option Members :=
  match ms.lookup key with
  | none => some (ms ++ [(key, .table false false [])])
  | some (.table true false sub) => some (ms.put key (.table false false sub))
  | _ => none

/-- Opens the next table of a series. -/
def openSeries? (key : String) (ms : Members) : Option Members :=
  match ms.lookup key with
  | none => some (ms ++ [(key, .series [[]])])
  | some (.series tables) => some (ms.put key (.series ([] :: tables)))
  | _ => none

mutual

/-- The value a node stands for. -/
def Node.toJson : Node → Json
  | .value v => v
  | .table _ _ members => .obj (membersJson members)
  | .series tables => .arr (tablesJson tables).reverse

/-- The values of members. -/
def membersJson : List (String × Node) → List (String × Json)
  | [] => []
  | (key, node) :: rest => (key, node.toJson) :: membersJson rest

/-- The values of tables. -/
def tablesJson : List (List (String × Node)) → List Json
  | [] => []
  | members :: rest => .obj (membersJson members) :: tablesJson rest

end

end VisualNovel.Toml
