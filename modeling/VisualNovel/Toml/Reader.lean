import VisualNovel.Toml.Lexeme
import VisualNovel.Toml.Tree

/-
  Reading TOML documents. A document is a series of lines: headers and keys with values. Values
  nest in arrays and in tables of one line. The depth of nesting is bounded by the length of the
  document, so the readers count down from there.
-/

namespace VisualNovel.Toml

mutual

/-- Reads a value. -/
def readValue? : Nat → List Char → Option (Json × List Char)
  | 0, _ => none
  | fuel + 1, s =>
    match s with
    | '[' :: rest => (readItems? fuel rest).map fun (items, rest) => (.arr items, rest)
    | '\x7b' :: rest =>
      (readMembers? fuel [] rest).map fun (ms, rest) => (.obj (membersJson ms), rest)
    | c :: _ =>
      if c = '"' ∨ c = '\x27' then (readText? s).map fun (text, rest) => (.str text, rest)
      else readPlain? s
    | [] => none

/-- Reads the items of an array up to its bracket. A comma may stand behind the last one. -/
def readItems? : Nat → List Char → Option (List Json × List Char)
  | 0, _ => none
  | fuel + 1, s =>
    match skipAll s with
    | ']' :: rest => some ([], rest)
    | s => do
      let (item, rest) ← readValue? fuel s
      match skipAll rest with
      | ',' :: rest =>
        let (items, rest) ← readItems? fuel rest
        some (item :: items, rest)
      | ']' :: rest => some ([item], rest)
      | _ => none

/-- Reads the members of a table up to its brace, after those that were read. A comma may stand
    behind the last one. -/
def readMembers? : Nat → Members → List Char → Option (Members × List Char)
  | 0, _, _ => none
  | fuel + 1, ms, s =>
    match skipAll s with
    | '\x7d' :: rest => some (ms, rest)
    | s => do
      let (path, rest) ← readPath? s
      let rest ← exactly? '=' rest
      let (v, rest) ← readValue? fuel (skipGaps rest)
      let ms ← define? v false false path ms
      match skipAll rest with
      | ',' :: rest => readMembers? fuel ms rest
      | '\x7d' :: rest => some (ms, rest)
      | _ => none

end

/-- A line of a document. -/
inductive Statement where
  | table (path : List String)
  | series (path : List String)
  | entry (path : List String) (value : Json)

/-- Reads a header up to its bracket. -/
def readHeader? (s : List Char) : Option (List String × List Char) := do
  let (path, rest) ← readPath? s
  some (path, ← exactly? ']' rest)

/-- Reads a line that is not empty. -/
def readStatement? (s : List Char) : Option (Statement × List Char) := do
  let (statement, rest) ←
    match s with
    | '[' :: '[' :: rest => do
      let (path, rest) ← readHeader? rest
      some (Statement.series path, ← exactly? ']' rest)
    | '[' :: rest => (readHeader? rest).map fun (path, rest) => (Statement.table path, rest)
    | _ => do
      let (path, rest) ← readPath? s
      let rest ← exactly? '=' rest
      let (v, rest) ← readValue? rest.length (skipGaps rest)
      some (Statement.entry path v, rest)
  some (statement, ← lineEnd? rest)

/-- Reads the lines of a document, `fuel` at most. -/
def readStatements? : Nat → List Char → Option (List Statement)
  | 0, _ => none
  | fuel + 1, s =>
    match skipAll s with
    | [] => some []
    | s => do
      let (statement, rest) ← readStatement? s
      (readStatements? fuel rest).map (statement :: ·)

/-- Splits a path into the tables on the way and its last key. -/
def splitPath : List String → List String × String
  | [] => ([], "")
  | [key] => ([], key)
  | key :: path => let (way, last) := splitPath path; (key :: way, last)

/-- The document with the lines that follow, under the header `current`. -/
def build? : List String → Members → List Statement → Option Members
  | _, ms, [] => some ms
  | current, ms, .entry path v :: rest =>
    (within? (define? v false false path) current ms).bind fun ms => build? current ms rest
  | _, ms, .table path :: rest =>
    let (way, last) := splitPath path
    (within? (openTable? last) way ms).bind fun ms => build? path ms rest
  | _, ms, .series path :: rest =>
    let (way, last) := splitPath path
    (within? (openSeries? last) way ms).bind fun ms => build? path ms rest

/-- Reads a document. -/
def read? (text : String) : Option Json := do
  let s := text.toList
  let statements ← readStatements? (s.length + 1) s
  let ms ← build? [] [] statements
  some (.obj (membersJson ms))

end VisualNovel.Toml
