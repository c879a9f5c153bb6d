import VisualNovel.Json.Tree

/-
  Reading JSON. The frames are the arrays and objects that are open, the innermost first, each
  with what has been read of it, last first. A text holds one value. Where all of it is read, values
  nest less than 128 deep.
-/

namespace VisualNovel.Json

/-- An array or object that is open. -/
inductive Frame where
  | array (items : List Tree)
  | object (members : List (Option String × Tree)) (name? : Option String)

/-- What may come next. -/
inductive Place where
  /-- A value. -/
  | value
  /-- A value or the end of the array just opened. -/
  | firstItem
  /-- A name or the end of the object just opened. -/
  | firstName
  /-- A name, after these members. -/
  | name (members : List (Option String × Tree))
  /-- A colon, after this name. -/
  | colon (members : List (Option String × Tree)) (name? : Option String)
  /-- What follows this value. -/
  | after (value : Tree)

/-- Opens an array or object, or begins and ends a plain value. -/
def beginValue? (frames : List Frame) : Token → Option (List Frame × Place)
  | .leaf l => some (frames, .after (.leaf l))
  | .openBracket => some (.array [] :: frames, .firstItem)
  | .openBrace => some (.object [] none :: frames, .firstName)
  | _ => none

/-- Reads a token after a value. -/
def continueAfter? (frames : List Frame) (v : Tree) : Token → Option (List Frame × Place)
  | .comma =>
    match frames with
    | .array items :: outer => some (.array (v :: items) :: outer, .value)
    | .object members n :: outer => some (outer, .name ((n, v) :: members))
    | [] => none
  | .closeBracket =>
    match frames with
    | .array items :: outer => some (outer, .after (.arr (v :: items).reverse))
    | _ => none
  | .closeBrace =>
    match frames with
    | .object members n :: outer => some (outer, .after (.obj ((n, v) :: members).reverse))
    | _ => none
  | _ => none

/-- Reads a token. -/
def step? (frames : List Frame) (place : Place) (t : Token) : Option (List Frame × Place) :=
  match place, t with
  | .firstItem, .closeBracket => some (frames.tail, .after (.arr []))
  | .firstItem, t => beginValue? frames t
  | .value, t => beginValue? frames t
  | .firstName, .closeBrace => some (frames.tail, .after (.obj []))
  | .firstName, .leaf l => l.name?.map fun n => (frames.tail, .colon [] n)
  | .name members, .leaf l => l.name?.map fun n => (frames, .colon members n)
  | .colon members n, .colon => some (.object members n :: frames, .value)
  | .after v, t => continueAfter? frames v t
  | _, _ => none

/-- The tree that the tokens make up. -/
def build? : List Frame → Place → List Token → Option Tree
  | [], .after v, [] => some v
  | _, _, [] => none
  | frames, place, t :: rest => (step? frames place t).bind fun s => build? s.1 s.2 rest

/-- Reads the one value of a text, as it stands there. -/
def readTree? (text : String) : Option Tree := (lex? text.toList).bind (build? [] .value)

/-- The number of arrays and objects that may not be reached where all of a text is read. -/
def depthLimit : Nat := 128

/-- Reads the one value of a text, all of it. -/
def read? (text : String) : Option Json :=
  (readTree? text).bind fun t => if t.depth < depthLimit then t.json? else none

end VisualNovel.Json
