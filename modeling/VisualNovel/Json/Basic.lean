/-
  JSON values. Numbers written without a point and an exponent are integers if they fit into
  64 bits, signed or not; all others are of double precision. The members of an object stand
  in the order of the text, and a name may occur more than once.
-/

namespace VisualNovel

/-- A JSON value. -/
inductive Json where
  | null
  | bool (b : Bool)
  | int (i : Int)
  | float (x : Float)
  | str (s : String)
  | arr (items : List Json)
  | obj (members : List (String × Json))

namespace Json

/-- The values that the members with a name have. -/
def valuesOf {α : Type} (members : List (String × α)) (name : String) : List α :=
  (members.filter fun m => m.1 == name).map Prod.snd

/-- A member of an object, the last of its name. -/
def get? (j : Json) (name : String) : Option Json :=
  match j with
  | obj members => (valuesOf members name).getLast?
  | _ => none

/-- The text that a value is. -/
def text? : Json → Option String
  | str s => some s
  | _ => none

/-- The integer that a value is. -/
def integer? : Json → Option Int
  | int i => some i
  | _ => none

/-- The truth value that a value is. -/
def truth? : Json → Option Bool
  | bool b => some b
  | _ => none

/-- The items of an array; any other value has none. -/
def items : Json → List Json
  | arr items => items
  | _ => []

/-- The members of an object; any other value has none. -/
def members : Json → List (String × Json)
  | obj members => members
  | _ => []

end Json

end VisualNovel
