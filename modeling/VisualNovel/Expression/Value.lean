import VisualNovel.Decimal.Plain

/-
  The values of script parameters: truth values, integers of 64 bits, numbers of double
  precision and texts.
-/

namespace VisualNovel.Expression

/-- A value of a parameter or an expression. -/
inductive Value where
  | bool (b : Bool)
  | int (i : Int64)
  | float (x : Float)
  | str (s : String)
  deriving DecidableEq

namespace Value

/-- The name of a value's type, for errors. -/
def typeName : Value → String
  | bool _ => "bool"
  | int _ => "int"
  | float _ => "float"
  | str _ => "string"

/-- The truth value. -/
def asBool? : Value → Option Bool
  | bool b => some b
  | _ => none

/-- The number, in double precision. -/
def asFloat? : Value → Option Float
  | int i => some i.toFloat
  | float x => some x
  | _ => none

/-- The text of a value. -/
def text : Value → String
  | bool true => "true"
  | bool false => "false"
  | int i => Decimal.intText i.toInt
  | float x => Decimal.floatText x
  | str s => s

end Value

end VisualNovel.Expression
