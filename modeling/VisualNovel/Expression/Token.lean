import VisualNovel.Error
import VisualNovel.Expression.Value

/-
  The tokens of expressions and assignments. Between two operands stands an operator; `!` and
  `-` also stand before one, and an assignment is written with `=` or with an operator and
  `=`.
-/

namespace VisualNovel.Expression

/-- An operator before its operand. -/
inductive UnaryOp where
  | not
  | neg
  deriving Repr, DecidableEq

/-- An operator between two operands. -/
inductive BinaryOp where
  | or
  | and
  | eq
  | ne
  | lt
  | le
  | gt
  | ge
  | add
  | sub
  | mul
  | div
  | rem
  deriving Repr, DecidableEq

/-- The spelling of an operator. -/
def UnaryOp.text : UnaryOp → String
  | not => "!"
  | neg => "-"

/-- The spelling of an operator. -/
def BinaryOp.text : BinaryOp → String
  | or => "||"
  | and => "&&"
  | eq => "=="
  | ne => "!="
  | lt => "<"
  | le => "<="
  | gt => ">"
  | ge => ">="
  | add => "+"
  | sub => "-"
  | mul => "*"
  | div => "/"
  | rem => "%"

/-- How tightly an operator binds: the greater, the tighter. -/
def BinaryOp.power : BinaryOp → Nat
  | or => 1
  | and => 2
  | eq | ne => 3
  | lt | le | gt | ge => 4
  | add | sub => 5
  | mul | div | rem => 6

/-- A token. `assign none` is plain `=`, `assign (some op)` is the operator with `=` after
    it. -/
inductive Token where
  | literal (value : Value)
  | name (text : String)
  | operator (op : BinaryOp)
  | bang
  | assign (op : Option BinaryOp)
  | opening
  | closing
  | separator
  deriving DecidableEq

end VisualNovel.Expression
