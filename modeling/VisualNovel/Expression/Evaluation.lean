import VisualNovel.Decimal.Remainder
import VisualNovel.Expression.Params
import VisualNovel.Expression.Parser

/-
  Evaluating expressions. Integers wrap around at 64 bits; an integer and a number of double
  precision meet as the latter; a text and anything else are put together by `+`. Values of
  types that do not compare are unequal, and have no order.
-/

namespace VisualNovel.Expression

open Decimal

/-- The error of an operator between two values it does not apply to. -/
def mismatch (operator : String) (left right : Value) : ExpressionError :=
  .typeMismatch operator left.typeName right.typeName

/-- Arithmetic on integers, modulo 2^64. Division goes toward zero; by zero there is none. -/
def intArithmetic (op : BinaryOp) (a b : Int64) : Except ExpressionError Value :=
  match op with
  | .add => .ok (.int (a + b))
  | .sub => .ok (.int (a - b))
  | .mul => .ok (.int (a * b))
  | .div => if b = 0 then .error .divisionByZero else .ok (.int (a / b))
  | .rem => if b = 0 then .error .divisionByZero else .ok (.int (a % b))
  | _ => .error (mismatch op.text (.int a) (.int b))

/-- Arithmetic on numbers of double precision. -/
def floatArithmetic? (op : BinaryOp) (a b : Float) : Option Value :=
  match op with
  | .add => some (.float (a + b))
  | .sub => some (.float (a - b))
  | .mul => some (.float (a * b))
  | .div => some (.float (a / b))
  | .rem => some (.float (floatRemainder a b))
  | _ => none

/-- Arithmetic on numbers of any kind. -/
def numberArithmetic (op : BinaryOp) (left right : Value) : Except ExpressionError Value :=
  match left.asFloat?, right.asFloat? with
  | some a, some b =>
    match floatArithmetic? op a b with
    | some v => .ok v
    | none => .error (mismatch op.text left right)
  | _, _ => .error (mismatch op.text left right)

/-- The arithmetic operators on values. -/
def arithmetic (op : BinaryOp) (left right : Value) : Except ExpressionError Value :=
  match left, right with
  | .int a, .int b => intArithmetic op a b
  | .str _, _ | _, .str _ =>
    if op = .add then .ok (.str (left.text ++ right.text)) else numberArithmetic op left right
  | _, _ => numberArithmetic op left right

/-- The order of two values of a type with a decidable order. -/
def orderOf {α : Type} [LT α] [DecidableLT α] [DecidableEq α] (a b : α) : Ordering :=
  if a < b then .lt else if a = b then .eq else .gt

/-- The order of two numbers; a value that is no number has no place in it. -/
def floatOrder? (a b : Float) : Option Ordering :=
  if a < b then some .lt else if a > b then some .gt else if a == b then some .eq else none

/-- The order of two values, if they compare. -/
def compare? (left right : Value) : Option Ordering :=
  match left, right with
  | .int a, .int b => some (orderOf a b)
  | .str a, .str b => some (orderOf a b)
  | .bool a, .bool b => some (orderOf a.toNat b.toNat)
  | _, _ =>
    match left.asFloat?, right.asFloat? with
    | some a, some b => floatOrder? a b
    | _, _ => none

/-- Whether an order is what a comparison asks for. -/
def holdsFor (op : BinaryOp) (o : Ordering) : Bool :=
  match op with
  | .lt => o == .lt
  | .le => o != .gt
  | .gt => o == .gt
  | _ => o != .lt

/-- An operator before a value. -/
def applyUnary (op : UnaryOp) (v : Value) : Except ExpressionError Value :=
  match op, v with
  | .not, .bool b => .ok (.bool !b)
  | .neg, .int i => .ok (.int (-i))
  | .neg, .float x => .ok (.float (-x))
  | _, _ => .error (mismatch op.text v v)

/-- An operator between two values, `&&` and `||` aside. -/
def applyBinary (op : BinaryOp) (l r : Value) : Except ExpressionError Value :=
  match op with
  | .eq => .ok (.bool (compare? l r == some .eq))
  | .ne => .ok (.bool (compare? l r != some .eq))
  | .lt | .le | .gt | .ge =>
    match compare? l r with
    | some o => .ok (.bool (holdsFor op o))
    | none => .error (mismatch op.text l r)
  | _ => arithmetic op l r

/-- Whether `&&` and `||` are settled by their left side. -/
def settledBy (op : BinaryOp) (l : Bool) : Bool := if op = .and then !l else l

/-- The right side of `&&` or `||`. -/
def logicalRight (op : BinaryOp) (l : Bool) : Value → Except ExpressionError Value
  | .bool r => .ok (.bool r)
  | v => .error (mismatch op.text (.bool l) v)

/-- The value of a tree. The right side of `&&` and `||` is evaluated only when it counts. -/
def Tree.eval (params : Params) : Tree → Except ExpressionError Value
  | literal v => .ok v
  | name s =>
    match params.get? s with
    | some v => .ok v
    | none => .error (.undefinedParameter s)
  | unary op operand => (operand.eval params).bind (applyUnary op)
  | binary op left right =>
    (left.eval params).bind fun l =>
      if op = .and ∨ op = .or then
        match l with
        | .bool b =>
          if settledBy op b then .ok (.bool b)
          else (right.eval params).bind (logicalRight op b)
        | _ => .error (mismatch op.text l (.bool false))
      else (right.eval params).bind (applyBinary op l)

/-- The value of an expression. -/
def eval (e : Expression) (params : Params) : Except ExpressionError Value := e.tree.eval params

/-- The value of a condition. -/
def evalBool (e : Expression) (params : Params) : Except ExpressionError Bool :=
  (e.eval params).bind fun v =>
    match v.asBool? with
    | some b => .ok b
    | none => .error (.notBoolean e.source v.typeName)

/-- Whether a condition holds; one that cannot be evaluated does not. -/
def holds (e : Expression) (params : Params) : Bool :=
  match e.evalBool params with
  | .ok b => b
  | .error _ => false

/-- A condition holds if its value counts as true. -/
theorem holds_eq_true_iff {e : Expression} {params : Params} :
    e.holds params = true ↔ ∃ v, e.eval params = .ok v ∧ v.asBool? = some true := by
  unfold holds evalBool
  cases e.eval params with
  | error error => simp [Except.bind]
  | ok v => cases hv : v.asBool? <;> simp [Except.bind, hv]

/-- Whatever keeps a condition from being evaluated keeps it from holding. -/
theorem holds_of_error {e : Expression} {params : Params} {error : ExpressionError}
    (h : e.eval params = .error error) : e.holds params = false := by
  refine Bool.eq_false_iff.mpr fun hholds => ?_
  obtain ⟨v, hv, -⟩ := holds_eq_true_iff.mp hholds
  cases h.symm.trans hv

end VisualNovel.Expression
