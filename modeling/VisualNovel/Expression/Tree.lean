import VisualNovel.Expression.Token

/-
  The structure of expressions and assignments. The frames of a partly read expression are
  what stands to the left of the operand being read: operators waiting for their right side
  and parentheses waiting to be closed, the innermost first. An operator that follows an
  operand takes as its left side all that binds at least as tightly, so operators of one rank
  group to the left.
-/

namespace VisualNovel.Expression

/-- An expression without its text. -/
inductive Tree where
  | literal (value : Value)
  | name (text : String)
  | unary (op : UnaryOp) (operand : Tree)
  | binary (op : BinaryOp) (left right : Tree)
  deriving DecidableEq

/-- What waits for the operand being read. -/
inductive Frame where
  | unary (op : UnaryOp)
  | binary (op : BinaryOp) (left : Tree)
  | paren
  deriving DecidableEq

/-- Closes the frames that bind at least as tightly as `power` around an operand, up to the
    innermost open parenthesis. -/
def closeFrames (power : Nat) : List Frame → Tree → List Frame × Tree
  | [], t => ([], t)
  | .paren :: frames, t => (.paren :: frames, t)
  | .unary op :: frames, t => closeFrames power frames (.unary op t)
  | .binary op left :: frames, t =>
    if power ≤ op.power then closeFrames power frames (.binary op left t)
    else (.binary op left :: frames, t)

/-- A partly read expression: the frames, and the operand just read if there is one. -/
structure Reading where
  frames : List Frame
  operand : Option Tree
  deriving DecidableEq

namespace Reading

/-- Nothing read yet. -/
def start : Reading := ⟨[], none⟩

/-- What a token does to a partly read expression. -/
inductive Fed where
  /-- The token belongs to the expression. -/
  | more (reading : Reading)
  /-- The expression ended before the token. -/
  | ended (tree : Tree)
  /-- No expression goes on like this. -/
  | fault (fault : SyntaxFault)

/-- Reads a token where an operand is expected. -/
def feedOperand (frames : List Frame) : Token → Fed
  | .literal v => .more ⟨frames, some (.literal v)⟩
  | .name s => .more ⟨frames, some (.name s)⟩
  | .bang => .more ⟨.unary .not :: frames, none⟩
  | .operator .sub => .more ⟨.unary .neg :: frames, none⟩
  | .opening => .more ⟨.paren :: frames, none⟩
  | _ => .fault .expectedValue

/-- Ends an expression at a token that does not belong to it, unless a parenthesis is open. -/
def endBefore (frames : List Frame) (t : Tree) : Fed :=
  match closeFrames 0 frames t with
  | ([], whole) => .ended whole
  | (_ :: _, _) => .fault .expectedClosing

/-- Reads a token after an operand. -/
def feedOperator (frames : List Frame) (t : Tree) : Token → Fed
  | .operator op =>
    let (open_, left) := closeFrames op.power frames t
    .more ⟨.binary op left :: open_, none⟩
  | .closing =>
    match closeFrames 0 frames t with
    | (.paren :: outer, inner) => .more ⟨outer, some inner⟩
    | _ => endBefore frames t
  | _ => endBefore frames t

/-- Reads a token. -/
def feed (r : Reading) (token : Token) : Fed :=
  match r.operand with
  | none => feedOperand r.frames token
  | some t => feedOperator r.frames t token

/-- The expression at the end of the text. -/
def finish (r : Reading) : Except SyntaxFault Tree :=
  match r.operand with
  | none => .error .endOfExpression
  | some t =>
    match endBefore r.frames t with
    | .ended whole => .ok whole
    | _ => .error .expectedClosing

end Reading

end VisualNovel.Expression
