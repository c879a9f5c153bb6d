import VisualNovel.Expression.Evaluation

/-
  Lists of assignments. Assignments are separated by commas or semicolons, any number of them;
  they are applied in order, and the first that fails leaves those before it in force.
-/

namespace VisualNovel.Expression

/-- An assignment to a parameter, plain or with an operator. -/
structure Assignment where
  target : String
  op : Option BinaryOp
  value : Tree
  deriving DecidableEq

/-- Assignments with their text, trimmed. -/
structure Statements where
  source : String
  assignments : List Assignment
  deriving DecidableEq

/-- Where in a list of assignments the reader stands. -/
inductive ListPlace where
  /-- Before an assignment. -/
  | before
  /-- After the name of an assignment. -/
  | named (target : String)
  /-- In the expression of an assignment. -/
  | assigned (target : String) (op : Option BinaryOp) (reading : Reading)

/-- The assignments that the tokens make up; `stop` is the offset of the end of the text. -/
def readAssignments (stop : Nat) : ListPlace → List Placed →
    Except PlacedFault (List Assignment)
  | .before, [] => .ok []
  | .named _, [] => .error (stop, .expectedAssignment)
  | .assigned target op r, [] =>
    match r.finish with
    | .ok tree => .ok [⟨target, op, tree⟩]
    | .error fault => .error (stop, fault)
  | .before, (offset, token) :: rest =>
    match token with
    | .separator => readAssignments stop .before rest
    | .name target => readAssignments stop (.named target) rest
    | _ => .error (offset, .expectedName)
  | .named target, (offset, token) :: rest =>
    match token with
    | .assign op => readAssignments stop (.assigned target op .start) rest
    | _ => .error (offset, .expectedAssignment)
  | .assigned target op r, (offset, token) :: rest =>
    match r.feed token with
    | .more next => readAssignments stop (.assigned target op next) rest
    | .ended tree =>
      if token = .separator then
        (readAssignments stop .before rest).map (⟨target, op, tree⟩ :: ·)
      else .error (offset, .expectedSeparator)
    | .fault fault => .error (offset, fault)

namespace Statements

/-- Reads a list of at least one assignment. -/
def parse (source : String) : Except ExpressionError Statements :=
  (lex source).bind fun tokens =>
    match readAssignments (byteLength source) .before tokens with
    | .ok [] => .error (.malformed source 0 .noStatements)
    | .ok assignments => .ok ⟨Text.trim source, assignments⟩
    | .error fault => .error (fault.inText source)

end Statements

/-- The value an assignment gives its parameter. -/
def Assignment.newValue (a : Assignment) (params : Params) : Except ExpressionError Value :=
  (a.value.eval params).bind fun v =>
    match a.op with
    | none => .ok v
    | some op =>
      match params.get? a.target with
      | some current => arithmetic op current v
      | none => .error (.undefinedParameter a.target)

/-- Applies assignments in order: the parameters afterwards, and the error that stopped it. -/
def applyAll : List Assignment → Params → Params × Option ExpressionError
  | [], params => (params, none)
  | a :: rest, params =>
    match a.newValue params with
    | .ok v => applyAll rest (params.set a.target v)
    | .error e => (params, some e)

/-- Applies a list of assignments. -/
def Statements.apply (s : Statements) (params : Params) : Params × Option ExpressionError :=
  applyAll s.assignments params

end VisualNovel.Expression
