import VisualNovel.Decimal.Plain
import VisualNovel.Table.Column

/-
  What can be wrong with a script, a configuration or a file. Each error is a value that says
  what happened and where; `message` gives its text. Errors about a row carry the name of the
  table and the row's number, counted from one with the header.
-/

namespace VisualNovel

open Decimal (intText natText)

/-- A row of a table, for the reader of an error. -/
structure RowContext where
  table : String
  row : Nat
  deriving Repr, DecidableEq

/-- The table's name and the row's number. -/
def RowContext.text (c : RowContext) : String := c.table ++ ":" ++ natText c.row

/-- What keeps a text from being an expression or a list of assignments. -/
inductive SyntaxFault where
  | unexpectedInput (text : String)
  | expectedValue
  | expectedClosing
  | endOfExpression
  | trailingInput
  | expectedName
  | expectedAssignment
  | expectedSeparator
  | noStatements
  deriving Repr, DecidableEq

/-- The wording of a fault. -/
def SyntaxFault.text : SyntaxFault → String
  | unexpectedInput s => "unexpected input '" ++ s ++ "'"
  | expectedValue => "expected a value"
  | expectedClosing => "expected ')'"
  | endOfExpression => "unexpected end of expression"
  | trailingInput => "unexpected trailing input"
  | expectedName => "expected a parameter name"
  | expectedAssignment => "expected an assignment operator"
  | expectedSeparator => "expected ',' or ';'"
  | noStatements => "no statements"

/-- Errors of expressions and assignments, from reading them to evaluating them. -/
inductive ExpressionError where
  /-- The text is not well formed; the offset counts its UTF-8 bytes. -/
  | malformed (source : String) (offset : Nat) (fault : SyntaxFault)
  | undefinedParameter (name : String)
  | typeMismatch (operator left right : String)
  | divisionByZero
  | notBoolean (source found : String)
  deriving Repr, DecidableEq

/-- Errors of reading a table and its cells. -/
inductive TableError where
  | missingColumn (context : RowContext) (column : String)
  | emptyCell (context : RowContext) (column : String)
  | unparseable (context : RowContext) (column raw expected : String)
  | malformed (context : RowContext) (reason : String)
  deriving Repr, DecidableEq

/-- What is wrong with an argument of a command. -/
inductive ArgumentFault where
  | missing (column : Table.Column)
  | missingCondition
  | expression (error : ExpressionError)
  deriving Repr, DecidableEq

/-- Errors of making a command out of a row. -/
inductive CommandError where
  | unknownTag (context : RowContext) (tag : String)
  | invalidLabel (context : RowContext) (raw : String)
  | invalidArgument (context : RowContext) (tag : String) (fault : ArgumentFault)
  | construction (context : RowContext) (tag message : String)
  deriving Repr, DecidableEq

/-- Errors of a scenario as a whole, and of its way through the gallery. -/
inductive ScenarioError where
  | undefinedLabel (label : String)
  | duplicateLabel (label first : String)
  | unmatchedConditional (what : String)
  | pageOutOfRange (label : String) (page : Int)
  | galleryOverwritten (previous next : String)
  | noGalleryScene
  deriving Repr, DecidableEq

/-- Errors of putting a value together out of its parts. -/
inductive BuilderError where
  | missingField (field : String)
  | invalidField (field reason : String)
  | validation (reason : String)
  deriving Repr, DecidableEq

/-- All errors. -/
inductive Error where
  | table (error : TableError)
  | command (error : CommandError)
  | scenario (error : ScenarioError)
  | expression (error : ExpressionError)
  | builder (error : BuilderError)
  | configuration (message : String)
  | persistence (message path : String)
  deriving Repr, DecidableEq

/-- The wording of an error of an expression. -/
def ExpressionError.text : ExpressionError → String
  | malformed source offset fault =>
    "Syntax error in '" ++ source ++ "' at offset " ++ natText offset ++ ": " ++ fault.text
  | undefinedParameter name => "Undefined parameter '" ++ name ++ "'"
  | typeMismatch operator left right =>
    "Cannot apply '" ++ operator ++ "' to " ++ left ++ " and " ++ right
  | divisionByZero => "Division by zero"
  | notBoolean source found =>
    "Condition '" ++ source ++ "' produced " ++ found ++ " instead of a boolean"

/-- The wording of an error of a table. -/
def TableError.text : TableError → String
  | missingColumn context column =>
    context.text ++ ": column '" ++ column ++ "' is not declared in the header"
  | emptyCell context column => context.text ++ ": required cell '" ++ column ++ "' is empty"
  | unparseable context column raw expected =>
    context.text ++ ": cannot read '" ++ raw ++ "' in column '" ++ column ++ "' as " ++ expected
  | malformed context reason => context.text ++ ": malformed record: " ++ reason

/-- The words before the text of every error. -/
def Error.heading : String := "Hokusai Error: "

/-- The words before the text of an error of an expression. -/
def ExpressionError.heading : String := Error.heading ++ "Expression Error: "

/-- The wording of a fault of an argument. -/
def ArgumentFault.text : ArgumentFault → String
  | missing column => column.header ++ " is required"
  | missingCondition => "Arg1 condition is required"
  | expression error => ExpressionError.heading ++ error.text

/-- The wording of an error of a command. -/
def CommandError.text : CommandError → String
  | unknownTag context tag => context.text ++ ": unknown command '" ++ tag ++ "'"
  | invalidLabel context raw => context.text ++ ": '" ++ raw ++ "' is not a scenario label"
  | invalidArgument context tag fault =>
    context.text ++ ": invalid argument for " ++ tag ++ ": " ++ fault.text
  | construction context tag message =>
    context.text ++ ": " ++ tag ++ " could not be built: " ++ message

/-- The wording of an error of a scenario. -/
def ScenarioError.text : ScenarioError → String
  | undefinedLabel label => "Scenario label '" ++ label ++ "' is not defined"
  | duplicateLabel label first =>
    "Scenario label '" ++ label ++ "' is defined more than once (first in " ++ first ++ ")"
  | unmatchedConditional what => what ++ " without a matching If"
  | pageOutOfRange label page =>
    "Page " ++ intText page ++ " is out of range for label '" ++ label ++ "'"
  | galleryOverwritten previous next =>
    "Gallery scene '" ++ previous ++ "' replaced by '" ++ next ++ "' before it ended"
  | noGalleryScene => "EndSceneGallery outside a registered gallery scene"

/-- The wording of an error of putting a value together. -/
def BuilderError.text : BuilderError → String
  | missingField field => "Missing required field: " ++ field
  | invalidField field reason => "Invalid value for '" ++ field ++ "': " ++ reason
  | validation reason => "Validation failed: " ++ reason

/-- The text of an error. -/
def Error.message : Error → String
  | table error => heading ++ "Table Error: " ++ error.text
  | command error => heading ++ "Command Error: " ++ error.text
  | scenario error => heading ++ "Scenario Error: " ++ error.text
  | expression error => ExpressionError.heading ++ error.text
  | builder error => heading ++ "Builder Error: " ++ error.text
  | configuration message => heading ++ "Configuration Error: " ++ message
  | persistence message path =>
    heading ++ "Persistence Error: " ++ message ++ " (" ++ path ++ ")"

end VisualNovel
