import VisualNovel.Expression.Lexer
import VisualNovel.Expression.Tree

/-
  Reading expressions. The tokens are taken one after the other; at the first token with which
  nothing can go on, or at the end of the text, the error says what was expected.
-/

namespace VisualNovel

/-- An expression with its text, trimmed. -/
structure Expression where
  source : String
  tree : Expression.Tree
  deriving DecidableEq

namespace Expression

/-- A fault with the byte offset at which it shows. -/
abbrev PlacedFault := Nat × SyntaxFault

/-- The expression that the tokens make up together with what was read before them; `stop` is
    the offset of the end of the text. -/
def readTree (stop : Nat) (r : Reading) : List Placed → Except PlacedFault Tree
  | [] =>
    match r.finish with
    | .ok tree => .ok tree
    | .error fault => .error (stop, fault)
  | (offset, token) :: rest =>
    match r.feed token with
    | .more next => readTree stop next rest
    | .ended _ => .error (offset, .trailingInput)
    | .fault fault => .error (offset, fault)

/-- The number of bytes of a text. -/
def byteLength (source : String) : Nat := Text.utf8Length source.toList

/-- The error of a fault in a text. -/
def PlacedFault.inText (source : String) (f : PlacedFault) : ExpressionError :=
  .malformed source f.1 f.2

/-- Reads an expression. -/
def parse (source : String) : Except ExpressionError Expression :=
  (lex source).bind fun tokens =>
    match readTree (byteLength source) .start tokens with
    | .ok tree => .ok ⟨Text.trim source, tree⟩
    | .error fault => .error (fault.inText source)

end Expression

end VisualNovel
