import VisualNovel.Command.IfStack
import VisualNovel.Stage.Cue

/-
  What a run has on its board: the parameters, the open blocks, the menu that is being put
  together and the requests to the player. Commands change it when they are executed, and a menu
  once more when it is answered.
-/

namespace VisualNovel.Command

open Expression (Params)
open Stage

/-- What a command asks the player to do. -/
inductive Request where
  | jump (label : String)
  | endScenario
  | stop
  | erase
  | endSceneGallery
  deriving Repr, DecidableEq

/-- What the commands of a run change. -/
structure Board where
  params : Params
  ifStack : IfStack
  choices : List Choice
  requests : List Request
  deriving DecidableEq

namespace Board

/-- A board with nothing on it but parameters. -/
def ofParams (params : Params) : Board := ⟨params, .empty, [], []⟩

/-- The board as it is between runs: the parameters stay. -/
def clear (b : Board) : Board := ofParams b.params

/-- The board after an assignment; one that fails leaves in force what comes before it. -/
def assign (b : Board) (s : Expression.Statements) : Board :=
  { b with params := (s.apply b.params).1 }

/-- The board with one more request. -/
def request (b : Board) (r : Request) : Board := { b with requests := b.requests ++ [r] }

/-- The board without requests. -/
def settle (b : Board) : Board := { b with requests := [] }

end Board

end VisualNovel.Command
