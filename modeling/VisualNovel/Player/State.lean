import VisualNovel.Command.Execution
import VisualNovel.History.Basic
import VisualNovel.Player.Preload
import VisualNovel.Scenario.Corpus

/-
  What a player holds: the stage it plays on, the assets in use, the source of tables and what
  was compiled of them, the reader's history if one is kept, and where in which scenario it is.
  The journal tells, in order, what the player did to the others and to its commands.
-/

namespace VisualNovel.Player

open Asset (Handle Ledger LoaderCall)
open History (ReadHistory)
open Stage (Cue EndReason)

/-- What a player is doing: nothing yet, waiting for the table of a label, playing, or nothing
    any more. -/
inductive State where
  | idle
  | loading (label : String) (page : Int)
  | running
  | ended (reason : EndReason)
  deriving Repr, DecidableEq

/-- Whether a run is under way. -/
def State.isUnderWay : State → Bool
  | loading .. | running => true
  | _ => false

/-- Whether a run is over. -/
def State.isEnded : State → Bool
  | ended _ => true
  | _ => false

/-- What a player waits for. -/
inductive Suspension where
  | labelLoad
  | resourceLoad
  | commandWait
  deriving Repr, DecidableEq

/-- How a tick ends: the player waits, or there is nothing to play. -/
inductive Status where
  | suspended (reason : Suspension)
  | halted
  deriving Repr, DecidableEq

/-- The page before the first of a label. -/
def labelStart : Int := -1

/-- Where a run is: the label it entered last, the place of the next command, and the page,
    counted from the label. -/
structure Cursor where
  label : String := ""
  index : Nat := 0
  page : Int := labelStart
  deriving Repr, DecidableEq

/-- The cursor in the section of a label, if the command is one. -/
def Cursor.enter (cur : Cursor) (c : Command) : Cursor :=
  match c.label? with
  | none => cur
  | some label => { cur with label, page := labelStart }

/-- The cursor on the page that begins with the command, if one does. -/
def Cursor.turnPage (cur : Cursor) (c : Command) : Cursor :=
  if c.beginsPage then { cur with page := cur.page + 1 } else cur

/-- What an active command waits for: its assets, or what it started at a moment of the stage's
    clock. -/
inductive Phase where
  | loading
  | waiting (since : Nat)
  deriving Repr, DecidableEq

/-- A command whose turn it is, with its place. -/
structure Active where
  index : Nat
  command : Command
  phase : Phase

/-- What happens in a run. It is asked for and entered at a place of a scenario; then the command
    at a place is passed over, or it takes its assets, is executed with those of them that can be
    used, is done with what was picked of its menu, and gives its assets back. -/
inductive Turn where
  | asked (label : String) (page : Int)
  | entered (scenario : Scenario) (cursor : Cursor)
  | skipped (index : Nat)
  | begun (index : Nat)
  | executed (index : Nat) (usable : List Bool)
  | done (index : Nat) (picked? : Option Nat)
  | released (index : Nat)

/-- What a player does. -/
inductive Event where
  | cue (cue : Cue)
  | loader (call : LoaderCall)
  | note (note : ReadHistory.Note)
  | turn (turn : Turn)

end VisualNovel.Player

namespace VisualNovel

open Asset (Ledger)
open History (ReadHistory)
open Player
open Scenario (Corpus)

/-- A player of scenarios. -/
structure Player (σ ℓ ς : Type) where
  stage : σ
  ledger : Ledger ℓ
  source : ς
  corpus : Corpus
  history? : Option ReadHistory
  galleryLabels : List String
  state : State
  scenario? : Option Scenario
  cursor : Cursor
  gallery? : Option String
  board : Command.Board
  active? : Option Active
  window : PreloadWindow
  journal : Array Event

namespace Player

variable {σ ℓ ς : Type}

/-- A player that has not played yet. -/
def ready (stage : σ) (loader : ℓ) (source : ς) (corpus : Corpus) (cap : Nat)
    (params : Expression.Params) (galleryLabels : List String)
    (history? : Option ReadHistory) : Player σ ℓ ς :=
  { stage
    ledger := .ofLoader loader
    source
    corpus
    history?
    galleryLabels
    state := .idle
    scenario? := none
    cursor := {}
    gallery? := none
    board := .ofParams params
    active? := none
    window := .ofCap cap
    journal := #[] }

/-- Whether the player waits for a table or for assets. -/
def isWaitingOnLoad (p : Player σ ℓ ς) : Bool :=
  match p.state with
  | .loading .. => true
  | _ => p.active?.any fun a => a.phase == .loading

/-- The place to come back to. -/
def savePoint (p : Player σ ℓ ς) : Stage.SavePoint := ⟨p.cursor.label, max p.cursor.page 0⟩

/-- Whether a label is that of a scene of the gallery. -/
def isGalleryLabel (p : Player σ ℓ ς) (label : String) : Bool := p.galleryLabels.contains label

end Player

end VisualNovel
