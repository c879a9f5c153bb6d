import VisualNovel.Command.Action

/-
  What a command does when its turn comes. It gives cues to the stage and changes what the run
  has on its board: the parameters, the open blocks, the menu that is being put together and
  the requests to the player. An asset that failed to load is left out, and nothing else with
  it; a condition that cannot be evaluated does not hold. Then the command waits, for the text
  to be read, a fade to end, time to go by or a choice to be picked.
-/

namespace VisualNovel.Command

open Asset (Handle LoadState)
open Expression (Params)
open Stage

/-- An asset, if it can be used. -/
def usable? (state : Handle → LoadState) (h : Handle) : Option Handle :=
  if (state h).isLoaded then some h else none

/-- The cue of a line. -/
def Line.cue (state : Handle → LoadState) (speaker? : Option String) (l : Line) : Cue :=
  .text ⟨l.text, speaker?, l.voice?.bind (usable? state), l.voiceVersion?⟩

/-- The cues of a character: it comes or goes, then it speaks. -/
def Appearance.cues (state : Handle → LoadState) (a : Appearance) : List Cue :=
  let entrance : Cue :=
    if a.hidden then .characterOff (some a.name) a.fade
    else
      .character ⟨a.name, some a.displayName, a.pattern?, a.texture?.bind (usable? state),
        a.layer?, a.position?, a.fade⟩
  entrance :: (a.line?.map (Line.cue state (some a.displayName))).toList

/-- The cue of a picture. -/
def Layer.cue (kind : Layer) (name : String) (texture : Handle) (fade : Float32) : Cue :=
  match kind with
  | background => .background texture fade
  | event => .event texture fade
  | sprite => .sprite name texture fade

/-- The cue that takes a picture away. -/
def Layer.offCue (kind : Layer) (name? : Option String) (fade : Float32) : Cue :=
  match kind with
  | background => .backgroundOff fade
  | event => .eventOff fade
  | sprite => .spriteOff name? fade

/-- The cues an action gives. -/
def Action.cues (state : Handle → LoadState) (b : Board) : Action → List Cue
  | text line? => (line?.map (Line.cue state none)).toList
  | character a => a.cues state
  | characterOff name? seconds => [.characterOff name? seconds]
  | layer kind name texture seconds =>
    ((usable? state texture).map fun t => kind.cue name t seconds).toList
  | layerOff kind name? seconds => [kind.offCue name? seconds]
  | sound track clip looping seconds =>
    ((usable? state clip).map fun c => Cue.play track.stream c looping seconds).toList
  | stopSound what seconds => [.stopSound what.stream? seconds]
  | fade direction seconds => [.fade direction seconds]
  | menu => if b.choices = [] then [] else [.choices b.choices]
  | message name arguments => [.message name arguments]
  | tween t => [.tween t]
  | host action => action.cues b.params
  | _ => []

/-- The board after an action. -/
def Action.change (b : Board) : Action → Board
  | assign statements => b.assign statements
  | ifStart condition => { b with ifStack := b.ifStack.pushIf (condition.holds b.params) }
  | elseIf condition =>
    { b with
      ifStack := b.ifStack.elseIf (b.ifStack.awaitsBranch && condition.holds b.params) }
  | elseBranch => { b with ifStack := b.ifStack.elseBranch }
  | endIf => { b with ifStack := b.ifStack.endIf }
  | choice c => { b with choices := b.choices ++ [c] }
  | jump target condition? =>
    if condition?.all fun c => c.holds b.params then b.request (.jump target) else b
  | control what => b.request what.request
  | host action =>
    { params := action.assign b.params
      ifStack := action.blocks b.params b.ifStack
      choices := action.choices b.params b.choices
      requests := b.requests ++ action.requests b.params }
  | _ => b

/-- Executes a command: the board after it, and its cues. -/
def execute (c : Command) (state : Handle → LoadState) (b : Board) : Board × List Cue :=
  (c.action.change b, c.action.cues state b)

/-- The board after a choice: its assignments, and a jump to where it leads. -/
def Board.pick (b : Board) (c : Choice) : Board :=
  let b := (c.effect?.map b.assign).getD b
  { b with choices := [] }.request (.jump c.target)

/-- Waits for a choice of the menu. A pick beyond the menu picks nothing. -/
def Board.awaitPick (b : Board) (picked? : Option Nat) : Board × Bool :=
  if b.choices = [] then (b, true)
  else
    match picked? with
    | none => (b, false)
    | some i =>
      match b.choices[i]? with
      | none => ({ b with choices := [] }, true)
      | some c => (b.pick c, true)

/-- Whether a command that was executed is done, and the board after it was asked. -/
def await (c : Command) (p : Progress) (b : Board) : Board × Bool :=
  match c.action with
  | .text line? => (b, line?.isNone || p.textShown)
  | .character a => (b, a.line?.isNone || p.textShown)
  | .wait duration => (b, decide (duration ≤ p.elapsed))
  | .fade .. => (b, p.fadeDone)
  | .menu => b.awaitPick p.picked?
  | .host action => (b, action.isDone p b.params)
  | _ => (b, true)

/-- What is picked of the menu that a command waits for, if it waits for one. -/
def pick? (c : Command) (p : Progress) (b : Board) : Option Nat :=
  match c.action with
  | .menu => if b.choices = [] then none else p.picked?
  | _ => none

end VisualNovel.Command
