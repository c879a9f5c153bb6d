import VisualNovel.Command.Board
import VisualNovel.Command.Tag
import VisualNovel.Error
import VisualNovel.Text.Blank

/-
  What a row of a script does. An action is read off its row once and for all, with the assets
  it will use; a command is an action with the row it stands in. Games add actions of their own,
  which are made of cues, requests and assets.
-/

namespace VisualNovel.Command

open Asset (Handle)
open Expression (Params Statements)
open Stage

/-- The text of a row, with its voice. -/
structure Line where
  text : String
  voice? : Option Handle
  voiceVersion? : Option Int32
  deriving Repr, DecidableEq

/-- A character coming on, or going off if `hidden`, with or without a line to say. -/
structure Appearance where
  name : String
  displayName : String
  pattern? : Option String
  hidden : Bool
  texture? : Option Handle
  layer? : Option String
  position? : Option Position
  fade : Float32
  line? : Option Line
  deriving Repr, DecidableEq

/-- A kind of picture. -/
inductive Layer where
  | background
  | event
  | sprite
  deriving Repr, DecidableEq

/-- A sound that a script plays. -/
inductive Track where
  | se
  | bgm
  | ambience
  deriving Repr, DecidableEq

/-- The channel of a sound. -/
def Track.stream : Track → SoundStream
  | se => .se
  | bgm => .bgm
  | ambience => .ambience

/-- What a script stops. -/
inductive Silence where
  | bgm
  | ambience
  | everything
  deriving Repr, DecidableEq

/-- The channel that is stopped, or all. -/
def Silence.stream? : Silence → Option SoundStream
  | bgm => some .bgm
  | ambience => some .ambience
  | everything => none

/-- What a script asks of the player without conditions. -/
inductive Control where
  | endScenario
  | stopScenario
  | eraseScenario
  | endSceneGallery
  deriving Repr, DecidableEq

/-- The request a script makes. -/
def Control.request : Control → Request
  | endScenario => .endScenario
  | stopScenario => .stop
  | eraseScenario => .erase
  | endSceneGallery => .endSceneGallery

/-- A text that can be a label: it is not empty, and does not end with a blank. -/
def IsLabel (l : String) : Prop :=
  l ≠ "" ∧ ∀ c, l.toList.getLast? = some c → Text.isBlank c = false

/-- What a command of a game's own marks in a script: nothing, a label, or the beginning of a
    page. -/
inductive Mark where
  | nothing
  | label (label : String) (proper : IsLabel label)
  | page

/-- The label that is marked, if one is. -/
def Mark.label? : Mark → Option String
  | label l _ => some l
  | _ => none

/-- Whether a page is marked. -/
def Mark.isPage : Mark → Bool
  | page => true
  | _ => false

mutual

/-- An action of a game's own. It declares assets, may mark a label or a page, may count as one
    that opens, parts or closes a block, and may have any action to close a row of its like. When
    it is executed it gives cues, makes requests and changes whatever is on the board; then it is
    waited for until it is done. Of the run it reads the parameters and nothing else, and a
    question whether it is done changes nothing. -/
structure HostAction where
  tag : String
  resources : List Handle := []
  mark : Mark := .nothing
  isConditional : Bool := false
  closing? : Option Action := none
  cues : Params → List Cue := fun _ => []
  requests : Params → List Request := fun _ => []
  assign : Params → Params := id
  blocks : Params → IfStack → IfStack := fun _ blocks => blocks
  choices : Params → List Choice → List Choice := fun _ choices => choices
  isDone : Progress → Params → Bool := fun _ _ => true

/-- What a row does. Times and fades are in seconds, but a wait is in nanoseconds. -/
inductive Action where
  | text (line? : Option Line)
  | character (appearance : Appearance)
  | characterOff (name? : Option String) (fade : Float32)
  | layer (kind : Layer) (name : String) (texture : Handle) (fade : Float32)
  | layerOff (kind : Layer) (name? : Option String) (fade : Float32)
  | sound (track : Track) (clip : Handle) (looping : Bool) (fade : Float32)
  | stopSound (what : Silence) (fade : Float32)
  | wait (duration : Nat)
  | fade (direction : FadeDirection) (seconds : Float32)
  | assign (statements : Statements)
  | ifStart (condition : Expression)
  | elseIf (condition : Expression)
  | elseBranch
  | endIf
  | choice (choice : Choice)
  | menu
  | jump (target : String) (condition? : Option Expression)
  | message (name : String) (arguments : List String)
  | tween (tween : Tween)
  | control (what : Control)
  | label (label title : String)
  | host (action : HostAction)

end

/-- The name of a picture command. -/
def Layer.tag : Layer → Tag
  | background => .background
  | event => .event
  | sprite => .sprite

/-- The name of the command that takes a picture away. -/
def Layer.offTag : Layer → Tag
  | background => .backgroundOff
  | event => .eventOff
  | sprite => .spriteOff

/-- The name of a sound command. -/
def Track.tag : Track → Tag
  | se => .se
  | bgm => .bgm
  | ambience => .ambience

/-- The name of the command that stops a sound. -/
def Silence.tag : Silence → Tag
  | bgm => .stopBgm
  | ambience => .stopAmbience
  | everything => .stopSound

/-- The name of a control command. -/
def Control.tag : Control → Tag
  | endScenario => .endScenario
  | stopScenario => .stopScenario
  | eraseScenario => .eraseScenario
  | endSceneGallery => .endSceneGallery

/-- The name of a fade command. -/
def fadeTag : FadeDirection → Tag
  | .fadeIn => .fadeIn
  | .fadeOut => .fadeOut

namespace Action

/-- The name of an action. -/
def tag : Action → String
  | text _ => Tag.text.name
  | character _ => Tag.character.name
  | characterOff .. => Tag.characterOff.name
  | layer kind .. => kind.tag.name
  | layerOff kind .. => kind.offTag.name
  | sound track .. => track.tag.name
  | stopSound what _ => what.tag.name
  | wait _ => Tag.wait.name
  | fade direction _ => (fadeTag direction).name
  | assign _ => Tag.param.name
  | ifStart _ => Tag.ifStart.name
  | elseIf _ => Tag.elseIf.name
  | elseBranch => Tag.elseBranch.name
  | endIf => Tag.endIf.name
  | choice _ => Tag.selection.name
  | menu => Tag.selectionEnd.name
  | jump .. => Tag.jump.name
  | message .. => Tag.sendMessage.name
  | tween _ => Tag.tween.name
  | control what => what.tag.name
  | label .. => Tag.labelName
  | host action => action.tag

/-- The voice of a line. -/
def lineResources (line? : Option Line) : List Handle := (line?.bind Line.voice?).toList

/-- The assets an action declares, in the order it loads them. -/
def resources : Action → List Handle
  | text line? => lineResources line?
  | character a => a.texture?.toList ++ lineResources a.line?
  | layer _ _ texture _ => [texture]
  | sound _ clip _ _ => [clip]
  | host action => action.resources
  | _ => []

/-- Whether a page begins with an action: it shows a line or a menu. -/
def beginsPage : Action → Bool
  | text line? => line?.isSome
  | character a => a.line?.isSome
  | menu => true
  | host action => action.mark.isPage
  | _ => false

/-- The label an action puts into a scenario. -/
def label? : Action → Option String
  | label l _ => some l
  | host action => action.mark.label?
  | _ => none

/-- Whether an action opens, parts or closes a block. -/
def isConditional : Action → Bool
  | ifStart _ | elseIf _ | elseBranch | endIf => true
  | host action => action.isConditional
  | _ => false

/-- The action that closes a row of actions like this one. -/
def closing? : Action → Option Action
  | choice _ => some menu
  | host action => action.closing?
  | _ => none

/-- Whether an action names a label, be it one that it marks or one that it leads to. -/
def namesLabel : Action → Bool
  | choice _ | jump .. | label .. => true
  | host action => action.mark.label?.isSome
  | _ => false

end Action

/-- The rows of an action of a game's own are closed by one that names no label: scripts name
    labels in rows. -/
def HostAction.ClosesPlainly (a : HostAction) : Prop := ∀ c ∈ a.closing?, c.namesLabel = false

end VisualNovel.Command

namespace VisualNovel

/-- An action and the row it was read from. -/
structure Command where
  context : RowContext
  action : Command.Action

namespace Command

/-- The name of a command. -/
def tag (c : Command) : String := c.action.tag

/-- The assets a command declares. -/
def resources (c : Command) : List Asset.Handle := c.action.resources

/-- Whether a page begins with a command. -/
def beginsPage (c : Command) : Bool := c.action.beginsPage

/-- The label a command puts into a scenario. -/
def label? (c : Command) : Option String := c.action.label?

/-- Whether a command opens, parts or closes a block. -/
def isConditional (c : Command) : Bool := c.action.isConditional

/-- The command that closes a row of commands like this one, in the same row of the script. -/
def closing? (c : Command) : Option Command := c.action.closing?.map fun a => ⟨c.context, a⟩

end Command

end VisualNovel
