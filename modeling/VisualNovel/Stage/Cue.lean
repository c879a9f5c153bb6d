import VisualNovel.Asset.Handle
import VisualNovel.Expression.Statements

/-
  What a story asks of the stage it is played on: pictures, sounds, lines of text, menus, fades,
  and word of where in the story it is. A cue is a change that is asked for and not waited for.
-/

namespace VisualNovel.Stage

open Asset (Handle)

/-- A channel for sounds. -/
inductive SoundStream where
  | bgm
  | se
  | ambience
  | voice
  deriving Repr, DecidableEq

/-- The name of a channel. -/
def SoundStream.name : SoundStream → String
  | bgm => "Bgm"
  | se => "Se"
  | ambience => "Ambience"
  | voice => "Voice"

/-- From black to the scene, or back. -/
inductive FadeDirection where
  | fadeIn
  | fadeOut
  deriving Repr, DecidableEq

/-- The name of a direction. -/
def FadeDirection.name : FadeDirection → String
  | fadeIn => "In"
  | fadeOut => "Out"

/-- Why a run is over: the story came to its end, or it was stopped or erased. -/
inductive EndReason where
  | completed
  | stopped
  | erased
  deriving Repr, DecidableEq

/-- The name of a reason. -/
def EndReason.name : EndReason → String
  | completed => "Completed"
  | stopped => "Stopped"
  | erased => "Erased"

/-- A place on the screen. -/
structure Position where
  x : Float32
  y : Float32
  deriving Repr, DecidableEq

/-- A character as it stands on the stage; the fade is in seconds. -/
structure CharacterSprite where
  name : String
  displayName? : Option String := none
  pattern? : Option String := none
  texture? : Option Handle := none
  layer? : Option String := none
  position? : Option Position := none
  fade : Float32 := 0
  deriving Repr, DecidableEq

/-- A line of text; one without a speaker is narration. -/
structure TextLine where
  text : String
  speaker? : Option String := none
  voice? : Option Handle := none
  voiceVersion? : Option Int32 := none
  deriving Repr, DecidableEq

/-- An entry of a menu: what it says, where it leads and what it assigns when it is picked. -/
structure Choice where
  caption : String
  target : String
  effect? : Option Expression.Statements
  deriving DecidableEq

/-- An animation of something on the stage; without a count it plays once. -/
structure Tween where
  target : String
  animation : String
  arguments : String
  loopCount? : Option UInt32
  deriving Repr, DecidableEq

/-- A place to come back to: a label, and a page counted from it. -/
structure SavePoint where
  label : String
  page : Int
  deriving Repr, DecidableEq

/-- What the stage is asked to do. Fades are in seconds; no name stands for all of a kind. -/
inductive Cue where
  | background (texture : Handle) (fade : Float32)
  | backgroundOff (fade : Float32)
  | event (texture : Handle) (fade : Float32)
  | eventOff (fade : Float32)
  | sprite (name : String) (texture : Handle) (fade : Float32)
  | spriteOff (name? : Option String) (fade : Float32)
  | character (sprite : CharacterSprite)
  | characterOff (name? : Option String) (fade : Float32)
  | play (stream : SoundStream) (clip : Handle) (looping : Bool) (fade : Float32)
  | stopSound (stream? : Option SoundStream) (fade : Float32)
  | text (line : TextLine)
  | choices (menu : List Choice)
  | fade (direction : FadeDirection) (seconds : Float32)
  | tween (tween : Tween)
  | message (name : String) (arguments : List String)
  | pageBegin (label : String) (page : Int)
  | pageEnd (label : String) (page : Int)
  | finished (reason : EndReason)
  deriving DecidableEq

/-- What the stage answers when it is asked how far it is: whether the text is shown and read,
    whether the fade is over, what was picked of the menu, and how much time went by, in
    nanoseconds. -/
structure Progress where
  textShown : Bool
  fadeDone : Bool
  picked? : Option Nat
  elapsed : Nat
  deriving Repr, DecidableEq

end VisualNovel.Stage

namespace VisualNovel

open Stage

/-- The stage a story is played on. Its clock counts nanoseconds. -/
class Stage (σ : Type) where
  perform : σ → Cue → σ
  textShown : σ → Bool
  fadeDone : σ → Bool
  picked? : σ → Option Nat
  now : σ → Nat

/-- How far the stage is, seen from a moment of its clock; a clock that went back shows no time
    gone by. -/
def Stage.progress {σ : Type} [Stage σ] (stage : σ) (since : Nat) : Progress :=
  { textShown := Stage.textShown stage
    fadeDone := Stage.fadeDone stage
    picked? := Stage.picked? stage
    elapsed := Stage.now stage - since }

end VisualNovel
