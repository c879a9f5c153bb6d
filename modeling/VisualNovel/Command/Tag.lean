/-
  The names of the commands a script can use.
-/

namespace VisualNovel.Command

/-- A command by its name. -/
inductive Tag where
  | text
  | character
  | characterOff
  | background
  | backgroundOff
  | event
  | eventOff
  | sprite
  | spriteOff
  | se
  | bgm
  | stopBgm
  | ambience
  | stopAmbience
  | stopSound
  | wait
  | fadeIn
  | fadeOut
  | param
  | ifStart
  | elseIf
  | elseBranch
  | endIf
  | selection
  | selectionEnd
  | jump
  | sendMessage
  | tween
  | endScenario
  | stopScenario
  | eraseScenario
  | endSceneGallery
  deriving Repr, DecidableEq

namespace Tag

/-- The name of a command. -/
def name : Tag → String
  | text => "Text"
  | character => "Character"
  | characterOff => "CharacterOff"
  | background => "Bg"
  | backgroundOff => "BgOff"
  | event => "BgEvent"
  | eventOff => "BgEventOff"
  | sprite => "Sprite"
  | spriteOff => "SpriteOff"
  | se => "Se"
  | bgm => "Bgm"
  | stopBgm => "StopBgm"
  | ambience => "Ambience"
  | stopAmbience => "StopAmbience"
  | stopSound => "StopSound"
  | wait => "Wait"
  | fadeIn => "FadeIn"
  | fadeOut => "FadeOut"
  | param => "Param"
  | ifStart => "If"
  | elseIf => "ElseIf"
  | elseBranch => "Else"
  | endIf => "EndIf"
  | selection => "Selection"
  | selectionEnd => "SelectionEnd"
  | jump => "Jump"
  | sendMessage => "SendMessage"
  | tween => "Tween"
  | endScenario => "EndScenario"
  | stopScenario => "StopScenario"
  | eraseScenario => "EraseScenario"
  | endSceneGallery => "EndSceneGallery"

/-- All commands. -/
def all : List Tag :=
  [text, character, characterOff, background, backgroundOff, event, eventOff, sprite, spriteOff,
    se, bgm, stopBgm, ambience, stopAmbience, stopSound, wait, fadeIn, fadeOut, param, ifStart,
    elseIf, elseBranch, endIf, selection, selectionEnd, jump, sendMessage, tween, endScenario,
    stopScenario, eraseScenario, endSceneGallery]

/-- The command with a name. -/
def ofName? (s : String) : Option Tag := all.find? fun t => t.name == s

/-- The name of the command that a label in a script becomes. No script can use it. -/
def labelName : String := "ScenarioLabel"

end Tag

end VisualNovel.Command
