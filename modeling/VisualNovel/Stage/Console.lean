import VisualNovel.Decimal.Plain
import VisualNovel.Stage.Cue
import VisualNovel.Text.Blank

/-
  A stage that writes lines of text. What is shown or played is a line; text is read as soon as
  it is shown, and fades take no time. Menus are answered by picks that are given beforehand,
  and by the first choice when there are none left.
-/

namespace VisualNovel.Stage

open Asset (Handle)
open Text

/-- The lines written so far, the picks to come, the last pick until its page ends, and the
    time. -/
structure Console where
  lines : Array String
  picks : List Nat
  picked? : Option Nat
  clock : Nat
  deriving Repr, DecidableEq

namespace Console

/-- A stage on which nothing was shown. -/
def ofPicks (picks : List Nat) : Console := ⟨#[], picks, none, 0⟩

/-- Writes a line. -/
def line (c : Console) (text : String) : Console := { c with lines := c.lines.push text }

/-- The lines of a menu. -/
def menuLines (menu : List Choice) : List String :=
  menu.zipIdx.map fun m => "  " ++ Decimal.natText m.2 ++ ") " ++ m.1.caption

/-- Shows a menu and picks from it. -/
def choose (c : Console) (menu : List Choice) : Console :=
  let pick := c.picks.headD 0
  let c := (menuLines menu).foldl line c
  { c.line ("> " ++ Decimal.natText pick) with picks := c.picks.tail, picked? := some pick }

/-- The line of a character. -/
def spriteLine (s : CharacterSprite) : String :=
  match s.pattern? with
  | some pattern => "[character] " ++ s.name ++ " (" ++ pattern ++ ")"
  | none => "[character] " ++ s.name

/-- The line of a text. -/
def textLine (l : TextLine) : String :=
  match l.speaker? with
  | some speaker => speaker ++ ": " ++ l.text
  | none => l.text

/-- The line of what ends a sound. -/
def silenceLine : Option SoundStream → String
  | some stream => "[" ++ stream.name ++ "] stop"
  | none => "[sound] stop all"

/-- The stage after a cue. -/
def perform (c : Console) : Cue → Console
  | .background texture _ => c.line ("[bg] " ++ texture.path)
  | .backgroundOff _ => c.line "[bg] off"
  | .event texture _ => c.line ("[event] " ++ texture.path)
  | .eventOff _ => c.line "[event] off"
  | .sprite name texture _ => c.line ("[sprite] " ++ name ++ " " ++ texture.path)
  | .spriteOff name? _ => c.line ("[sprite] " ++ name?.getD "all" ++ " off")
  | .character s => c.line (spriteLine s)
  | .characterOff name? _ => c.line ("[character] " ++ name?.getD "all" ++ " off")
  | .play stream clip looping _ =>
    c.line ("[" ++ stream.name ++ "] " ++ clip.path ++ (if looping then " (loop)" else ""))
  | .stopSound stream? _ => c.line (silenceLine stream?)
  | .text l => c.line (textLine l)
  | .choices menu => c.choose menu
  | .fade direction seconds =>
    c.line ("[fade " ++ direction.name ++ "] " ++ Decimal.singleText seconds ++ "s")
  | .tween t => c.line ("[tween] " ++ joinWith " " [t.target, t.animation, t.arguments])
  | .message name arguments => c.line ("[message] " ++ name ++ " " ++ joinWith " " arguments)
  | .pageBegin _ _ => c
  | .pageEnd _ _ => { c with picked? := none }
  | .finished reason => c.line ("[end] " ++ reason.name)

instance : Stage Console where
  perform := Console.perform
  textShown _ := true
  fadeDone _ := true
  picked? c := c.picked?
  now c := c.clock

/-- Everything that was written. -/
def output (c : Console) : String :=
  String.ofList (c.lines.toList.flatMap fun l => l.toList ++ ['\n'])

end Console

end VisualNovel.Stage
