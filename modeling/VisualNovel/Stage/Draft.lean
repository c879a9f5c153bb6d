import VisualNovel.Error
import VisualNovel.Stage.Cue

/-
  Lines and characters that are put together field by field. What is not given keeps its
  default; a line needs its text and a character its name.
-/

namespace VisualNovel.Stage

open Asset (Handle)

/-- A field that has to be given. -/
def required {α : Type} (field : String) : Option α → Except Error α
  | some value => .ok value
  | none => .error (.builder (.missingField field))

/-- A line of text in the making. -/
structure TextLineDraft where
  text? : Option String := none
  speaker? : Option String := none
  voice? : Option Handle := none
  voiceVersion? : Option Int32 := none
  deriving Repr, DecidableEq

/-- The line, if it has a text. -/
def TextLineDraft.build (d : TextLineDraft) : Except Error TextLine := do
  let text ← required "text" d.text?
  pure ⟨text, d.speaker?, d.voice?, d.voiceVersion?⟩

/-- A character in the making. -/
structure CharacterDraft where
  name? : Option String := none
  displayName? : Option String := none
  pattern? : Option String := none
  texture? : Option Handle := none
  layer? : Option String := none
  position? : Option Position := none
  fade? : Option Float32 := none
  deriving Repr, DecidableEq

/-- The character, if it has a name. -/
def CharacterDraft.build (d : CharacterDraft) : Except Error CharacterSprite := do
  let name ← required "name" d.name?
  pure ⟨name, d.displayName?, d.pattern?, d.texture?, d.layer?, d.position?, d.fade?.getD 0⟩

end VisualNovel.Stage
