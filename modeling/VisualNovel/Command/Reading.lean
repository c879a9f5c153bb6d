import VisualNovel.Asset.Directories
import VisualNovel.Character.Settings
import VisualNovel.Command.Action
import VisualNovel.Decimal.Binary
import VisualNovel.Table.Typed

/-
  Reading commands off rows. The first cells of a row are the arguments of its command. Texts
  are trimmed, but for the line of a row, which is shown as it stands; a number that cannot be
  read counts as missing, except the count of an animation. Of several faults of a row the first
  is reported, in the order in which the command reads its cells.
-/

namespace VisualNovel.Command

open Asset (Directories Handle)
open Expression (Statements)
open Stage Table Text

/-- What commands need to know besides their rows: where assets lie, and the characters. -/
structure Settings where
  assets : Directories
  characters : Character.Settings
  deriving Repr, DecidableEq

/-- Assets in their usual places, and no characters. -/
def Settings.standard : Settings := ⟨.standard, .empty⟩

/-! ## Arguments -/

/-- The text of a cell, trimmed. -/
def text? (r : Row) (column : Column) : Option String := (r.cell? column.header).map trim

/-- The number in a cell, if it can be read. -/
def number? (r : Row) (column : Column) : Option Float32 := r.tryParse column.header

/-- The error of an argument. -/
def fault {α : Type} (r : Row) (tag : Tag) (f : ArgumentFault) : Except Error α :=
  .error (.command (.invalidArgument r.context tag.name f))

/-- The text of a cell that has to be there. -/
def requiredText (r : Row) (tag : Tag) (column : Column) : Except Error String :=
  match text? r column with
  | some text => .ok text
  | none => fault r tag (.missing column)

/-- The sign that a label begins with. -/
def labelSign : Char := '*'

/-- The label of a text that begins with the sign and goes on. -/
def labelOf? (text : String) : Option String :=
  match text.toList with
  | c :: d :: rest => if c = labelSign then some (String.ofList (d :: rest)) else none
  | _ => none

/-- A label that has to be there. -/
def requiredLabel (r : Row) (tag : Tag) (column : Column) : Except Error String := do
  let raw ← requiredText r tag column
  match labelOf? raw with
  | some label => pure label
  | none => throw (.command (.invalidLabel r.context raw))

/-- A text in a cell, read by `parse`. -/
def parsed? {α : Type} (parse : String → Except ExpressionError α) (r : Row) (tag : Tag)
    (column : Column) : Except Error (Option α) :=
  match text? r column with
  | none => .ok none
  | some text =>
    match parse text with
    | .ok value => .ok (some value)
    | .error e => fault r tag (.expression e)

/-- An argument that has to be there. -/
def orFault {α : Type} (r : Row) (tag : Tag) (f : ArgumentFault) : Option α → Except Error α
  | some value => .ok value
  | none => fault r tag f

/-- A condition that has to be there. -/
def requiredCondition (r : Row) (tag : Tag) : Except Error Expression := do
  let condition? ← parsed? Expression.parse r tag .arg1
  orFault r tag .missingCondition condition?

/-- How long a fade takes when nothing is said, in seconds. -/
def usualFade : Float32 := 0.2

/-- How long a fade takes. -/
def fadeOf (r : Row) : Float32 := (number? r .arg6).getD usualFade

/-- The nanoseconds of a number of seconds, to the nearest. What is no time, below zero or no
    number, is none at all, and so is what does not fit into 64 bits of seconds. -/
def nanoseconds (seconds : Float32) : Nat :=
  let bits := seconds.toBits.toNat
  match Decimal.BinaryFormat.single.decode bits with
  | .finite m e =>
    if Decimal.BinaryFormat.single.isNegative bits then 0
    else if Nat.pow 2 64 * Nat.pow 2 (-e).toNat ≤ m * Nat.pow 2 e.toNat then 0
    else Decimal.BinaryFormat.roundAt (m * Nat.pow 10 9) 1 (-e)
  | _ => 0

/-! ## Commands -/

/-- The line of a row, if its text is not blank. -/
def lineOf? (s : Settings) (r : Row) : Option Line :=
  (r.cell? Column.text.header).map fun text =>
    { text
      voice? := (text? r .voice).map (s.assets.handle .voice)
      voiceVersion? := r.tryParse Column.voiceVersion.header }

/-- The pattern that sends a character off. -/
def offPattern : String := "<Off>"

/-- The place on the screen that a row names, if it gives any of the two numbers. -/
def positionOf? (r : Row) : Option Position :=
  match number? r .arg4, number? r .arg5 with
  | none, none => none
  | x, y => some ⟨x.getD 0, y.getD 0⟩

/-- Reads a character. -/
def readCharacter (s : Settings) (r : Row) : Except Error Action := do
  let name ← requiredText r .character .arg1
  let pattern? := text? r .arg2
  let hidden := pattern? == some offPattern
  let info? := s.characters.get? name
  let file? := if hidden then none else info?.bind fun i => i.file? pattern?
  pure <| .character
    { name
      displayName := (info?.map Character.Info.displayName).getD name
      pattern?
      hidden
      texture? := file?.map (s.assets.handle .character)
      layer? := text? r .arg3
      position? := positionOf? r
      fade := fadeOf r
      line? := lineOf? s r }

/-- The category of a picture. -/
def Layer.category : Layer → Asset.Category
  | background => .background
  | event => .event
  | sprite => .sprite

/-- Reads a picture. -/
def readLayer (kind : Layer) (s : Settings) (r : Row) : Except Error Action := do
  let name ← requiredText r kind.tag .arg1
  pure (.layer kind name (s.assets.handle kind.category name) (fadeOf r))

/-- Reads the end of a picture. -/
def readLayerOff (kind : Layer) (r : Row) : Action := .layerOff kind (text? r .arg1) (fadeOf r)

/-- The category of a sound. -/
def Track.category : Track → Asset.Category
  | se => .se
  | bgm => .bgm
  | ambience => .ambience

/-- Whether a sound is played again and again when nothing is said. -/
def Track.loops : Track → Bool
  | se => false
  | _ => true

/-- Reads a sound; it fades in only if something is said about that. -/
def readSound (track : Track) (s : Settings) (r : Row) : Except Error Action := do
  let file ← requiredText r track.tag .arg1
  let looping := (r.tryParse Column.arg2.header).getD track.loops
  let fade := if r.isEmptyCell Column.arg6.header then 0 else fadeOf r
  pure (.sound track (s.assets.handle track.category file) looping fade)

/-- Reads assignments. -/
def readParam (r : Row) : Except Error Action := do
  let statements? ← parsed? Statements.parse r .param .arg1
  let statements ← orFault r .param (.missing .arg1) statements?
  pure (.assign statements)

/-- Reads an entry of a menu. -/
def readChoice (r : Row) : Except Error Action := do
  let caption ← requiredText r .selection .text
  let target ← requiredLabel r .selection .arg1
  let effect? ← parsed? Statements.parse r .selection .arg2
  pure (.choice ⟨caption, target, effect?⟩)

/-- Reads a jump. -/
def readJump (r : Row) : Except Error Action := do
  let target ← requiredLabel r .jump .arg1
  let condition? ← parsed? Expression.parse r .jump .arg2
  pure (.jump target condition?)

/-- Reads a message. -/
def readMessage (r : Row) : Except Error Action := do
  let name ← requiredText r .sendMessage .arg1
  pure (.message name ([Column.arg2, .arg3, .arg4, .arg5, .text].filterMap (text? r)))

/-- The count of an animation, if there is one. -/
def readLoopCount (r : Row) : Except Error (Option UInt32) :=
  match text? r .arg4 with
  | none => .ok none
  | some _ => (r.parse Column.arg4.header).map some

/-- Reads an animation. -/
def readTween (r : Row) : Except Error Action := do
  let target ← requiredText r .tween .arg1
  let animation ← requiredText r .tween .arg2
  let loopCount? ← readLoopCount r
  pure (.tween ⟨target, animation, (text? r .arg3).getD "", loopCount?⟩)

/-- Reads the command of a name. -/
def Tag.read (s : Settings) (r : Row) : Tag → Except Error Action
  | text => .ok (.text (lineOf? s r))
  | character => readCharacter s r
  | characterOff => .ok (.characterOff (text? r .arg1) (fadeOf r))
  | background => readLayer .background s r
  | backgroundOff => .ok (readLayerOff .background r)
  | event => readLayer .event s r
  | eventOff => .ok (readLayerOff .event r)
  | sprite => readLayer .sprite s r
  | spriteOff => .ok (readLayerOff .sprite r)
  | se => readSound .se s r
  | bgm => readSound .bgm s r
  | stopBgm => .ok (.stopSound .bgm (fadeOf r))
  | ambience => readSound .ambience s r
  | stopAmbience => .ok (.stopSound .ambience (fadeOf r))
  | stopSound => .ok (.stopSound .everything (fadeOf r))
  | wait => .ok (.wait (nanoseconds ((number? r .arg6).getD 0)))
  | fadeIn => .ok (.fade .fadeIn (fadeOf r))
  | fadeOut => .ok (.fade .fadeOut (fadeOf r))
  | param => readParam r
  | ifStart => (requiredCondition r .ifStart).map .ifStart
  | elseIf => (requiredCondition r .elseIf).map .elseIf
  | elseBranch => .ok .elseBranch
  | endIf => .ok .endIf
  | selection => readChoice r
  | selectionEnd => .ok .menu
  | jump => readJump r
  | sendMessage => readMessage r
  | tween => readTween r
  | endScenario => .ok (.control .endScenario)
  | stopScenario => .ok (.control .stopScenario)
  | eraseScenario => .ok (.control .eraseScenario)
  | endSceneGallery => .ok (.control .endSceneGallery)

/-! ## Rows -/

/-- Makes an action of a game's own out of a row. -/
abbrev HostReader := Row → Settings → Except Error { a : HostAction // a.ClosesPlainly }

/-- The commands a game adds, by name. -/
structure Factory where
  custom : List (String × HostReader)

namespace Factory

/-- Nothing added. -/
def standard : Factory := ⟨[]⟩

/-- Adds a command, over an older one of the same name. -/
def register (f : Factory) (tag : String) (reader : HostReader) : Factory :=
  ⟨(tag, reader) :: f.custom.filter fun c => c.1 != tag⟩

/-- Whether a name is that of a command the game added. -/
def isRegistered (f : Factory) (tag : String) : Bool := (f.custom.lookup tag).isSome

end Factory

/-- The name of a row that says nothing. -/
def commentName : String := "Comment"

/-- Whether a name says that the row is a comment. -/
def isComment (name : String) : Bool :=
  name == commentName || ['/', '/'].isPrefixOf name.toList

/-- Reads a row that names a label. -/
def readLabel (r : Row) (name : String) : Except Error Action :=
  match labelOf? name with
  | some label => .ok (.label label ((text? r .arg1).getD label))
  | none => .error (.command (.invalidLabel r.context name))

/-- What a row without a name is: a character if it has an argument, or else a line, or else
    nothing. -/
def inferred? (r : Row) : Option Tag :=
  if !r.isEmptyCell Column.arg1.header then some .character
  else if !r.isEmptyCell Column.text.header then some .text
  else none

/-- Reads the action of a row that has a name. -/
def Factory.readNamed (f : Factory) (s : Settings) (r : Row) (name : String) :
    Except Error (Option Action) :=
  if isComment name then .ok none
  else
    match f.custom.lookup name with
    | some reader => (reader r s).map fun a => some (.host a.1)
    | none =>
      if name.toList.head? = some labelSign then (readLabel r name).map some
      else
        match Tag.ofName? name with
        | some tag => (tag.read s r).map some
        | none => .error (.command (.unknownTag r.context name))

/-- Reads the action of a row, if it has one. -/
def Factory.readAction (f : Factory) (s : Settings) (r : Row) : Except Error (Option Action) :=
  match text? r .command with
  | some name => f.readNamed s r name
  | none =>
    match inferred? r with
    | some tag => (tag.read s r).map some
    | none => .ok none

/-- Reads the command of a row, if it has one. -/
def Factory.read (f : Factory) (s : Settings) (r : Row) : Except Error (Option Command) :=
  (f.readAction s r).map fun a => a.map fun action => ⟨r.context, action⟩

end VisualNovel.Command
