import VisualNovel.Decimal.Reading
import VisualNovel.Text.Blank

/-
  The arguments of the program. A subcommand comes first, then its options in any order; each
  option takes one value, in the same argument behind an equals sign or in the next one, but
  scripts take as many as follow. Only scripts and picks can be given more than once. What
  begins with a hyphen is never a value. The first thing that is wrong, or a wish for help, ends
  the reading.
-/

namespace VisualNovel.CommandLine

/-- What the program can be asked to explain. -/
inductive Topic where
  | program
  | run
  | check
  deriving Repr, DecidableEq

/-- Why the arguments are not carried out. -/
inductive Stop where
  | misuse
  | help (topic : Topic)
  | version
  deriving Repr, DecidableEq

/-- How to play a scenario. -/
structure RunOptions where
  scripts : List String
  label : String
  page : Int
  picks : List Nat
  gallery? : Option String
  config? : Option String
  history? : Option String
  assetRoot : String
  deriving Repr, DecidableEq

/-- Which scripts to check. -/
structure CheckOptions where
  scripts : List String
  config? : Option String
  deriving Repr, DecidableEq

/-- What the program is asked to do. -/
inductive Task where
  | run (options : RunOptions)
  | check (options : CheckOptions)
  deriving Repr, DecidableEq

/-- An option that takes values. -/
inductive ValueOption where
  | script
  | label
  | page
  | choices
  | gallery
  | config
  | history
  | assetRoot
  deriving Repr, DecidableEq

/-- The name of an option, without its hyphens. -/
def ValueOption.name : ValueOption → String
  | script => "script"
  | label => "label"
  | page => "page"
  | choices => "choices"
  | gallery => "gallery"
  | config => "config"
  | history => "history"
  | assetRoot => "asset-root"

/-- The options of a subcommand. -/
def optionsOf : Topic → List ValueOption
  | .program => []
  | .run => [.script, .label, .page, .choices, .gallery, .config, .history, .assetRoot]
  | .check => [.script, .config]

/-- Whether an option names a file or a directory, which needs a name. -/
def ValueOption.isPath : ValueOption → Bool
  | script | config | history | assetRoot => true
  | _ => false

/-- What the reader waits for: nothing, the value of an option, or more values of one. -/
inductive Waiting where
  | nothing
  | value (o : ValueOption)
  | more (o : ValueOption)
  deriving Repr, DecidableEq

/-- What was read so far: the subcommand, the flags given to it, the values of its options in
    order, and whether options are over. -/
structure Draft where
  topic : Topic := .program
  flags : List String := []
  values : List (ValueOption × String) := []
  waiting : Waiting := .nothing
  optionsOver : Bool := false
  deriving Repr, DecidableEq

/-- The picks of a list with commas. -/
def picksOf? (value : String) : Option (List Nat) :=
  (Text.splitAt ',' value).mapM fun p =>
    (Decimal.IntRange.uint64.read? p.toList).map Int.toNat

/-- The page of a value. -/
def pageOf? (value : String) : Option Int := Decimal.IntRange.int32.read? value.toList

/-- Whether an option can take a value. -/
def ValueOption.accepts (o : ValueOption) (value : String) : Bool :=
  match o with
  | page => (pageOf? value).isSome
  | choices => (picksOf? value).isSome
  | _ => !(o.isPath && value == "")

/-- Whether an option can be given more than once. -/
def ValueOption.isRepeatable : ValueOption → Bool
  | script | choices => true
  | _ => false

/-- Begins an option. -/
def Draft.option (d : Draft) (o : ValueOption) : Except Stop Draft :=
  if !o.isRepeatable && d.values.any (fun v => v.1 = o) then .error .misuse
  else .ok { d with waiting := .value o }

/-- Gives a value to an option. -/
def Draft.value (d : Draft) (o : ValueOption) (value : String) (waiting : Waiting) :
    Except Stop Draft :=
  if o.accepts value then .ok { d with values := d.values ++ [(o, value)], waiting }
  else .error .misuse

/-- Sets a flag, which can be set once before the subcommand and once behind it. -/
def Draft.flag (d : Draft) (name : String) : Except Stop Draft :=
  if d.flags.contains name then .error .misuse
  else .ok { d with flags := name :: d.flags, waiting := .nothing }

/-- Reads a long option, without its hyphens. -/
def Draft.long (d : Draft) (text : String) : Except Stop Draft :=
  let cs := text.toList
  let name := String.ofList (cs.takeWhile (· != '='))
  let attached? := (cs.dropWhile (· != '=')).tail?.map String.ofList
  match (optionsOf d.topic).find? fun o => o.name == name, attached? with
  | some o, some value => (d.option o).bind fun d => d.value o value .nothing
  | some o, none => d.option o
  | none, none =>
    if name = "verbose" ∨ name = "json-logs" then d.flag name
    else if name = "help" then .error (.help d.topic)
    else if name = "version" ∧ d.topic = .program then .error .version
    else .error .misuse
  | none, some _ => .error .misuse

/-- Reads the letters behind one hyphen. -/
def Draft.short (d : Draft) : List Char → Except Stop Draft
  | [] => .ok d
  | c :: rest =>
    if c = 'v' then (d.flag "verbose").bind fun d => d.short rest
    else if c = 'h' then .error (.help d.topic)
    else if c = 'V' ∧ d.topic = .program then .error .version
    else .error .misuse

/-- Reads an argument that is no option. -/
def Draft.plain (d : Draft) (text : String) : Except Stop Draft :=
  match d.waiting with
  | .value o => d.value o text (if o = .script then .more o else .nothing)
  | .more o => d.value o text (.more o)
  | .nothing =>
    if d.topic ≠ .program ∨ d.optionsOver then .error .misuse
    else if text = "run" then .ok { d with topic := .run, flags := [] }
    else if text = "check" then .ok { d with topic := .check, flags := [] }
    else .error .misuse

/-- Reads an argument. -/
def Draft.argument (d : Draft) (text : String) : Except Stop Draft :=
  if d.optionsOver then .error .misuse
  else
    match text.toList with
    | '-' :: c :: rest =>
      match d.waiting with
      | .value _ => .error .misuse
      | _ =>
        if c = '-' ∧ rest = [] then .ok { d with waiting := .nothing, optionsOver := true }
        else if c = '-' then d.long (String.ofList rest)
        else d.short (c :: rest)
    | _ => d.plain text

/-- The values of an option. -/
def Draft.valuesOf (d : Draft) (o : ValueOption) : List String :=
  (d.values.filter fun v => v.1 = o).map Prod.snd

/-- The value of an option. -/
def Draft.value? (d : Draft) (o : ValueOption) : Option String := (d.valuesOf o).head?

/-- What was asked for, if nothing is missing. -/
def Draft.task (d : Draft) : Except Stop Task :=
  let scripts := d.valuesOf .script
  match d.waiting with
  | .value _ => .error .misuse
  | _ =>
    match d.topic, scripts with
    | .run, _ :: _ =>
      match d.value? .label with
      | none => .error .misuse
      | some label =>
        .ok <| .run
          { scripts
            label
            page := ((d.value? .page).bind pageOf?).getD 0
            picks := ((d.valuesOf .choices).filterMap picksOf?).flatten
            gallery? := d.value? .gallery
            config? := d.value? .config
            history? := d.value? .history
            assetRoot := (d.value? .assetRoot).getD "." }
    | .check, _ :: _ => .ok (.check ⟨scripts, d.value? .config⟩)
    | _, _ => .error .misuse

/-- What a wish for help is about. -/
def helpTopic : List String → Except Stop Topic
  | [] => .ok .program
  | ["run"] => .ok .run
  | ["check"] => .ok .check
  | _ => .error .misuse

/-- Reads arguments after some. -/
def Draft.read (d : Draft) : List String → Except Stop Task
  | [] => d.task
  | text :: rest =>
    if text = "help" ∧ d.topic = .program ∧ ¬ d.optionsOver then
      (helpTopic rest).bind fun topic => .error (.help topic)
    else (d.argument text).bind fun d => d.read rest

/-- Reads the arguments of the program. -/
def readArguments (args : List String) : Except Stop Task := Draft.read {} args

end VisualNovel.CommandLine
