import VisualNovel.Asset.Handle
import VisualNovel.Disk.Path

/-
  Where the assets lie. Each category has a directory below a common root and an extension for
  names that come without one. An address with a scheme is a path of its own, and so is no
  name at all.
-/

namespace VisualNovel.Asset

open Text

/-- What a file name in a script stands for. -/
inductive Category where
  | character
  | background
  | event
  | sprite
  | bgm
  | se
  | ambience
  | voice
  deriving Repr, DecidableEq

namespace Category

/-- The name of a category in a configuration. -/
def name : Category → String
  | character => "character"
  | background => "bg"
  | event => "event"
  | sprite => "sprite"
  | bgm => "bgm"
  | se => "se"
  | ambience => "ambience"
  | voice => "voice"

/-- All categories. -/
def all : List Category := [character, background, event, sprite, bgm, se, ambience, voice]

/-- The category with a name. -/
def ofName? (s : String) : Option Category := all.find? fun c => c.name == s

/-- What the assets of a category are. -/
def kind : Category → ResourceKind
  | character | background | event | sprite => .texture
  | bgm | se | ambience | voice => .sound

end Category

/-- A directory, and the extension of its files with the dot. -/
structure Directory where
  dir : String
  ext : String
  deriving Repr, DecidableEq

/-- The directory of a category when nothing else is said. -/
def Category.directory : Category → Directory
  | character => ⟨"Texture/Character", ".png"⟩
  | background => ⟨"Texture/BG", ".jpg"⟩
  | event => ⟨"Texture/Event", ".jpg"⟩
  | sprite => ⟨"Texture/Sprite", ".png"⟩
  | bgm => ⟨"Sound/BGM", ".wav"⟩
  | se => ⟨"Sound/SE", ".wav"⟩
  | ambience => ⟨"Sound/Ambience", ".wav"⟩
  | voice => ⟨"Sound/Voice", ".wav"⟩

/-- A root, and the directories that are not where they usually are. -/
structure Directories where
  root : String
  own : List (Category × Directory)
  deriving Repr, DecidableEq

namespace Directories

/-- Every category in its usual directory. -/
def standard : Directories := ⟨"", []⟩

/-- The directory of a category. -/
def directory (d : Directories) (category : Category) : Directory :=
  (d.own.lookup category).getD category.directory

/-- Whether a text is an address with a scheme. -/
def isAddress (path : String) : Bool := contains path "://"

/-- The path of parts that lie in each other; slashes at their ends do not count. -/
def below (parts : List String) : String :=
  joinWith "/" ((parts.map (trimBoth (· == '/'))).filter (· != ""))

/-- The path of a file name. -/
def resolve (d : Directories) (category : Category) (fileName : String) : String :=
  let name := trim fileName
  if name == "" || isAddress name then name
  else
    let directory := d.directory category
    let file := if (Disk.extension? name).isNone then name ++ directory.ext else name
    below [d.root, directory.dir, file]

/-- The asset of a file name. -/
def handle (d : Directories) (category : Category) (fileName : String) : Handle :=
  ⟨d.resolve category fileName, category.kind⟩

end Directories

end VisualNovel.Asset
