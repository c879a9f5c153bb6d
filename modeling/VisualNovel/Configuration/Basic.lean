import VisualNovel.Asset.Directories
import VisualNovel.Error
import VisualNovel.Expression.Params
import VisualNovel.Table.Delimited

/-
  What can be configured: the player, how scripts are read, where assets lie, the parameters a
  story starts with and the labels of the gallery.
-/

namespace VisualNovel.Configuration

open Table (Delimiter)

/-- The name of the program, which is also that of its configuration files. -/
def programName : String := "hokusai"

/-- How many assets the player loads ahead, and the milliseconds from frame to frame. -/
structure PlayerSettings where
  preloadCap : Nat := 20
  frameInterval : Nat := 16
  deriving Repr, DecidableEq

/-- Player settings in the making. -/
structure PlayerDraft where
  preloadCap? : Option Nat := none
  frameInterval? : Option Nat := none
  deriving Repr, DecidableEq

/-- The settings, if neither of them is zero. -/
def PlayerDraft.build (d : PlayerDraft) : Except Error PlayerSettings :=
  if d.preloadCap? = some 0 then
    .error (.builder (.validation "preload_cap must be at least 1"))
  else if d.frameInterval? = some 0 then
    .error (.builder (.validation "frame_interval_ms must be at least 1"))
  else
    let usual : PlayerSettings := {}
    .ok ⟨d.preloadCap?.getD usual.preloadCap, d.frameInterval?.getD usual.frameInterval⟩

/-- How scripts are read: the delimiter, if it is not to be told from the file's name, the row
    of the header and the file of the character sheet. -/
structure ScriptSettings where
  delimiter? : Option Delimiter := none
  headerRow : Nat := 0
  characters? : Option String := none
  deriving Repr, DecidableEq

/-- The delimiter of a file. -/
def ScriptSettings.delimiterFor (s : ScriptSettings) (path : String) : Delimiter :=
  s.delimiter?.getD (Delimiter.ofExtension ((Disk.extension? path).getD ""))

/-- A whole configuration. -/
structure Settings where
  player : PlayerSettings := {}
  script : ScriptSettings := {}
  assets : Asset.Directories := .standard
  params : Expression.Params := .empty
  galleryLabels : List String := []
  deriving DecidableEq

end VisualNovel.Configuration
