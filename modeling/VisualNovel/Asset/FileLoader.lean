import VisualNovel.Asset.Directories
import VisualNovel.Asset.Ledger
import VisualNovel.Disk.FileTree

/-
  Assets that are files. An asset is there as soon as it is asked for, if there is a file at its
  path below the root. An asset with an address of its own is never there.
-/

namespace VisualNovel.Asset

open Disk (FileTree)

/-- The files, the root of the assets, and the assets that were asked for. -/
structure FileLoader where
  files : FileTree
  root : String
  states : List (Handle × LoadState)
  deriving Repr, DecidableEq

namespace FileLoader

/-- A loader that was not asked for anything. -/
def ofRoot (files : FileTree) (root : String) : FileLoader := ⟨files, root, []⟩

/-- How the loading of an asset ends. -/
def verdict (l : FileLoader) (h : Handle) : LoadState :=
  if Directories.isAddress h.path then .failed "remote asset"
  else
    match l.files.resolve (Disk.joinPath l.root h.path) with
    | .ok (_, .file _) | .ok (_, .locked) => .loaded
    | .ok (_, .directory) | .ok (_, .closed) => .failed "not a file"
    | .error e => .failed e.text

/-- The number of assets that were asked for and not dropped. -/
def resident (l : FileLoader) : Nat := l.states.length

/-- The assets without one of them. -/
def forget (l : FileLoader) (h : Handle) : List (Handle × LoadState) :=
  l.states.filter fun s => s.1 ≠ h

instance : Loader FileLoader where
  request l h := { l with states := (h, l.verdict h) :: l.forget h }
  state l h := (l.states.lookup h).getD .pending
  unload l h := { l with states := l.forget h }

end FileLoader

end VisualNovel.Asset
