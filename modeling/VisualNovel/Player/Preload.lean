import VisualNovel.Asset.Ledger

/-
  The window of assets that are loaded ahead of the story: at most `cap` different ones, the
  first that the commands to come want. An asset that stays in the window keeps its use. Before a
  window is moved room is made for all that it may hold, so one that may hold more than a list has
  room for cannot be moved.
-/

namespace VisualNovel.Player

open Asset

/-- The window, with the assets it holds in the order they are wanted. -/
structure PreloadWindow where
  cap : Nat
  held : List Handle
  deriving Repr, DecidableEq

/-- The first `cap` different assets of a list, after those that are there already. -/
def firstDistinct (cap : Nat) : List Handle → List Handle → List Handle
  | wanted, [] => wanted
  | wanted, h :: rest =>
    if cap ≤ wanted.length then wanted
    else firstDistinct cap (if h ∈ wanted then wanted else wanted ++ [h]) rest

namespace PreloadWindow

/-- An empty window. -/
def ofCap (cap : Nat) : PreloadWindow := ⟨cap, []⟩

variable {ℓ : Type} [Loader ℓ]

/-- Moves the window to where `upcoming` are the assets of the commands to come: gives back what
    is no longer wanted, then uses what is new. -/
def update (w : PreloadWindow) (upcoming : List Handle) (l : Ledger ℓ) :
    PreloadWindow × Ledger ℓ × List LoaderCall :=
  let wanted := firstDistinct w.cap [] upcoming
  let (l, released) := l.releases .preload (w.held.filter (· ∉ wanted))
  let (l, added) := l.addUses .preload (wanted.filter (· ∉ w.held))
  ({ w with held := wanted }, l, released ++ added)

/-- The most assets that a list has room for: each takes 24 bytes, and no list more than 63 bits
    count. -/
def roomLimit : Nat := 9223372036854775807 / 24

/-- `update` with the room that is made first. The program breaks off, and there is no result, if
    the window may hold more than a list has room for. -/
def update? (w : PreloadWindow) (upcoming : List Handle) (l : Ledger ℓ) :
    Option (PreloadWindow × Ledger ℓ × List LoaderCall) :=
  if w.cap ≤ roomLimit then some (w.update upcoming l) else none

/-- Gives back all that the window holds. -/
def clear (w : PreloadWindow) (l : Ledger ℓ) : PreloadWindow × Ledger ℓ × List LoaderCall :=
  let (l, released) := l.releases .preload w.held
  ({ w with held := [] }, l, released)

end PreloadWindow

end VisualNovel.Player
