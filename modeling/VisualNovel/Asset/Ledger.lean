import VisualNovel.Asset.Handle
import VisualNovel.Decimal.Plain

/-
  Who uses which asset, and how often. The first use of an asset asks the loader for it, the
  last release gives it up. The ledger counts the uses of each owner and, beside them, the uses
  of each asset. A release that no use of the same owner stands against is ignored.
-/

namespace VisualNovel.Asset

/-- The subsystem that loads assets: it starts loads, tells how far they are and drops what
    nobody uses. -/
class Loader (ℓ : Type) where
  request : ℓ → Handle → ℓ
  state : ℓ → Handle → LoadState
  unload : ℓ → Handle → ℓ

/-- A call to the loader that changes it. -/
inductive LoaderCall where
  | load (handle : Handle)
  | unload (handle : Handle)
  deriving Repr, DecidableEq

/-- Makes a call. -/
def LoaderCall.run {ℓ : Type} [Loader ℓ] (loader : ℓ) : LoaderCall → ℓ
  | load h => Loader.request loader h
  | unload h => Loader.unload loader h

/-- Who uses an asset: the command at a position of the running scenario, or the window of
    assets that are loaded ahead. -/
inductive Owner where
  | command (index : Nat)
  | preload
  deriving Repr, DecidableEq

/-- The name of an owner. -/
def Owner.text : Owner → String
  | command index => "Command(" ++ Decimal.natText index ++ ")"
  | preload => "Preload"

/-! ## Counts -/

/-- Counts by key; a key that is missing counts zero. -/
structure Tally (α : Type) where
  entries : List (α × Nat)
  deriving Repr, DecidableEq

namespace Tally

variable {α : Type} [DecidableEq α]

/-- Nothing counted. -/
def empty : Tally α := ⟨[]⟩

/-- The count of a key. -/
def count (t : Tally α) (key : α) : Nat := (t.entries.lookup key).getD 0

/-- The keys that are counted. -/
def keys (t : Tally α) : List α := t.entries.map Prod.fst

/-- Adds one to the count of a key in a list of counts. -/
def addTo (key : α) : List (α × Nat) → List (α × Nat)
  | [] => [(key, 1)]
  | (k, n) :: rest => if k = key then (k, n + 1) :: rest else (k, n) :: addTo key rest

/-- Takes one from the count of a key in a list of counts, and the key from the list with the
    last one. -/
def takeFrom (key : α) : List (α × Nat) → List (α × Nat)
  | [] => []
  | (k, n) :: rest =>
    if k = key then (if n ≤ 1 then rest else (k, n - 1) :: rest) else (k, n) :: takeFrom key rest

/-- Counts a key once more. -/
def add (t : Tally α) (key : α) : Tally α := ⟨addTo key t.entries⟩

/-- Counts a key once less. -/
def take (t : Tally α) (key : α) : Tally α := ⟨takeFrom key t.entries⟩

end Tally

/-! ## The ledger -/

/-- The uses of each owner, the uses in total, and the loader. -/
structure Ledger (ℓ : Type) where
  loader : ℓ
  uses : Tally (Handle × Owner)
  totals : Tally Handle

namespace Ledger

variable {ℓ : Type}

/-- A ledger without uses. -/
def ofLoader (loader : ℓ) : Ledger ℓ := ⟨loader, .empty, .empty⟩

/-- The uses of an asset by all owners. -/
def useCount (l : Ledger ℓ) (h : Handle) : Nat := l.totals.count h

/-- The uses of an asset by one owner. -/
def ownerCount (l : Ledger ℓ) (h : Handle) (owner : Owner) : Nat := l.uses.count (h, owner)

/-- The number of different assets an owner uses. -/
def countOwnedBy (l : Ledger ℓ) (owner : Owner) : Nat :=
  (l.uses.keys.filter fun k => k.2 = owner).length

/-- The assets in use. -/
def held (l : Ledger ℓ) : List Handle := l.totals.keys

variable [Loader ℓ]

/-- How far the loading of an asset has come. -/
def state (l : Ledger ℓ) (h : Handle) : LoadState := Loader.state l.loader h

/-- The ledger after a call to its loader. -/
def call (l : Ledger ℓ) (c : LoaderCall) : Ledger ℓ := { l with loader := c.run l.loader }

/-- Uses an asset, and loads it if this is its first use. -/
def addUse (l : Ledger ℓ) (h : Handle) (owner : Owner) : Ledger ℓ × List LoaderCall :=
  let l := { l with uses := l.uses.add (h, owner), totals := l.totals.add h }
  if l.useCount h = 1 then (l.call (.load h), [.load h]) else (l, [])

/-- Gives a use back, and unloads the asset if this was its last use. -/
def release (l : Ledger ℓ) (h : Handle) (owner : Owner) : Ledger ℓ × List LoaderCall :=
  if l.ownerCount h owner = 0 then (l, [])
  else
    let l := { l with uses := l.uses.take (h, owner), totals := l.totals.take h }
    if l.useCount h = 0 then (l.call (.unload h), [.unload h]) else (l, [])

/-- Uses assets one after the other. -/
def addUses (owner : Owner) : List Handle → Ledger ℓ → Ledger ℓ × List LoaderCall
  | [], l => (l, [])
  | h :: rest, l =>
    let (l, first) := l.addUse h owner
    let (l, others) := l.addUses owner rest
    (l, first ++ others)

/-- Gives uses back one after the other. -/
def releases (owner : Owner) : List Handle → Ledger ℓ → Ledger ℓ × List LoaderCall
  | [], l => (l, [])
  | h :: rest, l =>
    let (l, first) := l.release h owner
    let (l, others) := l.releases owner rest
    (l, first ++ others)

end Ledger

end VisualNovel.Asset
