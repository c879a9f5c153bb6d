/-
  Assets as a story names them. A handle is a path with the kind of thing that lies there; two
  handles with the same path and kind are the same asset. Loading one ends well or badly, and
  either way it is over: an asset that failed to load is complete, but not usable.
-/

namespace VisualNovel.Asset

/-- What an asset is. -/
inductive ResourceKind where
  | texture
  | sound
  deriving Repr, DecidableEq

/-- An asset by its path. -/
structure Handle where
  path : String
  kind : ResourceKind
  deriving Repr, DecidableEq

/-- How far the loading of an asset has come. -/
inductive LoadState where
  | pending
  | loaded
  | failed (reason : String)
  deriving Repr, DecidableEq

namespace LoadState

/-- The loading is over, well or badly. -/
def isComplete : LoadState → Bool
  | pending => false
  | _ => true

/-- The asset can be used. -/
def isLoaded : LoadState → Bool
  | loaded => true
  | _ => false

/-- The name of a state, with the reason of a failure. -/
def text : LoadState → String
  | pending => "Pending"
  | loaded => "Loaded"
  | failed reason => "Failed: " ++ reason

end LoadState

end VisualNovel.Asset
