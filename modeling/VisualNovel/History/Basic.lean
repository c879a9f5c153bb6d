import VisualNovel.Stage.Cue

/-
  What a reader has read: the furthest page of each label, the scenes of the gallery that were
  seen to their end, and the place of the last automatic save. Labels are kept in order.
-/

namespace VisualNovel.History

open Stage (SavePoint)

/-- What has been read. -/
structure ReadHistory where
  pages : List (String × Int)
  viewedScenes : List String
  lastSave? : Option SavePoint
  deriving Repr, DecidableEq

namespace ReadHistory

/-- Nothing read. -/
def empty : ReadHistory := ⟨[], [], none⟩

/-- The furthest page read of a label. -/
def furthestPage? (h : ReadHistory) (label : String) : Option Int := h.pages.lookup label

/-- Whether a page has been read: it is not beyond the furthest one. -/
def isPageRead (h : ReadHistory) (label : String) (page : Int) : Bool :=
  match h.furthestPage? label with
  | some furthest => decide (page ≤ furthest)
  | none => false

/-- Whether a scene has been seen to its end. -/
def isSceneViewed (h : ReadHistory) (label : String) : Bool := h.viewedScenes.contains label

/-- Puts a page into an ordered list, a further page over a nearer one. -/
def insertPage (label : String) (page : Int) : List (String × Int) → List (String × Int)
  | [] => [(label, page)]
  | (l, p) :: rest =>
    if label = l then (l, max p page) :: rest
    else if label < l then (label, page) :: (l, p) :: rest
    else (l, p) :: insertPage label page rest

/-- Puts a scene into an ordered list. -/
def insertScene (label : String) : List String → List String
  | [] => [label]
  | l :: rest =>
    if label = l then l :: rest
    else if label < l then label :: l :: rest
    else l :: insertScene label rest

/-- A page of a label has been read through. -/
def recordPageRead (h : ReadHistory) (label : String) (page : Int) : ReadHistory :=
  { h with pages := insertPage label page h.pages }

/-- A scene has been seen to its end. -/
def recordSceneViewed (h : ReadHistory) (label : String) : ReadHistory :=
  { h with viewedScenes := insertScene label h.viewedScenes }

/-- A page began at this place. -/
def autosave (h : ReadHistory) (point : SavePoint) : ReadHistory :=
  { h with lastSave? := some point }

/-- What is noted in a history. -/
inductive Note where
  | pageRead (label : String) (page : Int)
  | sceneViewed (label : String)
  | autosave (point : SavePoint)
  deriving Repr, DecidableEq

/-- The history with a note. -/
def record (h : ReadHistory) : Note → ReadHistory
  | .pageRead label page => h.recordPageRead label page
  | .sceneViewed label => h.recordSceneViewed label
  | .autosave point => h.autosave point

end ReadHistory

end VisualNovel.History
