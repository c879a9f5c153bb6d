import VisualNovel.Proofs.Entries
import VisualNovel.Scenario.Library

/-
  Sources that settle. A table may be there at once or after a long time, but when a label is
  there, its table is always the same (`Supplies`). A library supplies its tables, whichever of
  them are ready (`Library.supplies`).
-/

namespace VisualNovel.Scenario

open Entries
open Table (CellTable)

/-- Whatever becomes of a source, it is one of `S`. When a label is there, its table is the one of
    `tables`, or it has none. -/
structure Supplies {ς : Type} [TableSource ς] (tables : String → Option CellTable)
    (S : ς → Prop) : Prop where
  request : ∀ {source label}, S source → S (TableSource.request source label)
  table : ∀ {source label}, S source → TableSource.isLoaded source label = true →
    TableSource.table? source label = tables label

namespace Library

/-- The table of a label, ready or not. -/
def promised (l : Library) (label : String) : Option CellTable :=
  (l.owner? label).bind fun name => (l.shelf? name).map Shelf.table

theorem table?_of_isLoaded {l : Library} {label : String} (h : l.isLoaded label = true) :
    l.table? label = l.promised label := by
  unfold isLoaded at h
  unfold table? promised
  cases howner : l.owner? label with
  | none => rfl
  | some name =>
    rw [howner] at h
    dsimp only at h
    cases hshelf : l.shelf? name with
    | none => simp [hshelf]
    | some shelf =>
      rw [hshelf] at h
      have hready : shelf.ready = true := h
      simp [hshelf, hready]

theorem lookup_putShelf (name : String) (shelf : Shelf) (shelves : List (String × Shelf))
    (n : String) :
    (putShelf name shelf shelves).lookup n =
      if n = name then some shelf else shelves.lookup n := by
  fun_induction putShelf name shelf shelves with
  | case1 => rw [lookup_cons_ite]
  | case2 s rest => by_cases hn : n = name <;> simp [lookup_cons_ite, hn]
  | case3 m s rest hm ih =>
    rw [lookup_cons_ite, ih, lookup_cons_ite]
    by_cases hn : n = m
    · rw [if_pos hn, if_pos hn, if_neg (hn ▸ hm)]
    · rw [if_neg hn, if_neg hn]

/-- A table that is said to be ready, or not, stays where it was. -/
theorem shelf?_setReady (l : Library) (name : String) (ready : Bool) (n : String) :
    (l.setReady name ready).shelf? n =
      if n = name then (l.shelf? n).map fun s => { s with ready } else l.shelf? n := by
  unfold setReady
  by_cases hn : n = name
  · subst hn
    rw [if_pos rfl]
    cases hs : l.shelf? n with
    | none => exact hs
    | some s => exact (lookup_putShelf _ _ _ _).trans (if_pos rfl)
  · rw [if_neg hn]
    cases hs : l.shelf? name with
    | none => rfl
    | some s => exact (lookup_putShelf _ _ _ _).trans (if_neg hn)

theorem map_table_setReady (l : Library) (name : String) (ready : Bool) (n : String) :
    ((l.setReady name ready).shelf? n).map Shelf.table = (l.shelf? n).map Shelf.table := by
  rw [shelf?_setReady]
  split
  · rw [Option.map_map]
    rfl
  · rfl

theorem owner?_setReady (l : Library) (name : String) (ready : Bool) :
    (l.setReady name ready).owner? = l.owner? := by
  unfold setReady
  split <;> rfl

/-- A library promises a table whether it is ready or not. -/
theorem promised_setReady (l : Library) (name : String) (ready : Bool) :
    (l.setReady name ready).promised = l.promised := by
  funext label
  unfold promised
  rw [owner?_setReady]
  exact congrArg ((l.owner? label).bind ·) (funext fun n => l.map_table_setReady name ready n)

/-- A library supplies what it promises. -/
theorem supplies (l : Library) : Supplies l.promised fun k : Library => k.promised = l.promised where
  request h := h
  table h hloaded := (table?_of_isLoaded hloaded).trans (congrFun h _)

end Library

end VisualNovel.Scenario
