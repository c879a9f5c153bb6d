import Mathlib.Data.String.Basic
import VisualNovel.Decimal.Reading
import VisualNovel.History.Basic

/-
  Ordered histories. A history keeps its labels in order, each once, and its pages are words of
  32 bits. This holds of the empty history and stays so whatever is noted in it
  (`WellFormed.record`). A label beyond all others is put at the end, so that a list in order is
  made again by putting in its entries one after the other.
-/

namespace VisualNovel.History.ReadHistory

open Decimal (IntRange)
open Stage (SavePoint)

/-- Whether a number is a page. -/
def IsPage (page : Int) : Prop := IntRange.int32.holds page = true

/-- Labels in order, each once. -/
def Ordered (labels : List String) : Prop := labels.Pairwise (· < ·)

/-- What every history is: labels in order, and pages of 32 bits. -/
structure WellFormed (h : ReadHistory) : Prop where
  pagesOrdered : Ordered (h.pages.map Prod.fst)
  pagesFit : ∀ p ∈ h.pages, IsPage p.2
  scenesOrdered : Ordered h.viewedScenes
  saveFits : ∀ point, h.lastSave? = some point → IsPage point.page

theorem wellFormed_empty : WellFormed empty where
  pagesOrdered := List.Pairwise.nil
  pagesFit := fun _ hp => nomatch hp
  scenesOrdered := List.Pairwise.nil
  saveFits := fun _ h => nomatch h

/-! ## Putting in a label -/

theorem mem_insertScene {label l : String} {labels : List String} :
    l ∈ insertScene label labels ↔ l = label ∨ l ∈ labels := by
  fun_induction insertScene label labels with
  | case1 => simp
  | case2 rest => simp
  | case3 m rest hne hlt => simp
  | case4 m rest hne hlt ih =>
    rw [List.mem_cons, ih, List.mem_cons]
    tauto

theorem insertScene_ordered {label : String} {labels : List String} (h : Ordered labels) :
    Ordered (insertScene label labels) := by
  fun_induction insertScene label labels with
  | case1 => exact List.pairwise_singleton _ _
  | case2 rest => exact h
  | case3 m rest hne hlt =>
    refine List.Pairwise.cons (fun l hl => ?_) h
    rcases List.mem_cons.mp hl with rfl | hl
    · exact hlt
    · exact hlt.trans (List.rel_of_pairwise_cons h hl)
  | case4 m rest hne hlt ih =>
    obtain ⟨hm, hrest⟩ := List.pairwise_cons.mp h
    refine List.Pairwise.cons (fun l hl => ?_) (ih hrest)
    rcases mem_insertScene.mp hl with rfl | hl
    · exact lt_of_le_of_ne (not_lt.mp hlt) (Ne.symm hne)
    · exact hm l hl

/-- A label beyond all others is put at the end. -/
theorem insertScene_last {label : String} {labels : List String} (h : ∀ l ∈ labels, l < label) :
    insertScene label labels = labels ++ [label] := by
  induction labels with
  | nil => rfl
  | cons l labels ih =>
    obtain ⟨hl, hlabels⟩ := List.forall_mem_cons.mp h
    rw [insertScene, if_neg hl.ne', if_neg hl.asymm, ih hlabels, List.cons_append]

/-- The labels of the pages are those of a set of labels with one more put in. -/
theorem map_fst_insertPage (label : String) (page : Int) (pages : List (String × Int)) :
    (insertPage label page pages).map Prod.fst = insertScene label (pages.map Prod.fst) := by
  fun_induction insertPage label page pages with
  | case1 => rfl
  | case2 p rest => simp [insertScene]
  | case3 l p rest hne hlt => simp [insertScene, hne, hlt]
  | case4 l p rest hne hlt ih => simp [insertScene, hne, hlt, ih]

theorem isPage_max {a b : Int} (ha : IsPage a) (hb : IsPage b) : IsPage (max a b) := by
  rcases max_choice a b with h | h <;> rw [h] <;> assumption

theorem insertPage_fits {label : String} {page : Int} {pages : List (String × Int)}
    (hpage : IsPage page) (h : ∀ p ∈ pages, IsPage p.2) :
    ∀ p ∈ insertPage label page pages, IsPage p.2 := by
  fun_induction insertPage label page pages with
  | case1 => exact List.forall_mem_singleton.mpr hpage
  | case2 p rest =>
    obtain ⟨hp, hrest⟩ := List.forall_mem_cons.mp h
    exact List.forall_mem_cons.mpr ⟨isPage_max hp hpage, hrest⟩
  | case3 l p rest hne hlt => exact List.forall_mem_cons.mpr ⟨hpage, h⟩
  | case4 l p rest hne hlt ih =>
    obtain ⟨hp, hrest⟩ := List.forall_mem_cons.mp h
    exact List.forall_mem_cons.mpr ⟨hp, ih hrest⟩

/-- A page of a label beyond all others is put at the end. -/
theorem insertPage_last {label : String} {page : Int} {pages : List (String × Int)}
    (h : ∀ p ∈ pages, p.1 < label) : insertPage label page pages = pages ++ [(label, page)] := by
  induction pages with
  | nil => rfl
  | cons p pages ih =>
    obtain ⟨hp, hpages⟩ := List.forall_mem_cons.mp h
    rw [insertPage, if_neg hp.ne', if_neg hp.asymm, ih hpages, List.cons_append]

/-! ## Notes -/

/-- Whether the page of a note is one. -/
def Note.Fits : Note → Prop
  | .pageRead _ page => IsPage page
  | .sceneViewed _ => True
  | .autosave point => IsPage point.page

/-- Every note leaves the labels of the pages in order. -/
theorem pagesOrdered_record {h : ReadHistory} (hh : Ordered (h.pages.map Prod.fst))
    (note : Note) : Ordered ((h.record note).pages.map Prod.fst) := by
  cases note with
  | pageRead label page =>
    show Ordered ((insertPage label page h.pages).map Prod.fst)
    rw [map_fst_insertPage]
    exact insertScene_ordered hh
  | sceneViewed | autosave => exact hh

/-- A history stays well formed with every note. -/
theorem WellFormed.record {h : ReadHistory} (hh : WellFormed h) {note : Note}
    (hnote : note.Fits) : WellFormed (h.record note) := by
  have hordered := pagesOrdered_record hh.pagesOrdered note
  cases note with
  | pageRead label page =>
    exact ⟨hordered, insertPage_fits hnote hh.pagesFit, hh.scenesOrdered, hh.saveFits⟩
  | sceneViewed label =>
    exact ⟨hordered, hh.pagesFit, insertScene_ordered hh.scenesOrdered, hh.saveFits⟩
  | autosave point =>
    refine ⟨hordered, hh.pagesFit, hh.scenesOrdered, fun p hp => ?_⟩
    obtain rfl := Option.some.inj hp
    exact hnote

end VisualNovel.History.ReadHistory
