import VisualNovel.Proofs.Entries
import VisualNovel.Proofs.History.Order

/-
  The furthest page of a label. In an ordered history a label has one entry, and a page that is
  noted goes over a nearer one of its label and leaves the other labels as they are
  (`furthestPage?_recordPageRead`). So no label falls back, whatever is noted (`Extends.record`),
  and a page that is read stays so with all pages before it.
-/

namespace VisualNovel.History.ReadHistory

open Entries

/-! ## One page -/

/-- The entry of a label after a page is put in: the further one of its label, and that of another
    label as it was. -/
theorem lookup_insertPage {label : String} {page : Int} {pages : List (String × Int)}
    (h : Ordered (pages.map Prod.fst)) (l : String) :
    (insertPage label page pages).lookup l =
      if l = label then some (((pages.lookup label).map (max · page)).getD page)
      else pages.lookup l := by
  fun_induction insertPage label page pages with
  | case1 => simp [lookup_cons_ite]
  | case2 p rest => by_cases hl : l = label <;> simp [lookup_cons_ite, hl]
  | case3 m p rest hne hlt =>
    -- the label is before all others, so it has no entry yet
    have hnone : ((m, p) :: rest).lookup label = none := by
      refine List.lookup_eq_none_iff.mpr fun q hq => bne_iff_ne.mpr ?_
      rcases List.mem_cons.mp hq with rfl | hq
      · exact hne
      · exact (hlt.trans (List.rel_of_pairwise_cons h (List.mem_map_of_mem hq))).ne
    rw [lookup_cons_ite, hnone]
    rfl
  | case4 m p rest hne hlt ih =>
    rw [lookup_cons_ite, ih h.of_cons, lookup_cons_ite, lookup_cons_ite, if_neg hne]
    by_cases hl : l = label
    · rw [if_pos hl, if_pos hl, if_neg (hl ▸ hne)]
    · rw [if_neg hl, if_neg hl]

theorem furthestPage?_recordPageRead {h : ReadHistory} (hh : Ordered (h.pages.map Prod.fst))
    (label : String) (page : Int) (l : String) :
    (h.recordPageRead label page).furthestPage? l =
      if l = label then some (((h.furthestPage? label).map (max · page)).getD page)
      else h.furthestPage? l := lookup_insertPage hh l

/-- The pages that are read are those up to the furthest one. -/
theorem isPageRead_iff {h : ReadHistory} {label : String} {page : Int} :
    h.isPageRead label page = true ↔
      ∃ furthest, h.furthestPage? label = some furthest ∧ page ≤ furthest := by
  unfold isPageRead
  cases h.furthestPage? label <;> simp

/-- A page that is noted is read, and all pages before it. -/
theorem isPageRead_recordPageRead {h : ReadHistory} (hh : Ordered (h.pages.map Prod.fst))
    {label : String} {page q : Int} (hq : q ≤ page) :
    (h.recordPageRead label page).isPageRead label q = true := by
  refine isPageRead_iff.mpr ⟨_, (furthestPage?_recordPageRead hh label page label).trans
    (if_pos rfl), ?_⟩
  cases h.furthestPage? label with
  | none => exact hq
  | some furthest => exact hq.trans (le_max_right furthest page)

/-! ## Later histories -/

/-- In a later history no label has fallen back. -/
def Extends (h later : ReadHistory) : Prop :=
  ∀ label page, h.furthestPage? label = some page →
    ∃ furthest, later.furthestPage? label = some furthest ∧ page ≤ furthest

theorem Extends.refl (h : ReadHistory) : Extends h h := fun _ page hpage => ⟨page, hpage, le_rfl⟩

theorem Extends.trans {h h' later : ReadHistory} (h₁ : Extends h h') (h₂ : Extends h' later) :
    Extends h later := by
  intro label page hpage
  obtain ⟨p', hp', hle⟩ := h₁ label page hpage
  obtain ⟨furthest, hfurthest, hle'⟩ := h₂ label p' hp'
  exact ⟨furthest, hfurthest, hle.trans hle'⟩

/-- Pages stay read. -/
theorem Extends.isPageRead {h later : ReadHistory} (hlater : Extends h later) {label : String}
    {page : Int} (hread : h.isPageRead label page = true) :
    later.isPageRead label page = true := by
  obtain ⟨p, hp, hle⟩ := isPageRead_iff.mp hread
  obtain ⟨furthest, hfurthest, hle'⟩ := hlater label p hp
  exact isPageRead_iff.mpr ⟨furthest, hfurthest, hle.trans hle'⟩

/-- No note lets a label fall back. -/
theorem Extends.record {h : ReadHistory} (hh : Ordered (h.pages.map Prod.fst)) (note : Note) :
    Extends h (h.record note) := by
  cases note with
  | sceneViewed | autosave => exact .refl h
  | pageRead label page =>
    intro l p hp
    by_cases hl : l = label
    · subst hl
      refine ⟨max p page, ?_, le_max_left p page⟩
      simp [ReadHistory.record, furthestPage?_recordPageRead hh, hp]
    · refine ⟨p, ?_, le_rfl⟩
      simp [ReadHistory.record, furthestPage?_recordPageRead hh, hl, hp]

theorem pagesOrdered_records {h : ReadHistory} (hh : Ordered (h.pages.map Prod.fst))
    (notes : List Note) : Ordered ((notes.foldl ReadHistory.record h).pages.map Prod.fst) := by
  induction notes generalizing h with
  | nil => exact hh
  | cons note notes ih => exact ih (pagesOrdered_record hh note)

/-- No notes let a label fall back, and a page that is noted among them is read afterwards with
    all pages before it. -/
theorem extends_records {h : ReadHistory} (hh : Ordered (h.pages.map Prod.fst))
    (notes : List Note) :
    Extends h (notes.foldl ReadHistory.record h) ∧
      ∀ label page q, .pageRead label page ∈ notes → q ≤ page →
        (notes.foldl ReadHistory.record h).isPageRead label q = true := by
  induction notes generalizing h with
  | nil => exact ⟨.refl h, fun _ _ _ hnoted => nomatch hnoted⟩
  | cons note notes ih =>
    obtain ⟨hextends, hread⟩ := ih (pagesOrdered_record hh note)
    refine ⟨(Extends.record hh note).trans hextends, fun label page q hnoted hq => ?_⟩
    rcases List.mem_cons.mp hnoted with rfl | hnoted
    · exact hextends.isPageRead (isPageRead_recordPageRead hh hq)
    · exact hread label page q hnoted hq

end VisualNovel.History.ReadHistory
