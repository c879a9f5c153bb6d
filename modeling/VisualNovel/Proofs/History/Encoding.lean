import VisualNovel.Proofs.History.Shape
import VisualNovel.Proofs.Json.Printing

/-
  Histories in JSON. A history is read off its own JSON (`ofTree?_toJson`), which is printed and
  read back (`readTree?_print_toJson`). Whatever a history is read off, its labels are in order and
  its pages have 32 bits.
-/

namespace VisualNovel.History

open Json (Tree treeOf valuesOf)
open ReadHistory
open Stage (SavePoint)

/-! ## A history is read off its own JSON -/

/-- Pages by label, in order and of 32 bits. -/
def PagesFit (pages : List (String × Int)) : Prop :=
  Ordered (pages.map Prod.fst) ∧ ∀ p ∈ pages, IsPage p.2

/-- Entries are made again one after the other, if each of them is put in behind those before it. -/
theorem foldlM_remakes {α β γ : Type} {f : α → Option β} {g : List γ → α → β → List γ}
    {encode : γ → α} {I : List γ → Prop} (hbefore : ∀ xs ys, I (xs ++ ys) → I xs)
    (hstep : ∀ read x, I (read ++ [x]) →
      ∃ b, f (encode x) = some b ∧ g read (encode x) b = read ++ [x])
    (read : List γ) {rest : List γ} (h : I (read ++ rest)) :
    (rest.map encode).foldlM (fun s a => (f a).map (g s a)) read = some (read ++ rest) := by
  induction rest generalizing read with
  | nil => rw [List.append_nil]; rfl
  | cons x rest ih =>
    have hlist : read ++ x :: rest = (read ++ [x]) ++ rest := by simp
    rw [hlist] at h ⊢
    obtain ⟨b, hb, hread⟩ := hstep read x (hbefore _ rest h)
    rw [List.map_cons, List.foldlM_cons, hb, Option.map_some, hread]
    exact ih (read ++ [x]) h

/-- The labels before a label in order are below it. -/
theorem lt_of_ordered_concat {labels : List String} {label : String}
    (h : Ordered (labels ++ [label])) : ∀ l ∈ labels, l < label := fun l hl =>
  (List.pairwise_append.mp h).2.2 l hl label List.mem_cons_self

/-- Pages in order are made again. -/
theorem pagesOfTree?_pages {pages : List (String × Int)} (h : PagesFit pages) :
    pagesOfTree? (treeOf (.obj (pages.map fun p => (p.1, .int p.2)))) = some pages := by
  have hnamed : named? (Json.memberTrees (pages.map fun p => (p.1, .int p.2))) =
      some (pages.map fun p => (p.1, .leaf (.int p.2))) := by
    rw [named?_eq_some_iff, objectOf, Json.memberTrees_eq, List.map_map, List.map_map]
    rfl
  rw [treeOf, pagesOfTree?, hnamed]
  refine foldlM_remakes (f := fun m : String × Tree => pageOfTree? m.2)
    (g := fun pages m page => setPage m.1 page pages) (I := PagesFit) ?_ ?_ [] h
  · intro xs ys h
    have hsub := List.sublist_append_left xs ys
    exact ⟨h.1.sublist (hsub.map Prod.fst), fun p hp => h.2 p (hsub.subset hp)⟩
  · intro read p h
    have hordered := h.1
    rw [List.map_append, List.map_singleton] at hordered
    have hbelow : ∀ q ∈ read, q.1 < p.1 := fun q hq =>
      lt_of_ordered_concat hordered q.1 (List.mem_map_of_mem hq)
    have hother : read.filter (fun q => q.1 != p.1) = read :=
      List.filter_eq_self.mpr fun q hq => bne_iff_ne.mpr (hbelow q hq).ne
    refine ⟨p.2, if_pos (h.2 p (List.mem_append_right read List.mem_cons_self)), ?_⟩
    rw [setPage, hother, insertPage_last hbelow]

/-- Scenes in order are made again. -/
theorem scenesOfTree?_scenes {scenes : List String} (h : Ordered scenes) :
    scenesOfTree? (treeOf (.arr (scenes.map .str))) = some scenes := by
  rw [treeOf, scenesOfTree?, Json.itemTrees_eq, List.map_map]
  refine foldlM_remakes (f := Tree.text?) (g := fun scenes _ scene => insertScene scene scenes)
    (I := Ordered) ?_ ?_ [] h
  · exact fun xs ys h => h.sublist (List.sublist_append_left xs ys)
  · exact fun read scene h =>
      ⟨scene, congrArg some String.ofList_toList, insertScene_last (lt_of_ordered_concat h)⟩

theorem saveOfTree?_jsonOfSave {point : SavePoint} (h : IsPage point.page) :
    saveOfTree? (treeOf (jsonOfSave point)) = some point := by
  have hpage : pageOfTree? (.leaf (.int point.page)) = some point.page := if_pos h
  simp [saveOfTree?, jsonOfSave, treeOf, Json.memberTrees, named?, part?, valuesOf, Tree.text?,
    hpage]

theorem ofTree?_toJson {h : ReadHistory} (hh : WellFormed h) :
    ofTree? (treeOf (toJson h)) = some h := by
  have hpages : pagesOfTree? (treeOf (.obj (h.pages.map fun p => (p.1, .int p.2)))) =
      some h.pages :=
    pagesOfTree?_pages ⟨hh.pagesOrdered, hh.pagesFit⟩
  have hscenes : scenesOfTree? (treeOf (.arr (h.viewedScenes.map .str))) = some h.viewedScenes :=
    scenesOfTree?_scenes hh.scenesOrdered
  have hsave : lastSaveOfTree? (treeOf ((h.lastSave?.map jsonOfSave).getD .null)) =
      some h.lastSave? := by
    cases hpoint : h.lastSave? with
    | none => rfl
    | some point =>
      show (saveOfTree? (treeOf (jsonOfSave point))).map some = _
      rw [saveOfTree?_jsonOfSave (hh.saveFits point hpoint)]
      rfl
  rw [toJson, treeOf]
  simp [ofTree?, Json.memberTrees, named?, part?, valuesOf, ofParts?, hpages, hscenes, hsave]

/-! ## Its JSON is printed and read -/

theorem fitsWord_of_isPage {page : Int} (h : IsPage page) : Json.FitsWord page := by
  obtain ⟨hlow, hhigh⟩ := Json.holds_iff.mp h
  have hlow' : -2147483648 ≤ page := hlow
  have hhigh' : page ≤ 2147483647 := hhigh
  exact ⟨by omega, by omega⟩

theorem exact_toJson {h : ReadHistory} (hh : WellFormed h) : Json.Exact (toJson h) := by
  have hpages : Json.Exact (.obj (h.pages.map fun p => (p.1, .int p.2))) := by
    refine .obj (List.forall_mem_map.mpr fun p hp => ?_)
    exact .int (fitsWord_of_isPage (hh.pagesFit p hp))
  have hscenes : Json.Exact (.arr (h.viewedScenes.map .str)) :=
    .arr (List.forall_mem_map.mpr fun s _ => .str s)
  have hsave : Json.Exact ((h.lastSave?.map jsonOfSave).getD .null) := by
    cases hpoint : h.lastSave? with
    | none => exact .null
    | some point =>
      have hpage := Json.Exact.int (fitsWord_of_isPage (hh.saveFits point hpoint))
      exact .obj (by simpa using ⟨.str point.label, hpage⟩)
  exact .obj (by simpa using ⟨hpages, hscenes, hsave⟩)

theorem readTree?_print_toJson {h : ReadHistory} (hh : WellFormed h) :
    Json.readTree? (toJson h).print = some (treeOf (toJson h)) :=
  (exact_toJson hh).readTree?_print

/-! ## What is read is a history -/

/-- What every entry keeps is true of all entries that are put in. -/
theorem foldlM_keeps {α β γ : Type} {f : α → Option β} {g : γ → α → β → γ} {I : γ → Prop}
    (hstep : ∀ s x b, I s → f x = some b → I (g s x b)) {xs : List α} {s r : γ} (hs : I s)
    (h : xs.foldlM (fun s x => (f x).map (g s x)) s = some r) : I r := by
  induction xs generalizing s with
  | nil =>
    obtain rfl := Option.some.inj h
    exact hs
  | cons x xs ih =>
    rw [List.foldlM_cons] at h
    obtain ⟨next, hnext, hrest⟩ := Option.bind_eq_some_iff.mp h
    obtain ⟨b, hb, rfl⟩ := Option.map_eq_some_iff.mp hnext
    exact ih (hstep s x b hs hb) hrest

theorem isPage_of_pageOfTree? {t : Tree} {page : Int} (h : pageOfTree? t = some page) :
    IsPage page := by
  unfold pageOfTree? at h
  split at h
  · split at h
    · obtain rfl := Option.some.inj h
      assumption
    · cases h
  · cases h

theorem setPage_keeps {label : String} {page : Int} {pages : List (String × Int)}
    (h : PagesFit pages) (hpage : IsPage page) : PagesFit (setPage label page pages) := by
  obtain ⟨hordered, hfit⟩ := h
  have hothers := List.filter_sublist (l := pages) (p := fun p => p.1 != label)
  constructor
  · rw [setPage, map_fst_insertPage]
    exact insertScene_ordered (hordered.sublist (hothers.map Prod.fst))
  · exact insertPage_fits hpage fun p hp => hfit p (hothers.subset hp)

theorem pagesOfTree?_keeps {t : Tree} {pages : List (String × Int)}
    (h : pagesOfTree? t = some pages) : PagesFit pages := by
  unfold pagesOfTree? at h
  split at h
  · obtain ⟨members, -, h⟩ := Option.bind_eq_some_iff.mp h
    refine foldlM_keeps (f := fun m : String × Tree => pageOfTree? m.2)
      (I := PagesFit) ?_ ?_ h
    · exact fun pages m page hpages hpage => setPage_keeps hpages (isPage_of_pageOfTree? hpage)
    · exact ⟨List.Pairwise.nil, fun _ hp => nomatch hp⟩
  · cases h

theorem scenesOfTree?_keeps {t : Tree} {scenes : List String} (h : scenesOfTree? t = some scenes) :
    Ordered scenes := by
  unfold scenesOfTree? at h
  split at h
  · exact foldlM_keeps (f := Tree.text?) (fun _ _ _ hs _ => insertScene_ordered hs)
      List.Pairwise.nil h
  · cases h

theorem saveOfTree?_keeps {t : Tree} {point : SavePoint} (h : saveOfTree? t = some point) :
    IsPage point.page := by
  unfold saveOfTree? at h
  split at h
  · simp only [Option.bind_eq_bind, Option.bind_eq_some_iff] at h
    obtain ⟨_, _, _, _, label, _, _, _, page, ⟨t, _, hpage⟩, h⟩ := h
    obtain rfl := Option.some.inj h
    exact isPage_of_pageOfTree? hpage
  · simp only [Option.bind_eq_bind, Option.bind_eq_some_iff] at h
    obtain ⟨label, _, page, hpage, h⟩ := h
    obtain rfl := Option.some.inj h
    exact isPage_of_pageOfTree? hpage
  · cases h

theorem lastSaveOfTree?_keeps {t : Tree} {point : SavePoint}
    (h : lastSaveOfTree? t = some (some point)) : IsPage point.page := by
  unfold lastSaveOfTree? at h
  split at h
  · cases h
  · obtain ⟨p, hp, hpoint⟩ := Option.map_eq_some_iff.mp h
    obtain rfl := Option.some.inj hpoint
    exact saveOfTree?_keeps hp

theorem ofParts?_keeps {pages scenes save : Option Tree} {h : ReadHistory}
    (hparts : ofParts? pages scenes save = some h) : WellFormed h := by
  simp only [ofParts?, Option.bind_eq_bind, Option.bind_eq_some_iff] at hparts
  obtain ⟨ps, hpages, ss, hscenes, point?, hsave, hparts⟩ := hparts
  obtain rfl := Option.some.inj hparts
  have hps : PagesFit ps := by
    cases pages with
    | none => cases hpages; exact ⟨List.Pairwise.nil, fun _ hp => nomatch hp⟩
    | some t => exact pagesOfTree?_keeps hpages
  have hss : Ordered ss := by
    cases scenes with
    | none => cases hscenes; exact List.Pairwise.nil
    | some t => exact scenesOfTree?_keeps hscenes
  have hpoint : ∀ point, point? = some point → IsPage point.page := by
    rintro point rfl
    cases save with
    | none => cases hsave
    | some t => exact lastSaveOfTree?_keeps hsave
  exact ⟨hps.1, hps.2, hss, hpoint⟩

theorem wellFormed_of_ofTree? {t : Tree} {h : ReadHistory} (ht : ofTree? t = some h) :
    WellFormed h := by
  unfold ofTree? at ht
  split at ht
  · simp only [Option.bind_eq_bind, Option.bind_eq_some_iff] at ht
    obtain ⟨members, -, pages, -, scenes, -, save, -, ht⟩ := ht
    exact ofParts?_keeps ht
  · split at ht
    · exact ofParts?_keeps ht
    · cases ht
  · cases ht

end VisualNovel.History
