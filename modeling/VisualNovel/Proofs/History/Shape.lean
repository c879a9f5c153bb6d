import VisualNovel.History.File
import VisualNovel.Proofs.History.Order

/-
  The shape of a history in JSON, said without the functions that read it: an object that gives each
  part at most once, or an array with the parts in order. What else an object holds does not matter.
  The trees that a history is read off are those of this shape (`isSome_ofTree?`).
-/

namespace VisualNovel.History

open Json (Tree valuesOf)
open ReadHistory
open Stage (SavePoint)

/-- The object of members whose names are not broken. -/
def objectOf (members : List (String × Tree)) : Tree :=
  .obj (members.map fun m => (some m.1, m.2))

/-- A page number. -/
def PageShape (t : Tree) : Prop := ∃ page, t = .leaf (.int page) ∧ IsPage page

/-- A text. -/
def TextShape (t : Tree) : Prop := ∃ s, t = .leaf (.str s)

/-- Pages by label. -/
def PagesShape (t : Tree) : Prop := ∃ members, t = objectOf members ∧ ∀ m ∈ members, PageShape m.2

/-- A list of scenes. -/
def ScenesShape (t : Tree) : Prop := ∃ items, t = .arr items ∧ ∀ i ∈ items, TextShape i

/-- A place to come back to, each of its parts given once, or none. -/
inductive SaveShape : Tree → Prop
  | none : SaveShape (.leaf .null)
  | byName {members : List (String × Tree)} {label page : Tree}
      (hlabel : valuesOf members "label" = [label]) (hpage : valuesOf members "page" = [page])
      (hl : TextShape label) (hp : PageShape page) : SaveShape (objectOf members)
  | byOrder {label page : Tree} (hl : TextShape label) (hp : PageShape page) :
      SaveShape (.arr [label, page])

/-- A part given at most once, of a shape. -/
def OptionalPart (members : List (String × Tree)) (name : String) (P : Tree → Prop) : Prop :=
  (valuesOf members name).length ≤ 1 ∧ ∀ t ∈ valuesOf members name, P t

/-- A history, its parts by name or by order. -/
inductive Shaped : Tree → Prop
  | byName {members : List (String × Tree)} (hpages : OptionalPart members "pages" PagesShape)
      (hscenes : OptionalPart members "viewed_scenes" ScenesShape)
      (hsave : OptionalPart members "last_save" SaveShape) : Shaped (objectOf members)
  | byOrder {items : List Tree} (hlength : items.length ≤ 3)
      (hpages : ∀ t ∈ items[0]?, PagesShape t) (hscenes : ∀ t ∈ items[1]?, ScenesShape t)
      (hsave : ∀ t ∈ items[2]?, SaveShape t) : Shaped (.arr items)

/-! ## What is read has the shape -/

theorem isSome_text? {t : Tree} : t.text?.isSome = true ↔ TextShape t := by
  rcases t with ⟨_ | _ | _ | _ | _ | _ | _⟩ | _ | _ <;> simp [Tree.text?, TextShape]

theorem isSome_pageOfTree? {t : Tree} : (pageOfTree? t).isSome = true ↔ PageShape t := by
  rcases t with ⟨_ | _ | _ | _ | _ | _ | _⟩ | _ | _ <;> simp [pageOfTree?, PageShape, IsPage]

/-- The members that are named are those of which the object is made. -/
theorem named?_eq_some_iff {members : List (Option String × Tree)} {ms : List (String × Tree)} :
    named? members = some ms ↔ .obj members = objectOf ms := by
  rw [objectOf, Tree.obj.injEq]
  induction members generalizing ms with
  | nil => cases ms <;> simp [named?]
  | cons m members ih =>
    obtain ⟨name?, t⟩ := m
    have hcons : named? ((name?, t) :: members) =
        name?.bind fun name => (named? members).map ((name, t) :: ·) := by
      rw [named?, List.mapM_cons, ← named?]
      cases name? with
      | none => rfl
      | some name => cases named? members <;> rfl
    cases ms with
    | nil => simp [hcons, Option.bind_eq_some_iff]
    | cons n ms =>
      simp only [hcons, Option.bind_eq_some_iff, Option.map_eq_some_iff, ih, List.map_cons,
        List.cons.injEq, Prod.ext_iff]
      exact ⟨fun ⟨_, hname, _, hms, ⟨rfl, ht⟩, rfl⟩ => ⟨⟨hname, ht⟩, hms⟩,
        fun ⟨⟨hname, ht⟩, hms⟩ => ⟨_, hname, _, hms, ⟨rfl, ht⟩, rfl⟩⟩

/-- What is read off the members of an object is read only if all of them are named. -/
theorem isSome_bind_named? {α : Type} {members : List (Option String × Tree)}
    {f : List (String × Tree) → Option α} :
    ((named? members).bind f).isSome = true ↔
      ∃ ms, .obj members = objectOf ms ∧ (f ms).isSome = true := by
  simp only [← named?_eq_some_iff]
  cases named? members <;> simp

/-- Entries are put in one after the other if and only if each of them can be read. -/
theorem isSome_foldlM {α β γ : Type} {f : α → Option β} {g : γ → α → β → γ} {xs : List α} (s : γ) :
    (xs.foldlM (fun s x => (f x).map (g s x)) s).isSome = true ↔ ∀ x ∈ xs, (f x).isSome = true := by
  induction xs generalizing s with
  | nil => simp
  | cons x xs ih =>
    rw [List.foldlM_cons, List.forall_mem_cons]
    cases f x with
    | none => simp
    | some b => simpa using ih (g s x b)

theorem isSome_pagesOfTree? {t : Tree} : (pagesOfTree? t).isSome = true ↔ PagesShape t := by
  cases t with
  | obj members =>
    rw [pagesOfTree?, Option.bind_eq_bind, isSome_bind_named?]
    simp only [isSome_foldlM (f := fun m : String × Tree => pageOfTree? m.2), PagesShape,
      isSome_pageOfTree?]
  | _ => simp [pagesOfTree?, PagesShape, objectOf]

theorem isSome_scenesOfTree? {t : Tree} : (scenesOfTree? t).isSome = true ↔ ScenesShape t := by
  cases t with
  | arr items =>
    rw [scenesOfTree?, isSome_foldlM (f := Tree.text?)]
    simp [ScenesShape, isSome_text?]
  | _ => simp [scenesOfTree?, ScenesShape]

/-- A part that has to be given is read if and only if it is given once and can be read. -/
theorem isSome_bind_part? {α : Type} {members : List (String × Tree)} {name : String}
    {f : Tree → Option α} :
    ((part? members name).bind (·.bind f)).isSome = true ↔
      ∃ t, valuesOf members name = [t] ∧ (f t).isSome = true := by
  unfold part?
  split <;> simp_all

/-- A place is read if and only if both its parts are. -/
theorem isSome_point? {label? : Option String} {page? : Option Int} :
    (label?.bind fun label => page?.bind fun page => some (SavePoint.mk label page)).isSome = true ↔
      label?.isSome = true ∧ page?.isSome = true := by
  cases label? <;> cases page? <;> simp

theorem saveOfTree?_obj (members : List (Option String × Tree)) :
    saveOfTree? (.obj members) = (named? members).bind fun ms =>
      ((part? ms "label").bind (·.bind Tree.text?)).bind fun label =>
        ((part? ms "page").bind (·.bind pageOfTree?)).bind fun page => some ⟨label, page⟩ := by
  simp only [saveOfTree?, Option.bind_eq_bind, Option.bind_assoc]

theorem isSome_saveOfTree? {t : Tree} (ht : t ≠ .leaf .null) :
    (saveOfTree? t).isSome = true ↔ SaveShape t := by
  constructor
  · intro h
    cases t with
    | obj members =>
      rw [saveOfTree?_obj, isSome_bind_named?] at h
      obtain ⟨ms, hmembers, h⟩ := h
      rw [isSome_point?, isSome_bind_part?, isSome_bind_part?] at h
      obtain ⟨⟨label, hlabel, hl⟩, page, hpage, hp⟩ := h
      rw [hmembers]
      exact .byName hlabel hpage (isSome_text?.mp hl) (isSome_pageOfTree?.mp hp)
    | arr items =>
      unfold saveOfTree? at h
      split at h
      case h_1 => rename_i heq; cases heq
      case h_2 label page heq =>
        cases heq
        obtain ⟨hl, hp⟩ := isSome_point?.mp h
        exact .byOrder (isSome_text?.mp hl) (isSome_pageOfTree?.mp hp)
      case h_3 => cases h
    | leaf l => cases h
  · intro h
    cases h with
    | none => exact absurd rfl ht
    | byName hlabel hpage hl hp =>
      rw [objectOf, saveOfTree?_obj, isSome_bind_named?]
      refine ⟨_, rfl, ?_⟩
      rw [isSome_point?, isSome_bind_part?, isSome_bind_part?]
      exact ⟨⟨_, hlabel, isSome_text?.mpr hl⟩, _, hpage, isSome_pageOfTree?.mpr hp⟩
    | byOrder hl hp => exact isSome_point?.mpr ⟨isSome_text?.mpr hl, isSome_pageOfTree?.mpr hp⟩

theorem isSome_lastSaveOfTree? {t : Tree} : (lastSaveOfTree? t).isSome = true ↔ SaveShape t := by
  unfold lastSaveOfTree?
  split
  case h_1 => exact ⟨fun _ => .none, fun _ => rfl⟩
  case h_2 ht => rw [Option.isSome_map, isSome_saveOfTree? ht]

theorem isSome_ofParts? {pages scenes save : Option Tree} :
    (ofParts? pages scenes save).isSome = true ↔
      (∀ t ∈ pages, PagesShape t) ∧ (∀ t ∈ scenes, ScenesShape t) ∧ ∀ t ∈ save, SaveShape t := by
  simp only [← isSome_pagesOfTree?, ← isSome_scenesOfTree?, ← isSome_lastSaveOfTree?]
  have hpart : ∀ {α : Type} (v : Option Tree) (f : Tree → Option α) (d : α),
      ((v.map f).getD (some d)).isSome = true ↔ ∀ t ∈ v, (f t).isSome = true := by
    intro α v f d
    cases v <;> simp
  rw [← hpart pages pagesOfTree? [], ← hpart scenes scenesOfTree? [],
    ← hpart save lastSaveOfTree? none]
  unfold ofParts?
  cases (pages.map pagesOfTree?).getD (some []) <;>
    cases (scenes.map scenesOfTree?).getD (some []) <;>
    cases (save.map lastSaveOfTree?).getD (some none) <;> simp

theorem optionalPart_iff {members : List (String × Tree)} {name : String} {P : Tree → Prop} :
    OptionalPart members name P ↔ ∃ part, part? members name = some part ∧ ∀ t ∈ part, P t := by
  unfold OptionalPart part?
  match valuesOf members name with
  | [] => simp
  | [t] => simp
  | t :: u :: rest => simp

/-- A history is read off the trees of its shape. -/
theorem isSome_ofTree? {t : Tree} : (ofTree? t).isSome = true ↔ Shaped t := by
  constructor
  · intro h
    cases t with
    | obj members =>
      rw [ofTree?, Option.bind_eq_bind, isSome_bind_named?] at h
      obtain ⟨ms, hmembers, h⟩ := h
      obtain ⟨history, h⟩ := Option.isSome_iff_exists.mp h
      simp only [Option.bind_eq_bind, Option.bind_eq_some_iff] at h
      obtain ⟨pages, hpages, scenes, hscenes, save, hsave, h⟩ := h
      obtain ⟨hp, hs, hl⟩ := isSome_ofParts?.mp (Option.isSome_of_eq_some h)
      rw [hmembers]
      exact .byName (optionalPart_iff.mpr ⟨pages, hpages, hp⟩)
        (optionalPart_iff.mpr ⟨scenes, hscenes, hs⟩) (optionalPart_iff.mpr ⟨save, hsave, hl⟩)
    | arr items =>
      rw [ofTree?] at h
      split at h
      case isTrue hlength =>
        obtain ⟨hp, hs, hl⟩ := isSome_ofParts?.mp h
        exact .byOrder hlength hp hs hl
      case isFalse => cases h
    | leaf l => cases h
  · intro h
    cases h with
    | byName hpages hscenes hsave =>
      obtain ⟨pages, hpages, hp⟩ := optionalPart_iff.mp hpages
      obtain ⟨scenes, hscenes, hs⟩ := optionalPart_iff.mp hscenes
      obtain ⟨save, hsave, hl⟩ := optionalPart_iff.mp hsave
      rw [objectOf, ofTree?, Option.bind_eq_bind, isSome_bind_named?]
      refine ⟨_, rfl, ?_⟩
      simp only [hpages, hscenes, hsave, Option.bind_eq_bind, Option.bind_some]
      exact isSome_ofParts?.mpr ⟨hp, hs, hl⟩
    | byOrder hlength hpages hscenes hsave =>
      rw [ofTree?, if_pos hlength]
      exact isSome_ofParts?.mpr ⟨hpages, hscenes, hsave⟩

-- a text that breaks off within a character is passed over where it is no part of a history
example :
    (Json.readTree? "\x7b\"note\": \"\\uD800\", \"viewed_scenes\": [\"a\"]\x7d").bind ofTree? =
      some ⟨[], ["a"], none⟩ := by
  rfl

end VisualNovel.History
