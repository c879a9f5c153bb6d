import VisualNovel.Proofs.Player.Deeds

/-
  The scene of the gallery over whole histories. What one act does to the scene is `Act.Sound`, by
  the cases of `Does` (`Act.sound`). Along acts in order the scene is the one that the latest deed
  gave (`Acts.gallery`), and a scene is seen to its end at most as often as it became the one that
  is played (`Acts.count_viewed`). `gallery_follows_deeds` says so of a player from its beginning.
-/

namespace VisualNovel.Player

open Asset (Loader)
open History (ReadHistory)
open Scenario (Corpus TableSource)
open Stage (Cue EndReason)

variable {σ ℓ ς : Type}

/-! ## Scenes given -/

/-- The scene that a deed gives, or that there is none, if the deed says anything about it. -/
def Deed.gives? (registered : List String) : Deed → Option (Option String)
  | start label scene? =>
    some (scene?.orElse fun _ => if registered.contains label then some label else none)
  | jump label | reach label => if registered.contains label then some (some label) else none
  | close | finish => some none

theorem Deed.getD_gives?_jump (registered : List String) (label : String) (scene? : Option String) :
    ((Deed.jump label).gives? registered).getD scene? =
      if registered.contains label then some label else scene? := by
  simp only [gives?]
  cases registered.contains label <;> rfl

theorem Deed.getD_gives?_reach (registered : List String) (label : String)
    (scene? : Option String) :
    ((Deed.reach label).gives? registered).getD scene? =
      if registered.contains label then some label else scene? :=
  getD_gives?_jump registered label scene?

/-- The scene after deeds: what the latest of them gave that says anything about it, else the one
    before them. -/
def sceneAfter (registered : List String) (deeds : List Deed) (scene? : Option String) :
    Option String :=
  (deeds.filterMap (Deed.gives? registered)).getLast?.getD scene?

theorem sceneAfter_cons (registered : List String) (d : Deed) (deeds : List Deed)
    (scene? : Option String) :
    sceneAfter registered (d :: deeds) scene? =
      sceneAfter registered deeds ((d.gives? registered).getD scene?) := by
  unfold sceneAfter
  cases hd : d.gives? registered with
  | none => rw [List.filterMap_cons_none hd]; rfl
  | some given => rw [List.filterMap_cons_some hd, List.getLast?_cons]; rfl

/-! ## Scenes seen -/

/-- The scene that a note says was seen. -/
def sceneOfNote? : ReadHistory.Note → Option String
  | .sceneViewed scene => some scene
  | _ => none

/-- The scenes that were seen to their end, among events. -/
def viewedOf (es : List Event) : List String := (notesOf es).filterMap sceneOfNote?

@[simp] theorem viewedOf_nil : viewedOf [] = [] := rfl

@[simp] theorem viewedOf_append (es fs : List Event) :
    viewedOf (es ++ fs) = viewedOf es ++ viewedOf fs := by
  simp [viewedOf]

@[simp] theorem viewedOf_turn (t : Turn) (es : List Event) :
    viewedOf (.turn t :: es) = viewedOf es := rfl

@[simp] theorem viewedOf_cue (c : Cue) (es : List Event) :
    viewedOf (.cue c :: es) = viewedOf es := rfl

/-- Without notes no scene is seen. -/
theorem viewedOf_of_none {es : List Event} (hes : notesOf es = []) : viewedOf es = [] := by
  rw [viewedOf, hes, List.filterMap_nil]

@[simp] theorem viewedOf_noted (p : Player σ ℓ ς) (n : ReadHistory.Note) :
    viewedOf (p.noted n) = if p.history?.isSome then (sceneOfNote? n).toList else [] := by
  unfold noted
  split
  · cases n <;> rfl
  · rfl

@[simp] theorem viewedOf_givenBack [Loader ℓ] (p : Player σ ℓ ς) : viewedOf p.givenBack.2 = [] :=
  viewedOf_of_none p.notesOf_givenBack

/-- Pages that begin and end make notes, but not of scenes. -/
theorem viewedOf_executedEvents [Stage σ] [Loader ℓ] (p : Player σ ℓ ς) (a : Active) :
    viewedOf (p.executedEvents a) = [] := by
  have hloader := viewedOf_of_none (notesOf_loader (p.moved a.index).2.2)
  have hcues := viewedOf_of_none (notesOf_cues (p.outcome a).2)
  unfold executedEvents pageBegun
  split <;> simp [hloader, hcues, sceneOfNote?]

theorem viewedOf_doneEvents [Stage σ] [Loader ℓ] (p : Player σ ℓ ς) (a : Active)
    (picked? : Option Nat) : viewedOf (p.doneEvents a picked?) = [] := by
  have hloader := viewedOf_of_none
    (notesOf_loader (p.ledger.releases (.command a.index) a.command.resources).2)
  unfold doneEvents pageEnded
  split <;> simp [hloader, sceneOfNote?]

variable [Stage σ] [Loader ℓ] [TableSource ς]

/-! ## One act -/

/-- What is told in an act. -/
def Act.told (a : Act σ ℓ ς) : List Event := a.after.events.drop a.before.events.length

/-- What a step with a deed does to the scene of the gallery, and what it tells of scenes. -/
structure Sound (deed? : Option Deed) (p q : Player σ ℓ ς) (told : List Event) : Prop where
  events : q.events = p.events ++ told
  labels : q.galleryLabels = p.galleryLabels
  kept : q.history?.isSome = p.history?.isSome
  /-- The deed gives the scene, or it stays. -/
  scene : q.gallery? = (deed?.bind (Deed.gives? p.galleryLabels)).getD p.gallery?
  /-- The scene is seen to its end if and only if it is closed. -/
  viewed : viewedOf told =
    if deed? = some .close ∧ p.history?.isSome then p.gallery?.toList else []
  /-- A run is over only if it was ended. -/
  ends : q.state.isEnded = true → p.state.isEnded = false → deed? = some .finish

omit [Stage σ] in
/-- A run is asked for, after a note at most. -/
theorem sound_begin {p q : Player σ ℓ ς} (es : List Event) {deed : Deed} {label : String}
    {page : Int} {scene? : Option String} (hes : q.journal = p.journal ++ es)
    (hlabels : q.galleryLabels = p.galleryLabels) (hkept : q.history?.isSome = p.history?.isSome)
    (hviewed : viewedOf es = []) (hdeed : deed ≠ .close)
    (hscene : scene? = (deed.gives? p.galleryLabels).getD p.gallery?) :
    Sound (some deed) p (q.begin label page scene?)
      (es ++ (q.givenBack.2 ++ [.turn (.asked label page)])) := by
  rw [begin_eq]
  refine ⟨events_append ?_, hlabels, hkept, hscene, ?_, fun h => nomatch h⟩
  · rw [hes, append_append]
  · simp [hviewed, hdeed]

omit [Stage σ] in
theorem sound_start (p : Player σ ℓ ς) (label : String) (page : Int) (scene? : Option String) :
    ∃ told, Sound (some (.start (bareLabel label) scene?)) p (p.start label page scene?) told :=
  ⟨_, sound_begin [] (by simp) rfl rfl rfl (by simp) rfl⟩

omit [Stage σ] in
theorem sound_jump (p : Player σ ℓ ς) (label : String) :
    ∃ told, Sound (some (.jump (bareLabel label))) p (p.jump label) told := by
  have hscene := (Deed.getD_gives?_jump p.galleryLabels (bareLabel label) p.gallery?).symm
  unfold jump notePageLeft
  dsimp only
  split
  · rw [note_eq]
    exact ⟨_, sound_begin _ rfl rfl Option.isSome_map (by simp [sceneOfNote?]) (by simp) hscene⟩
  · exact ⟨_, sound_begin [] (by simp) rfl rfl rfl (by simp) hscene⟩

omit [Stage σ] [Loader ℓ] [TableSource ς] in
/-- Closing a scene that is not there changes nothing. -/
theorem sound_close (p : Player σ ℓ ς) : ∃ told, Sound (some .close) p p.endGalleryScene told := by
  unfold endGalleryScene
  split
  · rename_i hscene
    exact ⟨[], by simp, rfl, rfl, hscene, by simp [hscene], by simp_all⟩
  · rename_i scene hscene
    rw [note_eq]
    exact ⟨p.noted (.sceneViewed scene), events_append rfl, rfl, Option.isSome_map, rfl,
      by simp [hscene, sceneOfNote?], by simp_all⟩

omit [TableSource ς] in
theorem sound_finish (p : Player σ ℓ ς) (reason : EndReason) :
    ∃ told, Sound (some .finish) p (p.finish reason) told := by
  rw [finish_eq]
  exact ⟨_, events_append rfl, rfl, rfl, rfl, by simp, fun _ _ => rfl⟩

omit [TableSource ς] in
theorem sound_execute (p : Player σ ℓ ς) (a : Active) :
    ∃ told, Sound (a.command.label?.map .reach) p (p.execute a).1.settle told := by
  rw [execute_eq]
  refine ⟨p.executedEvents a, events_append rfl, rfl, ?_, ?_, ?_, ?_⟩
  · simp only [settle, savedAt]
    split <;> simp
  · show (a.command.label?.filter p.isGalleryLabel).orElse (fun _ => p.gallery?) =
      ((a.command.label?.map Deed.reach).bind (Deed.gives? p.galleryLabels)).getD p.gallery?
    cases a.command.label? with
    | none => rfl
    | some l =>
      rw [Option.map_some, Option.bind_some, Deed.getD_gives?_reach]
      show (if p.galleryLabels.contains l then some l else none).orElse _ = _
      cases p.galleryLabels.contains l <;> rfl
  · have hclose : a.command.label?.map Deed.reach ≠ some .close := by
      cases a.command.label? <;> simp
    rw [viewedOf_executedEvents, if_neg fun h => hclose h.1]
  · intro hq hp
    cases hp.symm.trans hq

omit [Stage σ] [Loader ℓ] [TableSource ς] in
/-- A step without a deed, that sees no scene. -/
theorem sound_none {p q : Player σ ℓ ς} {es : List Event} (hes : q.events = p.events ++ es)
    (hlabels : q.galleryLabels = p.galleryLabels) (hkept : q.history?.isSome = p.history?.isSome)
    (hscene : q.gallery? = p.gallery?) (hviewed : viewedOf es = [])
    (hends : q.state.isEnded = true → p.state.isEnded = true) : Sound none p q es :=
  ⟨hes, hlabels, hkept, hscene, by simpa using hviewed, fun hq hp => by
    rw [hends hq] at hp
    cases hp⟩

omit [TableSource ς] in
theorem sound_complete (p : Player σ ℓ ς) (a : Active) (since : Nat) :
    ∃ told, Sound none p (p.completed a since).settle told := by
  rw [completed, complete_eq]
  refine ⟨_, sound_none (events_append rfl) rfl ?_ rfl (viewedOf_doneEvents _ _ _) (fun h => h)⟩
  simp only [settle]
  split <;> simp

omit [Stage σ] [Loader ℓ] [TableSource ς] in
theorem sound_change {p q : Player σ ℓ ς} (h : Change p q) : Sound none p q [] := by
  have hstate := h.state
  refine sound_none (by rw [h.events, List.append_nil]) ?_ ?_ ?_ rfl (fun hq => hstate ▸ hq) <;>
  cases h <;> rfl

theorem Does.sound {deed? : Option Deed} {p q : Player σ ℓ ς} (h : Does deed? p q) :
    ∃ told, Sound deed? p q told := by
  cases h with
  | start _ label page scene? => exact p.sound_start label page scene?
  | jump _ label => exact p.sound_jump label
  | close => exact p.sound_close
  | finish _ reason => exact p.sound_finish reason
  | execute _ a => exact p.sound_execute a
  | complete _ a since => exact p.sound_complete a since
  | skip _ c =>
    rw [skip_eq]
    exact ⟨_, sound_none (events_append rfl) rfl rfl rfl rfl (fun h => h)⟩
  | activate _ c =>
    rw [activate_eq]
    exact ⟨_, sound_none (events_append rfl) rfl rfl rfl (viewedOf_of_none (by simp)) (fun h => h)⟩
  | fetch _ label =>
    exact ⟨[], sound_none (by simp [events]) rfl rfl rfl rfl (fun h => h)⟩
  | enter _ s label page =>
    rw [enterScenario_eq]
    exact ⟨_, sound_none (events_append rfl) rfl rfl rfl rfl (fun h => absurd h Bool.false_ne_true)⟩
  | change h => exact ⟨[], sound_change h⟩

theorem Act.sound (a : Act σ ℓ ς) : Sound a.deed? a.before a.after a.told := by
  obtain ⟨told, h⟩ := a.does.sound
  have htold : a.told = told := by rw [Act.told, h.events, List.drop_left]
  exact htold ▸ h

/-! ## Acts in order -/

/-- The deeds among acts. -/
def deedsOf (acts : List (Act σ ℓ ς)) : List Deed := acts.filterMap Act.deed?

/-- Whether a scene becomes the one that is played in an act. -/
def Act.opens (scene : String) (a : Act σ ℓ ς) : Bool :=
  a.before.gallery? != some scene && a.after.gallery? == some scene

/-- What stays as it is along acts. -/
theorem Acts.labels {p q : Player σ ℓ ς} {acts : List (Act σ ℓ ς)} (h : Acts p acts q) :
    q.galleryLabels = p.galleryLabels := by
  induction h with
  | nil => rfl
  | cons a _ ih => rw [ih, a.sound.labels]

theorem Acts.kept {p q : Player σ ℓ ς} {acts : List (Act σ ℓ ς)} (h : Acts p acts q) :
    q.history?.isSome = p.history?.isSome := by
  induction h with
  | nil => rfl
  | cons a _ ih => rw [ih, a.sound.kept]

theorem Acts.events {p q : Player σ ℓ ς} {acts : List (Act σ ℓ ς)} (h : Acts p acts q) :
    q.events = p.events ++ acts.flatMap Act.told := by
  induction h with
  | nil p => rw [List.flatMap_nil, List.append_nil]
  | cons a _ ih => rw [ih, a.sound.events, List.flatMap_cons, List.append_assoc]

/-- The scene is the one that the latest deed gave. -/
theorem Acts.gallery {p q : Player σ ℓ ς} {acts : List (Act σ ℓ ς)} (h : Acts p acts q) :
    q.gallery? = sceneAfter p.galleryLabels (deedsOf acts) p.gallery? := by
  induction h with
  | nil => rfl
  | cons a _ ih =>
    have hscene := a.sound.scene
    rw [ih, a.sound.labels, hscene]
    unfold deedsOf
    cases hdeed : a.deed? with
    | none => rw [List.filterMap_cons_none hdeed]; rfl
    | some d => rw [List.filterMap_cons_some hdeed, sceneAfter_cons]; rfl

/-- The states before and after an act among others. -/
theorem Acts.split {p q : Player σ ℓ ς} {a : Act σ ℓ ς} {before later : List (Act σ ℓ ς)}
    (h : Acts p (before ++ a :: later) q) : Acts p before a.before ∧ Acts a.after later q := by
  induction before generalizing p with
  | nil =>
    cases h with
    | cons _ h => exact ⟨.nil _, h⟩
  | cons b before ih =>
    cases h with
    | cons _ h => exact ⟨.cons b (ih h).1, (ih h).2⟩

/-- A scene that is seen to its end is not played any more. -/
theorem Act.count_viewed (a : Act σ ℓ ς) (scene : String) :
    (viewedOf a.told).count scene + a.after.gallery?.toList.count scene ≤
      (if a.opens scene then 1 else 0) + a.before.gallery?.toList.count scene := by
  have hviewed := a.sound.viewed
  split at hviewed
  · rename_i hclose
    have hafter : a.after.gallery? = none := by
      rw [a.sound.scene, hclose.1]
      rfl
    rw [hviewed, hafter]
    exact Nat.le_add_left _ _
  · rw [hviewed, opens]
    cases a.before.gallery? <;> cases a.after.gallery? <;> grind

/-- A scene that was seen to its end is seen again only when it has become the one that is played
    again. -/
theorem Acts.count_viewed {p q : Player σ ℓ ς} {acts : List (Act σ ℓ ς)} (h : Acts p acts q)
    (scene : String) :
    (viewedOf (acts.flatMap Act.told)).count scene + q.gallery?.toList.count scene ≤
      acts.countP (Act.opens scene) + p.gallery?.toList.count scene := by
  induction h with
  | nil => simp
  | cons a _ ih =>
    have hact := a.count_viewed scene
    rw [List.flatMap_cons, viewedOf_append, List.count_append, List.countP_cons]
    omega

/-! ## A player from its beginning -/

/-- At each moment the scene of the gallery is what the latest deed gave, be it a start, a jump, a
    label reached, a scene closed or the end of a run. Scenes are noted as seen when they are
    closed, and never else, so at most as often as they became the one that is played. -/
theorem gallery_follows_deeds (stage : σ) (loader : ℓ) (source : ς) (corpus : Corpus) (cap : Nat)
    (params : Expression.Params) (galleryLabels : List String) (history? : Option ReadHistory)
    (inputs : List (Input σ ℓ ς)) :
    let p := ready stage loader source corpus cap params galleryLabels history?
    let q := p.afterAll inputs
    let acts := p.actsOfAll inputs
    Acts p acts q ∧
    q.gallery? = sceneAfter galleryLabels (deedsOf acts) none ∧
    (∀ before a later, acts = before ++ a :: later →
      a.before.gallery? = sceneAfter galleryLabels (deedsOf before) none ∧
      a.after.gallery? = sceneAfter galleryLabels (deedsOf (before ++ [a])) none ∧
      viewedOf a.told =
        (if a.deed? = some .close ∧ history?.isSome then a.before.gallery?.toList else []) ∧
      (a.after.state.isEnded = true → a.before.state.isEnded = false → a.deed? = some .finish)) ∧
    q.events = acts.flatMap Act.told ∧
    ∀ scene, (viewedOf q.events).count scene ≤ acts.countP (Act.opens scene) := by
  intro p q acts
  have hacts : Acts p acts q := .ofAll p inputs
  have hevents : q.events = acts.flatMap Act.told := hacts.events
  refine ⟨hacts, hacts.gallery, ?_, hevents, fun scene => ?_⟩
  · intro before a later heq
    have hsplit := (heq ▸ hacts).split
    have hthrough : Acts p (before ++ [a]) a.after := hsplit.1.append (.single a)
    have hviewed := a.sound.viewed
    rw [hsplit.1.kept] at hviewed
    exact ⟨hsplit.1.gallery, hthrough.gallery, hviewed, a.sound.ends⟩
  · have hcount := hacts.count_viewed scene
    have hnone : p.gallery?.toList.count scene = 0 := rfl
    rw [hevents]
    omega

end VisualNovel.Player
