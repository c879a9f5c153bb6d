import VisualNovel.Asset.FileLoader
import VisualNovel.Proofs.Command.Assets
import VisualNovel.Proofs.Player.Accounting
import VisualNovel.Proofs.Player.Consistency
import VisualNovel.Proofs.Player.Pacing
import VisualNovel.Proofs.Player.Pages
import VisualNovel.Proofs.Scenario.Supply

/-
  Lost assets. What the stage is handed can be used: a cue with an asset comes from a command that
  is executed, which has declared the asset and still uses it (`hands_of_event`). And an asset
  that is lost takes nothing with it but itself: a run tells the story of the same run with all
  its assets there, without those that are lost (`Bereft`). Both are in step with the strides of a
  player that is never kept waiting, so that two runs with losses of their own can be compared.
-/

namespace VisualNovel.Player

open Asset (Directories FileLoader Handle Ledger Loader)
open Scenario (Corpus Library Supplies TableSource)
open Stage (Cue)

variable {σ ℓ ς : Type}

/-! ## What is lost -/

/-- Every asset that can be used as some flags say can be used as others say. -/
def Covered (flags flags' : List Bool) : Prop :=
  ∀ j : Nat, flags[j]? = some true → flags'[j]? = some true

/-- The assets that a command has to do without, when flags tell which of them can be used. A
    game's own command gives its cues in any case. -/
def lostOf (c : Command) (flags : List Bool) (h : Handle) : Bool :=
  match c.action with
  | .host _ => false
  | _ => decide (h ∈ c.resources) && !(verdicts c.resources flags h).isLoaded

theorem lookup_covered {hs : List Handle} {flags flags' : List Bool} (h : Covered flags flags')
    {k : Handle} (hk : (hs.zip flags).lookup k = some true) :
    (hs.zip flags').lookup k = some true := by
  induction hs generalizing flags flags' with
  | nil => cases hk
  | cons g hs ih =>
    cases flags with
    | nil => cases hk
    | cons b flags =>
      have hrest : Covered flags flags'.tail := fun j hj => by
        rw [List.getElem?_tail]
        exact h (j + 1) hj
      rw [List.zip_cons_cons, List.lookup_cons] at hk
      cases hg : k == g with
      | true =>
        rw [hg] at hk
        have hb := h 0 (by simpa using hk)
        cases flags' with
        | nil => cases hb
        | cons b' flags' =>
          rw [List.zip_cons_cons, List.lookup_cons, hg]
          simpa using hb
      | false =>
        rw [hg] at hk
        have hfound := ih hrest hk
        cases flags' with
        | nil => simp at hfound
        | cons b' flags' =>
          rw [List.zip_cons_cons, List.lookup_cons, hg]
          exact hfound

/-- Who can use more loses less. -/
theorem lostOf_covered {flags flags' : List Bool} (h : Covered flags flags') {c : Command}
    {k : Handle} (hk : lostOf c flags' k = true) : lostOf c flags k = true := by
  have hverdicts : (verdicts c.resources flags k).isLoaded = true →
      (verdicts c.resources flags' k).isLoaded = true := by
    intro hloaded
    unfold verdicts at hloaded ⊢
    cases hfound : (c.resources.zip flags).lookup k with
    | none =>
      rw [hfound] at hloaded
      cases hloaded
    | some b =>
      cases b with
      | false =>
        rw [hfound] at hloaded
        cases hloaded
      | true =>
        rw [lookup_covered h hfound]
        rfl
  unfold lostOf at hk ⊢
  split at hk
  · cases hk
  · rw [Bool.and_eq_true] at hk ⊢
    refine ⟨hk.1, ?_⟩
    cases hloaded : (verdicts c.resources flags k).isLoaded with
    | false => rfl
    | true =>
      rw [hverdicts hloaded] at hk
      cases hk.2

/-- What has to be known of a story to tell which assets are lost: the scenario that is played, and
    the assets that the command which was executed last has to do without. -/
structure Scene where
  scenario? : Option Scenario
  lost : Handle → Bool

/-- The scene after an event. -/
def Scene.follow (x : Scene) : Event → Scene
  | .turn (.entered s _) => ⟨some s, fun _ => false⟩
  | .turn (.executed i flags) =>
    { x with
      lost := ((x.scenario?.bind fun s => s.commands[i]?).map fun c => lostOf c flags).getD
        fun _ => false }
  | _ => x

/-- The scene after events. -/
def Scene.followAll (x : Scene) (es : List Event) : Scene := es.foldl Scene.follow x

/-- Whether something is told that lost assets can make no difference to. -/
def Event.isFirm : Event → Bool
  | cue _ | turn (.executed ..) => false
  | _ => true

/-- A story is another without the assets that its commands cannot use: each command is passed
    over or executed as there, and each cue is given without what is lost of it. -/
inductive Bereft : Scene → List Event → List Event → Prop
  | nil (x : Scene) : Bereft x [] []
  | firm {x : Scene} {e : Event} {es fs : List Event} (he : e.isFirm = true)
      (h : Bereft (x.follow e) es fs) : Bereft x (e :: es) (e :: fs)
  | executed {x : Scene} {i : Nat} (flags flags' : List Bool) {es fs : List Event}
      (h : Bereft (x.follow (.turn (.executed i flags))) es fs) :
      Bereft x (.turn (.executed i flags) :: es) (.turn (.executed i flags') :: fs)
  | cue {x : Scene} (c : Cue) {es fs : List Event} (h : Bereft x es fs) :
      Bereft x ((c.without x.lost).toList.map .cue ++ es) (.cue c :: fs)

/-- Which assets the commands could use that were executed, in order. -/
def flagsOf (es : List Event) : List (List Bool) :=
  (turnsOf es).filterMap fun
    | .executed _ flags => some flags
    | _ => none

/-- Each command that is executed can use no asset in the first story that it cannot use in the
    second. -/
def Poorer (es fs : List Event) : Prop :=
  ∀ (n : Nat) flags flags', (flagsOf es)[n]? = some flags → (flagsOf fs)[n]? = some flags' →
    Covered flags flags'

theorem followAll_append (x : Scene) (es fs : List Event) :
    x.followAll (es ++ fs) = (x.followAll es).followAll fs := List.foldl_append

theorem followAll_cues (x : Scene) (cues : List Cue) : x.followAll (cues.map .cue) = x := by
  induction cues with
  | nil => rfl
  | cons c cues ih => exact ih

/-- What is not of the story leaves the scene as it is. -/
theorem followAll_storyOf (x : Scene) (es : List Event) :
    x.followAll (storyOf es) = x.followAll es := by
  induction es generalizing x with
  | nil => rfl
  | cons e es ih =>
    cases e with
    | turn t => cases t <;> exact ih _
    | cue | loader | note => exact ih _

theorem Bereft.append {x : Scene} {es fs xs ys : List Event} (h : Bereft x es fs)
    (h' : Bereft (x.followAll es) xs ys) : Bereft x (es ++ xs) (fs ++ ys) := by
  induction h with
  | nil => exact h'
  | firm he _ ih => exact .firm he (ih h')
  | executed flags flags' _ ih => exact .executed flags flags' (ih h')
  | cue c _ ih =>
    rw [List.append_assoc]
    rw [followAll_append, followAll_cues] at h'
    exact .cue c (ih h')

/-- Cues that are given without what is lost. -/
theorem Bereft.cues {x : Scene} {es fs : List Event} (h : Bereft x es fs) (cues : List Cue) :
    Bereft x ((cues.filterMap (Cue.without x.lost)).map .cue ++ es) (cues.map .cue ++ fs) := by
  induction cues with
  | nil => exact h
  | cons c cues ih =>
    have hcons := ih.cue c
    rw [List.filterMap_cons]
    cases hc : c.without x.lost with
    | none =>
      rw [hc] at hcons
      exact hcons
    | some d =>
      rw [hc] at hcons
      exact hcons

/-- What is told without cues of commands is told alike. -/
theorem bereft_refl {es : List Event} (h : ∀ c ∈ cuesOf es, isWord c = true) (x : Scene) :
    Bereft x es es := by
  induction es generalizing x with
  | nil => exact .nil x
  | cons e es ih =>
    cases e with
    | cue c =>
      have hc : c.without x.lost = some c := by
        have hword := h c List.mem_cons_self
        cases c <;> first | rfl | cases hword
      have hcons := (ih (fun d hd => h d (List.mem_cons_of_mem _ hd)) x).cue c
      rw [hc] at hcons
      exact hcons
    | loader call => exact .firm rfl (ih h _)
    | note n => exact .firm rfl (ih h _)
    | turn t =>
      cases t with
      | executed i flags => exact .executed flags flags (ih h _)
      | _ => exact .firm rfl (ih h _)

/-- A story has a beginning without what is lost of another's beginning. -/
theorem Bereft.split {x : Scene} {es fs gs : List Event} (h : Bereft x es (fs ++ gs)) :
    ∃ xs ys, es = xs ++ ys ∧ Bereft x xs fs ∧ (gs = [] → ys = []) := by
  induction fs generalizing x es with
  | nil =>
    refine ⟨[], es, rfl, .nil x, fun hgs => ?_⟩
    rw [List.nil_append, hgs] at h
    cases h
    rfl
  | cons f fs ih =>
    rw [List.cons_append] at h
    cases h with
    | firm he h =>
      obtain ⟨xs, ys, rfl, hxs, hys⟩ := ih h
      exact ⟨_ :: xs, ys, rfl, .firm he hxs, hys⟩
    | executed flags flags' h =>
      obtain ⟨xs, ys, rfl, hxs, hys⟩ := ih h
      exact ⟨_ :: xs, ys, rfl, .executed flags flags' hxs, hys⟩
    | cue c h =>
      obtain ⟨xs, ys, rfl, hxs, hys⟩ := ih h
      exact ⟨_ ++ xs, ys, (List.append_assoc _ _ _).symm, .cue c hxs, hys⟩

/-- One scene has lost all that another has, in the same scenario. -/
structure Scene.Within (x' x : Scene) : Prop where
  scenario : x'.scenario? = x.scenario?
  lost : ∀ k, x'.lost k = true → x.lost k = true

theorem Scene.Within.refl (x : Scene) : x.Within x := ⟨rfl, fun _ hk => hk⟩

theorem Scene.Within.firm {x x' : Scene} (h : x'.Within x) {e : Event} (he : e.isFirm = true) :
    (x'.follow e).Within (x.follow e) := by
  cases e with
  | turn t =>
    cases t with
    | executed => cases he
    | entered => exact ⟨rfl, fun _ hk => hk⟩
    | _ => exact h
  | _ => exact h

theorem Scene.Within.executed {x x' : Scene} (h : x'.Within x) {i : Nat}
    {flags flags' : List Bool} (hcovered : Covered flags flags') :
    (x'.follow (.turn (.executed i flags'))).Within (x.follow (.turn (.executed i flags))) := by
  refine ⟨h.scenario, fun k hk => ?_⟩
  unfold follow at hk ⊢
  dsimp only at hk ⊢
  rw [h.scenario] at hk
  cases hc : x.scenario?.bind fun s => s.commands[i]? with
  | none =>
    rw [hc] at hk
    cases hk
  | some c =>
    rw [hc] at hk
    exact lostOf_covered hcovered hk

@[simp] theorem flagsOf_append (es fs : List Event) :
    flagsOf (es ++ fs) = flagsOf es ++ flagsOf fs := by
  simp [flagsOf]

theorem flagsOf_cons_of_isFirm {e : Event} (he : e.isFirm = true) (es : List Event) :
    flagsOf (e :: es) = flagsOf es := by
  cases e with
  | turn t => cases t <;> first | rfl | cases he
  | _ => rfl

@[simp] theorem flagsOf_cues (cues : List Cue) : flagsOf (cues.map .cue) = [] := by
  simp [flagsOf]

theorem flagsOf_storyOf (es : List Event) : flagsOf (storyOf es) = flagsOf es := by
  induction es with
  | nil => rfl
  | cons e es ih =>
    cases e with
    | turn t =>
      cases t with
      | executed i flags => exact congrArg (flags :: ·) ih
      | _ => exact ih
    | cue | loader | note => exact ih

/-- The flags of the first part of a story. -/
theorem getElem?_flagsOf {xs ys : List Event} {n : Nat} {flags : List Bool}
    (h : (flagsOf xs)[n]? = some flags) : (flagsOf (xs ++ ys))[n]? = some flags := by
  rw [flagsOf_append, List.getElem?_append_left (List.getElem?_eq_some_iff.mp h).1, h]

/-- Two stories without lost assets, one of which has lost no more than the other. -/
theorem Bereft.of_covered {x x' : Scene} {es es' fs : List Event} (h : Bereft x es fs)
    (h' : Bereft x' es' fs) (hx : x'.Within x) (hpoorer : Poorer es es') : Bereft x es es' := by
  induction h generalizing x' es' with
  | nil x =>
    cases h'
    exact .nil x
  | firm he h ih =>
    cases h' with
    | firm _ h' =>
      unfold Poorer at hpoorer
      rw [flagsOf_cons_of_isFirm he, flagsOf_cons_of_isFirm he] at hpoorer
      exact .firm he (ih h' (hx.firm he) hpoorer)
    | executed => cases he
    | cue => cases he
  | executed flags flags' h ih =>
    cases h' with
    | firm he => cases he
    | executed flags'' _ h' =>
      have hfirst : Covered flags flags'' := hpoorer 0 _ _ rfl rfl
      exact .executed flags flags'' (ih h' (hx.executed hfirst) fun n => hpoorer (n + 1))
  | @cue x c es fs h ih =>
    cases h' with
    | firm he => cases he
    | @cue _ _ es' _ h' =>
      unfold Poorer at hpoorer
      rw [flagsOf_append, flagsOf_cues, flagsOf_append, flagsOf_cues] at hpoorer
      have hrest := ih h' hx hpoorer
      have hless := Cue.without_bind_without hx.lost c
      cases hc : c.without x'.lost with
      | none =>
        rw [hc] at hless
        rw [← hless]
        exact hrest
      | some d =>
        rw [hc] at hless
        rw [← hless]
        exact .cue d hrest

/-- As far as two stories have come, the first is the second without what is lost of it. -/
def BereftSoFar (x : Scene) (es fs : List Event) : Prop :=
  (∃ first, first <+: fs ∧ Bereft x es first) ∨ ∃ first, first <+: es ∧ Bereft x first fs

/-- The first of two stories, which has come less far, is the beginning of the second without what
    is lost of it, and the whole second if that has not come farther. -/
theorem Bereft.of_behind {x : Scene} {es es' fs gs : List Event} (h : Bereft x es fs)
    (h' : Bereft x es' (fs ++ gs)) (hpoorer : Poorer es es') :
    ∃ first, first <+: es' ∧ Bereft x es first ∧ (gs = [] → first = es') := by
  obtain ⟨first, later, rfl, hfirst, hlater⟩ := h'.split
  refine ⟨first, List.prefix_append _ _, h.of_covered hfirst (.refl x) ?_, fun hgs => ?_⟩
  · exact fun n flags flags' hn hn' => hpoorer n flags flags' hn (getElem?_flagsOf hn')
  · rw [hlater hgs, List.append_nil]

/-- The first of two stories, which has come farther, is at its beginning the second without what
    is lost of it. -/
theorem Bereft.of_ahead {x : Scene} {es es' fs gs : List Event} (h : Bereft x es (fs ++ gs))
    (h' : Bereft x es' fs) (hpoorer : Poorer es es') :
    ∃ first, first <+: es ∧ Bereft x first es' ∧ (gs = [] → first = es) := by
  obtain ⟨first, later, rfl, hfirst, hlater⟩ := h.split
  refine ⟨first, List.prefix_append _ _, hfirst.of_covered h' (.refl x) ?_, fun hgs => ?_⟩
  · exact fun n flags flags' hn hn' => hpoorer n flags flags' (getElem?_flagsOf hn) hn'
  · rw [hlater hgs, List.append_nil]

/-! ## What is handed over -/

/-- An asset that a command may hand to the stage: it is loaded, the command declared it, and the
    command uses it. -/
structure MayHand (l : Ledger ℓ) (a : Active) [Loader ℓ] (h : Handle) : Prop where
  loaded : l.state h = .loaded
  declared : h ∈ a.command.resources
  used : 0 < l.ownerCount h (.command a.index)

variable [Stage σ] [Loader ℓ] [TableSource ς]

/-- A cue is given when the command at the cursor is executed, after some of the inputs and moves
    for the next; it is a game's own command that gives the cue itself, or every asset in the cue
    is one that the command may hand to the stage then. -/
def Handed (p : Player σ ℓ ς) (inputs : List (Input σ ℓ ς)) (before : List Event) (cue : Cue) :
    Prop :=
  ∃ xs i ys q s a told rest, inputs = xs ++ i :: ys ∧ Moves (p.afterAll xs) q ∧ q.Plays s a ∧
    a.index = q.cursor.index ∧ s.commands[a.index]? = some a.command ∧
    Moves (q.execute a).1.settle (p.afterAll (xs ++ [i])) ∧ before = q.events ++ told ∧
    q.executedEvents a = told ++ .cue cue :: rest ∧
    (GivesItself a.command cue ∨ ∀ h ∈ cue.handles, MayHand (q.execute a).1.ledger a h)

omit [Stage σ] [Loader ℓ] [TableSource ς] in
/-- Word of where the story is hands nothing over. -/
theorem handles_of_isWord {cue : Cue} (h : isWord cue = true) : cue.handles = [] := by
  cases cue <;> first | rfl | cases h

omit [TableSource ς] in
/-- A command that is executed hands over what it may. -/
theorem mayHand_of_execute {cap : Nat} {q : Player σ ℓ ς} {s : Scenario} {a : Active}
    (hq : Accounts cap q) (hplays : q.Plays s a) {cue : Cue} (hcue : cue ∈ (q.outcome a).2) :
    GivesItself a.command cue ∨ ∀ h ∈ cue.handles, MayHand (q.execute a).1.ledger a h := by
  by_cases hhost : ∃ action, a.command.action = .host action
  · obtain ⟨action, haction⟩ := hhost
    refine Or.inl ⟨action, q.board.params, haction, ?_⟩
    have hown : cue ∈ a.command.action.cues (q.moved a.index).2.1.state q.board := hcue
    rw [haction] at hown
    exact hown
  · refine Or.inr fun h hh => ?_
    obtain ⟨hdeclared, hloaded⟩ := Command.Action.usable_of_mem_cues
      (fun action haction => hhost ⟨action, haction⟩) hcue hh
    rw [execute_eq]
    refine ⟨?_, hdeclared, ?_⟩
    · change (q.moved a.index).2.1.state h = .loaded
      cases hstate : (q.moved a.index).2.1.state h with
      | loaded => rfl
      | pending | failed =>
        rw [hstate] at hloaded
        cases hloaded
    · change 0 < (q.moved a.index).2.1.ownerCount h (.command a.index)
      rw [ownerCount_moved hq, if_neg (fun heq => nomatch heq), due, hplays.active]
      dsimp only
      rw [if_pos rfl]
      exact List.count_pos_iff.mpr hdeclared

/-- Every asset that reaches the stage is handed over as it should be. -/
theorem hands_of_event {cap : Nat} {p : Player σ ℓ ς} (hp : Coherent p) (hcap : Accounts cap p)
    (hfirst : p.events = []) {inputs : List (Input σ ℓ ς)} {before later : List Event} {cue : Cue}
    (hes : (p.afterAll inputs).events = before ++ .cue cue :: later) (hcue : cue.handles ≠ []) :
    Handed p inputs before cue := by
  obtain ⟨xs, i, ys, q, q', told, rest, -, hinputs, hq, hmove, hq', rfl, hevents, -⟩ :=
    moment_of_event hes (by rw [hfirst]; exact Nat.zero_le _)
  have hcoherent := hq.preserve Coherent.move (hp.afterAll xs)
  have haccounts : Accounts cap q :=
    hq.preserve Accounts.move (afterAll_preserve Accounts.move Accounts.change hcap xs)
  rw [List.append_assoc] at hevents
  have hmem : ∀ {es}, q'.events = q.events ++ es → cue ∈ cuesOf es := fun h => by
    rw [List.append_cancel_left (h.symm.trans hevents)]
    simp
  rcases hmove.executes with ⟨es, hadded, -, hwords⟩ | ⟨s, a, hplays, -, rfl⟩
  · exact absurd (handles_of_isWord (hwords cue (hmem hadded)).1) hcue
  · obtain ⟨hindex, hc⟩ := hcoherent.command s a hplays.scenario hplays.active
    have hadded : (q.execute a).1.settle.events = q.events ++ q.executedEvents a :=
      q.execute_events a
    refine ⟨xs, i, ys, q, s, a, told, rest, hinputs, hq, hplays, hindex, hc, hq', rfl,
      List.append_cancel_left (hadded.symm.trans hevents), ?_⟩
    have hgiven := hmem hadded
    rw [executedEvents, cuesOf_append, cuesOf_loader, List.nil_append, cuesOf_turn, cuesOf_append,
      cuesOf_cues, cuesOf_pageBegun] at hgiven
    rcases List.mem_append.mp hgiven with hown | hpage
    · exact mayHand_of_execute haccounts hplays hown
    · split at hpage
      · obtain rfl := List.mem_singleton.mp hpage
        exact absurd rfl hcue
      · cases hpage

/-! ## Runs with losses -/

omit [Stage σ] [Loader ℓ] [TableSource ς] in
/-- Without entering a scenario the one that is played stays. -/
theorem scenario_followAll {es : List Event} (h : ∀ s cur, .entered s cur ∉ turnsOf es)
    (x : Scene) : (x.followAll es).scenario? = x.scenario? := by
  induction es generalizing x with
  | nil => rfl
  | cons e es ih =>
    cases e with
    | turn t =>
      have hrest : ∀ s cur, .entered s cur ∉ turnsOf es := fun s cur hmem =>
        h s cur (List.mem_cons_of_mem _ hmem)
      cases t with
      | entered s cur => exact absurd List.mem_cons_self (h s cur)
      | _ => exact ih hrest _
    | cue | loader | note => exact ih h _

/-- The scenario of a player that plays is that of the scene that its events lead to. -/
theorem Move.scene {p q : Player σ ℓ ς} (h : Move p q) :
    ∃ es, q.events = p.events ++ es ∧ ∀ x : Scene,
      (p.state = .running → x.scenario? = p.scenario?) → q.state = .running →
        (x.followAll es).scenario? = q.scenario? := by
  have hstays : ∀ {q' : Player σ ℓ ς} {es : List Event}, (∀ s cur, .entered s cur ∉ turnsOf es) →
      q'.scenario? = p.scenario? → (q'.state = .running → p.state = .running) → ∀ x : Scene,
      (p.state = .running → x.scenario? = p.scenario?) → q'.state = .running →
        (x.followAll es).scenario? = q'.scenario? := fun hes hs hstate x hx hq =>
    (scenario_followAll hes x).trans ((hx (hstate hq)).trans hs.symm)
  cases h with
  | enter hstate hs =>
    rw [enterScenario_eq]
    exact ⟨_, events_append rfl, fun _ _ _ => rfl⟩
  | skip =>
    rw [skip_eq]
    exact ⟨_, events_append rfl, hstays (by simp) rfl id⟩
  | activate =>
    rw [activate_eq]
    exact ⟨_, events_append rfl, hstays (by simp) rfl id⟩
  | execute =>
    rw [execute_eq]
    exact ⟨_, events_append rfl, hstays (by simp) rfl id⟩
  | complete =>
    rw [completed, complete_eq]
    exact ⟨_, events_append rfl, hstays (by simp) rfl id⟩
  | endGalleryScene =>
    obtain ⟨history?, es, -, -, hturns, -, heq⟩ := p.endGalleryScene_eq
    rw [heq]
    exact ⟨es, events_append rfl, hstays (by simp [hturns]) rfl id⟩
  | notePageLeft =>
    obtain ⟨history?, es, -, -, hturns, -, heq⟩ := p.notePageLeft_eq
    rw [heq]
    exact ⟨es, events_append rfl, hstays (by simp [hturns]) rfl id⟩
  | begin =>
    rw [begin_eq]
    refine ⟨_, events_append rfl, fun _ _ h => ?_⟩
    cases h
  | finish =>
    rw [finish_eq]
    refine ⟨_, events_append rfl, fun _ _ h => ?_⟩
    cases h
  | compile => exact ⟨[], events_append (by simp), fun _ hx hq => hx hq⟩

/-- What a run needs to be followed from some past on, which has led to a scene. -/
structure Followed (S : ς → Prop) (past : List Event) (x : Scene) (p : Player σ ℓ ς) : Prop
    extends Coherent p where
  source : S p.source
  scene : ∃ es, p.events = past ++ es ∧
    (p.state = .running → (x.followAll es).scenario? = p.scenario?)

/-- After a common past one story is the other without what is lost of it. -/
def Thinned (past : List Event) (x : Scene) (es fs : List Event) : Prop :=
  ∃ xs ys, es = past ++ xs ∧ fs = past ++ ys ∧ Bereft x (storyOf xs) (storyOf ys)

omit [Stage σ] [Loader ℓ] [TableSource ς] in
theorem cuesOf_storyOf (es : List Event) : cuesOf (storyOf es) = cuesOf es := by
  induction es with
  | nil => rfl
  | cons e es ih =>
    cases e with
    | turn t => cases t <;> exact ih
    | cue c => exact congrArg (c :: ·) ih
    | _ => exact ih

instance (past : List Event) (x : Scene) : Additive (Thinned past x) where
  append {es fs zs ws} h hstory hwords := by
    obtain ⟨xs, ys, rfl, rfl, hbereft⟩ := h
    refine ⟨xs ++ zs, ys ++ ws, List.append_assoc _ _ _, List.append_assoc _ _ _, ?_⟩
    rw [storyOf_append, storyOf_append, ← hstory]
    exact hbereft.append (bereft_refl (by rwa [cuesOf_storyOf]) _)

variable {S : ς → Prop} {tables : String → Option Table.CellTable} {past : List Event} {x : Scene}

theorem Followed.move (hS : Supplies tables S) {p q : Player σ ℓ ς} (h : Move p q)
    (hp : Followed S past x p) : Followed S past x q := by
  obtain ⟨es, hes, hscene⟩ := hp.scene
  obtain ⟨fs, hfs, hscene'⟩ := h.scene
  refine { hp.toCoherent.move h with
    source := ?_
    scene := ⟨es ++ fs, by rw [hfs, hes, List.append_assoc], fun hq => ?_⟩ }
  · rcases h.source with heq | ⟨label, heq⟩
    · rw [heq]
      exact hp.source
    · rw [heq]
      exact hS.request hp.source
  · rw [followAll_append]
    exact hscene' _ hscene hq

omit [Stage σ] [TableSource ς] in
/-- The assets that a command executed without are those that its flags say. -/
theorem loses_of_execute {p : Player σ ℓ ς} {a : Active} {state : Handle → Asset.LoadState}
    (hstate : ∀ h, (state h).isLoaded = true)
    (hhost : ∀ action, a.command.action ≠ .host action) :
    Command.Loses a.command.action.resources (lostOf a.command (p.usableAt a))
      (p.moved a.index).2.1.state state where
  lost h hmem := by
    have hverdict := isLoaded_verdicts (p.moved a.index).2.1.state (h := h) hmem
    unfold lostOf
    split
    · rename_i action haction
      exact absurd haction (hhost action)
    · have hmem' : h ∈ a.command.resources := hmem
      rw [decide_eq_true hmem', Bool.true_and]
      exact congrArg (!·) hverdict
  loaded h _ _ := hstate h

omit [Stage σ] [TableSource ς] in
/-- A command gives the cues that it gives when all its assets are there, without what is lost. -/
theorem outcome_without {p : Player σ ℓ ς} {q : Prompt (fun _ => true) tables}
    {R : List Event → List Event → Prop} (hpq : Abreast R p q) (a : Active) :
    (p.outcome a).2 =
      (q.outcome a).2.filterMap (Cue.without (lostOf a.command (p.usableAt a))) := by
  change a.command.action.cues (p.moved a.index).2.1.state p.board =
    (a.command.action.cues (q.moved a.index).2.1.state q.board).filterMap _
  rw [hpq.board]
  by_cases hhost : ∃ action, a.command.action = .host action
  · obtain ⟨action, haction⟩ := hhost
    have hnone : lostOf a.command (p.usableAt a) = fun _ => false := by
      funext h
      unfold lostOf
      rw [haction]
    rw [hnone, haction]
    have hkept : (Cue.without fun _ => false) = some :=
      funext fun cue => Cue.without_eq_some fun _ _ => rfl
    rw [hkept, List.filterMap_some]
    rfl
  · have hown := fun action h => hhost ⟨action, h⟩
    exact Command.Action.cues_without hown q.board (loses_of_execute (fun _ => rfl) hown)

omit [Stage σ] [TableSource ς] in
/-- Executing a command tells what is told of it when all its assets are there, without what is
    lost. -/
theorem thinned_executed {p : Player σ ℓ ς} {q : Prompt (fun _ => true) tables} {s : Scenario}
    {a : Active} (hp : Followed S past x p) (hplays : p.Plays s a)
    (hpq : Abreast (Thinned past x) p q) :
    Thinned past x (p.events ++ p.executedEvents a) (q.events ++ q.executedEvents a) := by
  obtain ⟨xs, ys, hxs, hys, hbereft⟩ := hpq.outward
  obtain ⟨es, hes, hscene⟩ := hp.scene
  obtain rfl : es = xs := List.append_cancel_left (hes.symm.trans hxs)
  obtain ⟨-, hc⟩ := hp.command s a hplays.scenario hplays.active
  refine ⟨es ++ p.executedEvents a, ys ++ q.executedEvents a, by rw [hes, List.append_assoc],
    by rw [hys, List.append_assoc], ?_⟩
  have hscenario : (x.followAll (storyOf es)).scenario? = some s := by
    rw [followAll_storyOf, hscene hplays.state, hplays.scenario]
  have hlost : ((x.followAll (storyOf es)).follow
      (.turn (.executed a.index (p.usableAt a)))).lost = lostOf a.command (p.usableAt a) := by
    unfold Scene.follow
    dsimp only
    rw [hscenario, Option.bind_some, hc]
    rfl
  rw [storyOf_append, storyOf_append]
  refine hbereft.append ?_
  have hpage := hpq.pageBegun ((q.cursor.enter a.command).turnPage a.command) a.command
  have hwords : ∀ cue ∈ cuesOf (storyOf (q.pageBegun
      ((q.cursor.enter a.command).turnPage a.command) a.command)), isWord cue = true := by
    rw [cuesOf_storyOf, cuesOf_pageBegun]
    intro cue hcue
    split at hcue
    · obtain rfl := List.mem_singleton.mp hcue
      rfl
    · cases hcue
  have htold := ((bereft_refl hwords _).cues (q.outcome a).2).executed (p.usableAt a)
    (q.usableAt a) (x := x.followAll (storyOf es)) (i := a.index)
  rw [hlost, ← outcome_without hpq a] at htold
  simpa [executedEvents, hpq.cursor, hpage] using htold

theorem guided_of_supplies (hS : Supplies tables S) :
    Guided (Thinned past x) (Followed (σ := σ) (ℓ := ℓ) S past x) (fun _ => True) S (fun _ => true)
      tables where
  move := Followed.move hS
  stage stage hp := { hp.toCoherent.change (.stage _ stage) with
    source := hp.source, scene := hp.scene }
  loader _ hp := { hp.toCoherent.change (.loader _ _) with
    source := hp.source, scene := hp.scene }
  source hsource hp := { hp.toCoherent.change (.source _ _) with
    source := hsource, scene := hp.scene }
  table hp hloaded := hS.table hp.source hloaded
  executed hp hplays _ _ hpq := thinned_executed hp hplays hpq

/-! ## Two runs -/

/-- The player that goes on without ever being kept waiting, all assets being there. -/
def unhindered (tables : String → Option Table.CellTable) (p : Player σ ℓ ς) :
    Prompt (fun _ => true) tables :=
  { stage := ⟨true, none⟩
    ledger := .ofLoader .there
    source := .there
    corpus := p.corpus
    history? := p.history?
    galleryLabels := p.galleryLabels
    state := p.state
    scenario? := p.scenario?
    cursor := p.cursor
    gallery? := p.gallery?
    board := p.board
    active? := p.active?
    window := .ofCap 0
    journal := p.journal }

/-- What happened in a run since a state of it. -/
def since (p q : Player σ ℓ ς) : List Event := q.events.drop p.events.length

/-- The scene that a player is in, before its next command is executed. -/
def scene (p : Player σ ℓ ς) : Scene := ⟨p.scenario?, fun _ => false⟩

variable {picks : Nat → Nat} {p : Player σ ℓ ς}

/-- A run that goes on from a state makes strides of the one that nothing hinders, and tells its
    story without what is lost. -/
theorem since_strides (hp : Coherent p) (hS : Supplies tables S) (hsource : S p.source)
    {more : List (Input σ ℓ ς)} (hmore : ∀ i ∈ more, Passing (fun _ => True) S i)
    (hheeds : Heeds picks (p.afterAll more).events) :
    ∃ n es, ((stride picks)^[n] (unhindered tables p)).events = p.events ++ es ∧
      Abreast (Thinned p.events p.scene) (p.afterAll more)
        ((stride picks)^[n] (unhindered tables p)) ∧
      Bereft p.scene (storyOf (since p (p.afterAll more))) (storyOf es) := by
  have hfollowed : Followed S p.events p.scene p :=
    { hp with
      source := hsource
      scene := ⟨[], (List.append_nil _).symm, fun _ => rfl⟩ }
  have hstart : Abreast (Thinned p.events p.scene) p (unhindered tables p) :=
    { corpus := rfl, history := rfl, labels := rfl, state := rfl, scenario := rfl, cursor := rfl
      gallery := rfl, board := rfl, active := rfl, picks := rfl
      outward := ⟨[], [], (List.append_nil _).symm, (List.append_nil _).symm, .nil _⟩ }
  obtain ⟨n, hn⟩ := afterAll_strides (guided_of_supplies hS) hfollowed hmore hheeds ⟨0, hstart⟩
  obtain ⟨xs, ys, hxs, hys, hbereft⟩ := hn.outward
  refine ⟨n, ys, hys, hn, ?_⟩
  have hsince : since p (p.afterAll more) = xs := by
    rw [since, hxs, List.drop_left]
  rw [hsince]
  exact hbereft

omit [Stage σ] [Loader ℓ] [TableSource ς] in
/-- More strides tell more, unless the run is over. -/
theorem strides_behind (picks : Nat → Nat) (q : Prompt (fun _ => true) tables) {n m : Nat}
    (hle : n ≤ m) :
    ∃ gs, ((stride picks)^[m] q).events = ((stride picks)^[n] q).events ++ gs ∧
      (((stride picks)^[n] q).state.isEnded = true →
        gs = [] ∧ (stride picks)^[m] q = (stride picks)^[n] q) := by
  obtain ⟨gs, hgs⟩ := strides_grow picks ((stride picks)^[n] q) (m - n)
  rw [← Function.iterate_add_apply, Nat.sub_add_cancel hle] at hgs
  refine ⟨gs, hgs, fun hended => ?_⟩
  have hsame : (stride picks)^[m] q = (stride picks)^[n] q := by
    rw [← Nat.sub_add_cancel hle, Function.iterate_add_apply]
    exact strides_of_ended hended _
  rw [hsame] at hgs
  exact ⟨List.append_cancel_left (hgs.symm.trans (List.append_nil _).symm), hsame⟩

/-- Two runs that go on from one state, where the first can use no asset that the other cannot. -/
theorem bereft_since (hp : Coherent p) (hS : Supplies tables S) (hsource : S p.source)
    {more more' : List (Input σ ℓ ς)} (hmore : ∀ i ∈ more, Passing (fun _ => True) S i)
    (hmore' : ∀ i ∈ more', Passing (fun _ => True) S i)
    (hpicks : SamePicks (p.afterAll more).events (p.afterAll more').events)
    (hpoorer : Poorer (since p (p.afterAll more)) (since p (p.afterAll more'))) :
    BereftSoFar p.scene (storyOf (since p (p.afterAll more)))
        (storyOf (since p (p.afterAll more'))) ∧
      ((p.afterAll more).state.isEnded = true → (p.afterAll more').state.isEnded = true →
        Bereft p.scene (storyOf (since p (p.afterAll more)))
          (storyOf (since p (p.afterAll more'))) ∧
        (p.afterAll more).state = (p.afterAll more').state ∧
        (p.afterAll more).board.params = (p.afterAll more').board.params) := by
  obtain ⟨picks, hheeds, hheeds'⟩ := hpicks.exists_heeds
  obtain ⟨n, es, hes, hn, hbereft⟩ := since_strides hp hS hsource hmore hheeds
  obtain ⟨m, es', hes', hm, hbereft'⟩ := since_strides hp hS hsource hmore' hheeds'
  unfold Poorer at hpoorer
  rw [← flagsOf_storyOf (since p (p.afterAll more)),
    ← flagsOf_storyOf (since p (p.afterAll more'))] at hpoorer
  have hlast : ∀ {q : Prompt (fun _ => true) tables},
      Abreast (Thinned p.events p.scene) (p.afterAll more) q →
      Abreast (Thinned p.events p.scene) (p.afterAll more') q →
      (p.afterAll more).state = (p.afterAll more').state ∧
        (p.afterAll more).board.params = (p.afterAll more').board.params := fun h h' =>
    ⟨h.state.trans h'.state.symm, congrArg Command.Board.params (h.board.trans h'.board.symm)⟩
  rcases Nat.le_total n m with hle | hle
  · obtain ⟨gs, hgs, hover⟩ := strides_behind picks (unhindered tables p) hle
    rw [hes', hes, List.append_assoc] at hgs
    obtain rfl := List.append_cancel_left hgs
    rw [storyOf_append] at hbereft'
    obtain ⟨first, hprefix, hstory, hwhole⟩ := hbereft.of_behind hbereft' hpoorer
    refine ⟨Or.inl ⟨first, hprefix, hstory⟩, fun hended _ => ?_⟩
    obtain ⟨rfl, hsame⟩ := hover (hn.state ▸ hended)
    exact ⟨hwhole rfl ▸ hstory, hlast hn (hsame ▸ hm)⟩
  · obtain ⟨gs, hgs, hover⟩ := strides_behind picks (unhindered tables p) hle
    rw [hes', hes, List.append_assoc] at hgs
    obtain rfl := List.append_cancel_left hgs
    rw [storyOf_append] at hbereft
    obtain ⟨first, hprefix, hstory, hwhole⟩ := hbereft.of_ahead hbereft' hpoorer
    refine ⟨Or.inr ⟨first, hprefix, hstory⟩, fun _ hended => ?_⟩
    obtain ⟨rfl, hsame⟩ := hover (hm.state ▸ hended)
    exact ⟨hwhole rfl ▸ hstory, hlast (hsame ▸ hn) hm⟩

/-- What the stage is handed is usable, and what is not usable takes nothing with it but itself.
    Every cue with an asset comes from the command at the cursor when it is executed, and unless
    a game's own command gives it itself, the asset is loaded then, declared by the command and
    in use by it. And however the loader behaves: let a run go on from any state in two ways, in
    which the same is picked of the menus, and each command that is executed can use no asset in
    the first that it cannot use in the second. Then the first tells the story of the second
    without what its commands cannot use, as far as both have come. -/
theorem handed_assets_are_usable (stage : σ) (loader : ℓ) (source : ς) (corpus : Corpus)
    (cap : Nat) (params : Expression.Params) (galleryLabels : List String)
    (history? : Option History.ReadHistory) (inputs : List (Input σ ℓ ς)) :
    let start := ready stage loader source corpus cap params galleryLabels history?
    let p := start.afterAll inputs
    (∀ before cue later, p.events = before ++ .cue cue :: later → cue.handles ≠ [] →
      Handed start inputs before cue) ∧
    ∀ (tables : String → Option Table.CellTable) (S : ς → Prop), Supplies tables S →
      S p.source → ∀ more more' : List (Input σ ℓ ς),
      (∀ i ∈ more, Passing (fun _ => True) S i) → (∀ i ∈ more', Passing (fun _ => True) S i) →
      let run := p.afterAll more
      let run' := p.afterAll more'
      SamePicks run.events run'.events → Poorer (since p run) (since p run') →
      BereftSoFar p.scene (storyOf (since p run)) (storyOf (since p run')) ∧
      (run.state.isEnded = true → run'.state.isEnded = true →
        Bereft p.scene (storyOf (since p run)) (storyOf (since p run')) ∧
          run.state = run'.state ∧ run.board.params = run'.board.params) := by
  intro start p
  have hstart := coherent_ready stage loader source corpus cap params galleryLabels history?
  have haccounts := accounts_ready stage loader source corpus cap params galleryLabels history?
  refine ⟨fun before cue later hes hcue => hands_of_event hstart haccounts rfl hes hcue, ?_⟩
  intro tables S hS hsource more more' hmore hmore' run run' hpicks hpoorer
  exact bereft_since (hstart.afterAll inputs) hS hsource hmore hmore' hpicks hpoorer

/-! ## A lost picture -/

omit [Stage σ] [Loader ℓ] [TableSource ς]

/-- A label with a picture, and a line with a voice. -/
def scenic : Table.CellTable :=
  .ofRows "t" [["Command", "Arg1", "Text", "Voice"], ["*a"], ["Bg", "hill"],
    ["", "", "what a view", "ann"]]

def scenicLibrary : Library := Library.empty.insert scenic true

/-- The picture of the hill. -/
def hill : Handle := Directories.standard.handle .background "hill"

/-- A loader that finds no files. -/
def withoutHill : FileLoader := .ofRoot ⟨[], []⟩ ""

/-- A loader that finds the picture and not the voice. -/
def withHill : FileLoader :=
  .ofRoot ⟨[(["Texture"], .directory), (["BG", "Texture"], .directory),
    (["hill.jpg", "BG", "Texture"], .file (.bytes []))], []⟩ ""

/-- A player that finds no files yet. -/
def beforeHill : Player Still FileLoader Library :=
  ready ⟨true, none⟩ withoutHill scenicLibrary (.ofSettings .standard .standard) 0 ∅ [] none

/-- Without the picture nothing is handed over, and the line is shown all the same. -/
theorem lost_picture_leaves_the_line :
    let p := beforeHill.afterAll [.start "a" 0 none]
    let blind := p.afterAll [.tick, .tick]
    let seen := p.afterAll [.loader withHill, .tick, .tick]
    blind.state = .ended .completed ∧ seen.state = .ended .completed ∧
      (cuesOf blind.events).flatMap Cue.handles = [] ∧
      (cuesOf seen.events).flatMap Cue.handles = [hill] ∧
      Bereft p.scene (storyOf (since p blind)) (storyOf (since p seen)) ∧
      ∃ before cue, cue.handles ≠ [] ∧
        Handed beforeHill [.start "a" 0 none, .loader withHill, .tick, .tick] before cue := by
  intro p blind seen
  have hblindEnd : blind.state = .ended .completed := by decide +kernel
  have hseenEnd : seen.state = .ended .completed := by decide +kernel
  have hblind : (cuesOf blind.events).flatMap Cue.handles = [] := by decide +kernel
  have hseen : (cuesOf seen.events).flatMap Cue.handles = [hill] := by decide +kernel
  have hhands := (handed_assets_are_usable (⟨true, none⟩ : Still) withoutHill scenicLibrary
    (.ofSettings .standard .standard) 0 ∅ [] none
    ([.start "a" 0 none] ++ [.loader withHill, .tick, .tick])).1
  rw [afterAll_append] at hhands
  change ∀ before cue later, seen.events = before ++ .cue cue :: later → cue.handles ≠ [] →
    Handed beforeHill [.start "a" 0 none, .loader withHill, .tick, .tick] before cue at hhands
  have hS := scenicLibrary.supplies
  have hsource : p.source.promised = scenicLibrary.promised := rfl
  have hblindly : ∀ i ∈ [.tick, .tick], Passing (σ := Still) (ℓ := FileLoader) (fun _ => True)
      (fun k : Library => k.promised = scenicLibrary.promised) i := by
    simp [Passing.tick]
  have hseeing : ∀ i ∈ [.loader withHill, .tick, .tick],
      Passing (σ := Still) (ℓ := FileLoader) (fun _ => True)
        (fun k : Library => k.promised = scenicLibrary.promised) i := by
    simp [Passing.tick, Passing.loader]
  have htold := (handed_assets_are_usable (⟨true, none⟩ : Still) withoutHill scenicLibrary
    (.ofSettings .standard .standard) 0 ∅ [] none [.start "a" 0 none]).2 _ _ hS hsource _ _ hblindly
    hseeing
  change SamePicks blind.events seen.events → Poorer (since p blind) (since p seen) → _ ∧
    (blind.state.isEnded = true → seen.state.isEnded = true →
      Bereft p.scene (storyOf (since p blind)) (storyOf (since p seen)) ∧ _) at htold
  -- the picture is handed over in the run that has it
  obtain ⟨cue, hcue, hh⟩ := List.mem_flatMap.mp (hseen ▸ List.mem_singleton_self hill)
  obtain ⟨before, later, hevents⟩ := List.append_of_mem (mem_cuesOf.mp hcue)
  have hhanded := hhands before cue later hevents (List.ne_nil_of_mem hh)
  -- the run without it tells the same story otherwise
  have hnone : ∀ flags ∈ flagsOf (since p blind), true ∉ flags := by decide +kernel
  have hpoorer : Poorer (since p blind) (since p seen) := by
    intro n flags flags' hflags _ j hj
    exact absurd (List.mem_of_getElem? hj) (hnone flags (List.mem_of_getElem? hflags))
  have hnothing : picksOf blind.events = [] := by decide +kernel
  have hpicks : SamePicks blind.events seen.events := by
    intro n i j hi
    rw [hnothing] at hi
    cases hi
  have hblindOver : blind.state.isEnded = true := by
    rw [hblindEnd]
    rfl
  have hseenOver : seen.state.isEnded = true := by
    rw [hseenEnd]
    rfl
  obtain ⟨hbereft, -⟩ := (htold hpicks hpoorer).2 hblindOver hseenOver
  exact ⟨hblindEnd, hseenEnd, hblind, hseen, hbereft, before, cue, List.ne_nil_of_mem hh, hhanded⟩

end VisualNovel.Player
