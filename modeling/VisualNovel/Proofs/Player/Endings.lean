import VisualNovel.Proofs.Player.Pages

/-
  How runs end. The player gives word of an end when a run that is under way comes to it, as the
  last that it does, and only then: a run that is left for another ends without a word
  (`Placed.utters`). So between two ends a run was asked for (`Unanswered`), and after an end
  nothing more is told until one is. Commands of a game's own may give the same word as a cue of
  theirs; where the journal tells of an end that is not the player's, such a command was just
  executed (`Spoken`).
-/

namespace VisualNovel.Player

open Asset (Loader)
open Command (Factory Settings)
open Scenario (Corpus TableSource)
open Stage (Cue EndReason)

variable {σ ℓ ς : Type}

/-! ## Words of an end -/

/-- A run has just executed a command that gives the cue itself. -/
def Spoken (before : List Event) (cue : Cue) : Prop :=
  ∃ r i u c, runOf before = some r ∧ r.turns.getLast? = some (.executed i u) ∧
    r.scenario.commands[i]? = some c ∧ GivesItself c cue

/-- The player gives no word of an end among events, which come behind others: where one is
    given, a command gives it. -/
def Unended (past es : List Event) : Prop :=
  Holds (fun before e => ∀ reason, e = .cue (.finished reason) →
    Spoken (past ++ before) (.finished reason)) es

/-- A run was asked for, and the player has given no word of an end since. -/
def Unanswered (es : List Event) : Prop :=
  ∃ before label page since, es = before ++ .turn (.asked label page) :: since ∧
    Unended (before ++ [.turn (.asked label page)]) since

/-- A word of an end is a command's own, or the answer to a run that was asked for. -/
def IsDue (before : List Event) (e : Event) : Prop :=
  ∀ reason, e = .cue (.finished reason) → Spoken before (.finished reason) ∨ Unanswered before

/-- The word of an end that a run which was under way has come to. -/
def lastWord (p q : Player σ ℓ ς) : List Event :=
  if p.state.isUnderWay then
    match q.state with
    | .ended reason => [.cue (.finished reason)]
    | _ => []
  else []

theorem unended_of_cuesOf {es : List Event} (h : ∀ reason, .finished reason ∉ cuesOf es)
    (past : List Event) : Unended past es := by
  rintro before e later rfl reason rfl
  exact absurd (mem_cuesOf.mpr (List.mem_append_right _ List.mem_cons_self)) (h reason)

theorem unended_nil (past : List Event) : Unended past [] :=
  unended_of_cuesOf (fun _ => List.not_mem_nil) past

theorem unended_asked (past : List Event) (label : String) (page : Int) :
    Unended past [.turn (.asked label page)] := unended_of_cuesOf (by simp) past

theorem Unended.append {past es fs : List Event} (hes : Unended past es)
    (hfs : Unended (past ++ es) fs) : Unended past (es ++ fs) := by
  refine Holds.append hes fun before e later h reason he => ?_
  rw [← List.append_assoc]
  exact hfs before e later h reason he

/-- A run is asked for. -/
theorem unanswered_asked (es : List Event) (label : String) (page : Int) :
    Unanswered (es ++ [.turn (.asked label page)]) := ⟨es, label, page, [], rfl, unended_nil _⟩

theorem Unanswered.append {es fs : List Event} (hes : Unanswered es) (hfs : Unended es fs) :
    Unanswered (es ++ fs) := by
  obtain ⟨before, label, page, since, rfl, hunended⟩ := hes
  refine ⟨before, label, page, since ++ fs, by simp, hunended.append ?_⟩
  simpa using hfs

/-- No end comes to a run that goes on, and none to a player without a run. -/
theorem lastWord_of_same {p q : Player σ ℓ ς} (h : q.state.isUnderWay = p.state.isUnderWay) :
    p.lastWord q = [] := by
  unfold lastWord
  split
  · rename_i hp
    rw [hp] at h
    split
    · rename_i reason hq
      rw [hq] at h
      cases h
    · rfl
  · rfl

/-! ## Moves -/

variable [Stage σ] [Loader ℓ] [TableSource ς]

omit [Stage σ] [TableSource ς] in
/-- Among the cues of an execution, a word of an end is the command's. -/
theorem unended_executed {p : Player σ ℓ ς} {r : Run} {m : Nat} (ht : Tracks p r m) {a : Active}
    (ha : p.active? = some a) : Unended p.events (p.executedEvents a) := by
  rintro before e later hes reason rfl
  obtain ⟨hrun, hcue⟩ := cue_of_execute ht hes
  refine ⟨_, a.index, _, a.command, hrun, r.getLast?_goOn _, (ht.active a ha).2, ?_⟩
  rcases hcue with hown | hpaged
  · exact givesItself_of_mem_cues rfl hown
  · rw [cuesOf_pageBegun] at hpaged
    split at hpaged <;> simp at hpaged

/-- What is told when a player goes from one state to another: a run goes on, or none is under way
    then as before; a run is asked for; or the run that is under way ends, with the player's word
    as the last that is told. -/
inductive Utters (p q : Player σ ℓ ς) : Prop
  | on {es : List Event} (hes : q.events = p.events ++ es) (hunended : Unended p.events es)
      (hsame : q.state.isUnderWay = p.state.isUnderWay)
  | begins {es : List Event} {label : String} {page : Int}
      (hes : q.events = p.events ++ (es ++ [.turn (.asked label page)]))
      (hunended : Unended p.events es) (hstate : q.state = .loading label page)
  | ends {es : List Event} {reason : EndReason}
      (hes : q.events = p.events ++ (es ++ [.cue (.finished reason)]))
      (hunended : Unended p.events es) (hunder : p.state.isUnderWay = true)
      (hstate : q.state = .ended reason)

theorem Move.utters {p q : Player σ ℓ ς} (h : Move p q) (hp : Placed p) : Utters p q := by
  cases h with
  | enter hstate hs =>
    rw [enterScenario_eq]
    exact .on (events_append rfl) (unended_of_cuesOf (by simp) _) (by rw [hstate]; rfl)
  | skip hstands hc hskip =>
    rw [skip_eq]
    exact .on (events_append rfl) (unended_of_cuesOf (by simp) _) rfl
  | activate hstands hc hskip =>
    rw [activate_eq]
    exact .on (events_append rfl) (unended_of_cuesOf (by simp) _) rfl
  | execute hplays hphase hload =>
    obtain ⟨r, m, ht⟩ := hp.tracks hplays.state
    rw [execute_eq]
    exact .on (events_append rfl) (unended_executed ht hplays.active) rfl
  | complete hplays hphase hdone =>
    rw [completed, complete_eq]
    refine .on (events_append rfl) (unended_of_cuesOf (fun reason hmem => ?_) _) rfl
    rw [cuesOf_doneEvents] at hmem
    split at hmem <;> simp at hmem
  | endGalleryScene =>
    obtain ⟨history?, es, -, -, -, hcues, heq⟩ := p.endGalleryScene_eq
    rw [heq]
    exact .on (events_append rfl) (unended_of_cuesOf (by simp [hcues]) _) rfl
  | notePageLeft =>
    obtain ⟨history?, es, -, -, -, hcues, heq⟩ := p.notePageLeft_eq
    rw [heq]
    exact .on (events_append rfl) (unended_of_cuesOf (by simp [hcues]) _) rfl
  | begin =>
    rw [begin_eq]
    exact .begins (events_append rfl) (unended_of_cuesOf (by simp) _) rfl
  | finish reason hunder =>
    rw [finish_eq]
    exact .ends (events_append rfl) (unended_of_cuesOf (by simp) _) hunder rfl
  | compile => exact .on (List.append_nil p.events).symm (unended_nil _) rfl

theorem Keeps.utters {p q : Player σ ℓ ς} (h : Keeps p q) (hp : Placed p) :
    ∃ es, q.events = p.events ++ es ∧ Unended p.events es := by
  cases h.1.utters hp with
  | on hes hunended _ => exact ⟨_, hes, hunended⟩
  | begins hes hunended _ =>
    exact ⟨_, hes, hunended.append (unended_asked _ _ _)⟩
  | ends hes hunended hunder hstate =>
    have hsame := h.2
    rw [hunder, hstate] at hsame
    cases hsame

theorem Steady.utters {p q : Player σ ℓ ς} (h : Steady p q) (hp : Placed p) :
    ∃ es, q.events = p.events ++ es ∧ Unended p.events es := by
  induction h with
  | refl => exact ⟨[], (List.append_nil _).symm, unended_nil _⟩
  | tail hsteady hlast ih =>
    obtain ⟨es, hes, hunended⟩ := ih
    obtain ⟨fs, hfs, hunended'⟩ := hlast.utters (Steady.moves hsteady |>.preserve Placed.move hp)
    exact ⟨es ++ fs, by rw [hfs, hes, List.append_assoc], hunended.append (hes ▸ hunended')⟩

theorem Unfolds.utters {p q : Player σ ℓ ς} (h : Unfolds p q) (hp : Placed p) : Utters p q := by
  cases h with
  | steady h =>
    obtain ⟨es, hes, hunended⟩ := h.utters hp
    exact .on hes hunended (Steady.isUnderWay h)
  | @turned r _ h hlast =>
    obtain ⟨es, hes, hunended⟩ := h.utters hp
    have hbehind : ∀ {fs}, Unended r.events fs → Unended p.events (es ++ fs) := fun hfs =>
      hunended.append (hes ▸ hfs)
    cases hlast.utters (Steady.moves h |>.preserve Placed.move hp) with
    | on hfs hunended' hsame =>
      exact .on (by rw [hfs, hes, List.append_assoc]) (hbehind hunended')
        (hsame.trans (Steady.isUnderWay h))
    | begins hfs hunended' hstate =>
      exact .begins (by rw [hfs, hes]; simp) (hbehind hunended') hstate
    | ends hfs hunended' hunder hstate =>
      exact .ends (by rw [hfs, hes]; simp) (hbehind hunended') (Steady.isUnderWay h ▸ hunder) hstate

/-- What is told with an input. -/
theorem Placed.utters {p : Player σ ℓ ς} (hp : Placed p) (i : Input σ ℓ ς) :
    Utters p (p.after i) := by
  rcases p.after_unfolds i with h | h
  · exact h.utters hp
  · exact .on (h.events.trans (List.append_nil p.events).symm) (unended_nil _)
      (congrArg State.isUnderWay h.state)

omit [Stage σ] [Loader ℓ] [TableSource ς] in
/-- The last that is told is the word of the end of a run that ended; no other is given. -/
theorem Utters.lastWord {p q : Player σ ℓ ς} (h : Utters p q) :
    ∃ es, q.events = p.events ++ (es ++ p.lastWord q) ∧ Unended p.events es := by
  cases h with
  | @on es hes hunended hsame =>
    exact ⟨es, by rw [hes, lastWord_of_same hsame, List.append_nil], hunended⟩
  | @begins es label page hes hunended hstate =>
    refine ⟨es ++ [.turn (.asked label page)], ?_, hunended.append (unended_asked _ _ _)⟩
    simp [hes, Player.lastWord, hstate]
  | @ends es reason hes hunended hunder hstate =>
    exact ⟨es, by simp [hes, Player.lastWord, hunder, hstate], hunended⟩

/-! ## Whole runs -/

omit [Stage σ] [Loader ℓ] [TableSource ς] in
theorem Utters.unanswered {p q : Player σ ℓ ς} (h : Utters p q)
    (hp : p.state.isUnderWay = true → Unanswered p.events) (hq : q.state.isUnderWay = true) :
    Unanswered q.events := by
  cases h with
  | on hes hunended hsame =>
    rw [hes]
    exact (hp (hsame ▸ hq)).append hunended
  | begins hes hunended hstate =>
    rw [hes, ← List.append_assoc]
    exact unanswered_asked _ _ _
  | ends hes hunended hunder hstate =>
    rw [hstate] at hq
    cases hq

omit [Stage σ] [Loader ℓ] [TableSource ς] in
theorem Utters.due {p q : Player σ ℓ ς} (h : Utters p q)
    (hp : p.state.isUnderWay = true → Unanswered p.events) (hdue : Holds IsDue p.events) :
    Holds IsDue q.events := by
  have hspoken : ∀ {es}, Unended p.events es → Holds IsDue (p.events ++ es) := fun h =>
    hdue.append fun before e later hes reason he => Or.inl (h before e later hes reason he)
  cases h with
  | on hes hunended _ =>
    rw [hes]
    exact hspoken hunended
  | begins hes hunended _ =>
    rw [hes]
    exact hspoken (hunended.append (unended_asked _ _ _))
  | ends hes hunended hunder _ =>
    rw [hes, ← List.append_assoc]
    refine (hspoken hunended).append fun before e later hword reason he => Or.inr ?_
    cases before with
    | nil =>
      rw [List.append_nil]
      exact (hp hunder).append hunended
    | cons d before => simp at hword

theorem gallery_of_move {p q : Player σ ℓ ς} (h : Move p q)
    (hp : p.state.isEnded = true → p.gallery? = none) (hq : q.state.isEnded = true) :
    q.gallery? = none := by
  cases h with
  | enter =>
    rw [enterScenario_eq] at hq
    cases hq
  | skip hstands =>
    rw [skip_eq, hstands.state] at hq
    cases hq
  | activate hstands =>
    rw [activate_eq, hstands.state] at hq
    cases hq
  | execute hplays =>
    have hstate := (execute_plays hplays).state
    rw [hstate] at hq
    cases hq
  | complete hplays =>
    rw [(completed_stands hplays _).state] at hq
    cases hq
  | endGalleryScene =>
    obtain ⟨history?, es, -, -, -, -, heq⟩ := p.endGalleryScene_eq
    rw [heq]
  | notePageLeft =>
    obtain ⟨history?, es, -, -, -, -, heq⟩ := p.notePageLeft_eq
    rw [heq] at hq ⊢
    exact hp hq
  | begin =>
    rw [begin_eq] at hq
    cases hq
  | finish => rw [finish_eq]
  | compile => exact hp hq

/-- How the ends of a journal fit to the runs that were asked for. No scene of the gallery is seen
    when a run is over. -/
structure Concluded (p : Player σ ℓ ς) : Prop extends Placed p where
  due : Holds IsDue p.events
  unanswered : p.state.isUnderWay = true → Unanswered p.events
  gallery : p.state.isEnded = true → p.gallery? = none

theorem Concluded.move {p q : Player σ ℓ ς} (h : Move p q) (hp : Concluded p) : Concluded q :=
  have hutters := h.utters hp.toPlaced
  { hp.toPlaced.move h with
    due := hutters.due hp.unanswered hp.due
    unanswered := hutters.unanswered hp.unanswered
    gallery := gallery_of_move h hp.gallery }

omit [Stage σ] [Loader ℓ] [TableSource ς] in
theorem Concluded.change {p q : Player σ ℓ ς} (h : Change p q) (hp : Concluded p) :
    Concluded q :=
  have hgallery : q.gallery? = p.gallery? := by cases h <;> rfl
  { hp.toPlaced.change h with
    due := h.events ▸ hp.due
    unanswered := by
      rw [h.state, h.events]
      exact hp.unanswered
    gallery := by
      rw [h.state, hgallery]
      exact hp.gallery }

/-- Whether an input asks for a run. -/
def Input.asks : Input σ ℓ ς → Bool
  | start .. | resume _ | jump _ => true
  | _ => false

/-- A player whose run is over does nothing. -/
structure AtRest (p : Player σ ℓ ς) : Prop where
  gallery : p.gallery? = none
  tick : p.tick = (p, .halted)
  stop : p.stop = p
  erase : p.erase = p

theorem atRest_of_ended {p : Player σ ℓ ς} (hp : p.state.isEnded = true)
    (hgallery : p.gallery? = none) : AtRest p := by
  have hunder : p.state.isUnderWay = false := by
    cases h : p.state <;> rw [h] at hp <;> first | rfl | cases hp
  have hfinish : ∀ reason, p.finishIfUnderWay reason = p := fun reason =>
    if_neg (by rw [hunder]; exact Bool.false_ne_true)
  refine ⟨hgallery, ?_, hfinish _, hfinish _⟩
  unfold tick
  cases h : p.state <;> rw [h] at hp <;> first | rfl | cases hp

/-- Unless a run is asked for, nothing is told after the end of a run. -/
theorem AtRest.afterAll {p : Player σ ℓ ς} (hp : p.state.isEnded = true) (hrest : AtRest p)
    {inputs : List (Input σ ℓ ς)} (hinputs : ∀ i ∈ inputs, i.asks = false) :
    (p.afterAll inputs).events = p.events ∧ (p.afterAll inputs).state = p.state ∧
      AtRest (p.afterAll inputs) := by
  induction inputs generalizing p with
  | nil => exact ⟨rfl, rfl, hrest⟩
  | cons i inputs ih =>
    have hothers := fun j hj => hinputs j (List.mem_cons_of_mem _ hj)
    have hsame : p.after i = p ∨ Change p (p.after i) ∧ (p.after i).gallery? = p.gallery? := by
      have hi := hinputs i List.mem_cons_self
      cases i with
      | start | resume | jump => cases hi
      | tick => exact Or.inl (congrArg Prod.fst hrest.tick)
      | stop => exact Or.inl hrest.stop
      | erase => exact Or.inl hrest.erase
      | stage stage => exact Or.inr ⟨.stage p stage, rfl⟩
      | loader loader => exact Or.inr ⟨.loader p loader, rfl⟩
      | source source => exact Or.inr ⟨.source p source, rfl⟩
      | params params => exact Or.inr ⟨.params p params, rfl⟩
      | compile table => exact Or.inr ⟨.compile p table, rfl⟩
      | register tag reader => exact Or.inr ⟨.register p tag reader, rfl⟩
      | settings settings => exact Or.inr ⟨.settings p settings, rfl⟩
    rw [afterAll_cons]
    rcases hsame with hsame | ⟨hchange, hgallery⟩
    · rw [hsame]
      exact ih hp hrest hothers
    · have hended : (p.after i).state.isEnded = true := by rw [hchange.state, hp]
      obtain ⟨hevents, hstate, hrests⟩ :=
        ih hended (atRest_of_ended hended (hgallery.trans hrest.gallery)) hothers
      exact ⟨hevents.trans hchange.events, hstate.trans hchange.state, hrests⟩

/-- Runs end once and stay ended. With every input the player gives its word of an end as the last
    that it does if a run that was under way is over, with the reason that is in its state, and
    otherwise gives none. It gives it at most once for each run that was asked for. Then nothing
    is told and nothing changes until a run is asked for, and no scene of the gallery is seen. -/
theorem runs_end_once (stage : σ) (loader : ℓ) (source : ς) (factory : Factory)
    (settings : Settings) (cap : Nat) (params : Expression.Params) (galleryLabels : List String)
    (history? : Option History.ReadHistory) (inputs : List (Input σ ℓ ς)) :
    let p := (ready stage loader source (.ofSettings factory settings) cap params galleryLabels
      history?).afterAll inputs
    (∀ i, ∃ es, (p.after i).events = p.events ++ (es ++ p.lastWord (p.after i)) ∧
      Unended p.events es) ∧
    (∀ before reason later, p.events = before ++ .cue (.finished reason) :: later →
      Spoken before (.finished reason) ∨ Unanswered before) ∧
    (p.state.isEnded = true → ∀ later, (∀ i ∈ later, i.asks = false) →
      (p.afterAll later).events = p.events ∧ (p.afterAll later).state = p.state ∧
        AtRest (p.afterAll later)) := by
  intro p
  have hp : Concluded p :=
    afterAll_preserve Concluded.move Concluded.change
      { placed_ready stage loader source factory settings cap params galleryLabels history? with
        due := fun before e later hes => absurd (congrArg List.length hes) (by simp [events, ready])
        unanswered := fun h => nomatch h
        gallery := fun h => nomatch h } inputs
  refine ⟨fun i => (hp.toPlaced.utters i).lastWord, ?_, fun hended later hlater => ?_⟩
  · exact fun before reason later hes => hp.due before _ later hes reason rfl
  · exact (atRest_of_ended hended (hp.gallery hended)).afterAll hended hlater

end VisualNovel.Player
