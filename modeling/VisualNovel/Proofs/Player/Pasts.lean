import VisualNovel.Proofs.Player.Notes

/-
  A player upon a past. The journal and the history are written and not read: a player that has
  told and noted other things before goes on as it would without them (`upon_afterAll`), and what
  it notes it notes in the history as the past left it. So a player is known by what it does from
  an empty journal on.
-/

namespace VisualNovel.Player

open Asset (Ledger Loader LoaderCall)
open History (ReadHistory)
open Scenario (TableSource)
open Stage (Cue EndReason)

variable {σ ℓ ς : Type}

/-- What happened before: the events, and the history after them. -/
structure Past where
  events : List Event
  history : ReadHistory

/-- The player with a past: its journal comes behind the events of the past, and its notes are in
    the history of the past, if one is kept. -/
def upon (p : Player σ ℓ ς) (past : Past) : Player σ ℓ ς :=
  { p with
    history? := p.history?.map fun _ => noteAll past.history (notesOf p.events)
    journal := past.events.toArray ++ p.journal }

/-- The player with a result, upon a past. -/
def fstUpon {α : Type} (past : Past) (r : Player σ ℓ ς × α) : Player σ ℓ ς × α :=
  (r.1.upon past, r.2)

theorem events_upon (p : Player σ ℓ ς) (past : Past) :
    (p.upon past).events = past.events ++ p.events := by
  simp [events, upon]

/-- A player that told more and notes in the same history, upon a past. -/
theorem upon_eq {p q : Player σ ℓ ς} {past : Past} {es : List Event}
    (hjournal : q.journal = p.journal ++ es)
    (hhistory : q.history?.isSome = p.history?.isSome) :
    q.upon past =
      { q with
        history? := (p.upon past).history?.map (noteAll · (notesOf es))
        journal := (p.upon past).journal ++ es } := by
  have hnotes : (q.history?.map fun _ => noteAll past.history (notesOf q.events)) =
      (p.history?.map fun _ => noteAll past.history (notesOf p.events)).map
        (noteAll · (notesOf es)) := by
    rw [events_append hjournal, notesOf_append, noteAll_append, Option.map_map]
    cases hq : q.history? <;> cases hp : p.history? <;> simp_all
  have htold : past.events.toArray ++ q.journal = past.events.toArray ++ p.journal ++ es := by
    apply Array.ext'
    simp [hjournal]
  unfold upon
  rw [hnotes, htold]

/-- What tells more without a note, upon a past. -/
theorem upon_of_quiet {p q : Player σ ℓ ς} {past : Past} {es : List Event}
    (hjournal : q.journal = p.journal ++ es) (hhistory : q.history? = p.history?)
    (hes : notesOf es = []) :
    q.upon past =
      { q with
        history? := (p.upon past).history?
        journal := (p.upon past).journal ++ es } := by
  rw [upon_eq hjournal (congrArg _ hhistory), hes]
  congr 1
  exact Option.map_id'

/-! ## What a player does to others -/

theorem upon_note (p : Player σ ℓ ς) (n : ReadHistory.Note) (past : Past) :
    (p.note n).upon past = (p.upon past).note n := by
  rw [note_eq, note_eq]
  refine (upon_eq rfl Option.isSome_map).trans ?_
  obtain ⟨_, _, _, _, history?, _⟩ := p
  cases history? <;> rfl

theorem upon_notePageLeft (p : Player σ ℓ ς) (past : Past) :
    p.notePageLeft.upon past = (p.upon past).notePageLeft :=
  (apply_ite (upon · past) _ _ _).trans (if_congr Iff.rfl (p.upon_note _ past) rfl)

theorem upon_endGalleryScene (p : Player σ ℓ ς) (past : Past) :
    p.endGalleryScene.upon past = (p.upon past).endGalleryScene := by
  have hgallery : (p.upon past).gallery? = p.gallery? := rfl
  unfold endGalleryScene
  rw [hgallery]
  cases p.gallery? with
  | none => rfl
  | some scene => exact upon_note _ _ past

/-! ## Leaving a run and asking for one -/

section Leaving

variable [Loader ℓ]

theorem upon_finish [Stage σ] (p : Player σ ℓ ς) (reason : EndReason) (past : Past) :
    (p.finish reason).upon past = (p.upon past).finish reason := by
  rw [finish_eq, finish_eq]
  exact upon_of_quiet rfl rfl (by simp)

theorem upon_finishIfUnderWay [Stage σ] (p : Player σ ℓ ς) (reason : EndReason) (past : Past) :
    (p.finishIfUnderWay reason).upon past = (p.upon past).finishIfUnderWay reason :=
  (apply_ite (upon · past) _ _ _).trans (if_congr Iff.rfl (p.upon_finish reason past) rfl)

variable [TableSource ς]

theorem upon_begin (p : Player σ ℓ ς) (label : String) (page : Int) (gallery? : Option String)
    (past : Past) :
    (p.begin label page gallery?).upon past = (p.upon past).begin label page gallery? := by
  rw [begin_eq, begin_eq]
  exact upon_of_quiet rfl rfl (by simp)

theorem upon_start (p : Player σ ℓ ς) (label : String) (page : Int) (gallery? : Option String)
    (past : Past) :
    (p.start label page gallery?).upon past = (p.upon past).start label page gallery? :=
  p.upon_begin _ _ _ past

theorem upon_jump (p : Player σ ℓ ς) (label : String) (past : Past) :
    (p.jump label).upon past = (p.upon past).jump label := by
  unfold jump
  rw [upon_begin, ← upon_notePageLeft]
  rfl

end Leaving

/-! ## Commands -/

section Commands

theorem noted_upon (p : Player σ ℓ ς) (n : ReadHistory.Note) (past : Past) :
    (p.upon past).noted n = p.noted n := by
  unfold noted upon
  rw [Option.isSome_map]

/-- What the note of a page adds to the history, if one is kept. -/
theorem map_noteAll_page (p : Player σ ℓ ς) (b : Bool) (c : Cue) (n : ReadHistory.Note) :
    p.history?.map (noteAll · (notesOf (if b then .cue c :: p.noted n else []))) =
      if b then p.history?.map (·.record n) else p.history? := by
  cases b with
  | false => exact Option.map_id'
  | true =>
    rw [if_pos rfl, if_pos rfl]
    unfold noted
    cases p.history? <;> rfl

theorem upon_skip (p : Player σ ℓ ς) (c : Command) (past : Past) :
    (p.skip c).upon past = (p.upon past).skip c := by
  rw [skip_eq, skip_eq]
  exact upon_of_quiet rfl rfl rfl

theorem upon_enterScenario (p : Player σ ℓ ς) (s : Scenario) (label : String) (page : Int)
    (past : Past) :
    (p.enterScenario s label page).upon past = (p.upon past).enterScenario s label page := by
  rw [enterScenario_eq, enterScenario_eq]
  exact upon_of_quiet rfl rfl rfl

variable [Loader ℓ]

theorem upon_activate (p : Player σ ℓ ς) (c : Command) (past : Past) :
    fstUpon past (p.activate c) = (p.upon past).activate c := by
  rw [activate_eq, activate_eq]
  exact Prod.ext (upon_of_quiet rfl rfl (by simp)) rfl

variable [Stage σ]

theorem upon_execute (p : Player σ ℓ ς) (a : Active) (past : Past) :
    fstUpon past (p.execute a) = (p.upon past).execute a := by
  have hevents : (p.upon past).executedEvents a = p.executedEvents a := by
    unfold executedEvents pageBegun
    rw [noted_upon]
    rfl
  have hnotes : notesOf (p.executedEvents a) =
      notesOf ((p.upon past).pageBegun ((p.cursor.enter a.command).turnPage a.command)
        a.command) := by
    rw [← hevents]
    simp [executedEvents]
    rfl
  rw [execute_eq, execute_eq, hevents]
  refine Prod.ext ((upon_eq rfl ?_).trans ?_) rfl
  · unfold savedAt
    split <;> simp
  · rw [hnotes, pageBegun, map_noteAll_page]
    rfl

theorem upon_complete (p : Player σ ℓ ς) (a : Active) (picked? : Option Nat) (past : Past) :
    (p.complete a picked?).upon past = (p.upon past).complete a picked? := by
  have hevents : (p.upon past).doneEvents a picked? = p.doneEvents a picked? := by
    unfold doneEvents pageEnded
    rw [noted_upon]
    rfl
  have hnotes : notesOf (p.doneEvents a picked?) = notesOf ((p.upon past).pageEnded a.command) := by
    rw [← hevents]
    simp [doneEvents]
  rw [complete_eq, complete_eq, hevents]
  refine (upon_eq rfl ?_).trans ?_
  · split <;> simp
  · rw [hnotes, pageEnded, map_noteAll_page]
    rfl

/-! ## Ticks -/

variable [TableSource ς]

theorem upon_handle (requests : List Command.Request) (p : Player σ ℓ ς) (past : Past) :
    fstUpon past (handle requests p) = handle requests (p.upon past) := by
  induction requests generalizing p with
  | nil => rfl
  | cons request rest ih =>
    cases request with
    | jump label => exact Prod.ext (p.upon_jump label past) rfl
    | endScenario => exact Prod.ext (p.upon_finish _ past) rfl
    | stop | erase => exact Prod.ext (p.upon_finishIfUnderWay _ past) rfl
    | endSceneGallery =>
      unfold handle
      rw [ih, upon_endGalleryScene]

theorem upon_handleRequests (p : Player σ ℓ ς) (past : Past) :
    fstUpon past p.handleRequests = (p.upon past).handleRequests := upon_handle _ _ past

theorem upon_await (p : Player σ ℓ ς) (a : Active) (since : Nat) (past : Past) :
    fstUpon past (p.await a since) = (p.upon past).await a since := by
  refine (apply_ite (fstUpon past) _ _ _).trans (if_congr Iff.rfl ?_ rfl)
  rw [upon_handleRequests, upon_complete]
  rfl

theorem upon_advance (p : Player σ ℓ ς) (a : Active) (past : Past) :
    fstUpon past (p.advance a) = (p.upon past).advance a := by
  unfold advance
  cases a.phase with
  | waiting since => exact p.upon_await a since past
  | loading =>
    refine (apply_ite (fstUpon past) _ _ _).trans (if_congr Iff.rfl ?_ rfl)
    dsimp only
    rw [← upon_execute]
    dsimp only [fstUpon]
    rw [← upon_handleRequests]
    rcases (p.execute a).1.handleRequests with ⟨q, status⟩
    cases status with
    | some status => rfl
    | none => exact q.upon_await a _ past

theorem upon_turn (p : Player σ ℓ ς) (c : Command) (past : Past) :
    fstUpon past (p.turn c) = (p.upon past).turn c := by
  refine (apply_ite (fstUpon past) _ _ _).trans (if_congr Iff.rfl ?_ ?_)
  · exact Prod.ext (p.upon_skip c past) rfl
  · rw [upon_advance, ← upon_activate]
    rfl

theorem upon_playFrom (rest : List Command) (p : Player σ ℓ ς) (past : Past) :
    fstUpon past (playFrom rest p) = playFrom rest (p.upon past) := by
  induction rest generalizing p with
  | nil => exact Prod.ext (p.upon_finish _ past) rfl
  | cons c rest ih =>
    unfold playFrom
    rw [← upon_turn]
    rcases p.turn c with ⟨q, status⟩
    cases status with
    | some status => rfl
    | none => exact ih q

theorem upon_play (p : Player σ ℓ ς) (s : Scenario) (past : Past) :
    fstUpon past (p.play s) = (p.upon past).play s := by
  have hactive : (p.upon past).active? = p.active? := rfl
  unfold play
  rw [hactive]
  cases p.active? with
  | none => exact upon_playFrom _ p past
  | some a =>
    dsimp only
    rw [← upon_advance]
    rcases p.advance a with ⟨q, status⟩
    cases status with
    | some status => rfl
    | none => exact upon_playFrom _ q past

theorem upon_enter (p : Player σ ℓ ς) (label : String) (page : Int) (past : Past) :
    fstUpon past (p.enter label page) = (p.upon past).enter label page := by
  have hfetch : (p.upon past).corpus.fetch (p.upon past).source label =
      p.corpus.fetch p.source label := rfl
  unfold enter
  rw [hfetch]
  rcases p.corpus.fetch p.source label with ⟨corpus, scenario?⟩
  cases scenario? with
  | none => exact Prod.ext (upon_finish _ _ past) rfl
  | some s =>
    dsimp only
    rw [upon_play, upon_enterScenario]
    rfl

theorem upon_tick (p : Player σ ℓ ς) (past : Past) :
    fstUpon past p.tick = (p.upon past).tick := by
  have hstate : (p.upon past).state = p.state := rfl
  have hscenario : (p.upon past).scenario? = p.scenario? := rfl
  unfold tick
  rw [hstate, hscenario]
  cases p.state with
  | loading label page =>
    exact (apply_ite (fstUpon past) _ _ _).trans
      (if_congr Iff.rfl (p.upon_enter label page past) rfl)
  | running =>
    cases p.scenario? with
    | none => exact Prod.ext (p.upon_finish _ past) rfl
    | some s => exact p.upon_play s past
  | idle | ended => rfl

theorem upon_after (p : Player σ ℓ ς) (i : Input σ ℓ ς) (past : Past) :
    (p.after i).upon past = (p.upon past).after i := by
  cases i with
  | start => exact p.upon_start _ _ _ past
  | resume => exact p.upon_start _ _ _ past
  | jump => exact p.upon_jump _ past
  | stop | erase => exact p.upon_finishIfUnderWay _ past
  | tick => exact congrArg Prod.fst (p.upon_tick past)
  | _ => rfl

/-- A player plays on in the same way upon any past. -/
theorem upon_afterAll (p : Player σ ℓ ς) (inputs : List (Input σ ℓ ς)) (past : Past) :
    (p.afterAll inputs).upon past = (p.upon past).afterAll inputs := by
  induction inputs generalizing p with
  | nil => rfl
  | cons i inputs ih =>
    rw [afterAll_cons, afterAll_cons, ih, upon_after]

end Commands

end VisualNovel.Player
