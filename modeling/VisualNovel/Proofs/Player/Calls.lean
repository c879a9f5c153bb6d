import VisualNovel.Proofs.Player.Moves

/-
  A player with a record of what it calls, and of the answers to what it asks. Playing with a
  record is playing cut up at the calls: without the record the operations are those of the player
  itself (`player_afterAll`). The journal has the turns of the commands as they were called
  (`turns_afterAll`).
-/

namespace VisualNovel.Player

open Asset (Loader)
open Scenario (TableSource)
open Stage (EndReason)

/-- What is done to a command, and what it is asked. -/
inductive Step where
  | skipped
  | begun
  | loadPolled (complete : Bool)
  | windowMoved
  | executed
  | waitPolled (done : Bool)
  | released
  deriving DecidableEq

/-- What a player calls: the source for a label, a scenario that it enters at a place, and the
    command at a place. A run that it leaves is called no more. -/
inductive Call where
  | asked (label : String) (page : Int)
  | labelPolled (label : String) (loaded : Bool)
  | entered (s : Scenario) (cursor : Cursor)
  | command (index : Nat) (c : Command) (step : Step)
  | left

/-- A call of a command that has its turn. -/
def Active.call (a : Active) (step : Step) : Call := .command a.index a.command step

/-- Whether something was asked for that is not there, or not done. -/
def Call.isRefused : Call → Bool
  | labelPolled _ loaded => !loaded
  | command _ _ (.loadPolled complete) => !complete
  | command _ _ (.waitPolled done) => !done
  | _ => false

/-- A turn of the journal without what was found at it. -/
def Turn.bare : Turn → Turn
  | executed index _ => .executed index []
  | done index _ => .done index none
  | t => t

/-- The turn that a call is, in the journal. -/
def Call.turn? : Call → Option Turn
  | asked label page => some (.asked label page)
  | entered s cursor => some (.entered s cursor)
  | command index _ .skipped => some (.skipped index)
  | command index _ .begun => some (.begun index)
  | command index _ .executed => some (.executed index [])
  | command index _ (.waitPolled true) => some (.done index none)
  | command index _ .released => some (.released index)
  | _ => none

variable {σ ℓ ς : Type}

/-- What executing a command does behind the move of the window. -/
def present [Stage σ] [Loader ℓ] (p : Player σ ℓ ς) (a : Active) : Player σ ℓ ς × Nat :=
  let p := p.enterLabel a.command
  let since := Stage.now p.stage
  let (board, cues) := a.command.execute p.ledger.state p.board
  let turn : Turn := .executed a.index (p.usable a.command)
  let p := ({ p with board }.happened (.turn turn)).performAll cues
  let p := p.beginPage a.command
  ({ p with active? := some { a with phase := .waiting since } }, since)

/-- A player with the calls that it made. -/
structure Recorded (σ ℓ ς : Type) where
  player : Player σ ℓ ς
  calls : List Call

namespace Recorded

/-- A call, with what it changes. -/
def does (t : Recorded σ ℓ ς) (call : Call) (change : Player σ ℓ ς → Player σ ℓ ς) :
    Recorded σ ℓ ς := ⟨change t.player, t.calls ++ [call]⟩

/-- A change without a call. -/
def quietly (t : Recorded σ ℓ ς) (change : Player σ ℓ ς → Player σ ℓ ς) : Recorded σ ℓ ς :=
  ⟨change t.player, t.calls⟩

/-- Without the record. -/
def forget {α : Type} (r : Recorded σ ℓ ς × α) : Player σ ℓ ς × α := (r.1.player, r.2)

/-! ## Leaving a run and asking for one -/

section Leaving

variable [Loader ℓ]

/-- Gives back the assets of a command. -/
def release (t : Recorded σ ℓ ς) (a : Active) : Recorded σ ℓ ς :=
  t.does (a.call .released) (·.release a)

/-- Leaves a run, wherever it is. -/
def teardown (t : Recorded σ ℓ ς) : Recorded σ ℓ ς :=
  let t := (t.player.active?.map t.release).getD t
  t.does .left fun p =>
    let p := p.clearWindow
    { p with board := p.board.clear, scenario? := none }

/-- Ends a run. -/
def finish [Stage σ] (t : Recorded σ ℓ ς) (reason : EndReason) : Recorded σ ℓ ς :=
  t.teardown.quietly fun p =>
    { p with gallery? := none, state := .ended reason }.perform (.finished reason)

/-- Ends a run that is under way. -/
def finishIfUnderWay [Stage σ] (t : Recorded σ ℓ ς) (reason : EndReason) : Recorded σ ℓ ς :=
  if t.player.state.isUnderWay then t.finish reason else t

theorem player_teardown (t : Recorded σ ℓ ς) : t.teardown.player = t.player.teardown := by
  unfold teardown Player.teardown
  cases t.player.active? <;> rfl

theorem player_finish [Stage σ] (t : Recorded σ ℓ ς) (reason : EndReason) :
    (t.finish reason).player = t.player.finish reason := by
  unfold finish Player.finish
  rw [← player_teardown]
  rfl

theorem player_finishIfUnderWay [Stage σ] (t : Recorded σ ℓ ς) (reason : EndReason) :
    (t.finishIfUnderWay reason).player = t.player.finishIfUnderWay reason := by
  unfold finishIfUnderWay Player.finishIfUnderWay
  split
  · exact t.player_finish reason
  · rfl

variable [TableSource ς]

/-- Leaves the run under way, if there is one, and asks for the table of a label. -/
def begin (t : Recorded σ ℓ ς) (label : String) (page : Int) (gallery? : Option String) :
    Recorded σ ℓ ς :=
  t.teardown.does (.asked label page) fun p =>
    { p with
      gallery?
      source := TableSource.request p.source label
      state := .loading label page }.happened (.turn (.asked label page))

/-- Starts a run at a page of a label. -/
def start (t : Recorded σ ℓ ς) (label : String) (page : Int) (gallery? : Option String) :
    Recorded σ ℓ ς :=
  let label := bareLabel label
  t.begin label page
    (gallery?.orElse fun _ => if t.player.isGalleryLabel label then some label else none)

/-- Leaves the page for a label. -/
def jump (t : Recorded σ ℓ ς) (label : String) : Recorded σ ℓ ς :=
  let t := t.quietly notePageLeft
  let label := bareLabel label
  t.begin label 0 (if t.player.isGalleryLabel label then some label else t.player.gallery?)

theorem player_begin (t : Recorded σ ℓ ς) (label : String) (page : Int)
    (gallery? : Option String) :
    (t.begin label page gallery?).player = t.player.begin label page gallery? := by
  unfold begin Player.begin
  rw [← player_teardown]
  rfl

theorem player_start (t : Recorded σ ℓ ς) (label : String) (page : Int)
    (gallery? : Option String) :
    (t.start label page gallery?).player = t.player.start label page gallery? :=
  t.player_begin _ _ _

theorem player_jump (t : Recorded σ ℓ ς) (label : String) :
    (t.jump label).player = t.player.jump label := player_begin _ _ _ _

end Leaving

/-! ## Commands -/

section Commands

variable [Stage σ] [Loader ℓ] [TableSource ς]

/-- Does what is requested, up to the first request that ends the run. -/
def handle : List Command.Request → Recorded σ ℓ ς → Recorded σ ℓ ς × Option Status
  | [], t => (t, none)
  | .jump label :: _, t => (t.jump label, some (.suspended .labelLoad))
  | .endScenario :: _, t => (t.finish .completed, some .halted)
  | .stop :: _, t => (t.finishIfUnderWay .stopped, some .halted)
  | .erase :: _, t => (t.finishIfUnderWay .erased, some .halted)
  | .endSceneGallery :: rest, t => handle rest (t.quietly endGalleryScene)

/-- Does what the commands requested. -/
def handleRequests (t : Recorded σ ℓ ς) : Recorded σ ℓ ς × Option Status :=
  handle t.player.board.requests (t.quietly settle)

/-- Executes the active command behind a move of the window. -/
def execute (t : Recorded σ ℓ ς) (a : Active) : Recorded σ ℓ ς × Nat :=
  let t := t.does (a.call .windowMoved) (·.moveWindow a.index)
  (t.does (a.call .executed) fun p => (p.present a).1, (t.player.present a).2)

/-- Leaves the active command, which is done. -/
def complete (t : Recorded σ ℓ ς) (a : Active) (picked? : Option Nat) : Recorded σ ℓ ς :=
  let t := t.quietly fun p => (p.happened (.turn (.done a.index picked?))).endPage a.command
  (t.release a).quietly fun p => { p with cursor := { p.cursor with index := a.index + 1 } }

/-- Asks whether the active command is done, and goes on behind it if it is. -/
def await (t : Recorded σ ℓ ς) (a : Active) (since : Nat) : Recorded σ ℓ ς × Option Status :=
  let progress := Stage.progress t.player.stage since
  let picked? := a.command.pick? progress t.player.board
  let (board, done) := a.command.await progress t.player.board
  let t := t.does (a.call (.waitPolled done)) fun p => { p with board }
  if done then (t.complete a picked?).handleRequests
  else (t, some (.suspended .commandWait))

/-- Goes on with the active command as far as it gets. -/
def advance (t : Recorded σ ℓ ς) (a : Active) : Recorded σ ℓ ς × Option Status :=
  match a.phase with
  | .waiting since => t.await a since
  | .loading =>
    let complete := t.player.isLoadComplete a.command
    let t := t.does (a.call (.loadPolled complete)) id
    if complete then
      let (t, since) := t.execute a
      match t.handleRequests with
      | (t, some status) => (t, some status)
      | (t, none) => t.await a since
    else (t, some (.suspended .resourceLoad))

/-- The turn of the command at the cursor. -/
def turn (t : Recorded σ ℓ ς) (c : Command) : Recorded σ ℓ ς × Option Status :=
  if t.player.board.ifStack.skips c.isConditional then
    (t.does (.command t.player.cursor.index c .skipped) (·.skip c), none)
  else
    let a := (t.player.activate c).2
    (t.does (a.call .begun) fun p => (p.activate c).1).advance a

/-- Plays the commands from the cursor on, which are given. -/
def playFrom : List Command → Recorded σ ℓ ς → Recorded σ ℓ ς × Status
  | [], t => (t.finish .completed, .halted)
  | c :: rest, t =>
    match t.turn c with
    | (t, some status) => (t, status)
    | (t, none) => playFrom rest t

/-- Plays a scenario on. -/
def play (t : Recorded σ ℓ ς) (s : Scenario) : Recorded σ ℓ ς × Status :=
  match t.player.active? with
  | none => playFrom (s.commands.drop t.player.cursor.index) t
  | some a =>
    match t.advance a with
    | (t, some status) => (t, status)
    | (t, none) => playFrom (s.commands.drop t.player.cursor.index) t

/-- Enters a run, whose table is there. -/
def enter (t : Recorded σ ℓ ς) (label : String) (page : Int) : Recorded σ ℓ ς × Status :=
  let (corpus, scenario?) := t.player.corpus.fetch t.player.source label
  let t := t.quietly fun p => { p with corpus }
  match scenario? with
  | none => (t.finish .completed, .halted)
  | some s =>
    (t.does (.entered s (entry s label page)) (·.enterScenario s label page)).play s

/-- Plays until something has to be waited for, or nothing is left. -/
def tick (t : Recorded σ ℓ ς) : Recorded σ ℓ ς × Status :=
  match t.player.state with
  | .loading label page =>
    let loaded := TableSource.isLoaded t.player.source label
    let t := t.does (.labelPolled label loaded) id
    if loaded then t.enter label page else (t, .suspended .labelLoad)
  | .running =>
    match t.player.scenario? with
    | none => (t.finish .completed, .halted)
    | some s => t.play s
  | _ => (t, .halted)

/-- The player after an input. -/
def after (t : Recorded σ ℓ ς) : Input σ ℓ ς → Recorded σ ℓ ς
  | .start label page gallery? => t.start label page gallery?
  | .resume point => t.start point.label point.page none
  | .jump label => t.jump label
  | .stop => t.finishIfUnderWay .stopped
  | .erase => t.finishIfUnderWay .erased
  | .tick => t.tick.1
  | i => t.quietly (·.after i)

/-- The player after inputs in order. -/
def afterAll (t : Recorded σ ℓ ς) (inputs : List (Input σ ℓ ς)) : Recorded σ ℓ ς :=
  inputs.foldl after t

/-! ## Without the record -/

theorem forget_handle (requests : List Command.Request) (t : Recorded σ ℓ ς) :
    forget (handle requests t) = Player.handle requests t.player := by
  induction requests generalizing t with
  | nil => rfl
  | cons request rest ih =>
    cases request with
    | jump label => exact Prod.ext (t.player_jump label) rfl
    | endScenario => exact Prod.ext (t.player_finish _) rfl
    | stop | erase => exact Prod.ext (t.player_finishIfUnderWay _) rfl
    | endSceneGallery => exact ih _

theorem forget_handleRequests (t : Recorded σ ℓ ς) :
    forget t.handleRequests = t.player.handleRequests := forget_handle _ _

theorem forget_await (t : Recorded σ ℓ ς) (a : Active) (since : Nat) :
    forget (t.await a since) = t.player.await a since := by
  unfold await Player.await
  dsimp only
  split
  · exact forget_handleRequests _
  · rfl

theorem forget_advance (t : Recorded σ ℓ ς) (a : Active) :
    forget (t.advance a) = t.player.advance a := by
  unfold advance Player.advance
  cases a.phase with
  | waiting since => exact t.forget_await a since
  | loading =>
    dsimp only
    split
    · generalize hu : t.does (a.call (.loadPolled (t.player.isLoadComplete a.command))) id = u
      have hplayer : u.player = t.player := by rw [← hu]; rfl
      have hhandle := forget_handleRequests (u.execute a).1
      have hexecute : (u.execute a).1.player = (u.player.execute a).1 := rfl
      have hsince : (u.execute a).2 = (u.player.execute a).2 := rfl
      rw [← hplayer, ← hexecute, ← hsince, ← hhandle]
      rcases (u.execute a).1.handleRequests with ⟨v, status⟩
      cases status with
      | some status => rfl
      | none => exact v.forget_await a _
    · rfl

theorem forget_turn (t : Recorded σ ℓ ς) (c : Command) :
    forget (t.turn c) = t.player.turn c := by
  unfold turn Player.turn
  split
  · rfl
  · exact forget_advance _ _

theorem forget_playFrom (rest : List Command) (t : Recorded σ ℓ ς) :
    forget (playFrom rest t) = Player.playFrom rest t.player := by
  induction rest generalizing t with
  | nil => exact Prod.ext (t.player_finish _) rfl
  | cons c rest ih =>
    unfold playFrom Player.playFrom
    rw [← forget_turn]
    rcases t.turn c with ⟨u, status⟩
    cases status with
    | some status => rfl
    | none => exact ih u

theorem forget_play (t : Recorded σ ℓ ς) (s : Scenario) :
    forget (t.play s) = t.player.play s := by
  unfold play Player.play
  cases t.player.active? with
  | none => exact forget_playFrom _ _
  | some a =>
    dsimp only
    rw [← forget_advance]
    rcases t.advance a with ⟨u, status⟩
    cases status with
    | some status => rfl
    | none => exact forget_playFrom _ _

theorem forget_enter (t : Recorded σ ℓ ς) (label : String) (page : Int) :
    forget (t.enter label page) = t.player.enter label page := by
  unfold enter Player.enter
  rcases t.player.corpus.fetch t.player.source label with ⟨corpus, scenario?⟩
  cases scenario? with
  | none => exact Prod.ext (player_finish _ _) rfl
  | some s => exact forget_play _ _

theorem forget_tick (t : Recorded σ ℓ ς) : forget t.tick = t.player.tick := by
  unfold tick Player.tick
  cases t.player.state with
  | loading label page =>
    dsimp only
    split
    · exact forget_enter _ _ _
    · rfl
  | running =>
    cases t.player.scenario? with
    | none => exact Prod.ext (t.player_finish _) rfl
    | some s => exact forget_play _ _
  | idle | ended => rfl

theorem player_after (t : Recorded σ ℓ ς) (i : Input σ ℓ ς) :
    (t.after i).player = t.player.after i := by
  cases i with
  | start => exact t.player_start _ _ _
  | resume => exact t.player_start _ _ _
  | jump => exact t.player_jump _
  | stop | erase => exact t.player_finishIfUnderWay _
  | tick => exact congrArg Prod.fst t.forget_tick
  | _ => rfl

/-- A player with a record plays as it does without. -/
theorem player_afterAll (t : Recorded σ ℓ ς) (inputs : List (Input σ ℓ ς)) :
    (t.afterAll inputs).player = t.player.afterAll inputs := by
  induction inputs generalizing t with
  | nil => rfl
  | cons i inputs ih =>
    have hrest := ih (t.after i)
    rw [player_after] at hrest
    exact hrest

end Commands

/-! ## In step with the journal -/

/-- The turns that a call takes, with the call, in the journal. -/
def turnsOfCalls (calls : List Call) : List Turn := calls.filterMap Call.turn?

/-- The calls are those of the turns in the journal. -/
def Tied (t : Recorded σ ℓ ς) : Prop :=
  turnsOfCalls t.calls = (turnsOf t.player.events).map Turn.bare

theorem Tied.grow {t u : Recorded σ ℓ ς} (h : Tied t) (calls : List Call) (es : List Event)
    (hcalls : u.calls = t.calls ++ calls) (hes : u.player.journal = t.player.journal ++ es)
    (hsame : turnsOfCalls calls = (turnsOf es).map Turn.bare) : Tied u := by
  unfold Tied turnsOfCalls at *
  rw [hcalls, events_append hes, List.filterMap_append, turnsOf_append, List.map_append, h, hsame]

/-- What is neither a call nor a turn does not matter. -/
theorem Tied.quietly {t : Recorded σ ℓ ς} (h : Tied t) {change : Player σ ℓ ς → Player σ ℓ ς}
    (es : List Event) (hes : (change t.player).journal = t.player.journal ++ es)
    (hturns : turnsOf es = []) : Tied (t.quietly change) :=
  h.grow [] es (List.append_nil _).symm hes (by rw [hturns]; rfl)

section

variable [Loader ℓ]

theorem calls_teardown (t : Recorded σ ℓ ς) :
    t.teardown.calls =
      t.calls ++ ((t.player.active?.map fun a => a.call .released).toList ++ [.left]) := by
  unfold teardown
  cases t.player.active? with
  | none => rfl
  | some a => exact List.append_assoc _ _ _

/-- Leaving a run is the release of its command. -/
theorem turnsOfCalls_teardown (active? : Option Active) (rest : List Call) :
    turnsOfCalls ((active?.map fun a => a.call .released).toList ++ .left :: rest) =
      (active?.map fun a => Turn.released a.index).toList ++ turnsOfCalls rest := by
  cases active? <;> rfl

theorem bare_givenBack (p : Player σ ℓ ς) :
    (turnsOf p.givenBack.2).map Turn.bare =
      (p.active?.map fun a => Turn.released a.index).toList := by
  rw [turnsOf_givenBack]
  cases p.active? <;> rfl

variable {t : Recorded σ ℓ ς}

theorem Tied.finish [Stage σ] (h : Tied t) (reason : EndReason) : Tied (t.finish reason) := by
  refine h.grow _ (t.player.givenBack.2 ++ [.cue (.finished reason)]) t.calls_teardown ?_ ?_
  · rw [player_finish, finish_eq]
  · rw [turnsOfCalls_teardown, turnsOf_append, List.map_append, bare_givenBack]
    rfl

theorem Tied.finishIfUnderWay [Stage σ] (h : Tied t) (reason : EndReason) :
    Tied (t.finishIfUnderWay reason) := by
  unfold Recorded.finishIfUnderWay
  split
  · exact h.finish reason
  · exact h

variable [TableSource ς]

theorem Tied.begin (h : Tied t) (label : String) (page : Int) (gallery? : Option String) :
    Tied (t.begin label page gallery?) := by
  refine h.grow ((t.player.active?.map fun a => a.call .released).toList ++
    [.left, .asked label page]) (t.player.givenBack.2 ++ [.turn (.asked label page)]) ?_ ?_ ?_
  · change t.teardown.calls ++ [_] = _
    rw [calls_teardown]
    simp
  · rw [player_begin, begin_eq]
  · rw [turnsOfCalls_teardown, turnsOf_append, List.map_append, bare_givenBack]
    rfl

theorem Tied.jump (h : Tied t) (label : String) : Tied (t.jump label) := by
  obtain ⟨history?, es, -, -, hturns, -, heq⟩ := t.player.notePageLeft_eq
  refine Tied.begin (h.quietly es ?_ hturns) _ _ _
  rw [heq]

variable [Stage σ]

theorem Tied.handle (h : Tied t) (requests : List Command.Request) :
    Tied (handle requests t).1 := by
  induction requests generalizing t with
  | nil => exact h
  | cons request rest ih =>
    cases request with
    | jump label => exact h.jump label
    | endScenario => exact h.finish _
    | stop | erase => exact h.finishIfUnderWay _
    | endSceneGallery =>
      obtain ⟨history?, es, -, -, hturns, -, heq⟩ := t.player.endGalleryScene_eq
      exact ih (h.quietly es (by rw [heq]) hturns)

theorem Tied.handleRequests (h : Tied t) : Tied t.handleRequests.1 :=
  (h.quietly [] (by simp [settle]) rfl).handle _

theorem Tied.await (h : Tied t) (a : Active) (since : Nat) : Tied (t.await a since).1 := by
  unfold Recorded.await
  dsimp only
  split
  · rename_i hdone
    refine Tied.handleRequests (h.grow [a.call (.waitPolled true), a.call .released]
      (t.player.doneEvents a
        (a.command.pick? (Stage.progress t.player.stage since) t.player.board)) ?_ ?_ ?_)
    · rw [← hdone]
      exact List.append_assoc _ [_] [_]
    · exact congrArg journal (complete_eq _ a _)
    · rw [turnsOf_doneEvents]
      rfl
  · rename_i hdone
    refine h.grow [_] [] rfl (by simp [does]) ?_
    rw [Bool.eq_false_iff.mpr hdone]
    rfl

theorem Tied.advance (h : Tied t) (a : Active) : Tied (t.advance a).1 := by
  unfold Recorded.advance
  cases a.phase with
  | waiting since => exact h.await a since
  | loading =>
    dsimp only
    have hpolled : Tied (t.does (a.call (.loadPolled (t.player.isLoadComplete a.command))) id) :=
      h.grow [_] [] rfl (by simp [does]) rfl
    split
    · have hexecuted := Tied.handleRequests (hpolled.grow (u := (Recorded.execute _ a).1)
        [a.call .windowMoved, a.call .executed] (t.player.executedEvents a)
        (List.append_assoc _ [_] [_]) (congrArg (journal ·.1) (t.player.execute_eq a))
        (by rw [turnsOf_executedEvents]; rfl))
      split
      · rename_i hhandled
        rw [hhandled] at hexecuted
        exact hexecuted
      · rename_i hhandled
        rw [hhandled] at hexecuted
        exact hexecuted.await a _
    · exact hpolled

theorem Tied.turn (h : Tied t) (c : Command) : Tied (t.turn c).1 := by
  unfold Recorded.turn
  split
  · exact h.grow [_] [.turn (.skipped t.player.cursor.index)] rfl
      (congrArg journal (skip_eq _ c)) rfl
  · have hbegun := h.grow [(t.player.activate c).2.call .begun] _
      (u := t.does _ fun p => (p.activate c).1) rfl
      (congrArg (journal ·.1) (t.player.activate_eq c)) (by simp [turnsOfCalls, Turn.bare]; rfl)
    exact hbegun.advance _

theorem Tied.playFrom (rest : List Command) {t : Recorded σ ℓ ς} (h : Tied t) :
    Tied (playFrom rest t).1 := by
  induction rest generalizing t with
  | nil => exact h.finish _
  | cons c rest ih =>
    have hturn := h.turn c
    unfold Recorded.playFrom
    split
    · rename_i hstep
      rw [hstep] at hturn
      exact hturn
    · rename_i hstep
      rw [hstep] at hturn
      exact ih hturn

theorem Tied.play (h : Tied t) (s : Scenario) : Tied (t.play s).1 := by
  unfold Recorded.play
  cases t.player.active? with
  | none => exact h.playFrom _
  | some a =>
    have hadvanced := h.advance a
    dsimp only
    split
    · rename_i hstep
      rw [hstep] at hadvanced
      exact hadvanced
    · rename_i hstep
      rw [hstep] at hadvanced
      exact hadvanced.playFrom _

theorem Tied.enter (h : Tied t) (label : String) (page : Int) : Tied (t.enter label page).1 := by
  unfold Recorded.enter
  rcases t.player.corpus.fetch t.player.source label with ⟨corpus, scenario?⟩
  have hfetched : Tied (t.quietly fun p => { p with corpus }) :=
    h.quietly [] (by simp) rfl
  cases scenario? with
  | none => exact hfetched.finish _
  | some s =>
    refine Tied.play (hfetched.grow [.entered s (entry s label page)]
      [.turn (.entered s (entry s label page))] rfl ?_ rfl) s
    exact congrArg journal (enterScenario_eq _ s label page)

theorem Tied.tick (h : Tied t) : Tied t.tick.1 := by
  unfold Recorded.tick
  cases t.player.state with
  | loading label page =>
    have hpolled (loaded : Bool) : Tied (t.does (.labelPolled label loaded) id) :=
      h.grow [_] [] rfl (by simp [does]) rfl
    dsimp only
    split
    · exact (hpolled _).enter label page
    · exact hpolled _
  | running =>
    cases t.player.scenario? with
    | none => exact h.finish _
    | some s => exact h.play s
  | idle | ended => exact h

theorem Tied.after (h : Tied t) (i : Input σ ℓ ς) : Tied (t.after i) := by
  cases i with
  | start label page gallery? => exact h.begin _ _ _
  | resume point => exact h.begin _ _ _
  | jump label => exact h.jump label
  | stop | erase => exact h.finishIfUnderWay _
  | tick => exact h.tick
  | _ => exact h.quietly [] (by simp [Player.after]) rfl

/-- Whatever comes to a player, the calls that it makes and the turns in its journal are the
    same. -/
theorem turns_afterAll (stage : σ) (loader : ℓ) (source : ς) (corpus : Scenario.Corpus) (cap : Nat)
    (params : Expression.Params) (galleryLabels : List String)
    (history? : Option History.ReadHistory) (inputs : List (Input σ ℓ ς)) :
    let p := ready stage loader source corpus cap params galleryLabels history?
    turnsOfCalls (Recorded.afterAll ⟨p, []⟩ inputs).calls =
      (turnsOf (p.afterAll inputs).events).map Turn.bare := by
  intro p
  have htied : ∀ t : Recorded σ ℓ ς, Tied t → Tied (t.afterAll inputs) := by
    induction inputs with
    | nil => exact fun t h => h
    | cons i inputs ih => exact fun t h => ih (t.after i) (h.after i)
  rw [← player_afterAll ⟨p, []⟩ inputs]
  exact htied ⟨p, []⟩ rfl

end

end Recorded

end VisualNovel.Player
