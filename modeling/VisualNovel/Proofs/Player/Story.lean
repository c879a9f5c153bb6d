import VisualNovel.Proofs.Player.Moves

/-
  A run as a story that is told once its answers are known. A run learns two things from outside:
  which assets of a command can be used when it is executed, and what was picked of its menu when
  it is done. `tell` gives the rest of a run as a function of these answers, without a stage, a
  loader or a clock: the commands that are passed over and executed, and the cues. A tick tells
  what `tell` foretells (`tick_tells`): in whatever way the waiting is spread over ticks, the
  story of a run is that of its answers.
-/

namespace VisualNovel.Player

open Asset (Handle LoadState Loader)
open Command (Action Board Request)
open Scenario (TableSource)
open Stage (EndReason)

variable {σ ℓ ς : Type}

/-! ## Answers -/

/-- What a run learns from outside. -/
inductive Answer where
  | usable (flags : List Bool)
  | picked (choice? : Option Nat)
  deriving DecidableEq

/-- What a run learns with a turn. -/
def Turn.answer? : Turn → Option Answer
  | executed _ flags => some (.usable flags)
  | done _ picked? => some (.picked picked?)
  | _ => none

/-- The answers among events. -/
def answersOf (es : List Event) : List Answer := (turnsOf es).filterMap Turn.answer?

@[simp] theorem answersOf_append (es fs : List Event) :
    answersOf (es ++ fs) = answersOf es ++ answersOf fs := by
  simp [answersOf]

theorem answersOf_of_turnsOf {es : List Event} (h : turnsOf es = []) : answersOf es = [] := by
  rw [answersOf, h]
  rfl

/-- How far assets are loaded as flags tell it. -/
def verdicts (hs : List Handle) (flags : List Bool) (h : Handle) : LoadState :=
  if ((hs.zip flags).lookup h).getD false then .loaded else .pending

theorem isLoaded_verdicts (state : Handle → LoadState) {hs : List Handle} {h : Handle}
    (hmem : h ∈ hs) :
    (verdicts hs (hs.map fun h => (state h).isLoaded) h).isLoaded = (state h).isLoaded := by
  have hlookup : (hs.zip (hs.map fun h => (state h).isLoaded)).lookup h =
      some (state h).isLoaded := by
    induction hs with
    | nil => cases hmem
    | cons k hs ih =>
      rw [List.map_cons, List.zip_cons_cons, List.lookup_cons]
      by_cases hk : h = k
      · simp [hk]
      · have hb : (h == k) = false := by simpa using hk
        rw [hb]
        exact ih ((List.mem_cons.mp hmem).resolve_left hk)
  unfold verdicts
  rw [hlookup]
  cases (state h).isLoaded <;> rfl

/-- The same of some assets can be used. -/
def Agree (hs : List Handle) (state state' : Handle → LoadState) : Prop :=
  ∀ h ∈ hs, (state h).isLoaded = (state' h).isLoaded

theorem usable?_congr {hs : List Handle} {state state' : Handle → LoadState}
    (h : Agree hs state state') {k : Handle} (hk : k ∈ hs) :
    Command.usable? state k = Command.usable? state' k := by
  unfold Command.usable?
  rw [h k hk]

theorem bind_usable?_congr {state state' : Handle → LoadState} (handle? : Option Handle)
    (h : Agree handle?.toList state state') :
    handle?.bind (Command.usable? state) = handle?.bind (Command.usable? state') := by
  cases handle? with
  | none => rfl
  | some k => exact usable?_congr h (by simp)

theorem lineCue_congr {state state' : Handle → LoadState} (line? : Option Command.Line)
    (speaker? : Option String) (h : Agree (Action.lineResources line?) state state') :
    line?.map (Command.Line.cue state speaker?) = line?.map (Command.Line.cue state' speaker?) := by
  cases line? with
  | none => rfl
  | some l =>
    have hvoice := bind_usable?_congr l.voice? h
    simp only [Option.map_some, Command.Line.cue, hvoice]

/-- The cues of an action depend on no more than which of its assets can be used. -/
theorem cues_congr {state state' : Handle → LoadState} (a : Action) (b : Board)
    (h : Agree a.resources state state') : a.cues state b = a.cues state' b := by
  cases a with
  | text line? =>
    simp only [Action.cues]
    rw [lineCue_congr line? none h]
  | character a =>
    have htexture := bind_usable?_congr a.texture? fun k hk =>
      h k (List.mem_append_left _ hk)
    have hline := lineCue_congr a.line? (some a.displayName) fun k hk =>
      h k (List.mem_append_right _ hk)
    simp only [Action.cues, Command.Appearance.cues, htexture, hline]
  | layer kind name texture seconds =>
    simp only [Action.cues, usable?_congr h List.mem_cons_self]
  | sound track clip looping seconds =>
    simp only [Action.cues, usable?_congr h List.mem_cons_self]
  | _ => rfl

/-! ## The story -/

/-- What is told at the end of a run if one of its requests closes it. -/
def closing : List Request → Option (List Event)
  | [] => none
  | .jump _ :: _ => some []
  | .endScenario :: _ => some [.cue (.finished .completed)]
  | .stop :: _ => some [.cue (.finished .stopped)]
  | .erase :: _ => some [.cue (.finished .erased)]
  | .endSceneGallery :: rest => closing rest

/-- The cursor at another place. -/
def Cursor.moveTo (cur : Cursor) (index : Nat) : Cursor := { cur with index }

/-- The board after a command is done: a menu is gone, with what was picked of it. -/
def boardPicked (c : Command) (picked? : Option Nat) (b : Board) : Board :=
  match c.action with
  | .menu => ((picked?.bind fun i => b.choices[i]?).map b.pick).getD { b with choices := [] }
  | _ => b

/-- A run from where a command waits until it is done; `next` tells what follows. -/
def tellDone (next : Board → Cursor → List Answer → List Event) (c : Command) (b : Board)
    (cur : Cursor) : List Answer → List Event
  | .picked picked? :: answers =>
    let b := boardPicked c picked? b
    (if c.beginsPage then [.cue (.pageEnd cur.label cur.page)] else []) ++
      (closing b.requests).getD (next b.settle (cur.moveTo (cur.index + 1)) answers)
  | _ => []

/-- What is told of a command that is executed when the cursor is on its page. -/
def tellExecuted (c : Command) (flags : List Bool) (b : Board) (cur : Cursor) : List Event :=
  .turn (.executed cur.index flags) :: ((c.action.cues (verdicts c.resources flags) b).map .cue ++
    if c.beginsPage then [.cue (.pageBegin cur.label cur.page)] else [])

/-- A run from where a command waits for its assets; `next` tells what follows. -/
def tellLoaded (next : Board → Cursor → List Answer → List Event) (c : Command) (b : Board)
    (cur : Cursor) : List Answer → List Event
  | .usable flags :: answers =>
    let cur := (cur.enter c).turnPage c
    let after := c.action.change b
    tellExecuted c flags b cur ++
      (closing after.requests).getD (tellDone next c after.settle cur answers)
  | _ => []

/-- The rest of a run, given the commands from the cursor on. It ends where the answers do. -/
def tell : List Command → Board → Cursor → List Answer → List Event
  | [], _, _, _ => [.cue (.finished .completed)]
  | c :: rest, b, cur, answers =>
    if b.ifStack.skips c.isConditional then
      .turn (.skipped cur.index) :: tell rest b ((cur.turnPage c).moveTo (cur.index + 1)) answers
    else tellLoaded (tell rest) c b cur answers

/-- The rest of the run that a player is in. -/
def tale (p : Player σ ℓ ς) (answers : List Answer) : List Event :=
  match p.state, p.scenario?, p.active? with
  | .running, some s, none => tell (s.commands.drop p.cursor.index) p.board p.cursor answers
  | .running, some s, some ⟨i, c, .loading⟩ =>
    tellLoaded (tell (s.commands.drop (i + 1))) c p.board (p.cursor.moveTo i) answers
  | .running, some s, some ⟨i, c, .waiting _⟩ =>
    tellDone (tell (s.commands.drop (i + 1))) c p.board (p.cursor.moveTo i) answers
  | _, _, _ => []

theorem moveTo_turnPage (cur : Cursor) (c : Command) (i : Nat) :
    (cur.turnPage c).moveTo i = (cur.moveTo i).turnPage c := by
  unfold Cursor.turnPage
  split <;> rfl

theorem moveTo_enter (cur : Cursor) (c : Command) (i : Nat) :
    (cur.enter c).moveTo i = (cur.moveTo i).enter c := by
  unfold Cursor.enter
  split <;> rfl

theorem tale_stands {p : Player σ ℓ ς} {s : Scenario} (hp : p.Stands s) (answers : List Answer) :
    p.tale answers = tell (s.commands.drop p.cursor.index) p.board p.cursor answers := by
  unfold tale
  rw [hp.state, hp.scenario, hp.idle]

theorem tale_loading {p : Player σ ℓ ς} {s : Scenario} {a : Active} (hp : p.Plays s a)
    (hphase : a.phase = .loading) (answers : List Answer) :
    p.tale answers =
      tellLoaded (tell (s.commands.drop (a.index + 1))) a.command p.board
        (p.cursor.moveTo a.index) answers := by
  obtain ⟨i, c, phase⟩ := a
  cases hphase
  unfold tale
  rw [hp.state, hp.scenario, hp.active]

theorem tale_waiting {p : Player σ ℓ ς} {s : Scenario} {a : Active} {since : Nat}
    (hp : p.Plays s a) (hphase : a.phase = .waiting since) (answers : List Answer) :
    p.tale answers =
      tellDone (tell (s.commands.drop (a.index + 1))) a.command p.board
        (p.cursor.moveTo a.index) answers := by
  obtain ⟨i, c, phase⟩ := a
  cases hphase
  unfold tale
  rw [hp.state, hp.scenario, hp.active]

/-- What a command's requests leave as it is when the run goes on leaves its story as it is. -/
theorem tale_goesOn {p q : Player σ ℓ ς} (h : GoesOn p q) : q.tale = p.tale := by
  funext answers
  unfold tale
  rw [h.state, h.scenario, h.active, h.cursor, h.board]

/-! ## Telling -/

/-- No run is asked for in events. -/
def Unasked (es : List Event) : Prop := ∀ label page, .asked label page ∉ turnsOf es

theorem unasked_of_turnsOf {es : List Event} (h : turnsOf es = []) : Unasked es := by
  intro label page hmem
  rw [h] at hmem
  cases hmem

theorem Unasked.append {es fs : List Event} (hes : Unasked es) (hfs : Unasked fs) :
    Unasked (es ++ fs) := by
  intro label page hmem
  rw [turnsOf_append] at hmem
  exact (List.mem_append.mp hmem).elim (hes label page) (hfs label page)

/-- A player goes on in its run and tells what its story foretells. -/
def Tells (p q : Player σ ℓ ς) : Prop :=
  ∃ es, q.events = p.events ++ es ∧ Unasked es ∧
    ∀ answers, p.tale (answersOf es ++ answers) = toldOf es ++ q.tale answers

/-- A player comes to the end of its run and has told what its story foretells. It is at the end
    of playing, or the last it did was to ask for another run. -/
def Closes (p q : Player σ ℓ ς) : Prop :=
  ∃ es more, q.events = p.events ++ (es ++ more) ∧ Unasked es ∧
    (∀ answers, p.tale (answersOf es ++ answers) = toldOf es) ∧
    (q.state.isEnded = true ∧ more = [] ∨ ∃ label page, more = [.turn (.asked label page)])

theorem tells_refl (p : Player σ ℓ ς) : Tells p p :=
  ⟨[], by simp, unasked_of_turnsOf rfl, fun _ => rfl⟩

theorem Tells.trans {p q r : Player σ ℓ ς} (hpq : Tells p q) (hqr : Tells q r) : Tells p r := by
  obtain ⟨es, hes, hasked, htale⟩ := hpq
  obtain ⟨fs, hfs, hasked', htale'⟩ := hqr
  refine ⟨es ++ fs, by rw [hfs, hes, List.append_assoc], hasked.append hasked', ?_⟩
  intro answers
  rw [answersOf_append, List.append_assoc, htale, htale', toldOf_append, List.append_assoc]

theorem Tells.closes {p q r : Player σ ℓ ς} (hpq : Tells p q) (hqr : Closes q r) :
    Closes p r := by
  obtain ⟨es, hes, hasked, htale⟩ := hpq
  obtain ⟨fs, more, hfs, hasked', htale', hmore⟩ := hqr
  refine ⟨es ++ fs, more, ?_, hasked.append hasked', ?_, hmore⟩
  · rw [hfs, hes, List.append_assoc, List.append_assoc]
  · intro answers
    rw [answersOf_append, List.append_assoc, htale, htale', toldOf_append]

/-! ## Requests -/

variable [Loader ℓ] [Stage σ] [TableSource ς]

/-- Requests that let the run go on make notes at most. -/
theorem handle_notes {requests : List Request} {p r : Player σ ℓ ς}
    (hr : handle requests p = (r, none)) :
    closing requests = none ∧
      ∃ es, r.events = p.events ++ es ∧ turnsOf es = [] ∧ cuesOf es = [] := by
  induction requests generalizing p with
  | nil =>
    obtain ⟨rfl, -⟩ := Prod.mk.inj hr
    exact ⟨rfl, [], (List.append_nil _).symm, rfl, rfl⟩
  | cons request rest ih =>
    cases request with
    | endSceneGallery =>
      obtain ⟨hnone, fs, hfs, hturns', hcues'⟩ := ih hr
      obtain ⟨history?, es, -, -, hturns, hcues, heq⟩ := p.endGalleryScene_eq
      have hes : p.endGalleryScene.events = p.events ++ es := by
        rw [heq]
        exact events_append rfl
      refine ⟨hnone, es ++ fs, ?_, by simp [hturns, hturns'], by simp [hcues, hcues']⟩
      rw [hfs, hes, List.append_assoc]
    | jump | endScenario | stop | erase => cases hr

/-- How requests close a run: with what is told of it, and at the end of playing unless the last
    that happens is that another run is asked for. -/
def ClosesWith (p q : Player σ ℓ ς) (told : List Event) : Prop :=
  ∃ es more, q.events = p.events ++ (es ++ more) ∧ Unasked es ∧ answersOf es = [] ∧
    toldOf es = told ∧
    (q.state.isEnded = true ∧ more = [] ∨ ∃ label page, more = [.turn (.asked label page)])

omit [Stage σ] [TableSource ς] in
theorem unasked_givenBack (p : Player σ ℓ ς) : Unasked p.givenBack.2 := by
  intro label page hmem
  rw [turnsOf_givenBack] at hmem
  cases ha : p.active? <;> simp [ha] at hmem

omit [Stage σ] [TableSource ς] in
@[simp] theorem answersOf_givenBack (p : Player σ ℓ ς) : answersOf p.givenBack.2 = [] := by
  unfold answersOf
  rw [turnsOf_givenBack]
  cases p.active? <;> rfl

omit [TableSource ς] in
/-- The end of playing tells why. -/
theorem finish_closes (p : Player σ ℓ ς) (reason : EndReason) :
    ClosesWith p (p.finish reason) [.cue (.finished reason)] := by
  rw [finish_eq]
  refine ⟨p.givenBack.2 ++ [.cue (.finished reason)], [], ?_, ?_, ?_, by simp, Or.inl ⟨rfl, rfl⟩⟩
  · rw [List.append_nil]
    exact events_append rfl
  · exact (unasked_givenBack p).append (unasked_of_turnsOf rfl)
  · rw [answersOf_append, answersOf_givenBack]
    rfl

omit [Loader ℓ] [Stage σ] [TableSource ς] in
/-- Notes before the end of a run do not matter. -/
theorem ClosesWith.behind {p q r : Player σ ℓ ς} {told es : List Event}
    (hes : q.events = p.events ++ es) (hturns : turnsOf es = []) (hcues : cuesOf es = [])
    (h : ClosesWith q r told) : ClosesWith p r told := by
  obtain ⟨fs, more, hfs, hasked, hanswers, htold, hmore⟩ := h
  refine ⟨es ++ fs, more, ?_, (unasked_of_turnsOf hturns).append hasked, ?_, ?_, hmore⟩
  · rw [hfs, hes, List.append_assoc, List.append_assoc]
  · rw [answersOf_append, answersOf_of_turnsOf hturns, hanswers, List.nil_append]
  · rw [toldOf_append, toldOf_of_none hturns hcues, htold, List.nil_append]

omit [Stage σ] in
theorem begin_closes (p : Player σ ℓ ς) (label : String) (page : Int) (gallery? : Option String) :
    ClosesWith p (p.begin label page gallery?) [] := by
  rw [begin_eq]
  exact ⟨p.givenBack.2, [.turn (.asked label page)], events_append rfl, unasked_givenBack p,
    answersOf_givenBack p, toldOf_givenBack p, Or.inr ⟨_, _, rfl⟩⟩

omit [Stage σ] in
theorem jump_closes (p : Player σ ℓ ς) (label : String) : ClosesWith p (p.jump label) [] := by
  obtain ⟨history?, es, -, -, hturns, hcues, heq⟩ := p.notePageLeft_eq
  have hes : p.notePageLeft.events = p.events ++ es := by
    rw [heq]
    exact events_append rfl
  exact (begin_closes _ _ _ _).behind hes hturns hcues

/-- Requests that close the run tell what they should. -/
theorem handle_closes {requests : List Request} {p r : Player σ ℓ ς} {status : Status}
    (hp : p.state = .running) (hr : handle requests p = (r, some status)) :
    ∃ told, closing requests = some told ∧ ClosesWith p r told := by
  induction requests generalizing p with
  | nil => cases hr
  | cons request rest ih =>
    cases request with
    | jump label =>
      obtain ⟨rfl, -⟩ := Prod.mk.inj hr
      exact ⟨_, rfl, p.jump_closes label⟩
    | endScenario =>
      obtain ⟨rfl, -⟩ := Prod.mk.inj hr
      exact ⟨_, rfl, p.finish_closes _⟩
    | stop =>
      obtain ⟨rfl, -⟩ := Prod.mk.inj hr
      have hstop : p.stop = p.finish .stopped := if_pos (isUnderWay_of_running hp)
      rw [hstop]
      exact ⟨_, rfl, p.finish_closes _⟩
    | erase =>
      obtain ⟨rfl, -⟩ := Prod.mk.inj hr
      have herase : p.erase = p.finish .erased := if_pos (isUnderWay_of_running hp)
      rw [herase]
      exact ⟨_, rfl, p.finish_closes _⟩
    | endSceneGallery =>
      obtain ⟨history?, es, -, -, hturns, hcues, heq⟩ := p.endGalleryScene_eq
      have hes : p.endGalleryScene.events = p.events ++ es := by
        rw [heq]
        exact events_append rfl
      obtain ⟨told, htold, hcloses⟩ := ih (p.goesOn_endGalleryScene.state.trans hp) hr
      exact ⟨told, htold, hcloses.behind hes hturns hcues⟩

/-! ## Beats -/

/-- What a player tells before it takes requests up: `es` tells the story up to there, and the
    rest is told by the requests or by the player that goes on. -/
structure TellsTo (p q : Player σ ℓ ς) (requests : List Request) (es : List Event) : Prop where
  events : q.events = p.events ++ es
  unasked : Unasked es
  tale : ∀ answers, p.tale (answersOf es ++ answers) =
    toldOf es ++ (closing requests).getD (q.tale answers)

theorem TellsTo.tells {p q r : Player σ ℓ ς} {requests : List Request} {es : List Event}
    (h : TellsTo p q requests es) (hr : handle requests q = (r, none)) : Tells p r := by
  obtain ⟨hnone, fs, hfs, hturns, hcues⟩ := handle_notes hr
  refine ⟨es ++ fs, ?_, h.unasked.append (unasked_of_turnsOf hturns), fun answers => ?_⟩
  · rw [hfs, h.events, List.append_assoc]
  · rw [answersOf_append, answersOf_of_turnsOf hturns, List.append_nil, h.tale, hnone,
      toldOf_append, toldOf_of_none hturns hcues, List.append_nil,
      tale_goesOn (handle_goesOn hr)]
    rfl

theorem TellsTo.closes {p q r : Player σ ℓ ς} {requests : List Request} {es : List Event}
    {status : Status} (h : TellsTo p q requests es) (hq : q.state = .running)
    (hr : handle requests q = (r, some status)) : Closes p r := by
  obtain ⟨told, hclosing, fs, more, hfs, hasked, hanswers, htold, hmore⟩ := handle_closes hq hr
  refine ⟨es ++ fs, more, ?_, h.unasked.append hasked, fun answers => ?_, hmore⟩
  · rw [hfs, h.events, List.append_assoc, List.append_assoc]
  · rw [answersOf_append, hanswers, List.append_nil, h.tale, hclosing, toldOf_append, htold]
    rfl

/-- The board that a command leaves when it is done depends on what was picked alone. -/
theorem await_board {c : Command} {progress : Stage.Progress} {b : Board}
    (hdone : (c.await progress b).2 = true) :
    (c.await progress b).1 = boardPicked c (c.pick? progress b) b := by
  obtain ⟨_, action⟩ := c
  cases action with
  | menu =>
    change (b.awaitPick progress.picked?).2 = true at hdone
    change (b.awaitPick progress.picked?).1 = _
    unfold Board.awaitPick at hdone ⊢
    simp only [boardPicked, Command.pick?]
    split
    · rename_i hnone
      simp [← hnone]
    · rename_i hsome
      rw [if_neg hsome] at hdone
      cases hpicked : progress.picked? with
      | none =>
        rw [hpicked] at hdone
        cases hdone
      | some i => cases hchoice : b.choices[i]? <;> simp [hchoice]
  | _ => rfl

/-- If the run goes on behind a command, nothing was picked that leads elsewhere. -/
theorem boardPicked_of_open {c : Command} {picked? : Option Nat} {b : Board}
    (hb : b.requests = []) (h : closing (boardPicked c picked? b).requests = none) :
    boardPicked c picked? b = boardPicked c none b := by
  obtain ⟨_, action⟩ := c
  cases action with
  | menu =>
    simp only [boardPicked] at h ⊢
    cases hpicked : picked?.bind fun i => b.choices[i]? with
    | none => rfl
    | some choice =>
      rw [hpicked] at h
      have hrequests : (b.pick choice).requests = [.jump choice.target] := by
        obtain ⟨caption, target, effect?⟩ := choice
        cases effect? <;> simp [Board.pick, Board.request, Board.assign, hb]
      change closing (b.pick choice).requests = none at h
      rw [hrequests] at h
      cases h
  | _ => rfl

theorem params_boardPicked (c : Command) (b : Board) :
    (boardPicked c none b).params = b.params := by
  obtain ⟨_, action⟩ := c
  cases action <;> rfl

theorem ifStack_boardPicked (c : Command) (b : Board) :
    (boardPicked c none b).ifStack = b.ifStack := by
  obtain ⟨_, action⟩ := c
  cases action <;> rfl

omit [TableSource ς] in
/-- A command that is done ends its page, and then the run goes on behind it. -/
theorem completed_tellsTo {p : Player σ ℓ ς} {s : Scenario} {a : Active} {since : Nat}
    (hp : p.Plays s a) (hphase : a.phase = .waiting since)
    (hdone : (a.command.await (Stage.progress p.stage since) p.board).2 = true) :
    TellsTo p (p.completed a since).settle (p.completed a since).board.requests
      (p.doneEvents a (a.command.pick? (Stage.progress p.stage since) p.board)) := by
  have hstands := completed_stands hp since
  have hboard : (p.completed a since).board =
      boardPicked a.command (a.command.pick? (Stage.progress p.stage since) p.board) p.board := by
    rw [← await_board hdone, completed, complete_eq]
  have hsettled : (p.completed a since).settle.board = (p.completed a since).board.settle := rfl
  have hevents : (p.completed a since).settle.events = p.events ++
      p.doneEvents a (a.command.pick? (Stage.progress p.stage since) p.board) :=
    p.completed_events a since
  refine ⟨hevents, fun label page hmem => by simp at hmem, fun answers => ?_⟩
  rw [answersOf, turnsOf_doneEvents, toldOf_doneEvents, tale_waiting hp hphase,
    tale_stands hstands, settle_cursor, completed_cursor, hsettled, hboard]
  rfl

omit [Stage σ] [TableSource ς] in
/-- What an executed command does follows from which of its assets could be used. -/
theorem outcome_eq (p : Player σ ℓ ς) (a : Active) :
    p.outcome a = a.command.execute (verdicts a.command.resources (p.usableAt a)) p.board := by
  unfold outcome Command.execute
  rw [cues_congr a.command.action p.board fun h hmem => ?_]
  exact (isLoaded_verdicts (p.moved a.index).2.1.state hmem).symm

omit [TableSource ς] in
/-- A command that is executed gives its cues and begins its page, and then it is waited for. -/
theorem executed_tellsTo {p : Player σ ℓ ς} {s : Scenario} {a : Active} (hp : p.Plays s a)
    (hphase : a.phase = .loading) :
    TellsTo p (p.execute a).1.settle (p.execute a).1.board.requests (p.executedEvents a) := by
  have hplays := execute_plays hp
  have hevents : (p.execute a).1.settle.events = p.events ++ p.executedEvents a :=
    p.execute_events a
  have hcursor : (p.execute a).1.cursor = (p.cursor.enter a.command).turnPage a.command := by
    rw [execute_eq]
  have hboard : (p.execute a).1.board = (p.outcome a).1 := by rw [execute_eq]
  have hsettled : (p.execute a).1.settle.board = (p.execute a).1.board.settle := rfl
  have hmoved : ((p.cursor.enter a.command).turnPage a.command).moveTo a.index =
      ((p.cursor.moveTo a.index).enter a.command).turnPage a.command := by
    rw [moveTo_turnPage, moveTo_enter]
  have hindex : (((p.cursor.enter a.command).turnPage a.command).moveTo a.index).index =
      a.index := rfl
  refine ⟨hevents, fun label page hmem => by simp at hmem, fun answers => ?_⟩
  rw [answersOf, turnsOf_executedEvents, toldOf_executedEvents, tale_loading hp hphase,
    tale_waiting hplays rfl, settle_cursor, hcursor, hsettled, hboard, outcome_eq]
  change tellLoaded _ a.command p.board _ (.usable (p.usableAt a) :: answers) = _
  simp only [tellLoaded, tellExecuted, ← hmoved, hindex]
  rfl

omit [Loader ℓ] [Stage σ] [TableSource ς] in
theorem skip_tells {p : Player σ ℓ ς} {s : Scenario} {c : Command} (hp : p.Stands s)
    (hc : s.commands[p.cursor.index]? = some c)
    (hskip : p.board.ifStack.skips c.isConditional = true) : Tells p (p.skip c) := by
  have hstands : (p.skip c).Stands s := by
    rw [skip_eq]
    exact ⟨hp.state, hp.scenario, hp.idle⟩
  have hevents : (p.skip c).events = p.events ++ [.turn (.skipped p.cursor.index)] := by
    rw [skip_eq]
    exact events_append rfl
  have hcursor : (p.skip c).cursor = (p.cursor.turnPage c).moveTo (p.cursor.index + 1) := by
    rw [skip_eq]
    rfl
  have hboard : (p.skip c).board = p.board := by rw [skip_eq]
  obtain ⟨hlt, rfl⟩ := List.getElem?_eq_some_iff.mp hc
  refine ⟨_, hevents, fun label page hmem => by simp at hmem, fun answers => ?_⟩
  rw [tale_stands hp, tale_stands hstands, hcursor, hboard, List.drop_eq_getElem_cons hlt]
  change tell _ p.board p.cursor answers = _
  rw [tell, if_pos hskip]
  rfl

omit [Stage σ] [TableSource ς] in
theorem activate_tells {p : Player σ ℓ ς} {s : Scenario} {c : Command} (hp : p.Stands s)
    (hc : s.commands[p.cursor.index]? = some c)
    (hskip : p.board.ifStack.skips c.isConditional = false) : Tells p (p.activate c).1 := by
  have hplays := activate_plays hp c
  have hevents : ∃ es, (p.activate c).1.events = p.events ++ es ∧
      turnsOf es = [.begun p.cursor.index] ∧ toldOf es = [] := by
    rw [activate_eq]
    exact ⟨_, events_append rfl, by simp, by simp⟩
  obtain ⟨es, hes, hturns, htold⟩ := hevents
  have hcursor : (p.activate c).1.cursor = p.cursor := by rw [activate_eq]
  have hboard : (p.activate c).1.board = p.board := by rw [activate_eq]
  obtain ⟨hlt, rfl⟩ := List.getElem?_eq_some_iff.mp hc
  refine ⟨es, hes, fun label page hmem => by simp [hturns] at hmem, fun answers => ?_⟩
  rw [tale_stands hp, tale_loading hplays rfl, hcursor, hboard, List.drop_eq_getElem_cons hlt,
    htold, answersOf, hturns]
  change tell _ p.board p.cursor answers = _
  rw [tell, if_neg (by simp [hskip])]
  rfl

/-- Every beat tells what the story foretells. -/
theorem Beat.tells {V : Player σ ℓ ς → Prop} {p q : Player σ ℓ ς} (h : Beat V p q) :
    Tells p q := by
  cases h with
  | skip _ hp hc hskip => exact skip_tells hp hc hskip
  | activate _ hp hc hskip => exact activate_tells hp hc hskip
  | execute hp hphase _ hr => exact (executed_tellsTo hp hphase).tells hr
  | leave hp hphase hdone hr => exact (completed_tellsTo hp hphase hdone).tells hr

theorem Close.closes {p q : Player σ ℓ ς} (h : Close p q) : Closes p q := by
  cases h with
  | execute hp hphase _ hr =>
    exact (executed_tellsTo hp hphase).closes (execute_plays hp).state hr
  | leave hp hphase hdone hr =>
    exact (completed_tellsTo hp hphase hdone).closes (completed_stands hp _).state hr
  | finish hp hend =>
    obtain ⟨es, more, hes, hasked, hanswers, htold, hmore⟩ := p.finish_closes .completed
    refine ⟨es, more, hes, hasked, fun answers => ?_, hmore⟩
    rw [tale_stands hp, hend, htold]
    rfl

theorem Beats.tells {V : Player σ ℓ ς → Prop} {p q : Player σ ℓ ς} (h : Beats V p q) :
    Tells p q := by
  induction h with
  | refl => exact tells_refl p
  | tail _ hlast ih => exact ih.trans hlast.tells

theorem Ends.tells {V : Player σ ℓ ς → Prop} {p q : Player σ ℓ ς} (h : Ends V p q) :
    Tells p q ∧ Waits q ∨ Closes p q := by
  cases h with
  | waits hbeats hq => exact Or.inl ⟨hbeats.tells, hq⟩
  | closed hbeats hclose => exact Or.inr (hbeats.tells.closes hclose.closes)

/-- A tick tells what the story of the run foretells. -/
theorem tick_tells {p : Player σ ℓ ς} (hp : Waits p) :
    Tells p p.tick.1 ∧ Waits p.tick.1 ∨ Closes p p.tick.1 := by
  obtain ⟨s, a, hplays⟩ := hp
  rw [tick_of_running hplays.state hplays.scenario]
  exact (play_ends (V := fun _ => True) (fun _ _ => trivial) hplays.state hplays.scenario).tells

/-! ## Runs left to themselves -/

/-- Inputs of a run that is left to itself: it is ticked, and the stage, the loader and the
    source, which is one of `S`, go their ways. -/
inductive Answering (S : ς → Prop) : Input σ ℓ ς → Prop
  | tick : Answering S .tick
  | stage (stage : σ) : Answering S (.stage stage)
  | loader (loader : ℓ) : Answering S (.loader loader)
  | source {source : ς} (hsource : S source) : Answering S (.source source)

/-- Whether a run is asked for with an event. -/
def Event.isAsked : Event → Bool
  | turn (.asked ..) => true
  | _ => false

/-- Events up to where another run is asked for. -/
def ofRun (es : List Event) : List Event := es.takeWhile fun e => !e.isAsked

omit [Loader ℓ] [Stage σ] [TableSource ς] in
theorem ofRun_append {es : List Event} (h : Unasked es) (fs : List Event) :
    ofRun (es ++ fs) = es ++ ofRun fs := by
  refine List.takeWhile_append_of_pos fun e he => ?_
  cases e with
  | turn t =>
    cases t with
    | asked label page => exact absurd (mem_turnsOf.mpr he) (h label page)
    | _ => rfl
  | _ => rfl

/-- A run that is over stays as it is. -/
theorem afterAll_of_ended {S : ς → Prop} {p : Player σ ℓ ς} (hp : p.state.isEnded = true)
    {inputs : List (Input σ ℓ ς)} (hinputs : ∀ i ∈ inputs, Answering S i) :
    (p.afterAll inputs).events = p.events ∧ (p.afterAll inputs).state = p.state := by
  induction inputs generalizing p with
  | nil => exact ⟨rfl, rfl⟩
  | cons i inputs ih =>
    have hrest := fun i hi => hinputs i (List.mem_cons_of_mem _ hi)
    rw [afterAll_cons]
    cases hinputs i List.mem_cons_self with
    | tick =>
      have htick : p.after .tick = p := by
        change p.tick.1 = p
        unfold tick
        split
        · rename_i hstate
          rw [hstate] at hp
          cases hp
        · rename_i hstate
          rw [hstate] at hp
          cases hp
        · rfl
      rw [htick]
      exact ih hp hrest
    | stage | loader | source => exact ih hp hrest

/-- What a run that came to its end told stays what was told of it. -/
theorem Closes.afterAll {S : ς → Prop} {p q : Player σ ℓ ς} (h : Closes p q)
    {inputs : List (Input σ ℓ ς)} (hinputs : ∀ i ∈ inputs, Answering S i) :
    ∃ es, (q.afterAll inputs).events = p.events ++ es ∧
      p.tale (answersOf (ofRun es)) = toldOf (ofRun es) := by
  obtain ⟨es, more, hes, hasked, htale, hmore⟩ := h
  have hstory : p.tale (answersOf es) = toldOf es := by simpa using htale []
  rcases hmore with ⟨hended, rfl⟩ | ⟨label, page, rfl⟩
  · refine ⟨es, ?_, ?_⟩
    · rw [(afterAll_of_ended hended hinputs).1, hes, List.append_nil]
    · have hrun : ofRun (es ++ []) = es ++ [] := ofRun_append hasked []
      rw [List.append_nil] at hrun
      rw [hrun]
      exact hstory
  · obtain ⟨fs, hfs⟩ := q.afterAll_grows inputs
    refine ⟨es ++ (.turn (.asked label page) :: fs), ?_, ?_⟩
    · rw [hfs, hes]
      simp
    · rw [ofRun_append hasked]
      simp only [ofRun, List.takeWhile_cons, Event.isAsked, Bool.not_true, Bool.false_eq_true,
        if_false, List.append_nil]
      exact hstory

/-- A run that came to its end is not played any more, unless another is asked for. -/
theorem Closes.not_running {S : ς → Prop} {p q : Player σ ℓ ς} (h : Closes p q)
    {inputs : List (Input σ ℓ ς)} (hinputs : ∀ i ∈ inputs, Answering S i) {es : List Event}
    (hes : (q.afterAll inputs).events = p.events ++ es) (hasked : Unasked es) :
    (q.afterAll inputs).state ≠ .running := by
  obtain ⟨fs, more, hfs, -, -, hmore⟩ := h
  rcases hmore with ⟨hended, -⟩ | ⟨label, page, rfl⟩
  · rw [(afterAll_of_ended hended hinputs).2]
    intro hstate
    rw [hstate] at hended
    cases hended
  · obtain ⟨gs, hgs⟩ := q.afterAll_grows inputs
    rw [hgs, hfs, List.append_assoc] at hes
    have hsame := List.append_cancel_left hes
    have hmem : .asked label page ∈ turnsOf es := by
      rw [← hsame]
      simp
    exact absurd hmem (hasked label page)

omit [Loader ℓ] [Stage σ] [TableSource ς] in
/-- A player that waits has nothing to tell without answers. -/
theorem tale_of_waits {p : Player σ ℓ ς} (hp : Waits p) : p.tale [] = [] := by
  obtain ⟨s, a, hplays⟩ := hp
  cases hphase : a.phase with
  | loading =>
    rw [tale_loading hplays hphase]
    rfl
  | waiting since =>
    rw [tale_waiting hplays hphase]
    rfl

/-- A run that is left to itself tells its story for the answers it gets. -/
theorem waits_afterAll {S : ς → Prop} {p : Player σ ℓ ς} (hp : Waits p)
    {inputs : List (Input σ ℓ ς)} (hinputs : ∀ i ∈ inputs, Answering S i) :
    ∃ es, (p.afterAll inputs).events = p.events ++ es ∧
      p.tale (answersOf (ofRun es)) = toldOf (ofRun es) := by
  induction inputs generalizing p with
  | nil => exact ⟨[], (List.append_nil _).symm, tale_of_waits hp⟩
  | cons i inputs ih =>
    have hrest := fun i hi => hinputs i (List.mem_cons_of_mem _ hi)
    cases hinputs i List.mem_cons_self with
    | tick =>
      rw [afterAll_cons]
      rcases tick_tells hp with ⟨⟨es, hes, hasked, htale⟩, hwaits⟩ | hcloses
      · obtain ⟨fs, hfs, hstory⟩ := ih hwaits hrest
        refine ⟨es ++ fs, ?_, ?_⟩
        · rw [after, hfs, hes, List.append_assoc]
        · rw [ofRun_append hasked, answersOf_append, toldOf_append, htale, hstory]
      · exact hcloses.afterAll hrest
    | stage | loader | source =>
      obtain ⟨s, a, hplays⟩ := hp
      exact ih ⟨s, a, hplays.state, hplays.scenario, hplays.active⟩ hrest

/-- The same from where a player stands, when it plays on and is then left to itself. -/
theorem stands_afterAll {S : ς → Prop} {p : Player σ ℓ ς} {s : Scenario} (hp : p.Stands s)
    {inputs : List (Input σ ℓ ς)} (hinputs : ∀ i ∈ inputs, Answering S i) :
    ∃ es, ((playFrom (s.commands.drop p.cursor.index) p).1.afterAll inputs).events =
        p.events ++ es ∧
      p.tale (answersOf (ofRun es)) = toldOf (ofRun es) := by
  have hends := playFrom_ends (V := fun _ => True) _ (fun _ _ => trivial) hp rfl
  rcases hends.tells with ⟨⟨es, hes, hasked, htale⟩, hwaits⟩ | hcloses
  · obtain ⟨fs, hfs, hstory⟩ := waits_afterAll hwaits hinputs
    refine ⟨es ++ fs, ?_, ?_⟩
    · rw [hfs, hes, List.append_assoc]
    · rw [ofRun_append hasked, answersOf_append, toldOf_append, htale, hstory]
  · exact hcloses.afterAll hinputs

end VisualNovel.Player
