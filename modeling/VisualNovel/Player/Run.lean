import VisualNovel.Player.State

/-
  Playing. A run starts at a page of a label: the player waits for the label's table, then takes
  the commands one after the other. Each takes its assets, waits for them, is executed, waits
  until it is done and gives its assets back. A command in a branch that is not taken is passed
  over; its page counts. A tick plays on until something has to be waited for. It enters one run
  at most, since a jump ends it, and it goes through the rest of that run's commands at most
  once.
-/

namespace VisualNovel.Player

open Asset (Handle Ledger Loader LoaderCall)
open History (ReadHistory)
open Scenario (Corpus TableSource)
open Stage (Cue EndReason)

variable {σ ℓ ς : Type}

/-! ## What a player does to others -/

/-- The player after an event. -/
def happened (p : Player σ ℓ ς) (e : Event) : Player σ ℓ ς :=
  { p with journal := p.journal.push e }

/-- Gives a cue. -/
def perform [Stage σ] (p : Player σ ℓ ς) (c : Cue) : Player σ ℓ ς :=
  { p with stage := Stage.perform p.stage c }.happened (.cue c)

/-- Gives cues in order. -/
def performAll [Stage σ] (p : Player σ ℓ ς) (cues : List Cue) : Player σ ℓ ς :=
  { p with
    stage := cues.foldl Stage.perform p.stage
    journal := p.journal ++ cues.map Event.cue }

/-- The player with its ledger after some calls to the loader. -/
def withLedger (p : Player σ ℓ ς) (r : Ledger ℓ × List LoaderCall) : Player σ ℓ ς :=
  { p with ledger := r.1, journal := p.journal ++ r.2.map Event.loader }

/-- Makes a note in the history, if one is kept. -/
def note (p : Player σ ℓ ς) (n : ReadHistory.Note) : Player σ ℓ ς :=
  match p.history? with
  | none => p
  | some h => { p with history? := some (h.record n) }.happened (.note n)

/-! ## The end of a run -/

/-- Gives back the assets of a command. -/
def release [Loader ℓ] (p : Player σ ℓ ς) (a : Active) : Player σ ℓ ς :=
  ({ p with active? := none }.withLedger
    (p.ledger.releases (.command a.index) a.command.resources)).happened
      (.turn (.released a.index))

/-- Gives back the assets that were loaded ahead. -/
def clearWindow [Loader ℓ] (p : Player σ ℓ ς) : Player σ ℓ ς :=
  let (window, r) := p.window.clear p.ledger
  { p with window }.withLedger r

/-- Leaves a run, wherever it is: nothing is in use any more, and of its board only the
    parameters stay. -/
def teardown [Loader ℓ] (p : Player σ ℓ ς) : Player σ ℓ ς :=
  let p := (p.active?.map p.release).getD p
  let p := p.clearWindow
  { p with board := p.board.clear, scenario? := none }

/-- Ends a run. -/
def finish [Stage σ] [Loader ℓ] (p : Player σ ℓ ς) (reason : EndReason) : Player σ ℓ ς :=
  { p.teardown with gallery? := none, state := .ended reason }.perform (.finished reason)

/-- Ends a run that is under way. -/
def finishIfUnderWay [Stage σ] [Loader ℓ] (p : Player σ ℓ ς) (reason : EndReason) :
    Player σ ℓ ς :=
  if p.state.isUnderWay then p.finish reason else p

/-- Stops a run. -/
def stop [Stage σ] [Loader ℓ] (p : Player σ ℓ ς) : Player σ ℓ ς := p.finishIfUnderWay .stopped

/-- Erases a run. -/
def erase [Stage σ] [Loader ℓ] (p : Player σ ℓ ς) : Player σ ℓ ς := p.finishIfUnderWay .erased

/-! ## The beginning of a run -/

/-- A label as it is asked for, without blanks around it and without the sign before it. -/
def bareLabel (label : String) : String :=
  Text.dropLeading Command.labelSign (Text.trim label)

/-- Leaves the run under way, if there is one, and asks for the table of a label. -/
def begin [Loader ℓ] [TableSource ς] (p : Player σ ℓ ς) (label : String) (page : Int)
    (gallery? : Option String) : Player σ ℓ ς :=
  let p := p.teardown
  { p with
    gallery?
    source := TableSource.request p.source label
    state := .loading label page }.happened (.turn (.asked label page))

/-- Starts a run at a page of a label, as a scene of the gallery if one is named or the label is
    one. -/
def start [Loader ℓ] [TableSource ς] (p : Player σ ℓ ς) (label : String) (page : Int)
    (gallery? : Option String) : Player σ ℓ ς :=
  let label := bareLabel label
  p.begin label page
    (gallery?.orElse fun _ => if p.isGalleryLabel label then some label else none)

/-- Starts a run where another was left. -/
def resume [Loader ℓ] [TableSource ς] (p : Player σ ℓ ς) (point : Stage.SavePoint) :
    Player σ ℓ ς :=
  p.start point.label point.page none

/-- Notes the page the player is on as read, if it is on one. -/
def notePageLeft (p : Player σ ℓ ς) : Player σ ℓ ς :=
  if 0 ≤ p.cursor.page ∧ p.cursor.label ≠ "" then
    p.note (.pageRead p.cursor.label p.cursor.page)
  else p

/-- Leaves the page for a label. The scene of the gallery goes on unless the label is one. -/
def jump [Loader ℓ] [TableSource ς] (p : Player σ ℓ ς) (label : String) : Player σ ℓ ς :=
  let p := p.notePageLeft
  let label := bareLabel label
  p.begin label 0 (if p.isGalleryLabel label then some label else p.gallery?)

/-! ## Commands -/

/-- Sees a scene of the gallery to its end. -/
def endGalleryScene (p : Player σ ℓ ς) : Player σ ℓ ς :=
  match p.gallery? with
  | none => p
  | some scene => { p with gallery? := none }.note (.sceneViewed scene)

/-- Does what is requested, up to the first request that ends the run. -/
def handle [Stage σ] [Loader ℓ] [TableSource ς] :
    List Command.Request → Player σ ℓ ς → Player σ ℓ ς × Option Status
  | [], p => (p, none)
  | .jump label :: _, p => (p.jump label, some (.suspended .labelLoad))
  | .endScenario :: _, p => (p.finish .completed, some .halted)
  | .stop :: _, p => (p.stop, some .halted)
  | .erase :: _, p => (p.erase, some .halted)
  | .endSceneGallery :: rest, p => handle rest p.endGalleryScene

/-- Does what the commands requested. -/
def handleRequests [Stage σ] [Loader ℓ] [TableSource ς] (p : Player σ ℓ ς) :
    Player σ ℓ ς × Option Status :=
  handle p.board.requests { p with board := p.board.settle }

/-- Enters a label, if the command is one. -/
def enterLabel (p : Player σ ℓ ς) (c : Command) : Player σ ℓ ς :=
  { p with
    cursor := p.cursor.enter c
    gallery? := (c.label?.filter p.isGalleryLabel).orElse fun _ => p.gallery? }

/-- Begins a page, if one begins with the command. -/
def beginPage [Stage σ] (p : Player σ ℓ ς) (c : Command) : Player σ ℓ ς :=
  if c.beginsPage then
    let p := { p with cursor := p.cursor.turnPage c }
    (p.perform (.pageBegin p.cursor.label p.cursor.page)).note (.autosave p.savePoint)
  else p

/-- Ends the page that began with the command, if one did. -/
def endPage [Stage σ] (p : Player σ ℓ ς) (c : Command) : Player σ ℓ ς :=
  if c.beginsPage then
    (p.perform (.pageEnd p.cursor.label p.cursor.page)).note
      (.pageRead p.cursor.label p.cursor.page)
  else p

/-- The assets of the commands behind a place of the scenario, in order. -/
def upcoming (p : Player σ ℓ ς) (index : Nat) : List Handle :=
  match p.scenario? with
  | none => []
  | some s => (s.commands.drop (index + 1)).flatMap Command.resources

/-- Moves the window of assets that are loaded ahead to behind a place. -/
def moveWindow [Loader ℓ] (p : Player σ ℓ ς) (index : Nat) : Player σ ℓ ς :=
  let (window, r) := p.window.update (p.upcoming index) p.ledger
  { p with window }.withLedger r

/-- Passes over a command. Its page counts. -/
def skip (p : Player σ ℓ ς) (c : Command) : Player σ ℓ ς :=
  { p with cursor := { p.cursor.turnPage c with index := p.cursor.index + 1 } }.happened
    (.turn (.skipped p.cursor.index))

/-- Takes the assets of the command at the cursor, whose turn it is now. -/
def activate [Loader ℓ] (p : Player σ ℓ ς) (c : Command) : Player σ ℓ ς × Active :=
  let a : Active := ⟨p.cursor.index, c, .loading⟩
  (({ p with active? := some a }.happened (.turn (.begun a.index))).withLedger
    (p.ledger.addUses (.command a.index) c.resources), a)

/-- Whether the assets of a command are there, usable or not. -/
def isLoadComplete [Loader ℓ] (p : Player σ ℓ ς) (c : Command) : Bool :=
  c.resources.all fun h => (p.ledger.state h).isComplete

/-- Which of the assets of a command can be used. -/
def usable [Loader ℓ] (p : Player σ ℓ ς) (c : Command) : List Bool :=
  c.resources.map fun h => (p.ledger.state h).isLoaded

/-- Executes the active command; the moment is that of the stage before it does anything. -/
def execute [Stage σ] [Loader ℓ] (p : Player σ ℓ ς) (a : Active) : Player σ ℓ ς × Nat :=
  let p := (p.moveWindow a.index).enterLabel a.command
  let since := Stage.now p.stage
  let (board, cues) := a.command.execute p.ledger.state p.board
  let turn : Turn := .executed a.index (p.usable a.command)
  let p := ({ p with board }.happened (.turn turn)).performAll cues
  let p := p.beginPage a.command
  ({ p with active? := some { a with phase := .waiting since } }, since)

/-- Leaves the active command, which is done: its page ends, it gives its assets back, and the
    next command is at the cursor. -/
def complete [Stage σ] [Loader ℓ] (p : Player σ ℓ ς) (a : Active) (picked? : Option Nat) :
    Player σ ℓ ς :=
  let p := ((p.happened (.turn (.done a.index picked?))).endPage a.command).release a
  { p with cursor := { p.cursor with index := a.index + 1 } }

/-- Waits until the active command is done, then goes on behind it. -/
def await [Stage σ] [Loader ℓ] [TableSource ς] (p : Player σ ℓ ς) (a : Active) (since : Nat) :
    Player σ ℓ ς × Option Status :=
  let progress := Stage.progress p.stage since
  let picked? := a.command.pick? progress p.board
  let (board, done) := a.command.await progress p.board
  let p := { p with board }
  if done then (p.complete a picked?).handleRequests
  else (p, some (.suspended .commandWait))

/-- Goes on with the active command as far as it gets. -/
def advance [Stage σ] [Loader ℓ] [TableSource ς] (p : Player σ ℓ ς) (a : Active) :
    Player σ ℓ ς × Option Status :=
  match a.phase with
  | .waiting since => p.await a since
  | .loading =>
    if p.isLoadComplete a.command then
      let (p, since) := p.execute a
      match p.handleRequests with
      | (p, some status) => (p, some status)
      | (p, none) => p.await a since
    else (p, some (.suspended .resourceLoad))

/-! ## Ticks -/

/-- The turn of the command at the cursor: it is passed over, or played as far as it gets. -/
def turn [Stage σ] [Loader ℓ] [TableSource ς] (p : Player σ ℓ ς) (c : Command) :
    Player σ ℓ ς × Option Status :=
  if p.board.ifStack.skips c.isConditional then (p.skip c, none)
  else
    let (p, a) := p.activate c
    p.advance a

/-- Plays the commands from the cursor on, which are given. -/
def playFrom [Stage σ] [Loader ℓ] [TableSource ς] :
    List Command → Player σ ℓ ς → Player σ ℓ ς × Status
  | [], p => (p.finish .completed, .halted)
  | c :: rest, p =>
    match p.turn c with
    | (p, some status) => (p, status)
    | (p, none) => playFrom rest p

/-- Plays a scenario on, beginning with the active command if there is one. -/
def play [Stage σ] [Loader ℓ] [TableSource ς] (p : Player σ ℓ ς) (s : Scenario) :
    Player σ ℓ ς × Status :=
  match p.active? with
  | none => playFrom (s.commands.drop p.cursor.index) p
  | some a =>
    match p.advance a with
    | (p, some status) => (p, status)
    | (p, none) => playFrom (s.commands.drop p.cursor.index) p

/-- Where a run that was asked for begins: at the page if the label has it, or else at the
    label. -/
def entry (s : Scenario) (label : String) (page : Int) : Cursor :=
  match s.seek label page with
  | .ok index => ⟨label, index, max page 0 - 1⟩
  | .error _ => ⟨label, (s.labelIndex? label).getD 0, labelStart⟩

/-- Enters a run of a scenario. -/
def enterScenario (p : Player σ ℓ ς) (s : Scenario) (label : String) (page : Int) :
    Player σ ℓ ς :=
  let cursor := entry s label page
  { p with cursor, scenario? := some s, state := .running }.happened (.turn (.entered s cursor))

/-- Enters a run, whose table is there. A label that no table has ends it. -/
def enter [Stage σ] [Loader ℓ] [TableSource ς] (p : Player σ ℓ ς) (label : String) (page : Int) :
    Player σ ℓ ς × Status :=
  let (corpus, scenario?) := p.corpus.fetch p.source label
  let p := { p with corpus }
  match scenario? with
  | none => (p.finish .completed, .halted)
  | some s => (p.enterScenario s label page).play s

/-- Plays until something has to be waited for, or nothing is left. -/
def tick [Stage σ] [Loader ℓ] [TableSource ς] (p : Player σ ℓ ς) : Player σ ℓ ς × Status :=
  match p.state with
  | .loading label page =>
    if TableSource.isLoaded p.source label then p.enter label page
    else (p, .suspended .labelLoad)
  | .running =>
    match p.scenario? with
    | none => (p.finish .completed, .halted)
    | some s => p.play s
  | _ => (p, .halted)

end VisualNovel.Player
