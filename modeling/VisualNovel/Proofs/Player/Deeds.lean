import VisualNovel.Proofs.Player.Notes

/-
  What a player does, cut up into acts. An act is one step of playing, with the states before and
  after it and the deed that it is, if it is one that matters for the scenes of the gallery: a run
  is started, left for a label, or ended, a label is reached, or a scene is closed as a command
  requests. `Does` lists the steps that there are. `actsOfAll` goes through the operations of a
  player in their order and lists the acts, and act after act they lead from the player before some
  inputs to the player after them (`Acts.ofAll`).
-/

namespace VisualNovel.Player

open Asset (Loader)
open Scenario (TableSource)
open Stage (EndReason)

variable {σ ℓ ς : Type}

/-! ## Deeds -/

/-- What is done to the scene of the gallery. -/
inductive Deed where
  /-- A run is started at a label, for a scene if one is named. -/
  | start (label : String) (scene? : Option String)
  /-- The run is left for a label. -/
  | jump (label : String)
  /-- The command of a label is executed. -/
  | reach (label : String)
  /-- A request of a command to end the scene is handled. -/
  | close
  /-- The run ends. -/
  | finish
  deriving DecidableEq

variable [Stage σ] [Loader ℓ] [TableSource ς]

/-- The steps of a player, each with the deed that it is. -/
inductive Does : Option Deed → Player σ ℓ ς → Player σ ℓ ς → Prop
  | start (p : Player σ ℓ ς) (label : String) (page : Int) (scene? : Option String) :
    Does (some (.start (bareLabel label) scene?)) p (p.start label page scene?)
  | jump (p : Player σ ℓ ς) (label : String) :
    Does (some (.jump (bareLabel label))) p (p.jump label)
  | close (p : Player σ ℓ ς) : Does (some .close) p p.endGalleryScene
  | finish (p : Player σ ℓ ς) (reason : EndReason) : Does (some .finish) p (p.finish reason)
  | execute (p : Player σ ℓ ς) (a : Active) :
    Does (a.command.label?.map .reach) p (p.execute a).1.settle
  | complete (p : Player σ ℓ ς) (a : Active) (since : Nat) :
    Does none p (p.completed a since).settle
  | skip (p : Player σ ℓ ς) (c : Command) : Does none p (p.skip c)
  | activate (p : Player σ ℓ ς) (c : Command) : Does none p (p.activate c).1
  | fetch (p : Player σ ℓ ς) (label : String) :
    Does none p { p with corpus := (p.corpus.fetch p.source label).1 }
  | enter (p : Player σ ℓ ς) (s : Scenario) (label : String) (page : Int) :
    Does none p (p.enterScenario s label page)
  | change {p q : Player σ ℓ ς} (h : Change p q) : Does none p q

/-- A step of a player, with the deed that it is. -/
structure Act (σ ℓ ς : Type) [Stage σ] [Loader ℓ] [TableSource ς] where
  deed? : Option Deed
  before : Player σ ℓ ς
  after : Player σ ℓ ς
  does : Does deed? before after

/-- Acts one after the other, from one state to another. -/
inductive Acts : Player σ ℓ ς → List (Act σ ℓ ς) → Player σ ℓ ς → Prop
  | nil (p : Player σ ℓ ς) : Acts p [] p
  | cons (a : Act σ ℓ ς) {acts : List (Act σ ℓ ς)} {q : Player σ ℓ ς} (h : Acts a.after acts q) :
    Acts a.before (a :: acts) q

theorem Acts.single (a : Act σ ℓ ς) : Acts a.before [a] a.after := .cons a (.nil _)

theorem Acts.append {p q r : Player σ ℓ ς} {xs ys : List (Act σ ℓ ς)} (hxs : Acts p xs q)
    (hys : Acts q ys r) : Acts p (xs ++ ys) r := by
  induction hxs with
  | nil => exact hys
  | cons a _ ih => exact .cons a (ih hys)

/-! ## The acts of operations -/

/-- The act of leaving a run for a label. -/
def jumpAct (p : Player σ ℓ ς) (label : String) : Act σ ℓ ς := ⟨_, p, p.jump label, .jump p label⟩

/-- The act of ending a run. -/
def finishAct (p : Player σ ℓ ς) (reason : EndReason) : Act σ ℓ ς :=
  ⟨_, p, p.finish reason, .finish p reason⟩

/-- The act of closing a scene. -/
def closeAct (p : Player σ ℓ ς) : Act σ ℓ ς := ⟨_, p, p.endGalleryScene, .close p⟩

/-- The acts of ending a run that is under way. -/
def finishIfUnderWayActs (p : Player σ ℓ ς) (reason : EndReason) : List (Act σ ℓ ς) :=
  if p.state.isUnderWay then [p.finishAct reason] else []

/-- The acts of doing what is requested. -/
def handleActs : List Command.Request → Player σ ℓ ς → List (Act σ ℓ ς)
  | [], _ => []
  | .jump label :: _, p => [p.jumpAct label]
  | .endScenario :: _, p => [p.finishAct .completed]
  | .stop :: _, p => p.finishIfUnderWayActs .stopped
  | .erase :: _, p => p.finishIfUnderWayActs .erased
  | .endSceneGallery :: rest, p => p.closeAct :: handleActs rest p.endGalleryScene

/-- The acts of waiting for the active command, and of going on behind it. -/
def awaitActs (p : Player σ ℓ ς) (a : Active) (since : Nat) : List (Act σ ℓ ς) :=
  if (a.command.await (Stage.progress p.stage since) p.board).2 then
    ⟨_, p, (p.completed a since).settle, .complete p a since⟩ ::
      handleActs (p.completed a since).board.requests (p.completed a since).settle
  else []

/-- The acts of doing what is requested, and of waiting for the active command if its requests let
    the run go on. -/
def handleAndAwaitActs (requests : List Command.Request) (p : Player σ ℓ ς) (a : Active)
    (since : Nat) : List (Act σ ℓ ς) :=
  handleActs requests p ++
    match handle requests p with
    | (q, none) => q.awaitActs a since
    | (_, some _) => []

/-- The acts of going on with the active command. -/
def advanceActs (p : Player σ ℓ ς) (a : Active) : List (Act σ ℓ ς) :=
  match a.phase with
  | .waiting since => p.awaitActs a since
  | .loading =>
    if p.isLoadComplete a.command then
      ⟨_, p, (p.execute a).1.settle, .execute p a⟩ ::
        (p.execute a).1.settle.handleAndAwaitActs (p.execute a).1.board.requests a
          (Stage.now p.stage)
    else []

/-- The acts of the turn of a command. -/
def turnActs (p : Player σ ℓ ς) (c : Command) : List (Act σ ℓ ς) :=
  if p.board.ifStack.skips c.isConditional then [⟨_, p, p.skip c, .skip p c⟩]
  else ⟨_, p, (p.activate c).1, .activate p c⟩ :: (p.activate c).1.advanceActs (p.activate c).2

/-- The acts of playing commands. -/
def playFromActs : List Command → Player σ ℓ ς → List (Act σ ℓ ς)
  | [], p => [p.finishAct .completed]
  | c :: rest, p => p.turnActs c ++
    match p.turn c with
    | (q, none) => playFromActs rest q
    | (_, some _) => []

/-- The acts of playing a scenario on. -/
def playActs (p : Player σ ℓ ς) (s : Scenario) : List (Act σ ℓ ς) :=
  match p.active? with
  | none => playFromActs (s.commands.drop p.cursor.index) p
  | some a => p.advanceActs a ++
    match p.advance a with
    | (q, none) => playFromActs (s.commands.drop q.cursor.index) q
    | (_, some _) => []

/-- The act of looking a label up. -/
def fetchAct (p : Player σ ℓ ς) (label : String) : Act σ ℓ ς := ⟨_, p, _, .fetch p label⟩

/-- The acts of entering a run, whose label was looked up. -/
def enterActs (p : Player σ ℓ ς) (label : String) (page : Int) :
    Option Scenario → List (Act σ ℓ ς)
  | none => [p.finishAct .completed]
  | some s =>
    ⟨_, p, p.enterScenario s label page, .enter p s label page⟩ ::
      (p.enterScenario s label page).playActs s

/-- The acts of a tick. -/
def tickActs (p : Player σ ℓ ς) : List (Act σ ℓ ς) :=
  match p.state with
  | .loading label page =>
    if TableSource.isLoaded p.source label then
      p.fetchAct label ::
        (p.fetchAct label).after.enterActs label page (p.corpus.fetch p.source label).2
    else []
  | .running =>
    match p.scenario? with
    | none => [p.finishAct .completed]
    | some s => p.playActs s
  | _ => []

/-- The acts of an input. -/
def actsOf (p : Player σ ℓ ς) : Input σ ℓ ς → List (Act σ ℓ ς)
  | .start label page scene? =>
    [⟨_, p, p.start label page scene?, .start p label page scene?⟩]
  | .resume point =>
    [⟨_, p, p.start point.label point.page none, .start p point.label point.page none⟩]
  | .jump label => [p.jumpAct label]
  | .stop => p.finishIfUnderWayActs .stopped
  | .erase => p.finishIfUnderWayActs .erased
  | .tick => p.tickActs
  | .stage stage => [⟨_, p, _, .change (.stage p stage)⟩]
  | .loader loader => [⟨_, p, _, .change (.loader p loader)⟩]
  | .source source => [⟨_, p, _, .change (.source p source)⟩]
  | .params params => [⟨_, p, _, .change (.params p params)⟩]
  | .compile table => [⟨_, p, _, .change (.compile p table)⟩]
  | .register tag reader => [⟨_, p, _, .change (.register p tag reader)⟩]
  | .settings settings => [⟨_, p, _, .change (.settings p settings)⟩]

/-- The acts of inputs in order. -/
def actsOfAll (p : Player σ ℓ ς) : List (Input σ ℓ ς) → List (Act σ ℓ ς)
  | [] => []
  | i :: inputs => p.actsOf i ++ (p.after i).actsOfAll inputs

/-! ## The acts lead through the operations -/

theorem acts_finishIfUnderWay (p : Player σ ℓ ς) (reason : EndReason) :
    Acts p (p.finishIfUnderWayActs reason) (p.finishIfUnderWay reason) := by
  unfold finishIfUnderWayActs finishIfUnderWay
  split
  · exact .single (p.finishAct reason)
  · exact .nil p

theorem acts_handle (requests : List Command.Request) (p : Player σ ℓ ς) :
    Acts p (handleActs requests p) (handle requests p).1 := by
  induction requests generalizing p with
  | nil => exact .nil p
  | cons request rest ih =>
    cases request with
    | jump label => exact .single (p.jumpAct label)
    | endScenario => exact .single (p.finishAct .completed)
    | stop => exact p.acts_finishIfUnderWay .stopped
    | erase => exact p.acts_finishIfUnderWay .erased
    | endSceneGallery => exact .cons p.closeAct (ih p.endGalleryScene)

theorem acts_await (p : Player σ ℓ ς) (a : Active) (since : Nat) :
    Acts p (p.awaitActs a since) (p.await a since).1 := by
  unfold awaitActs
  cases hdone : (a.command.await (Stage.progress p.stage since) p.board).2 with
  | false =>
    rw [await_of_undone hdone]
    exact .nil p
  | true =>
    rw [await_of_done hdone]
    exact .cons ⟨_, p, _, .complete p a since⟩ (acts_handle _ _)

theorem acts_advance (p : Player σ ℓ ς) (a : Active) :
    Acts p (p.advanceActs a) (p.advance a).1 := by
  unfold advanceActs
  cases hphase : a.phase with
  | waiting since =>
    rw [advance_of_waiting hphase]
    exact p.acts_await a since
  | loading =>
    cases hload : p.isLoadComplete a.command with
    | false =>
      rw [advance_of_pending hphase hload]
      exact .nil p
    | true =>
      have hhandled := acts_handle (p.execute a).1.board.requests (p.execute a).1.settle
      have hrest : Acts (p.execute a).1.settle ((p.execute a).1.settle.handleAndAwaitActs
          (p.execute a).1.board.requests a (Stage.now p.stage)) (p.advance a).1 := by
        unfold handleAndAwaitActs
        rcases advance_of_loaded hphase hload with ⟨r, status, hr, hadvance⟩ | ⟨r, hr, hadvance⟩
        · rw [hr] at hhandled ⊢
          rw [hadvance, List.append_nil]
          exact hhandled
        · rw [hr] at hhandled ⊢
          rw [hadvance]
          exact hhandled.append (r.acts_await a _)
      exact .cons ⟨_, p, _, .execute p a⟩ hrest

theorem acts_turn (p : Player σ ℓ ς) (c : Command) : Acts p (p.turnActs c) (p.turn c).1 := by
  unfold turnActs turn
  split
  · exact .single ⟨_, p, _, .skip p c⟩
  · exact .cons ⟨_, p, _, .activate p c⟩ (acts_advance _ _)

theorem acts_playFrom (rest : List Command) (p : Player σ ℓ ς) :
    Acts p (playFromActs rest p) (playFrom rest p).1 := by
  induction rest generalizing p with
  | nil => exact .single (p.finishAct .completed)
  | cons c rest ih =>
    have hturn := p.acts_turn c
    unfold playFromActs playFrom
    rcases hq : p.turn c with ⟨q, status⟩
    rw [hq] at hturn
    cases status with
    | none => exact hturn.append (ih q)
    | some status =>
      rw [List.append_nil]
      exact hturn

theorem acts_play (p : Player σ ℓ ς) (s : Scenario) : Acts p (p.playActs s) (p.play s).1 := by
  unfold playActs play
  cases p.active? with
  | none => exact acts_playFrom _ _
  | some a =>
    have hadvance := p.acts_advance a
    dsimp only
    rcases hq : p.advance a with ⟨q, status⟩
    rw [hq] at hadvance
    cases status with
    | none => exact hadvance.append (acts_playFrom _ q)
    | some status =>
      rw [List.append_nil]
      exact hadvance

theorem acts_enter (p : Player σ ℓ ς) (label : String) (page : Int) :
    Acts p (p.fetchAct label ::
      (p.fetchAct label).after.enterActs label page (p.corpus.fetch p.source label).2)
      (p.enter label page).1 := by
  have henter : p.enter label page =
      match (p.corpus.fetch p.source label).2 with
      | none => ((p.fetchAct label).after.finish .completed, .halted)
      | some s => ((p.fetchAct label).after.enterScenario s label page).play s := rfl
  rw [henter]
  refine .cons (p.fetchAct label) ?_
  cases (p.corpus.fetch p.source label).2 with
  | none => exact .single (finishAct _ .completed)
  | some s => exact .cons ⟨_, _, _, .enter _ s label page⟩ (acts_play _ s)

theorem acts_tick (p : Player σ ℓ ς) : Acts p p.tickActs p.tick.1 := by
  unfold tickActs tick
  cases p.state with
  | loading label page =>
    dsimp only
    split
    · exact p.acts_enter label page
    · exact .nil p
  | running =>
    cases p.scenario? with
    | none => exact .single (p.finishAct .completed)
    | some s => exact p.acts_play s
  | idle | ended => exact .nil p

theorem acts_after (p : Player σ ℓ ς) (i : Input σ ℓ ς) : Acts p (p.actsOf i) (p.after i) := by
  cases i with
  | stop => exact p.acts_finishIfUnderWay .stopped
  | erase => exact p.acts_finishIfUnderWay .erased
  | tick => exact p.acts_tick
  | _ => exact Acts.single ⟨_, p, _, _⟩

/-- The acts of inputs lead from the player before them to the player after them. -/
theorem Acts.ofAll (p : Player σ ℓ ς) (inputs : List (Input σ ℓ ς)) :
    Acts p (p.actsOfAll inputs) (p.afterAll inputs) := by
  induction inputs generalizing p with
  | nil => exact .nil p
  | cons i inputs ih => exact (p.acts_after i).append (ih (p.after i))

end VisualNovel.Player
