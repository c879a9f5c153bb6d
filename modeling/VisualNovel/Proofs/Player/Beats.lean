import Mathlib.Logic.Relation
import VisualNovel.Proofs.Player.Events

/-
  Playing beat by beat. While a run goes on, the command at the cursor is passed over or takes its
  assets, is executed, and is left when it is done (`Beat`); the last beat of a run closes it
  (`Close`). Playing on is beats, and after them the player waits or its run is closed
  (`play_ends`). The states in between where the command at the cursor has its turn are the
  stations of a tick.
-/

namespace VisualNovel.Player

open Asset (Loader)
open Scenario (Corpus TableSource)

variable {σ ℓ ς : Type}

/-! ## States -/

/-- The player whose commands' requests are taken up. -/
def settle (p : Player σ ℓ ς) : Player σ ℓ ς := { p with board := p.board.settle }

@[simp] theorem settle_cursor (p : Player σ ℓ ς) : p.settle.cursor = p.cursor := rfl

/-- A scenario is played, and the command at the cursor is next. -/
structure Stands (p : Player σ ℓ ς) (s : Scenario) : Prop where
  state : p.state = .running
  scenario : p.scenario? = some s
  idle : p.active? = none

/-- A scenario is played, and a command has its turn. -/
structure Plays (p : Player σ ℓ ς) (s : Scenario) (a : Active) : Prop where
  state : p.state = .running
  scenario : p.scenario? = some s
  active : p.active? = some a

/-- What a command's requests leave as it is when the run goes on. -/
structure GoesOn (p q : Player σ ℓ ς) : Prop where
  state : q.state = p.state
  scenario : q.scenario? = p.scenario?
  active : q.active? = p.active?
  cursor : q.cursor = p.cursor
  board : q.board = p.board
  stage : q.stage = p.stage

theorem goesOn_refl (p : Player σ ℓ ς) : GoesOn p p := ⟨rfl, rfl, rfl, rfl, rfl, rfl⟩

theorem GoesOn.trans {p q r : Player σ ℓ ς} (hpq : GoesOn p q) (hqr : GoesOn q r) : GoesOn p r :=
  ⟨hqr.state.trans hpq.state, hqr.scenario.trans hpq.scenario, hqr.active.trans hpq.active,
    hqr.cursor.trans hpq.cursor, hqr.board.trans hpq.board, hqr.stage.trans hpq.stage⟩

theorem goesOn_endGalleryScene (p : Player σ ℓ ς) : GoesOn p p.endGalleryScene := by
  obtain ⟨history?, es, -, -, -, -, heq⟩ := p.endGalleryScene_eq
  rw [heq]
  exact ⟨rfl, rfl, rfl, rfl, rfl, rfl⟩

theorem isUnderWay_of_running {p : Player σ ℓ ς} (hp : p.state = .running) :
    p.state.isUnderWay = true := by
  rw [hp]
  rfl

variable [Stage σ] [Loader ℓ] [TableSource ς]

/-! ## Waiting -/

/-- A command that is not done yet leaves the board as it is. -/
theorem await_undone {c : Command} {progress : Stage.Progress} {b : Command.Board}
    (h : (c.await progress b).2 = false) : (c.await progress b).1 = b := by
  unfold Command.await at h ⊢
  split at h <;> try rfl
  unfold Command.Board.awaitPick at h ⊢
  split at h
  · cases h
  · rename_i hne
    rw [if_neg hne]
    split at h
    · rfl
    · split at h <;> cases h

/-- A command that is not done is waited for. -/
theorem await_of_undone {p : Player σ ℓ ς} {a : Active} {since : Nat}
    (h : (a.command.await (Stage.progress p.stage since) p.board).2 = false) :
    p.await a since = (p, some (.suspended .commandWait)) := by
  have hboard := await_undone h
  unfold await
  dsimp only
  rw [h, hboard]
  rfl

/-- A command that is done is left, and its requests are taken up. -/
theorem await_of_done {p : Player σ ℓ ς} {a : Active} {since : Nat}
    (h : (a.command.await (Stage.progress p.stage since) p.board).2 = true) :
    p.await a since =
      handle (p.completed a since).board.requests (p.completed a since).settle := by
  unfold await
  dsimp only
  rw [h]
  rfl

/-- A command that was executed is asked whether it is done. -/
theorem advance_of_waiting {p : Player σ ℓ ς} {a : Active} {since : Nat}
    (hphase : a.phase = .waiting since) : p.advance a = p.await a since := by
  unfold advance
  rw [hphase]

/-- A command whose assets are not there is waited for. -/
theorem advance_of_pending {p : Player σ ℓ ς} {a : Active} (hphase : a.phase = .loading)
    (h : p.isLoadComplete a.command = false) :
    p.advance a = (p, some (.suspended .resourceLoad)) := by
  unfold advance
  rw [hphase]
  dsimp only
  rw [h]
  rfl

/-- A command whose assets are there is executed, and if its requests let the run go on, it is
    waited for. -/
theorem advance_of_loaded {p : Player σ ℓ ς} {a : Active} (hphase : a.phase = .loading)
    (h : p.isLoadComplete a.command = true) :
    (∃ r status, handle (p.execute a).1.board.requests (p.execute a).1.settle = (r, some status) ∧
      p.advance a = (r, some status)) ∨
    (∃ r, handle (p.execute a).1.board.requests (p.execute a).1.settle = (r, none) ∧
      p.advance a = r.await a (Stage.now p.stage)) := by
  have hsince : (p.execute a).2 = Stage.now p.stage := by rw [execute_eq]
  rcases hr : handle (p.execute a).1.board.requests (p.execute a).1.settle with ⟨r, status⟩
  have hrequests : (p.execute a).1.handleRequests = (r, status) := hr
  unfold advance
  rw [hphase]
  dsimp only
  rw [h, if_pos rfl, hrequests, hsince]
  cases status with
  | some status => exact Or.inl ⟨r, status, rfl, rfl⟩
  | none => exact Or.inr ⟨r, rfl, rfl⟩

/-! ## Beats -/

/-- A step of a run that goes on. The states in which a command has its turn are of `V`. -/
inductive Beat (V : Player σ ℓ ς → Prop) : Player σ ℓ ς → Player σ ℓ ς → Prop
  | skip {p : Player σ ℓ ς} {s : Scenario} {c : Command} (hv : V p) (hp : p.Stands s)
      (hc : s.commands[p.cursor.index]? = some c)
      (hskip : p.board.ifStack.skips c.isConditional = true) : Beat V p (p.skip c)
  | activate {p : Player σ ℓ ς} {s : Scenario} {c : Command} (hv : V p) (hp : p.Stands s)
      (hc : s.commands[p.cursor.index]? = some c)
      (hskip : p.board.ifStack.skips c.isConditional = false) : Beat V p (p.activate c).1
  | execute {p r : Player σ ℓ ς} {s : Scenario} {a : Active} (hp : p.Plays s a)
      (hphase : a.phase = .loading) (hload : p.isLoadComplete a.command = true)
      (hr : handle (p.execute a).1.board.requests (p.execute a).1.settle = (r, none)) : Beat V p r
  | leave {p r : Player σ ℓ ς} {s : Scenario} {a : Active} {since : Nat} (hp : p.Plays s a)
      (hphase : a.phase = .waiting since)
      (hdone : (a.command.await (Stage.progress p.stage since) p.board).2 = true)
      (hr : handle (p.completed a since).board.requests (p.completed a since).settle = (r, none)) :
      Beat V p r

/-- The last step of a run: a request closes it, or its commands are at an end. -/
inductive Close : Player σ ℓ ς → Player σ ℓ ς → Prop
  | execute {p r : Player σ ℓ ς} {s : Scenario} {a : Active} {status : Status} (hp : p.Plays s a)
      (hphase : a.phase = .loading) (hload : p.isLoadComplete a.command = true)
      (hr : handle (p.execute a).1.board.requests (p.execute a).1.settle = (r, some status)) :
      Close p r
  | leave {p r : Player σ ℓ ς} {s : Scenario} {a : Active} {since : Nat} {status : Status}
      (hp : p.Plays s a) (hphase : a.phase = .waiting since)
      (hdone : (a.command.await (Stage.progress p.stage since) p.board).2 = true)
      (hr : handle (p.completed a since).board.requests (p.completed a since).settle =
        (r, some status)) : Close p r
  | finish {p : Player σ ℓ ς} {s : Scenario} (hp : p.Stands s)
      (hend : s.commands.drop p.cursor.index = []) : Close p (p.finish .completed)

/-- Any number of beats. -/
abbrev Beats (V : Player σ ℓ ς → Prop) : Player σ ℓ ς → Player σ ℓ ς → Prop :=
  Relation.ReflTransGen (Beat V)

/-- A command has its turn, and the player waits for something. -/
def Waits (p : Player σ ℓ ς) : Prop := ∃ s a, p.Plays s a

/-- What comes of the turn of the command at a place: the run goes on behind it, the player
    waits, or the run is closed. -/
inductive Goes (V : Player σ ℓ ς → Prop) (p : Player σ ℓ ς) (s : Scenario) (i : Nat) :
    Player σ ℓ ς × Option Status → Prop
  | on {q : Player σ ℓ ς} (hbeats : Beats V p q) (hq : q.Stands s)
      (hindex : q.cursor.index = i + 1) : Goes V p s i (q, none)
  | waits {q : Player σ ℓ ς} {status : Status} (hbeats : Beats V p q) (hq : Waits q) :
      Goes V p s i (q, some status)
  | closed {q r : Player σ ℓ ς} {status : Status} (hbeats : Beats V p q) (hclose : Close q r) :
      Goes V p s i (r, some status)

/-- What comes of playing on: the player waits, or the run is closed. -/
inductive Ends (V : Player σ ℓ ς → Prop) (p : Player σ ℓ ς) : Player σ ℓ ς → Prop
  | waits {q : Player σ ℓ ς} (hbeats : Beats V p q) (hq : Waits q) : Ends V p q
  | closed {q r : Player σ ℓ ς} (hbeats : Beats V p q) (hclose : Close q r) : Ends V p r

variable {V : Player σ ℓ ς → Prop}

theorem Goes.head {p q : Player σ ℓ ς} {s : Scenario} {i : Nat}
    {r : Player σ ℓ ς × Option Status} (h : Beat V p q) (hr : Goes V q s i r) : Goes V p s i r := by
  cases hr with
  | on hbeats hq hindex => exact .on (.head h hbeats) hq hindex
  | waits hbeats hq => exact .waits (.head h hbeats) hq
  | closed hbeats hclose => exact .closed (.head h hbeats) hclose

/-- A run that goes on stands behind the command. -/
theorem Goes.on_of_none {p : Player σ ℓ ς} {s : Scenario} {i : Nat}
    {r : Player σ ℓ ς × Option Status} (h : Goes V p s i r) (hr : r.2 = none) :
    r.1.Stands s ∧ r.1.cursor.index = i + 1 := by
  cases h with
  | on _ hq hindex => exact ⟨hq, hindex⟩
  | waits | closed => cases hr

theorem Ends.behind {p q r : Player σ ℓ ς} (h : Beats V p q) (hr : Ends V q r) : Ends V p r := by
  cases hr with
  | waits hbeats hq => exact .waits (h.trans hbeats) hq
  | closed hbeats hclose => exact .closed (h.trans hbeats) hclose

/-- Requests that let the run go on leave what it is made of as it is. -/
theorem handle_goesOn {requests : List Command.Request} {p r : Player σ ℓ ς}
    (h : handle requests p = (r, none)) : GoesOn p r := by
  induction requests generalizing p with
  | nil =>
    obtain ⟨rfl, -⟩ := Prod.mk.inj h
    exact goesOn_refl p
  | cons request rest ih =>
    cases request with
    | endSceneGallery => exact (goesOn_endGalleryScene p).trans (ih h)
    | jump | endScenario | stop | erase => cases h

omit [TableSource ς] in
theorem execute_plays {p : Player σ ℓ ς} {s : Scenario} {a : Active} (hp : p.Plays s a) :
    (p.execute a).1.settle.Plays s { a with phase := .waiting (Stage.now p.stage) } :=
  ⟨(p.execute_state a).trans hp.state, (p.execute_scenario a).trans hp.scenario,
    p.execute_active a⟩

omit [TableSource ς] in
theorem completed_stands {p : Player σ ℓ ς} {s : Scenario} {a : Active} (hp : p.Plays s a)
    (since : Nat) : (p.completed a since).settle.Stands s :=
  ⟨(p.completed_state a since).trans hp.state, (p.completed_scenario a since).trans hp.scenario,
    p.completed_active a since⟩

omit [Stage σ] [Loader ℓ] [TableSource ς] in
theorem GoesOn.plays {p q : Player σ ℓ ς} {s : Scenario} {a : Active} (h : GoesOn p q)
    (hp : p.Plays s a) : q.Plays s a :=
  ⟨h.state.trans hp.state, h.scenario.trans hp.scenario, h.active.trans hp.active⟩

omit [Stage σ] [Loader ℓ] [TableSource ς] in
theorem GoesOn.stands {p q : Player σ ℓ ς} {s : Scenario} (h : GoesOn p q) (hp : p.Stands s) :
    q.Stands s :=
  ⟨h.state.trans hp.state, h.scenario.trans hp.scenario, h.active.trans hp.idle⟩

/-! ## Turns -/

theorem await_goes {p : Player σ ℓ ς} {s : Scenario} {a : Active} {since : Nat}
    (hp : p.Plays s a) (hphase : a.phase = .waiting since) :
    Goes V p s a.index (p.await a since) := by
  cases hdone : (a.command.await (Stage.progress p.stage since) p.board).2 with
  | false =>
    rw [await_of_undone hdone]
    exact .waits .refl ⟨s, a, hp⟩
  | true =>
    rw [await_of_done hdone]
    rcases hr : handle (p.completed a since).board.requests (p.completed a since).settle
      with ⟨r, status⟩
    cases status with
    | some status => exact .closed .refl (.leave hp hphase hdone hr)
    | none =>
      have hgo := handle_goesOn hr
      refine .on (.single (.leave hp hphase hdone hr)) (hgo.stands (completed_stands hp since)) ?_
      rw [hgo.cursor, settle_cursor, completed_cursor]

theorem advance_goes {p : Player σ ℓ ς} {s : Scenario} {a : Active} (hp : p.Plays s a) :
    Goes V p s a.index (p.advance a) := by
  cases hphase : a.phase with
  | waiting since =>
    rw [advance_of_waiting hphase]
    exact await_goes hp hphase
  | loading =>
    cases hload : p.isLoadComplete a.command with
    | false =>
      rw [advance_of_pending hphase hload]
      exact .waits .refl ⟨s, a, hp⟩
    | true =>
      rcases advance_of_loaded hphase hload with ⟨r, status, hr, hadvance⟩ | ⟨r, hr, hadvance⟩
      · rw [hadvance]
        exact .closed .refl (.execute hp hphase hload hr)
      · -- the active command is the one that was executed, but for its phase
        have hplays := (handle_goesOn hr).plays (execute_plays hp)
        have hawait : Goes V r s a.index (r.await a (Stage.now p.stage)) :=
          await_goes (a := { a with phase := .waiting _ }) hplays rfl
        rw [hadvance]
        exact .head (.execute hp hphase hload hr) hawait

omit [Stage σ] [TableSource ς] in
/-- A command that took its assets has its turn. -/
theorem activate_plays {p : Player σ ℓ ς} {s : Scenario} (hp : p.Stands s) (c : Command) :
    (p.activate c).1.Plays s (p.activate c).2 := by
  rw [activate_eq]
  exact ⟨hp.state, hp.scenario, rfl⟩

theorem turn_goes {p : Player σ ℓ ς} {s : Scenario} {c : Command} (hv : V p) (hp : p.Stands s)
    (hc : s.commands[p.cursor.index]? = some c) : Goes V p s p.cursor.index (p.turn c) := by
  unfold turn
  cases hskip : p.board.ifStack.skips c.isConditional with
  | true =>
    rw [if_pos rfl]
    refine .on (.single (.skip hv hp hc hskip)) ?_ ?_
    · rw [skip_eq]
      exact ⟨hp.state, hp.scenario, hp.idle⟩
    · rw [skip_eq]
  | false =>
    rw [if_neg (by simp)]
    have hplays := activate_plays hp c
    have hindex : (p.activate c).2.index = p.cursor.index := rfl
    exact .head (.activate hv hp hc hskip) (hindex ▸ advance_goes hplays)

/-! ## Stations -/

/-- The states of a player that plays commands in order, each before the next command. -/
def stationsFrom : List Command → Player σ ℓ ς → List (Player σ ℓ ς)
  | [], p => [p]
  | c :: rest, p =>
    p ::
      match p.turn c with
      | (p, none) => stationsFrom rest p
      | (_, some _) => []

/-- The states of a player that plays a scenario on, each before the next command. -/
def stationsIn (p : Player σ ℓ ς) (s : Scenario) : List (Player σ ℓ ς) :=
  match p.active? with
  | none => stationsFrom (s.commands.drop p.cursor.index) p
  | some a =>
    match p.advance a with
    | (p, none) => stationsFrom (s.commands.drop p.cursor.index) p
    | (_, some _) => []

/-- The states that a tick passes through where the next command is at the cursor. -/
def stations (p : Player σ ℓ ς) : List (Player σ ℓ ς) :=
  match p.state with
  | .loading label page =>
    if TableSource.isLoaded p.source label then
      let (corpus, scenario?) := p.corpus.fetch p.source label
      match scenario? with
      | none => []
      | some s => ({ p with corpus }.enterScenario s label page).stationsIn s
    else []
  | .running =>
    match p.scenario? with
    | none => []
    | some s => p.stationsIn s
  | _ => []

/-! ## Playing on -/

omit [Stage σ] [Loader ℓ] [TableSource ς] in
/-- The first of the commands from a place on is at the place, and the others are behind it. -/
theorem next_of_drop {s : Scenario} {i : Nat} {c : Command} {rest : List Command}
    (h : s.commands.drop i = c :: rest) :
    s.commands[i]? = some c ∧ s.commands.drop (i + 1) = rest := by
  constructor
  · rw [← List.head?_drop, h]
    rfl
  · rw [← List.tail_drop, h]
    rfl

theorem playFrom_ends {s : Scenario} (rest : List Command) {p : Player σ ℓ ς}
    (hv : ∀ q ∈ stationsFrom rest p, V q) (hp : p.Stands s)
    (hrest : s.commands.drop p.cursor.index = rest) : Ends V p (playFrom rest p).1 := by
  induction rest generalizing p with
  | nil => exact .closed .refl (.finish hp hrest)
  | cons c rest ih =>
    obtain ⟨hc, hbehind⟩ := next_of_drop hrest
    have hgoes := turn_goes (V := V) (hv p List.mem_cons_self) hp hc
    unfold stationsFrom at hv
    unfold playFrom
    rcases hturn : p.turn c with ⟨q, status⟩
    rw [hturn] at hgoes hv
    cases hgoes with
    | on hbeats hq hindex =>
      have hdrop : s.commands.drop q.cursor.index = rest := by rw [hindex, hbehind]
      exact .behind hbeats (ih (fun r hr => hv r (List.mem_cons_of_mem _ hr)) hq hdrop)
    | waits hbeats hq => exact .waits hbeats hq
    | closed hbeats hclose => exact .closed hbeats hclose

/-- Playing on is beats, until the player waits or its run is closed. -/
theorem play_ends {p : Player σ ℓ ς} {s : Scenario} (hv : ∀ q ∈ p.stationsIn s, V q)
    (hstate : p.state = .running) (hs : p.scenario? = some s) : Ends V p (p.play s).1 := by
  unfold stationsIn at hv
  unfold play
  cases ha : p.active? with
  | none =>
    rw [ha] at hv
    exact playFrom_ends _ hv ⟨hstate, hs, ha⟩ rfl
  | some a =>
    rw [ha] at hv
    have hgoes := advance_goes (V := V) (p := p) ⟨hstate, hs, ha⟩
    dsimp only at hv ⊢
    rcases hadvance : p.advance a with ⟨q, status⟩
    rw [hadvance] at hgoes hv
    cases hgoes with
    | on hbeats hq hindex => exact .behind hbeats (playFrom_ends _ hv hq rfl)
    | waits hbeats hq => exact .waits hbeats hq
    | closed hbeats hclose => exact .closed hbeats hclose

theorem tick_of_loaded {p : Player σ ℓ ς} {label : String} {page : Int}
    (hstate : p.state = .loading label page)
    (hloaded : TableSource.isLoaded p.source label = true) : p.tick = p.enter label page := by
  unfold tick
  rw [hstate]
  exact if_pos hloaded

theorem tick_of_unloaded {p : Player σ ℓ ς} {label : String} {page : Int}
    (hstate : p.state = .loading label page)
    (hloaded : TableSource.isLoaded p.source label = false) :
    p.tick = (p, .suspended .labelLoad) := by
  unfold tick
  rw [hstate]
  exact if_neg (by simp [hloaded])

/-- A run whose table is there is entered. -/
theorem tick_of_fetched {p : Player σ ℓ ς} {label : String} {page : Int} {corpus : Corpus}
    {s : Scenario} (hstate : p.state = .loading label page)
    (hloaded : TableSource.isLoaded p.source label = true)
    (hfetch : p.corpus.fetch p.source label = (corpus, some s)) :
    p.tick = ({ p with corpus }.enterScenario s label page).play s := by
  rw [tick_of_loaded hstate hloaded]
  unfold enter
  rw [hfetch]

/-- A run for a label that no table has ends. -/
theorem tick_of_missing {p : Player σ ℓ ς} {label : String} {page : Int} {corpus : Corpus}
    (hstate : p.state = .loading label page)
    (hloaded : TableSource.isLoaded p.source label = true)
    (hfetch : p.corpus.fetch p.source label = (corpus, none)) :
    p.tick = ({ p with corpus }.finish .completed, .halted) := by
  rw [tick_of_loaded hstate hloaded]
  unfold enter
  rw [hfetch]

theorem tick_of_running {p : Player σ ℓ ς} {s : Scenario} (hstate : p.state = .running)
    (hs : p.scenario? = some s) : p.tick = p.play s := by
  unfold tick
  rw [hstate, hs]

end VisualNovel.Player
