import Mathlib.Logic.Function.Iterate
import VisualNovel.Proofs.Player.InStep

/-
  A run without waiting. A player whose table, assets and stage are there at once plays a run in
  strides: with each it enters the run, passes over a command, takes its assets, executes it or
  leaves it, and what is picked of the menus is given (`stride`). What it told stays told
  (`strides_grow`), and behind the end of a run there is nothing (`strides_of_ended`).
-/

namespace VisualNovel.Player

open Asset (Handle Loader)
open Scenario (Corpus TableSource)
open Stage (EndReason Progress)
open Table (CellTable)

variable {σ ℓ ς : Type}

variable [Stage σ] [Loader ℓ] [TableSource ς]
variable {verdict : Handle → Bool} {tables : String → Option CellTable}

/-! ## A player that is never kept waiting -/

/-- A stage that stands still: whether what is shown was read, and what is picked of a menu. -/
structure Still where
  isDone : Bool
  picked? : Option Nat

instance : Stage Still where
  perform stage _ := stage
  textShown stage := stage.isDone
  fadeDone stage := stage.isDone
  picked? stage := stage.picked?
  now _ := 0

/-- Assets that are there at once, with their verdicts. -/
inductive AtOnce (verdict : Handle → Bool) where
  | there

instance : Loader (AtOnce verdict) where
  request l _ := l
  state _ h := if verdict h then .loaded else .failed ""
  unload l _ := l

/-- Tables that are there at once. -/
inductive AtHand (tables : String → Option CellTable) where
  | there

instance : TableSource (AtHand tables) where
  request s _ := s
  isLoaded _ _ := true
  table? _ label := tables label

/-- A player that is never kept waiting. -/
abbrev Prompt (verdict : Handle → Bool) (tables : String → Option CellTable) : Type :=
  Player Still (AtOnce verdict) (AtHand tables)

/-- Executes the active command, and takes its requests up. -/
def carryOut (p : Player σ ℓ ς) (a : Active) : Player σ ℓ ς :=
  (handle (p.execute a).1.board.requests (p.execute a).1.settle).1

/-- Leaves the active command, of whose menu something may have been picked, and takes its
    requests up. -/
def leave (p : Player σ ℓ ς) (a : Active) (picked? : Option Nat) : Player σ ℓ ς :=
  let p := { p with board := boardPicked a.command picked? p.board }.complete a picked?
  (handle p.board.requests p.settle).1

/-- What a stage answers a command that has waited long enough. -/
def waitedOut (pick : Nat) : Progress := ⟨true, true, some pick, 0⟩

/-- One step of a run that nothing has to be waited for in: it is entered, the command at the
    cursor is passed over or takes its assets, is executed, or is left. What is picked of the
    menus of the run is given. -/
def stride (picks : Nat → Nat) (q : Prompt verdict tables) : Prompt verdict tables :=
  match q.state with
  | .loading label page =>
    match q.corpus.fetch q.source label with
    | (corpus, none) => { q with corpus }.finish .completed
    | (corpus, some s) => { q with corpus }.enterScenario s label page
  | .running =>
    match q.scenario?, q.active? with
    | none, _ => q.finish .completed
    | some s, none =>
      match s.commands[q.cursor.index]? with
      | none => q.finish .completed
      | some c =>
        if q.board.ifStack.skips c.isConditional then q.skip c else (q.activate c).1
    | some _, some a =>
      match a.phase with
      | .loading => q.carryOut a
      | .waiting _ =>
        -- as many menus are behind the player as something was picked of
        q.leave a (a.command.pick? (waitedOut (picks (picksOf q.events).length)) q.board)
  | _ => q

variable {picks : Nat → Nat} {q : Prompt verdict tables}

theorem stride_of_loading {label : String} {page : Int} (hstate : q.state = .loading label page) :
    q.stride picks =
      match q.corpus.fetch q.source label with
      | (corpus, none) => { q with corpus }.finish .completed
      | (corpus, some s) => { q with corpus }.enterScenario s label page := by
  unfold stride
  rw [hstate]

theorem stride_of_unset (hstate : q.state = .running) (hs : q.scenario? = none) :
    q.stride picks = q.finish .completed := by
  unfold stride
  rw [hstate, hs]

theorem stride_of_stands {s : Scenario} (hq : q.Stands s) :
    q.stride picks =
      match s.commands[q.cursor.index]? with
      | none => q.finish .completed
      | some c =>
        if q.board.ifStack.skips c.isConditional then q.skip c else (q.activate c).1 := by
  unfold stride
  rw [hq.state, hq.scenario, hq.idle]

theorem stride_of_assets {s : Scenario} {a : Active} (hq : q.Plays s a)
    (hphase : a.phase = .loading) : q.stride picks = q.carryOut a := by
  unfold stride
  rw [hq.state, hq.scenario, hq.active]
  dsimp only
  rw [hphase]

theorem stride_of_waiting {s : Scenario} {a : Active} {since : Nat} (hq : q.Plays s a)
    (hphase : a.phase = .waiting since) :
    q.stride picks =
      q.leave a (a.command.pick? (waitedOut (picks (picksOf q.events).length)) q.board) := by
  unfold stride
  rw [hq.state, hq.scenario, hq.active]
  dsimp only
  rw [hphase]

theorem stride_of_ended (hq : q.state.isEnded = true) : q.stride picks = q := by
  unfold stride
  cases hstate : q.state with
  | loading | running =>
    rw [hstate] at hq
    cases hq
  | idle | ended => rfl

/-! ## What strides tell -/

variable {p : Player σ ℓ ς}

omit [TableSource ς] in
theorem finish_grows (p : Player σ ℓ ς) (reason : EndReason) :
    ∃ es, (p.finish reason).events = p.events ++ es := by
  rw [finish_eq]
  exact ⟨_, events_append rfl⟩

theorem carryOut_grows {s : Scenario} {a : Active} (hplays : p.Plays s a) :
    ∃ es, (p.carryOut a).events = p.events ++ es := by
  have hexecuted : (p.execute a).1.settle.events = p.events ++ p.executedEvents a :=
    p.execute_events a
  have hmoves : Moves (p.execute a).1.settle (p.carryOut a) :=
    handle_moves (execute_plays hplays).state rfl
  obtain ⟨fs, hfs⟩ := hmoves.grows
  exact ⟨p.executedEvents a ++ fs, by rw [hfs, hexecuted, List.append_assoc]⟩

theorem leave_grows (hp : p.state = .running) (a : Active) (picked? : Option Nat) :
    ∃ es, (p.leave a picked?).events = p.events ++ es := by
  let done := { p with board := boardPicked a.command picked? p.board }.complete a picked?
  have hdone : done.settle.events = p.events ++ p.doneEvents a picked? := by
    dsimp only [done]
    rw [complete_eq]
    exact events_append rfl
  have hstate : done.settle.state = .running := by
    dsimp only [done]
    rw [complete_eq]
    exact hp
  have hmoves : Moves done.settle (p.leave a picked?) := handle_moves hstate rfl
  obtain ⟨fs, hfs⟩ := hmoves.grows
  exact ⟨p.doneEvents a picked? ++ fs, by rw [hfs, hdone, List.append_assoc]⟩

/-- What was told stays told with a stride. -/
theorem stride_grows (picks : Nat → Nat) (q : Prompt verdict tables) :
    ∃ es, (q.stride picks).events = q.events ++ es := by
  cases hstate : q.state with
  | loading label page =>
    rw [stride_of_loading hstate]
    rcases q.corpus.fetch q.source label with ⟨corpus, scenario?⟩
    cases scenario? with
    | none => exact finish_grows { q with corpus } _
    | some s =>
      dsimp only
      rw [enterScenario_eq]
      exact ⟨_, events_append rfl⟩
  | running =>
    cases hs : q.scenario? with
    | none =>
      rw [stride_of_unset hstate hs]
      exact q.finish_grows _
    | some s =>
      cases ha : q.active? with
      | none =>
        rw [stride_of_stands ⟨hstate, hs, ha⟩]
        cases s.commands[q.cursor.index]? with
        | none => exact q.finish_grows _
        | some c =>
          dsimp only
          split
          · rw [skip_eq]
            exact ⟨_, events_append rfl⟩
          · rw [activate_eq]
            exact ⟨_, events_append rfl⟩
      | some a =>
        have hplays : q.Plays s a := ⟨hstate, hs, ha⟩
        cases hphase : a.phase with
        | loading =>
          rw [stride_of_assets hplays hphase]
          exact carryOut_grows hplays
        | waiting since =>
          rw [stride_of_waiting hplays hphase]
          exact leave_grows hstate a _
  | idle | ended =>
    refine ⟨[], ?_⟩
    unfold stride
    rw [hstate, List.append_nil]

theorem strides_grow (picks : Nat → Nat) (q : Prompt verdict tables) (n : Nat) :
    ∃ es, ((stride picks)^[n] q).events = q.events ++ es := by
  induction n with
  | zero => exact ⟨[], (List.append_nil _).symm⟩
  | succ n ih =>
    obtain ⟨es, hes⟩ := ih
    obtain ⟨fs, hfs⟩ := stride_grows picks ((stride picks)^[n] q)
    refine ⟨es ++ fs, ?_⟩
    rw [Function.iterate_succ_apply', hfs, hes, List.append_assoc]

theorem strides_of_ended (hq : q.state.isEnded = true) (n : Nat) : (stride picks)^[n] q = q :=
  Function.iterate_fixed (stride_of_ended hq) n

/-- The run of a player that is never kept waiting, at its beginning. -/
def promptStart (corpus : Corpus) (params : Expression.Params) (galleryLabels : List String)
    (history? : Option History.ReadHistory) (label : String) (page : Int)
    (gallery? : Option String) : Prompt verdict tables :=
  (ready ⟨true, none⟩ .there .there corpus 0 params galleryLabels history?).start label page
    gallery?

end VisualNovel.Player
