import VisualNovel.Proofs.Player.Calls

/-
  The life of a command. Played to its end a command begins to load, is asked for its assets until
  they are there, is executed once behind a move of the window, is asked whether it is done until it
  is, and is released once (`lifecycle`). A run visits the commands from the place on where it was
  entered, one after the other, and each is passed over or played to its end; where the run is left
  amid a command, this one is released at once, and the run calls nothing more (`IsRun`). Whatever
  comes to a player from outside, its calls are those of such runs (`Follows.afterAll`).
-/

namespace VisualNovel.Player

open Asset (Loader)
open Scenario (Corpus TableSource)
open Stage (EndReason)

/-! ## Runs as calls -/

/-- The life of a command: it is asked in vain `n` times for its assets and `m` times whether it
    is done. -/
def lifecycle (n m : Nat) : List Step :=
  .begun :: (List.replicate n (.loadPolled false) ++ .loadPolled true :: .windowMoved ::
    .executed :: (List.replicate m (.waitPolled false) ++ [.waitPolled true, .released]))

/-- The beginning of the life of a command, but not all of it. -/
structure IsPart (steps : List Step) : Prop where
  begun : steps ≠ []
  unfinished : ∃ n m, steps <+: lifecycle n m ∧ steps ≠ lifecycle n m

/-- The commands of a scenario from a place on were visited up to another, in order: each was
    passed over or played to its end. -/
inductive Visited (s : Scenario) (i : Nat) : Nat → List Call → Prop
  | none : Visited s i i []
  | skip {j : Nat} {c : Command} {calls : List Call} (h : Visited s i j calls)
      (hc : s.commands[j]? = some c) : Visited s i (j + 1) (calls ++ [.command j c .skipped])
  | play {j : Nat} {c : Command} {calls : List Call} (h : Visited s i j calls)
      (hc : s.commands[j]? = some c) (n m : Nat) :
      Visited s i (j + 1) (calls ++ (lifecycle n m).map (.command j c))

/-- A run that goes on: commands were visited, and perhaps the next one began. -/
def IsUnderWay (calls : List Call) : Prop :=
  ∃ s cursor j visited current, calls = .entered s cursor :: (visited ++ current) ∧
    Visited s cursor.index j visited ∧
    (current = [] ∨ ∃ c steps, s.commands[j]? = some c ∧ IsPart steps ∧
      current = steps.map (.command j c))

/-- A run that was left: commands were visited, and if the next one began, it was released. -/
def IsRun (calls : List Call) : Prop :=
  ∃ s cursor j visited current, calls = .entered s cursor :: (visited ++ current ++ [.left]) ∧
    Visited s cursor.index j visited ∧
    (current = [] ∨ ∃ c steps, s.commands[j]? = some c ∧ IsPart steps ∧
      current = (steps ++ [Step.released]).map (.command j c))

/-- Whether a call is one between runs. -/
def Call.isBetween : Call → Bool
  | asked .. | labelPolled .. | left => true
  | _ => false

/-- Runs that were left, one after the other, with calls between them. -/
inductive Played : List Call → Prop
  | none : Played []
  | between {calls : List Call} {call : Call} (h : Played calls) (hcall : call.isBetween = true) :
      Played (calls ++ [call])
  | run {calls run : List Call} (h : Played calls) (hrun : IsRun run) : Played (calls ++ run)

/-! ## Phases -/

/-- What was done to a command that is in a phase. -/
def Reached : Phase → List Step → Prop
  | .loading, steps => ∃ n, steps = .begun :: List.replicate n (.loadPolled false)
  | .waiting _, steps => ∃ n m, steps = .begun :: (List.replicate n (.loadPolled false) ++
      .loadPolled true :: .windowMoved :: .executed :: List.replicate m (.waitPolled false))

theorem Reached.isPart {phase : Phase} {steps : List Step} (h : Reached phase steps) :
    IsPart steps := by
  cases phase with
  | loading =>
    obtain ⟨n, rfl⟩ := h
    refine ⟨List.cons_ne_nil _ _, n, 0, ⟨_, rfl⟩, fun heq => ?_⟩
    have hlength := congrArg List.length heq
    simp [lifecycle] at hlength
  | waiting =>
    obtain ⟨n, m, rfl⟩ := h
    refine ⟨List.cons_ne_nil _ _, n, m, ⟨[.waitPolled true, .released], ?_⟩, fun heq => ?_⟩
    · simp [lifecycle]
    · have hlength := congrArg List.length heq
      simp [lifecycle] at hlength

theorem Reached.load {steps : List Step} (h : Reached .loading steps) :
    Reached .loading (steps ++ [.loadPolled false]) := by
  obtain ⟨n, rfl⟩ := h
  exact ⟨n + 1, by rw [List.replicate_succ']; rfl⟩

theorem Reached.execute {steps : List Step} (h : Reached .loading steps) (since : Nat) :
    Reached (.waiting since)
      (steps ++ [.loadPolled true] ++ [.windowMoved] ++ [.executed]) := by
  obtain ⟨n, rfl⟩ := h
  exact ⟨n, 0, by simp⟩

theorem Reached.wait {steps : List Step} {since : Nat} (h : Reached (.waiting since) steps) :
    Reached (.waiting since) (steps ++ [.waitPolled false]) := by
  obtain ⟨n, m, rfl⟩ := h
  exact ⟨n, m + 1, by simp [List.replicate_succ']⟩

theorem Reached.release {steps : List Step} {since : Nat} (h : Reached (.waiting since) steps) :
    ∃ n m, steps ++ [.waitPolled true] ++ [.released] = lifecycle n m := by
  obtain ⟨n, m, rfl⟩ := h
  exact ⟨n, m, by simp [lifecycle]⟩

/-! ## Places in a run -/

/-- The calls lead to a place of a scenario, between two commands. -/
def Between (calls : List Call) (s : Scenario) (i : Nat) : Prop :=
  ∃ before cursor visited, calls = before ++ .entered s cursor :: visited ∧ Played before ∧
    Visited s cursor.index i visited

/-- The calls lead to a command of a scenario that has its turn, and these are its last. -/
def Amid (calls : List Call) (s : Scenario) (a : Active) (steps : List Step) : Prop :=
  ∃ before cursor visited, calls = before ++ .entered s cursor :: (visited ++ steps.map a.call) ∧
    Played before ∧ Visited s cursor.index a.index visited ∧
    s.commands[a.index]? = some a.command

theorem Played.enter {calls : List Call} (h : Played calls) (s : Scenario) (cursor : Cursor) :
    Between (calls ++ [.entered s cursor]) s cursor.index :=
  ⟨calls, cursor, [], rfl, h, .none⟩

section Places

variable {calls : List Call} {s : Scenario}

theorem Between.skip {i : Nat} (h : Between calls s i) {c : Command}
    (hc : s.commands[i]? = some c) : Between (calls ++ [.command i c .skipped]) s (i + 1) := by
  obtain ⟨before, cursor, visited, rfl, hbefore, hvisited⟩ := h
  exact ⟨before, cursor, _, List.append_assoc _ _ _, hbefore, hvisited.skip hc⟩

theorem Between.begin {i : Nat} (h : Between calls s i) {c : Command}
    (hc : s.commands[i]? = some c) (phase : Phase) :
    Amid (calls ++ [.command i c .begun]) s ⟨i, c, phase⟩ [.begun] := by
  obtain ⟨before, cursor, visited, rfl, hbefore, hvisited⟩ := h
  exact ⟨before, cursor, visited, List.append_assoc _ _ _, hbefore, hvisited, hc⟩

theorem Between.left {i : Nat} (h : Between calls s i) : Played (calls ++ [.left]) := by
  obtain ⟨before, cursor, visited, rfl, hbefore, hvisited⟩ := h
  have hrun : IsRun (.entered s cursor :: (visited ++ [] ++ [.left])) :=
    ⟨s, cursor, i, visited, [], rfl, hvisited, Or.inl rfl⟩
  rw [List.append_assoc]
  rw [List.append_nil] at hrun
  exact hbefore.run hrun

variable {a : Active} {steps : List Step}

theorem Amid.step (h : Amid calls s a steps) (step : Step) :
    Amid (calls ++ [a.call step]) s a (steps ++ [step]) := by
  obtain ⟨before, cursor, visited, rfl, hbefore, hvisited, hc⟩ := h
  exact ⟨before, cursor, visited, by simp, hbefore, hvisited, hc⟩

/-- A command that was played to its end is visited. -/
theorem Amid.between {n m : Nat} (h : Amid calls s a (lifecycle n m)) :
    Between calls s (a.index + 1) := by
  obtain ⟨before, cursor, visited, rfl, hbefore, hvisited, hc⟩ := h
  exact ⟨before, cursor, _, rfl, hbefore, hvisited.play hc n m⟩

theorem Amid.left (h : Amid calls s a steps) (hsteps : IsPart steps) :
    Played (calls ++ [a.call .released] ++ [.left]) := by
  obtain ⟨before, cursor, visited, rfl, hbefore, hvisited, hc⟩ := h
  have hrun : IsRun (.entered s cursor ::
      (visited ++ (steps ++ [Step.released]).map a.call ++ [.left])) :=
    ⟨s, cursor, a.index, visited, _, rfl, hvisited, Or.inr ⟨a.command, steps, hc, hsteps, rfl⟩⟩
  simpa using hbefore.run hrun

end Places

/-! ## Following -/

variable {σ ℓ ς : Type}

/-- The calls of a player led to where it is. -/
inductive Follows (t : Recorded σ ℓ ς) : Prop
  | out (hstate : t.player.state ≠ .running) (hidle : t.player.active? = none)
      (hplayed : Played t.calls)
  | between {s : Scenario} (hp : t.player.Stands s)
      (hplace : Between t.calls s t.player.cursor.index)
  | amid {s : Scenario} {a : Active} {steps : List Step} (hp : t.player.Plays s a)
      (hsteps : Reached a.phase steps) (hplace : Amid t.calls s a steps)

section Recorded

variable {t u : Recorded σ ℓ ς} {s : Scenario}

theorem Follows.place (h : Follows t) (hp : t.player.Stands s) :
    Between t.calls s t.player.cursor.index := by
  cases h with
  | out hstate => exact absurd hp.state hstate
  | between hp' hplace =>
    obtain rfl := Option.some.inj (hp.scenario.symm.trans hp'.scenario)
    exact hplace
  | amid hp' =>
    have hactive := hp.idle.symm.trans hp'.active
    cases hactive

theorem Follows.steps {a : Active} (h : Follows t) (hp : t.player.Plays s a) :
    ∃ steps, Reached a.phase steps ∧ Amid t.calls s a steps := by
  cases h with
  | out hstate => exact absurd hp.state hstate
  | between hp' =>
    have hactive := hp'.idle.symm.trans hp.active
    cases hactive
  | amid hp' hsteps hplace =>
    obtain rfl := Option.some.inj (hp.scenario.symm.trans hp'.scenario)
    obtain rfl := Option.some.inj (hp.active.symm.trans hp'.active)
    exact ⟨_, hsteps, hplace⟩

/-- What changes neither the place nor the calls keeps that they belong together. -/
theorem Follows.same (h : Follows t) (hcalls : u.calls = t.calls)
    (hstate : u.player.state = t.player.state) (hscenario : u.player.scenario? = t.player.scenario?)
    (hactive : u.player.active? = t.player.active?)
    (hcursor : u.player.cursor = t.player.cursor) : Follows u := by
  cases h with
  | out hout hidle hplayed =>
    exact .out (hstate ▸ hout) (hactive.trans hidle) (hcalls ▸ hplayed)
  | between hp hplace =>
    refine .between ⟨hstate.trans hp.state, hscenario.trans hp.scenario,
      hactive.trans hp.idle⟩ ?_
    rw [hcalls, hcursor]
    exact hplace
  | amid hp hsteps hplace =>
    exact .amid ⟨hstate.trans hp.state, hscenario.trans hp.scenario, hactive.trans hp.active⟩
      hsteps (hcalls ▸ hplace)

theorem Follows.quietly (h : Follows t) {change : Player σ ℓ ς → Player σ ℓ ς}
    (hgo : GoesOn t.player (change t.player)) : Follows (t.quietly change) :=
  h.same rfl hgo.state hgo.scenario hgo.active hgo.cursor

theorem goesOn_notePageLeft (p : Player σ ℓ ς) : GoesOn p p.notePageLeft := by
  obtain ⟨history?, es, -, -, -, -, heq⟩ := p.notePageLeft_eq
  rw [heq]
  exact ⟨rfl, rfl, rfl, rfl, rfl, rfl⟩

variable [Loader ℓ]

/-- Where a run is left, the calls are at its end. -/
theorem Follows.teardown (h : Follows t) : Played t.teardown.calls := by
  have hcalls : t.teardown.calls =
      (t.player.active?.elim t.calls fun a => t.calls ++ [a.call .released]) ++ [.left] := by
    unfold Recorded.teardown
    cases t.player.active? <;> rfl
  rw [hcalls]
  cases h with
  | out hstate hidle hplayed =>
    rw [hidle]
    exact hplayed.between rfl
  | between hp hplace =>
    rw [hp.idle]
    exact hplace.left
  | amid hp hsteps hplace =>
    rw [hp.active]
    exact hplace.left hsteps.isPart

theorem Follows.finish [Stage σ] (h : Follows t) (reason : EndReason) :
    Follows (t.finish reason) := by
  have hplayer := t.player_finish reason
  rw [finish_eq] at hplayer
  refine .out ?_ ?_ h.teardown
  · rw [hplayer]
    exact State.noConfusion
  · rw [hplayer]

theorem Follows.finishIfUnderWay [Stage σ] (h : Follows t) (reason : EndReason) :
    Follows (t.finishIfUnderWay reason) := by
  unfold Recorded.finishIfUnderWay
  split
  · exact h.finish reason
  · exact h

variable [TableSource ς]

theorem Follows.begin (h : Follows t) (label : String) (page : Int) (gallery? : Option String) :
    Follows (t.begin label page gallery?) := by
  have hplayer := t.player_begin label page gallery?
  rw [begin_eq] at hplayer
  refine .out ?_ ?_ (h.teardown.between rfl)
  · rw [hplayer]
    exact State.noConfusion
  · rw [hplayer]

theorem Follows.jump (h : Follows t) (label : String) : Follows (t.jump label) :=
  (h.quietly (goesOn_notePageLeft t.player)).begin _ _ _

variable [Stage σ]

theorem Follows.handle (requests : List Command.Request) (h : Follows t) :
    Follows (Recorded.handle requests t).1 := by
  induction requests generalizing t with
  | nil => exact h
  | cons request rest ih =>
    cases request with
    | jump label => exact h.jump label
    | endScenario => exact h.finish _
    | stop | erase => exact h.finishIfUnderWay _
    | endSceneGallery => exact ih (h.quietly (goesOn_endGalleryScene t.player))

theorem Follows.handleRequests (h : Follows t) : Follows t.handleRequests.1 :=
  Follows.handle _ (h.same rfl rfl rfl rfl rfl)

theorem Follows.await {a : Active} {since : Nat} (h : Follows t) (hp : t.player.Plays s a)
    (hphase : a.phase = .waiting since) : Follows (t.await a since).1 := by
  obtain ⟨steps, hsteps, hplace⟩ := h.steps hp
  rw [hphase] at hsteps
  unfold Recorded.await
  dsimp only
  cases hdone : (a.command.await (Stage.progress t.player.stage since) t.player.board).2 with
  | false =>
    have hwait : Reached a.phase (steps ++ [.waitPolled false]) := hphase ▸ hsteps.wait
    rw [if_neg (by simp)]
    exact .amid ⟨hp.state, hp.scenario, hp.active⟩ hwait (hplace.step _)
  | true =>
    obtain ⟨n, m, hall⟩ := hsteps.release
    have hend := (hplace.step (.waitPolled true)).step .released
    rw [hall] at hend
    rw [if_pos rfl]
    refine Follows.handleRequests ?_
    -- without the record this is the player that left the command
    generalize hu : Recorded.complete (σ := σ) (ℓ := ℓ) (ς := ς) _ _ _ = u
    have hplayer : u.player = t.player.completed a since := by
      rw [← hu]
      rfl
    have hcalls : u.calls = t.calls ++ [a.call (.waitPolled true)] ++ [a.call .released] := by
      rw [← hu]
      rfl
    refine .between (s := s) ⟨?_, ?_, ?_⟩ ?_
    · rw [hplayer, completed_state, hp.state]
    · rw [hplayer, completed_scenario, hp.scenario]
    · rw [hplayer, completed_active]
    · rw [hcalls, hplayer, completed_cursor]
      exact hend.between

theorem Follows.advance {a : Active} (h : Follows t) (hp : t.player.Plays s a) :
    Follows (t.advance a).1 := by
  unfold Recorded.advance
  cases hphase : a.phase with
  | waiting since => exact h.await hp hphase
  | loading =>
    obtain ⟨steps, hsteps, hplace⟩ := h.steps hp
    rw [hphase] at hsteps
    dsimp only
    cases hload : t.player.isLoadComplete a.command with
    | false =>
      have hloading : Reached a.phase (steps ++ [.loadPolled false]) := hphase ▸ hsteps.load
      rw [if_neg (by simp)]
      exact .amid ⟨hp.state, hp.scenario, hp.active⟩ hloading (hplace.step _)
    | true =>
      rw [if_pos rfl]
      generalize hu : Recorded.execute (σ := σ) (ℓ := ℓ) (ς := ς) _ a = r
      obtain ⟨u, since⟩ := r
      have hfst : ((t.does (a.call (.loadPolled true)) id).execute a).1 = u := congrArg Prod.fst hu
      have hsince : (t.player.execute a).2 = since := congrArg Prod.snd hu
      rw [execute_eq] at hsince
      have hplayer : u.player = (t.player.execute a).1 := by
        rw [← hfst]
        rfl
      have hplays : u.player.Plays s { a with phase := .waiting (Stage.now t.player.stage) } :=
        hplayer ▸ ⟨(t.player.execute_state a).trans hp.state,
          (t.player.execute_scenario a).trans hp.scenario, t.player.execute_active a⟩
      have hfollows : Follows u := by
        refine .amid hplays (hsteps.execute _) ?_
        rw [← hfst]
        exact ((hplace.step (.loadPolled true)).step .windowMoved).step .executed
      have hrest := hfollows.handleRequests
      have hforget := u.forget_handleRequests
      rcases hr : u.handleRequests with ⟨v, status⟩
      rw [hr] at hrest hforget
      cases status with
      | some status => exact hrest
      | none =>
        have hgo := handle_goesOn hforget.symm
        have hsettled : u.player.settle.Plays s
            { a with phase := .waiting (Stage.now t.player.stage) } :=
          ⟨hplays.state, hplays.scenario, hplays.active⟩
        exact Follows.await (a := { a with phase := .waiting _ }) hrest (hgo.plays hsettled)
          (congrArg Phase.waiting hsince)

theorem Follows.turn {c : Command} (h : Follows t) (hp : t.player.Stands s)
    (hc : s.commands[t.player.cursor.index]? = some c) : Follows (t.turn c).1 := by
  have hplace := h.place hp
  unfold Recorded.turn
  split
  · refine .between (s := s) ?_ ?_
    · simp only [Recorded.does, skip_eq]
      exact ⟨hp.state, hp.scenario, hp.idle⟩
    · simp only [Recorded.does, skip_eq]
      exact hplace.skip hc
  · have hplays := activate_plays hp c
    have hfollows : Follows (t.does ((t.player.activate c).2.call .begun)
        fun p => (p.activate c).1) := .amid hplays ⟨0, rfl⟩ (hplace.begin hc .loading)
    exact hfollows.advance hplays

theorem Follows.playFrom (rest : List Command) (h : Follows t) (hp : t.player.Stands s)
    (hrest : s.commands.drop t.player.cursor.index = rest) :
    Follows (Recorded.playFrom rest t).1 := by
  induction rest generalizing t with
  | nil => exact h.finish _
  | cons c rest ih =>
    obtain ⟨hc, hbehind⟩ := next_of_drop hrest
    have hgoes := turn_goes (V := fun _ => True) trivial hp hc
    have hturn := h.turn hp hc
    rw [← t.forget_turn] at hgoes
    unfold Recorded.playFrom
    rcases hr : t.turn c with ⟨u, status⟩
    rw [hr] at hgoes hturn
    cases status with
    | some status => exact hturn
    | none =>
      cases hgoes with
      | on hbeats hq hindex =>
        have hdrop : s.commands.drop u.player.cursor.index = rest := by rw [hindex, hbehind]
        exact ih hturn hq hdrop

theorem Follows.play (h : Follows t) (hstate : t.player.state = .running)
    (hs : t.player.scenario? = some s) : Follows (t.play s).1 := by
  unfold Recorded.play
  cases ha : t.player.active? with
  | none => exact h.playFrom _ ⟨hstate, hs, ha⟩ rfl
  | some a =>
    have hp : t.player.Plays s a := ⟨hstate, hs, ha⟩
    have hgoes := advance_goes (V := fun _ => True) hp
    have hadvance := h.advance hp
    rw [← t.forget_advance] at hgoes
    dsimp only
    rcases hr : t.advance a with ⟨u, status⟩
    rw [hr] at hgoes hadvance
    cases status with
    | some status => exact hadvance
    | none =>
      cases hgoes with
      | on hbeats hq hindex => exact hadvance.playFrom _ hq rfl

theorem Follows.tick (h : Follows t) : Follows t.tick.1 := by
  unfold Recorded.tick
  cases hstate : t.player.state with
  | loading label page =>
    have hout : ∀ b, Played (t.calls ++ [.labelPolled label b]) ∧ t.player.active? = none := by
      intro b
      cases h with
      | out _ hidle hplayed => exact ⟨hplayed.between rfl, hidle⟩
      | between hp => cases hstate.symm.trans hp.state
      | amid hp => cases hstate.symm.trans hp.state
    obtain ⟨hplayed, hidle⟩ := hout (TableSource.isLoaded t.player.source label)
    have hpolled : Follows
        (t.does (.labelPolled label (TableSource.isLoaded t.player.source label)) id) :=
      .out (by rw [Recorded.does, id, hstate]; exact State.noConfusion) hidle hplayed
    dsimp only
    split
    · unfold Recorded.enter
      dsimp only
      split
      · refine Follows.finish (t := Recorded.quietly _ _) ?_ _
        exact hpolled.quietly ⟨rfl, rfl, rfl, rfl, rfl, rfl⟩
      · rename_i scenario _
        refine Follows.play ?_ (s := scenario) ?_ ?_
        · refine .between (s := scenario) ?_ ?_
          · simp only [Recorded.does, enterScenario_eq]
            exact ⟨rfl, rfl, hidle⟩
          · simp only [Recorded.does, enterScenario_eq]
            exact hplayed.enter _ _
        · simp only [Recorded.does, enterScenario_eq]
        · simp only [Recorded.does, enterScenario_eq]
    · exact hpolled
  | running =>
    cases hs : t.player.scenario? with
    | none => exact h.finish _
    | some s => exact h.play hstate hs
  | idle | ended => exact h

theorem Follows.after (h : Follows t) (i : Input σ ℓ ς) : Follows (t.after i) := by
  cases i with
  | start => exact h.begin _ _ _
  | resume => exact h.begin _ _ _
  | jump label => exact h.jump label
  | stop | erase => exact h.finishIfUnderWay _
  | tick => exact h.tick
  | _ => exact h.same rfl rfl rfl rfl rfl

theorem Follows.afterAll (h : Follows t) (inputs : List (Input σ ℓ ς)) :
    Follows (t.afterAll inputs) := by
  induction inputs generalizing t with
  | nil => exact h
  | cons i inputs ih => exact ih (h.after i)

/-! ## Waiting -/

/-- What the player asks first in a tick is not there, or not done. -/
inductive Pending (p : Player σ ℓ ς) : Prop
  | table {label : String} {page : Int} (hstate : p.state = .loading label page)
      (hload : TableSource.isLoaded p.source label = false)
  | assets {s : Scenario} {a : Active} (hp : p.Plays s a) (hphase : a.phase = .loading)
      (hload : p.isLoadComplete a.command = false)
  | command {s : Scenario} {a : Active} {since : Nat} (hp : p.Plays s a)
      (hphase : a.phase = .waiting since)
      (hwait : (a.command.await (Stage.progress p.stage since) p.board).2 = false)

/-- A tick that asks in vain changes nothing. -/
theorem Pending.tick (h : Pending t.player) :
    ∃ call reason, call.isRefused = true ∧
      t.tick = (⟨t.player, t.calls ++ [call]⟩, .suspended reason) := by
  cases h with
  | table hstate hload =>
    rename_i label page
    refine ⟨.labelPolled label false, .labelLoad, rfl, ?_⟩
    unfold Recorded.tick
    rw [hstate]
    dsimp only
    rw [hload]
    rfl
  | assets hp hphase hload =>
    rename_i s a
    refine ⟨a.call (.loadPolled false), .resourceLoad, rfl, ?_⟩
    unfold Recorded.tick Recorded.play Recorded.advance
    rw [hp.state, hp.scenario]
    dsimp only
    rw [hp.active]
    dsimp only
    rw [hphase]
    dsimp only
    rw [hload]
    rfl
  | command hp hphase hwait =>
    rename_i s a since
    refine ⟨a.call (.waitPolled false), .commandWait, rfl, ?_⟩
    have hboard := await_undone hwait
    unfold Recorded.tick Recorded.play Recorded.advance Recorded.await
    rw [hp.state, hp.scenario]
    dsimp only
    rw [hp.active]
    dsimp only
    rw [hphase]
    dsimp only
    rw [hwait, hboard]
    rfl

end Recorded

/-! ## All inputs -/

theorem follows_ready (stage : σ) (loader : ℓ) (source : ς) (corpus : Corpus) (cap : Nat)
    (params : Expression.Params) (galleryLabels : List String)
    (history? : Option History.ReadHistory) :
    Follows ⟨ready stage loader source corpus cap params galleryLabels history?, []⟩ :=
  .out State.noConfusion rfl .none

variable [Stage σ] [Loader ℓ] [TableSource ς]

/-- Whatever comes to a player, its calls are those of runs that it left, one after the other, and
    of the run that it plays, if it plays one. What it asks in vain changes nothing. -/
theorem calls_follow_lifecycles (stage : σ) (loader : ℓ) (source : ς) (corpus : Corpus) (cap : Nat)
    (params : Expression.Params) (galleryLabels : List String)
    (history? : Option History.ReadHistory) (inputs : List (Input σ ℓ ς)) :
    let p := ready stage loader source corpus cap params galleryLabels history?
    let t := Recorded.afterAll ⟨p, []⟩ inputs
    t.player = p.afterAll inputs ∧
    (∃ played current, t.calls = played ++ current ∧ Played played ∧
      if t.player.state = .running then IsUnderWay current else current = []) ∧
    (Pending t.player → ∃ call reason, call.isRefused = true ∧
      t.tick = (⟨t.player, t.calls ++ [call]⟩, .suspended reason)) := by
  intro p t
  have hfollows : Follows t := (follows_ready _ _ _ _ _ _ _ _).afterAll inputs
  refine ⟨Recorded.player_afterAll _ _, ?_, Pending.tick⟩
  cases hfollows with
  | out hstate hidle hplayed =>
    refine ⟨t.calls, [], (List.append_nil _).symm, hplayed, ?_⟩
    rw [if_neg hstate]
  | between hp hplace =>
    obtain ⟨before, cursor, visited, hcalls, hbefore, hvisited⟩ := hplace
    refine ⟨before, _, hcalls, hbefore, ?_⟩
    rw [if_pos hp.state]
    exact ⟨_, cursor, _, visited, [], by rw [List.append_nil], hvisited, Or.inl rfl⟩
  | amid hp hsteps hplace =>
    obtain ⟨before, cursor, visited, hcalls, hbefore, hvisited, hc⟩ := hplace
    refine ⟨before, _, hcalls, hbefore, ?_⟩
    rw [if_pos hp.state]
    exact ⟨_, cursor, _, visited, _, rfl, hvisited, Or.inr ⟨_, _, hc, hsteps.isPart, rfl⟩⟩

end VisualNovel.Player
