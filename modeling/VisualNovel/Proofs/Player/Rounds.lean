import Mathlib.Data.List.Range
import VisualNovel.Proofs.Player.Consistency
import VisualNovel.Proofs.Player.Requests
import VisualNovel.Stage.Console

/-
  A tick as a loop. With each round a player waits, enters the run that was asked for, or has the
  command at the cursor in its turn; the tick is over when a round answers. Whatever becomes of the
  stage, the loader and the source from one round to the next, each round that goes on passes the
  command at the cursor, but for the one that enters a run (`rounds_in_run`), so that a tick ends
  (`every_tick_ends`). Rounds in an unchanged world make up `tick` (`concludes_tick`).
-/

namespace VisualNovel.Player

open Asset (Loader)
open Command (Exit Request)
open Scenario (Corpus TableSource)

variable {σ ℓ ς : Type}

/-! ## Turns that count -/

/-- The run that is entered with a turn. -/
def Turn.entrance? : Turn → Option (Scenario × Cursor)
  | entered s cursor => some (s, cursor)
  | _ => none

/-- The place of the command that is skipped or done with a turn. -/
def Turn.passed? : Turn → Option Nat
  | skipped index | done index _ => some index
  | _ => none

/-- The runs entered among events. -/
def entrancesOf (es : List Event) : List (Scenario × Cursor) :=
  (turnsOf es).filterMap Turn.entrance?

/-- The places of the commands skipped or done among events. -/
def passedOf (es : List Event) : List Nat := (turnsOf es).filterMap Turn.passed?

@[simp] theorem entrancesOf_nil : entrancesOf [] = [] := rfl

@[simp] theorem passedOf_nil : passedOf [] = [] := rfl

@[simp] theorem entrancesOf_append (es fs : List Event) :
    entrancesOf (es ++ fs) = entrancesOf es ++ entrancesOf fs := by simp [entrancesOf]

@[simp] theorem passedOf_append (es fs : List Event) :
    passedOf (es ++ fs) = passedOf es ++ passedOf fs := by simp [passedOf]

/-- From one player to another no run is entered, and these places are passed. -/
def Passage (p q : Player σ ℓ ς) (places : List Nat) : Prop :=
  ∃ es, q.events = p.events ++ es ∧ entrancesOf es = [] ∧ passedOf es = places

theorem passage_refl (p : Player σ ℓ ς) : Passage p p [] := ⟨[], by simp, rfl, rfl⟩

theorem Passage.trans {p q r : Player σ ℓ ς} {xs ys : List Nat} (hpq : Passage p q xs)
    (hqr : Passage q r ys) : Passage p r (xs ++ ys) := by
  obtain ⟨es, hes, hentered, hpassed⟩ := hpq
  obtain ⟨fs, hfs, hentered', hpassed'⟩ := hqr
  exact ⟨es ++ fs, by rw [hfs, hes, List.append_assoc], by simp [hentered, hentered'],
    by simp [hpassed, hpassed']⟩

/-- Turns that enter no run pass the places that they name. -/
theorem passage_of_turns {p q : Player σ ℓ ς} {es : List Event} {ts : List Turn}
    (hes : q.events = p.events ++ es) (hturns : turnsOf es = ts)
    (hentered : ts.filterMap Turn.entrance? = []) :
    Passage p q (ts.filterMap Turn.passed?) :=
  ⟨es, hes, by rw [entrancesOf, hturns, hentered], by rw [passedOf, hturns]⟩

variable [Stage σ] [Loader ℓ] [TableSource ς]

/-! ## Leaving -/

theorem passage_exit (p : Player σ ℓ ς) (e : Exit) : Passage p (p.exit e) [] := by
  obtain ⟨es, hes, hturns, -, -⟩ := (parts_exit p e).events
  refine ⟨es, hes, ?_, ?_⟩
  · rw [entrancesOf, hturns]
    cases p.active? <;> cases e <;> rfl
  · rw [passedOf, hturns]
    cases p.active? <;> cases e <;> rfl

omit [Stage σ] [Loader ℓ] [TableSource ς] in
theorem passage_endScenes (p : Player σ ℓ ς) (count : Nat) : Passage p (p.endScenes count) [] := by
  obtain ⟨gallery?, history?, es, -, hturns, -, heq⟩ := p.endScenes_eq count
  refine passage_of_turns ?_ hturns rfl
  rw [heq]
  exact events_append rfl

theorem passage_handle (batch : List Request) {p : Player σ ℓ ς}
    (hrun : p.state.isUnderWay = true) : Passage p (handle batch p).1 [] := by
  rw [handle_of_underWay batch hrun]
  cases batch.findSome? Request.exit? with
  | none => exact p.passage_endScenes _
  | some e => exact (p.passage_endScenes _).trans (passage_exit _ e)

/-! ## The turn of a command -/

/-- No run is entered, and a place is passed, or none and then there is an answer. -/
def PassesAt (p : Player σ ℓ ς) (i : Nat) (r : Player σ ℓ ς × Option Status) : Prop :=
  Passage p r.1 [i] ∨ Passage p r.1 [] ∧ r.2.isSome

omit [Stage σ] [Loader ℓ] [TableSource ς] in
theorem PassesAt.behind {p q : Player σ ℓ ς} {i : Nat} {r : Player σ ℓ ς × Option Status}
    (h : Passage p q []) (hr : PassesAt q i r) : PassesAt p i r := by
  rcases hr with hpassed | ⟨hpassed, hanswered⟩
  · exact Or.inl (h.trans hpassed)
  · exact Or.inr ⟨h.trans hpassed, hanswered⟩

/-- What a round comes to that has the command at a place in its turn. It passes this place or none,
    and if the loop goes on, it passed the place and the next command is the one behind it. -/
structure Treads (p : Player σ ℓ ς) (s : Scenario) (i : Nat) (r : Player σ ℓ ς × Option Status) :
    Prop where
  passes : PassesAt p i r
  on : r.2 = none → r.1.Stands s ∧ r.1.cursor.index = i + 1

theorem await_passes {p : Player σ ℓ ς} {a : Active} {since : Nat} (hp : p.state = .running) :
    PassesAt p a.index (p.await a since) := by
  cases hdone : (a.command.await (Stage.progress p.stage since) p.board).2 with
  | false =>
    rw [await_of_undone hdone]
    exact Or.inr ⟨passage_refl p, rfl⟩
  | true =>
    have hcompleted : Passage p (p.completed a since).settle [a.index] := by
      refine passage_of_turns (events_append ?_)
        (turnsOf_doneEvents p a (a.command.pick? (Stage.progress p.stage since) p.board)) rfl
      change (p.completed a since).journal = _
      rw [completed, complete_eq]
      rfl
    have hrun := isUnderWay_of_running ((p.completed_state a since).trans hp)
    rw [await_of_done hdone]
    exact Or.inl (hcompleted.trans (passage_handle _ hrun))

omit [TableSource ς] in
theorem passage_execute (p : Player σ ℓ ς) (a : Active) : Passage p (p.obey a) [] := by
  have hexecuted : Passage p (p.execute a).1.settle [] := by
    refine passage_of_turns (events_append ?_) (p.turnsOf_executedEvents a) rfl
    change (p.execute a).1.journal = _
    rw [execute_eq]
  exact hexecuted.trans (passage_endScenes _ _)

omit [TableSource ς] in
theorem obey_plays {p : Player σ ℓ ς} {s : Scenario} {a : Active} (hp : p.Plays s a) :
    (p.obey a).Plays s { a with phase := .waiting (Stage.now p.stage) } :=
  (goesOn_endScenes _ _).plays (execute_plays hp)

theorem advance_treads {p : Player σ ℓ ς} {s : Scenario} {a : Active} (hp : p.Plays s a) :
    Treads p s a.index (p.advance a) := by
  refine ⟨?_, (advance_goes (V := fun _ => True) hp).on_of_none⟩
  cases hphase : a.phase with
  | waiting since =>
    rw [advance_of_waiting hphase]
    exact await_passes hp.state
  | loading =>
    cases hload : p.isLoadComplete a.command with
    | false =>
      rw [advance_of_pending hphase hload]
      exact Or.inr ⟨passage_refl p, rfl⟩
    | true =>
      rw [advance_of_executed hp hphase hload]
      cases (p.outcome a).1.requests.findSome? Request.exit? with
      | some e => exact Or.inr ⟨(p.passage_execute a).trans (passage_exit _ e), rfl⟩
      | none => exact .behind (p.passage_execute a) (await_passes (obey_plays hp).state)

theorem turn_treads {p : Player σ ℓ ς} {s : Scenario} {c : Command} (hp : p.Stands s)
    (hc : s.commands[p.cursor.index]? = some c) : Treads p s p.cursor.index (p.turn c) := by
  refine ⟨?_, (turn_goes (V := fun _ => True) trivial hp hc).on_of_none⟩
  unfold turn
  split
  · refine Or.inl (passage_of_turns (events_append ?_)
      (turnsOf_turn (.skipped p.cursor.index) []) rfl)
    rw [skip_eq]
  · have hactivated : Passage p (p.activate c).1 [] := by
      have hturns : turnsOf (.turn (.begun p.cursor.index) ::
          (p.ledger.addUses (.command p.cursor.index) c.resources).2.map Event.loader) =
            [.begun p.cursor.index] := by simp
      refine passage_of_turns (events_append ?_) hturns rfl
      rw [activate_eq]
    exact .behind hactivated (advance_treads (activate_plays hp c)).passes

/-! ## Rounds -/

/-- Enters the run that was asked for, whose table is there, or ends it if there is no such label. -/
def enterRun (p : Player σ ℓ ς) (label : String) (page : Int) : Player σ ℓ ς :=
  let (corpus, scenario?) := p.corpus.fetch p.source label
  match scenario? with
  | none => { p with corpus }.finish .completed
  | some s => { p with corpus }.enterScenario s label page

/-- One round of a tick, with the answer of the tick if it ends with it. -/
def round (p : Player σ ℓ ς) : Player σ ℓ ς × Option Status :=
  match p.state with
  | .loading label page =>
    if TableSource.isLoaded p.source label then (p.enterRun label page, none)
    else (p, some (.suspended .labelLoad))
  | .running =>
    match p.scenario? with
    | none => (p.finish .completed, some .halted)
    | some s =>
      match p.active? with
      | some a => p.advance a
      | none =>
        match s.commands[p.cursor.index]? with
        | none => (p.finish .completed, some .halted)
        | some c => p.turn c
  | _ => (p, some .halted)

/-- What a player plays with. -/
structure World (σ ℓ ς : Type) where
  stage : σ
  loader : ℓ
  source : ς

/-- The player after a change of what it plays with. -/
def amid (p : Player σ ℓ ς) (change : World σ ℓ ς → World σ ℓ ς) : Player σ ℓ ς :=
  let w := change ⟨p.stage, p.ledger.loader, p.source⟩
  { p with stage := w.stage, ledger := { p.ledger with loader := w.loader }, source := w.source }

omit [Stage σ] [Loader ℓ] [TableSource ς] in
theorem passage_amid (p : Player σ ℓ ς) (change : World σ ℓ ς → World σ ℓ ς) :
    Passage p (p.amid change) [] := ⟨[], (List.append_nil _).symm, rfl, rfl⟩

/-- Rounds until one answers, with a change before each. -/
def rounds : List (World σ ℓ ς → World σ ℓ ς) → Player σ ℓ ς → Player σ ℓ ς × Option Status
  | [], p => (p, none)
  | change :: changes, p =>
    match (p.amid change).round with
    | (p, some status) => (p, some status)
    | (p, none) => rounds changes p

/-! ## Rounds in a run -/

/-- A scenario is played, and if a command has its turn, it is the one at the cursor. -/
structure Runs (p : Player σ ℓ ς) (s : Scenario) : Prop where
  state : p.state = .running
  scenario : p.scenario? = some s
  command : ∀ a, p.active? = some a →
    a.index = p.cursor.index ∧ s.commands[a.index]? = some a.command

omit [Stage σ] [Loader ℓ] [TableSource ς] in
theorem Stands.runs {p : Player σ ℓ ς} {s : Scenario} (hp : p.Stands s) : p.Runs s :=
  ⟨hp.state, hp.scenario, fun a ha => by cases hp.idle.symm.trans ha⟩

omit [Stage σ] [Loader ℓ] [TableSource ς] in
theorem Coherent.runs {p : Player σ ℓ ς} (hp : Coherent p) (hstate : p.state = .running) :
    ∃ s, p.Runs s := by
  obtain ⟨s, hs⟩ := Option.isSome_iff_exists.mp (hp.scenario.mpr hstate)
  exact ⟨s, hstate, hs, fun a ha => hp.command s a hs ha⟩

omit [Stage σ] [Loader ℓ] [TableSource ς] in
theorem Runs.amid {p : Player σ ℓ ς} {s : Scenario} (hp : p.Runs s)
    (change : World σ ℓ ς → World σ ℓ ς) : (p.amid change).Runs s :=
  ⟨hp.state, hp.scenario, hp.command⟩

theorem round_of_plays {p : Player σ ℓ ς} {s : Scenario} {a : Active} (hp : p.Plays s a) :
    p.round = p.advance a := by
  unfold round
  rw [hp.state, hp.scenario, hp.active]

theorem round_of_stands {p : Player σ ℓ ς} {s : Scenario} (hp : p.Stands s) :
    p.round =
      match s.commands[p.cursor.index]? with
      | none => (p.finish .completed, some .halted)
      | some c => p.turn c := by
  unfold round
  rw [hp.state, hp.scenario, hp.idle]

/-- The round of a command is one of a command that has its turn, unless it is passed over. -/
theorem round_of_command {p : Player σ ℓ ς} {s : Scenario} {c : Command} (hp : p.Stands s)
    (hc : s.commands[p.cursor.index]? = some c)
    (hskip : p.board.ifStack.skips c.isConditional = false) : p.round = (p.activate c).1.round := by
  rw [round_of_plays (activate_plays hp c), round_of_stands hp, hc]
  exact if_neg (by simp [hskip])

/-- A round in a run has the command at the cursor in its turn. -/
theorem Runs.treads {p : Player σ ℓ ς} {s : Scenario} (hp : p.Runs s)
    (hroom : p.cursor.index < s.commands.length) : Treads p s p.cursor.index p.round := by
  cases ha : p.active? with
  | none =>
    have hc := List.getElem?_eq_getElem hroom
    have hstands : p.Stands s := ⟨hp.state, hp.scenario, ha⟩
    rw [round_of_stands hstands, hc]
    exact turn_treads hstands hc
  | some a =>
    have hplays : p.Plays s a := ⟨hp.state, hp.scenario, ha⟩
    rw [round_of_plays hplays, ← (hp.command a ha).1]
    exact advance_treads hplays

/-- Behind the last command a round ends the run. -/
theorem Runs.round_at_end {p : Player σ ℓ ς} {s : Scenario} (hp : p.Runs s)
    (hend : s.commands.length ≤ p.cursor.index) :
    p.round = (p.finish .completed, some .halted) := by
  have hnone := List.getElem?_eq_none hend
  cases ha : p.active? with
  | none => rw [round_of_stands ⟨hp.state, hp.scenario, ha⟩, hnone]
  | some a =>
    obtain ⟨hindex, hc⟩ := hp.command a ha
    rw [hindex, hnone] at hc
    cases hc

/-- Rounds in a run pass commands one after the other, one with each round but the last. -/
theorem rounds_in_run {s : Scenario} (changes : List (World σ ℓ ς → World σ ℓ ς))
    {p : Player σ ℓ ς} (hp : p.Runs s) :
    ∃ k, Passage p (rounds changes p).1 (List.range' p.cursor.index k) ∧
      k ≤ s.commands.length - p.cursor.index ∧
      ((rounds changes p).2 = none → changes.length = k) := by
  induction changes generalizing p with
  | nil => exact ⟨0, passage_refl p, Nat.zero_le _, fun _ => rfl⟩
  | cons change changes ih =>
    have hamid := hp.amid change
    have hcursor : (p.amid change).cursor = p.cursor := rfl
    unfold rounds
    rcases Nat.lt_or_ge p.cursor.index s.commands.length with hroom | hend
    · have htreads := hamid.treads hroom
      rcases hround : (p.amid change).round with ⟨q, status⟩
      rw [hround] at htreads
      have hpasses := PassesAt.behind (p.passage_amid change) htreads.passes
      cases status with
      | some status =>
        rcases hpasses with hpassed | ⟨hpassed, -⟩
        · exact ⟨1, hpassed, by omega, nofun⟩
        · exact ⟨0, hpassed, by omega, nofun⟩
      | none =>
        obtain ⟨hstands, hindex⟩ := htreads.on rfl
        obtain ⟨k, hk, hle, hlength⟩ := ih hstands.runs
        have hpassed : Passage p q [p.cursor.index] := hpasses.resolve_right fun h => nomatch h.2
        dsimp only at hindex ⊢
        rw [hindex, hcursor] at hk hle
        refine ⟨k + 1, ?_, by omega, fun hnone => by rw [List.length_cons, hlength hnone]⟩
        rw [List.range'_succ]
        exact hpassed.trans hk
    · rw [hamid.round_at_end hend]
      exact ⟨0, (p.passage_amid change).trans (passage_exit _ (.ended .completed)), Nat.zero_le _,
        nofun⟩

/-! ## Rounds of a tick -/

/-- What a round comes to that finds a player waiting for a table: it waits on, it ends the run for
    want of the label, or it enters the run. -/
inductive Admits (p : Player σ ℓ ς) : Player σ ℓ ς × Option Status → Prop
  | waits : Admits p (p, some (.suspended .labelLoad))
  | ends {q : Player σ ℓ ς} (hpassed : Passage p q []) (hq : q.state = .ended .completed) :
      Admits p (q, none)
  | enters {q : Player σ ℓ ς} {s : Scenario} (hq : q.Runs s)
      (hevents : q.events = p.events ++ [.turn (.entered s q.cursor)]) : Admits p (q, none)

theorem round_admits {p : Player σ ℓ ς} {label : String} {page : Int}
    (hstate : p.state = .loading label page) (hidle : p.active? = none) : Admits p p.round := by
  unfold round
  rw [hstate]
  dsimp only
  split
  · unfold enterRun
    rcases p.corpus.fetch p.source label with ⟨corpus, scenario?⟩
    cases scenario? with
    | none =>
      refine .ends (passage_exit { p with corpus } (.ended .completed)) ?_
      dsimp only
      rw [finish_eq]
    | some s =>
      refine .enters (s := s) ?_ ?_
      · dsimp only
        rw [enterScenario_eq]
        exact Stands.runs ⟨rfl, rfl, hidle⟩
      · dsimp only
        rw [enterScenario_eq]
        exact events_append rfl
  · exact .waits

theorem round_of_inert {p : Player σ ℓ ς} (hstate : p.state.isUnderWay = false) :
    p.round = (p, some .halted) := by
  unfold round
  cases hp : p.state with
  | idle | ended => rfl
  | loading | running =>
    rw [hp] at hstate
    cases hstate

/-- The run that is played where events are added: the one that is entered with them, or else the one
    that the player is in. -/
def runPlayed? (p : Player σ ℓ ς) (es : List Event) : Option (Scenario × Cursor) :=
  (entrancesOf es).head?.or (p.scenario?.map (·, p.cursor))

/-- What a number of rounds does at most: it enters one run, and passes commands of the run that it
    plays, one after the other from its cursor up to its end. But for one of them each round that
    goes on passes a command. -/
structure Bounded (p : Player σ ℓ ς) (count : Nat) (r : Player σ ℓ ς × Option Status)
    (es : List Event) : Prop where
  events : r.1.events = p.events ++ es
  entrances : (entrancesOf es).length ≤ 1
  passed : match p.runPlayed? es with
    | none => passedOf es = []
    | some (s, cursor) => ∃ k ≤ s.commands.length - cursor.index,
        passedOf es = List.range' cursor.index k
  count_le : r.2 = none → count ≤ (passedOf es).length + 1

omit [Stage σ] [Loader ℓ] [TableSource ς] in
/-- Rounds without a run pass nothing. -/
theorem bounded_of_none {p : Player σ ℓ ς} {r : Player σ ℓ ς × Option Status} {count : Nat}
    (hpassed : Passage p r.1 []) (hscenario : p.scenario? = none)
    (hcount : r.2 = none → count ≤ 1) : ∃ es, Bounded p count r es := by
  obtain ⟨es, hes, hentered, hnone⟩ := hpassed
  refine ⟨es, hes, by simp [hentered], ?_, by simpa [hnone] using hcount⟩
  simp [runPlayed?, hentered, hscenario, hnone]

theorem rounds_of_inert {p : Player σ ℓ ς} (hstate : p.state.isUnderWay = false)
    (changes : List (World σ ℓ ς → World σ ℓ ς)) :
    Passage p (rounds changes p).1 [] ∧ ((rounds changes p).2 = none → changes.length = 0) := by
  cases changes with
  | nil => exact ⟨passage_refl p, fun _ => rfl⟩
  | cons change changes =>
    have hround : (p.amid change).round = (p.amid change, some .halted) := round_of_inert hstate
    unfold rounds
    rw [hround]
    exact ⟨p.passage_amid change, nofun⟩

omit [Stage σ] [Loader ℓ] [TableSource ς] in
theorem Coherent.scenario_eq_none {p : Player σ ℓ ς} (hp : Coherent p) (h : p.state ≠ .running) :
    p.scenario? = none :=
  Option.not_isSome_iff_eq_none.mp fun hs => h (hp.scenario.mp hs)

theorem Coherent.bounded {p : Player σ ℓ ς} (hp : Coherent p)
    (changes : List (World σ ℓ ς → World σ ℓ ς)) :
    ∃ es, Bounded p changes.length (rounds changes p) es := by
  cases hstate : p.state with
  | idle | ended =>
    have hnone := hp.scenario_eq_none (by rw [hstate]; exact State.noConfusion)
    obtain ⟨hpassed, hrounds⟩ := rounds_of_inert (by rw [hstate]; rfl) changes
    exact bounded_of_none hpassed hnone fun hr => (hrounds hr).le.trans (Nat.zero_le 1)
  | running =>
    obtain ⟨s, hruns⟩ := hp.runs hstate
    obtain ⟨k, ⟨es, hes, hentered, hpassed⟩, hle, hrounds⟩ := rounds_in_run changes hruns
    refine ⟨es, hes, by simp [hentered], ?_, fun hr => ?_⟩
    · rw [runPlayed?, hentered, hruns.scenario]
      exact ⟨k, hle, hpassed⟩
    · rw [hpassed, List.length_range', hrounds hr]
      exact Nat.le_succ k
  | loading label page =>
    have hrunning : p.state ≠ .running := by rw [hstate]; exact State.noConfusion
    have hnone := hp.scenario_eq_none hrunning
    cases changes with
    | nil => exact bounded_of_none (passage_refl p) hnone fun _ => Nat.zero_le 1
    | cons change changes =>
      have hevents := p.passage_amid change
      have hadmits : Admits (p.amid change) (p.amid change).round :=
        round_admits hstate (hp.idle hrunning)
      unfold rounds
      generalize (p.amid change).round = r at hadmits
      cases hadmits with
      | waits => exact bounded_of_none hevents hnone nofun
      | @ends q hpassed hq =>
        obtain ⟨hrest, hrounds⟩ := rounds_of_inert (p := q) (by rw [hq]; rfl) changes
        refine bounded_of_none (hevents.trans (hpassed.trans hrest)) hnone fun hr => ?_
        rw [List.length_cons, hrounds hr]
      | @enters q s hq hentered =>
        obtain ⟨k, ⟨es, hes, hnoentrance, hpassed⟩, hle, hrounds⟩ := rounds_in_run changes hq
        have hentrances : entrancesOf (.turn (.entered s q.cursor) :: es) = [(s, q.cursor)] :=
          congrArg ((s, q.cursor) :: ·) hnoentrance
        have hpasses : passedOf (.turn (.entered s q.cursor) :: es) = passedOf es := rfl
        refine ⟨.turn (.entered s q.cursor) :: es, ?_, by simp [hentrances], ?_, fun hr => ?_⟩
        · rw [hes, hentered, List.append_assoc]
          rfl
        · rw [runPlayed?, hentrances]
          exact ⟨k, hle, hpassed⟩
        · rw [hpasses, hpassed, List.length_range', List.length_cons, hrounds hr]

/-! ## Ends -/

theorem rounds_range_succ (changes : Nat → World σ ℓ ς → World σ ℓ ς) (n : Nat)
    (p : Player σ ℓ ς) :
    rounds ((List.range (n + 1)).map changes) p =
      match (p.amid (changes 0)).round with
      | (p, some status) => (p, some status)
      | (p, none) => rounds ((List.range n).map fun i => changes (i + 1)) p := by
  rw [List.range_succ_eq_map, List.map_cons, List.map_map]
  rfl

/-- Rounds in a run come to an end, behind its last command at the latest. -/
theorem Runs.ends {p : Player σ ℓ ς} {s : Scenario} (hp : p.Runs s)
    (changes : Nat → World σ ℓ ς → World σ ℓ ς) :
    ∃ n, (rounds ((List.range n).map changes) p).2.isSome := by
  refine ⟨s.commands.length - p.cursor.index + 1, ?_⟩
  obtain ⟨k, -, hle, hrounds⟩ :=
    rounds_in_run ((List.range (s.commands.length - p.cursor.index + 1)).map changes) hp
  by_contra hnone
  have hlength := hrounds (Option.not_isSome_iff_eq_none.mp hnone)
  rw [List.length_map, List.length_range] at hlength
  omega

theorem Coherent.ends {p : Player σ ℓ ς} (hp : Coherent p)
    (changes : Nat → World σ ℓ ς → World σ ℓ ς) :
    ∃ n, (rounds ((List.range n).map changes) p).2.isSome := by
  cases hstate : p.state with
  | running =>
    obtain ⟨s, hruns⟩ := hp.runs hstate
    exact hruns.ends changes
  | idle | ended =>
    have hround : (p.amid (changes 0)).round = (p.amid (changes 0), some .halted) :=
      round_of_inert (by change p.state.isUnderWay = false; rw [hstate]; rfl)
    exact ⟨1, by rw [rounds_range_succ, hround]; rfl⟩
  | loading label page =>
    have hidle := hp.idle (by rw [hstate]; exact State.noConfusion)
    have hadmits : Admits (p.amid (changes 0)) (p.amid (changes 0)).round :=
      round_admits hstate hidle
    generalize hr : (p.amid (changes 0)).round = r at hadmits
    cases hadmits with
    | waits => exact ⟨1, by rw [rounds_range_succ, hr]; rfl⟩
    | @ends q hpassed hq =>
      have hround : (q.amid (changes 1)).round = (q.amid (changes 1), some .halted) :=
        round_of_inert (by change q.state.isUnderWay = false; rw [hq]; rfl)
      refine ⟨2, ?_⟩
      rw [rounds_range_succ, hr]
      dsimp only
      rw [rounds_range_succ, hround]
      rfl
    | @enters q s hq hentered =>
      obtain ⟨n, hn⟩ := hq.ends fun i => changes (i + 1)
      refine ⟨n + 1, ?_⟩
      rw [rounds_range_succ, hr]
      exact hn

/-! ## An unchanged world -/

/-- Rounds in an unchanged world come to an answer. -/
def Concludes (p : Player σ ℓ ς) (r : Player σ ℓ ς × Status) : Prop :=
  ∃ n, rounds (List.replicate n id) p = (r.1, some r.2)

theorem rounds_replicate_succ (n : Nat) (p : Player σ ℓ ς) :
    rounds (List.replicate (n + 1) id) p =
      match p.round with
      | (p, some status) => (p, some status)
      | (p, none) => rounds (List.replicate n id) p := rfl

theorem concludes_of_some {p q : Player σ ℓ ς} {status : Status}
    (h : p.round = (q, some status)) : Concludes p (q, status) :=
  ⟨1, by rw [rounds_replicate_succ, h]⟩

theorem Concludes.behind {p q : Player σ ℓ ς} {r : Player σ ℓ ς × Status}
    (h : p.round = (q, none)) (hq : Concludes q r) : Concludes p r := by
  obtain ⟨n, hn⟩ := hq
  exact ⟨n + 1, by rw [rounds_replicate_succ, h]; exact hn⟩

theorem concludes_playFrom {s : Scenario} (rest : List Command) {p : Player σ ℓ ς} (hp : p.Stands s)
    (hrest : s.commands.drop p.cursor.index = rest) : Concludes p (playFrom rest p) := by
  induction rest generalizing p with
  | nil => exact concludes_of_some (hp.runs.round_at_end (List.drop_eq_nil_iff.mp hrest))
  | cons c rest ih =>
    obtain ⟨hc, hbehind⟩ := next_of_drop hrest
    have hround : p.round = p.turn c := by rw [round_of_stands hp, hc]
    have htreads := turn_treads hp hc
    unfold playFrom
    rcases hturn : p.turn c with ⟨q, status⟩
    rw [hturn] at hround htreads
    cases status with
    | some status => exact concludes_of_some hround
    | none =>
      obtain ⟨hstands, hindex⟩ := htreads.on rfl
      refine .behind hround (ih hstands ?_)
      rw [hindex, hbehind]

theorem concludes_play {p : Player σ ℓ ς} {s : Scenario} (hstate : p.state = .running)
    (hs : p.scenario? = some s) : Concludes p (p.play s) := by
  unfold play
  cases ha : p.active? with
  | none => exact concludes_playFrom _ ⟨hstate, hs, ha⟩ rfl
  | some a =>
    have hplays : p.Plays s a := ⟨hstate, hs, ha⟩
    have hround := round_of_plays hplays
    have htreads := advance_treads hplays
    dsimp only
    rcases hadvance : p.advance a with ⟨q, status⟩
    rw [hadvance] at hround htreads
    cases status with
    | some status => exact concludes_of_some hround
    | none => exact .behind hround (concludes_playFrom _ (htreads.on rfl).1 rfl)

/-- A tick is rounds in an unchanged world. -/
theorem concludes_tick (p : Player σ ℓ ς) : Concludes p p.tick := by
  unfold tick
  cases hstate : p.state with
  | idle | ended => exact concludes_of_some (round_of_inert (by rw [hstate]; rfl))
  | running =>
    dsimp only
    cases hs : p.scenario? with
    | none => exact concludes_of_some (by unfold round; rw [hstate, hs])
    | some s => exact concludes_play hstate hs
  | loading label page =>
    have hround : p.round =
        if TableSource.isLoaded p.source label then (p.enterRun label page, none)
        else (p, some (.suspended .labelLoad)) := by
      unfold round
      rw [hstate]
    dsimp only
    split
    · rename_i hloaded
      rw [if_pos hloaded] at hround
      refine .behind hround ?_
      unfold enterRun enter
      rcases p.corpus.fetch p.source label with ⟨corpus, scenario?⟩
      cases scenario? with
      | none =>
        refine concludes_of_some (round_of_inert ?_)
        dsimp only
        rw [finish_eq]
        rfl
      | some s =>
        dsimp only
        exact concludes_play (by rw [enterScenario_eq]) (by rw [enterScenario_eq])
    · rename_i hloaded
      rw [if_neg hloaded] at hround
      exact concludes_of_some hround

/-! ## Requests -/

/-- How the run is left if a command is done that was executed at a moment. -/
def exitOnceDone? (p : Player σ ℓ ς) (a : Active) (since : Nat) : Option Exit :=
  let (board, done) := a.command.await (Stage.progress p.stage since) p.board
  if done then board.requests.findSome? Request.exit? else none

/-- How the run is left by what the active command requests in a round, when it is executed or when
    it is done. -/
def exitAsked? (p : Player σ ℓ ς) (a : Active) : Option Exit :=
  match a.phase with
  | .waiting since => p.exitOnceDone? a since
  | .loading =>
    if p.isLoadComplete a.command then
      ((p.outcome a).1.requests.findSome? Request.exit?).or
        ((p.obey a).exitOnceDone? a (Stage.now p.stage))
    else none

theorem status_of_await {p : Player σ ℓ ς} {a : Active} {since : Nat} (hp : p.state = .running)
    {e : Exit} (he : p.exitOnceDone? a since = some e) :
    (p.await a since).2 = some e.status := by
  unfold exitOnceDone? at he
  dsimp only at he
  split at he
  · rename_i hdone
    have hboard : (p.completed a since).board =
        (a.command.await (Stage.progress p.stage since) p.board).1 := by
      rw [completed, complete_eq]
    have hrun : (p.completed a since).settle.state.isUnderWay = true :=
      isUnderWay_of_running ((p.completed_state a since).trans hp)
    rw [await_of_done hdone, handle_of_underWay _ hrun, hboard, he]
  · cases he

/-- A round in which a command requests to leave the run is the last. -/
theorem status_of_exit {p : Player σ ℓ ς} {s : Scenario} {a : Active} {e : Exit}
    (hp : p.Plays s a) (he : p.exitAsked? a = some e) : p.round.2 = some e.status := by
  rw [round_of_plays hp]
  unfold exitAsked? at he
  cases hphase : a.phase with
  | waiting since =>
    rw [hphase] at he
    rw [advance_of_waiting hphase]
    exact status_of_await hp.state he
  | loading =>
    rw [hphase] at he
    dsimp only at he
    split at he
    · rename_i hload
      rw [advance_of_executed hp hphase hload]
      cases hexit : (p.outcome a).1.requests.findSome? Request.exit? with
      | some e' =>
        rw [hexit, Option.some_or] at he
        rw [Option.some.inj he]
      | none =>
        rw [hexit, Option.none_or] at he
        exact status_of_await (obey_plays hp).state he
    · cases he

/-- Whatever a player was told before, and whatever its scripts say, a tick ends. It is rounds, and
    these come to an answer however the stage, the loader and the source change from one to the
    next. They enter one run at most, and the commands that they skip or complete follow each other
    from the place where this run is up to its end at most. A round is the last in which a command,
    executed or done, requests to leave the run. -/
theorem every_tick_ends (stage : σ) (loader : ℓ) (source : ς) (corpus : Corpus) (cap : Nat)
    (params : Expression.Params) (galleryLabels : List String)
    (history? : Option History.ReadHistory) (inputs : List (Input σ ℓ ς)) :
    let p := (ready stage loader source corpus cap params galleryLabels history?).afterAll inputs
    Concludes p p.tick ∧
    (∀ changes : Nat → World σ ℓ ς → World σ ℓ ς,
      ∃ n, (rounds ((List.range n).map changes) p).2.isSome) ∧
    (∀ changes : List (World σ ℓ ς → World σ ℓ ς),
      ∃ es, Bounded p changes.length (rounds changes p) es) ∧
    ∀ (q : Player σ ℓ ς) s, (∀ a e, q.Plays s a → q.exitAsked? a = some e →
        q.round.2 = some e.status) ∧
      ∀ c, q.Stands s → s.commands[q.cursor.index]? = some c →
        q.board.ifStack.skips c.isConditional = false → q.round = (q.activate c).1.round := by
  intro p
  have hp : Coherent p := (coherent_ready stage loader source corpus cap params galleryLabels
    history?).afterAll inputs
  exact ⟨concludes_tick p, hp.ends, hp.bounded, fun q s =>
    ⟨fun a e => status_of_exit, fun c => round_of_command⟩⟩

/-! ## A circle -/

omit [Stage σ] [Loader ℓ] [TableSource ς]

/-- A label that leads to itself. -/
def circle : Table.CellTable := .ofRows "t" [["Command", "Arg1"], ["*a"], ["Jump", "*a"]]

/-- A player that asked for the label. -/
def circling : Player Stage.Console Asset.FileLoader Scenario.Library :=
  (ready (.ofPicks []) (.ofRoot ⟨[], []⟩ "") (Scenario.Library.empty.insert circle true)
    (.ofSettings .standard .standard) 4 ∅ [] none).afterAll [.start "a" 0 none]

/-- The round that comes to the jump is the last of the tick. -/
theorem circle_is_left :
    let q := (rounds [id, id] circling).1
    q.cursor.index = 1 ∧ q.round.2 = some (.suspended .labelLoad) ∧
      Concludes circling circling.tick := by
  intro q
  obtain ⟨hticks, -, -, hrounds⟩ := every_tick_ends (Stage.Console.ofPicks [])
    (Asset.FileLoader.ofRoot ⟨[], []⟩ "") (Scenario.Library.empty.insert circle true)
    (.ofSettings .standard .standard) 4 ∅ [] none [.start "a" 0 none]
  obtain ⟨s, hs⟩ := Option.isSome_iff_exists.mp (by decide +kernel : q.scenario?.isSome)
  have hq : q.Stands s := ⟨by decide +kernel, hs, by decide +kernel⟩
  have hplace : q.scenario?.map (fun s => (s.commands[q.cursor.index]?).isSome) = some true := by
    decide +kernel
  have hskip : q.scenario?.map (fun s => (s.commands[q.cursor.index]?).map fun c =>
      q.board.ifStack.skips c.isConditional) = some (some false) := by decide +kernel
  have hexit : q.scenario?.map (fun s => (s.commands[q.cursor.index]?).bind fun c =>
      (q.activate c).1.exitAsked? (q.activate c).2) = some (some (.jump "a")) := by decide +kernel
  rw [hs, Option.map_some, Option.some_inj] at hplace hskip hexit
  obtain ⟨c, hc⟩ := Option.isSome_iff_exists.mp hplace
  rw [hc] at hskip hexit
  refine ⟨by decide +kernel, ?_, hticks⟩
  rw [(hrounds q s).2 c hq hc (Option.some.inj hskip)]
  exact (hrounds _ s).1 _ _ (activate_plays hq c) hexit

end VisualNovel.Player
