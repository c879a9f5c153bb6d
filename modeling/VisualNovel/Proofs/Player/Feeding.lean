import VisualNovel.Proofs.Command.Conditional
import VisualNovel.Proofs.Player.Pages
import VisualNovel.Proofs.Player.Stations
import VisualNovel.Proofs.Player.Story

/-
  Playing feeds commands to the board. What a run executes of the commands it gets behind itself,
  and what this does to parameters and open blocks, is what `feed` says, in whatever way the run
  is spread over ticks (`Passes.fed_afterAll`). So a run that comes through the commands of a script
  executes what the tree of the script tells (`run_reads_blocks`).
-/

namespace VisualNovel.Player

open Asset (Loader)
open Command (Factory Request Script Settings feed)
open Scenario (TableSource)

variable {σ ℓ ς : Type}

/-! ## Feeding -/

/-- The commands that were executed according to events. -/
def executedOf (s : Scenario) (es : List Event) : List Command :=
  (turnsOf es).filterMap fun
    | .executed k _ => s.commands[k]?
    | _ => none

@[simp] theorem executedOf_append (s : Scenario) (es fs : List Event) :
    executedOf s (es ++ fs) = executedOf s es ++ executedOf s fs := by
  simp [executedOf]

theorem executedOf_of_turnsOf (s : Scenario) {es : List Event} (h : turnsOf es = []) :
    executedOf s es = [] := by
  rw [executedOf, h]
  rfl

/-- A player is in a section of a scenario, no request is left, and if a command takes its assets,
    it is not one to pass over. -/
structure Primed (s : Scenario) (p : Player σ ℓ ς) : Prop where
  place : ∃ m, InSection p s m
  requests : p.board.requests = []
  loading : ∀ a, p.active? = some a → a.phase = .loading →
    p.board.ifStack.skips a.command.isConditional = false

/-- A run got `n` commands behind itself as `feed` does, and `es` happened. -/
structure Fed (s : Scenario) (p q : Player σ ℓ ς) (n : Nat) (es : List Event) : Prop where
  behind : q.behind = p.behind + n
  events : q.events = p.events ++ es
  executed : executedOf s es = (feed ((s.commands.drop p.behind).take n) p.board).1
  params : q.board.params = (feed ((s.commands.drop p.behind).take n) p.board).2.params
  ifStack : q.board.ifStack = (feed ((s.commands.drop p.behind).take n) p.board).2.ifStack

theorem Fed.trans {s : Scenario} {p q r : Player σ ℓ ς} {n m : Nat} {es fs : List Event}
    (hpq : Fed s p q n es) (hqr : Fed s q r m fs) : Fed s p r (n + m) (es ++ fs) := by
  have htake : (s.commands.drop p.behind).take (n + m) =
      (s.commands.drop p.behind).take n ++ (s.commands.drop q.behind).take m := by
    rw [List.take_add, List.drop_drop, hpq.behind]
  obtain ⟨hexecuted, hparams, hstack⟩ :=
    Command.feed_congr ((s.commands.drop q.behind).take m) hpq.params hpq.ifStack
  have hfeed := Command.feed_append ((s.commands.drop p.behind).take n)
    ((s.commands.drop q.behind).take m) p.board
  rw [← htake] at hfeed
  refine ⟨?_, ?_, ?_, ?_, ?_⟩
  · rw [hqr.behind, hpq.behind, Nat.add_assoc]
  · rw [hqr.events, hpq.events, List.append_assoc]
  · rw [executedOf_append, hpq.executed, hqr.executed, hexecuted, hfeed]
  · rw [hqr.params, hparams, hfeed]
  · rw [hqr.ifStack, hstack, hfeed]

/-- Nothing is fed where the board and the place stay as they are. -/
theorem fed_none {s : Scenario} {p q : Player σ ℓ ς} {es : List Event}
    (hbehind : q.behind = p.behind) (hes : q.events = p.events ++ es)
    (hexecuted : executedOf s es = []) (hparams : q.board.params = p.board.params)
    (hstack : q.board.ifStack = p.board.ifStack) : Fed s p q 0 es :=
  ⟨hbehind, hes, hexecuted, hparams, hstack⟩

/-- One command is fed that is executed or passed over. -/
theorem fed_one {s : Scenario} {p q : Player σ ℓ ς} {c : Command} {es : List Event}
    (hc : s.commands[p.behind]? = some c) (hbehind : q.behind = p.behind + 1)
    (hes : q.events = p.events ++ es) (hexecuted : executedOf s es = (feed [c] p.board).1)
    (hparams : q.board.params = (feed [c] p.board).2.params)
    (hstack : q.board.ifStack = (feed [c] p.board).2.ifStack) : Fed s p q 1 es := by
  have hone : (s.commands.drop p.behind).take 1 = [c] := by
    obtain ⟨hlt, rfl⟩ := List.getElem?_eq_some_iff.mp hc
    rw [List.drop_eq_getElem_cons hlt]
    rfl
  exact ⟨hbehind, hes, by rw [hone, hexecuted], by rw [hone, hparams], by rw [hone, hstack]⟩

/-! ## Beats -/

variable [Stage σ] [Loader ℓ] [TableSource ς]

omit [Stage σ] [Loader ℓ] [TableSource ς] in
theorem Primed.skip {s : Scenario} {p : Player σ ℓ ς} (hp : Primed s p) (hidle : p.active? = none)
    {c : Command} (hc : s.commands[p.cursor.index]? = some c)
    (hskip : p.board.ifStack.skips c.isConditional = true) :
    Primed s (p.skip c) ∧ ∃ n es, Fed s p (p.skip c) n es := by
  obtain ⟨m, hm⟩ := hp.place
  have hplace := hm.skip hidle hc
  have hbehind := behind_skip hidle c
  have hfeed : feed [c] p.board = ([], p.board) := by simp [feed, hskip]
  rw [skip_eq] at hplace hbehind ⊢
  refine ⟨⟨⟨m, hplace⟩, hp.requests, fun a ha => ?_⟩, 1, _,
    fed_one (behind_of_idle hidle ▸ hc) hbehind (events_append rfl) ?_ ?_ ?_⟩
  · cases hidle.symm.trans ha
  · rw [hfeed]
    rfl
  · rw [hfeed]
  · rw [hfeed]

omit [Stage σ] [TableSource ς] in
theorem Primed.activate {s : Scenario} {p : Player σ ℓ ς} (hp : Primed s p)
    (hidle : p.active? = none) {c : Command} (hc : s.commands[p.cursor.index]? = some c)
    (hskip : p.board.ifStack.skips c.isConditional = false) :
    Primed s (p.activate c).1 ∧ ∃ n es, Fed s p (p.activate c).1 n es := by
  obtain ⟨m, hm⟩ := hp.place
  have hplace := hm.activate hidle hc
  have hbehind := behind_activate hidle c
  rw [activate_eq] at hplace hbehind ⊢
  refine ⟨⟨⟨m, hplace⟩, hp.requests, fun a ha _ => ?_⟩, 0, _,
    fed_none hbehind (events_append rfl) ?_ rfl rfl⟩
  · obtain rfl := Option.some.inj ha
    exact hskip
  · simp [executedOf]

/-- Requests that let the run go on feed nothing. -/
theorem fed_handle {s : Scenario} {p q r : Player σ ℓ ς} {n : Nat} {es : List Event}
    {requests : List Request} (h : Fed s p q n es) (hq : Primed s q)
    (hr : handle requests q = (r, none)) : Primed s r ∧ ∃ n es, Fed s p r n es := by
  have hgo := handle_goesOn hr
  obtain ⟨-, fs, hfs, hturns, -⟩ := handle_notes hr
  obtain ⟨m, hm⟩ := hq.place
  refine ⟨⟨⟨m, hm.congr hgo.scenario hgo.cursor hgo.active⟩, by rw [hgo.board, hq.requests], ?_⟩,
    _, _, h.trans (fed_none (behind_congr hgo.cursor hgo.active) hfs
      (executedOf_of_turnsOf s hturns) (by rw [hgo.board]) (by rw [hgo.board]))⟩
  rw [hgo.active, hgo.board]
  exact hq.loading

theorem Primed.execute {s : Scenario} {p r : Player σ ℓ ς} (hp : Primed s p) {a : Active}
    (ha : p.active? = some a) (hphase : a.phase = .loading)
    (hr : handle (p.execute a).1.board.requests (p.execute a).1.settle = (r, none)) :
    Primed s r ∧ ∃ n es, Fed s p r n es := by
  obtain ⟨m, hm⟩ := hp.place
  obtain ⟨hindex, hc⟩ := hm.active a ha
  have hbefore : p.behind = a.index := (behind_of_loading ha hphase).trans hindex.symm
  have hbehind := hm.behind_execute ha
  have hfeed : feed [a.command] p.board = ([a.command], a.command.action.change p.board) := by
    simp [feed, hp.loading a ha hphase]
  have hfed : Fed s p (p.execute a).1.settle 1 (p.executedEvents a) := by
    rw [execute_eq] at hbehind ⊢
    refine fed_one (c := a.command) (hbefore ▸ hc) (hbefore ▸ hbehind) (events_append rfl) ?_ ?_ ?_
    · rw [hfeed, executedOf, turnsOf_executedEvents]
      simp [hc]
    · rw [hfeed]
      rfl
    · rw [hfeed]
      rfl
  obtain ⟨m', hplace, -⟩ := hm.execute ha hphase
  refine fed_handle hfed ⟨⟨m', hplace⟩, rfl, fun b hb hphase' => ?_⟩ hr
  obtain rfl := Option.some.inj ((p.execute_active a).symm.trans hb)
  cases hphase'

theorem Primed.leave {s : Scenario} {p r : Player σ ℓ ς} (hp : Primed s p) {a : Active}
    {since : Nat} (ha : p.active? = some a) (hphase : a.phase = .waiting since)
    (hdone : (a.command.await (Stage.progress p.stage since) p.board).2 = true)
    (hr : handle (p.completed a since).board.requests (p.completed a since).settle = (r, none)) :
    Primed s r ∧ ∃ n es, Fed s p r n es := by
  obtain ⟨m, hm⟩ := hp.place
  have hbehind := (p.behind_completed a since).trans (hm.behind_waiting ha hphase).symm
  have hboard : (p.completed a since).board =
      boardPicked a.command (a.command.pick? (Stage.progress p.stage since) p.board) p.board := by
    rw [← await_board hdone, completed, complete_eq]
  -- nothing was picked, since the run goes on
  have hnone : (p.completed a since).board = boardPicked a.command none p.board := by
    obtain ⟨hopen, -⟩ := handle_notes hr
    rw [hboard] at hopen
    rw [hboard, boardPicked_of_open hp.requests hopen]
  have hsettled : (p.completed a since).settle.board = (p.completed a since).board.settle := rfl
  have hfed : Fed s p (p.completed a since).settle 0
      (p.doneEvents a (a.command.pick? (Stage.progress p.stage since) p.board)) := by
    refine fed_none hbehind ?_ ?_ ?_ ?_
    · rw [completed, complete_eq]
      exact events_append rfl
    · rw [executedOf, turnsOf_doneEvents]
      rfl
    · rw [hsettled, hnone]
      exact params_boardPicked _ _
    · rw [hsettled, hnone]
      exact ifStack_boardPicked _ _
  refine fed_handle hfed ⟨⟨m, hm.complete ha hphase⟩, rfl, fun b hb => ?_⟩ hr
  cases (p.completed_active a since).symm.trans hb

/-- Every beat feeds what it gets behind the run. -/
theorem Beat.fed {V : Player σ ℓ ς → Prop} {s : Scenario} {p q : Player σ ℓ ς} (h : Beat V p q)
    (hp : Primed s p) : Primed s q ∧ ∃ n es, Fed s p q n es := by
  obtain ⟨m, hm⟩ := hp.place
  cases h with
  | skip _ hstands hc hskip =>
    obtain rfl := Option.some.inj (hstands.scenario.symm.trans hm.scenario)
    exact hp.skip hstands.idle hc hskip
  | activate _ hstands hc hskip =>
    obtain rfl := Option.some.inj (hstands.scenario.symm.trans hm.scenario)
    exact hp.activate hstands.idle hc hskip
  | execute hplays hphase _ hr => exact hp.execute hplays.active hphase hr
  | leave hplays hphase hdone hr => exact hp.leave hplays.active hphase hdone hr

theorem Beats.fed {V : Player σ ℓ ς → Prop} {s : Scenario} {p q : Player σ ℓ ς}
    (h : Beats V p q) (hp : Primed s p) : Primed s q ∧ ∃ n es, Fed s p q n es := by
  induction h with
  | refl => exact ⟨hp, 0, [], fed_none rfl (List.append_nil _).symm rfl rfl rfl⟩
  | tail _ hlast ih =>
    obtain ⟨hmid, n, es, hfed⟩ := ih
    obtain ⟨hq, m, fs, hfed'⟩ := hlast.fed hmid
    exact ⟨hq, n + m, es ++ fs, hfed.trans hfed'⟩

/-! ## Runs -/

/-- An input to a player that waits feeds something, and it waits again, or its run is closed. -/
theorem Waits.fed_after {s : Scenario} {q : Player σ ℓ ς} (hq : Waits q) (hp : Primed s q)
    {i : Input σ ℓ ς} {S : ς → Prop} (hi : Answering S i) :
    (Waits (q.after i) ∧ Primed s (q.after i) ∧ ∃ n es, Fed s q (q.after i) n es) ∨
      Closes q (q.after i) := by
  obtain ⟨s', a, hplays⟩ := id hq
  cases hi with
  | stage | loader | source =>
    -- the world changes, and nothing that feeding looks at
    obtain ⟨m, hm⟩ := hp.place
    refine Or.inl ⟨⟨s', a, hplays.state, hplays.scenario, hplays.active⟩,
      ⟨⟨m, hm.congr rfl rfl rfl⟩, hp.requests, hp.loading⟩, 0, [], ?_⟩
    exact fed_none rfl (List.append_nil _).symm rfl rfl rfl
  | tick =>
    have hends : Ends (fun _ => True) q (q.after .tick) := by
      rw [after, tick_of_running hplays.state hplays.scenario]
      exact play_ends (fun _ _ => trivial) hplays.state hplays.scenario
    generalize q.after .tick = r at hends ⊢
    cases hends with
    | waits hbeats hr =>
      obtain ⟨hprimed, hfed⟩ := hbeats.fed hp
      exact Or.inl ⟨hr, hprimed, hfed⟩
    | closed hbeats hclose => exact Or.inr (hbeats.tells.closes hclose.closes)

/-- What a player feeds it feeds on the way to any state that it passes through, and then from
    there on. -/
theorem Fed.through {s : Scenario} {p q : Player σ ℓ ς} {n : Nat} {fs : List Event}
    (hpq : Fed s p q n fs) (inputs : List (Input σ ℓ ς)) {es : List Event}
    (hes : (q.afterAll inputs).events = p.events ++ es) (hasked : Unasked es)
    (hrest : ∀ {gs}, (q.afterAll inputs).events = q.events ++ gs → Unasked gs →
      ∃ m, Fed s q (q.afterAll inputs) m gs) : ∃ n, Fed s p (q.afterAll inputs) n es := by
  obtain ⟨gs, hgs⟩ := q.afterAll_grows inputs
  obtain rfl : es = fs ++ gs := by
    rw [hgs, hpq.events, List.append_assoc] at hes
    exact (List.append_cancel_left hes).symm
  have hlater : Unasked gs := fun label page hmem =>
    hasked label page (by rw [turnsOf_append]; exact List.mem_append_right _ hmem)
  obtain ⟨m, hqr⟩ := hrest hgs hlater
  exact ⟨n + m, hpq.trans hqr⟩

/-- A run that is left to itself has fed what it got behind itself, as long as it is played. -/
theorem Waits.fed_afterAll {S : ς → Prop} {s : Scenario} {q : Player σ ℓ ς} (hq : Waits q)
    (hp : Primed s q) {inputs : List (Input σ ℓ ς)} (hinputs : ∀ i ∈ inputs, Answering S i)
    {es : List Event} (hes : (q.afterAll inputs).events = q.events ++ es) (hasked : Unasked es)
    (hstate : (q.afterAll inputs).state = .running) : ∃ n, Fed s q (q.afterAll inputs) n es := by
  induction inputs generalizing q es with
  | nil =>
    obtain rfl : [] = es := List.append_cancel_left ((List.append_nil _).trans hes)
    exact ⟨0, fed_none rfl hes rfl rfl rfl⟩
  | cons i inputs ih =>
    have hrest := fun i hi => hinputs i (List.mem_cons_of_mem _ hi)
    rcases hq.fed_after hp (hinputs i List.mem_cons_self) with
      ⟨hwaits, hprimed, n, fs, hfed⟩ | hcloses
    · exact hfed.through inputs hes hasked fun hgs hlater =>
        ih hwaits hprimed hrest hgs hlater hstate
    · exact absurd hstate (hcloses.not_running hrest hes hasked)

/-- The rest of a run from where it stands has fed what it got behind itself, as long as it is
    played. -/
theorem Passes.fed_afterAll {S : ς → Prop} {p q : Player σ ℓ ς} {s : Scenario}
    (h : Passes p q s p.tick) (hplaced : Placed q) (hrequests : q.board.requests = [])
    {inputs : List (Input σ ℓ ς)} (hinputs : ∀ i ∈ inputs, Answering S i) {es : List Event}
    (hes : (p.tick.1.afterAll inputs).events = q.events ++ es) (hasked : Unasked es)
    (hstate : (p.tick.1.afterAll inputs).state = .running) :
    ∃ n, Fed s q (p.tick.1.afterAll inputs) n es := by
  have hprimed : Primed s q :=
    ⟨hplaced.section h.stands, hrequests, fun a ha => by cases h.stands.idle.symm.trans ha⟩
  have hends : Ends (fun _ => True) q p.tick.1 := by
    rw [h.result]
    exact playFrom_ends _ (fun _ _ => trivial) h.stands rfl
  generalize p.tick.1 = r at hends hes hstate ⊢
  cases hends with
  | waits hbeats hwaits =>
    obtain ⟨hprimed', n, fs, hfed⟩ := hbeats.fed hprimed
    exact hfed.through inputs hes hasked fun hgs hlater =>
      hwaits.fed_afterAll hprimed' hinputs hgs hlater hstate
  | closed hbeats hclose =>
    exact absurd hstate ((hbeats.tells.closes hclose.closes).not_running hinputs hes hasked)

/-- A run reads blocks as they are meant. If the commands of a script are next where it stands,
    then when it has come behind them, however many ticks this took, it has executed what the tree
    of the script tells, in order, or nothing if a block around the script is in a branch that is
    not taken; the parameters are those that the tree leaves, and the open blocks those from
    before. -/
theorem run_reads_blocks (stage : σ) (loader : ℓ) (source : ς) (factory : Factory)
    (settings : Settings) (cap : Nat) (params : Expression.Params) (galleryLabels : List String)
    (history? : Option History.ReadHistory) (inputs : List (Input σ ℓ ς)) {p : Player σ ℓ ς}
    (hp : p ∈ ((ready stage loader source (.ofSettings factory settings) cap params galleryLabels
      history?).afterAll inputs).stations) {s : Scenario} (hs : p.scenario? = some s)
    {t : Script} {rest : List Command}
    (hnext : s.commands.drop p.cursor.index = t.commands ++ rest)
    {more : List (Input σ ℓ ς)} (hmore : ∀ i ∈ more, Answering (fun _ => True) i)
    {es : List Event} :
    let run := (ready stage loader source (.ofSettings factory settings) cap params galleryLabels
      history?).afterAll inputs
    let q := run.tick.1.afterAll more
    q.events = p.events ++ es → Unasked es → q.state = .running →
    q.behind = p.cursor.index + t.commands.length →
    Command.plain (executedOf s es) = (t.playIn p.board.ifStack p.board.params).1 ∧
      q.board.params = (t.playIn p.board.ifStack p.board.params).2 ∧
      q.board.ifStack = p.board.ifStack := by
  intro run q hes hasked hstate hbehind
  obtain ⟨s', hpasses, hplaced, hrequests⟩ := station_of_run stage loader source factory settings
    cap params galleryLabels history? inputs hp
  obtain rfl : s' = s := Option.some.inj (hpasses.stands.scenario.symm.trans hs)
  obtain ⟨n, hfed⟩ := hpasses.fed_afterAll hplaced hrequests hmore hes hasked hstate
  have hat := behind_of_idle hpasses.stands.idle
  have hcount : n = t.commands.length := by
    have := hfed.behind
    rw [hbehind, hat] at this
    omega
  have hscript : (s'.commands.drop p.behind).take n = t.commands := by
    rw [hat, hnext, hcount, List.take_left]
  have hreads := t.reads p.board
  rw [← hscript] at hreads
  exact ⟨hfed.executed ▸ hreads.executed, hfed.params.trans hreads.params,
    hfed.ifStack.trans hreads.ifStack⟩

end VisualNovel.Player
