import VisualNovel.Proofs.Player.Moves

/-
  What belongs together in a player. Its state, its scenario, its active command and what is on
  its board fit at every step (`Coherent`), so that no tick comes upon a run without a scenario;
  and between calls a run always has an active command, since a tick goes on until one waits
  (`Consistent`). What a tick answers can be read off the state it leaves (`Reports`).
-/

namespace VisualNovel.Player

open Asset (Loader)
open Scenario (Corpus TableSource)

variable {σ ℓ ς : Type}

/-! ## Steps -/

/-- What fits together in a player at every step of a run. -/
structure Coherent (p : Player σ ℓ ς) : Prop where
  scenario : p.scenario?.isSome ↔ p.state = .running
  active : p.active?.isSome → p.state = .running
  command : ∀ s a, p.scenario? = some s → p.active? = some a →
    a.index = p.cursor.index ∧ s.commands[a.index]? = some a.command
  admitted : ∀ a, p.active? = some a → a.phase = .loading →
    p.board.ifStack.skips a.command.isConditional = false
  requests : p.board.requests = []
  page : labelStart ≤ p.cursor.page
  cleared : p.state ≠ .running →
    p.board.ifStack = .empty ∧ p.board.choices = [] ∧ p.window.held = []

/-- A cursor that is on a page, or before the first one, is so on the page that begins. -/
theorem Cursor.turnPage_page_le {cur : Cursor} (h : labelStart ≤ cur.page) (c : Command) :
    labelStart ≤ (cur.turnPage c).page := by
  unfold turnPage
  split
  · exact Int.le_trans h (Int.le_add_one (Int.le_refl _))
  · exact h

theorem Cursor.enter_page_le {cur : Cursor} (h : labelStart ≤ cur.page) (c : Command) :
    labelStart ≤ (cur.enter c).page := by
  unfold enter
  split
  · exact h
  · exact Int.le_refl _

theorem entry_page_le (s : Scenario) (label : String) (page : Int) :
    labelStart ≤ (entry s label page).page := by
  unfold entry labelStart
  split
  · exact Int.sub_le_sub_right (Int.le_max_right page 0) 1
  · exact Int.le_refl _

/-- A run has an active command only while it is under way. -/
theorem Coherent.idle {p : Player σ ℓ ς} (hp : Coherent p) (h : p.state ≠ .running) :
    p.active? = none := by
  cases ha : p.active? with
  | none => rfl
  | some a => exact absurd (hp.active (by rw [ha]; rfl)) h

theorem coherent_ready (stage : σ) (loader : ℓ) (source : ς) (corpus : Corpus) (cap : Nat)
    (params : Expression.Params) (galleryLabels : List String)
    (history? : Option History.ReadHistory) :
    Coherent (ready stage loader source corpus cap params galleryLabels history?) where
  scenario := ⟨(nomatch ·), (nomatch ·)⟩
  active := (nomatch ·)
  command _ _ h := nomatch h
  admitted _ h := nomatch h
  requests := rfl
  page := Int.le_refl _
  cleared _ := ⟨rfl, rfl, rfl⟩

/-- Changes around a player, notes and what it compiles leave together what belongs together. -/
theorem Coherent.unmoved {p q : Player σ ℓ ς} (hp : Coherent p) (hstate : q.state = p.state)
    (hscenario : q.scenario? = p.scenario?) (hactive : q.active? = p.active?)
    (hcursor : q.cursor = p.cursor) (hwindow : q.window = p.window)
    (hifStack : q.board.ifStack = p.board.ifStack) (hchoices : q.board.choices = p.board.choices)
    (hrequests : q.board.requests = p.board.requests) : Coherent q where
  scenario := by
    rw [hscenario, hstate]
    exact hp.scenario
  active := by
    rw [hactive, hstate]
    exact hp.active
  command := by
    rw [hscenario, hactive, hcursor]
    exact hp.command
  admitted := by
    rw [hactive, hifStack]
    exact hp.admitted
  requests := hrequests.trans hp.requests
  page := by
    rw [hcursor]
    exact hp.page
  cleared := by
    rw [hstate, hifStack, hchoices, hwindow]
    exact hp.cleared

/-- A player that left its run, whatever it does then, has nothing of the run. -/
theorem Coherent.left {p q : Player σ ℓ ς} (hp : Coherent p) (hstate : q.state ≠ .running)
    (hscenario : q.scenario? = none) (hactive : q.active? = none) (hcursor : q.cursor = p.cursor)
    (hboard : q.board = p.board.clear) (hwindow : q.window.held = []) : Coherent q where
  scenario := by
    rw [hscenario]
    exact ⟨(nomatch ·), fun h => absurd h hstate⟩
  active h := by
    rw [hactive] at h
    cases h
  command _ _ h := by
    rw [hscenario] at h
    cases h
  admitted _ h := by
    rw [hactive] at h
    cases h
  requests := by
    rw [hboard]
    rfl
  page := by
    rw [hcursor]
    exact hp.page
  cleared _ := by
    rw [hboard]
    exact ⟨rfl, rfl, hwindow⟩

/-- A player that goes on in its run without an active command. -/
theorem Coherent.stood {p : Player σ ℓ ς} {s : Scenario} (hp : p.Stands s)
    (hrequests : p.board.requests = []) (hpage : labelStart ≤ p.cursor.page) : Coherent p where
  scenario := ⟨fun _ => hp.state, fun _ => by rw [hp.scenario]; rfl⟩
  active _ := hp.state
  command _ _ _ h := by
    rw [hp.idle] at h
    cases h
  admitted _ h := by
    rw [hp.idle] at h
    cases h
  requests := hrequests
  page := hpage
  cleared h := absurd hp.state h

/-- A player that goes on in its run with a command of it. -/
theorem Coherent.played {p : Player σ ℓ ς} {s : Scenario} {a : Active} (hp : p.Plays s a)
    (hcommand : a.index = p.cursor.index ∧ s.commands[a.index]? = some a.command)
    (hadmitted : a.phase = .loading → p.board.ifStack.skips a.command.isConditional = false)
    (hrequests : p.board.requests = []) (hpage : labelStart ≤ p.cursor.page) : Coherent p where
  scenario := ⟨fun _ => hp.state, fun _ => by rw [hp.scenario]; rfl⟩
  active _ := hp.state
  command t b ht hb := by
    obtain rfl := Option.some.inj (hp.scenario.symm.trans ht)
    obtain rfl := Option.some.inj (hp.active.symm.trans hb)
    exact hcommand
  admitted b hb hphase := by
    obtain rfl := Option.some.inj (hp.active.symm.trans hb)
    exact hadmitted hphase
  requests := hrequests
  page := hpage
  cleared h := absurd hp.state h

theorem Coherent.change {p q : Player σ ℓ ς} (h : Change p q) (hp : Coherent p) : Coherent q := by
  cases h with
  | stage | loader | source | params | compile | register | settings =>
    exact hp.unmoved rfl rfl rfl rfl rfl rfl rfl rfl

variable [Stage σ] [Loader ℓ] [TableSource ς]

theorem Coherent.move {p q : Player σ ℓ ς} (h : Move p q) (hp : Coherent p) : Coherent q := by
  cases h with
  | enter hstate hs =>
    have hidle := hp.idle (by rw [hstate]; exact State.noConfusion)
    rw [enterScenario_eq]
    exact .stood ⟨rfl, rfl, hidle⟩ hp.requests (entry_page_le _ _ _)
  | skip hstands hc hskip =>
    rw [skip_eq]
    exact .stood ⟨hstands.state, hstands.scenario, hstands.idle⟩ hp.requests
      (Cursor.turnPage_page_le hp.page _)
  | activate hstands hc hskip =>
    rw [activate_eq]
    exact .played ⟨hstands.state, hstands.scenario, rfl⟩ ⟨rfl, hc⟩ (fun _ => hskip) hp.requests
      hp.page
  | execute hplays hphase hload =>
    obtain ⟨hindex, hc⟩ := hp.command _ _ hplays.scenario hplays.active
    refine .played (execute_plays hplays) ⟨?_, hc⟩ (fun h => by cases h) rfl ?_
    · rw [settle_cursor, execute_eq, hindex]
      simp
    · rw [settle_cursor, execute_eq]
      exact Cursor.turnPage_page_le (Cursor.enter_page_le hp.page _) _
  | complete hplays hphase hdone =>
    refine .stood (completed_stands hplays _) rfl ?_
    rw [settle_cursor, completed_cursor]
    exact hp.page
  | endGalleryScene =>
    obtain ⟨history?, es, -, -, -, -, heq⟩ := p.endGalleryScene_eq
    rw [heq]
    exact hp.unmoved rfl rfl rfl rfl rfl rfl rfl rfl
  | notePageLeft =>
    obtain ⟨history?, es, -, -, -, -, heq⟩ := p.notePageLeft_eq
    rw [heq]
    exact hp.unmoved rfl rfl rfl rfl rfl rfl rfl rfl
  | begin =>
    rw [begin_eq]
    exact hp.left State.noConfusion rfl rfl rfl rfl rfl
  | finish =>
    rw [finish_eq]
    exact hp.left State.noConfusion rfl rfl rfl rfl rfl
  | compile => exact hp.unmoved rfl rfl rfl rfl rfl rfl rfl rfl

theorem Coherent.afterAll {p : Player σ ℓ ς} (hp : Coherent p) (inputs : List (Input σ ℓ ς)) :
    Coherent (p.afterAll inputs) :=
  afterAll_preserve (fun h hp => hp.move h) (fun h hp => hp.change h) hp inputs

/-! ## Answers -/

/-- What a player is left at with a status: it waits for a table, for the assets of the active
    command or for that command, or no run is under way. -/
inductive Reports (p : Player σ ℓ ς) : Status → Prop
  | labelLoad {label : String} {page : Int} (hstate : p.state = .loading label page) :
      Reports p (.suspended .labelLoad)
  | resourceLoad {s : Scenario} {a : Active} (hp : p.Plays s a) (hphase : a.phase = .loading) :
      Reports p (.suspended .resourceLoad)
  | commandWait {s : Scenario} {a : Active} {since : Nat} (hp : p.Plays s a)
      (hphase : a.phase = .waiting since)
      (hdone : (a.command.await (Stage.progress p.stage since) p.board).2 = false) :
      Reports p (.suspended .commandWait)
  | halted (hstate : p.state.isUnderWay = false) : Reports p .halted

omit [TableSource ς] in
theorem reports_finish (p : Player σ ℓ ς) (reason : Stage.EndReason) :
    Reports (p.finish reason) .halted := by
  rw [finish_eq]
  exact .halted rfl

omit [TableSource ς] in
theorem reports_finishIfUnderWay (p : Player σ ℓ ς) (reason : Stage.EndReason) :
    Reports (p.finishIfUnderWay reason) .halted := by
  unfold finishIfUnderWay
  split
  · exact reports_finish p reason
  · rename_i h
    exact .halted (Bool.not_eq_true _ ▸ h)

omit [Stage σ] in
theorem jump_state (p : Player σ ℓ ς) (label : String) :
    (p.jump label).state = .loading (bareLabel label) 0 := by
  simp only [jump, begin_eq]

/-- Requests that close a run tell what is left of it. -/
theorem handle_reports {requests : List Command.Request} {p r : Player σ ℓ ς} {status : Status}
    (h : handle requests p = (r, some status)) : Reports r status := by
  induction requests generalizing p with
  | nil => cases h
  | cons request rest ih =>
    cases request with
    | jump label =>
      obtain ⟨rfl, ⟨⟩⟩ := Prod.mk.inj h
      exact .labelLoad (p.jump_state label)
    | endScenario =>
      obtain ⟨rfl, ⟨⟩⟩ := Prod.mk.inj h
      exact reports_finish p _
    | stop | erase =>
      obtain ⟨rfl, ⟨⟩⟩ := Prod.mk.inj h
      exact reports_finishIfUnderWay p _
    | endSceneGallery => exact ih h

theorem await_reports {p r : Player σ ℓ ς} {s : Scenario} {a : Active} {since : Nat}
    {status : Status} (hp : p.Plays s a) (hphase : a.phase = .waiting since)
    (h : p.await a since = (r, some status)) : Reports r status := by
  cases hdone : (a.command.await (Stage.progress p.stage since) p.board).2 with
  | false =>
    rw [await_of_undone hdone] at h
    obtain ⟨rfl, ⟨⟩⟩ := Prod.mk.inj h
    exact .commandWait hp hphase hdone
  | true => exact handle_reports ((await_of_done hdone).symm.trans h)

theorem advance_reports {p r : Player σ ℓ ς} {s : Scenario} {a : Active} {status : Status}
    (hp : p.Plays s a) (h : p.advance a = (r, some status)) : Reports r status := by
  cases hphase : a.phase with
  | waiting since =>
    rw [advance_of_waiting hphase] at h
    exact await_reports hp hphase h
  | loading =>
    cases hload : p.isLoadComplete a.command with
    | false =>
      rw [advance_of_pending hphase hload] at h
      obtain ⟨rfl, ⟨⟩⟩ := Prod.mk.inj h
      exact .resourceLoad hp hphase
    | true =>
      rcases advance_of_loaded hphase hload with ⟨q, status', hq, hadvance⟩ | ⟨q, hq, hadvance⟩
      · obtain ⟨rfl, ⟨⟩⟩ := Prod.mk.inj (hadvance.symm.trans h)
        exact handle_reports hq
      · exact await_reports (a := { a with phase := .waiting _ })
          ((handle_goesOn hq).plays (execute_plays hp)) rfl (hadvance.symm.trans h)

theorem turn_reports {p r : Player σ ℓ ς} {s : Scenario} {c : Command} {status : Status}
    (hp : p.Stands s) (h : p.turn c = (r, some status)) : Reports r status := by
  unfold turn at h
  split at h
  · cases h
  · exact advance_reports (activate_plays hp c) h

theorem playFrom_reports {s : Scenario} (rest : List Command) {p : Player σ ℓ ς}
    (hp : p.Stands s) (hrest : s.commands.drop p.cursor.index = rest) :
    Reports (playFrom rest p).1 (playFrom rest p).2 := by
  induction rest generalizing p with
  | nil => exact reports_finish p _
  | cons c rest ih =>
    obtain ⟨hc, hbehind⟩ := next_of_drop hrest
    have hgoes := turn_goes (V := fun _ => True) trivial hp hc
    unfold playFrom
    rcases hturn : p.turn c with ⟨q, status⟩
    rw [hturn] at hgoes
    cases status with
    | some status => exact turn_reports hp hturn
    | none =>
      cases hgoes with
      | on hbeats hq hindex =>
        refine ih hq ?_
        rw [hindex, hbehind]

theorem play_reports {p : Player σ ℓ ς} {s : Scenario} (hstate : p.state = .running)
    (hs : p.scenario? = some s) : Reports (p.play s).1 (p.play s).2 := by
  unfold play
  cases ha : p.active? with
  | none => exact playFrom_reports _ ⟨hstate, hs, ha⟩ rfl
  | some a =>
    have hp : p.Plays s a := ⟨hstate, hs, ha⟩
    have hgoes := advance_goes (V := fun _ => True) hp
    dsimp only
    rcases hadvance : p.advance a with ⟨q, status⟩
    rw [hadvance] at hgoes
    cases status with
    | some status => exact advance_reports hp hadvance
    | none =>
      cases hgoes with
      | on hbeats hq hindex => exact playFrom_reports _ hq rfl

/-- What a tick answers is what it leaves. -/
theorem tick_reports (p : Player σ ℓ ς) : Reports p.tick.1 p.tick.2 := by
  cases hstate : p.state with
  | idle | ended =>
    have htick : p.tick = (p, .halted) := by
      unfold tick
      rw [hstate]
    rw [htick]
    exact .halted (by rw [hstate]; rfl)
  | loading label page =>
    cases hloaded : TableSource.isLoaded p.source label with
    | false =>
      rw [tick_of_unloaded hstate hloaded]
      exact .labelLoad hstate
    | true =>
      rcases hfetch : p.corpus.fetch p.source label with ⟨corpus, _ | s⟩
      · rw [tick_of_missing hstate hloaded hfetch]
        exact reports_finish _ _
      · rw [tick_of_fetched hstate hloaded hfetch]
        exact play_reports (by rw [enterScenario_eq]) (by rw [enterScenario_eq])
  | running =>
    cases hs : p.scenario? with
    | none =>
      have htick : p.tick = (p.finish .completed, .halted) := by
        unfold tick
        rw [hstate, hs]
      rw [htick]
      exact reports_finish p _
    | some s =>
      rw [tick_of_running hstate hs]
      exact play_reports hstate hs

omit [Loader ℓ] [TableSource ς] in
/-- After a tick a run that plays has an active command. -/
theorem Reports.playing {p : Player σ ℓ ς} {status : Status} (h : Reports p status)
    (hstate : p.state = .running) : p.active?.isSome := by
  cases h with
  | labelLoad h => cases h.symm.trans hstate
  | resourceLoad hp _ | commandWait hp _ _ =>
    rw [hp.active]
    rfl
  | halted h =>
    rw [hstate] at h
    cases h

/-- The status of a tick and the state that the tick leaves, each read off the other. -/
structure Answers (p : Player σ ℓ ς) (status : Status) : Prop where
  labelLoad : status = .suspended .labelLoad ↔ ∃ label page, p.state = .loading label page
  resourceLoad : status = .suspended .resourceLoad ↔
    p.state = .running ∧ ∃ a, p.active? = some a ∧ a.phase = .loading
  commandWait : status = .suspended .commandWait ↔
    p.state = .running ∧ ∃ a since, p.active? = some a ∧ a.phase = .waiting since
  halted : status = .halted ↔ p.state = .idle ∨ ∃ reason, p.state = .ended reason
  waitsOnLoad : p.isWaitingOnLoad = true ↔
    status = .suspended .labelLoad ∨ status = .suspended .resourceLoad

omit [Loader ℓ] [TableSource ς] in
theorem Reports.answers {p : Player σ ℓ ς} {status : Status} (h : Reports p status)
    (hp : Coherent p) : Answers p status := by
  cases h with
  | labelLoad hstate =>
    have hidle := hp.idle (by rw [hstate]; exact State.noConfusion)
    constructor <;> simp [hstate, isWaitingOnLoad]
  | resourceLoad hplays hphase =>
    constructor <;> simp [hplays.state, hplays.active, hphase, isWaitingOnLoad]
  | commandWait hplays hphase _ =>
    constructor <;> simp [hplays.state, hplays.active, hphase, isWaitingOnLoad]
  | halted hstate =>
    cases h : p.state with
    | loading | running =>
      rw [h] at hstate
      cases hstate
    | idle | ended =>
      have hidle := hp.idle (by rw [h]; exact State.noConfusion)
      constructor <;> simp [h, hidle, isWaitingOnLoad]

/-! ## Calls -/

/-- What fits together in a player between its calls: it plays just as long as it has a scenario
    and a command of it is active, which is not in a branch that is not taken when it is about
    to be executed; nothing is requested; and nothing of a run is left when none is played. -/
structure Consistent (p : Player σ ℓ ς) : Prop where
  scenario : p.scenario?.isSome ↔ p.state = .running
  active : p.active?.isSome ↔ p.state = .running
  command : ∀ s a, p.scenario? = some s → p.active? = some a →
    a.index = p.cursor.index ∧ s.commands[a.index]? = some a.command
  admitted : ∀ a, p.active? = some a → a.phase = .loading → a.command.isConditional = false →
    p.board.ifStack.isSuppressed = false
  requests : p.board.requests = []
  page : -1 ≤ p.cursor.page
  cleared : p.state ≠ .running →
    p.board.ifStack = .empty ∧ p.board.choices = [] ∧ p.window.held = []

omit [Stage σ] [Loader ℓ] [TableSource ς] in
theorem Coherent.consistent {p : Player σ ℓ ς} (hp : Coherent p)
    (hplaying : p.state = .running → p.active?.isSome) : Consistent p :=
  { hp with
    active := ⟨hp.active, hplaying⟩
    admitted := fun a ha hphase hconditional => by
      have hskips := hp.admitted a ha hphase
      rw [hconditional] at hskips
      exact hskips }

/-- A call leaves a run that plays with an active command. -/
theorem playing_after {p : Player σ ℓ ς} (hp : p.state = .running → p.active?.isSome)
    (i : Input σ ℓ ς) : (p.after i).state = .running → (p.after i).active?.isSome := by
  have hfinish : ∀ reason, (p.finishIfUnderWay reason).state = .running →
      (p.finishIfUnderWay reason).active?.isSome := fun reason =>
    (reports_finishIfUnderWay p reason).playing
  cases i with
  | start | resume =>
    intro h
    simp only [after, start, resume, begin_eq] at h
    cases h
  | jump label => exact fun h => by cases (p.jump_state label).symm.trans h
  | stop => exact hfinish _
  | erase => exact hfinish _
  | tick => exact p.tick_reports.playing
  | stage | loader | source | params | compile | register | settings => exact hp

theorem playing_afterAll {p : Player σ ℓ ς} (hp : p.state = .running → p.active?.isSome)
    (inputs : List (Input σ ℓ ς)) :
    (p.afterAll inputs).state = .running → (p.afterAll inputs).active?.isSome := by
  induction inputs generalizing p with
  | nil => exact hp
  | cons i inputs ih => exact ih (playing_after hp i)

/-- Whatever calls a player got and whatever changed around it, between two of them what it
    holds fits together, and a tick answers what it leaves. -/
theorem player_is_consistent (stage : σ) (loader : ℓ) (source : ς) (corpus : Corpus) (cap : Nat)
    (params : Expression.Params) (galleryLabels : List String)
    (history? : Option History.ReadHistory) (inputs : List (Input σ ℓ ς)) :
    let p := (ready stage loader source corpus cap params galleryLabels history?).afterAll inputs
    Consistent p ∧ Answers p.tick.1 p.tick.2 := by
  have hready := coherent_ready stage loader source corpus cap params galleryLabels history?
  have hp := hready.afterAll inputs
  refine ⟨hp.consistent (playing_afterAll (fun h => by cases h) inputs), ?_⟩
  exact (tick_reports _).answers (Moves.preserve (fun h hp => hp.move h) (tick_moves _) hp)

end VisualNovel.Player
