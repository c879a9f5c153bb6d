import VisualNovel.Proofs.Player.Departures
import VisualNovel.Proofs.Player.Menus
import VisualNovel.Proofs.Player.Strides

/-
  What menus do. A menu shows the choices of the entries directly before it and is waited for
  (`Shows`). Until something is picked, ticks change nothing. A pick of a choice has its effect on
  the parameters once and leaves for the label of the choice; any other pick, like a menu without
  entries, lets the run go on behind the menu (`Resolves`). So it is wherever the run came from
  (`menus_offer_their_entries`).
-/

namespace VisualNovel.Player

open Asset (FileLoader Loader)
open Command (Board Factory Settings)
open Expression (Params)
open Scenario (Library SparesMenus TableSource)
open Stage (Choice)
open Table (CellTable)

variable {σ ℓ ς : Type}

/-! ## Effects -/

/-- The parameters after the effect of a choice. One that fails leaves in force what it did
    before. -/
def effectOn (choice : Choice) (params : Params) : Params :=
  (choice.effect?.map fun e => (e.apply params).1).getD params

/-- A pick has the effect of the choice, asks for a jump to its label, and leaves no choices. -/
theorem pick_eq {b : Board} (hb : b.requests = []) (choice : Choice) :
    b.pick choice =
      { b with
        params := effectOn choice b.params
        choices := []
        requests := [.jump choice.target] } := by
  unfold Board.pick effectOn
  cases choice.effect? <;> simp [Board.request, Board.assign, hb]

theorem settle_eq_self {p : Player σ ℓ ς} (h : p.board.requests = []) : p.settle = p := by
  unfold settle Board.settle
  rw [← h]

/-- A menu without choices, or one that is answered with none of them, is done without choices. -/
theorem await_passed {c : Command} {progress : Stage.Progress} {b : Board} (hc : c.action = .menu)
    (hpassed : b.choices = [] ∨ ∃ k, progress.picked? = some k ∧ b.choices[k]? = none) :
    c.await progress b = ({ b with choices := [] }, true) := by
  simp only [Command.await, hc, Board.awaitPick]
  by_cases hnone : b.choices = []
  · rw [if_pos hnone, ← hnone]
  · obtain ⟨k, hk, hchoice⟩ := hpassed.resolve_left hnone
    rw [if_neg hnone, hk]
    dsimp only
    rw [hchoice]

/-- Where there is a choice, the pick is noted as it was made. -/
theorem pick?_of_choice {c : Command} {progress : Stage.Progress} {b : Board} {k : Nat}
    {choice : Choice} (hc : c.action = .menu) (hpick : progress.picked? = some k)
    (hchoice : b.choices[k]? = some choice) : c.pick? progress b = some k := by
  have hsome : b.choices ≠ [] := fun hnone => by
    rw [hnone] at hchoice
    cases hchoice
  simp only [Command.pick?, hc, if_neg hsome, hpick]

/-- A menu that is not answered is not done. -/
theorem await_unpicked {c : Command} {progress : Stage.Progress} {b : Board} (hc : c.action = .menu)
    (hb : b.choices ≠ []) (hnone : progress.picked? = none) : (c.await progress b).2 = false := by
  simp only [Command.await, hc, Board.awaitPick, if_neg hb, hnone]

variable [Stage σ] [Loader ℓ] [TableSource ς]

/-! ## Ticks at a menu -/

theorem tick_of_plays {p : Player σ ℓ ς} {s : Scenario} {a : Active} (hp : p.Plays s a) :
    p.tick =
      match p.advance a with
      | (r, some status) => (r, status)
      | (r, none) => playFrom (s.commands.drop r.cursor.index) r := by
  rw [tick_of_running hp.state hp.scenario]
  rcases hadvance : p.advance a with ⟨r, _ | status⟩
  · simp only [play, hp.active, hadvance]
  · simp only [play, hp.active, hadvance]

section

variable {a : Active} (hmenu : a.command.action = .menu)
include hmenu

omit [Stage σ] [TableSource ς] in
/-- A menu needs no assets. -/
theorem isLoadComplete_of_menu (q : Player σ ℓ ς) : q.isLoadComplete a.command = true := by
  rw [isLoadComplete, Command.resources, hmenu]
  rfl

omit [TableSource ς] in
/-- A menu changes nothing when it is executed, -/
theorem board_of_menu (q : Player σ ℓ ς) : (q.execute a).1.board = q.board := by
  rw [execute_eq]
  show a.command.action.change q.board = q.board
  rw [hmenu]
  rfl

omit [Stage σ] [TableSource ς] in
/-- but shows the choices there are, if any, and begins its page. -/
theorem cuesOf_menu (q : Player σ ℓ ς) :
    cuesOf (q.executedEvents a) =
      (if q.board.choices = [] then [] else [.choices q.board.choices]) ++
        [.pageBegin q.cursor.label (q.cursor.page + 1)] := by
  have hcues : (q.outcome a).2 =
      if q.board.choices = [] then [] else [.choices q.board.choices] := by
    show a.command.action.cues _ q.board = _
    rw [hmenu]
    rfl
  have hcursor : (q.cursor.enter a.command).turnPage a.command =
      { q.cursor with page := q.cursor.page + 1 } := by
    rw [Cursor.enter, Cursor.turnPage, Command.label?, Command.beginsPage, hmenu]
    rfl
  have hbegins : a.command.beginsPage = true := by
    rw [Command.beginsPage, hmenu]
    rfl
  simp [executedEvents, hcues, hcursor, hbegins]

end

/-- What comes of a menu whose turn it is: it shows the choices of the entries before it, if there
    are any, and begins its page. The tick goes on as one that finds the menu waiting. -/
structure Shows (s : Scenario) (a : Active) (q : Player σ ℓ ς) : Prop where
  events : (q.execute a).1.events = q.events ++ q.executedEvents a
  cues : cuesOf (q.executedEvents a) =
    (if s.menuBefore a.index = [] then [] else [.choices (s.menuBefore a.index)]) ++
      [.pageBegin q.cursor.label (q.cursor.page + 1)]
  board : (q.execute a).1.board = q.board
  waits : (q.execute a).1.Plays s { a with phase := .waiting (Stage.now q.stage) }
  moves : Moves q (q.execute a).1
  tick : q.tick = (q.execute a).1.tick

theorem Stacked.shows {s : Scenario} {a : Active} {q : Player σ ℓ ς} (hq : Stacked q)
    (hplays : q.Plays s a) (hspares : SparesMenus s.commands) (hmenu : a.command.action = .menu)
    (hphase : a.phase = .loading) : Shows s a q := by
  have hchoices : q.board.choices = s.menuBefore a.index :=
    ((hq.collects s hplays.scenario hspares).loads a hplays.active hphase).choices_at_menu hmenu
      (hq.admitted a hplays.active hphase)
  have hload := isLoadComplete_of_menu hmenu q
  have hboard := board_of_menu hmenu q
  -- a menu asks the player for nothing, so nothing stands between its execution and its wait
  have hrequests : (q.execute a).1.board.requests = [] := by rw [hboard, hq.requests]
  have hsettle := settle_eq_self hrequests
  have hwaits := execute_plays hplays
  have hmove : Move q (q.execute a).1.settle := .execute hplays hphase hload
  rw [hsettle] at hwaits hmove
  have hadvance : q.advance a = (q.execute a).1.await a (Stage.now q.stage) := by
    rcases advance_of_loaded hphase hload with ⟨r, status, hr, -⟩ | ⟨r, hr, hadvance⟩
    · rw [hrequests] at hr
      cases congrArg Prod.snd hr
    · rw [hrequests, hsettle] at hr
      rw [hadvance, ← (Prod.mk.inj hr).1]
  refine ⟨?_, hchoices ▸ cuesOf_menu hmenu q, hboard, hwaits, .single hmove, ?_⟩
  · rw [execute_eq]
    exact events_append rfl
  · rw [tick_of_plays hplays, tick_of_plays hwaits, hadvance]
    rfl

/-- A player after ticks that find nothing picked, with changes around it in between. -/
inductive Polled (since : Nat) (q : Player σ ℓ ς) : Player σ ℓ ς → Prop
  | refl : Polled since q q
  | change {r r' : Player σ ℓ ς} (h : Polled since q r) (hchange : Change r r') : Polled since q r'
  | tick {r : Player σ ℓ ς} (h : Polled since q r)
      (hnone : (Stage.progress r.stage since).picked? = none) : Polled since q r.tick.1

/-- What a pick of a choice does. -/
structure Picks (a : Active) (since k : Nat) (choice : Choice) (q : Player σ ℓ ς) : Prop where
  /-- The command leaves a board that had the effect of the choice, with one jump asked for. -/
  board : (q.completed a since).board =
    { q.board with
      params := effectOn choice q.board.params
      choices := []
      requests := [.jump choice.target] }
  tick : q.tick = ((q.completed a since).settle.jump choice.target, .suspended .labelLoad)
  after : q.tick.1.board = .ofParams (effectOn choice q.board.params)
  state : q.tick.1.state = .loading (bareLabel choice.target) 0
  turns : ∃ es, q.tick.1.events = q.events ++ es ∧
    turnsOf es = [.done a.index (some k), .released a.index, .asked (bareLabel choice.target) 0]

/-- What it does to pick no choice: the run goes on behind the menu. -/
structure Passed (s : Scenario) (a : Active) (since : Nat) (q : Player σ ℓ ς) : Prop where
  board : (q.completed a since).board = { q.board with choices := [] }
  stands : (q.completed a since).Stands s
  index : (q.completed a since).cursor.index = a.index + 1
  tick : q.tick = playFrom (s.commands.drop (a.index + 1)) (q.completed a since)
  turns : ∃ es, (q.completed a since).events = q.events ++ es ∧
    turnsOf es = [.done a.index (a.command.pick? (Stage.progress q.stage since) q.board),
      .released a.index]

/-- How a menu that is waited for is answered. -/
structure Resolves (s : Scenario) (a : Active) (since : Nat) (q : Player σ ℓ ς) : Prop where
  choices : q.board.choices = s.menuBefore a.index
  requests : q.board.requests = []
  /-- As long as nothing is picked, ticks do nothing. -/
  unpicked : s.menuBefore a.index ≠ [] → (Stage.progress q.stage since).picked? = none →
    q.tick = (q, .suspended .commandWait)
  picked : ∀ k choice, (Stage.progress q.stage since).picked? = some k →
    (s.menuBefore a.index)[k]? = some choice → Picks a since k choice q
  passed : (s.menuBefore a.index = [] ∨ ∃ k, (Stage.progress q.stage since).picked? = some k ∧
    (s.menuBefore a.index)[k]? = none) → Passed s a since q

section

variable {s : Scenario} {a : Active} {since : Nat} {q : Player σ ℓ ς}

theorem tick_of_unpicked (hplays : q.Plays s a) (hphase : a.phase = .waiting since)
    (hmenu : a.command.action = .menu) (hsome : q.board.choices ≠ [])
    (hnone : (Stage.progress q.stage since).picked? = none) :
    q.tick = (q, .suspended .commandWait) := by
  rw [tick_of_plays hplays, advance_of_waiting hphase,
    await_of_undone (await_unpicked hmenu hsome hnone)]

omit [Stage σ] [Loader ℓ] [TableSource ς] in
theorem Change.plays {r : Player σ ℓ ς} (h : Change q r) (hplays : q.Plays s a) : r.Plays s a := by
  cases h <;> exact ⟨hplays.state, hplays.scenario, hplays.active⟩

omit [TableSource ς] in
/-- A command that is left is done and gives back what it has. -/
theorem completed_turns (q : Player σ ℓ ς) (a : Active) (since : Nat) :
    ∃ es, (q.completed a since).events = q.events ++ es ∧
      turnsOf es = [.done a.index (a.command.pick? (Stage.progress q.stage since) q.board),
        .released a.index] := by
  rw [completed, complete_eq]
  exact ⟨_, events_append rfl, turnsOf_doneEvents _ _ _⟩

omit [Stage σ] in
theorem jump_board (q : Player σ ℓ ς) (l : String) : (q.jump l).board = q.board.clear := by
  obtain ⟨history?, es, -, -, -, -, hleft⟩ := q.notePageLeft_eq
  unfold jump
  rw [begin_eq, hleft]

omit [Stage σ] in
/-- A player that has left its command asks for one run when it jumps. -/
theorem jump_turns (hidle : q.active? = none) (l : String) :
    ∃ es, (q.jump l).events = q.events ++ es ∧ turnsOf es = [.asked (bareLabel l) 0] := by
  obtain ⟨history?, es, -, -, hturns, -, hleft⟩ := q.notePageLeft_eq
  have hevents : q.notePageLeft.events = q.events ++ es := by
    rw [hleft]
    exact events_append rfl
  have hidle' : q.notePageLeft.active? = none := by
    rw [hleft]
    exact hidle
  refine ⟨es ++ (q.notePageLeft.givenBack.2 ++ [.turn (.asked (bareLabel l) 0)]), ?_, ?_⟩
  · unfold jump
    rw [begin_eq, ← List.append_assoc, ← hevents]
    exact events_append rfl
  · simp [hturns, hidle']

theorem picks_of_choice (hplays : q.Plays s a) (hphase : a.phase = .waiting since)
    (hmenu : a.command.action = .menu) (hrequests : q.board.requests = []) {k : Nat}
    {choice : Choice} (hpick : (Stage.progress q.stage since).picked? = some k)
    (hchoice : q.board.choices[k]? = some choice) : Picks a since k choice q := by
  have hpicked := await_picked hmenu hpick hchoice
  have hboard : (q.completed a since).board =
      { q.board with
        params := effectOn choice q.board.params
        choices := []
        requests := [.jump choice.target] } := by
    rw [completed, complete_eq, ← pick_eq hrequests choice]
    exact congrArg Prod.fst hpicked
  have hdone : (a.command.await (Stage.progress q.stage since) q.board).2 = true := by rw [hpicked]
  have htick : q.tick =
      ((q.completed a since).settle.jump choice.target, .suspended .labelLoad) := by
    rw [tick_of_plays hplays, advance_of_waiting hphase, await_of_done hdone, hboard]
    rfl
  have hjump : q.tick.1 = (q.completed a since).settle.jump choice.target := congrArg Prod.fst htick
  obtain ⟨es, hes, hdoneTurns⟩ := q.completed_turns a since
  obtain ⟨fs, hfs, hjumpTurns⟩ :=
    jump_turns (q := (q.completed a since).settle) (q.completed_active a since) choice.target
  refine ⟨hboard, htick, ?_, ?_, es ++ fs, ?_, ?_⟩
  · rw [hjump, jump_board]
    show (q.completed a since).board.settle.clear = _
    rw [hboard]
    rfl
  · rw [hjump]
    exact jump_state _ _
  · rw [hjump, hfs, ← List.append_assoc, ← hes]
    rfl
  · rw [turnsOf_append, hdoneTurns, hjumpTurns, pick?_of_choice hmenu hpick hchoice]
    rfl

theorem passed_of_none (hplays : q.Plays s a) (hphase : a.phase = .waiting since)
    (hmenu : a.command.action = .menu) (hrequests : q.board.requests = [])
    (hnone : q.board.choices = [] ∨ ∃ k, (Stage.progress q.stage since).picked? = some k ∧
      q.board.choices[k]? = none) : Passed s a since q := by
  have hpassed := await_passed hmenu hnone
  have hboard : (q.completed a since).board = { q.board with choices := [] } := by
    rw [completed, complete_eq]
    exact congrArg Prod.fst hpassed
  have hdone : (a.command.await (Stage.progress q.stage since) q.board).2 = true := by rw [hpassed]
  have hsettled : (q.completed a since).board.requests = [] := by rw [hboard]; exact hrequests
  have hindex : (q.completed a since).cursor.index = a.index + 1 := by rw [completed_cursor]
  have hstands := completed_stands hplays since
  rw [settle_eq_self hsettled] at hstands
  refine ⟨hboard, hstands, hindex, ?_, ?_⟩
  · rw [tick_of_plays hplays, advance_of_waiting hphase, await_of_done hdone, hsettled,
      settle_eq_self hsettled]
    show playFrom (s.commands.drop (q.completed a since).cursor.index) _ = _
    rw [hindex]
  · exact q.completed_turns a since

end

section

variable {s : Scenario} {a : Active} {since : Nat} {q : Player σ ℓ ς}

omit [Stage σ] [Loader ℓ] [TableSource ς] in
theorem Stacked.choices_of_waiting (hq : Stacked q) (hplays : q.Plays s a)
    (hspares : SparesMenus s.commands) (hmenu : a.command.action = .menu)
    (hphase : a.phase = .waiting since) : q.board.choices = s.menuBefore a.index := by
  exact (hq.collects s hplays.scenario hspares).offers a since hplays.active hphase hmenu

theorem Stacked.resolves (hq : Stacked q) (hplays : q.Plays s a) (hspares : SparesMenus s.commands)
    (hmenu : a.command.action = .menu) (hphase : a.phase = .waiting since) :
    Resolves s a since q := by
  have hchoices := hq.choices_of_waiting hplays hspares hmenu hphase
  refine ⟨hchoices, hq.requests, ?_, ?_, ?_⟩
  · intro hsome hnone
    exact tick_of_unpicked hplays hphase hmenu (hchoices ▸ hsome) hnone
  · intro k choice hpick hchoice
    exact picks_of_choice hplays hphase hmenu hq.requests hpick (hchoices ▸ hchoice)
  · intro hnone
    exact passed_of_none hplays hphase hmenu hq.requests (hchoices ▸ hnone)

/-- However often a menu is asked, nothing comes of it but the changes that come from outside. -/
theorem Stacked.polled {r : Player σ ℓ ς} (hq : Stacked q) (hplays : q.Plays s a)
    (hspares : SparesMenus s.commands) (hmenu : a.command.action = .menu)
    (hphase : a.phase = .waiting since) (hsome : s.menuBefore a.index ≠ [])
    (h : Polled since q r) :
    Stacked r ∧ r.Plays s a ∧ Relation.ReflTransGen Change q r := by
  induction h with
  | refl => exact ⟨hq, hplays, .refl⟩
  | change _ hchange ih =>
    obtain ⟨hr, hplaying, hchanges⟩ := ih
    exact ⟨hr.change hchange, hchange.plays hplaying, hchanges.tail hchange⟩
  | tick _ hnone ih =>
    obtain ⟨hr, hplaying, hchanges⟩ := ih
    rw [(hr.resolves hplaying hspares hmenu hphase).unpicked hsome hnone]
    exact ⟨hr, hplaying, hchanges⟩

end

/-! ## Menus of runs -/

/-- A menu that is waited for is resolved, also if it has choices and was asked for a while. -/
structure Asks (s : Scenario) (a : Active) (since : Nat) (q : Player σ ℓ ς) : Prop where
  resolves : Resolves s a since q
  polled : s.menuBefore a.index ≠ [] → ∀ r, Polled since q r →
    r.Plays s a ∧ Relation.ReflTransGen Change q r ∧ Resolves s a since r

omit [Stage σ] [Loader ℓ] [TableSource ς]

/-- A menu of two entries. The effect of the second fails behind its first assignment. -/
def twoEntries : CellTable :=
  .ofRows "t" [["Command", "Arg1", "Arg2", "Text"], ["*a"], ["Selection", "*a", "x=1", "on"],
    ["Selection", "*b", "x=2;y=z", "off"]]

/-- A player of it on a stage on which nothing is picked. -/
def chooser : Player Still FileLoader Library :=
  ready ⟨true, none⟩ (.ofRoot ⟨[], []⟩ "") (Library.empty.insert twoEntries true)
    (.ofSettings .standard .standard) 0 ∅ [] none

end VisualNovel.Player
