import VisualNovel.Proofs.Player.Moves
import VisualNovel.Proofs.Scenario.Pages

/-
  Page numbers are places. In whatever way a run came to a command that begins a page, by playing
  or passing over commands from a label on or from a page of it, the number of the page is the
  number of commands between the label and that command that begin a page. The journal is the
  witness: `runOf` reads off it where the run began and what became of each command, and the
  label that the run is in is the one of the last label command it executed.
-/

namespace VisualNovel.Player

open Asset (Loader)
open Command (Factory Settings)
open Scenario (Corpus TableSource)
open Stage (Cue)

variable {σ ℓ ς : Type}

/-! ## Runs in a journal -/

/-- A run as a journal tells it: the scenario, where it began and the turns since. -/
structure Run where
  scenario : Scenario
  start : Cursor
  turns : List Turn

/-- The run after a turn; one that is asked for has not begun yet. -/
def Run.follow (r? : Option Run) : Turn → Option Run
  | .entered scenario start => some ⟨scenario, start, []⟩
  | .asked .. => none
  | t => r?.map fun r => { r with turns := r.turns ++ [t] }

/-- The run at the end of a journal. -/
def runOf (es : List Event) : Option Run := (turnsOf es).foldl Run.follow none

/-- The label that a run enters with a turn, and the place of its command. -/
def Run.entered? (r : Run) : Turn → Option (String × Nat)
  | .executed k _ => r.scenario.commands[k]?.bind fun c => c.label?.map fun l => (l, k)
  | _ => none

/-- The label that a run entered last with the place of its command. A run that entered none is
    still in the label that it was started at. -/
def Run.lastLabel? (r : Run) : Option (String × Nat) :=
  (r.turns.reverse.findSome? r.entered?).or
    ((r.scenario.labelIndex? r.start.label).map fun m => (r.start.label, m))

/-- The run with more turns. -/
def Run.goOn (r : Run) (ts : List Turn) : Run := { r with turns := r.turns ++ ts }

theorem runOf_append (es fs : List Event) :
    runOf (es ++ fs) = (turnsOf fs).foldl Run.follow (runOf es) := by
  rw [runOf, turnsOf_append, List.foldl_append]
  rfl

theorem Run.lastLabel?_goOn (r : Run) (ts : List Turn) :
    (r.goOn ts).lastLabel? = (ts.reverse.findSome? r.entered?).or r.lastLabel? := by
  have hsame : (r.goOn ts).entered? = r.entered? := funext fun t => by cases t <;> rfl
  unfold lastLabel?
  rw [hsame]
  simp only [goOn, List.reverse_append, List.findSome?_append, Option.or_assoc]

/-- Only the execution of a label command enters a label. -/
theorem Run.entered?_executed {r : Run} {k : Nat} {c : Command} (u : List Bool)
    (hc : r.scenario.commands[k]? = some c) :
    r.entered? (.executed k u) = c.label?.map fun l => (l, k) := by
  simp [entered?, hc]

/-! ## The page a run is on -/

/-- The number of commands that a run has behind it: the active command is behind it once it is
    executed. -/
def behind (p : Player σ ℓ ς) : Nat :=
  match p.active? with
  | some ⟨_, _, .waiting _⟩ => p.cursor.index + 1
  | _ => p.cursor.index

/-- A label and a page fit a place: the label's command at `m` lies before it, and the page is
    the last that began between the two. -/
structure OnPage (s : Scenario) (m i : Nat) (label : String) (page : Int) : Prop where
  label : ∃ c, s.commands[m]? = some c ∧ c.label? = some label
  le : m ≤ i
  page : page = s.boundaries m i - 1

/-- The next command is behind the run; its page counts if it begins one. -/
theorem OnPage.turnPage {s : Scenario} {m i : Nat} {cur : Cursor} {c : Command}
    (h : OnPage s m i cur.label cur.page) (hc : s.commands[i]? = some c) :
    OnPage s m (i + 1) (cur.turnPage c).label (cur.turnPage c).page := by
  have hpage : (cur.turnPage c).page = cur.page + if c.beginsPage then 1 else 0 := by
    unfold Cursor.turnPage
    split <;> simp
  refine ⟨by simpa using h.label, Nat.le_succ_of_le h.le, ?_⟩
  have hcount : (s.boundaries m (i + 1) : Int) =
      s.boundaries m i + if c.beginsPage then 1 else 0 := by
    rcases Nat.eq_or_lt_of_le h.le with rfl | hlt
    · obtain ⟨d, hd, hl⟩ := h.label
      obtain rfl : d = c := Option.some.inj (hd.symm.trans hc)
      simp [Scenario.not_beginsPage_of_label hl, Scenario.boundaries_of_le]
    · rw [s.boundaries_succ hlt hc]
      split <;> simp
  rw [hpage, h.page, hcount]
  omega

theorem beginsPage_label {c : Command} (hc : c.beginsPage = true) : c.label? = none := by
  cases hl : c.label? with
  | none => rfl
  | some l =>
    rw [Scenario.not_beginsPage_of_label hl] at hc
    cases hc

/-- A command that begins a page is behind the label's command. -/
theorem OnPage.lt_of_beginsPage {s : Scenario} {m i : Nat} {label : String} {page : Int}
    (h : OnPage s m i label page) {c : Command} (hc : s.commands[i]? = some c)
    (hbegins : c.beginsPage = true) : m < i := by
  refine Nat.lt_of_le_of_ne h.le fun hmi => ?_
  obtain ⟨d, hd, hl⟩ := h.label
  obtain rfl : d = c := Option.some.inj (hd.symm.trans (hmi ▸ hc))
  cases (beginsPage_label hbegins).symm.trans hl

/-- An executed command is behind the run, which is then in the label of the command if it is a
    label command. -/
theorem OnPage.execute {s : Scenario} {m i : Nat} {cur : Cursor} {c : Command}
    (h : OnPage s m i cur.label cur.page) (hc : s.commands[i]? = some c) :
    ∃ m', (c.label?.map fun l => (l, i)).or (some (cur.label, m)) =
        some (((cur.enter c).turnPage c).label, m') ∧
      OnPage s m' (i + 1) ((cur.enter c).turnPage c).label ((cur.enter c).turnPage c).page ∧
      (c.beginsPage = true → m' < i ∧ ((cur.enter c).turnPage c).page = s.boundaries m' i) := by
  cases hl : c.label? with
  | none =>
    have henter : cur.enter c = cur := by simp [Cursor.enter, hl]
    rw [henter]
    refine ⟨m, by simp, h.turnPage hc, fun hbegins => ⟨h.lt_of_beginsPage hc hbegins, ?_⟩⟩
    have hpage := h.page
    simp only [Cursor.turnPage, hbegins, if_true]
    omega
  | some l =>
    have hbegins := Scenario.not_beginsPage_of_label hl
    have hcur : (cur.enter c).turnPage c = { cur with label := l, page := labelStart } := by
      simp [Cursor.enter, Cursor.turnPage, hl, hbegins]
    rw [hcur]
    refine ⟨i, rfl, ⟨⟨c, hc, hl⟩, Nat.le_succ i, ?_⟩, fun h => by rw [hbegins] at h; cases h⟩
    rw [s.boundaries_of_le (Nat.le_refl _)]
    rfl

/-- A run is entered on the page before the one it is entered for, or before the first of the
    label, and where a page can be found. -/
theorem onPage_entry {s : Scenario} (hs : s.Compiled) {label : String} {m : Nat}
    (hm : s.labelIndex? label = some m) (page : Int) :
    (entry s label page).label = label ∧
      OnPage s m (entry s label page).index label (entry s label page).page ∧
      s.PageStart m (entry s label page).index := by
  obtain ⟨hcommand, -⟩ := hs.labelIndex?_eq_some.mp hm
  unfold entry
  split
  · rename_i j hj
    obtain ⟨hle, hpage, hstart⟩ := Scenario.boundaries_of_seek hm hj
    exact ⟨rfl, ⟨hcommand, hle, by rw [hpage]⟩, hstart⟩
  · rw [hm]
    refine ⟨rfl, ⟨hcommand, Nat.le_refl m, ?_⟩, s.pageStart_self m⟩
    rw [Option.getD_some, s.boundaries_of_le (Nat.le_succ m)]
    rfl

/-! ## The section a player is in -/

/-- A player is in the section of the label's command at `m`, on the page that its place has
    there. -/
structure InSection (p : Player σ ℓ ς) (s : Scenario) (m : Nat) : Prop where
  compiled : s.Compiled
  scenario : p.scenario? = some s
  page : OnPage s m p.behind p.cursor.label p.cursor.page
  active : ∀ a, p.active? = some a →
    a.index = p.cursor.index ∧ s.commands[a.index]? = some a.command

theorem behind_of_idle {p : Player σ ℓ ς} (h : p.active? = none) : p.behind = p.cursor.index := by
  simp [behind, h]

theorem behind_of_loading {p : Player σ ℓ ς} {a : Active} (h : p.active? = some a)
    (hphase : a.phase = .loading) : p.behind = p.cursor.index := by
  obtain ⟨index, c, phase⟩ := a
  cases hphase
  simp [behind, h]

theorem behind_of_waiting {p : Player σ ℓ ς} {a : Active} {since : Nat} (h : p.active? = some a)
    (hphase : a.phase = .waiting since) : p.behind = p.cursor.index + 1 := by
  obtain ⟨index, c, phase⟩ := a
  cases hphase
  simp [behind, h]

theorem behind_congr {p q : Player σ ℓ ς} (hcursor : q.cursor = p.cursor)
    (hactive : q.active? = p.active?) : q.behind = p.behind := by
  rw [behind, behind, hactive, hcursor]

theorem behind_skip {p : Player σ ℓ ς} (hidle : p.active? = none) (c : Command) :
    (p.skip c).behind = p.behind + 1 := by
  rw [skip_eq, behind_of_idle hidle]
  exact behind_of_idle hidle

theorem behind_activate [Loader ℓ] {p : Player σ ℓ ς} (hidle : p.active? = none) (c : Command) :
    (p.activate c).1.behind = p.behind := by
  rw [activate_eq, behind_of_idle hidle]
  exact behind_of_loading rfl rfl

/-- A player stays where it is if neither its scenario nor its place changes. -/
theorem InSection.congr {p q : Player σ ℓ ς} {s : Scenario} {m : Nat} (h : InSection p s m)
    (hscenario : q.scenario? = p.scenario?) (hcursor : q.cursor = p.cursor)
    (hactive : q.active? = p.active?) : InSection q s m :=
  { compiled := h.compiled
    scenario := hscenario.trans h.scenario
    page := by
      rw [behind_congr hcursor hactive, hcursor]
      exact h.page
    active := by
      rw [hactive, hcursor]
      exact h.active }

theorem InSection.skip {p : Player σ ℓ ς} {s : Scenario} {m : Nat} (h : InSection p s m)
    (hidle : p.active? = none) {c : Command} (hc : s.commands[p.cursor.index]? = some c) :
    InSection (p.skip c) s m := by
  have hpage := h.page
  rw [behind_of_idle hidle] at hpage
  have hbehind := (behind_skip hidle c).trans (congrArg (· + 1) (behind_of_idle hidle))
  refine ⟨h.compiled, ?_, ?_, fun a ha => ?_⟩
  · rw [skip_eq]
    exact h.scenario
  · rw [hbehind, skip_eq]
    exact hpage.turnPage hc
  · rw [skip_eq] at ha
    cases hidle.symm.trans ha

theorem InSection.activate [Loader ℓ] {p : Player σ ℓ ς} {s : Scenario} {m : Nat}
    (h : InSection p s m) (hidle : p.active? = none) {c : Command}
    (hc : s.commands[p.cursor.index]? = some c) : InSection (p.activate c).1 s m := by
  refine ⟨h.compiled, ?_, ?_, fun a ha => ?_⟩
  · rw [activate_eq]
    exact h.scenario
  · rw [behind_activate hidle, activate_eq]
    exact h.page
  · rw [activate_eq] at ha ⊢
    obtain rfl := Option.some.inj ha
    exact ⟨rfl, hc⟩

theorem InSection.behind_execute [Stage σ] [Loader ℓ] {p : Player σ ℓ ς} {s : Scenario} {m : Nat}
    (h : InSection p s m) {a : Active} (ha : p.active? = some a) :
    (p.execute a).1.settle.behind = a.index + 1 := by
  rw [execute_eq, behind_of_waiting rfl rfl]
  simp [(h.active a ha).1]

/-- With a label command a player enters the section of the label. -/
theorem InSection.execute [Stage σ] [Loader ℓ] {p : Player σ ℓ ς} {s : Scenario} {m : Nat}
    (h : InSection p s m) {a : Active} (ha : p.active? = some a) (hphase : a.phase = .loading) :
    ∃ m', InSection (p.execute a).1.settle s m' ∧
      (a.command.label?.map fun l => (l, a.index)).or (some (p.cursor.label, m)) =
        some ((p.execute a).1.settle.cursor.label, m') ∧
      (a.command.beginsPage = true →
        m' < a.index ∧ (p.execute a).1.settle.cursor.page = s.boundaries m' a.index) := by
  obtain ⟨hindex, hc⟩ := h.active a ha
  have hpage := h.page
  rw [behind_of_loading ha hphase, ← hindex] at hpage
  obtain ⟨m', hlabel, hpage', hnumber⟩ := hpage.execute hc
  have hcursor : (p.execute a).1.settle.cursor = (p.cursor.enter a.command).turnPage a.command := by
    rw [execute_eq]
    rfl
  refine ⟨m', ⟨h.compiled, ?_, ?_, fun b hb => ?_⟩, ?_, ?_⟩
  · exact (p.execute_scenario a).trans h.scenario
  · rw [h.behind_execute ha, hcursor]
    exact hpage'
  · obtain rfl := Option.some.inj ((p.execute_active a).symm.trans hb)
    exact ⟨by rw [hcursor]; simp [hindex], hc⟩
  · rw [hcursor]
    exact hlabel
  · rw [hcursor]
    exact hnumber

theorem behind_completed [Stage σ] [Loader ℓ] (p : Player σ ℓ ς) (a : Active) (since : Nat) :
    (p.completed a since).settle.behind = a.index + 1 := by
  have hidle : (p.completed a since).settle.active? = none := p.completed_active a since
  rw [behind_of_idle hidle, settle_cursor, completed_cursor]

theorem InSection.behind_waiting {p : Player σ ℓ ς} {s : Scenario} {m : Nat} (h : InSection p s m)
    {a : Active} (ha : p.active? = some a) {since : Nat} (hphase : a.phase = .waiting since) :
    p.behind = a.index + 1 := by
  rw [behind_of_waiting ha hphase, (h.active a ha).1]

theorem InSection.complete [Stage σ] [Loader ℓ] {p : Player σ ℓ ς} {s : Scenario} {m : Nat}
    (h : InSection p s m) {a : Active} (ha : p.active? = some a) {since : Nat}
    (hphase : a.phase = .waiting since) : InSection (p.completed a since).settle s m := by
  have hpage := h.page
  rw [h.behind_waiting ha hphase] at hpage
  refine ⟨h.compiled, (p.completed_scenario a since).trans h.scenario, ?_, fun b hb => ?_⟩
  · rw [behind_completed, settle_cursor, completed_cursor]
    exact hpage
  · cases (p.completed_active a since).symm.trans hb

theorem behind_enterScenario {p : Player σ ℓ ς} (s : Scenario) (label : String)
    (hidle : p.active? = none) (page : Int) :
    (p.enterScenario s label page).behind = (entry s label page).index := by
  rw [enterScenario_eq]
  exact behind_of_idle hidle

/-- A run is entered in the section of its label, where a page can be found. -/
theorem inSection_enter {p : Player σ ℓ ς} {s : Scenario} (hs : s.Compiled) {label : String}
    {m : Nat} (hm : s.labelIndex? label = some m) (hidle : p.active? = none) (page : Int) :
    InSection (p.enterScenario s label page) s m ∧
      s.PageStart m (p.enterScenario s label page).behind := by
  obtain ⟨hentry, hpage, hstart⟩ := onPage_entry hs hm page
  have hbehind := behind_enterScenario s label hidle page
  refine ⟨⟨hs, ?_, ?_, fun a ha => ?_⟩, hbehind ▸ hstart⟩
  · rw [enterScenario_eq]
  · rw [hbehind, enterScenario_eq, hentry]
    exact hpage
  · rw [enterScenario_eq] at ha
    cases hidle.symm.trans ha

/-! ## Every state -/

/-- The run that the journal tells of is where the player is. -/
structure Tracks (p : Player σ ℓ ς) (r : Run) (m : Nat) : Prop extends
    InSection p r.scenario m where
  run : runOf p.events = some r
  label : r.lastLabel? = some (p.cursor.label, m)
  started : r.start.index ≤ p.behind
  executed : ∀ k u, .executed k u ∈ r.turns → r.start.index ≤ k ∧ k < p.behind

/-- A player that plays is in a run of its journal, in a scenario that was compiled. -/
structure Placed (p : Player σ ℓ ς) : Prop where
  corpus : p.corpus.Compiled
  idle : p.state ≠ .running → p.active? = none
  tracks : p.state = .running → ∃ r m, Tracks p r m

/-- A player that plays is in the section of its label's command. -/
theorem Placed.section {p : Player σ ℓ ς} {s : Scenario} (hp : Placed p) (hs : p.Stands s) :
    ∃ m, InSection p s m := by
  obtain ⟨r, m, ht⟩ := hp.tracks hs.state
  obtain rfl := Option.some.inj (ht.scenario.symm.trans hs.scenario)
  exact ⟨m, ht.toInSection⟩

theorem placed_ready (stage : σ) (loader : ℓ) (source : ς) (factory : Factory)
    (settings : Settings) (cap : Nat) (params : Expression.Params) (galleryLabels : List String)
    (history? : Option History.ReadHistory) :
    Placed (ready stage loader source (.ofSettings factory settings) cap params galleryLabels
      history?) :=
  { corpus := Corpus.compiled_ofSettings factory settings
    idle := fun _ => rfl
    tracks := State.noConfusion }

/-- A player stays where it is if neither its run nor its place changes. -/
theorem Placed.unmoved {p q : Player σ ℓ ς} (hp : Placed p) (hcorpus : q.corpus.Compiled)
    (hrun : runOf q.events = runOf p.events) (hscenario : q.scenario? = p.scenario?)
    (hcursor : q.cursor = p.cursor) (hactive : q.active? = p.active?) (hstate : q.state = p.state) :
    Placed q := by
  refine ⟨hcorpus, fun h => hactive.trans (hp.idle (hstate ▸ h)), fun h => ?_⟩
  obtain ⟨r, m, ht⟩ := hp.tracks (hstate ▸ h)
  have hbehind := behind_congr hcursor hactive
  exact ⟨r, m,
    { ht.toInSection.congr hscenario hcursor hactive with
      run := hrun.trans ht.run
      label := hcursor ▸ ht.label
      started := hbehind ▸ ht.started
      executed := hbehind ▸ ht.executed }⟩

theorem Placed.change {p q : Player σ ℓ ς} (h : Change p q) (hp : Placed p) : Placed q := by
  cases h with
  | compile table => exact hp.unmoved (hp.corpus.compile table) rfl rfl rfl rfl rfl
  | stage | loader | source | params | register | settings =>
    exact hp.unmoved hp.corpus rfl rfl rfl rfl rfl

/-- A player that does not play is in no run. -/
theorem Placed.left {p q : Player σ ℓ ς} (hp : Placed p) (hcorpus : q.corpus = p.corpus)
    (hactive : q.active? = none) (hstate : q.state ≠ .running) : Placed q :=
  ⟨hcorpus ▸ hp.corpus, fun _ => hactive, fun h => absurd h hstate⟩

/-- A player goes on in its run. -/
theorem Tracks.goOn {p q : Player σ ℓ ς} {r : Run} {m m' : Nat} (ht : Tracks p r m)
    (hq : InSection q r.scenario m') {es : List Event} (hes : q.events = p.events ++ es)
    (hturns : (turnsOf es).foldl Run.follow (some r) = some (r.goOn (turnsOf es)))
    (hlabel : ((turnsOf es).reverse.findSome? r.entered?).or (some (p.cursor.label, m)) =
      some (q.cursor.label, m'))
    (hle : p.behind ≤ q.behind)
    (hexecuted : ∀ k u, .executed k u ∈ turnsOf es → r.start.index ≤ k ∧ k < q.behind) :
    Tracks q (r.goOn (turnsOf es)) m' :=
  { hq with
    run := by rw [hes, runOf_append, ht.run, hturns]
    label := by rw [Run.lastLabel?_goOn, ht.label, hlabel]
    started := Nat.le_trans ht.started hle
    executed := fun k u hk => by
      rcases List.mem_append.mp hk with hk | hk
      · obtain ⟨hstart, hbehind⟩ := ht.executed k u hk
        exact ⟨hstart, Nat.lt_of_lt_of_le hbehind hle⟩
      · exact hexecuted k u hk }

theorem Tracks.skip {p : Player σ ℓ ς} {r : Run} {m : Nat} (ht : Tracks p r m)
    (hidle : p.active? = none) {c : Command} (hc : r.scenario.commands[p.cursor.index]? = some c) :
    ∃ r m, Tracks (p.skip c) r m := by
  have hbehind := behind_skip hidle c
  have hsection := ht.toInSection.skip hidle hc
  rw [skip_eq] at hbehind hsection ⊢
  exact ⟨_, m, ht.goOn hsection (events_append rfl) (by simp [Run.follow, Run.goOn])
    (by simp [Run.entered?]) (by omega) (by simp)⟩

variable [Loader ℓ]

theorem Tracks.activate {p : Player σ ℓ ς} {r : Run} {m : Nat} (ht : Tracks p r m)
    (hidle : p.active? = none) {c : Command} (hc : r.scenario.commands[p.cursor.index]? = some c) :
    ∃ r m, Tracks (p.activate c).1 r m := by
  have hbehind := behind_activate hidle c
  have hsection := ht.toInSection.activate hidle hc
  rw [activate_eq] at hbehind hsection ⊢
  exact ⟨_, m, ht.goOn hsection (events_append rfl) (by simp [Run.follow, Run.goOn])
    (by simp [Run.entered?]) (by omega) (by simp)⟩

variable [Stage σ]

theorem Tracks.execute {p : Player σ ℓ ς} {r : Run} {m : Nat} (ht : Tracks p r m) {a : Active}
    (ha : p.active? = some a) (hphase : a.phase = .loading) :
    ∃ r m, Tracks (p.execute a).1.settle r m := by
  obtain ⟨hindex, hc⟩ := ht.active a ha
  have hbefore := behind_of_loading ha hphase
  have hbehind := ht.behind_execute ha
  have hes : (p.execute a).1.settle.events = p.events ++ p.executedEvents a :=
    p.execute_events a
  obtain ⟨m', hsection, hlabel, -⟩ := ht.toInSection.execute ha hphase
  refine ⟨_, m', ht.goOn hsection hes (by simp [Run.follow, Run.goOn]) ?_ (by omega) ?_⟩
  · simpa [Run.entered?_executed _ hc] using hlabel
  · intro k u hk
    obtain ⟨rfl, -⟩ : k = a.index ∧ u = p.usableAt a := by simpa using hk
    have := ht.started
    omega

theorem Tracks.complete {p : Player σ ℓ ς} {r : Run} {m : Nat} (ht : Tracks p r m) {a : Active}
    (ha : p.active? = some a) {since : Nat} (hphase : a.phase = .waiting since) :
    ∃ r m, Tracks (p.completed a since).settle r m := by
  have hbefore := ht.behind_waiting ha hphase
  have hbehind := p.behind_completed a since
  have hes : (p.completed a since).settle.events = p.events ++
      p.doneEvents a (a.command.pick? (Stage.progress p.stage since) p.board) :=
    p.completed_events a since
  exact ⟨_, m, ht.goOn (ht.toInSection.complete ha hphase) hes (by simp [Run.follow, Run.goOn])
    (by simp [List.findSome?_cons, Run.entered?]) (by omega) (by simp)⟩

omit [Loader ℓ] [Stage σ] in
theorem Tracks.enter {p : Player σ ℓ ς} (hp : Placed p) {s : Scenario} {label : String}
    {page : Int} (hstate : p.state = .loading label page)
    (hs : p.corpus.scenario? label = some s) :
    ∃ r m, Tracks (p.enterScenario s label page) r m := by
  obtain ⟨hcompiled, hlabel⟩ := hp.corpus.scenario? hs
  obtain ⟨m, hm⟩ := Option.isSome_iff_exists.mp hlabel
  have hidle := hp.idle (by rw [hstate]; exact State.noConfusion)
  obtain ⟨hentry, -⟩ := onPage_entry hcompiled hm page
  obtain ⟨hsection, -⟩ := inSection_enter hcompiled hm hidle page
  have hbehind := behind_enterScenario s label hidle page
  rw [enterScenario_eq] at hsection hbehind ⊢
  exact ⟨⟨s, entry s label page, []⟩, m,
    { hsection with
      run := by
        rw [events_append (p := p) rfl, runOf_append]
        rfl
      label := by simp [Run.lastLabel?, hentry, hm]
      started := Nat.le_of_eq hbehind.symm
      executed := by simp }⟩

variable [TableSource ς]

/-- Every move takes the player along the run of its journal. -/
theorem Placed.move {p q : Player σ ℓ ς} (h : Move p q) (hp : Placed p) : Placed q := by
  cases h with
  | enter hstate hs =>
    refine ⟨?_, fun h => absurd ?_ h, fun _ => Tracks.enter hp hstate hs⟩
    · rw [enterScenario_eq]
      exact hp.corpus
    · rw [enterScenario_eq]
  | skip hstands hc hskip =>
    obtain ⟨r, m, ht⟩ := hp.tracks hstands.state
    obtain rfl := Option.some.inj (ht.scenario.symm.trans hstands.scenario)
    refine ⟨?_, fun h => absurd ?_ h, fun _ => ht.skip hstands.idle hc⟩
    · rw [skip_eq]
      exact hp.corpus
    · rw [skip_eq]
      exact hstands.state
  | activate hstands hc hskip =>
    obtain ⟨r, m, ht⟩ := hp.tracks hstands.state
    obtain rfl := Option.some.inj (ht.scenario.symm.trans hstands.scenario)
    refine ⟨?_, fun h => absurd ?_ h, fun _ => ht.activate hstands.idle hc⟩
    · rw [activate_eq]
      exact hp.corpus
    · rw [activate_eq]
      exact hstands.state
  | execute hplays hphase hload =>
    obtain ⟨r, m, ht⟩ := hp.tracks hplays.state
    refine ⟨?_, fun h => absurd ?_ h, fun _ => ht.execute hplays.active hphase⟩
    · rw [execute_eq]
      exact hp.corpus
    · rw [execute_eq]
      exact hplays.state
  | complete hplays hphase hdone =>
    obtain ⟨r, m, ht⟩ := hp.tracks hplays.state
    refine ⟨?_, fun h => absurd ?_ h, fun _ => ht.complete hplays.active hphase⟩
    · rw [completed, complete_eq]
      exact hp.corpus
    · rw [completed, complete_eq]
      exact hplays.state
  | endGalleryScene =>
    obtain ⟨history?, es, -, -, hturns, -, heq⟩ := p.endGalleryScene_eq
    rw [heq]
    refine hp.unmoved hp.corpus ?_ rfl rfl rfl rfl
    rw [events_append (p := p) rfl, runOf_append, hturns]
    rfl
  | notePageLeft =>
    obtain ⟨history?, es, -, -, hturns, -, heq⟩ := p.notePageLeft_eq
    rw [heq]
    refine hp.unmoved hp.corpus ?_ rfl rfl rfl rfl
    rw [events_append (p := p) rfl, runOf_append, hturns]
    rfl
  | begin label page gallery? =>
    rw [begin_eq]
    exact hp.left rfl rfl State.noConfusion
  | finish reason hunder =>
    rw [finish_eq]
    exact hp.left rfl rfl State.noConfusion
  | compile table => exact hp.unmoved (hp.corpus.compile table) rfl rfl rfl rfl rfl

/-! ## Pages that begin -/

/-- The command is a game's own and gives the cue itself. -/
def GivesItself (c : Command) (cue : Cue) : Prop :=
  ∃ action params, c.action = .host action ∧ cue ∈ action.cues params

/-- No command of a script's own gives word of where the story is. -/
theorem isWord_of_mem_cues {a : Command.Action} (ha : ∀ action, a ≠ .host action)
    (state : Asset.Handle → Asset.LoadState) (b : Command.Board) :
    ∀ cue ∈ a.cues state b, isWord cue = false := by
  cases a with
  | host action => exact absurd rfl (ha action)
  | text line? => cases line? <;> simp [Command.Action.cues, Command.Line.cue, isWord]
  | character a =>
    obtain ⟨_, _, _, hidden, _, _, _, _, line?⟩ := a
    cases hidden <;> cases line? <;>
      simp [Command.Action.cues, Command.Appearance.cues, Command.Line.cue, isWord]
  | layer kind => cases kind <;> simp [Command.Action.cues, Command.Layer.cue, isWord]
  | layerOff kind => cases kind <;> simp [Command.Action.cues, Command.Layer.offCue, isWord]
  | menu =>
    simp only [Command.Action.cues]
    split <;> simp [isWord]
  | _ => simp [Command.Action.cues, isWord]

theorem givesItself_of_mem_cues {c : Command} {state : Asset.Handle → Asset.LoadState}
    {b : Command.Board} {cue : Cue} (hword : isWord cue = true)
    (h : cue ∈ c.action.cues state b) : GivesItself c cue := by
  by_cases hhost : ∃ action, c.action = .host action
  · obtain ⟨action, haction⟩ := hhost
    rw [haction] at h
    exact ⟨action, b.params, haction, h⟩
  · have hown := isWord_of_mem_cues (fun action h => hhost ⟨action, h⟩) state b cue h
    rw [hword] at hown
    cases hown

/-- What a journal tells of a page that begins at its end: a run has just executed the command at
    some place, and unless this gives the cue itself, it begins the page, which has the label
    that the run entered last and as its number the number of pages since that label. -/
def Begun (before : List Event) (label : String) (page : Int) : Prop :=
  ∃ r i c, runOf before = some r ∧ r.scenario.Compiled ∧
    (∃ u, r.turns.getLast? = some (.executed i u)) ∧ r.scenario.commands[i]? = some c ∧
    (∀ k u, .executed k u ∈ r.turns → r.start.index ≤ k ∧ k ≤ i) ∧
    (GivesItself c (.pageBegin label page) ∨
      c.beginsPage = true ∧
        ∃ m, r.lastLabel? = some (label, m) ∧ m < i ∧ page = r.scenario.boundaries m i)

/-- What a journal tells of a command that a run executes: the run came to it from where it began,
    and if a page begins with the command, this is told next behind the cues of the command, with
    the label that the run entered last and as its number the number of pages since that label. -/
def Begins (before : List Event) (i : Nat) (later : List Event) : Prop :=
  ∃ r c label m, runOf before = some r ∧ r.scenario.commands[i]? = some c ∧
    r.lastLabel? = some (label, m) ∧ r.start.index ≤ i ∧
    (∀ k u, .executed k u ∈ r.turns → r.start.index ≤ k ∧ k < i) ∧
    (c.beginsPage = true → m < i ∧ ∃ (cues : List Cue) (rest : List Event),
      later = cues.map .cue ++ .cue (.pageBegin label (r.scenario.boundaries m i)) :: rest)

omit [Stage σ] [TableSource ς] in
/-- Where a cue of an execution is given, the run has just executed the command. The cue is one of
    the command's, or tells of the page that begins with it. -/
theorem cue_of_execute {p : Player σ ℓ ς} {r : Run} {m : Nat} (ht : Tracks p r m) {a : Active}
    {before later : List Event} {cue : Cue}
    (hes : p.executedEvents a = before ++ .cue cue :: later) :
    runOf (p.events ++ before) = some (r.goOn [.executed a.index (p.usableAt a)]) ∧
      (cue ∈ (p.outcome a).2 ∨
        cue ∈ cuesOf (p.pageBegun ((p.cursor.enter a.command).turnPage a.command) a.command)) := by
  -- the cue is behind the turn, among cues that are not turns
  have hcalls : Event.cue cue ∉
      (p.moved a.index).2.2.map .loader ++ [.turn (.executed a.index (p.usableAt a))] := by simp
  rw [executedEvents, List.append_cons] at hes
  obtain ⟨before', rfl, hrest⟩ := split_behind hcalls hes
  have hturns : turnsOf before' = [] := by
    have hnone := congrArg turnsOf hrest
    rw [turnsOf_append, turnsOf_append, turnsOf_cues, turnsOf_pageBegun] at hnone
    exact (List.append_eq_nil_iff.mp hnone.symm).1
  refine ⟨?_, ?_⟩
  · rw [runOf_append, ht.run]
    simp [hturns, Run.follow, Run.goOn]
  · have hmem : cue ∈ cuesOf ((p.outcome a).2.map .cue ++
        p.pageBegun ((p.cursor.enter a.command).turnPage a.command) a.command) := by
      rw [hrest]
      simp
    rwa [cuesOf_append, cuesOf_cues, List.mem_append] at hmem

theorem Run.getLast?_goOn (r : Run) (t : Turn) : (r.goOn [t]).turns.getLast? = some t := by
  simp [goOn]

omit [Stage σ] [Loader ℓ] [TableSource ς] in
/-- A command that is about to be executed lies behind the start of the run, and behind all that
    it executed. -/
theorem Tracks.reaches {p : Player σ ℓ ς} {r : Run} {m : Nat} (ht : Tracks p r m) {a : Active}
    (ha : p.active? = some a) (hphase : a.phase = .loading) :
    r.start.index ≤ a.index ∧
      ∀ k u, .executed k u ∈ r.turns → r.start.index ≤ k ∧ k < a.index := by
  rw [(ht.active a ha).1, ← behind_of_loading ha hphase]
  exact ⟨ht.started, ht.executed⟩

omit [Stage σ] [Loader ℓ] [TableSource ς] in
/-- What a command that is about to be executed makes of the page that the run is on. -/
theorem Tracks.pageAhead {p : Player σ ℓ ς} {r : Run} {m : Nat} (ht : Tracks p r m) {a : Active}
    (ha : p.active? = some a) (hphase : a.phase = .loading)
    (hbegins : a.command.beginsPage = true) :
    ((p.cursor.enter a.command).turnPage a.command).label = p.cursor.label ∧ m < a.index ∧
      ((p.cursor.enter a.command).turnPage a.command).page = r.scenario.boundaries m a.index := by
  obtain ⟨hindex, hc⟩ := ht.active a ha
  have hpage := ht.page
  rw [behind_of_loading ha hphase, ← hindex] at hpage
  obtain ⟨m', hlabel, -, hnumber⟩ := hpage.execute hc
  rw [beginsPage_label hbegins] at hlabel
  obtain ⟨hsame, rfl⟩ := Prod.mk.inj (Option.some.inj hlabel)
  exact ⟨hsame.symm, hnumber hbegins⟩

omit [Stage σ] [TableSource ς] in
theorem begun_of_execute {p : Player σ ℓ ς} {r : Run} {m : Nat} (ht : Tracks p r m) {a : Active}
    (ha : p.active? = some a) (hphase : a.phase = .loading) {before later : List Event}
    {label : String} {page : Int}
    (hes : p.executedEvents a = before ++ .cue (.pageBegin label page) :: later) :
    Begun (p.events ++ before) label page := by
  obtain ⟨-, hc⟩ := ht.active a ha
  obtain ⟨hstart, hexecuted⟩ := ht.reaches ha hphase
  obtain ⟨hrun, hcue⟩ := cue_of_execute ht hes
  refine ⟨_, a.index, a.command, hrun, ht.compiled, ⟨_, r.getLast?_goOn _⟩, hc, ?_, ?_⟩
  · intro k u hk
    rcases List.mem_append.mp hk with hk | hk
    · exact (hexecuted k u hk).imp_right Nat.le_of_lt
    · obtain ⟨rfl, -⟩ : k = a.index ∧ u = p.usableAt a := by simpa using hk
      exact ⟨hstart, Nat.le_refl _⟩
  · rw [cuesOf_pageBegun] at hcue
    rcases hcue with hown | hpaged
    · exact Or.inl (givesItself_of_mem_cues rfl hown)
    · split at hpaged
      · rename_i hbegins
        obtain ⟨hlabel, hm, hpage⟩ := ht.pageAhead ha hphase hbegins
        obtain ⟨rfl, rfl⟩ := Cue.pageBegin.inj (List.mem_singleton.mp hpaged)
        refine Or.inr ⟨hbegins, m, ?_, hm, hpage⟩
        rw [Run.lastLabel?_goOn, ht.label, hlabel]
        simp [Run.entered?_executed _ hc, beginsPage_label hbegins]
      · cases hpaged

omit [Stage σ] [TableSource ς] in
/-- Where a command is executed, the page that it begins is told of behind its cues. -/
theorem begins_of_execute {p : Player σ ℓ ς} {r : Run} {m : Nat} (ht : Tracks p r m) {a : Active}
    (ha : p.active? = some a) (hphase : a.phase = .loading) {before later : List Event} {i : Nat}
    {u : List Bool} (hes : p.executedEvents a = before ++ .turn (.executed i u) :: later)
    (more : List Event) : Begins (p.events ++ before) i (later ++ more) := by
  have hcalls : Event.turn (.executed i u) ∉ (p.moved a.index).2.2.map .loader := by simp
  have htold : Event.turn (.executed i u) ∉ (p.outcome a).2.map .cue ++
      p.pageBegun ((p.cursor.enter a.command).turnPage a.command) a.command := fun hmem => by
    simpa using mem_turnsOf.mpr hmem
  obtain ⟨rfl, hsame, rfl⟩ := split_single hcalls htold hes
  obtain ⟨rfl, -⟩ := Turn.executed.inj (Event.turn.inj hsame)
  obtain ⟨hstart, hexecuted⟩ := ht.reaches ha hphase
  refine ⟨r, a.command, p.cursor.label, m, ?_, (ht.active a ha).2, ht.label, hstart, hexecuted,
    fun hbegins => ?_⟩
  · simp [runOf_append, ht.run]
  · obtain ⟨hlabel, hm, hpage⟩ := ht.pageAhead ha hphase hbegins
    refine ⟨hm, (p.outcome a).2, p.noted (.autosave ⟨p.cursor.label,
      max (r.scenario.boundaries m a.index) 0⟩) ++ more, ?_⟩
    rw [pageBegun, if_pos hbegins, hlabel, hpage, List.append_assoc, List.cons_append]

/-! ## Whole journals -/

/-- Every page that begins in a journal is told of as it should be. -/
theorem begun_of_event {p : Player σ ℓ ς} (hp : Placed p) (hfirst : p.events = [])
    {inputs : List (Input σ ℓ ς)} {before later : List Event} {label : String} {page : Int}
    (hes : (p.afterAll inputs).events = before ++ .cue (.pageBegin label page) :: later) :
    Begun before label page := by
  obtain ⟨xs, i, ys, q, q', told, rest, -, rfl, hq, hmove, -, rfl, hevents, -⟩ :=
    moment_of_event hes (by simp [hfirst])
  have hplaced : Placed q :=
    hq.preserve Placed.move (afterAll_preserve Placed.move Placed.change hp xs)
  rw [List.append_assoc] at hevents
  obtain ⟨es, hadded, -, hnone⟩ | ⟨s, a, hplays, hphase, rfl⟩ := hmove.executes
  · obtain rfl := List.append_cancel_left (hadded.symm.trans hevents)
    exact absurd rfl ((hnone (.pageBegin label page) (by simp)).2 label page)
  · obtain ⟨r, m, ht⟩ := hplaced.tracks hplays.state
    exact begun_of_execute ht hplays.active hphase
      (List.append_cancel_left ((q.execute_events a).symm.trans hevents))

/-- Behind every command that is executed in a journal its page is told of. -/
theorem begins_of_event {p : Player σ ℓ ς} (hp : Placed p) (hfirst : p.events = [])
    {inputs : List (Input σ ℓ ς)} {before later : List Event} {i : Nat} {u : List Bool}
    (hes : (p.afterAll inputs).events = before ++ .turn (.executed i u) :: later) :
    Begins before i later := by
  obtain ⟨xs, j, ys, q, q', told, rest, more, rfl, hq, hmove, -, rfl, hevents, rfl⟩ :=
    moment_of_event hes (by simp [hfirst])
  have hplaced : Placed q :=
    hq.preserve Placed.move (afterAll_preserve Placed.move Placed.change hp xs)
  rw [List.append_assoc] at hevents
  obtain ⟨es, hadded, hnone, -⟩ | ⟨s, a, hplays, hphase, rfl⟩ := hmove.executes
  · obtain rfl := List.append_cancel_left (hadded.symm.trans hevents)
    exact absurd (by simp) (hnone i u)
  · obtain ⟨r, m, ht⟩ := hplaced.tracks hplays.state
    exact begins_of_execute ht hplays.active hphase
      (List.append_cancel_left ((q.execute_events a).symm.trans hevents)) more

/-- What is told of a page that a command begins with the turn of the command. -/
theorem Begun.of_run {before : List Event} {label : String} {page : Int} {r : Run} {k : Nat}
    {u : List Bool} {c : Command} (h : Begun before label page) (hr : runOf before = some r)
    (hlast : r.turns.getLast? = some (.executed k u)) (hc : r.scenario.commands[k]? = some c)
    (hown : ¬GivesItself c (.pageBegin label page)) :
    c.beginsPage = true ∧ (∀ l u, .executed l u ∈ r.turns → r.start.index ≤ l ∧ l ≤ k) ∧
      ∃ m, r.lastLabel? = some (label, m) ∧ page = r.scenario.boundaries m k := by
  obtain ⟨r', k', c', hr', -, ⟨u', hlast'⟩, hc', hexecuted, hpage⟩ := h
  obtain rfl : r = r' := Option.some.inj (hr.symm.trans hr')
  obtain ⟨rfl, rfl⟩ := Turn.executed.inj (Option.some.inj (hlast.symm.trans hlast'))
  obtain rfl : c = c' := Option.some.inj (hc.symm.trans hc')
  obtain hgives | ⟨hbegins, m, hlabel, -, hnumber⟩ := hpage
  · exact absurd hgives hown
  · exact ⟨hbegins, hexecuted, m, hlabel, hnumber⟩

/-- What is told behind a command that begins a page. -/
theorem Begins.of_run {before later : List Event} {r : Run} {i : Nat} {c : Command}
    (h : Begins before i later) (hr : runOf before = some r)
    (hc : r.scenario.commands[i]? = some c) (hbegins : c.beginsPage = true) :
    (∀ k u, .executed k u ∈ r.turns → r.start.index ≤ k ∧ k ≤ i) ∧
      ∃ label m, r.lastLabel? = some (label, m) ∧ ∃ (cues : List Cue) (rest : List Event),
        later = cues.map .cue ++ .cue (.pageBegin label (r.scenario.boundaries m i)) :: rest := by
  obtain ⟨r', c', label, m, hr', hc', hlabel, -, hexecuted, htold⟩ := h
  obtain rfl : r = r' := Option.some.inj (hr.symm.trans hr')
  obtain rfl : c = c' := Option.some.inj (hc.symm.trans hc')
  exact ⟨fun k u hk => (hexecuted k u hk).imp_right Nat.le_of_lt, label, m, hlabel,
    (htold hbegins).2⟩

/-- A run that began in the section of a label, and came no further than to a command of the section
    that begins a page, is still in that label. -/
theorem lastLabel?_of_section {r : Run} {label : String} {m i : Nat} {c : Command}
    (hs : r.scenario.Compiled) (hl : r.scenario.labelIndex? label = some m)
    (hstart : r.start.label = label) (hm : m ≤ r.start.index)
    (hsection : ∀ k c, m < k → k < i → r.scenario.commands[k]? = some c → c.label? = none)
    (hc : r.scenario.commands[i]? = some c) (hbegins : c.beginsPage = true)
    (hexecuted : ∀ k u, .executed k u ∈ r.turns → r.start.index ≤ k ∧ k ≤ i) :
    r.lastLabel? = some (label, m) := by
  -- the label's own command is the only label command that the run may have executed
  have hentered : ∀ t ∈ r.turns, ∀ e, r.entered? t = some e → e = (label, m) := by
    intro t ht e he
    cases t with
    | executed k u =>
      obtain ⟨hk, hki⟩ := hexecuted k u ht
      obtain ⟨d, hd, hde⟩ := Option.bind_eq_some_iff.mp he
      obtain ⟨l, hdl, rfl⟩ := Option.map_eq_some_iff.mp hde
      rcases Nat.eq_or_lt_of_le (Nat.le_trans hm hk) with rfl | hlt
      · obtain ⟨⟨b, hb, hbl⟩, -⟩ := hs.labelIndex?_eq_some.mp hl
        obtain rfl : b = d := Option.some.inj (hb.symm.trans hd)
        obtain rfl : label = l := Option.some.inj (hbl.symm.trans hdl)
        rfl
      · rcases Nat.eq_or_lt_of_le hki with rfl | hki
        · obtain rfl : c = d := Option.some.inj (hc.symm.trans hd)
          cases (beginsPage_label hbegins).symm.trans hdl
        · cases (hsection k d hlt hki hd).symm.trans hdl
    | _ => cases he
  unfold Run.lastLabel?
  cases hfound : r.turns.reverse.findSome? r.entered? with
  | none => simp [hstart, hl]
  | some e =>
    obtain ⟨t, ht, he⟩ := List.exists_of_findSome?_eq_some hfound
    rw [hentered t (List.mem_reverse.mp ht) e he]
    rfl

/-- Page numbers are positional. Where a page begins in a journal, it has the label that the run
    entered last, and as its number the number of commands between that label's command and the
    one at hand that begin a page, whether they were executed or passed over; and where such a
    command is executed, its page begins. So from the first command of a label up to the next label
    command, the page that begins at a place is found by its number: right behind the command that
    begins the page before, or at the label's command for the first. A run that is entered there
    begins no page before that place, and if it executes the command at the place, it begins the
    same page with it. -/
theorem pages_are_positional (stage : σ) (loader : ℓ) (source : ς) (factory : Factory)
    (settings : Settings) (cap : Nat) (params : Expression.Params) (galleryLabels : List String)
    (history? : Option History.ReadHistory) (inputs : List (Input σ ℓ ς)) :
    let p := (ready stage loader source (.ofSettings factory settings) cap params galleryLabels
      history?).afterAll inputs
    (∀ before label page later, p.events = before ++ .cue (.pageBegin label page) :: later →
      Begun before label page) ∧
    (∀ before i u later, p.events = before ++ .turn (.executed i u) :: later →
      Begins before i later) ∧
    ∀ s, Scenario.Compiled s → ∀ label m i, s.labelIndex? label = some m → m < i →
      (∀ k c, m < k → k < i → s.commands[k]? = some c → c.label? = none) →
      ∃ j, s.seek label (s.boundaries m i) = .ok j ∧ j ≤ i ∧
        (s.boundaries m i = 0 ∧ j = m ∨
          m + 1 < j ∧ ∃ c, s.commands[j - 1]? = some c ∧ c.beginsPage = true) ∧
        (∀ k c, j ≤ k → k < i → s.commands[k]? = some c → c.beginsPage = false) ∧
        (∀ before label' page later r k u c,
          p.events = before ++ .cue (.pageBegin label' page) :: later → runOf before = some r →
          r.scenario = s → r.start = entry s label (s.boundaries m i) →
          r.turns.getLast? = some (.executed k u) → k ≤ i → s.commands[k]? = some c →
          ¬GivesItself c (.pageBegin label' page) →
          k = i ∧ label' = label ∧ page = s.boundaries m i) ∧
        ∀ before u later r c, p.events = before ++ .turn (.executed i u) :: later →
          runOf before = some r → r.scenario = s → r.start = entry s label (s.boundaries m i) →
          s.commands[i]? = some c → c.beginsPage = true →
          ∃ (cues : List Cue) (rest : List Event),
            later = cues.map .cue ++ .cue (.pageBegin label (s.boundaries m i)) :: rest := by
  intro p
  have hp := placed_ready stage loader source factory settings cap params galleryLabels history?
  refine ⟨fun _ _ _ _ hes => begun_of_event hp rfl hes,
    fun _ _ _ _ hes => begins_of_event hp rfl hes, ?_⟩
  intro s hs label m i hl hmi hsection
  obtain ⟨j, hseek, hmj, hji, hplace, hnone⟩ := Scenario.seek_boundaries hs hl hmi hsection
  have hentry : entry s label (s.boundaries m i) =
      ⟨label, j, max (s.boundaries m i : Int) 0 - 1⟩ := by
    unfold entry
    rw [hseek]
  refine ⟨j, hseek, hji, hplace, hnone, ?_, ?_⟩
  · rintro before label' page later r k u c hes hr rfl hstart hlast hki hc hown
    rw [hentry] at hstart
    obtain ⟨hbegins, hexecuted, m', hlabel, rfl⟩ :=
      (begun_of_event hp rfl hes).of_run hr hlast hc hown
    -- the command begins a page, so it is the first that does
    have hjk : j ≤ k := by simpa [hstart] using (hexecuted k u (List.mem_of_getLast? hlast)).1
    obtain rfl : k = i := by
      refine Nat.le_antisymm hki (Nat.le_of_not_lt fun hlt => ?_)
      rw [hnone k c hjk hlt hc] at hbegins
      cases hbegins
    have hsame := lastLabel?_of_section hs hl (by rw [hstart]) (by rw [hstart]; exact hmj)
      hsection hc hbegins hexecuted
    obtain ⟨rfl, rfl⟩ := Prod.mk.inj (Option.some.inj (hsame.symm.trans hlabel))
    exact ⟨rfl, rfl, rfl⟩
  · rintro before u later r c hes hr rfl hstart hc hbegins
    rw [hentry] at hstart
    obtain ⟨hexecuted, label', m', hlabel, htold⟩ :=
      (begins_of_event hp rfl hes).of_run hr hc hbegins
    have hsame := lastLabel?_of_section hs hl (by rw [hstart]) (by rw [hstart]; exact hmj)
      hsection hc hbegins hexecuted
    obtain ⟨rfl, rfl⟩ := Prod.mk.inj (Option.some.inj (hsame.symm.trans hlabel))
    exact htold

end VisualNovel.Player
