import VisualNovel.Proofs.Player.Beats

/-
  Playing as a sequence of moves. `Input` is all that comes to a player from outside: its calls,
  and changes of what it plays with. `Move` lists what a player does on its own, one step at a
  time, and `after_cases` takes every call apart into moves: what each move and each change
  keeps, every sequence of inputs keeps (`afterAll_preserve`), and what holds of every event that a
  move adds, seen from before it, holds of every event of a journal (`holds_afterAll`).
-/

namespace VisualNovel.Player

open Asset (Loader)
open Command (HostReader Settings)
open Expression (Params)
open Scenario (Corpus TableSource)
open Stage (Cue EndReason SavePoint)
open Table (CellTable)

variable {σ ℓ ς : Type}

/-! ## Inputs -/

/-- What comes to a player from outside: a call, or a change of what it plays with. The stage,
    the loader and the source may change in any way, the corpus may compile and learn. -/
inductive Input (σ ℓ ς : Type) where
  | start (label : String) (page : Int) (gallery? : Option String)
  | resume (point : SavePoint)
  | jump (label : String)
  | stop
  | erase
  | tick
  | stage (stage : σ)
  | loader (loader : ℓ)
  | source (source : ς)
  | params (params : Params)
  | compile (table : CellTable)
  | register (tag : String) (reader : HostReader)
  | settings (settings : Settings)

variable [Stage σ] [Loader ℓ] [TableSource ς]

/-- The player after an input. -/
def after (p : Player σ ℓ ς) : Input σ ℓ ς → Player σ ℓ ς
  | .start label page gallery? => p.start label page gallery?
  | .resume point => p.resume point
  | .jump label => p.jump label
  | .stop => p.stop
  | .erase => p.erase
  | .tick => p.tick.1
  | .stage stage => { p with stage }
  | .loader loader => { p with ledger := { p.ledger with loader } }
  | .source source => { p with source }
  | .params params => { p with board := { p.board with params } }
  | .compile table => { p with corpus := (p.corpus.compile table).1 }
  | .register tag reader => { p with corpus := p.corpus.register tag reader }
  | .settings settings => { p with corpus := { p.corpus with settings } }

/-- The player after inputs in order. -/
def afterAll (p : Player σ ℓ ς) (inputs : List (Input σ ℓ ς)) : Player σ ℓ ς :=
  inputs.foldl after p

@[simp] theorem afterAll_nil (p : Player σ ℓ ς) : p.afterAll [] = p := rfl

@[simp] theorem afterAll_cons (p : Player σ ℓ ς) (i : Input σ ℓ ς) (inputs : List (Input σ ℓ ς)) :
    p.afterAll (i :: inputs) = (p.after i).afterAll inputs := rfl

theorem afterAll_append (p : Player σ ℓ ς) (xs ys : List (Input σ ℓ ς)) :
    p.afterAll (xs ++ ys) = (p.afterAll xs).afterAll ys := List.foldl_append

/-! ## Moves -/

/-- What a player does in one step, and what is changed for it. -/
inductive Move : Player σ ℓ ς → Player σ ℓ ς → Prop
  | enter {p : Player σ ℓ ς} {s : Scenario} {label : String} {page : Int}
      (hstate : p.state = .loading label page) (hs : p.corpus.scenario? label = some s) :
      Move p (p.enterScenario s label page)
  | skip {p : Player σ ℓ ς} {s : Scenario} {c : Command} (hp : p.Stands s)
      (hc : s.commands[p.cursor.index]? = some c)
      (hskip : p.board.ifStack.skips c.isConditional = true) : Move p (p.skip c)
  | activate {p : Player σ ℓ ς} {s : Scenario} {c : Command} (hp : p.Stands s)
      (hc : s.commands[p.cursor.index]? = some c)
      (hskip : p.board.ifStack.skips c.isConditional = false) : Move p (p.activate c).1
  | execute {p : Player σ ℓ ς} {s : Scenario} {a : Active} (hp : p.Plays s a)
      (hphase : a.phase = .loading) (hload : p.isLoadComplete a.command = true) :
      Move p (p.execute a).1.settle
  | complete {p : Player σ ℓ ς} {s : Scenario} {a : Active} {since : Nat} (hp : p.Plays s a)
      (hphase : a.phase = .waiting since)
      (hdone : (a.command.await (Stage.progress p.stage since) p.board).2 = true) :
      Move p (p.completed a since).settle
  | endGalleryScene (p : Player σ ℓ ς) : Move p p.endGalleryScene
  | notePageLeft (p : Player σ ℓ ς) : Move p p.notePageLeft
  | begin (p : Player σ ℓ ς) (label : String) (page : Int) (gallery? : Option String) :
      Move p (p.begin label page gallery?)
  | finish {p : Player σ ℓ ς} (reason : EndReason) (hp : p.state.isUnderWay = true) :
      Move p (p.finish reason)
  | compile (p : Player σ ℓ ς) (table : CellTable) :
      Move p { p with corpus := (p.corpus.compile table).1 }

/-- Any number of moves. -/
abbrev Moves : Player σ ℓ ς → Player σ ℓ ς → Prop := Relation.ReflTransGen Move

/-- What is changed around a player between its calls. -/
inductive Change : Player σ ℓ ς → Player σ ℓ ς → Prop
  | stage (p : Player σ ℓ ς) (stage : σ) : Change p { p with stage }
  | loader (p : Player σ ℓ ς) (loader : ℓ) :
      Change p { p with ledger := { p.ledger with loader } }
  | source (p : Player σ ℓ ς) (source : ς) : Change p { p with source }
  | params (p : Player σ ℓ ς) (params : Params) :
      Change p { p with board := { p.board with params } }
  | compile (p : Player σ ℓ ς) (table : CellTable) :
      Change p { p with corpus := (p.corpus.compile table).1 }
  | register (p : Player σ ℓ ς) (tag : String) (reader : HostReader) :
      Change p { p with corpus := p.corpus.register tag reader }
  | settings (p : Player σ ℓ ς) (settings : Settings) :
      Change p { p with corpus := { p.corpus with settings } }

omit [Stage σ] [Loader ℓ] [TableSource ς] in
theorem Change.events {p q : Player σ ℓ ς} (h : Change p q) : q.events = p.events := by
  cases h <;> rfl

omit [Stage σ] [Loader ℓ] [TableSource ς] in
theorem Change.state {p q : Player σ ℓ ς} (h : Change p q) : q.state = p.state := by
  cases h <;> rfl

/-! ## Ticks -/

/-- A move that leaves a run under way if one was, and none if none was. -/
def Keeps (p q : Player σ ℓ ς) : Prop := Move p q ∧ q.state.isUnderWay = p.state.isUnderWay

/-- Moves that end no run, and begin none where none is under way. -/
abbrev Steady : Player σ ℓ ς → Player σ ℓ ς → Prop := Relation.ReflTransGen Keeps

/-- Moves of which none but the last ends a run, or begins one where none is under way. -/
inductive Unfolds (p : Player σ ℓ ς) : Player σ ℓ ς → Prop
  | steady {q : Player σ ℓ ς} (h : Steady p q) : Unfolds p q
  | turned {q r : Player σ ℓ ς} (h : Steady p q) (hlast : Move q r) : Unfolds p r

theorem Steady.moves {p q : Player σ ℓ ς} (h : Steady p q) : Moves p q := by
  induction h with
  | refl => exact .refl
  | tail _ hlast ih => exact ih.tail hlast.1

theorem Steady.isUnderWay {p q : Player σ ℓ ς} (h : Steady p q) :
    q.state.isUnderWay = p.state.isUnderWay := by
  induction h with
  | refl => rfl
  | tail _ hlast ih => exact hlast.2.trans ih

theorem Unfolds.moves {p q : Player σ ℓ ς} (h : Unfolds p q) : Moves p q := by
  cases h with
  | steady h => exact h.moves
  | turned h hlast => exact h.moves.tail hlast

/-- More such moves may go before. -/
theorem Unfolds.behind {p q r : Player σ ℓ ς} (h : Steady p q) (hr : Unfolds q r) :
    Unfolds p r := by
  cases hr with
  | steady hr => exact .steady (h.trans hr)
  | turned hr hlast => exact .turned (h.trans hr) hlast

/-- A run that is under way as before was not ended. -/
theorem Unfolds.isSteady {p q : Player σ ℓ ς} (h : Unfolds p q)
    (hq : q.state.isUnderWay = p.state.isUnderWay) : Steady p q := by
  cases h with
  | steady h => exact h
  | turned h hlast => exact h.tail ⟨hlast, hq.trans h.isUnderWay.symm⟩

theorem steady_notePageLeft (p : Player σ ℓ ς) : Steady p p.notePageLeft := by
  refine .single ⟨.notePageLeft p, ?_⟩
  obtain ⟨history?, es, -, -, -, -, heq⟩ := p.notePageLeft_eq
  rw [heq]

theorem steady_endGalleryScene (p : Player σ ℓ ς) : Steady p p.endGalleryScene :=
  .single ⟨.endGalleryScene p, congrArg State.isUnderWay p.goesOn_endGalleryScene.state⟩

theorem jump_unfolds (p : Player σ ℓ ς) (label : String) : Unfolds p (p.jump label) :=
  .turned p.steady_notePageLeft (.begin _ _ _ _)

theorem finishIfUnderWay_unfolds (p : Player σ ℓ ς) (reason : EndReason) :
    Unfolds p (p.finishIfUnderWay reason) := by
  unfold finishIfUnderWay
  split
  · rename_i hp
    exact .turned .refl (.finish reason hp)
  · exact .steady .refl

/-- Requests of a run end it at most with the last that is done for them. -/
theorem handle_unfolds {requests : List Command.Request} {p r : Player σ ℓ ς}
    {status : Option Status} (hp : p.state = .running) (hr : handle requests p = (r, status)) :
    Unfolds p r := by
  induction requests generalizing p with
  | nil =>
    obtain ⟨rfl, -⟩ := Prod.mk.inj hr
    exact .steady .refl
  | cons request rest ih =>
    cases request with
    | jump label =>
      obtain ⟨rfl, -⟩ := Prod.mk.inj hr
      exact p.jump_unfolds label
    | endScenario =>
      obtain ⟨rfl, -⟩ := Prod.mk.inj hr
      exact .turned .refl (.finish _ (isUnderWay_of_running hp))
    | stop | erase =>
      obtain ⟨rfl, -⟩ := Prod.mk.inj hr
      exact p.finishIfUnderWay_unfolds _
    | endSceneGallery =>
      have hstate := p.goesOn_endGalleryScene.state.trans hp
      exact .behind p.steady_endGalleryScene (ih hstate hr)

theorem handle_moves {requests : List Command.Request} {p r : Player σ ℓ ς}
    {status : Option Status} (hp : p.state = .running) (hr : handle requests p = (r, status)) :
    Moves p r := (handle_unfolds hp hr).moves

/-- Requests that let the run go on. -/
theorem handle_steady {requests : List Command.Request} {p r : Player σ ℓ ς}
    (hp : p.state = .running) (hr : handle requests p = (r, none)) : Steady p r :=
  (handle_unfolds hp hr).isSteady (congrArg State.isUnderWay (handle_goesOn hr).state)

theorem keeps_execute {p : Player σ ℓ ς} {s : Scenario} {a : Active} (hp : p.Plays s a)
    (hphase : a.phase = .loading) (hload : p.isLoadComplete a.command = true) :
    Keeps p (p.execute a).1.settle :=
  ⟨.execute hp hphase hload, congrArg State.isUnderWay (p.execute_state a)⟩

theorem keeps_complete {p : Player σ ℓ ς} {s : Scenario} {a : Active} {since : Nat}
    (hp : p.Plays s a) (hphase : a.phase = .waiting since)
    (hdone : (a.command.await (Stage.progress p.stage since) p.board).2 = true) :
    Keeps p (p.completed a since).settle :=
  ⟨.complete hp hphase hdone, congrArg State.isUnderWay (p.completed_state a since)⟩

theorem Beat.steady {V : Player σ ℓ ς → Prop} {p q : Player σ ℓ ς} (h : Beat V p q) :
    Steady p q := by
  cases h with
  | skip _ hp hc hskip => exact .single ⟨.skip hp hc hskip, by rw [skip_eq]⟩
  | activate _ hp hc hskip => exact .single ⟨.activate hp hc hskip, by rw [activate_eq]⟩
  | execute hp hphase hload hr =>
    exact .head (keeps_execute hp hphase hload) (handle_steady (execute_plays hp).state hr)
  | leave hp hphase hdone hr =>
    exact .head (keeps_complete hp hphase hdone) (handle_steady (completed_stands hp _).state hr)

theorem Beat.moves {V : Player σ ℓ ς → Prop} {p q : Player σ ℓ ς} (h : Beat V p q) :
    Moves p q := Steady.moves h.steady

theorem Close.unfolds {p q : Player σ ℓ ς} (h : Close p q) : Unfolds p q := by
  cases h with
  | execute hp hphase hload hr =>
    exact .behind (.single (keeps_execute hp hphase hload))
      (handle_unfolds (execute_plays hp).state hr)
  | leave hp hphase hdone hr =>
    exact .behind (.single (keeps_complete hp hphase hdone))
      (handle_unfolds (completed_stands hp _).state hr)
  | finish hp _ => exact .turned .refl (.finish _ (isUnderWay_of_running hp.state))

theorem Close.moves {p q : Player σ ℓ ς} (h : Close p q) : Moves p q := h.unfolds.moves

theorem Beats.steady {V : Player σ ℓ ς → Prop} {p q : Player σ ℓ ς} (h : Beats V p q) :
    Steady p q := by
  induction h with
  | refl => exact .refl
  | tail _ hlast ih => exact ih.trans hlast.steady

theorem Beats.moves {V : Player σ ℓ ς → Prop} {p q : Player σ ℓ ς} (h : Beats V p q) :
    Moves p q := Steady.moves (Beats.steady h)

theorem Goes.moves {V : Player σ ℓ ς → Prop} {p : Player σ ℓ ς} {s : Scenario} {i : Nat}
    {r : Player σ ℓ ς × Option Status} (h : Goes V p s i r) : Moves p r.1 := by
  cases h with
  | on hbeats | waits hbeats => exact hbeats.moves
  | closed hbeats hclose => exact hbeats.moves.trans hclose.moves

theorem Ends.unfolds {V : Player σ ℓ ς → Prop} {p q : Player σ ℓ ς} (h : Ends V p q) :
    Unfolds p q := by
  cases h with
  | waits hbeats _ => exact .steady (Beats.steady hbeats)
  | closed hbeats hclose => exact .behind (Beats.steady hbeats) hclose.unfolds

theorem play_unfolds {p : Player σ ℓ ς} {s : Scenario} (hstate : p.state = .running)
    (hs : p.scenario? = some s) : Unfolds p (p.play s).1 :=
  (play_ends (V := fun _ => True) (fun _ _ => trivial) hstate hs).unfolds

theorem play_moves {p : Player σ ℓ ς} {s : Scenario} (hstate : p.state = .running)
    (hs : p.scenario? = some s) : Moves p (p.play s).1 := (play_unfolds hstate hs).moves

/-- The scenario that a corpus fetches is the one that a label leads to in it afterwards; if
    need be the table of the label was compiled for it. -/
theorem fetch_cases (c : Corpus) (source : ς) (label : String) :
    (c.fetch source label).2 = (c.fetch source label).1.scenario? label ∧
      ((c.fetch source label).1 = c ∨ ∃ t, (c.fetch source label).1 = (c.compile t).1) := by
  unfold Corpus.fetch
  cases hs : c.scenario? label with
  | some s => exact ⟨hs.symm, Or.inl rfl⟩
  | none =>
    dsimp only
    cases TableSource.table? source label with
    | none => exact ⟨hs.symm, Or.inl rfl⟩
    | some t => exact ⟨rfl, Or.inr ⟨t, rfl⟩⟩

theorem enter_unfolds {p : Player σ ℓ ς} {label : String} {page : Int}
    (hstate : p.state = .loading label page) : Unfolds p (p.enter label page).1 := by
  obtain ⟨hfound, hcorpus⟩ := fetch_cases p.corpus p.source label
  unfold enter
  rcases hfetch : p.corpus.fetch p.source label with ⟨corpus, scenario?⟩
  rw [hfetch] at hfound hcorpus
  dsimp only at hfound hcorpus ⊢
  have hmove : Steady p { p with corpus } := by
    rcases hcorpus with rfl | ⟨t, rfl⟩
    · exact .refl
    · exact .single ⟨.compile p t, rfl⟩
  refine .behind hmove ?_
  subst hfound
  have hunder : p.state.isUnderWay = true := by
    rw [hstate]
    rfl
  split
  · exact .turned .refl (.finish _ hunder)
  · rename_i s hs
    refine .behind (.single ⟨.enter hstate hs, ?_⟩) (play_unfolds ?_ ?_)
    · rw [enterScenario_eq]
      exact hunder.symm
    · rw [enterScenario_eq]
    · rw [enterScenario_eq]

/-- A tick ends a run at most once, with the last that it does. -/
theorem tick_unfolds (p : Player σ ℓ ς) : Unfolds p p.tick.1 := by
  unfold tick
  split
  · rename_i label page hstate
    split
    · exact enter_unfolds hstate
    · exact .steady .refl
  · rename_i hstate
    split
    · exact .turned .refl (.finish _ (isUnderWay_of_running hstate))
    · rename_i s hs
      exact play_unfolds hstate hs
  · exact .steady .refl

theorem tick_moves (p : Player σ ℓ ς) : Moves p p.tick.1 := p.tick_unfolds.moves

/-- An input is a call, which ends a run at most with the last that it does, or a change. -/
theorem after_unfolds (p : Player σ ℓ ς) (i : Input σ ℓ ς) :
    Unfolds p (p.after i) ∨ Change p (p.after i) := by
  cases i with
  | start label page gallery? => exact Or.inl (.turned .refl (.begin _ _ _ _))
  | resume point => exact Or.inl (.turned .refl (.begin _ _ _ _))
  | jump label => exact Or.inl (p.jump_unfolds label)
  | stop => exact Or.inl (p.finishIfUnderWay_unfolds _)
  | erase => exact Or.inl (p.finishIfUnderWay_unfolds _)
  | tick => exact Or.inl p.tick_unfolds
  | stage stage => exact Or.inr (.stage p stage)
  | loader loader => exact Or.inr (.loader p loader)
  | source source => exact Or.inr (.source p source)
  | params params => exact Or.inr (.params p params)
  | compile table => exact Or.inr (.compile p table)
  | register tag reader => exact Or.inr (.register p tag reader)
  | settings settings => exact Or.inr (.settings p settings)

/-- An input is a call, which is made of moves, or a change. -/
theorem after_cases (p : Player σ ℓ ς) (i : Input σ ℓ ς) :
    Moves p (p.after i) ∨ Change p (p.after i) :=
  (p.after_unfolds i).imp Unfolds.moves id

/-- What every move keeps, any number of moves keeps. -/
theorem Moves.preserve {P : Player σ ℓ ς → Prop} (hmove : ∀ {p q}, Move p q → P p → P q)
    {p q : Player σ ℓ ς} (h : Moves p q) (hp : P p) : P q := by
  induction h with
  | refl => exact hp
  | tail _ hstep ih => exact hmove hstep ih

/-- What every move and every change keeps, all inputs keep. -/
theorem afterAll_preserve {P : Player σ ℓ ς → Prop} (hmove : ∀ {p q}, Move p q → P p → P q)
    (hchange : ∀ {p q}, Change p q → P p → P q) {p : Player σ ℓ ς} (hp : P p)
    (inputs : List (Input σ ℓ ς)) : P (p.afterAll inputs) := by
  induction inputs generalizing p with
  | nil => exact hp
  | cons i inputs ih =>
    refine ih ?_
    rcases p.after_cases i with h | h
    · exact h.preserve hmove hp
    · exact hchange h hp

/-- Only the execution of the active command executes one, gives cues of one and begins a page. -/
theorem Move.executes {p q : Player σ ℓ ς} (h : Move p q) :
    (∃ es, q.events = p.events ++ es ∧ (∀ i u, .executed i u ∉ turnsOf es) ∧
      ∀ cue ∈ cuesOf es, isWord cue = true ∧ ∀ label page, cue ≠ .pageBegin label page) ∨
      ∃ s a, p.Plays s a ∧ a.phase = .loading ∧ q = (p.execute a).1.settle := by
  cases h with
  | execute hp hphase => exact Or.inr ⟨_, _, hp, hphase, rfl⟩
  | enter =>
    rw [enterScenario_eq]
    exact Or.inl ⟨_, events_append rfl, by simp, by simp⟩
  | skip =>
    rw [skip_eq]
    exact Or.inl ⟨_, events_append rfl, by simp, by simp⟩
  | activate =>
    rw [activate_eq]
    exact Or.inl ⟨_, events_append rfl, by simp, by simp⟩
  | complete =>
    refine Or.inl ⟨_, completed_events _ _ _, by simp, fun cue hcue => ?_⟩
    rw [cuesOf_doneEvents] at hcue
    split at hcue
    · obtain rfl := List.mem_singleton.mp hcue
      exact ⟨rfl, fun _ _ => Cue.noConfusion⟩
    · cases hcue
  | endGalleryScene =>
    obtain ⟨history?, es, -, -, hturns, hcues, heq⟩ := p.endGalleryScene_eq
    rw [heq]
    exact Or.inl ⟨es, events_append rfl, by simp [hturns], by simp [hcues]⟩
  | notePageLeft =>
    obtain ⟨history?, es, -, -, hturns, hcues, heq⟩ := p.notePageLeft_eq
    rw [heq]
    exact Or.inl ⟨es, events_append rfl, by simp [hturns], by simp [hcues]⟩
  | begin =>
    rw [begin_eq]
    exact Or.inl ⟨_, events_append rfl, by simp, by simp⟩
  | finish =>
    rw [finish_eq]
    exact Or.inl ⟨_, events_append rfl, by simp, by simp [isWord]⟩
  | compile => exact Or.inl ⟨[], events_append (by simp), by simp, by simp⟩

/-- What was told stays told. -/
theorem Move.grows {p q : Player σ ℓ ς} (h : Move p q) : ∃ es, q.events = p.events ++ es := by
  obtain ⟨es, hes, -⟩ | ⟨s, a, -, -, rfl⟩ := h.executes
  · exact ⟨es, hes⟩
  · exact ⟨_, p.execute_events a⟩

/-- A move asks the source for a label at most. -/
theorem Move.source {p q : Player σ ℓ ς} (h : Move p q) :
    q.source = p.source ∨ ∃ label, q.source = TableSource.request p.source label := by
  cases h with
  | enter => exact Or.inl (by rw [enterScenario_eq])
  | skip => exact Or.inl (by rw [skip_eq])
  | activate => exact Or.inl (by rw [activate_eq])
  | execute =>
    rw [execute_eq]
    exact Or.inl rfl
  | complete =>
    rw [completed, complete_eq]
    exact Or.inl rfl
  | endGalleryScene =>
    obtain ⟨history?, es, -, -, -, -, heq⟩ := p.endGalleryScene_eq
    exact Or.inl (by rw [heq])
  | notePageLeft =>
    obtain ⟨history?, es, -, -, -, -, heq⟩ := p.notePageLeft_eq
    exact Or.inl (by rw [heq])
  | begin label page gallery? =>
    rw [begin_eq]
    exact Or.inr ⟨label, rfl⟩
  | finish reason => exact Or.inl (by rw [finish_eq])
  | compile => exact Or.inl rfl

theorem Moves.grows {p q : Player σ ℓ ς} (h : Moves p q) : ∃ es, q.events = p.events ++ es := by
  induction h with
  | refl => exact ⟨[], (List.append_nil _).symm⟩
  | tail _ hlast ih =>
    obtain ⟨es, hes⟩ := ih
    obtain ⟨fs, hfs⟩ := hlast.grows
    exact ⟨es ++ fs, by rw [hfs, hes, List.append_assoc]⟩

/-- A journal only grows. -/
theorem afterAll_grows (p : Player σ ℓ ς) (inputs : List (Input σ ℓ ς)) :
    ∃ es, (p.afterAll inputs).events = p.events ++ es := by
  refine afterAll_preserve (P := fun q => ∃ es, q.events = p.events ++ es) ?_ ?_
    ⟨[], (List.append_nil _).symm⟩ inputs
  · rintro q r hmove ⟨es, hes⟩
    obtain ⟨fs, hfs⟩ := hmove.grows
    exact ⟨es ++ fs, by rw [hfs, hes, List.append_assoc]⟩
  · rintro q r hchange ⟨es, hes⟩
    exact ⟨es, hchange.events.trans hes⟩

/-! ## Whole journals -/

/-- Something holds of every event, seen from before it. -/
def Holds (Q : List Event → Event → Prop) (es : List Event) : Prop :=
  ∀ before e later, es = before ++ e :: later → Q before e

omit [Stage σ] [Loader ℓ] [TableSource ς] in
/-- An event of two lists in a row is among the second, or among the first and then followed by the
    second. -/
theorem split_append {es fs before later : List Event} {e : Event}
    (h : es ++ fs = before ++ e :: later) :
    (∃ told, before = es ++ told ∧ fs = told ++ e :: later) ∨
      ∃ since, es = before ++ e :: since ∧ later = since ++ fs := by
  rcases List.append_eq_append_iff.mp h with htold | ⟨since, hbefore, hrest⟩
  · exact Or.inl htold
  · cases since with
    | nil => exact Or.inl ⟨[], by simpa using hbefore.symm, hrest.symm⟩
    | cons d since =>
      obtain ⟨rfl, hlater⟩ := List.cons.inj hrest
      exact Or.inr ⟨since, hbefore, hlater⟩

omit [Stage σ] [Loader ℓ] [TableSource ς] in
/-- An event that is not among the first of two lists is among the second. -/
theorem split_behind {xs ys before later : List Event} {e : Event} (hxs : e ∉ xs)
    (h : xs ++ ys = before ++ e :: later) :
    ∃ before', before = xs ++ before' ∧ ys = before' ++ e :: later := by
  rcases split_append h with hbehind | ⟨since, hsince, -⟩
  · exact hbehind
  · exact absurd (hsince ▸ List.mem_append_right _ List.mem_cons_self) hxs

omit [Stage σ] [Loader ℓ] [TableSource ς] in
/-- An event that is neither before a place nor behind it is at the place. -/
theorem split_single {xs ys before later : List Event} {e e' : Event} (hxs : e' ∉ xs)
    (hys : e' ∉ ys) (h : xs ++ e :: ys = before ++ e' :: later) :
    before = xs ∧ e' = e ∧ later = ys := by
  obtain ⟨before', rfl, hrest⟩ := split_behind hxs h
  cases before' with
  | nil =>
    obtain ⟨rfl, rfl⟩ := List.cons.inj hrest
    exact ⟨List.append_nil xs, rfl, rfl⟩
  | cons d before' =>
    obtain ⟨-, rfl⟩ := List.cons.inj hrest
    exact absurd (List.mem_append_right _ List.mem_cons_self) hys

omit [Stage σ] [Loader ℓ] [TableSource ς] in
theorem Holds.append {Q : List Event → Event → Prop} {es fs : List Event} (hes : Holds Q es)
    (hfs : ∀ before e later, fs = before ++ e :: later → Q (es ++ before) e) :
    Holds Q (es ++ fs) := by
  intro before e later h
  rcases split_append h with ⟨told, rfl, htold⟩ | ⟨since, hsince, -⟩
  · exact hfs told e later htold
  · exact hes before e since hsince

/-- What every move makes sure of for the events that it adds holds of all events of a journal. -/
theorem holds_afterAll {P : Player σ ℓ ς → Prop} {Q : List Event → Event → Prop}
    (hmove : ∀ {p q}, Move p q → P p → P q) (hchange : ∀ {p q}, Change p q → P p → P q)
    (hevents : ∀ {p q}, Move p q → P p → ∃ es, q.events = p.events ++ es ∧
      ∀ before e later, es = before ++ e :: later → Q (p.events ++ before) e)
    {p : Player σ ℓ ς} (hp : P p) (hfirst : p.events = []) (inputs : List (Input σ ℓ ς)) :
    P (p.afterAll inputs) ∧ Holds Q (p.afterAll inputs).events := by
  refine afterAll_preserve (P := fun q => P q ∧ Holds Q q.events) ?_ ?_ ⟨hp, ?_⟩ inputs
  · rintro q r h ⟨hq, hholds⟩
    obtain ⟨es, hes, hfs⟩ := hevents h hq
    exact ⟨hmove h hq, hes ▸ hholds.append hfs⟩
  · rintro q r h ⟨hq, hholds⟩
    exact ⟨hchange h hq, h.events ▸ hholds⟩
  · intro before e later h
    rw [hfirst] at h
    simp at h

/-! ## Moments -/

/-- An event that is new after some moves was added by one of them. -/
theorem Moves.moment {p r : Player σ ℓ ς} (h : Moves p r) {before later : List Event} {e : Event}
    (hes : r.events = before ++ e :: later) (hnew : p.events.length ≤ before.length) :
    ∃ q q' told rest more, Moves p q ∧ Move q q' ∧ Moves q' r ∧ before = q.events ++ told ∧
      q'.events = before ++ e :: rest ∧ later = rest ++ more := by
  induction h generalizing later with
  | refl =>
    have hlength := congrArg List.length hes
    simp only [List.length_append, List.length_cons] at hlength
    omega
  | @tail q q' hmoves hlast ih =>
    obtain ⟨added, hadded⟩ := hlast.grows
    rcases split_append (hadded ▸ hes) with ⟨told, hbefore, -⟩ | ⟨since, hsince, rfl⟩
    · exact ⟨q, q', told, later, [], hmoves, hlast, .refl, hbefore, hes, (List.append_nil _).symm⟩
    · obtain ⟨m, m', told, rest, more, hm, hmove, hm', hbefore, hevents, rfl⟩ := ih hsince
      exact ⟨m, m', told, rest, more ++ added, hm, hmove, hm'.tail hlast, hbefore, hevents,
        List.append_assoc _ _ _⟩

/-- An event that is new after some inputs was added by a move that was made for one of them. -/
theorem moment_of_event {p : Player σ ℓ ς} {inputs : List (Input σ ℓ ς)}
    {before later : List Event} {e : Event}
    (hes : (p.afterAll inputs).events = before ++ e :: later)
    (hnew : p.events.length ≤ before.length) :
    ∃ xs i ys q q' told rest more, inputs = xs ++ i :: ys ∧ Moves (p.afterAll xs) q ∧
      Move q q' ∧ Moves q' (p.afterAll (xs ++ [i])) ∧ before = q.events ++ told ∧
      q'.events = before ++ e :: rest ∧ later = rest ++ more := by
  induction inputs generalizing p with
  | nil =>
    have hlength := congrArg List.length hes
    simp only [afterAll_nil, List.length_append, List.length_cons] at hlength
    omega
  | cons i inputs ih =>
    rw [afterAll_cons] at hes
    by_cases hlater : (p.after i).events.length ≤ before.length
    · obtain ⟨xs, j, ys, q, q', told, rest, more, rfl, hrest⟩ := ih hes hlater
      exact ⟨i :: xs, j, ys, q, q', told, rest, more, rfl, hrest⟩
    · -- the event was added for this input
      obtain ⟨gs, hgs⟩ := afterAll_grows (p.after i) inputs
      rcases split_append (hgs ▸ hes) with ⟨told, hbefore, -⟩ | ⟨since, hsince, rfl⟩
      · rw [hbefore, List.length_append] at hlater
        omega
      rcases p.after_cases i with h | h
      · obtain ⟨q, q', told, rest, more, hq, hmove, hq', hbefore, hevents, rfl⟩ :=
          h.moment hsince hnew
        exact ⟨[], i, inputs, q, q', told, rest, more ++ gs, rfl, hq, hmove, hq', hbefore, hevents,
          List.append_assoc _ _ _⟩
      · have hlength := congrArg List.length hsince
        rw [h.events, List.length_append, List.length_cons] at hlength
        omega

end VisualNovel.Player
