import VisualNovel.Proofs.Player.Strides

/-
  Runs and their strides. A player that plays on, however long it is kept waiting, makes some
  strides of the player that is never kept waiting and stays abreast of it (`afterAll_strides`).
  What the two tell need not be the same: how it fits together is given by a relation between
  journals, for which only the executions of commands have to be looked at (`Guided`).
-/

namespace VisualNovel.Player

open Asset (Handle Loader)
open Scenario (Corpus TableSource)
open Stage (Progress)
open Table (CellTable)

variable {σ ℓ ς : Type}

variable [Stage σ] [Loader ℓ] [TableSource ς]
variable {verdict : Handle → Bool} {tables : String → Option CellTable}
variable {L : ℓ → Prop} {S : ς → Prop}

/-! ## Picks -/

/-- The picks of a run are those that were given for its menus. -/
def Heeds (picks : Nat → Nat) (es : List Event) : Prop :=
  ∀ n i, (picksOf es)[n]? = some i → i = picks n

theorem Heeds.of_append {picks : Nat → Nat} {es fs : List Event} (h : Heeds picks (es ++ fs)) :
    Heeds picks es := by
  intro n i hi
  refine h n i ?_
  rw [picksOf_append]
  exact List.getElem?_append_left (List.getElem?_eq_some_iff.mp hi).1 ▸ hi

/-- The next pick of a run is the one that was given for it. -/
theorem Heeds.next {picks : Nat → Nat} {es fs : List Event} {i : Nat}
    (h : Heeds picks (es ++ fs)) (hfs : picksOf fs = [i]) : i = picks (picksOf es).length := by
  refine h _ i ?_
  rw [picksOf_append, hfs, List.getElem?_concat_length]

/-- Of the n-th menu of two runs the same was picked, if both got so far. -/
def SamePicks (es fs : List Event) : Prop :=
  ∀ (n : Nat) (i j : Nat), (picksOf es)[n]? = some i → (picksOf fs)[n]? = some j → i = j

theorem SamePicks.exists_heeds {es fs : List Event} (h : SamePicks es fs) :
    ∃ picks, Heeds picks es ∧ Heeds picks fs := by
  refine ⟨fun n => ((picksOf es)[n]?.or (picksOf fs)[n]?).getD 0, fun n i hi => ?_,
    fun n j hj => ?_⟩
  · dsimp only
    rw [hi]
    rfl
  · dsimp only
    cases hi : (picksOf es)[n]? with
    | none =>
      rw [hj]
      rfl
    | some i => exact (h n i j hi hj).symm

/-- Of a menu that is done something was picked, and of everything else nothing. -/
theorem pick?_of_done {c : Command} {progress : Progress} {b : Command.Board} (pick : Nat)
    (hdone : (c.await progress b).2 = true) :
    c.pick? progress b = c.pick? (waitedOut pick) b ∨
      ∃ i, c.pick? progress b = some i ∧ c.pick? (waitedOut pick) b = some pick := by
  obtain ⟨_, action⟩ := c
  cases action with
  | menu =>
    change (b.awaitPick progress.picked?).2 = true at hdone
    unfold Command.Board.awaitPick at hdone
    unfold Command.pick?
    dsimp only
    by_cases hb : b.choices = []
    · rw [if_pos hb, if_pos hb]
      exact Or.inl rfl
    · rw [if_neg hb] at hdone ⊢
      rw [if_neg hb]
      cases hpicked : progress.picked? with
      | none =>
        rw [hpicked] at hdone
        cases hdone
      | some i => exact Or.inr ⟨i, rfl, rfl⟩
  | _ => exact Or.inl rfl

/-! ## Guidance -/

/-- What time brings to a run: it is ticked, and the stage, the loader, which is one of `L`, and
    the source, which is one of `S`, go their ways. -/
inductive Passing (L : ℓ → Prop) (S : ς → Prop) : Input σ ℓ ς → Prop
  | tick : Passing L S .tick
  | stage (stage : σ) : Passing L S (.stage stage)
  | loader {loader : ℓ} (hloader : L loader) : Passing L S (.loader loader)
  | source {source : ς} (hsource : S source) : Passing L S (.source source)

/-- Players of `P` stay of `P`, find the tables that are `tables`, and what they tell of commands
    that are executed fits to what the player that is never kept waiting tells of them. -/
structure Guided (R : List Event → List Event → Prop) (P : Player σ ℓ ς → Prop) (L : ℓ → Prop)
    (S : ς → Prop) (verdict : Handle → Bool) (tables : String → Option CellTable) : Prop where
  move : ∀ {p q : Player σ ℓ ς}, Move p q → P p → P q
  stage : ∀ {p : Player σ ℓ ς} (stage : σ), P p → P { p with stage }
  loader : ∀ {p : Player σ ℓ ς} {loader : ℓ}, L loader → P p →
    P { p with ledger := { p.ledger with loader } }
  source : ∀ {p : Player σ ℓ ς} {source : ς}, S source → P p → P { p with source }
  table : ∀ {p : Player σ ℓ ς} {label : String}, P p →
    TableSource.isLoaded p.source label = true → TableSource.table? p.source label = tables label
  executed : ∀ {p : Player σ ℓ ς} {q : Prompt verdict tables} {s : Scenario} {a : Active}, P p →
    p.Plays s a → a.phase = .loading → p.isLoadComplete a.command = true → Abreast R p q →
    R (p.events ++ p.executedEvents a) (q.events ++ q.executedEvents a)

variable {R : List Event → List Event → Prop} [Additive R] {P : Player σ ℓ ς → Prop}

/-! ## Keeping step -/

variable {picks : Nat → Nat} {p r : Player σ ℓ ς} {q : Prompt verdict tables}

theorem Abreast.leave (h : Abreast R p q) {a b : Active} (hindex : a.index = b.index)
    (hcommand : a.command = b.command) (picked? : Option Nat) :
    Abreast R (p.leave a picked?) (q.leave b picked?) := by
  have hboard : Abreast R { p with board := boardPicked a.command picked? p.board }
      { q with board := boardPicked b.command picked? q.board } :=
    { h with board := by rw [h.board, hcommand] }
  exact (hboard.complete hindex hcommand picked?).takeUp

omit [Stage σ] [TableSource ς] in
/-- Passing over a command, or taking its assets, is a stride. -/
theorem Abreast.turn (picks : Nat → Nat) (h : Abreast R p q) {s : Scenario} {c : Command}
    (hp : p.Stands s) (hc : s.commands[p.cursor.index]? = some c) :
    Abreast R (if p.board.ifStack.skips c.isConditional then p.skip c else (p.activate c).1)
      (q.stride picks) := by
  rw [stride_of_stands (h.stands hp), ← h.cursor, hc]
  dsimp only
  rw [h.board]
  split
  · exact h.skip c
  · exact h.activate c

/-- Executing a command whose assets are there is a stride. -/
theorem Abreast.carryOut (picks : Nat → Nat) (h : Abreast R p q)
    (hG : Guided R P L S verdict tables) (hp : P p) {s : Scenario} {a : Active}
    (hplays : p.Plays s a) (hphase : a.phase = .loading)
    (hload : p.isLoadComplete a.command = true) {status : Option Status}
    (hr : Player.handle (p.execute a).1.board.requests (p.execute a).1.settle = (r, status)) :
    Abreast R r (q.stride picks) := by
  have hexecuted := (h.execute (hG.executed hp hplays hphase hload h)).takeUp
  rw [hr] at hexecuted
  rw [stride_of_assets (h.plays_loading hplays hphase) hphase]
  exact hexecuted

/-- The pick of a command that is left is the next of the picks that are given. -/
theorem heeds_left {s : Scenario} {a : Active} {since : Nat} (hplays : p.Plays s a)
    {status : Option Status}
    (hr : Player.handle (p.completed a since).board.requests (p.completed a since).settle =
      (r, status))
    (hheeds : Heeds picks r.events) {i : Nat}
    (hi : a.command.pick? (Stage.progress p.stage since) p.board = some i) :
    i = picks (picksOf p.events).length := by
  have hevents : (p.completed a since).settle.events = p.events ++
      p.doneEvents a (a.command.pick? (Stage.progress p.stage since) p.board) :=
    p.completed_events a since
  obtain ⟨fs, hfs⟩ := (handle_moves (completed_stands hplays since).state hr).grows
  rw [hfs, hevents] at hheeds
  refine hheeds.of_append.next ?_
  rw [picksOf, turnsOf_doneEvents, hi]
  rfl

/-- Leaving a command that is done is a stride, if the pick of its menu is the one that is
    given. -/
theorem Abreast.left (h : Abreast R p q) {s : Scenario} {a : Active} {since : Nat}
    (hplays : p.Plays s a) (hphase : a.phase = .waiting since)
    (hdone : (a.command.await (Stage.progress p.stage since) p.board).2 = true)
    {status : Option Status}
    (hr : Player.handle (p.completed a since).board.requests (p.completed a since).settle =
      (r, status))
    (hheeds : Heeds picks r.events) : Abreast R r (q.stride picks) := by
  obtain ⟨b, since', hq, hphase', hindex, hcommand⟩ := h.plays_waiting hplays hphase
  have hgiven : a.command.pick? (Stage.progress p.stage since) p.board =
      b.command.pick? (waitedOut (picks (picksOf q.events).length)) q.board := by
    rw [hcommand, ← h.board, ← h.picks]
    rcases pick?_of_done (picks (picksOf p.events).length) hdone with heq | ⟨i, hi, hgiven⟩
    · exact heq
    · rw [hgiven, hi, heeds_left hplays hr hheeds hi]
  have hleft := h.leave hindex.symm hcommand.symm
    (a.command.pick? (Stage.progress p.stage since) p.board)
  -- the board of a command that is done is the one after its pick
  have hresult : p.leave a (a.command.pick? (Stage.progress p.stage since) p.board) = r := by
    rw [Player.completed, await_board hdone] at hr
    exact congrArg Prod.fst hr
  rw [hresult, hgiven] at hleft
  rw [stride_of_waiting hq hphase']
  exact hleft

/-- Each beat is a stride. -/
theorem Beat.abreast {V : Player σ ℓ ς → Prop} (h : Beat V p r)
    (hG : Guided R P L S verdict tables) (hp : P p) (hheeds : Heeds picks r.events)
    (hpq : Abreast R p q) : Abreast R r (q.stride picks) := by
  cases h with
  | skip _ hstands hc hskip =>
    have hturn := hpq.turn picks hstands hc
    rwa [if_pos hskip] at hturn
  | activate _ hstands hc hskip =>
    have hturn := hpq.turn picks hstands hc
    rwa [if_neg (by simp [hskip])] at hturn
  | execute hplays hphase hload hr => exact hpq.carryOut picks hG hp hplays hphase hload hr
  | leave hplays hphase hdone hr => exact hpq.left hplays hphase hdone hr hheeds

/-- So is the last step of a run. -/
theorem Close.abreast (h : Close p r) (hG : Guided R P L S verdict tables) (hp : P p)
    (hheeds : Heeds picks r.events) (hpq : Abreast R p q) : Abreast R r (q.stride picks) := by
  cases h with
  | execute hplays hphase hload hr => exact hpq.carryOut picks hG hp hplays hphase hload hr
  | leave hplays hphase hdone hr => exact hpq.left hplays hphase hdone hr hheeds
  | finish hstands hend =>
    have hc := List.drop_eq_nil_iff.mp hend
    rw [hpq.cursor] at hc
    rw [stride_of_stands (hpq.stands hstands), List.getElem?_eq_none hc]
    exact hpq.finish _

/-! ## Ticks -/

/-- Some strides of a player that is never kept waiting lead abreast of another. -/
def Strides (R : List Event → List Event → Prop) (picks : Nat → Nat) (q : Prompt verdict tables)
    (p : Player σ ℓ ς) : Prop :=
  ∃ n, Abreast R p ((stride picks)^[n] q)

omit [Stage σ] [Loader ℓ] [TableSource ς] [Additive R] in
theorem Strides.next (h : Strides R picks q p)
    (hnext : ∀ {q : Prompt verdict tables}, Abreast R p q → Abreast R r (q.stride picks)) :
    Strides R picks q r := by
  obtain ⟨n, hn⟩ := h
  refine ⟨n + 1, ?_⟩
  rw [Function.iterate_succ_apply']
  exact hnext hn

theorem Beats.strides {V : Player σ ℓ ς → Prop} (h : Beats V p r)
    (hG : Guided R P L S verdict tables) (hp : P p) (hheeds : Heeds picks r.events)
    (hpq : Strides R picks q p) : Strides R picks q r := by
  induction h with
  | refl => exact hpq
  | tail hfirst hlast ih =>
    obtain ⟨fs, hfs⟩ := hlast.moves.grows
    have hkept := (Beats.moves hfirst).preserve hG.move hp
    exact (ih (hfs ▸ hheeds).of_append).next (hlast.abreast hG hkept hheeds)

theorem Ends.strides {V : Player σ ℓ ς → Prop} (h : Ends V p r) (hG : Guided R P L S verdict tables)
    (hp : P p) (hheeds : Heeds picks r.events)
    (hpq : Strides R picks q p) : Strides R picks q r := by
  cases h with
  | waits hbeats _ => exact hbeats.strides hG hp hheeds hpq
  | closed hbeats hclose =>
    obtain ⟨fs, hfs⟩ := hclose.moves.grows
    have hkept := hbeats.moves.preserve hG.move hp
    have hstrides := hbeats.strides hG hp (hfs ▸ hheeds).of_append hpq
    exact hstrides.next (hclose.abreast hG hkept hheeds)

theorem play_strides (hG : Guided R P L S verdict tables) (hp : P p)
    {s : Scenario} (hstate : p.state = .running) (hs : p.scenario? = some s)
    (hheeds : Heeds picks (p.play s).1.events) (hpq : Strides R picks q p) :
    Strides R picks q (p.play s).1 :=
  (play_ends (V := fun _ => True) (fun _ _ => trivial) hstate hs).strides hG hp hheeds hpq

/-- The run of a label that is there is entered with a stride. -/
theorem enter_strides (hG : Guided R P L S verdict tables) (hp : P p)
    {label : String} {page : Int} (hstate : p.state = .loading label page)
    (hloaded : TableSource.isLoaded p.source label = true)
    (hheeds : Heeds picks (p.enter label page).1.events) (hpq : Strides R picks q p) :
    Strides R picks q (p.enter label page).1 := by
  have hfetch : ∀ {q : Prompt verdict tables}, Abreast R p q →
      q.corpus.fetch q.source label = p.corpus.fetch p.source label := by
    intro q hpq
    unfold Corpus.fetch
    rw [hG.table hp hloaded, hpq.corpus]
    rfl
  obtain ⟨hfound, hcorpus⟩ := fetch_cases p.corpus p.source label
  unfold enter at hheeds ⊢
  rcases hentered : p.corpus.fetch p.source label with ⟨corpus, scenario?⟩
  rw [hentered] at hfound hcorpus hheeds
  dsimp only at hfound hcorpus hheeds ⊢
  have hcompiled : Moves p { p with corpus } := by
    rcases hcorpus with rfl | ⟨t, rfl⟩
    · exact .refl
    · exact .single (.compile p t)
  cases hs : scenario? with
  | none =>
    refine hpq.next fun {q} h => ?_
    rw [stride_of_loading (h.state ▸ hstate), hfetch h, hentered, hs]
    have hcorpora : Abreast R { p with corpus } { q with corpus } := { h with corpus := rfl }
    exact hcorpora.finish _
  | some s =>
    have henter : Moves p ({ p with corpus }.enterScenario s label page) :=
      hcompiled.tail (.enter hstate (hfound.symm.trans hs))
    rw [hs] at hheeds
    refine play_strides hG (henter.preserve hG.move hp) ?_ ?_ hheeds (hpq.next fun {q} h => ?_)
    · rw [enterScenario_eq]
    · rw [enterScenario_eq]
    · rw [stride_of_loading (h.state ▸ hstate), hfetch h, hentered, hs]
      have hcorpora : Abreast R { p with corpus } { q with corpus } := { h with corpus := rfl }
      exact hcorpora.enterScenario s label page

/-- A tick is some strides. -/
theorem tick_strides (hG : Guided R P L S verdict tables) (hp : P p)
    (hheeds : Heeds picks p.tick.1.events) (hpq : Strides R picks q p) :
    Strides R picks q p.tick.1 := by
  cases hstate : p.state with
  | loading label page =>
    by_cases hloaded : TableSource.isLoaded p.source label = true
    · rw [tick_of_loaded hstate hloaded] at hheeds ⊢
      exact enter_strides hG hp hstate hloaded hheeds hpq
    · have htick : p.tick.1 = p := by
        unfold tick
        rw [hstate]
        dsimp only
        rw [if_neg hloaded]
      rw [htick]
      exact hpq
  | running =>
    cases hs : p.scenario? with
    | none =>
      have htick : p.tick.1 = p.finish .completed := by
        unfold tick
        rw [hstate, hs]
      rw [htick]
      refine hpq.next fun {q} h => ?_
      rw [stride_of_unset (h.state ▸ hstate) (h.scenario ▸ hs)]
      exact h.finish _
    | some s =>
      rw [tick_of_running hstate hs] at hheeds ⊢
      exact play_strides hG hp hstate hs hheeds hpq
  | idle | ended =>
    have htick : p.tick.1 = p := by
      unfold tick
      rw [hstate]
    rw [htick]
    exact hpq

/-- A run that time passes for is some strides. -/
theorem afterAll_strides (hG : Guided R P L S verdict tables) (hp : P p)
    {inputs : List (Input σ ℓ ς)} (hinputs : ∀ i ∈ inputs, Passing L S i)
    (hheeds : Heeds picks (p.afterAll inputs).events) (hpq : Strides R picks q p) :
    Strides R picks q (p.afterAll inputs) := by
  induction inputs generalizing p with
  | nil => exact hpq
  | cons i inputs ih =>
    have hrest := fun i hi => hinputs i (List.mem_cons_of_mem _ hi)
    obtain ⟨n, hn⟩ := hpq
    rw [afterAll_cons] at hheeds ⊢
    cases hinputs i List.mem_cons_self with
    | tick =>
      obtain ⟨fs, hfs⟩ := afterAll_grows p.tick.1 inputs
      have hearlier : Heeds picks p.tick.1.events := by
        change Heeds picks (p.tick.1.afterAll inputs).events at hheeds
        rw [hfs] at hheeds
        exact hheeds.of_append
      exact ih (p.tick_moves.preserve hG.move hp) hrest hheeds
        (tick_strides hG hp hearlier ⟨n, hn⟩)
    | stage stage => exact ih (hG.stage stage hp) hrest hheeds ⟨n, { hn with }⟩
    | loader hloader => exact ih (hG.loader hloader hp) hrest hheeds ⟨n, { hn with }⟩
    | source hsource => exact ih (hG.source hsource hp) hrest hheeds ⟨n, { hn with }⟩

end VisualNovel.Player
