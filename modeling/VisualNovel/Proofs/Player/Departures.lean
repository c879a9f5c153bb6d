import VisualNovel.Asset.FileLoader
import VisualNovel.Proofs.Player.Restart
import VisualNovel.Proofs.Player.Stations
import VisualNovel.Proofs.Scenario.Catalogue

/-
  Leaving for a label. A jump, a pick of a menu and a return to a saved place name the label that
  the run goes on at, and a run for it is asked for. The label of a jump or of a choice was freed
  of its sign when its row was read; asking for it takes off blanks and a sign once more. So the
  run goes on at the label if the label begins with neither (`IsPlain`), and else another label is
  asked for (`labels_lead_back`).
-/

namespace VisualNovel.Player

open Asset (FileLoader Loader)
open Command (Factory IsLabel Settings labelIn? labelSign)
open Scenario (Corpus Library TableSource)
open Stage (Choice Console)
open Table (CellTable)

variable {σ ℓ ς : Type}

/-! ## Plain labels -/

/-- A label that begins with neither a blank nor the sign. -/
def IsPlain (l : String) : Prop :=
  ∀ c, l.toList.head? = some c → Text.isBlank c = false ∧ c ≠ labelSign

theorem length_dropLeading_le (c : Char) (s : String) :
    (Text.dropLeading c s).toList.length ≤ s.toList.length := by
  unfold Text.dropLeading
  split
  · rename_i d rest hs
    split
    · rw [hs, String.toList_ofList]
      exact Nat.le_succ _
    · exact Nat.le_refl _
  · exact Nat.le_refl _

/-- Of the labels that scripts can have, the plain ones are asked for as they are. -/
theorem bareLabel_eq_self_iff {l : String} (h : IsLabel l) : bareLabel l = l ↔ IsPlain l := by
  obtain ⟨hne, hlast⟩ := h
  cases hl : l.toList with
  | nil => exact absurd (String.toList_eq_nil_iff.mp hl) hne
  | cons c rest =>
    have hplain : IsPlain l ↔ Text.isBlank c = false ∧ c ≠ labelSign := by
      simp [IsPlain, hl]
    rw [hplain]
    have htrim : Text.isBlank c = false → Text.trim l = l := by
      intro hc
      have hsame : Text.trimList Text.isBlank l.toList = l.toList := by
        refine Text.trimList_eq_self (fun d hd => ?_) hlast
        obtain rfl : c = d := by simpa [hl] using hd
        exact hc
      rw [Text.trim, Text.trimBoth, hsame, String.ofList_toList]
    constructor
    · intro hbare
      have hc : Text.isBlank c = false := by
        by_contra hblank
        have hshort := Text.length_trimList_lt (s := rest) (Bool.of_not_eq_false hblank)
        have hle := length_dropLeading_le labelSign (Text.trim l)
        have hsame : (Text.dropLeading labelSign (Text.trim l)).toList.length = l.toList.length :=
          congrArg (fun s : String => s.toList.length) hbare
        rw [Text.toList_trim, hl] at hle
        rw [hl] at hsame
        omega
      refine ⟨hc, fun hsign => ?_⟩
      have hrest : bareLabel l = String.ofList rest := by
        rw [bareLabel, htrim hc, Text.dropLeading, hl]
        exact if_pos hsign
      have hlength : rest.length = (c :: rest).length := by
        rw [← hl, ← hbare, hrest, String.toList_ofList]
      simp at hlength
    · rintro ⟨hc, hsign⟩
      rw [bareLabel, htrim hc, Text.dropLeading, hl]
      exact if_neg hsign

/-! ## What a run's scenario and its menus come from -/

/-- A command brings a choice: it is the entry that has it, or one of a game's own that may add
    it. -/
def Offers (c : Command) (choice : Choice) : Prop :=
  c.action = .choice choice ∨ ∃ action, c.action = .host action ∧
    ∃ params choices, choice ∉ choices ∧ choice ∈ action.choices params choices

/-- The choices that are put together are brought by the scenario that is played, which is among
    the scenarios of the corpus. -/
structure Stocked (p : Player σ ℓ ς) : Prop extends Placed p where
  known : ∀ s, p.scenario? = some s → s ∈ p.corpus.scenarios
  unset : p.state ≠ .running → p.scenario? = none
  choices : ∀ choice ∈ p.board.choices, ∃ s c, p.scenario? = some s ∧ c ∈ s.commands ∧
    Offers c choice

theorem stocked_ready (stage : σ) (loader : ℓ) (source : ς) (factory : Factory)
    (settings : Settings) (cap : Nat) (params : Expression.Params) (galleryLabels : List String)
    (history? : Option History.ReadHistory) :
    Stocked (ready stage loader source (.ofSettings factory settings) cap params galleryLabels
      history?) :=
  { placed_ready stage loader source factory settings cap params galleryLabels history? with
    known := fun _ h => nomatch h
    unset := fun _ => rfl
    choices := fun _ h => nomatch h }

/-- What neither enters nor leaves a scenario and adds no choice keeps the stock. -/
theorem Stocked.goOn {p q : Player σ ℓ ς} (hp : Stocked p) (hplaced : Placed q)
    (hcorpus : p.corpus.scenarios ⊆ q.corpus.scenarios) (hscenario : q.scenario? = p.scenario?)
    (hstate : q.state = p.state) (hchoices : q.board.choices ⊆ p.board.choices) : Stocked q :=
  { hplaced with
    known := fun s hs => hcorpus (hp.known s (hscenario ▸ hs))
    unset := fun h => hscenario.trans (hp.unset (hstate ▸ h))
    choices := fun choice h => by
      rw [hscenario]
      exact hp.choices choice (hchoices h) }

/-- Without a scenario and a choice nothing is in stock. -/
theorem Placed.stocked {q : Player σ ℓ ς} (hplaced : Placed q) (hscenario : q.scenario? = none)
    (hchoices : q.board.choices = []) : Stocked q :=
  { hplaced with
    known := fun s hs => nomatch hscenario.symm.trans hs
    unset := fun _ => hscenario
    choices := fun choice h => by
      rw [hchoices] at h
      cases h }

theorem Change.scenarios {p q : Player σ ℓ ς} (h : Change p q) :
    p.corpus.scenarios ⊆ q.corpus.scenarios := by
  cases h with
  | compile table => exact (Corpus.prefix_compile _ table).subset
  | _ => exact fun _ h => h

theorem Stocked.change {p q : Player σ ℓ ς} (h : Change p q) (hp : Stocked p) : Stocked q := by
  have hplaced := hp.toPlaced.change h
  have hcorpus := h.scenarios
  cases h <;> exact hp.goOn hplaced hcorpus rfl rfl fun _ h => h

/-- A choice is added by a command that brings it. -/
theorem choices_change {c : Command} {b : Command.Board} {choice : Choice}
    (h : choice ∈ (c.action.change b).choices) : choice ∈ b.choices ∨ Offers c choice := by
  obtain ⟨context, action⟩ := c
  cases action with
  | choice c =>
    rcases List.mem_append.mp h with h | h
    · exact Or.inl h
    · exact Or.inr (Or.inl (congrArg _ (List.mem_singleton.mp h).symm))
  | host action =>
    by_cases hold : choice ∈ b.choices
    · exact Or.inl hold
    · exact Or.inr (Or.inr ⟨action, rfl, b.params, b.choices, hold, h⟩)
  | jump target condition? =>
    simp only [Command.Action.change] at h
    split at h <;> exact Or.inl h
  | _ => exact Or.inl h

/-- Waiting adds no choice. -/
theorem choices_await (c : Command) (progress : Stage.Progress) (b : Command.Board) :
    (c.await progress b).1.choices ⊆ b.choices := by
  have hpick : (b.awaitPick progress.picked?).1.choices ⊆ b.choices := by
    unfold Command.Board.awaitPick
    split
    · exact fun _ h => h
    · split
      · exact fun _ h => h
      · split <;> exact List.nil_subset _
  unfold Command.await
  split <;> first | exact fun _ h => h | exact hpick

variable [Stage σ] [Loader ℓ] [TableSource ς]

theorem Stocked.move {p q : Player σ ℓ ς} (h : Move p q) (hp : Stocked p) : Stocked q := by
  have hplaced := hp.toPlaced.move h
  cases h with
  | enter hstate hs =>
    have hnone := hp.unset (by rw [hstate]; exact fun h => nomatch h)
    rw [enterScenario_eq] at hplaced ⊢
    refine
      { hplaced with
        known := fun s hs' => ?_
        unset := fun h => absurd rfl h
        choices := fun choice h => ?_ }
    · obtain rfl := Option.some.inj hs'
      exact List.mem_of_find?_eq_some hs
    · obtain ⟨s, c, hs', -⟩ := hp.choices choice h
      cases hnone.symm.trans hs'
  | skip =>
    rw [skip_eq] at hplaced ⊢
    exact hp.goOn hplaced (fun _ h => h) rfl rfl fun _ h => h
  | activate =>
    rw [activate_eq] at hplaced ⊢
    exact hp.goOn hplaced (fun _ h => h) rfl rfl fun _ h => h
  | execute hplays hphase hload =>
    rename_i s a
    have hboard : (p.execute a).1.settle.board = (a.command.action.change p.board).settle := by
      rw [execute_eq]
      rfl
    have hcorpus : (p.execute a).1.settle.corpus = p.corpus := by
      rw [execute_eq]
      rfl
    have hscenario : (p.execute a).1.settle.scenario? = some s := by
      rw [execute_eq]
      exact hplays.scenario
    refine
      { hplaced with
        known := fun s' hs' => ?_
        unset := fun h => ?_
        choices := fun choice h => ?_ }
    · rw [hcorpus]
      exact hp.known s' (hplays.scenario.trans (hscenario.symm.trans hs'))
    · exact absurd (by rw [execute_eq]; exact hplays.state) h
    · rw [hboard] at h
      rw [hscenario, ← hplays.scenario]
      rcases choices_change h with h | h
      · exact hp.choices choice h
      · obtain ⟨r, m, ht⟩ := hp.tracks hplays.state
        obtain ⟨-, hc⟩ := ht.active a hplays.active
        exact ⟨_, a.command, ht.scenario, List.mem_of_getElem? hc, h⟩
  | complete hplays hphase hdone =>
    rw [completed, complete_eq] at hplaced ⊢
    exact hp.goOn hplaced (fun _ h => h) rfl rfl (choices_await _ _ _)
  | endGalleryScene =>
    obtain ⟨history?, es, -, -, -, -, heq⟩ := p.endGalleryScene_eq
    rw [heq] at hplaced ⊢
    exact hp.goOn hplaced (fun _ h => h) rfl rfl fun _ h => h
  | notePageLeft =>
    obtain ⟨history?, es, -, -, -, -, heq⟩ := p.notePageLeft_eq
    rw [heq] at hplaced ⊢
    exact hp.goOn hplaced (fun _ h => h) rfl rfl fun _ h => h
  | begin =>
    rw [begin_eq] at hplaced ⊢
    exact hplaced.stocked rfl rfl
  | finish =>
    rw [finish_eq] at hplaced ⊢
    exact hplaced.stocked rfl rfl
  | compile table => exact hp.goOn hplaced (Corpus.prefix_compile _ table).subset rfl rfl fun _ h => h

/-! ## Arriving -/

/-- A label is in a scenario that was compiled, or in the table that the source has for it and
    that is to be compiled. -/
def Brings (p : Player σ ℓ ς) (l : String) : Prop :=
  (∃ s ∈ p.corpus.scenarios, (s.labelIndex? l).isSome) ∨
    ∃ t, TableSource.table? p.source l = some t ∧ p.corpus.named? t.name = none ∧
      ((Scenario.compile p.corpus.factory p.corpus.settings t).labelIndex? l).isSome

/-- The next tick enters a run at the label, in the part of a scenario that begins with it. -/
def Arrives (p : Player σ ℓ ς) (l : String) (page : Int) : Prop :=
  ∃ s m es, s.labelIndex? l = some m ∧
    p.tick.1.events = p.events ++ .turn (.entered s (entry s l page)) :: es ∧
    (entry s l page).label = l ∧ m ≤ (entry s l page).index ∧
    ∀ k c, m < k → k < (entry s l page).index → s.commands[k]? = some c → c.label? = none

/-- A run of the label was asked for. It is waited for, and entered as soon as the label is
    there, whatever is changed around the player in the meantime. -/
structure Restarts (p : Player σ ℓ ς) (l : String) (page : Int) : Prop where
  asked : p.state = .loading l page
  waits : ∀ q, Relation.ReflTransGen Change p q → TableSource.isLoaded q.source l = false →
    q.tick = (q, .suspended .labelLoad)
  arrives : ∀ q, Relation.ReflTransGen Change p q → TableSource.isLoaded q.source l = true →
    q.Brings l → q.Arrives l page

omit [Stage σ] [Loader ℓ] in
/-- A label that was compiled stays so. -/
theorem Brings.changes {p q : Player σ ℓ ς} {l : String}
    (h : ∃ s ∈ p.corpus.scenarios, (s.labelIndex? l).isSome)
    (hchanges : Relation.ReflTransGen Change p q) : q.Brings l := by
  refine Or.inl ?_
  induction hchanges with
  | refl => exact h
  | tail _ hlast ih =>
    obtain ⟨s, hs, hl⟩ := ih
    exact ⟨s, hlast.scenarios hs, hl⟩

omit [Stage σ] [Loader ℓ] in
theorem Brings.fetch {p : Player σ ℓ ς} {l : String} (h : p.Brings l) :
    ∃ corpus s m, p.corpus.fetch p.source l = (corpus, some s) ∧ s.labelIndex? l = some m := by
  have hfound (c : Corpus) {s : Scenario} (hs : c.scenario? l = some s) :
      ∃ m, s.labelIndex? l = some m :=
    Option.isSome_iff_exists.mp (by simpa using List.find?_some hs)
  have hsome (c : Corpus) (hc : ∃ s ∈ c.scenarios, (s.labelIndex? l).isSome) :
      ∃ s, c.scenario? l = some s :=
    Option.isSome_iff_exists.mp (List.find?_isSome.mpr hc)
  unfold Corpus.fetch
  cases hnow : p.corpus.scenario? l with
  | some s =>
    obtain ⟨m, hm⟩ := hfound _ hnow
    exact ⟨_, s, m, rfl, hm⟩
  | none =>
    rcases h with hknown | ⟨t, ht, hname, hl⟩
    · obtain ⟨s, hs⟩ := hsome _ hknown
      cases hnow.symm.trans hs
    · have hcompiled : Scenario.compile p.corpus.factory p.corpus.settings t ∈
          (p.corpus.compile t).1.scenarios := by
        unfold Corpus.compile
        rw [hname]
        exact List.mem_append_right _ (List.mem_singleton.mpr rfl)
      obtain ⟨s, hs⟩ := hsome _ ⟨_, hcompiled, hl⟩
      obtain ⟨m, hm⟩ := hfound _ hs
      dsimp only
      rw [ht]
      exact ⟨_, s, m, congrArg (Prod.mk _) hs, hm⟩

omit [Stage σ] [Loader ℓ] [TableSource ς] in
/-- A run is entered in the part of a scenario that begins with its label. -/
theorem entry_within {s : Scenario} {l : String} {m : Nat} (hm : s.labelIndex? l = some m)
    (page : Int) : (entry s l page).label = l ∧ m ≤ (entry s l page).index := by
  unfold entry
  split
  · rename_i j hj
    exact ⟨rfl, (Scenario.boundaries_of_seek hm hj).1⟩
  · rw [hm]
    exact ⟨rfl, Nat.le_refl m⟩

theorem Brings.arrives {p : Player σ ℓ ς} {l : String} {page : Int} (h : p.Brings l)
    (hstate : p.state = .loading l page) (hloaded : TableSource.isLoaded p.source l = true) :
    p.Arrives l page := by
  obtain ⟨corpus, s, m, hfetch, hm⟩ := h.fetch
  obtain ⟨hlabel, hindex⟩ := entry_within hm page
  obtain ⟨es, hes⟩ :=
    (play_moves (p := { p with corpus }.enterScenario s l page) rfl rfl).grows
  refine ⟨s, m, es, hm, ?_, hlabel, hindex, fun k c hmk hk hc => label?_before_entry hm hmk hk hc⟩
  rw [tick_of_fetched hstate hloaded hfetch, hes, enterScenario_eq, events_append rfl,
    List.append_assoc]
  rfl

theorem restarts_of_loading {p : Player σ ℓ ς} {l : String} {page : Int}
    (h : p.state = .loading l page) : Restarts p l page := by
  have hstate {q : Player σ ℓ ς} (hchanges : Relation.ReflTransGen Change p q) :
      q.state = .loading l page := by
    induction hchanges with
    | refl => exact h
    | tail _ hlast ih => exact hlast.state.trans ih
  exact ⟨h, fun q hq hloaded => tick_of_unloaded (hstate hq) hloaded,
    fun q hq hloaded hbrings => hbrings.arrives (hstate hq) hloaded⟩

/-! ## Departing -/

/-- A player leaves for a label: a jump is executed whose condition holds, the choice of an entry
    that leads to the label is picked, or a run returns to its saved place in the label. -/
inductive Departs (p : Player σ ℓ ς) : String → Player σ ℓ ς → Prop
  | jump {s : Scenario} {a : Active} {l : String} {condition? : Option Expression}
      (hp : p.Plays s a) (hphase : a.phase = .loading)
      (hload : p.isLoadComplete a.command = true) (haction : a.command.action = .jump l condition?)
      (hholds : (condition?.all fun c => c.holds p.board.params) = true) :
      Departs p l (p.advance a).1
  | pick {s : Scenario} {a : Active} {since i : Nat} {c : Command} {choice : Choice}
      (hp : p.Plays s a) (hphase : a.phase = .waiting since) (haction : a.command.action = .menu)
      (hentry : c ∈ s.commands) (hoffer : c.action = .choice choice)
      (hpick : (Stage.progress p.stage since).picked? = some i)
      (hchoice : p.board.choices[i]? = some choice) : Departs p choice.target (p.advance a).1
  | resume (hp : p.state = .running) : Departs p p.cursor.label (p.resume p.savePoint)

omit [Stage σ] in
theorem jump_asks (p : Player σ ℓ ς) (l : String) :
    (p.jump l).state = .loading (bareLabel l) 0 ∧ (p.jump l).corpus = p.corpus := by
  obtain ⟨history?, es, -, -, -, -, heq⟩ := p.notePageLeft_eq
  unfold Player.jump
  rw [begin_eq, heq]
  exact ⟨rfl, rfl⟩

omit [Stage σ] [Loader ℓ] [TableSource ς] in
/-- A choice that is picked leads to its target. -/
theorem await_picked {c : Command} {progress : Stage.Progress} {b : Command.Board} {i : Nat}
    {choice : Choice} (hc : c.action = .menu) (hpick : progress.picked? = some i)
    (hchoice : b.choices[i]? = some choice) : c.await progress b = (b.pick choice, true) := by
  have hsome : b.choices ≠ [] := by
    intro hnone
    rw [hnone] at hchoice
    cases hchoice
  simp only [Command.await, hc, Command.Board.awaitPick, if_neg hsome, hpick, hchoice]

omit [Stage σ] [Loader ℓ] [TableSource ς] in
theorem requests_pick {b : Command.Board} (hb : b.requests = []) (choice : Choice) :
    (b.pick choice).requests = [.jump choice.target] := by
  have heffect : ((choice.effect?.map b.assign).getD b).requests = [] := by
    cases choice.effect? <;> exact hb
  show ((choice.effect?.map b.assign).getD b).requests ++ [_] = _
  rw [heffect]
  rfl

/-- A departure asks for its label without blanks and a sign. -/
theorem Departs.asks {p q : Player σ ℓ ς} {l : String} (h : Departs p l q)
    (hrequests : p.board.requests = []) :
    (∃ page, q.state = .loading (bareLabel l) page) ∧ q.corpus = p.corpus := by
  cases h with
  | jump hp hphase hload haction hholds =>
    rename_i s a condition?
    have hasked : (p.execute a).1.board.requests = [.jump l] := by
      have hboard : (p.execute a).1.board = p.board.request (.jump l) := by
        rw [execute_eq]
        show a.command.action.change p.board = _
        rw [haction]
        exact if_pos hholds
      rw [hboard]
      show p.board.requests ++ [_] = _
      rw [hrequests]
      rfl
    have hcorpus : (p.execute a).1.settle.corpus = p.corpus := by
      rw [execute_eq]
      rfl
    have hadvance : (p.advance a).1 = (p.execute a).1.settle.jump l := by
      rcases advance_of_loaded hphase hload with ⟨r, status, hr, hadvance⟩ | ⟨r, hr, -⟩
      · rw [hasked] at hr
        rw [hadvance]
        exact (congrArg Prod.fst hr).symm
      · rw [hasked] at hr
        cases congrArg Prod.snd hr
    obtain ⟨hstate, hsame⟩ := (p.execute a).1.settle.jump_asks l
    rw [hadvance]
    exact ⟨⟨0, hstate⟩, hsame.trans hcorpus⟩
  | pick hp hphase haction hentry hoffer hpick hchoice =>
    rename_i s a since i c choice
    have hpicked := await_picked haction hpick hchoice
    have hasked : (p.completed a since).board.requests = [.jump choice.target] := by
      rw [completed, complete_eq]
      dsimp only
      rw [hpicked]
      exact requests_pick hrequests choice
    have hcorpus : (p.completed a since).settle.corpus = p.corpus := by
      rw [completed, complete_eq]
      rfl
    have hadvance : (p.advance a).1 = (p.completed a since).settle.jump choice.target := by
      have hdone : (a.command.await (Stage.progress p.stage since) p.board).2 = true := by
        rw [hpicked]
      have hawait := await_of_done hdone
      unfold Player.advance
      rw [hphase]
      dsimp only
      rw [hawait, hasked]
      rfl
    obtain ⟨hstate, hsame⟩ := (p.completed a since).settle.jump_asks choice.target
    rw [hadvance]
    exact ⟨⟨0, hstate⟩, hsame.trans hcorpus⟩
  | resume hp =>
    unfold Player.resume Player.start
    rw [begin_eq]
    exact ⟨⟨_, rfl⟩, rfl⟩

/-! ## Labels from definition to target -/

/-- The scenario that is played was compiled from a table. Its labels are those that the rows of
    the table are named with, the targets of its jumps and choices stand behind the sign in their
    rows, the command that has its turn and the label that the run is in are of this scenario, and
    the choices of the menu are those of its entries or what a command of a game's own adds. -/
structure Scripted (p : Player σ ℓ ς) (s : Scenario) (f : Factory) (settings : Settings)
    (t : CellTable) : Prop where
  compiled : s = Scenario.compile f settings t
  known : s ∈ p.corpus.scenarios
  labels : f.SparesLabels → ∀ l, (s.labelIndex? l).isSome ↔
    ∃ r ∈ t.dataRows, labelIn? r .command = some l
  targets : ∀ c ∈ s.commands, ∀ l, c.action.named? = some (.arg1, l) →
    ∃ r ∈ t.dataRows, f.read settings r = .ok (some c) ∧ labelIn? r .arg1 = some l
  active : ∀ a, p.active? = some a → a.command ∈ s.commands
  choices : ∀ choice ∈ p.board.choices, ∃ c ∈ s.commands, Offers c choice
  here : (s.labelIndex? p.cursor.label).isSome

omit [Stage σ] [Loader ℓ] [TableSource ς] in
theorem Stocked.scripted {p : Player σ ℓ ς} (hp : Stocked p) (hstate : p.state = .running) :
    ∃ s f settings t, p.scenario? = some s ∧ Scripted p s f settings t := by
  obtain ⟨r, m, ht⟩ := hp.tracks hstate
  obtain ⟨f, settings, t, hs⟩ := ht.compiled
  refine ⟨r.scenario, f, settings, t, ht.scenario, hs, hp.known _ ht.scenario, fun hf l => ?_,
    fun c hc l hl => ?_, fun a ha => ?_, fun choice hchoice => ?_, ?_⟩
  · rw [hs]
    exact Scenario.labelIndex?_isSome_iff hf settings
  · rw [hs] at hc
    exact Scenario.row_of_named hc hl
  · exact List.mem_of_getElem? (ht.active a ha).2
  · obtain ⟨s, c, hs', hc, hoffers⟩ := hp.choices choice hchoice
    obtain rfl := Option.some.inj (ht.scenario.symm.trans hs')
    exact ⟨c, hc, hoffers⟩
  · obtain ⟨c, hc, hl⟩ := ht.page.label
    rw [ht.compiled.labelIndex?, List.findIdx?_isSome]
    exact List.any_eq_true.mpr ⟨c, List.mem_of_getElem? hc, by simpa using hl⟩

/-- A departure is for a label that stood in a cell. -/
theorem Departs.isLabel {p q : Player σ ℓ ς} {l : String} (h : Departs p l q) (hp : Stocked p) :
    IsLabel l := by
  have hnamed {s : Scenario} {f : Factory} {settings : Settings} {t : CellTable}
      (hs : Scripted p s f settings t) {c : Command} (hc : c ∈ s.commands) {l : String}
      (hl : c.action.named? = some (.arg1, l)) : IsLabel l := by
    obtain ⟨r, -, -, hlabel⟩ := hs.targets c hc l hl
    exact Command.labelIn?_isLabel hlabel
  cases h with
  | jump hplays hphase hload haction hholds =>
    obtain ⟨s, f, settings, t, -, hs⟩ := hp.scripted hplays.state
    exact hnamed hs (hs.active _ hplays.active) (by rw [haction]; rfl)
  | pick hplays hphase haction hentry hoffer hpick hchoice =>
    obtain ⟨s, f, settings, t, hscenario, hs⟩ := hp.scripted hplays.state
    obtain rfl := Option.some.inj (hplays.scenario.symm.trans hscenario)
    exact hnamed hs hentry (by rw [hoffer]; rfl)
  | resume hstate =>
    obtain ⟨r, m, ht⟩ := hp.tracks hstate
    obtain ⟨c, hc, hl⟩ := ht.page.label
    exact ht.compiled.isLabel hc hl

/-- Labels lead back to where they are defined if they are plain. Wherever a run is, its labels,
    jumps and choices are those of the rows of a table, read without the sign. Where it leaves for
    a label, a run is asked for under the label without blanks and another sign before it. So the
    run goes on at the label, as soon as its table is there and has the label, if and only if the
    label begins with neither; else it is asked for under another label. -/
theorem labels_lead_back (stage : σ) (loader : ℓ) (source : ς) (factory : Factory)
    (settings : Settings) (cap : Nat) (params : Expression.Params) (galleryLabels : List String)
    (history? : Option History.ReadHistory) (inputs : List (Input σ ℓ ς)) :
    let p := (ready stage loader source (.ofSettings factory settings) cap params galleryLabels
      history?).afterAll inputs
    ∀ q, Moves p q →
      (q.state = .running → ∃ s f settings t, q.scenario? = some s ∧ Scripted q s f settings t) ∧
      ∀ l r, Departs q l r → (∃ page, r.state = .loading (bareLabel l) page) ∧
        ((∃ s ∈ q.corpus.scenarios, (s.labelIndex? l).isSome) →
          ∀ r', Relation.ReflTransGen Change r r' → r'.Brings l) ∧
        ((∃ page, Restarts r l page) ↔ IsPlain l) := by
  intro p q hmoves
  have hp : Stocked p ∧ p.board.requests = [] := by
    refine afterAll_preserve (P := fun q => Stocked q ∧ q.board.requests = []) ?_ ?_ ?_ inputs
    · rintro q r h ⟨hq, hrequests⟩
      exact ⟨hq.move h, requests_move h hrequests⟩
    · rintro q r h ⟨hq, hrequests⟩
      exact ⟨hq.change h, requests_change h hrequests⟩
    · exact ⟨stocked_ready stage loader source factory settings cap params galleryLabels history?,
        rfl⟩
  have hq : Stocked q ∧ q.board.requests = [] :=
    hmoves.preserve (P := fun q => Stocked q ∧ q.board.requests = [])
      (fun h hq => ⟨hq.1.move h, requests_move h hq.2⟩) hp
  refine ⟨hq.1.scripted, fun l r hdeparts => ?_⟩
  obtain ⟨⟨page, hasked⟩, hcorpus⟩ := hdeparts.asks hq.2
  have hplainly := bareLabel_eq_self_iff (hdeparts.isLabel hq.1)
  refine ⟨⟨page, hasked⟩, fun hknown r' hchanges => Brings.changes (hcorpus ▸ hknown) hchanges,
    fun ⟨page', hrestarts⟩ => ?_, fun hplain => ⟨page, restarts_of_loading ?_⟩⟩
  · obtain ⟨hsame, -⟩ := State.loading.inj (hasked.symm.trans hrestarts.asked)
    exact hplainly.mp hsame
  · rw [hasked, hplainly.mpr hplain]

/-- A label that begins with the sign once more, with a pause. -/
def starredLabel : CellTable :=
  .ofRows "t" [["Command", "Arg6"], ["**a"], ["Wait", "1"]]

omit [Stage σ] [Loader ℓ] [TableSource ς] in
theorem starred_label_is_lost :
    let p := (reader starredLabel).afterAll [.start "**a" 0 none, .tick]
    p.cursor.label = "*a" ∧ (p.resume p.savePoint).state = .loading "a" 0 ∧
      ¬∃ page, Restarts (p.resume p.savePoint) "*a" page := by
  intro p
  have hlabel : p.cursor.label = "*a" := by decide +kernel
  obtain ⟨-, hdeparts⟩ := labels_lead_back (Console.ofPicks []) (FileLoader.ofRoot ⟨[], []⟩ "")
    (Library.empty.insert starredLabel true) .standard .standard 4 ∅ [] (some .empty)
    [.start "**a" 0 none, .tick] p .refl
  obtain ⟨-, -, hrestarts⟩ := hdeparts _ _ (.resume (by decide +kernel))
  rw [hlabel] at hrestarts
  refine ⟨hlabel, by decide +kernel, fun h => ?_⟩
  obtain ⟨-, hsign⟩ := hrestarts.mp h '*' (by decide)
  exact hsign rfl

end VisualNovel.Player
