import VisualNovel.Asset.FileLoader
import VisualNovel.Proofs.Player.Strides
import VisualNovel.Proofs.Scenario.Filling
import VisualNovel.Proofs.Scenario.Indexing

/-
  Players of a library. While nothing but tables with names of their own is put into its library and
  its corpus, all that is compiled stays compiled from them (`Supplied`), since a tick compiles no
  table but that of the label it waits for. So a run waits while the table that its label belongs to
  is not ready, is entered when it is, and ends without having been entered only if no table has the
  label.
-/

namespace VisualNovel.Player

open Asset (FileLoader Loader)
open Command (Factory LeavesLabels Settings)
open Scenario
open Table (CellTable)

variable {σ ℓ ς : Type} [Stage σ] [Loader ℓ]

/-! ## What playing leaves alone -/

section

variable [TableSource ς]

/-- The corpus is the same, and the source was asked for labels at most. -/
structure Rests (p q : Player σ ℓ ς) : Prop where
  corpus : q.corpus = p.corpus
  source : Relation.ReflTransGen (fun a b => ∃ label, b = TableSource.request a label)
    p.source q.source

omit [Stage σ] [Loader ℓ] in
theorem Rests.of_eq {p q : Player σ ℓ ς} (hcorpus : q.corpus = p.corpus)
    (hsource : q.source = p.source) : Rests p q :=
  ⟨hcorpus, hsource ▸ .refl⟩

omit [Stage σ] [Loader ℓ] in
theorem Rests.trans {p q r : Player σ ℓ ς} (hpq : Rests p q) (hqr : Rests q r) : Rests p r :=
  ⟨hqr.corpus.trans hpq.corpus, hpq.source.trans hqr.source⟩

omit [Stage σ] in
theorem rests_begin (p : Player σ ℓ ς) (label : String) (page : Int) (gallery? : Option String) :
    Rests p (p.begin label page gallery?) := by
  rw [begin_eq]
  exact ⟨rfl, .single ⟨label, rfl⟩⟩

theorem rests_finish (p : Player σ ℓ ς) (reason : Stage.EndReason) :
    Rests p (p.finish reason) := by
  rw [finish_eq]
  exact .of_eq rfl rfl

theorem rests_finishIfUnderWay (p : Player σ ℓ ς) (reason : Stage.EndReason) :
    Rests p (p.finishIfUnderWay reason) := by
  unfold finishIfUnderWay
  split
  · exact p.rests_finish reason
  · exact .of_eq rfl rfl

omit [Stage σ] in
theorem rests_jump (p : Player σ ℓ ς) (label : String) : Rests p (p.jump label) := by
  have hleft : Rests p p.notePageLeft := by
    obtain ⟨history?, es, -, -, -, -, heq⟩ := p.notePageLeft_eq
    rw [heq]
    exact .of_eq rfl rfl
  exact hleft.trans (rests_begin _ _ _ _)

omit [Stage σ] [Loader ℓ] in
theorem rests_endGalleryScene (p : Player σ ℓ ς) : Rests p p.endGalleryScene := by
  obtain ⟨history?, es, -, -, -, -, heq⟩ := p.endGalleryScene_eq
  rw [heq]
  exact .of_eq rfl rfl

theorem rests_handle {requests : List Command.Request} {p r : Player σ ℓ ς}
    {status : Option Status} (hr : handle requests p = (r, status)) : Rests p r := by
  induction requests generalizing p with
  | nil =>
    obtain ⟨rfl, -⟩ := Prod.mk.inj hr
    exact .of_eq rfl rfl
  | cons request rest ih =>
    cases request with
    | endSceneGallery => exact p.rests_endGalleryScene.trans (ih hr)
    | jump label =>
      obtain ⟨rfl, -⟩ := Prod.mk.inj hr
      exact p.rests_jump label
    | endScenario =>
      obtain ⟨rfl, -⟩ := Prod.mk.inj hr
      exact p.rests_finish .completed
    | stop | erase =>
      obtain ⟨rfl, -⟩ := Prod.mk.inj hr
      exact p.rests_finishIfUnderWay _

theorem rests_execute (p : Player σ ℓ ς) (a : Active) : Rests p (p.execute a).1.settle := by
  rw [execute_eq]
  exact .of_eq rfl rfl

theorem rests_completed (p : Player σ ℓ ς) (a : Active) (since : Nat) :
    Rests p (p.completed a since).settle := by
  rw [completed, complete_eq]
  exact .of_eq rfl rfl

theorem Beat.rests {V : Player σ ℓ ς → Prop} {p q : Player σ ℓ ς} (h : Beat V p q) :
    Rests p q := by
  cases h with
  | skip =>
    rw [skip_eq]
    exact .of_eq rfl rfl
  | activate =>
    rw [activate_eq]
    exact .of_eq rfl rfl
  | execute hp hphase hload hr => exact (p.rests_execute _).trans (rests_handle hr)
  | leave hp hphase hdone hr => exact (p.rests_completed _ _).trans (rests_handle hr)

theorem Close.rests {p q : Player σ ℓ ς} (h : Close p q) : Rests p q := by
  cases h with
  | execute hp hphase hload hr => exact (p.rests_execute _).trans (rests_handle hr)
  | leave hp hphase hdone hr => exact (p.rests_completed _ _).trans (rests_handle hr)
  | finish => exact p.rests_finish .completed

theorem Beats.rests {V : Player σ ℓ ς → Prop} {p q : Player σ ℓ ς} (h : Beats V p q) :
    Rests p q := by
  induction h with
  | refl => exact .of_eq rfl rfl
  | tail _ hlast ih => exact ih.trans hlast.rests

theorem rests_play {p : Player σ ℓ ς} {s : Scenario} (hstate : p.state = .running)
    (hs : p.scenario? = some s) : Rests p (p.play s).1 := by
  have hends := play_ends (V := fun _ => True) (fun _ _ => trivial) hstate hs
  cases hends with
  | waits hbeats => exact Beats.rests hbeats
  | closed hbeats hclose => exact (Beats.rests hbeats).trans hclose.rests

/-- A tick that enters a run compiles what it fetches for the label. -/
theorem tick_rests_of_loaded {p : Player σ ℓ ς} {label : String} {page : Int}
    (hstate : p.state = .loading label page)
    (hloaded : TableSource.isLoaded p.source label = true) :
    Rests { p with corpus := (p.corpus.fetch p.source label).1 } p.tick.1 := by
  rcases hfetch : p.corpus.fetch p.source label with ⟨corpus, scenario?⟩
  cases scenario? with
  | none =>
    rw [tick_of_missing hstate hloaded hfetch]
    exact rests_finish { p with corpus } .completed
  | some s =>
    rw [tick_of_fetched hstate hloaded hfetch]
    have hentered : Rests { p with corpus } ({ p with corpus }.enterScenario s label page) := by
      rw [enterScenario_eq]
      exact .of_eq rfl rfl
    refine hentered.trans (rests_play ?_ ?_) <;> rw [enterScenario_eq]

/-- Any other tick compiles nothing. -/
theorem tick_rests {p : Player σ ℓ ς} (h : ∀ label page, p.state = .loading label page →
    TableSource.isLoaded p.source label = false) : Rests p p.tick.1 := by
  unfold tick
  split
  · rename_i label page hstate
    rw [if_neg (by simp [h label page hstate])]
    exact .of_eq rfl rfl
  · rename_i hstate
    split
    · exact p.rests_finish .completed
    · rename_i s hs
      exact rests_play hstate hs
  · exact .of_eq rfl rfl

end

/-! ## Players of a library -/

/-- What a player plays is taken from these tables, now and later. -/
structure Supplied (ts : List CellTable) (p : Player σ ℓ Library) : Prop where
  corpus : Filled ts p.corpus
  source : ∃ us, us ⊆ ts ∧ Shelved us p.source

/-- Whether an input brings no other tables than these, and no command that touches labels. -/
def Input.Brings (ts : List CellTable) : Input σ ℓ Library → Prop
  | .source l => ∃ us, us ⊆ ts ∧ Shelved us l
  | .compile t => t ∈ ts
  | .register tag reader => LeavesLabels tag reader
  | _ => True

variable {ts us : List CellTable} {p q : Player σ ℓ Library} {label : String} {page : Int}

/-- A library that was asked for labels has the tables that it had. -/
theorem shelved_of_asked {l m : Library}
    (h : Relation.ReflTransGen (fun a b => ∃ label, b = TableSource.request a label) l m)
    (hl : Shelved us l) : Shelved us m := by
  induction h with
  | refl => exact hl
  | tail _ hlast ih =>
    obtain ⟨label, rfl⟩ := hlast
    exact .request label ih

omit [Stage σ] [Loader ℓ] in
theorem Supplied.rests (hp : Supplied ts p) (h : Rests p q) : Supplied ts q := by
  obtain ⟨us, hus, hshelved⟩ := hp.source
  exact ⟨h.corpus ▸ hp.corpus, us, hus, shelved_of_asked h.source hshelved⟩

theorem Supplied.tick (hnames : (ts.map CellTable.name).Nodup) (hp : Supplied ts p) :
    Supplied ts p.tick.1 := by
  by_cases hloads : ∃ label page, p.state = .loading label page ∧ p.source.isLoaded label = true
  · obtain ⟨label, page, hstate, hloaded⟩ := hloads
    obtain ⟨us, hus, hshelved⟩ := hp.source
    obtain ⟨hfilled, -⟩ := hp.corpus.fetch hnames hus hshelved.holds hloaded
    have hfetched : Supplied ts { p with corpus := (p.corpus.fetch p.source label).1 } :=
      ⟨hfilled, hp.source⟩
    exact hfetched.rests (tick_rests_of_loaded hstate hloaded)
  · refine hp.rests (tick_rests fun label page hstate => ?_)
    exact Bool.eq_false_iff.mpr fun hloaded => hloads ⟨label, page, hstate, hloaded⟩

theorem Supplied.after (hnames : (ts.map CellTable.name).Nodup) (hp : Supplied ts p)
    {i : Input σ ℓ Library} (hi : i.Brings ts) : Supplied ts (p.after i) := by
  cases i with
  | start label page gallery? => exact hp.rests (rests_begin _ _ _ _)
  | resume point => exact hp.rests (rests_begin _ _ _ _)
  | jump label => exact hp.rests (p.rests_jump label)
  | stop => exact hp.rests (p.rests_finishIfUnderWay .stopped)
  | erase => exact hp.rests (p.rests_finishIfUnderWay .erased)
  | tick => exact hp.tick hnames
  | stage | loader | params => exact ⟨hp.corpus, hp.source⟩
  | source l => exact ⟨hp.corpus, hi⟩
  | compile t => exact ⟨hp.corpus.compile hi, hp.source⟩
  | register tag reader => exact ⟨hp.corpus.register hi, hp.source⟩
  | settings settings => exact ⟨⟨hp.corpus.spares, hp.corpus.scenarios⟩, hp.source⟩

theorem Supplied.afterAll (hnames : (ts.map CellTable.name).Nodup) (hp : Supplied ts p)
    {inputs : List (Input σ ℓ Library)} (hinputs : ∀ i ∈ inputs, i.Brings ts) :
    Supplied ts (p.afterAll inputs) := by
  induction inputs generalizing p with
  | nil => exact hp
  | cons i inputs ih =>
    obtain ⟨hi, hrest⟩ := List.forall_mem_cons.mp hinputs
    exact ih (hp.after hnames hi) hrest

/-- Whether an input leaves a run waiting for a label: it is no call but a tick, and puts no library
    in place in which the table of the label is ready. -/
def Input.Waits (label : String) : Input σ ℓ Library → Prop
  | .source l => ∃ us, Shelved us l ∧ Unready us l label
  | .start .. | .resume _ | .jump _ | .stop | .erase => False
  | _ => True

/-- A run waits as long as the table of its label is not ready. -/
theorem afterAll_waits (hstate : p.state = .loading label page)
    (hloaded : p.source.isLoaded label = false) {later : List (Input σ ℓ Library)}
    (hlater : ∀ i ∈ later, i.Waits label) :
    (p.afterAll later).state = .loading label page ∧ (p.afterAll later).events = p.events := by
  induction later generalizing p with
  | nil => exact ⟨hstate, rfl⟩
  | cons i later ih =>
    obtain ⟨hi, hrest⟩ := List.forall_mem_cons.mp hlater
    rw [afterAll_cons]
    cases i with
    | start | resume | jump | stop | erase => cases hi
    | tick =>
      have htick : p.after .tick = p := congrArg Prod.fst (tick_of_unloaded hstate hloaded)
      rw [htick]
      exact ih hstate hloaded hrest
    | source l =>
      obtain ⟨us, hshelved, hunready⟩ := hi
      exact ih (p := { p with source := l }) hstate
        (hshelved.holds.isLoaded_eq_false.mpr hunready) hrest
    | stage stage => exact ih (p := { p with stage }) hstate hloaded hrest
    | loader loader =>
      exact ih (p := { p with ledger := { p.ledger with loader } }) hstate hloaded hrest
    | params params =>
      exact ih (p := { p with board := { p.board with params } }) hstate hloaded hrest
    | compile t =>
      exact ih (p := { p with corpus := (p.corpus.compile t).1 }) hstate hloaded hrest
    | register tag reader =>
      exact ih (p := { p with corpus := p.corpus.register tag reader }) hstate hloaded hrest
    | settings settings =>
      exact ih (p := { p with corpus := { p.corpus with settings } }) hstate hloaded hrest

/-- What becomes of a run that waits for a label. -/
structure Answered (ts us : List CellTable) (label : String) (page : Int)
    (p : Player σ ℓ Library) : Prop where
  /-- The run waits while the table that the label belongs to is not ready. -/
  pauses : Unready us p.source label → p.tick = (p, .suspended .labelLoad)
  waits : Unready us p.source label → ∀ later, (∀ i ∈ later, i.Waits label) →
    (p.afterAll later).state = .loading label page ∧ (p.afterAll later).events = p.events
  /-- When no table is waited for, the run is entered if some table has the label. -/
  enters : ¬Unready us p.source label →
    ((p.corpus.scenario? label).isSome ∨ ∃ t ∈ us, label ∈ definedLabels t) →
    ∃ corpus s, Filled ts corpus ∧ s ∈ corpus.scenarios ∧ (s.labelIndex? label).isSome ∧
      p.tick = ({ p with corpus }.enterScenario s label page).play s
  /-- Otherwise it ends. -/
  ends : ¬Unready us p.source label → (p.corpus.scenario? label).isNone →
    (∀ t ∈ us, label ∉ definedLabels t) →
    ∃ corpus, p.tick = ({ p with corpus }.finish .completed, .halted)

theorem Supplied.answered (hnames : (ts.map CellTable.name).Nodup) (hp : Supplied ts p)
    (hus : us ⊆ ts) (hshelved : Shelved us p.source) (hstate : p.state = .loading label page) :
    Answered ts us label page p := by
  have hunready : p.source.isLoaded label = false ↔ Unready us p.source label :=
    hshelved.holds.isLoaded_eq_false
  have hloaded (h : ¬Unready us p.source label) : p.source.isLoaded label = true :=
    eq_true_of_ne_false (hunready.not.mpr h)
  refine ⟨fun h => tick_of_unloaded hstate (hunready.mpr h),
    fun h later hlater => afterAll_waits hstate (hunready.mpr h) hlater, fun h hknown => ?_,
    fun h hcorpus hnone => ?_⟩
  · obtain ⟨hfilled, hsame, hsome⟩ :=
      hp.corpus.fetch hnames hus hshelved.holds (hloaded h)
    obtain ⟨s, hs⟩ := Option.isSome_iff_exists.mp (hsome.mpr hknown)
    have hfound := hsame.symm.trans hs
    exact ⟨_, s, hfilled, List.mem_of_find?_eq_some hfound, by simpa using List.find?_some hfound,
      tick_of_fetched hstate (hloaded h) (Prod.ext rfl hs)⟩
  · obtain ⟨-, -, hsome⟩ := hp.corpus.fetch hnames hus hshelved.holds (hloaded h)
    have hmissing : (p.corpus.fetch p.source label).2 = none := by
      rw [← Option.not_isSome_iff_eq_none, hsome]
      rintro (hknown | ⟨t, ht, hlabel⟩)
      · rw [Option.isNone_iff_eq_none.mp hcorpus] at hknown
        cases hknown
      · exact hnone t ht hlabel
    exact ⟨_, tick_of_missing hstate (hloaded h) (Prod.ext rfl hmissing)⟩

omit [Stage σ] [Loader ℓ]

/-- A library whose first table is not ready. -/
def lateLibrary : Library := (Library.empty.insert tableOne false).insert tableTwo true

theorem shelved_lateLibrary : Shelved [tableOne, tableTwo] lateLibrary :=
  .insert tableTwo true (.insert tableOne false .empty (by decide)) (by decide)

/-- A player with this library. -/
def lateReader : Player Still FileLoader Library :=
  ready ⟨true, none⟩ (.ofRoot ⟨[], []⟩ "") lateLibrary (.ofSettings .standard .standard) 0 ∅ [] none

theorem supplied_lateReader : Supplied [tableOne, tableTwo] lateReader :=
  ⟨filled_ofSettings _ sparesLabels_standard .standard, _, List.Subset.refl _, shelved_lateLibrary⟩

end VisualNovel.Player
