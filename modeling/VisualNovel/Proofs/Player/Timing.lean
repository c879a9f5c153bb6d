import VisualNovel.Proofs.Asset.Settling
import VisualNovel.Proofs.Player.Accounting
import VisualNovel.Proofs.Player.Pacing
import VisualNovel.Proofs.Scenario.Supply

/-
  Timing. What a run tells does not depend on how long it is kept waiting. A player that plays on
  makes some strides of the player that is never kept waiting, and stays in step with it
  (`run_strides`). The point is that a command finds its assets as they will always be, whatever
  was loaded ahead of it (`Equipped.usable`). All runs from one beginning are in step with the same
  strides, so that of two of them one is at most ahead of the other (`story_is_untimed`).
-/

namespace VisualNovel.Player

open Asset (Directories FileLoader Handle Ledger Loader Owner Settles Spares)
open Scenario (Corpus Library Supplies TableSource)
open Table (CellTable)

variable {σ ℓ ς : Type}

/-! ## What a player plays with -/

/-- A player with a loader of `L` and a source of `S`, whose accounts are right. -/
structure Equipped (L : ℓ → Prop) (S : ς → Prop) (cap : Nat) (p : Player σ ℓ ς) : Prop
    extends Accounts cap p where
  loader : L p.ledger.loader
  source : S p.source

variable [Stage σ] [Loader ℓ] [TableSource ς]
variable {verdict : Handle → Bool} {tables : String → Option CellTable}
variable {L : ℓ → Prop} {S : ς → Prop} {cap : Nat}

theorem Equipped.move (hL : Settles verdict L) (hS : Supplies tables S) {p q : Player σ ℓ ς}
    (h : Move p q) (hp : Equipped L S cap p) : Equipped L S cap q := by
  obtain ⟨es, -, htold, -⟩ := move_events h hp.toAccounts
  refine { hp.toAccounts.move h with
    loader := ?_
    source := ?_ }
  · rw [htold]
    exact hL.calls hp.loader _
  · rcases h.source with heq | ⟨label, heq⟩
    · rw [heq]
      exact hp.source
    · rw [heq]
      exact hS.request hp.source

theorem Equipped.start (hL : Settles verdict L) (hS : Supplies tables S) {p : Player σ ℓ ς}
    (hp : Equipped L S cap p) (label : String) (page : Int) (gallery? : Option String) :
    Equipped L S cap (p.start label page gallery?) :=
  hp.move hL hS (.begin p _ _ _)

/-- The window makes no call for an asset that a command uses. -/
theorem PreloadWindow.spares_update (w : PreloadWindow) (upcoming : List Handle) {l : Ledger ℓ}
    (hl : l.Sound) {h : Handle} {i : Nat} (hused : 0 < l.ownerCount h (.command i)) :
    Spares h (w.update upcoming l).2.2 := by
  have hother : Owner.command i ≠ .preload := fun heq => nomatch heq
  refine Asset.spares_append.mpr ⟨Ledger.spares_releases hl hused hother _,
    Ledger.spares_addUses (o := .command i) (hl.releases _ _) ?_ _⟩
  rw [Ledger.ownerCount_releases hl, if_neg hother]
  exact hused

omit [Stage σ] [TableSource ς] in
/-- The assets of a command that is executed are as the verdicts say. The command uses them, so
    they were not given up while the window of assets was moved. -/
theorem Equipped.usable (hL : Settles verdict L) {p : Player σ ℓ ς} {s : Scenario} {a : Active}
    (hp : Equipped L S cap p) (hplays : p.Plays s a) (hload : p.isLoadComplete a.command = true)
    {h : Handle} (hmem : h ∈ a.command.resources) :
    ((p.moved a.index).2.1.state h).isLoaded = verdict h := by
  have hused : 0 < p.ledger.ownerCount h (.command a.index) := by
    rw [hp.owed, due, hplays.active]
    dsimp only
    rw [if_pos rfl]
    exact List.count_pos_iff.mpr hmem
  have htold := p.window.told_update (p.upcoming a.index) p.ledger
  have hspares := p.window.spares_update (p.upcoming a.index) hp.sound hused
  have hdone : (p.ledger.state h).isComplete = true := List.all_eq_true.mp hload h hmem
  have hcomplete := hL.complete_calls hp.loader hspares hdone
  rw [← htold] at hcomplete
  have hkept : L (p.moved a.index).2.1.loader := by
    unfold moved
    rw [htold]
    exact hL.calls hp.loader _
  exact hL.verdict hkept hcomplete

/-! ## Runs -/

/-- The verdicts guide players: with a command they give the cues and notes that are given when
    its assets are there at once. -/
theorem guided_of_settles (hL : Settles verdict L) (hS : Supplies tables S) :
    Guided SameOutward (Equipped (σ := σ) L S cap) L S verdict tables where
  move := Equipped.move hL hS
  stage stage hp := { hp.toAccounts.change (.stage _ stage) with
    loader := hp.loader, source := hp.source }
  loader hloader hp := { hp.toAccounts.change (.loader _ _) with
    loader := hloader, source := hp.source }
  source hsource hp := { hp.toAccounts.change (.source _ _) with
    loader := hp.loader, source := hsource }
  table hp hloaded := hS.table hp.source hloaded
  executed {p q s a} hp hplays _ hload hpq := by
    refine InStep.executed hpq fun k hk => ?_
    rw [hp.usable hL hplays hload hk]
    change _ = Asset.LoadState.isLoaded (if verdict k then .loaded else .failed "")
    cases verdict k <;> rfl

variable {picks : Nat → Nat} {p r : Player σ ℓ ς} {q : Prompt verdict tables}

/-- Every run is in step with strides of the one that is never kept waiting. -/
theorem run_strides (hL : Settles verdict L) (hS : Supplies tables S) (stage : σ) {loader : ℓ}
    (hloader : L loader) {source : ς} (hsource : S source) (cap : Nat) (corpus : Corpus)
    (params : Expression.Params) (galleryLabels : List String)
    (history? : Option History.ReadHistory) (label : String) (page : Int)
    (gallery? : Option String) {inputs : List (Input σ ℓ ς)}
    (hinputs : ∀ i ∈ inputs, Passing L S i)
    (hheeds : Heeds picks (((ready stage loader source corpus cap params galleryLabels
      history?).start label page gallery?).afterAll inputs).events) :
    Strides SameOutward picks
      (promptStart corpus params galleryLabels history? label page gallery? :
        Prompt verdict tables)
      (((ready stage loader source corpus cap params galleryLabels history?).start label page
        gallery?).afterAll inputs) := by
  have hready : Equipped L S cap
      (ready stage loader source corpus cap params galleryLabels history?) :=
    { accounts_ready stage loader source corpus cap params galleryLabels history? with
      loader := hloader, source := hsource }
  have hbegun : InStep (ready stage loader source corpus cap params galleryLabels history?)
      (ready (⟨true, none⟩ : Still) (.there : AtOnce verdict) (.there : AtHand tables) corpus 0
        params galleryLabels history?) :=
    ⟨rfl, rfl, rfl, rfl, rfl, rfl, rfl, rfl, rfl, rfl, rfl⟩
  exact afterAll_strides (guided_of_settles hL hS) (hready.start hL hS label page gallery?) hinputs
    hheeds ⟨0, hbegun.start label page gallery?⟩

/-! ## Two runs -/

variable {σ' ℓ' ς' : Type}

omit [Stage σ] [Loader ℓ] [TableSource ς] in
/-- A run that made fewer strides told less. -/
theorem outward_of_le {r : Player σ' ℓ' ς'} {n m : Nat} (hnm : n ≤ m)
    (hp : InStep p ((stride picks)^[n] q)) (hr : InStep r ((stride picks)^[m] q)) :
    outwardOf p.events <+: outwardOf r.events := by
  obtain ⟨es, hes⟩ := strides_grow picks ((stride picks)^[n] q) (m - n)
  rw [← Function.iterate_add_apply, Nat.sub_add_cancel hnm] at hes
  refine ⟨outwardOf es, ?_⟩
  rw [hr.outward, hes, outwardOf_append, hp.outward]

omit [Stage σ] [Loader ℓ] [TableSource ς] in
/-- Behind the end of a run there are no strides. -/
theorem inStep_of_ended {r : Player σ' ℓ' ς'} {n m : Nat} (hnm : n ≤ m)
    (hp : InStep p ((stride picks)^[n] q)) (hr : InStep r ((stride picks)^[m] q))
    (hended : p.state.isEnded = true) : InStep p r := by
  have hstill : (stride picks)^[m] q = (stride picks)^[n] q := by
    rw [← Nat.sub_add_cancel hnm, Function.iterate_add_apply]
    exact strides_of_ended (hp.state ▸ hended) _
  rw [hstill] at hr
  exact hp.trans hr.symm

variable [Stage σ'] [Loader ℓ'] [TableSource ς'] {L' : ℓ' → Prop} {S' : ς' → Prop}

/-- Timing does not change the story. Two runs begin alike, each with a stage, a loader, a source
    and a cap of its own, and time goes by for each in its own way; but the verdict on each asset
    is the same, the table of each label is the same, and the same is picked of the n-th menu.
    Then the cues and notes of one run are the first of the other's; and if both come to their
    end, these are the same, and so are the parameters, the state and the cursor. -/
theorem story_is_untimed (hL : Settles verdict L) (hS : Supplies tables S)
    (hL' : Settles verdict L') (hS' : Supplies tables S')
    (stage : σ) {loader : ℓ} (hloader : L loader) {source : ς} (hsource : S source) (cap : Nat)
    {inputs : List (Input σ ℓ ς)} (hinputs : ∀ i ∈ inputs, Passing L S i)
    (stage' : σ') {loader' : ℓ'} (hloader' : L' loader') {source' : ς'} (hsource' : S' source')
    (cap' : Nat) {inputs' : List (Input σ' ℓ' ς')} (hinputs' : ∀ i ∈ inputs', Passing L' S' i)
    (corpus : Corpus) (params : Expression.Params) (galleryLabels : List String)
    (history? : Option History.ReadHistory) (label : String) (page : Int)
    (gallery? : Option String) :
    let run := ((ready stage loader source corpus cap params galleryLabels history?).start label
      page gallery?).afterAll inputs
    let run' := ((ready stage' loader' source' corpus cap' params galleryLabels history?).start
      label page gallery?).afterAll inputs'
    SamePicks run.events run'.events →
    (outwardOf run.events <+: outwardOf run'.events ∨
      outwardOf run'.events <+: outwardOf run.events) ∧
    (run.state.isEnded = true → run'.state.isEnded = true →
      outwardOf run.events = outwardOf run'.events ∧ run.board.params = run'.board.params ∧
        run.state = run'.state ∧ run.cursor = run'.cursor) := by
  intro run run' hpicks
  obtain ⟨picks, hheeds, hheeds'⟩ := hpicks.exists_heeds
  obtain ⟨n, hn⟩ := run_strides hL hS stage hloader hsource cap corpus params galleryLabels
    history? label page gallery? hinputs hheeds
  obtain ⟨m, hm⟩ := run_strides hL' hS' stage' hloader' hsource' cap' corpus params
    galleryLabels history? label page gallery? hinputs' hheeds'
  rcases Nat.le_total n m with hle | hle
  · refine ⟨Or.inl (outward_of_le hle hn hm), fun hended _ => ?_⟩
    have hsame : InStep run run' := inStep_of_ended hle hn hm hended
    exact ⟨hsame.outward, congrArg Command.Board.params hsame.board, hsame.state, hsame.cursor⟩
  · refine ⟨Or.inr (outward_of_le hle hm hn), fun _ hended' => ?_⟩
    have hsame : InStep run run' := (inStep_of_ended hle hm hn hended').symm
    exact ⟨hsame.outward, congrArg Command.Board.params hsame.board, hsame.state, hsame.cursor⟩

/-! ## A quick run and a slow one -/

omit [Stage σ] [Loader ℓ] [TableSource ς] [Stage σ'] [Loader ℓ'] [TableSource ς']

/-- A label with a line, a picture and a menu of two ways. -/
def forked : CellTable :=
  .ofRows "t" [["Command", "Arg1", "Text"], ["*a"], ["", "", "which way?"], ["Bg", "hill"],
    ["Selection", "*b", "up"], ["Selection", "*c", "down"], ["*b"], ["", "", "higher"], ["*c"],
    ["", "", "lower"]]

def forkedLibrary : Library := Library.empty.insert forked true

/-- A loader of no files, which was not asked for anything. -/
def noFiles : FileLoader := .ofRoot ⟨[], []⟩ ""

/-- A player that asked for the label. -/
def atFork (stage : Still) (source : Library) (cap : Nat) : Player Still FileLoader Library :=
  (ready stage noFiles source (.ofSettings .standard .standard) cap ∅ [] (some .empty)).start "a" 0
    none

/-- First the table takes its time, then the reader, then the picture, then the choice. -/
def delays : List (Input Still FileLoader Library) :=
  [.tick, .source forkedLibrary, .tick, .stage ⟨true, none⟩, .loader noFiles, .tick,
    .loader (Loader.request noFiles (Directories.standard.handle .background "hill")), .tick,
    .stage ⟨true, some 1⟩, .tick, .tick]

theorem slow_run_tells_same :
    let quick := (atFork ⟨true, some 1⟩ forkedLibrary 0).afterAll [.tick, .tick]
    let slow := (atFork ⟨false, none⟩ (forkedLibrary.setReady "t" false) 4).afterAll delays
    picksOf quick.events = [1] ∧ picksOf slow.events = [1] ∧
      quick.state = .ended .completed ∧ slow.state = .ended .completed ∧
      outwardOf quick.events = outwardOf slow.events ∧ quick.cursor = slow.cursor := by
  intro quick slow
  have hquick : picksOf quick.events = [1] := by decide +kernel
  have hslow : picksOf slow.events = [1] := by decide +kernel
  have hquickEnd : quick.state = .ended .completed := by decide +kernel
  have hslowEnd : slow.state = .ended .completed := by decide +kernel
  have hpicks : SamePicks quick.events slow.events := by
    intro n i j hi hj
    rw [hquick] at hi
    rw [hslow] at hj
    exact Option.some.inj (hi.symm.trans hj)
  have hL := FileLoader.settles ⟨[], []⟩ ""
  have hS := forkedLibrary.supplies
  have hserves : FileLoader.Serves ⟨[], []⟩ "" noFiles := FileLoader.serves_ofRoot _ _
  have hticks : ∀ i ∈ [.tick, .tick], Passing (σ := Still) (FileLoader.Serves ⟨[], []⟩ "")
      (fun k : Library => k.promised = forkedLibrary.promised) i := by
    intro i hi
    obtain rfl : i = .tick := by simpa using hi
    exact .tick
  have hdelays : ∀ i ∈ delays, Passing (FileLoader.Serves ⟨[], []⟩ "")
      (fun k : Library => k.promised = forkedLibrary.promised) i := by
    unfold delays
    simp only [List.forall_mem_cons]
    exact ⟨.tick, .source rfl, .tick, .stage _, .loader hserves, .tick,
      .loader (hserves.request _), .tick, .stage _, .tick, .tick, fun i hi => nomatch hi⟩
  have htold := story_is_untimed hL hS hL hS ⟨true, some 1⟩ hserves rfl 0 hticks ⟨false, none⟩
    hserves (forkedLibrary.promised_setReady "t" false) 4 hdelays (.ofSettings .standard .standard)
    ∅ [] (some .empty) "a" 0 none
  have hquickOver : quick.state.isEnded = true := by
    rw [hquickEnd]
    rfl
  have hslowOver : slow.state.isEnded = true := by
    rw [hslowEnd]
    rfl
  change SamePicks quick.events slow.events → _ ∧
    (quick.state.isEnded = true → slow.state.isEnded = true →
      outwardOf quick.events = outwardOf slow.events ∧ _ ∧ _ ∧ quick.cursor = slow.cursor) at htold
  obtain ⟨houtward, -, -, hcursor⟩ := (htold hpicks).2 hquickOver hslowOver
  exact ⟨hquick, hslow, hquickEnd, hslowEnd, houtward, hcursor⟩

end VisualNovel.Player
