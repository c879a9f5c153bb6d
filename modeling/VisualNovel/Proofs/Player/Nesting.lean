import VisualNovel.Proofs.Player.Stations
import VisualNovel.Proofs.Player.Consistency
import VisualNovel.Proofs.Scenario.Nesting

/-
  The open blocks of a run. A run may begin inside of blocks, which it then has not opened, and
  closes what is not open to no effect; so it has at most as many blocks open as the compiler
  counted where it is (`Sheltered`). Where the compiler counted none, no command is passed over.
-/

namespace VisualNovel.Player

open Asset (Loader)
open Command (Action Board Factory Settings takeAll)
open Scenario (Corpus Foresees Shuffled SparesBlocks TableSource compile rejected)
open Table (CellTable)

variable {σ ℓ ς : Type}

/-! ## Boards -/

/-- Waiting for a command leaves the open blocks as they are. -/
theorem ifStack_await (c : Command) (progress : Stage.Progress) (b : Board) :
    (c.await progress b).1.ifStack = b.ifStack := by
  unfold Command.await
  split <;> try rfl
  unfold Board.awaitPick
  split
  · rfl
  · split
    · rfl
    · split
      · rfl
      · rename_i choice _
        unfold Board.pick
        cases choice.effect? <;> rfl

/-- The commands of blocks are never waited for, but for a game's own that count as such. -/
theorem await_of_isConditional {c : Command} (hc : c.isConditional = true)
    (hown : Scenario.isHost c = false) (progress : Stage.Progress) (b : Board) :
    (c.await progress b).2 = true := by
  obtain ⟨context, action⟩ := c
  cases action <;> first | rfl | cases hc | cases hown

/-- A stack without blocks passes nothing over. -/
theorem isSuppressed_of_depth {s : Command.IfStack} (h : s.depth = 0) : s.isSuppressed = false := by
  obtain ⟨blocks⟩ := s
  obtain rfl := List.eq_nil_of_length_eq_zero h
  rfl

/-! ## Runs -/

/-- A player that has no more blocks open than the compiler counted behind the commands that the
    run has behind itself. -/
structure Sheltered (p : Player σ ℓ ς) : Prop extends Coherent p where
  blocks : ∀ s, p.scenario? = some s → SparesBlocks s.commands →
    p.board.ifStack.depth ≤ s.depthAt p.behind

theorem sheltered_ready (stage : σ) (loader : ℓ) (source : ς) (corpus : Corpus) (cap : Nat)
    (params : Expression.Params) (galleryLabels : List String)
    (history? : Option History.ReadHistory) :
    Sheltered (ready stage loader source corpus cap params galleryLabels history?) :=
  { coherent_ready stage loader source corpus cap params galleryLabels history? with
    blocks := fun _ h => nomatch h }

theorem Sheltered.unmoved {p q : Player σ ℓ ς} (hp : Sheltered p) (hq : Coherent q)
    (hscenario : q.scenario? = p.scenario?) (hactive : q.active? = p.active?)
    (hcursor : q.cursor = p.cursor) (hifStack : q.board.ifStack = p.board.ifStack) :
    Sheltered q :=
  { hq with
    blocks := fun s hs hspares => by
      rw [hifStack, behind_congr hcursor hactive]
      exact hp.blocks s (hscenario ▸ hs) hspares }

/-- A player that left its run has no blocks of it. -/
theorem Sheltered.left {q : Player σ ℓ ς} (hq : Coherent q) (hscenario : q.scenario? = none) :
    Sheltered q :=
  { hq with blocks := fun _ hs => nomatch hscenario.symm.trans hs }

/-- A player that goes on in its run. -/
theorem Sheltered.goOn {p q : Player σ ℓ ς} {s : Scenario} (hp : Sheltered p) (hq : Coherent q)
    (hbefore : p.scenario? = some s) (hafter : q.scenario? = some s)
    (hblocks : SparesBlocks s.commands → p.board.ifStack.depth ≤ s.depthAt p.behind →
      q.board.ifStack.depth ≤ s.depthAt q.behind) : Sheltered q := by
  refine { hq with blocks := fun t ht hspares => ?_ }
  obtain rfl := Option.some.inj (hafter.symm.trans ht)
  exact hblocks hspares (hp.blocks s hbefore hspares)

theorem Sheltered.change {p q : Player σ ℓ ς} (h : Change p q) (hp : Sheltered p) :
    Sheltered q := by
  have hcoherent := hp.toCoherent.change h
  cases h with
  | stage | loader | source | params | compile | register | settings =>
    exact hp.unmoved hcoherent rfl rfl rfl rfl

variable [Stage σ] [Loader ℓ] [TableSource ς]

theorem Sheltered.move {p q : Player σ ℓ ς} (h : Move p q) (hp : Sheltered p) : Sheltered q := by
  have hcoherent := hp.toCoherent.move h
  cases h with
  | enter hstate hs =>
    have hcleared := hp.cleared (by rw [hstate]; exact State.noConfusion)
    rw [enterScenario_eq] at hcoherent ⊢
    refine { hcoherent with blocks := fun t _ _ => ?_ }
    show p.board.ifStack.depth ≤ _
    rw [hcleared.1]
    exact Nat.zero_le _
  | @skip s c hstands hc hskip =>
    have hbehind := behind_skip hstands.idle c
    rw [skip_eq] at hcoherent hbehind ⊢
    refine hp.goOn hcoherent hstands.scenario hstands.scenario fun hspares hblocks => ?_
    have hplain : c.isConditional = false := by simpa using (Bool.and_eq_true_iff.mp hskip).1
    rw [hbehind, Scenario.depthAt_succ hspares (behind_of_idle hstands.idle ▸ hc),
      Command.level_of_plain hplain]
    exact hblocks
  | @activate s c hstands hc hskip =>
    have hbehind := behind_activate hstands.idle c
    rw [activate_eq] at hcoherent hbehind ⊢
    refine hp.goOn hcoherent hstands.scenario hstands.scenario fun hspares hblocks => ?_
    rw [hbehind]
    exact hblocks
  | @execute s a hplays hphase hload =>
    have hafter := execute_plays hplays
    obtain ⟨hindex, hc⟩ := hp.command _ _ hplays.scenario hplays.active
    have hbefore : p.behind = a.index := (behind_of_loading hplays.active hphase).trans hindex.symm
    have hbehind : (p.execute a).1.settle.behind = a.index + 1 := by
      rw [behind_of_waiting hafter.active rfl, settle_cursor, execute_eq, hindex]
      simp
    have hboard : (p.execute a).1.settle.board.ifStack =
        (a.command.action.change p.board).ifStack := by
      rw [execute_eq]
      rfl
    refine hp.goOn hcoherent hplays.scenario hafter.scenario fun hspares hblocks => ?_
    have hhost := hspares _ (List.mem_of_getElem? hc)
    obtain ⟨holds, hnest⟩ := Command.exists_nest (fun h => (hhost h).plain) p.board
    rw [hboard, hnest, Command.depth_nest, hbehind, Scenario.depthAt_succ hspares hc]
    exact Command.level_mono _ (hbefore ▸ hblocks)
  | @complete s a since hplays hphase hdone =>
    have hafter := completed_stands hplays since
    obtain ⟨hindex, -⟩ := hp.command _ _ hplays.scenario hplays.active
    have hbehind : (p.completed a since).settle.behind = p.behind := by
      rw [behind_completed, behind_of_waiting hplays.active hphase, hindex]
    have hboard : (p.completed a since).settle.board.ifStack = p.board.ifStack := by
      rw [completed, complete_eq]
      exact ifStack_await _ _ _
    refine hp.goOn hcoherent hplays.scenario hafter.scenario fun hspares hblocks => ?_
    rw [hboard, hbehind]
    exact hblocks
  | endGalleryScene =>
    obtain ⟨history?, es, -, -, -, -, heq⟩ := p.endGalleryScene_eq
    rw [heq] at hcoherent ⊢
    exact hp.unmoved hcoherent rfl rfl rfl rfl
  | notePageLeft =>
    obtain ⟨history?, es, -, -, -, -, heq⟩ := p.notePageLeft_eq
    rw [heq] at hcoherent ⊢
    exact hp.unmoved hcoherent rfl rfl rfl rfl
  | begin =>
    rw [begin_eq] at hcoherent ⊢
    exact .left hcoherent rfl
  | finish =>
    rw [finish_eq] at hcoherent ⊢
    exact .left hcoherent rfl
  | compile => exact hp.unmoved hcoherent rfl rfl rfl rfl

/-! ## Between calls -/

/-- If a command of the script's own language is waited for, it is not one of a block. -/
def WaitsPlainly (p : Player σ ℓ ς) : Prop :=
  ∀ a since, p.active? = some a → a.phase = .waiting since → Scenario.isHost a.command = false →
    a.command.isConditional = false

omit [Loader ℓ] [TableSource ς] in
theorem Reports.waitsPlainly {p : Player σ ℓ ς} {status : Status} (h : Reports p status)
    (hp : Coherent p) : WaitsPlainly p := by
  intro a since ha hphase hown
  cases h with
  | labelLoad hstate =>
    cases (hp.idle (by rw [hstate]; exact State.noConfusion)).symm.trans ha
  | resourceLoad hplays hloading =>
    obtain rfl := Option.some.inj (hplays.active.symm.trans ha)
    cases hloading.symm.trans hphase
  | commandWait hplays _ hdone =>
    obtain rfl := Option.some.inj (hplays.active.symm.trans ha)
    refine Bool.eq_false_iff.mpr fun hconditional => ?_
    cases (await_of_isConditional hconditional hown _ _).symm.trans hdone
  | halted hstate =>
    cases (hp.idle fun hrunning => by rw [hrunning] at hstate; cases hstate).symm.trans ha

theorem waitsPlainly_after {p : Player σ ℓ ς} (hp : WaitsPlainly p) (hcoherent : Coherent p)
    (i : Input σ ℓ ς) : WaitsPlainly (p.after i) := by
  have hafter : Coherent (p.after i) := hcoherent.afterAll [i]
  have hidle : (p.after i).state ≠ .running → WaitsPlainly (p.after i) := fun h a since ha => by
    cases (hafter.idle h).symm.trans ha
  have hfinish (reason) : Coherent (p.finishIfUnderWay reason) →
      WaitsPlainly (p.finishIfUnderWay reason) :=
    (reports_finishIfUnderWay p reason).waitsPlainly
  cases i with
  | start | resume =>
    refine hidle ?_
    simp only [after, start, resume, begin_eq]
    exact State.noConfusion
  | jump label => exact hidle fun h => by cases (p.jump_state label).symm.trans h
  | stop => exact hfinish _ hafter
  | erase => exact hfinish _ hafter
  | tick => exact p.tick_reports.waitsPlainly hafter
  | stage | loader | source | params | compile | register | settings => exact hp

theorem waitsPlainly_afterAll {p : Player σ ℓ ς} (hp : WaitsPlainly p) (hcoherent : Coherent p)
    (inputs : List (Input σ ℓ ς)) : WaitsPlainly (p.afterAll inputs) := by
  induction inputs generalizing p with
  | nil => exact hp
  | cons i inputs ih =>
    exact ih (waitsPlainly_after hp hcoherent i) (hcoherent.afterAll [i])

omit [Stage σ] [Loader ℓ] [TableSource ς] in
/-- A command that is waited for has left the blocks as they were before it. -/
theorem Sheltered.depth_le {p : Player σ ℓ ς} (hp : Sheltered p) (hplain : WaitsPlainly p)
    {s : Scenario} (hs : p.scenario? = some s) (hspares : SparesBlocks s.commands) :
    p.board.ifStack.depth ≤ s.depthAt p.cursor.index := by
  have hblocks := hp.blocks s hs hspares
  cases ha : p.active? with
  | none => rwa [behind_of_idle ha] at hblocks
  | some a =>
    cases hphase : a.phase with
    | loading => rwa [behind_of_loading ha hphase] at hblocks
    | waiting since =>
      obtain ⟨hindex, hc⟩ := hp.command s a hs ha
      have happart : a.command.isConditional = false := by
        cases hhost : Scenario.isHost a.command with
        | true => exact (hspares _ (List.mem_of_getElem? hc) hhost).plain.apart
        | false => exact hplain a since ha hphase hhost
      rw [behind_of_waiting ha hphase, ← hindex, Scenario.depthAt_succ hspares hc,
        Command.level_of_plain happart, hindex] at hblocks
      exact hblocks

/-- A block that is closed before it is opened, and one that is opened and not closed. -/
def looseBlocks : CellTable :=
  .ofRows "t" [["Command", "Arg1"], ["EndIf"], ["If", "true"], ["*a"], ["Else"]]

end VisualNovel.Player
