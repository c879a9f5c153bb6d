import VisualNovel.Proofs.Player.Consistency
import VisualNovel.Proofs.Scenario.Menus

/-
  The choices of a run. Entries put their choices on the board, and the menu behind them takes them
  off. No run is entered between entries, and no branch begins or ends there, so at every step the
  choices on the board are those of the entries directly before the place of the run, or none where
  it passes over commands (`Collects`).
-/

namespace VisualNovel.Player

open Asset (Loader)
open Command (Board Factory Settings)
open Scenario (Closed Continues Corpus LeavesMenus SparesMenus TableSource isHost)

variable {σ ℓ ς : Type}

/-! ## Boards -/

/-- The choices on a board are those of the entries directly before a place, if the place is not
    passed over. -/
def Gathers (s : Scenario) (i : Nat) (b : Board) : Prop :=
  b.choices = if b.ifStack.isSuppressed then [] else s.menuBefore i

/-- An entry adds its choice, and nothing else does if a game's own commands leave menus alone. -/
theorem choices_of_change {c : Command} (hc : isHost c → LeavesMenus c) (b : Board) :
    (c.action.change b).choices = b.choices ++ c.choice?.toList := by
  obtain ⟨context, action⟩ := c
  cases action with
  | choice => rfl
  | host action =>
    exact ((hc rfl).spares action rfl b.params b.choices).trans (List.append_nil _).symm
  | jump target condition? =>
    simp only [Command.Action.change]
    split <;> exact (List.append_nil _).symm
  | _ => exact (List.append_nil _).symm

/-- A board without choices gathers those before a place where there are no entries. -/
theorem gathers_of_nil {s : Scenario} {i : Nat} {b : Board} (hb : b.choices = [])
    (hi : s.menuBefore i = []) : Gathers s i b := by
  rw [Gathers, hb, hi, ite_self]

/-- A command that is no menu leaves the choices as they have to be behind it. -/
theorem Gathers.change {s : Scenario} {i : Nat} {b : Board} {c : Command} (hb : Gathers s i b)
    (hs : Closed s.commands) (hspares : SparesMenus s.commands) (hc : s.commands[i]? = some c)
    (hskip : b.ifStack.skips c.isConditional = false) (hmenu : c.action ≠ .menu) :
    Gathers s (i + 1) (c.action.change b) := by
  cases hchoice : c.choice? with
  | none =>
    have hother : ¬Continues c := by
      rintro (hentry | haction)
      · rw [hchoice] at hentry
        cases hentry
      · exact hmenu haction
    have hnone : b.choices = [] := by
      rw [hb, hs.menuBefore_eq_nil hc hother, ite_self]
    refine gathers_of_nil ?_ ?_
    · rw [choices_of_change (hspares c (List.mem_of_getElem? hc)), hnone, hchoice]
      rfl
    · rw [Scenario.menuBefore_succ hc, hchoice]
      rfl
  | some choice =>
    obtain ⟨context, action⟩ := c
    cases action with
    | choice =>
      obtain rfl := Option.some.inj hchoice
      have htaken : b.ifStack.isSuppressed = false := hskip
      rw [Gathers, htaken, if_neg Bool.false_ne_true] at hb
      show b.choices ++ _ = if b.ifStack.isSuppressed then [] else _
      rw [htaken, if_neg Bool.false_ne_true, Scenario.menuBefore_succ hc, hb]
      rfl
    | _ => cases hchoice

/-- A menu is shown with the choices of the entries before it. -/
theorem Gathers.choices_at_menu {s : Scenario} {i : Nat} {b : Board} {c : Command}
    (hb : Gathers s i b) (hc : c.action = .menu) (hskip : b.ifStack.skips c.isConditional = false) :
    b.choices = s.menuBefore i := by
  have htaken : b.ifStack.isSuppressed = false := by
    rw [Command.isConditional, hc] at hskip
    exact hskip
  rw [Gathers, htaken] at hb
  exact hb

/-- Directly behind a menu stand no entries. -/
theorem menuBefore_of_menu {s : Scenario} {i : Nat} {c : Command} (hc : s.commands[i]? = some c)
    (hmenu : c.action = .menu) : s.menuBefore (i + 1) = [] := by
  have hbegins : c.beginsPage = true := by
    rw [Command.beginsPage, hmenu]
    rfl
  exact Scenario.menuBefore_of_beginsPage hc hbegins

/-- A menu that is done leaves no choices. -/
theorem choices_of_awaited {c : Command} {progress : Stage.Progress} {b : Board}
    (hc : c.action = .menu) (hdone : (c.await progress b).2 = true) :
    (c.await progress b).1.choices = [] := by
  unfold Command.await at hdone ⊢
  rw [hc] at hdone ⊢
  unfold Board.awaitPick at hdone ⊢
  dsimp only at hdone ⊢
  split
  · assumption
  · rename_i hsome
    rw [if_neg hsome] at hdone
    split
    · rename_i hnone
      rw [hnone] at hdone
      cases hdone
    · split <;> rfl

/-- No other command waits with the board. -/
theorem await_of_not_menu {c : Command} (hc : c.action ≠ .menu) (progress : Stage.Progress)
    (b : Board) : (c.await progress b).1 = b := by
  unfold Command.await
  split <;> first | rfl | exact absurd (by assumption) hc

/-! ## Runs -/

/-- The choices on the board of a run are those that the next menu shows, or the one that is waited
    for. -/
structure Collects (s : Scenario) (p : Player σ ℓ ς) : Prop where
  stands : p.active? = none → Gathers s p.cursor.index p.board
  loads : ∀ a, p.active? = some a → a.phase = .loading → Gathers s a.index p.board
  offers : ∀ a since, p.active? = some a → a.phase = .waiting since → a.command.action = .menu →
    p.board.choices = s.menuBefore a.index
  waits : ∀ a since, p.active? = some a → a.phase = .waiting since → a.command.action ≠ .menu →
    Gathers s (a.index + 1) p.board

theorem Collects.of_idle {s : Scenario} {p : Player σ ℓ ς} (hidle : p.active? = none)
    (h : Gathers s p.cursor.index p.board) : Collects s p where
  stands _ := h
  loads _ ha := nomatch hidle.symm.trans ha
  offers _ _ ha := nomatch hidle.symm.trans ha
  waits _ _ ha := nomatch hidle.symm.trans ha

theorem Collects.of_loading {s : Scenario} {p : Player σ ℓ ς} {a : Active}
    (ha : p.active? = some a) (hphase : a.phase = .loading) (h : Gathers s a.index p.board) :
    Collects s p where
  stands hidle := nomatch hidle.symm.trans ha
  loads b hb _ := by
    obtain rfl := Option.some.inj (ha.symm.trans hb)
    exact h
  offers b _ hb hwaiting := by
    obtain rfl := Option.some.inj (ha.symm.trans hb)
    cases hphase.symm.trans hwaiting
  waits b _ hb hwaiting := by
    obtain rfl := Option.some.inj (ha.symm.trans hb)
    cases hphase.symm.trans hwaiting

theorem Collects.of_waiting {s : Scenario} {p : Player σ ℓ ς} {a : Active} {since : Nat}
    (ha : p.active? = some a) (hphase : a.phase = .waiting since)
    (hmenu : a.command.action = .menu → p.board.choices = s.menuBefore a.index)
    (hother : a.command.action ≠ .menu → Gathers s (a.index + 1) p.board) : Collects s p where
  stands hidle := nomatch hidle.symm.trans ha
  loads b hb hloading := by
    obtain rfl := Option.some.inj (ha.symm.trans hb)
    cases hphase.symm.trans hloading
  offers b _ hb _ := by
    obtain rfl := Option.some.inj (ha.symm.trans hb)
    exact hmenu
  waits b _ hb _ := by
    obtain rfl := Option.some.inj (ha.symm.trans hb)
    exact hother

/-- What leaves the place and the choices as they are leaves them as they have to be. -/
theorem Collects.unmoved {s : Scenario} {p q : Player σ ℓ ς} (hp : Collects s p)
    (hactive : q.active? = p.active?) (hcursor : q.cursor = p.cursor)
    (hifStack : q.board.ifStack = p.board.ifStack) (hchoices : q.board.choices = p.board.choices) :
    Collects s q := by
  have hboard (i : Nat) (h : Gathers s i p.board) : Gathers s i q.board := by
    rw [Gathers, hifStack, hchoices]
    exact h
  refine ⟨fun h => ?_, fun a ha hphase => hboard _ (hp.loads a (hactive ▸ ha) hphase),
    fun a since ha hphase hmenu => ?_,
    fun a since ha hphase hmenu => hboard _ (hp.waits a since (hactive ▸ ha) hphase hmenu)⟩
  · rw [hcursor]
    exact hboard _ (hp.stands (hactive ▸ h))
  · rw [hchoices]
    exact hp.offers a since (hactive ▸ ha) hphase hmenu

/-- Where a run is entered stand no entries before. -/
theorem menuBefore_entry {s : Scenario} (hs : s.Compiled) (hclosed : Closed s.commands)
    {label : String} (hlabel : (s.labelIndex? label).isSome) (page : Int) :
    s.menuBefore (entry s label page).index = [] := by
  obtain ⟨m, hm⟩ := Option.isSome_iff_exists.mp hlabel
  unfold entry
  split
  · rename_i j hj
    exact hclosed.menuBefore_of_seek hs hj
  · rw [hm]
    exact hclosed.menuBefore_of_label hs hm

/-- A player whose scenarios were compiled, and that has the choices on its board that it should
    have where a game's own commands leave menus alone. -/
structure Stacked (p : Player σ ℓ ς) : Prop extends Coherent p where
  corpus : p.corpus.Compiled
  compiled : ∀ s, p.scenario? = some s → s.Compiled
  collects : ∀ s, p.scenario? = some s → SparesMenus s.commands → Collects s p

theorem stacked_ready (stage : σ) (loader : ℓ) (source : ς) (factory : Factory)
    (settings : Settings) (cap : Nat) (params : Expression.Params) (galleryLabels : List String)
    (history? : Option History.ReadHistory) :
    Stacked (ready stage loader source (.ofSettings factory settings) cap params galleryLabels
      history?) :=
  { coherent_ready stage loader source _ cap params galleryLabels history? with
    corpus := Corpus.compiled_ofSettings factory settings
    compiled := fun _ h => nomatch h
    collects := fun _ h => nomatch h }

theorem Stacked.unmoved {p q : Player σ ℓ ς} (hp : Stacked p) (hq : Coherent q)
    (hcorpus : q.corpus.Compiled) (hscenario : q.scenario? = p.scenario?)
    (hactive : q.active? = p.active?) (hcursor : q.cursor = p.cursor)
    (hifStack : q.board.ifStack = p.board.ifStack) (hchoices : q.board.choices = p.board.choices) :
    Stacked q :=
  { hq with
    corpus := hcorpus
    compiled := fun s hs => hp.compiled s (hscenario ▸ hs)
    collects := fun s hs hspares =>
      (hp.collects s (hscenario ▸ hs) hspares).unmoved hactive hcursor hifStack hchoices }

/-- A player that left its run has no choices to go wrong. -/
theorem Stacked.left {p q : Player σ ℓ ς} (hp : Stacked p) (hq : Coherent q)
    (hcorpus : q.corpus = p.corpus) (hscenario : q.scenario? = none) : Stacked q :=
  { hq with
    corpus := hcorpus ▸ hp.corpus
    compiled := fun _ hs => nomatch hscenario.symm.trans hs
    collects := fun _ hs => nomatch hscenario.symm.trans hs }

/-- A player that goes on in its run. -/
theorem Stacked.goOn {p q : Player σ ℓ ς} {s : Scenario} (hp : Stacked p) (hq : Coherent q)
    (hcorpus : q.corpus = p.corpus) (hbefore : p.scenario? = some s) (hafter : q.scenario? = some s)
    (hcollects : SparesMenus s.commands → Collects s p → Collects s q) : Stacked q := by
  refine { hq with corpus := hcorpus ▸ hp.corpus, compiled := ?_, collects := ?_ }
  · intro t ht
    exact hp.compiled t (hbefore.trans (hafter.symm.trans ht))
  · intro t ht hspares
    obtain rfl := Option.some.inj (hafter.symm.trans ht)
    exact hcollects hspares (hp.collects s hbefore hspares)

theorem Stacked.change {p q : Player σ ℓ ς} (h : Change p q) (hp : Stacked p) : Stacked q := by
  have hcoherent := hp.toCoherent.change h
  cases h with
  | compile table => exact hp.unmoved hcoherent (hp.corpus.compile table) rfl rfl rfl rfl rfl
  | stage | loader | source | params | register | settings =>
    exact hp.unmoved hcoherent hp.corpus rfl rfl rfl rfl rfl

variable [Stage σ] [Loader ℓ] [TableSource ς]

theorem Stacked.move {p q : Player σ ℓ ς} (h : Move p q) (hp : Stacked p) : Stacked q := by
  have hcoherent := hp.toCoherent.move h
  cases h with
  | enter hstate hs =>
    rename_i s label page
    have haway : p.state ≠ .running := by
      rw [hstate]
      exact State.noConfusion
    have hidle := hp.idle haway
    obtain ⟨-, hchoices, -⟩ := hp.cleared haway
    obtain ⟨hcompiled, hlabel⟩ := hp.corpus.scenario? hs
    rw [enterScenario_eq] at hcoherent ⊢
    refine { hcoherent with corpus := hp.corpus, compiled := ?_, collects := ?_ }
    · rintro t ⟨⟩
      exact hcompiled
    · rintro t ⟨⟩ hspares
      have hnone := menuBefore_entry hcompiled (hcompiled.closed hspares) hlabel page
      exact .of_idle hidle (gathers_of_nil hchoices hnone)
  | skip hstands hc hskip =>
    rw [skip_eq] at hcoherent ⊢
    refine hp.goOn hcoherent rfl hstands.scenario hstands.scenario fun _ hcollects => ?_
    have hsuppressed : p.board.ifStack.isSuppressed = true := (Bool.and_eq_true_iff.mp hskip).2
    refine .of_idle hstands.idle ?_
    have hgathers := hcollects.stands hstands.idle
    rw [Gathers, hsuppressed, if_pos rfl] at hgathers ⊢
    exact hgathers
  | activate hstands hc hskip =>
    rw [activate_eq] at hcoherent ⊢
    exact hp.goOn hcoherent rfl hstands.scenario hstands.scenario fun _ hcollects =>
      .of_loading rfl rfl (hcollects.stands hstands.idle)
  | execute hplays hphase hload =>
    rename_i s a
    have hafter := execute_plays hplays
    have hcorpus : (p.execute a).1.settle.corpus = p.corpus := by
      rw [execute_eq]
      rfl
    have hboard : (p.execute a).1.settle.board = (a.command.action.change p.board).settle := by
      rw [execute_eq]
      rfl
    refine hp.goOn hcoherent hcorpus hplays.scenario hafter.scenario fun hspares hcollects => ?_
    obtain ⟨-, hc⟩ := hp.command s a hplays.scenario hplays.active
    have hskip := hp.admitted a hplays.active hphase
    have hgathers := hcollects.loads a hplays.active hphase
    refine .of_waiting hafter.active rfl (fun hmenu => ?_) (fun hmenu => ?_)
    · rw [hboard, hmenu]
      exact hgathers.choices_at_menu hmenu hskip
    · rw [hboard]
      have hclosed := (hp.compiled s hplays.scenario).closed hspares
      exact hgathers.change hclosed hspares hc hskip hmenu
  | complete hplays hphase hdone =>
    rename_i s a since
    obtain ⟨-, hc⟩ := hp.command s a hplays.scenario hplays.active
    rw [completed, complete_eq] at hcoherent ⊢
    refine hp.goOn hcoherent rfl hplays.scenario hplays.scenario fun _ hcollects => ?_
    have hgathers : Gathers s (a.index + 1)
        (a.command.await (Stage.progress p.stage since) p.board).1 := by
      by_cases hmenu : a.command.action = .menu
      · exact gathers_of_nil (choices_of_awaited hmenu hdone) (menuBefore_of_menu hc hmenu)
      · rw [await_of_not_menu hmenu]
        exact hcollects.waits a since hplays.active hphase hmenu
    exact .of_idle rfl hgathers
  | endGalleryScene =>
    obtain ⟨history?, es, -, -, -, -, heq⟩ := p.endGalleryScene_eq
    rw [heq] at hcoherent ⊢
    exact hp.unmoved hcoherent hp.corpus rfl rfl rfl rfl rfl
  | notePageLeft =>
    obtain ⟨history?, es, -, -, -, -, heq⟩ := p.notePageLeft_eq
    rw [heq] at hcoherent ⊢
    exact hp.unmoved hcoherent hp.corpus rfl rfl rfl rfl rfl
  | begin =>
    rw [begin_eq] at hcoherent ⊢
    exact hp.left hcoherent rfl rfl
  | finish =>
    rw [finish_eq] at hcoherent ⊢
    exact hp.left hcoherent rfl rfl
  | compile table => exact hp.unmoved hcoherent (hp.corpus.compile table) rfl rfl rfl rfl rfl

end VisualNovel.Player
