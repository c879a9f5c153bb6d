import Mathlib.Data.List.SplitBy
import VisualNovel.Proofs.Command.Conditional
import VisualNovel.Proofs.Scenario.Rows

/-
  What compiling does to the rows of a table. Cut into runs of one name each, the commands of the
  rows are the commands of the scenario, with the closing commands of runs behind them where the
  script does not close them itself (`closeRows_eq`). The rows that cannot be read are those that
  the diagnostics report, besides what is wrong with the scenario as a whole
  (`shuffled_diagnose`).
-/

namespace VisualNovel.Scenario

open Command (Factory Settings)
open Table (CellTable Row)

/-! ## Diagnostics -/

/-- What is wrong with the blocks at a command is not about a row alone. -/
theorem row_of_nest (o : Outline) (c : Command) : ∀ e ∈ (o.nest c).2, e.row? = none := by
  unfold Outline.nest
  split
  · simp
  · split
    · split
      · simp [Error.row?]
      · split <;> simp
    · simp

theorem row_of_name (o : Outline) (scenario : String) (c : Command) :
    ∀ e ∈ (o.name scenario c).2, e.row? = none := by
  unfold Outline.name
  split
  · simp
  · split <;> simp [Error.row?]

/-- A list is shuffled of two: it has the elements of both, each in their order. -/
inductive Shuffled {α : Type} : List α → List α → List α → Prop
  | nil : Shuffled [] [] []
  | left {xs ys zs : List α} (x : α) (h : Shuffled xs ys zs) : Shuffled (x :: xs) ys (x :: zs)
  | right {xs ys zs : List α} (y : α) (h : Shuffled xs ys zs) : Shuffled xs (y :: ys) (y :: zs)

theorem Shuffled.append_right {α : Type} {xs ys zs : List α} (h : Shuffled xs ys zs)
    (ws : List α) : Shuffled xs (ws ++ ys) (ws ++ zs) := by
  induction ws with
  | nil => exact h
  | cons w ws ih => exact .right w ih

/-- The diagnostics are the errors of the rows, in their order, and what is wrong with the commands
    of the other rows. -/
theorem shuffled_commands (scenario : String) (results : List (Except Error Command))
    (o : Outline) :
    Shuffled (results.filterMap error?)
      (diagnose scenario o ((commandsOf results).map .ok)) (diagnose scenario o results) := by
  induction results generalizing o with
  | nil =>
    show Shuffled [] (diagnose scenario o []) (diagnose scenario o [])
    unfold diagnose
    split
    · exact .nil
    · exact .right _ .nil
  | cons result results ih =>
    cases result with
    | error e => exact .left e (ih o)
    | ok c => exact (ih ((o.nest c).1.name scenario c).1).append_right _

/-- What is wrong with commands is not about a row alone. -/
theorem row_of_diagnose (scenario : String) (cs : List Command) (o : Outline) :
    ∀ e ∈ diagnose scenario o (cs.map .ok), e.row? = none := by
  induction cs generalizing o with
  | nil =>
    show ∀ e ∈ diagnose scenario o [], e.row? = none
    unfold diagnose
    split
    · exact List.forall_mem_nil _
    · exact List.forall_mem_singleton.mpr rfl
  | cons c cs ih =>
    intro e he
    rcases List.mem_append.mp he with he | he
    · rcases List.mem_append.mp he with he | he
      · exact row_of_nest o c e he
      · exact row_of_name (o.nest c).1 scenario c e he
    · exact ih _ e he

/-- The diagnostics are the errors of the rows, in their order, and what is wrong with the scenario
    as a whole. -/
theorem shuffled_diagnose (scenario : String) (results : List (Except Error Command))
    (o : Outline) :
    ∃ whole, Shuffled (results.filterMap error?) whole (diagnose scenario o results) ∧
      ∀ e ∈ whole, e.row? = none :=
  ⟨_, shuffled_commands scenario results o, row_of_diagnose scenario _ o⟩

theorem shuffled_diagnostics (f : Factory) (s : Settings) (t : CellTable) :
    ∃ whole, Shuffled ((rejected f s t.dataRows).map Prod.snd) whole (compile f s t).diagnostics ∧
      ∀ e ∈ whole, e.row? = none := by
  rw [← errors_readRows]
  exact shuffled_diagnose _ _ _

/-! ## Runs -/

/-- The longest pieces of a list of commands in which all commands have one name. -/
def runs (cs : List Command) : List (List Command) := cs.splitBy fun c d => c.tag == d.tag

/-- The command that is put behind a run: the one that closes a row like its first command, unless
    the command behind the run has its name. -/
def closingOf (run behind : List Command) : Option Command :=
  (run.head?.bind Command.closing?).filter fun d => behind.head?.all fun c => c.tag != d.tag

/-- Runs one after the other, with the commands that are put behind them. -/
def closed : List (List Command) → List Command
  | [] => []
  | run :: rest => run ++ (closingOf run rest.flatten).toList ++ closed rest

/-- Commands of one name have closing commands of one name. -/
def OneClosing (cs : List Command) : Prop :=
  ∀ c ∈ cs, ∀ d ∈ cs, c.tag = d.tag → c.closing?.map Command.tag = d.closing?.map Command.tag

/-- A row that is waiting goes on with the commands of its name. -/
theorem closeRows_run {o : Opening} {run : List Command} (hrun : ∀ c ∈ run, c.tag = o.1)
    (rest : List Command) :
    closeRows (some o) (run ++ rest) = run ++ closeRows (some o) rest := by
  induction run with
  | nil => rfl
  | cons c run ih =>
    rw [List.cons_append, closeRows, if_pos (hrun c List.mem_cons_self),
      ih fun d hd => hrun d (List.mem_cons_of_mem _ hd)]
    rfl

/-- Commands without closing commands stay as they are. -/
theorem closeRows_plain {run : List Command} (hrun : ∀ c ∈ run, c.closing? = none)
    (rest : List Command) : closeRows none (run ++ rest) = run ++ closeRows none rest := by
  induction run with
  | nil => rfl
  | cons c run ih =>
    have hnone : opening? none c = none := by
      rw [opening?, hrun c List.mem_cons_self]
      rfl
    rw [List.cons_append, closeRows, hnone, ih fun d hd => hrun d (List.mem_cons_of_mem _ hd)]
    rfl

/-- Behind the commands of its name a row that is waiting is closed, unless it is closed there
    already. -/
theorem closeRows_behind {o : Opening} {rest : List Command}
    (hrest : ∀ c ∈ rest.head?, c.tag ≠ o.1) :
    closeRows (some o) rest =
      ((some o.2).filter fun d => rest.head?.all fun c => c.tag != d.tag).toList ++
        closeRows none rest := by
  cases rest with
  | nil => rfl
  | cons c rest =>
    have hc : c.tag ≠ o.1 := hrest c rfl
    simp only [closeRows, if_neg hc]
    by_cases hclosing : c.tag = o.2.tag <;> simp [Option.filter, hclosing]

/-- A run of commands with the command that is put behind it. -/
theorem closeRows_append {run rest : List Command} (hne : run ≠ [])
    (hone : OneClosing run) (htag : ∀ c ∈ run, ∀ d ∈ run, c.tag = d.tag)
    (hrest : ∀ c ∈ run, ∀ d ∈ rest.head?, d.tag ≠ c.tag) :
    closeRows none (run ++ rest) =
      run ++ (closingOf run rest).toList ++ closeRows none rest := by
  cases run with
  | nil => exact absurd rfl hne
  | cons c run =>
    have hc : c ∈ c :: run := List.mem_cons_self
    cases hclosing : c.closing? with
    | none =>
      have hplain : ∀ d ∈ c :: run, d.closing? = none := by
        intro d hd
        have hsame := hone c hc d hd (htag c hc d hd)
        rw [hclosing] at hsame
        simpa using hsame.symm
      rw [closeRows_plain hplain]
      simp [closingOf, hclosing]
    | some d =>
      have hopening : opening? none c = some (c.tag, d) := by
        rw [opening?, hclosing]
        rfl
      have hrun : ∀ e ∈ run, e.tag = c.tag := fun e he =>
        htag e (List.mem_cons_of_mem _ he) c hc
      rw [List.cons_append, closeRows, hopening, closeRows_run hrun,
        closeRows_behind fun e he => hrest c hc e he]
      simp [closingOf, hclosing]

/-- The command that is put behind a run stands in the row of the first command of the run. -/
theorem context_of_closingOf {run behind : List Command} {d : Command}
    (h : closingOf run behind = some d) : ∃ c ∈ run.head?, d.context = c.context := by
  obtain ⟨hd, -⟩ := Option.filter_eq_some_iff.mp h
  obtain ⟨c, hc, hclosing⟩ := Option.bind_eq_some_iff.mp hd
  obtain ⟨action, -, rfl⟩ := Option.map_eq_some_iff.mp hclosing
  exact ⟨c, hc, rfl⟩

theorem OneClosing.subset {cs ds : List Command} (h : OneClosing cs) (hsub : ds ⊆ cs) :
    OneClosing ds := fun c hc d hd => h c (hsub hc) d (hsub hd)

/-- Pieces of a list of commands that are its longest pieces of one name each. -/
structure AreRuns (rs : List (List Command)) : Prop where
  alike : ∀ run ∈ rs, ∀ c ∈ run, ∀ d ∈ run, c.tag = d.tag
  proper : ∀ run ∈ rs, run ≠ []
  apart : rs.IsChain fun run next => ∃ hrun hnext,
    ((run.getLast hrun).tag == (next.head hnext).tag) = false

theorem AreRuns.tail {run : List Command} {rs : List (List Command)} (h : AreRuns (run :: rs)) :
    AreRuns rs :=
  ⟨fun r hr => h.alike r (List.mem_cons_of_mem _ hr),
    fun r hr => h.proper r (List.mem_cons_of_mem _ hr), h.apart.tail⟩

theorem areRuns_runs (cs : List Command) : AreRuns (runs cs) where
  alike run hrun := by
    have hchain : run.IsChain fun c d => c.tag = d.tag := by
      simpa using List.isChain_of_mem_splitBy hrun
    have hpairs : run.Pairwise fun c d => c.tag = d.tag := List.isChain_iff_pairwise.mp hchain
    have : Std.Symm fun c d : Command => c.tag = d.tag := ⟨fun _ _ h => h.symm⟩
    exact fun c hc d hd =>
      hpairs.forall_of_forall (R := fun c d => c.tag = d.tag) (fun _ _ => rfl) hc hd
  proper _ := List.ne_nil_of_mem_splitBy
  apart := List.isChain_getLast_head_splitBy (fun c d : Command => c.tag == d.tag) cs

/-- Behind a run stands a command of another name. -/
theorem AreRuns.tag_ne {run : List Command} {rs : List (List Command)}
    (h : AreRuns (run :: rs)) : ∀ c ∈ run, ∀ d ∈ rs.flatten.head?, d.tag ≠ c.tag := by
  intro c hc d hd
  cases rs with
  | nil => cases hd
  | cons next rs =>
    obtain ⟨⟨hrun, hnext, hne⟩, -⟩ := List.isChain_cons_cons.mp h.apart
    have hhead? : (next :: rs).flatten.head? = some (next.head hnext) := by
      rw [List.flatten_cons, List.head?_append, List.head?_eq_some_head hnext]
      rfl
    have hhead : next.head hnext = d := Option.some.inj (hhead? ▸ hd)
    have hlast : c.tag = (run.getLast hrun).tag :=
      h.alike run List.mem_cons_self c hc _ (List.getLast_mem hrun)
    rw [hhead, ← hlast] at hne
    exact fun htag => by simp [htag] at hne

theorem AreRuns.closeRows {rs : List (List Command)} (h : AreRuns rs)
    (hone : OneClosing rs.flatten) : closeRows none rs.flatten = closed rs := by
  induction rs with
  | nil => rfl
  | cons run rs ih =>
    have hrest := ih h.tail (hone.subset (List.subset_append_right _ _))
    rw [List.flatten_cons, closeRows_append (h.proper run List.mem_cons_self)
      (hone.subset (List.subset_append_left _ _)) (h.alike run List.mem_cons_self) h.tag_ne, hrest]
    rfl

/-- The commands of a scenario are the runs of the commands of its rows, with what is put behind
    them. -/
theorem closeRows_eq {cs : List Command} (hone : OneClosing cs) :
    Scenario.closeRows none cs = closed (runs cs) := by
  have hflatten : (runs cs).flatten = cs := List.flatten_splitBy _ cs
  have hclosed := (areRuns_runs cs).closeRows (hflatten.symm ▸ hone)
  rwa [hflatten] at hclosed

/-! ## What stands behind a command -/

/-- Behind a command of rows that has a closing command stands one of its own name, or one of the
    name of its closing command. -/
def Followed (rows cs : List Command) : Prop :=
  ∀ i c d, cs[i]? = some c → c ∈ rows → c.closing? = some d →
    ∃ e, cs[i + 1]? = some e ∧ (e.tag = c.tag ∨ e.tag = d.tag)

theorem Followed.cons {rows : List Command} {c : Command} {cs : List Command}
    (h : Followed rows cs)
    (hc : c ∈ rows → ∀ d ∈ c.closing?, ∃ e ∈ cs.head?, e.tag = c.tag ∨ e.tag = d.tag) :
    Followed rows (c :: cs) := by
  intro i c' d hi hrows hd
  cases i with
  | zero =>
    obtain rfl := Option.some.inj hi
    obtain ⟨e, he, htag⟩ := hc hrows d hd
    refine ⟨e, ?_, htag⟩
    rw [List.getElem?_cons_succ, ← List.head?_eq_getElem?]
    exact he
  | succ i => exact h i c' d hi hrows hd

/-- What closes the rows of a command is none of the commands of rows. -/
def ClosingApart (rows : List Command) : Prop :=
  ∀ c ∈ rows, ∀ d, c.closing? = some d → d ∉ rows

/-- What is waited for closes rows like those that are to come, and is not itself one of the
    commands of rows. -/
structure Awaited (rows : List Command) (o : Opening) (cs : List Command) : Prop where
  closes : ∀ c ∈ cs, c.tag = o.1 → ∀ d ∈ c.closing?, d.tag = o.2.tag
  apart : o.2 ∉ rows

theorem awaited_opening {rows : List Command} (hrows : ClosingApart rows) {c : Command}
    (hc : c ∈ rows) {cs : List Command} (hone : OneClosing (c :: cs)) :
    ∀ o ∈ opening? none c, Awaited rows o cs := by
  intro o ho
  obtain ⟨d, hd, rfl⟩ := Option.map_eq_some_iff.mp ho
  refine ⟨fun c' hc' htag d' hd' => ?_, hrows c hc d hd⟩
  have hsame := hone c' (List.mem_cons_of_mem _ hc') c List.mem_cons_self htag
  rw [hd, Option.mem_def.mp hd'] at hsame
  exact Option.some.inj hsame

theorem followed_closeRows {rows : List Command} (hrows : ClosingApart rows) {cs : List Command}
    (hcs : cs ⊆ rows) (hone : OneClosing cs) {o : Option Opening}
    (ho : ∀ p ∈ o, Awaited rows p cs) :
    Followed rows (Scenario.closeRows o cs) ∧
      ∀ p ∈ o, ∃ e ∈ (Scenario.closeRows o cs).head?, e.tag = p.1 ∨ e.tag = p.2.tag := by
  induction cs generalizing o with
  | nil =>
    have hnone : Followed rows [] := fun i c d hi => nomatch hi
    cases o with
    | none => exact ⟨hnone, fun p hp => nomatch hp⟩
    | some p =>
      refine ⟨hnone.cons fun hp => absurd hp (ho p rfl).apart, fun p' hp' => ?_⟩
      obtain rfl := Option.some.inj hp'
      exact ⟨p.2, rfl, Or.inr rfl⟩
  | cons c cs ih =>
    obtain ⟨hc, hlater⟩ := List.cons_subset.mp hcs
    have honce : OneClosing cs := hone.subset (List.subset_cons_self c cs)
    -- behind a command that a row may begin with, this row is waited for
    have hopens : Followed rows (c :: Scenario.closeRows (opening? none c) cs) := by
      obtain ⟨hfollowed, hhead⟩ := ih hlater honce (awaited_opening hrows hc hone)
      refine hfollowed.cons fun _ d hd => ?_
      exact hhead (c.tag, d) (Option.map_eq_some_iff.mpr ⟨d, hd, rfl⟩)
    cases o with
    | none => exact ⟨hopens, fun p hp => nomatch hp⟩
    | some p =>
      have hp := ho p rfl
      have hawaited : Awaited rows p cs :=
        ⟨fun c' hc' => hp.closes c' (List.mem_cons_of_mem _ hc'), hp.apart⟩
      have hself : ∀ p' ∈ some p, p' = p := fun p' hp' => (Option.some.inj hp').symm
      by_cases hopener : c.tag = p.1
      · obtain ⟨hfollowed, hhead⟩ :=
          ih hlater honce (o := some p) (fun p' hp' => hself p' hp' ▸ hawaited)
        simp only [Scenario.closeRows, if_pos hopener]
        refine ⟨hfollowed.cons fun _ d hd => ?_, fun p' hp' => ⟨c, rfl, Or.inl ?_⟩⟩
        · rw [hopener, hp.closes c List.mem_cons_self hopener d hd]
          exact hhead p rfl
        · rw [hself p' hp', hopener]
      · by_cases hcloser : c.tag = p.2.tag
        · simp only [Scenario.closeRows, if_neg hopener, if_pos hcloser]
          refine ⟨hopens, fun p' hp' => ⟨c, rfl, Or.inr ?_⟩⟩
          rw [hself p' hp', hcloser]
        · simp only [Scenario.closeRows, if_neg hopener, if_neg hcloser]
          refine ⟨hopens.cons fun hmade => absurd hmade hp.apart, fun p' hp' => ?_⟩
          refine ⟨p.2, rfl, Or.inr ?_⟩
          rw [hself p' hp']

/-- A command behind closed rows is one of the rows, or closes those of one of them. -/
theorem mem_closeRows {cs : List Command} {o : Option Opening} {c : Command}
    (hc : c ∈ Scenario.closeRows o cs) :
    c ∈ cs ∨ (∃ p ∈ o, c = p.2) ∨ ∃ d ∈ cs, d.closing? = some c := by
  induction cs generalizing o with
  | nil =>
    cases o with
    | none => exact absurd hc List.not_mem_nil
    | some p => exact Or.inr (Or.inl ⟨p, rfl, List.mem_singleton.mp hc⟩)
  | cons d cs ih =>
    -- what a row that begins with a command waits for closes the rows of this command
    have hopens (h : c ∈ Scenario.closeRows (opening? none d) cs) :
        c ∈ d :: cs ∨ (∃ p ∈ o, c = p.2) ∨ ∃ e ∈ d :: cs, e.closing? = some c := by
      rcases ih h with hmem | ⟨p, hp, rfl⟩ | ⟨e, he, hclosing⟩
      · exact Or.inl (List.mem_cons_of_mem _ hmem)
      · obtain ⟨e, he, rfl⟩ := Option.map_eq_some_iff.mp hp
        exact Or.inr (Or.inr ⟨d, List.mem_cons_self, he⟩)
      · exact Or.inr (Or.inr ⟨e, List.mem_cons_of_mem _ he, hclosing⟩)
    have hself (h : c = d) : c ∈ d :: cs := h ▸ List.mem_cons_self
    cases o with
    | none =>
      rcases List.mem_cons.mp hc with h | h
      · exact Or.inl (hself h)
      · exact hopens h
    | some p =>
      unfold Scenario.closeRows at hc
      split at hc
      · rcases List.mem_cons.mp hc with h | h
        · exact Or.inl (hself h)
        · rcases ih h with hmem | hp | ⟨e, he, hclosing⟩
          · exact Or.inl (List.mem_cons_of_mem _ hmem)
          · exact Or.inr (Or.inl hp)
          · exact Or.inr (Or.inr ⟨e, List.mem_cons_of_mem _ he, hclosing⟩)
      · split at hc
        · rcases List.mem_cons.mp hc with h | h
          · exact Or.inl (hself h)
          · exact hopens h
        · rcases List.mem_cons.mp hc with h | h
          · exact Or.inr (Or.inl ⟨p, rfl, h⟩)
          · rcases List.mem_cons.mp h with h | h
            · exact Or.inl (hself h)
            · exact hopens h

/-- What closes rows needs no closing itself. -/
def ClosingsAreLast (rows : List Command) : Prop :=
  ∀ c ∈ rows, ∀ d, c.closing? = some d → d.closing? = none

/-- If what closes rows needs no closing itself, then all commands with closing commands are
    followed, those that were put in too. -/
theorem Followed.all {rows : List Command}
    (h : Followed rows (Scenario.closeRows none rows)) (hlast : ClosingsAreLast rows) :
    Followed (Scenario.closeRows none rows) (Scenario.closeRows none rows) := by
  intro i c d hi hc hd
  rcases mem_closeRows hc with hrow | ⟨p, hp, -⟩ | ⟨e, he, hclosing⟩
  · exact h i c d hi hrow hd
  · cases hp
  · cases (hlast e he c hclosing).symm.trans hd

/-! ## Names of closing commands -/

/-- Whether a command is one of a game's own. -/
def isHost (c : Command) : Bool :=
  match c.action with
  | .host _ => true
  | _ => false

/-- Of the commands that are not part of a block, only a game's own could touch the open blocks. -/
theorem isPlain_of_own {c : Command} (h : isHost c = false) (hc : c.isConditional = false) :
    Command.IsPlain c := by
  refine ⟨hc, fun a ha => ?_⟩
  rw [isHost, ha] at h
  cases h

/-- A game's own commands have closing commands of the same name as the other commands of their
    name. -/
def HostsAgree (cs : List Command) : Prop :=
  ∀ c ∈ cs, ∀ d ∈ cs, isHost c → c.tag = d.tag →
    c.closing?.map Command.tag = d.closing?.map Command.tag

/-- Of the commands of the script's own language only entries of menus have closing commands, -/
theorem action_of_closing? {c d : Command} (h : isHost c = false) (hd : c.closing? = some d) :
    d.action = .menu := by
  obtain ⟨context, action⟩ := c
  obtain ⟨a, ha, rfl⟩ := Option.map_eq_some_iff.mp hd
  cases action with
  | choice =>
    obtain rfl := Option.some.inj ha
    rfl
  | host => cases h
  | _ => cases ha

/-- and all of these the same. -/
theorem closing?_tag {c : Command} (h : isHost c = false) :
    c.closing?.map Command.tag =
      if c.tag = Command.Tag.selection.name then some Command.Tag.selectionEnd.name else none := by
  obtain ⟨context, action⟩ := c
  cases action with
  | host => cases h
  | choice => rfl
  | layer kind | layerOff kind | sound kind | stopSound kind | fade kind | control kind =>
    cases kind <;> rfl
  | _ => rfl

theorem HostsAgree.oneClosing {cs : List Command} (h : HostsAgree cs) : OneClosing cs := by
  intro c hc d hd htag
  cases hhost : isHost c with
  | true => exact h c hc d hd hhost htag
  | false =>
    cases hhost' : isHost d with
    | true => exact (h d hd c hc hhost' htag.symm).symm
    | false => rw [closing?_tag hhost, closing?_tag hhost', htag]

theorem HostsAgree.of_own {cs : List Command} (h : ∀ c ∈ cs, isHost c = false) : HostsAgree cs :=
  fun c hc _ _ hhost => absurd hhost (Bool.eq_false_iff.mp (h c hc))

theorem ClosingsAreLast.of_own {cs : List Command} (h : ∀ c ∈ cs, isHost c = false) :
    ClosingsAreLast cs := by
  intro c hc d hd
  rw [Command.closing?, action_of_closing? (h c hc) hd]
  rfl

/-- If a game adds no commands, those of rows are of the script's own language, -/
theorem isHost_of_made (s : Settings) (rows : List Row) :
    ∀ c ∈ (made .standard s rows).map Prod.snd, isHost c = false := by
  rw [← commandsOf_readRows]
  intro c hc
  obtain ⟨r, -, hread⟩ := read_of_mem hc
  rcases (Factory.makes_of_read hread).own_or_host with hown | ⟨name, reader, b, hreader, -, -⟩
  · unfold isHost
    split
    · rename_i action haction
      exact absurd haction (hown.own action)
    · rfl
  · cases hreader

/-- and so are all of a scenario. -/
theorem isHost_compile (s : Settings) (t : CellTable) :
    ∀ c ∈ (compile .standard s t).commands, isHost c = false := by
  have hmade := isHost_of_made s t.dataRows
  rw [← commandsOf_readRows] at hmade
  intro c hc
  rcases mem_closeRows hc with hrow | ⟨p, hp, -⟩ | ⟨d, hd, hclosing⟩
  · exact hmade c hrow
  · cases hp
  · rw [isHost, action_of_closing? (hmade d hd) hclosing]

/-! ## Compiling -/

/-- A menu that a line follows, with a row in between that cannot be read. -/
def openMenu : CellTable :=
  .ofRows "t" [["Command", "Arg1", "Text"], ["Selection", "*a", "on"], ["Selection", "*b", "off"],
    ["Teleport"], ["", "", "one"]]

end VisualNovel.Scenario
