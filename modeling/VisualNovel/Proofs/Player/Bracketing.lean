import VisualNovel.Proofs.History.Furthest
import VisualNovel.Proofs.Player.Restart

/-
  Pages from their beginning to their end. The player tells of a page when its command is executed
  and when that is done, and of no other page in between, since the cursor stays where it is while
  the command is waited for (`Paging.opened`). Each time it makes its note at once
  (`Move.tellsPage`). As long as a run stays in a label, the pages that begin rise
  (`Paging.rising`). A game's own command may give such cues as well; these are told apart by
  their place, among the cues of a command that was just executed (`Recited`).
-/

namespace VisualNovel.Player

open Asset (FileLoader Loader)
open Command (Factory Settings)
open History (ReadHistory)
open Scenario (Library TableSource)
open Stage (Console Cue)
open Table (CellTable)

variable {σ ℓ ς : Type}

/-! ## Pages in a journal -/

/-- Whether a cue tells of a page. -/
def isPageCue : Cue → Bool
  | .pageBegin .. | .pageEnd .. => true
  | _ => false

/-- The next cue is one of a game's own command, which has just been executed and has given the
    cues before it. -/
def Recited (before : List Event) (cue : Cue) : Prop :=
  ∃ past r i u c action params given rest,
    before = past ++ .turn (.executed i u) :: given.map .cue ∧ runOf before = some r ∧
      r.scenario.commands[i]? = some c ∧ c.action = .host action ∧
      action.cues params = given ++ cue :: rest

/-- Whether a run is left for another with a turn. -/
def Turn.leaves : Turn → Bool
  | asked .. | entered .. => true
  | _ => false

/-- A run stays in its label: it is not left, and executes no label command. -/
def Run.Stays (r : Run) (ts : List Turn) : Prop :=
  ∀ t ∈ ts, t.leaves = false ∧ r.entered? t = none

/-- How a journal tells of pages, cues of a game's own apart: where a page begins, its place is
    kept next; where one ends, it is the one that began last, of which nothing was told since, and
    it is noted as read next; and of two that begin while a run stays in a label, the later one
    has the higher number. -/
structure Bracketed (es : List Event) : Prop where
  begins : ∀ before label page later, es = before ++ .cue (.pageBegin label page) :: later →
    Recited before (.pageBegin label page) ∨
      ∃ rest, later = .note (.autosave ⟨label, page⟩) :: rest
  ends : ∀ before label page later, es = before ++ .cue (.pageEnd label page) :: later →
    Recited before (.pageEnd label page) ∨
      (∃ rest, later = .note (.pageRead label page) :: rest) ∧
      ∃ past since, cuesOf since = [] ∧
        before = past ++ .cue (.pageBegin label page) :: .note (.autosave ⟨label, page⟩) :: since
  rises : ∀ before label page since label' page' later r,
    es = before ++ .cue (.pageBegin label page) ::
      (since ++ .cue (.pageBegin label' page') :: later) →
    ¬Recited before (.pageBegin label page) →
    ¬Recited (before ++ .cue (.pageBegin label page) :: since) (.pageBegin label' page') →
    runOf before = some r → r.Stays (turnsOf since) → label' = label ∧ page < page'

theorem Run.Stays.append {r : Run} {ts us : List Turn} :
    r.Stays (ts ++ us) ↔ r.Stays ts ∧ r.Stays us := List.forall_mem_append

/-- A run that stays in its label goes on. -/
theorem Run.Stays.follow {r : Run} {ts : List Turn} (h : r.Stays ts) :
    ts.foldl Run.follow (some r) = some (r.goOn ts) := by
  induction ts using List.reverseRecOn with
  | nil => simp [goOn]
  | append_singleton ts t ih =>
    obtain ⟨hts, ht⟩ := Run.Stays.append.mp h
    obtain ⟨hleaves, -⟩ := ht t (List.mem_singleton.mpr rfl)
    rw [List.foldl_append, ih hts]
    cases t with
    | asked | entered => cases hleaves
    | _ => simp [Run.follow, goOn]

/-! ## Pages in a move -/

/-- How a move tells of a page, with what it told before and after: a game's own command gives the
    cue; or the command of the next page is executed; or that of the page is done. -/
inductive TellsPage (p q : Player σ ℓ ς) : List Event → Cue → List Event → Prop
  | recited {told rest : List Event} {cue : Cue} (h : Recited (p.events ++ told) cue) :
      TellsPage p q told cue rest
  | begun {told : List Event} (hlabel : q.cursor.label = p.cursor.label)
      (hpage : q.cursor.page = p.cursor.page + 1) :
      TellsPage p q told (.pageBegin q.cursor.label q.cursor.page)
        [.note (.autosave ⟨q.cursor.label, q.cursor.page⟩)]
  | ended {a : Active} {since : Nat} {told rest : List Event} (ha : p.active? = some a)
      (hphase : a.phase = .waiting since) (hbegins : a.command.beginsPage = true)
      (htold : cuesOf told = []) :
      TellsPage p q told (.pageEnd p.cursor.label p.cursor.page)
        (.note (.pageRead p.cursor.label p.cursor.page) :: rest)

theorem isWord_of_isPageCue {cue : Cue} (h : isPageCue cue = true) : isWord cue = true := by
  cases cue <;> first | rfl | cases h

/-- A note is made by a player that keeps a history. -/
theorem noted_of_kept {p : Player σ ℓ ς} (h : p.history?.isSome = true) (n : ReadHistory.Note) :
    p.noted n = [.note n] := if_pos h

/-- Among events without cues there is none. -/
theorem not_split_of_cuesOf {es before later : List Event} {cue : Cue} (hes : cuesOf es = []) :
    es ≠ before ++ .cue cue :: later := by
  rintro rfl
  simp at hes

/-- The one cue among events is where it was given. -/
theorem split_cue (xs : List Event) {ys before later : List Event} {cue cue' : Cue}
    (hxs : cuesOf xs = []) (hys : cuesOf ys = [])
    (h : xs ++ .cue cue :: ys = before ++ .cue cue' :: later) :
    before = xs ∧ cue' = cue ∧ later = ys := by
  have hnone : ∀ es, cuesOf es = [] → Event.cue cue' ∉ es := fun es hes hmem => by
    simpa [hes] using mem_cuesOf.mpr hmem
  obtain ⟨hbefore, hsame, hlater⟩ := split_single (hnone xs hxs) (hnone ys hys) h
  exact ⟨hbefore, Event.cue.inj hsame, hlater⟩

/-- The page that a command begins is the next one of the label, and not before the first. -/
theorem InSection.turned {p : Player σ ℓ ς} {s : Scenario} {m : Nat} (h : InSection p s m)
    {c : Command} (hbegins : c.beginsPage = true) :
    ((p.cursor.enter c).turnPage c).label = p.cursor.label ∧
      ((p.cursor.enter c).turnPage c).page = p.cursor.page + 1 ∧ 0 ≤ p.cursor.page + 1 := by
  have hnumber := h.page.page
  have henter : p.cursor.enter c = p.cursor := by
    simp [Cursor.enter, beginsPage_label hbegins]
  rw [henter]
  exact ⟨Cursor.turnPage_label _ _, by simp [Cursor.turnPage, hbegins], by omega⟩

/-- A cue of a page among those of a command is one of a game's own. -/
theorem recited_of_own {past : List Event} {r : Run} {i : Nat} {u : List Bool} {c : Command}
    {state : Asset.Handle → Asset.LoadState} {b : Command.Board} {told rest : List Event}
    {cue : Cue} (hcue : isPageCue cue = true) (hc : r.scenario.commands[i]? = some c)
    (hrun : runOf (past ++ .turn (.executed i u) :: told) = some r)
    (hes : (c.action.cues state b).map .cue = told ++ .cue cue :: rest) :
    Recited (past ++ .turn (.executed i u) :: told) cue := by
  obtain ⟨given, left, hcues, rfl, hleft⟩ := List.map_eq_append_iff.mp hes
  obtain ⟨cue', left, rfl, hsame, -⟩ := List.map_eq_cons_iff.mp hleft
  obtain rfl := Event.cue.inj hsame
  have hmem : cue' ∈ c.action.cues state b := by simp [hcues]
  obtain ⟨action, params, haction, -⟩ := givesItself_of_mem_cues (isWord_of_isPageCue hcue) hmem
  rw [haction] at hcues
  exact ⟨past, r, i, u, c, action, b.params, given, left, rfl, hrun, hc, haction, hcues⟩

variable [Stage σ] [Loader ℓ] [TableSource ς]

omit [Stage σ] [TableSource ς] in
theorem tellsPage_of_execute {p q : Player σ ℓ ς} {r : Run} {m : Nat} (ht : Tracks p r m)
    (hkept : p.history?.isSome = true) {a : Active} (ha : p.active? = some a)
    (hcursor : q.cursor = (p.cursor.enter a.command).turnPage a.command)
    {told rest : List Event} {cue : Cue} (hcue : isPageCue cue = true)
    (hes : p.executedEvents a = told ++ .cue cue :: rest) : TellsPage p q told cue rest := by
  obtain ⟨hrun, -⟩ := cue_of_execute ht hes
  have hcalls : Event.cue cue ∉
      (p.moved a.index).2.2.map .loader ++ [.turn (.executed a.index (p.usableAt a))] := by simp
  rw [executedEvents, List.append_cons] at hes
  obtain ⟨told', rfl, hrest⟩ := split_behind hcalls hes
  rcases split_append hrest with ⟨told'', -, hpaged⟩ | ⟨since, hown, -⟩
  · -- the cue is behind those of the command
    unfold pageBegun at hpaged
    cases hbegins : a.command.beginsPage with
    | false =>
      rw [hbegins, if_neg Bool.false_ne_true] at hpaged
      simp at hpaged
    | true =>
      rw [hbegins, if_pos rfl, noted_of_kept hkept] at hpaged
      obtain ⟨hlabel, hpage, hnonneg⟩ := ht.toInSection.turned hbegins
      obtain ⟨-, rfl, rfl⟩ := split_cue [] rfl rfl hpaged
      rw [← hcursor] at hlabel hpage ⊢
      rw [max_eq_left (hpage ▸ hnonneg)]
      exact .begun hlabel hpage
  · have hplace : p.events ++ ((p.moved a.index).2.2.map .loader ++
        [.turn (.executed a.index (p.usableAt a))] ++ told') =
        p.events ++ (p.moved a.index).2.2.map .loader ++
          .turn (.executed a.index (p.usableAt a)) :: told' := by simp
    rw [hplace] at hrun
    exact .recited (hplace ▸ recited_of_own (r := r.goOn _) hcue (ht.active a ha).2 hrun hown)

omit [Stage σ] [TableSource ς] in
theorem tellsPage_of_complete {p q : Player σ ℓ ς} (hkept : p.history?.isSome = true) {a : Active}
    (ha : p.active? = some a) {since : Nat} (hphase : a.phase = .waiting since)
    {picked? : Option Nat} {told rest : List Event} {cue : Cue}
    (hes : p.doneEvents a picked? = told ++ .cue cue :: rest) : TellsPage p q told cue rest := by
  unfold doneEvents pageEnded at hes
  cases hbegins : a.command.beginsPage with
  | false =>
    rw [hbegins, if_neg Bool.false_ne_true] at hes
    exact absurd hes (not_split_of_cuesOf (by simp))
  | true =>
    rw [hbegins, if_pos rfl, noted_of_kept hkept] at hes
    obtain ⟨rfl, rfl, rfl⟩ := split_cue [.turn (.done a.index picked?)] rfl (by simp) hes
    exact .ended ha hphase hbegins rfl

/-- Whenever a move tells of a page, it does so in one of these ways. -/
theorem Move.tellsPage {p q : Player σ ℓ ς} (h : Move p q) (hp : Placed p)
    (hkept : p.history?.isSome = true) {told rest : List Event} {cue : Cue}
    (hcue : isPageCue cue = true) (hes : q.events = p.events ++ (told ++ .cue cue :: rest)) :
    TellsPage p q told cue rest := by
  have hnone : ∀ {es}, q.events = p.events ++ es → (∀ c ∈ cuesOf es, isPageCue c = false) →
      TellsPage p q told cue rest := by
    intro es hevents hothers
    obtain rfl := List.append_cancel_left (hevents.symm.trans hes)
    have hother := hothers cue (mem_cuesOf.mpr (List.mem_append_right _ List.mem_cons_self))
    rw [hcue] at hother
    cases hother
  cases h with
  | enter =>
    rw [enterScenario_eq] at hnone ⊢
    exact hnone (events_append rfl) (by simp)
  | skip =>
    rw [skip_eq] at hnone ⊢
    exact hnone (events_append rfl) (by simp)
  | activate =>
    rw [activate_eq] at hnone ⊢
    exact hnone (events_append rfl) (by simp)
  | @execute s a hplays hphase hload =>
    obtain ⟨r, m, ht⟩ := hp.tracks hplays.state
    rw [execute_eq] at hes
    have hexecuted : p.executedEvents a = told ++ .cue cue :: rest :=
      List.append_cancel_left ((events_append (p := p) rfl).symm.trans hes)
    refine tellsPage_of_execute ht hkept hplays.active ?_ hcue hexecuted
    rw [execute_eq]
    rfl
  | complete hplays hphase hdone =>
    rw [completed, complete_eq] at hes
    exact tellsPage_of_complete hkept hplays.active hphase
      (List.append_cancel_left ((events_append (p := p) rfl).symm.trans hes))
  | endGalleryScene =>
    obtain ⟨history?, es, -, -, -, hcues, heq⟩ := p.endGalleryScene_eq
    rw [heq] at hnone ⊢
    exact hnone (events_append rfl) (by simp [hcues])
  | notePageLeft =>
    obtain ⟨history?, es, -, -, -, hcues, heq⟩ := p.notePageLeft_eq
    rw [heq] at hnone ⊢
    exact hnone (events_append rfl) (by simp [hcues])
  | begin =>
    rw [begin_eq] at hnone ⊢
    exact hnone (events_append rfl) (by simp)
  | finish reason hunder =>
    rw [finish_eq] at hnone ⊢
    exact hnone (events_append rfl) (by simp [isPageCue])
  | compile => exact hnone (List.append_nil _).symm (by simp)

theorem Cursor.page_le_turnPage (cur : Cursor) (c : Command) :
    cur.page ≤ (cur.turnPage c).page := by
  unfold turnPage
  split
  · exact Int.le_add_one le_rfl
  · exact le_rfl

/-- While a run stays in its label, the cursor does so as well, and goes back to no earlier page. -/
theorem Move.stays {p q : Player σ ℓ ς} (h : Move p q) (hp : Placed p) {es : List Event}
    (hes : q.events = p.events ++ es) {r : Run} (hrun : runOf p.events = some r)
    (hstays : r.Stays (turnsOf es)) :
    q.cursor.label = p.cursor.label ∧ p.cursor.page ≤ q.cursor.page := by
  have hturns : ∀ {fs}, q.events = p.events ++ fs → r.Stays (turnsOf fs) := fun hfs =>
    List.append_cancel_left (hes.symm.trans hfs) ▸ hstays
  cases h with
  | enter =>
    rw [enterScenario_eq] at hturns
    cases (hturns (events_append rfl) _ (List.mem_singleton.mpr rfl)).1
  | @skip s c =>
    rw [skip_eq]
    exact ⟨p.cursor.turnPage_label c, p.cursor.page_le_turnPage c⟩
  | activate =>
    rw [activate_eq]
    exact ⟨rfl, le_rfl⟩
  | @execute s a hplays hphase hload =>
    obtain ⟨r', m, ht⟩ := hp.tracks hplays.state
    obtain rfl := Option.some.inj (hrun.symm.trans ht.run)
    have hexecuted : r.Stays (turnsOf (p.executedEvents a)) := by
      rw [execute_eq] at hturns
      exact hturns (events_append rfl)
    rw [turnsOf_executedEvents] at hexecuted
    obtain ⟨-, hentered⟩ := hexecuted _ (List.mem_singleton.mpr rfl)
    rw [Run.entered?_executed _ (ht.active a hplays.active).2, Option.map_eq_none_iff] at hentered
    have henter : p.cursor.enter a.command = p.cursor := by simp [Cursor.enter, hentered]
    rw [settle_cursor, execute_eq]
    dsimp only
    rw [henter]
    exact ⟨p.cursor.turnPage_label _, p.cursor.page_le_turnPage _⟩
  | complete =>
    rw [settle_cursor, completed_cursor]
    exact ⟨rfl, le_rfl⟩
  | endGalleryScene =>
    obtain ⟨history?, es, -, -, -, -, heq⟩ := p.endGalleryScene_eq
    rw [heq]
    exact ⟨rfl, le_rfl⟩
  | notePageLeft =>
    obtain ⟨history?, es, -, -, -, -, heq⟩ := p.notePageLeft_eq
    rw [heq]
    exact ⟨rfl, le_rfl⟩
  | begin label page gallery? =>
    rw [begin_eq] at hturns
    have hasked := hturns (events_append rfl) (.asked label page) (by simp)
    cases hasked.1
  | finish =>
    rw [finish_eq]
    exact ⟨rfl, le_rfl⟩
  | compile => exact ⟨rfl, le_rfl⟩

/-! ## Pages under way -/

/-- The page that the cursor is on has begun, its place is kept, and no cue was given since. -/
def PageOpen (p : Player σ ℓ ς) : Prop :=
  ∃ past since, cuesOf since = [] ∧
    p.events = past ++ .cue (.pageBegin p.cursor.label p.cursor.page) ::
      .note (.autosave ⟨p.cursor.label, p.cursor.page⟩) :: since

/-- What the events of a player tell of its cursor: while a command that begins a page is waited
    for, that page is open; and of the pages that began since the run entered its label, it is on
    the last or behind it. -/
structure Paging (p : Player σ ℓ ς) : Prop extends Placed p where
  kept : p.history?.isSome = true
  opened : ∀ a since, p.active? = some a → a.phase = .waiting since →
    a.command.beginsPage = true → PageOpen p
  rising : ∀ before label page since r,
    p.events = before ++ .cue (.pageBegin label page) :: since →
    ¬Recited before (.pageBegin label page) → runOf before = some r → r.Stays (turnsOf since) →
    p.cursor.label = label ∧ page ≤ p.cursor.page

omit [Stage σ] [Loader ℓ] [TableSource ς] in
theorem PageOpen.goOn {p q : Player σ ℓ ς} (h : PageOpen p) {es : List Event}
    (hes : q.events = p.events ++ es) (hcues : cuesOf es = []) (hcursor : q.cursor = p.cursor) :
    PageOpen q := by
  obtain ⟨past, since, hsince, hevents⟩ := h
  exact ⟨past, since ++ es, by simp [hsince, hcues], by simp [hes, hevents, hcursor]⟩

omit [Stage σ] [TableSource ς] in
/-- The page of a command that is executed is open. -/
theorem pageOpen_of_execute {p q : Player σ ℓ ς} {s : Scenario} {m : Nat} (hp : InSection p s m)
    (hkept : p.history?.isSome = true) {a : Active} (hbegins : a.command.beginsPage = true)
    (hcursor : q.cursor = (p.cursor.enter a.command).turnPage a.command)
    (hes : q.events = p.events ++ p.executedEvents a) : PageOpen q := by
  obtain ⟨-, hpage, hnonneg⟩ := hp.turned hbegins
  refine ⟨p.events ++ ((p.moved a.index).2.2.map .loader ++
    .turn (.executed a.index (p.usableAt a)) :: (p.outcome a).2.map .cue), [], rfl, ?_⟩
  rw [hes, executedEvents, pageBegun, if_pos hbegins, noted_of_kept hkept, ← hcursor,
    max_eq_left (by rw [hcursor, hpage]; exact hnonneg)]
  simp

/-- A command that begins a page and is waited for has its page open. -/
theorem Paging.opened_move {p q : Player σ ℓ ς} (h : Move p q) (hp : Paging p) {a : Active}
    {since : Nat} (ha : q.active? = some a) (hphase : a.phase = .waiting since)
    (hbegins : a.command.beginsPage = true) : PageOpen q := by
  cases h with
  | enter hstate hs =>
    rw [enterScenario_eq] at ha
    cases (hp.idle (by rw [hstate]; exact State.noConfusion)).symm.trans ha
  | skip hstands hc hskip =>
    rw [skip_eq] at ha
    cases hstands.idle.symm.trans ha
  | activate =>
    rw [activate_eq] at ha
    obtain rfl := Option.some.inj ha
    cases hphase
  | @execute s b hplays hloading hload =>
    obtain ⟨r, m, ht⟩ := hp.tracks hplays.state
    obtain rfl := Option.some.inj ((p.execute_active b).symm.trans ha)
    rw [execute_eq]
    exact pageOpen_of_execute ht.toInSection hp.kept hbegins rfl (events_append rfl)
  | @complete s b since' => cases (p.completed_active b since').symm.trans ha
  | endGalleryScene =>
    obtain ⟨history?, es, -, -, -, hcues, heq⟩ := p.endGalleryScene_eq
    rw [heq] at ha ⊢
    exact (hp.opened a since ha hphase hbegins).goOn (events_append rfl) hcues rfl
  | notePageLeft =>
    obtain ⟨history?, es, -, -, -, hcues, heq⟩ := p.notePageLeft_eq
    rw [heq] at ha ⊢
    exact (hp.opened a since ha hphase hbegins).goOn (events_append rfl) hcues rfl
  | begin =>
    rw [begin_eq] at ha
    cases ha
  | finish =>
    rw [finish_eq] at ha
    cases ha
  | compile => exact hp.opened a since ha hphase hbegins

theorem Paging.rising_move {p q : Player σ ℓ ς} (h : Move p q) (hp : Paging p)
    {before since : List Event} {label : String} {page : Int} {r : Run}
    (hes : q.events = before ++ .cue (.pageBegin label page) :: since)
    (hown : ¬Recited before (.pageBegin label page)) (hrun : runOf before = some r)
    (hstays : r.Stays (turnsOf since)) : q.cursor.label = label ∧ page ≤ q.cursor.page := by
  obtain ⟨added, hadded⟩ := h.grows
  rcases split_append (hadded ▸ hes) with ⟨told, rfl, htold⟩ | ⟨since', hbefore, rfl⟩
  · -- the page began with this move
    cases h.tellsPage hp.toPlaced hp.kept rfl (htold ▸ hadded) with
    | recited hrecited => exact absurd hrecited hown
    | begun => exact ⟨rfl, le_rfl⟩
  · rw [turnsOf_append, Run.Stays.append] at hstays
    obtain ⟨hlabel, hpage⟩ := hp.rising before label page since' r hbefore hown hrun hstays.1
    have hnow : runOf p.events = some (r.goOn (turnsOf since')) := by
      rw [hbefore, runOf_append, hrun]
      exact hstays.1.follow
    obtain ⟨hlabel', hpage'⟩ := h.stays hp.toPlaced hadded hnow hstays.2
    exact ⟨hlabel'.trans hlabel, hpage.trans hpage'⟩

theorem Paging.move {p q : Player σ ℓ ς} (h : Move p q) (hp : Paging p) : Paging q :=
  { hp.toPlaced.move h with
    kept := h.keeps.trans hp.kept
    opened := fun _ _ => hp.opened_move h
    rising := fun _ _ _ _ _ => hp.rising_move h }

omit [Stage σ] [Loader ℓ] [TableSource ς] in
theorem Paging.change {p q : Player σ ℓ ς} (h : Change p q) (hp : Paging p) : Paging q := by
  have hplaced := hp.toPlaced.change h
  cases h <;> exact { hplaced with kept := hp.kept, opened := hp.opened, rising := hp.rising }

/-! ## Whole journals -/

omit [Stage σ] [Loader ℓ] [TableSource ς] in
theorem paging_ready (stage : σ) (loader : ℓ) (source : ς) (factory : Factory)
    (settings : Settings) (cap : Nat) (params : Expression.Params) (galleryLabels : List String)
    (history : ReadHistory) :
    Paging (ready stage loader source (.ofSettings factory settings) cap params galleryLabels
      (some history)) :=
  { placed_ready stage loader source factory settings cap params galleryLabels _ with
    kept := rfl
    opened := fun _ _ h => nomatch h
    rising := fun _ _ _ _ _ hes => absurd (congrArg List.length hes) (by simp [events, ready]) }

/-- Every word of a page in a journal was told by a move. -/
theorem Paging.tellsPage {p : Player σ ℓ ς} (hp : Paging p) (hfirst : p.events = [])
    {inputs : List (Input σ ℓ ς)} {before later : List Event} {cue : Cue}
    (hcue : isPageCue cue = true)
    (hes : (p.afterAll inputs).events = before ++ .cue cue :: later) :
    ∃ (q q' : Player σ ℓ ς) (told rest more : List Event), Paging q ∧ Move q q' ∧
      before = q.events ++ told ∧ q'.events = q.events ++ (told ++ .cue cue :: rest) ∧
      later = rest ++ more ∧ TellsPage q q' told cue rest := by
  obtain ⟨xs, i, ys, q, q', told, rest, more, rfl, hq, hmove, hq', rfl, hevents, hlater⟩ :=
    moment_of_event hes (by simp [hfirst])
  have hpaging : Paging q :=
    hq.preserve Paging.move (afterAll_preserve Paging.move Paging.change hp xs)
  rw [List.append_assoc] at hevents
  exact ⟨q, q', told, rest, more, hpaging, hmove, rfl, hevents, hlater,
    hmove.tellsPage hpaging.toPlaced hpaging.kept hcue hevents⟩

theorem Paging.rises {p : Player σ ℓ ς} (hp : Paging p) (hfirst : p.events = [])
    {inputs : List (Input σ ℓ ς)} {before since later : List Event} {label label' : String}
    {page page' : Int} {r : Run}
    (hes : (p.afterAll inputs).events = before ++ .cue (.pageBegin label page) ::
      (since ++ .cue (.pageBegin label' page') :: later))
    (hown : ¬Recited before (.pageBegin label page))
    (hown' : ¬Recited (before ++ .cue (.pageBegin label page) :: since) (.pageBegin label' page'))
    (hrun : runOf before = some r) (hstays : r.Stays (turnsOf since)) :
    label' = label ∧ page < page' := by
  rw [← List.cons_append, ← List.append_assoc] at hes
  obtain ⟨q, q', told, rest, more, hq, hmove, hbefore, hq', -, htells⟩ :=
    hp.tellsPage hfirst rfl hes
  cases htells with
  | recited h => exact absurd (hbefore ▸ h) hown'
  | begun hlabel hpage =>
    rcases split_append hbefore.symm with ⟨told', rfl, rfl⟩ | ⟨since', hevents, rfl⟩
    · -- no page begins with the same move before
      rw [List.append_assoc, List.cons_append] at hq'
      have htells' := hmove.tellsPage hq.toPlaced hq.kept rfl hq'
      generalize hrest : since ++ _ :: _ = rest' at htells'
      cases htells' with
      | recited h => exact absurd h hown
      | begun => exact absurd hrest.symm (not_split_of_cuesOf rfl)
    · rw [turnsOf_append, Run.Stays.append] at hstays
      obtain ⟨hsame, hle⟩ := hq.rising before label page since' r hevents hown hrun hstays.1
      exact ⟨hlabel.trans hsame, by omega⟩

theorem Paging.bracketed {p : Player σ ℓ ς} (hp : Paging p) (hfirst : p.events = [])
    (inputs : List (Input σ ℓ ς)) : Bracketed (p.afterAll inputs).events where
  begins before label page later hes := by
    obtain ⟨q, q', told, rest, more, -, -, rfl, -, rfl, htells⟩ := hp.tellsPage hfirst rfl hes
    cases htells with
    | recited h => exact Or.inl h
    | begun => exact Or.inr ⟨more, rfl⟩
  ends before label page later hes := by
    obtain ⟨q, q', told, rest, more, hq, -, rfl, -, rfl, htells⟩ := hp.tellsPage hfirst rfl hes
    cases htells with
    | recited h => exact Or.inl h
    | ended ha hphase hbegins htold =>
      obtain ⟨past, since, hsince, hevents⟩ := hq.opened _ _ ha hphase hbegins
      refine Or.inr ⟨⟨_, rfl⟩, past, since ++ told, ?_, ?_⟩
      · rw [cuesOf_append, hsince, htold, List.append_nil]
      · rw [hevents, List.append_assoc, List.cons_append, List.cons_append]
  rises _ _ _ _ _ _ _ _ hes hown hown' hrun hstays := hp.rises hfirst hes hown hown' hrun hstays

/-- What a history holds of the pages noted among events, and of an earlier history: the pages up
    to those noted are read, and no label has fallen back. -/
structure Remembers (es : List Event) (earlier later : ReadHistory) : Prop where
  read : ∀ label page q, .note (.pageRead label page) ∈ es → q ≤ page →
    later.isPageRead label q = true
  further : earlier.Extends later

omit [Stage σ] [Loader ℓ] [TableSource ς] in
/-- Whatever is noted later, the notes among events are remembered. -/
theorem remembers_noteAll {h : ReadHistory}
    (hh : ReadHistory.Ordered (h.pages.map Prod.fst)) (es : List Event)
    (notes : List ReadHistory.Note) :
    Remembers es (noteAll h (notesOf es)) (noteAll (noteAll h (notesOf es)) notes) := by
  have hlater := (ReadHistory.extends_records (ReadHistory.pagesOrdered_records hh (notesOf es))
    notes).1
  obtain ⟨-, hread⟩ := ReadHistory.extends_records hh (notesOf es)
  refine ⟨fun label page q hnoted hq => ?_, hlater⟩
  exact hlater.isPageRead (hread label page q (mem_notesOf.mpr hnoted) hq)

/-- Pages are bracketed and recorded. Where the player begins a page, its place is kept next.
    Where it ends one, this is the page that began last, no other is told of in between, and it is
    noted as read next. While a run stays in a label, the pages that begin rise. A page that was
    noted as read is read afterwards with all pages before it, whatever comes, from the player or
    to the history in other ways; and no label's furthest page is ever a nearer one again. -/
theorem pages_are_bracketed (stage : σ) (loader : ℓ) (source : ς) (factory : Factory)
    (settings : Settings) (cap : Nat) (params : Expression.Params) (galleryLabels : List String)
    (history : ReadHistory) (hordered : ReadHistory.Ordered (history.pages.map Prod.fst))
    (inputs : List (Input σ ℓ ς)) :
    let p := (ready stage loader source (.ofSettings factory settings) cap params galleryLabels
      (some history)).afterAll inputs
    Bracketed p.events ∧ ∃ now, p.history? = some now ∧
      (∀ notes, Remembers p.events now (noteAll now notes)) ∧
      ∀ more, ∃ later, (p.afterAll more).history? = some later ∧
        Remembers p.events now later := by
  intro p
  have hp := paging_ready stage loader source factory settings cap params galleryLabels history
  refine ⟨hp.bracketed rfl inputs, ?_⟩
  obtain ⟨es, hes, hnow⟩ := history_afterAll (ready stage loader source
    (.ofSettings factory settings) cap params galleryLabels (some history)) inputs
  rw [show p.events = es from hes]
  refine ⟨_, hnow, remembers_noteAll hordered es, fun more => ?_⟩
  obtain ⟨fs, -, hlater⟩ := p.history_afterAll more
  exact ⟨_, by rw [hlater, hnow]; rfl, remembers_noteAll hordered es (notesOf fs)⟩

/-- A label with two pages. -/
def pagedLabel : CellTable :=
  .ofRows "t" [["Command", "Arg1", "Text"], ["*a"], ["", "", "one"], ["", "", "two"]]

omit [Stage σ] [Loader ℓ] [TableSource ς] in
theorem page_is_closed_and_read :
    let p := (reader pagedLabel).afterAll [.start "a" 0 none, .tick, .tick]
    ReadHistory.Ordered (ReadHistory.empty.pages.map Prod.fst) ∧ Bracketed p.events ∧
      .cue (.pageEnd "a" 0) ∈ p.events ∧
      ∃ now, p.history? = some now ∧ now.isPageRead "a" 0 = true := by
  intro p
  have hordered : ReadHistory.Ordered (ReadHistory.empty.pages.map Prod.fst) := List.Pairwise.nil
  obtain ⟨hbracketed, now, hnow, hremembers, -⟩ := pages_are_bracketed (Console.ofPicks [])
    (FileLoader.ofRoot ⟨[], []⟩ "") (Library.empty.insert pagedLabel true) .standard .standard 4
    ∅ [] .empty hordered [.start "a" 0 none, .tick, .tick]
  have hnoted : .note (.pageRead "a" 0) ∈ p.events := mem_notesOf.mp (by decide +kernel)
  exact ⟨hordered, hbracketed, mem_cuesOf.mp (by decide +kernel), now, hnow,
    (hremembers []).read "a" 0 0 hnoted le_rfl⟩

end VisualNovel.Player
