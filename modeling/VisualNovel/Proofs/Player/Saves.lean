import Mathlib.Data.List.Induction
import VisualNovel.Proofs.Player.Pages
import VisualNovel.Proofs.Player.Stations

/-
  Save points lead to where a run stood. When a command begins a page, the run has passed the
  place where that page is found, and stood there before the command that is next (`Stood`). So
  every save point that a journal keeps leads to a station of some tick, if it leads anywhere
  (`saves_stand`).
-/

namespace VisualNovel.Player

open Asset (Loader LoaderCall)
open Command (Factory Request Settings)
open History (ReadHistory)
open Scenario (TableSource)
open Stage (Cue EndReason SavePoint)

variable {σ ℓ ς : Type}

/-! ## Save points -/

/-- A run stands where a save point leads: in the section of its label, or at the command that
    the label is put there by. -/
structure StandsAt (p : Player σ ℓ ς) (s : Scenario) (point : SavePoint) : Prop extends
    Stands p s where
  seek : s.seek point.label point.page = .ok p.cursor.index
  label : p.cursor.label = point.label ∨
    ∃ c, s.commands[p.cursor.index]? = some c ∧ c.label? = some point.label

/-- The save point that an event keeps. -/
def Event.save? : Event → Option SavePoint
  | note (.autosave point) => some point
  | _ => none

/-- The save points that events keep. -/
def savesOf (es : List Event) : List SavePoint := es.filterMap Event.save?

@[simp] theorem savesOf_nil : savesOf [] = [] := rfl

@[simp] theorem savesOf_append (es fs : List Event) :
    savesOf (es ++ fs) = savesOf es ++ savesOf fs := List.filterMap_append

@[simp] theorem savesOf_turn (t : Turn) (es : List Event) :
    savesOf (.turn t :: es) = savesOf es := rfl

@[simp] theorem savesOf_cue (c : Cue) (es : List Event) : savesOf (.cue c :: es) = savesOf es := rfl

@[simp] theorem savesOf_loader (calls : List LoaderCall) :
    savesOf (calls.map Event.loader) = [] := by
  induction calls with
  | nil => rfl
  | cons c calls ih => exact ih

@[simp] theorem savesOf_cues (cues : List Cue) : savesOf (cues.map Event.cue) = [] := by
  induction cues with
  | nil => rfl
  | cons c cues ih => exact ih

/-- No other note keeps a save point. -/
theorem savesOf_noted (p : Player σ ℓ ς) {n : ReadHistory.Note}
    (hn : ∀ point, n ≠ .autosave point) : savesOf (p.noted n) = [] := by
  unfold noted
  split
  · cases n with
    | autosave point => exact absurd rfl (hn point)
    | _ => rfl
  · rfl

/-- The save point of a page is kept when the page begins. -/
theorem eq_of_mem_savesOf_pageBegun {p : Player σ ℓ ς} {cursor : Cursor} {c : Command}
    {point : SavePoint} (h : point ∈ savesOf (p.pageBegun cursor c)) :
    c.beginsPage = true ∧ point = ⟨cursor.label, max cursor.page 0⟩ := by
  unfold pageBegun noted at h
  split at h
  · rename_i hbegins
    split at h
    · exact ⟨hbegins, List.mem_singleton.mp h⟩
    · cases h
  · cases h

@[simp] theorem savesOf_pageEnded (p : Player σ ℓ ς) (c : Command) :
    savesOf (p.pageEnded c) = [] := by
  unfold pageEnded
  split
  · exact p.savesOf_noted fun _ h => nomatch h
  · rfl

@[simp] theorem savesOf_givenBack [Loader ℓ] (p : Player σ ℓ ς) : savesOf p.givenBack.2 = [] := by
  unfold givenBack released
  cases p.active? <;> simp

/-! ## What keeps no save point -/

theorem saves_endGalleryScene (p : Player σ ℓ ς) :
    savesOf p.endGalleryScene.events = savesOf p.events := by
  unfold endGalleryScene
  split
  · rfl
  · rename_i scene _
    have hnone : savesOf (p.noted (.sceneViewed scene)) = [] :=
      p.savesOf_noted fun _ h => nomatch h
    rw [note_eq, events_append (p := p) rfl, savesOf_append]
    exact (congrArg _ hnone).trans (List.append_nil _)

theorem saves_notePageLeft (p : Player σ ℓ ς) :
    savesOf p.notePageLeft.events = savesOf p.events := by
  unfold notePageLeft
  split
  · have hnone : savesOf (p.noted (.pageRead p.cursor.label p.cursor.page)) = [] :=
      p.savesOf_noted fun _ h => nomatch h
    rw [note_eq, events_append (p := p) rfl, savesOf_append, hnone, List.append_nil]
  · rfl

variable [Stage σ] [Loader ℓ] [TableSource ς]

omit [Stage σ] in
theorem saves_begin (p : Player σ ℓ ς) (label : String) (page : Int) (gallery? : Option String) :
    savesOf (p.begin label page gallery?).events = savesOf p.events := by
  rw [begin_eq, events_append (p := p) rfl]
  simp

omit [TableSource ς] in
theorem saves_finish (p : Player σ ℓ ς) (reason : EndReason) :
    savesOf (p.finish reason).events = savesOf p.events := by
  rw [finish_eq, events_append (p := p) rfl]
  simp

omit [TableSource ς] in
theorem saves_finishIfUnderWay (p : Player σ ℓ ς) (reason : EndReason) :
    savesOf (p.finishIfUnderWay reason).events = savesOf p.events := by
  unfold finishIfUnderWay
  split
  · exact saves_finish p reason
  · rfl

omit [Stage σ] in
theorem saves_jump (p : Player σ ℓ ς) (label : String) :
    savesOf (p.jump label).events = savesOf p.events := by
  unfold jump
  rw [saves_begin, saves_notePageLeft]

theorem saves_handle (requests : List Request) (p : Player σ ℓ ς) :
    savesOf (handle requests p).1.events = savesOf p.events := by
  induction requests generalizing p with
  | nil => rfl
  | cons request rest ih =>
    cases request with
    | jump label => exact saves_jump p label
    | endScenario => exact saves_finish p .completed
    | stop => exact saves_finishIfUnderWay p .stopped
    | erase => exact saves_finishIfUnderWay p .erased
    | endSceneGallery => exact (ih p.endGalleryScene).trans (saves_endGalleryScene p)

/-! ## Where pages are found -/

/-- A run stood where the page that a place of a section is on is found. -/
structure Opened (s : Scenario) (m i : Nat) (label : String) (q : Player σ ℓ ς) : Prop extends
    Stands q s where
  le : m ≤ q.cursor.index
  start : s.PageStart m q.cursor.index
  count : s.boundaries m q.cursor.index = s.boundaries m i
  label : q.cursor.label = label ∨
    ∃ c, s.commands[q.cursor.index]? = some c ∧ c.label? = some label

omit [Stage σ] [Loader ℓ] [TableSource ς] in
/-- Behind a command the page is the same, unless it is one that begins there. -/
theorem Opened.turn {s : Scenario} {m i : Nat} {label : String} {page : Int} {q : Player σ ℓ ς}
    (h : Opened s m i label q) (hpage : OnPage s m i label page) {c : Command}
    (hc : s.commands[i]? = some c) : s.PageStart m (i + 1) ∨ Opened s m (i + 1) label q := by
  cases hbegins : c.beginsPage with
  | true => exact Or.inl (Scenario.pageStart_succ (hpage.lt_of_beginsPage hc hbegins) hc hbegins)
  | false =>
    refine Or.inr { h with count := h.count.trans ?_ }
    rcases Nat.eq_or_lt_of_le hpage.le with rfl | hlt
    · rw [s.boundaries_of_le (Nat.le_succ m), s.boundaries_of_le (Nat.le_refl _)]
    · rw [s.boundaries_succ hlt hc, hbegins]
      simp

omit [Stage σ] [Loader ℓ] [TableSource ς] in
/-- Where the page is found by its number is where the run stood. -/
theorem Opened.standsAt {s : Scenario} (hs : s.Compiled) (hclean : s.diagnostics = [])
    {m i : Nat} {label : String} {page : Int} {q : Player σ ℓ ς} (h : Opened s m i label q)
    (hpage : OnPage s m i label page) {point : SavePoint}
    (hpoint : point = ⟨label, max (s.boundaries m i : Int) 0⟩)
    (hfound : ∃ j, s.seek point.label point.page = .ok j) : StandsAt q s point := by
  subst hpoint
  obtain ⟨j, hj⟩ := hfound
  obtain ⟨f, settings, t, rfl⟩ := id hs
  obtain ⟨m', hm'⟩ := Scenario.labelIndex?_of_seek hj
  obtain ⟨c, hc, hcl⟩ := hpage.label
  obtain ⟨⟨d, hd, hdl⟩, -⟩ := hs.labelIndex?_eq_some.mp hm'
  obtain rfl : m = m' := Scenario.label_unique hclean hc hcl hd hdl
  obtain ⟨hmj, hcount, hstart⟩ := Scenario.boundaries_of_seek hm' hj
  have hsame : j = q.cursor.index := by
    refine hstart.unique h.start hmj h.le ?_
    rw [h.count]
    dsimp only at hcount
    omega
  exact { h.toStands with seek := hsame ▸ hj, label := h.label }

/-- A run is in a section, and stood where its page is found, unless that is where it is now.
    Where a command takes its assets the run stood before. The states that it stood in are of
    `V`. -/
structure Stood (V : Player σ ℓ ς → Prop) (p : Player σ ℓ ς) (s : Scenario) (m : Nat) : Prop
    extends InSection p s m where
  opened : s.PageStart m p.behind ∨ ∃ q, V q ∧ Opened s m p.behind p.cursor.label q
  loading : ∀ a, p.active? = some a → a.phase = .loading →
    ∃ q, V q ∧ q.Stands s ∧ q.cursor = p.cursor

variable {V : Player σ ℓ ς → Prop} {s : Scenario} {m : Nat}

omit [Stage σ] [Loader ℓ] [TableSource ς] in
theorem Stood.congr {p q : Player σ ℓ ς} (h : Stood V p s m) (hscenario : q.scenario? = p.scenario?)
    (hcursor : q.cursor = p.cursor) (hactive : q.active? = p.active?) : Stood V q s m :=
  { h.toInSection.congr hscenario hcursor hactive with
    opened := by
      rw [behind_congr hcursor hactive, hcursor]
      exact h.opened
    loading := by
      rw [hactive, hcursor]
      exact h.loading }

omit [Stage σ] [Loader ℓ] [TableSource ς] in
/-- If a run stood where it is now, it stood where its page is found. -/
theorem Stood.opened_of_stands {p q : Player σ ℓ ς} (h : Stood V p s m) (hv : V q)
    (hq : q.Stands s) (hcursor : q.cursor = p.cursor) (hbehind : p.behind = p.cursor.index) :
    ∃ q, V q ∧ Opened s m p.behind p.cursor.label q := by
  rcases h.opened with hstart | hopened
  · have hindex : q.cursor.index = p.behind := by rw [hcursor, hbehind]
    exact ⟨q, hv,
      { hq with
        le := hindex ▸ h.page.le
        start := hindex ▸ hstart
        count := by rw [hindex]
        label := Or.inl (by rw [hcursor]) }⟩
  · exact hopened

omit [Stage σ] [Loader ℓ] [TableSource ς] in
theorem Stood.skip {p : Player σ ℓ ς} (h : Stood V p s m) (hv : V p) (hp : p.Stands s)
    {c : Command} (hc : s.commands[p.cursor.index]? = some c) : Stood V (p.skip c) s m := by
  have hbehind := behind_of_idle hp.idle
  obtain ⟨q, hq, hopened⟩ := h.opened_of_stands hv hp rfl hbehind
  refine { h.toInSection.skip hp.idle hc with opened := ?_, loading := fun a ha => ?_ }
  · have hlabel : (p.skip c).cursor.label = p.cursor.label := by
      rw [skip_eq]
      simp
    rw [behind_skip hp.idle, hlabel]
    exact (hopened.turn h.page (hbehind ▸ hc)).imp_right fun hopened => ⟨q, hq, hopened⟩
  · rw [skip_eq] at ha
    cases hp.idle.symm.trans ha

omit [Stage σ] [TableSource ς] in
theorem Stood.activate {p : Player σ ℓ ς} (h : Stood V p s m) (hv : V p) (hp : p.Stands s)
    {c : Command} (hc : s.commands[p.cursor.index]? = some c) :
    Stood V (p.activate c).1 s m := by
  refine { h.toInSection.activate hp.idle hc with opened := ?_, loading := fun a ha _ => ?_ }
  · rw [behind_activate hp.idle, activate_eq]
    exact h.opened
  · rw [activate_eq]
    exact ⟨p, hv, hp, rfl⟩

/-- A save point leads to where a run stood, in a scenario without diagnostics, if it leads
    anywhere. -/
def Leads (V : Player σ ℓ ς → Prop) (point : SavePoint) : Prop :=
  ∃ q s, V q ∧ q.Stands s ∧
    (s.diagnostics = [] → (∃ j, s.seek point.label point.page = .ok j) → StandsAt q s point)

omit [TableSource ς] in
/-- Where a command that begins a page is executed, the run stood where the page is found. -/
theorem Stood.execute {p : Player σ ℓ ς} (h : Stood V p s m) {a : Active}
    (ha : p.active? = some a) (hphase : a.phase = .loading) :
    (∃ m', Stood V (p.execute a).1.settle s m') ∧
      ∀ point ∈ savesOf (p.executedEvents a), Leads V point := by
  obtain ⟨hindex, hc⟩ := h.active a ha
  have hbehind := behind_of_loading ha hphase
  obtain ⟨here, hvhere, hhere, hcursor⟩ := h.loading a ha hphase
  obtain ⟨q, hv, hopened⟩ := h.opened_of_stands hvhere hhere hcursor hbehind
  have hpage := h.page
  rw [hbehind, ← hindex] at hpage hopened
  obtain ⟨m', hsection, hlabel, hnumber⟩ := h.toInSection.execute ha hphase
  refine ⟨⟨m', { hsection with opened := ?_, loading := fun b hb hphase' => ?_ }⟩, ?_⟩
  · rw [h.behind_execute ha]
    cases hl : a.command.label? with
    | none =>
      rw [hl] at hlabel
      obtain ⟨hsame, rfl⟩ := Prod.mk.inj (Option.some.inj hlabel)
      rw [← hsame]
      exact (hopened.turn hpage hc).imp_right fun hopened => ⟨q, hv, hopened⟩
    | some l =>
      -- a label command is where its own first page is found
      rw [hl] at hlabel
      obtain ⟨rfl, rfl⟩ := Prod.mk.inj (Option.some.inj hlabel)
      have hat : here.cursor.index = a.index := by rw [hcursor, hindex]
      exact Or.inr ⟨here, hvhere,
        { hhere with
          le := Nat.le_of_eq hat.symm
          start := by
            rw [hat]
            exact s.pageStart_self a.index
          count := by
            rw [hat, s.boundaries_of_le (Nat.le_succ _), s.boundaries_of_le (Nat.le_refl _)]
          label := Or.inr ⟨a.command, by rw [hat]; exact hc, hl⟩ }⟩
  · obtain rfl := Option.some.inj ((p.execute_active a).symm.trans hb)
    cases hphase'
  · intro point hpoint
    have hcursors : (p.execute a).1.settle.cursor =
        (p.cursor.enter a.command).turnPage a.command := by
      rw [execute_eq]
      rfl
    have hmem : point ∈
        savesOf (p.pageBegun ((p.cursor.enter a.command).turnPage a.command) a.command) := by
      simpa [executedEvents] using hpoint
    obtain ⟨hbegins, rfl⟩ := eq_of_mem_savesOf_pageBegun hmem
    obtain ⟨-, hcount⟩ := hnumber hbegins
    rw [beginsPage_label hbegins] at hlabel
    obtain ⟨hsame, rfl⟩ := Prod.mk.inj (Option.some.inj hlabel)
    rw [hcursors] at hsame hcount
    exact ⟨q, s, hv, hopened.toStands, fun hclean hfound =>
      hopened.standsAt h.compiled hclean hpage (by rw [hsame, hcount]) hfound⟩

omit [TableSource ς] in
theorem Stood.complete {p : Player σ ℓ ς} (h : Stood V p s m) {a : Active}
    (ha : p.active? = some a) {since : Nat} (hphase : a.phase = .waiting since) :
    Stood V (p.completed a since).settle s m := by
  refine { h.toInSection.complete ha hphase with opened := ?_, loading := fun b hb _ => ?_ }
  · have hopened := h.opened
    rw [h.behind_waiting ha hphase] at hopened
    rw [behind_completed, settle_cursor, completed_cursor]
    exact hopened
  · cases (p.completed_active a since).symm.trans hb

/-! ## Playing on -/

/-- All save points that were kept lead to where the run stood. -/
def Kept (V : Player σ ℓ ς → Prop) (p : Player σ ℓ ς) : Prop :=
  ∀ point ∈ savesOf p.events, Leads V point

omit [Stage σ] [Loader ℓ] [TableSource ς] in
theorem Kept.congr {p q : Player σ ℓ ς} (h : Kept V p)
    (hsaves : savesOf q.events = savesOf p.events) : Kept V q := by
  intro point hpoint
  exact h point (hsaves ▸ hpoint)

omit [TableSource ς] in
theorem Kept.execute {p : Player σ ℓ ς} (hkept : Kept V p) (h : Stood V p s m) {a : Active}
    (ha : p.active? = some a) (hphase : a.phase = .loading) :
    Kept V (p.execute a).1.settle := by
  intro point hpoint
  have hes : (p.execute a).1.settle.events = p.events ++ p.executedEvents a :=
    p.execute_events a
  rw [hes, savesOf_append] at hpoint
  rcases List.mem_append.mp hpoint with hbefore | hnow
  · exact hkept point hbefore
  · exact (h.execute ha hphase).2 point hnow

omit [TableSource ς] in
theorem saves_completed (p : Player σ ℓ ς) (a : Active) (since : Nat) :
    savesOf (p.completed a since).settle.events = savesOf p.events := by
  have hes : (p.completed a since).settle.events = p.events ++
      p.doneEvents a (a.command.pick? (Stage.progress p.stage since) p.board) :=
    p.completed_events a since
  rw [hes]
  simp [doneEvents]

/-- Requests that let the run go on leave it in its section. -/
theorem Stood.handle {p q : Player σ ℓ ς} (h : Stood V p s m) {requests : List Request}
    (hq : handle requests p = (q, none)) : Stood V q s m := by
  have hgo := handle_goesOn hq
  exact h.congr hgo.scenario hgo.cursor hgo.active

theorem Kept.handle {p q : Player σ ℓ ς} (h : Kept V p) {requests : List Request}
    {status : Option Status} (hq : handle requests p = (q, status)) : Kept V q := by
  have hsaves := saves_handle requests p
  rw [hq] at hsaves
  exact h.congr hsaves

theorem Beat.stood {p q : Player σ ℓ ς} (h : Beat V p q) (hp : Stood V p s m)
    (hkept : Kept V p) : (∃ m', Stood V q s m') ∧ Kept V q := by
  cases h with
  | skip hv hstands hc =>
    obtain rfl := Option.some.inj (hstands.scenario.symm.trans hp.scenario)
    refine ⟨⟨m, hp.skip hv hstands hc⟩, hkept.congr ?_⟩
    rw [skip_eq, events_append (p := p) rfl]
    simp
  | activate hv hstands hc =>
    obtain rfl := Option.some.inj (hstands.scenario.symm.trans hp.scenario)
    refine ⟨⟨m, hp.activate hv hstands hc⟩, hkept.congr ?_⟩
    rw [activate_eq, events_append (p := p) rfl]
    simp
  | execute hplays hphase _ hr =>
    obtain ⟨⟨m', hstood⟩, -⟩ := hp.execute hplays.active hphase
    exact ⟨⟨m', hstood.handle hr⟩, (hkept.execute hp hplays.active hphase).handle hr⟩
  | leave hplays hphase _ hr =>
    exact ⟨⟨m, (hp.complete hplays.active hphase).handle hr⟩,
      (hkept.congr (p.saves_completed _ _)).handle hr⟩

theorem Beats.stood {p q : Player σ ℓ ς} (h : Beats V p q) (hp : Stood V p s m)
    (hkept : Kept V p) : (∃ m', Stood V q s m') ∧ Kept V q := by
  induction h with
  | refl => exact ⟨⟨m, hp⟩, hkept⟩
  | tail _ hlast ih =>
    obtain ⟨⟨m', hmid⟩, hkept'⟩ := ih
    exact hlast.stood hmid hkept'

/-- A request that does not let the run go on leaves it. -/
theorem handle_leaves {requests : List Request} {p q : Player σ ℓ ς} {status : Status}
    (hp : p.state = .running) (h : handle requests p = (q, some status)) :
    q.state ≠ .running := by
  induction requests generalizing p with
  | nil => cases h
  | cons request rest ih =>
    cases request with
    | jump label =>
      obtain ⟨rfl, -⟩ := Prod.mk.inj h
      unfold jump
      rw [begin_eq]
      exact fun h => nomatch h
    | endScenario =>
      obtain ⟨rfl, -⟩ := Prod.mk.inj h
      rw [finish_eq]
      exact fun h => nomatch h
    | stop | erase =>
      obtain ⟨rfl, -⟩ := Prod.mk.inj h
      simp only [stop, erase, finishIfUnderWay, isUnderWay_of_running hp, if_true, finish_eq]
      exact fun h => nomatch h
    | endSceneGallery => exact ih ((goesOn_endGalleryScene p).state.trans hp) h

theorem Close.stood {p q : Player σ ℓ ς} (h : Close p q) (hp : Stood V p s m)
    (hkept : Kept V p) : q.state ≠ .running ∧ Kept V q := by
  cases h with
  | execute hplays hphase _ hr =>
    exact ⟨handle_leaves (execute_plays hplays).state hr,
      (hkept.execute hp hplays.active hphase).handle hr⟩
  | leave hplays hphase _ hr =>
    exact ⟨handle_leaves (completed_stands hplays _).state hr,
      (hkept.congr (p.saves_completed _ _)).handle hr⟩
  | finish =>
    refine ⟨?_, hkept.congr (p.saves_finish .completed)⟩
    rw [finish_eq]
    exact fun h => nomatch h

/-! ## Every save point -/

/-- A run stood where its page is found, and where its save points lead. -/
structure Traced (V : Player σ ℓ ς → Prop) (p : Player σ ℓ ς) : Prop where
  stood : p.state = .running → ∃ s m, Stood V p s m
  kept : Kept V p

theorem Ends.traced {p q : Player σ ℓ ς} (h : Ends V p q) (hp : Stood V p s m)
    (hkept : Kept V p) : Traced V q := by
  cases h with
  | waits hbeats =>
    obtain ⟨⟨m', hstood⟩, hkept'⟩ := hbeats.stood hp hkept
    exact ⟨fun _ => ⟨s, m', hstood⟩, hkept'⟩
  | closed hbeats hclose =>
    obtain ⟨⟨m', hstood⟩, hkept'⟩ := hbeats.stood hp hkept
    obtain ⟨hleft, hkept''⟩ := hclose.stood hstood hkept'
    exact ⟨fun hstate => absurd hstate hleft, hkept''⟩

omit [Stage σ] [Loader ℓ] [TableSource ς] in
theorem Traced.left {p q : Player σ ℓ ς} (hp : Traced V p) (hstate : q.state ≠ .running)
    (hsaves : savesOf q.events = savesOf p.events) : Traced V q :=
  ⟨fun h => absurd h hstate, hp.kept.congr hsaves⟩

omit [Stage σ] [Loader ℓ] [TableSource ς] in
theorem Traced.mono {W : Player σ ℓ ς → Prop} (hVW : ∀ q, V q → W q) {p : Player σ ℓ ς}
    (hp : Traced V p) : Traced W p := by
  refine ⟨fun hstate => ?_, fun point hpoint => ?_⟩
  · obtain ⟨s, m, hstood⟩ := hp.stood hstate
    exact ⟨s, m,
      { hstood with
        opened := hstood.opened.imp_right fun ⟨q, hv, hq⟩ => ⟨q, hVW q hv, hq⟩
        loading := fun a ha hphase =>
          let ⟨q, hv, hq⟩ := hstood.loading a ha hphase
          ⟨q, hVW q hv, hq⟩ }⟩
  · obtain ⟨q, s, hv, hq⟩ := hp.kept point hpoint
    exact ⟨q, s, hVW q hv, hq⟩

/-- A tick plays on, or enters a run where a page is found. -/
theorem Traced.tick {p : Player σ ℓ ς} (hplaced : Placed p) (hp : Traced V p)
    (hv : ∀ q ∈ p.stations, V q) : Traced V p.tick.1 := by
  unfold stations at hv
  cases hstate : p.state with
  | idle | ended =>
    have htick : p.tick.1 = p := by
      unfold Player.tick
      rw [hstate]
    rw [htick]
    exact hp
  | running =>
    obtain ⟨s, m, hstood⟩ := hp.stood hstate
    rw [hstate, hstood.scenario] at hv
    rw [tick_of_running hstate hstood.scenario]
    exact (play_ends hv hstate hstood.scenario).traced hstood hp.kept
  | loading label page =>
    rw [hstate] at hv
    cases hloaded : TableSource.isLoaded p.source label with
    | false =>
      have htick : p.tick.1 = p := by
        unfold Player.tick
        rw [hstate]
        dsimp only
        rw [hloaded]
        rfl
      rw [htick]
      exact hp
    | true =>
      dsimp only at hv
      rw [hloaded, if_pos rfl] at hv
      rw [tick_of_loaded hstate hloaded]
      obtain ⟨hfound, hcorpus⟩ := fetch_cases p.corpus p.source label
      unfold enter
      rcases hfetch : p.corpus.fetch p.source label with ⟨corpus, scenario?⟩
      rw [hfetch] at hfound hcorpus hv
      dsimp only at hfound hcorpus hv ⊢
      have hcompiled : corpus.Compiled := by
        rcases hcorpus with rfl | ⟨t, rfl⟩
        · exact hplaced.corpus
        · exact hplaced.corpus.compile t
      subst hfound
      cases hs : corpus.scenario? label with
      | none =>
        refine hp.left ?_ (saves_finish { p with corpus } .completed)
        dsimp only
        rw [finish_eq]
        exact fun h => nomatch h
      | some s =>
        simp only [hs] at hv ⊢
        obtain ⟨hscenario, hlabel⟩ := hcompiled.scenario? hs
        obtain ⟨m, hm⟩ := Option.isSome_iff_exists.mp hlabel
        have hidle : p.active? = none :=
          hplaced.idle (by rw [hstate]; exact fun h => nomatch h)
        obtain ⟨hsection, hstart⟩ :=
          inSection_enter (p := { p with corpus }) hscenario hm hidle page
        have hentered : Stood V ({ p with corpus }.enterScenario s label page) s m :=
          { hsection with
            opened := Or.inl hstart
            loading := fun a ha => by
              rw [enterScenario_eq] at ha
              cases hidle.symm.trans ha }
        have hkept : Kept V ({ p with corpus }.enterScenario s label page) := by
          refine hp.kept.congr ?_
          rw [enterScenario_eq, events_append (p := p) rfl]
          simp
        refine (play_ends hv ?_ hsection.scenario).traced hentered hkept
        rw [enterScenario_eq]

/-- What comes from outside leaves the run or where it is, unless it is a tick. -/
theorem Traced.after {p : Player σ ℓ ς} (hplaced : Placed p) (hp : Traced V p)
    {i : Input σ ℓ ς} (hi : i = .tick → ∀ q ∈ p.stations, V q) : Traced V (p.after i) := by
  cases i with
  | tick => exact hp.tick hplaced (hi rfl)
  | start label page gallery? =>
    refine hp.left ?_ (saves_begin p _ _ _)
    simp only [Player.after, start, begin_eq]
    exact fun h => nomatch h
  | resume point =>
    refine hp.left ?_ (saves_begin p _ _ _)
    simp only [Player.after, resume, start, begin_eq]
    exact fun h => nomatch h
  | jump label =>
    refine hp.left ?_ (saves_jump p label)
    simp only [Player.after, jump, begin_eq]
    exact fun h => nomatch h
  | stop | erase =>
    refine hp.left ?_ (saves_finishIfUnderWay p _)
    simp only [Player.after, stop, erase, finishIfUnderWay]
    split
    · rw [finish_eq]
      exact fun h => nomatch h
    · rename_i hunder
      exact fun h => hunder (isUnderWay_of_running h)
  | stage | loader | source | params | compile | register | settings =>
    refine ⟨fun hstate => ?_, hp.kept⟩
    obtain ⟨s, m, hstood⟩ := hp.stood hstate
    exact ⟨s, m, hstood.congr rfl rfl rfl⟩

/-- Save points lead to where the run stood. Every save point that a journal keeps leads, if it
    leads anywhere in a scenario without diagnostics, to a station that some tick of the run
    passed through. -/
theorem saves_stand (stage : σ) (loader : ℓ) (source : ς) (factory : Factory)
    (settings : Settings) (cap : Nat) (params : Expression.Params) (galleryLabels : List String)
    (history? : Option ReadHistory) (inputs : List (Input σ ℓ ς)) :
    let p := ready stage loader source (.ofSettings factory settings) cap params galleryLabels
      history?
    ∀ point ∈ savesOf (p.afterAll inputs).events,
      Leads (fun q => ∃ xs ys, inputs = xs ++ .tick :: ys ∧ q ∈ (p.afterAll xs).stations)
        point := by
  intro p
  suffices h : Traced (fun q => ∃ xs ys, inputs = xs ++ .tick :: ys ∧
      q ∈ (p.afterAll xs).stations) (p.afterAll inputs) from h.kept
  induction inputs using List.reverseRecOn with
  | nil => exact ⟨fun h => (nomatch h), fun point h => absurd h (by simp [p, ready, events])⟩
  | append_singleton xs i ih =>
    have hplaced : Placed (p.afterAll xs) :=
      afterAll_preserve Placed.move Placed.change
        (placed_ready stage loader source factory settings cap params galleryLabels history?) xs
    rw [afterAll_append]
    refine (ih.mono ?_).after hplaced ?_
    · rintro q ⟨ys, zs, rfl, hq⟩
      exact ⟨ys, zs ++ [i], by simp, hq⟩
    · rintro rfl q hq
      exact ⟨xs, [], rfl, hq⟩

end VisualNovel.Player
