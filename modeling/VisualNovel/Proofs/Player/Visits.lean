import Mathlib.Data.List.Range
import VisualNovel.Proofs.Player.Pages

/-
  What a player still knows of its last run. The cursor stays where it was when a run ends, and
  also when another run is asked for, until that one is entered. So it fits the run that the
  journal entered last, over or not: it is in the section of the label that this run was in, on
  the page of the place that it came to. Up to there the run passed every command once, over it
  or with it, and began the pages of those it executed (`Recalls`).
-/

namespace VisualNovel.Player

open Asset (Loader)
open Command (Factory Settings)
open Scenario (TableSource)
open Stage (Cue)

variable {σ ℓ ς : Type}

/-! ## The last run of a journal -/

/-- The last run after a turn; it stays the last one when another is asked for. -/
def Run.outlast (r? : Option Run) : Turn → Option Run
  | .entered scenario start => some ⟨scenario, start, []⟩
  | .asked .. => r?
  | t => r?.map fun r => { r with turns := r.turns ++ [t] }

/-- The run that a journal entered last, over or not. -/
def lastRun (es : List Event) : Option Run := (turnsOf es).foldl Run.outlast none

theorem lastRun_append (es fs : List Event) :
    lastRun (es ++ fs) = (turnsOf fs).foldl Run.outlast (lastRun es) := by
  rw [lastRun, turnsOf_append, List.foldl_append]
  rfl

/-- A run that is under way is the last one. -/
theorem lastRun_of_runOf {es : List Event} {r : Run} (h : runOf es = some r) :
    lastRun es = some r := by
  suffices hboth : ∀ (ts : List Turn) (x y : Option Run), (x = none ∨ x = y) →
      ts.foldl Run.follow x = none ∨ ts.foldl Run.follow x = ts.foldl Run.outlast y by
    rcases hboth (turnsOf es) none none (Or.inl rfl) with hnone | hsame
    · cases hnone.symm.trans h
    · exact hsame.symm.trans h
  intro ts
  induction ts with
  | nil => exact fun x y hxy => hxy
  | cons t ts ih =>
    intro x y hxy
    refine ih _ _ ?_
    cases t with
    | asked => exact Or.inl rfl
    | entered => exact Or.inr rfl
    | skipped | begun | executed | done | released =>
      rcases hxy with rfl | rfl
      · exact Or.inl rfl
      · exact Or.inr rfl

/-- The place of the command that a run passes with a turn. -/
def Turn.place? : Turn → Option Nat
  | skipped k | executed k _ => some k
  | _ => none

/-- The places of the commands that a run passed. -/
def Run.places (r : Run) : List Nat := r.turns.filterMap Turn.place?

/-- The place that a run came to. -/
def Run.behind (r : Run) : Nat := r.start.index + r.places.length

theorem Run.places_goOn (r : Run) (ts : List Turn) :
    (r.goOn ts).places = r.places ++ ts.filterMap Turn.place? := List.filterMap_append

theorem Run.behind_goOn (r : Run) (ts : List Turn) :
    (r.goOn ts).behind = r.behind + (ts.filterMap Turn.place?).length := by
  rw [behind, places_goOn, List.length_append, ← Nat.add_assoc]
  rfl

/-- A command that was passed was executed unless it was passed over. -/
theorem Run.executed_of_places {r : Run} {k : Nat} (h : k ∈ r.places)
    (hskip : .skipped k ∉ r.turns) : ∃ u, .executed k u ∈ r.turns := by
  obtain ⟨t, ht, hk⟩ := List.mem_filterMap.mp h
  cases t with
  | skipped j =>
    obtain rfl : j = k := Option.some.inj hk
    exact absurd ht hskip
  | executed j u =>
    obtain rfl : j = k := Option.some.inj hk
    exact ⟨u, ht⟩
  | _ => cases hk

theorem Run.mem_places_of_executed {r : Run} {k : Nat} {u : List Bool}
    (h : .executed k u ∈ r.turns) : k ∈ r.places := List.mem_filterMap.mpr ⟨_, h, rfl⟩

/-- A turn that passes no command enters no label. -/
theorem Run.findSome?_entered_of_places {r : Run} {ts : List Turn}
    (h : ts.filterMap Turn.place? = []) : ts.reverse.findSome? r.entered? = none := by
  refine List.findSome?_eq_none_iff.mpr fun t ht => ?_
  have hplace := List.filterMap_eq_nil_iff.mp h t (List.mem_reverse.mp ht)
  cases t with
  | executed => cases hplace
  | _ => rfl

/-- A turn that leaves a run where it is. -/
def Turn.Rests : Turn → Prop
  | entered .. | skipped _ | executed .. => False
  | _ => True

/-- Turns that leave a run where it is are part of it, or ask for another one. -/
theorem Run.foldl_outlast_of_rests {ts : List Turn} (h : ∀ t ∈ ts, t.Rests) (r? : Option Run) :
    ∃ us : List Turn, us.filterMap Turn.place? = [] ∧
      ts.foldl Run.outlast r? = r?.map fun r => r.goOn us := by
  induction ts generalizing r? with
  | nil => exact ⟨[], rfl, by cases r? <;> simp [goOn]⟩
  | cons t ts ih =>
    obtain ⟨us, hus, hrest⟩ := ih (fun u hu => h u (List.mem_cons_of_mem _ hu)) (outlast r? t)
    have hrests := h t List.mem_cons_self
    rw [List.foldl_cons, hrest]
    cases t with
    | entered | skipped | executed => exact hrests.elim
    | asked => exact ⟨us, hus, rfl⟩
    | begun k => exact ⟨.begun k :: us, hus, by cases r? <;> simp [outlast, goOn]⟩
    | done k picked? => exact ⟨.done k picked? :: us, hus, by cases r? <;> simp [outlast, goOn]⟩
    | released k => exact ⟨.released k :: us, hus, by cases r? <;> simp [outlast, goOn]⟩

/-! ## What a player recalls -/

/-- The cursor of a player fits the last run of its journal. The run passed the commands from
    where it began up to the place it came to, one after the other. The cursor is in the section
    of the label's command at `m`, on the page of that place. Of the pages since that command
    those have begun whose commands were executed, and the labels since then were passed over. -/
structure Recalls (p : Player σ ℓ ς) (r : Run) (m : Nat) : Prop where
  run : lastRun p.events = some r
  compiled : r.scenario.Compiled
  passed : r.places = List.range' r.start.index r.places.length
  page : OnPage r.scenario m r.behind p.cursor.label p.cursor.page
  within : r.places ≠ [] → m < r.behind
  label : r.lastLabel? = some (p.cursor.label, m)
  begun : ∀ k u c, .executed k u ∈ r.turns → m < k → r.scenario.commands[k]? = some c →
    c.beginsPage = true →
      .cue (.pageBegin p.cursor.label (r.scenario.boundaries m k)) ∈ p.events
  skips : ∀ k c l, m < k → k < r.behind → r.scenario.commands[k]? = some c → c.label? = some l →
    .skipped k ∈ r.turns
  here : p.state = .running → p.behind = r.behind
  waiting : ∀ a since, p.active? = some a → a.phase = .waiting since →
    ∃ u, .executed a.index u ∈ r.turns

/-- Every command from where a run began up to the place it came to was passed. -/
theorem Recalls.mem_places {p : Player σ ℓ ς} {r : Run} {m : Nat} (h : Recalls p r m) {k : Nat} :
    k ∈ r.places ↔ r.start.index ≤ k ∧ k < r.behind := by
  rw [h.passed, List.mem_range'_1]
  rfl

/-- The last run stays recalled where turns leave it where it is. -/
theorem Recalls.rest {p q : Player σ ℓ ς} {r : Run} {m : Nat} (h : Recalls p r m)
    {es : List Event} (hes : q.events = p.events ++ es) (hrests : ∀ t ∈ turnsOf es, t.Rests)
    (hlabel : q.cursor.label = p.cursor.label) (hpage : q.cursor.page = p.cursor.page)
    (hhere : q.state = .running → p.state = .running ∧ q.behind = p.behind)
    (hwaiting : ∀ a since, q.active? = some a → a.phase = .waiting since → p.active? = some a) :
    ∃ r', Recalls q r' m := by
  obtain ⟨us, hus, hrun⟩ := Run.foldl_outlast_of_rests hrests (some r)
  have hplaces : (r.goOn us).places = r.places := by rw [Run.places_goOn, hus, List.append_nil]
  have hbehind : (r.goOn us).behind = r.behind := by rw [Run.behind_goOn, hus]; rfl
  refine ⟨r.goOn us, ?_, h.compiled, by rw [hplaces]; exact h.passed, ?_, ?_, ?_, ?_,
    fun k c l hmk hk hc hl => ?_, fun hq => ?_, fun a since ha hphase => ?_⟩
  · rw [hes, lastRun_append, h.run]
    exact hrun
  · rw [hbehind, hlabel, hpage]
    exact h.page
  · rw [hbehind, hplaces]
    exact h.within
  · rw [Run.lastLabel?_goOn, Run.findSome?_entered_of_places hus, hlabel]
    exact h.label
  · intro k u c hk hmk hc hbegins
    have hold : .executed k u ∈ r.turns := by
      rcases List.mem_append.mp hk with hk | hk
      · exact hk
      · cases List.filterMap_eq_nil_iff.mp hus _ hk
    rw [hes, hlabel]
    exact List.mem_append_left _ (h.begun k u c hold hmk hc hbegins)
  · exact List.mem_append_left _ (h.skips k c l hmk (hbehind ▸ hk) hc hl)
  · obtain ⟨hp, hsame⟩ := hhere hq
    rw [hsame, h.here hp, hbehind]
  · obtain ⟨u, hu⟩ := h.waiting a since (hwaiting a since ha hphase) hphase
    exact ⟨u, List.mem_append_left _ hu⟩

/-- What the cursor of a player says, in every state: it is blank before the first run, and fits
    the last run from then on. -/
structure Recalled (p : Player σ ℓ ς) : Prop extends Placed p where
  recalls : lastRun p.events = none ∧ p.cursor = {} ∨ ∃ r m, Recalls p r m

/-- In a run it is this run that is recalled. -/
theorem Recalled.of_tracks {p : Player σ ℓ ς} (hp : Recalled p) {r : Run} {m : Nat}
    (ht : Tracks p r m) : Recalls p r m := by
  have hrun := lastRun_of_runOf ht.run
  rcases hp.recalls with ⟨hnone, -⟩ | ⟨r', m', h⟩
  · cases hnone.symm.trans hrun
  · obtain rfl : r = r' := Option.some.inj (hrun.symm.trans h.run)
    obtain rfl : m = m' := congrArg Prod.snd (Option.some.inj (ht.label.symm.trans h.label))
    exact h

theorem recalled_ready (stage : σ) (loader : ℓ) (source : ς) (factory : Factory)
    (settings : Settings) (cap : Nat) (params : Expression.Params) (galleryLabels : List String)
    (history? : Option History.ReadHistory) :
    Recalled (ready stage loader source (.ofSettings factory settings) cap params galleryLabels
      history?) :=
  { placed_ready stage loader source factory settings cap params galleryLabels history? with
    recalls := Or.inl ⟨rfl, rfl⟩ }

/-- What leaves the cursor and the place of the run as they are leaves the last run recalled. -/
theorem Recalled.rest {p q : Player σ ℓ ς} (hp : Recalled p) (hplaced : Placed q)
    {es : List Event} (hes : q.events = p.events ++ es) (hrests : ∀ t ∈ turnsOf es, t.Rests)
    (hcursor : q.cursor = p.cursor)
    (hhere : q.state = .running → p.state = .running ∧ q.behind = p.behind)
    (hwaiting : ∀ a since, q.active? = some a → a.phase = .waiting since → p.active? = some a) :
    Recalled q := by
  refine { hplaced with recalls := ?_ }
  rcases hp.recalls with ⟨hnone, hblank⟩ | ⟨r, m, h⟩
  · obtain ⟨us, -, hrun⟩ := Run.foldl_outlast_of_rests hrests none
    refine Or.inl ⟨?_, hcursor.trans hblank⟩
    rw [hes, lastRun_append, hnone]
    exact hrun
  · obtain ⟨r', h'⟩ :=
      h.rest hes hrests (congrArg _ hcursor) (congrArg _ hcursor) hhere hwaiting
    exact Or.inr ⟨r', m, h'⟩

theorem Recalled.change {p q : Player σ ℓ ς} (h : Change p q) (hp : Recalled p) : Recalled q := by
  have hes : q.events = p.events ++ [] := by rw [h.events, List.append_nil]
  refine hp.rest (hp.toPlaced.change h) hes (by simp) ?_ (fun hq => ?_) fun a since ha _ => ?_
  · cases h <;> rfl
  · cases h <;> exact ⟨hq, rfl⟩
  · cases h <;> exact ha

/-! ## Passing a command -/

/-- A run that passes the command it came to goes on with the turn. -/
theorem Tracks.passed {p q : Player σ ℓ ς} {r r' : Run} {m m' : Nat} (ht : Tracks p r m)
    (ht' : Tracks q r' m') {es : List Event} (hes : q.events = p.events ++ es) {t : Turn}
    (hturns : turnsOf es = [t]) (hplace : t.place?.isSome) : r' = r.goOn [t] := by
  have hrun : runOf q.events = Run.follow (some r) t := by
    rw [hes, runOf_append, ht.run, hturns]
    rfl
  have hsame := ht'.run.symm.trans hrun
  cases t with
  | skipped | executed => exact Option.some.inj hsame
  | _ => cases hplace

/-- With the command that a run came to passed, it is recalled, if the page of the command has
    begun when it begins one and was executed. -/
theorem Recalls.pass {p q : Player σ ℓ ς} {r r' : Run} {m m' : Nat} (h : Recalls p r m)
    (hstate : p.state = .running) (ht : Tracks p r m) (ht' : Tracks q r' m') {es : List Event}
    (hes : q.events = p.events ++ es) {t : Turn} (hturns : turnsOf es = [t])
    (hplace : t.place? = some p.behind) (hbehind : q.behind = p.behind + 1)
    (hlabel : m' = m ∧ q.cursor.label = p.cursor.label ∧ (∀ c l,
      r.scenario.commands[p.behind]? = some c → c.label? = some l → t = .skipped p.behind) ∨
      m' = p.behind)
    (hbegun : ∀ u c, t = .executed p.behind u → r.scenario.commands[p.behind]? = some c →
      c.beginsPage = true → m' < p.behind →
        .cue (.pageBegin q.cursor.label (r.scenario.boundaries m' p.behind)) ∈ es)
    (hwaiting : ∀ a, q.active? = some a → ∃ u, t = .executed a.index u) : Recalls q r' m' := by
  have hhere := h.here hstate
  obtain rfl := ht.passed ht' hes hturns (by rw [hplace]; rfl)
  have hplaces : (r.goOn [t]).places = r.places ++ [p.behind] := by
    rw [Run.places_goOn, List.filterMap_cons_some hplace]
    rfl
  have hcame : q.behind = (r.goOn [t]).behind := by
    rw [hbehind, hhere, Run.behind_goOn, List.filterMap_cons_some hplace]
    rfl
  refine ⟨lastRun_of_runOf ht'.run, h.compiled, ?_, ?_, fun _ => ?_, ht'.label, ?_,
    fun k c l hmk hk hc hl => ?_, fun _ => hcame, fun a since ha _ => ?_⟩
  · rw [hplaces, List.length_append, List.length_singleton, List.range'_1_concat]
    show r.places ++ [p.behind] = List.range' r.start.index r.places.length ++ [r.behind]
    rw [← h.passed, hhere]
  · rw [← hcame]
    exact ht'.page
  · have hle := h.page.le
    rcases hlabel with ⟨rfl, -⟩ | rfl <;> omega
  · intro k u c hk hmk hc hbegins
    rw [hes]
    rcases List.mem_append.mp hk with hold | hnew
    · obtain ⟨-, hlt⟩ := h.mem_places.mp (Run.mem_places_of_executed hold)
      rcases hlabel with ⟨rfl, hsame, -⟩ | rfl
      · rw [hsame]
        exact List.mem_append_left _ (h.begun k u c hold hmk hc hbegins)
      · -- the section begins with the command that was passed, so none lies behind it
        omega
    · obtain rfl := List.mem_singleton.mp hnew
      obtain rfl : k = p.behind := Option.some.inj hplace
      exact List.mem_append_right _ (hbegun u c rfl hc hbegins hmk)
  · rw [← hcame] at hk
    rcases hlabel with ⟨rfl, -, hover⟩ | rfl
    · rcases Nat.lt_or_ge k p.behind with hlt | hge
      · exact List.mem_append_left _ (h.skips k c l hmk (hhere ▸ hlt) hc hl)
      · obtain rfl : k = p.behind := by omega
        exact List.mem_append_right _ (List.mem_singleton.mpr (hover c l hc hl).symm)
    · omega
  · obtain ⟨u, rfl⟩ := hwaiting a ha
    exact ⟨u, List.mem_append_right _ (List.mem_singleton.mpr rfl)⟩

theorem Recalled.skip {p : Player σ ℓ ς} (hp : Recalled p) (hstate : p.state = .running)
    (hidle : p.active? = none) {r : Run} {m : Nat} (ht : Tracks p r m) {c : Command}
    (hc : r.scenario.commands[p.cursor.index]? = some c) : ∃ r m, Recalls (p.skip c) r m := by
  have hes : (p.skip c).events = p.events ++ [.turn (.skipped p.cursor.index)] := by
    rw [skip_eq]
    exact events_append rfl
  have hindex := behind_of_idle hidle
  obtain ⟨r', m', ht'⟩ := ht.skip hidle hc
  obtain rfl := ht.passed ht' hes rfl rfl
  have hsame : some (p.cursor.label, m) = some ((p.skip c).cursor.label, m') := by
    rw [← ht'.label, Run.lastLabel?_goOn, ht.label]
    rfl
  obtain ⟨hlabel, rfl⟩ := Prod.mk.inj (Option.some.inj hsame)
  have hidle' : (p.skip c).active? = none := by rw [skip_eq]; exact hidle
  exact ⟨_, m, (hp.of_tracks ht).pass hstate ht ht' hes rfl (by rw [hindex]; rfl)
    (behind_skip hidle c) (Or.inl ⟨rfl, hlabel.symm, fun _ _ _ _ => by rw [hindex]⟩)
    (fun u c h => nomatch h)
    fun a ha => nomatch hidle'.symm.trans ha⟩

/-- Between its label and where a run is entered lies no other label. -/
theorem label?_before_entry {s : Scenario} {label : String} {m : Nat}
    (hm : s.labelIndex? label = some m) {page : Int} {k : Nat} {c : Command} (hmk : m < k)
    (hk : k < (entry s label page).index) (hc : s.commands[k]? = some c) : c.label? = none := by
  unfold entry at hk
  split at hk
  · rename_i j hj
    exact Scenario.label?_of_seek hm hj hmk hk hc
  · rw [hm] at hk
    exact absurd hk (Nat.not_lt.mpr (Nat.le_of_lt hmk))

/-- A run that is entered has passed nothing yet. -/
theorem Placed.recalls_entered {p : Player σ ℓ ς} (hp : Placed p) {s : Scenario} {label : String}
    {page : Int} (hstate : p.state = .loading label page)
    (hs : p.corpus.scenario? label = some s) :
    ∃ r m, Recalls (p.enterScenario s label page) r m := by
  obtain ⟨r, m, ht⟩ := Tracks.enter hp hstate hs
  have hidle := hp.idle (by rw [hstate]; exact State.noConfusion)
  have hbehind := behind_enterScenario s label hidle page
  have hes : (p.enterScenario s label page).events =
      p.events ++ [.turn (.entered s (entry s label page))] := by
    rw [enterScenario_eq]
    exact events_append rfl
  obtain rfl : ⟨s, entry s label page, []⟩ = r := by
    have hrun := ht.run
    rw [hes, runOf_append] at hrun
    exact Option.some.inj hrun
  have hpage := ht.page
  rw [hbehind] at hpage
  have hidle' : (p.enterScenario s label page).active? = none := by
    rw [enterScenario_eq]
    exact hidle
  have hm : s.labelIndex? label = some m := by
    obtain ⟨hcompiled, hlabel⟩ := hp.corpus.scenario? hs
    obtain ⟨m', hm'⟩ := Option.isSome_iff_exists.mp hlabel
    obtain ⟨hentry, -⟩ := onPage_entry hcompiled hm' page
    have hsame := ht.label
    simp only [Run.lastLabel?, List.reverse_nil, List.findSome?_nil, Option.none_or, hentry, hm',
      Option.map_some, Option.some.injEq, Prod.mk.injEq] at hsame
    rw [hm', hsame.2]
  refine ⟨_, m, lastRun_of_runOf ht.run, ht.compiled, rfl, hpage, fun h => absurd rfl h, ht.label,
    fun k u c hk => absurd hk List.not_mem_nil, fun k c l hmk hk hc hl => ?_, fun _ => hbehind,
    fun a _ ha => absurd (ha.symm.trans hidle') (Option.some_ne_none a)⟩
  cases hl.symm.trans (label?_before_entry hm hmk hk hc)

variable [Stage σ] [Loader ℓ]

theorem Recalled.execute {p : Player σ ℓ ς} (hp : Recalled p) (hstate : p.state = .running)
    {r : Run} {m : Nat} (ht : Tracks p r m) {a : Active} (ha : p.active? = some a)
    (hphase : a.phase = .loading) : ∃ r m, Recalls (p.execute a).1.settle r m := by
  obtain ⟨hindex, hc⟩ := ht.active a ha
  have hbehind := behind_of_loading ha hphase
  have hes : (p.execute a).1.settle.events = p.events ++ p.executedEvents a :=
    p.execute_events a
  have hturns := p.turnsOf_executedEvents a
  obtain ⟨r', m', ht'⟩ := ht.execute ha hphase
  obtain rfl := ht.passed ht' hes hturns rfl
  obtain ⟨m'', -, hlabel, hnumber⟩ := ht.toInSection.execute ha hphase
  have hsame : some ((p.execute a).1.settle.cursor.label, m'') =
      some ((p.execute a).1.settle.cursor.label, m') := by
    rw [← hlabel, ← ht'.label, Run.lastLabel?_goOn, ht.label]
    simp [Run.entered?_executed _ hc]
  obtain rfl : m'' = m' := congrArg Prod.snd (Option.some.inj hsame)
  have hpassed : (Turn.executed a.index (p.usableAt a)).place? = some p.behind := by
    rw [hbehind, ← hindex]
    rfl
  refine ⟨_, m'', (hp.of_tracks ht).pass hstate ht ht' hes hturns hpassed
    (by rw [ht.behind_execute ha, hindex, hbehind]) ?_ ?_ fun b hb => ?_⟩
  · cases hl : a.command.label? with
    | none =>
      rw [hl] at hlabel
      obtain ⟨hcursor, rfl⟩ := Prod.mk.inj (Option.some.inj hlabel)
      refine Or.inl ⟨rfl, hcursor.symm, fun c l hc' hcl => ?_⟩
      rw [hbehind, ← hindex] at hc'
      obtain rfl : a.command = c := Option.some.inj (hc.symm.trans hc')
      cases hl.symm.trans hcl
    | some l =>
      rw [hl] at hlabel
      obtain ⟨-, rfl⟩ := Prod.mk.inj (Option.some.inj hlabel)
      exact Or.inr (by rw [hbehind, hindex])
  · intro u c _ hc' hbegins hm
    rw [hbehind, ← hindex] at hc' ⊢
    obtain rfl : a.command = c := Option.some.inj (hc.symm.trans hc')
    obtain ⟨-, hpage⟩ := hnumber hbegins
    rw [← hpage]
    have hcursor : (p.execute a).1.settle.cursor =
        (p.cursor.enter a.command).turnPage a.command := by
      rw [execute_eq]
      rfl
    rw [hcursor, ← mem_cuesOf, executedEvents]
    simp [hbegins]
  · obtain rfl := Option.some.inj ((p.execute_active a).symm.trans hb)
    exact ⟨p.usableAt a, rfl⟩

theorem Recalled.complete {p : Player σ ℓ ς} (hp : Recalled p) (hstate : p.state = .running)
    {r : Run} {m : Nat} (ht : Tracks p r m) {a : Active} (ha : p.active? = some a) {since : Nat}
    (hphase : a.phase = .waiting since) : ∃ r m, Recalls (p.completed a since).settle r m := by
  have hes : (p.completed a since).settle.events = p.events ++
      p.doneEvents a (a.command.pick? (Stage.progress p.stage since) p.board) :=
    p.completed_events a since
  have hrests : ∀ t ∈ turnsOf (p.doneEvents a
      (a.command.pick? (Stage.progress p.stage since) p.board)), t.Rests := by
    simp [Turn.Rests]
  obtain ⟨r', h⟩ := (hp.of_tracks ht).rest hes hrests (by simp) (by simp)
    (fun _ => ⟨hstate, by rw [behind_completed, ht.behind_waiting ha hphase]⟩)
    fun b _ hb => absurd (hb.symm.trans (p.completed_active a since)) (Option.some_ne_none b)
  exact ⟨r', m, h⟩

variable [TableSource ς]

omit [Stage σ] [TableSource ς] in
/-- What is given back leaves the run where it is. -/
theorem rests_givenBack (p : Player σ ℓ ς) : ∀ t ∈ turnsOf p.givenBack.2, t.Rests := by
  intro t ht
  rw [turnsOf_givenBack] at ht
  obtain ⟨a, -, rfl⟩ := Option.map_eq_some_iff.mp (Option.mem_toList.mp ht)
  trivial

/-- Every move leaves the last run recalled. -/
theorem Recalled.move {p q : Player σ ℓ ς} (h : Move p q) (hp : Recalled p) : Recalled q := by
  have hplaced := hp.toPlaced.move h
  cases h with
  | enter hstate hs =>
    exact { hplaced with recalls := Or.inr (hp.toPlaced.recalls_entered hstate hs) }
  | skip hstands hc hskip =>
    obtain ⟨r, m, ht⟩ := hp.tracks hstands.state
    obtain rfl := Option.some.inj (ht.scenario.symm.trans hstands.scenario)
    exact { hplaced with recalls := Or.inr (hp.skip hstands.state hstands.idle ht hc) }
  | activate hstands hc hskip =>
    rename_i s c
    have hbehind := behind_activate hstands.idle c
    rw [activate_eq] at hplaced hbehind ⊢
    refine hp.rest hplaced (events_append rfl) (by simp [Turn.Rests]) rfl (fun h => ⟨h, hbehind⟩) ?_
    rintro a since ha hphase
    obtain rfl := Option.some.inj ha
    cases hphase
  | execute hplays hphase hload =>
    obtain ⟨r, m, ht⟩ := hp.tracks hplays.state
    exact { hplaced with recalls := Or.inr (hp.execute hplays.state ht hplays.active hphase) }
  | complete hplays hphase hdone =>
    obtain ⟨r, m, ht⟩ := hp.tracks hplays.state
    exact { hplaced with recalls := Or.inr (hp.complete hplays.state ht hplays.active hphase) }
  | endGalleryScene =>
    obtain ⟨history?, es, -, -, hturns, -, heq⟩ := p.endGalleryScene_eq
    rw [heq] at hplaced ⊢
    exact hp.rest hplaced (events_append rfl) (by simp [hturns]) rfl (fun h => ⟨h, rfl⟩)
      fun a _ ha _ => ha
  | notePageLeft =>
    obtain ⟨history?, es, -, -, hturns, -, heq⟩ := p.notePageLeft_eq
    rw [heq] at hplaced ⊢
    exact hp.rest hplaced (events_append rfl) (by simp [hturns]) rfl (fun h => ⟨h, rfl⟩)
      fun a _ ha _ => ha
  | begin label page gallery? =>
    rw [begin_eq] at hplaced ⊢
    refine hp.rest hplaced (events_append rfl) (fun t ht => ?_) rfl (fun h => nomatch h)
      fun a _ ha => nomatch ha
    rw [turnsOf_append] at ht
    rcases List.mem_append.mp ht with ht | ht
    · exact p.rests_givenBack t ht
    · obtain rfl := List.mem_singleton.mp ht
      trivial
  | finish reason hunder =>
    rw [finish_eq] at hplaced ⊢
    refine hp.rest hplaced (events_append rfl) (fun t ht => ?_) rfl (fun h => nomatch h)
      fun a _ ha => nomatch ha
    rw [turnsOf_append, turnsOf_cue, turnsOf_nil, List.append_nil] at ht
    exact p.rests_givenBack t ht
  | compile table =>
    have hes : p.events = p.events ++ [] := (List.append_nil _).symm
    exact hp.rest hplaced hes (by simp) rfl (fun h => ⟨h, rfl⟩) fun a _ ha _ => ha

end VisualNovel.Player
