import VisualNovel.Proofs.Player.Notes

/-
  Finding saved pages again. A place is kept when a page begins, under the label that the run is
  in. The run is in the label that it executed last, but a page is looked for from its label up
  to the next one, whether or not that was executed. So the page is found unless the run passed
  over a label on its way from its own label to the page before; then it is looked for in vain,
  and who comes back is taken to the label (`saved_pages_are_found`).
-/

namespace VisualNovel.Player

open Asset (FileLoader Loader)
open Command (Factory Settings)
open History (ReadHistory)
open Scenario (Library TableSource labelNames)
open Stage (Console SavePoint)
open Table (CellTable)

variable {σ ℓ ς : Type}

/-- What a journal tells of a place that is kept at its end: the run has just executed the command
    at `i`, which begins the page, and since the label's command at `m` it passed over every
    other label. -/
structure SavedBy (before : List Event) (point : SavePoint) (r : Run) (m i : Nat) : Prop where
  run : runOf before = some r
  compiled : r.scenario.Compiled
  last : ∃ u, r.turns.getLast? = some (.executed i u)
  begins : ∃ c, r.scenario.commands[i]? = some c ∧ c.beginsPage = true
  label : r.lastLabel? = some (point.label, m)
  command : ∃ c, r.scenario.commands[m]? = some c ∧ c.label? = some point.label
  lt : m < i
  page : point.page = r.scenario.boundaries m i
  skips : ∀ k c l, m < k → k < i → r.scenario.commands[k]? = some c → c.label? = some l →
    .skipped k ∈ r.turns

/-- A place of the label at `m` is found at `j`, and a run is entered for it there, if no other
    label lies in between. Otherwise it is not found, and a run is entered for it at the label. -/
structure Finds (s : Scenario) (point : SavePoint) (m j : Nat) : Prop where
  found : (∀ k c, m < k → k < j → s.commands[k]? = some c → c.label? = none) →
    s.seek point.label point.page = .ok j ∧
      entry s point.label point.page = ⟨point.label, j, point.page - 1⟩
  lost : ∀ k c l, m < k → k < j → s.commands[k]? = some c → c.label? = some l →
    s.seek point.label point.page =
        .error (.scenario (.pageOutOfRange point.label point.page)) ∧
      entry s point.label point.page = ⟨point.label, m, labelStart⟩

/-- A page is looked for from its label on. -/
theorem finds_of_pageStart {s : Scenario} {point : SavePoint} {m j : Nat}
    (hl : s.labelIndex? point.label = some m) (hmj : m ≤ j) (hstart : s.PageStart m j)
    (hpage : point.page = s.boundaries m j) : Finds s point m j := by
  obtain ⟨hfound, hlost⟩ := Scenario.seek_of_pageStart hl hmj hstart
  rw [← hpage] at hfound hlost
  constructor
  · intro hsection
    have hseek := hfound hsection
    refine ⟨hseek, ?_⟩
    unfold entry
    rw [hseek]
    show Cursor.mk _ _ _ = _
    rw [show max point.page 0 = point.page by omega]
  · intro k c l hmk hkj hc hcl
    have hseek := hlost k c l hmk hkj hc hcl
    refine ⟨hseek, ?_⟩
    unfold entry
    rw [hseek, hl]
    rfl

/-- Where every label has one command, a saved page is looked for from the label of its run. -/
theorem SavedBy.finds {before : List Event} {point : SavePoint} {r : Run} {m i : Nat}
    (h : SavedBy before point r m i) (hlabels : (labelNames r.scenario.commands).Nodup) :
    ∃ j, m ≤ j ∧ j ≤ i ∧
      (∀ k c, j ≤ k → k < i → r.scenario.commands[k]? = some c → c.beginsPage = false) ∧
      Finds r.scenario point m j := by
  obtain ⟨d, hd, hdl⟩ := h.command
  have hl : r.scenario.labelIndex? point.label = some m := by
    refine h.compiled.labelIndex?_eq_some.mpr ⟨⟨d, hd, hdl⟩, fun k hk c hc hcl => ?_⟩
    exact absurd (Scenario.label_at_once hlabels hc hcl hd hdl) (Nat.ne_of_lt hk)
  obtain ⟨j, hmj, hji, hstart, hcount, hnone⟩ :=
    Scenario.exists_pageStart (s := r.scenario) (Nat.le_of_lt h.lt)
  refine ⟨j, hmj, hji, fun k c hjk hki hc => ?_,
    finds_of_pageStart hl hmj hstart (by rw [h.page, hcount])⟩
  rcases Nat.eq_or_lt_of_le (Nat.le_trans hmj hjk) with rfl | hlt
  · obtain rfl : d = c := Option.some.inj (hd.symm.trans hc)
    exact Scenario.not_beginsPage_of_label hdl
  · exact hnone k c hjk hlt hki hc

/-- A place is kept by the run that begins its page. -/
theorem Notes.savedBy {p : Player σ ℓ ς} (hp : Recalled p) {before : List Event}
    {point : SavePoint} (h : Notes p before (.autosave point)) :
    ∃ r m i, SavedBy (p.events ++ before) point r m i := by
  cases h with
  | begun hplays hphase hbegins hturns =>
    rename_i s a u
    obtain ⟨r, m, ht⟩ := hp.tracks hplays.state
    obtain ⟨hindex, hc⟩ := ht.active a hplays.active
    have hrecalls := hp.of_tracks ht
    have hbehind : r.behind = a.index := by
      rw [← hrecalls.here hplays.state, behind_of_loading hplays.active hphase, hindex]
    have hpage := hrecalls.page
    rw [hbehind] at hpage
    obtain ⟨m', hlabel, -, hnumber⟩ := hpage.execute hc
    obtain ⟨hlt, hnumber⟩ := hnumber hbegins
    rw [beginsPage_label hbegins] at hlabel
    obtain ⟨hsame, rfl⟩ := Prod.mk.inj (Option.some.inj hlabel)
    have hrun : runOf (p.events ++ before) = some (r.goOn [.executed a.index u]) := by
      rw [runOf_append, ht.run, hturns]
      rfl
    have hentered : [Turn.executed a.index u].reverse.findSome? r.entered? = none := by
      simp [Run.entered?_executed u hc, beginsPage_label hbegins]
    refine ⟨r.goOn [.executed a.index u], m, a.index, hrun, ht.compiled,
      ⟨u, by simp [Run.goOn]⟩, ⟨a.command, hc, hbegins⟩, ?_, ?_, hlt, ?_, ?_⟩
    · rw [Run.lastLabel?_goOn, hentered, ht.label, hsame]
      rfl
    · rw [← hsame]
      exact hpage.label
    · show max ((p.cursor.enter a.command).turnPage a.command).page 0 =
        r.scenario.boundaries m a.index
      omega
    · intro k c l hmk hki hc' hcl
      exact List.mem_append_left _ (hrecalls.skips k c l hmk (hbehind ▸ hki) hc' hcl)

variable [Stage σ] [Loader ℓ] [TableSource ς]

/-- Saved pages are found where the run passed over no label. Where a journal keeps a place, the
    run has just executed the command that begins its page. In a script without a label twice,
    the page is looked for from the label that the run is in, and there is one place not behind
    that command, with no other page in between, where it is found, unless a label lies before
    that place. Every such label is one that the run passed over; with it the page is out of
    range, and a run for the place is entered at its label. -/
theorem saved_pages_are_found (stage : σ) (loader : ℓ) (source : ς) (factory : Factory)
    (settings : Settings) (cap : Nat) (params : Expression.Params) (galleryLabels : List String)
    (history? : Option ReadHistory) (inputs : List (Input σ ℓ ς)) :
    let p := (ready stage loader source (.ofSettings factory settings) cap params galleryLabels
      history?).afterAll inputs
    ∀ before point later, p.events = before ++ .note (.autosave point) :: later →
      ∃ r m i, SavedBy before point r m i ∧ ((labelNames r.scenario.commands).Nodup →
        ∃ j, m ≤ j ∧ j ≤ i ∧
          (∀ k c, j ≤ k → k < i → r.scenario.commands[k]? = some c → c.beginsPage = false) ∧
          Finds r.scenario point m j) := by
  intro p before point later hes
  have hp : Recalled p ∧ Holds (fun before e => ∀ point, e = .note (.autosave point) →
      ∃ r m i, SavedBy before point r m i) p.events := by
    refine holds_afterAll Recalled.move Recalled.change ?_
      (recalled_ready stage loader source factory settings cap params galleryLabels history?) rfl
      inputs
    rintro p q h hp
    obtain ⟨es, hes, hnotes⟩ := h.notes
    refine ⟨es, hes, fun before e later hsplit point he => ?_⟩
    subst he
    exact (hnotes before _ later hsplit).savedBy hp
  obtain ⟨r, m, i, hsaved⟩ := hp.2 before _ later hes point rfl
  exact ⟨r, m, i, hsaved, hsaved.finds⟩

/-- A label with two pages behind another label, in a branch that is not taken. -/
def passedLabel : CellTable :=
  .ofRows "t" [["Command", "Arg1", "Text"], ["*a"], ["If", "false"], ["*b"], ["EndIf"],
    ["", "", "one"], ["", "", "two"]]

omit [Stage σ] [Loader ℓ] [TableSource ς] in
theorem page_behind_passed_label_is_lost :
    let p := (reader passedLabel).afterAll [.start "a" 0 none, .tick, .tick]
    let s := Scenario.compile .standard .standard passedLabel
    ∃ before later r m i, p.events = before ++ .note (.autosave ⟨"a", 1⟩) :: later ∧
      SavedBy before ⟨"a", 1⟩ r m i ∧ (labelNames s.commands).Nodup ∧
      s.seek "a" 1 = .error (.scenario (.pageOutOfRange "a" 1)) := by
  intro p s
  have hkept : .note (.autosave ⟨"a", 1⟩) ∈ p.events := mem_notesOf.mp (by decide +kernel)
  obtain ⟨before, later, hes⟩ := List.append_of_mem hkept
  obtain ⟨r, m, i, hsaved, -⟩ := saved_pages_are_found (Console.ofPicks [])
    (FileLoader.ofRoot ⟨[], []⟩ "") (Library.empty.insert passedLabel true) .standard .standard 4
    ∅ [] (some .empty) [.start "a" 0 none, .tick, .tick] before ⟨"a", 1⟩ later hes
  exact ⟨before, later, r, m, i, hes, hsaved, by decide +kernel, by decide +kernel⟩

end VisualNovel.Player
