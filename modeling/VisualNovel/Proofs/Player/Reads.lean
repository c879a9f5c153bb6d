import VisualNovel.Proofs.Player.Notes

/-
  Pages that are noted as read. The page that a player notes is the one that its cursor is on,
  when the page ends as well as when it is left for a label. It has begun if the run executed its
  command. But the cursor is also on a page whose command was passed over, and on the page before
  the one that a run was entered for, and such a page is noted just the same when it is left
  (`reads_of_pages`).
-/

namespace VisualNovel.Player

open Asset (FileLoader Loader)
open Command (Factory Settings)
open History (ReadHistory)
open Scenario (Library TableSource)
open Stage (Console)
open Table (CellTable)

variable {σ ℓ ς : Type}

/-- What a journal tells of a page that is noted as read at its end. The page is that of the last
    command that begins one among those the last run has behind it, in the section of the label
    that it entered last. If the run executed the command, the page has begun. Otherwise the run
    passed over it, or was entered behind it. -/
def ReadOf (before : List Event) (label : String) (page : Int) : Prop :=
  ∃ r m k c, lastRun before = some r ∧ r.scenario.Compiled ∧ r.lastLabel? = some (label, m) ∧
    m < k ∧ k < r.behind ∧ r.scenario.commands[k]? = some c ∧ c.beginsPage = true ∧
    (∀ j d, k < j → j < r.behind → r.scenario.commands[j]? = some d → d.beginsPage = false) ∧
    page = r.scenario.boundaries m k ∧
    ((∃ u, .executed k u ∈ r.turns) → .cue (.pageBegin label page) ∈ before) ∧
    (¬(∃ u, .executed k u ∈ r.turns) → k < r.start.index ∨ .skipped k ∈ r.turns)

/-- The page that the cursor is on is one of the last run. -/
theorem Recalls.readOf {p : Player σ ℓ ς} {r : Run} {m : Nat} (h : Recalls p r m)
    (hpage : 0 ≤ p.cursor.page) : ReadOf p.events p.cursor.label p.cursor.page := by
  have hnumber := h.page.page
  have hpos : 0 < r.scenario.boundaries m r.behind := by omega
  obtain ⟨k, c, hmk, hk, hc, hbegins, hcount, hnone⟩ := Scenario.exists_last_boundary hpos
  have hsame : p.cursor.page = r.scenario.boundaries m k := by omega
  refine ⟨r, m, k, c, h.run, h.compiled, h.label, hmk, hk, hc, hbegins, hnone, hsame, ?_, ?_⟩
  · rintro ⟨u, hu⟩
    rw [hsame]
    exact h.begun k u c hu hmk hc hbegins
  · intro hnot
    by_contra hpassed
    obtain ⟨hstart, hskip⟩ := not_or.mp hpassed
    exact hnot (Run.executed_of_places (h.mem_places.mpr ⟨Nat.le_of_not_lt hstart, hk⟩) hskip)

/-- When a page ends the cursor is on it, and not before the first page of the label. -/
theorem Recalls.page_nonneg {p : Player σ ℓ ς} {r : Run} {m : Nat} (h : Recalls p r m)
    (hsection : InSection p r.scenario m) (hstate : p.state = .running) {a : Active}
    {since : Nat} (ha : p.active? = some a) (hphase : a.phase = .waiting since)
    (hbegins : a.command.beginsPage = true) : 0 ≤ p.cursor.page := by
  obtain ⟨u, hu⟩ := h.waiting a since ha hphase
  obtain ⟨hindex, hc⟩ := hsection.active a ha
  have hbehind : r.behind = a.index + 1 := by
    rw [← h.here hstate, hsection.behind_waiting ha hphase]
  have hm := h.within (List.ne_nil_of_mem (Run.mem_places_of_executed hu))
  have hne : m ≠ a.index := by
    rintro rfl
    obtain ⟨d, hd, hl⟩ := h.page.label
    obtain rfl : d = a.command := Option.some.inj (hd.symm.trans hc)
    cases (beginsPage_label hbegins).symm.trans hl
  have hcount := r.scenario.boundaries_succ (show m < a.index by omega) hc
  have hnumber := h.page.page
  rw [hbehind, hcount, hbegins, if_pos rfl] at hnumber
  omega

/-- The page that a note tells of is one of the last run. -/
theorem Notes.readOf {p : Player σ ℓ ς} (hp : Recalled p) {before : List Event}
    {label : String} {page : Int} (h : Notes p before (.pageRead label page)) :
    ReadOf (p.events ++ before) label page := by
  cases h with
  | ended hplays hphase hbegins hturns =>
    obtain ⟨r, m, ht⟩ := hp.tracks hplays.state
    have hrecalls := hp.of_tracks ht
    have hpage := hrecalls.page_nonneg ht.toInSection hplays.state hplays.active hphase hbegins
    -- the player that has told so far is on the same page
    obtain ⟨r', h'⟩ := hrecalls.rest (q := { p with journal := p.journal ++ before })
      (events_append rfl) (by simp [hturns, Turn.Rests]) rfl rfl (fun h => ⟨h, rfl⟩)
      fun a _ ha _ => ha
    have hread := h'.readOf hpage
    rw [events_append (p := p) rfl] at hread
    exact hread
  | left hpage hlabel =>
    rcases hp.recalls with ⟨-, hblank⟩ | ⟨r, m, h⟩
    · exact absurd (congrArg Cursor.label hblank) hlabel
    · rw [List.append_nil]
      exact h.readOf hpage

variable [Stage σ] [Loader ℓ] [TableSource ς]

/-- Pages that are read were begun by their commands. Where a journal notes a page as read, it is
    the page that the last run is on: that of the last command behind the run that begins a page
    in the section of the label entered last. If the run executed this command, the page began
    before. If it did not, it passed over the command, or was entered behind it; then the page is
    noted all the same, whether or not it ever began. -/
theorem reads_of_pages (stage : σ) (loader : ℓ) (source : ς) (factory : Factory)
    (settings : Settings) (cap : Nat) (params : Expression.Params) (galleryLabels : List String)
    (history? : Option ReadHistory) (inputs : List (Input σ ℓ ς)) :
    let p := (ready stage loader source (.ofSettings factory settings) cap params galleryLabels
      history?).afterAll inputs
    ∀ before label page later, p.events = before ++ .note (.pageRead label page) :: later →
      ReadOf before label page := by
  intro p before label page later hes
  have hp : Recalled p ∧ Holds (fun before e => ∀ label page, e = .note (.pageRead label page) →
      ReadOf before label page) p.events := by
    refine holds_afterAll Recalled.move Recalled.change ?_
      (recalled_ready stage loader source factory settings cap params galleryLabels history?) rfl
      inputs
    rintro p q h hp
    obtain ⟨es, hes, hnotes⟩ := h.notes
    refine ⟨es, hes, fun before e later hsplit label page he => ?_⟩
    subst he
    exact (hnotes before _ later hsplit).readOf hp
  exact hp.2 before _ later hes label page rfl

/-- A label with a page in a branch that is not taken, left for another label. -/
def passedPage : CellTable :=
  .ofRows "t" [["Command", "Arg1", "Text"], ["*a"], ["If", "false"], ["", "", "one"], ["EndIf"],
    ["Jump", "*b"], ["*b"], ["", "", "two"]]

omit [Stage σ] [Loader ℓ] [TableSource ς] in
theorem passed_page_is_noted :
    let p := (reader passedPage).afterAll [.start "a" 0 none, .tick]
    ∃ before later, p.events = before ++ .note (.pageRead "a" 0) :: later ∧
      ReadOf before "a" 0 ∧ .cue (.pageBegin "a" 0) ∉ p.events := by
  intro p
  have hnoted : .note (.pageRead "a" 0) ∈ p.events := mem_notesOf.mp (by decide +kernel)
  obtain ⟨before, later, hes⟩ := List.append_of_mem hnoted
  have hread := reads_of_pages (Console.ofPicks []) (FileLoader.ofRoot ⟨[], []⟩ "")
    (Library.empty.insert passedPage true) .standard .standard 4 ∅ [] (some .empty)
    [.start "a" 0 none, .tick] before "a" 0 later hes
  exact ⟨before, later, hes, hread, mem_cuesOf.not.mp (by decide +kernel)⟩

end VisualNovel.Player
