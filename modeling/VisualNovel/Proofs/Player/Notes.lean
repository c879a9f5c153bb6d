import VisualNovel.Asset.FileLoader
import VisualNovel.Proofs.Player.Visits
import VisualNovel.Stage.Console

/-
  Notes of a history. `Move.notes` says where each note of a journal comes from: a place is kept
  when a page begins, a page is read when it ends or is left for a label, and a scene is seen when
  a command says so.
-/

namespace VisualNovel.Player

open Asset (FileLoader Loader LoaderCall)
open History (ReadHistory)
open Scenario (Library TableSource)
open Stage (Console Cue)
open Table (CellTable)

variable {σ ℓ ς : Type}

/-! ## Notes among events -/

/-- The note that an event is. -/
def Event.note? : Event → Option ReadHistory.Note
  | note n => some n
  | _ => none

/-- The notes among events. -/
def notesOf (es : List Event) : List ReadHistory.Note := es.filterMap Event.note?

@[simp] theorem notesOf_nil : notesOf [] = [] := rfl

@[simp] theorem notesOf_append (es fs : List Event) :
    notesOf (es ++ fs) = notesOf es ++ notesOf fs := List.filterMap_append

@[simp] theorem notesOf_turn (t : Turn) (es : List Event) :
    notesOf (.turn t :: es) = notesOf es := rfl

@[simp] theorem notesOf_cue (c : Cue) (es : List Event) : notesOf (.cue c :: es) = notesOf es := rfl

@[simp] theorem notesOf_note (n : ReadHistory.Note) (es : List Event) :
    notesOf (.note n :: es) = n :: notesOf es := rfl

@[simp] theorem notesOf_loader (calls : List LoaderCall) :
    notesOf (calls.map Event.loader) = [] := by
  induction calls with
  | nil => rfl
  | cons c calls ih => exact ih

@[simp] theorem notesOf_cues (cues : List Cue) : notesOf (cues.map Event.cue) = [] := by
  induction cues with
  | nil => rfl
  | cons c cues ih => exact ih

@[simp] theorem notesOf_givenBack [Loader ℓ] (p : Player σ ℓ ς) : notesOf p.givenBack.2 = [] := by
  unfold givenBack released
  cases p.active? <;> simp

/-- A history with notes, in order. -/
def noteAll (h : ReadHistory) (ns : List ReadHistory.Note) : ReadHistory :=
  ns.foldl ReadHistory.record h

theorem noteAll_append (h : ReadHistory) (ns ms : List ReadHistory.Note) :
    noteAll h (ns ++ ms) = noteAll (noteAll h ns) ms := List.foldl_append

theorem mem_notesOf {n : ReadHistory.Note} {es : List Event} : n ∈ notesOf es ↔ .note n ∈ es := by
  constructor
  · intro h
    obtain ⟨e, he, hn⟩ := List.mem_filterMap.mp h
    cases e <;> cases hn
    exact he
  · exact fun h => List.mem_filterMap.mpr ⟨_, h, rfl⟩

/-- Among events without notes there is none. -/
theorem not_split_of_notesOf {es before later : List Event} {n : ReadHistory.Note}
    (hes : notesOf es = []) : es ≠ before ++ .note n :: later := by
  rintro rfl
  simp at hes

/-- The one note among events is where it was made. -/
theorem split_noted {p : Player σ ℓ ς} {n n' : ReadHistory.Note} {xs ys before later : List Event}
    (hxs : notesOf xs = []) (hys : notesOf ys = [])
    (h : xs ++ (p.noted n ++ ys) = before ++ .note n' :: later) : before = xs ∧ n' = n := by
  have hnone : ∀ es, notesOf es = [] → Event.note n' ∉ es := fun es hes hmem => by
    simpa [hes] using mem_notesOf.mpr hmem
  unfold noted at h
  split at h
  · obtain ⟨hbefore, hsame, -⟩ := split_single (hnone xs hxs) (hnone ys hys) h
    exact ⟨hbefore, Event.note.inj hsame⟩
  · exact absurd h (not_split_of_notesOf (by simp [hxs, hys]))

theorem eq_of_noted {p : Player σ ℓ ς} {n n' : ReadHistory.Note} {before later : List Event}
    (h : p.noted n = before ++ .note n' :: later) : before = [] ∧ n' = n := by
  have hsplit : [] ++ (p.noted n ++ []) = before ++ .note n' :: later := by simpa using h
  exact split_noted rfl rfl hsplit

/-! ## Where notes come from -/

/-- A note of a player, behind the events of the same move before it: a page begins or ends with
    the active command, the page is left, or a scene is seen to its end. -/
inductive Notes (p : Player σ ℓ ς) : List Event → ReadHistory.Note → Prop
  | begun {s : Scenario} {a : Active} {before : List Event} {u : List Bool} (hp : p.Plays s a)
      (hphase : a.phase = .loading) (hbegins : a.command.beginsPage = true)
      (hturns : turnsOf before = [.executed a.index u]) :
      Notes p before (.autosave ⟨((p.cursor.enter a.command).turnPage a.command).label,
        max ((p.cursor.enter a.command).turnPage a.command).page 0⟩)
  | ended {s : Scenario} {a : Active} {before : List Event} {since : Nat} {picked? : Option Nat}
      (hp : p.Plays s a) (hphase : a.phase = .waiting since)
      (hbegins : a.command.beginsPage = true) (hturns : turnsOf before = [.done a.index picked?]) :
      Notes p before (.pageRead p.cursor.label p.cursor.page)
  | left (hpage : 0 ≤ p.cursor.page) (hlabel : p.cursor.label ≠ "") :
      Notes p [] (.pageRead p.cursor.label p.cursor.page)
  | seen {scene : String} (hscene : p.gallery? = some scene) : Notes p [] (.sceneViewed scene)

variable [Stage σ] [Loader ℓ] [TableSource ς]

omit [Stage σ] [TableSource ς] in
theorem notes_executedEvents {p : Player σ ℓ ς} {s : Scenario} {a : Active} (hp : p.Plays s a)
    (hphase : a.phase = .loading) {before later : List Event} {n : ReadHistory.Note}
    (h : p.executedEvents a = before ++ .note n :: later) : Notes p before n := by
  unfold executedEvents pageBegun at h
  cases hbegins : a.command.beginsPage with
  | false =>
    rw [hbegins, if_neg Bool.false_ne_true] at h
    exact absurd h (not_split_of_notesOf (by simp))
  | true =>
    rw [hbegins, if_pos rfl] at h
    -- the page is the last thing told, right before the note
    have hsplit : ((p.moved a.index).2.2.map .loader ++
        .turn (.executed a.index (p.usableAt a)) :: ((p.outcome a).2.map .cue ++
          [.cue (.pageBegin ((p.cursor.enter a.command).turnPage a.command).label
            ((p.cursor.enter a.command).turnPage a.command).page)])) ++
        (p.noted (.autosave ⟨((p.cursor.enter a.command).turnPage a.command).label,
          max ((p.cursor.enter a.command).turnPage a.command).page 0⟩) ++ []) =
        before ++ .note n :: later := by simpa using h
    obtain ⟨rfl, rfl⟩ := split_noted (by simp) rfl hsplit
    exact .begun (u := p.usableAt a) hp hphase hbegins (by simp)

omit [Stage σ] [TableSource ς] in
theorem notes_doneEvents {p : Player σ ℓ ς} {s : Scenario} {a : Active} (hp : p.Plays s a)
    {since : Nat} (hphase : a.phase = .waiting since) {picked? : Option Nat}
    {before later : List Event} {n : ReadHistory.Note}
    (h : p.doneEvents a picked? = before ++ .note n :: later) : Notes p before n := by
  unfold doneEvents pageEnded at h
  cases hbegins : a.command.beginsPage with
  | false =>
    rw [hbegins, if_neg Bool.false_ne_true] at h
    exact absurd h (not_split_of_notesOf (by simp))
  | true =>
    rw [hbegins, if_pos rfl] at h
    have hsplit : [.turn (.done a.index picked?), .cue (.pageEnd p.cursor.label p.cursor.page)] ++
        (p.noted (.pageRead p.cursor.label p.cursor.page) ++
          ((p.ledger.releases (.command a.index) a.command.resources).2.map .loader ++
            [.turn (.released a.index)])) = before ++ .note n :: later := h
    obtain ⟨rfl, rfl⟩ := split_noted rfl (by simp) hsplit
    exact .ended hp hphase hbegins rfl

omit [Stage σ] [Loader ℓ] [TableSource ς] in
theorem notes_endGalleryScene (p : Player σ ℓ ς) :
    ∃ es, p.endGalleryScene.events = p.events ++ es ∧
      ∀ before n later, es = before ++ .note n :: later → Notes p before n := by
  unfold endGalleryScene
  split
  · exact ⟨[], (List.append_nil _).symm, fun before n later h => by simp at h⟩
  · rename_i scene hscene
    refine ⟨p.noted (.sceneViewed scene), ?_, fun before n later h => ?_⟩
    · rw [note_eq]
      exact events_append rfl
    · obtain ⟨rfl, rfl⟩ := eq_of_noted h
      exact .seen hscene

omit [Stage σ] [Loader ℓ] [TableSource ς] in
theorem notes_notePageLeft (p : Player σ ℓ ς) :
    ∃ es, p.notePageLeft.events = p.events ++ es ∧
      ∀ before n later, es = before ++ .note n :: later → Notes p before n := by
  unfold notePageLeft
  split
  · rename_i hleft
    refine ⟨p.noted (.pageRead p.cursor.label p.cursor.page), ?_, fun before n later h => ?_⟩
    · rw [note_eq]
      exact events_append rfl
    · obtain ⟨rfl, rfl⟩ := eq_of_noted h
      exact .left hleft.1 hleft.2
  · exact ⟨[], (List.append_nil _).symm, fun before n later h => by simp at h⟩

omit [Stage σ] [Loader ℓ] [TableSource ς] in
/-- Events without notes come from nowhere else. -/
theorem notes_of_none {p q : Player σ ℓ ς} {es : List Event} (hes : q.events = p.events ++ es)
    (hnone : notesOf es = []) :
    ∃ es, q.events = p.events ++ es ∧
      ∀ before n later, es = before ++ .note n :: later → Notes p before n :=
  ⟨es, hes, fun _ _ _ h => absurd h (not_split_of_notesOf hnone)⟩

/-- Every note that a move makes comes from one of these. -/
theorem Move.notes {p q : Player σ ℓ ς} (h : Move p q) :
    ∃ es, q.events = p.events ++ es ∧
      ∀ before n later, es = before ++ .note n :: later → Notes p before n := by
  cases h with
  | enter =>
    rw [enterScenario_eq]
    exact notes_of_none (events_append rfl) rfl
  | skip =>
    rw [skip_eq]
    exact notes_of_none (events_append rfl) rfl
  | activate =>
    rw [activate_eq]
    exact notes_of_none (events_append rfl) (by simp)
  | execute hplays hphase _ =>
    rw [execute_eq]
    exact ⟨_, events_append rfl, fun _ _ _ h => notes_executedEvents hplays hphase h⟩
  | complete hplays hphase _ =>
    rw [completed, complete_eq]
    exact ⟨_, events_append rfl, fun _ _ _ h => notes_doneEvents hplays hphase h⟩
  | endGalleryScene => exact p.notes_endGalleryScene
  | notePageLeft => exact p.notes_notePageLeft
  | begin =>
    rw [begin_eq]
    exact notes_of_none (events_append rfl) (by simp)
  | finish =>
    rw [finish_eq]
    exact notes_of_none (events_append rfl) (by simp)
  | compile => exact notes_of_none (List.append_nil _).symm rfl

omit [Stage σ] [Loader ℓ] [TableSource ς] in
/-- A player of one table on a console, for a reader whose history is kept. -/
def reader (t : CellTable) : Player Console FileLoader Library :=
  ready (.ofPicks []) (.ofRoot ⟨[], []⟩ "") (Library.empty.insert t true)
    (.ofSettings .standard .standard) 4 ∅ [] (some .empty)

end VisualNovel.Player
