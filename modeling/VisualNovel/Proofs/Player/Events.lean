import VisualNovel.Player.Run

/-
  What each operation of a player changes, written as one update of its fields with the events
  it adds to the journal. Proofs about players rewrite with these equations and do not open the
  operations themselves.
-/

namespace VisualNovel.Player

open Asset (Ledger Loader LoaderCall)
open History (ReadHistory)
open Scenario (TableSource)
open Stage (Cue EndReason)

variable {σ ℓ ς : Type}

/-! ## Events by kind -/

/-- What a player did, in order. -/
def events (p : Player σ ℓ ς) : List Event := p.journal.toList

/-- The call to the loader that an event is. -/
def Event.call? : Event → Option LoaderCall
  | loader call => some call
  | _ => none

/-- The calls to the loader among events. -/
def callsOf (es : List Event) : List LoaderCall := es.filterMap Event.call?

@[simp] theorem callsOf_nil : callsOf [] = [] := rfl

@[simp] theorem callsOf_append (es fs : List Event) :
    callsOf (es ++ fs) = callsOf es ++ callsOf fs := List.filterMap_append

@[simp] theorem callsOf_loader (calls : List LoaderCall) :
    callsOf (calls.map Event.loader) = calls := by
  induction calls with
  | nil => rfl
  | cons c calls ih => exact congrArg (c :: ·) ih

@[simp] theorem callsOf_cues (cues : List Cue) : callsOf (cues.map Event.cue) = [] := by
  induction cues with
  | nil => rfl
  | cons c cues ih => exact ih

@[simp] theorem callsOf_cue (c : Cue) (es : List Event) : callsOf (.cue c :: es) = callsOf es := rfl

@[simp] theorem callsOf_turn (t : Turn) (es : List Event) :
    callsOf (.turn t :: es) = callsOf es := rfl

@[simp] theorem callsOf_note (n : ReadHistory.Note) (es : List Event) :
    callsOf (.note n :: es) = callsOf es := rfl

/-- The turn that an event is. -/
def Event.turn? : Event → Option Turn
  | turn t => some t
  | _ => none

/-- The turns among events. -/
def turnsOf (es : List Event) : List Turn := es.filterMap Event.turn?

@[simp] theorem turnsOf_nil : turnsOf [] = [] := rfl

@[simp] theorem turnsOf_append (es fs : List Event) :
    turnsOf (es ++ fs) = turnsOf es ++ turnsOf fs := List.filterMap_append

@[simp] theorem turnsOf_loader (calls : List LoaderCall) :
    turnsOf (calls.map Event.loader) = [] := by
  induction calls with
  | nil => rfl
  | cons c calls ih => exact ih

@[simp] theorem turnsOf_cues (cues : List Cue) : turnsOf (cues.map Event.cue) = [] := by
  induction cues with
  | nil => rfl
  | cons c cues ih => exact ih

@[simp] theorem turnsOf_cue (c : Cue) (es : List Event) : turnsOf (.cue c :: es) = turnsOf es := rfl

@[simp] theorem turnsOf_turn (t : Turn) (es : List Event) :
    turnsOf (.turn t :: es) = t :: turnsOf es := rfl

@[simp] theorem turnsOf_note (n : ReadHistory.Note) (es : List Event) :
    turnsOf (.note n :: es) = turnsOf es := rfl

/-- The cue that an event is. -/
def Event.cue? : Event → Option Cue
  | cue c => some c
  | _ => none

/-- The cues among events. -/
def cuesOf (es : List Event) : List Cue := es.filterMap Event.cue?

@[simp] theorem cuesOf_nil : cuesOf [] = [] := rfl

@[simp] theorem cuesOf_append (es fs : List Event) :
    cuesOf (es ++ fs) = cuesOf es ++ cuesOf fs := List.filterMap_append

@[simp] theorem cuesOf_loader (calls : List LoaderCall) :
    cuesOf (calls.map Event.loader) = [] := by
  induction calls with
  | nil => rfl
  | cons c calls ih => exact ih

@[simp] theorem cuesOf_cues (cues : List Cue) : cuesOf (cues.map Event.cue) = cues := by
  induction cues with
  | nil => rfl
  | cons c cues ih => exact congrArg (c :: ·) ih

@[simp] theorem cuesOf_cue (c : Cue) (es : List Event) :
    cuesOf (.cue c :: es) = c :: cuesOf es := rfl

@[simp] theorem cuesOf_turn (t : Turn) (es : List Event) : cuesOf (.turn t :: es) = cuesOf es := rfl

@[simp] theorem cuesOf_note (n : ReadHistory.Note) (es : List Event) :
    cuesOf (.note n :: es) = cuesOf es := rfl

/-- Whether a cue is word of where the story is: of a page that begins or ends, or of the end. -/
def isWord : Cue → Bool
  | .pageBegin .. | .pageEnd .. | .finished _ => true
  | _ => false

theorem mem_turnsOf {t : Turn} {es : List Event} : t ∈ turnsOf es ↔ .turn t ∈ es := by
  constructor
  · intro h
    obtain ⟨e, he, ht⟩ := List.mem_filterMap.mp h
    cases e <;> cases ht
    exact he
  · exact fun h => List.mem_filterMap.mpr ⟨_, h, rfl⟩

theorem mem_cuesOf {c : Cue} {es : List Event} : c ∈ cuesOf es ↔ .cue c ∈ es := by
  constructor
  · intro h
    obtain ⟨e, he, hc⟩ := List.mem_filterMap.mp h
    cases e <;> cases hc
    exact he
  · exact fun h => List.mem_filterMap.mpr ⟨_, h, rfl⟩

/-- Whether an event is part of the story: a cue, or a command that is passed over or executed. -/
@[simp]
def Event.isTold : Event → Bool
  | cue _ | turn (.skipped _) | turn (.executed ..) => true
  | _ => false

/-- What events tell of the story. -/
def toldOf (es : List Event) : List Event := es.filter Event.isTold

@[simp] theorem toldOf_nil : toldOf [] = [] := rfl

@[simp] theorem toldOf_append (es fs : List Event) :
    toldOf (es ++ fs) = toldOf es ++ toldOf fs := List.filter_append es fs

@[simp] theorem toldOf_loader (calls : List LoaderCall) :
    toldOf (calls.map Event.loader) = [] := by
  induction calls with
  | nil => rfl
  | cons c calls ih => exact ih

@[simp] theorem toldOf_cues (cues : List Cue) :
    toldOf (cues.map Event.cue) = cues.map Event.cue := by
  induction cues with
  | nil => rfl
  | cons c cues ih => exact congrArg (Event.cue c :: ·) ih

@[simp] theorem toldOf_cue (c : Cue) (es : List Event) :
    toldOf (.cue c :: es) = .cue c :: toldOf es := rfl

@[simp] theorem toldOf_turn (t : Turn) (es : List Event) :
    toldOf (.turn t :: es) =
      if (Event.turn t).isTold then .turn t :: toldOf es else toldOf es := List.filter_cons

@[simp] theorem toldOf_note (n : ReadHistory.Note) (es : List Event) :
    toldOf (.note n :: es) = toldOf es := rfl

/-- All cues are part of the story. -/
theorem cuesOf_toldOf (es : List Event) : cuesOf (toldOf es) = cuesOf es := by
  induction es with
  | nil => rfl
  | cons e es ih =>
    cases e with
    | turn t => cases t <;> exact ih
    | cue c => exact congrArg (c :: ·) ih
    | _ => exact ih

/-- Without turns and cues there is no story. -/
theorem toldOf_of_none {es : List Event} (hturns : turnsOf es = []) (hcues : cuesOf es = []) :
    toldOf es = [] := by
  refine List.filter_eq_nil_iff.mpr fun e he htold => ?_
  cases e with
  | turn t => exact absurd (mem_turnsOf.mpr he) (hturns ▸ List.not_mem_nil)
  | cue c => exact absurd (mem_cuesOf.mpr he) (hcues ▸ List.not_mem_nil)
  | _ => cases htold

/-! ## Notes -/

theorem push_eq_append {α : Type} (xs : Array α) (x : α) : xs.push x = xs ++ [x] := by
  simp

theorem append_append {α : Type} (xs : Array α) (ys zs : List α) :
    xs ++ ys ++ zs = xs ++ (ys ++ zs) := by
  apply Array.ext'
  simp

/-- What a longer journal tells. -/
theorem events_append {p q : Player σ ℓ ς} {es : List Event} (h : q.journal = p.journal ++ es) :
    q.events = p.events ++ es := by
  simp [events, h]

/-- The events of a note: it is made only if a history is kept. -/
def noted (p : Player σ ℓ ς) (n : ReadHistory.Note) : List Event :=
  if p.history?.isSome then [.note n] else []

@[simp] theorem callsOf_noted (p : Player σ ℓ ς) (n : ReadHistory.Note) :
    callsOf (p.noted n) = [] := by
  unfold noted
  split <;> rfl

@[simp] theorem toldOf_noted (p : Player σ ℓ ς) (n : ReadHistory.Note) :
    toldOf (p.noted n) = [] := by
  unfold noted
  split <;> rfl

@[simp] theorem cuesOf_noted (p : Player σ ℓ ς) (n : ReadHistory.Note) :
    cuesOf (p.noted n) = [] := by
  unfold noted
  split <;> rfl

@[simp] theorem turnsOf_noted (p : Player σ ℓ ς) (n : ReadHistory.Note) :
    turnsOf (p.noted n) = [] := by
  unfold noted
  split <;> rfl

theorem note_eq (p : Player σ ℓ ς) (n : ReadHistory.Note) :
    p.note n =
      { p with history? := p.history?.map (·.record n), journal := p.journal ++ p.noted n } := by
  obtain ⟨_, _, _, _, history?, _⟩ := p
  cases history? <;> simp [note, noted, happened]

/-! ## Pages -/

@[simp] theorem Cursor.enter_index (cur : Cursor) (c : Command) :
    (cur.enter c).index = cur.index := by
  unfold Cursor.enter
  split <;> rfl

@[simp] theorem Cursor.turnPage_index (cur : Cursor) (c : Command) :
    (cur.turnPage c).index = cur.index := by
  unfold Cursor.turnPage
  split <;> rfl

@[simp] theorem Cursor.turnPage_label (cur : Cursor) (c : Command) :
    (cur.turnPage c).label = cur.label := by
  unfold Cursor.turnPage
  split <;> rfl

/-- The notes of a history after the page that begins with a command. -/
def savedAt (p : Player σ ℓ ς) (cursor : Cursor) (c : Command) : Option ReadHistory :=
  if c.beginsPage then
    p.history?.map (·.record (.autosave ⟨cursor.label, max cursor.page 0⟩))
  else p.history?

/-- The stage after the page that begins with a command. -/
def stagedAt [Stage σ] (stage : σ) (cursor : Cursor) (c : Command) : σ :=
  if c.beginsPage then Stage.perform stage (.pageBegin cursor.label cursor.page) else stage

/-- The events of the page that begins with a command when the cursor is on it. -/
def pageBegun (p : Player σ ℓ ς) (cursor : Cursor) (c : Command) : List Event :=
  if c.beginsPage then
    .cue (.pageBegin cursor.label cursor.page) ::
      p.noted (.autosave ⟨cursor.label, max cursor.page 0⟩)
  else []

theorem beginPage_eq [Stage σ] (p : Player σ ℓ ς) (c : Command) :
    p.beginPage c =
      { p with
        stage := stagedAt p.stage (p.cursor.turnPage c) c
        cursor := p.cursor.turnPage c
        history? := p.savedAt (p.cursor.turnPage c) c
        journal := p.journal ++ p.pageBegun (p.cursor.turnPage c) c } := by
  by_cases hc : c.beginsPage
  · simp only [beginPage, if_pos hc, note_eq, perform, happened, savedAt, stagedAt, pageBegun,
      savePoint, push_eq_append, append_append]
    rfl
  · simp [beginPage, hc, Cursor.turnPage, savedAt, stagedAt, pageBegun]

/-- The events of the end of the page that began with a command. -/
def pageEnded (p : Player σ ℓ ς) (c : Command) : List Event :=
  if c.beginsPage then
    .cue (.pageEnd p.cursor.label p.cursor.page) ::
      p.noted (.pageRead p.cursor.label p.cursor.page)
  else []

theorem endPage_eq [Stage σ] (p : Player σ ℓ ς) (c : Command) :
    p.endPage c =
      { p with
        stage :=
          if c.beginsPage then Stage.perform p.stage (.pageEnd p.cursor.label p.cursor.page)
          else p.stage
        history? :=
          if c.beginsPage then
            p.history?.map (·.record (.pageRead p.cursor.label p.cursor.page))
          else p.history?
        journal := p.journal ++ p.pageEnded c } := by
  by_cases hc : c.beginsPage
  · simp only [endPage, if_pos hc, note_eq, perform, happened, pageEnded, push_eq_append,
      append_append]
    rfl
  · simp [endPage, hc, pageEnded]

@[simp] theorem callsOf_pageBegun (p : Player σ ℓ ς) (cursor : Cursor) (c : Command) :
    callsOf (p.pageBegun cursor c) = [] := by
  unfold pageBegun
  split <;> simp

@[simp] theorem cuesOf_pageBegun (p : Player σ ℓ ς) (cursor : Cursor) (c : Command) :
    cuesOf (p.pageBegun cursor c) =
      if c.beginsPage then [.pageBegin cursor.label cursor.page] else [] := by
  unfold pageBegun
  split <;> simp

@[simp] theorem turnsOf_pageBegun (p : Player σ ℓ ς) (cursor : Cursor) (c : Command) :
    turnsOf (p.pageBegun cursor c) = [] := by
  unfold pageBegun
  split <;> simp

@[simp] theorem callsOf_pageEnded (p : Player σ ℓ ς) (c : Command) :
    callsOf (p.pageEnded c) = [] := by
  unfold pageEnded
  split <;> simp

@[simp] theorem cuesOf_pageEnded (p : Player σ ℓ ς) (c : Command) :
    cuesOf (p.pageEnded c) =
      if c.beginsPage then [.pageEnd p.cursor.label p.cursor.page] else [] := by
  unfold pageEnded
  split <;> simp

@[simp] theorem turnsOf_pageEnded (p : Player σ ℓ ς) (c : Command) :
    turnsOf (p.pageEnded c) = [] := by
  unfold pageEnded
  split <;> simp

@[simp] theorem toldOf_pageBegun (p : Player σ ℓ ς) (cursor : Cursor) (c : Command) :
    toldOf (p.pageBegun cursor c) =
      if c.beginsPage then [.cue (.pageBegin cursor.label cursor.page)] else [] := by
  unfold pageBegun
  split <;> simp

@[simp] theorem toldOf_pageEnded (p : Player σ ℓ ς) (c : Command) :
    toldOf (p.pageEnded c) =
      if c.beginsPage then [.cue (.pageEnd p.cursor.label p.cursor.page)] else [] := by
  unfold pageEnded
  split <;> simp

/-! ## Leaving a run -/

/-- What the active command gives back: the ledger after it, and its events. -/
def released [Loader ℓ] (p : Player σ ℓ ς) : Ledger ℓ × List Event :=
  match p.active? with
  | none => (p.ledger, [])
  | some a =>
    let r := p.ledger.releases (.command a.index) a.command.resources
    (r.1, r.2.map .loader ++ [.turn (.released a.index)])

/-- What a player gives back that leaves a run: the ledger after it, and its events. -/
def givenBack [Loader ℓ] (p : Player σ ℓ ς) : Ledger ℓ × List Event :=
  let r := p.released.1.releases .preload p.window.held
  (r.1, p.released.2 ++ r.2.map .loader)

@[simp] theorem turnsOf_givenBack [Loader ℓ] (p : Player σ ℓ ς) :
    turnsOf p.givenBack.2 = (p.active?.map fun a => Turn.released a.index).toList := by
  unfold givenBack released
  cases p.active? <;> simp

@[simp] theorem toldOf_givenBack [Loader ℓ] (p : Player σ ℓ ς) : toldOf p.givenBack.2 = [] := by
  unfold givenBack released
  cases p.active? <;> simp

@[simp] theorem cuesOf_givenBack [Loader ℓ] (p : Player σ ℓ ς) : cuesOf p.givenBack.2 = [] := by
  unfold givenBack released
  cases p.active? <;> simp

theorem teardown_eq [Loader ℓ] (p : Player σ ℓ ς) :
    p.teardown =
      { p with
        active? := none
        scenario? := none
        board := p.board.clear
        window := { p.window with held := [] }
        ledger := p.givenBack.1
        journal := p.journal ++ p.givenBack.2 } := by
  cases ha : p.active? with
  | none =>
    simp only [teardown, ha, Option.map_none, Option.getD_none, clearWindow, PreloadWindow.clear,
      withLedger, givenBack, released, List.nil_append]
  | some a =>
    simp only [teardown, ha, Option.map_some, Option.getD_some, release, clearWindow,
      PreloadWindow.clear, withLedger, happened, givenBack, released, push_eq_append,
      append_append]

theorem finish_eq [Stage σ] [Loader ℓ] (p : Player σ ℓ ς) (reason : EndReason) :
    p.finish reason =
      { p with
        active? := none
        scenario? := none
        board := p.board.clear
        window := { p.window with held := [] }
        ledger := p.givenBack.1
        gallery? := none
        state := .ended reason
        stage := Stage.perform p.stage (.finished reason)
        journal := p.journal ++ (p.givenBack.2 ++ [.cue (.finished reason)]) } := by
  simp only [finish, teardown_eq, perform, happened, push_eq_append, append_append]

theorem begin_eq [Loader ℓ] [TableSource ς] (p : Player σ ℓ ς) (label : String) (page : Int)
    (gallery? : Option String) :
    p.begin label page gallery? =
      { p with
        active? := none
        scenario? := none
        board := p.board.clear
        window := { p.window with held := [] }
        ledger := p.givenBack.1
        gallery?
        source := TableSource.request p.source label
        state := .loading label page
        journal := p.journal ++ (p.givenBack.2 ++ [.turn (.asked label page)]) } := by
  simp only [begin, teardown_eq, happened, push_eq_append, append_append]

/-! ## The turn of a command -/

theorem enterScenario_eq (p : Player σ ℓ ς) (s : Scenario) (label : String) (page : Int) :
    p.enterScenario s label page =
      { p with
        cursor := entry s label page
        scenario? := some s
        state := .running
        journal := p.journal ++ [Event.turn (.entered s (entry s label page))] } := by
  simp only [enterScenario, happened, push_eq_append]

theorem skip_eq (p : Player σ ℓ ς) (c : Command) :
    p.skip c =
      { p with
        cursor := { p.cursor.turnPage c with index := p.cursor.index + 1 }
        journal := p.journal ++ [Event.turn (.skipped p.cursor.index)] } := by
  simp only [skip, happened, push_eq_append]

theorem activate_eq [Loader ℓ] (p : Player σ ℓ ς) (c : Command) :
    p.activate c =
      ({ p with
          active? := some ⟨p.cursor.index, c, .loading⟩
          ledger := (p.ledger.addUses (.command p.cursor.index) c.resources).1
          journal := p.journal ++ (Event.turn (.begun p.cursor.index) ::
            (p.ledger.addUses (.command p.cursor.index) c.resources).2.map Event.loader) },
        ⟨p.cursor.index, c, .loading⟩) := by
  simp only [activate, withLedger, happened, push_eq_append, append_append, List.singleton_append]

/-- The window and the ledger after the window was moved to behind a place, and the calls of
    the move. -/
def moved [Loader ℓ] (p : Player σ ℓ ς) (index : Nat) :
    PreloadWindow × Ledger ℓ × List LoaderCall :=
  p.window.update (p.upcoming index) p.ledger

/-- What an executed command leaves on the board, and its cues. -/
def outcome [Loader ℓ] (p : Player σ ℓ ς) (a : Active) : Command.Board × List Cue :=
  a.command.execute (p.moved a.index).2.1.state p.board

/-- Which of the assets of a command can be used when it is executed. -/
def usableAt [Loader ℓ] (p : Player σ ℓ ς) (a : Active) : List Bool :=
  a.command.resources.map fun h => ((p.moved a.index).2.1.state h).isLoaded

/-- The events of an execution. -/
def executedEvents [Loader ℓ] (p : Player σ ℓ ς) (a : Active) : List Event :=
  (p.moved a.index).2.2.map .loader ++ .turn (.executed a.index (p.usableAt a)) ::
    ((p.outcome a).2.map .cue ++
      p.pageBegun ((p.cursor.enter a.command).turnPage a.command) a.command)

@[simp] theorem callsOf_executedEvents [Loader ℓ] (p : Player σ ℓ ς) (a : Active) :
    callsOf (p.executedEvents a) = (p.moved a.index).2.2 := by simp [executedEvents]

@[simp] theorem turnsOf_executedEvents [Loader ℓ] (p : Player σ ℓ ς) (a : Active) :
    turnsOf (p.executedEvents a) = [.executed a.index (p.usableAt a)] := by simp [executedEvents]

@[simp] theorem toldOf_executedEvents [Loader ℓ] (p : Player σ ℓ ς) (a : Active) :
    toldOf (p.executedEvents a) = .turn (.executed a.index (p.usableAt a)) ::
      ((p.outcome a).2.map .cue ++
        if a.command.beginsPage then
          [.cue (.pageBegin ((p.cursor.enter a.command).turnPage a.command).label
            ((p.cursor.enter a.command).turnPage a.command).page)]
        else []) := by
  simp [executedEvents]

theorem execute_eq [Stage σ] [Loader ℓ] (p : Player σ ℓ ς) (a : Active) :
    p.execute a =
      ({ p with
          stage :=
            stagedAt ((p.outcome a).2.foldl Stage.perform p.stage)
              ((p.cursor.enter a.command).turnPage a.command) a.command
          history? := p.savedAt ((p.cursor.enter a.command).turnPage a.command) a.command
          gallery? := (a.command.label?.filter p.isGalleryLabel).orElse fun _ => p.gallery?
          window := (p.moved a.index).1
          ledger := (p.moved a.index).2.1
          cursor := (p.cursor.enter a.command).turnPage a.command
          board := (p.outcome a).1
          active? := some { a with phase := .waiting (Stage.now p.stage) }
          journal := p.journal ++ p.executedEvents a },
        Stage.now p.stage) := by
  simp only [execute, beginPage_eq, enterLabel, moveWindow, withLedger, happened, performAll,
    push_eq_append, append_append, executedEvents, moved, outcome, usableAt, usable,
    List.append_assoc, List.cons_append, List.nil_append]
  rfl

@[simp] theorem execute_state [Stage σ] [Loader ℓ] (p : Player σ ℓ ς) (a : Active) :
    (p.execute a).1.state = p.state := by rw [execute_eq]

@[simp] theorem execute_scenario [Stage σ] [Loader ℓ] (p : Player σ ℓ ς) (a : Active) :
    (p.execute a).1.scenario? = p.scenario? := by rw [execute_eq]

@[simp] theorem execute_active [Stage σ] [Loader ℓ] (p : Player σ ℓ ς) (a : Active) :
    (p.execute a).1.active? = some { a with phase := .waiting (Stage.now p.stage) } := by
  rw [execute_eq]

theorem execute_events [Stage σ] [Loader ℓ] (p : Player σ ℓ ς) (a : Active) :
    (p.execute a).1.events = p.events ++ p.executedEvents a := by
  rw [execute_eq]
  exact events_append rfl

/-- The events of a command that is done. -/
def doneEvents [Loader ℓ] (p : Player σ ℓ ς) (a : Active) (picked? : Option Nat) : List Event :=
  .turn (.done a.index picked?) :: (p.pageEnded a.command ++
    ((p.ledger.releases (.command a.index) a.command.resources).2.map .loader ++
      [.turn (.released a.index)]))

@[simp] theorem callsOf_doneEvents [Loader ℓ] (p : Player σ ℓ ς) (a : Active)
    (picked? : Option Nat) :
    callsOf (p.doneEvents a picked?) =
      (p.ledger.releases (.command a.index) a.command.resources).2 := by simp [doneEvents]

@[simp] theorem turnsOf_doneEvents [Loader ℓ] (p : Player σ ℓ ς) (a : Active)
    (picked? : Option Nat) :
    turnsOf (p.doneEvents a picked?) = [.done a.index picked?, .released a.index] := by
  simp [doneEvents]

@[simp] theorem cuesOf_doneEvents [Loader ℓ] (p : Player σ ℓ ς) (a : Active)
    (picked? : Option Nat) :
    cuesOf (p.doneEvents a picked?) =
      if a.command.beginsPage then [.pageEnd p.cursor.label p.cursor.page] else [] := by
  simp [doneEvents]

@[simp] theorem toldOf_doneEvents [Loader ℓ] (p : Player σ ℓ ς) (a : Active)
    (picked? : Option Nat) :
    toldOf (p.doneEvents a picked?) =
      if a.command.beginsPage then [.cue (.pageEnd p.cursor.label p.cursor.page)] else [] := by
  simp [doneEvents]

theorem complete_eq [Stage σ] [Loader ℓ] (p : Player σ ℓ ς) (a : Active) (picked? : Option Nat) :
    p.complete a picked? =
      { p with
        stage :=
          if a.command.beginsPage then
            Stage.perform p.stage (.pageEnd p.cursor.label p.cursor.page)
          else p.stage
        history? :=
          if a.command.beginsPage then
            p.history?.map (·.record (.pageRead p.cursor.label p.cursor.page))
          else p.history?
        active? := none
        ledger := (p.ledger.releases (.command a.index) a.command.resources).1
        cursor := { p.cursor with index := a.index + 1 }
        journal := p.journal ++ p.doneEvents a picked? } := by
  simp only [complete, endPage_eq, release, withLedger, happened, push_eq_append, append_append,
    doneEvents, List.append_assoc, List.cons_append, List.nil_append]
  rfl

/-- The player that leaves a command which is done, with the board as the command leaves it. -/
def completed [Stage σ] [Loader ℓ] (p : Player σ ℓ ς) (a : Active) (since : Nat) : Player σ ℓ ς :=
  { p with board := (a.command.await (Stage.progress p.stage since) p.board).1 }.complete a
    (a.command.pick? (Stage.progress p.stage since) p.board)

@[simp] theorem completed_state [Stage σ] [Loader ℓ] (p : Player σ ℓ ς) (a : Active)
    (since : Nat) : (p.completed a since).state = p.state := by
  rw [completed, complete_eq]

@[simp] theorem completed_scenario [Stage σ] [Loader ℓ] (p : Player σ ℓ ς) (a : Active)
    (since : Nat) : (p.completed a since).scenario? = p.scenario? := by
  rw [completed, complete_eq]

@[simp] theorem completed_active [Stage σ] [Loader ℓ] (p : Player σ ℓ ς) (a : Active)
    (since : Nat) : (p.completed a since).active? = none := by
  rw [completed, complete_eq]

@[simp] theorem completed_cursor [Stage σ] [Loader ℓ] (p : Player σ ℓ ς) (a : Active)
    (since : Nat) : (p.completed a since).cursor = { p.cursor with index := a.index + 1 } := by
  rw [completed, complete_eq]

theorem completed_events [Stage σ] [Loader ℓ] (p : Player σ ℓ ς) (a : Active) (since : Nat) :
    (p.completed a since).events = p.events ++
      p.doneEvents a (a.command.pick? (Stage.progress p.stage since) p.board) := by
  rw [completed, complete_eq]
  exact events_append rfl

/-! ## Notes of a run -/

/-- Seeing a scene of the gallery to its end is a note at most. -/
theorem endGalleryScene_eq (p : Player σ ℓ ς) :
    ∃ history? es, history?.isSome = p.history?.isSome ∧ callsOf es = [] ∧ turnsOf es = [] ∧
      cuesOf es = [] ∧
      p.endGalleryScene = { p with gallery? := none, history?, journal := p.journal ++ es } := by
  obtain ⟨_, _, _, _, history?, _, _, _, _, gallery?, _⟩ := p
  cases gallery? with
  | none => exact ⟨history?, [], rfl, rfl, rfl, rfl, by simp [endGalleryScene]⟩
  | some scene =>
    simp only [endGalleryScene, note_eq]
    exact ⟨_, _, Option.isSome_map, callsOf_noted _ _, turnsOf_noted _ _, cuesOf_noted _ _, rfl⟩

/-- Leaving a page is a note at most. -/
theorem notePageLeft_eq (p : Player σ ℓ ς) :
    ∃ history? es, history?.isSome = p.history?.isSome ∧ callsOf es = [] ∧ turnsOf es = [] ∧
      cuesOf es = [] ∧ p.notePageLeft = { p with history?, journal := p.journal ++ es } := by
  unfold notePageLeft
  split
  · rw [note_eq]
    exact ⟨_, _, Option.isSome_map, callsOf_noted _ _, turnsOf_noted _ _, cuesOf_noted _ _, rfl⟩
  · exact ⟨p.history?, [], rfl, rfl, rfl, rfl, by simp⟩

end VisualNovel.Player
