import VisualNovel.Proofs.Player.Story

/-
  Players in step. Two players, each with a stage, a loader and a source of its own, are abreast
  if they are at the same place of the same run and what they told on the way fits together
  (`Abreast`); how long either of them waited, and what it has loaded ahead, does not matter. What
  players that are abreast do on their own leaves them so, as long as what they tell of a command
  that is executed fits (`Abreast.execute`) and the same is picked when it is done
  (`Abreast.complete`). They are in step if they gave the same cues and notes (`InStep`), which
  takes that the same of the assets can be used.
-/

namespace VisualNovel.Player

open Asset (Loader LoaderCall)
open History (ReadHistory)
open Scenario (TableSource)
open Stage (Cue EndReason)

variable {σ ℓ ς σ' ℓ' ς' : Type}

/-! ## Cues and notes -/

/-- Whether an event reaches the stage or the history. -/
@[simp]
def Event.isOutward : Event → Bool
  | cue _ | note _ => true
  | _ => false

/-- The cues and the notes among events, in order. -/
def outwardOf (es : List Event) : List Event := es.filter Event.isOutward

@[simp] theorem outwardOf_nil : outwardOf [] = [] := rfl

@[simp] theorem outwardOf_append (es fs : List Event) :
    outwardOf (es ++ fs) = outwardOf es ++ outwardOf fs := List.filter_append es fs

@[simp] theorem outwardOf_loader (calls : List LoaderCall) :
    outwardOf (calls.map Event.loader) = [] := by
  induction calls with
  | nil => rfl
  | cons c calls ih => exact ih

@[simp] theorem outwardOf_turn (t : Turn) (es : List Event) :
    outwardOf (.turn t :: es) = outwardOf es := rfl

/-- Whether an event is of the story of a run: a cue, a note, or a turn that leads on in it. -/
@[simp]
def Event.isStory : Event → Bool
  | cue _ | note _ | turn (.entered ..) | turn (.skipped _) | turn (.executed ..) => true
  | _ => false

/-- What events tell of the story of a run. -/
def storyOf (es : List Event) : List Event := es.filter Event.isStory

@[simp] theorem storyOf_nil : storyOf [] = [] := rfl

@[simp] theorem storyOf_append (es fs : List Event) :
    storyOf (es ++ fs) = storyOf es ++ storyOf fs := List.filter_append es fs

@[simp] theorem storyOf_loader (calls : List LoaderCall) :
    storyOf (calls.map Event.loader) = [] := by
  induction calls with
  | nil => rfl
  | cons c calls ih => exact ih

@[simp] theorem storyOf_cues (cues : List Cue) :
    storyOf (cues.map Event.cue) = cues.map Event.cue := by
  induction cues with
  | nil => rfl
  | cons c cues ih => exact congrArg (Event.cue c :: ·) ih

@[simp] theorem storyOf_cons (e : Event) (es : List Event) :
    storyOf (e :: es) = if e.isStory then e :: storyOf es else storyOf es := List.filter_cons

/-- Cues and notes are of the story. -/
theorem outwardOf_storyOf (es : List Event) : outwardOf (storyOf es) = outwardOf es := by
  induction es with
  | nil => rfl
  | cons e es ih =>
    cases e with
    | cue c => exact congrArg (Event.cue c :: ·) ih
    | note n => exact congrArg (Event.note n :: ·) ih
    | loader call => exact ih
    | turn t => cases t <;> exact ih

/-- What journals tell goes on fitting together when the same is told, without cues of commands. -/
class Additive (R : List Event → List Event → Prop) : Prop where
  append : ∀ {es fs xs ys : List Event}, R es fs → storyOf xs = storyOf ys →
    (∀ cue ∈ cuesOf xs, isWord cue = true) → R (es ++ xs) (fs ++ ys)

/-- The same cues and notes are among events. -/
abbrev SameOutward (es fs : List Event) : Prop := outwardOf es = outwardOf fs

instance : Additive SameOutward where
  append {es fs xs ys} h hstory _ := by
    rw [SameOutward, outwardOf_append, outwardOf_append, h, ← outwardOf_storyOf xs, hstory,
      outwardOf_storyOf]

/-! ## Picks -/

/-- What is picked of a menu with a turn. -/
def Turn.pick? : Turn → Option Nat
  | done _ picked? => picked?
  | _ => none

/-- What was picked of the menus of a run, in order. -/
def picksOf (es : List Event) : List Nat := (turnsOf es).filterMap Turn.pick?

@[simp] theorem picksOf_append (es fs : List Event) :
    picksOf (es ++ fs) = picksOf es ++ picksOf fs := by
  simp [picksOf]

/-! ## Players in step -/

/-- An active command without the moment it began to wait: its place, the command, and whether it
    waits for its assets. -/
def Active.untimed : Active → Nat × Command × Bool
  | ⟨index, command, .loading⟩ => (index, command, true)
  | ⟨index, command, .waiting _⟩ => (index, command, false)

/-- The players are at the same place of the same run, and what they told up to there fits
    together. -/
structure Abreast (R : List Event → List Event → Prop) (p : Player σ ℓ ς) (q : Player σ' ℓ' ς') :
    Prop where
  corpus : p.corpus = q.corpus
  history : p.history? = q.history?
  labels : p.galleryLabels = q.galleryLabels
  state : p.state = q.state
  scenario : p.scenario? = q.scenario?
  cursor : p.cursor = q.cursor
  gallery : p.gallery? = q.gallery?
  board : p.board = q.board
  active : p.active?.map Active.untimed = q.active?.map Active.untimed
  outward : R p.events q.events
  picks : picksOf p.events = picksOf q.events

/-- The players are at the same place of the same run, and gave the same cues and notes up to
    there. -/
abbrev InStep (p : Player σ ℓ ς) (q : Player σ' ℓ' ς') : Prop := Abreast SameOutward p q

variable {R : List Event → List Event → Prop} {p : Player σ ℓ ς} {q : Player σ' ℓ' ς'}

theorem InStep.symm (h : InStep p q) : InStep q p :=
  ⟨h.corpus.symm, h.history.symm, h.labels.symm, h.state.symm, h.scenario.symm, h.cursor.symm,
    h.gallery.symm, h.board.symm, h.active.symm, h.outward.symm, h.picks.symm⟩

theorem InStep.trans {σ'' ℓ'' ς'' : Type} {r : Player σ'' ℓ'' ς''} (h : InStep p q)
    (h' : InStep q r) : InStep p r :=
  ⟨h.corpus.trans h'.corpus, h.history.trans h'.history, h.labels.trans h'.labels,
    h.state.trans h'.state, h.scenario.trans h'.scenario, h.cursor.trans h'.cursor,
    h.gallery.trans h'.gallery, h.board.trans h'.board, h.active.trans h'.active,
    h.outward.trans h'.outward, h.picks.trans h'.picks⟩

theorem Abreast.stands (h : Abreast R p q) {s : Scenario} (hp : p.Stands s) : q.Stands s := by
  refine ⟨h.state ▸ hp.state, h.scenario ▸ hp.scenario, ?_⟩
  have hactive := h.active
  rw [hp.idle] at hactive
  exact Option.map_eq_none_iff.mp hactive.symm

theorem Abreast.active_eq (h : Abreast R p q) {a : Active} (hp : p.active? = some a) :
    ∃ b, q.active? = some b ∧ b.untimed = a.untimed := by
  have hactive := h.active
  rw [hp] at hactive
  exact Option.map_eq_some_iff.mp hactive.symm

/-- A command that waits for its assets with one player does so with the other. -/
theorem Abreast.plays_loading (h : Abreast R p q) {s : Scenario} {a : Active} (hp : p.Plays s a)
    (hphase : a.phase = .loading) : q.Plays s a := by
  obtain ⟨b, hb, heq⟩ := h.active_eq hp.active
  have hab : b = a := by
    obtain ⟨i, c, phase⟩ := a
    obtain ⟨j, d, phase'⟩ := b
    cases hphase
    cases phase' with
    | loading =>
      obtain ⟨rfl, rfl, -⟩ : j = i ∧ d = c ∧ true = true := by simpa [Active.untimed] using heq
      rfl
    | waiting since => simp [Active.untimed] at heq
  exact ⟨h.state ▸ hp.state, h.scenario ▸ hp.scenario, hab ▸ hb⟩

/-- A command that waits for the stage with one player does so with the other, if not since the
    same moment. -/
theorem Abreast.plays_waiting (h : Abreast R p q) {s : Scenario} {a : Active} {since : Nat}
    (hp : p.Plays s a) (hphase : a.phase = .waiting since) :
    ∃ b since', q.Plays s b ∧ b.phase = .waiting since' ∧ b.index = a.index ∧
      b.command = a.command := by
  obtain ⟨b, hb, heq⟩ := h.active_eq hp.active
  obtain ⟨i, c, phase⟩ := a
  obtain ⟨j, d, phase'⟩ := b
  cases hphase
  cases phase' with
  | loading => simp [Active.untimed] at heq
  | waiting since' =>
    obtain ⟨rfl, rfl, -⟩ : j = i ∧ d = c ∧ false = false := by simpa [Active.untimed] using heq
    exact ⟨_, since', ⟨h.state ▸ hp.state, h.scenario ▸ hp.scenario, hb⟩, rfl, rfl, rfl⟩

theorem Abreast.outward_append [Additive R] (h : Abreast R p q) {es fs : List Event}
    (hes : storyOf es = storyOf fs) (hword : ∀ cue ∈ cuesOf es, isWord cue = true) :
    R (p.journal ++ es).toList (q.journal ++ fs).toList := by
  rw [Array.toList_appendList, Array.toList_appendList]
  exact Additive.append h.outward hes hword

theorem Abreast.picks_append (h : Abreast R p q) {es fs : List Event}
    (hes : picksOf es = picksOf fs) :
    picksOf (p.journal ++ es).toList = picksOf (q.journal ++ fs).toList := by
  have hpq : picksOf p.journal.toList = picksOf q.journal.toList := h.picks
  rw [Array.toList_appendList, Array.toList_appendList, picksOf_append, picksOf_append, hpq, hes]

theorem Abreast.noted (h : Abreast R p q) (n : ReadHistory.Note) : p.noted n = q.noted n := by
  unfold Player.noted
  rw [h.history]

theorem Abreast.savedAt (h : Abreast R p q) (cursor : Cursor) (c : Command) :
    p.savedAt cursor c = q.savedAt cursor c := by
  unfold Player.savedAt
  rw [h.history]

theorem Abreast.pageBegun (h : Abreast R p q) (cursor : Cursor) (c : Command) :
    p.pageBegun cursor c = q.pageBegun cursor c := by
  unfold Player.pageBegun
  rw [h.noted]

theorem Abreast.pageEnded (h : Abreast R p q) (c : Command) : p.pageEnded c = q.pageEnded c := by
  unfold Player.pageEnded
  rw [h.cursor, h.noted]

theorem Abreast.isGalleryLabel (h : Abreast R p q) (label : String) :
    p.isGalleryLabel label = q.isGalleryLabel label := by
  unfold Player.isGalleryLabel
  rw [h.labels]

/-! ## What makes no calls -/

theorem Abreast.settle (h : Abreast R p q) : Abreast R p.settle q.settle :=
  { h with board := congrArg Command.Board.settle h.board }

theorem Abreast.note [Additive R] (h : Abreast R p q) (n : ReadHistory.Note) :
    Abreast R (p.note n) (q.note n) := by
  rw [note_eq, note_eq, ← h.noted, h.history]
  exact { h with
    history := rfl
    outward := h.outward_append rfl (by simp)
    picks := h.picks_append rfl }

theorem Abreast.notePageLeft [Additive R] (h : Abreast R p q) :
    Abreast R p.notePageLeft q.notePageLeft := by
  unfold Player.notePageLeft
  rw [h.cursor]
  split
  · exact h.note _
  · exact h

theorem Abreast.endGalleryScene [Additive R] (h : Abreast R p q) :
    Abreast R p.endGalleryScene q.endGalleryScene := by
  unfold Player.endGalleryScene
  have hgallery := h.gallery
  cases hq : q.gallery? with
  | none =>
    rw [hq] at hgallery
    rw [hgallery]
    exact h
  | some scene =>
    rw [hq] at hgallery
    rw [hgallery]
    have hcleared : Abreast R { p with gallery? := none } { q with gallery? := none } :=
      { h with gallery := rfl }
    exact hcleared.note _

theorem Abreast.enterScenario [Additive R] (h : Abreast R p q) (s : Scenario) (label : String)
    (page : Int) :
    Abreast R (p.enterScenario s label page) (q.enterScenario s label page) := by
  rw [enterScenario_eq, enterScenario_eq]
  exact { h with
    cursor := rfl
    scenario := rfl
    state := rfl
    outward := h.outward_append rfl (by simp)
    picks := h.picks_append rfl }

theorem Abreast.skip [Additive R] (h : Abreast R p q) (c : Command) :
    Abreast R (p.skip c) (q.skip c) := by
  rw [skip_eq, skip_eq, h.cursor]
  exact { h with
    cursor := rfl
    outward := h.outward_append rfl (by simp)
    picks := h.picks_append rfl }

/-! ## What makes calls -/

variable [Loader ℓ] [Loader ℓ']

@[simp] theorem outwardOf_givenBack (p : Player σ ℓ ς) : outwardOf p.givenBack.2 = [] := by
  unfold givenBack released
  cases p.active? <;> simp

@[simp] theorem storyOf_givenBack (p : Player σ ℓ ς) : storyOf p.givenBack.2 = [] := by
  unfold givenBack released
  cases p.active? <;> simp

@[simp] theorem picksOf_givenBack (p : Player σ ℓ ς) : picksOf p.givenBack.2 = [] := by
  unfold picksOf
  rw [turnsOf_givenBack]
  cases p.active? <;> rfl

theorem Abreast.activate [Additive R] (h : Abreast R p q) (c : Command) :
    Abreast R (p.activate c).1 (q.activate c).1 := by
  rw [activate_eq, activate_eq, h.cursor]
  exact { h with
    cursor := rfl
    active := rfl
    outward := h.outward_append (by simp) (by simp [isWord])
    picks := h.picks_append (by simp [picksOf]) }

variable [TableSource ς] [TableSource ς']

theorem Abreast.begin [Additive R] (h : Abreast R p q) (label : String) (page : Int)
    (gallery? : Option String) :
    Abreast R (p.begin label page gallery?) (q.begin label page gallery?) := by
  rw [begin_eq, begin_eq]
  exact { h with
    active := rfl
    scenario := rfl
    board := congrArg Command.Board.clear h.board
    gallery := rfl
    state := rfl
    outward := h.outward_append (by simp) (by simp [isWord])
    picks := h.picks_append (by simp) }

theorem Abreast.start [Additive R] (h : Abreast R p q) (label : String) (page : Int)
    (gallery? : Option String) :
    Abreast R (p.start label page gallery?) (q.start label page gallery?) := by
  unfold Player.start
  dsimp only
  rw [h.isGalleryLabel]
  exact h.begin _ _ _

theorem Abreast.jump [Additive R] (h : Abreast R p q) (label : String) :
    Abreast R (p.jump label) (q.jump label) := by
  have hleft := h.notePageLeft
  unfold Player.jump
  dsimp only
  rw [hleft.isGalleryLabel, hleft.gallery]
  exact hleft.begin _ _ _

variable [Stage σ] [Stage σ']

omit [TableSource ς] [TableSource ς'] in
theorem Abreast.finish [Additive R] (h : Abreast R p q) (reason : EndReason) :
    Abreast R (p.finish reason) (q.finish reason) := by
  rw [finish_eq, finish_eq]
  exact { h with
    active := rfl
    scenario := rfl
    board := congrArg Command.Board.clear h.board
    gallery := rfl
    state := rfl
    outward := h.outward_append (by simp) (by simp [isWord])
    picks := h.picks_append (by simp) }

omit [TableSource ς] [TableSource ς'] in
theorem Abreast.finishIfUnderWay [Additive R] (h : Abreast R p q) (reason : EndReason) :
    Abreast R (p.finishIfUnderWay reason) (q.finishIfUnderWay reason) := by
  unfold Player.finishIfUnderWay
  rw [h.state]
  split
  · exact h.finish reason
  · exact h

/-- The same requests leave players in step, whether they close the run or not. -/
theorem Abreast.handle [Additive R] (h : Abreast R p q) (requests : List Command.Request) :
    Abreast R (handle requests p).1 (handle requests q).1 := by
  induction requests generalizing p q with
  | nil => exact h
  | cons request rest ih =>
    cases request with
    | jump label => exact h.jump label
    | endScenario => exact h.finish _
    | stop | erase => exact h.finishIfUnderWay _
    | endSceneGallery => exact ih h.endGalleryScene

/-- Players in step have the same requests to take up. -/
theorem Abreast.takeUp [Additive R] (h : Abreast R p q) :
    Abreast R (Player.handle p.board.requests p.settle).1
      (Player.handle q.board.requests q.settle).1 := by
  rw [h.board]
  exact h.settle.handle _

omit [TableSource ς] [TableSource ς'] in
/-- A command that is executed leaves players abreast if what they tell of it fits. -/
theorem Abreast.execute (h : Abreast R p q) {a : Active}
    (htold : R (p.events ++ p.executedEvents a) (q.events ++ q.executedEvents a)) :
    Abreast R (p.execute a).1 (q.execute a).1 := by
  have houtcome : (p.outcome a).1 = (q.outcome a).1 := by
    unfold outcome Command.execute
    rw [h.board]
  have hlabels : p.isGalleryLabel = q.isGalleryLabel := funext h.isGalleryLabel
  have houtward : R (p.journal ++ p.executedEvents a).toList
      (q.journal ++ q.executedEvents a).toList := by
    rw [Array.toList_appendList, Array.toList_appendList]
    exact htold
  rw [execute_eq, execute_eq, houtcome, h.cursor, h.savedAt, hlabels, h.gallery]
  refine { h with
    history := rfl
    gallery := rfl
    cursor := rfl
    board := rfl
    active := rfl
    outward := houtward
    picks := h.picks_append ?_ }
  unfold picksOf
  rw [turnsOf_executedEvents, turnsOf_executedEvents]
  rfl

omit [Stage σ] [Stage σ'] [TableSource ς] [TableSource ς'] in
/-- Players in step give the same cues and notes with a command if they can use the same of its
    assets. -/
theorem InStep.executed (h : InStep p q) {a : Active}
    (hassets : Agree a.command.resources (p.moved a.index).2.1.state
      (q.moved a.index).2.1.state) :
    SameOutward (p.events ++ p.executedEvents a) (q.events ++ q.executedEvents a) := by
  have hcues : (p.outcome a).2 = (q.outcome a).2 := by
    unfold outcome Command.execute
    rw [h.board, cues_congr a.command.action q.board hassets]
  rw [SameOutward, outwardOf_append, outwardOf_append, h.outward]
  simp [executedEvents, hcues, h.pageBegun, h.cursor]

omit [TableSource ς] [TableSource ς'] in
/-- A command that is done leaves players in step if the same was picked. -/
theorem Abreast.complete [Additive R] (h : Abreast R p q) {a b : Active}
    (hindex : a.index = b.index) (hcommand : a.command = b.command) (picked? : Option Nat) :
    Abreast R (p.complete a picked?) (q.complete b picked?) := by
  rw [complete_eq, complete_eq, hindex, hcommand, h.cursor, h.history]
  refine { h with
    history := rfl
    active := rfl
    cursor := rfl
    outward := h.outward_append ?_ ?_
    picks := h.picks_append ?_ }
  · simp [doneEvents, hcommand, h.pageEnded]
  · intro cue hcue
    rw [cuesOf_doneEvents] at hcue
    split at hcue
    · obtain rfl := List.mem_singleton.mp hcue
      rfl
    · cases hcue
  · unfold picksOf
    rw [turnsOf_doneEvents, turnsOf_doneEvents]
    rfl

end VisualNovel.Player
