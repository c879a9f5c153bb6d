import Mathlib.Data.List.TakeWhile
import Mathlib.Logic.Function.Iterate
import VisualNovel.Asset.FileLoader
import VisualNovel.Proofs.Player.Accounting
import VisualNovel.Proofs.Player.Calls
import VisualNovel.Proofs.Player.Notes
import VisualNovel.Proofs.Player.Stations
import VisualNovel.Proofs.Player.Strides

/-
  The requests of a command. Those before the first that leaves the run see a scene of the gallery
  to its end, the first is done, and those behind it are dropped (`Recorded.handle_eq`). A command
  whose requests leave the run gives its assets back once and is not asked whether it is done
  (`Recorded.exits`); otherwise it is waited for as if it had requested nothing, but that the scene
  was seen. No request is left for later (`first_exit_is_taken`).
-/

namespace VisualNovel.Command

open History.ReadHistory (Note)
open Player (Cursor State Status Turn bareLabel)
open Stage (Cue EndReason)

/-- How a run is left: for a label, or for good. -/
inductive Exit where
  | jump (label : String)
  | ended (reason : EndReason)
  deriving DecidableEq

/-- How a request leaves the run, if it does. -/
def Request.exit? : Request → Option Exit
  | jump label => some (.jump label)
  | endScenario => some (.ended .completed)
  | stop => some (.ended .stopped)
  | erase => some (.ended .erased)
  | endSceneGallery => none

/-- The requests before the first that leaves the run. -/
def stays (batch : List Request) : List Request := batch.takeWhile fun r => r.exit?.isNone

theorem stays_eq_self {batch : List Request} (h : batch.findSome? Request.exit? = none) :
    stays batch = batch := by
  have hstays : ∀ r ∈ batch, r.exit?.isNone = true := fun r hr =>
    Option.isNone_iff_eq_none.mpr (List.findSome?_eq_none_iff.mp h r hr)
  exact List.takeWhile_eq_self_iff.mpr hstays

namespace Exit

/-- What a player does that left a run. -/
def state : Exit → State
  | jump label => .loading (bareLabel label) 0
  | ended reason => .ended reason

def status : Exit → Status
  | jump _ => .suspended .labelLoad
  | ended _ => .halted

/-- What happens when the run is left. -/
def turns : Exit → List Turn
  | jump label => [.asked (bareLabel label) 0]
  | ended _ => []

def cues : Exit → List Cue
  | jump _ => []
  | ended reason => [.finished reason]

def calls : Exit → List Player.Call
  | jump label => [.asked (bareLabel label) 0]
  | ended _ => []

/-- The page that is left for a label is read. -/
def notes (cursor : Cursor) : Exit → List Note
  | jump _ =>
    if 0 ≤ cursor.page ∧ cursor.label ≠ "" then [.pageRead cursor.label cursor.page] else []
  | ended _ => []

/-- The scene of the gallery that is shown then: that of the label if it has one, else the scene
    before, and none where the run ends. -/
def scene? (isGalleryLabel : String → Bool) (before? : Option String) : Exit → Option String
  | jump label => if isGalleryLabel (bareLabel label) then some (bareLabel label) else before?
  | ended _ => none

end Exit

end VisualNovel.Command

namespace VisualNovel.Player

open Asset (Ledger Loader)
open Command (Exit Request)
open History (ReadHistory)
open Scenario (Corpus TableSource)

variable {σ ℓ ς : Type} [Stage σ] [Loader ℓ] [TableSource ς]

/-! ## Batches -/

/-- Leaves a run. -/
def exit (p : Player σ ℓ ς) : Exit → Player σ ℓ ς
  | .jump label => p.jump label
  | .ended reason => p.finish reason

/-- Sees scenes of the gallery to their ends, one after the other. -/
def endScenes (p : Player σ ℓ ς) (count : Nat) : Player σ ℓ ς := endGalleryScene^[count] p

/-- A history, if one is kept, after some notes. -/
def notedIn (history? : Option ReadHistory) (notes : List ReadHistory.Note) : Option ReadHistory :=
  history?.map (noteAll · notes)

omit [Stage σ] [Loader ℓ] [TableSource ς] in
theorem note_history (p : Player σ ℓ ς) (n : ReadHistory.Note) :
    (p.note n).history? = notedIn p.history? [n] := by
  rw [note_eq]
  rfl

theorem notedIn_nil (history? : Option ReadHistory) : notedIn history? [] = history? := by
  cases history? <;> rfl

theorem notedIn_append (history? : Option ReadHistory) (ms ns : List ReadHistory.Note) :
    notedIn history? (ms ++ ns) = notedIn (notedIn history? ms) ns := by
  cases history? with
  | none => rfl
  | some h => exact congrArg some (Player.noteAll_append h ms ns)

/-- What is noted where scenes are seen to their ends: the scene that is shown, the first time. -/
def scenesSeen (p : Player σ ℓ ς) (count : Nat) : List ReadHistory.Note :=
  if count = 0 then [] else p.gallery?.toList.map .sceneViewed

/-- The scene that is shown behind that. -/
def sceneBehind? (p : Player σ ℓ ς) (count : Nat) : Option String :=
  if count = 0 then p.gallery? else none

omit [Stage σ] [Loader ℓ] [TableSource ς] in
theorem endGalleryScene_gallery (p : Player σ ℓ ς) : p.endGalleryScene.gallery? = none := by
  obtain ⟨history?, es, -, -, -, -, heq⟩ := p.endGalleryScene_eq
  rw [heq]

omit [Stage σ] [Loader ℓ] [TableSource ς] in
theorem endGalleryScene_history (p : Player σ ℓ ς) :
    p.endGalleryScene.history? = notedIn p.history? (p.scenesSeen 1) := by
  unfold endGalleryScene scenesSeen
  cases p.gallery? with
  | none => exact (notedIn_nil p.history?).symm
  | some scene => exact note_history { p with gallery? := none } _

omit [Stage σ] [Loader ℓ] [TableSource ς] in
/-- One scene is seen at most, however often it is requested. -/
theorem endScenes_scene (p : Player σ ℓ ς) (count : Nat) :
    (p.endScenes count).gallery? = p.sceneBehind? count ∧
      (p.endScenes count).history? = notedIn p.history? (p.scenesSeen count) := by
  induction count generalizing p with
  | zero => exact ⟨rfl, (notedIn_nil p.history?).symm⟩
  | succ count ih =>
    obtain ⟨hgallery, hhistory⟩ := ih p.endGalleryScene
    have hnone := p.endGalleryScene_gallery
    constructor
    · refine hgallery.trans ?_
      rw [sceneBehind?, hnone, ite_self]
      rfl
    · refine hhistory.trans ?_
      have hseen : p.endGalleryScene.scenesSeen count = [] := by
        rw [scenesSeen, hnone]
        exact ite_self []
      rw [hseen, notedIn_nil, endGalleryScene_history]
      rfl

omit [Stage σ] [Loader ℓ] [TableSource ς] in
theorem goesOn_endScenes (p : Player σ ℓ ς) (count : Nat) : GoesOn p (p.endScenes count) := by
  induction count generalizing p with
  | zero => exact goesOn_refl p
  | succ count ih => exact (goesOn_endGalleryScene p).trans (ih p.endGalleryScene)

namespace Recorded

/-- Leaves a run. -/
def exit (t : Recorded σ ℓ ς) : Exit → Recorded σ ℓ ς
  | .jump label => t.jump label
  | .ended reason => t.finish reason

/-- Of requests that are taken up in a run, the first that leaves it is done, after those before
    it. -/
theorem handle_eq (batch : List Request) {t : Recorded σ ℓ ς}
    (hrun : t.player.state.isUnderWay = true) :
    handle batch t =
      let u := t.quietly (·.endScenes (Command.stays batch).length)
      match batch.findSome? Request.exit? with
      | none => (u, none)
      | some e => (u.exit e, some e.status) := by
  induction batch generalizing t with
  | nil => rfl
  | cons request rest ih =>
    have hfinish : ∀ reason, t.finishIfUnderWay reason = t.finish reason := fun reason =>
      if_pos hrun
    cases request with
    | endSceneGallery =>
      have hstate := (goesOn_endGalleryScene t.player).state
      exact ih (t := t.quietly endGalleryScene) ((congrArg State.isUnderWay hstate).trans hrun)
    | stop | erase => exact congrArg (·, some Status.halted) (hfinish _)
    | jump | endScenario => rfl

theorem player_exit (t : Recorded σ ℓ ς) (e : Exit) : (t.exit e).player = t.player.exit e := by
  cases e with
  | jump label => exact t.player_jump label
  | ended reason => exact t.player_finish reason

end Recorded

/-- Requests that are taken up in a run. -/
theorem handle_of_underWay (batch : List Request) {p : Player σ ℓ ς}
    (hrun : p.state.isUnderWay = true) :
    handle batch p =
      let q := p.endScenes (Command.stays batch).length
      match batch.findSome? Request.exit? with
      | none => (q, none)
      | some e => (q.exit e, some e.status) := by
  rw [← Recorded.forget_handle batch ⟨p, []⟩, Recorded.handle_eq batch hrun]
  cases batch.findSome? Request.exit? with
  | none => rfl
  | some e => exact Prod.ext (Recorded.player_exit _ e) rfl

namespace Recorded

/-- Whoever leaves a run with an active command releases it, once, and asks for a label at most. -/
theorem calls_exit {t : Recorded σ ℓ ς} {a : Active} (ha : t.player.active? = some a) (e : Exit) :
    (t.exit e).calls = t.calls ++ a.call .released :: .left :: e.calls := by
  have hteardown : ∀ u : Recorded σ ℓ ς, u.player.active? = some a →
      u.teardown.calls = u.calls ++ [a.call .released, .left] := by
    intro u hu
    unfold teardown
    rw [hu]
    exact List.append_assoc _ _ _
  cases e with
  | ended reason => exact hteardown t ha
  | jump label =>
    obtain ⟨history?, es, -, -, -, -, heq⟩ := t.player.notePageLeft_eq
    have hactive : (t.quietly notePageLeft).player.active? = some a := by
      change t.player.notePageLeft.active? = some a
      rw [heq]
      exact ha
    change ((t.quietly notePageLeft).teardown).calls ++ [_] = _
    rw [hteardown _ hactive]
    exact List.append_assoc _ _ _

end Recorded

/-! ## Leaving -/

omit [Stage σ] [Loader ℓ] [TableSource ς] in
/-- Seeing scenes to their ends is notes at most. -/
theorem endScenes_eq (p : Player σ ℓ ς) (count : Nat) :
    ∃ gallery? history? es, callsOf es = [] ∧ turnsOf es = [] ∧ cuesOf es = [] ∧
      p.endScenes count = { p with gallery?, history?, journal := p.journal ++ es } := by
  induction count generalizing p with
  | zero => exact ⟨p.gallery?, p.history?, [], rfl, rfl, rfl, by simp [endScenes]⟩
  | succ count ih =>
    obtain ⟨history?, es, -, hcalls, hturns, hcues, heq⟩ := p.endGalleryScene_eq
    obtain ⟨gallery?, history?', fs, hcalls', hturns', hcues', hrest⟩ := ih p.endGalleryScene
    refine ⟨gallery?, history?', es ++ fs, by simp [hcalls, hcalls'], by simp [hturns, hturns'],
      by simp [hcues, hcues'], ?_⟩
    change p.endGalleryScene.endScenes count = _
    rw [hrest, heq]
    simp only [append_append]

/-- What leaving a run does: all that is in use is given back, and nothing is left of the run. -/
structure Parts (p : Player σ ℓ ς) (e : Exit) (q : Player σ ℓ ς) : Prop where
  state : q.state = e.state
  scenario : q.scenario? = none
  active : q.active? = none
  board : q.board = p.board.clear
  gallery : q.gallery? = e.scene? p.isGalleryLabel p.gallery?
  history : q.history? = notedIn p.history? (e.notes p.cursor)
  events : ∃ es, q.events = p.events ++ es ∧
    turnsOf es = (p.active?.map fun a => Turn.released a.index).toList ++ e.turns ∧
    cuesOf es = e.cues ∧ callsOf es = callsOf p.givenBack.2

omit [Stage σ] [Loader ℓ] [TableSource ς] in
theorem notePageLeft_history (p : Player σ ℓ ς) (label : String) :
    p.notePageLeft.history? = notedIn p.history? ((Exit.jump label).notes p.cursor) := by
  unfold notePageLeft Exit.notes
  split
  · exact p.note_history _
  · exact (notedIn_nil p.history?).symm

theorem parts_exit (p : Player σ ℓ ς) (e : Exit) : Parts p e (p.exit e) := by
  cases e with
  | ended reason =>
    change Parts p _ (p.finish reason)
    rw [finish_eq]
    exact ⟨rfl, rfl, rfl, rfl, rfl, (notedIn_nil p.history?).symm, _, events_append rfl,
      by simp [Exit.turns], by simp [Exit.cues], by simp⟩
  | jump label =>
    have hhistory := p.notePageLeft_history label
    obtain ⟨history?, es, -, hcalls, hturns, hcues, heq⟩ := p.notePageLeft_eq
    have hback : p.notePageLeft.givenBack = p.givenBack := by rw [heq]; rfl
    change Parts p _ (p.notePageLeft.begin (bareLabel label) 0 _)
    rw [begin_eq, hback]
    rw [heq] at hhistory ⊢
    refine ⟨rfl, rfl, rfl, rfl, rfl, hhistory,
      es ++ (p.givenBack.2 ++ [.turn (.asked (bareLabel label) 0)]), ?_,
      by simp [Exit.turns, hturns], by simp [Exit.cues, hcues], by simp [hcalls]⟩
    exact events_append (append_append _ _ _)

namespace Recorded

/-- Executes the active command, whose assets are there, and takes its requests off the board. -/
def settled (t : Recorded σ ℓ ς) (a : Active) : Recorded σ ℓ ς :=
  ((t.does (a.call (.loadPolled true)) id).execute a).1.quietly Player.settle

/-- The player that executed the active command and did what is requested before the run is left. -/
def obeyed (t : Recorded σ ℓ ς) (a : Active) : Recorded σ ℓ ς :=
  (t.settled a).quietly (·.endScenes (Command.stays (t.player.outcome a).1.requests).length)

theorem advance_eq {t : Recorded σ ℓ ς} {s : Scenario} {a : Active} (hp : t.player.Plays s a)
    (hphase : a.phase = .loading) (hload : t.player.isLoadComplete a.command = true) :
    t.advance a =
      match (t.player.outcome a).1.requests.findSome? Request.exit? with
      | none => (t.obeyed a).await a (Stage.now t.player.stage)
      | some e => ((t.obeyed a).exit e, some e.status) := by
  have hrequests : (t.player.execute a).1.board.requests = (t.player.outcome a).1.requests := by
    rw [Player.execute_eq]
  have hsince : (t.player.execute a).2 = Stage.now t.player.stage := by rw [Player.execute_eq]
  have hrun : (t.settled a).player.state.isUnderWay = true :=
    isUnderWay_of_running (execute_plays hp).state
  have hhandled : ((t.does (a.call (.loadPolled true)) id).execute a).1.handleRequests =
      match (t.player.outcome a).1.requests.findSome? Request.exit? with
      | none => (t.obeyed a, none)
      | some e => ((t.obeyed a).exit e, some e.status) := by
    rw [obeyed, ← hrequests]
    exact handle_eq _ hrun
  unfold advance
  rw [hphase]
  dsimp only
  rw [hload, if_pos rfl, hhandled]
  cases (t.player.outcome a).1.requests.findSome? Request.exit? with
  | none => exact congrArg ((t.obeyed a).await a) hsince
  | some e => rfl

end Recorded

/-- The player that executed the active command and did what is requested before the run is left. -/
def obey (p : Player σ ℓ ς) (a : Active) : Player σ ℓ ς :=
  (p.execute a).1.settle.endScenes (Command.stays (p.outcome a).1.requests).length

/-- An active command whose assets are there is executed; then the run is left, or the command is
    waited for. -/
theorem advance_of_executed {p : Player σ ℓ ς} {s : Scenario} {a : Active} (hp : p.Plays s a)
    (hphase : a.phase = .loading) (hload : p.isLoadComplete a.command = true) :
    p.advance a =
      match (p.outcome a).1.requests.findSome? Request.exit? with
      | none => (p.obey a).await a (Stage.now p.stage)
      | some e => ((p.obey a).exit e, some e.status) := by
  rw [← Recorded.forget_advance ⟨p, []⟩, Recorded.advance_eq hp hphase hload]
  cases (p.outcome a).1.requests.findSome? Request.exit? with
  | none => exact Recorded.forget_await _ _ _
  | some e => exact Prod.ext (Recorded.player_exit _ e) rfl

namespace Recorded

omit [TableSource ς] in
theorem events_settled (t : Recorded σ ℓ ς) (a : Active) :
    (t.settled a).player.events = t.player.events ++ t.player.executedEvents a := by
  refine events_append ?_
  change (t.player.execute a).1.settle.journal = _
  rw [Player.execute_eq]
  rfl

omit [TableSource ς] in
theorem active_settled (t : Recorded σ ℓ ς) (a : Active) :
    (t.settled a).player.active? = some { a with phase := .waiting (Stage.now t.player.stage) } :=
  t.player.execute_active a

omit [TableSource ς] in
theorem labels_obeyed (t : Recorded σ ℓ ς) (a : Active) :
    (t.obeyed a).player.galleryLabels = t.player.galleryLabels := by
  obtain ⟨gallery?, history?, es, -, -, -, heq⟩ :=
    (t.settled a).player.endScenes_eq (Command.stays (t.player.outcome a).1.requests).length
  change ((t.settled a).player.endScenes _).galleryLabels = _
  rw [heq]
  change (t.player.execute a).1.settle.galleryLabels = _
  rw [Player.execute_eq]
  rfl

omit [TableSource ς] in
theorem goesOn_obeyed (t : Recorded σ ℓ ς) (a : Active) :
    GoesOn (t.settled a).player (t.obeyed a).player := goesOn_endScenes _ _

end Recorded

/-- What comes of a command whose requests leave the run: it is executed and released, each once,
    and never asked whether it is done. Of cues there are only its own, that of the page that began
    with it, and that of the end. Behind it nothing is in use, and the history has the scene that
    was seen to its end and, if the run goes on at a label, the page that was left. -/
structure Exits (t : Recorded σ ℓ ς) (a : Active) (e : Exit) (r : Recorded σ ℓ ς) : Prop where
  state : r.player.state = e.state
  scenario : r.player.scenario? = none
  active : r.player.active? = none
  unused : r.player.ledger.held = []
  gallery : r.player.gallery? =
    e.scene? t.player.isGalleryLabel ((t.settled a).player.sceneBehind?
      (Command.stays (t.player.outcome a).1.requests).length)
  history : r.player.history? = notedIn (t.settled a).player.history?
    ((t.settled a).player.scenesSeen (Command.stays (t.player.outcome a).1.requests).length ++
      e.notes (t.settled a).player.cursor)
  calls : r.calls = t.calls ++
    ([.loadPolled true, .windowMoved, .executed, .released].map a.call ++ .left :: e.calls)
  events : ∃ es, r.player.events = t.player.events ++ es ∧
    turnsOf es =
      .executed a.index (t.player.usableAt a) :: .released a.index :: e.turns ∧
    cuesOf es = (t.player.outcome a).2 ++ (cuesOf (t.player.pageBegun
      ((t.player.cursor.enter a.command).turnPage a.command) a.command) ++ e.cues) ∧
    callsOf es = (t.player.moved a.index).2.2 ++ callsOf (t.obeyed a).player.givenBack.2

theorem Recorded.exits {cap : Nat} {t : Recorded σ ℓ ς} {a : Active} {e : Exit}
    (hr : Accounts cap ((t.obeyed a).exit e).player) : Exits t a e ((t.obeyed a).exit e) := by
  have hactive : (t.obeyed a).player.active? = some { a with phase := .waiting _ } :=
    (t.goesOn_obeyed a).active.trans (t.active_settled a)
  have hparts : Parts (t.obeyed a).player e ((t.obeyed a).exit e).player := by
    rw [Recorded.player_exit]
    exact parts_exit _ e
  have hgoes := t.goesOn_obeyed a
  obtain ⟨hscene, hseen⟩ := (t.settled a).player.endScenes_scene
    (Command.stays (t.player.outcome a).1.requests).length
  refine ⟨hparts.state, hparts.scenario, hparts.active, ?_, ?_, ?_, ?_, ?_⟩
  · refine Asset.Tally.keys_eq_nil hr.sound.totals (hr.useCount_eq_zero ?_)
    rw [hparts.state]
    cases e <;> exact State.noConfusion
  · rw [hparts.gallery, ← hscene]
    exact congrArg (fun labels : List String => e.scene? labels.contains _) (t.labels_obeyed a)
  · rw [hparts.history, hgoes.cursor, notedIn_append, ← hseen]
    rfl
  · rw [Recorded.calls_exit hactive]
    change ((t.calls ++ [_]) ++ [_]) ++ [_] ++ _ = _
    simp only [List.append_assoc]
    rfl
  · obtain ⟨gallery?, history?, es, hcalls, hturns, hcues, heq⟩ :=
      (t.settled a).player.endScenes_eq (Command.stays (t.player.outcome a).1.requests).length
    have hobeyed : (t.obeyed a).player.events =
        t.player.events ++ (t.player.executedEvents a ++ es) := by
      rw [← List.append_assoc, ← t.events_settled a]
      refine events_append ?_
      change ((t.settled a).player.endScenes _).journal = _
      rw [heq]
    obtain ⟨fs, hfs, hturns', hcues', hcalls'⟩ := hparts.events
    refine ⟨t.player.executedEvents a ++ es ++ fs, ?_, ?_, ?_, ?_⟩
    · rw [hfs, hobeyed, List.append_assoc]
    · simp [hturns, hturns', hactive]
    · simp [executedEvents, hcues, hcues']
    · simp [hcalls, hcalls']

/-- Whatever a player was told before, when a command is executed only its own requests are taken
    up. If one of them leaves the run, scenes are seen to their ends for those before it, it is
    done, and those behind it are dropped: the command is left as `Exits` says. If none does, the
    command is waited for as if it had requested nothing, but for the scene of the gallery. Either
    way no request is left. -/
theorem first_exit_is_taken (stage : σ) (loader : ℓ) (source : ς) (corpus : Corpus) (cap : Nat)
    (params : Expression.Params) (galleryLabels : List String)
    (history? : Option History.ReadHistory) (inputs : List (Input σ ℓ ς)) (t : Recorded σ ℓ ς)
    (hmoves : Moves ((ready stage loader source corpus cap params galleryLabels
      history?).afterAll inputs) t.player) {s : Scenario} {a : Active} (hp : t.player.Plays s a)
    (hphase : a.phase = .loading) (hload : t.player.isLoadComplete a.command = true) :
    let batch := (t.player.outcome a).1.requests
    Recorded.forget (t.advance a) = t.player.advance a ∧
    t.player.board.requests = [] ∧ (t.advance a).1.player.board.requests = [] ∧
    (∀ action, a.command.action = .host action →
      batch = action.requests t.player.board.params) ∧
    (∀ e, batch.findSome? Request.exit? = some e →
      t.advance a = ((t.obeyed a).exit e, some e.status) ∧ Exits t a e (t.advance a).1) ∧
    (batch.findSome? Request.exit? = none →
      t.advance a = (t.obeyed a).await a (Stage.now t.player.stage) ∧
      GoesOn (t.settled a).player (t.obeyed a).player ∧
      (t.obeyed a).player.gallery? = (t.settled a).player.sceneBehind? batch.length ∧
      (t.obeyed a).player.history? = notedIn (t.settled a).player.history?
        ((t.settled a).player.scenesSeen batch.length)) := by
  intro batch
  have hrequests : t.player.board.requests = [] :=
    hmoves.preserve (P := fun p => p.board.requests = []) requests_move
      (afterAll_preserve (P := fun p => p.board.requests = []) requests_move requests_change rfl
        inputs)
  have haccounts : Accounts cap t.player :=
    hmoves.preserve Accounts.move (afterAll_preserve Accounts.move Accounts.change
      (accounts_ready stage loader source corpus cap params galleryLabels history?) inputs)
  have hadvance : Moves t.player (t.advance a).1.player := by
    have hforget := congrArg Prod.fst (t.forget_advance a)
    change (t.advance a).1.player = _ at hforget
    rw [hforget]
    exact (advance_goes (V := fun _ => True) hp).moves
  have hresult := Recorded.advance_eq hp hphase hload
  refine ⟨t.forget_advance a, hrequests,
    hadvance.preserve (P := fun p => p.board.requests = []) requests_move hrequests,
    fun action haction => ?_, fun e he => ?_, fun hnone => ⟨?_, t.goesOn_obeyed a, ?_⟩⟩
  · change (a.command.action.change t.player.board).requests = _
    rw [haction]
    change t.player.board.requests ++ action.requests t.player.board.params = _
    rw [hrequests, List.nil_append]
  · rw [he] at hresult
    have hafter : Accounts cap (t.advance a).1.player := hadvance.preserve Accounts.move haccounts
    rw [hresult] at hafter ⊢
    exact ⟨rfl, Recorded.exits hafter⟩
  · rw [hnone] at hresult
    exact hresult
  · rw [← Command.stays_eq_self hnone]
    exact (t.settled a).player.endScenes_scene _

/-! ## A command with many requests -/

omit [Stage σ] [Loader ℓ] [TableSource ς]

/-- The picture that the command needs. -/
def dusk : Asset.Handle := Asset.Directories.standard.handle .background "dusk"

/-- A command that requests more than can be done. -/
def parting : Command.HostAction where
  tag := "Part"
  resources := [dusk]
  requests _ := [.endSceneGallery, .endSceneGallery, .jump "", .stop, .jump "a"]

/-- The command as scripts have it: rows of it are not closed. -/
def readParting : Command.HostReader := fun _ _ => .ok ⟨parting, fun _ h => nomatch h⟩

/-- A label, which is that of a scene, with a line and the command. -/
def farewell : Table.CellTable :=
  .ofRows "t" [["Command", "Text"], ["*a"], ["", "bye"], ["Part"]]

/-- A loader that finds no files. -/
def emptyShelf : Asset.FileLoader := .ofRoot ⟨[], []⟩ ""

/-- A player that plays the label as a scene, with the loader begun anew while it shows the line. -/
def atParting : Player Still Asset.FileLoader Scenario.Library :=
  (ready ⟨false, none⟩ emptyShelf (Scenario.Library.empty.insert farewell true)
    (.ofSettings (.register .standard "Part" readParting) .standard) 4 ∅ ["a"]
    (some .empty)).afterAll
      [.start "a" 0 none, .tick, .stage ⟨true, none⟩, .loader emptyShelf, .tick,
        .loader (Loader.request emptyShelf dusk)]

/-- The scene is seen to its end, and the page of the line is read. Then the first of the jumps is
    done, though to no label, and neither the stop nor the other jump. -/
theorem first_jump_of_many :
    ∃ a, atParting.active? = some a ∧
      let r := (Recorded.mk atParting []).advance a
      r.2 = some (.suspended .labelLoad) ∧ r.1.player.state = .loading "" 0 ∧
        atParting.gallery? = some "a" ∧ r.1.player.gallery? = none ∧
        r.1.player.history? = notedIn atParting.history? [.sceneViewed "a", .pageRead "a" 0] ∧
        r.1.calls = [.loadPolled true, .windowMoved, .executed, .released].map a.call ++
          [.left, .asked "" 0] := by
  obtain ⟨s, hs⟩ := Option.isSome_iff_exists.mp (by decide +kernel : atParting.scenario?.isSome)
  obtain ⟨a, ha⟩ := Option.isSome_iff_exists.mp (by decide +kernel : atParting.active?.isSome)
  have hphase : atParting.active?.map Active.phase = some .loading := by decide +kernel
  have hload : atParting.active?.map (fun a => atParting.isLoadComplete a.command) = some true := by
    decide +kernel
  have hexit : atParting.active?.bind (fun a =>
      (atParting.outcome a).1.requests.findSome? Request.exit?) = some (.jump "") := by
    decide +kernel
  have hscene : atParting.active?.map (fun a =>
      (((Recorded.mk atParting []).settled a).player.sceneBehind?
        (Command.stays (atParting.outcome a).1.requests).length)) = some none := by
    decide +kernel
  have hnotes : atParting.active?.map (fun a =>
      let r := (Recorded.mk atParting []).settled a
      (r.player.history?, r.player.scenesSeen (Command.stays
        (atParting.outcome a).1.requests).length ++ (Exit.jump "").notes r.player.cursor)) =
      some (atParting.history?, [.sceneViewed "a", .pageRead "a" 0]) := by
    decide +kernel
  rw [ha] at hphase hload hexit hscene hnotes
  have hp : atParting.Plays s a := ⟨by decide +kernel, hs, ha⟩
  obtain ⟨-, -, -, -, hexits, -⟩ := first_exit_is_taken _ _ _ _ _ _ _ _ _
    (Recorded.mk atParting []) .refl hp (Option.some.inj hphase) (Option.some.inj hload)
  obtain ⟨hresult, hexited⟩ := hexits (.jump "") hexit
  obtain ⟨hhistory, hnoted⟩ := Prod.mk.inj (Option.some.inj hnotes)
  refine ⟨a, ha, ?_, hexited.state, by decide +kernel, ?_, ?_, hexited.calls⟩
  · rw [hresult]
    rfl
  · rw [hexited.gallery]
    exact Option.some.inj hscene
  · rw [hexited.history, hhistory]
    exact congrArg (notedIn _) hnoted

end VisualNovel.Player
