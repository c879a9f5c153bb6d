import VisualNovel.Proofs.Player.Accounting
import VisualNovel.Proofs.Player.Pasts
import VisualNovel.Proofs.Scenario.Targets

/-
  Starting again. A player that starts a run leaves the one before it, and nothing of that run is
  left in it but the cursor, which is kept until the new run is entered. So it does what a player
  does that never played, upon the journal and the history so far, except that while it waits for
  the new run it still answers with the label and the page of the old one, and that a jump in the
  meantime notes this page as read (`start_forgets`).
-/

namespace VisualNovel.Player

open Asset (FileLoader Loader)
open Command (Factory Settings)
open History (ReadHistory)
open Scenario (Corpus Library TableSource)
open Stage (Console EndReason)
open Table (CellTable)

variable {σ ℓ ς : Type}

/-! ## What a player wrote -/

/-- The player with what it wrote before: a cursor, a history and a journal. -/
def keeping (p : Player σ ℓ ς) (cursor : Cursor) (history? : Option ReadHistory)
    (journal : Array Event) : Player σ ℓ ς :=
  { p with cursor, history?, journal }

/-- The player without its journal. -/
def untold (p : Player σ ℓ ς) : Player σ ℓ ς := { p with journal := #[] }

/-- The past of a player: what it told so far, and its history. -/
def past (p : Player σ ℓ ς) : Past := ⟨p.events, p.history?.getD .empty⟩

/-- A new player with what a player holds when it has left its run. -/
def anew [Loader ℓ] (p : Player σ ℓ ς) : Player σ ℓ ς :=
  ready p.stage p.givenBack.1.loader p.source p.corpus p.window.cap p.board.params
    p.galleryLabels p.history?

/-- With another past and the same cursor, a player is what it is without its own upon that. -/
theorem untold_upon (p : Player σ ℓ ς) (cursor : Cursor) {history? : Option ReadHistory}
    (journal : Array Event) (hkept : history?.isSome = p.history?.isSome) :
    p.untold.upon (p.keeping cursor history? journal).past =
      p.keeping p.cursor history? journal := by
  have hhistory : (p.history?.map fun _ => history?.getD .empty) = history? := by
    obtain ⟨_, _, _, _, h?, _⟩ := p
    cases h? <;> cases history? <;> first | rfl | cases hkept
  have hjournal : journal.toList.toArray ++ #[] = journal := Array.append_empty
  show { p with
    history? := p.history?.map fun _ => history?.getD .empty
    journal := journal.toList.toArray ++ #[] } = p.keeping p.cursor history? journal
  rw [hhistory, hjournal]
  rfl

theorem untold_upon_past (p : Player σ ℓ ς) : p.untold.upon p.past = p :=
  p.untold_upon p.cursor p.journal rfl

section Histories

variable [Stage σ] [Loader ℓ] [TableSource ς]

/-- A history is kept, or none is. -/
theorem Move.keeps {p q : Player σ ℓ ς} (h : Move p q) :
    q.history?.isSome = p.history?.isSome := by
  cases h with
  | enter => rw [enterScenario_eq]
  | skip => rw [skip_eq]
  | activate => rw [activate_eq]
  | execute =>
    rw [execute_eq]
    unfold settle savedAt
    split
    · exact Option.isSome_map
    · rfl
  | complete =>
    rw [completed, complete_eq]
    unfold settle
    dsimp only
    split
    · exact Option.isSome_map
    · rfl
  | endGalleryScene =>
    obtain ⟨history?, es, hkept, -, -, -, heq⟩ := p.endGalleryScene_eq
    rw [heq]
    exact hkept
  | notePageLeft =>
    obtain ⟨history?, es, hkept, -, -, -, heq⟩ := p.notePageLeft_eq
    rw [heq]
    exact hkept
  | begin => rw [begin_eq]
  | finish => rw [finish_eq]
  | compile => rfl

theorem afterAll_keeps (p : Player σ ℓ ς) (inputs : List (Input σ ℓ ς)) :
    (p.afterAll inputs).history?.isSome = p.history?.isSome := by
  refine afterAll_preserve (P := fun q => q.history?.isSome = p.history?.isSome) ?_ ?_ rfl inputs
  · intro q r h hq
    exact h.keeps.trans hq
  · intro q r h hq
    cases h <;> exact hq

/-- A player's history is what it was with the notes of the journal since. -/
theorem history_afterAll (p : Player σ ℓ ς) (inputs : List (Input σ ℓ ς)) :
    ∃ es, (p.afterAll inputs).events = p.events ++ es ∧
      (p.afterAll inputs).history? = p.history?.map (noteAll · (notesOf es)) := by
  have hupon := p.untold.upon_afterAll inputs p.past
  have hkept := p.untold.afterAll_keeps inputs
  rw [untold_upon_past] at hupon
  refine ⟨(p.untold.afterAll inputs).events, ?_, ?_⟩
  · rw [← hupon]
    exact events_upon _ _
  · rw [← hupon]
    show (p.untold.afterAll inputs).history?.map (fun _ => noteAll (p.history?.getD .empty) _) = _
    cases hafter : (p.untold.afterAll inputs).history? <;> cases hp : p.history? <;>
      simp_all [untold]

end Histories

/-! ## Waiting for a run with an old cursor -/

/-- The note of the page that the cursor is on, if it is on one. -/
def leftPage (p : Player σ ℓ ς) : List Event :=
  if 0 ≤ p.cursor.page ∧ p.cursor.label ≠ "" then
    p.noted (.pageRead p.cursor.label p.cursor.page)
  else []

/-- What an input makes a player tell of the page it is on. -/
def leftBy (p : Player σ ℓ ς) : Input σ ℓ ς → List Event
  | .jump _ => p.leftPage
  | _ => []

/-- The player `q` is the player `r`, which has entered no run yet, with the cursor of `p`. -/
structure Astray (p q r : Player σ ℓ ς) : Prop where
  same : q = r.keeping p.cursor q.history? q.journal
  kept : q.history?.isSome = r.history?.isSome ∧ r.history?.isSome = p.history?.isSome
  blank : r.cursor = {}
  outside : r.state ≠ .running

/-- From `q` and `r` to `q'` and `r'` no run was entered, and `q'` told some more first. -/
structure Strays (p q r q' r' : Player σ ℓ ς) (left : List Event) : Prop where
  astray : Astray p q' r'
  told : ∃ es, (∀ t ∈ turnsOf es, t.Rests) ∧ r'.events = r.events ++ es ∧
    q'.events = q.events ++ (left ++ es)

/-- From `q` and `r` to `q'` and `r'` a run is entered, and then nothing differs but the past. -/
def BothEnter (q r q' r' : Player σ ℓ ς) : Prop :=
  ∃ (b : Player σ ℓ ς) (s : Scenario) (cursor : Cursor) (es : List Event),
    b.events = .turn (.entered s cursor) :: es ∧ q' = b.upon q.past ∧ r' = b.upon r.past

theorem Astray.cursor {p q r : Player σ ℓ ς} (h : Astray p q r) : q.cursor = p.cursor := by
  rw [h.same]
  rfl

theorem Astray.state {p q r : Player σ ℓ ς} (h : Astray p q r) : q.state = r.state := by
  rw [h.same]
  rfl

theorem Astray.strays {p q r : Player σ ℓ ς} (h : Astray p q r) : Strays p q r q r [] :=
  ⟨h, [], by simp, (List.append_nil _).symm, (List.append_nil _).symm⟩

theorem Strays.trans {p q r q' r' q'' r'' : Player σ ℓ ς} {left : List Event}
    (h : Strays p q r q' r' left) (h' : Strays p q' r' q'' r'' []) :
    Strays p q r q'' r'' left := by
  obtain ⟨es, hes, hr, hq⟩ := h.told
  obtain ⟨fs, hfs, hr', hq'⟩ := h'.told
  refine ⟨h'.astray, es ++ fs, fun t ht => ?_, ?_, ?_⟩
  · rw [turnsOf_append] at ht
    exact (List.mem_append.mp ht).elim (hes t) (hfs t)
  · rw [hr', hr, List.append_assoc]
  · rw [hq', hq, List.append_assoc, List.append_assoc, List.nil_append]

/-- What is done in the same way whatever was written before is done by both. -/
theorem Astray.both {p q r : Player σ ℓ ς} (h : Astray p q r) (f : Player σ ℓ ς → Player σ ℓ ς)
    (es : List Event) (hes : ∀ t ∈ turnsOf es, t.Rests)
    (hf : ∀ cursor history? journal, f (r.keeping cursor history? journal) =
      (f r).keeping cursor history? (journal ++ es))
    (houtside : (f r).state ≠ .running) : Strays p q r (f q) (f r) [] := by
  have hr : f r = (f r).keeping r.cursor r.history? (r.journal ++ es) :=
    hf r.cursor r.history? r.journal
  have hq : f q = (f r).keeping p.cursor q.history? (q.journal ++ es) := by
    rw [← hf, ← h.same]
  refine ⟨⟨?_, ?_, ?_, houtside⟩, es, hes, ?_, ?_⟩
  · rw [hq]
    rfl
  · rw [hq, hr]
    exact h.kept
  · rw [hr]
    exact h.blank
  · rw [hr]
    exact events_append rfl
  · rw [hq]
    exact events_append rfl

theorem Astray.unwritten {p q r : Player σ ℓ ς} (h : Astray p q r)
    (f : Player σ ℓ ς → Player σ ℓ ς)
    (hf : ∀ cursor history? journal, f (r.keeping cursor history? journal) =
      (f r).keeping cursor history? journal)
    (houtside : (f r).state ≠ .running) : Strays p q r (f q) (f r) [] :=
  h.both f [] (by simp) (fun _ _ _ => by simp [hf]) houtside

/-- Before its first run a player is on no page, so only one with an old cursor leaves one. -/
theorem Astray.notePageLeft {p q r : Player σ ℓ ς} (h : Astray p q r) :
    Strays p q r q.notePageLeft r.notePageLeft p.leftPage := by
  have hblank : r.notePageLeft = r := by
    unfold Player.notePageLeft
    rw [h.blank]
    rfl
  have hnoted (n : ReadHistory.Note) : q.noted n = p.noted n := by
    unfold noted
    rw [h.kept.1, h.kept.2]
  rw [hblank]
  unfold Player.notePageLeft leftPage
  rw [h.cursor]
  split
  · rw [note_eq, hnoted]
    refine ⟨⟨?_, ⟨Option.isSome_map.trans h.kept.1, h.kept.2⟩, h.blank, h.outside⟩, [], by simp,
      (List.append_nil _).symm, ?_⟩
    · rw [h.same]
      rfl
    · rw [List.append_nil]
      exact events_append rfl
  · exact h.strays

variable [Loader ℓ]

theorem Astray.begin [TableSource ς] {p q r : Player σ ℓ ς} (h : Astray p q r) (label : String)
    (page : Int) (scene? : Player σ ℓ ς → Option String)
    (hscene : ∀ cursor history? journal, scene? (r.keeping cursor history? journal) = scene? r) :
    Strays p q r (q.begin label page (scene? q)) (r.begin label page (scene? r)) [] := by
  refine h.both (fun p => p.begin label page (scene? p))
    (r.givenBack.2 ++ [.turn (.asked label page)]) ?_ ?_ ?_
  · intro t ht
    rw [turnsOf_append] at ht
    rcases List.mem_append.mp ht with ht | ht
    · exact r.rests_givenBack t ht
    · obtain rfl := List.mem_singleton.mp ht
      trivial
  · intro cursor history? journal
    rw [hscene, begin_eq, begin_eq]
    rfl
  · rw [begin_eq]
    exact fun h => nomatch h

theorem Astray.finish [Stage σ] {p q r : Player σ ℓ ς} (h : Astray p q r) (reason : EndReason) :
    Strays p q r (q.finish reason) (r.finish reason) [] := by
  refine h.both (fun p => p.finish reason)
    (r.givenBack.2 ++ [.cue (.finished reason)]) ?_ ?_ ?_
  · intro t ht
    rw [turnsOf_append, turnsOf_cue, turnsOf_nil, List.append_nil] at ht
    exact r.rests_givenBack t ht
  · intro cursor history? journal
    rw [finish_eq, finish_eq]
    rfl
  · rw [finish_eq]
    exact fun h => nomatch h

theorem Astray.finishIfUnderWay [Stage σ] {p q r : Player σ ℓ ς} (h : Astray p q r)
    (reason : EndReason) :
    Strays p q r (q.finishIfUnderWay reason) (r.finishIfUnderWay reason) [] := by
  unfold Player.finishIfUnderWay
  rw [h.state]
  split
  · exact h.finish reason
  · exact h.strays

theorem Astray.jump [TableSource ς] {p q r : Player σ ℓ ς} (h : Astray p q r) (label : String) :
    Strays p q r (q.jump label) (r.jump label) p.leftPage :=
  h.notePageLeft.trans (h.notePageLeft.astray.begin (bareLabel label) 0
    (fun p => if p.isGalleryLabel (bareLabel label) then some (bareLabel label) else p.gallery?)
    fun _ _ _ => rfl)

variable [Stage σ] [TableSource ς]

/-- A tick that enters a run does the same in both, upon their pasts. -/
theorem Astray.tick_enters {p q r : Player σ ℓ ς} (h : Astray p q r) {label : String} {page : Int}
    {corpus : Corpus} {s : Scenario} (hstate : r.state = .loading label page)
    (hloaded : TableSource.isLoaded r.source label = true)
    (hfetch : r.corpus.fetch r.source label = (corpus, some s)) :
    BothEnter q r q.tick.1 r.tick.1 ∧ q.tick.2 = r.tick.2 := by
  have hr : r.tick = fstUpon r.past r.untold.tick := by
    rw [upon_tick, untold_upon_past]
  -- the cursor of the old run is overwritten
  have hentered (history? : Option ReadHistory) (journal : Array Event) :
      (r.keeping p.cursor history? journal).tick = (r.keeping r.cursor history? journal).tick := by
    rw [tick_of_fetched (p := r.keeping p.cursor history? journal) hstate hloaded hfetch,
      tick_of_fetched (p := r.keeping r.cursor history? journal) hstate hloaded hfetch]
    rfl
  have hq : q.tick = fstUpon q.past r.untold.tick := by
    have hupon := r.untold_upon p.cursor q.journal h.kept.1
    rw [← h.same] at hupon
    rw [upon_tick, hupon, ← hentered, ← h.same]
  obtain ⟨es, hes⟩ := (play_moves (p := { r.untold with corpus }.enterScenario s label page)
    rfl rfl).grows
  rw [← tick_of_fetched (p := r.untold) hstate hloaded hfetch] at hes
  rw [hq, hr]
  exact ⟨⟨_, s, entry s label page, es, hes, rfl, rfl⟩, rfl⟩

/-- A tick leaves both where they are, or ends both, or enters a run in both. -/
theorem Astray.tick {p q r : Player σ ℓ ς} (h : Astray p q r) :
    (Strays p q r q.tick.1 r.tick.1 [] ∨ BothEnter q r q.tick.1 r.tick.1) ∧
      q.tick.2 = r.tick.2 := by
  have hsource : q.source = r.source := by
    rw [h.same]
    rfl
  have hcorpus : q.corpus = r.corpus := by
    rw [h.same]
    rfl
  cases hr : r.state with
  | running => exact absurd hr h.outside
  | idle | ended =>
    unfold Player.tick
    rw [h.state, hr]
    exact ⟨Or.inl h.strays, rfl⟩
  | loading label page =>
    have hq := h.state.trans hr
    cases hloaded : TableSource.isLoaded r.source label with
    | false =>
      rw [tick_of_unloaded hr hloaded, tick_of_unloaded hq (hsource ▸ hloaded)]
      exact ⟨Or.inl h.strays, rfl⟩
    | true =>
      rcases hfetch : r.corpus.fetch r.source label with ⟨corpus, _ | s⟩
      · rw [tick_of_missing hr hloaded hfetch, tick_of_missing hq (hsource ▸ hloaded)
          (by rw [hcorpus, hsource, hfetch])]
        have hcompiled := h.unwritten (fun p => { p with corpus }) (fun _ _ _ => rfl) h.outside
        exact ⟨Or.inl (hcompiled.trans (hcompiled.astray.finish .completed)), rfl⟩
      · obtain ⟨henters, hstatus⟩ := h.tick_enters hr hloaded hfetch
        exact ⟨Or.inr henters, hstatus⟩

theorem Astray.after {p q r : Player σ ℓ ς} (h : Astray p q r) (i : Input σ ℓ ς) :
    Strays p q r (q.after i) (r.after i) (p.leftBy i) ∨ BothEnter q r (q.after i) (r.after i) := by
  cases i with
  | start label page gallery? =>
    exact Or.inl (h.begin (bareLabel label) page (fun p => gallery?.orElse fun _ =>
      if p.isGalleryLabel (bareLabel label) then some (bareLabel label) else none) fun _ _ _ => rfl)
  | resume point =>
    exact Or.inl (h.begin (bareLabel point.label) point.page (fun p =>
      if p.isGalleryLabel (bareLabel point.label) then some (bareLabel point.label) else none)
      fun _ _ _ => rfl)
  | jump label => exact Or.inl (h.jump label)
  | stop | erase => exact Or.inl (h.finishIfUnderWay _)
  | tick => exact h.tick.1
  | _ => exact Or.inl (h.unwritten (·.after _) (fun _ _ _ => rfl) h.outside)

/-- All inputs up to one that enters a run are waited through, and from that one on nothing
    differs but the past. -/
theorem Astray.afterAll {p q r : Player σ ℓ ς} (h : Astray p q r) (later : List (Input σ ℓ ς)) :
    ∃ (waited : List (Input σ ℓ ς × List Event)) (since : List (Input σ ℓ ς))
      (entered : List Event), later = waited.map Prod.fst ++ since ∧
      (∀ w ∈ waited, ∀ t ∈ turnsOf w.2, t.Rests) ∧
      (r.afterAll later).events = r.events ++ (waited.flatMap Prod.snd ++ entered) ∧
      (q.afterAll later).events =
        q.events ++ (waited.flatMap (fun w => p.leftBy w.1 ++ w.2) ++ entered) ∧
      (since = [] ∧ entered = [] ∧ Astray p (q.afterAll later) (r.afterAll later) ∨
        (∃ s cursor es, entered = .turn (.entered s cursor) :: es) ∧
          ∃ (b : Player σ ℓ ς) (w w' : Past), q.afterAll later = b.upon w ∧
            r.afterAll later = b.upon w') := by
  induction later generalizing q r with
  | nil => exact ⟨[], [], [], rfl, by simp, by simp, by simp, Or.inl ⟨rfl, rfl, h⟩⟩
  | cons i later ih =>
    rcases h.after i with hstrays | ⟨b, s, cursor, es, hb, hq, hr⟩
    · obtain ⟨es, hes, hr, hq⟩ := hstrays.told
      obtain ⟨waited, since, entered, hlater, hwaited, hr', hq', hrest⟩ := ih hstrays.astray
      refine ⟨(i, es) :: waited, since, entered, ?_, ?_, ?_, ?_, hrest⟩
      · rw [hlater]
        rfl
      · intro w hw
        rcases List.mem_cons.mp hw with rfl | hw
        · exact hes
        · exact hwaited w hw
      · rw [afterAll_cons, hr', hr]
        simp
      · rw [afterAll_cons, hq', hq]
        simp
    · obtain ⟨fs, hfs⟩ := b.afterAll_grows later
      have hq' : q.afterAll (i :: later) = (b.afterAll later).upon q.past := by
        rw [afterAll_cons, hq, upon_afterAll]
      have hr' : r.afterAll (i :: later) = (b.afterAll later).upon r.past := by
        rw [afterAll_cons, hr, upon_afterAll]
      rw [hq', hr']
      refine ⟨[], i :: later, (b.afterAll later).events, rfl, by simp, events_upon _ _,
        events_upon _ _, Or.inr ⟨⟨s, cursor, es ++ fs, ?_⟩, _, _, _, rfl, rfl⟩⟩
      rw [hfs, hb]
      rfl

/-! ## Starting again -/

/-- After the inputs `later`, the player `q'`, which was `q` with the cursor of `p`, and the
    player `r'`, which was `r` and had not played, are the same but for the cursor, the history
    and the journal, and the next tick ends in the same way. Both tell the same, except that up to
    the input that enters a run each jump makes `q` note the page that the cursor is on. Until
    then the cursor is that of `p` or a new one; from then on it is the same. -/
structure Differs (p q r : Player σ ℓ ς) (later : List (Input σ ℓ ς)) (q' r' : Player σ ℓ ς) :
    Prop where
  same : q' = r'.keeping q'.cursor q'.history? q'.journal
  status : q'.tick.2 = r'.tick.2
  told : ∃ (waited : List (Input σ ℓ ς × List Event)) (since : List (Input σ ℓ ς))
    (entered : List Event), later = waited.map Prod.fst ++ since ∧
    (∀ w ∈ waited, ∀ t ∈ turnsOf w.2, t.Rests) ∧
    r'.events = r.events ++ (waited.flatMap Prod.snd ++ entered) ∧
    q'.events = q.events ++ (waited.flatMap (fun w => p.leftBy w.1 ++ w.2) ++ entered) ∧
    (since = [] ∧ entered = [] ∧ q'.cursor = p.cursor ∧ r'.cursor = {} ∨
      (∃ s cursor es, entered = .turn (.entered s cursor) :: es) ∧ q'.cursor = r'.cursor)
  noted : ∃ es, q'.events = q.events ++ es ∧ q'.history? = q.history?.map (noteAll · (notesOf es))
  noted' : ∃ es, r'.events = r.events ++ es ∧ r'.history? = r.history?.map (noteAll · (notesOf es))

theorem Astray.differs {p q r : Player σ ℓ ς} (h : Astray p q r) (later : List (Input σ ℓ ς)) :
    Differs p q r later (q.afterAll later) (r.afterAll later) := by
  obtain ⟨waited, since, entered, hlater, hwaited, hr, hq, hrest⟩ := h.afterAll later
  rcases hrest with ⟨hsince, hnone, hastray⟩ | ⟨hentered, b, w, w', hqb, hrb⟩
  · refine ⟨?_, hastray.tick.2, ⟨waited, since, entered, hlater, hwaited, hr, hq,
      Or.inl ⟨hsince, hnone, hastray.cursor, hastray.blank⟩⟩, q.history_afterAll later,
      r.history_afterAll later⟩
    rw [hastray.cursor]
    exact hastray.same
  · refine ⟨?_, ?_, ⟨waited, since, entered, hlater, hwaited, hr, hq, Or.inr ⟨hentered, ?_⟩⟩,
      q.history_afterAll later, r.history_afterAll later⟩
    · rw [hqb, hrb]
      rfl
    · rw [hqb, hrb, ← upon_tick, ← upon_tick]
      rfl
    · rw [hqb, hrb]
      rfl

omit [Stage σ] [TableSource ς] in
/-- Of the uses of a run that was left none stays. -/
theorem Accounts.anew_ledger {cap : Nat} {p : Player σ ℓ ς} (hp : Accounts cap p) :
    p.anew.ledger = p.givenBack.1 :=
  ((sound_givenBack hp).eq_ofLoader (ownerCount_givenBack hp)).symm

omit [Stage σ] in
/-- A player that starts again is one that starts for the first time, but for the cursor and what
    it told before. -/
theorem Accounts.start {cap : Nat} {p : Player σ ℓ ς} (hp : Accounts cap p) (label : String)
    (page : Int) (gallery? : Option String) :
    Astray p (p.start label page gallery?) (p.anew.start label page gallery?) ∧
      (p.start label page gallery?).events =
        p.events ++ (p.givenBack.2 ++ (p.anew.start label page gallery?).events) ∧
      (p.start label page gallery?).history? = (p.anew.start label page gallery?).history? := by
  have hback : p.anew.givenBack = (p.givenBack.1, []) := by
    rw [← hp.anew_ledger]
    rfl
  unfold Player.start
  rw [begin_eq, begin_eq, hback]
  exact ⟨⟨rfl, ⟨rfl, rfl⟩, rfl, fun h => nomatch h⟩, events_append rfl, rfl⟩

/-- Where the cursor was never moved, nothing differs but what was told before. -/
theorem Differs.untold_eq {p q r : Player σ ℓ ς} {later : List (Input σ ℓ ς)}
    {q' r' : Player σ ℓ ς} (h : Differs p q r later q' r') (hcursor : p.cursor = {})
    (hhistory : q.history? = r.history?) : q'.untold = r'.untold := by
  have hleft (i : Input σ ℓ ς) : p.leftBy i = [] := by
    unfold leftBy leftPage
    rw [hcursor]
    split <;> rfl
  obtain ⟨waited, since, entered, -, -, hr, hq, hrest⟩ := h.told
  obtain ⟨es, hes, hq'⟩ := h.noted
  obtain ⟨fs, hfs, hr'⟩ := h.noted'
  have hsame : es = fs := by
    rw [List.append_cancel_left (hes.symm.trans hq), List.append_cancel_left (hfs.symm.trans hr)]
    simp [hleft]
  have hsame' : q'.cursor = r'.cursor := by
    rcases hrest with ⟨-, -, hq, hr⟩ | ⟨-, hsame⟩
    · rw [hq, hr, hcursor]
    · exact hsame
  rw [h.same, hq', hsame', hhistory, hsame, ← hr']
  rfl

/-- Starting forgets the run before, but not where it was. A player that starts leaves nothing in
    use, and does what a new player does with what it holds, after all later inputs: upon its
    journal and its history, and with its cursor until a run is entered. So nothing at all differs
    but the journal, whatever comes, if and only if it never entered a run. -/
theorem start_forgets (stage : σ) (loader : ℓ) (source : ς) (factory : Factory)
    (settings : Settings) (cap : Nat) (params : Expression.Params) (galleryLabels : List String)
    (history? : Option ReadHistory) (inputs : List (Input σ ℓ ς)) (label : String) (page : Int)
    (gallery? : Option String) :
    let p := (ready stage loader source (.ofSettings factory settings) cap params galleryLabels
      history?).afterAll inputs
    let old := p.start label page gallery?
    let new := p.anew.start label page gallery?
    p.anew.ledger = p.givenBack.1 ∧
      old.events = p.events ++ (p.givenBack.2 ++ new.events) ∧ old.history? = new.history? ∧
      (∀ later, Differs p old new later (old.afterAll later) (new.afterAll later)) ∧
      ((∀ later, (old.afterAll later).untold = (new.afterAll later).untold) ↔
        lastRun p.events = none) := by
  intro p old new
  have haccounts : Accounts cap p :=
    afterAll_preserve Accounts.move Accounts.change
      (accounts_ready stage loader source _ cap params galleryLabels history?) inputs
  have hrecalled : Recalled p :=
    afterAll_preserve Recalled.move Recalled.change
      (recalled_ready stage loader source factory settings cap params galleryLabels history?) inputs
  obtain ⟨hastray, hevents, hhistory⟩ := haccounts.start label page gallery?
  refine ⟨haccounts.anew_ledger, hevents, hhistory, hastray.differs, fun hsame => ?_,
    fun hnone later => ?_⟩
  · have hnow : old.untold = new.untold := hsame []
    have hstart : old.cursor = new.cursor := by
      show old.untold.cursor = _
      rw [hnow]
      rfl
    have hcursor : p.cursor = {} := hastray.cursor.symm.trans (hstart.trans hastray.blank)
    rcases hrecalled.recalls with ⟨hnone, -⟩ | ⟨r, m, h⟩
    · exact hnone
    · obtain ⟨c, hc, hl⟩ := h.page.label
      exact absurd (congrArg Cursor.label hcursor) (h.compiled.isLabel hc hl).1
  · have hcursor : p.cursor = {} := by
      rcases hrecalled.recalls with ⟨-, hcursor⟩ | ⟨r, m, h⟩
      · exact hcursor
      · cases hnone.symm.trans h.run
    exact (hastray.differs later).untold_eq hcursor hhistory

/-- Two labels with a page each. -/
def twoLabels : CellTable :=
  .ofRows "t" [["Command", "Text"], ["*a"], ["", "one"], ["EndScenario"], ["*b"], ["", "two"]]

omit [Stage σ] [Loader ℓ] [TableSource ς] in
theorem label_outlasts_start :
    let p := (reader twoLabels).afterAll [.start "a" 0 none, .tick]
    (p.start "b" 0 none).cursor = ⟨"a", 2, 0⟩ ∧ (p.anew.start "b" 0 none).cursor = {} ∧
      ¬∀ later, ((p.start "b" 0 none).afterAll later).untold =
        ((p.anew.start "b" 0 none).afterAll later).untold := by
  intro p
  obtain ⟨-, -, -, -, hsame⟩ := start_forgets (Console.ofPicks []) (FileLoader.ofRoot ⟨[], []⟩ "")
    (Library.empty.insert twoLabels true) .standard .standard 4 ∅ [] (some .empty)
    [.start "a" 0 none, .tick] "b" 0 none
  have hentered : lastRun p.events ≠ none := by decide +kernel
  exact ⟨by decide +kernel, by decide +kernel, fun h => hentered (hsame.mp h)⟩

end VisualNovel.Player
