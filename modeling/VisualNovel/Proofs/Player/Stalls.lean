import VisualNovel.Proofs.Asset.Residents
import VisualNovel.Proofs.Player.Consistency
import VisualNovel.Proofs.Player.Strides

/-
  A player of files. All that a player does to its ledger is to use assets and to release them
  (`Moves.operates`). Files are found or not as soon as they are asked for, so that a command whose
  turn it is finds its assets settled, and no tick waits for them (`tick_status`). That holds
  whatever is asked of the player, whoever else uses assets, and whatever becomes of the files
  (`files_never_stall`).
-/

namespace VisualNovel.Player

open Asset (Alternate FileLoader Handle Ledger Loader LoaderCall Operation callsFor)
open Disk (FileTree)
open Scenario (Corpus Library TableSource)

variable {σ ℓ ς : Type}

/-! ## Uses and releases -/

/-- One player comes from the other by uses and releases, and the calls of these are those among the
    events. -/
def Operates [Loader ℓ] (p q : Player σ ℓ ς) (es : List Event) : Prop :=
  q.events = p.events ++ es ∧ ∃ ops, p.ledger.applyAll ops = (q.ledger, callsOf es)

section Uses

variable [Loader ℓ]

theorem operates_refl (p : Player σ ℓ ς) : Operates p p [] :=
  ⟨(List.append_nil _).symm, [], rfl⟩

theorem Operates.trans {p q r : Player σ ℓ ς} {es fs : List Event} (hpq : Operates p q es)
    (hqr : Operates q r fs) : Operates p r (es ++ fs) := by
  obtain ⟨hes, ops, hops⟩ := hpq
  obtain ⟨hfs, ops', hops'⟩ := hqr
  refine ⟨by rw [hfs, hes, List.append_assoc], ops ++ ops', ?_⟩
  rw [Ledger.applyAll_append, hops, hops', callsOf_append]

/-- The calls that a player told of take turns for every asset, and leave loaded what is in use. -/
def TakesTurns (p : Player σ ℓ ς) : Prop :=
  ∀ h, Alternate h false (callsOf p.events) (p.ledger.inUse h)

theorem Operates.takesTurns {p q : Player σ ℓ ς} {es : List Event} (h : Operates p q es)
    (hsound : p.ledger.Sound) (hp : p.TakesTurns) : q.TakesTurns := by
  obtain ⟨hes, ops, hops⟩ := h
  intro k
  have hlater := Ledger.alternate_applyAll hsound ops k
  rw [hops] at hlater
  rw [hes, callsOf_append]
  exact Asset.alternate_append.mpr ⟨_, hp k, hlater⟩

omit [Loader ℓ] in
/-- An asset is in use as long as the last call for it is to load it. -/
theorem TakesTurns.inUse_iff {p : Player σ ℓ ς} (hp : p.TakesTurns) (h : Handle) :
    0 < p.ledger.useCount h ↔ (callsFor h (callsOf p.events)).getLast? = some (.load h) := by
  rw [← Ledger.inUse_iff, ← (hp h).getLast?]
  cases (callsFor h (callsOf p.events)).getLast? with
  | none => exact ⟨nofun, nofun⟩
  | some c => simp

/-- An asset that was in use stays in use and as it was, unless its last use was released. -/
def Retains (p q : Player σ ℓ ς) : Prop :=
  ∃ es, q.events = p.events ++ es ∧
    ∀ h, 0 < p.ledger.useCount h → .unload h ∉ callsOf es →
      0 < q.ledger.useCount h ∧ q.ledger.state h = p.ledger.state h

theorem retains_refl (p : Player σ ℓ ς) : p.Retains p :=
  ⟨[], (List.append_nil _).symm, fun _ hu _ => ⟨hu, rfl⟩⟩

theorem Retains.trans {p q r : Player σ ℓ ς} (hpq : p.Retains q) (hqr : q.Retains r) :
    p.Retains r := by
  obtain ⟨es, hes, hfirst⟩ := hpq
  obtain ⟨fs, hfs, hlater⟩ := hqr
  refine ⟨es ++ fs, by rw [hfs, hes, List.append_assoc], fun h hu hkept => ?_⟩
  rw [callsOf_append, List.mem_append, not_or] at hkept
  obtain ⟨hused, hstate⟩ := hfirst h hu hkept.1
  obtain ⟨hused', hstate'⟩ := hlater h hused hkept.2
  exact ⟨hused', hstate'.trans hstate⟩

/-- Leaving a run is releasing what it uses. -/
theorem operations_givenBack (p : Player σ ℓ ς) :
    ∃ ops, p.ledger.applyAll ops = (p.givenBack.1, callsOf p.givenBack.2) := by
  have hreleased : ∃ ops, p.ledger.applyAll ops = (p.released.1, callsOf p.released.2) := by
    unfold released
    split
    · exact ⟨[], rfl⟩
    · rename_i a _
      refine ⟨a.command.resources.map (.release · (.command a.index)), ?_⟩
      rw [Ledger.applyAll_releases]
      simp
  obtain ⟨ops, hops⟩ := hreleased
  refine ⟨ops ++ p.window.held.map (.release · .preload), ?_⟩
  rw [Ledger.applyAll_append, hops, Ledger.applyAll_releases]
  simp [givenBack]

/-- Moving the window is releasing what leaves it and using what comes into it. -/
theorem operations_moved (p : Player σ ℓ ς) (index : Nat) :
    ∃ ops, p.ledger.applyAll ops = (p.moved index).2 := by
  let wanted := firstDistinct p.window.cap [] (p.upcoming index)
  refine ⟨(p.window.held.filter (· ∉ wanted)).map (.release · .preload) ++
    (wanted.filter (· ∉ p.window.held)).map (.addUse · .preload), ?_⟩
  rw [Ledger.applyAll_append, Ledger.applyAll_releases, Ledger.applyAll_addUses]
  rfl

variable [Stage σ] [TableSource ς]

theorem Move.operates {p q : Player σ ℓ ς} (h : Move p q) : ∃ es, Operates p q es := by
  cases h with
  | enter =>
    rw [enterScenario_eq]
    exact ⟨_, events_append rfl, [], rfl⟩
  | skip =>
    rw [skip_eq]
    exact ⟨_, events_append rfl, [], rfl⟩
  | @activate _ c =>
    rw [activate_eq]
    refine ⟨_, events_append rfl, c.resources.map (.addUse · (.command p.cursor.index)), ?_⟩
    rw [Ledger.applyAll_addUses, callsOf_turn, callsOf_loader]
  | @execute _ a =>
    rw [execute_eq]
    obtain ⟨ops, hops⟩ := p.operations_moved a.index
    refine ⟨_, events_append rfl, ops, ?_⟩
    rw [hops, callsOf_executedEvents]
    rfl
  | @complete _ a =>
    rw [completed, complete_eq]
    refine ⟨_, events_append rfl, a.command.resources.map (.release · (.command a.index)), ?_⟩
    rw [Ledger.applyAll_releases, callsOf_doneEvents]
    rfl
  | endGalleryScene =>
    obtain ⟨history?, es, -, hcalls, -, -, heq⟩ := p.endGalleryScene_eq
    rw [heq]
    exact ⟨es, events_append rfl, [], hcalls ▸ rfl⟩
  | notePageLeft =>
    obtain ⟨history?, es, -, hcalls, -, -, heq⟩ := p.notePageLeft_eq
    rw [heq]
    exact ⟨es, events_append rfl, [], hcalls ▸ rfl⟩
  | begin =>
    rw [begin_eq]
    obtain ⟨ops, hops⟩ := p.operations_givenBack
    refine ⟨_, events_append rfl, ops, ?_⟩
    rw [hops]
    simp
  | finish =>
    rw [finish_eq]
    obtain ⟨ops, hops⟩ := p.operations_givenBack
    refine ⟨_, events_append rfl, ops, ?_⟩
    rw [hops]
    simp
  | compile => exact ⟨[], events_append (by simp), [], rfl⟩

theorem Moves.operates {p q : Player σ ℓ ς} (h : Moves p q) : ∃ es, Operates p q es := by
  induction h with
  | refl => exact ⟨[], operates_refl p⟩
  | tail _ hlast ih =>
    obtain ⟨es, hes⟩ := ih
    obtain ⟨fs, hfs⟩ := hlast.operates
    exact ⟨es ++ fs, hes.trans hfs⟩

end Uses

/-! ## Ticks -/

section Answers

variable [Stage σ] [Loader ℓ] [TableSource ς]

/-- Requests are never answered with a wait for assets. -/
theorem handle_status (requests : List Command.Request) (p : Player σ ℓ ς) :
    (handle requests p).2 ≠ some (.suspended .resourceLoad) := by
  induction requests generalizing p with
  | nil => exact nofun
  | cons request rest ih =>
    cases request with
    | endSceneGallery => exact ih p.endGalleryScene
    | jump | endScenario | stop | erase => exact nofun

theorem await_status (p : Player σ ℓ ς) (a : Active) (since : Nat) :
    (p.await a since).2 ≠ some (.suspended .resourceLoad) := by
  cases hdone : (a.command.await (Stage.progress p.stage since) p.board).2 with
  | false =>
    rw [await_of_undone hdone]
    exact nofun
  | true =>
    rw [await_of_done hdone]
    exact handle_status _ _

/-- A command that was executed, or whose assets are there, does not wait for assets. -/
theorem advance_status {p : Player σ ℓ ς} {a : Active}
    (hload : a.phase = .loading → p.isLoadComplete a.command = true) :
    (p.advance a).2 ≠ some (.suspended .resourceLoad) := by
  cases hphase : a.phase with
  | waiting since =>
    rw [advance_of_waiting hphase]
    exact p.await_status a since
  | loading =>
    rcases advance_of_loaded hphase (hload hphase) with ⟨r, status, hr, hadvance⟩ | ⟨r, -, hadvance⟩
    · have hstatus := handle_status (p.execute a).1.board.requests (p.execute a).1.settle
      rw [hr] at hstatus
      rw [hadvance]
      exact hstatus
    · rw [hadvance]
      exact r.await_status a _

/-- No command has its turn in a run that was not executed yet. -/
def IsPrompt (p : Player σ ℓ ς) : Prop :=
  p.state = .running → ∀ a, p.active? = some a → a.phase ≠ .loading

omit [Loader ℓ] [TableSource ς] in
theorem Reports.prompt {p : Player σ ℓ ς} {status : Status} (h : Reports p status)
    (hstatus : status ≠ .suspended .resourceLoad) : p.IsPrompt := by
  intro hstate a ha
  cases h with
  | labelLoad h => cases h.symm.trans hstate
  | resourceLoad => exact absurd rfl hstatus
  | commandWait hplays hphase =>
    obtain rfl := Option.some.inj (hplays.active.symm.trans ha)
    rw [hphase]
    exact Phase.noConfusion
  | halted h =>
    rw [hstate] at h
    cases h

end Answers

section Files

variable [Stage σ] [TableSource ς] {p : Player σ FileLoader ς}

omit [Stage σ] [TableSource ς] in
theorem Operates.stored {q : Player σ FileLoader ς} {es : List Event} (h : Operates p q es)
    (hp : p.ledger.Stored) : q.ledger.Stored := by
  obtain ⟨-, ops, hops⟩ := h
  have hq := hp.applyAll ops
  rw [hops] at hq
  exact hq

omit [Stage σ] [TableSource ς] in
theorem Operates.retains {q : Player σ FileLoader ς} {es : List Event} (h : Operates p q es)
    (hp : p.ledger.Stored) : p.Retains q := by
  obtain ⟨hes, ops, hops⟩ := h
  refine ⟨es, hes, fun k hu hkept => ?_⟩
  have hafter := Ledger.kept_applyAll hp.sound ops hu
  rw [hops] at hafter
  exact hafter hkept

theorem stored_moves {q : Player σ FileLoader ς} (h : Moves p q) (hp : p.ledger.Stored) :
    q.ledger.Stored := by
  obtain ⟨es, hes⟩ := h.operates
  exact hes.stored hp

omit [Stage σ] [TableSource ς] in
/-- The assets that a command takes are there as soon as it took them. -/
theorem isLoadComplete_activate (hp : p.ledger.Stored) (c : Command) :
    (p.activate c).1.isLoadComplete c = true := by
  have hstored := hp.applyAll (c.resources.map (.addUse · (.command p.cursor.index)))
  rw [Ledger.applyAll_addUses] at hstored
  rw [activate_eq]
  refine List.all_eq_true.mpr fun h hmem => (hstored.settled_state ?_).complete
  refine Nat.lt_of_lt_of_le ?_ (hstored.sound.ownerCount_le h (.command p.cursor.index))
  have hused := List.count_pos_iff.mpr hmem
  rw [Ledger.ownerCount_addUses, if_pos rfl]
  omega

theorem turn_status (hp : p.ledger.Stored) (c : Command) :
    (p.turn c).2 ≠ some (.suspended .resourceLoad) := by
  unfold turn
  split
  · exact nofun
  · exact advance_status fun _ => isLoadComplete_activate hp c

theorem playFrom_status {s : Scenario} (rest : List Command) (hp : p.Stands s)
    (hrest : s.commands.drop p.cursor.index = rest) (hstored : p.ledger.Stored) :
    (playFrom rest p).2 ≠ .suspended .resourceLoad := by
  induction rest generalizing p with
  | nil => exact nofun
  | cons c rest ih =>
    obtain ⟨hc, hbehind⟩ := next_of_drop hrest
    have hgoes := turn_goes (V := fun _ => True) trivial hp hc
    have hstatus := turn_status hstored c
    unfold playFrom
    rcases hturn : p.turn c with ⟨q, status⟩
    rw [hturn] at hgoes hstatus
    cases status with
    | some status => exact fun heq => hstatus (congrArg some heq)
    | none =>
      obtain ⟨hq, hindex⟩ := hgoes.on_of_none rfl
      exact ih hq (by rw [hindex, hbehind]) (stored_moves hgoes.moves hstored)

theorem play_status {s : Scenario} (hstate : p.state = .running) (hs : p.scenario? = some s)
    (hprompt : p.IsPrompt) (hstored : p.ledger.Stored) :
    (p.play s).2 ≠ .suspended .resourceLoad := by
  unfold play
  cases ha : p.active? with
  | none => exact playFrom_status _ ⟨hstate, hs, ha⟩ rfl hstored
  | some a =>
    have hgoes := advance_goes (V := fun _ => True) ⟨hstate, hs, ha⟩
    have hstatus : (p.advance a).2 ≠ some (.suspended .resourceLoad) :=
      advance_status fun hphase => absurd hphase (hprompt hstate a ha)
    dsimp only
    rcases hadvance : p.advance a with ⟨q, status⟩
    rw [hadvance] at hgoes hstatus
    cases status with
    | some status => exact fun heq => hstatus (congrArg some heq)
    | none =>
      exact playFrom_status _ (hgoes.on_of_none rfl).1 rfl (stored_moves hgoes.moves hstored)

/-- What holds between the calls of a player of files. Its assets are settled, and no command waits
    for them; and the calls to the loader that it told of take turns for every asset. -/
structure Unstalled (p : Player σ FileLoader ς) : Prop where
  coherent : Coherent p
  stored : p.ledger.Stored
  prompt : p.IsPrompt
  turns : p.TakesTurns

/-- A tick never waits for assets. -/
theorem tick_status (hp : Unstalled p) : p.tick.2 ≠ .suspended .resourceLoad := by
  cases hstate : p.state with
  | idle | ended =>
    unfold tick
    rw [hstate]
    exact nofun
  | loading label page =>
    cases hloaded : TableSource.isLoaded p.source label with
    | false =>
      rw [tick_of_unloaded hstate hloaded]
      exact nofun
    | true =>
      rcases hfetch : p.corpus.fetch p.source label with ⟨corpus, _ | s⟩
      · rw [tick_of_missing hstate hloaded hfetch]
        exact nofun
      · -- no command is left from before the run that is entered
        have hidle := hp.coherent.idle (by rw [hstate]; exact State.noConfusion)
        rw [tick_of_fetched hstate hloaded hfetch, enterScenario_eq]
        refine play_status rfl rfl (fun _ a ha => ?_) hp.stored
        rw [hidle] at ha
        cases ha
  | running =>
    cases hs : p.scenario? with
    | none =>
      unfold tick
      rw [hstate, hs]
      exact nofun
    | some s =>
      rw [tick_of_running hstate hs]
      exact play_status hstate hs hp.prompt hp.stored

end Files

/-! ## Incidents -/

/-- What happens to a player of files: it gets an input, another of those who share its ledger uses
    an asset or releases one, or the files on the disk change. Nobody but the ledger calls the
    loader. -/
inductive Incident (σ ς : Type) where
  | input (i : Input σ FileLoader ς) (hledger : ∀ loader, i ≠ .loader loader)
  | operation (op : Operation)
  | files (files : FileTree)

section Incidents

variable [Stage σ] [TableSource ς] {p : Player σ FileLoader ς}

/-- The player after an incident. -/
def undergo (p : Player σ FileLoader ς) : Incident σ ς → Player σ FileLoader ς
  | .input i _ => p.after i
  | .operation op => p.withLedger (p.ledger.apply op)
  | .files files => { p with ledger := p.ledger.withFiles files }

/-- The player after incidents in order. -/
def undergoAll (p : Player σ FileLoader ς) (incidents : List (Incident σ ς)) :
    Player σ FileLoader ς := incidents.foldl undergo p

theorem operates_after (i : Input σ FileLoader ς) (hledger : ∀ loader, i ≠ .loader loader) :
    ∃ es, Operates p (p.after i) es := by
  cases i with
  | loader loader => exact absurd rfl (hledger loader)
  | start | resume => exact Moves.operates (.single (Move.begin _ _ _ _))
  | jump label => exact (p.jump_unfolds label).moves.operates
  | stop | erase => exact (p.finishIfUnderWay_unfolds _).moves.operates
  | tick => exact p.tick_moves.operates
  | stage | source | params | compile | register | settings =>
    exact ⟨[], (List.append_nil _).symm, [], rfl⟩

/-- An incident is uses and releases, or leaves all but the files as it is. -/
theorem undergo_cases (incident : Incident σ ς) :
    (∃ es, Operates p (p.undergo incident) es) ∨
      ∃ files, p.undergo incident = { p with ledger := p.ledger.withFiles files } := by
  cases incident with
  | input i hledger => exact Or.inl (operates_after i hledger)
  | operation op =>
    refine Or.inl ⟨_, events_append rfl, [op], ?_⟩
    rw [callsOf_loader]
    exact Prod.ext rfl (List.append_nil _)
  | files files => exact Or.inr ⟨files, rfl⟩

theorem prompt_after (hp : Unstalled p) (i : Input σ FileLoader ς) : (p.after i).IsPrompt := by
  have hfinish : ∀ reason, (p.finishIfUnderWay reason).IsPrompt := fun reason =>
    (reports_finishIfUnderWay p reason).prompt nofun
  cases i with
  | start | resume =>
    intro h
    simp only [after, start, resume, begin_eq] at h
    cases h
  | jump label => exact fun h => by cases (p.jump_state label).symm.trans h
  | stop => exact hfinish _
  | erase => exact hfinish _
  | tick => exact p.tick_reports.prompt (tick_status hp)
  | stage | loader | source | params | compile | register | settings => exact hp.prompt

theorem Unstalled.undergo (hp : Unstalled p) (incident : Incident σ ς) :
    Unstalled (p.undergo incident) := by
  have hkept : Coherent (p.undergo incident) ∧ (p.undergo incident).IsPrompt := by
    cases incident with
    | input i hledger => exact ⟨hp.coherent.afterAll [i], prompt_after hp i⟩
    | operation | files =>
      exact ⟨hp.coherent.unmoved rfl rfl rfl rfl rfl rfl rfl rfl, hp.prompt⟩
  obtain ⟨hcoherent, hprompt⟩ := hkept
  rcases undergo_cases incident with ⟨es, hes⟩ | ⟨files, hfiles⟩
  · exact ⟨hcoherent, hes.stored hp.stored, hprompt, hes.takesTurns hp.stored.sound hp.turns⟩
  · rw [hfiles] at hcoherent hprompt ⊢
    exact ⟨hcoherent, hp.stored.withFiles files, hprompt, hp.turns⟩

theorem Unstalled.undergoAll (hp : Unstalled p) (incidents : List (Incident σ ς)) :
    Unstalled (p.undergoAll incidents) := by
  induction incidents generalizing p with
  | nil => exact hp
  | cons incident incidents ih => exact ih (hp.undergo incident)

/-- What an asset in use behind an incident is. If it was asked for in it, it is as the files were,
    and otherwise as it was before. -/
theorem Unstalled.state_undergo (hp : Unstalled p) (incident : Incident σ ς) :
    ∃ es, (p.undergo incident).events = p.events ++ es ∧
      ∀ h, 0 < (p.undergo incident).ledger.useCount h →
        (p.undergo incident).ledger.state h =
          if .load h ∈ callsOf es then p.ledger.loader.verdict h else p.ledger.state h := by
  rcases undergo_cases incident with ⟨es, hes, ops, hops⟩ | ⟨files, hfiles⟩
  · refine ⟨es, hes, fun h hu => ?_⟩
    have hstate := Ledger.state_applyAll (h := h) hp.stored.sound ops
    rw [hops] at hstate
    exact hstate hu
  · rw [hfiles]
    exact ⟨[], (List.append_nil _).symm, fun h _ => rfl⟩

theorem Unstalled.retains_undergo (hp : Unstalled p) (incident : Incident σ ς) :
    p.Retains (p.undergo incident) := by
  rcases undergo_cases incident with ⟨es, hes⟩ | ⟨files, hfiles⟩
  · exact hes.retains hp.stored
  · rw [hfiles]
    exact ⟨[], (List.append_nil _).symm, fun h hu _ => ⟨hu, rfl⟩⟩

theorem Unstalled.retains_undergoAll (hp : Unstalled p) (incidents : List (Incident σ ς)) :
    p.Retains (p.undergoAll incidents) := by
  induction incidents generalizing p with
  | nil => exact retains_refl p
  | cons incident incidents ih =>
    exact (hp.retains_undergo incident).trans (ih (hp.undergo incident))

omit [Stage σ] [TableSource ς] in
theorem unstalled_ready (stage : σ) (files : FileTree) (root : String) (source : ς)
    (corpus : Corpus) (cap : Nat) (params : Expression.Params) (galleryLabels : List String)
    (history? : Option History.ReadHistory) :
    Unstalled (ready stage (FileLoader.ofRoot files root) source corpus cap params galleryLabels
      history?) where
  coherent := coherent_ready _ _ _ _ _ _ _ _
  stored := Ledger.stored_ofLoader files root
  prompt := nofun
  turns h := Asset.alternate_nil h false

/-- However the assets of a player of files are used, by it and by others, and whatever becomes of
    the files, at every step what is in use was found or not, what is not is not known of, and as
    many assets reside with the loader as are in use. An asset is in use as long as its last call
    is to load it. Its state is that of the files when it was asked for, and stays until its last
    use is released. No tick waits for assets. -/
theorem files_never_stall (stage : σ) (files : FileTree) (root : String) (source : ς)
    (corpus : Corpus) (cap : Nat) (params : Expression.Params) (galleryLabels : List String)
    (history? : Option History.ReadHistory) (incidents : List (Incident σ ς)) :
    let p := (ready stage (FileLoader.ofRoot files root) source corpus cap params galleryLabels
      history?).undergoAll incidents
    p.tick.2 ≠ .suspended .resourceLoad ∧
    (∀ q, Moves p q → Ledger.Served q.ledger ∧ p.Retains q ∧
      ∀ h, 0 < q.ledger.useCount h ↔
        (callsFor h (callsOf q.events)).getLast? = some (.load h)) ∧
    (∀ incident, ∃ es, (p.undergo incident).events = p.events ++ es ∧
      ∀ h, 0 < (p.undergo incident).ledger.useCount h →
        (p.undergo incident).ledger.state h =
          if .load h ∈ callsOf es then p.ledger.loader.verdict h else p.ledger.state h) ∧
    ∀ later, p.Retains (p.undergoAll later) := by
  intro p
  have hp : Unstalled p := (unstalled_ready stage files root source corpus cap params galleryLabels
    history?).undergoAll incidents
  refine ⟨tick_status hp, fun q hq => ?_, hp.state_undergo, hp.retains_undergoAll⟩
  obtain ⟨es, hes⟩ := hq.operates
  exact ⟨(hes.stored hp.stored).served, hes.retains hp.stored,
    (hes.takesTurns hp.stored.sound hp.turns).inUse_iff⟩

end Incidents

/-! ## A file that is lost -/

/-- A label with a line, and a picture behind it. -/
def outlook : Table.CellTable :=
  .ofRows "t" [["Command", "Arg1", "Text"], ["*a"], ["", "", "look"], ["Bg", "hill"]]

/-- A player that finds the picture, and whose line is not read yet. -/
def onlooker : Player Still FileLoader Library :=
  ready ⟨false, none⟩
    (.ofRoot ⟨[(["Texture"], .directory), (["BG", "Texture"], .directory),
      (["hill.jpg", "BG", "Texture"], .file (.bytes []))], []⟩ "")
    (Library.empty.insert outlook true) (.ofSettings .standard .standard) 4 ∅ [] none

/-- A picture that another one uses stays when its file is lost, and the player goes on. -/
theorem picture_outlasts_its_file :
    let hill := Asset.Directories.standard.handle .background "hill"
    let sea := Asset.Directories.standard.handle .background "https://sea"
    let p := onlooker.undergoAll [.input (.start "a" 0 none) nofun, .input .tick nofun,
      .operation (.addUse hill (.command 7)), .operation (.addUse sea (.command 7))]
    let q := p.undergoAll [.files ⟨[], []⟩, .input (.stage ⟨true, none⟩) nofun,
      .input .tick nofun]
    p.tick.2 ≠ .suspended .resourceLoad ∧ p.ledger.state hill = .loaded ∧
      p.ledger.state sea = .failed "remote asset" ∧ p.ledger.loader.resident = 2 ∧
      q.state = .ended .completed ∧ q.ledger.state hill = .loaded ∧
      (q.ledger.loader.verdict hill).isLoaded = false := by
  intro hill sea p q
  obtain ⟨htick, hserved, -, hlater⟩ := files_never_stall (⟨false, none⟩ : Still)
    ⟨[(["Texture"], .directory), (["BG", "Texture"], .directory),
      (["hill.jpg", "BG", "Texture"], .file (.bytes []))], []⟩ ""
    (Library.empty.insert outlook true) (.ofSettings .standard .standard) 4 ∅ [] none
    [.input (.start "a" 0 none) nofun, .input .tick nofun,
      .operation (.addUse hill (.command 7)), .operation (.addUse sea (.command 7))]
  obtain ⟨es, hes, hkept⟩ := hlater [.files ⟨[], []⟩, .input (.stage ⟨true, none⟩) nofun,
    .input .tick nofun]
  obtain ⟨hserves, -⟩ := hserved p .refl
  have hbefore : p.ledger.state hill = .loaded ∧ 0 < p.ledger.useCount sea ∧
      p.ledger.held.length = 2 := by decide +kernel
  have hafter : .unload hill ∉ callsOf q.events ∧ q.state = .ended .completed ∧
      (q.ledger.loader.verdict hill).isLoaded = false := by decide +kernel
  obtain ⟨hhill, hsea, hheld⟩ := hbefore
  obtain ⟨hdropped, hended, hlost⟩ := hafter
  have hused : 0 < p.ledger.useCount hill := Nat.pos_of_ne_zero fun hnone => by
    cases hhill.symm.trans (hserves.unused hill hnone)
  change q.events = p.events ++ es at hes
  rw [hes, callsOf_append, List.mem_append, not_or] at hdropped
  exact ⟨htick, hhill, hserves.address sea hsea (by decide +kernel),
    hserves.resident.trans hheld, hended, (hkept hill hused hdropped.2).2.trans hhill, hlost⟩

end VisualNovel.Player
