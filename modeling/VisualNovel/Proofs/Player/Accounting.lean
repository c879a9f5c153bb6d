import VisualNovel.Proofs.Player.Moves
import VisualNovel.Proofs.Player.Preload

/-
  What a player uses, over whole runs. Between any two moves the uses in the ledger are those
  that the player's state stands for (`due`): one for each asset of the window, and for the
  active command one for each asset as often as it declares it. Nothing is in use when nothing
  plays, and the calls to the loader are loads and unloads in turn, with every asset unloaded
  where a run is asked for (`Orderly`).
-/

namespace VisualNovel.Player

open Asset (Alternate Handle Ledger Loader LoaderCall Owner)
open Scenario (Corpus TableSource)

variable {σ ℓ ς : Type}

/-! ## Calls and runs -/

/-- Whether an asset is loaded after an event, seen from before it: calls take turns, and a run
    is asked for only where the asset is not loaded. -/
def Event.follow (h : Handle) (loaded : Bool) : Event → Option Bool
  | loader call => call.follow h loaded
  | turn (.asked ..) => if loaded then none else some false
  | _ => some loaded

/-- The calls for an asset take turns, and runs are asked for only where it is not loaded. -/
def Orderly (h : Handle) (before : Bool) (es : List Event) (after : Bool) : Prop :=
  es.foldlM (Event.follow h) before = some after

theorem orderly_nil (h : Handle) (b : Bool) : Orderly h b [] b := rfl

theorem orderly_cons {h : Handle} {b b' : Bool} {e : Event} {es : List Event} :
    Orderly h b (e :: es) b' ↔ ∃ m, e.follow h b = some m ∧ Orderly h m es b' := by
  simp only [Orderly, List.foldlM_cons]
  exact Option.bind_eq_some_iff

theorem orderly_append {h : Handle} {b b' : Bool} {xs ys : List Event} :
    Orderly h b (xs ++ ys) b' ↔ ∃ m, Orderly h b xs m ∧ Orderly h m ys b' := by
  simp only [Orderly, List.foldlM_append]
  exact Option.bind_eq_some_iff

/-- Without a run that is asked for, only the calls count. -/
theorem orderly_of_alternate {h : Handle} {b b' : Bool} {es : List Event}
    (hasked : ∀ label page, .asked label page ∉ turnsOf es) (ha : Alternate h b (callsOf es) b') :
    Orderly h b es b' := by
  induction es generalizing b with
  | nil => exact ha
  | cons e es ih =>
    have hrest : ∀ label page, .asked label page ∉ turnsOf es := fun label page hmem =>
      hasked label page (((List.sublist_cons_self e es).filterMap _).subset hmem)
    cases e with
    | loader call =>
      obtain ⟨m, hm, hes⟩ := Asset.alternate_cons.mp ha
      exact orderly_cons.mpr ⟨m, hm, ih hrest hes⟩
    | turn t =>
      cases t with
      | asked label page => exact absurd (List.mem_cons_self) (hasked label page)
      | _ => exact orderly_cons.mpr ⟨b, rfl, ih hrest ha⟩
    | cue c => exact orderly_cons.mpr ⟨b, rfl, ih hrest ha⟩
    | note n => exact orderly_cons.mpr ⟨b, rfl, ih hrest ha⟩

theorem Orderly.alternate {h : Handle} {b b' : Bool} {es : List Event} (ho : Orderly h b es b') :
    Alternate h b (callsOf es) b' := by
  induction es generalizing b with
  | nil => exact ho
  | cons e es ih =>
    obtain ⟨m, hm, hes⟩ := orderly_cons.mp ho
    cases e with
    | loader call => exact Asset.alternate_cons.mpr ⟨m, hm, ih hes⟩
    | turn t =>
      cases t with
      | asked label page =>
        cases b with
        | false =>
          obtain rfl : false = m := by simpa [Event.follow] using hm
          exact ih hes
        | true => simp [Event.follow] at hm
      | _ =>
        obtain rfl : b = m := Option.some.inj hm
        exact ih hes
    | cue c =>
      obtain rfl : b = m := Option.some.inj hm
      exact ih hes
    | note n =>
      obtain rfl : b = m := Option.some.inj hm
      exact ih hes

/-- Where a run is asked for, the asset is not loaded. -/
theorem Orderly.at_asked {h : Handle} {b b' : Bool} {xs ys : List Event} {label : String}
    {page : Int} (ho : Orderly h b (xs ++ .turn (.asked label page) :: ys) b') :
    Orderly h b xs false ∧ Orderly h false ys b' := by
  obtain ⟨m, hxs, hrest⟩ := orderly_append.mp ho
  obtain ⟨n, hn, hys⟩ := orderly_cons.mp hrest
  cases m with
  | false =>
    obtain rfl : false = n := by simpa [Event.follow] using hn
    exact ⟨hxs, hys⟩
  | true => simp [Event.follow] at hn

/-! ## What a player owes -/

/-- The uses that a player's state stands for. -/
def due (p : Player σ ℓ ς) (h : Handle) : Owner → Nat
  | .preload => p.window.held.count h
  | .command i =>
    match p.active? with
    | none => 0
    | some a => if i = a.index then a.command.resources.count h else 0

/-- The uses in the ledger are those that are due. The window has at most `cap` assets, each
    once, and where nothing plays neither the window nor a command uses any. -/
structure Accounts (cap : Nat) (p : Player σ ℓ ς) : Prop where
  sound : p.ledger.Sound
  owed : ∀ h owner, p.ledger.ownerCount h owner = p.due h owner
  cap_eq : p.window.cap = cap
  nodup : p.window.held.Nodup
  length_le : p.window.held.length ≤ cap
  idle : p.state ≠ .running → p.active? = none ∧ p.window.held = []

/-- Nothing is in use where nothing plays. -/
theorem Accounts.useCount_eq_zero {cap : Nat} {p : Player σ ℓ ς} (hp : Accounts cap p)
    (hstate : p.state ≠ .running) (h : Handle) : p.ledger.useCount h = 0 := by
  obtain ⟨hactive, hheld⟩ := hp.idle hstate
  refine hp.sound.useCount_eq_zero fun owner => ?_
  rw [hp.owed]
  cases owner <;> simp [due, hactive, hheld]

theorem accounts_ready (stage : σ) (loader : ℓ) (source : ς) (corpus : Corpus) (cap : Nat)
    (params : Expression.Params) (galleryLabels : List String)
    (history? : Option History.ReadHistory) :
    Accounts cap (ready stage loader source corpus cap params galleryLabels history?) :=
  { sound := Ledger.sound_ofLoader loader
    owed := fun _ owner => by cases owner <;> rfl
    cap_eq := rfl
    nodup := List.nodup_nil
    length_le := Nat.zero_le _
    idle := fun _ => ⟨rfl, rfl⟩ }

/-- What does not touch the ledger, the window and the active command owes what was owed, unless
    it ends a run. -/
theorem Accounts.unchanged {cap : Nat} {p q : Player σ ℓ ς} (hp : Accounts cap p)
    (hledger : ∃ loader, q.ledger = { p.ledger with loader }) (hactive : q.active? = p.active?)
    (hwindow : q.window = p.window) (hstate : q.state = p.state ∨ q.state = .running) :
    Accounts cap q := by
  obtain ⟨loader, hledger⟩ := hledger
  refine
    { sound := hledger ▸ hp.sound.withLoader loader
      owed := fun h owner => ?_
      cap_eq := hwindow ▸ hp.cap_eq
      nodup := hwindow ▸ hp.nodup
      length_le := hwindow ▸ hp.length_le
      idle := fun hq => ?_ }
  · have howed := hp.owed h owner
    rw [hledger]
    change p.ledger.ownerCount h owner = _
    cases owner <;> simpa [due, hactive, hwindow] using howed
  · rcases hstate with hstate | hstate
    · rw [hactive, hwindow]
      exact hp.idle (hstate ▸ hq)
    · exact absurd hstate hq

theorem Accounts.change {cap : Nat} {p q : Player σ ℓ ς} (h : Change p q) (hp : Accounts cap p) :
    Accounts cap q := by
  cases h <;> exact hp.unchanged ⟨_, rfl⟩ rfl rfl (Or.inl rfl)

/-- The accounts are right, and the calls so far led to what is in use. -/
structure Audited (cap : Nat) (p : Player σ ℓ ς) : Prop extends Accounts cap p where
  orderly : ∀ h, Orderly h false p.events (p.ledger.inUse h)

theorem audited_ready (stage : σ) (loader : ℓ) (source : ς) (corpus : Corpus) (cap : Nat)
    (params : Expression.Params) (galleryLabels : List String)
    (history? : Option History.ReadHistory) :
    Audited cap (ready stage loader source corpus cap params galleryLabels history?) :=
  { accounts_ready stage loader source corpus cap params galleryLabels history? with
    orderly := fun h => orderly_nil h false }

theorem Audited.change {cap : Nat} {p q : Player σ ℓ ς} (h : Change p q) (hp : Audited cap p) :
    Audited cap q :=
  { hp.toAccounts.change h with
    orderly := fun k => by
      have hk := hp.orderly k
      cases h <;> exact hk }

/-! ## Giving everything back -/

variable [Loader ℓ]

theorem sound_released {cap : Nat} {p : Player σ ℓ ς} (hp : Accounts cap p) :
    p.released.1.Sound := by
  unfold released
  split
  · exact hp.sound
  · exact hp.sound.releases _ _

/-- The active command gives back all it uses, and the window's uses stay. -/
theorem ownerCount_released {cap : Nat} {p : Player σ ℓ ς} (hp : Accounts cap p) (h : Handle)
    (o : Owner) :
    p.released.1.ownerCount h o = if o = .preload then p.window.held.count h else 0 := by
  have howed := hp.owed h o
  unfold released
  split
  · rename_i ha
    cases o <;> simpa [due, ha] using howed
  · rename_i a ha
    rw [Ledger.ownerCount_releases hp.sound, howed]
    cases o with
    | preload => simp [due]
    | command i =>
      by_cases hi : i = a.index <;> simp [due, ha, hi]

theorem alternate_released {cap : Nat} {p : Player σ ℓ ς} (hp : Accounts cap p) (h : Handle) :
    Alternate h (p.ledger.inUse h) (callsOf p.released.2) (p.released.1.inUse h) := by
  unfold released
  split
  · exact Asset.alternate_nil h _
  · simpa using Ledger.alternate_releases hp.sound _ _ h

theorem sound_givenBack {cap : Nat} {p : Player σ ℓ ς} (hp : Accounts cap p) :
    p.givenBack.1.Sound := (sound_released hp).releases _ _

/-- Nobody uses anything once a player has given everything back. -/
theorem ownerCount_givenBack {cap : Nat} {p : Player σ ℓ ς} (hp : Accounts cap p) (h : Handle)
    (o : Owner) : p.givenBack.1.ownerCount h o = 0 := by
  unfold givenBack
  dsimp only
  rw [Ledger.ownerCount_releases (sound_released hp), ownerCount_released hp]
  cases o <;> simp

theorem inUse_givenBack {cap : Nat} {p : Player σ ℓ ς} (hp : Accounts cap p) (h : Handle) :
    p.givenBack.1.inUse h = false := by
  have := (sound_givenBack hp).useCount_eq_zero (ownerCount_givenBack hp h)
  simp [Ledger.inUse, this]

theorem alternate_givenBack {cap : Nat} {p : Player σ ℓ ς} (hp : Accounts cap p) (h : Handle) :
    Alternate h (p.ledger.inUse h) (callsOf p.givenBack.2) false := by
  have hlast := Ledger.alternate_releases (sound_released hp) .preload p.window.held h
  have hnone := inUse_givenBack hp h
  unfold givenBack at hnone ⊢
  dsimp only at hnone ⊢
  rw [hnone] at hlast
  rw [callsOf_append, callsOf_loader]
  exact Asset.alternate_append.mpr ⟨_, alternate_released hp h, hlast⟩

theorem told_givenBack (p : Player σ ℓ ς) :
    p.ledger.Told (p.givenBack.1, callsOf p.givenBack.2) := by
  have hreleased : p.ledger.Told (p.released.1, callsOf p.released.2) := by
    unfold released
    split
    · rfl
    · simpa using Ledger.told_releases _ _ p.ledger
  unfold givenBack
  rw [callsOf_append, callsOf_loader]
  exact hreleased.append (Ledger.told_releases _ _ _)

/-! ## Moves -/

/-- The ledger after the window was moved owes what the new window and the active command use. -/
theorem ownerCount_moved {cap : Nat} {p : Player σ ℓ ς} (hp : Accounts cap p) (index : Nat)
    (h : Handle) (o : Owner) :
    (p.moved index).2.1.ownerCount h o =
      if o = .preload then (p.moved index).1.held.count h else p.due h o := by
  rw [moved, PreloadWindow.ownerCount_update _ _ hp.sound hp.nodup fun h => hp.owed h .preload]
  split
  · rfl
  · exact hp.owed h o

/-- A player that gave everything back and plays nothing owes nothing. -/
theorem Accounts.givenBack {cap : Nat} {p q : Player σ ℓ ς} (hp : Accounts cap p)
    (hledger : q.ledger = p.givenBack.1) (hactive : q.active? = none)
    (hwindow : q.window = { p.window with held := [] }) : Accounts cap q :=
  { sound := hledger ▸ sound_givenBack hp
    owed := fun h owner => by
      rw [hledger, ownerCount_givenBack hp]
      cases owner <;> simp [due, hactive, hwindow]
    cap_eq := hwindow ▸ hp.cap_eq
    nodup := hwindow ▸ List.nodup_nil
    length_le := hwindow ▸ Nat.zero_le _
    idle := fun _ => ⟨hactive, hwindow ▸ rfl⟩ }

theorem Accounts.activate {cap : Nat} {p : Player σ ℓ ς} {s : Scenario} (hp : Accounts cap p)
    (hstands : p.Stands s) (c : Command) : Accounts cap (p.activate c).1 := by
  rw [activate_eq]
  refine
    { sound := hp.sound.addUses _ _
      owed := fun h owner => ?_
      cap_eq := hp.cap_eq
      nodup := hp.nodup
      length_le := hp.length_le
      idle := fun hq => absurd hstands.state hq }
  have howed := hp.owed h owner
  dsimp only
  rw [Ledger.ownerCount_addUses, howed]
  cases owner with
  | preload => simp [due]
  | command i => by_cases hi : i = p.cursor.index <;> simp [due, hstands.idle, hi]

variable [Stage σ]

theorem Accounts.execute {cap : Nat} {p : Player σ ℓ ς} {s : Scenario} {a : Active}
    (hp : Accounts cap p) (hplays : p.Plays s a) : Accounts cap (p.execute a).1.settle := by
  rw [execute_eq]
  refine
    { sound := PreloadWindow.sound_update _ _ hp.sound
      owed := fun h owner => ?_
      cap_eq := hp.cap_eq
      nodup := p.window.update_nodup _ p.ledger
      length_le := hp.cap_eq ▸ p.window.update_length _ p.ledger
      idle := fun hq => absurd hplays.state hq }
  refine (ownerCount_moved hp a.index h owner).trans ?_
  cases owner with
  | preload => rfl
  | command i => simp [due, settle, hplays.active]

theorem Accounts.complete {cap : Nat} {p : Player σ ℓ ς} {s : Scenario} {a : Active}
    (hp : Accounts cap p) (hplays : p.Plays s a) (since : Nat) :
    Accounts cap (p.completed a since).settle := by
  rw [completed, complete_eq]
  refine
    { sound := hp.sound.releases _ _
      owed := fun h owner => ?_
      cap_eq := hp.cap_eq
      nodup := hp.nodup
      length_le := hp.length_le
      idle := fun hq => absurd hplays.state hq }
  have howed := hp.owed h owner
  dsimp only [settle]
  rw [Ledger.ownerCount_releases hp.sound, howed]
  cases owner with
  | preload => simp [due]
  | command i => by_cases hi : i = a.index <;> simp [due, hplays.active, hi]

variable [TableSource ς]

/-- Every move pays what it owes. -/
theorem Accounts.move {cap : Nat} {p q : Player σ ℓ ς} (h : Move p q) (hp : Accounts cap p) :
    Accounts cap q := by
  cases h with
  | enter hstate hs =>
    rw [enterScenario_eq]
    exact hp.unchanged ⟨_, rfl⟩ rfl rfl (Or.inr rfl)
  | skip hstands hc hskip =>
    rw [skip_eq]
    exact hp.unchanged ⟨_, rfl⟩ rfl rfl (Or.inl rfl)
  | activate hstands hc hskip => exact hp.activate hstands _
  | execute hplays hphase hload => exact hp.execute hplays
  | complete hplays hphase hdone => exact hp.complete hplays _
  | endGalleryScene =>
    obtain ⟨history?, es, -, -, -, -, heq⟩ := p.endGalleryScene_eq
    rw [heq]
    exact hp.unchanged ⟨_, rfl⟩ rfl rfl (Or.inl rfl)
  | notePageLeft =>
    obtain ⟨history?, es, -, -, -, -, heq⟩ := p.notePageLeft_eq
    rw [heq]
    exact hp.unchanged ⟨_, rfl⟩ rfl rfl (Or.inl rfl)
  | begin label page gallery? =>
    rw [begin_eq]
    exact hp.givenBack rfl rfl rfl
  | finish reason hunder =>
    rw [finish_eq]
    exact hp.givenBack rfl rfl rfl
  | compile table => exact hp.unchanged ⟨_, rfl⟩ rfl rfl (Or.inl rfl)

/-- The loader gets the calls among the events of a move, and these take turns for every asset,
    from where it is in use before the move to where it is in use after it. -/
theorem move_events {cap : Nat} {p q : Player σ ℓ ς} (hmove : Move p q) (hp : Accounts cap p) :
    ∃ es, q.events = p.events ++ es ∧ p.ledger.Told (q.ledger, callsOf es) ∧
      ∀ h, Orderly h (p.ledger.inUse h) es (q.ledger.inUse h) := by
  cases hmove with
  | enter hstate hs =>
    rw [enterScenario_eq]
    exact ⟨_, events_append rfl, rfl,
      fun h => orderly_of_alternate (by simp) (Asset.alternate_nil h _)⟩
  | skip hstands hc hskip =>
    rw [skip_eq]
    exact ⟨_, events_append rfl, rfl,
      fun h => orderly_of_alternate (by simp) (Asset.alternate_nil h _)⟩
  | activate hstands hc hskip =>
    rw [activate_eq]
    refine ⟨_, events_append rfl, ?_, fun h => orderly_of_alternate (by simp) ?_⟩
    · rw [callsOf_turn, callsOf_loader]
      exact Ledger.told_addUses _ _ _
    · rw [callsOf_turn, callsOf_loader]
      exact Ledger.alternate_addUses _ _ p.ledger h
  | execute hplays hphase hload =>
    rename_i s a
    rw [execute_eq]
    refine ⟨_, events_append rfl, ?_, fun h => orderly_of_alternate (by simp) ?_⟩
    · rw [callsOf_executedEvents]
      exact p.window.told_update (p.upcoming a.index) p.ledger
    · rw [callsOf_executedEvents]
      exact p.window.alternate_update (p.upcoming a.index) hp.sound h
  | complete hplays hphase hdone =>
    rw [completed, complete_eq]
    refine ⟨_, events_append rfl, ?_, fun h => orderly_of_alternate (by simp) ?_⟩
    · rw [callsOf_doneEvents]
      exact Ledger.told_releases _ _ _
    · rw [callsOf_doneEvents]
      exact Ledger.alternate_releases hp.sound _ _ h
  | endGalleryScene =>
    obtain ⟨history?, es, -, hcalls, hturns, -, heq⟩ := p.endGalleryScene_eq
    rw [heq]
    refine ⟨es, events_append rfl, hcalls ▸ rfl, fun h => ?_⟩
    exact orderly_of_alternate (by simp [hturns]) (hcalls ▸ Asset.alternate_nil h _)
  | notePageLeft =>
    obtain ⟨history?, es, -, hcalls, hturns, -, heq⟩ := p.notePageLeft_eq
    rw [heq]
    refine ⟨es, events_append rfl, hcalls ▸ rfl, fun h => ?_⟩
    exact orderly_of_alternate (by simp [hturns]) (hcalls ▸ Asset.alternate_nil h _)
  | begin label page gallery? =>
    rw [begin_eq]
    refine ⟨_, events_append rfl, ?_, fun h => ?_⟩
    · simpa using p.told_givenBack
    · dsimp only
      rw [inUse_givenBack hp]
      exact orderly_append.mpr
        ⟨false, orderly_of_alternate (by simp) (alternate_givenBack hp h), rfl⟩
  | finish reason hunder =>
    rw [finish_eq]
    refine ⟨_, events_append rfl, ?_, fun h => ?_⟩
    · simpa using p.told_givenBack
    · dsimp only
      rw [inUse_givenBack hp]
      exact orderly_append.mpr
        ⟨false, orderly_of_alternate (by simp) (alternate_givenBack hp h), rfl⟩
  | compile table => exact ⟨[], events_append (by simp), rfl, fun h => orderly_nil h _⟩

/-! ## Whole runs -/

theorem Audited.move {cap : Nat} {p q : Player σ ℓ ς} (h : Move p q) (hp : Audited cap p) :
    Audited cap q := by
  obtain ⟨es, hes, -, horderly⟩ := move_events h hp.toAccounts
  exact { hp.toAccounts.move h with
    orderly := fun k => hes ▸ orderly_append.mpr ⟨_, hp.orderly k, horderly k⟩ }

/-- The loader gets the calls in the journal of a player, and no others, as long as the player
    plays on its own. -/
theorem Audited.told {cap : Nat} {p q : Player σ ℓ ς} (h : Moves p q) (hp : Audited cap p) :
    ∃ es, q.events = p.events ++ es ∧ p.ledger.Told (q.ledger, callsOf es) := by
  induction h with
  | refl => exact ⟨[], by simp, rfl⟩
  | tail hfirst hlast ih =>
    obtain ⟨es, hes, htold⟩ := ih
    obtain ⟨fs, hfs, htold', -⟩ :=
      move_events hlast (Moves.preserve Audited.move hfirst hp).toAccounts
    refine ⟨es ++ fs, by rw [hfs, hes, List.append_assoc], ?_⟩
    rw [callsOf_append]
    exact htold.append htold'

/-- In every state between calls, the uses in the ledger are those that are due, and the window
    has at most `cap` assets, each once. So nothing is in use where nothing plays, and every
    asset was unloaded as often as it was loaded. The same holds wherever a run is asked for: all
    that was loaded before is unloaded by then, and of the calls that follow, none unloads what
    was not loaded after it. The calls of the journal are those that the loader gets: wherever the
    player goes on its own, the loader is what they make of it. -/
theorem uses_are_due (stage : σ) (loader : ℓ) (source : ς) (corpus : Corpus) (cap : Nat)
    (params : Expression.Params) (galleryLabels : List String)
    (history? : Option History.ReadHistory) (inputs : List (Input σ ℓ ς)) :
    let p := (ready stage loader source corpus cap params galleryLabels history?).afterAll inputs
    (∀ h owner, p.ledger.ownerCount h owner = p.due h owner) ∧
    p.window.held.Nodup ∧ p.window.held.length ≤ cap ∧
    (p.state ≠ .running → p.ledger.held = [] ∧
      ∀ h, (callsOf p.events).count (.load h) = (callsOf p.events).count (.unload h)) ∧
    (∀ before label page later, p.events = before ++ .turn (.asked label page) :: later → ∀ h,
      (callsOf before).count (.load h) = (callsOf before).count (.unload h) ∧
      ∀ calls, calls <+: callsOf later → calls.count (.unload h) ≤ calls.count (.load h)) ∧
    (∀ q, Moves p q → ∃ es, q.events = p.events ++ es ∧
      q.ledger.loader = (callsOf es).foldl LoaderCall.run p.ledger.loader) := by
  intro p
  have hp : Audited cap p :=
    afterAll_preserve Audited.move Audited.change
      (audited_ready stage loader source corpus cap params galleryLabels history?) inputs
  refine ⟨hp.owed, hp.nodup, hp.length_le, fun hstate => ?_,
    fun before label page later hes h => ?_, fun q hmoves => hp.told hmoves⟩
  · have hunused := hp.useCount_eq_zero hstate
    refine ⟨Asset.Tally.keys_eq_nil hp.sound.totals hunused, fun h => ?_⟩
    have hcount := (hp.orderly h).alternate.count_eq
    simpa [Ledger.inUse, hunused h] using hcount
  · have horderly := hp.orderly h
    rw [hes] at horderly
    obtain ⟨hbefore, hlater⟩ := horderly.at_asked
    refine ⟨by simpa using hbefore.alternate.count_eq, fun calls hcalls => ?_⟩
    obtain ⟨b, hb⟩ := hlater.alternate.of_prefix hcalls
    have hcount := hb.count_eq
    simp only [Bool.toNat_false, Nat.add_zero] at hcount
    omega

end VisualNovel.Player
