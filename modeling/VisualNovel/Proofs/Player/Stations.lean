import VisualNovel.Proofs.Player.Pages

/-
  Where a tick passes. A tick plays from station to station, and each of them is reached by moves
  and has the rest of the tick before it (`stations_passes`). In a run it is in the section of its
  label, and has nothing to take up (`station_of_run`).
-/

namespace VisualNovel.Player

open Asset (Loader)
open Command (Factory Settings)
open Scenario (TableSource)

variable {σ ℓ ς : Type}

variable [Stage σ] [Loader ℓ] [TableSource ς]

/-! ## Where a tick passes -/

/-- A state that playing passes through is reached by moves, and playing goes on from it. -/
structure Passes (p q : Player σ ℓ ς) (s : Scenario) (result : Player σ ℓ ς × Status) : Prop where
  moves : Moves p q
  stands : q.Stands s
  result : result = playFrom (s.commands.drop q.cursor.index) q

theorem stationsFrom_passes {s : Scenario} (rest : List Command) {p q : Player σ ℓ ς}
    (hp : p.Stands s) (hrest : s.commands.drop p.cursor.index = rest)
    (hq : q ∈ stationsFrom rest p) : Passes p q s (playFrom rest p) := by
  induction rest generalizing p with
  | nil =>
    obtain rfl := List.mem_singleton.mp hq
    exact ⟨.refl, hp, by rw [hrest]⟩
  | cons c rest ih =>
    obtain ⟨hc, hbehind⟩ := next_of_drop hrest
    have hgoes := turn_goes (V := fun _ => True) trivial hp hc
    unfold stationsFrom at hq
    rcases List.mem_cons.mp hq with rfl | hq
    · exact ⟨.refl, hp, by rw [hrest]⟩
    · unfold playFrom
      rcases hturn : p.turn c with ⟨r, status⟩
      rw [hturn] at hgoes hq
      cases hgoes with
      | waits | closed => cases hq
      | on hbeats hr hindex =>
        have hdrop : s.commands.drop r.cursor.index = rest := by rw [hindex, hbehind]
        obtain ⟨hmoves, hstands, hresult⟩ := ih hr hdrop hq
        exact ⟨hbeats.moves.trans hmoves, hstands, hresult⟩

theorem stationsIn_passes {s : Scenario} {p q : Player σ ℓ ς} (hstate : p.state = .running)
    (hs : p.scenario? = some s) (hq : q ∈ p.stationsIn s) : Passes p q s (p.play s) := by
  unfold stationsIn at hq
  unfold play
  cases ha : p.active? with
  | none =>
    rw [ha] at hq
    exact stationsFrom_passes _ ⟨hstate, hs, ha⟩ rfl hq
  | some a =>
    rw [ha] at hq
    have hgoes := advance_goes (V := fun _ => True) (p := p) ⟨hstate, hs, ha⟩
    dsimp only at hq ⊢
    rcases hadvance : p.advance a with ⟨r, status⟩
    rw [hadvance] at hgoes hq
    cases hgoes with
    | waits | closed => cases hq
    | on hbeats hr hindex =>
      obtain ⟨hmoves, hstands, hresult⟩ := stationsFrom_passes _ hr rfl hq
      exact ⟨hbeats.moves.trans hmoves, hstands, hresult⟩

theorem stations_passes {p q : Player σ ℓ ς} (hq : q ∈ p.stations) :
    ∃ s, Passes p q s p.tick := by
  unfold stations at hq
  split at hq
  · rename_i label page hstate
    split at hq
    · rename_i hloaded
      rw [tick_of_loaded hstate hloaded]
      obtain ⟨hfound, hcorpus⟩ := fetch_cases p.corpus p.source label
      unfold enter
      rcases hfetch : p.corpus.fetch p.source label with ⟨corpus, scenario?⟩
      rw [hfetch] at hfound hcorpus hq
      dsimp only at hfound hcorpus hq ⊢
      have hmove : Moves p { p with corpus } := by
        rcases hcorpus with rfl | ⟨t, rfl⟩
        · exact .refl
        · exact .single (.compile p t)
      subst hfound
      cases hs : corpus.scenario? label with
      | none =>
        simp only [hs] at hq
        cases hq
      | some s =>
        simp only [hs] at hq ⊢
        have henter : Move { p with corpus } ({ p with corpus }.enterScenario s label page) :=
          .enter hstate hs
        have hstate' : ({ p with corpus }.enterScenario s label page).state = .running := by
          rw [enterScenario_eq]
        have hs' : ({ p with corpus }.enterScenario s label page).scenario? = some s := by
          rw [enterScenario_eq]
        obtain ⟨hmoves, hstands, hresult⟩ := stationsIn_passes hstate' hs' hq
        exact ⟨s, hmove.trans (.head henter hmoves), hstands, hresult⟩
    · cases hq
  · rename_i hstate
    split at hq
    · cases hq
    · rename_i s hs
      rw [tick_of_running hstate hs]
      exact ⟨s, stationsIn_passes hstate hs hq⟩
  · cases hq

/-! ## Between calls -/

omit [Stage σ] [Loader ℓ] [TableSource ς] in
/-- Between calls all requests are taken up. -/
theorem requests_change {p q : Player σ ℓ ς} (h : Change p q) (hp : p.board.requests = []) :
    q.board.requests = [] := by
  cases h <;> exact hp

theorem requests_move {p q : Player σ ℓ ς} (h : Move p q) (hp : p.board.requests = []) :
    q.board.requests = [] := by
  cases h with
  | enter =>
    rw [enterScenario_eq]
    exact hp
  | skip =>
    rw [skip_eq]
    exact hp
  | activate =>
    rw [activate_eq]
    exact hp
  | execute | complete => rfl
  | endGalleryScene =>
    obtain ⟨history?, es, -, -, -, -, heq⟩ := p.endGalleryScene_eq
    rw [heq]
    exact hp
  | notePageLeft =>
    obtain ⟨history?, es, -, -, -, -, heq⟩ := p.notePageLeft_eq
    rw [heq]
    exact hp
  | begin =>
    rw [begin_eq]
    rfl
  | finish =>
    rw [finish_eq]
    rfl
  | compile => exact hp

/-- What holds at every station of a run. -/
theorem station_of_run (stage : σ) (loader : ℓ) (source : ς) (factory : Factory)
    (settings : Settings) (cap : Nat) (params : Expression.Params) (galleryLabels : List String)
    (history? : Option History.ReadHistory) (inputs : List (Input σ ℓ ς)) {p : Player σ ℓ ς}
    (hp : p ∈ ((ready stage loader source (.ofSettings factory settings) cap params galleryLabels
      history?).afterAll inputs).stations) :
    let run := (ready stage loader source (.ofSettings factory settings) cap params galleryLabels
      history?).afterAll inputs
    ∃ s, Passes run p s run.tick ∧ Placed p ∧ p.board.requests = [] := by
  intro run
  obtain ⟨s, hpasses⟩ := stations_passes hp
  have hplaced : Placed run := afterAll_preserve Placed.move Placed.change
    (placed_ready stage loader source factory settings cap params galleryLabels history?) inputs
  have hrequests : run.board.requests = [] :=
    afterAll_preserve (P := fun p => p.board.requests = []) requests_move requests_change rfl inputs
  exact ⟨s, hpasses, hpasses.moves.preserve Placed.move hplaced,
    hpasses.moves.preserve (P := fun p => p.board.requests = []) requests_move hrequests⟩

end VisualNovel.Player
