import VisualNovel.Proofs.Player.Moves
import VisualNovel.Proofs.Scenario.Catalogue

/-
  Where runs are entered. The corpus of a player is one that tables were compiled in and games added
  to (`corpus_afterAll`), so what a label leads to it leads to for good. A run is entered at the
  page of a label or, if the label does not have the page, at the command of the label; the place
  of the label is always known (`labels_lead_for_good`).
-/

namespace VisualNovel.Player

open Asset (Loader)
open Command (Factory Settings)
open Scenario

variable {σ ℓ ς : Type}

/-! ## Entrances -/

/-- Where a run is entered for a page of a label, whose command is at a place: where the page
    begins, or at the command if the label does not have that page. -/
inductive EntersAt (s : Scenario) (l : String) (page : Int) (m : Nat) : Cursor → Prop
  | page {j : Nat} (hj : s.seek l page = .ok j) (hle : m ≤ j) :
      EntersAt s l page m ⟨l, j, max page 0 - 1⟩
  | label (hpage : 0 < page) (hj : s.seek l page = .error (.scenario (.pageOutOfRange l page))) :
      EntersAt s l page m ⟨l, m, labelStart⟩

theorem entersAt_entry {s : Scenario} {l : String} {m : Nat} (h : Found s l m) (page : Int) :
    EntersAt s l page m (entry s l page) := by
  unfold entry
  rcases h.seek page with ⟨j, hj, hle⟩ | ⟨hpage, hj⟩
  · rw [hj]
    exact .page hj hle
  · rw [hj, h.index]
    exact .label hpage hj

variable [Stage σ] [Loader ℓ] [TableSource ς]

/-! ## Corpora of players -/

/-- A player compiles tables, and does no more to its corpus. -/
theorem Move.corpus {p q : Player σ ℓ ς} (h : Move p q) :
    q.corpus = p.corpus ∨ ∃ t, q.corpus = p.corpus.after (.compile t) := by
  cases h with
  | enter => exact Or.inl (by rw [enterScenario_eq])
  | skip => exact Or.inl (by rw [skip_eq])
  | activate => exact Or.inl (by rw [activate_eq])
  | execute =>
    rw [execute_eq]
    exact Or.inl rfl
  | complete =>
    rw [completed, complete_eq]
    exact Or.inl rfl
  | endGalleryScene =>
    obtain ⟨history?, es, -, -, -, -, heq⟩ := p.endGalleryScene_eq
    exact Or.inl (by rw [heq])
  | notePageLeft =>
    obtain ⟨history?, es, -, -, -, -, heq⟩ := p.notePageLeft_eq
    exact Or.inl (by rw [heq])
  | begin =>
    rw [begin_eq]
    exact Or.inl rfl
  | finish => exact Or.inl (by rw [finish_eq])
  | compile t => exact Or.inr ⟨t, rfl⟩

omit [Stage σ] [Loader ℓ] [TableSource ς] in
theorem Change.corpus {p q : Player σ ℓ ς} (h : Change p q) :
    q.corpus = p.corpus ∨ ∃ op, q.corpus = p.corpus.after op := by
  cases h with
  | compile table => exact Or.inr ⟨.compile table, rfl⟩
  | register tag reader => exact Or.inr ⟨.register tag reader, rfl⟩
  | settings settings => exact Or.inr ⟨.settings settings, rfl⟩
  | _ => exact Or.inl rfl

/-- The corpus of a player is the one it had before, after some operations. -/
theorem corpus_afterAll (p : Player σ ℓ ς) (inputs : List (Input σ ℓ ς)) :
    ∃ ops, (p.afterAll inputs).corpus = p.corpus.afterAll ops := by
  have hmore : ∀ {q r : Player σ ℓ ς}, (r.corpus = q.corpus ∨ ∃ op, r.corpus = q.corpus.after op) →
      (∃ ops, q.corpus = p.corpus.afterAll ops) → ∃ ops, r.corpus = p.corpus.afterAll ops := by
    rintro q r (hsame | ⟨op, hop⟩) ⟨ops, hops⟩
    · exact ⟨ops, hsame.trans hops⟩
    · exact ⟨ops ++ [op], by rw [hop, hops, Corpus.afterAll_append]; rfl⟩
  exact afterAll_preserve (P := fun q => ∃ ops, q.corpus = p.corpus.afterAll ops)
    (fun h => hmore (h.corpus.imp_right fun ⟨t, ht⟩ => ⟨_, ht⟩)) (fun h => hmore h.corpus)
    ⟨[], rfl⟩ inputs

/-! ## Journals -/

/-- A run that is entered has its label, and begins at a page of it or at its command. -/
def EntersLabel (_ : List Event) (e : Event) : Prop :=
  ∀ s cursor, e = .turn (.entered s cursor) →
    ∃ page m, Found s cursor.label m ∧ EntersAt s cursor.label page m cursor

theorem EntersAt.label_eq {s : Scenario} {l : String} {page : Int} {m : Nat} {cursor : Cursor}
    (h : EntersAt s l page m cursor) : cursor.label = l := by
  cases h <;> rfl

omit [Stage σ] [Loader ℓ] [TableSource ς] in
theorem entersLabel_of_turns {p q : Player σ ℓ ς} {es : List Event}
    (hes : q.events = p.events ++ es) (hturns : ∀ s cursor, .entered s cursor ∉ turnsOf es) :
    ∃ es, q.events = p.events ++ es ∧
      ∀ before e later, es = before ++ e :: later → EntersLabel (p.events ++ before) e := by
  refine ⟨es, hes, ?_⟩
  rintro before e later rfl s cursor rfl
  exact absurd (by simp) (hturns s cursor)

theorem Move.entersLabel {p q : Player σ ℓ ς} (h : Move p q) (hp : p.corpus.Orderly) :
    ∃ es, q.events = p.events ++ es ∧
      ∀ before e later, es = before ++ e :: later → EntersLabel (p.events ++ before) e := by
  cases h with
  | @enter s label page _ hs =>
    rw [enterScenario_eq]
    refine ⟨_, events_append rfl, fun before e later heq => ?_⟩
    obtain ⟨rfl, rfl⟩ : before = [] ∧ e = .turn (.entered s (entry s label page)) := by
      cases before with
      | nil => exact ⟨rfl, (List.cons.inj heq).1.symm⟩
      | cons _ before => simp at heq
    rintro s' cursor ⟨⟩
    obtain ⟨m, hfound⟩ := hp.found hs
    have henters := entersAt_entry hfound page
    exact ⟨page, m, henters.label_eq.symm ▸ hfound, henters.label_eq.symm ▸ henters⟩
  | skip =>
    rw [skip_eq]
    exact entersLabel_of_turns (events_append rfl) (by simp)
  | activate =>
    rw [activate_eq]
    exact entersLabel_of_turns (events_append rfl) (by simp)
  | execute =>
    rw [execute_eq]
    exact entersLabel_of_turns (events_append rfl) (by simp)
  | complete =>
    rw [completed, complete_eq]
    exact entersLabel_of_turns (events_append rfl) (by simp)
  | endGalleryScene =>
    obtain ⟨history?, es, -, -, hturns, -, heq⟩ := p.endGalleryScene_eq
    rw [heq]
    exact entersLabel_of_turns (events_append rfl) (by simp [hturns])
  | notePageLeft =>
    obtain ⟨history?, es, -, -, hturns, -, heq⟩ := p.notePageLeft_eq
    rw [heq]
    exact entersLabel_of_turns (events_append rfl) (by simp [hturns])
  | begin =>
    rw [begin_eq]
    exact entersLabel_of_turns (events_append rfl) (by simp)
  | finish =>
    rw [finish_eq]
    exact entersLabel_of_turns (events_append rfl) (by simp)
  | compile => exact ⟨[], (List.append_nil _).symm, fun _ _ _ h => by simp at h⟩

/-! ## Labels and runs -/

/-- A label leads somewhere if it has a place in a scenario, and each run of it is entered at a page
    of it or at its command. -/
def LeadsInto (l : String) (s : Scenario) : Prop :=
  ∃ m, Found s l m ∧ ∀ page, EntersAt s l page m (entry s l page)

omit [Stage σ] [Loader ℓ] [TableSource ς] in
theorem leadsInto_of_scenario? {c : Corpus} (hc : c.Orderly) {l : String} {s : Scenario}
    (hs : c.scenario? l = some s) : LeadsInto l s := by
  obtain ⟨m, hfound⟩ := hc.found hs
  exact ⟨m, hfound, entersAt_entry hfound⟩

/-- Whatever is done to a corpus, scenarios are only put behind those that are there, each under a
    name of its own, and a label that leads to one leads there for good. The place of the label in
    it is known then. So every run that is entered, by whatever player of such a corpus, begins at
    the page of its label that was asked for, or at the command of the label if there is no such
    page. -/
theorem labels_lead_for_good (f : Factory) (settings : Settings)
    (ops later : List Corpus.Operation) :
    let c := (Corpus.ofSettings f settings).afterAll ops
    Corpus.Kept c (c.afterAll later) ∧
    Cataloged c (.ofScenarios c.scenarios) ∧
    (∀ l s, c.scenario? l = some s → LeadsInto l s) ∧
    (∀ {τ : Type} [TableSource τ] (source : τ) (l : String) (s : Scenario),
      (c.fetch source l).2 = some s →
      LeadsInto l s ∧ ((c.fetch source l).1.afterAll later).scenario? l = some s) ∧
    ∀ (stage : σ) (loader : ℓ) (source : ς) (cap : Nat) (params : Expression.Params)
      (galleryLabels : List String) (history? : Option History.ReadHistory)
      (inputs : List (Input σ ℓ ς)),
      let p := (ready stage loader source c cap params galleryLabels history?).afterAll inputs
      Corpus.Kept c p.corpus ∧ Holds EntersLabel p.events := by
  intro c
  have hc : c.Orderly := (Corpus.orderly_ofSettings f settings).afterAll ops
  have hkept (more : List Corpus.Operation) : Corpus.Kept c (c.afterAll more) :=
    (hc.afterAll more).kept (c.scenarios_afterAll more)
  refine ⟨hkept later, cataloged c, fun l s => leadsInto_of_scenario? hc, ?_, ?_⟩
  · intro τ _ source l s hs
    have hfetched : (c.fetch source l).1.Orderly := hc.after (.fetch source l)
    rw [(fetch_cases c source l).1] at hs
    have hlater := Corpus.scenarios_afterAll (c.fetch source l).1 later
    exact ⟨leadsInto_of_scenario? hfetched hs, Corpus.scenario?_of_prefix hlater hs⟩
  · intro stage loader source cap params galleryLabels history? inputs p
    obtain ⟨more, hmore⟩ :=
      corpus_afterAll (ready stage loader source c cap params galleryLabels history?) inputs
    refine ⟨hmore ▸ hkept more, ?_⟩
    have horderly {q r : Player σ ℓ ς}
        (h : r.corpus = q.corpus ∨ ∃ op, r.corpus = q.corpus.after op) (hq : q.corpus.Orderly) :
        r.corpus.Orderly := by
      rcases h with hsame | ⟨op, hop⟩
      · exact hsame ▸ hq
      · exact hop ▸ hq.after op
    exact (holds_afterAll (P := fun q => q.corpus.Orderly)
      (fun h => horderly (h.corpus.imp_right fun ⟨t, ht⟩ => ⟨_, ht⟩)) (fun h => horderly h.corpus)
      Move.entersLabel hc rfl inputs).2

end VisualNovel.Player
