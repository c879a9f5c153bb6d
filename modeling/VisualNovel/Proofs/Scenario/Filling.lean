import VisualNovel.Proofs.Scenario.Ownership

/-
  Corpora that are filled from a library. All their scenarios were compiled of some tables with
  names of their own (`Filled`), and this stays so while the corpus compiles tables of the library.
  When a label is asked for whose table is ready, the corpus finds a scenario that has the label,
  and finds none only if no table of the library has it (`Filled.fetch`).
-/

namespace VisualNovel.Scenario

open Command (Factory HostReader LeavesLabels Settings)
open Table (CellTable)

/-! ## Libraries -/

/-- The table that a label belongs to is there, but not ready. -/
def Unready (us : List CellTable) (l : Library) (label : String) : Prop :=
  ∃ t, firstWith? us label = some t ∧ l.shelf? t.name = some ⟨t, false⟩

namespace Library

variable {l : Library} {us : List CellTable} {label : String}

/-- The table that a label belongs to is on its shelf, ready or not. -/
theorem Holds.shelf? (h : l.Holds us) {t : CellTable} (ht : t ∈ us) :
    ∃ isReady, l.shelf? t.name = some ⟨t, isReady⟩ := by
  obtain ⟨s, hs, rfl⟩ := Option.map_eq_some_iff.mp (h.table t ht)
  exact ⟨s.ready, hs⟩

theorem Holds.isLoaded_eq_false (h : l.Holds us) :
    l.isLoaded label = false ↔ Unready us l label := by
  unfold isLoaded Unready
  rw [h.owner]
  cases hfirst : firstWith? us label with
  | none => simp
  | some t =>
    obtain ⟨isReady, hshelf⟩ := h.shelf? (mem_of_firstWith? hfirst).1
    simp [hshelf]

/-- A library gives the table that a label belongs to, if it is ready. -/
theorem Holds.table?_of_ready (h : l.Holds us) (hready : l.isLoaded label = true) :
    l.table? label = firstWith? us label := by
  unfold isLoaded at hready
  unfold table?
  rw [h.owner] at hready ⊢
  cases hfirst : firstWith? us label with
  | none => rfl
  | some t =>
    obtain ⟨isReady, hshelf⟩ := h.shelf? (mem_of_firstWith? hfirst).1
    rw [hfirst] at hready
    simp only [Option.map_some, hshelf, Option.any_some] at hready
    simp [hshelf, hready]

end Library

/-! ## Corpora -/

/-- A scenario that was compiled of one of some tables, and no game took the name of a label. -/
def OfTables (ts : List CellTable) (s : Scenario) : Prop :=
  ∃ f settings t, t ∈ ts ∧ f.SparesLabels ∧ s = compile f settings t

/-- A corpus all of whose scenarios were compiled of some tables. -/
structure Filled (ts : List CellTable) (c : Corpus) : Prop where
  spares : c.factory.SparesLabels
  scenarios : ∀ s ∈ c.scenarios, OfTables ts s

theorem filled_ofSettings (ts : List CellTable) {f : Factory} (hf : f.SparesLabels)
    (settings : Settings) : Filled ts (Corpus.ofSettings f settings) :=
  ⟨hf, fun _ hs => nomatch hs⟩

/-- Games may add commands that leave labels alone. -/
theorem sparesLabels_register {f : Factory} (hf : f.SparesLabels) {tag : String}
    {reader : HostReader} (hreader : LeavesLabels tag reader) :
    (f.register tag reader).SparesLabels := by
  intro name r hname
  have hothers : ∀ e : String × HostReader, (e.1 != tag) = true ↔ e.1 ≠ tag := fun _ => bne_iff_ne
  rw [Factory.register, Entries.lookup_cons_ite, Entries.lookup_filter_ne hothers] at hname
  by_cases hsame : name = tag
  · rw [if_pos hsame] at hname
    obtain rfl := Option.some.inj hname
    exact hsame ▸ hreader
  · rw [if_neg hsame, if_neg hsame] at hname
    exact hf name r hname

variable {ts : List CellTable} {c : Corpus}

theorem Filled.register (hc : Filled ts c) {tag : String} {reader : HostReader}
    (hreader : LeavesLabels tag reader) : Filled ts (c.register tag reader) :=
  ⟨sparesLabels_register hc.spares hreader, hc.scenarios⟩

theorem Filled.compile (hc : Filled ts c) {t : CellTable} (ht : t ∈ ts) :
    Filled ts (c.compile t).1 := by
  unfold Corpus.compile
  split
  · exact hc
  · refine ⟨hc.spares, fun s hs => ?_⟩
    rcases List.mem_append.mp hs with hs | hs
    · exact hc.scenarios s hs
    · obtain rfl := List.mem_singleton.mp hs
      exact ⟨c.factory, c.settings, t, ht, hc.spares, rfl⟩

/-- After a table was compiled, or was before, its labels lead somewhere. -/
theorem Filled.scenario?_compile (hnames : (ts.map CellTable.name).Nodup) (hc : Filled ts c)
    {t : CellTable} (ht : t ∈ ts) {label : String} (hlabel : label ∈ definedLabels t) :
    ((c.compile t).1.scenario? label).isSome := by
  have hfound : ∃ s ∈ (c.compile t).1.scenarios, (s.labelIndex? label).isSome = true := by
    unfold Corpus.compile
    cases hnamed : c.named? t.name with
    | none =>
      refine ⟨Scenario.compile c.factory c.settings t, by simp, ?_⟩
      rw [labelIndex?_isSome hc.spares]
      exact decide_eq_true hlabel
    | some s =>
      -- the scenario of the name was compiled of the table itself
      have hs : s ∈ c.scenarios := List.mem_of_find?_eq_some hnamed
      obtain ⟨f, settings, u, hu, hf, rfl⟩ := hc.scenarios s hs
      have hname : u.name = t.name := by simpa [Scenario.compile] using List.find?_some hnamed
      obtain rfl := List.inj_on_of_nodup_map hnames hu ht hname
      refine ⟨_, hs, ?_⟩
      rw [labelIndex?_isSome hf]
      exact decide_eq_true hlabel
  simpa [Corpus.scenario?] using hfound

/-- What a corpus finds for a label whose table is ready. -/
theorem Filled.fetch (hnames : (ts.map CellTable.name).Nodup) (hc : Filled ts c)
    {us : List CellTable} (hus : us ⊆ ts) {l : Library} (hl : l.Holds us) {label : String}
    (hready : l.isLoaded label = true) :
    Filled ts (c.fetch l label).1 ∧
    (c.fetch l label).2 = (c.fetch l label).1.scenario? label ∧
    ((c.fetch l label).2.isSome ↔
      (c.scenario? label).isSome ∨ ∃ t ∈ us, label ∈ definedLabels t) := by
  have htable : TableSource.table? l label = firstWith? us label := hl.table?_of_ready hready
  unfold Corpus.fetch
  cases hfound : c.scenario? label with
  | some s => exact ⟨hc, hfound.symm, by simp⟩
  | none =>
    rw [htable]
    cases hfirst : firstWith? us label with
    | none =>
      have hnone := firstWith?_eq_none.mp hfirst
      exact ⟨hc, hfound.symm, by simpa using hnone⟩
    | some t =>
      obtain ⟨ht, hlabel⟩ := mem_of_firstWith? hfirst
      have hsome := hc.scenario?_compile hnames (hus ht) hlabel
      exact ⟨hc.compile (hus ht), rfl, by simpa [hsome] using ⟨t, ht, hlabel⟩⟩

end VisualNovel.Scenario
