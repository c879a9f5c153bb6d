import Mathlib.Data.List.Infix
import Mathlib.Data.List.Nodup
import VisualNovel.Proofs.Scenario.Pages

/-
  What a corpus keeps. Whatever tables are compiled, wherever they come from, and whatever a game
  adds in between, scenarios are only put behind those that are there (`scenarios_afterAll`), and no
  two of them have the same name (`Orderly.afterAll`). So a scenario is found for good. Names and
  labels can be looked up in a catalogue that is written on as scenarios come (`Cataloged`): each
  place in it is that of a scenario with the name, or with the label.
-/

namespace VisualNovel.Scenario

open Command (Factory HostReader Settings)
open Table (CellTable)

/-! ## Catalogues -/

/-- The places of scenarios by their names, and by the labels that they were the first to bring. -/
structure Catalogue where
  names : List (String × Nat)
  labels : List (String × Nat)
  deriving Repr, DecidableEq

namespace Catalogue

/-- Nothing is known. -/
def empty : Catalogue := ⟨[], []⟩

/-- Enters a scenario at a place. Labels that are known stay where they are. -/
def enter (g : Catalogue) (place : Nat) (s : Scenario) : Catalogue where
  names := g.names ++ [(s.name, place)]
  labels := (s.labels.map fun l => (l.1, place)).foldl addLabel g.labels

/-- The catalogue of scenarios that were entered in order. -/
def ofScenarios (ss : List Scenario) : Catalogue :=
  ss.zipIdx.foldl (fun g e => g.enter e.2 e.1) empty

theorem ofScenarios_append (ss : List Scenario) (s : Scenario) :
    ofScenarios (ss ++ [s]) = (ofScenarios ss).enter ss.length s := by
  simp [ofScenarios, List.zipIdx_append]

theorem lookup_map_place (labels : List (String × Nat)) (place : Nat) (l : String) :
    (labels.map fun e => (e.1, place)).lookup l = (labels.lookup l).map fun _ => place := by
  induction labels with
  | nil => rfl
  | cons e labels ih =>
    rw [List.map_cons, List.lookup_cons, List.lookup_cons, ih]
    cases l == e.1 <;> rfl

/-- The place of a name is that of the first scenario of the name. -/
theorem lookup_names (ss : List Scenario) (name : String) :
    (ofScenarios ss).names.lookup name = ss.findIdx? fun s => s.name == name := by
  induction ss using List.reverseRecOn with
  | nil => rfl
  | append_singleton ss s ih =>
    rw [ofScenarios_append, enter, List.lookup_append, ih, List.findIdx?_append]
    congr 1
    by_cases h : s.name = name
    · simp [h]
    · simp [h, List.lookup_cons, beq_false_of_ne (Ne.symm h)]

/-- The place of a label is that of the first scenario that has the label. -/
theorem lookup_labels (ss : List Scenario) (l : String) :
    (ofScenarios ss).labels.lookup l = ss.findIdx? fun s => (s.labelIndex? l).isSome := by
  induction ss using List.reverseRecOn with
  | nil => rfl
  | append_singleton ss s ih =>
    rw [ofScenarios_append, enter, lookup_foldl_addLabel, List.lookup_append, ih,
      lookup_map_place, List.findIdx?_append]
    congr 1
    change (s.labelIndex? l).map (fun _ => ss.length) = _
    cases h : s.labelIndex? l <;> simp [h]

end Catalogue

/-- What is found in a list is at the first place where it can be. -/
theorem find?_eq_bind_findIdx? {α : Type} (p : α → Bool) (xs : List α) :
    xs.find? p = (xs.findIdx? p).bind fun i => xs[i]? := by
  induction xs with
  | nil => rfl
  | cons x xs ih =>
    rw [List.find?_cons, List.findIdx?_cons, ih]
    cases p x
    · show (xs.findIdx? p).bind _ = ((xs.findIdx? p).map (· + 1)).bind _
      rw [Option.bind_map]
      rfl
    · rfl

/-- A catalogue that tells of a corpus, for each name and each label, the place of the scenario that
    it leads to; and it leads to none if there is no place. -/
structure Cataloged (c : Corpus) (g : Catalogue) : Prop where
  named : ∀ name, c.named? name = (g.names.lookup name).bind fun i => c.scenarios[i]?
  labelled : ∀ l, c.scenario? l = (g.labels.lookup l).bind fun i => c.scenarios[i]?
  /-- A place that is given is that of a scenario with the name, or with the label. -/
  names : ∀ name i, g.names.lookup name = some i → ∃ s, c.scenarios[i]? = some s ∧ s.name = name
  labels : ∀ l i, g.labels.lookup l = some i →
    ∃ s, c.scenarios[i]? = some s ∧ (s.labelIndex? l).isSome

theorem cataloged (c : Corpus) : Cataloged c (.ofScenarios c.scenarios) where
  named name := by
    rw [Catalogue.lookup_names]
    exact find?_eq_bind_findIdx? _ _
  labelled l := by
    rw [Catalogue.lookup_labels]
    exact find?_eq_bind_findIdx? _ _
  names name i hi := by
    rw [Catalogue.lookup_names, List.findIdx?_eq_some_iff_getElem] at hi
    obtain ⟨hlt, hname, -⟩ := hi
    exact ⟨_, List.getElem?_eq_getElem hlt, by simpa using hname⟩
  labels l i hi := by
    rw [Catalogue.lookup_labels, List.findIdx?_eq_some_iff_getElem] at hi
    obtain ⟨hlt, hlabel, -⟩ := hi
    exact ⟨_, List.getElem?_eq_getElem hlt, hlabel⟩

namespace Corpus

/-! ## Operations -/

/-- What is done to a corpus. -/
inductive Operation : Type 1 where
  | compile (table : CellTable)
  | fetch {ς : Type} [TableSource ς] (source : ς) (label : String)
  | register (tag : String) (reader : HostReader)
  | settings (settings : Settings)

/-- A corpus after an operation. -/
def after (c : Corpus) : Operation → Corpus
  | .compile t => (c.compile t).1
  | @Operation.fetch _ _ source label => (c.fetch source label).1
  | .register tag reader => c.register tag reader
  | .settings settings => { c with settings }

/-- A corpus after operations in order. -/
def afterAll (c : Corpus) (ops : List Operation) : Corpus := ops.foldl after c

theorem afterAll_append (c : Corpus) (xs ys : List Operation) :
    c.afterAll (xs ++ ys) = (c.afterAll xs).afterAll ys := List.foldl_append

/-- What compiling keeps, and what games and settings cannot change, all operations keep. -/
theorem after_preserve {P : List Scenario → Prop} {c : Corpus} (hc : P c.scenarios)
    (hcompile : ∀ t, P (c.compile t).1.scenarios) (op : Operation) : P (c.after op).scenarios := by
  cases op with
  | compile t => exact hcompile t
  | register tag reader => exact hc
  | settings settings => exact hc
  | fetch source label =>
    change P (c.fetch source label).1.scenarios
    unfold fetch
    cases c.scenario? label with
    | some s => exact hc
    | none =>
      cases TableSource.table? source label with
      | none => exact hc
      | some t => exact hcompile t

/-- A table is compiled behind the others, or was compiled before. -/
theorem scenarios_compile (c : Corpus) (t : CellTable) :
    c.named? t.name = none ∧ (c.compile t).1.scenarios =
        c.scenarios ++ [Scenario.compile c.factory c.settings t] ∨
      (c.named? t.name).isSome ∧ (c.compile t).1 = c := by
  unfold compile
  cases c.named? t.name with
  | none => exact Or.inl ⟨rfl, rfl⟩
  | some s => exact Or.inr ⟨rfl, rfl⟩

theorem prefix_compile (c : Corpus) (t : CellTable) :
    c.scenarios <+: (c.compile t).1.scenarios := by
  rcases c.scenarios_compile t with ⟨-, hnew⟩ | ⟨-, hsame⟩
  · exact hnew ▸ List.prefix_append _ _
  · rw [hsame]

/-- Scenarios are only put behind those that are there. -/
theorem scenarios_afterAll (c : Corpus) (ops : List Operation) :
    c.scenarios <+: (c.afterAll ops).scenarios := by
  induction ops generalizing c with
  | nil => exact List.prefix_rfl
  | cons op ops ih =>
    have hstep : c.scenarios <+: (c.after op).scenarios :=
      after_preserve (P := (c.scenarios <+: ·)) List.prefix_rfl c.prefix_compile op
    exact hstep.trans (ih _)

/-- What a label leads to, it leads to while scenarios are put behind. -/
theorem scenario?_of_prefix {c d : Corpus} (h : c.scenarios <+: d.scenarios) {l : String}
    {s : Scenario} (hs : c.scenario? l = some s) : d.scenario? l = some s :=
  h.find?_eq_some hs

/-- Entries of a catalogue stay as they are while scenarios are put behind. -/
theorem lookup_of_prefix {c d : Corpus} (h : c.scenarios <+: d.scenarios) {l : String} {i : Nat}
    (hi : (Catalogue.ofScenarios c.scenarios).labels.lookup l = some i) :
    (Catalogue.ofScenarios d.scenarios).labels.lookup l = some i := by
  rw [Catalogue.lookup_labels] at hi ⊢
  exact h.findIdx?_eq_some hi

/-! ## Order -/

/-- Every scenario was compiled, and has a name of its own. -/
structure Orderly (c : Corpus) : Prop where
  compiled : c.Compiled
  names : (c.scenarios.map Scenario.name).Nodup

theorem orderly_ofSettings (f : Factory) (settings : Settings) :
    Orderly (.ofSettings f settings) :=
  ⟨compiled_ofSettings f settings, List.nodup_nil⟩

theorem Orderly.compile {c : Corpus} (hc : c.Orderly) (t : CellTable) :
    (c.compile t).1.Orderly := by
  refine ⟨hc.compiled.compile t, ?_⟩
  rcases c.scenarios_compile t with ⟨hfree, hnew⟩ | ⟨-, hsame⟩
  · have hother : ∀ s ∈ c.scenarios, s.name ≠ t.name := fun s hs => by
      simpa using List.find?_eq_none.mp hfree s hs
    rw [hnew, List.map_append, List.map_singleton]
    refine List.nodup_append.mpr ⟨hc.names, List.nodup_singleton _, fun a ha b hb heq => ?_⟩
    obtain rfl := List.mem_singleton.mp hb
    obtain ⟨s, hs, rfl⟩ := List.mem_map.mp ha
    exact hother s hs heq
  · rw [hsame]
    exact hc.names

theorem Orderly.after {c : Corpus} (hc : c.Orderly) (op : Operation) : (c.after op).Orderly := by
  have hkept := after_preserve
    (P := fun ss => (∀ s ∈ ss, s.Compiled) ∧ (ss.map Scenario.name).Nodup) ⟨hc.compiled, hc.names⟩
    (fun t => ⟨(hc.compile t).compiled, (hc.compile t).names⟩) op
  exact ⟨hkept.1, hkept.2⟩

theorem Orderly.afterAll {c : Corpus} (hc : c.Orderly) (ops : List Operation) :
    (c.afterAll ops).Orderly := by
  induction ops generalizing c with
  | nil => exact hc
  | cons op ops ih => exact ih (hc.after op)

/-- A scenario is found under its name. -/
theorem Orderly.named? {c : Corpus} (hc : c.Orderly) {s : Scenario} (hs : s ∈ c.scenarios) :
    c.named? s.name = some s := by
  obtain ⟨u, hu⟩ : ∃ u, c.named? s.name = some u :=
    Option.isSome_iff_exists.mp (List.find?_isSome.mpr ⟨s, hs, beq_self_eq_true _⟩)
  have hname : u.name = s.name := by simpa using List.find?_some hu
  rw [hu, List.inj_on_of_nodup_map hc.names (List.mem_of_find?_eq_some hu) hs hname]

/-! ## What is kept -/

/-- What is kept of a corpus in a later one. -/
structure Kept (c d : Corpus) : Prop where
  /-- Scenarios come at the end, and all have names of their own. -/
  grows : c.scenarios <+: d.scenarios
  names : (d.scenarios.map Scenario.name).Nodup
  /-- A name that was compiled stays what it was, and to compile it changes nothing. -/
  compiled : ∀ s ∈ c.scenarios, ∀ t : CellTable, t.name = s.name → d.compile t = (d, s)
  placed : ∀ l i, (Catalogue.ofScenarios c.scenarios).labels.lookup l = some i →
    (Catalogue.ofScenarios d.scenarios).labels.lookup l = some i
  /-- A label that leads to a scenario leads there for good, whatever the sources say. -/
  found : ∀ l s, c.scenario? l = some s → d.scenario? l = some s ∧
    ∀ {ς : Type} [TableSource ς] (source : ς), d.fetch source l = (d, some s)

theorem Orderly.kept {c d : Corpus} (hd : d.Orderly) (h : c.scenarios <+: d.scenarios) :
    Kept c d where
  grows := h
  names := hd.names
  placed l i := lookup_of_prefix h
  compiled s hs t ht := by
    have hnamed : d.named? t.name = some s := ht ▸ hd.named? (h.subset hs)
    unfold Corpus.compile
    rw [hnamed]
  found l s hs := by
    have hlater := scenario?_of_prefix h hs
    refine ⟨hlater, fun source => ?_⟩
    unfold fetch
    rw [hlater]

end Corpus

/-! ## Places of labels -/

/-- What a scenario says of a label that leads to it. -/
structure Found (s : Scenario) (l : String) (m : Nat) : Prop where
  index : s.labelIndex? l = some m
  /-- The command at the place puts the label there, and is the first to do so. -/
  command : ∃ c, s.commands[m]? = some c ∧ c.label? = some l
  first : ∀ k < m, ∀ c, s.commands[k]? = some c → c.label? ≠ some l
  /-- Only a page that the label does not have is not found. -/
  seek : ∀ page, (∃ j, s.seek l page = .ok j ∧ m ≤ j) ∨
    0 < page ∧ s.seek l page = .error (.scenario (.pageOutOfRange l page))

theorem Compiled.found {s : Scenario} (hs : s.Compiled) {l : String}
    (hl : (s.labelIndex? l).isSome) : ∃ m, Found s l m := by
  obtain ⟨m, hm⟩ := Option.isSome_iff_exists.mp hl
  obtain ⟨hcommand, hfirst⟩ := hs.labelIndex?_eq_some.mp hm
  refine ⟨m, hm, hcommand, hfirst, fun page => ?_⟩
  cases hseek : s.seek l page with
  | ok j => exact Or.inl ⟨j, rfl, (boundaries_of_seek hm hseek).1⟩
  | error e =>
    unfold Scenario.seek at hseek
    rw [hm] at hseek
    dsimp only at hseek
    split at hseek
    · cases hseek
    · rename_i hpage
      split at hseek
      · cases hseek
      · exact Or.inr ⟨by omega, congrArg _ (Except.error.inj hseek).symm⟩

/-- A scenario that a label leads to has the label. -/
theorem Corpus.Orderly.found {c : Corpus} (hc : c.Orderly) {l : String} {s : Scenario}
    (hs : c.scenario? l = some s) : ∃ m, Found s l m := by
  obtain ⟨hcompiled, hl⟩ := hc.compiled.scenario? hs
  exact hcompiled.found hl

end VisualNovel.Scenario
