import Mathlib.Data.List.Nodup
import VisualNovel.Proofs.Scenario.Supply
import VisualNovel.Proofs.Scenario.Targets

/-
  Which table a label leads to, when several tables define it. A library gives a label to the
  first table that was added with it (`Shelved.holds`). A corpus that takes tables from the library
  opens the table of a label when no table that it opened before defines the label, and leads to
  the first that it opened (`fetchAll_corpusOf`). So a label leads to the table that it belongs to
  unless another table with the label was opened before, and wherever it leads it leads for good
  (`label_keeps_scenario`).
-/

namespace VisualNovel.Scenario

open Command (Factory Settings labelIn? labelOf?)
open Table (CellTable Column)

/-! ## Labels of tables -/

/-- The first of some tables that defines a label. -/
def firstWith? (ts : List CellTable) (label : String) : Option CellTable :=
  ts.find? fun t => label ∈ definedLabels t

theorem mem_definedLabels {t : CellTable} {label : String} :
    label ∈ definedLabels t ↔ ∃ r ∈ t.dataRows, labelIn? r .command = some label := by
  simp only [definedLabels, List.mem_filterMap, labelIn?, Command.text?, Option.bind_map,
    Function.comp_def]

/-- A table defines the labels that its scenario has, if no game takes their names. -/
theorem labelIndex?_isSome {f : Factory} (hf : f.SparesLabels) (settings : Settings)
    (t : CellTable) (label : String) :
    ((compile f settings t).labelIndex? label).isSome = decide (label ∈ definedLabels t) := by
  rw [Bool.eq_iff_iff, decide_eq_true_iff, mem_definedLabels]
  exact labelIndex?_isSome_iff hf settings

theorem firstWith?_append (ts us : List CellTable) (label : String) :
    firstWith? (ts ++ us) label = (firstWith? ts label).or (firstWith? us label) :=
  List.find?_append

theorem firstWith?_singleton (t : CellTable) (label : String) :
    firstWith? [t] label = if label ∈ definedLabels t then some t else none := by
  by_cases h : label ∈ definedLabels t
  · simp [firstWith?, h]
  · simp [firstWith?, h]

theorem firstWith?_eq_none {ts : List CellTable} {label : String} :
    firstWith? ts label = none ↔ ∀ t ∈ ts, label ∉ definedLabels t := by
  simp [firstWith?]

theorem firstWith?_isSome {ts : List CellTable} {label : String} :
    (firstWith? ts label).isSome ↔ ∃ t ∈ ts, label ∈ definedLabels t := by
  simp [firstWith?]

theorem mem_of_firstWith? {ts : List CellTable} {label : String} {t : CellTable}
    (h : firstWith? ts label = some t) : t ∈ ts ∧ label ∈ definedLabels t :=
  ⟨List.mem_of_find?_eq_some h, by simpa using List.find?_some h⟩

/-! ## Tables of a library -/

/-- A library that tables were added to, in this order and each under a name of its own, with
    labels being asked for and tables getting ready in between. -/
inductive Shelved : List CellTable → Library → Prop
  | empty : Shelved [] .empty
  | insert {ts : List CellTable} {l : Library} (t : CellTable) (ready : Bool) (h : Shelved ts l)
      (hname : t.name ∉ ts.map CellTable.name) : Shelved (ts ++ [t]) (l.insert t ready)
  | setReady {ts : List CellTable} {l : Library} (name : String) (ready : Bool)
      (h : Shelved ts l) : Shelved ts (l.setReady name ready)
  | request {ts : List CellTable} {l : Library} (label : String) (h : Shelved ts l) :
      Shelved ts (TableSource.request l label)

namespace Library

/-- Every table is ready. -/
def Ready (l : Library) : Prop := ∀ e ∈ l.shelves, e.2.ready = true

instance (l : Library) : Decidable l.Ready :=
  inferInstanceAs (Decidable (∀ e ∈ l.shelves, e.2.ready = true))

/-- What a library says of its tables: each has a name of its own, under which it is found, and a
    label belongs to the first that defines it. -/
structure Holds (l : Library) (ts : List CellTable) : Prop where
  names : (ts.map CellTable.name).Nodup
  owner : ∀ label, l.owner? label = (firstWith? ts label).map CellTable.name
  table : ∀ t ∈ ts, (l.shelf? t.name).map Shelf.table = some t

theorem lookup_foldl_addOwner (name : String) (labels : List String)
    (owners : List (String × String)) (label : String) :
    (labels.foldl (addOwner name) owners).lookup label =
      (owners.lookup label).or (if label ∈ labels then some name else none) := by
  induction labels generalizing owners with
  | nil => simp
  | cons a labels ih =>
    have hadded : (addOwner name owners a).lookup label =
        (owners.lookup label).or (if label = a then some name else none) := by
      unfold addOwner
      split
      · rename_i hknown
        by_cases ha : label = a
        · rw [ha, Option.or_of_isSome hknown]
        · simp [ha]
      · rw [List.lookup_append, Entries.lookup_cons_ite, List.lookup_nil]
    rw [List.foldl_cons, ih, hadded, Option.or_assoc]
    by_cases ha : label = a
    · simp [ha]
    · simp [ha]

/-- A table is found under its name, and the others where they were. -/
theorem shelf?_insert (l : Library) (t : CellTable) (ready : Bool) (name : String) :
    (l.insert t ready).shelf? name = if name = t.name then some ⟨t, ready⟩ else l.shelf? name :=
  lookup_putShelf _ _ _ _

/-- A label keeps its owner, and belongs to the table that is put in if it has none. -/
theorem owner?_insert (l : Library) (t : CellTable) (ready : Bool) (label : String) :
    (l.insert t ready).owner? label =
      (l.owner? label).or (if label ∈ definedLabels t then some t.name else none) :=
  lookup_foldl_addOwner _ _ _ _

/-- With a table that is added, labels belong to the first that defines them as before. -/
theorem owner_insert {l : Library} {ts : List CellTable}
    (h : ∀ label, l.owner? label = (firstWith? ts label).map CellTable.name) (t : CellTable)
    (ready : Bool) (label : String) :
    (l.insert t ready).owner? label = (firstWith? (ts ++ [t]) label).map CellTable.name := by
  rw [owner?_insert, firstWith?_append, Option.map_or, ← h, firstWith?_singleton]
  split <;> rfl

theorem Holds.insert {l : Library} {ts : List CellTable} (h : l.Holds ts) {t : CellTable}
    (hname : t.name ∉ ts.map CellTable.name) (ready : Bool) :
    (l.insert t ready).Holds (ts ++ [t]) where
  names := by
    rw [List.map_append]
    exact List.nodup_append.mpr ⟨h.names, List.nodup_singleton _, fun a ha b hb heq =>
      hname (List.mem_singleton.mp hb ▸ heq ▸ ha)⟩
  owner := owner_insert h.owner t ready
  table u hu := by
    rw [shelf?_insert]
    rcases List.mem_append.mp hu with hold | hnew
    · have hother : u.name ≠ t.name := fun heq =>
        hname (heq ▸ List.mem_map_of_mem hold)
      rw [if_neg hother]
      exact h.table u hold
    · obtain rfl := List.mem_singleton.mp hnew
      rw [if_pos rfl]
      rfl

theorem Holds.setReady {l : Library} {ts : List CellTable} (h : l.Holds ts) (name : String)
    (ready : Bool) : (l.setReady name ready).Holds ts where
  names := h.names
  owner label := by rw [owner?_setReady, h.owner]
  table t ht := by rw [map_table_setReady, h.table t ht]

end Library

/-- A library gives each label to the first table that was added with it. -/
theorem Shelved.holds {ts : List CellTable} {l : Library} (h : Shelved ts l) : l.Holds ts := by
  induction h with
  | empty => exact ⟨List.nodup_nil, fun _ => rfl, fun _ ht => absurd ht List.not_mem_nil⟩
  | insert t ready _ hname ih => exact ih.insert hname ready
  | setReady name ready _ ih => exact ih.setReady name ready
  | request label _ ih => exact ⟨ih.names, ih.owner, ih.table⟩

namespace Library

/-- When all tables are ready, the table of a label is the first that defines it. -/
theorem Holds.table?_eq {l : Library} {ts : List CellTable} (h : l.Holds ts) (hready : l.Ready)
    (label : String) : l.table? label = firstWith? ts label := by
  unfold table?
  rw [h.owner]
  cases hfirst : firstWith? ts label with
  | none => rfl
  | some t =>
    obtain ⟨s, hs, htable⟩ := Option.map_eq_some_iff.mp (h.table t (mem_of_firstWith? hfirst).1)
    obtain ⟨before, after, hshelves, -⟩ := List.lookup_eq_some_iff.mp hs
    have hshelf : s.ready = true := hready (t.name, s) (hshelves ▸ by simp)
    simp [hs, hshelf, htable]

end Library

/-! ## Tables that are opened -/

/-- The tables that are open after a label was asked for: the first that defines it is opened,
    unless one that was opened before defines it. -/
def openFor (ts opened : List CellTable) (label : String) : List CellTable :=
  if (firstWith? opened label).isSome then opened else opened ++ (firstWith? ts label).toList

/-- Labels are asked for, one after the other. -/
def Corpus.fetchAll (c : Corpus) (l : Library) (labels : List String) : Corpus :=
  labels.foldl (fun c label => (c.fetch l label).1) c

/-- The corpus of the scenarios of some tables. -/
def corpusOf (f : Factory) (settings : Settings) (opened : List CellTable) : Corpus :=
  ⟨f, settings, opened.map (compile f settings)⟩

section

variable {f : Factory} (hf : f.SparesLabels) (settings : Settings) {ts opened : List CellTable}
  {l : Library}

include hf

/-- A label leads to the first table that was opened with it. -/
theorem scenario?_corpusOf (opened : List CellTable) (label : String) :
    (corpusOf f settings opened).scenario? label =
      (firstWith? opened label).map (compile f settings) := by
  have hdefines : (fun s : Scenario => (s.labelIndex? label).isSome) ∘ compile f settings =
      fun t => decide (label ∈ definedLabels t) :=
    funext fun t => labelIndex?_isSome hf settings t label
  rw [Corpus.scenario?, corpusOf, List.find?_map, hdefines]
  rfl

omit hf in
/-- A table is compiled behind those that were opened before, under a name of its own. -/
theorem compile_corpusOf {t : CellTable} (hname : ∀ s ∈ opened, s.name ≠ t.name) :
    ((corpusOf f settings opened).compile t).1 = corpusOf f settings (opened ++ [t]) := by
  have hnew : (corpusOf f settings opened).named? t.name = none := by
    refine List.find?_eq_none.mpr fun s hs => ?_
    obtain ⟨u, hu, rfl⟩ := List.mem_map.mp hs
    exact fun hsame => hname u hu (beq_iff_eq.mp hsame)
  unfold Corpus.compile
  rw [hnew]
  simp [corpusOf]

/-- A label that is asked for has its table opened, and leads to the first that is open. -/
theorem fetch_corpusOf (hl : l.Holds ts) (hready : l.Ready) (hopened : opened ⊆ ts)
    (label : String) :
    (corpusOf f settings opened).fetch l label =
      (corpusOf f settings (openFor ts opened label),
        (firstWith? (openFor ts opened label) label).map (compile f settings)) := by
  have htable : TableSource.table? l label = firstWith? ts label := hl.table?_eq hready label
  unfold Corpus.fetch openFor
  rw [scenario?_corpusOf hf, htable]
  cases hknown : firstWith? opened label with
  | some t => simp [hknown]
  | none =>
    cases hfirst : firstWith? ts label with
    | none => simp [hknown]
    | some t =>
      obtain ⟨ht, hdefines⟩ := mem_of_firstWith? hfirst
      -- an open table of the same name would be the table itself, which is not open
      have hname : ∀ s ∈ opened, s.name ≠ t.name := fun s hs heq =>
        firstWith?_eq_none.mp hknown s hs
          (List.inj_on_of_nodup_map hl.names (hopened hs) ht heq ▸ hdefines)
      simp [compile_corpusOf settings hname, scenario?_corpusOf hf]

omit hf in
theorem openFor_subset (hopened : opened ⊆ ts) (label : String) : openFor ts opened label ⊆ ts := by
  unfold openFor
  split
  · exact hopened
  · refine List.append_subset.mpr ⟨hopened, fun t ht => ?_⟩
    exact (mem_of_firstWith? (Option.mem_toList.mp ht)).1

/-- The corpus of a library that was asked for labels holds the tables that were opened. -/
theorem fetchAll_corpusOf (hl : l.Holds ts) (hready : l.Ready) (hopened : opened ⊆ ts)
    (asked : List String) :
    (corpusOf f settings opened).fetchAll l asked =
      corpusOf f settings (asked.foldl (openFor ts) opened) ∧
    asked.foldl (openFor ts) opened ⊆ ts := by
  induction asked generalizing opened with
  | nil => exact ⟨rfl, hopened⟩
  | cons label asked ih =>
    have hfetched : ((corpusOf f settings opened).fetch l label).1 =
        corpusOf f settings (openFor ts opened label) := by
      rw [fetch_corpusOf hf settings hl hready hopened]
    obtain ⟨hrest, hsubset⟩ := ih (openFor_subset hopened label)
    refine ⟨?_, hsubset⟩
    rw [← List.foldl_cons] at hrest
    rw [← hrest, ← hfetched]
    rfl

end

theorem firstWith?_openFor (ts opened : List CellTable) (label : String) :
    firstWith? (openFor ts opened label) label =
      (firstWith? opened label).or (firstWith? ts label) := by
  unfold openFor
  split
  · rename_i hknown
    rw [Option.or_of_isSome hknown]
  · rw [firstWith?_append]
    refine congrArg _ ?_
    cases hfirst : firstWith? ts label with
    | none => rfl
    | some t =>
      rw [Option.toList_some, firstWith?_singleton, if_pos (mem_of_firstWith? hfirst).2]

/-- What a label leads to stays, whatever is opened later. -/
theorem firstWith?_foldl_openFor (ts : List CellTable) {opened : List CellTable} {label : String}
    {t : CellTable} (h : firstWith? opened label = some t) (asked : List String) :
    firstWith? (asked.foldl (openFor ts) opened) label = some t := by
  induction asked generalizing opened with
  | nil => exact h
  | cons a asked ih =>
    refine ih ?_
    unfold openFor
    split
    · exact h
    · rw [firstWith?_append, h]
      rfl

/-! ## Labels of several tables -/

/-- A label keeps the scenario that it was first seen in. It belongs to the first table that was
    added with it, and the tables are opened one by one, as labels of theirs are asked for that no
    open table defines. A label that a table defines leads to the first table that was opened with
    it. That is the table it belongs to, if no other table with the label was opened before; and
    the label leads there whatever is asked for later. -/
theorem label_keeps_scenario {f : Factory} (hf : f.SparesLabels) (settings : Settings)
    {ts : List CellTable} {l : Library} (hl : Shelved ts l) (hready : l.Ready)
    (asked : List String) {label : String} (hlabel : ∃ t ∈ ts, label ∈ definedLabels t) :
    let opened := asked.foldl (openFor ts) []
    let c := (Corpus.ofSettings f settings).fetchAll l asked
    (∀ a, l.owner? a = (firstWith? ts a).map CellTable.name) ∧
    c.scenarios = opened.map (compile f settings) ∧
    ∃ t ∈ ts, firstWith? (openFor ts opened label) label = some t ∧
      (c.fetch l label).2 = some (compile f settings t) ∧
      ((∀ s ∈ opened, label ∈ definedLabels s → l.owner? label = some s.name) →
        l.owner? label = some t.name) ∧
      ∀ later, (((c.fetch l label).1.fetchAll l later).fetch l label).2 =
        some (compile f settings t) := by
  intro opened c
  have hholds := hl.holds
  obtain ⟨hc, hopened⟩ := fetchAll_corpusOf hf settings hholds hready (List.nil_subset ts) asked
  change c = corpusOf f settings opened at hc
  obtain ⟨owner, howner⟩ := Option.isSome_iff_exists.mp (firstWith?_isSome.mpr hlabel)
  have hsome : (firstWith? (openFor ts opened label) label).isSome := by
    rw [firstWith?_openFor, howner]
    simp
  obtain ⟨t, ht⟩ := Option.isSome_iff_exists.mp hsome
  refine ⟨hholds.owner, by rw [hc]; rfl, t,
    openFor_subset hopened label (mem_of_firstWith? ht).1, ht, ?_, ?_, ?_⟩
  · rw [hc, fetch_corpusOf hf settings hholds hready hopened, ht]
    rfl
  · intro halone
    rw [firstWith?_openFor] at ht
    cases hknown : firstWith? opened label with
    | none =>
      rw [hknown, Option.none_or] at ht
      rw [hholds.owner, ht]
      rfl
    | some s =>
      rw [hknown, Option.some_or] at ht
      obtain rfl := Option.some.inj ht
      exact halone s (mem_of_firstWith? hknown).1 (mem_of_firstWith? hknown).2
  · intro later
    have hkept := firstWith?_foldl_openFor ts ht later
    obtain ⟨hlater, hsubset⟩ := fetchAll_corpusOf hf settings hholds hready
      (openFor_subset hopened label) later
    rw [hc, fetch_corpusOf hf settings hholds hready hopened, hlater,
      fetch_corpusOf hf settings hholds hready hsubset, firstWith?_openFor, hkept]
    rfl

/-- A table with a label, and a later one with another label and the same. -/
def tableOne : CellTable := .ofRows "one" [["Command"], ["*a"]]

def tableTwo : CellTable := .ofRows "two" [["Command"], ["*b"], ["*a"]]

def twoTables : Library := (Library.empty.insert tableOne true).insert tableTwo true

theorem shelved_twoTables : Shelved [tableOne, tableTwo] twoTables :=
  .insert tableTwo true (.insert tableOne true .empty (by decide)) (by decide)

theorem sparesLabels_standard : Factory.standard.SparesLabels := fun _ _ h => nomatch h

/-- The later table, which is opened for its own label, keeps the label that it shares. -/
theorem shared_label_leads_to_later :
    twoTables.owner? "a" = some "one" ∧
      let c := (Corpus.ofSettings .standard .standard).fetchAll twoTables ["b"]
      (c.fetch twoTables "a").2 = some (compile .standard .standard tableTwo) ∧
        ∀ asked, (((c.fetch twoTables "a").1.fetchAll twoTables asked).fetch twoTables "a").2 =
          some (compile .standard .standard tableTwo) := by
  have hlabel : ∃ t ∈ [tableOne, tableTwo], "a" ∈ definedLabels t :=
    ⟨tableOne, List.mem_cons_self, by decide +kernel⟩
  have hopened : firstWith? (openFor [tableOne, tableTwo]
      (["b"].foldl (openFor [tableOne, tableTwo]) []) "a") "a" = some tableTwo := by
    decide +kernel
  obtain ⟨-, -, t, -, ht, hfetch, -, hkept⟩ := label_keeps_scenario sparesLabels_standard .standard
    shelved_twoTables (by decide +kernel) ["b"] hlabel
  obtain rfl := Option.some.inj (hopened.symm.trans ht)
  exact ⟨by decide +kernel, hfetch, hkept⟩

/-- Not every label leads to the table that it belongs to. -/
theorem owner_is_passed_over :
    ¬∀ (f : Factory), f.SparesLabels → ∀ (settings : Settings) (ts : List CellTable) (l : Library),
      Shelved ts l → l.Ready → ∀ (asked : List String) (label : String) (t : CellTable),
      t ∈ ts → l.owner? label = some t.name →
      (((Corpus.ofSettings f settings).fetchAll l asked).fetch l label).2 =
        some (compile f settings t) := by
  intro h
  have hearlier := h .standard sparesLabels_standard .standard _ twoTables shelved_twoTables
    (by decide +kernel) ["b"] "a" tableOne List.mem_cons_self (by decide +kernel)
  have hname := congrArg (Option.map Scenario.name) hearlier
  revert hname
  decide +kernel

end VisualNovel.Scenario
