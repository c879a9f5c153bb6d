import VisualNovel.Proofs.Scenario.Ownership

/-
  Libraries whose names are used again. A name holds the last table that was put in under it, but a
  label belongs to the first table that ever defined it, whatever became of that table (`Keeps`). So
  a label is given a table that lacks it exactly if the last table of its owner's name does
  (`soundFor_iff`), and labels are right at all times exactly if no table is put in the place of one
  whose labels it does not have (`sound_throughout_iff`).
-/

namespace VisualNovel.Scenario

open Command (Factory Settings)
open Table (CellTable)

/-! ## Tables by name -/

/-- The last of some tables with a name. -/
def lastNamed? (ts : List CellTable) (name : String) : Option CellTable :=
  ts.reverse.find? fun t => t.name = name

theorem lastNamed?_append (ts : List CellTable) (t : CellTable) (name : String) :
    lastNamed? (ts ++ [t]) name = if name = t.name then some t else lastNamed? ts name := by
  unfold lastNamed?
  rw [List.reverse_append, List.reverse_singleton, List.singleton_append, List.find?_cons]
  by_cases h : name = t.name
  · simp [h]
  · simp [h, Ne.symm h]

/-- A table has a last one of its name. -/
theorem lastNamed?_isSome {ts : List CellTable} {t : CellTable} (ht : t ∈ ts) :
    (lastNamed? ts t.name).isSome :=
  List.find?_isSome.mpr ⟨t, List.mem_reverse.mpr ht, by simp⟩

theorem mem_of_lastNamed? {ts : List CellTable} {name : String} {t : CellTable}
    (h : lastNamed? ts name = some t) : t ∈ ts :=
  List.mem_reverse.mp (List.mem_of_find?_eq_some h)

namespace Library

/-! ## Operations -/

/-- What is done to a library. -/
inductive Operation where
  | insert (table : CellTable) (ready : Bool)
  | setReady (name : String) (ready : Bool)
  | request (label : String)
  deriving Repr, DecidableEq

/-- The table that an operation puts in. -/
def Operation.table? : Operation → Option CellTable
  | insert t _ => some t
  | setReady .. | request _ => none

/-- The tables that operations put in, in order. -/
def tablesOf (ops : List Operation) : List CellTable := ops.filterMap Operation.table?

/-- A library after an operation. -/
def after (l : Library) : Operation → Library
  | .insert t ready => l.insert t ready
  | .setReady name ready => l.setReady name ready
  | .request label => TableSource.request l label

/-- A library after operations in order. -/
def afterAll (l : Library) (ops : List Operation) : Library := ops.foldl after l

/-! ## What is kept -/

/-- What a library says of the tables that were put in, in order. -/
structure Keeps (ts : List CellTable) (l : Library) : Prop where
  /-- A label belongs to the name of the first table that ever defined it. -/
  owner : ∀ label, l.owner? label = (firstWith? ts label).map CellTable.name
  /-- A name holds the last table that was put in under it. -/
  held : ∀ name, (l.shelf? name).map Shelf.table = lastNamed? ts name

variable {ts : List CellTable} {l : Library}

theorem keeps_empty : Keeps [] empty := ⟨fun _ => rfl, fun _ => rfl⟩

theorem Keeps.insert (h : Keeps ts l) (t : CellTable) (ready : Bool) :
    Keeps (ts ++ [t]) (l.insert t ready) where
  owner := owner_insert h.owner t ready
  held name := by
    rw [shelf?_insert, lastNamed?_append, ← h.held]
    split <;> rfl

theorem Keeps.after (h : Keeps ts l) (op : Operation) :
    Keeps (ts ++ op.table?.toList) (l.after op) := by
  cases op with
  | insert t ready => exact h.insert t ready
  | setReady name ready =>
    rw [Operation.table?, Option.toList_none, List.append_nil]
    exact ⟨fun label => by rw [Library.after, owner?_setReady, h.owner],
      fun n => by rw [Library.after, map_table_setReady, h.held]⟩
  | request label =>
    rw [Operation.table?, Option.toList_none, List.append_nil]
    exact ⟨h.owner, h.held⟩

theorem Keeps.afterAll (h : Keeps ts l) (ops : List Operation) :
    Keeps (ts ++ tablesOf ops) (l.afterAll ops) := by
  induction ops generalizing ts l with
  | nil =>
    rw [tablesOf, List.filterMap_nil, List.append_nil]
    exact h
  | cons op ops ih =>
    have hrest := ih (h.after op)
    rw [List.append_assoc] at hrest
    have htables : tablesOf (op :: ops) = op.table?.toList ++ tablesOf ops := by
      unfold tablesOf
      rw [List.filterMap_cons]
      cases op.table? <;> rfl
    rw [htables]
    exact hrest

/-! ## Labels that are lost -/

/-- The table that is held under the name a label belongs to defines the label. A label that
    belongs to no table is none to go wrong. -/
def SoundFor (l : Library) (label : String) : Prop :=
  ∀ name, l.owner? label = some name → ∃ s, l.shelf? name = some s ∧ label ∈ definedLabels s.table

/-- A label is right if and only if the last table of its owner's name still defines it. -/
theorem Keeps.soundFor_iff (h : Keeps ts l) (label : String) :
    l.SoundFor label ↔ ∀ t u, firstWith? ts label = some t → lastNamed? ts t.name = some u →
      label ∈ definedLabels u := by
  constructor
  · intro hsound t u ht hu
    obtain ⟨s, hs, hlabel⟩ := hsound t.name (by rw [h.owner, ht]; rfl)
    have hheld := h.held t.name
    rw [hs, hu] at hheld
    exact Option.some.inj hheld ▸ hlabel
  · intro hlast name hname
    rw [h.owner] at hname
    obtain ⟨t, ht, rfl⟩ := Option.map_eq_some_iff.mp hname
    obtain ⟨u, hu⟩ := Option.isSome_iff_exists.mp (lastNamed?_isSome (mem_of_firstWith? ht).1)
    obtain ⟨s, hs, rfl⟩ := Option.map_eq_some_iff.mp ((h.held t.name).trans hu)
    exact ⟨s, hs, hlast t s.table ht hu⟩

/-- The table of a label, put together from its owner and what is held. -/
theorem table?_eq_some {label : String} {u : CellTable} :
    l.table? label = some u ↔
      ∃ name, l.owner? label = some name ∧ l.shelf? name = some ⟨u, true⟩ := by
  unfold table?
  cases l.owner? label with
  | none => simp
  | some name =>
    cases hs : l.shelf? name with
    | none => simp [hs]
    | some s =>
      obtain ⟨t, ready⟩ := s
      cases ready <;> simp [hs]

/-- A label that is asked for is given a table that defines it if and only if it is right. -/
theorem mem_definedLabels_of_table? {label : String} {u : CellTable}
    (hu : l.table? label = some u) : label ∈ definedLabels u ↔ l.SoundFor label := by
  obtain ⟨name, hname, hshelf⟩ := table?_eq_some.mp hu
  constructor
  · intro hlabel n hn
    obtain rfl := Option.some.inj (hname.symm.trans hn)
    exact ⟨_, hshelf, hlabel⟩
  · intro hsound
    obtain ⟨s, hs, hlabel⟩ := hsound name hname
    obtain rfl := Option.some.inj (hshelf.symm.trans hs)
    exact hlabel

/-- A table that is put in decides about the labels of its name, and about no others. -/
theorem soundFor_insert (l : Library) (t : CellTable) (ready : Bool) (label : String) :
    (l.insert t ready).SoundFor label ↔
      if l.owner? label = some t.name then label ∈ definedLabels t else l.SoundFor label := by
  unfold SoundFor
  simp only [owner?_insert, shelf?_insert]
  cases l.owner? label with
  | none =>
    by_cases hlabel : label ∈ definedLabels t <;> simp [hlabel]
  | some name =>
    by_cases hname : name = t.name <;> simp [hname]

theorem soundFor_setReady (l : Library) (name : String) (ready : Bool) (label : String) :
    (l.setReady name ready).SoundFor label ↔ l.SoundFor label := by
  unfold SoundFor
  simp only [owner?_setReady, shelf?_setReady]
  refine forall_congr' fun n => imp_congr_right fun _ => ?_
  split
  · simp only [Option.map_eq_some_iff]
    constructor
    · rintro ⟨-, ⟨s, hs, rfl⟩, hlabel⟩
      exact ⟨s, hs, hlabel⟩
    · rintro ⟨s, hs, hlabel⟩
      exact ⟨_, ⟨s, hs, rfl⟩, hlabel⟩
  · rfl

/-- An operation spares labels if it puts no table in that lacks a label of its name. -/
def Operation.Spares (l : Library) : Operation → Prop
  | insert t _ => ∀ label, l.owner? label = some t.name → label ∈ definedLabels t
  | setReady .. | request _ => True

/-- Every one of some operations spares the labels that are there when it is done. -/
def SparesAll (l : Library) : List Operation → Prop
  | [] => True
  | op :: ops => op.Spares l ∧ (l.after op).SparesAll ops

/-- Where all labels are right, they are right after an operation if and only if it spares them. -/
theorem sound_after_iff (hl : ∀ label, l.SoundFor label) (op : Operation) :
    (∀ label, (l.after op).SoundFor label) ↔ op.Spares l := by
  cases op with
  | insert t ready =>
    refine forall_congr' fun label => ?_
    rw [after, soundFor_insert]
    split
    · rename_i howner
      simp [howner]
    · rename_i howner
      simp [howner, hl label]
  | setReady name ready =>
    refine iff_of_true (fun label => ?_) trivial
    rw [after, soundFor_setReady]
    exact hl label
  | request label => exact iff_of_true hl trivial

/-- Labels that are right stay right all the time if and only if every operation spares them. -/
theorem sound_throughout_iff (hl : ∀ label, l.SoundFor label) (ops : List Operation) :
    (∀ xs, xs <+: ops → ∀ label, (l.afterAll xs).SoundFor label) ↔ l.SparesAll ops := by
  induction ops generalizing l with
  | nil =>
    refine iff_of_true (fun xs hxs => ?_) trivial
    obtain rfl := List.prefix_nil.mp hxs
    exact hl
  | cons op ops ih =>
    unfold SparesAll
    constructor
    · intro hsound
      have hafter : ∀ label, (l.after op).SoundFor label :=
        hsound [op] (List.cons_prefix_cons.mpr ⟨rfl, List.nil_prefix⟩)
      exact ⟨(sound_after_iff hl op).mp hafter, (ih hafter).mp fun xs hxs =>
        hsound (op :: xs) (List.cons_prefix_cons.mpr ⟨rfl, hxs⟩)⟩
    · rintro ⟨hop, hops⟩ xs hxs
      rcases List.prefix_cons_iff.mp hxs with rfl | ⟨ys, rfl, hys⟩
      · exact hl
      · exact (ih ((sound_after_iff hl op).mpr hop)).mpr hops ys hys

/-! ## Labels and tables -/

/-- What a library says of a label, after tables were put in. -/
structure Serves (ts : List CellTable) (l : Library) (label : String) : Prop where
  /-- A label of a table that is held belongs to a name that holds a table, which is given for the
      label when it is ready. -/
  owned : ∀ name s, l.shelf? name = some s → label ∈ definedLabels s.table →
    ∃ t u, firstWith? ts label = some t ∧ l.owner? label = some t.name ∧
      lastNamed? ts t.name = some u ∧ (l.setReady t.name true).table? label = some u
  /-- What is given for a label is the table that its owner's name holds, if that is ready. -/
  given : ∀ u, l.table? label = some u ↔
    ∃ t, firstWith? ts label = some t ∧ l.shelf? t.name = some ⟨u, true⟩
  /-- It defines the label if and only if the label is right, -/
  right : ∀ u, l.table? label = some u → (label ∈ definedLabels u ↔ l.SoundFor label)
  /-- which it is unless a later table took the owner's name and left the label out. -/
  sound : l.SoundFor label ↔ ∀ t u, firstWith? ts label = some t →
    lastNamed? ts t.name = some u → label ∈ definedLabels u

theorem Keeps.serves (h : Keeps ts l) (label : String) : Serves ts l label where
  owned name s hs hlabel := by
    have hheld : lastNamed? ts name = some s.table := by rw [← h.held, hs]; rfl
    obtain ⟨t, ht⟩ := Option.isSome_iff_exists.mp
      (firstWith?_isSome.mpr ⟨s.table, mem_of_lastNamed? hheld, hlabel⟩)
    obtain ⟨u, hu⟩ := Option.isSome_iff_exists.mp (lastNamed?_isSome (mem_of_firstWith? ht).1)
    obtain ⟨s', hs', rfl⟩ := Option.map_eq_some_iff.mp ((h.held t.name).trans hu)
    have howner : l.owner? label = some t.name := by rw [h.owner, ht]; rfl
    refine ⟨t, s'.table, ht, howner, hu, table?_eq_some.mpr ⟨t.name, ?_, ?_⟩⟩
    · rw [owner?_setReady, howner]
    · rw [shelf?_setReady, if_pos rfl, hs']
      rfl
  given u := by
    rw [table?_eq_some, h.owner]
    constructor
    · rintro ⟨name, hname, hshelf⟩
      obtain ⟨t, ht, rfl⟩ := Option.map_eq_some_iff.mp hname
      exact ⟨t, ht, hshelf⟩
    · rintro ⟨t, ht, hshelf⟩
      exact ⟨t.name, by rw [ht]; rfl, hshelf⟩
  right u := mem_definedLabels_of_table?
  sound := h.soundFor_iff label

theorem soundFor_empty (label : String) : empty.SoundFor label := fun _ h => nomatch h

/-- A label belongs to the first table that ever defined it, and is given what is held under the
    name of that table when it is ready. So labels outlast their tables: a later table of the name
    is given even if it lacks the label, though another that is held may define it. All labels are
    right all the time exactly if no table is put in that lacks a label of its name. -/
theorem owners_outlast_tables (ops : List Operation) :
    Keeps (tablesOf ops) (empty.afterAll ops) ∧
    (∀ label, Serves (tablesOf ops) (empty.afterAll ops) label) ∧
    ((∀ xs, xs <+: ops → ∀ label, (empty.afterAll xs).SoundFor label) ↔ empty.SparesAll ops) := by
  have hkeeps : Keeps (tablesOf ops) (empty.afterAll ops) := keeps_empty.afterAll ops
  exact ⟨hkeeps, hkeeps.serves, sound_throughout_iff soundFor_empty ops⟩

/-! ## A name that is used again -/

/-- A table that takes the name of the first, without its label. -/
def tableOneAgain : CellTable := .ofRows "one" [["Command"], ["*c"]]

/-- A label that a table lacks which is given for it leads nowhere. -/
theorem fetch_of_lost {f : Factory} (hf : f.SparesLabels) (settings : Settings) {label : String}
    {u : CellTable} (hu : l.table? label = some u) (hlost : label ∉ definedLabels u) :
    ((Corpus.ofSettings f settings).fetch l label).2 = none := by
  have htable : TableSource.table? l label = some u := hu
  have hopened : ((Corpus.ofSettings f settings).compile u).1 = corpusOf f settings [u] :=
    compile_corpusOf settings (List.forall_mem_nil _)
  have hnone : (Corpus.ofSettings f settings).scenario? label = none := rfl
  unfold Corpus.fetch
  rw [hnone, htable]
  dsimp only
  rw [hopened, scenario?_corpusOf hf, firstWith?_singleton, if_neg hlost]
  rfl

/-- The second table is held and ready and defines the label, but the first one's name has it, under
    which it is found no more. -/
theorem reused_name_loses_label :
    let l := empty.afterAll
      [.insert tableOne true, .insert tableTwo true, .insert tableOneAgain true]
    (l.shelf? "two" = some ⟨tableTwo, true⟩ ∧ "a" ∈ definedLabels tableTwo) ∧
    (l.owner? "a" = some "one" ∧ l.table? "a" = some tableOneAgain ∧
      "a" ∉ definedLabels tableOneAgain ∧ ¬l.SoundFor "a") ∧
    ((Corpus.ofSettings .standard .standard).fetch l "a").2 = none := by
  obtain ⟨hkeeps, hserves, -⟩ := owners_outlast_tables
    [.insert tableOne true, .insert tableTwo true, .insert tableOneAgain true]
  have hlost : "a" ∉ definedLabels tableOneAgain := by decide +kernel
  have hgiven : (empty.afterAll [.insert tableOne true, .insert tableTwo true,
      .insert tableOneAgain true]).table? "a" = some tableOneAgain :=
    ((hserves "a").given tableOneAgain).mpr ⟨tableOne, by decide +kernel, by decide +kernel⟩
  exact ⟨⟨by decide +kernel, by decide +kernel⟩,
    ⟨by rw [hkeeps.owner]; decide +kernel, hgiven, hlost,
      ((hserves "a").right _ hgiven).not.mp hlost⟩,
    fetch_of_lost sparesLabels_standard .standard hgiven hlost⟩

end Library

end VisualNovel.Scenario
