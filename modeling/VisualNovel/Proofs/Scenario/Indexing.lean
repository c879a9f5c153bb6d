import Mathlib.Data.List.Pairwise
import VisualNovel.Proofs.Scenario.Ownership

/-
  Two readings of the labels of a table. A source reads them off the cells of the rows, a scenario
  off the commands that were made of the rows. Both find the same labels in the same order
  (`indexed_compile`). A label that comes again keeps its command but gets no other place in the
  index, and is reported once for each time that it comes again.
-/

namespace VisualNovel.Scenario

open Command (Factory Settings labelIn?)
open Table (CellTable Row)

/-! ## The index -/

/-- The index has the labels that were added, those that came again left out. -/
theorem map_fst_foldl_addLabel (entries : List (String × Nat)) :
    (entries.foldl addLabel []).map Prod.fst = (entries.map Prod.fst).eraseDups := by
  induction entries using List.reverseRecOn with
  | nil => rfl
  | append_singleton entries e ih =>
    rw [List.foldl_append, List.foldl_cons, List.foldl_nil, addLabel, List.map_append,
      List.map_singleton, Entries.eraseDups_concat, ← ih]
    have hknown : ((entries.foldl addLabel []).lookup e.1).isSome ↔ e.1 ∈ entries.map Prod.fst := by
      have hmem := List.mem_eraseDups (a := e.1) (l := entries.map Prod.fst)
      rw [← ih] at hmem
      simpa [List.lookup_isSome_iff] using hmem
    by_cases h : e.1 ∈ entries.map Prod.fst
    · rw [if_pos (hknown.mpr h), if_pos h]
    · rw [if_neg (hknown.not.mpr h), if_neg h, List.map_append, List.map_singleton]

/-- The index has nothing but what was added, in the order in which it was. -/
theorem foldl_addLabel_sublist (index entries : List (String × Nat)) :
    (entries.foldl addLabel index).Sublist (index ++ entries) := by
  induction entries generalizing index with
  | nil => simp
  | cons e entries ih =>
    have hadded : (addLabel index e).Sublist (index ++ [e]) := by
      unfold addLabel
      split
      · exact List.sublist_append_left index [e]
      · exact .refl _
    have hrest := (ih (addLabel index e)).trans (hadded.append (.refl entries))
    rwa [List.append_assoc] at hrest

/-- The labels of commands with their places, as often as they come. -/
def labelPlaces (commands : List Command) : List (String × Nat) :=
  commands.zipIdx.filterMap fun c => c.1.label?.map fun l => (l, c.2)

theorem map_fst_labelPlaces (commands : List Command) :
    (labelPlaces commands).map Prod.fst = labelNames commands := by
  have hcommands : commands.zipIdx.map Prod.fst = commands := List.zipIdx_map_fst 0 commands
  conv_rhs => rw [← hcommands]
  rw [labelPlaces, labelNames, List.map_filterMap, List.filterMap_map]
  congr 1
  funext c
  cases h : c.1.label? <;> simp [h]

theorem labelPlaces_increasing (commands : List Command) :
    ((labelPlaces commands).map Prod.snd).Pairwise (· < ·) := by
  have hplaces : commands.zipIdx.Pairwise fun c d => c.2 < d.2 := by
    have hrange : (commands.zipIdx.map Prod.snd).Pairwise (· < ·) := by
      rw [List.zipIdx_map_snd]
      exact List.pairwise_lt_range'
    exact List.pairwise_map.mp hrange
  refine List.pairwise_map.mpr (hplaces.filterMap _ fun c d hlt p hp q hq => ?_)
  obtain ⟨l, -, rfl⟩ := Option.map_eq_some_iff.mp hp
  obtain ⟨m, -, rfl⟩ := Option.map_eq_some_iff.mp hq
  exact hlt

theorem map_fst_labelsOf (commands : List Command) :
    (labelsOf commands).map Prod.fst = (labelNames commands).eraseDups := by
  rw [← map_fst_labelPlaces]
  exact map_fst_foldl_addLabel _

theorem labelsOf_increasing (commands : List Command) :
    ((labelsOf commands).map Prod.snd).Pairwise (· < ·) :=
  (labelPlaces_increasing commands).sublist
    ((foldl_addLabel_sublist [] (labelPlaces commands)).map Prod.snd)

/-! ## Rows and commands -/

/-- A command that is a label, with its row. -/
def commandLabel? (c : Command) : Option (RowContext × String) :=
  c.label?.map fun l => (c.context, l)

/-- A row that is named with a label. -/
def rowLabel? (r : Row) : Option (RowContext × String) :=
  (labelIn? r .command).map fun l => (r.context, l)

theorem definedLabels_eq (t : CellTable) :
    definedLabels t = (t.dataRows.filterMap rowLabel?).map Prod.snd := by
  unfold definedLabels rowLabel? labelIn? Command.text?
  rw [List.map_filterMap]
  congr 1
  funext r
  cases r.cell? Table.Column.command.header with
  | none => rfl
  | some cell => cases h : Command.labelOf? (Text.trim cell) <;> simp [h]

theorem isEmpty_of_labelIn? {r : Row} {l : String} (h : labelIn? r .command = some l) :
    r.isEmpty = false := by
  by_contra hempty
  rw [labelIn?_of_isEmpty (by simpa using hempty)] at h
  cases h

/-- Every row that is named with a label makes the command of the label, and no other row does. -/
theorem commandLabels_readRows {f : Factory} (hf : f.SparesLabels) (settings : Settings)
    (rows : List Row) :
    (commandsOf (readRows f settings rows)).filterMap commandLabel? = rows.filterMap rowLabel? := by
  unfold commandsOf readRows
  rw [List.filterMap_filterMap, List.filterMap_filterMap]
  congr 1
  funext r
  cases hlabel : labelIn? r .command with
  | some l =>
    obtain ⟨title, hread⟩ := Factory.read_of_label hf settings hlabel
    rw [isEmpty_of_labelIn? hlabel, hread, rowLabel?, hlabel]
    rfl
  | none =>
    have hother : ∀ c, f.read settings r = .ok (some c) → commandLabel? c = none := by
      intro c hread
      refine Option.map_eq_none_iff.mpr (Option.eq_none_iff_forall_ne_some.mpr fun l hl => ?_)
      cases hlabel.symm.trans (hf.label_in_cell hread hl)
    rw [rowLabel?, hlabel]
    cases r.isEmpty with
    | true => rfl
    | false =>
      cases hread : f.read settings r with
      | error e => rfl
      | ok c? =>
        cases c? with
        | none => rfl
        | some c => exact hother c hread

theorem commandLabels_compile {f : Factory} (hf : f.SparesLabels) (settings : Settings)
    (t : CellTable) :
    (compile f settings t).commands.filterMap commandLabel? = t.dataRows.filterMap rowLabel? := by
  have hnone : ∀ c : Command, c.label? = none → commandLabel? c = none := fun c hc => by
    rw [commandLabel?, hc, Option.map_none]
  rw [← commandLabels_readRows hf settings]
  exact filterMap_closeRows
    (fun _ hc d hd => hnone d (label?_of_namesLabel (closing_namesLabel hc hd)))
    fun _ h => nomatch h

/-- The labels of the commands are those of the table, as often as they come. -/
theorem labelNames_eq {f : Factory} (hf : f.SparesLabels) (settings : Settings)
    (t : CellTable) : labelNames (compile f settings t).commands = definedLabels t := by
  rw [definedLabels_eq, ← commandLabels_compile hf settings, List.map_filterMap, labelNames]
  congr 1
  funext c
  cases h : c.label? <;> simp [commandLabel?, h]

/-! ## Labels that come again -/

/-- What is reported for a label that comes again. -/
def again (scenario label : String) : Error := .scenario (.duplicateLabel label scenario)

/-- A label that comes again is reported, and becomes known if it is new. -/
theorem count_name (o : Outline) (scenario : String) (c : Command) (l : String) :
    ((o.name scenario c).2.count (again scenario l)) =
        (if c.label? = some l ∧ l ∈ o.labels then 1 else 0) ∧
      (l ∈ (o.name scenario c).1.labels ↔ l ∈ o.labels ∨ c.label? = some l) := by
  unfold Outline.name
  cases hl : c.label? with
  | none => simp
  | some m =>
    by_cases hm : m ∈ o.labels
    · by_cases hlm : m = l
      · subst hlm
        simp [hm, again]
      · simp [hm, again, hlm]
    · by_cases hlm : m = l
      · subst hlm
        simp [hm]
      · simp [hm, hlm, Ne.symm hlm]

theorem count_nest (o : Outline) (scenario : String) (c : Command) (l : String) :
    (o.nest c).2.count (again scenario l) = 0 ∧ (o.nest c).1.labels = o.labels := by
  unfold Outline.nest
  split
  · exact ⟨rfl, rfl⟩
  · split
    · split
      · exact ⟨by simp [again], rfl⟩
      · split <;> exact ⟨rfl, rfl⟩
    · exact ⟨rfl, rfl⟩

theorem count_labelNames_cons (c : Command) (cs : List Command) (l : String) :
    (labelNames (c :: cs)).count l =
      (labelNames cs).count l + (if c.label? = some l then 1 else 0) := by
  rw [labelNames, List.filterMap_cons]
  cases hc : c.label? with
  | none => rfl
  | some m => simp [List.count_cons, labelNames]

/-- A label is reported as often as commands put it in, but for the first time. -/
theorem count_diagnose (scenario : String) (cs : List Command) (o : Outline) (l : String) :
    (diagnose scenario o (cs.map .ok)).count (again scenario l) =
      (labelNames cs).count l - (if l ∈ o.labels then 0 else 1) := by
  induction cs generalizing o with
  | nil =>
    show (diagnose scenario o []).count _ = _
    unfold diagnose
    split <;> simp [labelNames, again]
  | cons c cs ih =>
    obtain ⟨hnest, hlabels⟩ := count_nest o scenario c l
    obtain ⟨hname, hknown⟩ := count_name (o.nest c).1 scenario c l
    rw [hlabels] at hname hknown
    show ((o.nest c).2 ++ ((o.nest c).1.name scenario c).2 ++
      diagnose scenario ((o.nest c).1.name scenario c).1 (cs.map .ok)).count _ = _
    rw [List.count_append, List.count_append, hnest, hname, ih, count_labelNames_cons]
    by_cases hl : c.label? = some l <;> by_cases hold : l ∈ o.labels <;>
      simp [hl, hold, hknown, Nat.add_comm]

/-! ## Both readings -/

/-- What the labels of a scenario are, said of the rows of its table. -/
structure Indexed (f : Factory) (settings : Settings) (t : CellTable) : Prop where
  /-- The labels are those of the table in its order, each once. -/
  labels : (compile f settings t).labels.map Prod.fst = (definedLabels t).eraseDups
  increasing : ((compile f settings t).labels.map Prod.snd).Pairwise (· < ·)
  /-- A label leads to the first command that is put in for it. -/
  first : ∀ l m, (compile f settings t).labelIndex? l = some m ↔
    (∃ c, (compile f settings t).commands[m]? = some c ∧ c.label? = some l) ∧
      ∀ k < m, ∀ c, (compile f settings t).commands[k]? = some c → c.label? ≠ some l
  /-- Each row that is named with a label has its command, in the order of the rows. -/
  kept : (compile f settings t).commands.filterMap commandLabel? = t.dataRows.filterMap rowLabel?
  /-- Besides the errors of rows that cannot be read, a label is reported once for each time that it
      comes again. -/
  reported : ∃ whole,
    Shuffled ((rejected f settings t.dataRows).map Prod.snd) whole
      (compile f settings t).diagnostics ∧
    ∀ l, whole.count (again t.name l) = (definedLabels t).count l - 1

theorem indexed_compile {f : Factory} (hf : f.SparesLabels) (settings : Settings) (t : CellTable) :
    Indexed f settings t where
  labels := by
    rw [← labelNames_eq hf settings]
    exact map_fst_labelsOf _
  increasing := labelsOf_increasing _
  first l m := by
    have hcompiled : (compile f settings t).Compiled := ⟨f, settings, t, rfl⟩
    exact hcompiled.labelIndex?_eq_some
  kept := commandLabels_compile hf settings t
  reported := by
    have hnames : labelNames (commandsOf (readRows f settings t.dataRows)) = definedLabels t := by
      rw [← labelNames_eq hf settings, labelNames_compile]
    refine ⟨_, errors_readRows f settings t.dataRows ▸ shuffled_commands t.name _ ⟨0, []⟩,
      fun l => ?_⟩
    rw [count_diagnose, hnames]
    rfl

end VisualNovel.Scenario
