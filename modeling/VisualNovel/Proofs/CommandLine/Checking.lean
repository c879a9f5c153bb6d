import Mathlib.Algebra.Ring.Nat
import Mathlib.Control.Monad.Basic
import Mathlib.Data.List.Forall2
import Mathlib.Data.List.Nodup
import VisualNovel.CommandLine.Check

/-
  What checking says of scripts. A corpus that opens tables holds under each name the scenario of
  the first table of the name (`Opened.compile`). So a script is reported on by the first table of
  its name, which is its own as long as scripts of one name say the same.
-/

namespace VisualNovel.CommandLine

open Disk (FileTree)
open Scenario (Corpus)
open Table (CellTable)

/-! ## Tables of a name -/

/-- The scenario of a table by itself. -/
def alone (c : Corpus) (t : CellTable) : Scenario := Scenario.compile c.factory c.settings t

/-- The first table of a name. -/
def firstOf? (tables : List CellTable) (name : String) : Option CellTable :=
  tables.find? fun t => t.name == name

/-- The table that is compiled for a table: the first one of its name. -/
def standIn (tables : List CellTable) (t : CellTable) : CellTable :=
  (firstOf? tables t.name).getD t

theorem firstOf?_append (tables more : List CellTable) (name : String) :
    firstOf? (tables ++ more) name = (firstOf? tables name).or (firstOf? more name) :=
  List.find?_append

theorem firstOf?_cons_self (t : CellTable) (tables : List CellTable) :
    firstOf? (t :: tables) t.name = some t := by
  rw [firstOf?, List.find?_cons, beq_self_eq_true]

theorem mem_of_firstOf? {tables : List CellTable} {name : String} {t : CellTable}
    (h : firstOf? tables name = some t) : t ∈ tables ∧ t.name = name :=
  ⟨List.mem_of_find?_eq_some h, by simpa using List.find?_some h⟩

/-- A table's stand-in is one of the tables, and has the table's name. -/
theorem standIn_spec {tables : List CellTable} {t : CellTable} (ht : t ∈ tables) :
    standIn tables t ∈ tables ∧ (standIn tables t).name = t.name := by
  obtain ⟨u, hu⟩ : ∃ u, firstOf? tables t.name = some u :=
    Option.isSome_iff_exists.mp (List.find?_isSome.mpr ⟨t, ht, beq_self_eq_true _⟩)
  rw [standIn, hu]
  exact mem_of_firstOf? hu

/-- Tables of one name have one stand-in. -/
theorem standIn_congr {tables : List CellTable} {t u : CellTable} (ht : t ∈ tables)
    (hname : t.name = u.name) : standIn tables t = standIn tables u := by
  obtain ⟨s, hs⟩ : ∃ s, firstOf? tables t.name = some s :=
    Option.isSome_iff_exists.mp (List.find?_isSome.mpr ⟨t, ht, beq_self_eq_true _⟩)
  rw [standIn, standIn, ← hname, hs]
  rfl

/-- Every table's scenario is that of its stand-in if and only if tables of one name have one
    scenario. -/
theorem standIn_alone_iff (c : Corpus) (tables : List CellTable) :
    (∀ t ∈ tables, alone c (standIn tables t) = alone c t) ↔
      ∀ t ∈ tables, ∀ u ∈ tables, t.name = u.name → alone c t = alone c u := by
  constructor
  · intro h t ht u hu hname
    rw [← h t ht, ← h u hu, standIn_congr ht hname]
  · intro h t ht
    obtain ⟨hmem, hname⟩ := standIn_spec ht
    exact h _ hmem t ht hname

/-! ## The corpus -/

/-- A corpus holds the scenarios of the first tables of all names. -/
def Opened (c : Corpus) (tables : List CellTable) : Prop :=
  ∀ name, c.named? name = (firstOf? tables name).map (alone c)

theorem alone_compile (c : Corpus) (t : CellTable) : alone (c.compile t).1 = alone c := by
  unfold Corpus.compile
  split <;> rfl

/-- A name that is compiled keeps its scenario; another gets that of the table. -/
theorem named?_compile (c : Corpus) (t : CellTable) (name : String) :
    (c.compile t).1.named? name =
      (c.named? name).or (if t.name = name then some (alone c t) else none) := by
  unfold Corpus.compile
  cases hold : c.named? t.name with
  | some s =>
    by_cases hname : t.name = name
    · rw [← hname, hold]; rfl
    · rw [if_neg hname, Option.or_none]
  | none =>
    change (c.scenarios ++ [alone c t]).find? (fun s => s.name == name) = _
    rw [List.find?_append, List.find?_singleton, Corpus.named?]
    simp only [alone, Scenario.compile, beq_iff_eq]

/-- To compile a table gives the scenario of its stand-in, whatever tables are still to come. -/
theorem Opened.compiled {c : Corpus} {tables : List CellTable} (h : Opened c tables)
    (t : CellTable) (more : List CellTable) :
    (c.compile t).2 = alone c (standIn (tables ++ t :: more) t) := by
  rw [standIn, firstOf?_append, firstOf?_cons_self, Corpus.compile, h t.name]
  cases firstOf? tables t.name <;> rfl

/-- A corpus that opened some tables and compiles one more has opened them all. -/
theorem Opened.compile {c : Corpus} {tables : List CellTable} (h : Opened c tables)
    (t : CellTable) : Opened (c.compile t).1 (tables ++ [t]) := by
  intro name
  have hlast : firstOf? [t] name = if t.name = name then some t else none := by
    simp only [firstOf?, List.find?_singleton, beq_iff_eq]
  rw [named?_compile, h name, alone_compile, firstOf?_append, hlast]
  cases firstOf? tables name <;> split <;> rfl

/-! ## Scripts -/

/-- What is said of scripts with these scenarios: the reports one behind the other, and the errors
    of all. -/
def reports (paths : List String) (scenarios : List Scenario) : CheckResult :=
  ⟨(List.zipWith reportOf paths scenarios).flatten,
    .ok (scenarios.map fun s => s.diagnostics.length).sum⟩

theorem reports_cons (path : String) (paths : List String) (s : Scenario)
    (scenarios : List Scenario) :
    reports (path :: paths) (s :: scenarios) =
      (reports paths scenarios).after (reportOf path s) s.diagnostics.length := rfl

/-- The name of the table at a path. -/
def scriptName (path : String) : String := (Disk.stem? path).getD "script"

/-- A script holds a table, which is named after it. -/
def Holds (files : FileTree) (script : Configuration.ScriptSettings) (path : String)
    (t : CellTable) : Prop :=
  Scenario.loadTable files script path = .ok t ∧ t.name = scriptName path

/-- A script that can be read holds a table. -/
theorem exists_holds {files : FileTree} (script : Configuration.ScriptSettings) {path text : String}
    (h : files.readText path = .ok text) : ∃ t, Holds files script path t :=
  ⟨_, by rw [Scenario.loadTable, h]; rfl, rfl⟩

theorem exists_forall₂ {files : FileTree} (script : Configuration.ScriptSettings)
    {paths : List String} (h : ∀ path ∈ paths, ∃ text, files.readText path = .ok text) :
    ∃ tables, List.Forall₂ (Holds files script) paths tables := by
  induction paths with
  | nil => exact ⟨[], .nil⟩
  | cons path paths ih =>
    obtain ⟨⟨text, htext⟩, hrest⟩ := List.forall_mem_cons.mp h
    obtain ⟨t, ht⟩ := exists_holds script htext
    obtain ⟨tables, htables⟩ := ih hrest
    exact ⟨t :: tables, .cons ht htables⟩

/-- Scripts are reported on by their stand-ins among the scripts before and all that are checked. -/
theorem checkScripts_of_opened {files : FileTree} {script : Configuration.ScriptSettings}
    {paths : List String} {tables : List CellTable}
    (hload : List.Forall₂ (Holds files script) paths tables) {c : Corpus}
    {before : List CellTable} (hc : Opened c before) :
    checkScripts files script paths c =
      reports paths (tables.map fun t => alone c (standIn (before ++ tables) t)) := by
  induction hload generalizing c before with
  | nil => rfl
  | @cons path t paths tables ht _ ih =>
    -- the other scripts are checked with this table among those before them
    have hrest := ih (hc.compile t)
    rw [alone_compile, List.append_assoc, List.singleton_append] at hrest
    rw [List.map_cons, reports_cons, ← hrest, ← hc.compiled t tables, checkScripts, ht.1]

theorem Holds.names {files : FileTree} {script : Configuration.ScriptSettings}
    {paths : List String} {tables : List CellTable}
    (h : List.Forall₂ (Holds files script) paths tables) :
    tables.map CellTable.name = paths.map scriptName := by
  induction h with
  | nil => rfl
  | cons ht _ ih => rw [List.map_cons, List.map_cons, ht.2, ih]

/-- A corpus that is loaded has opened nothing yet. -/
theorem opened_of_loadCorpus {files : FileTree} {settings : Configuration.Settings}
    {corpus : Corpus} (h : Scenario.loadCorpus files settings = .ok corpus) : Opened corpus [] := by
  rw [Scenario.loadCorpus] at h
  cases hcharacters : Scenario.loadCharacters files settings.script with
  | error e => rw [hcharacters] at h; cases h
  | ok characters =>
    rw [hcharacters] at h
    cases h
    exact fun _ => rfl

/-- Of scripts that can be read, each is reported on in its turn, under its own path, but by the
    scenario of the first table of its name; the errors are those of the reports. So the reports
    are those of the scripts' own tables if scripts of one name say the same, as scripts do that
    have names of their own. -/
theorem scripts_are_checked_by_name {files : FileTree} {home : String} {options : CheckOptions}
    {settings : Configuration.Settings} {corpus : Corpus}
    (hsettings : loadSettings files home options.config? = .ok settings)
    (hcorpus : Scenario.loadCorpus files settings = .ok corpus)
    (hread : ∀ path ∈ options.scripts, ∃ text, files.readText path = .ok text) :
    ∃ tables, List.Forall₂ (Holds files settings.script) options.scripts tables ∧
      check files home options =
        reports options.scripts (tables.map fun t => alone corpus (standIn tables t)) ∧
      ((∀ t ∈ tables, alone corpus (standIn tables t) = alone corpus t) ↔
        ∀ t ∈ tables, ∀ u ∈ tables, t.name = u.name → alone corpus t = alone corpus u) ∧
      ((∀ t ∈ tables, ∀ u ∈ tables, t.name = u.name → alone corpus t = alone corpus u) →
        check files home options = reports options.scripts (tables.map (alone corpus))) ∧
      ((options.scripts.map scriptName).Nodup →
        check files home options = reports options.scripts (tables.map (alone corpus))) := by
  obtain ⟨tables, htables⟩ := exists_forall₂ settings.script hread
  have hcheck : check files home options =
      reports options.scripts (tables.map fun t => alone corpus (standIn tables t)) := by
    simp only [check, hsettings, hcorpus]
    exact checkScripts_of_opened htables (opened_of_loadCorpus hcorpus)
  have hown : (∀ t ∈ tables, ∀ u ∈ tables, t.name = u.name → alone corpus t = alone corpus u) →
      check files home options = reports options.scripts (tables.map (alone corpus)) := by
    intro hsame
    rw [hcheck, List.map_congr_left ((standIn_alone_iff corpus tables).mpr hsame)]
  refine ⟨tables, htables, hcheck, standIn_alone_iff corpus tables, hown, fun hnames => ?_⟩
  rw [← Holds.names htables] at hnames
  exact hown fun t ht u hu hname => by
    rw [List.inj_on_of_nodup_map hnames ht hu hname]

/-- Of two scripts called `x.csv`, the one that is checked first has no errors. The other has one if
    it is checked alone, and none behind the first, whose report is printed again in its place. -/
theorem namesake_is_not_reported :
    let files : FileTree := ⟨[(["a"], .directory), (["b"], .directory),
      (["x.csv", "a"], .file (.text "Command\n*one\n")),
      (["x.csv", "b"], .file (.text "Command\n*two\nNope\n"))], []⟩
    let both : CheckOptions := ⟨["a/x.csv", "b/x.csv"], none⟩
    (∃ tables corpus, List.Forall₂ (Holds files {}) both.scripts tables ∧
      check files "" both =
        reports both.scripts (tables.map fun t => alone corpus (standIn tables t))) ∧
      (check files "" both).lines = ["a/x.csv: 1 commands, 1 labels", "  *one at command 0",
        "b/x.csv: 1 commands, 1 labels", "  *one at command 0"] ∧
      (check files "" both).result = .ok 0 ∧
      (check files "" ⟨["b/x.csv"], none⟩).result = .ok 1 := by
  intro files both
  let usual : Asset.Directories := ⟨"", Asset.Category.all.map fun c => (c, c.directory)⟩
  have hsettings : loadSettings files "" none = .ok { assets := usual } := by decide +kernel
  have hcorpus : Scenario.loadCorpus files { assets := usual } =
      .ok (.ofSettings .standard ⟨usual, .empty⟩) := rfl
  have hread : ∀ path ∈ both.scripts, ∃ text, files.readText path = .ok text := by
    intro path hpath
    rcases List.mem_pair.mp hpath with rfl | rfl
    · exact ⟨"Command\n*one\n", by decide +kernel⟩
    · exact ⟨"Command\n*two\nNope\n", by decide +kernel⟩
  obtain ⟨tables, htables, hcheck, -⟩ := scripts_are_checked_by_name hsettings hcorpus hread
  exact ⟨⟨tables, _, htables, hcheck⟩, by decide +kernel, by decide +kernel, by decide +kernel⟩

end VisualNovel.CommandLine
