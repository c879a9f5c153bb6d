import VisualNovel.Proofs.Entries
import VisualNovel.Proofs.Scenario.Rows
import VisualNovel.Scenario.Corpus

/-
  Where labels lead. In a scenario that was compiled a label leads to the first command that puts
  it there (`labelIndex?_eq_some`), and all scenarios of a corpus that began without any were
  compiled (`Corpus.Compiled`).
-/

namespace VisualNovel.Scenario

open Command (Factory Settings)
open Table (CellTable)

/-! ## The index of labels -/

theorem lookup_addLabel (index : List (String × Nat)) (entry : String × Nat) (l : String) :
    (addLabel index entry).lookup l = (index ++ [entry]).lookup l := by
  obtain ⟨l', m⟩ := entry
  unfold addLabel
  split
  · rename_i h
    rw [List.lookup_append]
    cases hl : index.lookup l with
    | some m => rfl
    | none =>
      have hne : ¬l = l' := fun he => by simp [← he, hl] at h
      rw [Entries.lookup_cons_ite, if_neg hne]
      rfl
  · rfl

/-- Of the entries of a label the first counts. -/
theorem lookup_foldl_addLabel (entries index : List (String × Nat)) (l : String) :
    (entries.foldl addLabel index).lookup l = (index ++ entries).lookup l := by
  induction entries generalizing index with
  | nil => simp
  | cons e entries ih =>
    rw [List.foldl_cons, ih, List.lookup_append, lookup_addLabel, ← List.lookup_append,
      List.append_assoc]
    rfl

/-- A label leads to its first command. -/
theorem lookup_labelsOf (commands : List Command) (l : String) :
    (labelsOf commands).lookup l = commands.findIdx? fun c => c.label? = some l := by
  have hfrom : ∀ (cs : List Command) (k : Nat),
      ((cs.zipIdx k).filterMap fun c => c.1.label?.map fun l => (l, c.2)).lookup l =
        (cs.findIdx? fun c => c.label? = some l).map (· + k) := by
    intro cs
    induction cs with
    | nil => exact fun k => rfl
    | cons c cs ih =>
      intro k
      rw [List.zipIdx_cons, List.filterMap_cons, List.findIdx?_cons]
      cases hc : c.label? with
      | none => simp [ih, Option.map_map, Function.comp_def, Nat.add_assoc, Nat.add_comm 1]
      | some l' =>
        by_cases hl : l = l'
        · simp [hl]
        · have hb : (l == l') = false := by simpa using hl
          have hl' : ¬l' = l := fun h => hl h.symm
          simp [hb, hl', List.lookup_cons, ih, Option.map_map, Function.comp_def,
            Nat.add_assoc, Nat.add_comm 1]
  unfold labelsOf
  rw [lookup_foldl_addLabel, List.nil_append, hfrom commands 0]
  simp

/-- A scenario that was compiled of some table. -/
def Compiled (s : Scenario) : Prop :=
  ∃ f settings t, s = compile f settings t

theorem Compiled.labelIndex? {s : Scenario} (hs : s.Compiled) (l : String) :
    s.labelIndex? l = s.commands.findIdx? fun c => c.label? = some l := by
  obtain ⟨f, settings, t, rfl⟩ := hs
  exact lookup_labelsOf _ l

/-- Where a label leads stands a command that puts it there, and none stands before. -/
theorem Compiled.labelIndex?_eq_some {s : Scenario} (hs : s.Compiled) {l : String} {m : Nat} :
    s.labelIndex? l = some m ↔
      (∃ c, s.commands[m]? = some c ∧ c.label? = some l) ∧
        ∀ k < m, ∀ c, s.commands[k]? = some c → c.label? ≠ some l := by
  rw [hs.labelIndex?, List.findIdx?_eq_some_iff_getElem]
  constructor
  · rintro ⟨hm, hl, hbefore⟩
    refine ⟨⟨_, List.getElem?_eq_getElem hm, by simpa using hl⟩, fun k hk c hc => ?_⟩
    obtain ⟨hlt, rfl⟩ := List.getElem?_eq_some_iff.mp hc
    simpa using hbefore k hk
  · rintro ⟨⟨c, hc, hl⟩, hbefore⟩
    obtain ⟨hm, rfl⟩ := List.getElem?_eq_some_iff.mp hc
    refine ⟨hm, by simpa using hl, fun k hk => ?_⟩
    simpa using hbefore k hk _ (List.getElem?_eq_getElem (Nat.lt_trans hk hm))

/-! ## Scripts without diagnostics -/

/-- The labels that commands put into a scenario, as often as they do. -/
def labelNames (commands : List Command) : List String := commands.filterMap Command.label?

theorem label?_of_namesLabel {c : Command} (h : c.action.namesLabel = false) : c.label? = none := by
  obtain ⟨context, action⟩ := c
  cases action with
  | label => cases h
  | host action => exact Option.isNone_iff_eq_none.mp (Option.isSome_eq_false_iff.mp h)
  | _ => rfl

/-- What the commands that close rows do not bring, the commands of rows that were closed bring as
    before. -/
theorem filterMap_closeRows {β : Type} {g : Command → Option β} {cs : List Command}
    (hg : ∀ c ∈ cs, ∀ d, c.closing? = some d → g d = none) {o : Option Opening}
    (ho : ∀ opening ∈ o, g opening.2 = none) :
    (closeRows o cs).filterMap g = cs.filterMap g := by
  induction cs generalizing o with
  | nil =>
    cases o with
    | none => rfl
    | some opening => simp [closeRows, ho opening rfl]
  | cons c cs ih =>
    obtain ⟨hc, hlater⟩ := List.forall_mem_cons.mp hg
    have hrest := ih hlater (o := opening? none c) fun opening hopening => by
      obtain ⟨d, hd, rfl⟩ := Option.map_eq_some_iff.mp hopening
      exact hc d hd
    cases o with
    | none => simp only [closeRows, List.filterMap_cons, hrest]
    | some opening =>
      unfold closeRows
      split
      · simp only [List.filterMap_cons, ih hlater ho]
      · split
        · simp only [List.filterMap_cons, hrest]
        · simp only [List.filterMap_cons, hrest, ho opening rfl]

/-- The commands that close rows bring no labels. -/
theorem labelNames_compile (f : Factory) (settings : Settings) (t : CellTable) :
    labelNames (compile f settings t).commands =
      labelNames (commandsOf (readRows f settings t.dataRows)) :=
  filterMap_closeRows (o := none)
    (fun _ hc _ hd => label?_of_namesLabel (closing_namesLabel hc hd)) fun _ h => nomatch h

/-- A script without diagnostics has no label twice, nor one that was there before. -/
theorem labelNames_of_diagnose {name : String} {results : List (Except Error Command)}
    {o : Outline} (h : diagnose name o results = []) :
    (labelNames (commandsOf results)).Nodup ∧
      ∀ l ∈ labelNames (commandsOf results), l ∉ o.labels := by
  induction results generalizing o with
  | nil => exact ⟨List.nodup_nil, fun l hl => absurd hl List.not_mem_nil⟩
  | cons r results ih =>
    cases r with
    | error e => cases h
    | ok c =>
      simp only [diagnose, List.append_eq_nil_iff] at h
      obtain ⟨⟨-, hname⟩, hrest⟩ := h
      obtain ⟨hnodup, hnew⟩ := ih hrest
      have hlabels : (o.nest c).1.labels = o.labels := by
        unfold Outline.nest
        split
        · rfl
        · split
          · split
            · rfl
            · split <;> rfl
          · rfl
      have hcommands : commandsOf (.ok c :: results) = c :: commandsOf results := rfl
      rw [hcommands, labelNames, List.filterMap_cons]
      unfold Outline.name at hname hnew
      cases hl : c.label? with
      | none =>
        simp only [hl, hlabels] at hnew
        exact ⟨hnodup, hnew⟩
      | some l =>
        simp only [hl, hlabels] at hname hnew
        split at hname
        · cases hname
        · rename_i hfresh
          rw [if_neg hfresh] at hnew
          refine ⟨List.nodup_cons.mpr ⟨fun hmem => ?_, hnodup⟩, fun l' hl' => ?_⟩
          · exact hnew l hmem (by simp)
          · rcases List.mem_cons.mp hl' with rfl | hl'
            · exact hfresh
            · exact fun h => hnew l' hl' (by simp [h])

/-- Where no label is put in twice, every label has one command. -/
theorem label_at_once {s : Scenario} (h : (labelNames s.commands).Nodup) {l : String} {i k : Nat}
    {c d : Command} (hc : s.commands[i]? = some c) (hcl : c.label? = some l)
    (hd : s.commands[k]? = some d) (hdl : d.label? = some l) : i = k := by
  have hpairs := List.pairwise_iff_getElem.mp (List.pairwise_filterMap.mp h)
  obtain ⟨hi, rfl⟩ := List.getElem?_eq_some_iff.mp hc
  obtain ⟨hk, rfl⟩ := List.getElem?_eq_some_iff.mp hd
  rcases Nat.lt_trichotomy i k with hlt | heq | hgt
  · exact absurd rfl (hpairs i k hi hk hlt l hcl l hdl)
  · exact heq
  · exact absurd rfl (hpairs k i hk hi hgt l hdl l hcl)

/-- In a scenario without diagnostics every label has one command. -/
theorem label_unique {f : Factory} {settings : Settings} {t : CellTable}
    (h : (compile f settings t).diagnostics = []) {l : String} {i k : Nat} {c d : Command}
    (hc : (compile f settings t).commands[i]? = some c) (hcl : c.label? = some l)
    (hd : (compile f settings t).commands[k]? = some d) (hdl : d.label? = some l) : i = k := by
  have hnames : (labelNames (compile f settings t).commands).Nodup := by
    obtain ⟨hnodup, -⟩ := labelNames_of_diagnose h
    rwa [labelNames_compile]
  exact label_at_once hnames hc hcl hd hdl

/-! ## Corpora -/

/-- All scenarios of a corpus were compiled. -/
def Corpus.Compiled (c : Corpus) : Prop := ∀ s ∈ c.scenarios, s.Compiled

theorem Corpus.compiled_ofSettings (f : Factory) (settings : Settings) :
    (Corpus.ofSettings f settings).Compiled := fun _ hs => absurd hs List.not_mem_nil

theorem Corpus.Compiled.compile {c : Corpus} (hc : c.Compiled) (t : CellTable) :
    (c.compile t).1.Compiled := by
  unfold Corpus.compile
  split
  · exact hc
  · intro s hs
    rcases List.mem_append.mp hs with hs | hs
    · exact hc s hs
    · obtain rfl := List.mem_singleton.mp hs
      exact ⟨_, _, _, rfl⟩

/-- A scenario that a label leads to was compiled and has the label. -/
theorem Corpus.Compiled.scenario? {c : Corpus} (hc : c.Compiled) {l : String} {s : Scenario}
    (hs : c.scenario? l = some s) : s.Compiled ∧ (s.labelIndex? l).isSome :=
  ⟨hc s (List.mem_of_find?_eq_some hs), by simpa using List.find?_some hs⟩

end VisualNovel.Scenario
