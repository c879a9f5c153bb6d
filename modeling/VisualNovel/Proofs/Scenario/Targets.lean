import VisualNovel.Proofs.Scenario.Closing
import VisualNovel.Proofs.Scenario.Labels

/-
  Labels of a table. The commands of a scenario that name a label come from rows whose cells hold
  the label (`row_of_named`), and the labels of a scenario are the labels that the rows of its
  table are named with (`labelIndex?_isSome_iff`).
-/

namespace VisualNovel.Scenario

open Command (Action Factory Settings labelIn?)
open Table (CellTable Row)

/-- A label is marked by a row that is named with it, or by a command of a game's own. -/
theorem named?_of_label? {c : Command} {l : String} (h : c.label? = some l) :
    c.action.named? = some (.command, l) ∨ ∃ a, c.action = .host a ∧ a.mark.label? = some l := by
  obtain ⟨context, action⟩ := c
  cases action with
  | label =>
    obtain rfl := Option.some.inj h
    exact Or.inl rfl
  | host action => exact Or.inr ⟨action, rfl, h⟩
  | _ => cases h

theorem namesLabel_of_named? {a : Action} (h : a.named?.isSome = true) : a.namesLabel = true := by
  cases a <;> first | rfl | cases h

/-- Closing rows puts in commands that name no label. -/
theorem mem_compile {f : Factory} {settings : Settings} {t : CellTable} {c : Command}
    (hc : c ∈ (compile f settings t).commands) :
    c ∈ commandsOf (readRows f settings t.dataRows) ∨ c.action.namesLabel = false := by
  rcases mem_closeRows hc with hmade | ⟨p, hp, -⟩ | ⟨d, hd, hclosing⟩
  · exact Or.inl hmade
  · cases hp
  · exact Or.inr (closing_namesLabel hd hclosing)

/-- A command that names a label comes from a row with the label in its cell. -/
theorem row_of_named {f : Factory} {settings : Settings} {t : CellTable} {c : Command}
    (hc : c ∈ (compile f settings t).commands) {column : Table.Column} {l : String}
    (hl : c.action.named? = some (column, l)) :
    ∃ r ∈ t.dataRows, f.read settings r = .ok (some c) ∧ labelIn? r column = some l := by
  rcases mem_compile hc with hmade | hnone
  · obtain ⟨r, hr, hread⟩ := read_of_mem hmade
    exact ⟨r, hr, hread, f.read_named settings r hread column l hl⟩
  · cases hnone.symm.trans (namesLabel_of_named? (by rw [hl]; rfl))

/-- What a command marks can be a label. -/
theorem Compiled.isLabel {s : Scenario} (hs : s.Compiled) {m : Nat} {c : Command} {l : String}
    (hc : s.commands[m]? = some c) (hl : c.label? = some l) : Command.IsLabel l := by
  obtain ⟨f, settings, t, rfl⟩ := hs
  rcases named?_of_label? hl with hnamed | ⟨a, -, hmark⟩
  · obtain ⟨r, -, -, hlabel⟩ := row_of_named (List.mem_of_getElem? hc) hnamed
    exact Command.labelIn?_isLabel hlabel
  · obtain ⟨tag, resources, mark, rest⟩ := a
    cases mark with
    | label l' proper =>
      obtain rfl := Option.some.inj hmark
      exact proper
    | _ => cases hmark

/-- If no command that a game adds marks a label, it is marked by a row that is named with it. -/
theorem row_of_label {f : Factory} (hf : f.SparesLabels) {settings : Settings} {t : CellTable}
    {c : Command} (hc : c ∈ (compile f settings t).commands) {l : String}
    (hl : c.label? = some l) :
    ∃ r ∈ t.dataRows, f.read settings r = .ok (some c) ∧ labelIn? r .command = some l := by
  rcases mem_compile hc with hmade | hnone
  · obtain ⟨r, hr, hread⟩ := read_of_mem hmade
    exact ⟨r, hr, hread, hf.label_in_cell hread hl⟩
  · cases hl.symm.trans (label?_of_namesLabel hnone)

/-- A blank row holds no label. -/
theorem labelIn?_of_isEmpty {r : Row} (h : r.isEmpty = true) (column : Table.Column) :
    labelIn? r column = none := by
  rw [labelIn?, Command.text?, r.cell?_of_isEmpty h]
  rfl

/-- A table defines the labels that its rows are named with, if no game takes these names. -/
theorem labelIndex?_isSome_iff {f : Factory} (hf : f.SparesLabels) (settings : Settings)
    {t : CellTable} {l : String} :
    ((compile f settings t).labelIndex? l).isSome ↔
      ∃ r ∈ t.dataRows, labelIn? r .command = some l := by
  have hs : (compile f settings t).Compiled := ⟨f, settings, t, rfl⟩
  constructor
  · intro h
    obtain ⟨m, hm⟩ := Option.isSome_iff_exists.mp h
    obtain ⟨⟨c, hc, hl⟩, -⟩ := hs.labelIndex?_eq_some.mp hm
    obtain ⟨r, hr, -, hlabel⟩ := row_of_label hf (List.mem_of_getElem? hc) hl
    exact ⟨r, hr, hlabel⟩
  · rintro ⟨r, hr, hlabel⟩
    obtain ⟨title, hread⟩ := Factory.read_of_label hf settings hlabel
    have hfull : r.isEmpty = false := by
      by_contra hempty
      rw [labelIn?_of_isEmpty (by simpa using hempty)] at hlabel
      cases hlabel
    have hmade : (r, ⟨r.context, .label l title⟩) ∈ made f settings t.dataRows := by
      refine List.mem_filterMap.mpr ⟨r, hr, ?_⟩
      rw [hfull, hread]
      rfl
    have hname : l ∈ labelNames (compile f settings t).commands := by
      rw [labelNames_compile, commandsOf_readRows]
      exact List.mem_filterMap.mpr ⟨_, List.mem_map.mpr ⟨_, hmade, rfl⟩, rfl⟩
    obtain ⟨c, hc, hl⟩ := List.mem_filterMap.mp hname
    rw [hs.labelIndex?, List.findIdx?_isSome]
    exact List.any_eq_true.mpr ⟨c, hc, by simpa using hl⟩

end VisualNovel.Scenario
