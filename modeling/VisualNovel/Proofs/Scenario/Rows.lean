import Mathlib.Data.List.Nodup
import VisualNovel.Proofs.Command.Labels
import VisualNovel.Scenario.Compile

/-
  What becomes of the rows of a table. Each makes a command, is rejected with an error, or leaves
  nothing; the commands and the errors come in the order of their rows. No two commands come from
  one row (`nodup_contexts`), so that a command that is put in to close others, which stands in
  the row of one of them, can be told from the commands of rows (`closing_not_made`).
-/

namespace VisualNovel.Scenario

open Command (Factory Settings)
open Table (CellTable Row)

/-! ## Commands and errors -/

/-- The rows that make commands, with the commands. -/
def made (f : Factory) (s : Settings) (rows : List Row) : List (Row × Command) :=
  rows.filterMap fun r =>
    if r.isEmpty then none
    else
      match f.read s r with
      | .ok (some c) => some (r, c)
      | _ => none

/-- The rows that cannot be read, with what is wrong with them. -/
def rejected (f : Factory) (s : Settings) (rows : List Row) : List (Row × Error) :=
  rows.filterMap fun r =>
    if r.isEmpty then none
    else
      match f.read s r with
      | .error e => some (r, e)
      | _ => none

theorem commandsOf_readRows (f : Factory) (s : Settings) (rows : List Row) :
    commandsOf (readRows f s rows) = (made f s rows).map Prod.snd := by
  unfold commandsOf readRows made
  rw [List.filterMap_filterMap, List.map_filterMap]
  congr 1
  funext r
  cases r.isEmpty with
  | true => rfl
  | false =>
    cases f.read s r with
    | error e => rfl
    | ok c? => cases c? <;> rfl

/-- The error in the place of a command. -/
def error? : Except Error Command → Option Error
  | .error e => some e
  | .ok _ => none

theorem errors_readRows (f : Factory) (s : Settings) (rows : List Row) :
    (readRows f s rows).filterMap error? = (rejected f s rows).map Prod.snd := by
  unfold readRows rejected
  rw [List.filterMap_filterMap, List.map_filterMap]
  congr 1
  funext r
  cases r.isEmpty with
  | true => rfl
  | false =>
    cases f.read s r with
    | error e => rfl
    | ok c? => cases c? <;> rfl

section

variable {f : Factory} {s : Settings} {rows : List Row}

theorem read_of_made {p : Row × Command} (hp : p ∈ made f s rows) :
    p.1 ∈ rows ∧ f.read s p.1 = .ok (some p.2) := by
  obtain ⟨r, hrow, hr⟩ := List.mem_filterMap.mp hp
  split at hr
  · cases hr
  · split at hr
    · rename_i c hread
      obtain rfl := Option.some.inj hr
      exact ⟨hrow, hread⟩
    · cases hr

theorem read_of_rejected {p : Row × Error} (hp : p ∈ rejected f s rows) :
    p.1 ∈ rows ∧ f.read s p.1 = .error p.2 := by
  obtain ⟨r, hrow, hr⟩ := List.mem_filterMap.mp hp
  split at hr
  · cases hr
  · split at hr
    · rename_i e hread
      obtain rfl := Option.some.inj hr
      exact ⟨hrow, hread⟩
    · cases hr

/-- A command of rows was read from one. -/
theorem read_of_mem {c : Command} (hc : c ∈ commandsOf (readRows f s rows)) :
    ∃ r ∈ rows, f.read s r = .ok (some c) := by
  rw [commandsOf_readRows] at hc
  obtain ⟨p, hp, rfl⟩ := List.mem_map.mp hc
  exact ⟨p.1, read_of_made hp⟩

theorem context_of_made : ∀ p ∈ made f s rows, p.2.context = p.1.context :=
  fun _ hp => Factory.read_context (read_of_made hp).2

/-- A row that is rejected is so with an error about it, or with the one that the game's own reader
    of the row gives. -/
theorem faults_of_rejected : ∀ p ∈ rejected f s rows,
    p.2.row? = some p.1.context ∨ f.Refuses s p.1 p.2 :=
  fun _ hp => Factory.read_faults (read_of_rejected hp).2

/-- What closes the rows of a command names no label. -/
theorem closing_namesLabel {c d : Command} (hc : c ∈ commandsOf (readRows f s rows))
    (hd : c.closing? = some d) : d.action.namesLabel = false := by
  obtain ⟨r, -, hread⟩ := read_of_mem hc
  obtain ⟨a, ha, rfl⟩ := Option.map_eq_some_iff.mp hd
  exact Factory.read_closes hread a ha

end

/-! ## Places -/

/-- The rows that make commands are rows of the table, in their order. -/
theorem fst_made_sublist (f : Factory) (settings : Settings) (rows : List Row) :
    ((made f settings rows).map Prod.fst).Sublist rows := by
  induction rows with
  | nil => exact List.nil_sublist _
  | cons r rows ih =>
    unfold made at ih ⊢
    rw [List.filterMap_cons]
    split
    · exact ih.cons r
    · rename_i p hp
      have hr : p.1 = r := by
        split at hp
        · cases hp
        · split at hp
          · exact congrArg Prod.fst (Option.some.inj hp).symm
          · cases hp
      rw [List.map_cons, hr]
      exact ih.cons_cons r

theorem row?_eq_some {t : CellTable} {i : Nat} {r : Row} (h : t.row? i = some r) :
    r.table = t ∧ r.index = i := by
  unfold CellTable.row? at h
  split at h
  · obtain rfl := Option.some.inj h
    exact ⟨rfl, rfl⟩
  · cases h

theorem contexts_eq (f : Factory) (settings : Settings) (t : CellTable) :
    (commandsOf (readRows f settings t.dataRows)).map Command.context =
      ((made f settings t.dataRows).map Prod.fst).map Row.context := by
  rw [commandsOf_readRows, List.map_map, List.map_map]
  exact List.map_congr_left context_of_made

/-- No two commands come from one row. -/
theorem nodup_contexts (f : Factory) (settings : Settings) (t : CellTable) :
    ((commandsOf (readRows f settings t.dataRows)).map Command.context).Nodup := by
  have hindices : t.dataIndices.Pairwise (· < ·) := List.pairwise_lt_range'
  have hrows : t.dataRows.Pairwise fun r r' => r.context ≠ r'.context := by
    refine hindices.filterMap _ fun i j hlt r hr r' hr' h => ?_
    have hnumber : r.index + 1 = r'.index + 1 := congrArg RowContext.row h
    rw [(row?_eq_some hr).2, (row?_eq_some hr').2] at hnumber
    omega
  rw [contexts_eq]
  exact List.pairwise_map.mpr (hrows.sublist (fst_made_sublist f settings t.dataRows))

theorem table_of_command {f : Factory} {settings : Settings} {t : CellTable} {c : Command}
    (hc : c ∈ commandsOf (readRows f settings t.dataRows)) : c.context.table = t.name := by
  have hcontext := List.mem_map_of_mem (f := Command.context) hc
  rw [contexts_eq] at hcontext
  obtain ⟨r, hr, hrow⟩ := List.mem_map.mp hcontext
  obtain ⟨i, -, hi⟩ := List.mem_filterMap.mp ((fst_made_sublist f settings _).subset hr)
  rw [← hrow, Row.context, (row?_eq_some hi).1]

/-- No action closes its own rows, as it has the one that does in itself. -/
theorem closing?_ne_self (a : Command.Action) : a.closing? ≠ some a := by
  intro h
  cases a with
  | host action =>
    have hsize := congrArg sizeOf (show action.closing? = some (.host action) from h)
    obtain ⟨tag, resources, mark, isConditional, closing?⟩ := action
    simp only [Command.Action.host.sizeOf_spec, Command.HostAction.mk.sizeOf_spec,
      Option.some.sizeOf_spec] at hsize
    omega
  | _ => cases h

/-- What closes the rows of a command is not itself the command of a row. -/
theorem closing_not_made {f : Factory} {settings : Settings} {t : CellTable} {c d : Command}
    (hc : c ∈ commandsOf (readRows f settings t.dataRows)) (hd : c.closing? = some d) :
    d ∉ commandsOf (readRows f settings t.dataRows) := by
  intro hmade
  obtain ⟨a, ha, rfl⟩ := Option.map_eq_some_iff.mp hd
  have hsame : (⟨c.context, a⟩ : Command) = c :=
    List.inj_on_of_nodup_map (nodup_contexts f settings t) hmade hc rfl
  rw [← hsame] at ha
  exact closing?_ne_self a ha

end VisualNovel.Scenario
