import Mathlib.Data.List.Induction
import Mathlib.Data.List.TakeWhile
import VisualNovel.Proofs.Command.Labels
import VisualNovel.Proofs.Entries
import VisualNovel.Table.Typed

/-
  Cells by the names of their columns. A name stands for the first header cell that has it, blanks
  around it left aside (`columnIndex?_eq_some`). So a row says one of three things under a name:
  the column is not declared, the row has nothing but blanks there, or a text (`cell?_eq_some`).
  Which one it is, and how the text reads, is all that the ways of asking for a value depend on
  (`cells_are_read_by_name`).
-/

namespace VisualNovel

namespace Text

variable {p : Char → Bool} {s : List Char}

theorem trimList_eq_nil : trimList p s = [] ↔ ∀ c ∈ s, p c = true := by
  rw [trimList, List.reverse_eq_nil_iff, List.dropWhile_eq_nil_iff]
  constructor
  · intro hrest
    rw [← List.dropWhile_eq_nil_iff]
    -- what the dropping from the front stops at would be dropped from behind
    have hhead := List.head?_dropWhile_not p s
    cases hdrop : s.dropWhile p with
    | nil => rfl
    | cons c rest =>
      rw [hdrop] at hhead hrest
      have hc : p c = true := hrest c (by simp)
      rw [List.head?_cons] at hhead
      simp [hc] at hhead
  · intro hall c hc
    exact hall c ((List.dropWhile_suffix p).subset (List.mem_reverse.mp hc))

/-- A text is blank if nothing of it is left by trimming. -/
theorem trim_eq_empty (s : String) : trim s = "" ↔ isBlankText s = true := by
  rw [← String.toList_eq_nil_iff, toList_trim, trimList_eq_nil, isBlankText, List.all_eq_true]

end Text

namespace Table

open Text

variable {t : CellTable} {name : String} {i : Nat}

/-! ## Columns -/

/-- The cells that name the columns; none if the table does not reach its header. -/
def CellTable.headerCells (t : CellTable) : List String := (t.rows[t.headerRow]?).getD []

/-- The header cell at the position is the first with this name. A blank is no name. -/
structure CellTable.Heads (t : CellTable) (name : String) (i : Nat) : Prop where
  name_ne : name ≠ ""
  named : t.headerCells[i]?.map trim = some name
  first : ∀ j < i, t.headerCells[j]?.map trim ≠ some name

/-- A header cell puts its name into the index where the name is not there yet. -/
theorem lookup_add (index : HeaderIndex) (cell : String × Nat) (name : String) :
    (index.add cell).lookup name =
      (index.lookup name).or (if name ≠ "" ∧ trim cell.1 = name then some cell.2 else none) := by
  unfold HeaderIndex.add
  dsimp only
  by_cases hname : trim cell.1 = name
  · rw [hname]
    by_cases hblank : name = ""
    · simp [hblank]
    rw [if_neg hblank, if_pos (c := name ≠ "" ∧ name = name) ⟨hblank, rfl⟩]
    cases hfound : index.lookup name with
    | some j => exact hfound
    | none =>
      rw [Option.isSome_none, if_neg Bool.false_ne_true, List.lookup_append, hfound]
      simp
  · have hother : (index ++ [(trim cell.1, cell.2)]).lookup name = index.lookup name := by
      rw [List.lookup_append, Entries.lookup_cons_ite, if_neg (Ne.symm hname)]
      simp
    rw [if_neg (c := name ≠ "" ∧ trim cell.1 = name) (fun h => hname h.2), Option.or_none]
    split
    · rfl
    · split
      · rfl
      · exact hother

theorem ofCells_concat (cells : List String) (cell : String) :
    HeaderIndex.ofCells (cells ++ [cell]) =
      (HeaderIndex.ofCells cells).add (cell, cells.length) := by
  rw [HeaderIndex.ofCells, List.zipIdx_append, List.foldl_append]
  simp [HeaderIndex.ofCells]

/-- The index has each name but the blank one at the first cell with it. -/
theorem lookup_ofCells (cells : List String) (name : String) :
    (HeaderIndex.ofCells cells).lookup name =
      if name = "" then none else cells.findIdx? (trim · = name) := by
  induction cells using List.reverseRecOn with
  | nil => split <;> rfl
  | append_singleton cells cell ih =>
    rw [ofCells_concat, lookup_add, ih]
    by_cases hname : name = ""
    · simp [hname]
    · simp [hname, List.findIdx?_append, List.findIdx?_singleton]

/-- The index of the table is that of its header row. -/
def CellTable.HasIndex (t : CellTable) : Prop := t.header = HeaderIndex.ofCells t.headerCells

theorem hasIndex_parseHeader (t : CellTable) : t.parseHeader.HasIndex := rfl

theorem hasIndex_withHeaderRow (t : CellTable) (row : Nat) : (t.withHeaderRow row).HasIndex := rfl

/-- Where the index is that of the header row, reading the header again changes nothing. -/
theorem CellTable.HasIndex.parseHeader (ht : t.HasIndex) : t.parseHeader = t := by
  obtain ⟨name, rows, headerRow, header⟩ := t
  exact congrArg (CellTable.mk name rows headerRow) ht.symm

/-- A position is found under a name if the header cell there is the first with it. -/
theorem columnIndex?_eq_some (ht : t.HasIndex) : t.columnIndex? name = some i ↔ t.Heads name i := by
  have hnamed : ∀ j, t.headerCells[j]?.map trim = some name ↔
      ∃ h : j < t.headerCells.length, trim t.headerCells[j] = name := fun j => by
    simp [List.getElem?_eq_some_iff]
  rw [CellTable.columnIndex?, ht, lookup_ofCells]
  constructor
  · intro h
    by_cases hname : name = ""
    · rw [if_pos hname] at h
      cases h
    rw [if_neg hname, List.findIdx?_eq_some_iff_getElem] at h
    obtain ⟨hi, hcell, hfirst⟩ := h
    refine ⟨hname, (hnamed i).mpr ⟨hi, of_decide_eq_true hcell⟩, fun j hj hother => ?_⟩
    obtain ⟨hj', hcell'⟩ := (hnamed j).mp hother
    exact hfirst j hj (decide_eq_true hcell')
  · intro h
    obtain ⟨hi, hcell⟩ := (hnamed i).mp h.named
    rw [if_neg h.name_ne, List.findIdx?_eq_some_iff_getElem]
    exact ⟨hi, decide_eq_true hcell, fun j hj hcell' =>
      h.first j hj ((hnamed j).mpr ⟨_, of_decide_eq_true hcell'⟩)⟩

/-! ## Cells -/

namespace Row

variable {r : Row} {column raw : String}

/-- The column is not declared. -/
def Undeclared (r : Row) (column : String) : Prop := ∀ i, ¬r.table.Heads column i

/-- The row does not reach the column, or has nothing but blanks there. -/
def Lacks (r : Row) (column : String) : Prop :=
  ∃ i, r.table.Heads column i ∧ ∀ raw, r.cells[i]? = some raw → trim raw = ""

/-- The row has this text in the column, not only blanks. -/
def Holds (r : Row) (column raw : String) : Prop :=
  ∃ i, r.table.Heads column i ∧ r.cells[i]? = some raw ∧ trim raw ≠ ""

/-- A row says one of three things about a column. -/
theorem trichotomy (r : Row) (column : String) :
    r.Undeclared column ∨ r.Lacks column ∨ ∃ raw, r.Holds column raw := by
  by_cases hdeclared : ∃ i, r.table.Heads column i
  · obtain ⟨i, hi⟩ := hdeclared
    by_cases htext : ∃ raw, r.cells[i]? = some raw ∧ trim raw ≠ ""
    · obtain ⟨raw, hraw⟩ := htext
      exact Or.inr (Or.inr ⟨raw, i, hi, hraw⟩)
    · refine Or.inr (Or.inl ⟨i, hi, fun raw hraw => ?_⟩)
      by_contra hblank
      exact htext ⟨raw, hraw, hblank⟩
  · exact Or.inl fun i hi => hdeclared ⟨i, hi⟩

/-- The cell at a declared column, unless it is blank. -/
theorem cell?_of_heads (hr : r.table.HasIndex) {i : Nat} (hi : r.table.Heads column i) :
    r.cell? column = r.cells[i]?.bind fun text => if trim text = "" then none else some text := by
  rw [cell?, (columnIndex?_eq_some hr).mpr hi]
  simp only [Option.bind_some, trim_eq_empty]

theorem cell?_of_holds (hr : r.table.HasIndex) (h : r.Holds column raw) :
    r.cell? column = some raw := by
  obtain ⟨i, hi, hraw, hblank⟩ := h
  rw [cell?_of_heads hr hi, hraw, Option.bind_some, if_neg hblank]

theorem cell?_of_lacks (hr : r.table.HasIndex) (h : r.Lacks column) : r.cell? column = none := by
  obtain ⟨i, hi, hblank⟩ := h
  rw [cell?_of_heads hr hi, Option.bind_eq_none_iff]
  exact fun text htext => if_pos (hblank text htext)

theorem columnIndex?_of_undeclared (hr : r.table.HasIndex) (h : r.Undeclared column) :
    r.table.columnIndex? column = none :=
  Option.eq_none_iff_forall_ne_some.mpr fun i hi => h i ((columnIndex?_eq_some hr).mp hi)

theorem cell?_of_undeclared (hr : r.table.HasIndex) (h : r.Undeclared column) :
    r.cell? column = none := by
  rw [cell?, columnIndex?_of_undeclared hr h, Option.bind_none]

/-- A cell is found with the text that the row has in the column. -/
theorem cell?_eq_some (hr : r.table.HasIndex) : r.cell? column = some raw ↔ r.Holds column raw := by
  refine ⟨fun h => ?_, cell?_of_holds hr⟩
  rcases r.trichotomy column with hnone | hlacks | ⟨text, hholds⟩
  · cases (cell?_of_undeclared hr hnone).symm.trans h
  · cases (cell?_of_lacks hr hlacks).symm.trans h
  · obtain rfl := Option.some.inj ((cell?_of_holds hr hholds).symm.trans h)
    exact hholds

/-! ## Values -/

variable {α : Type} [CellValue α]

/-- What comes of reading a cell that has to be there. -/
inductive Reads (r : Row) (column : String) : Except Error α → Prop
  | missing (h : r.Undeclared column) :
      Reads r column (.error (.table (.missingColumn r.context column)))
  | empty (h : r.Lacks column) : Reads r column (.error (.table (.emptyCell r.context column)))
  | unparseable {raw : String} (h : r.Holds column raw)
      (hraw : (CellValue.ofCell? raw : Option α) = none) :
      Reads r column
        (.error (.table (.unparseable r.context column raw (CellValue.typeName α))))
  | value {raw : String} {v : α} (h : r.Holds column raw) (hraw : CellValue.ofCell? raw = some v) :
      Reads r column (.ok v)

theorem parse_of_holds (hr : r.table.HasIndex) (h : r.Holds column raw) :
    (r.parse column : Except Error α) = r.convert column raw := by
  have hcell := cell?_of_holds hr h
  obtain ⟨i, hi, -⟩ := h
  rw [parse, (columnIndex?_eq_some hr).mpr hi, hcell]

theorem parse_of_reads (hr : r.table.HasIndex) {result : Except Error α}
    (h : Reads r column result) : r.parse column = result := by
  cases h with
  | missing h => rw [parse, columnIndex?_of_undeclared hr h]
  | empty h =>
    have hcell := cell?_of_lacks hr h
    obtain ⟨i, hi, -⟩ := h
    rw [parse, (columnIndex?_eq_some hr).mpr hi, hcell]
  | unparseable h hraw | value h hraw => rw [parse_of_holds hr h, convert, hraw]

theorem reads_parse (hr : r.table.HasIndex) (column : String) :
    Reads r column (r.parse column : Except Error α) := by
  have hsome : ∃ result : Except Error α, Reads r column result := by
    rcases r.trichotomy column with h | h | ⟨raw, h⟩
    · exact ⟨_, .missing h⟩
    · exact ⟨_, .empty h⟩
    · cases hraw : (CellValue.ofCell? raw : Option α) with
      | none => exact ⟨_, .unparseable h hraw⟩
      | some v => exact ⟨_, .value h hraw⟩
  obtain ⟨result, hresult⟩ := hsome
  exact parse_of_reads hr hresult ▸ hresult

/-- How the ways of asking for a value go together. -/
structure Access (α : Type) [CellValue α] (r : Row) (column : String) : Prop where
  parse : ∀ result : Except Error α, r.parse column = result ↔ Reads r column result
  /-- The default stands for what is not there, and for nothing else. -/
  absent : r.Undeclared column ∨ r.Lacks column → ∀ d : α, r.parseOptional column d = .ok d
  present : ¬(r.Undeclared column ∨ r.Lacks column) → ∀ d : α,
    r.parseOptional column d = r.parse column
  tried : (r.tryParse column : Option α) = (r.parse column : Except Error α).toOption

theorem access (hr : r.table.HasIndex) : Access α r column where
  parse result := ⟨fun h => h ▸ reads_parse hr column, parse_of_reads hr⟩
  absent h d := by
    have hcell : r.cell? column = none := h.elim (cell?_of_undeclared hr) (cell?_of_lacks hr)
    rw [parseOptional, hcell]
  present h d := by
    rcases r.trichotomy column with hnone | hlacks | ⟨raw, hholds⟩
    · exact absurd (Or.inl hnone) h
    · exact absurd (Or.inr hlacks) h
    · rw [parseOptional, cell?_of_holds hr hholds, parse_of_holds hr hholds]
  tried := by
    have hreads := reads_parse (α := α) hr column
    generalize (r.parse column : Except Error α) = result at hreads
    cases hreads with
    | missing h => rw [tryParse, cell?_of_undeclared hr h]; rfl
    | empty h => rw [tryParse, cell?_of_lacks hr h]; rfl
    | unparseable h hraw | value h hraw =>
      rw [tryParse, cell?_of_holds hr h, Option.bind_some, hraw]
      rfl

end Row

/-- In a table with any of its rows as the header, or with none, a column is found at the first
    header cell with its name, and what a row has there is all that its cell is read from. Reading
    the header again changes nothing. -/
theorem cells_are_read_by_name (t : CellTable) (headerRow : Nat) :
    let u := t.withHeaderRow headerRow
    (∀ name i, u.columnIndex? name = some i ↔ u.Heads name i) ∧
    (∀ r : Row, r.table = u → ∀ column,
      (∀ raw, r.cell? column = some raw ↔ r.Holds column raw) ∧
      ∀ (α : Type) [CellValue α], Row.Access α r column) ∧
    u.parseHeader = u ∧ u.withHeaderRow headerRow = u ∧
    t.parseHeader.parseHeader = t.parseHeader ∧
    ∀ name rows, (CellTable.ofRows name rows).withHeaderRow 0 = CellTable.ofRows name rows := by
  intro u
  have hu : u.HasIndex := hasIndex_withHeaderRow t headerRow
  refine ⟨fun name i => columnIndex?_eq_some hu, fun r hr column => ?_, hu.parseHeader, ?_,
    (hasIndex_parseHeader t).parseHeader, fun name rows => ?_⟩
  · have htable : r.table.HasIndex := hr ▸ hu
    exact ⟨fun raw => Row.cell?_eq_some htable, fun α _ => Row.access htable⟩
  · rfl
  · rfl

/-! ## A header with blanks -/

/-- A table with a title above a header that has a blank cell, blanks around a name, and that name
    once more. -/
def titled : CellTable :=
  .ofRows "t" [["title"], ["Command", "", " Text ", "Text", "Arg1"], ["Wait", "x", " a ", "b", " "],
    ["Bg"]]

/-- The first of the two names counts, and its cell is read with its blanks. -/
theorem first_name_counts :
    let u := titled.withHeaderRow 1
    let full : Row := ⟨u, 2, by decide⟩
    let short : Row := ⟨u, 3, by decide⟩
    u.columnIndex? "Text" = some 2 ∧ u.columnIndex? "" ≠ some 1 ∧
      full.cell? "Text" = some " a " ∧ full.parse "Text" = .ok " a " ∧
      full.tryParse "Text" = (none : Option Bool) ∧
      (full.parse "Arg1" : Except Error Int32) = .error (.table (.emptyCell ⟨"t", 3⟩ "Arg1")) ∧
      ∀ d : String, short.parseOptional "Text" d = .ok d := by
  intro u full short
  obtain ⟨hcolumns, hrows, -⟩ := cells_are_read_by_name titled 1
  have htext : u.Heads "Text" 2 := ⟨by decide +kernel, by decide +kernel, by decide +kernel⟩
  have harg : u.Heads "Arg1" 4 := ⟨by decide +kernel, by decide +kernel, by decide +kernel⟩
  have hholds : full.Holds "Text" " a " := ⟨2, htext, by decide +kernel, by decide +kernel⟩
  have hlacks : full.Lacks "Arg1" := by
    refine ⟨4, harg, fun raw hraw => ?_⟩
    obtain rfl : " " = raw := Option.some.inj hraw
    decide +kernel
  have hshort : short.Lacks "Text" := ⟨2, htext, nofun⟩
  obtain ⟨hcell, hfull⟩ := hrows full rfl "Text"
  refine ⟨(hcolumns _ _).mpr htext, fun h => ((hcolumns _ _).mp h).name_ne rfl, (hcell _).mpr hholds,
    ((hfull String).parse _).mpr (.value hholds rfl), ?_,
    (((hrows full rfl "Arg1").2 Int32).parse _).mpr (.empty hlacks),
    ((hrows short rfl "Text").2 String).absent (Or.inr hshort)⟩
  have hbool : (full.parse "Text" : Except Error Bool) = _ :=
    ((hfull Bool).parse _).mpr (.unparseable hholds (by decide +kernel))
  rw [(hfull Bool).tried, hbool]
  rfl

end Table

end VisualNovel
