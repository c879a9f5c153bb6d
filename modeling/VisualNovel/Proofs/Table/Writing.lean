import VisualNovel.Table.Delimited

/-
  Writing delimited text. A cell is written in quotes, or as it is if it has nothing in it that
  means something outside of them; either way of it, and either end of a line, may be chosen anew
  each time (`Written`). Whatever is chosen, the text is read as the rows that were written, and
  rows can be written unless one of them has no cell (`tokenize_written`).
-/

namespace VisualNovel.Table

variable {d : Delimiter}

/-! ## Written rows -/

/-- Whether a character means something outside quotes. -/
def isMark (d : Delimiter) (c : Char) : Bool := c == d.char || c == '"' || isLineEnd c

/-- A character within quotes. -/
def double (c : Char) : List Char := if c = '"' then ['"', '"'] else [c]

/-- A text in quotes. -/
def inQuotes (text : List Char) : List Char := '"' :: (text.flatMap double ++ ['"'])

/-- The ways to write a cell: in quotes, or as it is if it holds no mark. -/
inductive WrittenCell (d : Delimiter) (cell : String) : List Char → Prop
  | quoted : WrittenCell d cell (inQuotes cell.toList)
  | plain (h : ∀ c ∈ cell.toList, isMark d c = false) : WrittenCell d cell cell.toList

/-- The ways to write a row, of at least one cell. -/
inductive WrittenRow (d : Delimiter) : List String → List Char → Prop
  | last {cell : String} {s : List Char} (h : WrittenCell d cell s) : WrittenRow d [cell] s
  | more {cell : String} {row : List String} {s t : List Char} (h : WrittenCell d cell s)
      (hrow : WrittenRow d row t) : WrittenRow d (cell :: row) (s ++ d.char :: t)

/-- The ways to end a line. -/
def LineEnd (e : List Char) : Prop := e = ['\n'] ∨ e = ['\r', '\n']

/-- The ways to write rows, one to a line. No row is written as nothing, so that the one cell of a
    row is in quotes if it is empty. The last line need not be ended. -/
inductive Written (d : Delimiter) : List (List String) → List Char → Prop
  | nothing : Written d [] []
  | unended {row : List String} {s : List Char} (h : WrittenRow d row s) (hs : s ≠ []) :
      Written d [row] s
  | line {row : List String} {rows : List (List String)} {s e t : List Char}
      (h : WrittenRow d row s) (hs : s ≠ []) (he : LineEnd e) (hrows : Written d rows t) :
      Written d (row :: rows) (s ++ (e ++ t))

theorem WrittenCell.toList_of_nil {cell : String} {s : List Char} (h : WrittenCell d cell s)
    (hs : s = []) : cell.toList = [] := by
  cases h with
  | quoted => cases hs
  | plain => exact hs

theorem WrittenRow.ne_nil {row : List String} {s : List Char} (h : WrittenRow d row s) :
    row ≠ [] := by
  cases h <;> exact List.cons_ne_nil _ _

/-! ## Reading a cell -/

theorem Delimiter.char_ne_quote (d : Delimiter) : d.char ≠ '"' := by
  cases d <;> decide

theorem Delimiter.isLineEnd_char (d : Delimiter) : isLineEnd d.char = false := by
  cases d <;> decide

theorem isMark_eq_false {c : Char} :
    isMark d c = false ↔ c ≠ d.char ∧ c ≠ '"' ∧ isLineEnd c = false := by
  simp [isMark, and_assoc]

/-- Characters that mean nothing belong to the cell. -/
theorem readRows_plain {text : List Char} (h : ∀ c ∈ text, isMark d c = false)
    (row : List (List Char)) (cell rest : List Char) :
    readRows d.char .plain row cell (text ++ rest) =
      readRows d.char .plain row (text.reverse ++ cell) rest := by
  induction text generalizing cell with
  | nil => rfl
  | cons c text ih =>
    obtain ⟨hd, -, hend⟩ := isMark_eq_false.mp (h c List.mem_cons_self)
    rw [List.cons_append, readRows, if_neg hd, hend, if_neg Bool.false_ne_true,
      ih fun e he => h e (List.mem_cons_of_mem c he)]
    simp

/-- Within quotes a quote that stands twice belongs to the cell, and so does any other character. -/
theorem readRows_doubled (text : List Char) (row : List (List Char)) (cell rest : List Char) :
    readRows d.char .quoted row cell (text.flatMap double ++ rest) =
      readRows d.char .quoted row (text.reverse ++ cell) rest := by
  induction text generalizing cell with
  | nil => rfl
  | cons c text ih =>
    by_cases hc : c = '"' <;> simp [hc, double, readRows, ih]

/-- All characters up to the closing quote belong to the cell. -/
theorem readRows_quoted (text : List Char) (row : List (List Char)) (cell rest : List Char) :
    readRows d.char .quoted row cell (text.flatMap double ++ '"' :: rest) =
      readRows d.char .closing row (text.reverse ++ cell) rest := by
  rw [readRows_doubled, readRows, if_pos rfl]

/-- A cell begins here. -/
def Place.beginsCell : Place → Bool
  | rowStart | cellStart => true
  | _ => false

theorem rowStart_beginsCell : Place.rowStart.beginsCell = true := rfl

theorem cellStart_beginsCell : Place.cellStart.beginsCell = true := rfl

/-- A cell may be at an end here. -/
def Place.endsCell : Place → Bool
  | cellStart | plain | closing => true
  | _ => false

/-- A cell is read to its end. Only a cell that is written as nothing at the start of a row leaves
    the reader where it was. -/
theorem WrittenCell.read {cell : String} {s : List Char} (h : WrittenCell d cell s)
    {place : Place} (hplace : place.beginsCell = true) (hs : place = .rowStart → s ≠ [])
    (row : List (List Char)) (rest : List Char) :
    ∃ place' : Place, place'.endsCell = true ∧
      readRows d.char place row [] (s ++ rest) =
        readRows d.char place' row cell.toList.reverse rest := by
  cases h with
  | quoted =>
    have hopened : readRows d.char place row [] (inQuotes cell.toList ++ rest) =
        readRows d.char .quoted row [] (cell.toList.flatMap double ++ '"' :: rest) := by
      have hquote : isLineEnd '"' = false := rfl
      cases place with
      | rowStart | cellStart => simp [inQuotes, readRows, hquote]
      | _ => cases hplace
    refine ⟨.closing, rfl, ?_⟩
    rw [hopened, readRows_quoted, List.append_nil]
  | plain hmarks =>
    cases htext : cell.toList with
    | nil =>
      cases place with
      | rowStart => exact absurd htext (hs rfl)
      | cellStart => exact ⟨.cellStart, rfl, rfl⟩
      | _ => cases hplace
    | cons c text =>
      rw [htext] at hmarks
      obtain ⟨hd, hquote, hend⟩ := isMark_eq_false.mp (hmarks c List.mem_cons_self)
      have hbegun : readRows d.char place row [] (c :: text ++ rest) =
          readRows d.char .plain row [c] (text ++ rest) := by
        cases place with
        | rowStart | cellStart => simp [readRows, hd, hquote, hend]
        | _ => cases hplace
      refine ⟨.plain, rfl, ?_⟩
      rw [hbegun, readRows_plain fun e he => hmarks e (List.mem_cons_of_mem c he),
        List.reverse_cons]

/-- Behind a delimiter the next cell begins. -/
theorem readRows_delimiter {place : Place} (hplace : place.endsCell = true)
    (row : List (List Char)) (cell rest : List Char) :
    readRows d.char place row cell (d.char :: rest) =
      readRows d.char .cellStart (cell.reverse :: row) [] rest := by
  cases place with
  | cellStart | plain | closing => simp [readRows, d.char_ne_quote]
  | _ => cases hplace

/-! ## Reading rows -/

/-- A row is over here: at the end of a line, or of the text. -/
def EndsRow (rest : List Char) : Prop := ∀ c, rest.head? = some c → isLineEnd c = true

/-- Ends of lines before a row are passed over. -/
theorem readRows_lineEnd {e : List Char} (he : LineEnd e) (rest : List Char) :
    readRows d.char .rowStart [] [] (e ++ rest) = readRows d.char .rowStart [] [] rest := by
  rcases he with rfl | rfl <;> rfl

theorem LineEnd.endsRow {e : List Char} (he : LineEnd e) (rest : List Char) :
    EndsRow (e ++ rest) := by
  rcases he with rfl | rfl <;> exact fun c hc => Option.some.inj hc ▸ rfl

/-- At the end of a row its last cell is at an end. -/
theorem readRows_endsRow {place : Place} (hplace : place.endsCell = true) {rest : List Char}
    (hrest : EndsRow rest) (row : List (List Char)) (cell : List Char) :
    readRows d.char place row cell rest =
      (cell.reverse :: row).reverse :: readRows d.char .rowStart [] [] rest := by
  cases rest with
  | nil =>
    have hbegun : place ≠ .rowStart := by
      rintro rfl
      cases hplace
    rw [readRows_nil hbegun]
    rfl
  | cons c rest =>
    have hend : isLineEnd c = true := hrest c rfl
    have hd : c ≠ d.char := by
      rintro rfl
      rw [d.isLineEnd_char] at hend
      cases hend
    have hquote : c ≠ '"' := by
      rintro rfl
      cases hend
    cases place with
    | cellStart | plain | closing => simp [readRows, hend, hd, hquote]
    | _ => cases hplace

/-- A row is read to its end. -/
theorem WrittenRow.read {cells : List String} {s : List Char} (h : WrittenRow d cells s)
    {place : Place} (hplace : place.beginsCell = true) (hs : place = .rowStart → s ≠ [])
    (row : List (List Char)) {rest : List Char} (hrest : EndsRow rest) :
    readRows d.char place row [] (s ++ rest) =
      (row.reverse ++ cells.map String.toList) :: readRows d.char .rowStart [] [] rest := by
  induction h generalizing place row with
  | last h =>
    obtain ⟨place', hplace', hread⟩ := h.read hplace hs row rest
    rw [hread, readRows_endsRow hplace' hrest]
    simp
  | @more cell cells s t h hcells ih =>
    -- the row goes on in the place where the next cell begins, whatever the cell is written as
    have hnext : readRows d.char place row [] (s ++ d.char :: (t ++ rest)) =
        readRows d.char .cellStart (cell.toList :: row) [] (t ++ rest) := by
      by_cases hempty : place = .rowStart ∧ s = []
      · obtain ⟨rfl, rfl⟩ := hempty
        simp [readRows, d.isLineEnd_char, d.char_ne_quote, h.toList_of_nil rfl]
      · obtain ⟨place', hplace', hread⟩ :=
          h.read hplace (fun hp he => hempty ⟨hp, he⟩) row (d.char :: (t ++ rest))
        rw [hread, readRows_delimiter hplace', List.reverse_reverse]
    rw [List.append_assoc, List.cons_append, hnext, ih cellStart_beginsCell fun h => by cases h]
    simp

/-- Rows are read one after the other. -/
theorem Written.read {rows : List (List String)} {s : List Char} (h : Written d rows s) :
    readRows d.char .rowStart [] [] s = rows.map (List.map String.toList) := by
  induction h with
  | nothing => rfl
  | unended h hs =>
    have hend : EndsRow [] := fun c hc => nomatch hc
    have hread := h.read rowStart_beginsCell (fun _ => hs) [] hend
    rw [List.append_nil] at hread
    exact hread
  | line h hs he hrows ih =>
    rw [h.read rowStart_beginsCell (fun _ => hs) [] (he.endsRow _), readRows_lineEnd he, ih]
    rfl

/-! ## Every choice -/

/-- A row of cells can be written. -/
theorem exists_writtenRow (d : Delimiter) {row : List String} (h : row ≠ []) :
    ∃ s, WrittenRow d row ('"' :: s) := by
  induction row with
  | nil => exact absurd rfl h
  | cons cell row ih =>
    cases row with
    | nil => exact ⟨_, .last .quoted⟩
    | cons next row =>
      obtain ⟨s, hs⟩ := ih (List.cons_ne_nil next row)
      exact ⟨_, .more .quoted hs⟩

/-- Rows can be written, without a mark at the start of the text, if each has a cell. -/
theorem exists_written (d : Delimiter) {rows : List (List String)} :
    (∃ s, Written d rows s ∧ s.head? ≠ some byteOrderMark) ↔ ∀ row ∈ rows, row ≠ [] := by
  constructor
  · rintro ⟨s, h, -⟩
    induction h with
    | nothing => exact fun _ h => absurd h List.not_mem_nil
    | unended h => exact List.forall_mem_singleton.mpr h.ne_nil
    | line h _ _ _ ih => exact List.forall_mem_cons.mpr ⟨h.ne_nil, ih⟩
  · intro h
    induction rows with
    | nil => exact ⟨[], .nothing, by simp⟩
    | cons row rows ih =>
      obtain ⟨hrow, hrows⟩ := List.forall_mem_cons.mp h
      obtain ⟨s, hs⟩ := exists_writtenRow d hrow
      obtain ⟨t, ht, -⟩ := ih hrows
      exact ⟨_, .line hs (List.cons_ne_nil _ _) (Or.inl rfl) ht, by simp [byteOrderMark]⟩

/-- Reading undoes writing. Rows are written by choosing for every cell whether it stands in quotes
    and for every line how it ends, as long as the text does not begin with a byte order mark, which
    a first cell that has one has to be quoted for. Every such text is read as the rows that were
    written, with their cells unchanged, and there is one unless a row has no cell. -/
theorem tokenize_written (d : Delimiter) (rows : List (List String)) :
    (∀ text : String, Written d rows text.toList → text.toList.head? ≠ some byteOrderMark →
      tokenize d text = rows) ∧
    ((∃ text : String, Written d rows text.toList ∧ text.toList.head? ≠ some byteOrderMark) ↔
      ∀ row ∈ rows, row ≠ []) := by
  constructor
  · intro text h hmark
    have hunmarked : dropMark text.toList = text.toList := by
      cases hlist : text.toList with
      | nil => rfl
      | cons c rest => exact if_neg fun hc => hmark (by rw [hlist, hc]; rfl)
    have hcells : List.map String.ofList ∘ List.map String.toList = id := by
      funext row
      simp
    rw [tokenize, hunmarked, h.read, List.map_map, hcells, List.map_id]
  · rw [← exists_written d]
    constructor
    · rintro ⟨text, h⟩
      exact ⟨text.toList, h⟩
    · rintro ⟨s, h⟩
      exact ⟨String.ofList s, by simpa using h⟩

/-- A byte order mark and a line break in quotes, both ends of a line, a row of one empty cell,
    doubled quotes, and an empty cell that ends the text. -/
theorem quoted_marks_are_read :
    let rows := [["\uFEFFa\nb", "c d"], [""], ["say \"hi\"", ""]]
    let text := "\"\uFEFFa\nb\",c d\r\n\"\"\n\"say \"\"hi\"\"\","
    Written .comma rows text.toList ∧ tokenize .comma text = rows := by
  intro rows text
  have htext : text.toList = (inQuotes "\uFEFFa\nb".toList ++ ',' :: "c d".toList) ++
      (['\r', '\n'] ++ (inQuotes "".toList ++
        (['\n'] ++ (inQuotes "say \"hi\"".toList ++ ',' :: "".toList)))) := by decide +kernel
  have hwritten : Written .comma rows text.toList := by
    have hplain : ∀ c ∈ "c d".toList, isMark .comma c = false := by
      simp [isMark, isLineEnd, Delimiter.char]
    have hempty : ∀ c ∈ "".toList, isMark .comma c = false := by simp
    rw [htext]
    exact .line (.more .quoted (.last (.plain hplain))) (by decide +kernel) (Or.inr rfl)
      (.line (.last .quoted) (by decide +kernel) (Or.inl rfl)
        (.unended (.more .quoted (.last (.plain hempty))) (by decide +kernel)))
  exact ⟨hwritten, (tokenize_written .comma rows).1 text hwritten (by decide +kernel)⟩

end VisualNovel.Table
