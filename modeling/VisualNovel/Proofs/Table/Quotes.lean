import Mathlib.Data.List.Induction
import VisualNovel.Proofs.Table.Writing
import VisualNovel.Scenario.Files

/-
  Quotes that are not closed. A text is made of fields with the characters that end them. A field
  may begin with something in quotes; when the quotes are never closed it runs to the end of the
  text (`EndsInQuotes`), and a text that does not end like that is made of whole fields
  (`endsInQuotes_iff`). Every text is read, one with open quotes too: all behind the quote is the
  last cell of the last row (`open_quotes_take_the_rest`).
-/

namespace VisualNovel.Table

variable {d : Delimiter}

/-! ## Fields -/

/-- A field ends before such a character. -/
def endsField (d : Delimiter) (c : Char) : Bool := c == d.char || isLineEnd c

/-- What a field may begin with: nothing, or something in quotes. -/
def Opening (s : List Char) : Prop := s = [] ∨ ∃ content, s = inQuotes content

/-- What a field may go on with to its end. A quote means nothing there, unless it comes first. -/
def Unquoted (d : Delimiter) (s : List Char) : Prop :=
  s.head? ≠ some '"' ∧ ∀ c ∈ s, endsField d c = false

/-- The characters are a whole field. -/
def Field (d : Delimiter) (s : List Char) : Prop :=
  ∃ opening rest, Opening opening ∧ Unquoted d rest ∧ s = opening ++ rest

/-- The characters are whole fields, each with the character that ends it. -/
inductive Fields (d : Delimiter) : List Char → Prop
  | nil : Fields d []
  | cons {s t : List Char} {c : Char} (hs : Field d s) (hc : endsField d c = true)
      (ht : Fields d t) : Fields d (s ++ c :: t)

/-- The text ends within quotes that open a field: the quotes behind the first one come in twos. -/
def EndsInQuotes (d : Delimiter) (s : List Char) : Prop :=
  ∃ before, ∃ content : List Char, Fields d before ∧ s = before ++ '"' :: content.flatMap double

/-- The text is made of whole fields. -/
def EndsOutside (d : Delimiter) (s : List Char) : Prop :=
  ∃ before last, Fields d before ∧ Field d last ∧ s = before ++ last

theorem unquoted_nil : Unquoted d [] := ⟨by simp, by simp⟩

theorem field_nil : Field d [] := ⟨[], [], Or.inl rfl, unquoted_nil, rfl⟩

theorem Fields.concat {before s : List Char} {c : Char} (h : Fields d before) (hs : Field d s)
    (hc : endsField d c = true) : Fields d (before ++ s ++ [c]) := by
  induction h with
  | nil => simpa using Fields.cons hs hc .nil
  | cons hfirst hend _ ih => simpa using Fields.cons hfirst hend ih

/-! ## Where the reader stands -/

/-- Where the reader stands after a character outside quotes. -/
def Place.outside (d : Delimiter) (c : Char) : Place :=
  if c = d.char then .cellStart else if isLineEnd c then .rowStart else .plain

/-- Where the reader stands after a character. -/
def Place.next (d : Delimiter) (place : Place) (c : Char) : Place :=
  match place with
  | .quoted => if c = '"' then .closing else .quoted
  | .plain => .outside d c
  | _ => if c = '"' then .quoted else .outside d c

/-- Where the reader stands after some characters. -/
def Place.after (d : Delimiter) (place : Place) (s : List Char) : Place :=
  s.foldl (Place.next d) place

theorem next_quote {place : Place} (hplace : place.beginsCell = true) :
    place.next d '"' = .quoted := by
  cases place <;> simp_all [Place.next, Place.beginsCell]

theorem next_of_ne_quote {place : Place} (hplace : place ≠ .quoted) {c : Char} (hc : c ≠ '"') :
    place.next d c = .outside d c := by
  cases place <;> simp_all [Place.next]

theorem after_append (place : Place) (s t : List Char) :
    place.after d (s ++ t) = (place.after d s).after d t := List.foldl_append

theorem isLineEnd_quote : isLineEnd '"' = false := rfl

theorem outside_beginsCell {c : Char} :
    (Place.outside d c).beginsCell = endsField d c := by
  unfold Place.outside endsField
  split
  · simp_all [Place.beginsCell]
  · split <;> simp_all [Place.beginsCell]

theorem outside_of_not_endsField {c : Char} (hc : endsField d c = false) :
    Place.outside d c = .plain := by
  simp only [endsField, Bool.or_eq_false_iff, beq_eq_false_iff_ne] at hc
  rw [Place.outside, if_neg hc.1, hc.2, if_neg Bool.false_ne_true]

/-- Twice a quote, and any other character, leave the reader within quotes. -/
theorem after_doubled (content : List Char) :
    Place.after d .quoted (content.flatMap double) = .quoted := by
  induction content with
  | nil => rfl
  | cons c content ih =>
    rw [List.flatMap_cons, after_append]
    by_cases hc : c = '"' <;> simpa [hc, double, Place.after, Place.next] using ih

theorem after_plain {s : List Char} (hs : ∀ c ∈ s, endsField d c = false) :
    Place.after d .plain s = .plain := by
  induction s with
  | nil => rfl
  | cons c s ih =>
    obtain ⟨hc, hs⟩ := List.forall_mem_cons.mp hs
    rw [Place.after, List.foldl_cons, Place.next, outside_of_not_endsField hc]
    exact ih hs

/-- Outside quotes, what is unquoted leads to the plain place, or nowhere if there is nothing. -/
theorem after_unquoted {place : Place} (hplace : place ≠ .quoted) {s : List Char}
    (h : Unquoted d s) : place.after d s = place ∨ place.after d s = .plain := by
  obtain ⟨hquote, hs⟩ := h
  cases s with
  | nil => exact Or.inl rfl
  | cons c s =>
    obtain ⟨hc, hs⟩ := List.forall_mem_cons.mp hs
    have hne : c ≠ '"' := by simpa using hquote
    refine Or.inr ?_
    rw [Place.after, List.foldl_cons, next_of_ne_quote hplace hne, outside_of_not_endsField hc]
    exact after_plain hs

theorem after_inQuotes {place : Place} (hplace : place.beginsCell = true) (content : List Char) :
    place.after d (inQuotes content) = .closing := by
  rw [inQuotes, Place.after, List.foldl_cons, next_quote hplace]
  change Place.after d .quoted (content.flatMap double ++ ['"']) = .closing
  rw [after_append, after_doubled]
  rfl

/-- Within a field that is read to its end the reader stands outside quotes. -/
theorem after_field {place : Place} (hplace : place.beginsCell = true) {s : List Char}
    (h : Field d s) : place.after d s ≠ .quoted := by
  obtain ⟨opening, rest, hopening, hrest, rfl⟩ := h
  rw [after_append]
  have hopened : place.after d opening ≠ .quoted := by
    rcases hopening with rfl | ⟨content, rfl⟩
    · rintro rfl
      cases hplace
    · rw [after_inQuotes hplace]
      decide
  rcases after_unquoted hopened hrest with hafter | hafter <;> rw [hafter]
  · exact hopened
  · decide

theorem next_of_endsField {place : Place} (hplace : place ≠ .quoted) {c : Char}
    (hc : endsField d c = true) : (place.next d c).beginsCell = true := by
  have hquote : c ≠ '"' := by
    rintro rfl
    simp [endsField, isLineEnd_quote, Ne.symm d.char_ne_quote] at hc
  rw [next_of_ne_quote hplace hquote, outside_beginsCell, hc]

/-- Behind whole fields a field begins. -/
theorem after_fields {s : List Char} (h : Fields d s) {place : Place}
    (hplace : place.beginsCell = true) : (place.after d s).beginsCell = true := by
  induction h generalizing place with
  | nil => exact hplace
  | @cons s t c hs hc _ ih =>
    rw [after_append]
    exact ih (next_of_endsField (after_field hplace hs) hc)

theorem EndsInQuotes.after {s : List Char} (h : EndsInQuotes d s) :
    Place.after d .rowStart s = .quoted := by
  obtain ⟨before, content, hbefore, rfl⟩ := h
  rw [after_append, Place.after, List.foldl_cons,
    next_quote (after_fields hbefore rowStart_beginsCell)]
  exact after_doubled content

theorem EndsOutside.after {s : List Char} (h : EndsOutside d s) :
    Place.after d .rowStart s ≠ .quoted := by
  obtain ⟨before, last, hbefore, hlast, rfl⟩ := h
  rw [after_append]
  exact after_field (after_fields hbefore rowStart_beginsCell) hlast

/-- What lies behind the reader where it stands. -/
def Place.Behind (d : Delimiter) : Place → List Char → Prop
  | .rowStart, s | .cellStart, s => Fields d s
  | .plain, s => ∃ before opening rest, Fields d before ∧ Opening opening ∧ Unquoted d rest ∧
      rest ≠ [] ∧ s = before ++ (opening ++ rest)
  | .quoted, s => EndsInQuotes d s
  | .closing, s => ∃ before content, Fields d before ∧ s = before ++ inQuotes content

theorem Place.Behind.endsOutside {place : Place} {s : List Char} (h : place.Behind d s)
    (hplace : place ≠ .quoted) : EndsOutside d s := by
  cases place with
  | rowStart | cellStart => exact ⟨s, [], h, field_nil, (List.append_nil s).symm⟩
  | plain =>
    obtain ⟨before, opening, rest, hbefore, hopening, hrest, -, rfl⟩ := h
    exact ⟨before, _, hbefore, ⟨opening, rest, hopening, hrest, rfl⟩, rfl⟩
  | quoted => exact absurd rfl hplace
  | closing =>
    obtain ⟨before, content, hbefore, rfl⟩ := h
    have hlast : Field d (inQuotes content) :=
      ⟨_, [], Or.inr ⟨content, rfl⟩, unquoted_nil, (List.append_nil _).symm⟩
    exact ⟨before, _, hbefore, hlast, rfl⟩

/-- A character that ends a field makes whole fields of what lies behind the reader. -/
theorem Place.Behind.ends {place : Place} {s : List Char} (h : place.Behind d s)
    (hplace : place ≠ .quoted) {c : Char} (hc : endsField d c = true) : Fields d (s ++ [c]) := by
  obtain ⟨before, last, hbefore, hlast, rfl⟩ := h.endsOutside hplace
  exact hbefore.concat hlast hc

theorem Unquoted.concat {s : List Char} {c : Char} (h : Unquoted d s) (hs : s ≠ [] ∨ c ≠ '"')
    (hc : endsField d c = false) : Unquoted d (s ++ [c]) := by
  refine ⟨?_, List.forall_mem_append.mpr ⟨h.2, List.forall_mem_singleton.mpr hc⟩⟩
  cases s with
  | nil => simpa using hs
  | cons a s => simpa using h.1

/-- Outside quotes a character ends a field, or the field goes on with it. -/
theorem Place.Behind.outside {place : Place} {s : List Char} (h : place.Behind d s)
    (hplace : place ≠ .quoted) {c : Char}
    (hplain : endsField d c = false → Place.plain.Behind d (s ++ [c])) :
    (Place.outside d c).Behind d (s ++ [c]) := by
  cases hc : endsField d c with
  | false =>
    rw [outside_of_not_endsField hc]
    exact hplain hc
  | true =>
    have hfields := h.ends hplace hc
    have hbegins : (Place.outside d c).beginsCell = true := outside_beginsCell.trans hc
    cases hnext : Place.outside d c with
    | rowStart | cellStart => exact hfields
    | plain | quoted | closing =>
      rw [hnext] at hbegins
      cases hbegins

/-- The reader goes on by one character. -/
theorem Place.Behind.next {place : Place} {s : List Char} (h : place.Behind d s) (c : Char) :
    (place.next d c).Behind d (s ++ [c]) := by
  cases place with
  | rowStart | cellStart =>
    have hfields : Fields d s := h
    by_cases hc : c = '"'
    · subst hc
      exact ⟨s, [], hfields, rfl⟩
    · rw [next_of_ne_quote (by decide) hc]
      exact h.outside (by decide) fun hend => ⟨s, [], [c], hfields, Or.inl rfl,
        unquoted_nil.concat (Or.inr hc) hend, List.cons_ne_nil _ _, rfl⟩
  | plain =>
    refine h.outside (by decide) fun hend => ?_
    obtain ⟨before, opening, rest, hbefore, hopening, hrest, hne, rfl⟩ := h
    exact ⟨before, opening, rest ++ [c], hbefore, hopening, hrest.concat (Or.inl hne) hend,
      by simp, by simp⟩
  | quoted =>
    obtain ⟨before, content, hbefore, rfl⟩ := h
    by_cases hc : c = '"'
    · subst hc
      exact ⟨before, content, hbefore, by simp [inQuotes]⟩
    · rw [Place.next, if_neg hc]
      exact ⟨before, content ++ [c], hbefore, by simp [double, hc]⟩
  | closing =>
    by_cases hc : c = '"'
    · subst hc
      obtain ⟨before, content, hbefore, rfl⟩ := h
      exact ⟨before, content ++ ['"'], hbefore, by simp [inQuotes, double]⟩
    · rw [next_of_ne_quote (by decide) hc]
      refine h.outside (by decide) fun hend => ?_
      obtain ⟨before, content, hbefore, rfl⟩ := h
      exact ⟨before, inQuotes content, [c], hbefore, Or.inr ⟨content, rfl⟩,
        unquoted_nil.concat (Or.inr hc) hend, List.cons_ne_nil _ _, by simp⟩

theorem behind_after (s : List Char) : (Place.after d .rowStart s).Behind d s := by
  induction s using List.reverseRecOn with
  | nil => exact Fields.nil
  | append_singleton s c ih =>
    rw [after_append]
    exact ih.next c

/-- A text ends in quotes, or it is made of whole fields, never both. -/
theorem endsInQuotes_iff {s : List Char} : EndsInQuotes d s ↔ ¬ EndsOutside d s := by
  refine ⟨fun h houtside => houtside.after h.after, fun h => ?_⟩
  have hbehind := behind_after (d := d) s
  cases hplace : Place.after d .rowStart s with
  | quoted =>
    rw [hplace] at hbehind
    exact hbehind
  | _ => exact absurd (hbehind.endsOutside (by rw [hplace]; decide)) h

/-! ## Reading -/

/-- What the reader has of a row and of a cell fits the place where it stands. -/
structure Place.Holds (place : Place) (row : List (List Char)) (cell : List Char) : Prop where
  row : place = .rowStart → row = []
  cell : place.beginsCell = true → cell = []

theorem holds_start {place : Place} (row : List (List Char)) (hplace : place ≠ .rowStart) :
    place.Holds row [] := ⟨fun h => absurd h hplace, fun _ => rfl⟩

theorem holds_within {place : Place} (row : List (List Char)) (cell : List Char)
    (hplace : place = .plain ∨ place = .quoted ∨ place = .closing) : place.Holds row cell := by
  rcases hplace with rfl | rfl | rfl <;> exact ⟨nofun, nofun⟩

/-- Outside quotes a character ends the cell, or the row with it, or belongs to the cell. -/
theorem readRows_outside {place : Place} {row : List (List Char)} {cell : List Char}
    (h : place.Holds row cell) (hplace : place ≠ .quoted) {c : Char}
    (hc : place = .plain ∨ c ≠ '"') :
    ∃ rows row' cell', (Place.outside d c).Holds row' cell' ∧ ∀ rest,
      readRows d.char place row cell (c :: rest) =
        rows ++ readRows d.char (Place.outside d c) row' cell' rest := by
  by_cases hd : c = d.char
  · have houtside : Place.outside d c = .cellStart := if_pos hd
    rw [houtside]
    refine ⟨[], cell.reverse :: row, [], holds_start _ (by decide), fun rest => ?_⟩
    subst hd
    cases place <;> simp_all [readRows, d.char_ne_quote, d.isLineEnd_char]
  cases hend : isLineEnd c with
  | true =>
    have houtside : Place.outside d c = .rowStart := by rw [Place.outside, if_neg hd, if_pos hend]
    rw [houtside]
    by_cases hstart : place = .rowStart
    · subst hstart
      obtain rfl := h.row rfl
      obtain rfl := h.cell rfl
      exact ⟨[], [], [], ⟨fun _ => rfl, fun _ => rfl⟩, fun rest => by simp [readRows, hend]⟩
    · refine ⟨[(cell.reverse :: row).reverse], [], [], ⟨fun _ => rfl, fun _ => rfl⟩, fun rest => ?_⟩
      cases place <;> simp_all [readRows]
  | false =>
    have houtside : Place.outside d c = .plain :=
      outside_of_not_endsField (by simp [endsField, hd, hend])
    rw [houtside]
    refine ⟨[], row, c :: cell, holds_within _ _ (Or.inl rfl), fun rest => ?_⟩
    cases place <;> simp_all [readRows]

/-- The reader goes on by one character: it may give a row, and has something of the next. -/
theorem readRows_next {place : Place} {row : List (List Char)} {cell : List Char}
    (h : place.Holds row cell) (c : Char) :
    ∃ rows row' cell', (place.next d c).Holds row' cell' ∧ ∀ rest,
      readRows d.char place row cell (c :: rest) =
        rows ++ readRows d.char (place.next d c) row' cell' rest := by
  by_cases hc : c = '"'
  · subst hc
    cases place with
    | rowStart | cellStart =>
      exact ⟨[], row, cell, holds_within _ _ (Or.inr (Or.inl rfl)), fun rest => by
        simp [readRows, Place.next, isLineEnd_quote]⟩
    | plain => exact readRows_outside h (by decide) (Or.inl rfl)
    | quoted =>
      exact ⟨[], row, cell, holds_within _ _ (Or.inr (Or.inr rfl)), fun rest => rfl⟩
    | closing =>
      exact ⟨[], row, '"' :: cell, holds_within _ _ (Or.inr (Or.inl rfl)), fun rest => rfl⟩
  by_cases hquoted : place = .quoted
  · subst hquoted
    have hnext : Place.next d .quoted c = .quoted := if_neg hc
    rw [hnext]
    exact ⟨[], row, c :: cell, holds_within _ _ (Or.inr (Or.inl rfl)), fun rest => by
      simp [readRows, hc]⟩
  · rw [next_of_ne_quote hquoted hc]
    exact readRows_outside h hquoted (Or.inr hc)

/-- What the reader gives for the first characters, and what it has of a row and a cell then, does
    not depend on what comes behind them. -/
theorem readRows_after (s : List Char) {place : Place} {row : List (List Char)} {cell : List Char}
    (h : place.Holds row cell) :
    ∃ rows row' cell', (place.after d s).Holds row' cell' ∧ ∀ rest,
      readRows d.char place row cell (s ++ rest) =
        rows ++ readRows d.char (place.after d s) row' cell' rest := by
  induction s generalizing place row cell with
  | nil => exact ⟨[], row, cell, h, fun rest => rfl⟩
  | cons c s ih =>
    obtain ⟨rows, row', cell', hholds, hread⟩ := readRows_next (d := d) h c
    obtain ⟨rows', row'', cell'', hholds', hread'⟩ := ih hholds
    refine ⟨rows ++ rows', row'', cell'', hholds', fun rest => ?_⟩
    rw [List.cons_append, hread, hread', List.append_assoc]
    rfl

/-- Within quotes that are not closed everything belongs to the cell. -/
theorem readRows_open (row : List (List Char)) (content : List Char) :
    readRows d.char .quoted row [] (content.flatMap double) = [row.reverse ++ [content]] := by
  have hread := readRows_doubled (d := d) content row [] []
  rw [List.append_nil, List.append_nil] at hread
  have hquoted : Place.quoted ≠ .rowStart := nofun
  rw [hread, readRows_nil hquoted]
  simp

/-- The rows before an open quote do not depend on what is behind it, and all of that is the last
    cell of the last row. -/
theorem Fields.tokenize_open {before : List Char} (h : Fields d before) :
    ∃ rows row, ∀ (text : String) (content : List Char),
      dropMark text.toList = before ++ '"' :: content.flatMap double →
        tokenize d text = rows ++ [row ++ [String.ofList content]] := by
  have hstart : Place.rowStart.Holds [] [] := ⟨fun _ => rfl, fun _ => rfl⟩
  obtain ⟨rows, row, cell, hholds, hread⟩ := readRows_after (d := d) before hstart
  have hbegins := after_fields h rowStart_beginsCell
  obtain rfl := hholds.cell hbegins
  refine ⟨rows.map (List.map String.ofList), row.reverse.map String.ofList,
    fun text content htext => ?_⟩
  have hopened : ∀ rest, readRows d.char (Place.after d .rowStart before) row [] ('"' :: rest) =
      readRows d.char .quoted row [] rest := by
    intro rest
    cases hplace : Place.after d .rowStart before with
    | rowStart | cellStart => simp [readRows, isLineEnd_quote]
    | plain | quoted | closing =>
      rw [hplace] at hbegins
      cases hbegins
  rw [tokenize, htext, hread, hopened, readRows_open]
  simp

/-- Open quotes take the rest of the text, and are not reported. A text ends in quotes unless it is
    made of whole fields; of no text, whichever way it ends, reading a table fails. In one that ends
    in quotes all behind the opening quote, with two quotes for one, is the last cell of the last
    row, and what is read before it does not depend on it. Nor does a file fail that can be read. -/
theorem open_quotes_take_the_rest (d : Delimiter) :
    (∀ s, EndsInQuotes d s ↔ ¬ EndsOutside d s) ∧
    (∀ name text, (CellTable.ofDelimited name text d).isOk = true) ∧
    ∀ before, Fields d before → ∃ rows row, ∀ (text : String) (content : List Char),
      dropMark text.toList = before ++ '"' :: content.flatMap double →
        (∀ name, ∃ t, CellTable.ofDelimited name text d = .ok t ∧
          t.rows.toList = rows ++ [row ++ [String.ofList content]]) ∧
        ∀ files script path, files.readText path = .ok text → script.delimiterFor path = d →
          ∃ t, Scenario.loadTable files script path = .ok t ∧
            t.rows.toList = rows ++ [row ++ [String.ofList content]] := by
  refine ⟨fun s => endsInQuotes_iff, fun name text => rfl, fun before hbefore => ?_⟩
  obtain ⟨rows, row, hrows⟩ := hbefore.tokenize_open
  refine ⟨rows, row, fun text content htext => ⟨fun name => ⟨_, rfl, hrows text content htext⟩,
    fun files script path hread hdelimiter => ?_⟩⟩
  subst hdelimiter
  exact ⟨_, by rw [Scenario.loadTable, hread]; rfl, hrows text content htext⟩

/-- A quote before a text that is not closed takes the row below with it. -/
theorem stray_quote_takes_a_row :
    let before := "Command,Text\n,".toList
    let content := "abc\n,def\n".toList
    let text := String.ofList (before ++ '"' :: content.flatMap double)
    text = "Command,Text\n,\"abc\n,def\n" ∧ Fields .comma before ∧
      EndsInQuotes .comma (dropMark text.toList) ∧
      ∃ t rows row, CellTable.ofDelimited "t" text .comma = .ok t ∧
        t.rows.toList = rows ++ [row ++ ["abc\n,def\n"]] := by
  intro before content text
  have hplain (s : List Char) (hfirst : s.head? ≠ some '"')
      (hs : (s.all fun c => !endsField .comma c) = true) : Field .comma s :=
    ⟨[], s, Or.inl rfl, ⟨hfirst, fun c hc => by simpa using List.all_eq_true.mp hs c hc⟩, rfl⟩
  have hbefore : Fields .comma before :=
    .cons (hplain "Command".toList (by decide) (by decide)) (by decide)
      (.cons (hplain "Text".toList (by decide) (by decide)) (by decide)
        (.cons field_nil (by decide) .nil))
  have htext : dropMark text.toList = before ++ '"' :: content.flatMap double := by decide +kernel
  obtain ⟨-, -, hread⟩ := open_quotes_take_the_rest .comma
  obtain ⟨rows, row, hrows⟩ := hread before hbefore
  obtain ⟨t, ht, hlast⟩ := (hrows text content htext).1 "t"
  exact ⟨by decide +kernel, hbefore, ⟨before, content, hbefore, htext⟩, t, rows, row, ht, hlast⟩

end VisualNovel.Table
