import Mathlib.Data.List.Induction
import Mathlib.Data.List.Nodup
import VisualNovel.Character.Settings
import VisualNovel.Proofs.Entries

/-
  Character sheets. A row belongs to the character that is named in it, or else in the last row
  before it that names one (`ownerAt?`). What is known of a character are its own rows put together:
  the last name to show, and each pattern with the file of its first row (`get?_ofTable`). So the
  order in which the characters take turns on a sheet does not matter.
-/

namespace VisualNovel.Character

open Entries Text Table

/-! ## Rows of a character -/

/-- The character that a row names. -/
def nameIn? (r : Row) : Option String := (r.cell? Column.characterName.header).map trim

/-- The name to show in a row. -/
def displayNameIn? (r : Row) : Option String := r.cell? Column.nameText.header

/-- The pattern in a row. -/
def patternIn? (r : Row) : Option String := (r.cell? Column.pattern.header).map trim

/-- The file in a row. -/
def fileIn? (r : Row) : Option String := (r.cell? Column.fileName.header).map trim

/-- The character of the row at a place: the one that the last row up to it names that names one. -/
def ownerAt? (rows : List Row) (i : Nat) : Option String :=
  ((rows.take (i + 1)).filterMap nameIn?).getLast?

/-- The rows of a character, those left out that have nothing in them. -/
def rowsOf (rows : List Row) (name : String) : List Row :=
  (rows.zipIdx.filter fun r => !r.1.isEmpty && ownerAt? rows r.2 == some name).map Prod.fst

/-- The rows of a character that are found behind a row of the character `current`. -/
def rowsBehind (current : Option String) (rows : List Row) (name : String) : List Row :=
  (rows.zipIdx.filter fun r =>
    !r.1.isEmpty && (ownerAt? rows r.2).or current == some name).map Prod.fst

theorem rowsBehind_none (rows : List Row) (name : String) :
    rowsBehind none rows name = rowsOf rows name := by
  simp only [rowsBehind, rowsOf, Option.or_none]

theorem ownerAt?_zero (r : Row) (rows : List Row) : ownerAt? (r :: rows) 0 = nameIn? r := by
  cases h : nameIn? r <;> simp [ownerAt?, h]

theorem ownerAt?_succ (r : Row) (rows : List Row) (i : Nat) :
    ownerAt? (r :: rows) (i + 1) = (ownerAt? rows i).or (nameIn? r) := by
  rw [ownerAt?, List.take_succ_cons, ← List.singleton_append, List.filterMap_append,
    List.getLast?_append, ownerAt?]
  congr 1
  cases h : nameIn? r <;> simp [h]

theorem rowsBehind_cons (current : Option String) (r : Row) (rows : List Row) (name : String) :
    rowsBehind current (r :: rows) name =
      (if !r.isEmpty && (nameIn? r).or current == some name then [r] else []) ++
        rowsBehind ((nameIn? r).or current) rows name := by
  -- the places of the other rows are one further, and `r` is what they go on with
  have hrest : ((rows.zipIdx 1).filter fun s =>
      !s.1.isEmpty && (ownerAt? (r :: rows) s.2).or current == some name).map Prod.fst =
      rowsBehind ((nameIn? r).or current) rows name := by
    rw [List.zipIdx_succ, List.filter_map, List.map_map, rowsBehind]
    simp only [Function.comp_def, ownerAt?_succ, Option.or_assoc]
  rw [← hrest, rowsBehind, List.zipIdx_cons, List.filter_cons]
  simp only [ownerAt?_zero]
  split <;> simp

/-- A character that no row names has no rows. -/
theorem rowsOf_of_notMem {rows : List Row} {name : String} (h : name ∉ rows.filterMap nameIn?) :
    rowsOf rows name = [] := by
  rw [rowsOf, List.map_eq_nil_iff, List.filter_eq_nil_iff]
  rintro ⟨r, i⟩ - hown
  have howner : ownerAt? rows i = some name := eq_of_beq (Bool.and_eq_true_iff.mp hown).2
  exact h (((List.take_sublist _ rows).filterMap nameIn?).subset (List.mem_of_getLast? howner))

/-! ## What rows say of a character -/

/-- What is known of a character from rows. -/
def Info.ofRows (name : String) (rows : List Row) : Info :=
  rows.foldl (fun i r => i.update (Settings.entryOf r)) ⟨name, []⟩

/-- The file of a pattern: that of the first row with the pattern, named after it if there is none
    in the row. -/
def fileOf (rows : List Row) (pattern : String) : String :=
  ((rows.find? fun r => patternIn? r == some pattern).bind fileIn?).getD pattern

theorem Info.ofRows_concat (name : String) (rows : List Row) (r : Row) :
    Info.ofRows name (rows ++ [r]) = (Info.ofRows name rows).update (Settings.entryOf r) := by
  rw [ofRows, List.foldl_append]
  rfl

theorem addPattern_displayName (i : Info) (pattern file : String) :
    (i.addPattern pattern file).displayName = i.displayName := by
  unfold Info.addPattern
  split <;> rfl

theorem update_displayName (i : Info) (e : Entry) :
    (i.update e).displayName = e.displayName?.getD i.displayName := by
  unfold Info.update
  split
  · exact addPattern_displayName _ _ _
  · rfl

/-- The name to show is the last one in the rows, or the character's own. -/
theorem Info.displayName_ofRows (name : String) (rows : List Row) :
    (Info.ofRows name rows).displayName =
      ((rows.filterMap displayNameIn?).getLast?).getD name := by
  induction rows using List.reverseRecOn with
  | nil => rfl
  | append_singleton rows r ih =>
    have hentry : (Settings.entryOf r).displayName? = displayNameIn? r := rfl
    rw [ofRows_concat, update_displayName, ih, hentry, List.filterMap_append, List.getLast?_append]
    cases h : displayNameIn? r <;> simp [h]

/-- A row without a pattern leaves the patterns as they are. -/
theorem update_patterns_of_none {i : Info} {r : Row} (h : patternIn? r = none) :
    (i.update (Settings.entryOf r)).patterns = i.patterns := by
  have hpattern : (Settings.entryOf r).pattern? = none := h
  simp only [Info.update, hpattern]

theorem update_patterns_of_some {i : Info} {r : Row} {p : String} (h : patternIn? r = some p) :
    (i.update (Settings.entryOf r)).patterns =
      if (i.patterns.lookup p).isSome then i.patterns
      else i.patterns ++ [(p, (fileIn? r).getD p)] := by
  have hpattern : (Settings.entryOf r).pattern? = some p := h
  have hfile : (Settings.entryOf r).file? = some ((fileIn? r).getD p) := by
    change (fileIn? r).orElse (fun _ => patternIn? r) = _
    rw [h]
    cases fileIn? r <;> rfl
  simp only [Info.update, hpattern, hfile, Info.addPattern]
  split <;> rfl

/-- A row behind others changes no file of a pattern that they have. -/
theorem fileOf_append {rows : List Row} {p : String} (h : p ∈ rows.filterMap patternIn?)
    (more : List Row) : fileOf (rows ++ more) p = fileOf rows p := by
  obtain ⟨r, hr, hp⟩ := List.mem_filterMap.mp h
  have hfound : (rows.find? fun r => patternIn? r == some p).isSome = true :=
    List.find?_isSome.mpr ⟨r, hr, by simp [hp]⟩
  rw [fileOf, List.find?_append, Option.or_of_isSome hfound, fileOf]

/-- The first row with a pattern gives its file. -/
theorem fileOf_concat {rows : List Row} {p : String} (h : p ∉ rows.filterMap patternIn?) {r : Row}
    (hr : patternIn? r = some p) : fileOf (rows ++ [r]) p = (fileIn? r).getD p := by
  have hnone : (rows.find? fun r => patternIn? r == some p) = none := by
    refine List.find?_eq_none.mpr fun s hs hp => h ?_
    exact List.mem_filterMap.mpr ⟨s, hs, by simpa using hp⟩
  rw [fileOf, List.find?_append, hnone, Option.none_or, List.find?_cons, hr, beq_self_eq_true]
  rfl

/-- The patterns are those in the rows, in the order in which they first come, with their files. -/
theorem Info.patterns_ofRows (name : String) (rows : List Row) :
    (Info.ofRows name rows).patterns =
      (rows.filterMap patternIn?).eraseDups.map fun p => (p, fileOf rows p) := by
  induction rows using List.reverseRecOn with
  | nil => rfl
  | append_singleton rows r ih =>
    have hkept : (rows.filterMap patternIn?).eraseDups.map (fun p => (p, fileOf (rows ++ [r]) p)) =
        (rows.filterMap patternIn?).eraseDups.map fun p => (p, fileOf rows p) :=
      List.map_congr_left fun p hp => by rw [fileOf_append (List.mem_eraseDups.mp hp)]
    rw [ofRows_concat, List.filterMap_append]
    cases hr : patternIn? r with
    | none => simp [update_patterns_of_none hr, ih, hr, hkept]
    | some p =>
      have hlast : [r].filterMap patternIn? = [p] := by simp [hr]
      rw [update_patterns_of_some hr, ih, lookup_map_key, hlast, eraseDups_concat]
      by_cases hp : p ∈ rows.filterMap patternIn?
      · rw [if_pos (List.mem_eraseDups.mpr hp), if_pos hp, hkept]
        rfl
      · rw [if_neg (mt List.mem_eraseDups.mp hp), if_neg hp, List.map_append, hkept,
          List.map_singleton, fileOf_concat hp hr]
        rfl

/-! ## Sheets -/

namespace Settings

/-- An entry changes what is known of its character alone. -/
theorem lookup_addTo (name : String) (e : Entry) (characters : List (String × Info)) (n : String) :
    (addTo name e characters).lookup n =
      if n = name then some (((characters.lookup name).getD ⟨name, []⟩).update e)
      else characters.lookup n := by
  fun_induction addTo name e characters with
  | case1 => simp [lookup_cons_ite]
  | case2 i rest => by_cases h : n = name <;> simp [lookup_cons_ite, h]
  | case3 m i rest hm ih =>
    rw [lookup_cons_ite, ih, lookup_cons_ite, lookup_cons_ite, if_neg (Ne.symm hm)]
    by_cases h : n = m
    · rw [if_pos h, if_pos h, if_neg (h ▸ hm)]
    · rw [if_neg h, if_neg h]

theorem get?_add (s : Settings) (name : String) (e : Entry) (n : String) :
    (s.add name e).get? n =
      if n = name then some (((s.get? name).getD ⟨name, []⟩).update e) else s.get? n :=
  lookup_addTo name e s.characters n

/-- What is known of a character after more rows. -/
theorem get?_addRows (current : Option String) (rows : List Row) (s : Settings) (name : String) :
    (addRows current rows s).get? name =
      (rowsBehind current rows name).foldl
        (fun i r => some ((i.getD ⟨name, []⟩).update (entryOf r))) (s.get? name) := by
  induction rows generalizing current s with
  | nil => rfl
  | cons r rows ih =>
    rw [rowsBehind_cons, List.foldl_append, addRows]
    cases hempty : r.isEmpty with
    | true =>
      -- a blank row names nobody, so the next rows still belong to `current`
      have hname : nameIn? r = none := by rw [nameIn?, r.cell?_of_isEmpty hempty]; rfl
      rw [hname, Option.none_or]
      exact ih current s
    | false =>
      have howner : ((r.cell? Column.characterName.header).map trim).orElse (fun _ => current) =
          (nameIn? r).or current := Option.orElse_eq_or
      rw [if_neg Bool.false_ne_true, howner]
      cases hname : (nameIn? r).or current with
      | none => exact ih none s
      | some n =>
        rw [ih, get?_add]
        by_cases hn : name = n
        · subst hn
          simp
        · simp [hn, Ne.symm hn]

/-- Updating what is known row by row: the first row starts from the name alone. -/
theorem foldl_update_none (name : String) (rows : List Row) :
    rows.foldl (fun i r => some ((i.getD ⟨name, []⟩).update (entryOf r))) none =
      if rows.isEmpty then none else some (Info.ofRows name rows) := by
  induction rows using List.reverseRecOn with
  | nil => rfl
  | append_singleton rows r ih =>
    rw [List.foldl_append, ih, Info.ofRows_concat]
    cases rows <;> rfl

/-- What is known of a character on a sheet are its rows put together, if there are any. -/
theorem get?_ofTable (t : CellTable) (name : String) :
    (ofTable t).get? name =
      if (rowsOf t.dataRows name).isEmpty then none
      else some (Info.ofRows name (rowsOf t.dataRows name)) := by
  rw [ofTable, get?_addRows, rowsBehind_none]
  exact foldl_update_none name _

/-! ## The characters in whatever order -/

theorem mem_addTo {name : String} {e : Entry} {characters : List (String × Info)} {n : String}
    (h : n ∈ (addTo name e characters).map Prod.fst) :
    n = name ∨ n ∈ characters.map Prod.fst := by
  fun_induction addTo name e characters with
  | case1 => exact Or.inl (by simpa using h)
  | case2 => exact Or.inr h
  | case3 m i rest hne ih =>
    rw [List.map_cons, List.mem_cons] at h ⊢
    rcases h with heq | hin
    · exact Or.inr (Or.inl heq)
    · exact (ih hin).imp_right Or.inr

/-- An entry brings no character in twice. -/
theorem nodup_addTo (name : String) (e : Entry) {characters : List (String × Info)}
    (h : (characters.map Prod.fst).Nodup) : ((addTo name e characters).map Prod.fst).Nodup := by
  fun_induction addTo name e characters with
  | case1 => simp
  | case2 => exact h
  | case3 n i rest hne ih =>
    rw [List.map_cons, List.nodup_cons] at h ⊢
    exact ⟨fun hin => (mem_addTo hin).elim hne h.1, ih h.2⟩

theorem nodup_addRows (current : Option String) (rows : List Row) {s : Settings}
    (h : (s.characters.map Prod.fst).Nodup) :
    ((addRows current rows s).characters.map Prod.fst).Nodup := by
  fun_induction addRows current rows s with
  | case1 => exact h
  | case2 current s r rest hempty ih => exact ih h
  | case3 current s r rest hempty hname ih => exact ih h
  | case4 current s r rest hempty name hname ih => exact ih (nodup_addTo name _ h)

/-- Settings that know the same of each character have the same characters. -/
theorem perm_of_get?_eq {s u : Settings} (hs : (s.characters.map Prod.fst).Nodup)
    (hu : (u.characters.map Prod.fst).Nodup) (h : ∀ name, s.get? name = u.get? name) :
    s.characters.Perm u.characters := by
  refine (List.perm_ext_iff_of_nodup hs.of_map hu.of_map).mpr fun ⟨n, i⟩ => ?_
  rw [mem_iff_lookup hs, mem_iff_lookup hu]
  exact iff_of_eq (congrArg (· = some i) (h n))

end Settings

/-! ## What each character is -/

/-- What is put together from rows depends on what the rows say, and not on whose name they bear. -/
theorem Info.ofRows_congr (name : String) {rows more : List Row}
    (h : rows.map Settings.entryOf = more.map Settings.entryOf) :
    Info.ofRows name rows = Info.ofRows name more := by
  rw [ofRows, ofRows, ← List.foldl_map (f := Settings.entryOf) (g := Info.update), h,
    List.foldl_map]

theorem Info.defaultPattern?_ofRows (name : String) (rows : List Row) :
    (Info.ofRows name rows).defaultPattern? = (rows.filterMap patternIn?).head? := by
  rw [defaultPattern?, patterns_ofRows, List.head?_map, head?_eraseDups, Option.map_map]
  exact Option.map_id'

theorem Info.file?_none_ofRows (name : String) (rows : List Row) :
    (Info.ofRows name rows).file? none =
      (rows.filterMap patternIn?).head?.map (fileOf rows) := by
  rw [file?, patterns_ofRows, List.head?_map, head?_eraseDups, Option.map_map]
  rfl

theorem Info.file?_some_ofRows (name : String) (rows : List Row) (p : String) :
    (Info.ofRows name rows).file? (some p) =
      if p ∈ rows.filterMap patternIn? then some (fileOf rows p) else none := by
  rw [file?, patterns_ofRows, lookup_map_key]
  simp only [List.mem_eraseDups]

/-- A sheet says of each character what the rows of that character say, in the order in which they
    stand: there is such a character if it has a row, it is shown under the last name given or under
    its own, its patterns are those of the rows with the file of the first row of each, and the
    first pattern is the default. So two sheets on which each character's rows say the same have the
    same characters, in whatever order the characters take turns. -/
theorem sheets_are_read_by_character (t u : CellTable) :
    (∀ name, ((Settings.ofTable t).get? name).isSome ↔ rowsOf t.dataRows name ≠ []) ∧
    (∀ name info, (Settings.ofTable t).get? name = some info →
      let rows := rowsOf t.dataRows name
      info.displayName = ((rows.filterMap displayNameIn?).getLast?).getD name ∧
      info.patterns = (rows.filterMap patternIn?).eraseDups.map (fun p => (p, fileOf rows p)) ∧
      info.defaultPattern? = (rows.filterMap patternIn?).head? ∧
      info.file? none = (rows.filterMap patternIn?).head?.map (fileOf rows) ∧
      ∀ p, info.file? (some p) =
        if p ∈ rows.filterMap patternIn? then some (fileOf rows p) else none) ∧
    ((∀ name, (rowsOf t.dataRows name).map Settings.entryOf =
        (rowsOf u.dataRows name).map Settings.entryOf) →
      (∀ name, (Settings.ofTable t).get? name = (Settings.ofTable u).get? name) ∧
      (Settings.ofTable t).characters.Perm (Settings.ofTable u).characters) := by
  refine ⟨fun name => ?known, fun name info hinfo => ?each, fun hrows => ?same⟩
  case known =>
    rw [Settings.get?_ofTable, ← not_iff_not]
    cases h : rowsOf t.dataRows name <;> simp
  case each =>
    have hof : Info.ofRows name (rowsOf t.dataRows name) = info := by
      rw [Settings.get?_ofTable] at hinfo
      split at hinfo
      · cases hinfo
      · exact Option.some.inj hinfo
    subst hof
    exact ⟨Info.displayName_ofRows name _, Info.patterns_ofRows name _,
      Info.defaultPattern?_ofRows name _, Info.file?_none_ofRows name _,
      Info.file?_some_ofRows name _⟩
  case same =>
    have hget : ∀ name, (Settings.ofTable t).get? name = (Settings.ofTable u).get? name := by
      intro name
      have hempty : (rowsOf t.dataRows name).isEmpty = (rowsOf u.dataRows name).isEmpty := by
        rw [← List.isEmpty_map (f := Settings.entryOf), hrows, List.isEmpty_map]
      rw [Settings.get?_ofTable, Settings.get?_ofTable, hempty, Info.ofRows_congr name (hrows name)]
    exact ⟨hget, Settings.perm_of_get?_eq (Settings.nodup_addRows none _ List.nodup_nil)
      (Settings.nodup_addRows none _ List.nodup_nil) hget⟩

/-- Two characters, `A` and `B`, that take turns, and the same with one behind the other: `A` goes
    on behind `B`, is shown under the second name and keeps the first file of the pattern `x`. -/
theorem characters_taking_turns :
    let header := ["CharacterName", "NameText", "Pattern", "FileName"]
    let t := CellTable.ofRows "turns" [header, ["A", "Ann", "x", "x.png"], ["B", "", "y"], [],
      [" A ", "Anna", " x ", "z.png"], ["", "", "w"]]
    let u := CellTable.ofRows "blocks" [header, ["", "Nobody", "v"], ["B", "", "y"],
      ["A", "Ann", "x", "x.png"], ["", "Anna", "x", "z.png"], ["", "", "w"]]
    let info : Info := ⟨"Anna", [("x", "x.png"), ("w", "w")]⟩
    (Settings.ofTable t).get? "A" = some info ∧ (Settings.ofTable u).get? "A" = some info ∧
      info.patterns = ((rowsOf t.dataRows "A").filterMap patternIn?).eraseDups.map
        (fun p => (p, fileOf (rowsOf t.dataRows "A") p)) ∧
      (Settings.ofTable t).characters.Perm (Settings.ofTable u).characters := by
  intro header t u info
  have hinfo : (Settings.ofTable t).get? "A" = some info := by decide +kernel
  have ht : t.dataRows.filterMap nameIn? = ["A", "B", "A"] := by decide +kernel
  have hu : u.dataRows.filterMap nameIn? = ["B", "A"] := by decide +kernel
  have hrows : ∀ name, (rowsOf t.dataRows name).map Settings.entryOf =
      (rowsOf u.dataRows name).map Settings.entryOf := by
    intro name
    by_cases hA : name = "A"
    · subst hA; decide +kernel
    by_cases hB : name = "B"
    · subst hB; decide +kernel
    rw [rowsOf_of_notMem (by simp [ht, hA, hB]), rowsOf_of_notMem (by simp [hu, hA, hB])]
  obtain ⟨-, heach, hsame⟩ := sheets_are_read_by_character t u
  obtain ⟨hget, hperm⟩ := hsame hrows
  exact ⟨hinfo, (hget "A").symm.trans hinfo, (heach "A" info hinfo).2.1, hperm⟩

end VisualNovel.Character
