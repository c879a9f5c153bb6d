import VisualNovel.Disk.FileTree
import VisualNovel.Proofs.Entries

/-
  A text that was written to a path is read at the path. The path leads through directories to the
  place of the file. None of these directories lies at that place, which holds a file or nothing, so
  that they are still there with the file written.
-/

namespace VisualNovel.Disk

open Entries Text

namespace FileTree

theorem splitList_ne_nil (c : Char) (s : List Char) : splitList c s ≠ [] := by
  induction s with
  | nil => exact List.cons_ne_nil _ _
  | cons d s ih =>
    obtain ⟨piece, pieces, hpieces⟩ := List.exists_cons_of_ne_nil ih
    rw [splitList, hpieces]
    dsimp only
    split <;> exact List.cons_ne_nil _ _

/-- The last part of a path comes behind the others. -/
theorem splitLast_eq {parts before : List String} {name : String} (hparts : parts ≠ [])
    (h : splitLast parts = (before, name)) : parts = before ++ [name] := by
  induction parts generalizing before with
  | nil => exact absurd rfl hparts
  | cons part parts ih =>
    cases parts with
    | nil =>
      cases h
      rfl
    | cons next rest =>
      cases h
      rw [List.cons_append, ← ih (List.cons_ne_nil _ _) rfl]

/-! ## A file put at a place -/

variable {t : FileTree} {place : Place} {node : Node}

theorem node?_put_self (hplace : place ≠ []) : (t.put place node).node? place = some node := by
  rw [node?, if_neg hplace, put, List.lookup_cons_self]

theorem node?_put_of_ne {other : Place} (h : other ≠ place) :
    (t.put place node).node? other = t.node? other := by
  unfold node?
  split
  · rfl
  · rw [put, lookup_cons_ite, if_neg h]
    exact (lookup_filter_ne (fun _ => bne_iff_ne) t.entries other).trans (if_neg h)

/-! ## Following a path -/

theorem walk_append (p : Place) (n : Node) (xs ys : List String) :
    walk t p n (xs ++ ys) = (walk t p n xs).bind fun q => walk t q.1 q.2 ys := by
  fun_induction walk t p n xs with
  | case1 p n => rfl
  | case2 => rfl
  | case3 => rfl
  | case4 p rest ih => simpa [walk] using ih
  | case5 p part rest hname => simp [walk, hname, Except.bind]
  | case6 p part rest hskip ih => simpa [walk, hskip] using ih
  | case7 p rest hskip ih => simpa [walk] using ih
  | case8 p part rest hskip hup hlong => simp [walk, hskip, hup, hlong, Except.bind]
  | case9 p part rest hskip hup hlong n hn ih => simpa [walk, hskip, hup, hlong, hn] using ih
  | case10 p part rest hskip hup hlong hn => simp [walk, hskip, hup, hlong, hn, Except.bind]

/-- A closed directory leads to nothing but itself. -/
theorem eq_closed_of_walk {p q : Place} {n : Node} {parts : List String}
    (h : walk t p .closed parts = .ok (q, n)) : n = .closed := by
  induction parts with
  | nil =>
    cases h
    rfl
  | cons part rest ih =>
    rw [walk] at h
    split at h
    · exact ih h
    · cases h

/-- A path leads to the directory that it led to, wherever a file is put instead of no directory. -/
theorem walk_put (hfree : t.node? place ≠ some .directory) {p q : Place} {n : Node}
    {parts : List String} (h : walk t p n parts = .ok (q, .directory)) :
    walk (t.put place node) p n parts = .ok (q, .directory) := by
  fun_induction walk t p n parts with
  | case1 p n => exact h
  | case2 => cases h
  | case3 => cases h
  | case4 p rest ih => cases eq_closed_of_walk h
  | case5 p part rest hname => cases h
  | case6 p part rest hskip ih => simpa [walk, hskip] using ih h
  | case7 p rest hskip ih => simpa [walk] using ih h
  | case8 p part rest hskip hup hlong => cases h
  | case9 p part rest hskip hup hlong n hn ih =>
    -- a file ends the path, and neither it nor a closed directory is what the path leads to
    have hdirectory : n = .directory := by
      cases n with
      | directory => rfl
      | closed => cases eq_closed_of_walk h
      | file content | locked => cases rest <;> cases h
    subst hdirectory
    have hother : part :: p ≠ place := fun heq => hfree (heq ▸ hn)
    simpa [walk, hskip, hup, hlong, node?_put_of_ne hother, hn] using ih h
  | case10 p part rest hskip hup hlong hn => cases h

/-! ## Writing and reading -/

theorem splitAt_eq {path : String} {before : List String} {name : String}
    (h : splitLast (splitAt '/' path) = (before, name)) : splitAt '/' path = before ++ [name] := by
  have hparts : splitAt '/' path ≠ [] := by
    rw [splitAt, ne_eq, List.map_eq_nil_iff]
    exact splitList_ne_nil _ _
  exact splitLast_eq hparts h

/-- What writing a text does if it does not fail. -/
theorem writeText_eq_ok {path text : String} {t' : FileTree}
    (h : t.writeText path text = .ok t') :
    pathFault? path = none ∧ ∃ before name place,
      splitAt '/' path = before ++ [name] ∧ ¬(name = "" ∨ name = ".") ∧ name ≠ ".." ∧
      name.utf8ByteSize ≤ maxName ∧
      walk t (t.origin path) .directory before = .ok (place, .directory) ∧
      t.node? (name :: place) ≠ some .directory ∧
      t' = t.put (name :: place) (.file (.text text)) := by
  unfold writeText at h
  split at h
  case h_1 => cases h
  case h_2 hfault =>
    refine ⟨hfault, ?_⟩
    split at h
    rename_i before name hsplit
    split at h
    case h_1 => cases h
    case h_2 => cases h
    case h_3 => cases h
    case h_4 => split at h <;> cases h
    case h_5 place hwalk =>
      split_ifs at h with hname hlong
      split at h
      case h_1 => cases h
      case h_2 => cases h
      case h_3 => cases h
      case h_4 hnode _ _ =>
        rw [← or_assoc, not_or] at hname
        exact ⟨before, name, place, splitAt_eq hsplit, hname.1, hname.2, Nat.le_of_not_lt hlong,
          hwalk, hnode, (Except.ok.inj h).symm⟩

/-- Whether a text can be written does not depend on the text. -/
theorem writeText_eq_error {path text : String} {e : DiskError}
    (h : t.writeText path text = .error e) (other : String) :
    t.writeText path other = .error e := by
  unfold writeText at h ⊢
  split at h
  case h_1 => exact h
  case h_2 =>
    dsimp only at h ⊢
    split at h
    case h_1 => exact h
    case h_2 => exact h
    case h_3 => exact h
    case h_4 => exact h
    case h_5 =>
      split_ifs at h ⊢
      · exact h
      · exact h
      · split at h
        case h_4 => cases h
        all_goals exact h

/-- A text that was written is there, and is what is read. -/
theorem readText_writeText {path text : String} {t' : FileTree}
    (h : t.writeText path text = .ok t') :
    t'.holds path = true ∧ t'.readText path = .ok text := by
  obtain ⟨hfault, before, name, place, hparts, hskip, hup, hshort, hwalk, hfree, rfl⟩ :=
    writeText_eq_ok h
  have hlast : walk (t.put (name :: place) (.file (.text text))) place .directory [name] =
      .ok (name :: place, .file (.text text)) := by
    have hlong : ¬maxName < name.utf8ByteSize := Nat.not_lt.mpr hshort
    have hnode : (t.put (name :: place) (.file (.text text))).node? (name :: place) =
        some (.file (.text text)) := node?_put_self (List.cons_ne_nil name place)
    simp [walk, hskip, hup, hlong, hnode]
  have hresolve : (t.put (name :: place) (.file (.text text))).resolve path =
      .ok (name :: place, .file (.text text)) := by
    rw [resolve, hfault]
    show walk _ (t.origin path) _ _ = _
    rw [hparts, walk_append, walk_put hfree hwalk]
    exact hlast
  rw [holds, readText, read, hresolve]
  exact ⟨rfl, rfl⟩

end FileTree

end VisualNovel.Disk
