import VisualNovel.Proofs.Json.Reading
import VisualNovel.Proofs.Json.Spelling

/-
  Printed values. The printer writes the tokens of a value without numbers of double precision, and
  between them only blanks, so that the tree of the value is read back (`Exact.readTree?_print`).
-/

namespace VisualNovel.Json

open Decimal

/-- The printed text of a member of an object. -/
def printMember (depth : Nat) (m : String × Json) : List Char :=
  quote m.1 ++ ':' :: ' ' :: printAt depth m.2

theorem printItems_eq (depth : Nat) (items : List Json) :
    printItems depth items = items.map (printAt depth) := by
  induction items with
  | nil => rfl
  | cons j items ih => rw [printItems, ih, List.map_cons]

theorem printMembers_eq (depth : Nat) (members : List (String × Json)) :
    printMembers depth members = members.map (printMember depth) := by
  induction members with
  | nil => rfl
  | cons m members ih => rw [printMembers, ih, List.map_cons, printMember]

/-- A value without numbers of double precision, whose integers fit into 64 bits. -/
inductive Exact : Json → Prop
  | null : Exact null
  | bool (b : Bool) : Exact (bool b)
  | int {i : Int} (hi : FitsWord i) : Exact (int i)
  | str (s : String) : Exact (str s)
  | arr {items : List Json} (h : ∀ j ∈ items, Exact j) : Exact (arr items)
  | obj {members : List (String × Json)} (h : ∀ m ∈ members, Exact m.2) : Exact (obj members)

/-- A sign that is a token. -/
theorem spells_sign {c : Char} {t : Token} (hc : isSpace c = false)
    (h : ∀ rest, firstToken? (c :: rest) = some (t, rest)) : Spells Anything [c] [t] :=
  spells_token hc fun rest _ => h rest

theorem spells_lineBreak (depth : Nat) : Spells Anything (lineBreak depth) [] := by
  refine spells_blanks fun c hc => ?_
  rcases List.mem_cons.mp hc with rfl | hc
  · rfl
  · rw [List.eq_of_mem_replicate hc]
    rfl

theorem spells_separator (depth : Nat) : Spells Anything (',' :: lineBreak depth) [.comma] :=
  (spells_sign rfl fun _ => rfl).before (spells_lineBreak depth)

/-- Pieces with commas between them. -/
theorem spells_pieces {α : Type} {f : α → List Char} {g : α → List Token} {xs : List α}
    (h : ∀ x ∈ xs, Spells EndsNumber (f x) (g x)) (depth : Nat) :
    Spells EndsNumber ((xs.map f).intersperse (',' :: lineBreak depth)).flatten
      ((xs.map g).intersperse [.comma]).flatten := by
  induction xs with
  | nil => exact spells_nil
  | cons x xs ih =>
    obtain ⟨hx, hxs⟩ := List.forall_mem_cons.mp h
    cases xs with
    | nil => simpa using hx
    | cons y xs =>
      have hrest := (spells_separator depth).before (ih hxs)
      exact hx.append hrest fun rest _ => endsNumber_cons (by decide)

theorem spells_block {α : Type} {f : α → List Char} {g : α → List Token} {xs : List α}
    (h : ∀ x ∈ xs, Spells EndsNumber (f x) (g x)) {c d : Char} {t u : Token}
    (hopen : Spells Anything [c] [t]) (hclose : Spells Anything [d] [u]) (depth : Nat) :
    Spells Anything (block c d depth (xs.map f)) (bracketed t u (xs.map g)) := by
  cases xs with
  | nil => exact hopen.before hclose
  | cons x xs =>
    have hend := (spells_lineBreak depth).before hclose
    have hinside := (spells_pieces h (depth + 1)).append hend
      fun rest _ => endsNumber_cons (by decide)
    have hwhole := hopen.before ((spells_lineBreak (depth + 1)).before hinside)
    simpa [block, bracketed] using hwhole

/-- What is printed are the tokens of the value. -/
theorem Exact.spells {j : Json} (h : Exact j) (depth : Nat) :
    Spells EndsNumber (printAt depth j) (treeOf j).tokens := by
  induction h generalizing depth with
  | null => exact spells_token rfl fun _ _ => rfl
  | bool b => cases b <;> exact spells_token rfl fun _ _ => rfl
  | int hi => exact spells_intText hi
  | str s => exact (spells_quote s).weaken fun _ _ => trivial
  | @arr items h ih =>
    have hblock := spells_block (fun j hj => ih j hj (depth + 1))
      (spells_sign (c := '[') rfl fun _ => rfl) (spells_sign (c := ']') rfl fun _ => rfl) depth
    rw [printAt, treeOf, Tree.tokens, printItems_eq, itemTokens_eq, itemTrees_eq, List.map_map]
    exact hblock.weaken fun _ _ => trivial
  | @obj members h ih =>
    have hmember : ∀ m ∈ members,
        Spells EndsNumber (printMember (depth + 1) m) (tokensOfMember (some m.1, treeOf m.2)) :=
      fun m hm =>
      (spells_quote m.1).before ((spells_sign rfl fun _ => rfl).before
        ((spells_blanks (s := [' ']) (by simp [isSpace])).before (ih m hm (depth + 1))))
    have hblock := spells_block hmember (spells_sign (c := '\x7b') rfl fun _ => rfl)
      (spells_sign (c := '\x7d') rfl fun _ => rfl) depth
    rw [printAt, treeOf, Tree.tokens, printMembers_eq, memberTokens_eq, memberTrees_eq,
      List.map_map]
    exact hblock.weaken fun _ _ => trivial

/-- What is printed is read back, as it stands there. -/
theorem Exact.readTree?_print {j : Json} (h : Exact j) : readTree? j.print = some (treeOf j) := by
  refine readTree?_eq_some_iff.mpr ?_
  rw [print, String.toList_ofList]
  exact (h.spells 0).lex? endsNumber_nil

end VisualNovel.Json
