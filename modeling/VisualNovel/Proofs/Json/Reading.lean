import Mathlib.Data.List.Basic
import VisualNovel.Json.Reader

/-
  What a JSON text is. The tokens of a tree are written without looking at how they are read. A text
  is read if and only if its tokens are those of a tree, which is the tree that is read
  (`readTree?_eq_some_iff`). In one direction every tree is read off its tokens whatever is open
  around it; in the other the tokens that have been read are kept with the frames, and one token is
  added to them with each step. Where all of the text has to be read, nothing may be broken and the
  tree not be nested too deep (`read?_eq_some_iff`).
-/

namespace VisualNovel.Json

/-! ## The tokens of a tree -/

/-- Brackets around pieces with commas between them. -/
def bracketed (opening closing : Token) (pieces : List (List Token)) : List Token :=
  opening :: ((pieces.intersperse [.comma]).flatten ++ [closing])

/-- The token of a name. -/
def nameToken (name? : Option String) : Token :=
  .leaf (name?.elim .brokenText fun name => .str name.toList)

mutual

/-- The tokens of a tree. -/
def Tree.tokens : Tree → List Token
  | .leaf l => [.leaf l]
  | .arr items => bracketed .openBracket .closeBracket (itemTokens items)
  | .obj members => bracketed .openBrace .closeBrace (memberTokens members)

/-- The tokens of the items of an array. -/
def itemTokens : List Tree → List (List Token)
  | [] => []
  | t :: rest => t.tokens :: itemTokens rest

/-- The tokens of the members of an object. -/
def memberTokens : List (Option String × Tree) → List (List Token)
  | [] => []
  | (name?, t) :: rest => (nameToken name? :: .colon :: t.tokens) :: memberTokens rest

end

theorem itemTokens_eq (items : List Tree) : itemTokens items = items.map Tree.tokens := by
  induction items with
  | nil => rfl
  | cons t items ih => rw [itemTokens, ih, List.map_cons]

/-- The tokens of a member of an object. -/
def tokensOfMember (m : Option String × Tree) : List Token :=
  nameToken m.1 :: .colon :: m.2.tokens

theorem memberTokens_eq (members : List (Option String × Tree)) :
    memberTokens members = members.map tokensOfMember := by
  induction members with
  | nil => rfl
  | cons m members ih => rw [memberTokens, ih, List.map_cons, tokensOfMember]

/-- What holds of a tree if it holds of all items and members of it holds of every tree. -/
theorem Tree.nested_induction {P : Tree → Prop} (leaf : ∀ l, P (.leaf l))
    (arr : ∀ items, (∀ t ∈ items, P t) → P (.arr items))
    (obj : ∀ members, (∀ m ∈ members, P m.2) → P (.obj members)) (t : Tree) : P t :=
  @Tree.rec P (fun items => ∀ t ∈ items, P t) (fun members => ∀ m ∈ members, P m.2)
    (fun m => P m.2) leaf arr obj (fun _ ht => nomatch ht)
    (fun _ _ ht hrest => List.forall_mem_cons.mpr ⟨ht, hrest⟩) (fun _ hm => nomatch hm)
    (fun _ _ hm hrest => List.forall_mem_cons.mpr ⟨hm, hrest⟩) (fun _ _ ht => ht) t

/-- A comma stands behind every piece but the last. -/
theorem flatten_intersperse_concat {α : Type} (pieces : List (List α)) (last sep : List α) :
    ((pieces ++ [last]).intersperse sep).flatten = pieces.flatMap (· ++ sep) ++ last := by
  induction pieces with
  | nil => simp
  | cons piece pieces ih =>
    obtain ⟨next, others, hnext⟩ : ∃ next others, pieces ++ [last] = next :: others :=
      List.exists_cons_of_ne_nil (by simp)
    rw [hnext] at ih
    rw [List.cons_append, hnext, List.intersperse_cons_cons, List.flatten_cons, List.flatten_cons,
      ih]
    simp

/-- The tokens of an array that is not empty. -/
theorem tokens_arr_concat (items : List Tree) (v : Tree) :
    (Tree.arr (items ++ [v])).tokens =
      .openBracket :: ((items.flatMap fun t => t.tokens ++ [.comma]) ++
        (v.tokens ++ [.closeBracket])) := by
  rw [Tree.tokens, itemTokens_eq, List.map_append, bracketed, List.map_singleton,
    flatten_intersperse_concat, List.flatMap_map]
  simp

/-- The tokens of an object that is not empty. -/
theorem tokens_obj_concat (members : List (Option String × Tree)) (m : Option String × Tree) :
    (Tree.obj (members ++ [m])).tokens =
      .openBrace :: ((members.flatMap fun m => tokensOfMember m ++ [.comma]) ++
        (tokensOfMember m ++ [.closeBrace])) := by
  rw [Tree.tokens, memberTokens_eq, List.map_append, bracketed, List.map_singleton,
    flatten_intersperse_concat, List.flatMap_map]
  simp

/-! ## Reading a tree off its tokens -/

theorem build?_cons (frames : List Frame) (place : Place) (t : Token) (rest : List Token) :
    build? frames place (t :: rest) =
      (step? frames place t).bind fun s => build? s.1 s.2 rest := by
  cases frames <;> cases place <;> rfl

/-- The tokens of a tree are read as the tree, whatever is open around it. -/
def Readable (t : Tree) : Prop :=
  ∀ frames rest, build? frames .value (t.tokens ++ rest) = build? frames (.after t) rest

/-- A name and the colon behind it are read, whichever place the name has. -/
theorem build?_name {frames : List Frame} {place : Place} {outer : List Frame}
    {read : List (Option String × Tree)}
    (hplace : ∀ l, step? frames place (.leaf l) = l.name?.map fun n => (outer, .colon read n))
    (name? : Option String) (rest : List Token) :
    build? frames place (nameToken name? :: .colon :: rest) =
      build? (.object read name? :: outer) .value rest := by
  have hname : step? frames place (nameToken name?) = some (outer, .colon read name?) := by
    rw [nameToken, hplace]
    cases name? with
    | none => rfl
    | some name => simp [Leaf.name?]
  rw [build?_cons, hname, Option.bind_some, build?_cons]
  rfl

/-- Items with commas behind them are read into the array that is open. -/
theorem build?_items {items : List Tree} (h : ∀ t ∈ items, Readable t) {read : List Tree}
    {outer : List Frame} (rest : List Token) :
    build? (.array read :: outer) .value ((items.flatMap fun t => t.tokens ++ [.comma]) ++ rest) =
      build? (.array (items.reverse ++ read) :: outer) .value rest := by
  induction items generalizing read with
  | nil => rfl
  | cons t items ih =>
    obtain ⟨ht, hitems⟩ := List.forall_mem_cons.mp h
    rw [List.flatMap_cons, List.append_assoc, List.append_assoc, ht (.array read :: outer),
      List.singleton_append, build?_cons]
    show build? (.array (t :: read) :: outer) .value _ = _
    rw [ih hitems, List.reverse_cons, List.append_assoc, List.singleton_append]

/-- Members with commas behind them are read into the object that is open. -/
theorem build?_members {members : List (Option String × Tree)} (h : ∀ m ∈ members, Readable m.2)
    {read : List (Option String × Tree)} {outer : List Frame} (rest : List Token) :
    build? outer (.name read) ((members.flatMap fun m => tokensOfMember m ++ [.comma]) ++ rest) =
      build? outer (.name (members.reverse ++ read)) rest := by
  induction members generalizing read with
  | nil => rfl
  | cons m members ih =>
    obtain ⟨hm, hmembers⟩ := List.forall_mem_cons.mp h
    rw [List.flatMap_cons, List.append_assoc, List.append_assoc, tokensOfMember, List.cons_append,
      List.cons_append, build?_name (fun _ => rfl), hm (.object read m.1 :: outer),
      List.singleton_append, build?_cons]
    show build? outer (.name (m :: read)) _ = _
    rw [ih hmembers, List.reverse_cons, List.append_assoc, List.singleton_append]

/-- An array just opened is read on like any other, unless it ends. -/
theorem build?_firstItem (frames : List Frame) (items : List Tree) (v : Tree) (rest : List Token) :
    build? frames .firstItem ((items.flatMap fun t => t.tokens ++ [.comma]) ++ (v.tokens ++ rest)) =
      build? frames .value
        ((items.flatMap fun t => t.tokens ++ [.comma]) ++ (v.tokens ++ rest)) := by
  have hfirst : ∀ (t : Tree) (rest : List Token),
      build? frames .firstItem (t.tokens ++ rest) = build? frames .value (t.tokens ++ rest) := by
    intro t rest
    cases t <;> simp only [Tree.tokens, bracketed, List.cons_append, build?_cons] <;> rfl
  cases items with
  | nil => exact hfirst v rest
  | cons t items =>
    rw [List.flatMap_cons, List.append_assoc, List.append_assoc]
    exact hfirst t _

/-- An object just opened is read on like any other, unless it ends. -/
theorem build?_firstName (outer : List Frame) (members : List (Option String × Tree))
    (m : Option String × Tree) (rest : List Token) :
    build? (.object [] none :: outer) .firstName
        ((members.flatMap fun m => tokensOfMember m ++ [.comma]) ++ (tokensOfMember m ++ rest)) =
      build? outer (.name [])
        ((members.flatMap fun m => tokensOfMember m ++ [.comma]) ++
          (tokensOfMember m ++ rest)) := by
  have hfirst : ∀ (m : Option String × Tree) (rest : List Token),
      build? (.object [] none :: outer) .firstName (tokensOfMember m ++ rest) =
        build? outer (.name []) (tokensOfMember m ++ rest) := by
    intro m rest
    rw [tokensOfMember, List.cons_append, List.cons_append, build?_name (fun _ => rfl),
      build?_name (fun _ => rfl)]
    rfl
  cases members with
  | nil => exact hfirst m rest
  | cons n members =>
    rw [List.flatMap_cons, List.append_assoc, List.append_assoc]
    exact hfirst n _

theorem readable_arr {items : List Tree} (h : ∀ t ∈ items, Readable t) : Readable (.arr items) := by
  intro frames rest
  rcases List.eq_nil_or_concat items with rfl | ⟨items, v, rfl⟩
  · show build? frames .value (.openBracket :: .closeBracket :: rest) = _
    rw [build?_cons]
    rfl
  · rw [List.concat_eq_append] at *
    simp only [List.forall_mem_append, List.forall_mem_singleton] at h
    rw [tokens_arr_concat, List.cons_append, List.append_assoc, List.append_assoc, build?_cons]
    show build? (.array [] :: frames) .firstItem _ = _
    rw [build?_firstItem, build?_items h.1, h.2 (.array _ :: frames)]
    show build? frames (.after (.arr (v :: (items.reverse ++ [])).reverse)) rest = _
    simp

theorem readable_obj {members : List (Option String × Tree)} (h : ∀ m ∈ members, Readable m.2) :
    Readable (.obj members) := by
  intro frames rest
  rcases List.eq_nil_or_concat members with rfl | ⟨members, m, rfl⟩
  · show build? frames .value (.openBrace :: .closeBrace :: rest) = _
    rw [build?_cons]
    rfl
  · rw [List.concat_eq_append] at *
    simp only [List.forall_mem_append, List.forall_mem_singleton] at h
    rw [tokens_obj_concat, List.cons_append, List.append_assoc, List.append_assoc, build?_cons]
    show build? (.object [] none :: frames) .firstName _ = _
    rw [build?_firstName, build?_members h.1, tokensOfMember, List.cons_append, List.cons_append,
      build?_name (fun _ => rfl), h.2 (.object _ m.1 :: frames), List.singleton_append, build?_cons]
    show build? frames (.after (.obj (m :: (members.reverse ++ [])).reverse)) rest = _
    simp

theorem readable (t : Tree) : Readable t := by
  induction t using Tree.nested_induction with
  | leaf l => exact fun _ _ => build?_cons ..
  | arr items h => exact readable_arr h
  | obj members h => exact readable_obj h

/-! ## What has been read -/

/-- The tokens of what is open. -/
def openTokens : List Frame → List Token
  | [] => []
  | .array items :: outer =>
    openTokens outer ++ .openBracket :: items.reverse.flatMap fun t => t.tokens ++ [.comma]
  | .object members n :: outer =>
    openTokens outer ++
      .openBrace :: (members.reverse.flatMap fun m => tokensOfMember m ++ [.comma]) ++
        [nameToken n, .colon]

/-- The tokens that have been read. -/
def readTokens (frames : List Frame) : Place → List Token
  | .value => openTokens frames
  | .firstItem => openTokens frames.tail ++ [.openBracket]
  | .firstName => openTokens frames.tail ++ [.openBrace]
  | .name members =>
    openTokens frames ++ .openBrace :: members.reverse.flatMap fun m => tokensOfMember m ++ [.comma]
  | .colon members n =>
    openTokens frames ++
      .openBrace :: (members.reverse.flatMap fun m => tokensOfMember m ++ [.comma]) ++
        [nameToken n]
  | .after v => openTokens frames ++ v.tokens

/-- An array or object just opened is empty. -/
def Fits (frames : List Frame) : Place → Prop
  | .firstItem => ∃ outer, frames = .array [] :: outer
  | .firstName => ∃ outer, frames = .object [] none :: outer
  | _ => True

/-- A token that begins a value comes behind what has been read. -/
theorem beginValue?_spec {frames frames' : List Frame} {place' : Place} {t : Token}
    (h : beginValue? frames t = some (frames', place')) :
    readTokens frames' place' = openTokens frames ++ [t] ∧ Fits frames' place' := by
  cases t with
  | leaf l => cases h; exact ⟨rfl, trivial⟩
  | openBrace | openBracket => cases h; exact ⟨rfl, frames, rfl⟩
  | _ => cases h

/-- A token behind a value comes behind what has been read. -/
theorem continueAfter?_spec {frames frames' : List Frame} {place' : Place} {v : Tree} {t : Token}
    (h : continueAfter? frames v t = some (frames', place')) :
    readTokens frames' place' = readTokens frames (.after v) ++ [t] ∧ Fits frames' place' := by
  unfold continueAfter? at h
  split at h
  -- a comma, the end of an array, the end of an object
  case h_1 =>
    split at h <;> cases h
    · exact ⟨by simp [readTokens, openTokens], trivial⟩
    · exact ⟨by simp [readTokens, openTokens, tokensOfMember], trivial⟩
  case h_2 =>
    split at h <;> cases h
    refine ⟨?_, trivial⟩
    rw [readTokens, List.reverse_cons, tokens_arr_concat]
    simp [readTokens, openTokens]
  case h_3 =>
    split at h <;> cases h
    refine ⟨?_, trivial⟩
    rw [readTokens, List.reverse_cons, tokens_obj_concat]
    simp [readTokens, openTokens, tokensOfMember]
  case h_4 => cases h

/-- A leaf that is a name is the token of the name. -/
theorem nameToken_of_name? {l : Leaf} {n : Option String} (h : l.name? = some n) :
    nameToken n = .leaf l := by
  cases l with
  | str s =>
    obtain rfl := Option.some.inj h
    simp [nameToken]
  | brokenText =>
    obtain rfl := Option.some.inj h
    rfl
  | _ => cases h

theorem step?_spec {frames frames' : List Frame} {place place' : Place} {t : Token}
    (h : step? frames place t = some (frames', place')) (hfits : Fits frames place) :
    readTokens frames' place' = readTokens frames place ++ [t] ∧ Fits frames' place' := by
  unfold step? at h
  split at h
  case h_1 =>
    obtain ⟨outer, rfl⟩ := hfits
    cases h
    exact ⟨by simp [readTokens, Tree.tokens, itemTokens, bracketed], trivial⟩
  case h_2 =>
    obtain ⟨outer, rfl⟩ := hfits
    exact beginValue?_spec h
  case h_3 => exact beginValue?_spec h
  case h_4 =>
    obtain ⟨outer, rfl⟩ := hfits
    cases h
    exact ⟨by simp [readTokens, Tree.tokens, memberTokens, bracketed], trivial⟩
  case h_5 l =>
    obtain ⟨outer, rfl⟩ := hfits
    obtain ⟨n, hname, h⟩ := Option.map_eq_some_iff.mp h
    cases h
    exact ⟨by simp [readTokens, nameToken_of_name? hname], trivial⟩
  case h_6 members l =>
    obtain ⟨n, hname, h⟩ := Option.map_eq_some_iff.mp h
    cases h
    exact ⟨by simp [readTokens, nameToken_of_name? hname], trivial⟩
  case h_7 members n =>
    cases h
    exact ⟨by simp [readTokens, openTokens], trivial⟩
  case h_8 v => exact continueAfter?_spec h
  case h_9 => cases h

/-- What is built has the tokens that have been read and those that follow. -/
theorem build?_spec {ts : List Token} {v : Tree} :
    ∀ {frames : List Frame} {place : Place}, build? frames place ts = some v →
      Fits frames place → v.tokens = readTokens frames place ++ ts := by
  induction ts with
  | nil =>
    intro frames place h hfits
    unfold build? at h
    split at h
    case h_1 => cases h; exact (List.append_nil _).symm
    case h_2 => cases h
    case h_3 => contradiction
  | cons t ts ih =>
    intro frames place h hfits
    rw [build?_cons] at h
    obtain ⟨⟨frames', place'⟩, hstep, hbuild⟩ := Option.bind_eq_some_iff.mp h
    obtain ⟨hread, hfits'⟩ := step?_spec hstep hfits
    rw [ih hbuild hfits', hread, List.append_assoc, List.singleton_append]

/-- A text is read as the tree whose tokens it has. -/
theorem readTree?_eq_some_iff {text : String} {t : Tree} :
    readTree? text = some t ↔ lex? text.toList = some t.tokens := by
  rw [readTree?, Option.bind_eq_some_iff]
  constructor
  · rintro ⟨ts, hlex, hbuild⟩
    rw [build?_spec hbuild trivial]
    exact hlex
  · intro hlex
    refine ⟨t.tokens, hlex, ?_⟩
    have hbuild := readable t [] []
    rw [List.append_nil] at hbuild
    rw [hbuild]
    rfl

/-! ## Trees of values -/

mutual

/-- The tree of a value. -/
def treeOf : Json → Tree
  | null => .leaf .null
  | bool b => .leaf (.bool b)
  | int i => .leaf (.int i)
  | float x => .leaf (.float x)
  | str s => .leaf (.str s.toList)
  | arr items => .arr (itemTrees items)
  | obj members => .obj (memberTrees members)

/-- The trees of the items of an array. -/
def itemTrees : List Json → List Tree
  | [] => []
  | j :: rest => treeOf j :: itemTrees rest

/-- The trees of the members of an object. -/
def memberTrees : List (String × Json) → List (Option String × Tree)
  | [] => []
  | (name, j) :: rest => (some name, treeOf j) :: memberTrees rest

end

theorem itemTrees_eq (items : List Json) : itemTrees items = items.map treeOf := by
  induction items with
  | nil => rfl
  | cons j items ih => rw [itemTrees, ih, List.map_cons]

theorem memberTrees_eq (members : List (String × Json)) :
    memberTrees members = members.map fun m => (some m.1, treeOf m.2) := by
  induction members with
  | nil => rfl
  | cons m members ih => rw [memberTrees, ih, List.map_cons]

/-- A leaf is read as the value whose tree it is. -/
theorem json?_leaf {l : Leaf} {j : Json} : l.json? = some j ↔ Tree.leaf l = treeOf j := by
  cases l <;> cases j <;> simp [Leaf.json?, treeOf, eq_comm, String.ext_iff]

/-- A tree is read as the value whose tree it is. -/
theorem json?_eq_some_iff {t : Tree} {j : Json} : t.json? = some j ↔ t = treeOf j := by
  induction t using Tree.nested_induction generalizing j with
  | leaf l => exact json?_leaf
  | arr items h =>
    have hitems : ∀ js, itemsJson? items = some js ↔ items = itemTrees js := by
      induction items with
      | nil => intro js; cases js <;> simp [itemsJson?, itemTrees]
      | cons t items ih =>
        obtain ⟨ht, hrest⟩ := List.forall_mem_cons.mp h
        intro js
        cases js <;> simp [itemsJson?, itemTrees, ht, ih hrest, Option.bind_eq_some_iff]
    cases j <;> simp [Tree.json?, treeOf, hitems]
  | obj members h =>
    have hmembers : ∀ js, membersJson? members = some js ↔ members = memberTrees js := by
      induction members with
      | nil => intro js; cases js <;> simp [membersJson?, memberTrees]
      | cons m members ih =>
        obtain ⟨hm, hrest⟩ := List.forall_mem_cons.mp h
        intro js
        cases js <;>
          simp [membersJson?, memberTrees, hm, ih hrest, Option.bind_eq_some_iff, Prod.ext_iff,
            and_assoc]
    cases j <;> simp [Tree.json?, treeOf, hmembers]

/-- All of a text is read if its tokens are those of a value that is not nested too deep. -/
theorem read?_eq_some_iff {text : String} {j : Json} :
    read? text = some j ↔
      lex? text.toList = some (treeOf j).tokens ∧ (treeOf j).depth < depthLimit := by
  simp only [read?, Option.bind_eq_some_iff, Option.ite_none_right_eq_some, json?_eq_some_iff,
    readTree?_eq_some_iff]
  constructor
  · rintro ⟨t, hlex, hdepth, rfl⟩
    exact ⟨hlex, hdepth⟩
  · rintro ⟨hlex, hdepth⟩
    exact ⟨_, hlex, hdepth, rfl⟩

end VisualNovel.Json
