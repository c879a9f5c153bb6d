import VisualNovel.Expression.Statements

/-
  The grammar of expressions and of lists of assignments, said without a reader. Expressions come
  in ranks: those of the six ranks of operators between two operands, the loosest first, then those
  with an operator before them, then literals, names and what stands in parentheses. An expression
  of a rank is one of the next rank, or it has an expression of the same rank on the left of an
  operator of the rank and one of the next rank on its right.
-/

namespace VisualNovel.Expression

/-- The operators between two operands, rank by rank, the loosest first. -/
def ranks : List (List BinaryOp) :=
  [[.or], [.and], [.eq, .ne], [.lt, .le, .gt, .ge], [.add, .sub], [.mul, .div, .rem]]

/-- The rank of expressions with an operator before them. -/
def prefixRank : Nat := ranks.length

/-- The rank of literals, names and expressions in parentheses. -/
def primaryRank : Nat := prefixRank + 1

/-- The tokens are an expression of a rank, and the tree is its structure. -/
inductive Derives : Nat → List Token → Tree → Prop
  | join {rank : Nat} {op : BinaryOp} {ts us : List Token} {left right : Tree}
      (hop : op ∈ ranks.getD rank []) (hleft : Derives rank ts left)
      (hright : Derives (rank + 1) us right) :
      Derives rank (ts ++ .operator op :: us) (.binary op left right)
  | tighter {rank : Nat} {ts : List Token} {t : Tree} (h : Derives (rank + 1) ts t) :
      Derives rank ts t
  | not {ts : List Token} {t : Tree} (h : Derives prefixRank ts t) :
      Derives prefixRank (.bang :: ts) (.unary .not t)
  | neg {ts : List Token} {t : Tree} (h : Derives prefixRank ts t) :
      Derives prefixRank (.operator .sub :: ts) (.unary .neg t)
  | literal (v : Value) : Derives primaryRank [.literal v] (.literal v)
  | name (s : String) : Derives primaryRank [.name s] (.name s)
  | parens {ts : List Token} {t : Tree} (h : Derives 0 ts t) :
      Derives primaryRank (.opening :: (ts ++ [.closing])) t

/-- An expression of a rank is one of every looser rank. -/
theorem Derives.of_le {rank rank' : Nat} {ts : List Token} {t : Tree} (h : Derives rank ts t)
    (hle : rank' ≤ rank) : Derives rank' ts t := by
  induction rank with
  | zero =>
    obtain rfl := Nat.le_zero.mp hle
    exact h
  | succ rank ih =>
    rcases Nat.le_succ_iff.mp hle with hle | rfl
    · exact ih h.tighter hle
    · exact h

/-- The tokens are an expression. -/
def IsExpression (ts : List Token) (t : Tree) : Prop := Derives 0 ts t

/-! ## Assignments -/

/-- What an assignment is written with: `=`, `+=`, `-=`, `*=` or `/=`. -/
def assignments : List (Option BinaryOp) := [none, some .add, some .sub, some .mul, some .div]

/-- The tokens are an assignment. -/
inductive IsAssignment : List Token → Assignment → Prop
  | mk {op : Option BinaryOp} {ts : List Token} {t : Tree} (target : String)
      (hop : op ∈ assignments) (h : IsExpression ts t) :
      IsAssignment (.name target :: .assign op :: ts) ⟨target, op, t⟩

/-- The tokens are assignments with separators between them and perhaps behind them. -/
inductive AreAssignments : List Token → List Assignment → Prop
  | last {ts : List Token} {a : Assignment} (h : IsAssignment ts a) (n : Nat) :
      AreAssignments (ts ++ List.replicate n .separator) [a]
  | cons {ts us : List Token} {a : Assignment} {as : List Assignment} (h : IsAssignment ts a)
      (n : Nat) (hrest : AreAssignments us as) :
      AreAssignments (ts ++ List.replicate (n + 1) .separator ++ us) (a :: as)

/-- The tokens are at least one assignment, with any number of separators before them, at least
    one between them, and any number behind them. -/
def AreStatements (ts : List Token) (as : List Assignment) : Prop :=
  ∃ n us, ts = List.replicate n .separator ++ us ∧ AreAssignments us as

/-! ## Beginnings -/

/-- An expression can begin with the tokens. -/
def BeginsExpression (ts : List Token) : Prop := ∃ more t, IsExpression (ts ++ more) t

/-- A list of assignments can begin with the tokens. -/
def BeginsStatements (ts : List Token) : Prop := ∃ more as, AreStatements (ts ++ more) as

/-- Where tokens go wrong that have to begin in some way: at the first token with which they do
    not begin like that any more, or else at the end of the text. -/
def GoesWrongAt (begins : List Token → Prop) (stop : Nat) (tokens : List Placed)
    (offset : Nat) : Prop :=
  begins (tokens.map Prod.snd) ∧ offset = stop ∨
    ∃ before token behind, tokens = before ++ (offset, token) :: behind ∧
      begins (before.map Prod.snd) ∧ ¬ begins (before.map Prod.snd ++ [token])

theorem goesWrong_at_end {begins : List Token → Prop} {stop : Nat} (h : begins []) :
    GoesWrongAt begins stop [] stop := Or.inl ⟨h, rfl⟩

theorem goesWrong_here {begins : List Token → Prop} {stop offset : Nat} {token : Token}
    {behind : List Placed} (h : begins []) (htoken : ¬ begins [token]) :
    GoesWrongAt begins stop ((offset, token) :: behind) offset :=
  Or.inr ⟨[], token, behind, rfl, h, htoken⟩

/-- Tokens that go wrong behind a token go wrong at the same place with it. -/
theorem GoesWrongAt.after {begins begins' : List Token → Prop} {stop offset : Nat}
    {placed : Placed} {tokens : List Placed} (h : GoesWrongAt begins' stop tokens offset)
    (hcons : ∀ ts, begins (placed.2 :: ts) ↔ begins' ts) :
    GoesWrongAt begins stop (placed :: tokens) offset := by
  rcases h with ⟨hbegins, rfl⟩ | ⟨before, token, behind, rfl, hbegins, htoken⟩
  · exact Or.inl ⟨(hcons _).mpr hbegins, rfl⟩
  · exact Or.inr ⟨placed :: before, token, behind, rfl, (hcons _).mpr hbegins,
      fun h => htoken ((hcons _).mp h)⟩

/-- Where tokens go wrong depends on what begins with their prefixes. -/
theorem GoesWrongAt.congr {begins begins' : List Token → Prop} {stop offset : Nat}
    {tokens : List Placed} (h : GoesWrongAt begins' stop tokens offset)
    (hiff : ∀ ts, ts <+: tokens.map Prod.snd → (begins ts ↔ begins' ts)) :
    GoesWrongAt begins stop tokens offset := by
  rcases h with ⟨hbegins, rfl⟩ | ⟨before, token, behind, rfl, hbegins, htoken⟩
  · exact Or.inl ⟨(hiff _ (List.prefix_refl _)).mpr hbegins, rfl⟩
  · have hbefore : before.map Prod.snd <+: (before ++ (offset, token) :: behind).map Prod.snd :=
      ⟨token :: behind.map Prod.snd, by simp⟩
    have hwith : before.map Prod.snd ++ [token] <+:
        (before ++ (offset, token) :: behind).map Prod.snd := ⟨behind.map Prod.snd, by simp⟩
    exact Or.inr ⟨before, token, behind, rfl, (hiff _ hbefore).mpr hbegins,
      fun h => htoken ((hiff _ hwith).mp h)⟩

end VisualNovel.Expression
