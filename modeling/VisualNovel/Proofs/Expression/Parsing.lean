import Mathlib
import VisualNovel.Proofs.Expression.Assignments

/-
  The readers of expressions and of lists of assignments accept the texts of the grammar and no
  others, with the trees of the grammar; and where a text is at fault is where its tokens go wrong.
  The tokens of a text are at the bytes at which they are spelled (`lex_beginsAt`), and its signs of
  assignments are those that the grammar knows (`signed_of_lex`).
-/

namespace VisualNovel.Expression

open Text Reading

/-! ## The tokens of a text -/

/-- A token is spelled in the text from the byte with its offset on. -/
def BeginsAt (source : String) (placed : Placed) : Prop :=
  ∃ before c behind l, source.toList = before ++ c :: behind ∧ placed.1 = utf8Length before ∧
    firstLexeme c behind = .ok l ∧ placed.2 = l.token

theorem utf8Length_append (s s' : List Char) :
    utf8Length (s ++ s') = utf8Length s + utf8Length s' := by
  induction s with
  | nil => exact (Nat.zero_add _).symm
  | cons c s ih => exact (congrArg (c.utf8Size + ·) ih).trans (Nat.add_assoc _ _ _).symm

/-- A lexeme splits the text into its spelling and the rest. -/
def Lexeme.Splits (l : Lexeme) (s : List Char) : Prop := l.spelling ++ l.rest = s

theorem splits_integerLexeme {digits s : List Char} {l : Lexeme}
    (h : integerLexeme digits s = .ok l) : l.Splits (digits ++ s) := by
  unfold integerLexeme at h
  split at h
  · obtain rfl := Except.ok.inj h
    rfl
  · cases h

theorem splits_floatLexeme (whole s : List Char) :
    (floatLexeme whole s).Splits (whole ++ '.' :: s) := by
  simp [Lexeme.Splits, floatLexeme]

theorem splits_numberLexeme {c : Char} {s : List Char} {l : Lexeme}
    (h : numberLexeme c s = .ok l) : l.Splits (c :: s) := by
  have hs : c :: s = (c :: s.takeWhile Char.isDigit) ++ s.dropWhile Char.isDigit := by simp
  rw [hs]
  unfold numberLexeme at h
  dsimp only at h
  split at h
  · rename_i rest hrest
    rw [hrest]
    split at h
    · obtain rfl := Except.ok.inj h
      exact splits_floatLexeme _ _
    · exact splits_integerLexeme h
  · exact splits_integerLexeme h

theorem splits_quotedLexeme {q : Char} {s : List Char} {l : Lexeme}
    (h : quotedLexeme q s = .ok l) : l.Splits (q :: s) := by
  have hs : s = s.takeWhile (· != q) ++ s.dropWhile (· != q) := by simp
  unfold quotedLexeme at h
  dsimp only at h
  split at h
  · cases h
  · rename_i d rest hrest
    have hd : d = q := by
      have hhead := List.head?_dropWhile_not (· != q) s
      rw [hrest] at hhead
      simpa using hhead
    obtain rfl := Except.ok.inj h
    rw [hrest, hd] at hs
    simpa [Lexeme.Splits] using hs.symm

theorem splits_shortLexeme {c : Char} {s : List Char} {l : Lexeme}
    (h : shortLexeme c s = .ok l) : l.Splits (c :: s) := by
  unfold shortLexeme at h
  split at h
  · obtain rfl := Except.ok.inj h
    rfl
  · cases h

theorem splits_signLexeme {c : Char} {s : List Char} {l : Lexeme}
    (h : signLexeme c s = .ok l) : l.Splits (c :: s) := by
  unfold signLexeme at h
  split at h
  · exact splits_shortLexeme h
  · split at h
    · obtain rfl := Except.ok.inj h
      rfl
    · exact splits_shortLexeme h

theorem splits_firstLexeme {c : Char} {s : List Char} {l : Lexeme}
    (h : firstLexeme c s = .ok l) : l.Splits (c :: s) := by
  unfold firstLexeme at h
  split at h
  · obtain rfl := Except.ok.inj h
    simp [Lexeme.Splits]
  split at h
  · exact splits_numberLexeme h
  split at h
  · exact splits_quotedLexeme h
  split at h
  · rename_i hpoint
    have hc : c = '.' := by simp_all
    obtain rfl := Except.ok.inj h
    rw [hc]
    exact splits_floatLexeme [] s
  · exact splits_signLexeme h

theorem lexFrom_beginsAt {source : String} {offset : Nat} {s : List Char} {tokens : List Placed}
    (h : lexFrom source offset s = .ok tokens) (before : List Char)
    (hsource : source.toList = before ++ s) (hoffset : offset = utf8Length before) :
    ∀ placed ∈ tokens, BeginsAt source placed := by
  fun_induction lexFrom source offset s generalizing tokens before with
  | case1 =>
    obtain rfl := Except.ok.inj h
    simp
  | case2 offset c rest hgap ih =>
    refine ih h (before ++ [c]) (by rw [hsource, List.append_cons]) ?_
    rw [utf8Length_append, hoffset]
    rfl
  | case3 => cases h
  | case4 offset c rest hgap l hl hle ih =>
    cases hrest : lexFrom source (offset + utf8Length l.spelling) l.rest with
    | error =>
      rw [hrest] at h
      cases h
    | ok tokens' =>
      rw [hrest] at h
      obtain rfl := Except.ok.inj h
      have hsplits : l.spelling ++ l.rest = c :: rest := splits_firstLexeme hl
      intro placed hmem
      rcases List.mem_cons.mp hmem with rfl | hmem
      · exact ⟨before, c, rest, l, hsource, hoffset, hl, rfl⟩
      · refine ih hrest (before ++ l.spelling) ?_ ?_ placed hmem
        · rw [List.append_assoc, hsplits, hsource]
        · rw [utf8Length_append, hoffset]

/-- The tokens of a text are spelled at their offsets. -/
theorem lex_beginsAt {source : String} {tokens : List Placed} (h : lex source = .ok tokens) :
    ∀ placed ∈ tokens, BeginsAt source placed :=
  lexFrom_beginsAt h [] rfl rfl

/-! ## Signs of assignments -/

theorem longSign_mem {c d : Char} {op : Option BinaryOp} (h : longSign? c d = some (.assign op)) :
    op ∈ assignments := by
  unfold longSign? at h
  split at h <;> first | (obtain rfl := Token.assign.inj (Option.some.inj h); decide) | cases h

theorem shortSign_mem {c : Char} {op : Option BinaryOp} (h : shortSign? c = some (.assign op)) :
    op ∈ assignments := by
  unfold shortSign? at h
  split at h <;> first | (obtain rfl := Token.assign.inj (Option.some.inj h); decide) | cases h

theorem wordToken_ne_assign (word : List Char) (op : Option BinaryOp) :
    wordToken word ≠ .assign op := by
  unfold wordToken
  dsimp only
  split
  · exact Token.noConfusion
  · split <;> exact Token.noConfusion

theorem integerLexeme_ne_assign {digits s : List Char} {l : Lexeme}
    (h : integerLexeme digits s = .ok l) (op : Option BinaryOp) : l.token ≠ .assign op := by
  unfold integerLexeme at h
  split at h
  · obtain rfl := Except.ok.inj h
    exact Token.noConfusion
  · cases h

theorem numberLexeme_ne_assign {c : Char} {s : List Char} {l : Lexeme}
    (h : numberLexeme c s = .ok l) (op : Option BinaryOp) : l.token ≠ .assign op := by
  unfold numberLexeme at h
  dsimp only at h
  split at h
  · split at h
    · obtain rfl := Except.ok.inj h
      exact Token.noConfusion
    · exact integerLexeme_ne_assign h op
  · exact integerLexeme_ne_assign h op

theorem quotedLexeme_ne_assign {q : Char} {s : List Char} {l : Lexeme}
    (h : quotedLexeme q s = .ok l) (op : Option BinaryOp) : l.token ≠ .assign op := by
  unfold quotedLexeme at h
  dsimp only at h
  split at h
  · cases h
  · obtain rfl := Except.ok.inj h
    exact Token.noConfusion

theorem shortLexeme_assign_mem {c : Char} {s : List Char} {l : Lexeme}
    (h : shortLexeme c s = .ok l) {op : Option BinaryOp} (hop : l.token = .assign op) :
    op ∈ assignments := by
  unfold shortLexeme at h
  split at h
  · rename_i t hsign
    obtain rfl := Except.ok.inj h
    have ht : t = .assign op := hop
    exact shortSign_mem (ht ▸ hsign)
  · cases h

theorem signLexeme_assign_mem {c : Char} {s : List Char} {l : Lexeme}
    (h : signLexeme c s = .ok l) {op : Option BinaryOp} (hop : l.token = .assign op) :
    op ∈ assignments := by
  unfold signLexeme at h
  split at h
  · exact shortLexeme_assign_mem h hop
  · split at h
    · rename_i t hsign
      obtain rfl := Except.ok.inj h
      have ht : t = .assign op := hop
      exact longSign_mem (ht ▸ hsign)
    · exact shortLexeme_assign_mem h hop

theorem firstLexeme_assign_mem {c : Char} {s : List Char} {l : Lexeme}
    (h : firstLexeme c s = .ok l) {op : Option BinaryOp} (hop : l.token = .assign op) :
    op ∈ assignments := by
  unfold firstLexeme at h
  split at h
  · obtain rfl := Except.ok.inj h
    exact absurd hop (wordToken_ne_assign _ op)
  split at h
  · exact absurd hop (numberLexeme_ne_assign h op)
  split at h
  · exact absurd hop (quotedLexeme_ne_assign h op)
  split at h
  · obtain rfl := Except.ok.inj h
    cases hop
  · exact signLexeme_assign_mem h hop

/-- The signs of assignments in a text are those of the grammar. -/
theorem signed_of_lex {source : String} {tokens : List Placed} (h : lex source = .ok tokens) :
    Signed (tokens.map Prod.snd) := by
  intro op hmem
  obtain ⟨placed, hplaced, htoken⟩ := List.mem_map.mp hmem
  obtain ⟨before, c, behind, l, -, -, hl, hplacedtoken⟩ := lex_beginsAt h placed hplaced
  exact firstLexeme_assign_mem hl (hplacedtoken ▸ htoken)

/-! ## Expressions -/

/-- Reading tokens to a tree is reading them all, to an end. -/
theorem readTree_eq_ok (stop : Nat) {r : Reading} {tokens : List Placed} {t : Tree} :
    readTree stop r tokens = .ok t ↔
      ∃ next, r.readAll (tokens.map Prod.snd) = some next ∧ next.Ends t := by
  induction tokens generalizing r with
  | nil =>
    simp only [List.map_nil, readAll, Option.some.injEq, exists_eq_left', ← finish_eq_ok, readTree]
    cases r.finish <;> simp
  | cons placed tokens ih =>
    obtain ⟨offset, token⟩ := placed
    simp only [List.map_cons, readAll, readTree]
    cases r.feed token with
    | more next => exact ih
    | ended | fault => simp

/-- Where the reader of expressions stops, tokens cannot be read on. -/
theorem goesWrong_of_readTree {stop : Nat} {r : Reading} {tokens : List Placed}
    {fault : PlacedFault} (h : readTree stop r tokens = .error fault) :
    GoesWrongAt (fun ts => ∃ next, r.readAll ts = some next) stop tokens fault.1 := by
  induction tokens generalizing r with
  | nil =>
    have hstop : fault.1 = stop := by
      unfold readTree at h
      split at h
      · cases h
      · rw [← Except.error.inj h]
    exact hstop ▸ goesWrong_at_end ⟨r, rfl⟩
  | cons placed tokens ih =>
    obtain ⟨offset, token⟩ := placed
    unfold readTree at h
    split at h
    · rename_i next hfeed
      refine (ih h).after fun ts => ?_
      rw [readAll_cons hfeed]
    · rename_i t hfeed
      obtain rfl := Except.error.inj h
      exact goesWrong_here ⟨r, rfl⟩ (by simp [readAll, hfeed])
    · rename_i fault' hfeed
      obtain rfl := Except.error.inj h
      exact goesWrong_here ⟨r, rfl⟩ (by simp [readAll, hfeed])

/-- Tokens have at most one structure. -/
theorem IsExpression.unique {ts : List Token} {t t' : Tree} (h : IsExpression ts t)
    (h' : IsExpression ts t') : t = t' := by
  have hread : ∀ {t}, IsExpression ts t → readTree 0 .start (ts.map (0, ·)) = .ok t := by
    intro t h
    rw [readTree_eq_ok, List.map_map]
    simpa [Function.comp_def] using h.read
  exact Except.ok.inj ((hread h).symm.trans (hread h'))

/-! ## Texts -/

section Texts

variable {source : String} {tokens : List Placed} (hlex : lex source = .ok tokens)

include hlex

theorem parse_eq_ok {e : Expression} : parse source = .ok e ↔
    e.source = trim source ∧ IsExpression (tokens.map Prod.snd) e.tree := by
  obtain ⟨text, tree⟩ := e
  rw [isExpression_iff, ← readTree_eq_ok (byteLength source), parse, hlex]
  simp only [Except.bind]
  cases readTree (byteLength source) .start tokens with
  | ok t => simp [eq_comm]
  | error fault => simp

theorem parse_of_not_isExpression (h : ∀ t, ¬ IsExpression (tokens.map Prod.snd) t) :
    ∃ offset fault, parse source = .error (.malformed source offset fault) ∧
      GoesWrongAt BeginsExpression (byteLength source) tokens offset := by
  cases hread : readTree (byteLength source) .start tokens with
  | ok t => exact absurd (isExpression_iff.mpr ((readTree_eq_ok _).mp hread)) (h t)
  | error fault =>
    refine ⟨fault.1, fault.2, ?_, ?_⟩
    · rw [parse, hlex]
      simp only [Except.bind, hread]
      rfl
    · exact (goesWrong_of_readTree hread).congr fun ts _ => beginsExpression_iff

theorem Statements.parse_eq_ok {s : Statements} : Statements.parse source = .ok s ↔
    s.source = trim source ∧ AreStatements (tokens.map Prod.snd) s.assignments := by
  obtain ⟨text, as⟩ := s
  have hreads := reads_before_iff (signed_of_lex hlex) as
  rw [← readAssignments_eq_ok (byteLength source)] at hreads
  have hsome : AreStatements (tokens.map Prod.snd) as → as ≠ [] := AreStatements.ne_nil
  rw [Statements.parse, hlex]
  simp only [Except.bind]
  generalize readAssignments (byteLength source) .before tokens = read at hreads
  constructor
  · intro h
    split at h
    · cases h
    · rename_i as' has'
      obtain ⟨rfl, rfl⟩ := Statements.mk.inj (Except.ok.inj h)
      have hlist := hreads.mp rfl
      exact ⟨rfl, hlist.resolve_left fun hnone => has' hnone.2⟩
    · cases h
  · rintro ⟨rfl, has⟩
    obtain rfl := hreads.mpr (Or.inr has)
    have has' := hsome has
    split
    · rename_i hread
      exact absurd (Except.ok.inj hread) has'
    · rename_i hread
      rw [← Except.ok.inj hread]
    · rename_i hread
      cases hread

theorem Statements.parse_of_not_areStatements
    (h : ∀ as, ¬ AreStatements (tokens.map Prod.snd) as) :
    ∃ offset fault, Statements.parse source = .error (.malformed source offset fault) ∧
      (Blank (tokens.map Prod.snd) ∧ offset = 0 ∨ ¬ Blank (tokens.map Prod.snd) ∧
        GoesWrongAt BeginsStatements (byteLength source) tokens offset) := by
  have hsigned := signed_of_lex hlex
  rw [Statements.parse, hlex]
  simp only [Except.bind]
  cases hread : readAssignments (byteLength source) .before tokens with
  | ok as =>
    rcases (reads_before_iff hsigned as).mp ((readAssignments_eq_ok _).mp hread) with ⟨hblank, rfl⟩ | has
    · exact ⟨0, _, rfl, Or.inl ⟨hblank, rfl⟩⟩
    · exact absurd has (h as)
  | error fault =>
    refine ⟨fault.1, fault.2, rfl, Or.inr ⟨fun hblank => ?_, ?_⟩⟩
    · have hnone : readAssignments (byteLength source) .before tokens = .ok [] :=
        (readAssignments_eq_ok _).mpr ((reads_before_iff hsigned []).mpr (Or.inl ⟨hblank, rfl⟩))
      rw [hread] at hnone
      cases hnone
    · exact (goesWrong_of_readAssignments hread).congr fun ts hts =>
        beginsStatements_iff (hsigned.of_prefix hts)

end Texts

/-- The readers accept the expressions and the lists of assignments of the grammar with what they
    are, and nothing else; any other text is at fault at the byte at which its tokens go wrong, and
    a list without assignments at its beginning. -/
theorem parsers_follow_grammar {source : String} {tokens : List Placed}
    (hlex : lex source = .ok tokens) :
    (∀ placed ∈ tokens, BeginsAt source placed) ∧
    (∀ e, parse source = .ok e ↔
      e.source = trim source ∧ IsExpression (tokens.map Prod.snd) e.tree) ∧
    ((∀ t, ¬ IsExpression (tokens.map Prod.snd) t) →
      ∃ offset fault, parse source = .error (.malformed source offset fault) ∧
        GoesWrongAt BeginsExpression (byteLength source) tokens offset) ∧
    (∀ s, Statements.parse source = .ok s ↔
      s.source = trim source ∧ AreStatements (tokens.map Prod.snd) s.assignments) ∧
    ((∀ as, ¬ AreStatements (tokens.map Prod.snd) as) →
      ∃ offset fault, Statements.parse source = .error (.malformed source offset fault) ∧
        (Blank (tokens.map Prod.snd) ∧ offset = 0 ∨ ¬ Blank (tokens.map Prod.snd) ∧
          GoesWrongAt BeginsStatements (byteLength source) tokens offset)) :=
  ⟨lex_beginsAt hlex, fun _ => parse_eq_ok hlex, parse_of_not_isExpression hlex,
    fun _ => Statements.parse_eq_ok hlex, Statements.parse_of_not_areStatements hlex⟩

set_option maxRecDepth 10000 in
/-- In `a-b-c` the first two belong together. -/
theorem subtractions_group_left : parse "a-b-c" =
    .ok ⟨"a-b-c", .binary .sub (.binary .sub (.name "a") (.name "b")) (.name "c")⟩ := by
  have hlex : lex "a-b-c" = .ok [(0, .name "a"), (1, .operator .sub), (2, .name "b"),
    (3, .operator .sub), (4, .name "c")] := by cbv
  obtain ⟨-, hexpression, -⟩ := parsers_follow_grammar hlex
  have hname : ∀ s rank, rank ≤ primaryRank → Derives rank [.name s] (.name s) :=
    fun s _ hle => (Derives.name s).of_le hle
  have hfirst : Derives 4 ([.name "a"] ++ .operator .sub :: [.name "b"])
      (.binary .sub (.name "a") (.name "b")) :=
    .join (by decide) (hname "a" 4 (by decide)) (hname "b" 5 (by decide))
  have hboth : Derives 4 ([.name "a", .operator .sub, .name "b"] ++ .operator .sub :: [.name "c"])
      (.binary .sub (.binary .sub (.name "a") (.name "b")) (.name "c")) :=
    .join (by decide) hfirst (hname "c" 5 (by decide))
  exact (hexpression _).mpr ⟨by decide +kernel, hboth.of_le (Nat.zero_le _)⟩

end VisualNovel.Expression
