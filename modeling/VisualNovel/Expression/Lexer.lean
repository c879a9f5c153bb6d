import VisualNovel.Decimal.Reading
import VisualNovel.Expression.Token
import VisualNovel.Text.Blank
import VisualNovel.Text.Letter

/-
  From text to tokens. Each token is the longest one that the rest of the text begins with:
  a word, a number, a text in quotes of either kind, or a sign. Spaces, tabs, line breaks and
  form feeds between tokens are skipped. Where no token begins, the text is at fault there.
-/

namespace VisualNovel.Expression

open Text Decimal

/-- What may stand between tokens. -/
def isGap (c : Char) : Bool :=
  c == ' ' || c == '\t' || c == '\r' || c == '\n' || c == '\x0c'

/-- A name starts with a letter or an underscore. -/
def startsName (c : Char) : Bool := isLetter c || c == '_'

/-- A name goes on with letters, numbers, underscores and points. -/
def continuesName (c : Char) : Bool := isLetter c || isNumber c || c == '_' || c == '.'

/-- A token with its spelling and the rest of the text. -/
structure Lexeme where
  token : Token
  spelling : List Char
  rest : List Char

/-- A word is one of the six spellings of a truth value, or a name. -/
def wordToken (word : List Char) : Token :=
  let s := String.ofList word
  if s = "true" || s = "True" || s = "TRUE" then .literal (.bool true)
  else if s = "false" || s = "False" || s = "FALSE" then .literal (.bool false)
  else .name s

/-- A text in quotes `q`; the text begins after the opening one. -/
def quotedLexeme (q : Char) (s : List Char) : Except (List Char) Lexeme :=
  let body := s.takeWhile (· != q)
  match s.dropWhile (· != q) with
  | [] => .error (q :: s)
  | _ :: rest => .ok ⟨.literal (.str (String.ofList body)), q :: body ++ [q], rest⟩

/-- A number with a point: digits before it or none, and at least one after it. -/
def floatLexeme (whole s : List Char) : Lexeme :=
  let places := s.takeWhile Char.isDigit
  let spelling := whole ++ '.' :: places
  ⟨.literal (.float ((readFloat? spelling).getD 0)), spelling, s.dropWhile Char.isDigit⟩

/-- Whether the text begins with a digit. -/
def startsWithDigit : List Char → Bool
  | c :: _ => c.isDigit
  | [] => false

/-- An integer without a sign, which has to fit into 64 bits. -/
def integerLexeme (digits rest : List Char) : Except (List Char) Lexeme :=
  match IntRange.int64.read? digits with
  | some i => .ok ⟨.literal (.int (Int64.ofInt i)), digits, rest⟩
  | none => .error digits

/-- A number, with a point if a digit follows it. The text begins with the digit `c`. -/
def numberLexeme (c : Char) (s : List Char) : Except (List Char) Lexeme :=
  let digits := c :: s.takeWhile Char.isDigit
  match s.dropWhile Char.isDigit with
  | '.' :: rest =>
    if startsWithDigit rest then .ok (floatLexeme digits rest)
    else integerLexeme digits ('.' :: rest)
  | rest => integerLexeme digits rest

/-- The signs of two characters. -/
def longSign? : Char → Char → Option Token
  | '|', '|' => some (.operator .or)
  | '&', '&' => some (.operator .and)
  | '=', '=' => some (.operator .eq)
  | '!', '=' => some (.operator .ne)
  | '<', '=' => some (.operator .le)
  | '>', '=' => some (.operator .ge)
  | '+', '=' => some (.assign (some .add))
  | '-', '=' => some (.assign (some .sub))
  | '*', '=' => some (.assign (some .mul))
  | '/', '=' => some (.assign (some .div))
  | _, _ => none

/-- The signs of one character. -/
def shortSign? : Char → Option Token
  | '<' => some (.operator .lt)
  | '>' => some (.operator .gt)
  | '+' => some (.operator .add)
  | '-' => some (.operator .sub)
  | '*' => some (.operator .mul)
  | '/' => some (.operator .div)
  | '%' => some (.operator .rem)
  | '!' => some .bang
  | '=' => some (.assign none)
  | '(' => some .opening
  | ')' => some .closing
  | ',' | ';' => some .separator
  | _ => none

/-- A sign of one character. -/
def shortLexeme (c : Char) (s : List Char) : Except (List Char) Lexeme :=
  match shortSign? c with
  | some t => .ok ⟨t, [c], s⟩
  | none => .error [c]

/-- A sign of two characters, or else of one. -/
def signLexeme (c : Char) (s : List Char) : Except (List Char) Lexeme :=
  match s with
  | [] => shortLexeme c []
  | d :: rest =>
    match longSign? c d with
    | some t => .ok ⟨t, [c, d], rest⟩
    | none => shortLexeme c (d :: rest)

/-- The token that the text `c :: s` begins with, or the characters that begin none. -/
def firstLexeme (c : Char) (s : List Char) : Except (List Char) Lexeme :=
  if startsName c then
    let word := c :: s.takeWhile continuesName
    .ok ⟨wordToken word, word, s.dropWhile continuesName⟩
  else if c.isDigit then numberLexeme c s
  else if c = '"' || c = '\x27' then quotedLexeme c s
  else if c = '.' && startsWithDigit s then .ok (floatLexeme [] s)
  else signLexeme c s

/-- A `dropWhile` is no longer than the list. -/
theorem length_dropWhile_le (p : Char → Bool) (s : List Char) :
    (s.dropWhile p).length ≤ s.length := by
  induction s with
  | nil => simp
  | cons c s ih =>
    rw [List.dropWhile_cons]
    split
    · exact Nat.le_succ_of_le ih
    · exact Nat.le_refl _

theorem length_rest_integerLexeme {digits s : List Char} {l : Lexeme}
    (h : integerLexeme digits s = .ok l) : l.rest.length = s.length := by
  unfold integerLexeme at h
  split at h
  · cases h; rfl
  · cases h

theorem length_rest_floatLexeme_le (whole s : List Char) :
    (floatLexeme whole s).rest.length ≤ s.length := length_dropWhile_le _ _

theorem length_rest_numberLexeme_le {c : Char} {s : List Char} {l : Lexeme}
    (h : numberLexeme c s = .ok l) : l.rest.length ≤ s.length := by
  have hle := length_dropWhile_le Char.isDigit s
  unfold numberLexeme at h
  dsimp only at h
  split at h
  · next rest hr =>
    rw [hr, List.length_cons] at hle
    split at h
    · cases h
      have := length_rest_floatLexeme_le (c :: s.takeWhile Char.isDigit) rest
      omega
    · rw [length_rest_integerLexeme h]; exact hle
  · rw [length_rest_integerLexeme h]; exact hle

theorem length_rest_quotedLexeme_le {q : Char} {s : List Char} {l : Lexeme}
    (h : quotedLexeme q s = .ok l) : l.rest.length ≤ s.length := by
  have hle := length_dropWhile_le (· != q) s
  unfold quotedLexeme at h
  dsimp only at h
  split at h
  · cases h
  · next rest hr =>
    rw [hr, List.length_cons] at hle
    cases h
    exact Nat.le_of_succ_le hle

theorem length_rest_shortLexeme {c : Char} {s : List Char} {l : Lexeme}
    (h : shortLexeme c s = .ok l) : l.rest.length = s.length := by
  unfold shortLexeme at h
  split at h
  · cases h; rfl
  · cases h

theorem length_rest_signLexeme_le {c : Char} {s : List Char} {l : Lexeme}
    (h : signLexeme c s = .ok l) : l.rest.length ≤ s.length := by
  unfold signLexeme at h
  split at h
  · exact Nat.le_of_eq (length_rest_shortLexeme h)
  · split at h
    · cases h; exact Nat.le_succ _
    · exact Nat.le_of_eq (length_rest_shortLexeme h)

/-- A token takes at least one character. -/
theorem length_rest_le {c : Char} {s : List Char} {l : Lexeme} (h : firstLexeme c s = .ok l) :
    l.rest.length ≤ s.length := by
  unfold firstLexeme at h
  split at h
  · cases h; exact length_dropWhile_le _ _
  split at h
  · exact length_rest_numberLexeme_le h
  split at h
  · exact length_rest_quotedLexeme_le h
  split at h
  · cases h; exact length_rest_floatLexeme_le [] s
  · exact length_rest_signLexeme_le h

/-- A token with the byte offset at which it begins. -/
abbrev Placed := Nat × Token

/-- The tokens of the rest `s` of `source`, which begins at byte `offset`. -/
def lexFrom (source : String) (offset : Nat) (s : List Char) :
    Except ExpressionError (List Placed) :=
  match s with
  | [] => .ok []
  | c :: rest =>
    if isGap c then lexFrom source (offset + c.utf8Size) rest
    else
      match h : firstLexeme c rest with
      | .error bad => .error (.malformed source offset (.unexpectedInput (String.ofList bad)))
      | .ok l =>
        have := length_rest_le h
        (lexFrom source (offset + utf8Length l.spelling) l.rest).map ((offset, l.token) :: ·)
  termination_by s.length

/-- The tokens of a text, each with its byte offset. -/
def lex (source : String) : Except ExpressionError (List Placed) :=
  lexFrom source 0 source.toList

end VisualNovel.Expression
