import Mathlib
import VisualNovel.Proofs.Expression.Seams

/-
  What is spelled is read. `Spells` says of a token and a text that the rules of the tokens allow
  this spelling of it, without a reader. Tokens that are spelled one after the other, with blanks
  between any two of them, are the tokens of the text, each at the number of bytes that its spelling
  has before it (`lex_layout`).
-/

namespace VisualNovel.Expression

open Text Decimal

/-! ## The rules -/

/-- The words for what is true. -/
def trueWords : List String := ["true", "True", "TRUE"]

/-- The words for what is false. -/
def falseWords : List String := ["false", "False", "FALSE"]

/-- The value of a number with a point: that of all its digits, moved by the number of places, to
    the nearest of the numbers there are. -/
def pointedValue (whole places : List Char) : Float :=
  Float.ofBits (UInt64.ofNat
    (BinaryFormat.double.nearestDecimal (Nat.ofDigitChars 10 (whole ++ places) 0) (-places.length)))

/-- The text is a spelling of the token. -/
inductive Spells : Token → List Char → Prop
  | true {word : String} (h : word ∈ trueWords) : Spells (.literal (.bool true)) word.toList
  | false {word : String} (h : word ∈ falseWords) : Spells (.literal (.bool false)) word.toList
  | int {digits : List Char} (hsome : digits ≠ []) (hdigits : ∀ c ∈ digits, c.isDigit = true)
      (hmax : Nat.ofDigitChars 10 digits 0 ≤ 9223372036854775807) :
      Spells (.literal (.int (Int64.ofInt (Nat.ofDigitChars 10 digits 0)))) digits
  | float {whole places : List Char} (hwhole : ∀ c ∈ whole, c.isDigit = true)
      (hsome : places ≠ []) (hplaces : ∀ c ∈ places, c.isDigit = true) :
      Spells (.literal (.float (pointedValue whole places))) (whole ++ '.' :: places)
  | str {q : Char} {body : List Char} (hq : q = '"' ∨ q = '\x27') (hbody : q ∉ body) :
      Spells (.literal (.str (String.ofList body))) (q :: body ++ [q])
  | name {c : Char} {s : List Char} (hc : isLetter c = true ∨ c = '_')
      (hs : ∀ d ∈ s, isLetter d = true ∨ isNumber d = true ∨ d = '_' ∨ d = '.')
      (hword : String.ofList (c :: s) ∉ trueWords ++ falseWords) :
      Spells (.name (String.ofList (c :: s))) (c :: s)
  | operator (op : BinaryOp) : Spells (.operator op) op.text.toList
  | bang : Spells .bang ['!']
  | assign : Spells (.assign none) ['=']
  | assignWith {op : BinaryOp} (h : op ∈ [BinaryOp.add, .sub, .mul, .div]) :
      Spells (.assign (some op)) (op.text.toList ++ ['='])
  | opening : Spells .opening ['(']
  | closing : Spells .closing [')']
  | separator {c : Char} (h : c ∈ separators) : Spells .separator [c]

/-! ## The first character -/

/-- What a name starts with, it can also go on with. -/
theorem continuesName_of_startsName {c : Char} (h : startsName c = true) :
    continuesName c = true := by
  rcases Bool.or_eq_true _ _ ▸ h with h | h <;> simp [continuesName, h]

theorem not_isGap_of_startsName {c : Char} (h : startsName c = true) : isGap c = false := by
  refine Bool.eq_false_iff.mpr fun hgap => ?_
  have happart := apart_of_mem (List.mem_append_left separators (isGap_iff.mp hgap))
  rw [continuesName_of_startsName h] at happart
  exact Bool.noConfusion happart.1

theorem not_isGap_of_isDigit {c : Char} (h : c.isDigit = true) : isGap c = false := by
  refine Bool.eq_false_iff.mpr fun hgap => ?_
  have happart := apart_of_mem (List.mem_append_left separators (isGap_iff.mp hgap))
  rw [h] at happart
  exact Bool.noConfusion happart.2.1

theorem toNat_lt_of_isDigit {c : Char} (h : c.isDigit = true) : c.toNat < 0x41 := by
  have hle : c.toNat ≤ 57 := (Char.isDigit_iff_toNat.mp h).2
  omega

/-- No name starts with a digit or a sign below the letters. -/
theorem startsName_of_toNat_lt {c : Char} (h : c.toNat < 0x41) : startsName c = false := by
  have hc : c ≠ '_' := by
    rintro rfl
    exact absurd h (by decide)
  simp [startsName, isLetter_of_toNat_lt h, hc]

/-! ## A spelling alone -/

/-- A text that starts like a name and goes on like one is one word. -/
theorem firstLexeme_word {c : Char} {s : List Char} (hc : startsName c = true)
    (hs : ∀ d ∈ s, continuesName d = true) :
    firstLexeme c s = .ok ⟨wordToken (c :: s), c :: s, []⟩ := by
  rw [firstLexeme, if_pos hc, List.takeWhile_eq_self_iff.mpr hs, List.dropWhile_eq_nil_iff.mpr hs]

/-- Digits that fit are read as their value. -/
theorem read?_digits {digits : List Char} (hsome : digits ≠ [])
    (hdigits : ∀ c ∈ digits, c.isDigit = true)
    (hmax : Nat.ofDigitChars 10 digits 0 ≤ 9223372036854775807) :
    IntRange.int64.read? digits = some (Nat.ofDigitChars 10 digits 0 : Int) := by
  have hsign : splitSign digits = (false, digits) := by
    unfold splitSign
    split
    · exact absurd (hdigits '-' List.mem_cons_self) (by decide)
    · exact absurd (hdigits '+' List.mem_cons_self) (by decide)
    · rfl
  have hread : readDigits? digits = some (Nat.ofDigitChars 10 digits 0) := by
    rw [readDigits?, if_pos]
    · rfl
    · simpa [hsome] using hdigits
  have hholds : IntRange.int64.holds (Nat.ofDigitChars 10 digits 0 : Int) = true := by
    simp [IntRange.holds, IntRange.int64]
    omega
  simp [IntRange.read?, hsign, hread, hholds]

/-- A number with a point has its value. -/
theorem readFloat?_pointed {whole places : List Char} (hwhole : ∀ c ∈ whole, c.isDigit = true)
    (hsome : places ≠ []) (hplaces : ∀ c ∈ places, c.isDigit = true) :
    readFloat? (whole ++ '.' :: places) = some (pointedValue whole places) := by
  -- such a number begins with a digit or a point, so it has no sign and is no word
  obtain ⟨c, s, hs, hc⟩ :
      ∃ c s, whole ++ '.' :: places = c :: s ∧ (c.isDigit = true ∨ c = '.') := by
    cases whole with
    | nil => exact ⟨'.', places, rfl, Or.inr rfl⟩
    | cons c whole => exact ⟨c, _, rfl, Or.inl (hwhole c List.mem_cons_self)⟩
  have hsign : splitSign (c :: s) = (false, c :: s) := by
    unfold splitSign
    split
    · rename_i hminus
      exact absurd ((List.cons.inj hminus).1 ▸ hc) (by decide)
    · rename_i hplus
      exact absurd ((List.cons.inj hplus).1 ▸ hc) (by decide)
    · rfl
  have hlower : c.toLower = c := by
    refine Char.toLower_eq_of_not_isUpper fun hupper => ?_
    have hlt : c.toNat < 0x41 := hc.elim toNat_lt_of_isDigit fun h => h ▸ by decide
    simp only [Char.isUpper, decide_eq_true_eq] at hupper
    exact absurd hlt (Nat.not_lt.mpr (UInt32.le_iff_toNat_le.mp hupper.1))
  have hn : c ≠ 'n' := fun h => absurd (h ▸ hc) (by decide)
  have hi : c ≠ 'i' := fun h => absurd (h ▸ hc) (by decide)
  have hunsigned : BinaryFormat.double.readUnsigned? (whole ++ '.' :: places) =
      some (BinaryFormat.double.nearestDecimal (Nat.ofDigitChars 10 (whole ++ places) 0)
        (-places.length)) := by
    have hends : ∀ c ∈ ('.' :: places).head?, c.isDigit = false := fun c hc =>
      Option.some.inj hc ▸ rfl
    simp only [BinaryFormat.readUnsigned?, takeWhile_append_of_head hends,
      dropWhile_append_of_head hends, List.takeWhile_eq_self_iff.mpr hwhole,
      List.dropWhile_eq_nil_iff.mpr hwhole, List.nil_append,
      List.takeWhile_eq_self_iff.mpr hplaces, List.dropWhile_eq_nil_iff.mpr hplaces]
    simp [hsome, readExponent?, digitsValue, Nat.ofDigitChars]
  rw [hs] at hunsigned ⊢
  simp [readFloat?, BinaryFormat.read?, hsign, hlower, hn, hi, hunsigned, pointedValue]

/-! ## Spellings alone -/

section Alone

variable {s : List Char} {t : Token}

/-- The text is one token, which begins with its first character. -/
def ReadAlone (t : Token) (s : List Char) : Prop :=
  ∃ c rest, s = c :: rest ∧ isGap c = false ∧ firstLexeme c rest = .ok ⟨t, s, []⟩

theorem readAlone_word {c : Char} {s : List Char} (hc : startsName c = true)
    (hs : ∀ d ∈ s, continuesName d = true) : ReadAlone (wordToken (c :: s)) (c :: s) :=
  ⟨c, s, rfl, not_isGap_of_startsName hc, firstLexeme_word hc hs⟩

/-- Each of the words is read as a word. -/
theorem readAlone_truth {word : String} (h : word ∈ trueWords ++ falseWords) :
    ReadAlone (wordToken word.toList) word.toList := by
  have hwords : (trueWords ++ falseWords).all (fun w => w.toList.head?.any startsName &&
      w.toList.all continuesName) = true := by decide +kernel
  have hword := List.all_eq_true.mp hwords word h
  cases hs : word.toList with
  | nil => simp [hs] at hword
  | cons c s =>
    rw [hs, Bool.and_eq_true, List.all_eq_true] at hword
    exact readAlone_word hword.1 fun d hd => hword.2 d (List.mem_cons_of_mem c hd)

theorem not_mem_falseWords {word : String} (h : word ∈ trueWords) : word ∉ falseWords := by
  simp only [trueWords, List.mem_cons, List.not_mem_nil, or_false] at h
  rcases h with rfl | rfl | rfl <;> decide

/-- A word is a truth value if it is one of the six, and else a name. -/
theorem wordToken_eq (word : List Char) : wordToken word =
    if String.ofList word ∈ trueWords then .literal (.bool true)
    else if String.ofList word ∈ falseWords then .literal (.bool false)
    else .name (String.ofList word) := by
  simp [wordToken, trueWords, falseWords, or_assoc]

theorem readAlone_digits {digits : List Char} (hsome : digits ≠ [])
    (hdigits : ∀ c ∈ digits, c.isDigit = true)
    (hmax : Nat.ofDigitChars 10 digits 0 ≤ 9223372036854775807) :
    ReadAlone (.literal (.int (Int64.ofInt (Nat.ofDigitChars 10 digits 0)))) digits := by
  have hread := read?_digits hsome hdigits hmax
  obtain ⟨c, s, rfl⟩ := List.exists_cons_of_ne_nil hsome
  have hc := hdigits c List.mem_cons_self
  have hs : ∀ d ∈ s, d.isDigit = true := fun d hd => hdigits d (List.mem_cons_of_mem c hd)
  refine ⟨c, s, rfl, not_isGap_of_isDigit hc, ?_⟩
  simp [firstLexeme, startsName_of_toNat_lt (toNat_lt_of_isDigit hc), hc, numberLexeme,
    List.takeWhile_eq_self_iff.mpr hs, List.dropWhile_eq_nil_iff.mpr hs, integerLexeme, hread]

theorem startsWithDigit_of_all {places : List Char} (hsome : places ≠ [])
    (hplaces : ∀ c ∈ places, c.isDigit = true) : startsWithDigit places = true := by
  obtain ⟨c, s, rfl⟩ := List.exists_cons_of_ne_nil hsome
  exact hplaces c List.mem_cons_self

theorem floatLexeme_alone {whole places : List Char} (hwhole : ∀ c ∈ whole, c.isDigit = true)
    (hsome : places ≠ []) (hplaces : ∀ c ∈ places, c.isDigit = true) :
    floatLexeme whole places =
      ⟨.literal (.float (pointedValue whole places)), whole ++ '.' :: places, []⟩ := by
  simp [floatLexeme, List.takeWhile_eq_self_iff.mpr hplaces, List.dropWhile_eq_nil_iff.mpr hplaces,
    readFloat?_pointed hwhole hsome hplaces]

theorem readAlone_pointed {whole places : List Char} (hwhole : ∀ c ∈ whole, c.isDigit = true)
    (hsome : places ≠ []) (hplaces : ∀ c ∈ places, c.isDigit = true) :
    ReadAlone (.literal (.float (pointedValue whole places))) (whole ++ '.' :: places) := by
  have hfloat := floatLexeme_alone hwhole hsome hplaces
  have hdigit := startsWithDigit_of_all hsome hplaces
  cases whole with
  | nil =>
    refine ⟨'.', places, rfl, rfl, ?_⟩
    simp [firstLexeme, startsName_of_toNat_lt (c := '.') (by decide), hdigit, hfloat]
  | cons c whole =>
    have hc := hwhole c List.mem_cons_self
    have hs : ∀ d ∈ whole, d.isDigit = true := fun d hd => hwhole d (List.mem_cons_of_mem c hd)
    have hends : ∀ c ∈ ('.' :: places).head?, c.isDigit = false := fun c hc =>
      Option.some.inj hc ▸ rfl
    refine ⟨c, whole ++ '.' :: places, rfl, not_isGap_of_isDigit hc, ?_⟩
    simp [firstLexeme, startsName_of_toNat_lt (toNat_lt_of_isDigit hc), hc, numberLexeme,
      takeWhile_append_of_head hends, dropWhile_append_of_head hends,
      List.takeWhile_eq_self_iff.mpr hs, List.dropWhile_eq_nil_iff.mpr hs, hdigit, hfloat]

theorem readAlone_quoted {q : Char} {body : List Char} (hq : q = '"' ∨ q = '\x27')
    (hbody : q ∉ body) :
    ReadAlone (.literal (.str (String.ofList body))) (q :: body ++ [q]) := by
  have hall : ∀ d ∈ body, (d != q) = true := fun d hd => by
    simpa using fun h : d = q => hbody (h ▸ hd)
  have hends : ∀ d ∈ [q].head?, (d != q) = false := by simp
  have hlt : q.toNat < 0x41 := by rcases hq with rfl | rfl <;> decide
  have hdigit : q.isDigit = false := by rcases hq with rfl | rfl <;> rfl
  have hgap : isGap q = false := by rcases hq with rfl | rfl <;> rfl
  refine ⟨q, body ++ [q], rfl, hgap, ?_⟩
  simp [firstLexeme, startsName_of_toNat_lt hlt, hdigit, hq, quotedLexeme,
    takeWhile_append_of_head hends, dropWhile_append_of_head hends,
    List.takeWhile_eq_self_iff.mpr hall, List.dropWhile_eq_nil_iff.mpr hall]

/-- The characters that signs begin with. -/
def signs : List Char :=
  ['|', '&', '=', '!', '<', '>', '+', '-', '*', '/', '%', '(', ')', ',', ';']

theorem readAlone_sign {c : Char} {s : List Char} (hc : c ∈ signs)
    (hsign : signLexeme c s = .ok ⟨t, c :: s, []⟩) : ReadAlone t (c :: s) := by
  have hsigns : signs.all (fun c => !isGap c && !startsName c && !c.isDigit &&
      c != '"' && c != '\x27' && c != '.') = true := by decide +kernel
  have hother := List.all_eq_true.mp hsigns c hc
  simp only [Bool.and_eq_true, Bool.not_eq_true', bne_iff_ne] at hother
  obtain ⟨⟨⟨⟨⟨hgap, hname⟩, hdigit⟩, hdouble⟩, hsingle⟩, hpoint⟩ := hother
  refine ⟨c, s, rfl, hgap, ?_⟩
  simp [firstLexeme, hname, hdigit, hdouble, hsingle, hpoint, hsign]

/-- A spelling alone is read as the token that it spells. -/
theorem Spells.readAlone (h : Spells t s) : ReadAlone t s := by
  cases h with
  | @true word h =>
    have hread := readAlone_truth (List.mem_append_left falseWords h)
    rwa [wordToken_eq, String.ofList_toList, if_pos h] at hread
  | @false word h =>
    have hread := readAlone_truth (List.mem_append_right trueWords h)
    have hnot : word ∉ trueWords := fun h' => absurd h (not_mem_falseWords h')
    rwa [wordToken_eq, String.ofList_toList, if_neg hnot, if_pos h] at hread
  | int hsome hdigits hmax => exact readAlone_digits hsome hdigits hmax
  | float hwhole hsome hplaces => exact readAlone_pointed hwhole hsome hplaces
  | str hq hbody => exact readAlone_quoted hq hbody
  | @name c s hc hs hword =>
    have hread : ReadAlone (wordToken (c :: s)) (c :: s) :=
      readAlone_word (by simpa [startsName] using hc)
        fun d hd => by simpa [continuesName, or_assoc] using hs d hd
    rw [List.mem_append, not_or] at hword
    rwa [wordToken_eq, if_neg hword.1, if_neg hword.2] at hread
  | operator op => cases op <;> exact readAlone_sign (by decide) rfl
  | bang => exact readAlone_sign (by decide) rfl
  | assign => exact readAlone_sign (by decide) rfl
  | assignWith h =>
    simp only [List.mem_cons, List.not_mem_nil, or_false] at h
    rcases h with rfl | rfl | rfl | rfl <;> exact readAlone_sign (by decide) rfl
  | opening => exact readAlone_sign (by decide) rfl
  | closing => exact readAlone_sign (by decide) rfl
  | separator h =>
    simp only [separators, List.mem_cons, List.not_mem_nil, or_false] at h
    rcases h with rfl | rfl <;> exact readAlone_sign (by decide) rfl

end Alone

/-! ## Texts of spellings -/

/-- A token with a spelling of it and the blanks behind it. -/
structure Written where
  token : Token
  spelling : List Char
  gap : List Char
  spells : Spells token spelling
  blank : ∀ c ∈ gap, c ∈ blanks

/-- The text of tokens that are written one after the other. -/
def layout (written : List Written) : List Char := written.flatMap fun w => w.spelling ++ w.gap

theorem layout_cons (w : Written) (written : List Written) :
    layout (w :: written) = w.spelling ++ (w.gap ++ layout written) := by
  rw [layout, List.flatMap_cons, List.append_assoc]
  rfl

/-- Between any two of the tokens there are blanks. -/
def SetApart (written : List Written) : Prop := ∀ w ∈ written.dropLast, w.gap ≠ []

/-- The tokens, each with the number of bytes of the text before it. -/
def places (before : List Char) : List Written → List Placed
  | [] => []
  | w :: written =>
    ((String.ofList before).utf8ByteSize, w.token) ::
      places (before ++ (w.spelling ++ w.gap)) written

theorem utf8Length_eq (s : List Char) : utf8Length s = (String.ofList s).utf8ByteSize := by
  induction s with
  | nil => rfl
  | cons c s ih =>
    rw [String.ofList_cons, String.utf8ByteSize_append, String.utf8ByteSize_singleton, ← ih]
    rfl

theorem SetApart.of_cons {w : Written} {written : List Written} (h : SetApart (w :: written)) :
    SetApart written := by
  cases written with
  | nil => exact fun _ hw => nomatch hw
  | cons w' written => exact fun v hv => h v (List.mem_cons_of_mem w hv)

/-- Behind a spelling there is a blank or nothing. -/
theorem SetApart.startsApart {w : Written} {written : List Written} (h : SetApart (w :: written)) :
    StartsApart (w.gap ++ layout written) := by
  cases hgap : w.gap with
  | cons c gap =>
    have hc : c ∈ blanks := w.blank c (hgap ▸ List.mem_cons_self)
    exact startsApart_cons (List.mem_append_left separators hc)
  | nil =>
    cases written with
    | nil => exact startsApart_nil
    | cons w' written => exact absurd hgap (h w List.mem_cons_self)

/-- The tokens are read one after the other: each spelling alone, then the blanks behind it. -/
theorem lexFrom_layout (source : String) {written : List Written} (h : SetApart written)
    (before : List Char) :
    lexFrom source (utf8Length before) (layout written) = .ok (places before written) := by
  induction written generalizing before with
  | nil => exact lexFrom_nil _ _
  | cons w written ih =>
    obtain ⟨c, s, hs, hgap, hfirst⟩ := w.spells.readAlone
    have halone : lexFrom source (utf8Length before) w.spelling =
        .ok [(utf8Length before, w.token)] := by
      rw [hs, lexFrom_cons hgap hfirst, lexFrom_nil]
      rfl
    have hrest := ih h.of_cons (before ++ (w.spelling ++ w.gap))
    rw [utf8Length_append, utf8Length_append] at hrest
    rw [layout_cons, lexFrom_append halone h.startsApart, lexFrom_blanks _ _ w.blank,
      Nat.add_assoc, hrest, places, ← utf8Length_eq]
    rfl

/-- The tokens of a text that spells tokens, with blanks around them and between any two of them,
    are these tokens, in order, and each is placed at the byte at which its spelling begins. -/
theorem lex_layout (lead : List Char) (hlead : ∀ c ∈ lead, c ∈ blanks) (written : List Written)
    (h : SetApart written) :
    lex (String.ofList (lead ++ layout written)) = .ok (places lead written) := by
  rw [lex, String.toList_ofList, lexFrom_blanks _ _ hlead, Nat.zero_add]
  exact lexFrom_layout _ h lead

/-- A letter of two bytes moves what stands behind it, a text may contain the other quote and
    blanks, and a word that goes on is a name. -/
theorem tokens_of_mixed_text : lex " é >= '\"a b' ,\tTrue trues" =
    .ok [(1, .name "é"), (4, .operator .ge), (7, .literal (.str "\"a b")), (14, .separator),
      (16, .literal (.bool true)), (21, .name "trues")] := by
  have hspace : ∀ c ∈ [' '], c ∈ blanks := by simp [blanks]
  have hletter : isLetter 'é' = true := by decide +kernel
  have ht : isLetter 't' = true := by decide +kernel
  have hrues : "rues".toList.all isLetter = true := by decide +kernel
  exact lex_layout [' '] hspace
    [⟨_, ['é'], [' '], .name (Or.inl hletter) (by simp) (by decide), hspace⟩,
      ⟨_, _, [' '], .operator .ge, hspace⟩,
      ⟨_, '\x27' :: "\"a b".toList ++ ['\x27'], [' '], .str (Or.inr rfl) (by decide), hspace⟩,
      ⟨_, [','], ['\t'], .separator (by decide), by simp [blanks]⟩,
      ⟨_, "True".toList, [' '], .true (by decide), hspace⟩,
      ⟨_, 't' :: "rues".toList, [],
        .name (Or.inl ht) (fun d hd => Or.inl (List.all_eq_true.mp hrues d hd)) (by decide),
        by simp⟩]
    (by simp [SetApart])

end VisualNovel.Expression
