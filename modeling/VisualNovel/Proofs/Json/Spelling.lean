import VisualNovel.Json.Printer
import VisualNovel.Json.Token

/-
  Spelled tokens. The lexer reads what the printer writes for a text or an integer as one token,
  and passes over blanks (`Spells`). A number is spelled only if what stands behind it cannot belong
  to a number, so this is part of what is said of every spelling, and spellings can be put behind
  each other.
-/

namespace VisualNovel.Json

open Decimal

/-! ## Texts in quotes -/

/-- A control character is read off its number. -/
theorem hexUnit?_control :
    ∀ n < 0x20, hexUnit? '0' '0' (hexDigit (n / 16)) (hexDigit n) = some n := by
  decide

/-- An escaped character is read as the character. -/
theorem readString?_escapeChar (c : Char) (rest : List Char) :
    readString? none (escapeChar c ++ rest) =
      (readString? none rest).map fun r => (c :: r.1, r.2) := by
  unfold escapeChar
  -- the short escapes, one after the other
  repeat (split; · subst c; rfl)
  split
  · rename_i hcontrol
    have hhigh : isHighHalf c.toNat = false := by
      simp only [isHighHalf, Bool.and_eq_false_iff, decide_eq_false_iff_not]
      omega
    have hlow : isLowHalf c.toNat = false := by
      simp only [isLowHalf, Bool.and_eq_false_iff, decide_eq_false_iff_not]
      omega
    simp [readString?, hexUnit?_control _ hcontrol, hhigh, hlow]
  · rename_i hbackslash _ _ _ _ _ hcontrol
    simp [readString?, hbackslash, hcontrol]

/-- What is read up to the closing quote is the text that was put in quotes. -/
theorem readString?_quoted (s rest : List Char) :
    readString? none (s.flatMap escapeChar ++ '"' :: rest) = some (s, rest) := by
  induction s with
  | nil => rfl
  | cons c s ih =>
    rw [List.flatMap_cons, List.append_assoc, readString?_escapeChar, ih]
    rfl

/-! ## Integers -/

theorem isDigit_of_mem {n : Nat} {c : Char} (h : c ∈ Nat.toDigits 10 n) : c.isDigit = true :=
  Nat.isDigit_of_mem_toDigits (by decide) (by decide) h

/-- No number is written with a needless zero. -/
theorem head?_toDigits {n : Nat} (hn : n ≠ 0) : (Nat.toDigits 10 n).head? ≠ some '0' := by
  induction n using Nat.strongRecOn with
  | ind n ih =>
    rw [Nat.toDigits_eq_if (by decide)]
    split
    · rw [List.head?_singleton]
      exact fun h => hn (Nat.digitChar_eq_zero.mp (Option.some.inj h))
    · have hrest : n / 10 ≠ 0 := by omega
      rw [List.head?_append, Option.or_of_isSome (by simp)]
      exact ih (n / 10) (by omega) hrest

theorem splitMinus_toDigits (n : Nat) (rest : List Char) :
    splitMinus (Nat.toDigits 10 n ++ rest) = (false, Nat.toDigits 10 n ++ rest) := by
  cases hlist : Nat.toDigits 10 n with
  | nil => exact absurd hlist Nat.toDigits_ne_nil
  | cons c cs =>
    have hc : c ≠ '-' := by
      rintro rfl
      exact absurd (isDigit_of_mem (hlist ▸ List.mem_cons_self)) (by decide)
    simp [splitMinus, hc]

theorem isWholePart_toDigits (n : Nat) : isWholePart (Nat.toDigits 10 n) = true := by
  by_cases hn : n = 0
  · subst n
    rfl
  · have hhead := head?_toDigits hn
    have hdigits : (Nat.toDigits 10 n).all Char.isDigit = true :=
      List.all_eq_true.mpr fun _ => isDigit_of_mem
    cases hlist : Nat.toDigits 10 n with
    | nil => exact absurd hlist Nat.toDigits_ne_nil
    | cons c cs =>
      rw [hlist] at hhead hdigits
      have hc : c ≠ '0' := fun h => hhead (congrArg some h)
      simpa [isWholePart, hc] using hdigits

/-- What a number does not go on with. -/
def EndsNumber (rest : List Char) : Prop :=
  ∀ c, rest.head? = some c → c.isDigit = false ∧ c ≠ '.' ∧ c ≠ 'e' ∧ c ≠ 'E'

/-- The digits of a number are read up to where it ends. -/
theorem readNumber?_digits {negative : Bool} {n : Nat} {i : Int} {s rest : List Char}
    (hs : splitMinus s = (negative, Nat.toDigits 10 n ++ rest)) (hrest : EndsNumber rest)
    (hi : numberLeaf negative (Nat.toDigits 10 n) [] [] = .int i) :
    readNumber? s = some (.int i, rest) := by
  have hdigits : ∀ c ∈ Nat.toDigits 10 n, c.isDigit = true := fun _ => isDigit_of_mem
  have hplaces : splitPlaces? rest = some ([], rest) := by
    cases rest with
    | nil => rfl
    | cons c rest =>
      have hc := (hrest c rfl).2.1
      simp [splitPlaces?, hc]
  have hexponent : splitExponent? rest = some ([], rest) := by
    cases rest with
    | nil => rfl
    | cons c rest =>
      obtain ⟨-, -, hlower, hupper⟩ := hrest c rfl
      simp [splitExponent?, hlower, hupper]
  have hstop : rest.takeWhile Char.isDigit = [] ∧ rest.dropWhile Char.isDigit = rest := by
    cases rest with
    | nil => exact ⟨rfl, rfl⟩
    | cons c rest =>
      have hc := (hrest c rfl).1
      simp [hc]
  have hwhole : (Nat.toDigits 10 n ++ rest).takeWhile Char.isDigit = Nat.toDigits 10 n := by
    rw [List.takeWhile_append_of_pos hdigits, hstop.1, List.append_nil]
  have htail : (Nat.toDigits 10 n ++ rest).dropWhile Char.isDigit = rest := by
    rw [List.dropWhile_append_of_pos hdigits, hstop.2]
  simp [readNumber?, hs, hwhole, htail, isWholePart_toDigits, hplaces, hexponent, hi]

theorem digitsValue_toDigits (n : Nat) : digitsValue (Nat.toDigits 10 n) 0 = n :=
  Nat.ofDigitChars_ten_toDigits

theorem holds_iff {r : IntRange} {i : Int} : r.holds i = true ↔ r.low ≤ i ∧ i ≤ r.high := by
  simp [IntRange.holds]

/-- Whether an integer fits into 64 bits, signed or not. -/
def FitsWord (i : Int) : Prop := -9223372036854775808 ≤ i ∧ i ≤ 18446744073709551615

/-- An integer of 64 bits is read back. -/
theorem readNumber?_intText {i : Int} (hi : FitsWord i) {rest : List Char}
    (hrest : EndsNumber rest) :
    readNumber? ((intText i).toList ++ rest) = some (.int i, rest) := by
  unfold FitsWord at hi
  by_cases hneg : i < 0
  · have htext : (intText i).toList = '-' :: Nat.toDigits 10 i.natAbs := by
      simp [intText, hneg]
    have hvalue : -(i.natAbs : Int) = i := by omega
    have hrange : IntRange.int64.holds i = true :=
      holds_iff.mpr ⟨hi.1, show i ≤ 9223372036854775807 by omega⟩
    rw [htext]
    refine readNumber?_digits rfl hrest ?_
    simp only [numberLeaf, digitsValue_toDigits, hvalue, hrange, if_true]
    simp [Int.natAbs_eq_zero]
    omega
  · have htext : (intText i).toList = Nat.toDigits 10 i.natAbs := by simp [intText, hneg]
    have hvalue : (i.natAbs : Int) = i := by omega
    have hrange : IntRange.uint64.holds i = true :=
      holds_iff.mpr ⟨show 0 ≤ i by omega, hi.2⟩
    rw [htext]
    refine readNumber?_digits (splitMinus_toDigits _ rest) hrest ?_
    simp [numberLeaf, digitsValue_toDigits, hvalue, hrange]

/-! ## Spellings -/

/-- A text is read as these tokens if what stands behind it is of `P`. The limit of the lexer counts
    tokens and blanks, of which no text has more than characters. -/
def Spells (P : List Char → Prop) (s : List Char) (ts : List Token) : Prop :=
  ∃ k ≤ s.length, ∀ limit rest, P rest →
    lexWithin? (limit + k) (s ++ rest) = (lexWithin? limit rest).map (ts ++ ·)

/-- Anything may stand behind a text that does not end with a number. -/
def Anything (_ : List Char) : Prop := True

theorem endsNumber_nil : EndsNumber [] := fun _ hc => nomatch hc

theorem endsNumber_cons {c : Char} {s : List Char}
    (hc : c.isDigit = false ∧ c ≠ '.' ∧ c ≠ 'e' ∧ c ≠ 'E') : EndsNumber (c :: s) := by
  intro d hd
  obtain rfl := Option.some.inj hd
  exact hc

variable {P Q : List Char → Prop} {s t : List Char} {ts us : List Token}

theorem spells_nil : Spells P [] [] := ⟨0, Nat.le_refl 0, fun limit rest _ => by simp⟩

/-- Blanks are passed over. -/
theorem spells_blanks (h : ∀ c ∈ s, isSpace c = true) : Spells P s [] := by
  refine ⟨s.length, Nat.le_refl _, fun limit rest _ => ?_⟩
  induction s with
  | nil => simp
  | cons c s ih =>
    have hc := h c List.mem_cons_self
    rw [List.cons_append, List.length_cons, ← Nat.add_assoc, lexWithin?, if_pos hc]
    exact ih fun d hd => h d (List.mem_cons_of_mem c hd)

/-- What the lexer takes for a token. -/
theorem spells_token {c : Char} {t : Token} (hc : isSpace c = false)
    (h : ∀ rest, P rest → firstToken? (c :: s ++ rest) = some (t, rest)) :
    Spells P (c :: s) [t] := by
  refine ⟨1, Nat.le_add_left 1 s.length, fun limit rest hrest => ?_⟩
  have hfirst := h rest hrest
  rw [List.cons_append] at hfirst ⊢
  simp [lexWithin?, hc, hfirst]

/-- Less may stand behind. -/
theorem Spells.weaken (h : Spells P s ts) (hQ : ∀ rest, Q rest → P rest) : Spells Q s ts := by
  obtain ⟨k, hk, h⟩ := h
  exact ⟨k, hk, fun limit rest hrest => h limit rest (hQ rest hrest)⟩

/-- Spellings can be put behind each other, if the second may stand behind the first. -/
theorem Spells.append (hs : Spells P s ts) (ht : Spells Q t us)
    (hbehind : ∀ rest, Q rest → P (t ++ rest)) : Spells Q (s ++ t) (ts ++ us) := by
  obtain ⟨k, hk, hs⟩ := hs
  obtain ⟨m, hm, ht⟩ := ht
  refine ⟨m + k, by rw [List.length_append]; omega, fun limit rest hrest => ?_⟩
  rw [← Nat.add_assoc, List.append_assoc, hs _ _ (hbehind rest hrest), ht _ _ hrest,
    Option.map_map]
  congr 1
  funext vs
  exact (List.append_assoc ts us vs).symm

/-- Behind what does not end with a number. -/
theorem Spells.before (hs : Spells Anything s ts) (ht : Spells Q t us) :
    Spells Q (s ++ t) (ts ++ us) :=
  hs.append ht fun _ _ => trivial

/-- The tokens of a text that is spelled. -/
theorem Spells.lex? (h : Spells P s ts) (hP : P []) : lex? s = some ts := by
  obtain ⟨k, hk, h⟩ := h
  have hlex := h (s.length - k) [] hP
  rw [Nat.sub_add_cancel hk, List.append_nil] at hlex
  have hnone : lexWithin? (s.length - k) [] = some [] := by
    cases s.length - k <;> rfl
  rw [Json.lex?, hlex, hnone, Option.map_some, List.append_nil]

theorem spells_quote (s : String) : Spells Anything (quote s) [.leaf (.str s.toList)] := by
  have htext : quote s = '"' :: (s.toList.flatMap escapeChar ++ ['"']) := rfl
  rw [htext]
  refine spells_token rfl fun rest _ => ?_
  have hread := readString?_quoted s.toList rest
  rw [List.cons_append, List.append_assoc, List.singleton_append]
  show (readText? _).map _ = _
  rw [readText?, hread]
  rfl

/-- What a number begins with. -/
def BeginsNumber (c : Char) : Prop := c = '-' ∨ c.isDigit = true

theorem firstToken?_number {c : Char} (hc : BeginsNumber c) (rest : List Char) :
    firstToken? (c :: rest) = (readNumber? (c :: rest)).map fun r => (.leaf r.1, r.2) := by
  have hother : ∀ d ∈ ['\x7b', '\x7d', '[', ']', ',', ':', 'n', 't', 'f', '"'], c ≠ d := by
    rintro d hd rfl
    rcases hc with rfl | hc
    · exact absurd hd (by decide)
    · simp only [List.mem_cons, List.not_mem_nil, or_false] at hd
      rcases hd with rfl | rfl | rfl | rfl | rfl | rfl | rfl | rfl | rfl | rfl <;> cases hc
  simp only [List.forall_mem_cons] at hother
  obtain ⟨h1, h2, h3, h4, h5, h6, h7, h8, h9, h10, -⟩ := hother
  unfold firstToken?
  split <;> first | rfl | simp_all

theorem intText_begins (i : Int) : ∃ c s, (intText i).toList = c :: s ∧ BeginsNumber c := by
  by_cases hneg : i < 0
  · exact ⟨'-', Nat.toDigits 10 i.natAbs, by simp [intText, hneg], Or.inl rfl⟩
  · have htext : (intText i).toList = Nat.toDigits 10 i.natAbs := by simp [intText, hneg]
    cases hlist : Nat.toDigits 10 i.natAbs with
    | nil => exact absurd hlist Nat.toDigits_ne_nil
    | cons c s =>
      exact ⟨c, s, htext.trans hlist, Or.inr (isDigit_of_mem (hlist ▸ List.mem_cons_self))⟩

theorem spells_intText {i : Int} (hi : FitsWord i) :
    Spells EndsNumber (intText i).toList [.leaf (.int i)] := by
  obtain ⟨c, s, htext, hc⟩ := intText_begins i
  have hspace : isSpace c = false := by
    rcases hc with rfl | hc
    · rfl
    · cases hspace : isSpace c with
      | false => rfl
      | true =>
        simp only [isSpace, Bool.or_eq_true, beq_iff_eq] at hspace
        rcases hspace with ((rfl | rfl) | rfl) | rfl <;> cases hc
  rw [htext]
  refine spells_token hspace fun rest hrest => ?_
  have hread := readNumber?_intText hi hrest
  rw [htext] at hread
  rw [List.cons_append, firstToken?_number hc, ← List.cons_append, hread, Option.map_some]

end VisualNovel.Json
