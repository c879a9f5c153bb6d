import Mathlib
import VisualNovel.Proofs.Expression.Parsing

/-
  Texts put behind each other. The longest match does not reach over a seam at which the second
  text begins with a blank or a separator (`StartsApart`): no token goes on with one of these,
  except in quotes, and what is in quotes has ended. So the tokens of the two texts stand behind
  each other as well (`lexFrom_append`).
-/

namespace VisualNovel.Expression

open Text Decimal

/-! ## Characters -/

/-- The blanks that may stand between tokens. -/
def blanks : List Char := [' ', '\t', '\r', '\n', '\x0c']

/-- What is written for a separator. -/
def separators : List Char := [',', ';']

theorem isGap_iff {c : Char} : isGap c = true ↔ c ∈ blanks := by
  simp [isGap, blanks, or_assoc]

/-- Up to the digits and the signs around them there are no letters. -/
theorem isLetter_of_toNat_lt {c : Char} (h : c.toNat < 0x41) : isLetter c = false := by
  have hranges : letterRanges.all (fun r => decide (0x41 ≤ r.1)) = true := by decide +kernel
  refine List.any_eq_false.mpr fun r hr => ?_
  have hlow := of_decide_eq_true (List.all_eq_true.mp hranges r hr)
  simp only [Bool.and_eq_true, decide_eq_true_eq, not_and]
  omega

/-- No name, no number and no sign of two characters goes on with a blank or a separator. -/
theorem apart_of_mem {c : Char} (h : c ∈ blanks ++ separators) :
    continuesName c = false ∧ c.isDigit = false ∧ c ≠ '.' ∧ ∀ d, longSign? d c = none := by
  have hnames : (blanks ++ separators).all (fun c => !continuesName c) = true := by decide +kernel
  have hname : continuesName c = false := by simpa using List.all_eq_true.mp hnames c h
  refine ⟨hname, ?_⟩
  simp only [blanks, separators, List.cons_append, List.nil_append, List.mem_cons,
    List.not_mem_nil, or_false] at h
  rcases h with rfl | rfl | rfl | rfl | rfl | rfl | rfl <;>
    exact ⟨rfl, by decide, fun d => by unfold longSign?; split <;> simp_all⟩

/-- The text is empty, or begins with a blank or a separator. -/
def StartsApart (s : List Char) : Prop := ∀ c ∈ s.head?, c ∈ blanks ++ separators

theorem startsApart_nil : StartsApart [] := fun _ hc => nomatch hc

theorem startsApart_cons {c : Char} {s : List Char} (hc : c ∈ blanks ++ separators) :
    StartsApart (c :: s) := fun _ hd => Option.some.inj hd ▸ hc

theorem startsWithDigit_append {s u : List Char} (hu : StartsApart u) :
    startsWithDigit (s ++ u) = startsWithDigit s := by
  cases s with
  | cons c s => rfl
  | nil =>
    cases u with
    | nil => rfl
    | cons c u => exact (apart_of_mem (hu c rfl)).2.1

/-! ## Where a part of a text ends -/

section Ends

variable {p : Char → Bool} {s u : List Char}

/-- What is taken from a text ends before a character that is not taken. -/
theorem takeWhile_append_of_head (h : ∀ c ∈ u.head?, p c = false) :
    (s ++ u).takeWhile p = s.takeWhile p := by
  have hu : u.takeWhile p = [] := by
    cases u with
    | nil => rfl
    | cons c u => simp [h c rfl]
  rw [List.takeWhile_append, hu, List.append_nil]
  split
  · rename_i hlength
    exact ((List.takeWhile_prefix p).eq_of_length hlength).symm
  · rfl

theorem dropWhile_append_of_head (h : ∀ c ∈ u.head?, p c = false) :
    (s ++ u).dropWhile p = s.dropWhile p ++ u := by
  have hsplit := List.takeWhile_append_dropWhile (p := p) (l := s ++ u)
  rw [takeWhile_append_of_head h] at hsplit
  refine (List.append_right_inj (s.takeWhile p)).mp ?_
  rw [hsplit, ← List.append_assoc, List.takeWhile_append_dropWhile]

/-- What ends within a text does not go on behind it. -/
theorem dropWhile_append_of_cons {c : Char} {rest : List Char} (h : s.dropWhile p = c :: rest) :
    (s ++ u).takeWhile p = s.takeWhile p ∧ (s ++ u).dropWhile p = c :: rest ++ u := by
  have hs : s = s.takeWhile p ++ (c :: rest) := by
    rw [← h, List.takeWhile_append_dropWhile]
  have hc : p c = false := by
    have hhead := List.head?_dropWhile_not p s
    rw [h] at hhead
    simpa using hhead
  have hhead : ∀ d ∈ (c :: rest ++ u).head?, p d = false := fun d hd => Option.some.inj hd ▸ hc
  have hjoin : s ++ u = s.takeWhile p ++ (c :: rest ++ u) := by
    rw [← List.append_assoc, ← hs]
  have htaken : (s.takeWhile p).takeWhile p = s.takeWhile p :=
    List.takeWhile_eq_self_iff.mpr fun _ => List.mem_takeWhile_imp
  have hdropped : (s.takeWhile p).dropWhile p = [] :=
    List.dropWhile_eq_nil_iff.mpr fun _ => List.mem_takeWhile_imp
  exact ⟨by rw [hjoin, takeWhile_append_of_head hhead, htaken],
    by rw [hjoin, dropWhile_append_of_head hhead, hdropped, List.nil_append]⟩

end Ends

/-! ## A token before a seam -/

/-- The same token, with more text behind it. -/
def Lexeme.before (l : Lexeme) (u : List Char) : Lexeme := { l with rest := l.rest ++ u }

section Seam

variable {c : Char} {s u : List Char} {l : Lexeme}

theorem integerLexeme_append {digits : List Char} (h : integerLexeme digits s = .ok l) :
    integerLexeme digits (s ++ u) = .ok (l.before u) := by
  unfold integerLexeme at h ⊢
  split at h
  · obtain rfl := Except.ok.inj h
    rfl
  · cases h

theorem floatLexeme_append {whole : List Char} (hu : StartsApart u) :
    floatLexeme whole (s ++ u) = (floatLexeme whole s).before u := by
  have hdigit : ∀ c ∈ u.head?, c.isDigit = false := fun c hc => (apart_of_mem (hu c hc)).2.1
  simp only [floatLexeme, takeWhile_append_of_head hdigit, dropWhile_append_of_head hdigit]
  rfl

theorem numberLexeme_append (h : numberLexeme c s = .ok l) (hu : StartsApart u) :
    numberLexeme c (s ++ u) = .ok (l.before u) := by
  have hdigit : ∀ c ∈ u.head?, c.isDigit = false := fun c hc => (apart_of_mem (hu c hc)).2.1
  unfold numberLexeme at h ⊢
  simp only [takeWhile_append_of_head hdigit, dropWhile_append_of_head hdigit] at h ⊢
  split at h
  · rename_i rest hrest
    simp only [hrest, List.cons_append, startsWithDigit_append hu]
    split at h
    · obtain rfl := Except.ok.inj h
      simp only [*, if_true, floatLexeme_append hu]
    · simp only [*]
      exact integerLexeme_append h
  · rename_i hpoint
    have hnone : ∀ rest, s.dropWhile Char.isDigit ++ u ≠ '.' :: rest := by
      intro rest hrest
      cases hs : s.dropWhile Char.isDigit with
      | nil =>
        rw [hs] at hrest
        obtain rfl : u = '.' :: rest := hrest
        exact (apart_of_mem (hu '.' rfl)).2.2.1 rfl
      | cons d s' =>
        rw [hs] at hrest
        exact hpoint s' (by rw [hs, (List.cons.inj hrest).1])
    split
    · rename_i rest hrest
      exact absurd hrest (hnone rest)
    · exact integerLexeme_append h

theorem quotedLexeme_append {q : Char} (h : quotedLexeme q s = .ok l) :
    quotedLexeme q (s ++ u) = .ok (l.before u) := by
  unfold quotedLexeme at h
  dsimp only at h
  split at h
  · cases h
  · rename_i d rest hrest
    obtain ⟨htaken, hdropped⟩ := dropWhile_append_of_cons (u := u) hrest
    obtain rfl := Except.ok.inj h
    simp only [quotedLexeme, htaken, hdropped]
    rfl

theorem shortLexeme_append (h : shortLexeme c s = .ok l) :
    shortLexeme c (s ++ u) = .ok (l.before u) := by
  unfold shortLexeme at h ⊢
  split at h
  · obtain rfl := Except.ok.inj h
    rfl
  · cases h

theorem signLexeme_append (h : signLexeme c s = .ok l) (hu : StartsApart u) :
    signLexeme c (s ++ u) = .ok (l.before u) := by
  cases s with
  | nil =>
    have hshort : shortLexeme c u = .ok (l.before u) := shortLexeme_append h
    cases u with
    | nil => exact hshort
    | cons d u => simpa [signLexeme, (apart_of_mem (hu d rfl)).2.2.2 c] using hshort
  | cons d s =>
    simp only [List.cons_append, signLexeme] at h ⊢
    split at h
    · obtain rfl := Except.ok.inj h
      rfl
    · exact shortLexeme_append h

/-- The first token of a text is that of the text with another one behind it. -/
theorem firstLexeme_append (h : firstLexeme c s = .ok l) (hu : StartsApart u) :
    firstLexeme c (s ++ u) = .ok (l.before u) := by
  have hname : ∀ c ∈ u.head?, continuesName c = false := fun c hc => (apart_of_mem (hu c hc)).1
  unfold firstLexeme at h
  rw [firstLexeme, startsWithDigit_append hu]
  split at h
  · rename_i hword
    obtain rfl := Except.ok.inj h
    rw [if_pos hword, takeWhile_append_of_head hname, dropWhile_append_of_head hname]
    rfl
  rename_i hword
  rw [if_neg hword]
  split at h
  · rename_i hdigit
    rw [if_pos hdigit]
    exact numberLexeme_append h hu
  rename_i hdigit
  rw [if_neg hdigit]
  split at h
  · rename_i hquote
    rw [if_pos hquote]
    exact quotedLexeme_append h
  rename_i hquote
  rw [if_neg hquote]
  split at h
  · rename_i hpoint
    obtain rfl := Except.ok.inj h
    rw [if_pos hpoint, floatLexeme_append hu]
  · rename_i hpoint
    rw [if_neg hpoint]
    exact signLexeme_append h hu

end Seam

/-! ## Texts behind each other -/

@[simp] theorem lexFrom_nil (source : String) (offset : Nat) :
    lexFrom source offset [] = .ok [] := by
  rw [lexFrom]

/-- Blanks are skipped. -/
theorem lexFrom_blanks (source : String) (offset : Nat) {gap : List Char}
    (hgap : ∀ c ∈ gap, c ∈ blanks) (s : List Char) :
    lexFrom source offset (gap ++ s) = lexFrom source (offset + utf8Length gap) s := by
  induction gap generalizing offset with
  | nil => rfl
  | cons c gap ih =>
    rw [List.cons_append, lexFrom, if_pos (isGap_iff.mpr (hgap c List.mem_cons_self)),
      ih _ fun d hd => hgap d (List.mem_cons_of_mem c hd), Nat.add_assoc]
    rfl

/-- A token stands at the beginning of a text, and the rest of the text is behind it. -/
theorem lexFrom_cons {source : String} {offset : Nat} {c : Char} {s : List Char} {l : Lexeme}
    (hc : isGap c = false) (hl : firstLexeme c s = .ok l) :
    lexFrom source offset (c :: s) =
      (lexFrom source (offset + utf8Length l.spelling) l.rest).map ((offset, l.token) :: ·) := by
  rw [lexFrom, if_neg (by simp [hc])]
  split
  · rename_i hbad
    rw [hl] at hbad
    cases hbad
  · rename_i l' hl'
    obtain rfl := Except.ok.inj (hl.symm.trans hl')
    rfl

/-- The tokens of two texts behind each other are those of the first and then those of the second,
    if the second one begins with a blank or a separator. -/
theorem lexFrom_append {source : String} {offset : Nat} {s u : List Char} {tokens : List Placed}
    (h : lexFrom source offset s = .ok tokens) (hu : StartsApart u) (whole : String) :
    lexFrom whole offset (s ++ u) =
      (lexFrom whole (offset + utf8Length s) u).map (tokens ++ ·) := by
  fun_induction lexFrom source offset s generalizing tokens with
  | case1 offset =>
    obtain rfl := Except.ok.inj h
    change lexFrom whole offset u = (lexFrom whole offset u).map ([] ++ ·)
    cases lexFrom whole offset u <;> rfl
  | case2 offset c rest hgap ih =>
    rw [List.cons_append, lexFrom, if_pos hgap, ih h, Nat.add_assoc]
    rfl
  | case3 => cases h
  | case4 offset c rest hgap l hl hle ih =>
    cases hrest : lexFrom source (offset + utf8Length l.spelling) l.rest with
    | error =>
      rw [hrest] at h
      cases h
    | ok tokens' =>
      rw [hrest] at h
      obtain rfl := Except.ok.inj h
      have hsplits : l.spelling ++ l.rest = c :: rest := splits_firstLexeme hl
      rw [List.cons_append, lexFrom_cons (Bool.eq_false_iff.mpr hgap) (firstLexeme_append hl hu)]
      simp only [Lexeme.before, ih hrest, ← hsplits, utf8Length_append, Nat.add_assoc]
      cases lexFrom whole _ u <;> rfl

end VisualNovel.Expression
