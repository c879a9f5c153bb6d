import Mathlib
import VisualNovel.Proofs.Entries
import VisualNovel.Proofs.Expression.Seams

/-
  Lists of assignments behind each other. With a comma or a semicolon between them, two lists are
  one list (`lex_join` for the tokens, `AreStatements.append` for the grammar), and to apply it is
  to apply the first and then, unless that failed, the second (`applyAll_append`). Assignments
  change their own parameters and remove none.
-/

namespace VisualNovel.Expression

/-! ## Tokens -/

/-- A separator is a token, whatever stands behind it. -/
theorem firstLexeme_separator {c : Char} (hc : c ∈ separators) (s : List Char) :
    isGap c = false ∧ firstLexeme c s = .ok ⟨.separator, [c], s⟩ := by
  have hname : startsName c = false := by
    have happart := (apart_of_mem (List.mem_append_right blanks hc)).1
    simp_all [continuesName, startsName]
  simp only [separators, List.mem_cons, List.not_mem_nil, or_false] at hc
  have hlong : ∀ d, longSign? c d = none := fun d => by
    rcases hc with rfl | rfl <;> (unfold longSign?; split <;> simp_all)
  have hsign : signLexeme c s = .ok ⟨.separator, [c], s⟩ := by
    rcases hc with rfl | rfl <;> cases s <;> simp [signLexeme, hlong, shortLexeme, shortSign?]
  rcases hc with rfl | rfl <;> exact ⟨rfl, by simpa [firstLexeme, hname] using hsign⟩

/-- The tokens of a text do not depend on where it stands. -/
theorem lexFrom_elsewhere {source : String} {offset : Nat} {s : List Char} {tokens : List Placed}
    (h : lexFrom source offset s = .ok tokens) (whole : String) (offset' : Nat) :
    ∃ tokens', lexFrom whole offset' s = .ok tokens' ∧
      tokens'.map Prod.snd = tokens.map Prod.snd := by
  fun_induction lexFrom source offset s generalizing tokens offset' with
  | case1 =>
    obtain rfl := Except.ok.inj h
    exact ⟨[], lexFrom_nil whole offset', rfl⟩
  | case2 offset c rest hgap ih =>
    rw [lexFrom, if_pos hgap]
    exact ih h _
  | case3 => cases h
  | case4 offset c rest hgap l hl hle ih =>
    cases hrest : lexFrom source (offset + Text.utf8Length l.spelling) l.rest with
    | error =>
      rw [hrest] at h
      cases h
    | ok tokens' =>
      rw [hrest] at h
      obtain rfl := Except.ok.inj h
      obtain ⟨others, hothers, hmap⟩ := ih hrest (offset' + Text.utf8Length l.spelling)
      rw [lexFrom_cons (Bool.eq_false_iff.mpr hgap) hl, hothers]
      exact ⟨(offset', l.token) :: others, rfl, by simp [hmap]⟩

variable {s t : String}

/-- The text `s`, the separator `c` and the text `t`. -/
def join (s : String) (c : Char) (t : String) : String := s ++ String.singleton c ++ t

/-- The tokens of two texts with a separator between them. -/
theorem lex_join {c : Char} (hc : c ∈ separators) {ts us : List Placed} (hs : lex s = .ok ts)
    (ht : lex t = .ok us) :
    ∃ vs, lex (join s c t) = .ok vs ∧
      vs.map Prod.snd = ts.map Prod.snd ++ .separator :: us.map Prod.snd := by
  obtain ⟨hgap, hfirst⟩ := firstLexeme_separator hc t.toList
  have hapart : StartsApart (c :: t.toList) := startsApart_cons (List.mem_append_right blanks hc)
  have htext : (join s c t).toList = s.toList ++ c :: t.toList := by simp [join]
  obtain ⟨us', hus', hmap⟩ := lexFrom_elsewhere ht (join s c t)
    (0 + Text.utf8Length s.toList + Text.utf8Length [c])
  rw [lex, htext, lexFrom_append hs hapart, lexFrom_cons hgap hfirst, hus']
  exact ⟨_, rfl, by simp [hmap]⟩

/-! ## The grammar -/

section Grammar

variable {ts us : List Token} {as bs : List Assignment}

theorem AreAssignments.append (h : AreAssignments ts as) (n : Nat) (h' : AreAssignments us bs) :
    AreAssignments (ts ++ List.replicate (n + 1) .separator ++ us) (as ++ bs) := by
  induction h with
  | @last ts a h m =>
    have hjoin : ts ++ List.replicate m Token.separator ++ List.replicate (n + 1) .separator =
        ts ++ List.replicate (m + n + 1) .separator := by
      rw [List.append_assoc, List.replicate_append_replicate, Nat.add_assoc]
    rw [hjoin]
    exact .cons h (m + n) h'
  | @cons ts us' a as h m _ ih =>
    rw [List.append_assoc, List.append_assoc, List.cons_append, ← List.append_assoc us']
    exact .cons h m ih

/-- Two lists of assignments with a separator between them are one. -/
theorem AreStatements.append (h : AreStatements ts as) (h' : AreStatements us bs) :
    AreStatements (ts ++ .separator :: us) (as ++ bs) := by
  obtain ⟨n, ts, rfl, h⟩ := h
  obtain ⟨m, us, rfl, h'⟩ := h'
  refine ⟨n, _, ?_, h.append m h'⟩
  rw [List.append_assoc, List.append_assoc, List.replicate_succ]
  rfl

end Grammar

/-! ## Parameters -/

namespace Params

variable {p : Params} {name target : String} {v : Value}

theorem lookup_insertEntry (target : String) (v : Value) (entries : List (String × Value))
    (name : String) :
    (insertEntry target v entries).lookup name =
      if name = target then some v else entries.lookup name := by
  fun_induction insertEntry target v entries with
  | case1 => rw [Entries.lookup_cons_ite]
  | case2 w rest => by_cases h : name = target <;> simp [Entries.lookup_cons_ite, h]
  | case3 n w rest => rw [Entries.lookup_cons_ite]
  | case4 n w rest hne hlt ih =>
    rw [Entries.lookup_cons_ite, ih, Entries.lookup_cons_ite]
    by_cases h : name = n
    · rw [if_pos h, if_pos h, if_neg (h ▸ Ne.symm hne)]
    · rw [if_neg h, if_neg h]

/-- Setting a parameter leaves the other ones alone. -/
theorem get?_set (p : Params) (target : String) (v : Value) (name : String) :
    (p.set target v).get? name = if name = target then some v else p.get? name :=
  lookup_insertEntry target v p.entries name

/-- Setting a parameter removes none. -/
theorem contains_set (h : p.contains name = true) : (p.set target v).contains name = true := by
  rw [contains, get?_set]
  split
  · rfl
  · exact h

end Params

/-! ## Applying assignments -/

/-- The assignments, applied in order, lead from the parameters `p` to the parameters `q`. -/
inductive Applied : List Assignment → Params → Params → Prop
  | nil (p : Params) : Applied [] p p
  | cons {a : Assignment} {as : List Assignment} {p q : Params} {v : Value}
      (h : a.newValue p = .ok v) (hrest : Applied as (p.set a.target v) q) : Applied (a :: as) p q

/-- One of the assignments has no value, which is the error; those before it are applied, and those
    behind it are not. -/
def FailsWith (as : List Assignment) (p q : Params) (e : ExpressionError) : Prop :=
  ∃ before a behind, as = before ++ a :: behind ∧ Applied before p q ∧ a.newValue q = .error e

/-- The outcome of a list that is applied behind another one. -/
def goOn (outcome : Params × Option ExpressionError)
    (next : Params → Params × Option ExpressionError) : Params × Option ExpressionError :=
  match outcome with
  | (p, none) => next p
  | (p, some e) => (p, some e)

/-- To apply one list behind another is to apply the first and then the second. -/
theorem applyAll_append (as bs : List Assignment) (p : Params) :
    applyAll (as ++ bs) p = goOn (applyAll as p) (applyAll bs) := by
  induction as generalizing p with
  | nil => rfl
  | cons a as ih =>
    simp only [List.cons_append, applyAll]
    cases a.newValue p with
    | ok v => exact ih _
    | error e => rfl

section Outcome

variable {as : List Assignment} {p q : Params} {e : ExpressionError} {name : String}

theorem applied_iff : applyAll as p = (q, none) ↔ Applied as p q := by
  constructor
  · intro h
    induction as generalizing p with
    | nil =>
      obtain rfl := (Prod.mk.inj h).1
      exact .nil p
    | cons a as ih =>
      rw [applyAll] at h
      split at h
      · rename_i v hv
        exact .cons hv (ih h)
      · cases (Prod.mk.inj h).2
  · intro h
    induction h with
    | nil => rfl
    | cons h _ ih => rw [applyAll, h]; exact ih

theorem failsWith_iff : applyAll as p = (q, some e) ↔ FailsWith as p q e := by
  constructor
  · intro h
    induction as generalizing p with
    | nil => cases (Prod.mk.inj h).2
    | cons a as ih =>
      rw [applyAll] at h
      split at h
      · rename_i v hv
        obtain ⟨before, b, behind, rfl, happlied, herror⟩ := ih h
        exact ⟨a :: before, b, behind, rfl, .cons hv happlied, herror⟩
      · rename_i e' he'
        obtain ⟨rfl, he⟩ := Prod.mk.inj h
        obtain rfl := Option.some.inj he
        exact ⟨[], a, as, rfl, .nil p, he'⟩
  · rintro ⟨before, a, behind, rfl, happlied, herror⟩
    rw [applyAll_append, applied_iff.mpr happlied, goOn, applyAll, herror]

/-- Parameters to which nothing is assigned are not changed. -/
theorem get?_applyAll (h : name ∉ as.map Assignment.target) :
    (applyAll as p).1.get? name = p.get? name := by
  induction as generalizing p with
  | nil => rfl
  | cons a as ih =>
    rw [List.map_cons, List.mem_cons, not_or] at h
    rw [applyAll]
    split
    · exact (ih h.2).trans ((Params.get?_set ..).trans (if_neg h.1))
    · rfl

/-- No parameter is removed. -/
theorem contains_applyAll (h : p.contains name = true) :
    (applyAll as p).1.contains name = true := by
  induction as generalizing p with
  | nil => exact h
  | cons a as ih =>
    rw [applyAll]
    split
    · exact ih (Params.contains_set h)
    · exact h

end Outcome

/-! ## Lists with a separator between them -/

theorem Statements.lex_of_parse {a : Statements} (h : Statements.parse s = .ok a) :
    ∃ ts, lex s = .ok ts := by
  rw [Statements.parse] at h
  cases hlex : lex s with
  | ok ts => exact ⟨ts, rfl⟩
  | error e =>
    rw [hlex] at h
    cases h

/-- Two lists of assignments with a comma or a semicolon between them are the list of all their
    assignments. -/
theorem Statements.parse_join {c : Char} (hc : c ∈ separators) {a b : Statements}
    (hs : Statements.parse s = .ok a) (ht : Statements.parse t = .ok b) :
    Statements.parse (join s c t) =
      .ok ⟨Text.trim (join s c t), a.assignments ++ b.assignments⟩ := by
  obtain ⟨ts, hts⟩ := lex_of_parse hs
  obtain ⟨us, hus⟩ := lex_of_parse ht
  obtain ⟨vs, hvs, hmap⟩ := lex_join hc hts hus
  refine (Statements.parse_eq_ok hvs).mpr ⟨rfl, ?_⟩
  rw [hmap]
  exact ((Statements.parse_eq_ok hts).mp hs).2.append ((Statements.parse_eq_ok hus).mp ht).2

/-- Lists of assignments compose. Two of them with a separator between them are one; applying it is
    applying the first and then the second, where an error stops both and leaves what was assigned
    before it; and only parameters that something is assigned to change, none of them being
    removed. -/
theorem statements_compose {c : Char} (hc : c ∈ separators) {a b : Statements}
    (hs : Statements.parse s = .ok a) (ht : Statements.parse t = .ok b) :
    ∃ joined, Statements.parse (s ++ String.singleton c ++ t) = .ok joined ∧
      joined.assignments = a.assignments ++ b.assignments ∧
      ∀ params,
        joined.apply params =
          (match a.apply params with
          | (p, none) => b.apply p
          | (p, some e) => (p, some e)) ∧
        (∀ p e, a.apply params = (p, some e) →
          joined.apply params = (p, some e) ∧ FailsWith a.assignments params p e) ∧
        (∀ p q e, a.apply params = (p, none) → b.apply p = (q, some e) →
          joined.apply params = (q, some e) ∧ Applied a.assignments params p ∧
            FailsWith b.assignments p q e) ∧
        (∀ name, name ∉ joined.assignments.map Assignment.target →
          (joined.apply params).1.get? name = params.get? name) ∧
        (∀ name, params.contains name = true → (joined.apply params).1.contains name = true) := by
  refine ⟨_, Statements.parse_join hc hs ht, rfl, fun params => ?_⟩
  have hjoined : applyAll (a.assignments ++ b.assignments) params =
      goOn (a.apply params) b.apply := applyAll_append _ _ _
  refine ⟨hjoined, fun p e ha => ⟨?_, failsWith_iff.mp ha⟩, fun p q e ha hb =>
    ⟨?_, applied_iff.mp ha, failsWith_iff.mp hb⟩, fun name hname => get?_applyAll hname,
    fun name hname => contains_applyAll hname⟩
  · exact hjoined.trans (by rw [ha, goOn])
  · exact hjoined.trans (by rw [ha, goOn, hb])

/-- An assignment that needs a parameter that is not there leaves those of the first list in force,
    and the last one of the second list is not made. -/
theorem applied_before_error :
    ∃ joined, Statements.parse "x=';';y+=x,z=x" = .ok joined ∧
      joined.apply .empty = (⟨[("x", .str ";")]⟩, some (.undefinedParameter "y")) := by
  have hs : Statements.parse "x=';'" = .ok ⟨"x=';'", [⟨"x", none, .literal (.str ";")⟩]⟩ := by
    decide +kernel
  have ht : Statements.parse "y+=x,z=x" =
      .ok ⟨"y+=x,z=x", [⟨"y", some .add, .name "x"⟩, ⟨"z", none, .name "x"⟩]⟩ := by
    decide +kernel
  have hc : ';' ∈ separators := by decide
  obtain ⟨joined, hparse, -, happly⟩ := statements_compose hc hs ht
  obtain ⟨-, -, herror, -⟩ := happly .empty
  exact ⟨joined, hparse, (herror ⟨[("x", .str ";")]⟩ _ _ (by decide) (by decide)).1⟩

end VisualNovel.Expression
