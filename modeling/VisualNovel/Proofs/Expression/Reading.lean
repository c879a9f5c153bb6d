import VisualNovel.Proofs.Expression.Grammar

/-
  Reading an expression token by token follows the grammar. What was read so far is the frames and
  the operand in another shape: `Accounted` says which tokens make up which of them, and every
  token that is read keeps it. The other way round an expression is read to its end wherever its
  rank is expected (`Derives.read`). So the readings that end are those of expressions
  (`isExpression_iff`), and the readings that can go on are those of their beginnings
  (`beginsExpression_iff`).
-/

namespace VisualNovel.Expression

/-! ## Ranks and powers -/

theorem power_pos (op : BinaryOp) : 0 < op.power := by
  cases op <;> decide

theorem power_le (op : BinaryOp) : op.power ≤ prefixRank := by
  cases op <;> decide

theorem mem_ranks {op : BinaryOp} {rank : Nat} :
    op ∈ ranks.getD rank [] ↔ op.power = rank + 1 := by
  match rank with
  | 0 | 1 | 2 | 3 | 4 | 5 => cases op <;> decide
  | n + 6 =>
    have hle : op.power ≤ 6 := power_le op
    have hnone : ranks.getD (n + 6) [] = [] := rfl
    simp only [hnone, List.not_mem_nil, false_iff]
    omega

/-- The rank of the operand that frames wait for. -/
def expected : List Frame → Nat
  | .unary _ :: _ => prefixRank
  | .binary op _ :: _ => op.power
  | _ => 0

theorem expected_le (frames : List Frame) : expected frames ≤ prefixRank := by
  unfold expected
  split
  · exact Nat.le_refl _
  · exact power_le _
  · exact Nat.zero_le _

/-- Frames that wait for an operand of a rank stay open when an operator of the rank follows it. -/
theorem closeFrames_of_expected {frames : List Frame} {rank : Nat} (h : expected frames ≤ rank)
    (hrank : rank < prefixRank) (t : Tree) : closeFrames (rank + 1) frames t = (frames, t) := by
  cases frames with
  | nil => rfl
  | cons frame frames =>
    cases frame with
    | paren => rfl
    | unary op => exact absurd h (Nat.not_le.mpr hrank)
    | binary op left =>
      have hopen : ¬ rank + 1 ≤ op.power := Nat.not_le.mpr (Nat.lt_succ_of_le h)
      simp only [closeFrames, if_neg hopen]

/-- What is left of frames that are closed to the end is an open parenthesis, if anything. -/
theorem closeFrames_zero (frames : List Frame) (t : Tree) :
    (∃ whole, closeFrames 0 frames t = ([], whole)) ∨
      ∃ outer inner, closeFrames 0 frames t = (.paren :: outer, inner) ∧
        outer.length < frames.length := by
  induction frames generalizing t with
  | nil => exact Or.inl ⟨t, rfl⟩
  | cons frame frames ih =>
    cases frame with
    | paren => exact Or.inr ⟨frames, t, rfl, Nat.lt_succ_self _⟩
    | unary op =>
      rcases ih (.unary op t) with hwhole | ⟨outer, inner, hclose, hlt⟩
      · exact Or.inl hwhole
      · exact Or.inr ⟨outer, inner, hclose, Nat.lt_succ_of_lt hlt⟩
    | binary op left =>
      simp only [closeFrames, Nat.zero_le, if_true]
      rcases ih (.binary op left t) with hwhole | ⟨outer, inner, hclose, hlt⟩
      · exact Or.inl hwhole
      · exact Or.inr ⟨outer, inner, hclose, Nat.lt_succ_of_lt hlt⟩

/-! ## Readings -/

namespace Reading

/-- The reading after tokens that all belong to the expression. -/
def readAll : Reading → List Token → Option Reading
  | r, [] => some r
  | r, token :: rest =>
    match r.feed token with
    | .more next => next.readAll rest
    | _ => none

theorem readAll_cons {r next : Reading} {token : Token} (h : r.feed token = .more next)
    (rest : List Token) : r.readAll (token :: rest) = next.readAll rest := by
  rw [readAll, h]

theorem readAll_append (r : Reading) (ts us : List Token) :
    r.readAll (ts ++ us) = (r.readAll ts).bind fun next => next.readAll us := by
  induction ts generalizing r with
  | nil => rfl
  | cons token ts ih =>
    rw [List.cons_append, readAll, readAll]
    cases r.feed token with
    | more next => exact ih next
    | ended | fault => rfl

theorem readAll_trans {r next : Reading} {ts : List Token} (h : r.readAll ts = some next)
    (us : List Token) : r.readAll (ts ++ us) = next.readAll us := by
  rw [readAll_append, h]
  rfl

/-- A reading with an operand whose frames can all be closed is an expression. -/
def Ends (r : Reading) (t : Tree) : Prop := ∃ o, r.operand = some o ∧ endBefore r.frames o = .ended t

end Reading

open Reading

/-! ## Expressions are read -/

/-- An expression is read wherever its rank is expected, and in the end it can be closed to its
    tree. -/
theorem Derives.read {rank : Nat} {ts : List Token} {t : Tree} (h : Derives rank ts t)
    (frames : List Frame) (hframes : expected frames ≤ rank) :
    ∃ fs o, readAll ⟨frames, none⟩ ts = some ⟨fs, some o⟩ ∧
      ∀ power ≤ rank + 1, closeFrames power fs o = closeFrames power frames t := by
  induction h generalizing frames with
  | join hop hleft hright ihleft ihright =>
    rename_i rank op ts us left right
    have hpower := mem_ranks.mp hop
    obtain ⟨fs, o, hread, hclose⟩ := ihleft frames hframes
    have hrank : rank < prefixRank := by
      have := power_le op
      omega
    -- the operator finds its left side closed, and the frames around it still open
    have hfeed : (⟨fs, some o⟩ : Reading).feed (.operator op) =
        .more ⟨.binary op left :: frames, none⟩ := by
      simp only [feed, feedOperator, hpower, hclose _ (Nat.le_refl _),
        closeFrames_of_expected hframes hrank]
    obtain ⟨fs', o', hread', hclose'⟩ := ihright (.binary op left :: frames)
      (by simp [expected, hpower])
    refine ⟨fs', o', ?_, fun power hle => ?_⟩
    · rw [readAll_trans hread, readAll_cons hfeed, hread']
    · rw [hclose' power (Nat.le_succ_of_le hle), closeFrames, if_pos (hpower ▸ hle)]
  | tighter h ih =>
    obtain ⟨fs, o, hread, hclose⟩ := ih frames (Nat.le_succ_of_le hframes)
    exact ⟨fs, o, hread, fun power hle => hclose power (Nat.le_succ_of_le hle)⟩
  | not h ih =>
    obtain ⟨fs, o, hread, hclose⟩ := ih (.unary .not :: frames) (Nat.le_refl _)
    exact ⟨fs, o, hread, hclose⟩
  | neg h ih =>
    obtain ⟨fs, o, hread, hclose⟩ := ih (.unary .neg :: frames) (Nat.le_refl _)
    exact ⟨fs, o, hread, hclose⟩
  | literal v => exact ⟨frames, .literal v, rfl, fun _ _ => rfl⟩
  | name s => exact ⟨frames, .name s, rfl, fun _ _ => rfl⟩
  | parens h ih =>
    rename_i ts t
    obtain ⟨fs, o, hread, hclose⟩ := ih (.paren :: frames) (Nat.le_refl _)
    have hfeed : (⟨fs, some o⟩ : Reading).feed .closing = .more ⟨frames, some t⟩ := by
      simp only [feed, feedOperator, hclose 0 (Nat.zero_le _)]
      rfl
    have hopening : (⟨frames, none⟩ : Reading).feed .opening = .more ⟨.paren :: frames, none⟩ := rfl
    refine ⟨frames, t, ?_, fun _ _ => rfl⟩
    rw [readAll_cons hopening, readAll_trans hread, readAll_cons hfeed]
    rfl

theorem IsExpression.read {ts : List Token} {t : Tree} (h : IsExpression ts t) :
    ∃ r, start.readAll ts = some r ∧ r.Ends t := by
  obtain ⟨fs, o, hread, hclose⟩ := Derives.read h [] (Nat.le_refl _)
  refine ⟨⟨fs, some o⟩, hread, o, rfl, ?_⟩
  simp only [endBefore, hclose 0 (Nat.zero_le _)]
  rfl

/-! ## What is read is an expression -/

/-- The tokens that frames were made of. -/
inductive Framed : List Frame → List Token → Prop
  | nil : Framed [] []
  | paren {frames : List Frame} {ts : List Token} (h : Framed frames ts) :
      Framed (.paren :: frames) (ts ++ [.opening])
  | not {frames : List Frame} {ts : List Token} (h : Framed frames ts) :
      Framed (.unary .not :: frames) (ts ++ [.bang])
  | neg {frames : List Frame} {ts : List Token} (h : Framed frames ts) :
      Framed (.unary .neg :: frames) (ts ++ [.operator .sub])
  | binary {frames : List Frame} {ts us : List Token} {op : BinaryOp} {left : Tree} {rank : Nat}
      (h : Framed frames ts) (hleft : Derives rank us left) (hop : op.power = rank + 1)
      (hexpected : expected frames ≤ rank) :
      Framed (.binary op left :: frames) (ts ++ us ++ [.operator op])

/-- The tokens that frames and an operand of a rank were made of, which is the rank that the frames
    wait for or a tighter one. -/
structure Fits (frames : List Frame) (t : Tree) (rank : Nat) (ts : List Token) : Prop where
  split : ∃ us vs, ts = us ++ vs ∧ Framed frames us ∧ Derives rank vs t
  awaited : expected frames ≤ rank

/-- Closing frames groups the same tokens in another way. -/
theorem Fits.close {frames : List Frame} {t : Tree} {rank : Nat} {ts : List Token}
    (h : Fits frames t rank ts) (power : Nat) (hpower : power ≤ rank + 1) (hle : power ≤ prefixRank) :
    ∃ rank', Fits (closeFrames power frames t).1 (closeFrames power frames t).2 rank' ts ∧
      power ≤ rank' + 1 ∧ expected (closeFrames power frames t).1 ≤ power - 1 := by
  induction frames generalizing t rank with
  | nil => exact ⟨rank, h, hpower, Nat.zero_le _⟩
  | cons frame frames ih =>
    obtain ⟨⟨us, vs, rfl, hframed, hderives⟩, hexpected⟩ := h
    cases hframed with
    | paren hframed =>
      exact ⟨rank, ⟨⟨_, vs, rfl, .paren hframed, hderives⟩, hexpected⟩, hpower, Nat.zero_le _⟩
    | not hframed =>
      refine ih ⟨⟨_, .bang :: vs, ?_, hframed, .not (hderives.of_le hexpected)⟩,
        expected_le frames⟩ (Nat.le_succ_of_le hle)
      rw [List.append_assoc]
      rfl
    | neg hframed =>
      refine ih ⟨⟨_, .operator .sub :: vs, ?_, hframed, .neg (hderives.of_le hexpected)⟩,
        expected_le frames⟩ (Nat.le_succ_of_le hle)
      rw [List.append_assoc]
      rfl
    | binary hframed hleft hop hbelow =>
      rename_i ts us op left rank₀
      by_cases hclose : power ≤ op.power
      · simp only [closeFrames, if_pos hclose]
        have hright : Derives (rank₀ + 1) vs t := hderives.of_le (hop ▸ hexpected)
        refine ih ⟨⟨ts, us ++ .operator op :: vs, ?_, hframed,
          .join (mem_ranks.mpr hop) hleft hright⟩, hbelow⟩ (hop ▸ hclose)
        simp only [List.append_assoc, List.cons_append, List.nil_append]
      · simp only [closeFrames, if_neg hclose]
        refine ⟨rank, ⟨⟨_, vs, rfl, .binary hframed hleft hop hbelow, hderives⟩, hexpected⟩,
          hpower, ?_⟩
        simp only [expected]
        omega

/-- The tokens that a reading was made of. An operand that was just read is a primary one. -/
def Accounted (ts : List Token) (r : Reading) : Prop :=
  match r.operand with
  | none => Framed r.frames ts
  | some t => Fits r.frames t primaryRank ts

/-- A primary operand fits all frames. -/
theorem accounted_primary {frames : List Frame} {us vs : List Token} {t : Tree}
    (h : Framed frames us) (ht : Derives primaryRank vs t) :
    Accounted (us ++ vs) ⟨frames, some t⟩ :=
  ⟨⟨us, vs, rfl, h, ht⟩, Nat.le_succ_of_le (expected_le frames)⟩

theorem Accounted.feedOperand {ts : List Token} {frames : List Frame}
    (h : Accounted ts ⟨frames, none⟩) {token : Token} {next : Reading}
    (hfeed : Reading.feedOperand frames token = .more next) : Accounted (ts ++ [token]) next := by
  have hframed : Framed frames ts := h
  unfold Reading.feedOperand at hfeed
  split at hfeed
  · obtain rfl := Fed.more.inj hfeed
    exact accounted_primary hframed (.literal _)
  · obtain rfl := Fed.more.inj hfeed
    exact accounted_primary hframed (.name _)
  · obtain rfl := Fed.more.inj hfeed
    exact Framed.not hframed
  · obtain rfl := Fed.more.inj hfeed
    exact Framed.neg hframed
  · obtain rfl := Fed.more.inj hfeed
    exact Framed.paren hframed
  · cases hfeed

theorem endBefore_ne_more (frames : List Frame) (t : Tree) (r : Reading) :
    endBefore frames t ≠ .more r := by
  unfold endBefore
  split <;> simp

theorem Accounted.feedOperator {ts : List Token} {frames : List Frame} {t : Tree}
    (h : Accounted ts ⟨frames, some t⟩) {token : Token} {next : Reading}
    (hfeed : Reading.feedOperator frames t token = .more next) :
    Accounted (ts ++ [token]) next := by
  have hfits : Fits frames t primaryRank ts := h
  unfold Reading.feedOperator at hfeed
  split at hfeed
  · rename_i op
    have hle := power_le op
    obtain ⟨rank, ⟨⟨us, vs, rfl, hframed, hderives⟩, -⟩, hpower, hbelow⟩ :=
      hfits.close op.power (Nat.le_succ_of_le (Nat.le_succ_of_le hle)) hle
    obtain rfl := Fed.more.inj hfeed
    have hop : op.power = op.power - 1 + 1 := by
      have := power_pos op
      omega
    exact Framed.binary hframed (hderives.of_le (by omega)) hop hbelow
  · rename_i hparen
    split at hfeed
    · rename_i outer inner hclose
      obtain ⟨rank, ⟨⟨us, vs, rfl, hframed, hderives⟩, -⟩, -, -⟩ :=
        hfits.close 0 (Nat.zero_le _) (Nat.zero_le _)
      rw [hclose] at hframed hderives
      obtain rfl := Fed.more.inj hfeed
      cases hframed with
      | paren hframed =>
        rename_i us
        have hinner := accounted_primary hframed (.parens (hderives.of_le (Nat.zero_le _)))
        simpa only [List.append_assoc, List.cons_append, List.nil_append] using hinner
    · exact absurd hfeed (endBefore_ne_more _ _ _)
  · exact absurd hfeed (endBefore_ne_more _ _ _)

theorem Accounted.readAll {ts us : List Token} {r next : Reading} (h : Accounted ts r)
    (hread : r.readAll us = some next) : Accounted (ts ++ us) next := by
  induction us generalizing ts r with
  | nil =>
    obtain rfl := Option.some.inj hread
    rwa [List.append_nil]
  | cons token us ih =>
    rw [Reading.readAll] at hread
    cases hfeed : r.feed token with
    | more r' =>
      rw [hfeed] at hread
      have hstep : Accounted (ts ++ [token]) r' := by
        obtain ⟨frames, operand⟩ := r
        cases operand with
        | none => exact h.feedOperand hfeed
        | some t => exact h.feedOperator hfeed
      rw [List.append_cons]
      exact ih hstep hread
    | ended | fault =>
      rw [hfeed] at hread
      cases hread

/-- A reading that ends is that of an expression. -/
theorem Accounted.isExpression {ts : List Token} {r : Reading} {t : Tree} (h : Accounted ts r)
    (hends : r.Ends t) : IsExpression ts t := by
  obtain ⟨frames, operand⟩ := r
  obtain ⟨o, rfl, hend⟩ := hends
  have hfits : Fits frames o primaryRank ts := h
  obtain ⟨rank, ⟨⟨us, vs, rfl, hframed, hderives⟩, -⟩, -, -⟩ :=
    hfits.close 0 (Nat.zero_le _) (Nat.zero_le _)
  unfold endBefore at hend
  split at hend
  · rename_i whole hclose
    rw [hclose] at hframed hderives
    obtain rfl := Fed.ended.inj hend
    cases hframed
    exact hderives.of_le (Nat.zero_le _)
  · cases hend

/-- The tokens are an expression exactly if reading them all leaves nothing open but frames that
    can be closed. -/
theorem isExpression_iff {ts : List Token} {t : Tree} :
    IsExpression ts t ↔ ∃ r, start.readAll ts = some r ∧ r.Ends t := by
  constructor
  · exact IsExpression.read
  · rintro ⟨r, hread, hends⟩
    have hstart : Accounted [] start := Framed.nil
    exact (hstart.readAll hread).isExpression hends

/-! ## Beginnings of expressions -/

/-- Every reading with an operand can be brought to an end by closing parentheses. -/
theorem exists_ends_of_operand (frames : List Frame) (o : Tree) :
    ∃ more r t, (⟨frames, some o⟩ : Reading).readAll more = some r ∧ r.Ends t := by
  induction hn : frames.length using Nat.strongRecOn generalizing frames o with
  | ind n ih =>
    subst hn
    rcases closeFrames_zero frames o with ⟨whole, hclose⟩ | ⟨outer, inner, hclose, hlt⟩
    · exact ⟨[], _, whole, rfl, o, rfl, by simp only [endBefore, hclose]⟩
    · obtain ⟨more, r, t, hread, hends⟩ := ih _ hlt outer inner rfl
      have hfeed : (⟨frames, some o⟩ : Reading).feed .closing = .more ⟨outer, some inner⟩ := by
        simp only [feed, Reading.feedOperator, hclose]
      exact ⟨.closing :: more, r, t, by rw [readAll_cons hfeed, hread], hends⟩

/-- Every reading can be brought to an end. -/
theorem exists_ends (r : Reading) : ∃ more next t, r.readAll more = some next ∧ next.Ends t := by
  obtain ⟨frames, operand⟩ := r
  cases operand with
  | some o => exact exists_ends_of_operand frames o
  | none =>
    obtain ⟨more, next, t, hread, hends⟩ := exists_ends_of_operand frames (.name "")
    exact ⟨.name "" :: more, next, t, hread, hends⟩

/-- An expression can begin with tokens exactly if they can all be read. -/
theorem beginsExpression_iff {ts : List Token} :
    BeginsExpression ts ↔ ∃ r, start.readAll ts = some r := by
  constructor
  · rintro ⟨more, t, h⟩
    obtain ⟨r, hread, -⟩ := h.read
    rw [readAll_append] at hread
    obtain ⟨mid, hmid, -⟩ := Option.bind_eq_some_iff.mp hread
    exact ⟨mid, hmid⟩
  · rintro ⟨r, hread⟩
    obtain ⟨more, next, t, hmore, hends⟩ := exists_ends r
    exact ⟨more, t, isExpression_iff.mpr ⟨next, (readAll_trans hread more).trans hmore, hends⟩⟩

end VisualNovel.Expression
