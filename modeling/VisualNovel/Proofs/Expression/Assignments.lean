import VisualNovel.Proofs.Expression.Reading

/-
  Reading lists of assignments. `Reads` says what a list goes on with from a place in it, as steps;
  the reader makes these steps (`readAssignments_eq_ok`), and where it stops no list goes on
  (`goesWrong_of_readAssignments`). From the beginning the steps are those of the grammar, as long
  as the signs of assignments are those that are written (`reads_before_iff`).
-/

namespace VisualNovel.Expression

open Reading

/-! ## Ends of expressions -/

theorem finish_eq_ok {r : Reading} {t : Tree} : r.finish = .ok t ↔ r.Ends t := by
  obtain ⟨frames, operand⟩ := r
  unfold Reading.Ends
  cases operand with
  | none => simp [finish]
  | some o =>
    simp only [finish, Option.some.injEq, exists_eq_left']
    cases endBefore frames o <;> simp

theorem feed_separator {r : Reading} {t : Tree} : r.feed .separator = .ended t ↔ r.Ends t := by
  obtain ⟨frames, operand⟩ := r
  unfold Reading.Ends
  cases operand with
  | none => simp [feed, feedOperand]
  | some o => simp [feed, feedOperator]

/-! ## Steps through a list -/

/-- The tokens go on from a place in a list of assignments, to its end, and these are the
    assignments that end in them. -/
inductive Reads : ListPlace → List Token → List Assignment → Prop
  | done : Reads .before [] []
  | separator {ts : List Token} {as : List Assignment} (h : Reads .before ts as) :
      Reads .before (.separator :: ts) as
  | name {target : String} {ts : List Token} {as : List Assignment}
      (h : Reads (.named target) ts as) : Reads .before (.name target :: ts) as
  | sign {target : String} {op : Option BinaryOp} {ts : List Token} {as : List Assignment}
      (h : Reads (.assigned target op .start) ts as) : Reads (.named target) (.assign op :: ts) as
  | more {target : String} {op : Option BinaryOp} {r next : Reading} {token : Token}
      {ts : List Token} {as : List Assignment} (hfeed : r.feed token = .more next)
      (h : Reads (.assigned target op next) ts as) : Reads (.assigned target op r) (token :: ts) as
  | behind {target : String} {op : Option BinaryOp} {r : Reading} {t : Tree} {ts : List Token}
      {as : List Assignment} (hends : r.Ends t) (h : Reads .before ts as) :
      Reads (.assigned target op r) (.separator :: ts) (⟨target, op, t⟩ :: as)
  | last {target : String} {op : Option BinaryOp} {r : Reading} {t : Tree} (hends : r.Ends t) :
      Reads (.assigned target op r) [] [⟨target, op, t⟩]

theorem reads_of_ok {stop : Nat} {place : ListPlace} {tokens : List Placed}
    {as : List Assignment} (h : readAssignments stop place tokens = .ok as) :
    Reads place (tokens.map Prod.snd) as := by
  induction tokens generalizing place as with
  | nil =>
    cases place with
    | before =>
      obtain rfl := Except.ok.inj h
      exact .done
    | named => cases h
    | assigned target op r =>
      unfold readAssignments at h
      cases hfinish : r.finish with
      | ok t =>
        rw [hfinish] at h
        obtain rfl := Except.ok.inj h
        exact .last (finish_eq_ok.mp hfinish)
      | error =>
        rw [hfinish] at h
        cases h
  | cons placed tokens ih =>
    obtain ⟨offset, token⟩ := placed
    rw [List.map_cons]
    cases place with
    | before =>
      unfold readAssignments at h
      split at h
      · exact .separator (ih h)
      · exact .name (ih h)
      · cases h
    | named =>
      unfold readAssignments at h
      split at h
      · exact .sign (ih h)
      · cases h
    | assigned target op r =>
      unfold readAssignments at h
      split at h
      · rename_i next hfeed
        exact .more hfeed (ih h)
      · rename_i t hfeed
        split at h
        · rename_i hseparator
          obtain rfl : token = .separator := hseparator
          cases hrest : readAssignments stop .before tokens with
          | ok as =>
            rw [hrest] at h
            obtain rfl := Except.ok.inj h
            exact .behind (feed_separator.mp hfeed) (ih hrest)
          | error =>
            rw [hrest] at h
            cases h
        · cases h
      · cases h

theorem Reads.ok {place : ListPlace} {ts : List Token} {as : List Assignment}
    (h : Reads place ts as) (stop : Nat) {tokens : List Placed}
    (htokens : tokens.map Prod.snd = ts) : readAssignments stop place tokens = .ok as := by
  induction h generalizing tokens with
  | done =>
    obtain rfl := List.map_eq_nil_iff.mp htokens
    rfl
  | last hends =>
    obtain rfl := List.map_eq_nil_iff.mp htokens
    rw [readAssignments, finish_eq_ok.mpr hends]
  | separator h ih | name h ih | sign h ih =>
    obtain ⟨⟨offset, token⟩, rest, rfl, htoken, hrest⟩ := List.map_eq_cons_iff.mp htokens
    obtain rfl : token = _ := htoken
    rw [readAssignments]
    exact ih hrest
  | more hfeed h ih =>
    obtain ⟨⟨offset, token⟩, rest, rfl, htoken, hrest⟩ := List.map_eq_cons_iff.mp htokens
    obtain rfl : token = _ := htoken
    rw [readAssignments, hfeed]
    exact ih hrest
  | behind hends h ih =>
    obtain ⟨⟨offset, token⟩, rest, rfl, htoken, hrest⟩ := List.map_eq_cons_iff.mp htokens
    obtain rfl : token = _ := htoken
    rw [readAssignments, feed_separator.mpr hends, ih hrest]
    rfl

/-- The reader makes the steps that there are, and no others. -/
theorem readAssignments_eq_ok (stop : Nat) {place : ListPlace} {tokens : List Placed}
    {as : List Assignment} :
    readAssignments stop place tokens = .ok as ↔ Reads place (tokens.map Prod.snd) as :=
  ⟨reads_of_ok, fun h => h.ok stop rfl⟩

/-! ## The grammar -/

/-- The tokens are separators alone. -/
def Blank (ts : List Token) : Prop := ∃ n, ts = List.replicate n .separator

/-- The signs of assignments among tokens are those that are written. -/
def Signed (ts : List Token) : Prop := ∀ op, .assign op ∈ ts → op ∈ assignments

theorem Signed.append {ts us : List Token} (hts : Signed ts) (hus : Signed us) :
    Signed (ts ++ us) := fun op hmem => (List.mem_append.mp hmem).elim (hts op) (hus op)

theorem Signed.of_prefix {ts us : List Token} (h : Signed us) (hbegins : ts <+: us) : Signed ts :=
  fun op hmem => h op (hbegins.subset hmem)

theorem signed_separators (n : Nat) : Signed (List.replicate n .separator) := by
  intro op hmem
  cases List.eq_of_mem_replicate hmem

theorem Signed.tail {token : Token} {ts : List Token} (h : Signed (token :: ts)) : Signed ts :=
  fun op hmem => h op (List.mem_cons_of_mem _ hmem)

/-- No sign of an assignment belongs to an expression. -/
theorem signed_of_readAll {r next : Reading} {ts : List Token} (h : r.readAll ts = some next) :
    Signed ts := by
  induction ts generalizing r with
  | nil => simp [Signed]
  | cons token ts ih =>
    rw [readAll] at h
    cases hfeed : r.feed token with
    | more r' =>
      rw [hfeed] at h
      intro op hmem
      rcases List.mem_cons.mp hmem with rfl | hmem
      · obtain ⟨frames, operand⟩ := r
        cases operand with
        | none => cases hfeed
        | some o => exact absurd hfeed (endBefore_ne_more _ _ _)
      · exact ih h op hmem
    | ended | fault =>
      rw [hfeed] at h
      cases h

theorem IsAssignment.signed {ts : List Token} {a : Assignment} (h : IsAssignment ts a) :
    Signed ts := by
  obtain ⟨target, hop, hes⟩ := h
  obtain ⟨next, hread, -⟩ := hes.read
  intro op hmem
  rcases List.mem_cons.mp hmem with heq | hmem
  · cases heq
  rcases List.mem_cons.mp hmem with heq | hmem
  · obtain rfl := Token.assign.inj heq
    exact hop
  · exact signed_of_readAll hread op hmem

theorem AreStatements.signed {ts : List Token} {as : List Assignment} (h : AreStatements ts as) :
    Signed ts := by
  obtain ⟨n, us, rfl, has⟩ := h
  refine (signed_separators n).append ?_
  induction has with
  | last ha n => exact ha.signed.append (signed_separators n)
  | cons ha n hrest ih => exact (ha.signed.append (signed_separators _)).append ih

/-- Behind an assignment there are separators at most, or at least one separator and more
    assignments. -/
def Behind (ts : List Token) (as : List Assignment) : Prop :=
  Blank ts ∧ as = [] ∨
    ∃ n us, ts = List.replicate (n + 1) .separator ++ us ∧ AreAssignments us as

theorem IsAssignment.followed {es rest : List Token} {a : Assignment} {as : List Assignment}
    (ha : IsAssignment es a) (hrest : Behind rest as) : AreAssignments (es ++ rest) (a :: as) := by
  rcases hrest with ⟨⟨n, rfl⟩, rfl⟩ | ⟨n, us, rfl, has⟩
  · exact .last ha n
  · rw [← List.append_assoc]
    exact .cons ha n has

/-- What the steps through a list mean. -/
def Meant (ts : List Token) (as : List Assignment) : ListPlace → Prop
  | .before => Blank ts ∧ as = [] ∨ AreStatements ts as
  | .named target => ∃ op es t rest as', ts = .assign op :: (es ++ rest) ∧ IsExpression es t ∧
      as = ⟨target, op, t⟩ :: as' ∧ Behind rest as'
  | .assigned target op r => ∃ es next t rest as', ts = es ++ rest ∧ r.readAll es = some next ∧
      next.Ends t ∧ as = ⟨target, op, t⟩ :: as' ∧ Behind rest as'

theorem Reads.meant {place : ListPlace} {ts : List Token} {as : List Assignment}
    (h : Reads place ts as) (hsigned : Signed ts) : Meant ts as place := by
  induction h with
  | done => exact Or.inl ⟨⟨0, rfl⟩, rfl⟩
  | separator h ih =>
    rcases ih hsigned.tail with ⟨⟨n, rfl⟩, rfl⟩ | ⟨n, us, rfl, has⟩
    · exact Or.inl ⟨⟨n + 1, rfl⟩, rfl⟩
    · exact Or.inr ⟨n + 1, us, rfl, has⟩
  | name h ih =>
    rename_i target ts as
    obtain ⟨op, es, t, rest, as', rfl, hes, rfl, hrest⟩ := ih hsigned.tail
    have hop : op ∈ assignments := hsigned.tail op List.mem_cons_self
    exact Or.inr ⟨0, _, rfl, IsAssignment.followed (.mk target hop hes) hrest⟩
  | sign h ih =>
    obtain ⟨es, next, t, rest, as', rfl, hread, hends, rfl, hrest⟩ := ih hsigned.tail
    exact ⟨_, es, t, rest, as', rfl, isExpression_iff.mpr ⟨next, hread, hends⟩, rfl, hrest⟩
  | more hfeed h ih =>
    obtain ⟨es, next, t, rest, as', rfl, hread, hends, rfl, hrest⟩ := ih hsigned.tail
    exact ⟨_ :: es, next, t, rest, as', rfl, (readAll_cons hfeed es).trans hread, hends, rfl,
      hrest⟩
  | behind hends h ih =>
    refine ⟨[], _, _, _, _, rfl, rfl, hends, rfl, ?_⟩
    rcases ih hsigned.tail with ⟨⟨n, rfl⟩, rfl⟩ | ⟨n, us, rfl, has⟩
    · exact Or.inl ⟨⟨n + 1, rfl⟩, rfl⟩
    · exact Or.inr ⟨n, us, rfl, has⟩
  | last hends => exact ⟨[], _, _, [], [], rfl, rfl, hends, rfl, Or.inl ⟨⟨0, rfl⟩, rfl⟩⟩

theorem reads_separators {ts : List Token} {as : List Assignment} (h : Reads .before ts as)
    (n : Nat) : Reads .before (List.replicate n .separator ++ ts) as := by
  induction n with
  | zero => exact h
  | succ n ih => exact .separator ih

theorem reads_blank (n : Nat) : Reads .before (List.replicate n .separator) [] := by
  have h := reads_separators .done n
  rwa [List.append_nil] at h

/-- Behind an assignment that was read its list goes on behind a separator, if it does. -/
def ReadsOn (ts : List Token) (as : List Assignment) : Prop :=
  ts = [] ∧ as = [] ∨ ∃ us, ts = .separator :: us ∧ Reads .before us as

theorem reads_expression {r next : Reading} {es rest : List Token} {t : Tree}
    {as : List Assignment} (hread : r.readAll es = some next) (hends : next.Ends t)
    (hrest : ReadsOn rest as) (target : String) (op : Option BinaryOp) :
    Reads (.assigned target op r) (es ++ rest) (⟨target, op, t⟩ :: as) := by
  induction es generalizing r with
  | nil =>
    obtain rfl := Option.some.inj hread
    rcases hrest with ⟨rfl, rfl⟩ | ⟨us, rfl, has⟩
    · exact .last hends
    · exact .behind hends has
  | cons token es ih =>
    rw [readAll] at hread
    cases hfeed : r.feed token with
    | more r' =>
      rw [hfeed] at hread
      exact .more hfeed (ih hread)
    | ended | fault =>
      rw [hfeed] at hread
      cases hread

theorem IsAssignment.reads {es rest : List Token} {a : Assignment} {as : List Assignment}
    (h : IsAssignment es a) (hrest : ReadsOn rest as) : Reads .before (es ++ rest) (a :: as) := by
  obtain ⟨target, -, hes⟩ := h
  obtain ⟨next, hread, hends⟩ := hes.read
  exact .name (.sign (reads_expression hread hends hrest target _))

theorem AreAssignments.reads {ts : List Token} {as : List Assignment} (h : AreAssignments ts as) :
    Reads .before ts as := by
  induction h with
  | last ha n =>
    refine ha.reads ?_
    cases n with
    | zero => exact Or.inl ⟨rfl, rfl⟩
    | succ n => exact Or.inr ⟨_, rfl, reads_blank n⟩
  | cons ha n hrest ih =>
    rw [List.append_assoc]
    exact ha.reads (Or.inr ⟨_, rfl, reads_separators ih n⟩)

theorem AreStatements.reads {ts : List Token} {as : List Assignment} (h : AreStatements ts as) :
    Reads .before ts as := by
  obtain ⟨n, us, rfl, has⟩ := h
  exact reads_separators has.reads n

theorem AreStatements.ne_nil {ts : List Token} {as : List Assignment} (h : AreStatements ts as) :
    as ≠ [] := by
  obtain ⟨n, us, rfl, has⟩ := h
  cases has <;> simp

/-- From its beginning on a list is read to its end exactly if it is one of the grammar, or
    empty. -/
theorem reads_before_iff {ts : List Token} (hsigned : Signed ts) (as : List Assignment) :
    Reads .before ts as ↔ Blank ts ∧ as = [] ∨ AreStatements ts as := by
  constructor
  · exact fun h => h.meant hsigned
  · rintro (⟨⟨n, rfl⟩, rfl⟩ | h)
    · exact reads_blank n
    · exact h.reads

/-! ## Beginnings of lists -/

/-- The tokens can go on from a place in a list of assignments, with signs that are written. -/
def GoesOn (place : ListPlace) (ts : List Token) : Prop :=
  ∃ more as, Signed more ∧ Reads place (ts ++ more) as

/-- Every place in a list is on the way to an end. -/
theorem goesOn_nil (place : ListPlace) : GoesOn place [] := by
  have hreadings : ∀ target op r, GoesOn (.assigned target op r) [] := by
    intro target op r
    obtain ⟨more, next, t, hread, hends⟩ := exists_ends r
    refine ⟨more, [⟨target, op, t⟩], signed_of_readAll hread, ?_⟩
    have h := reads_expression hread hends (Or.inl ⟨rfl, rfl⟩) target op
    rwa [List.append_nil] at h
  cases place with
  | before => exact ⟨[], [], by simp [Signed], .done⟩
  | assigned target op r => exact hreadings target op r
  | named target =>
    obtain ⟨more, as, hsigned, h⟩ := hreadings target none .start
    refine ⟨.assign none :: more, as, fun op hmem => ?_, .sign h⟩
    rcases List.mem_cons.mp hmem with heq | hmem
    · obtain rfl := Token.assign.inj heq
      exact List.mem_cons_self
    · exact hsigned op hmem

/-- A token that leads from a place to the next keeps whether tokens can go on. -/
theorem goesOn_cons {place next : ListPlace} {token : Token}
    (h : ∀ ts, (∃ as, Reads place (token :: ts) as) ↔ ∃ as, Reads next ts as) (ts : List Token) :
    GoesOn place (token :: ts) ↔ GoesOn next ts := by
  constructor
  · rintro ⟨more, as, hsigned, hreads⟩
    obtain ⟨as', hreads'⟩ := (h (ts ++ more)).mp ⟨as, hreads⟩
    exact ⟨more, as', hsigned, hreads'⟩
  · rintro ⟨more, as, hsigned, hreads⟩
    obtain ⟨as', hreads'⟩ := (h (ts ++ more)).mpr ⟨as, hreads⟩
    exact ⟨more, as', hsigned, hreads'⟩

/-- Tokens go wrong at one that makes no step. -/
theorem goesWrong_of_no_step {place : ListPlace} {stop offset : Nat} {token : Token}
    {behind : List Placed} (h : ∀ ts as, ¬ Reads place (token :: ts) as) :
    GoesWrongAt (GoesOn place) stop ((offset, token) :: behind) offset := by
  refine goesWrong_here (goesOn_nil place) ?_
  rintro ⟨more, as, -, hreads⟩
  exact h more as hreads

/-- Within an expression a list goes on with a token that the expression takes, or with a separator
    behind it. -/
theorem Reads.step {target : String} {op : Option BinaryOp} {r : Reading} {token : Token}
    {ts : List Token} {as : List Assignment}
    (h : Reads (.assigned target op r) (token :: ts) as) :
    (∃ next, r.feed token = .more next) ∨ token = .separator ∧ ∃ t, r.feed token = .ended t := by
  cases h with
  | more hfeed => exact Or.inl ⟨_, hfeed⟩
  | behind hends => exact Or.inr ⟨rfl, _, feed_separator.mpr hends⟩

theorem goesOn_separator (ts : List Token) :
    GoesOn .before (.separator :: ts) ↔ GoesOn .before ts := by
  refine goesOn_cons (fun us => ⟨?_, ?_⟩) ts
  · rintro ⟨as, hreads⟩
    cases hreads with
    | separator h => exact ⟨as, h⟩
  · rintro ⟨as, hreads⟩
    exact ⟨as, .separator hreads⟩

theorem goesOn_name (target : String) (ts : List Token) :
    GoesOn .before (.name target :: ts) ↔ GoesOn (.named target) ts := by
  refine goesOn_cons (fun us => ⟨?_, ?_⟩) ts
  · rintro ⟨as, hreads⟩
    cases hreads with
    | name h => exact ⟨as, h⟩
  · rintro ⟨as, hreads⟩
    exact ⟨as, .name hreads⟩

theorem goesOn_assign (target : String) (op : Option BinaryOp) (ts : List Token) :
    GoesOn (.named target) (.assign op :: ts) ↔ GoesOn (.assigned target op .start) ts := by
  refine goesOn_cons (fun us => ⟨?_, ?_⟩) ts
  · rintro ⟨as, hreads⟩
    cases hreads with
    | sign h => exact ⟨as, h⟩
  · rintro ⟨as, hreads⟩
    exact ⟨as, .sign hreads⟩

theorem goesOn_more {r next : Reading} {token : Token} (hfeed : r.feed token = .more next)
    (target : String) (op : Option BinaryOp) (ts : List Token) :
    GoesOn (.assigned target op r) (token :: ts) ↔ GoesOn (.assigned target op next) ts := by
  refine goesOn_cons (fun us => ⟨?_, ?_⟩) ts
  · rintro ⟨as, hreads⟩
    cases hreads with
    | more hfeed' h =>
      rw [hfeed] at hfeed'
      obtain rfl := Fed.more.inj hfeed'
      exact ⟨as, h⟩
    | behind hends h =>
      rw [feed_separator.mpr hends] at hfeed
      cases hfeed
  · rintro ⟨as, hreads⟩
    exact ⟨as, .more hfeed hreads⟩

theorem goesOn_behind {r : Reading} {t : Tree} (hends : r.Ends t) (target : String)
    (op : Option BinaryOp) (ts : List Token) :
    GoesOn (.assigned target op r) (.separator :: ts) ↔ GoesOn .before ts := by
  refine goesOn_cons (fun us => ⟨?_, ?_⟩) ts
  · rintro ⟨as, hreads⟩
    cases hreads with
    | more hfeed h =>
      rw [feed_separator.mpr hends] at hfeed
      cases hfeed
    | behind hends' h => exact ⟨_, h⟩
  · rintro ⟨as, hreads⟩
    exact ⟨_, .behind hends hreads⟩

/-- What is wrong with tokens that end too early is wrong at their end. -/
theorem fault_of_readAssignments_nil {stop : Nat} {place : ListPlace} {fault : PlacedFault}
    (h : readAssignments stop place [] = .error fault) : fault.1 = stop := by
  cases place with
  | before => cases h
  | named => rw [← Except.error.inj h]
  | assigned target op r =>
    unfold readAssignments at h
    split at h
    · cases h
    · rw [← Except.error.inj h]

/-- Where the reader stops, no list goes on. -/
theorem goesWrong_of_readAssignments {stop : Nat} {place : ListPlace} {tokens : List Placed}
    {fault : PlacedFault} (h : readAssignments stop place tokens = .error fault) :
    GoesWrongAt (GoesOn place) stop tokens fault.1 := by
  induction tokens generalizing place with
  | nil => exact fault_of_readAssignments_nil h ▸ goesWrong_at_end (goesOn_nil place)
  | cons placed tokens ih =>
    obtain ⟨offset, token⟩ := placed
    cases place with
    | before =>
      unfold readAssignments at h
      split at h
      · exact (ih h).after goesOn_separator
      · exact (ih h).after (goesOn_name _)
      · rename_i hseparator hname
        obtain rfl := Except.error.inj h
        refine goesWrong_of_no_step fun ts as hreads => ?_
        cases hreads with
        | separator => exact hseparator rfl
        | name => exact hname _ rfl
    | named target =>
      unfold readAssignments at h
      split at h
      · exact (ih h).after (goesOn_assign target _)
      · rename_i hassign
        obtain rfl := Except.error.inj h
        refine goesWrong_of_no_step fun ts as hreads => ?_
        cases hreads with
        | sign => exact hassign _ rfl
    | assigned target op r =>
      unfold readAssignments at h
      split at h
      · rename_i next hfeed
        exact (ih h).after (goesOn_more hfeed target op)
      · rename_i t hfeed
        split at h
        · rename_i hseparator
          obtain rfl : token = .separator := hseparator
          cases hrest : readAssignments stop .before tokens with
          | ok as =>
            rw [hrest] at h
            cases h
          | error fault' =>
            rw [hrest] at h
            obtain rfl := Except.error.inj h
            exact (ih hrest).after (goesOn_behind (feed_separator.mp hfeed) target op)
        · rename_i hseparator
          obtain rfl := Except.error.inj h
          refine goesWrong_of_no_step fun ts as hreads => ?_
          obtain ⟨next, hmore⟩ | ⟨hsame, -⟩ := hreads.step
          · cases hfeed.symm.trans hmore
          · exact hseparator hsame
      · rename_i fault' hfeed
        obtain rfl := Except.error.inj h
        refine goesWrong_of_no_step fun ts as hreads => ?_
        obtain ⟨next, hmore⟩ | ⟨-, t, hended⟩ := hreads.step
        · cases hfeed.symm.trans hmore
        · cases hfeed.symm.trans hended

/-- A list of the grammar can begin with tokens exactly if they go on from the beginning of one. A
    list without assignments goes on with one. -/
theorem beginsStatements_iff {ts : List Token} (hsigned : Signed ts) :
    BeginsStatements ts ↔ GoesOn .before ts := by
  constructor
  · rintro ⟨more, as, h⟩
    have hmore : Signed more := fun op hmem => h.signed op (List.mem_append_right ts hmem)
    exact ⟨more, as, hmore, h.reads⟩
  · rintro ⟨more, as, hmore, hreads⟩
    rcases (reads_before_iff (hsigned.append hmore) as).mp hreads with ⟨⟨n, hblank⟩, -⟩ | h
    · have hname : IsAssignment [.name "", .assign none, .name ""] ⟨"", none, .name ""⟩ :=
        .mk "" List.mem_cons_self ((Derives.name "").of_le (Nat.zero_le _))
      refine ⟨more ++ [.name "", .assign none, .name ""], [⟨"", none, .name ""⟩], n, _, ?_,
        .last hname 0⟩
      rw [← List.append_assoc, hblank]
      rfl
    · exact ⟨more, as, h⟩

end VisualNovel.Expression
