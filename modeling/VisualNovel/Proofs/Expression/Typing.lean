import Mathlib.Algebra.Ring.Nat
import Mathlib.Control.Monad.Basic
import VisualNovel.Expression.Evaluation

/-
  Types of expressions without numbers of double precision. Operators say what types they take
  (`UnaryOp.Takes`, `BinaryOp.Takes`), and an expression has a type by its operators. With
  parameters of the types that are assumed it is evaluated to a value of its type, unless a division
  by zero is met (`HasType.safe_eval`, `meetsZero_iff`). An expression of integers is worked out on
  the integers, and wrapped around at 64 bits after each operator (`HasType.agrees_integer`).
-/

namespace VisualNovel.Expression

/-! ## Types -/

/-- The types of values, numbers of double precision aside. -/
inductive Ty where
  | bool
  | int
  | str
  deriving Repr, DecidableEq

/-- The type of a value; a number of double precision has none. -/
def Value.type? : Value → Option Ty
  | .bool _ => some .bool
  | .int _ => some .int
  | .str _ => some .str
  | .float _ => none

/-- The operators that need an order. -/
def orders : List BinaryOp := [.lt, .le, .gt, .ge]

/-- The operators on numbers. -/
def arithmetics : List BinaryOp := [.add, .sub, .mul, .div, .rem]

/-- The type that an operator takes before its operand, and the type of what it gives. -/
inductive UnaryOp.Takes : UnaryOp → Ty → Ty → Prop
  | not : Takes .not .bool .bool
  | neg : Takes .neg .int .int

/-- The types that an operator takes on its left and on its right, and the type of what it gives. -/
inductive BinaryOp.Takes : BinaryOp → Ty → Ty → Ty → Prop
  | and : Takes .and .bool .bool .bool
  | or : Takes .or .bool .bool .bool
  | eq (σ τ : Ty) : Takes .eq σ τ .bool
  | ne (σ τ : Ty) : Takes .ne σ τ .bool
  | order {op : BinaryOp} (hop : op ∈ orders) (τ : Ty) : Takes op τ τ .bool
  | arithmetic {op : BinaryOp} (hop : op ∈ arithmetics) : Takes op .int .int .int
  | textBefore (τ : Ty) : Takes .add .str τ .str
  | textBehind (σ : Ty) : Takes .add σ .str .str

/-- The types of parameters. -/
abbrev Context := String → Option Ty

/-- The type of an expression. -/
inductive HasType (Γ : Context) : Tree → Ty → Prop
  | literal {v : Value} {τ : Ty} (hv : v.type? = some τ) : HasType Γ (.literal v) τ
  | name {s : String} {τ : Ty} (hs : Γ s = some τ) : HasType Γ (.name s) τ
  | unary {op : UnaryOp} {t : Tree} {σ τ : Ty} (hop : op.Takes σ τ) (ht : HasType Γ t σ) :
      HasType Γ (.unary op t) τ
  | binary {op : BinaryOp} {left right : Tree} {ρ σ τ : Ty} (hop : op.Takes ρ σ τ)
      (hleft : HasType Γ left ρ) (hright : HasType Γ right σ) : HasType Γ (.binary op left right) τ

/-- The names of parameters in an expression. -/
def Tree.names : Tree → List String
  | literal _ => []
  | name s => [s]
  | unary _ t => t.names
  | binary _ left right => left.names ++ right.names

/-- The parameters that an expression names are there, with the types that are assumed. -/
def Tree.Supplied (t : Tree) (Γ : Context) (params : Params) : Prop :=
  ∀ s ∈ t.names, (params.get? s).bind Value.type? = Γ s

instance (t : Tree) (Γ : Context) (params : Params) : Decidable (t.Supplied Γ params) :=
  inferInstanceAs (Decidable (∀ s ∈ t.names, _))

variable {Γ : Context} {params : Params} {v w : Value} {σ τ : Ty}

theorem type?_eq_bool : v.type? = some .bool ↔ ∃ b, v = .bool b := by
  cases v <;> simp [Value.type?]

theorem type?_eq_int : v.type? = some .int ↔ ∃ i, v = .int i := by
  cases v <;> simp [Value.type?]

theorem type?_eq_str : v.type? = some .str ↔ ∃ s, v = .str s := by
  cases v <;> simp [Value.type?]

/-! ## Values of a type -/

/-- What came of an evaluation is a value of the type, or the error of a division by zero. -/
def Safe (τ : Ty) (r : Except ExpressionError Value) : Prop :=
  (∃ v, r = .ok v ∧ v.type? = some τ) ∨ r = .error .divisionByZero

theorem safe_ok (hv : v.type? = some τ) : Safe τ (.ok v) := Or.inl ⟨v, rfl, hv⟩

theorem Safe.bind {r : Except ExpressionError Value} {f : Value → Except ExpressionError Value}
    (h : Safe σ r) (hf : ∀ v, v.type? = some σ → Safe τ (f v)) : Safe τ (r.bind f) := by
  rcases h with ⟨v, rfl, hv⟩ | rfl
  · exact hf v hv
  · exact Or.inr rfl

theorem UnaryOp.Takes.safe {op : UnaryOp} (h : op.Takes σ τ) (hv : v.type? = some σ) :
    Safe τ (applyUnary op v) := by
  cases h with
  | not =>
    obtain ⟨b, rfl⟩ := type?_eq_bool.mp hv
    exact safe_ok rfl
  | neg =>
    obtain ⟨i, rfl⟩ := type?_eq_int.mp hv
    exact safe_ok rfl

/-- Values of one type compare. -/
theorem compare?_isSome (hv : v.type? = some τ) (hw : w.type? = some τ) :
    (compare? v w).isSome = true := by
  cases τ with
  | bool =>
    obtain ⟨a, rfl⟩ := type?_eq_bool.mp hv
    obtain ⟨b, rfl⟩ := type?_eq_bool.mp hw
    rfl
  | int =>
    obtain ⟨a, rfl⟩ := type?_eq_int.mp hv
    obtain ⟨b, rfl⟩ := type?_eq_int.mp hw
    rfl
  | str =>
    obtain ⟨a, rfl⟩ := type?_eq_str.mp hv
    obtain ⟨b, rfl⟩ := type?_eq_str.mp hw
    rfl

theorem safe_order {op : BinaryOp} (hop : op ∈ orders) (hv : v.type? = some τ)
    (hw : w.type? = some τ) : Safe .bool (applyBinary op v w) := by
  obtain ⟨o, ho⟩ := Option.isSome_iff_exists.mp (compare?_isSome hv hw)
  simp only [orders, List.mem_cons, List.not_mem_nil, or_false] at hop
  rcases hop with rfl | rfl | rfl | rfl <;> simp only [applyBinary, ho] <;> exact safe_ok rfl

theorem safe_intArithmetic {op : BinaryOp} (hop : op ∈ arithmetics) (a b : Int64) :
    Safe .int (intArithmetic op a b) := by
  simp only [arithmetics, List.mem_cons, List.not_mem_nil, or_false] at hop
  rcases hop with rfl | rfl | rfl | rfl | rfl <;> simp only [intArithmetic]
  case inr.inr.inr.inl | inr.inr.inr.inr =>
    split
    · exact Or.inr rfl
    · exact safe_ok rfl
  all_goals exact safe_ok rfl

theorem applyBinary_arithmetic {op : BinaryOp} (hop : op ∈ arithmetics) :
    applyBinary op v w = arithmetic op v w := by
  simp only [arithmetics, List.mem_cons, List.not_mem_nil, or_false] at hop
  rcases hop with rfl | rfl | rfl | rfl | rfl <;> rfl

theorem arithmetic_str_left (s : String) (w : Value) :
    arithmetic .add (.str s) w = .ok (.str (s ++ w.text)) := by
  cases w <;> rfl

theorem arithmetic_str_right (v : Value) (s : String) :
    arithmetic .add v (.str s) = .ok (.str (v.text ++ s)) := by
  cases v <;> rfl

/-- The operators `&&` and `||`. -/
def BinaryOp.IsLogical (op : BinaryOp) : Prop := op = .and ∨ op = .or

theorem BinaryOp.Takes.safe {op : BinaryOp} {ρ : Ty} (h : op.Takes ρ σ τ) (hop : ¬ op.IsLogical)
    (hv : v.type? = some ρ) (hw : w.type? = some σ) : Safe τ (applyBinary op v w) := by
  cases h with
  | and => exact absurd (Or.inl rfl) hop
  | or => exact absurd (Or.inr rfl) hop
  | eq | ne => exact safe_ok rfl
  | order hop => exact safe_order hop hv hw
  | arithmetic hop =>
    obtain ⟨a, rfl⟩ := type?_eq_int.mp hv
    obtain ⟨b, rfl⟩ := type?_eq_int.mp hw
    rw [applyBinary_arithmetic hop]
    exact safe_intArithmetic hop a b
  | textBefore =>
    obtain ⟨s, rfl⟩ := type?_eq_str.mp hv
    rw [applyBinary_arithmetic (by decide), arithmetic_str_left]
    exact safe_ok rfl
  | textBehind =>
    obtain ⟨s, rfl⟩ := type?_eq_str.mp hw
    rw [applyBinary_arithmetic (by decide), arithmetic_str_right]
    exact safe_ok rfl

/-! ## Evaluation -/

section

variable {op : BinaryOp} {left right : Tree}

/-- Behind a left side with a value comes the right side, for all operators but `&&` and `||`. -/
theorem eval_binary (hop : ¬ op.IsLogical) (params : Params) (left right : Tree) :
    (Tree.binary op left right).eval params =
      (left.eval params).bind fun v => (right.eval params).bind (applyBinary op v) := by
  simp only [Tree.eval, if_neg (show ¬(op = .and ∨ op = .or) from hop)]

/-- A truth value on the left of `&&` or `||` settles it, or else the right side counts. -/
theorem eval_logical (hop : op.IsLogical) {b : Bool} (hleft : left.eval params = .ok (.bool b)) :
    (Tree.binary op left right).eval params =
      if settledBy op b then .ok (.bool b) else (right.eval params).bind (logicalRight op b) := by
  simp only [Tree.eval, hleft, Except.bind, if_pos (show op = .and ∨ op = .or from hop)]

theorem eval_of_left_error {e : ExpressionError} (hleft : left.eval params = .error e) :
    (Tree.binary op left right).eval params = .error e := by
  simp only [Tree.eval, hleft, Except.bind]

theorem safe_logical (hop : op.IsLogical) (hleft : Safe .bool (left.eval params))
    (hright : Safe .bool (right.eval params)) :
    Safe .bool ((Tree.binary op left right).eval params) := by
  rcases hleft with ⟨v, hv, htype⟩ | hzero
  · obtain ⟨b, rfl⟩ := type?_eq_bool.mp htype
    rw [eval_logical hop hv]
    split
    · exact safe_ok rfl
    · refine hright.bind fun w hw => ?_
      obtain ⟨c, rfl⟩ := type?_eq_bool.mp hw
      exact safe_ok rfl
  · exact Or.inr (eval_of_left_error hzero)

end

/-- An expression with a type is evaluated to a value of the type, unless a division by zero is
    met. -/
theorem HasType.safe_eval {t : Tree} (h : HasType Γ t τ) (hsupplied : t.Supplied Γ params) :
    Safe τ (t.eval params) := by
  induction h with
  | literal hv => exact safe_ok hv
  | @name s τ hs =>
    have hget := hsupplied s (List.mem_singleton_self s)
    rw [hs] at hget
    obtain ⟨v, hv, htype⟩ := Option.bind_eq_some_iff.mp hget
    rw [Tree.eval, hv]
    exact safe_ok htype
  | unary hop _ ih => exact (ih hsupplied).bind fun v hv => hop.safe hv
  | @binary op left right ρ σ τ hop _ _ ihleft ihright =>
    have hleft := ihleft fun s hs => hsupplied s (List.mem_append_left _ hs)
    have hright := ihright fun s hs => hsupplied s (List.mem_append_right _ hs)
    by_cases hlogical : op.IsLogical
    · -- `&&` and `||` take truth values alone, and do not need the right one every time
      obtain ⟨rfl, rfl, rfl⟩ : ρ = .bool ∧ σ = .bool ∧ τ = .bool := by
        rcases hlogical with rfl | rfl <;> cases hop <;> simp_all [orders, arithmetics]
      exact safe_logical hlogical hleft hright
    · rw [eval_binary hlogical]
      exact hleft.bind fun v hv => hright.bind fun w hw => hop.safe hlogical hv hw

/-! ## Divisions by zero -/

/-- A division by zero is met when an expression is evaluated: both sides of a `/` or `%` have
    values, and the right one is zero, or one is met in a part that counts. -/
inductive MeetsZero (params : Params) : Tree → Prop
  | here {op : BinaryOp} {left right : Tree} {i : Int64} (hop : op = .div ∨ op = .rem)
      (hleft : left.eval params = .ok (.int i)) (hright : right.eval params = .ok (.int 0)) :
      MeetsZero params (.binary op left right)
  | operand {op : UnaryOp} {t : Tree} (h : MeetsZero params t) : MeetsZero params (.unary op t)
  | left {op : BinaryOp} {left right : Tree} (h : MeetsZero params left) :
      MeetsZero params (.binary op left right)
  | right {op : BinaryOp} {left right : Tree} {v : Value} (hleft : left.eval params = .ok v)
      (hand : op = .and → v = .bool true) (hor : op = .or → v = .bool false)
      (h : MeetsZero params right) : MeetsZero params (.binary op left right)

theorem applyUnary_ne_divisionByZero (op : UnaryOp) (v : Value) :
    applyUnary op v ≠ .error .divisionByZero := by
  cases op <;> cases v <;> simp [applyUnary, mismatch]

theorem numberArithmetic_ne_divisionByZero (op : BinaryOp) (v w : Value) :
    numberArithmetic op v w ≠ .error .divisionByZero := by
  unfold numberArithmetic
  split
  · split <;> simp [mismatch]
  · simp [mismatch]

theorem intArithmetic_eq_divisionByZero {op : BinaryOp} {a b : Int64} :
    intArithmetic op a b = .error .divisionByZero ↔ (op = .div ∨ op = .rem) ∧ b = 0 := by
  cases op <;> simp [intArithmetic, mismatch]

theorem arithmetic_eq_divisionByZero {op : BinaryOp} :
    arithmetic op v w = .error .divisionByZero ↔
      (op = .div ∨ op = .rem) ∧ (∃ i, v = .int i) ∧ w = .int 0 := by
  unfold arithmetic
  split
  · simp [intArithmetic_eq_divisionByZero]
  · split
    · simp
    · simp [numberArithmetic_ne_divisionByZero]
  · split
    · simp
    · simp [numberArithmetic_ne_divisionByZero]
  · rename_i hint
    simp only [numberArithmetic_ne_divisionByZero, false_iff]
    rintro ⟨-, ⟨i, rfl⟩, rfl⟩
    exact hint i 0 rfl rfl

theorem applyBinary_eq_divisionByZero {op : BinaryOp} :
    applyBinary op v w = .error .divisionByZero ↔
      (op = .div ∨ op = .rem) ∧ (∃ i, v = .int i) ∧ w = .int 0 := by
  cases op with
  | eq | ne => simp [applyBinary]
  | lt | le | gt | ge =>
    rw [applyBinary]
    split <;> simp [mismatch]
  | or | and | add | sub | mul | div | rem => exact arithmetic_eq_divisionByZero

theorem logicalRight_ne_divisionByZero (op : BinaryOp) (b : Bool) (v : Value) :
    logicalRight op b v ≠ .error .divisionByZero := by
  cases v <;> simp [logicalRight, mismatch]

theorem bind_eq_divisionByZero {r : Except ExpressionError Value}
    {f : Value → Except ExpressionError Value} :
    r.bind f = .error .divisionByZero ↔
      r = .error .divisionByZero ∨ ∃ v, r = .ok v ∧ f v = .error .divisionByZero := by
  cases r <;> simp [Except.bind]

/-- The left side of `&&` or `||` that leaves the right side to count. -/
theorem settledBy_eq_false {op : BinaryOp} (hop : op.IsLogical) {b : Bool} :
    settledBy op b = false ↔ (op = .and → b = true) ∧ (op = .or → b = false) := by
  rcases hop with rfl | rfl <;> simp [settledBy]

/-- When both sides count, a division by zero is met in the left one, in the right one or between
    their values. -/
theorem MeetsZero.of_strict {op : BinaryOp} {left right : Tree} (hop : ¬ op.IsLogical)
    (h : (Tree.binary op left right).eval params = .error .divisionByZero)
    (hleft : left.eval params = .error .divisionByZero → MeetsZero params left)
    (hright : right.eval params = .error .divisionByZero → MeetsZero params right) :
    MeetsZero params (.binary op left right) := by
  rw [eval_binary hop] at h
  rcases bind_eq_divisionByZero.mp h with hzero | ⟨v, hv, hrest⟩
  · exact .left (hleft hzero)
  rcases bind_eq_divisionByZero.mp hrest with hzero | ⟨w, hw, happly⟩
  · exact .right hv (fun h => absurd (Or.inl h) hop) (fun h => absurd (Or.inr h) hop)
      (hright hzero)
  · obtain ⟨hdivision, ⟨i, rfl⟩, rfl⟩ := applyBinary_eq_divisionByZero.mp happly
    exact .here hdivision hv hw

/-- In `&&` and `||` one is met on the left, or on the right when the left side does not settle
    it. -/
theorem MeetsZero.of_logical {op : BinaryOp} {left right : Tree} (hop : op.IsLogical)
    (h : (Tree.binary op left right).eval params = .error .divisionByZero)
    (hleft : left.eval params = .error .divisionByZero → MeetsZero params left)
    (hright : right.eval params = .error .divisionByZero → MeetsZero params right) :
    MeetsZero params (.binary op left right) := by
  rcases bind_eq_divisionByZero.mp h with hzero | ⟨v, hv, hrest⟩
  · exact .left (hleft hzero)
  rw [if_pos (show op = .and ∨ op = .or from hop)] at hrest
  cases v with
  | bool b =>
    dsimp only at hrest
    split at hrest
    · cases hrest
    · rename_i hcounts
      obtain ⟨hand, hor⟩ := (settledBy_eq_false hop).mp (Bool.eq_false_iff.mpr hcounts)
      rcases bind_eq_divisionByZero.mp hrest with hzero | ⟨w, -, hw⟩
      · exact .right hv (fun h => by rw [hand h]) (fun h => by rw [hor h]) (hright hzero)
      · exact absurd hw (logicalRight_ne_divisionByZero op b w)
  | int | float | str => cases hrest

theorem MeetsZero.eval {t : Tree} (h : MeetsZero params t) :
    t.eval params = .error .divisionByZero := by
  induction h with
  | @here op left right i hop hleft hright =>
    have hstrict : ¬ op.IsLogical := by
      rintro (rfl | rfl) <;> rcases hop with hop | hop <;> cases hop
    rw [eval_binary hstrict, hleft, hright]
    exact applyBinary_eq_divisionByZero.mpr ⟨hop, ⟨_, rfl⟩, rfl⟩
  | operand h ih => rw [Tree.eval, ih, Except.bind]
  | left h ih => exact eval_of_left_error ih
  | @right op left right v hleft hand hor h ih =>
    by_cases hop : op.IsLogical
    · obtain ⟨b, rfl, hcounts⟩ : ∃ b, v = .bool b ∧ settledBy op b = false := by
        rcases hop with rfl | rfl
        · exact ⟨true, hand rfl, rfl⟩
        · exact ⟨false, hor rfl, rfl⟩
      rw [eval_logical hop hleft, hcounts, if_neg Bool.false_ne_true, ih, Except.bind]
    · rw [eval_binary hop, hleft, Except.bind, ih, Except.bind]

theorem MeetsZero.of_eval {t : Tree} (h : t.eval params = .error .divisionByZero) :
    MeetsZero params t := by
  induction t with
  | literal v => cases h
  | name s =>
    rw [Tree.eval] at h
    split at h <;> cases h
  | unary op t ih =>
    rcases bind_eq_divisionByZero.mp h with hoperand | ⟨v, -, hv⟩
    · exact .operand (ih hoperand)
    · exact absurd hv (applyUnary_ne_divisionByZero op v)
  | binary op left right ihleft ihright =>
    by_cases hop : op.IsLogical
    · exact .of_logical hop h ihleft ihright
    · exact .of_strict hop h ihleft ihright

/-- An evaluation fails with a division by zero exactly when one is met. -/
theorem meetsZero_iff {t : Tree} :
    MeetsZero params t ↔ t.eval params = .error .divisionByZero :=
  ⟨MeetsZero.eval, MeetsZero.of_eval⟩

/-! ## Integers -/

/-- An integer modulo 2^64, from -2^63 up. -/
def wrapped (i : Int) : Int := i.bmod (2 ^ 64)

/-- What an operator gives on the integers. Division goes toward zero; by zero there is none. -/
def BinaryOp.onIntegers? (op : BinaryOp) (a b : Int) : Option Int :=
  match op with
  | .add => some (a + b)
  | .sub => some (a - b)
  | .mul => some (a * b)
  | .div => if b = 0 then none else some (a.tdiv b)
  | .rem => if b = 0 then none else some (a.tmod b)
  | _ => none

/-- The value of an expression of integers, worked out on the integers and wrapped around after
    each operator; there is none when it divides by zero. -/
def Tree.integer? (params : Params) : Tree → Option Int
  | literal (.int i) => some i.toInt
  | name s => (params.get? s).bind fun v => match v with
    | .int i => some i.toInt
    | _ => none
  | unary .neg t => (t.integer? params).map fun a => wrapped (-a)
  | binary op left right =>
    (left.integer? params).bind fun a =>
      (right.integer? params).bind fun b => (op.onIntegers? a b).map wrapped
  | _ => none

/-- What came of an evaluation is an integer, or the error of a division by zero if there is
    none. -/
def Agrees (r : Except ExpressionError Value) (a : Option Int) : Prop :=
  (∃ i : Int64, r = .ok (.int i) ∧ a = some i.toInt) ∨ (r = .error .divisionByZero ∧ a = none)

theorem agrees_intArithmetic {op : BinaryOp} (hop : op ∈ arithmetics) (a b : Int64) :
    Agrees (intArithmetic op a b) ((op.onIntegers? a.toInt b.toInt).map wrapped) := by
  have hzero : b.toInt = 0 ↔ b = 0 := by rw [← Int64.toInt_zero, Int64.toInt_inj]
  simp only [arithmetics, List.mem_cons, List.not_mem_nil, or_false] at hop
  rcases hop with rfl | rfl | rfl | hdivision
  · exact Or.inl ⟨a + b, rfl, by simp [BinaryOp.onIntegers?, wrapped]⟩
  · exact Or.inl ⟨a - b, rfl, by simp [BinaryOp.onIntegers?, wrapped]⟩
  · exact Or.inl ⟨a * b, rfl, by simp [BinaryOp.onIntegers?, wrapped]⟩
  by_cases hb : b = 0
  · refine Or.inr ⟨intArithmetic_eq_divisionByZero.mpr ⟨hdivision, hb⟩, ?_⟩
    rcases hdivision with rfl | rfl <;> simp [BinaryOp.onIntegers?, hzero.mpr hb]
  · have hne : b.toInt ≠ 0 := mt hzero.mp hb
    rcases hdivision with rfl | rfl
    · exact Or.inl ⟨a / b, if_neg hb, by simp [BinaryOp.onIntegers?, hne, wrapped, Int64.toInt_div]⟩
    · -- the remainder is within 64 bits already
      have hrem : (a.toInt.tmod b.toInt).bmod (2 ^ 64) = (a % b).toInt := by
        rw [← Int64.toInt_mod]
        exact Int64.toInt_bmod _
      refine Or.inl ⟨a % b, if_neg hb, ?_⟩
      rw [BinaryOp.onIntegers?, if_neg hne, Option.map_some, wrapped, hrem]

/-- An expression of integers gives what it is worked out to be on the integers. -/
theorem HasType.agrees_integer {t : Tree} (h : HasType Γ t .int) (hsupplied : t.Supplied Γ params) :
    Agrees (t.eval params) (t.integer? params) := by
  generalize hτ : Ty.int = τ at h
  induction h with
  | literal hv =>
    obtain ⟨i, rfl⟩ := type?_eq_int.mp (hτ ▸ hv)
    exact Or.inl ⟨i, rfl, rfl⟩
  | @name s τ hs =>
    have hget := hsupplied s (List.mem_singleton_self s)
    rw [hs, ← hτ] at hget
    obtain ⟨v, hv, htype⟩ := Option.bind_eq_some_iff.mp hget
    obtain ⟨i, rfl⟩ := type?_eq_int.mp htype
    exact Or.inl ⟨i, by rw [Tree.eval, hv], by rw [Tree.integer?, hv]; rfl⟩
  | unary hop _ ih =>
    cases hop with
    | not => cases hτ
    | neg =>
      rcases ih hsupplied rfl with ⟨i, hi, ha⟩ | ⟨hzero, ha⟩
      · refine Or.inl ⟨-i, by rw [Tree.eval, hi]; rfl, ?_⟩
        rw [Tree.integer?, ha, Int64.toInt_neg]
        rfl
      · exact Or.inr ⟨by rw [Tree.eval, hzero, Except.bind], by rw [Tree.integer?, ha]; rfl⟩
  | @binary op left right ρ σ τ hop _ _ ihleft ihright =>
    subst hτ
    cases hop with
    | arithmetic hop =>
      have hstrict : ¬ op.IsLogical := by
        rintro (rfl | rfl) <;> simp [arithmetics] at hop
      rw [eval_binary hstrict, Tree.integer?]
      rcases ihleft (fun s hs => hsupplied s (List.mem_append_left _ hs)) rfl with
        ⟨a, ha, hinteger⟩ | ⟨hzero, hinteger⟩
      · rw [ha, hinteger]
        rcases ihright (fun s hs => hsupplied s (List.mem_append_right _ hs)) rfl with
          ⟨b, hb, hinteger⟩ | ⟨hzero, hinteger⟩
        · rw [hb, hinteger]
          change Agrees (applyBinary op (.int a) (.int b)) _
          rw [applyBinary_arithmetic hop]
          exact agrees_intArithmetic hop a b
        · exact Or.inr ⟨by rw [hzero]; rfl, by rw [hinteger]; rfl⟩
      · exact Or.inr ⟨by rw [hzero]; rfl, by rw [hinteger]; rfl⟩

/-- Evaluation is type-sound. An expression with a type, and parameters of the types that are
    assumed of those it names, give a value of this type, or the error of a division by zero, which
    comes exactly when one is met. A condition gives a truth value or that error. An expression of
    integers gives the integer that it is worked out to be, wrapped around at 64 bits after each
    operator. -/
theorem evaluation_is_sound {e : Expression} (h : HasType Γ e.tree τ)
    (hsupplied : e.tree.Supplied Γ params) :
    ((∃ v, e.eval params = .ok v ∧ v.type? = some τ) ∨ e.eval params = .error .divisionByZero) ∧
    (e.eval params = .error .divisionByZero ↔ MeetsZero params e.tree) ∧
    (τ = .bool → (∃ b, e.eval params = .ok (.bool b) ∧ e.evalBool params = .ok b) ∨
      e.evalBool params = .error .divisionByZero) ∧
    (τ = .int → ∀ i, e.eval params = .ok (.int i) ↔ e.tree.integer? params = some i.toInt) := by
  have hsafe := h.safe_eval hsupplied
  refine ⟨hsafe, meetsZero_iff.symm, ?_, ?_⟩
  · rintro rfl
    rcases hsafe with ⟨v, hv, htype⟩ | hzero
    · obtain ⟨b, rfl⟩ := type?_eq_bool.mp htype
      exact Or.inl ⟨b, hv, by rw [evalBool, eval, hv]; rfl⟩
    · exact Or.inr (by rw [evalBool, eval, hzero]; rfl)
  · rintro rfl i
    rw [eval]
    rcases h.agrees_integer hsupplied with ⟨a, ha, hinteger⟩ | ⟨hzero, hinteger⟩
    · rw [ha, hinteger, Option.some.injEq, Int64.toInt_inj]
      simp
    · simp [hzero, hinteger]

/-- A condition keeps a division by zero from being met, and the least integer divided by minus one
    wraps around. -/
theorem division_is_guarded :
    let source := "z == 0 || 'n' + n / z == ''"
    let quotient : Tree := .binary .div (.name "n") (.name "z")
    let tree : Tree := .binary .or (.binary .eq (.name "z") (.literal (.int 0)))
      (.binary .eq (.binary .add (.literal (.str "n")) quotient) (.literal (.str "")))
    let Γ : Context := fun _ => some .int
    let params (z : Int64) : Params := ⟨[("n", .int Int64.minValue), ("z", .int z)]⟩
    parse source = .ok ⟨source, tree⟩ ∧
      (HasType Γ tree .bool ∧ tree.Supplied Γ (params 0) ∧
        ∃ b, evalBool ⟨source, tree⟩ (params 0) = .ok b) ∧
      (HasType Γ quotient .int ∧ quotient.Supplied Γ (params (-1)) ∧
        eval ⟨"n / z", quotient⟩ (params (-1)) = .ok (.int Int64.minValue)) := by
  intro source quotient tree Γ params
  have hquotient : HasType Γ quotient .int :=
    .binary (.arithmetic (by decide)) (.name rfl) (.name rfl)
  have htree : HasType Γ tree .bool :=
    .binary .or (.binary (.eq .int .int) (.name rfl) (.literal rfl))
      (.binary (.eq .str .str) (.binary (.textBefore .int) (.literal rfl) hquotient) (.literal rfl))
  have hguarded : tree.Supplied Γ (params 0) := by decide +kernel
  have hminus : quotient.Supplied Γ (params (-1)) := by decide +kernel
  obtain ⟨-, -, hcondition, -⟩ := evaluation_is_sound (e := ⟨source, tree⟩) htree hguarded
  obtain ⟨-, -, -, hinteger⟩ :=
    evaluation_is_sound (e := ⟨"n / z", quotient⟩) hquotient hminus
  refine ⟨by decide +kernel, ⟨htree, hguarded, ?_⟩, hquotient, hminus, ?_⟩
  · have hunmet : evalBool ⟨source, tree⟩ (params 0) ≠ .error .divisionByZero := by decide +kernel
    rcases hcondition rfl with ⟨b, -, hb⟩ | hzero
    · exact ⟨b, hb⟩
    · exact absurd hzero hunmet
  · exact (hinteger rfl Int64.minValue).mpr (by decide +kernel)

end VisualNovel.Expression
