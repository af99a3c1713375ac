import Mathlib
import EChainLib.Expr.Formula

/-! Evaluating conditions. What comes out of a comparison is a NUMBER, what comes out of `&&`
and `||` a BOOL, and a BOOL compares with nothing. -/

namespace EChainLib.Expr

open EChainLib.Effects (bind_of_ok bind_of_error)

variable {F W : Type}

def IsBit (i : Int64) : Prop := i = 0 ∨ i = 1

/-- `double`s compare as the integers they come from if one of these is 0 or 1. -/
structure BitsExact (lib : Library F) : Prop where
  zero : lib.zero = lib.fromInt 0
  one : lib.one = lib.fromInt 1
  eq : ∀ i j, IsBit i ∨ IsBit j → lib.eq (lib.fromInt i) (lib.fromInt j) = decide (i = j)
  lt : ∀ i j, IsBit i ∨ IsBit j → lib.lt (lib.fromInt i) (lib.fromInt j) = decide (i < j)
  le : ∀ i j, IsBit i ∨ IsBit j → lib.le (lib.fromInt i) (lib.fromInt j) = decide (i ≤ j)

/-- An integer, or a truth value that stands for one. -/
inductive Numeric (lib : Library F) (v : ExprValue F) (i : Int64) : Prop
  | integer : v.type = .integer64 → v.iValue = i → Numeric lib v i
  | double : v.type = .number → IsBit i → v.dValue = lib.fromInt i → Numeric lib v i

/-- The value of a condition, and whether it comes out of `&&` or `||`. -/
inductive Stands (lib : Library F) (v : ExprValue F) : Bool → Int → Prop
  | numeric (i : Int64) : Numeric lib v i → Stands lib v false i.toInt
  | bool : v.type = .bool → Stands lib v true (bit v.bValue)

/-! Comparisons. -/

def Relation.onDouble (lib : Library F) : Relation → F → F → Bool
  | .lt => lib.lt
  | .gt => fun a b => lib.lt b a
  | .le => lib.le
  | .ge => fun a b => lib.le b a
  | .eq => lib.eq
  | .ne => fun a b => !lib.eq a b

def Relation.onInt : Relation → Int64 → Int64 → Bool
  | .lt => fun a b => a < b
  | .gt => fun a b => b < a
  | .le => fun a b => a ≤ b
  | .ge => fun a b => b ≤ a
  | .eq => fun a b => a = b
  | .ne => fun a b => a ≠ b

def Relation.onString : Relation → Text → Text → Bool
  | .lt => fun a b => a < b
  | .gt => fun a b => b < a
  | .le => fun a b => ¬ b < a
  | .ge => fun a b => ¬ a < b
  | .eq => fun a b => a = b
  | .ne => fun a b => a ≠ b

def Relation.compare (lib : Library F) (op : Relation) :
    ExprValue F → ExprValue F → Except Text (ExprValue F) :=
  ExprValue.compare lib (op.onDouble lib) op.onInt op.onString

section Operators

variable {lib : Library F}

theorem onInt_holds (op : Relation) (i j : Int64) : op.onInt i j = op.holds i.toInt j.toInt := by
  cases op with
  | lt => exact decide_eq_decide.mpr Int64.lt_iff_toInt_lt
  | gt => exact decide_eq_decide.mpr Int64.lt_iff_toInt_lt
  | le => exact decide_eq_decide.mpr Int64.le_iff_toInt_le
  | ge => exact decide_eq_decide.mpr Int64.le_iff_toInt_le
  | eq => exact decide_eq_decide.mpr Int64.toInt_inj.symm
  | ne => exact decide_eq_decide.mpr (not_congr Int64.toInt_inj.symm)

theorem onDouble_holds (bits : BitsExact lib) (op : Relation) (i j : Int64)
    (one_bit : IsBit i ∨ IsBit j) :
    op.onDouble lib (lib.fromInt i) (lib.fromInt j) = op.holds i.toInt j.toInt := by
  cases op with
  | lt => exact (bits.lt i j one_bit).trans (decide_eq_decide.mpr Int64.lt_iff_toInt_lt)
  | gt => exact (bits.lt j i one_bit.symm).trans (decide_eq_decide.mpr Int64.lt_iff_toInt_lt)
  | le => exact (bits.le i j one_bit).trans (decide_eq_decide.mpr Int64.le_iff_toInt_le)
  | ge => exact (bits.le j i one_bit.symm).trans (decide_eq_decide.mpr Int64.le_iff_toInt_le)
  | eq => exact (bits.eq i j one_bit).trans (decide_eq_decide.mpr Int64.toInt_inj.symm)
  | ne =>
      show (!lib.eq (lib.fromInt i) (lib.fromInt j)) = _
      rw [bits.eq i j one_bit, ← decide_not]
      exact decide_eq_decide.mpr (not_congr Int64.toInt_inj.symm)

theorem compare_numeric (bits : BitsExact lib) (op : Relation) {left right : ExprValue F}
    {i j : Int64} (isLeft : Numeric lib left i) (isRight : Numeric lib right j) :
    op.compare lib left right = .ok (.ofBool lib (op.holds i.toInt j.toInt)) := by
  rcases isLeft with ⟨typeLeft, valueLeft⟩ | ⟨typeLeft, bitLeft, valueLeft⟩ <;>
    rcases isRight with ⟨typeRight, valueRight⟩ | ⟨typeRight, bitRight, valueRight⟩
  · simp [Relation.compare, ExprValue.compare, Unsure, typeLeft, typeRight, valueLeft, valueRight,
      onInt_holds]
  · simp [Relation.compare, ExprValue.compare, Unsure, typeLeft, typeRight, valueLeft, valueRight,
      onDouble_holds bits op i j (Or.inr bitRight)]
  · simp [Relation.compare, ExprValue.compare, Unsure, typeLeft, typeRight, valueLeft, valueRight,
      onDouble_holds bits op i j (Or.inl bitLeft)]
  · simp [Relation.compare, ExprValue.compare, Unsure, typeLeft, typeRight, valueLeft, valueRight,
      onDouble_holds bits op i j (Or.inl bitLeft)]

theorem numeric_type {v : ExprValue F} {i : Int64} (numeric : Numeric lib v i) :
    v.type = .integer64 ∨ v.type = .number := by
  cases numeric with
  | integer type _ => exact Or.inl type
  | double type _ _ => exact Or.inr type

theorem bool_of_joined {v : ExprValue F} {n : Int} (stands : Stands lib v true n) :
    v.type = .bool ∧ n = bit v.bValue := by
  cases stands with
  | bool type => exact ⟨type, rfl⟩

theorem numeric_of_plain {v : ExprValue F} {n : Int} (stands : Stands lib v false n) :
    ∃ i, Numeric lib v i ∧ i.toInt = n := by
  cases stands with
  | numeric i numeric => exact ⟨i, numeric, rfl⟩

theorem stands_type {v : ExprValue F} {joined : Bool} {n : Int} (stands : Stands lib v joined n) :
    v.type = .bool ∨ v.type = .integer64 ∨ v.type = .number := by
  cases stands with
  | numeric i numeric => exact Or.inr (numeric_type numeric)
  | bool type => exact Or.inl type

/-- No operator compares a BOOL. -/
theorem compare_bool (op : Relation) {left right : ExprValue F}
    (one_bool : left.type = .bool ∨ right.type = .bool)
    (types : right.type = .bool ∨ right.type = .integer64 ∨ right.type = .number)
    (types' : left.type = .bool ∨ left.type = .integer64 ∨ left.type = .number) :
    ∃ what, op.compare lib left right = .error what := by
  rcases one_bool with bool | bool
  · rcases types with type | type | type <;>
      simp [Relation.compare, ExprValue.compare, Unsure, bool, type]
  · rcases types' with type | type | type <;>
      simp [Relation.compare, ExprValue.compare, Unsure, bool, type]

/-- 1.0 and 0.0. -/
theorem stands_double (bits : BitsExact lib) (v : ExprValue F) (b : Bool) (type : v.type = .number)
    (value : v.dValue = if b then lib.one else lib.zero) : Stands lib v false (bit b) := by
  cases b with
  | true =>
      exact .numeric 1 (.double type (Or.inr rfl) (value.trans bits.one))
  | false =>
      exact .numeric 0 (.double type (Or.inl rfl) (value.trans bits.zero))

theorem numeric_zero (bits : BitsExact lib) : Numeric lib (.ofDouble lib.zero) 0 :=
  .double rfl (Or.inl rfl) bits.zero

theorem operate_relation (op : Relation) (left right : ExprValue F) :
    operate lib op.token left right = op.compare lib left right >>= compared lib := by
  cases op <;> rfl

/-- A comparison gives 1.0 or 0.0. -/
theorem relation_good (bits : BitsExact lib) (op : Relation) {left right : ExprValue F} {x y : Int}
    (isLeft : Stands lib left false x) (isRight : Stands lib right false y) :
    ∃ w, operate lib op.token left right = .ok w ∧ Stands lib w false (bit (op.holds x y)) := by
  obtain ⟨i, numericLeft, rfl⟩ := numeric_of_plain isLeft
  obtain ⟨j, numericRight, rfl⟩ := numeric_of_plain isRight
  refine ⟨(ExprValue.ofBool lib (op.holds i.toInt j.toInt)).setDouble
    (if op.holds i.toInt j.toInt then lib.one else lib.zero), ?_, ?_⟩
  · rw [operate_relation, compare_numeric bits op numericLeft numericRight]
    rfl
  · exact stands_double bits _ _ rfl rfl

theorem relation_bad (op : Relation) {left right : ExprValue F} {joinedLeft joinedRight : Bool}
    {x y : Int} (isLeft : Stands lib left joinedLeft x) (isRight : Stands lib right joinedRight y)
    (one_bool : ¬ (joinedLeft = false ∧ joinedRight = false)) :
    ∃ what, operate lib op.token left right = .error what := by
  have bool : left.type = .bool ∨ right.type = .bool := by
    cases joinedLeft with
    | true => exact Or.inl (bool_of_joined isLeft).1
    | false =>
        cases joinedRight with
        | true => exact Or.inr (bool_of_joined isRight).1
        | false => exact absurd ⟨rfl, rfl⟩ one_bool
  obtain ⟨what, refused⟩ := compare_bool op bool (stands_type isRight) (stands_type isLeft)
  exact ⟨what, by rw [operate_relation, refused]; rfl⟩

/-- The step to `bool`, which compares with 0.0. -/
theorem truth_good (bits : BitsExact lib) {v : ExprValue F} {n : Int} (stands : Stands lib v false n) :
    truth lib v = .ok (n ≠ 0) := by
  obtain ⟨i, numeric, rfl⟩ := numeric_of_plain stands
  have compared : v.ne lib (.ofDouble lib.zero) = .ok (.ofBool lib (Relation.ne.holds i.toInt 0)) :=
    compare_numeric bits .ne numeric (numeric_zero bits)
  rw [truth, compared]
  rfl

theorem truth_bad {v : ExprValue F} {n : Int} (stands : Stands lib v true n) :
    ∃ what, truth lib v = .error what := by
  obtain ⟨what, refused⟩ : ∃ what, v.ne lib (.ofDouble lib.zero) = .error what :=
    compare_bool .ne (Or.inl (bool_of_joined stands).1) (Or.inr (Or.inr rfl)) (stands_type stands)
  exact ⟨what, by rw [truth, refused]; rfl⟩

theorem stands_sure {v : ExprValue F} {joined : Bool} {n : Int} (stands : Stands lib v joined n) :
    v.type ≠ .unsure := by
  intro unsure
  rcases stands_type stands with type | type | type <;> rw [unsure] at type <;> cases type

/-- `&&` and `||`: the left operand decides, or the right one is looked at. -/
theorem operate_junction (op : Junction) {left : ExprValue F} (right : ExprValue F)
    (sure : left.type ≠ .unsure) :
    operate lib op.token left right = do
      let x ← truth lib left
      if op.Decided x then return left.setBool x
      return left.setBool (← truth lib right) := by
  cases op with
  | and =>
      show (if left.type ≠ .unsure then _ else _) = _
      rw [if_pos sure]
      cases truth lib left with
      | error what => rfl
      | ok x => cases x <;> rfl
  | or =>
      show (if left.type ≠ .unsure then _ else _) = _
      rw [if_pos sure]
      cases truth lib left with
      | error what => rfl
      | ok x => cases x <;> rfl

theorem decided_holds (op : Junction) (x y : Bool) (decided : op.Decided x) : op.holds x y = x := by
  cases op <;> cases decided <;> rfl

theorem open_holds (op : Junction) (x y : Bool) (undecided : ¬ op.Decided x) :
    op.holds x y = y := by
  cases op <;> cases x <;> simp_all [Junction.Decided, Junction.holds]

/-- The right operand is only looked at where the left one leaves it open. -/
theorem junction_good (bits : BitsExact lib) (op : Junction) {left right : ExprValue F}
    {joinedRight : Bool} {x y : Int} (isLeft : Stands lib left false x)
    (isRight : Stands lib right joinedRight y)
    (decides : joinedRight = true → op.Decided (x ≠ 0)) :
    ∃ w, operate lib op.token left right = .ok w ∧
      Stands lib w true (bit (op.holds (x ≠ 0) (y ≠ 0))) := by
  rw [operate_junction op right (stands_sure isLeft), truth_good bits isLeft]
  by_cases decided : op.Decided (x ≠ 0)
  · refine ⟨left.setBool (x ≠ 0), ?_, ?_⟩
    · show (if op.Decided (x ≠ 0) then _ else _) = _
      rw [if_pos decided]
      rfl
    · rw [decided_holds op _ _ decided]
      exact .bool rfl
  · obtain rfl : joinedRight = false := by
      rw [← Bool.not_eq_true]
      exact fun joined => decided (decides joined)
    refine ⟨left.setBool (y ≠ 0), ?_, ?_⟩
    · show (if op.Decided (x ≠ 0) then _ else _) = _
      rw [if_neg decided, truth_good bits isRight]
      rfl
    · rw [open_holds op _ _ decided]
      exact .bool rfl

theorem junction_bad (bits : BitsExact lib) (op : Junction) {left right : ExprValue F}
    {joinedLeft joinedRight : Bool} {x y : Int} (isLeft : Stands lib left joinedLeft x)
    (isRight : Stands lib right joinedRight y)
    (wrong : ¬ (joinedLeft = false ∧ (joinedRight = true → op.Decided (x ≠ 0)))) :
    ∃ what, operate lib op.token left right = .error what := by
  rw [operate_junction op right (stands_sure isLeft)]
  cases joinedLeft with
  | true =>
      obtain ⟨what, refused⟩ := truth_bad isLeft
      exact ⟨what, by rw [refused]; rfl⟩
  | false =>
      obtain ⟨joined, undecided⟩ : joinedRight = true ∧ ¬ op.Decided (x ≠ 0) := by
        simpa using wrong
      subst joined
      obtain ⟨what, refused⟩ := truth_bad isRight
      refine ⟨what, ?_⟩
      rw [truth_good bits isLeft]
      show (if op.Decided (x ≠ 0) then _ else _) = _
      rw [if_neg undecided, refused]
      rfl

theorem inverted_good (bits : BitsExact lib) {v : ExprValue F} {n : Int}
    (stands : Stands lib v false n) :
    ∃ w, inverted lib v = .ok w ∧ Stands lib w false (bit (n = 0)) := by
  obtain ⟨i, numeric, rfl⟩ := numeric_of_plain stands
  have compared : v.eq lib (.ofDouble lib.zero) = .ok (.ofBool lib (Relation.eq.holds i.toInt 0)) :=
    compare_numeric bits .eq numeric (numeric_zero bits)
  refine ⟨.ofDouble (if Relation.eq.holds i.toInt 0 then lib.one else lib.zero), ?_, ?_⟩
  · rw [inverted, compared]
    rfl
  · exact stands_double bits _ _ rfl rfl

theorem inverted_bad {v : ExprValue F} {n : Int} (stands : Stands lib v true n) :
    ∃ what, inverted lib v = .error what := by
  obtain ⟨what, refused⟩ : ∃ what, v.eq lib (.ofDouble lib.zero) = .error what :=
    compare_bool .eq (Or.inl (bool_of_joined stands).1) (Or.inr (Or.inr rfl)) (stands_type stands)
  exact ⟨what, by rw [inverted, refused]; rfl⟩

end Operators

/-! Runs. -/

/-- The run returns the value and leaves the symbols, or it throws because the condition is
not clean. -/
def Comes (lib : Library F) (clean : Prop) (joined : Bool) (n : Int)
    (run : Run F W (ExprValue F)) (p : ExprParser F W) : Prop :=
  (clean ∧ ∃ v q, run p = .ok v q ∧ Stands lib v joined n ∧ q.symbols = p.symbols) ∨
    (¬ clean ∧ ∃ what q, run p = .error (.fault (.thrown what)) q)

section Runs

variable {lib : Library F} {clean rest : Prop} {joined joined' : Bool} {n n' : Int}
  {run : Run F W (ExprValue F)} {p : ExprParser F W}

/-- An operand, and what is done with it. -/
theorem comes_bind {more : ExprValue F → Run F W (ExprValue F)}
    (first : Comes lib clean joined n run p)
    (further : ∀ v q, Stands lib v joined n → q.symbols = p.symbols →
      Comes lib rest joined' n' (more v) q) :
    Comes lib (clean ∧ rest) joined' n' (run >>= more) p := by
  rcases first with ⟨first_clean, v, q, ran, stands, same⟩ | ⟨unclean, what, q, ran⟩
  · rcases further v q stands same with
      ⟨rest_clean, w, r, ran', stands', same'⟩ | ⟨unclean, what, r, ran'⟩
    · exact Or.inl ⟨⟨first_clean, rest_clean⟩, w, r, (bind_of_ok ran more).trans ran', stands',
        same'.trans same⟩
    · exact Or.inr ⟨fun both => unclean both.2, what, r, (bind_of_ok ran more).trans ran'⟩
  · exact Or.inr ⟨fun both => unclean both.1, what, q, bind_of_error ran more⟩

theorem comes_raise {result : Except Text (ExprValue F)} [Decidable clean]
    (good : clean → ∃ w, result = .ok w ∧ Stands lib w joined n)
    (bad : ¬ clean → ∃ what, result = .error what) : Comes lib clean joined n (raise result) p := by
  by_cases fits : clean
  · obtain ⟨w, rfl, stands⟩ := good fits
    exact Or.inl ⟨fits, w, p, rfl, stands, rfl⟩
  · obtain ⟨what, rfl⟩ := bad fits
    exact Or.inr ⟨fits, what, p, rfl⟩

end Runs

section Evaluation

variable {m : Machine F W} {commons : Calls F W}

theorem truth_of_value {names : Integers} {f : Formula} {n : Int} (worth : f.value names = some n) :
    f.truth names = decide (n ≠ 0) := by
  rw [Formula.truth, worth]
  exact decide_eq_decide.mpr (not_congr (Option.some.injEq n 0 ▸ Iff.rfl))

/-- `if` looks at its condition as `&&` and `||` look at their operands. -/
theorem doIf_truth (c x y : ExprValue F) :
    doIf m c x y = (truth m.toLibrary c).map fun holds => if holds then x else y := by
  rw [doIf, truth]
  cases c.ne m.toLibrary (.ofDouble m.zero) with
  | error what => rfl
  | ok differs =>
      show (differs.toBool m.toLibrary >>= _) = (differs.toBool m.toLibrary).map _
      cases differs.toBool m.toLibrary <;> rfl

theorem if_good (bits : BitsExact m.toLibrary) {c : ExprValue F} {n : Int}
    (stands : Stands m.toLibrary c false n) (x y : ExprValue F) :
    doIf m c x y = .ok (if n ≠ 0 then x else y) := by
  rw [doIf_truth, truth_good bits stands]
  by_cases holds : n ≠ 0 <;> simp [Except.map, holds]

theorem if_bad {c : ExprValue F} {n : Int} (stands : Stands m.toLibrary c true n)
    (x y : ExprValue F) : ∃ what, doIf m c x y = .error what := by
  obtain ⟨what, refused⟩ := truth_bad stands
  exact ⟨what, by rw [doIf_truth, refused]; rfl⟩

/-- Evaluating the integers of a condition changes nothing. -/
theorem comes_integer {t : Tree F W} {e : Ast} (denotes : Denotes m.toLibrary t e)
    (p : ExprParser F W) (n : Int)
    (worth : (Formula.integer e).value (integers p.symbols) = some n) :
    Comes m.toLibrary True false n (t.eval (running m commons)) p := by
  rw [Formula.value] at worth
  split at worth
  · rename_i pure_operand
    obtain ⟨⟨x, after⟩, value, rfl⟩ := Option.map_eq_some_iff.mp worth
    have gives : Gives (t.eval (running m commons)) p e.targets x after :=
      eval_denotes denotes p _ after x (holds_integers p.symbols) value
    obtain ⟨v, q, ran, integer, _, kept, _⟩ := gives
    refine Or.inl ⟨trivial, v, q, ran, ?_, ?_⟩
    · rw [← integer.value]
      exact .numeric v.iValue (.integer integer.type rfl)
    · funext word
      exact kept word (by rw [pure_operand]; exact List.not_mem_nil)
  · cases worth

/-- Evaluating a condition gives what it is worth where it is clean, and throws elsewhere. -/
theorem eval_means (bits : BitsExact m.toLibrary) {t : Tree F W} {f : Formula} (means : Means m t f)
    (p : ExprParser F W) (names : Integers) (held : integers p.symbols = names) (n : Int)
    (worth : f.value names = some n) :
    Comes m.toLibrary (f.Clean names) (f.joined names) n (t.eval (running m commons)) p := by
  induction means generalizing p n with
  | integer t e denotes =>
      subst held
      exact comes_integer denotes p n worth
  | compare op s t left right _ _ ihLeft ihRight =>
      simp only [Formula.value, Option.bind_eq_bind, Option.bind_eq_some_iff, Option.pure_def,
        Option.some.injEq] at worth
      obtain ⟨x, left_worth, y, right_worth, rfl⟩ := worth
      refine comes_bind (ihLeft p held x left_worth) fun v q isLeft same => ?_
      refine comes_bind (ihRight q (by rw [same, held]) y right_worth) fun d r isRight _ => ?_
      refine comes_raise ?_ (relation_bad op isLeft isRight)
      rintro ⟨plainLeft, plainRight⟩
      rw [plainLeft] at isLeft
      rw [plainRight] at isRight
      exact relation_good bits op isLeft isRight
  | join op s t left right _ _ ihLeft ihRight =>
      simp only [Formula.value, Option.bind_eq_bind, Option.bind_eq_some_iff, Option.pure_def,
        Option.some.injEq] at worth
      obtain ⟨x, left_worth, y, right_worth, rfl⟩ := worth
      -- the right operand is evaluated even where the left one decides
      refine comes_bind (ihLeft p held x left_worth) fun v q isLeft same => ?_
      refine comes_bind (ihRight q (by rw [same, held]) y right_worth) fun d r isRight _ => ?_
      rw [truth_of_value left_worth]
      refine comes_raise ?_ (junction_bad bits op isLeft isRight)
      rintro ⟨plain, decides⟩
      rw [plain] at isLeft
      exact junction_good bits op isLeft isRight decides
  | inverted t operand _ ih =>
      simp only [Formula.value, Option.bind_eq_bind, Option.bind_eq_some_iff, Option.pure_def,
        Option.some.injEq] at worth
      obtain ⟨x, operand_worth, rfl⟩ := worth
      refine comes_bind (ih p held x operand_worth) fun v q stands _ => ?_
      refine comes_raise ?_ ?_
      · intro plain
        rw [plain] at stands
        exact inverted_good bits stands
      · intro joined
        rw [Bool.not_eq_false] at joined
        rw [joined] at stands
        exact inverted_bad stands
  | ifThen s t u condition yes no _ _ _ ihCondition ihYes ihNo =>
      simp only [Formula.value, Option.bind_eq_bind, Option.bind_eq_some_iff, Option.pure_def,
        Option.some.injEq] at worth
      obtain ⟨c, condition_worth, x, yes_worth, y, no_worth, rfl⟩ := worth
      refine comes_bind (ihCondition p held c condition_worth) fun v q stands same => ?_
      refine comes_bind (ihYes q (by rw [same, held]) x yes_worth) fun d r isYes same' => ?_
      refine comes_bind (ihNo r (by rw [same', same, held]) y no_worth) fun e l isNo _ => ?_
      -- only the condition is looked at; the branch taken keeps its type
      refine comes_raise ?_ ?_
      · intro plain
        rw [plain] at stands
        refine ⟨_, if_good bits stands d e, ?_⟩
        rw [Formula.joined, truth_of_value condition_worth]
        by_cases holds : c ≠ 0
        · simpa [holds] using isYes
        · simpa [holds] using isNo
      · intro joined
        rw [Bool.not_eq_false] at joined
        rw [joined] at stands
        exact if_bad stands d e

end Evaluation

/-! Programs. -/

theorem stands_toBool {lib : Library F} (bits : BitsExact lib) {v : ExprValue F} {joined : Bool}
    {n : Int} (stands : Stands lib v joined n) : v.toBool lib = .ok (n ≠ 0) := by
  cases stands with
  | bool type =>
      rw [ExprValue.toBool, if_pos type]
      cases v.bValue <;> rfl
  | numeric i numeric =>
      have zero_iff : i = 0 ↔ i.toInt = 0 := by rw [← Int64.toInt_inj, Int64.toInt_zero]
      cases numeric with
      | integer type value => simp [ExprValue.toBool, type, value, zero_iff]
      | double type isBit value =>
          have same := bits.eq i 0 (Or.inl isBit)
          simp [ExprValue.toBool, type, value, bits.zero, same, zero_iff]

/-- `Evaluate` gives a written condition its truth, by folding `&&` and `||` from left to
right, exactly where the condition is clean. -/
theorem conditions_evaluate_iff (m : Machine F W) (bits : BitsExact m.toLibrary)
    (scans : ScansDecimal m.toLibrary) (visible : IfVisible m) (calls : Calls F W) (f : Formula)
    (text tail : Text) (worded : Worded .junction f text) (blank : Blank tail) (p : ExprParser F W)
    (program : p.program = text ++ tail) (n : Int) (worth : f.value (integers p.symbols) = some n)
    (fuel : Nat) (room : text.length < fuel) :
    (∃ v q, evaluate m calls fuel p = .ok v q ∧ v.toBool m.toLibrary = .ok (n ≠ 0)) ↔
      f.Clean (integers p.symbols) := by
  obtain ⟨commons, serves⟩ := serves_either m calls p.detect
  have means : Means m (readProgram m fuel p.program) f := by
    rw [program]
    exact readProgram_worded scans visible worded blank fuel room
  have comes : Comes m.toLibrary (f.Clean (integers p.symbols)) (f.joined (integers p.symbols)) n
      ((readProgram m fuel p.program).eval (running m commons)) p :=
    eval_means bits means p _ rfl n worth
  have follows := evaluate_follows serves fuel p rfl
  rcases comes with ⟨clean, v, q, planned, stands, _⟩ | ⟨unclean, what, q, planned⟩
  · rw [planned] at follows
    obtain ⟨_, behind, ran⟩ := follows
    exact iff_of_true ⟨v, q.at behind, ran, stands_toBool bits stands⟩ clean
  · rw [planned] at follows
    obtain ⟨_, behind, ran⟩ := follows.resolve_left Stop.noConfusion
    refine iff_of_false ?_ unclean
    rintro ⟨v, r, returned, _⟩
    rw [ran] at returned
    cases returned

theorem whole_bits : BitsExact decimalMachine.toLibrary where
  zero := rfl
  one := rfl
  eq _ _ _ := decide_eq_decide.mpr Int64.toInt_inj
  lt _ _ _ := decide_eq_decide.mpr Int64.lt_iff_toInt_lt.symm
  le _ _ _ := decide_eq_decide.mpr Int64.le_iff_toInt_le.symm

theorem worded_number (n : Nat) (small : n < 2 ^ 63) :
    Worded .operand (.integer (.number n)) (Nat.toDigits 10 n) :=
  .sum _ _ (minimal_written (.number n) small .sum)

/-- A comparison of two literals. -/
def literals (op : Relation) (x y : Nat) : Formula :=
  .compare op (.integer (.number x)) (.integer (.number y))

theorem worded_literals (op : Relation) (x y : Nat) (smallLeft : x < 2 ^ 63)
    (smallRight : y < 2 ^ 63) :
    Worded .relation (literals op x y) (Nat.toDigits 10 x ++ (op.mark ++ Nat.toDigits 10 y)) :=
  .compare op _ _ _ [] _ (.operand _ _ (worded_number x smallLeft)) no_blanks
    (worded_number y smallRight)

/-- `!(1<2)||5<=7`. -/
theorem conditions_evaluate_iff_applies :
    (∃ v q, evaluate decimalMachine stopping 20
        (start decimalMachine "!(1<2)||5<=7".toList sampleTable ()) = .ok v q ∧
      v.toBool decimalMachine.toLibrary = .ok true) ∧
    (Formula.join .or (.inverted (literals .lt 1 2)) (literals .le 5 7)).Clean
      (integers sampleTable) := by
  have clean : (Formula.join .or (.inverted (literals .lt 1 2)) (literals .le 5 7)).Clean
      (integers sampleTable) := by
    simp [Formula.Clean, Formula.joined, literals]
  have parens : Worded .unary (literals .lt 1 2) "(1<2)".toList :=
    .parens [] _ [] _ no_blanks (.relation _ _ (worded_literals .lt 1 2 (by decide) (by decide)))
      no_blanks
  have left : Worded .junction (.inverted (literals .lt 1 2)) "!(1<2)".toList :=
    .relation _ _ (.operand _ _ (.unary _ _ (.inverted [] _ _ no_blanks parens)))
  have worded : Worded .junction (.join .or (.inverted (literals .lt 1 2)) (literals .le 5 7))
      "!(1<2)||5<=7".toList :=
    .join .or _ _ _ [] _ left no_blanks (worded_literals .le 5 7 (by decide) (by decide))
  refine ⟨?_, clean⟩
  exact (conditions_evaluate_iff decimalMachine whole_bits scans_decimal ⟨rfl, rfl⟩ stopping _ _ []
    worded no_blanks (start decimalMachine "!(1<2)||5<=7".toList sampleTable ())
    (List.append_nil _).symm 1 rfl 20 (by decide)).mpr clean

def threeComparisons : Formula :=
  .join .and (.join .and (literals .lt 1 2) (literals .lt 2 3)) (literals .lt 3 4)

/-- `1<2&&2<3&&3<4` throws. -/
theorem three_comparisons_throw :
    Worded .junction threeComparisons "1<2&&2<3&&3<4".toList ∧
      threeComparisons.value (integers sampleTable) = some 1 ∧
      (ending (evaluate decimalMachine stopping 20
        (start decimalMachine "1<2&&2<3&&3<4".toList sampleTable ()))).1 =
          .error (.fault (.thrown "type not compatible".toList)) := by
  refine ⟨?_, rfl, by decide +kernel⟩
  have first : Worded .junction (literals .lt 1 2) "1<2".toList :=
    .relation _ _ (worded_literals .lt 1 2 (by decide) (by decide))
  have second : Worded .junction (.join .and (literals .lt 1 2) (literals .lt 2 3))
      "1<2&&2<3".toList :=
    .join .and _ _ _ [] _ first no_blanks (worded_literals .lt 2 3 (by decide) (by decide))
  exact .join .and _ _ _ [] _ second no_blanks (worded_literals .lt 3 4 (by decide) (by decide))

end EChainLib.Expr
