import Mathlib
import EChainLib.Expr.Precedence

/-! Evaluating an expression over integers gives what it is worth, and leaves the names
as it leaves them. -/

namespace EChainLib.Expr

open EChainLib.Effects (bind_of_ok)

variable {F W : Type}

/-- The names that stand for an integer in a table. -/
def integers (symbols : SymbolTable F) : Integers := fun word =>
  (symbols word).bind fun v => if v.type = .integer64 then some v.iValue.toInt else none

/-- The names that an expression assigns to. -/
def Ast.targets : Ast → List Text
  | .number _ => []
  | .name _ => []
  | .negated operand => operand.targets
  | .binary _ left right => left.targets ++ right.targets
  | .comma left right => left.targets ++ right.targets
  | .assign word rhs => word :: rhs.targets

structure IsInteger (v : ExprValue F) (n : Int) : Prop where
  type : v.type = .integer64
  value : v.iValue.toInt = n

/-- The names stand in the table for the integers they stand for. -/
def Holds (names : Integers) (symbols : SymbolTable F) : Prop :=
  ∀ word n, names word = some n → ∃ v, symbols word = some v ∧ IsInteger v n

theorem holds_integers (symbols : SymbolTable F) : Holds (integers symbols) symbols := by
  intro word n named
  obtain ⟨v, found, value⟩ := Option.bind_eq_some_iff.mp named
  split at value
  · rename_i type
    cases value
    exact ⟨v, found, type, rfl⟩
  · cases value

theorem integers_of (symbols : SymbolTable F) (word : Text) (v : ExprValue F) (n : Int)
    (found : symbols word = some v) (integer : IsInteger v n) :
    integers symbols word = some n := by
  simp [integers, found, integer.type, integer.value]

/-! Operators. -/

theorem inRange_some (n value : Int) (ranged : inRange n = some value) :
    value = n ∧ -2 ^ 63 ≤ n ∧ n < 2 ^ 63 := by
  unfold inRange at ranged
  split at ranged
  · rename_i range
    cases ranged
    exact ⟨rfl, range⟩
  · cases ranged

theorem bmod_ranged (n value : Int) (ranged : inRange n = some value) : n.bmod (2 ^ 64) = value := by
  obtain ⟨rfl, low, high⟩ := inRange_some n value ranged
  exact Int.bmod_eq_of_le (by simpa using low) (by simpa using high)

section Operators

variable (lib : Library F)

theorem compound_integers (onDouble : F → F → F) (onInt : ExprValue F → Int64 → ExprValue F)
    (onString : Option (Text → Text → Text)) (left d : ExprValue F) (x y : Int)
    (isLeft : IsInteger left x) (isRight : IsInteger d y) :
    ExprValue.compound lib onDouble onInt onString left d =
      .ok (onInt left d.iValue, onInt left d.iValue) := by
  simp [ExprValue.compound, Unsure, ExprValue.compound.returned, isLeft.type, isRight.type]

theorem operate_integers (op : Operator) (left d : ExprValue F) (x y n : Int)
    (isLeft : IsInteger left x) (isRight : IsInteger d y)
    (ranged : inRange (op.apply x y) = some n) :
    ∃ v, operate lib op.token left d = .ok v ∧ IsInteger v n := by
  have wrapped := bmod_ranged _ n ranged
  have returns : ∀ onDouble onInt onString,
      (ExprValue.compound lib onDouble onInt onString left d >>= fun pair => pure pair.1) =
        .ok (onInt left d.iValue) := by
    intro onDouble onInt onString
    rw [compound_integers lib onDouble onInt onString left d x y isLeft isRight]
    rfl
  cases op with
  | plus =>
      refine ⟨{ left with iValue := left.iValue + d.iValue }, returns _ _ _, isLeft.type, ?_⟩
      show (left.iValue + d.iValue).toInt = n
      rw [Int64.toInt_add, isLeft.value, isRight.value]
      exact wrapped
  | minus =>
      refine ⟨{ left with iValue := left.iValue - d.iValue }, returns _ _ _, isLeft.type, ?_⟩
      show (left.iValue - d.iValue).toInt = n
      rw [Int64.toInt_sub, isLeft.value, isRight.value]
      exact wrapped
  | times =>
      refine ⟨{ left with iValue := left.iValue * d.iValue }, returns _ _ _, isLeft.type, ?_⟩
      show (left.iValue * d.iValue).toInt = n
      rw [Int64.toInt_mul, isLeft.value, isRight.value]
      exact wrapped

theorem negated_integer (v : ExprValue F) (x n : Int) (integer : IsInteger v x)
    (ranged : inRange (-x) = some n) : ∃ w, negated lib v = .ok w ∧ IsInteger w n := by
  refine ⟨{ ExprValue.empty lib with type := .integer64, iValue := 0 - v.iValue }, ?_, rfl, ?_⟩
  · simp [negated, ExprValue.sub, Unsure, ExprValue.ofInt, integer.type]
  · show (0 - v.iValue).toInt = n
    rw [Int64.toInt_sub, integer.value, Int64.toInt_zero, Int.zero_sub]
    exact bmod_ranged _ n ranged

end Operators

/-! Expressions. -/

/-- What evaluating does: the value, and the names it leaves. Other entries stay, and no
entry goes. -/
def Gives (run : Run F W (ExprValue F)) (p : ExprParser F W) (targets : List Text) (n : Int)
    (names : Integers) : Prop :=
  ∃ v q, run p = .ok v q ∧ IsInteger v n ∧ Holds names q.symbols ∧
    (∀ word, word ∉ targets → q.symbols word = p.symbols word) ∧
      ∀ word, (p.symbols word).isSome → (q.symbols word).isSome

section Evaluation

variable {m : Machine F W} {commons : Calls F W}

theorem gives_name (word : Text) (p : ExprParser F W) (names : Integers) (n : Int)
    (holds : Holds names p.symbols) (named : names word = some n) :
    Gives ((Tree.symbol word : Tree F W).eval (running m commons)) p [] n names := by
  obtain ⟨v, found, integer⟩ := holds word n named
  have evaluated : (Tree.symbol word).eval (running m commons) p = .ok v p := by
    show (lookUp m word >>= fun _ => entry word) p = _
    rw [bind_of_ok (lookUp_some m word p v found)]
    exact entry_some word p v found
  exact ⟨v, p, evaluated, integer, holds, fun _ _ => rfl, fun _ present => present⟩

/-- Both operands, from left to right. -/
theorem gives_both {s t : Run F W (ExprValue F)} {p : ExprParser F W}
    {first second : List Text} {x y n : Int} {middle names : Integers}
    (left : Gives s p first x middle)
    (right : ∀ q : ExprParser F W, Holds middle q.symbols → Gives t q second y names)
    (join : ExprValue F → ExprValue F → Except Text (ExprValue F))
    (joins : ∀ v d, IsInteger v x → IsInteger d y → ∃ w, join v d = .ok w ∧ IsInteger w n) :
    Gives (do
      let v ← s
      let d ← t
      raise (join v d)) p (first ++ second) n names := by
  obtain ⟨v, q, ran, isLeft, holds, kept, present⟩ := left
  obtain ⟨d, r, ran', isRight, holds', kept', present'⟩ := right q holds
  obtain ⟨w, joined, integer⟩ := joins v d isLeft isRight
  refine ⟨w, r, ?_, integer, holds', ?_, fun word here => present' word (present word here)⟩
  · rw [bind_of_ok ran, bind_of_ok ran', joined]
    rfl
  · intro word apart
    rw [List.mem_append, not_or] at apart
    rw [kept' word apart.2, kept word apart.1]

theorem gives_assign {t : Tree F W} (word : Text) (p : ExprParser F W) (targets : List Text)
    (names after : Integers) (n : Int) (holds : Holds names p.symbols)
    (rhs : ∀ q : ExprParser F W, Holds names q.symbols →
      Gives (t.eval (running m commons)) q targets n after) :
    Gives ((Tree.assign .assign word t).eval (running m commons)) p (word :: targets) n
      (Function.update after word (some n)) := by
  -- the entry is made before the right-hand side is evaluated
  obtain ⟨p', looked, holds', made, others, present⟩ : ∃ p' : ExprParser F W,
      lookUp m word p = .ok () p' ∧ Holds names p'.symbols ∧ (p'.symbols word).isSome ∧
        (∀ other, other ≠ word → p'.symbols other = p.symbols other) ∧
          ∀ other, (p.symbols other).isSome → (p'.symbols other).isSome := by
    cases found : p.symbols word with
    | some v =>
        exact ⟨p, lookUp_some m word p v found, holds, by rw [found]; rfl, fun _ _ => rfl,
          fun _ here => here⟩
    | none =>
        have other_entry : ∀ other, other ≠ word →
            p.symbols.set word (.empty m.toLibrary) other = p.symbols other :=
          fun other apart => if_neg apart
        refine ⟨_, lookUp_none m word p found, ?_, ?_, other_entry, ?_⟩
        · intro other x named
          obtain ⟨v, entered, integer⟩ := holds other x named
          have apart : other ≠ word := by
            rintro rfl
            rw [found] at entered
            cases entered
          exact ⟨v, (other_entry other apart).trans entered, integer⟩
        · show (p.symbols.set word (.empty m.toLibrary) word).isSome = true
          rw [SymbolTable.set, if_pos rfl]
          rfl
        · intro other here
          by_cases same : other = word
          · rw [same, found] at here
            cases here
          · show (p.symbols.set word (.empty m.toLibrary) other).isSome = true
            rwa [other_entry other same]
  obtain ⟨d, q, ran, integer, held, kept, stays⟩ := rhs p' holds'
  obtain ⟨old, entered⟩ := Option.isSome_iff_exists.mp (stays word made)
  have stored := store_ok m .assign word d old d q entered rfl
  have new_entry : (q.symbols.set word d) word = some d := if_pos rfl
  have other_entry : ∀ other, other ≠ word → (q.symbols.set word d) other = q.symbols other :=
    fun other apart => if_neg apart
  refine ⟨d, { q with symbols := q.symbols.set word d }, ?_, integer, ?_, ?_, ?_⟩
  · show (lookUp m word >>= fun _ => t.eval (running m commons) >>= fun d =>
      store m .assign word d >>= fun _ => entry word) p = _
    rw [bind_of_ok looked, bind_of_ok ran, bind_of_ok stored]
    exact entry_some word _ d new_entry
  · intro other x named
    by_cases same : other = word
    · subst same
      rw [Function.update_self] at named
      cases named
      exact ⟨d, new_entry, integer⟩
    · rw [Function.update_of_ne same] at named
      obtain ⟨v, found, value⟩ := held other x named
      exact ⟨v, (other_entry other same).trans found, value⟩
  · intro other apart
    rw [List.mem_cons, not_or] at apart
    exact (other_entry other apart.1).trans ((kept other apart.2).trans (others other apart.1))
  · intro other here
    show ((q.symbols.set word d) other).isSome = true
    by_cases same : other = word
    · rw [same, new_entry]
      rfl
    · rw [other_entry other same]
      exact stays other (present other here)

theorem eval_denotes {t : Tree F W} {e : Ast} (denotes : Denotes m.toLibrary t e)
    (p : ExprParser F W) (names after : Integers) (n : Int) (holds : Holds names p.symbols)
    (worth : e.value names = some (n, after)) :
    Gives (t.eval (running m commons)) p e.targets n after := by
  induction denotes generalizing p names after n with
  | number k small =>
      obtain ⟨value, ranged, same⟩ := Option.map_eq_some_iff.mp worth
      cases same
      obtain ⟨rfl, _⟩ := inRange_some _ _ ranged
      exact ⟨_, p, rfl, ⟨rfl, Int64.toInt_ofNat_of_lt small⟩, holds, fun _ _ => rfl, fun _ here => here⟩
  | signed k small =>
      simp only [Ast.value, Option.bind_eq_bind, Option.bind_eq_some_iff, Option.map_eq_some_iff,
        Option.pure_def, Option.some.injEq, Prod.mk.injEq, Prod.exists] at worth
      obtain ⟨x, _, ⟨value, ranged, rfl, rfl⟩, negative, ranged', rfl, rfl⟩ := worth
      obtain ⟨rfl, _⟩ := inRange_some _ _ ranged
      obtain ⟨rfl, _⟩ := inRange_some _ _ ranged'
      exact ⟨_, p, rfl, ⟨rfl, Int64.toInt_neg_ofNat_of_le (by omega)⟩, holds, fun _ _ => rfl,
        fun _ here => here⟩
  | name word =>
      obtain ⟨value, named, same⟩ := Option.map_eq_some_iff.mp worth
      cases same
      exact gives_name word p names n holds named
  | negated t operand _ ih =>
      simp only [Ast.value, Option.bind_eq_bind, Option.bind_eq_some_iff, Option.pure_def,
        Option.some.injEq, Prod.mk.injEq, Prod.exists] at worth
      obtain ⟨x, _, operand_worth, value, ranged, rfl, rfl⟩ := worth
      obtain ⟨v, q, ran, integer, held, kept, stays⟩ := ih p names _ x holds operand_worth
      obtain ⟨w, negative, result⟩ := negated_integer m.toLibrary v x _ integer ranged
      refine ⟨w, q, ?_, result, held, kept, stays⟩
      show (t.eval (running m commons) >>= fun v => raise (negated m.toLibrary v)) p = _
      rw [bind_of_ok ran, negative]
      rfl
  | binary op s t left right _ _ ihLeft ihRight =>
      simp only [Ast.value, Option.bind_eq_bind, Option.bind_eq_some_iff, Option.pure_def,
        Option.some.injEq, Prod.mk.injEq, Prod.exists] at worth
      obtain ⟨x, middle, left_worth, y, _, right_worth, value, ranged, rfl, rfl⟩ := worth
      exact gives_both (ihLeft p names middle x holds left_worth)
        (fun q held => ihRight q middle _ y held right_worth) (operate m.toLibrary op.token)
        fun v d isLeft isRight => operate_integers m.toLibrary op v d x y _ isLeft isRight ranged
  | comma s t left right _ _ ihLeft ihRight =>
      simp only [Ast.value, Option.bind_eq_bind, Option.bind_eq_some_iff, Prod.exists] at worth
      obtain ⟨x, middle, left_worth, right_worth⟩ := worth
      exact gives_both (ihLeft p names middle x holds left_worth)
        (fun q held => ihRight q middle after n held right_worth) (operate m.toLibrary .comma)
        fun v d _ isRight => ⟨d, rfl, isRight⟩
  | assign word t rhs _ ih =>
      simp only [Ast.value, Option.bind_eq_bind, Option.bind_eq_some_iff, Option.pure_def,
        Option.some.injEq, Prod.mk.injEq, Prod.exists] at worth
      obtain ⟨value, middle, rhs_worth, rfl, rfl⟩ := worth
      exact gives_assign word p rhs.targets names middle value holds
        fun q held => ih q names middle value held rhs_worth

end Evaluation

/-! Programs. -/

theorem value_names (e : Ast) (names after : Integers) (n : Int)
    (worth : e.value names = some (n, after)) :
    ∀ word, after word = none → names word = none ∧ word ∉ e.targets := by
  induction e generalizing names after n with
  | number k =>
      obtain ⟨_, _, same⟩ := Option.map_eq_some_iff.mp worth
      cases same
      exact fun word unnamed => ⟨unnamed, List.not_mem_nil⟩
  | name word =>
      obtain ⟨_, _, same⟩ := Option.map_eq_some_iff.mp worth
      cases same
      exact fun word unnamed => ⟨unnamed, List.not_mem_nil⟩
  | negated operand ih =>
      simp only [Ast.value, Option.bind_eq_bind, Option.bind_eq_some_iff, Option.pure_def,
        Option.some.injEq, Prod.mk.injEq, Prod.exists] at worth
      obtain ⟨x, _, operand_worth, _, _, _, rfl⟩ := worth
      exact ih names _ x operand_worth
  | binary op left right ihLeft ihRight =>
      simp only [Ast.value, Option.bind_eq_bind, Option.bind_eq_some_iff, Option.pure_def,
        Option.some.injEq, Prod.mk.injEq, Prod.exists] at worth
      obtain ⟨x, middle, left_worth, y, _, right_worth, _, _, _, rfl⟩ := worth
      intro word unnamed
      obtain ⟨between, apart_right⟩ := ihRight middle _ y right_worth word unnamed
      obtain ⟨before, apart_left⟩ := ihLeft names middle x left_worth word between
      exact ⟨before, List.not_mem_append apart_left apart_right⟩
  | comma left right ihLeft ihRight =>
      simp only [Ast.value, Option.bind_eq_bind, Option.bind_eq_some_iff, Prod.exists] at worth
      obtain ⟨x, middle, left_worth, right_worth⟩ := worth
      intro word unnamed
      obtain ⟨between, apart_right⟩ := ihRight middle _ n right_worth word unnamed
      obtain ⟨before, apart_left⟩ := ihLeft names middle x left_worth word between
      exact ⟨before, List.not_mem_append apart_left apart_right⟩
  | assign target rhs ih =>
      simp only [Ast.value, Option.bind_eq_bind, Option.bind_eq_some_iff, Option.pure_def,
        Option.some.injEq, Prod.mk.injEq, Prod.exists] at worth
      obtain ⟨value, middle, rhs_worth, rfl, rfl⟩ := worth
      intro word unnamed
      by_cases same : word = target
      · rw [same, Function.update_self] at unnamed
        cases unnamed
      · rw [Function.update_of_ne same] at unnamed
        obtain ⟨before, apart⟩ := ih names middle value rhs_worth word unnamed
        refine ⟨before, ?_⟩
        simp [Ast.targets, same, apart]

/-- Exactly the names afterwards stand for integers. -/
theorem integers_held (e : Ast) (symbols symbols' : SymbolTable F) (after : Integers) (n : Int)
    (worth : e.value (integers symbols) = some (n, after)) (held : Holds after symbols')
    (kept : ∀ word, word ∉ e.targets → symbols' word = symbols word) : integers symbols' = after := by
  funext word
  cases named : after word with
  | some x =>
      obtain ⟨v, found, integer⟩ := held word x named
      exact integers_of symbols' word v x found integer
  | none =>
      obtain ⟨before, apart⟩ := value_names e _ after n worth word named
      have same : integers symbols' word = integers symbols word := by
        simp only [integers, kept word apart]
      rw [same, before]

theorem serves_either (m : Machine F W) (calls : Calls F W) (detect : Bool) :
    ∃ commons, Serves m detect calls commons := by
  cases detect with
  | true => exact ⟨unsureCalls m, serves_check m calls⟩
  | false => exact ⟨stopping, serves_stopping m calls⟩

theorem evaluate_gives {m : Machine F W} {calls commons : Calls F W} {fuel : Nat}
    {p : ExprParser F W} {targets : List Text} {n : Int} {names : Integers}
    (serves : Serves m p.detect calls commons)
    (plan : Gives ((readProgram m fuel p.program).eval (running m commons)) p targets n names) :
    Gives (evaluate m calls fuel) p targets n names := by
  obtain ⟨v, q, planned, result⟩ := plan
  have follows := evaluate_follows serves fuel p rfl
  rw [planned] at follows
  obtain ⟨_, behind, ran⟩ := follows
  exact ⟨v, q.at behind, ran, result⟩

/-! A machine that reads signed decimals. -/

def scanDecimal (text : Text) : Int64 :=
  match text with
  | [] => 0
  | c :: digits =>
      if c = '-' then -Int64.ofNat (Nat.ofDigitChars 10 digits 0)
      else Int64.ofNat (Nat.ofDigitChars 10 text 0)

def decimalMachine : Machine Int Unit := { wholeMachine with scanLong := scanDecimal }

theorem scans_decimal : ScansDecimal decimalMachine.toLibrary where
  plain digits n numeral := by
    show scanDecimal digits = _
    cases digits with
    | nil => exact absurd rfl numeral.nonempty
    | cons c more =>
        have unsigned : c ≠ '-' := by
          rintro rfl
          exact absurd (numeral.digit '-' List.mem_cons_self) (by decide)
        rw [scanDecimal, if_neg unsigned, numeral.value]
  signed digits n numeral := by
    show scanDecimal ('-' :: digits) = _
    rw [scanDecimal, if_pos rfl, numeral.value]

/-- `2-3*-y-(x=4,x*x)`. -/
def sampleExpression : Ast :=
  .binary .minus (.binary .minus (.number 2) (.binary .times (.number 3) (.negated (.name ['y']))))
    (.comma (.assign ['x'] (.number 4)) (.binary .times (.name ['x']) (.name ['x'])))

def sampleTable : SymbolTable Int := fun word =>
  if word = ['y'] then some (.ofInt wholeLibrary 5) else none

/-- Evaluating a written expression from left to right, with `*` before `+` and `-`,
`-` in front of an operand before all of them, and the comma last. -/
theorem evaluate_written (m : Machine F W) (scans : ScansDecimal m.toLibrary) (calls : Calls F W)
    (e : Ast) (text tail : Text) (written : Written .list e text) (blank : Blank tail)
    (p : ExprParser F W) (program : p.program = text ++ tail) (n : Int) (names : Integers)
    (worth : e.value (integers p.symbols) = some (n, names)) (fuel : Nat)
    (room : text.length < fuel) :
    ∃ v q, evaluate m calls fuel p = .ok v q ∧ v.type = .integer64 ∧ v.iValue.toInt = n ∧
      integers q.symbols = names ∧ ∀ word, word ∉ e.targets → q.symbols word = p.symbols word := by
  obtain ⟨commons, serves⟩ := serves_either m calls p.detect
  have denotes : Denotes m.toLibrary (readProgram m fuel p.program) e := by
    rw [program]
    exact readProgram_written scans written blank fuel room
  obtain ⟨v, q, ran, integer, held, kept, _⟩ := evaluate_gives serves
    (eval_denotes denotes p _ names n (holds_integers p.symbols) worth)
  exact ⟨v, q, ran, integer.type, integer.value,
    integers_held e p.symbols q.symbols names n worth held kept, kept⟩

theorem evaluate_written_applies :
    ∃ v q, evaluate decimalMachine stopping 20
        (start decimalMachine (sampleExpression.minimal .list) sampleTable ()) = .ok v q ∧
      v.type = .integer64 ∧ v.iValue.toInt = 1 ∧
      integers q.symbols = Function.update (integers sampleTable) ['x'] (some 4) ∧
      ∀ word, word ∉ [['x']] → q.symbols word = sampleTable word := by
  have lawful : sampleExpression.Lawful := by decide +kernel
  exact evaluate_written decimalMachine scans_decimal stopping sampleExpression _ []
    (minimal_written sampleExpression lawful .list) no_blanks _ (List.append_nil _).symm 1 _ rfl 20
    (by decide +kernel)

end EChainLib.Expr
