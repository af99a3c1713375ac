import Mathlib
import EChainLib.Expr.Reading

/-! `Parse` by the tree of the program. -/

namespace EChainLib.Expr

open EChainLib.Effects (last bind_of_ok bind_of_error)
open EChainLib.Simulation

variable {F W : Type}

/-- What a call of `Evaluate` or `Parse` shows to its caller. -/
def ending (result : EStateM.Result Stop (ExprParser F W) (ExprValue F)) :
    Except Stop (ExprValue F) × SymbolTable F :=
  match result with
  | .ok v p => (.ok v, p.symbols)
  | .error stop p => (.error stop, p.symbols)

section Definitions

variable (m : Machine F W) (calls : Calls F W) (fuel : Nat) (p : ExprParser F W)

def unsureCalls : Calls F W where
  one _ _ := pure (.ofType m.toLibrary .unsure)
  two _ _ _ := pure (.ofType m.toLibrary .unsure)

/-- Registered functions that all end with `stop`. -/
def cutting (stop : Stop) : Calls F W where
  one _ _ := throw stop
  two _ _ _ := throw stop

/-- The registered functions of a run that is cut at the first of them. -/
def stopping : Calls F W := cutting .called

def Accepts : Prop := ∃ v q, parse m calls fuel p = .ok v q

def Evaluates : Prop := ∃ v q, evaluate m calls fuel p = .ok v q

end Definitions

def OneArgFunction.Plain (f : OneArgFunction F W) : Prop := ∃ g, f = .plain g

def TwoArgFunction.Plain (f : TwoArgFunction F W) : Prop := ∃ g, f = .plain g

/-- The program does without `rand`, `percent` and `roll`. -/
def PlainProgram (m : Machine F W) (fuel : Nat) (program : Text) : Prop :=
  (readProgram m fuel program).Applies OneArgFunction.Plain TwoArgFunction.Plain

/-- A parser for `program` with `symbols` for its table. -/
def start (m : Machine F W) (program : Text) (symbols : SymbolTable F) (world : W) :
    ExprParser F W := { ExprParser.create m program world with symbols }

/-! The check of a whole program. -/

section Program

variable {m : Machine F W} {calls : Calls F W} {fuel : Nat} {p : ExprParser F W}

def checking (p : ExprParser F W) : ExprParser F W := { p with detect := true }

theorem serves_check (m : Machine F W) (calls : Calls F W) : Serves m true calls (unsureCalls m) where
  one word v scan := by
    intro p mode
    refine ⟨kept_refl p, scan, rfl, ?_⟩
    show (if (p.at scan).detect then (pure (.ofType m.toLibrary .unsure) : Run F W (ExprValue F))
      else calls.one word v) (p.at scan) = _
    rw [show (p.at scan).detect = true from mode]
    rfl
  two word v1 v2 scan := by
    intro p mode
    refine ⟨kept_refl p, scan, rfl, ?_⟩
    show (if (p.at scan).detect then (pure (.ofType m.toLibrary .unsure) : Run F W (ExprValue F))
      else calls.two word v1 v2) (p.at scan) = _
    rw [show (p.at scan).detect = true from mode]
    rfl

theorem serves_stopping (m : Machine F W) (calls : Calls F W) : Serves m false calls stopping where
  one _ _ _ := fun _ _ => Or.inl rfl
  two _ _ _ _ := fun _ _ => Or.inl rfl

theorem serves_cutting (m : Machine F W) (stop : Stop) : Serves m false (cutting stop) (cutting stop) where
  one word v scan := by
    intro p mode
    refine Or.inr ⟨kept_refl p, scan, ?_⟩
    show (if (p.at scan).detect then (pure (.ofType m.toLibrary .unsure) : Run F W (ExprValue F))
      else throw stop) (p.at scan) = _
    rw [show (p.at scan).detect = false from mode]
    rfl
  two word v1 v2 scan := by
    intro p mode
    refine Or.inr ⟨kept_refl p, scan, ?_⟩
    show (if (p.at scan).detect then (pure (.ofType m.toLibrary .unsure) : Run F W (ExprValue F))
      else throw stop) (p.at scan) = _
    rw [show (p.at scan).detect = false from mode]
    rfl

/-- What the tree of the program does in a check. -/
def checked (m : Machine F W) (fuel : Nat) (p : ExprParser F W) :
    EStateM.Result Stop (ExprParser F W) (ExprValue F) :=
  (readProgram m fuel p.program).eval (running m (unsureCalls m)) (checking p)

/-- `p` with what a check has made of it. -/
def ExprParser.with (p q : ExprParser F W) (detect : Bool) (scan : Scanner F) : ExprParser F W :=
  { p with scan, detect, symbols := q.symbols, world := q.world }

theorem at_of_kept {q : ExprParser F W} (kept : Kept (checking p) q) (scan : Scanner F) :
    q.at scan = p.with q true scan := by
  unfold ExprParser.at ExprParser.with
  rw [show q.detect = true from kept.1, show q.program = p.program from kept.2]

theorem parse_ok (calls : Calls F W) {v : ExprValue F} {q : ExprParser F W}
    (outcome : checked m fuel p = .ok v q) :
    ∃ scan, parse m calls fuel p = .ok v (p.with q false scan) := by
  have here := evaluate_follows (serves_check m calls) fuel (checking p) rfl
  rw [show (readProgram m fuel (checking p).program).eval (running m (unsureCalls m))
    (checking p) = .ok v q from outcome] at here
  obtain ⟨kept, behind, ran⟩ := here
  rw [at_of_kept kept] at ran
  exact ⟨behind, bind_of_ok ran _⟩

theorem parse_error (calls : Calls F W) {stop : Stop} {q : ExprParser F W}
    (fault : stop ≠ .called) (outcome : checked m fuel p = .error stop q) :
    ∃ scan, parse m calls fuel p = .error stop (p.with q true scan) ∧
      evaluate m calls fuel (checking p) = .error stop (p.with q true scan) := by
  have here := evaluate_follows (serves_check m calls) fuel (checking p) rfl
  rw [show (readProgram m fuel (checking p).program).eval (running m (unsureCalls m))
    (checking p) = .error stop q from outcome] at here
  obtain called | ⟨kept, behind, ran⟩ := here
  · exact absurd called fault
  · rw [at_of_kept kept] at ran
    exact ⟨behind, bind_of_error ran _, ran⟩

end Program

/-! A machine whose numbers are whole, for runs on fixed programs. -/

def digitsValue (digits : Text) : Nat :=
  digits.foldl (fun n c => 10 * n + (c.toNat - 48)) 0

def wholeLibrary : Library Int where
  zero := 0
  one := 1
  pi := 3
  e := 2
  fromInt := Int64.toInt
  toInt := Int64.ofInt
  toInt64 := Int64.ofInt
  add := (· + ·)
  sub := (· - ·)
  mul := (· * ·)
  div := Int.tdiv
  eq a b := a = b
  lt a b := a < b
  le a b := a ≤ b
  fabs a := a.natAbs
  acos := id
  asin := id
  atan := id
  atanh := id
  ceil := id
  cos := id
  cosh := id
  exp := id
  floor := id
  log := id
  log10 := id
  sin := id
  sinh := id
  sqrt := id
  tan := id
  tanh := id
  fmod := Int.tmod
  pow a b := a ^ b.toNat
  scanLong text := Int64.ofNat (digitsValue text)
  readDouble text := (digitsValue (text.takeWhile Char.isDigit), false)
  unsetBool := false
  unsetDouble := 0
  unsetInt := 0

/-- One function of one argument is registered, under `f`. -/
def wholeMachine : Machine Int Unit where
  toLibrary := wholeLibrary
  randMax := 2147483647
  rand world := (0, world)
  oneCommon word := word = ['f']
  twoCommon _ := false

instance (f : OneArgFunction F W) : Decidable f.Plain :=
  match f with
  | .plain g => isTrue ⟨g, rfl⟩
  | .random _ => isFalse nofun

instance (f : TwoArgFunction F W) : Decidable f.Plain :=
  match f with
  | .plain g => isTrue ⟨g, rfl⟩
  | .random _ => isFalse nofun

def Tree.decideApplies (ones : OneArgFunction F W → Prop) (twos : TwoArgFunction F W → Prop)
    [DecidablePred ones] [DecidablePred twos] : ∀ t : Tree F W, Decidable (t.Applies ones twos)
  | .literal _ => isTrue trivial
  | .fail _ => isTrue trivial
  | .one f arg =>
      have := arg.decideApplies ones twos
      inferInstanceAs (Decidable (ones f ∧ arg.Applies ones twos))
  | .oneCommon _ arg => arg.decideApplies ones twos
  | .two f arg1 arg2 =>
      have := arg1.decideApplies ones twos
      have := arg2.decideApplies ones twos
      inferInstanceAs (Decidable (twos f ∧ arg1.Applies ones twos ∧ arg2.Applies ones twos))
  | .twoCommon _ arg1 arg2 =>
      have := arg1.decideApplies ones twos
      have := arg2.decideApplies ones twos
      inferInstanceAs (Decidable (arg1.Applies ones twos ∧ arg2.Applies ones twos))
  | .three _ arg1 arg2 arg3 =>
      have := arg1.decideApplies ones twos
      have := arg2.decideApplies ones twos
      have := arg3.decideApplies ones twos
      inferInstanceAs (Decidable
        (arg1.Applies ones twos ∧ arg2.Applies ones twos ∧ arg3.Applies ones twos))
  | .symbol _ => isTrue trivial
  | .assign _ _ rhs => rhs.decideApplies ones twos
  | .negated operand => operand.decideApplies ones twos
  | .inverted operand => operand.decideApplies ones twos
  | .binary _ left right =>
      have := left.decideApplies ones twos
      have := right.decideApplies ones twos
      inferInstanceAs (Decidable (left.Applies ones twos ∧ right.Applies ones twos))

instance (m : Machine F W) (fuel : Nat) (program : Text) : Decidable (PlainProgram m fuel program) :=
  Tree.decideApplies _ _ _

instance (m : Machine F W) (calls : Calls F W) (fuel : Nat) (p : ExprParser F W) :
    Decidable (Accepts m calls fuel p) :=
  match found : parse m calls fuel p with
  | .ok v q => isTrue ⟨v, q, found⟩
  | .error _ _ => isFalse fun ⟨_, _, returned⟩ => nomatch found.symm.trans returned

instance (m : Machine F W) (calls : Calls F W) (fuel : Nat) (p : ExprParser F W) :
    Decidable (Evaluates m calls fuel p) :=
  match found : evaluate m calls fuel p with
  | .ok v q => isTrue ⟨v, q, found⟩
  | .error _ _ => isFalse fun ⟨_, _, returned⟩ => nomatch found.symm.trans returned

end EChainLib.Expr
