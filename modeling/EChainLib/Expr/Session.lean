import Mathlib
import EChainLib.Support.Run
import EChainLib.Expr.Acceptance

/-! Calls of `Parse` and `Evaluate` one after the other on one parser. -/

namespace EChainLib.Expr

open EChainLib.Effects (Change Within last within_bind within_get within_pure within_throw bind_of_ok
  bind_of_error)
open EChainLib.Run (Meets)

variable {F W : Type}

inductive Request where
  | evaluate
  | evaluateProgram (program : Text)
  | parse
  | parseProgram (program : Text)

section Requests

variable (m : Machine F W) (calls : Calls F W) (fuel : Nat)

/-- `Evaluate(program)`. -/
def evaluateProgram (program : Text) : Run F W (ExprValue F) := do
  modify fun p => { p with program }
  evaluate m calls fuel

/-- `Parse(program)`. -/
def parseProgram (program : Text) : Run F W (ExprValue F) := do
  modify fun p => { p with detect := true }
  let ret ← evaluateProgram m calls fuel program
  modify fun p => { p with detect := false }
  return ret

def serve : Request → Run F W (ExprValue F)
  | .evaluate => evaluate m calls fuel
  | .evaluateProgram program => evaluateProgram m calls fuel program
  | .parse => parse m calls fuel
  | .parseProgram program => parseProgram m calls fuel program

/-- The parser when the call has returned or thrown. -/
def served (p : ExprParser F W) (request : Request) : ExprParser F W :=
  last (serve m calls fuel request) p

/-- `Evaluate` gives what it gives on a fresh parser with the same symbols, and `Parse`
leaves `detect_` false. -/
def AsFresh (p : ExprParser F W) : Request → Prop
  | .evaluate => ending (evaluate m calls fuel p) =
      ending (evaluate m calls fuel (start m p.program p.symbols p.world))
  | .evaluateProgram program => ending (evaluateProgram m calls fuel program p) =
      ending (evaluate m calls fuel (start m program p.symbols p.world))
  | .parse => (served m calls fuel p .parse).detect = false
  | .parseProgram program => (served m calls fuel p (.parseProgram program)).detect = false

/-- The call, if it is one of `Parse`, returns. -/
def CheckReturns (p : ExprParser F W) : Request → Prop
  | .evaluate | .evaluateProgram _ => True
  | .parse => Accepts m calls fuel p
  | .parseProgram program => Accepts m calls fuel { p with program }

end Requests

/-! `Evaluate` does not touch `detect_`, however it ends. -/

def sameMode : Change (ExprParser F W) where
  rel p q := q.detect = p.detect
  refl _ := rfl
  trans _ _ _ first second := second.trans first

/-- The registered functions leave `detect_` as they find it. -/
structure CallsKeepMode (calls : Calls F W) : Prop where
  one : ∀ word v, Within sameMode (calls.one word v)
  two : ∀ word v1 v2, Within sameMode (calls.two word v1 v2)

section Mode

variable {m : Machine F W} {calls : Calls F W}

theorem mode_raise {Value : Type} (result : Except Text Value) :
    Within sameMode (raise result : Run F W Value) := by
  cases result with
  | ok value => exact within_pure value
  | error what => exact within_throw _

theorem mode_scanning (move : Scanner F → Except Fault (Scanner F)) :
    Within sameMode (scanning move : Run F W Unit) := by
  intro p
  unfold last
  cases moved : move p.scan with
  | ok scan => rw [scanning_ok move p scan moved]; rfl
  | error fault => rw [scanning_error move p fault moved]; rfl

theorem mode_lookUp (word : Text) : Within sameMode (lookUp m word : Run F W Unit) := by
  intro p
  unfold last
  cases found : p.symbols word with
  | some v => rw [lookUp_some m word p v found]; rfl
  | none => rw [lookUp_none m word p found]; rfl

theorem mode_entry (word : Text) : Within sameMode (entry word : Run F W (ExprValue F)) := by
  intro p
  unfold last
  cases found : p.symbols word with
  | some v => rw [entry_some word p v found]; rfl
  | none => rw [entry_none word p found]; rfl

theorem mode_store (op : TokenType) (word : Text) (d : ExprValue F) :
    Within sameMode (store m op word d : Run F W Unit) := by
  apply within_bind (mode_entry word)
  intro v
  apply within_bind (mode_raise _)
  intro w p
  rfl

theorem mode_callTwo (f : TwoArgFunction F W) (v1 v2 : ExprValue F) :
    Within sameMode (callTwo f v1 v2) := fun p =>
  mode_raise (f.apply v1 v2 p.world).1 { p with world := (f.apply v1 v2 p.world).2 }

theorem mode_common {run : Run F W (ExprValue F)} (keeps : Within sameMode run) :
    Within sameMode (do
      if (← get).detect then return .ofType m.toLibrary .unsure
      run) := by
  apply within_bind within_get
  intro p
  cases p.detect with
  | true => exact within_pure _
  | false => exact keeps

variable (keep : CallsKeepMode calls)

include keep

theorem mode_functionCall {expression : Run F W (ExprValue F)}
    (operand : Within sameMode expression) (word : Text) :
    Within sameMode (functionCall m calls expression word) := by
  have close : Within sameMode (closed m : Run F W Unit) := mode_scanning _
  have comma : Within sameMode (want .comma : Run F W Unit) := mode_scanning _
  unfold functionCall
  cases callee m word with
  | one f => exact within_bind operand fun v => within_bind close fun _ => fun p => rfl
  | oneCommon =>
      exact within_bind operand fun v => within_bind close fun _ => mode_common (keep.one word v)
  | two f =>
      exact within_bind operand fun v1 => within_bind comma fun _ =>
        within_bind operand fun v2 => within_bind close fun _ => mode_callTwo f v1 v2
  | twoCommon =>
      exact within_bind operand fun v1 => within_bind comma fun _ =>
        within_bind operand fun v2 => within_bind close fun _ => mode_common (keep.two word v1 v2)
  | three f =>
      exact within_bind operand fun v1 => within_bind comma fun _ =>
        within_bind operand fun v2 => within_bind comma fun _ =>
          within_bind operand fun v3 => within_bind close fun _ => mode_raise _
  | missing => exact within_throw _

omit keep

theorem mode_symbol {expression : Run F W (ExprValue F)} (operand : Within sameMode expression)
    (word : Text) : Within sameMode (symbol m expression word) := by
  apply within_bind (mode_lookUp word)
  intro _
  apply within_bind (fun p => rfl)
  intro scan
  by_cases assigns : scan.token.type ∈ assignments
  · simp only [assigns, if_true]
    exact within_bind operand fun d => within_bind (mode_store _ word d) fun _ => mode_entry word
  · simp only [assigns, if_false]
    exact mode_entry word

theorem mode_rounds {operand : Bool → Run F W (ExprValue F)}
    (keeps : ∀ getFirst, Within sameMode (operand getFirst)) (ops : List TokenType) (fuel : Nat)
    (left : ExprValue F) : Within sameMode (rounds m operand ops fuel left) := by
  induction fuel generalizing left with
  | zero => exact within_throw _
  | succ fuel ih =>
      apply within_bind (fun p => rfl)
      intro scan
      by_cases goesOn : scan.token.type ∈ ops
      · simp only [goesOn, if_true]
        exact within_bind (keeps true) fun d => within_bind (mode_raise _) fun left => ih left
      · simp only [goesOn, if_false]
        exact within_pure left

theorem mode_level {operand : Bool → Run F W (ExprValue F)}
    (keeps : ∀ getFirst, Within sameMode (operand getFirst)) (ops : List TokenType) (fuel : Nat)
    (getFirst : Bool) : Within sameMode (level m operand ops fuel getFirst) :=
  within_bind (keeps getFirst) fun left => mode_rounds keeps ops fuel left

theorem mode_expression {primary : Bool → Run F W (ExprValue F)}
    (keeps : ∀ getFirst, Within sameMode (primary getFirst)) (fuel : Nat) (getFirst : Bool) :
    Within sameMode (expression m primary fuel getFirst) :=
  mode_level (mode_level (mode_level (mode_level keeps _ _) _ _) _ _) _ _ getFirst

theorem mode_commaList {primary : Bool → Run F W (ExprValue F)}
    (keeps : ∀ getFirst, Within sameMode (primary getFirst)) (fuel : Nat) (getFirst : Bool) :
    Within sameMode (commaList m primary fuel getFirst) :=
  mode_level (mode_expression keeps fuel) _ _ getFirst

include keep

theorem mode_tokenCase {primary : Bool → Run F W (ExprValue F)}
    (keeps : ∀ getFirst, Within sameMode (primary getFirst)) (fuel : Nat) :
    Within sameMode (tokenCase m calls primary fuel) := by
  have literal : ∀ v, Within sameMode (literal m v : Run F W (ExprValue F)) := fun v =>
    within_bind (mode_scanning _) fun _ => within_pure v
  apply within_bind (fun p => rfl)
  intro scan
  cases scan.token.type with
  | number => exact literal _
  | integer64 => exact literal _
  | string => exact literal _
  | name =>
      apply within_bind (mode_scanning _)
      intro _
      apply within_bind (fun p => rfl)
      intro behind
      by_cases call : behind.token.type = .lhparen
      · simp only [call, if_true]
        exact mode_functionCall keep (mode_expression keeps fuel true) scan.token.word
      · simp only [call, if_false]
        exact mode_symbol (mode_expression keeps fuel true) scan.token.word
  | minus => exact within_bind (keeps true) fun v => mode_raise _
  | not => exact within_bind (keeps true) fun v => mode_raise _
  | lhparen =>
      exact within_bind (mode_commaList keeps fuel true) fun v =>
        within_bind (mode_scanning _) fun _ => within_pure v
  | _ => exact within_throw _

theorem mode_primary (fuel : Nat) (getFirst : Bool) :
    Within sameMode (primary m calls fuel getFirst) := by
  induction fuel generalizing getFirst with
  | zero => exact within_throw _
  | succ fuel ih =>
      cases getFirst with
      | false => exact mode_tokenCase keep ih fuel
      | true => exact within_bind (mode_scanning _) fun _ => mode_tokenCase keep ih fuel

theorem mode_evaluate (fuel : Nat) : Within sameMode (evaluate m calls fuel) := by
  apply within_bind (fun p => rfl)
  intro _
  apply within_bind (mode_commaList (mode_primary keep fuel) fuel true)
  intro v
  apply within_bind (fun p => rfl)
  intro scan
  by_cases ended : scan.token.type = .end_
  · simp only [ended, if_true]
    exact within_pure v
  · simp only [ended, if_false]
    exact within_throw _

end Mode

/-! The calls. -/

section Sessions

variable {m : Machine F W} {calls : Calls F W} {fuel : Nat}

theorem evaluate_fresh (p : ExprParser F W) (idle : p.detect = false) :
    evaluate m calls fuel p = evaluate m calls fuel (start m p.program p.symbols p.world) := by
  obtain ⟨program, scan, detect, symbols, world⟩ := p
  cases idle
  rfl

/-- `detect_` is false behind `Parse` exactly if it has returned. -/
theorem parse_mode (keep : CallsKeepMode calls) (p : ExprParser F W) :
    (last (parse m calls fuel) p).detect = false ↔ Accepts m calls fuel p := by
  cases outcome : evaluate m calls fuel (checking p) with
  | ok v q =>
      have returned : parse m calls fuel p = .ok v { q with detect := false } :=
        bind_of_ok outcome _
      apply iff_of_true
      · rw [last, returned]
      · exact ⟨v, _, returned⟩
  | error stop q =>
      have thrown : parse m calls fuel p = .error stop q := bind_of_error outcome _
      have mode := mode_evaluate (m := m) keep fuel (checking p)
      rw [last, outcome] at mode
      apply iff_of_false
      · rw [last, thrown]
        intro off
        rw [show q.detect = true from mode] at off
        cases off
      · rintro ⟨v, r, returned⟩
        rw [thrown] at returned
        cases returned

theorem served_idle (keep : CallsKeepMode calls) (p : ExprParser F W) (request : Request)
    (idle : p.detect = false) (returns : CheckReturns m calls fuel p request) :
    (served m calls fuel p request).detect = false := by
  cases request with
  | evaluate => exact (mode_evaluate keep fuel p).trans idle
  | evaluateProgram program => exact (mode_evaluate keep fuel { p with program }).trans idle
  | parse => exact (parse_mode keep p).mpr returns
  | parseProgram program => exact (parse_mode keep { p with program }).mpr returns

theorem asFresh_iff (keep : CallsKeepMode calls) (p : ExprParser F W) (request : Request)
    (idle : p.detect = false) :
    AsFresh m calls fuel p request ↔ CheckReturns m calls fuel p request := by
  cases request with
  | evaluate => exact iff_of_true (congrArg ending (evaluate_fresh p idle)) trivial
  | evaluateProgram program =>
      exact iff_of_true (congrArg ending (evaluate_fresh { p with program } idle)) trivial
  | parse => exact parse_mode keep p
  | parseProgram program => exact parse_mode keep { p with program }

/-- Along every sequence of calls: each gives what it gives on a fresh parser, as long as
no `Parse` has thrown, and no longer. -/
theorem session_as_fresh_iff (keep : CallsKeepMode calls) (program : Text)
    (symbols : SymbolTable F) (world : W) (requests : List Request) :
    Meets (served m calls fuel) (AsFresh m calls fuel) (start m program symbols world) requests ↔
      Meets (served m calls fuel) (CheckReturns m calls fuel) (start m program symbols world)
        requests := by
  have idle : ∀ p request, p.detect = false → CheckReturns m calls fuel p request →
      (served m calls fuel p request).detect = false := served_idle keep
  constructor
  · exact Run.meets_of_invariant _ (AsFresh m calls fuel) _ (fun p => p.detect = false)
      (fun p request off fresh => idle p request off ((asFresh_iff keep p request off).mp fresh))
      (fun p request off => (asFresh_iff keep p request off).mp) _ requests rfl
  · exact Run.meets_of_invariant _ (CheckReturns m calls fuel) _ (fun p => p.detect = false) idle
      (fun p request off => (asFresh_iff keep p request off).mpr) _ requests rfl

end Sessions

/-! Registered functions that return their argument. -/

theorem echoing_keep : CallsKeepMode (echoing : Calls F W) where
  one _ _ := fun _ => rfl
  two _ _ _ := fun _ => rfl

/-- `pi*2` is checked, then evaluated. -/
theorem session_as_fresh_iff_applies :
    Meets (served wholeMachine echoing 9) (AsFresh wholeMachine echoing 9)
        (start wholeMachine [] (ExprParser.create wholeMachine [] ()).symbols ())
        [.parseProgram "pi*2".toList, .evaluate] ↔
      Meets (served wholeMachine echoing 9) (CheckReturns wholeMachine echoing 9)
        (start wholeMachine [] (ExprParser.create wholeMachine [] ()).symbols ())
        [.parseProgram "pi*2".toList, .evaluate] :=
  session_as_fresh_iff echoing_keep _ _ _ _

/-- The state after `Parse(")")`, which throws. -/
def afterBadCheck : ExprParser Int Unit :=
  served wholeMachine echoing 9 (start wholeMachine [] (fun _ => none) ())
    (.parseProgram [')'])

/-- `f(1)` on it and on a fresh parser. -/
theorem bad_check_stays :
    afterBadCheck.detect = true ∧
      (ending (evaluateProgram wholeMachine echoing 9 "f(1)".toList afterBadCheck)).1 =
        .ok (.ofType wholeMachine.toLibrary .unsure) ∧
      (ending (evaluate wholeMachine echoing 9
        (start wholeMachine "f(1)".toList afterBadCheck.symbols ()))).1 =
          .ok (.ofInt wholeMachine.toLibrary 1) ∧
      ¬ Meets (served wholeMachine echoing 9) (AsFresh wholeMachine echoing 9)
        (start wholeMachine [] (fun _ => none) ())
        [.parseProgram [')'], .evaluateProgram "f(1)".toList] := by
  have detects : afterBadCheck.detect = true := by decide +kernel
  refine ⟨detects, by decide +kernel, by decide +kernel, ?_⟩
  intro meets
  have off : afterBadCheck.detect = false := meets.1
  rw [detects] at off
  cases off

end EChainLib.Expr
