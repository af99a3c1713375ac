import Mathlib
import EChainLib.Expr.Knowledge

/-! Which programs that can be evaluated pass the check. -/

namespace EChainLib.Expr

open EChainLib.Dependence
open EChainLib.Effects (bind_of_ok)
open EChainLib.Simulation

variable {F W : Type}

/-- The program comes to an operation that refuses its operands, by their types or for a
divisor 0, and one of these depends on a registered function or on a random number. -/
def Trips (m : Machine F W) (fuel : Nat) (program : Text) (symbols : SymbolTable F) (world : W) :
    Prop :=
  ∃ k, (readProgram m fuel program).Stops m symbols (.none world) true k

/-! An evaluation can differ from the check only where a mark is. -/

section Agreement

variable {m : Machine F W} {symbols : SymbolTable F}

def AgreesOn : Option (Marked (ExprValue F)) → Option (ExprValue F) → Prop
  | none, none => True
  | some v, some w => v.Agrees w
  | _, _ => False

def Following (symbols : SymbolTable F) (k : Known F W) (q : ExprParser F W) : Prop :=
  k.called = true ∨ ∀ word, AgreesOn (k.symbol symbols word) (q.symbols word)

/-- The evaluation may throw anywhere, the check only on a mark. -/
def followingStops : Stops (Fault × Bool) (Known F W) Stop (ExprParser F W) where
  left stop := stop.2 = true
  right _ := True
  both _ _ _ _ := False

theorem raise_following {Value : Type} {known : Marked Value} {value : Value}
    (f : Value → Except Text (ExprValue F)) (agrees : known.Agrees value) :
    Simulates followingStops (Following symbols) Marked.Agrees
      (raiseMarked (known.lift f) : MarkedRun F W (Marked (ExprValue F)))
      (raise (f value)) := by
  intro k q agree
  cases outcome : f value with
  | error what =>
      cases raiseMarked (known.lift f) k with
      | ok v t => trivial
      | error stop t => exact Or.inr (Or.inl trivial)
  | ok v =>
      rcases Marked.lift_agrees agrees outcome with ⟨found, lifted, agreesFound⟩ | ⟨error, lifted⟩
      · rw [lifted]
        exact ⟨agreesFound, agree⟩
      · rw [lifted]
        exact (rfl : true = true)

theorem raise_drawn (f : Unit → Except Text (ExprValue F)) (result : Except Text (ExprValue F)) :
    Simulates followingStops (Following symbols) Marked.Agrees
      (raiseMarked ((Marked.mk () true).lift f) : MarkedRun F W (Marked (ExprValue F)))
      (raise result) := by
  intro k q agree
  unfold Marked.lift
  cases f (Marked.mk () true).value with
  | ok v =>
      cases result with
      | ok w => exact And.intro nofun agree
      | error what => exact trivial
  | error what =>
      cases result with
      | ok w => exact (rfl : true = true)
      | error what' => exact Or.inl rfl

theorem one_following (f : OneArgFunction F W) {v : Marked (ExprValue F)} {w : ExprValue F}
    (agrees : v.Agrees w) :
    Simulates followingStops (Following symbols) Marked.Agrees (markedOne f v) (callOne f w) := by
  intro k q agree
  cases f with
  | plain g =>
      refine And.intro (fun unmarked => ?_) agree
      rw [show w = v.value from (agrees ((Bool.or_eq_false_iff.mp unmarked).1)).symm]
      rfl
  | random g =>
      refine And.intro (fun unmarked => ?_) agree
      cases (Bool.or_eq_false_iff.mp unmarked).2

theorem two_following (f : TwoArgFunction F W) {v1 v2 : Marked (ExprValue F)}
    {w1 w2 : ExprValue F} (agrees1 : v1.Agrees w1) (agrees2 : v2.Agrees w2) :
    Simulates followingStops (Following symbols) Marked.Agrees (markedTwo f v1 v2)
      (callTwo f w1 w2) := by
  intro k q agree
  cases f with
  | plain g =>
      have agrees : (Marked.pair v1 v2).Agrees (w1, w2) := Marked.pair_agrees agrees1 agrees2
      have same : markedTwo (.plain g) v1 v2 k =
          raiseMarked ((v1.pair v2).lift fun args => g args.1 args.2) k := by
        unfold markedTwo Marked.lift Marked.pair TwoArgFunction.draws TwoArgFunction.apply
        rw [Bool.or_false]
      rw [same]
      exact raise_following (fun args : ExprValue F × ExprValue F => g args.1 args.2) agrees k q agree
  | random g =>
      have drawn : (v1.marked || v2.marked || TwoArgFunction.draws (.random g)) = true :=
        Bool.or_true _
      unfold markedTwo
      rw [drawn]
      exact raise_drawn (fun _ => (g v1.value v2.value k.world).1) (g w1 w2 q.world).1
        { k with world := (g v1.value v2.value k.world).2 }
        { q with world := (g w1 w2 q.world).2 } agree

theorem following_write {k : Known F W} {q : ExprParser F W} (agree : Following symbols k q)
    (word : Text) {v : Marked (ExprValue F)} {w : ExprValue F} (agrees : v.Agrees w) :
    Following symbols (k.write word v) { q with symbols := q.symbols.set word w } := by
  refine agree.imp_right fun entries name => ?_
  rw [symbol_write]
  show AgreesOn _ (if name = word then some w else q.symbols name)
  by_cases same : name = word
  · simp only [same, if_true]
    exact agrees
  · simpa [same] using entries name

theorem lookUp_following (word : Text) :
    Simulates followingStops (Following symbols) (fun _ _ => True) (markedLookUp m symbols word)
      (lookUp m word : Run F W Unit) := by
  intro k q agree
  unfold markedLookUp Known.name
  cases found : k.symbol symbols word with
  | some v =>
      cases found' : q.symbols word with
      | some w =>
          rw [lookUp_some m word q w found']
          exact And.intro trivial agree
      | none =>
          rw [lookUp_none m word q found']
          refine And.intro trivial (agree.imp_right fun entries => ?_)
          have absurd := entries word
          rw [found, found'] at absurd
          exact absurd.elim
  | none =>
      cases found' : q.symbols word with
      | some w =>
          rw [lookUp_some m word q w found']
          refine And.intro trivial (agree.imp_right fun entries => ?_)
          have absurd := entries word
          rw [found, found'] at absurd
          exact absurd.elim
      | none =>
          rw [lookUp_none m word q found']
          exact And.intro trivial (following_write agree word (Marked.clear_agrees _))

theorem entry_following (word : Text) :
    Simulates followingStops (Following symbols) Marked.Agrees (markedEntry symbols word)
      (entry word : Run F W (ExprValue F)) := by
  intro k q agree
  unfold markedEntry Known.entry
  cases found' : q.symbols word with
  | none =>
      rw [entry_none word q found']
      cases k.symbol symbols word with
      | some v => exact trivial
      | none => exact Or.inr (Or.inl trivial)
  | some w =>
      rw [entry_some word q w found']
      rcases agree with called | entries
      · cases k.symbol symbols word with
        | some v => exact And.intro (by simp [Marked.Agrees, called]) (Or.inl called)
        | none => exact called
      · have here := entries word
        rw [found'] at here
        cases found : k.symbol symbols word with
        | none =>
            rw [found] at here
            exact here.elim
        | some v =>
            rw [found] at here
            refine And.intro (fun unmarked => here ?_) (Or.inr entries)
            exact (Bool.or_eq_false_iff.mp unmarked).1

theorem store_following (op : TokenType) (word : Text) {d : Marked (ExprValue F)}
    {d' : ExprValue F} (agrees : d.Agrees d') :
    Simulates followingStops (Following symbols) (fun _ _ => True) (markedStore m symbols op word d)
      (store m op word d' : Run F W Unit) := by
  apply simulates_bind (entry_following word)
  intro v v' agreesEntry
  apply simulates_bind (raise_following (fun operands : ExprValue F × ExprValue F =>
    assigned m.toLibrary op operands.1 operands.2) (Marked.pair_agrees agreesEntry agrees))
  intro w w' agreesResult k q agree
  exact And.intro trivial (following_write agree word agreesResult)

theorem common_following (m : Machine F W) (run : Run F W (ExprValue F)) :
    Simulates followingStops (Following symbols) Marked.Agrees (markedCommon m) run := by
  intro k q _
  unfold markedCommon
  cases run q with
  | ok w r => exact And.intro nofun (Or.inl rfl)
  | error stop r => exact trivial

theorem following_related (m : Machine F W) (symbols : SymbolTable F) (calls : Calls F W) :
    Related followingStops (Following symbols) Marked.Agrees (fun _ => True) (fun _ => True)
      (tracing m symbols) (running m calls) where
  literal _ := Marked.clear_agrees _
  fail _ _ _ _ := Or.inr (Or.inl trivial)
  one f _ _ _ agrees := one_following f agrees
  oneCommon _ _ _ _ := common_following m _
  two f _ _ _ _ _ agrees agreesW := two_following f agrees agreesW
  twoCommon _ _ _ _ _ _ _ := common_following m _
  three f _ _ _ _ _ _ agrees agreesW agreesX :=
    raise_following (fun args : (ExprValue F × ExprValue F) × ExprValue F =>
      f args.1.1 args.1.2 args.2) (Marked.pair_agrees (Marked.pair_agrees agrees agreesW) agreesX)
  lookUp := lookUp_following
  entry := entry_following
  store op word _ _ agrees := store_following op word agrees
  negated _ _ agrees := raise_following (negated m.toLibrary) agrees
  inverted _ _ agrees := raise_following (inverted m.toLibrary) agrees
  binary op _ _ _ _ agrees agreesD :=
    raise_following (fun operands : ExprValue F × ExprValue F =>
      operate m.toLibrary op operands.1 operands.2) (Marked.pair_agrees agrees agreesD)

end Agreement

/-! The exact condition. -/

/-- A registered function that may use the symbols, but does not evaluate or parse on the
parser that it is given. -/
def Stays (run : Run F W (ExprValue F)) : Prop :=
  ∀ p scan, match run p with
    | .ok v q => Kept p q ∧ run (p.at scan) = .ok v (q.at scan)
    | .error stop q => stop ≠ .called ∧ Kept p q ∧ run (p.at scan) = .error stop (q.at scan)

structure CallsStay (calls : Calls F W) : Prop where
  one : ∀ word v, Stays (calls.one word v)
  two : ∀ word v1 v2, Stays (calls.two word v1 v2)

section Program

variable {m : Machine F W} {calls : Calls F W}

theorem stays_follows {run : Run F W (ExprValue F)} (stays : Stays run) (scan : Scanner F) :
    Follows false (do
      if (← get).detect then return .ofType m.toLibrary .unsure
      run) run scan (some scan) := by
  intro p mode
  have skips : (do
      if (← get).detect then return .ofType m.toLibrary .unsure
      run : Run F W (ExprValue F)) (p.at scan) = run (p.at scan) := by
    show (if (p.at scan).detect then (pure (.ofType m.toLibrary .unsure) : Run F W (ExprValue F))
      else run) (p.at scan) = _
    rw [show (p.at scan).detect = false from mode]
    rfl
  have here := stays p scan
  rw [skips]
  cases outcome : run p with
  | ok v q =>
      rw [outcome] at here
      exact ⟨here.1, scan, rfl, here.2⟩
  | error stop q =>
      rw [outcome] at here
      exact Or.inr ⟨here.2.1, scan, here.2.2⟩

theorem serves_stays (m : Machine F W) (stay : CallsStay calls) : Serves m false calls calls where
  one word v scan := stays_follows (stay.one word v) scan
  two word v1 v2 scan := stays_follows (stay.two word v1 v2) scan

def uncutStops : Stops Stop (ExprParser F W) Stop (ExprParser F W) where
  left _ := False
  right _ := False
  both stop _ _ _ := stop ≠ .called

/-- The run is not cut at a registered function. -/
def Uncut {Value : Type} (run : Run F W Value) : Prop :=
  ∀ p stop q, run p = .error stop q → stop ≠ .called

theorem uncut_raise {Value : Type} (result : Except Text Value) :
    Uncut (raise result : Run F W Value) := by
  intro p stop q outcome
  cases result with
  | ok value => cases outcome
  | error what =>
      cases outcome
      exact nofun

theorem uncut_entry (word : Text) : Uncut (entry word : Run F W (ExprValue F)) := by
  intro p stop q outcome
  cases found : p.symbols word with
  | some v =>
      rw [entry_some word p v found] at outcome
      cases outcome
  | none =>
      rw [entry_none word p found] at outcome
      cases outcome
      exact nofun

theorem uncut_lookUp (word : Text) : Uncut (lookUp m word : Run F W Unit) := by
  intro p stop q outcome
  cases found : p.symbols word with
  | some v =>
      rw [lookUp_some m word p v found] at outcome
      cases outcome
  | none =>
      rw [lookUp_none m word p found] at outcome
      cases outcome

theorem uncut_store (op : TokenType) (word : Text) (d : ExprValue F) :
    Uncut (store m op word d : Run F W Unit) := by
  intro p stop q outcome
  cases found : p.symbols word with
  | none =>
      rw [store_none m op word d p found] at outcome
      cases outcome
      exact nofun
  | some v =>
      cases value : assigned m.toLibrary op v d with
      | error what =>
          rw [store_error m op word d v what p found value] at outcome
          cases outcome
          exact nofun
      | ok w =>
          rw [store_ok m op word d v w p found value] at outcome
          cases outcome

theorem uncut_callTwo (f : TwoArgFunction F W) (v1 v2 : ExprValue F) : Uncut (callTwo f v1 v2) :=
  fun p => uncut_raise (f.apply v1 v2 p.world).1 _

theorem uncut_of_stays {run : Run F W (ExprValue F)} (stays : Stays run) : Uncut run := by
  intro p stop q outcome
  have here := stays p p.scan
  rw [outcome] at here
  exact here.1

theorem uncut_simulates {Value : Type} {run : Run F W Value} (uncut : Uncut run) :
    Simulates uncutStops Eq Eq run run := by
  rintro p _ rfl
  cases outcome : run p with
  | ok v q => exact And.intro rfl rfl
  | error stop q => exact Or.inr (Or.inr (uncut p stop q outcome))

theorem uncut_any {run : Run F W Unit} (uncut : Uncut run) :
    Simulates uncutStops Eq (fun _ _ => True) run run := by
  rintro p _ rfl
  cases outcome : run p with
  | ok v q => exact And.intro trivial rfl
  | error stop q => exact Or.inr (Or.inr (uncut p stop q outcome))

theorem uncut_related (m : Machine F W) (stay : CallsStay calls) :
    Related uncutStops Eq Eq (fun _ => True) (fun _ => True) (running m calls)
      (running m calls) where
  literal _ := rfl
  fail fault _ _ _ := Or.inr (Or.inr (show Stop.fault fault ≠ .called from nofun))
  one _ _ _ _ agree := agree ▸ uncut_simulates fun _ _ _ outcome => nomatch outcome
  oneCommon word v _ agree := agree ▸ uncut_simulates (uncut_of_stays (stay.one word v))
  two f v _ w _ _ agree agreeW := agree ▸ agreeW ▸ uncut_simulates (uncut_callTwo f v w)
  twoCommon word v _ w _ agree agreeW :=
    agree ▸ agreeW ▸ uncut_simulates (uncut_of_stays (stay.two word v w))
  three f v _ w _ x _ agree agreeW agreeX :=
    agree ▸ agreeW ▸ agreeX ▸ uncut_simulates (uncut_raise (f v w x))
  lookUp word := uncut_any (uncut_lookUp word)
  entry word := uncut_simulates (uncut_entry word)
  store op word d _ agree := agree ▸ uncut_any (uncut_store op word d)
  negated v _ agree := agree ▸ uncut_simulates (uncut_raise (negated m.toLibrary v))
  inverted v _ agree := agree ▸ uncut_simulates (uncut_raise (inverted m.toLibrary v))
  binary op v _ d _ agree agreeD :=
    agree ▸ agreeD ▸ uncut_simulates (uncut_raise (operate m.toLibrary op v d))

/-- What can be evaluated stops in the check on a mark only. -/
theorem stops_marked (m : Machine F W) (fuel : Nat) (program : Text)
    (symbols : SymbolTable F) (world world' : W) (stay : CallsStay calls)
    (evaluates : Evaluates m calls fuel (start m program symbols world)) {k : Known F W} :
    ¬ (readProgram m fuel program).Stops m symbols (.none world') false k := by
  intro stops
  obtain ⟨fault, traced⟩ := eval_of_stops stops
  obtain ⟨v, q, returned⟩ := evaluates
  have agree : Following symbols (.none world') (start m program symbols world) := by
    refine Or.inr fun word => ?_
    show AgreesOn ((symbols word).map Marked.clear) (symbols word)
    cases symbols word with
    | none => trivial
    | some v => exact Marked.clear_agrees v
  have here := eval_simulates (following_related m symbols calls) _
    (applies_any (readProgram m fuel program)) _ _ agree
  rw [traced] at here
  have follows := evaluate_follows (serves_stays m stay) fuel (start m program symbols world) rfl
  cases outcome : (readProgram m fuel program).eval (running m calls)
      (start m program symbols world) with
  | ok w r =>
      rw [outcome] at here
      cases here
  | error stop r =>
      rw [show (readProgram m fuel (start m program symbols world).program).eval
        (running m calls) (start m program symbols world) = .error stop r from outcome] at follows
      have uncut := eval_simulates (uncut_related m stay) _
        (applies_any (readProgram m fuel program)) (start m program symbols world) _ rfl
      rw [outcome] at uncut
      obtain absurd | absurd | notCalled := uncut
      · exact absurd.elim
      · exact absurd.elim
      · obtain called | ⟨_, behind, ran⟩ := follows
        · exact notCalled called
        · rw [ran] at returned
          cases returned

/-- Of the programs that can be evaluated, `Parse` accepts those that come to no operation
that refuses an operand which depends on a registered function or on a random number. -/
theorem checker_accepts_iff (m : Machine F W) (calls : Calls F W) (fuel : Nat) (program : Text)
    (symbols : SymbolTable F) (world world' : W) (stay : CallsStay calls)
    (evaluates : Evaluates m calls fuel (start m program symbols world)) :
    Accepts m calls fuel (start m program symbols world') ↔
      ¬ Trips m fuel program symbols world' := by
  rw [accepts_iff]
  constructor
  · rintro never ⟨k, stops⟩
    exact never true k stops
  · intro clear mark k stops
    cases mark with
    | true => exact clear ⟨k, stops⟩
    | false => exact stops_marked m fuel program symbols world world' stay evaluates stops

end Program

/-! Runs on fixed programs. -/

/-- Registered functions that return their argument. -/
def echoing : Calls F W where
  one _ v := pure v
  two _ v _ := pure v

theorem echoing_stay : CallsStay (echoing : Calls F W) where
  one _ _ := fun p _ => ⟨kept_refl p, rfl⟩
  two _ _ _ := fun p _ => ⟨kept_refl p, rfl⟩

instance (m : Machine F W) (fuel : Nat) (program : Text) (symbols : SymbolTable F) (world : W) :
    Decidable (Trips m fuel program symbols world) :=
  match found : (readProgram m fuel program).eval (tracing m symbols) (.none world) with
  | .ok _ _ => isFalse fun ⟨_, stops⟩ => nomatch found.symm.trans (eval_of_stops stops).choose_spec
  | .error (_, true) k => isTrue ⟨k, stops_of_eval found⟩
  | .error (_, false) _ => isFalse fun ⟨_, stops⟩ =>
      nomatch found.symm.trans (eval_of_stops stops).choose_spec

/-- `f(1)+1`, with a function registered under `f`. -/
theorem checker_accepts_iff_applies :
    Accepts wholeMachine echoing 9
      (start wholeMachine ['f', '(', '1', ')', '+', '1'] (fun _ => none) ()) := by
  apply (checker_accepts_iff wholeMachine echoing 9 ['f', '(', '1', ')', '+', '1'] _ () ()
    echoing_stay (by decide +kernel)).mpr
  decide +kernel

/-- `!f(1)`: the check negates a value that it does not have. -/
theorem negated_call_refused :
    Evaluates wholeMachine echoing 9
        (start wholeMachine ['!', 'f', '(', '1', ')'] (fun _ => none) ()) ∧
      ¬ Accepts wholeMachine echoing 9
        (start wholeMachine ['!', 'f', '(', '1', ')'] (fun _ => none) ()) := by
  decide +kernel

end EChainLib.Expr
