import Mathlib
import EChainLib.Expr.Knowledge

/-! When `Parse` has no effect. -/

namespace EChainLib.Expr

open EChainLib.Dependence
open EChainLib.Effects (Change Within last bind_of_ok bind_of_error within_bind within_pure
  within_throw)
open EChainLib.Simulation

variable {F W : Type}

section Definitions

variable (m : Machine F W) (calls : Calls F W) (fuel : Nat) (p : ExprParser F W)

/-- `Parse` leaves the symbols as they were, and `Evaluate` after it does what it does
without it. -/
structure CheckFree : Prop where
  kept : (last (parse m calls fuel) p).symbols = p.symbols
  same : ending (evaluate m calls fuel (last (parse m calls fuel) p)) =
    ending (evaluate m calls fuel p)

variable (program : Text) (symbols : SymbolTable F) (world : W)

/-- The value last written to an entry is the one that the table holds. -/
def Restores (symbols : SymbolTable F) (k : Known F W) : Prop :=
  ∀ word v, k.written.lookup word = some v → symbols word = some v.value

/-- The program, up to its end or to the first operation that refuses its operands, names
no unknown symbol and leaves every entry with the value it had. -/
def WritesBack : Prop :=
  ∀ k, ((∃ r, (readProgram m fuel program).Gives m symbols (.none world) r k) ∨
      ∃ mark, (readProgram m fuel program).Stops m symbols (.none world) mark k) →
    Restores symbols k

/-- Before an operation that refuses its operands the program comes to no registered
function. -/
def StopsUncalled : Prop :=
  ∀ mark k, (readProgram m fuel program).Stops m symbols (.none world) mark k → k.called = false

end Definitions

/-! What the check keeps. -/

section Kept

variable {m : Machine F W} {symbols : SymbolTable F}

/-- A call stays known, and the world stays as it is. -/
def keepsCalled : Change (Known F W) where
  rel k k' := (k.called = true → k'.called = true) ∧ k'.world = k.world
  refl _ := ⟨id, rfl⟩
  trans _ _ _ first second := ⟨fun called => second.1 (first.1 called), second.2.trans first.2⟩

theorem raise_keepsCalled {Value : Type} (result : Except (Text × Bool) (Marked Value)) :
    Within keepsCalled (raiseMarked result : MarkedRun F W (Marked Value)) := by
  cases result with
  | ok v => exact within_pure v
  | error stop => exact within_throw _

theorem entry_keepsCalled (word : Text) :
    Within keepsCalled (markedEntry symbols word : MarkedRun F W _) := by
  intro k
  unfold last markedEntry
  cases k.entry symbols word with
  | some v => exact keepsCalled.refl k
  | none => exact keepsCalled.refl k

theorem tracing_keepsCalled (m : Machine F W) (symbols : SymbolTable F) :
    Steps keepsCalled OneArgFunction.Plain TwoArgFunction.Plain (tracing m symbols) where
  one f v plain := by
    obtain ⟨g, rfl⟩ := plain
    exact fun k => keepsCalled.refl k
  oneCommon _ _ := fun _ => ⟨fun _ => rfl, rfl⟩
  two f v w plain := by
    obtain ⟨g, rfl⟩ := plain
    exact fun k => raise_keepsCalled _ k
  twoCommon _ _ _ := fun _ => ⟨fun _ => rfl, rfl⟩
  three _ _ _ _ := raise_keepsCalled _
  lookUp word := by
    intro k
    show keepsCalled.rel k (k.name m symbols word)
    unfold Known.name
    cases k.symbol symbols word <;> exact keepsCalled.refl k
  entry := entry_keepsCalled
  store _ word _ := within_bind (entry_keepsCalled word) fun _ =>
    within_bind (raise_keepsCalled _) fun _ => fun _ => ⟨id, rfl⟩
  negated _ := raise_keepsCalled _
  inverted _ := raise_keepsCalled _
  binary _ _ _ := raise_keepsCalled _

end Kept

/-! The check and an evaluation whose registered functions all stop it. -/

section Cut

variable {m : Machine F W} {symbols : SymbolTable F} {Value Value' Other Other' : Type}
  {stop : Stop} {values : Value → Value' → Prop} {others : Other → Other' → Prop}

/-- The evaluation ends with `stop` where the check has come to a registered function, and
does the same up to there. -/
def Cuts (stop : Stop) (symbols : SymbolTable F) (values : Value → Value' → Prop)
    (run : MarkedRun F W Value) (run' : Run F W Value') : Prop :=
  ∀ k q, k.called = false → Erased symbols k q →
    match run k with
    | .ok v k' =>
        if k'.called then ∃ q', run' q = .error stop q'
        else ∃ v' q', run' q = .ok v' q' ∧ values v v' ∧ Erased symbols k' q'
    | .error fault k' =>
        if k'.called then ∃ q', run' q = .error stop q'
        else ∃ q', run' q = .error (.fault fault.1) q' ∧ Erased symbols k' q'

theorem cuts_of_erased {run : MarkedRun F W Value} {run' : Run F W Value'}
    (erased : Simulates (erasedStops symbols) (Erased symbols) values run run')
    (still : ∀ k, (last run k).called = k.called) : Cuts stop symbols values run run' := by
  intro k q uncalled agree
  have same := erased k q agree
  have kept := still k
  unfold last at kept
  cases outcome : run k with
  | ok v k' =>
      rw [outcome] at same kept
      cases outcome' : run' q with
      | ok v' q' =>
          rw [outcome'] at same
          dsimp only at kept ⊢
          rw [kept, uncalled]
          exact ⟨v', q', rfl, same⟩
      | error stop' q' =>
          rw [outcome'] at same
          exact same.elim
  | error fault k' =>
      rw [outcome] at same kept
      cases outcome' : run' q with
      | ok v' q' =>
          rw [outcome'] at same
          exact same.elim
      | error stop' q' =>
          rw [outcome'] at same
          dsimp only at kept ⊢
          rw [kept, uncalled]
          obtain absurd | absurd | ⟨rfl, agree'⟩ := same
          · exact absurd.elim
          · exact absurd.elim
          · exact ⟨q', rfl, agree'⟩

theorem cuts_bind {run : MarkedRun F W Value} {run' : Run F W Value'}
    {next : Value → MarkedRun F W Other} {next' : Value' → Run F W Other'}
    (first : Cuts stop symbols values run run') (keeps : ∀ v, Within keepsCalled (next v))
    (rest : ∀ v v', values v v' → Cuts stop symbols others (next v) (next' v')) :
    Cuts stop symbols others (run >>= next) (run' >>= next') := by
  intro k q uncalled agree
  have step := first k q uncalled agree
  cases outcome : run k with
  | error fault k' =>
      rw [outcome] at step
      rw [bind_of_error outcome]
      dsimp only at step ⊢
      split_ifs at step ⊢ with called
      · obtain ⟨q', cut⟩ := step
        exact ⟨q', bind_of_error cut _⟩
      · obtain ⟨q', stopped, agree'⟩ := step
        exact ⟨q', bind_of_error stopped _, agree'⟩
  | ok v k₁ =>
      rw [outcome] at step
      rw [bind_of_ok outcome]
      dsimp only at step
      split_ifs at step with called
      · obtain ⟨q', cut⟩ := step
        have after := (keeps v k₁).1 called
        unfold last at after
        cases outcome' : next v k₁ with
        | ok w k' =>
            rw [outcome'] at after
            exact (if_pos after).mpr ⟨q', bind_of_error cut _⟩
        | error fault k' =>
            rw [outcome'] at after
            exact (if_pos after).mpr ⟨q', bind_of_error cut _⟩
      · obtain ⟨v', q₁, ran, same, agree₁⟩ := step
        rw [bind_of_ok ran]
        exact rest v v' same k₁ q₁ (by simpa using called) agree₁

theorem cuts_call (m : Machine F W) (stop : Stop) :
    Cuts stop symbols ErasedValue (markedCommon m) (throw stop : Run F W (ExprValue F)) :=
  fun _ q _ _ => ⟨q, rfl⟩

theorem raise_still {Value : Type} (result : Except (Text × Bool) (Marked Value)) (k : Known F W) :
    (last (raiseMarked result) k).called = k.called := by
  cases result with
  | ok v => rfl
  | error stop => rfl

theorem entry_still (word : Text) (k : Known F W) :
    (last (markedEntry symbols word) k).called = k.called := by
  unfold last markedEntry
  cases k.entry symbols word with
  | some v => rfl
  | none => rfl

theorem lookUp_still (word : Text) (k : Known F W) :
    (last (markedLookUp m symbols word) k).called = k.called := by
  show (k.name m symbols word).called = k.called
  unfold Known.name
  cases k.symbol symbols word with
  | some v => rfl
  | none => rfl

theorem store_cuts (op : TokenType) (word : Text) (d : Marked (ExprValue F)) :
    Cuts stop symbols (fun _ _ => True) (markedStore m symbols op word d)
      (store m op word d.value : Run F W Unit) := by
  apply cuts_bind (cuts_of_erased (entry_erased word) (entry_still word))
  · exact fun v => within_bind (raise_keepsCalled _) fun _ => fun _ => ⟨id, rfl⟩
  · rintro v _ rfl
    apply cuts_bind (cuts_of_erased (raise_erased (v.pair d) fun operands =>
      assigned m.toLibrary op operands.1 operands.2) (raise_still _))
    · exact fun _ _ => ⟨id, rfl⟩
    · rintro w _ rfl
      apply cuts_of_erased _ fun _ => rfl
      intro k q agree
      exact ⟨trivial, erased_write agree word w⟩

theorem eval_cuts (m : Machine F W) (symbols : SymbolTable F) (stop : Stop) (t : Tree F W)
    (plain : t.Applies OneArgFunction.Plain TwoArgFunction.Plain) :
    Cuts stop symbols ErasedValue (t.eval (tracing m symbols))
      (t.eval (running m (cutting stop))) := by
  -- along the tree: up to the first registered function the run does what is known, from there on
  -- the known part has passed a call whatever it does
  have steps := tracing_keepsCalled m symbols
  induction t with
  | literal v =>
      exact cuts_of_erased (simulates_pure rfl) fun _ => rfl
  | fail fault =>
      exact cuts_of_erased (simulates_throw fun _ _ agree => .inr (.inr ⟨rfl, agree⟩)) fun _ => rfl
  | one f arg ih =>
      apply cuts_bind (ih plain.2) (fun v => steps.one f v plain.1)
      rintro v _ rfl
      exact cuts_of_erased (one_erased f v) fun _ => rfl
  | oneCommon word arg ih =>
      apply cuts_bind (ih plain) (fun v => steps.oneCommon word v)
      exact fun _ _ _ => cuts_call m stop
  | two f arg1 arg2 ih1 ih2 =>
      have last_part (v : Marked (ExprValue F)) := fun w => steps.two f v w plain.1
      apply cuts_bind (ih1 plain.2.1)
        (fun v => within_bind (eval_within steps arg2 plain.2.2) (last_part v))
      rintro v _ rfl
      apply cuts_bind (ih2 plain.2.2) (last_part v)
      rintro w _ rfl
      exact cuts_of_erased (two_erased f v w) fun k => raise_still _ _
  | twoCommon word arg1 arg2 ih1 ih2 =>
      have last_part (v : Marked (ExprValue F)) := steps.twoCommon word v
      apply cuts_bind (ih1 plain.1)
        (fun v => within_bind (eval_within steps arg2 plain.2) (last_part v))
      intro v _ _
      apply cuts_bind (ih2 plain.2) (last_part v)
      exact fun _ _ _ => cuts_call m stop
  | three f arg1 arg2 arg3 ih1 ih2 ih3 =>
      have last_part (v w : Marked (ExprValue F)) := steps.three f v w
      have next_part (v : Marked (ExprValue F)) := fun w =>
        within_bind (eval_within steps arg3 plain.2.2) (last_part v w)
      apply cuts_bind (ih1 plain.1)
        (fun v => within_bind (eval_within steps arg2 plain.2.1) (next_part v))
      rintro v _ rfl
      apply cuts_bind (ih2 plain.2.1) (next_part v)
      rintro w _ rfl
      apply cuts_bind (ih3 plain.2.2) (last_part v w)
      rintro x _ rfl
      exact cuts_of_erased (raise_erased ((v.pair w).pair x) fun args =>
        f args.1.1 args.1.2 args.2) (raise_still _)
  | symbol word =>
      apply cuts_bind (cuts_of_erased (lookUp_erased word) (lookUp_still word))
        (fun _ => steps.entry word)
      exact fun _ _ _ => cuts_of_erased (entry_erased word) (entry_still word)
  | assign op word rhs ih =>
      have last_part (d : Marked (ExprValue F)) : Within keepsCalled (do
          markedStore m symbols op word d
          markedEntry symbols word) := within_bind (steps.store op word d) fun _ => steps.entry word
      apply cuts_bind (cuts_of_erased (lookUp_erased word) (lookUp_still word))
        (fun _ => within_bind (eval_within steps rhs plain) last_part)
      intro _ _ _
      apply cuts_bind (ih plain) last_part
      rintro d _ rfl
      apply cuts_bind (store_cuts op word d) (fun _ => steps.entry word)
      exact fun _ _ _ => cuts_of_erased (entry_erased word) (entry_still word)
  | negated operand ih =>
      apply cuts_bind (ih plain) steps.negated
      rintro v _ rfl
      exact cuts_of_erased (raise_erased v (negated m.toLibrary)) (raise_still _)
  | inverted operand ih =>
      apply cuts_bind (ih plain) steps.inverted
      rintro v _ rfl
      exact cuts_of_erased (raise_erased v (inverted m.toLibrary)) (raise_still _)
  | binary op left right ihLeft ihRight =>
      have last_part (v : Marked (ExprValue F)) := steps.binary op v
      apply cuts_bind (ihLeft plain.1)
        (fun v => within_bind (eval_within steps right plain.2) (last_part v))
      rintro v _ rfl
      apply cuts_bind (ihRight plain.2) (last_part v)
      rintro d _ rfl
      exact cuts_of_erased (raise_erased (v.pair d) fun operands =>
        operate m.toLibrary op operands.1 operands.2) (raise_still _)

end Cut

/-! The exact condition. -/

section Program

variable {m : Machine F W} {fuel : Nat} {p : ExprParser F W}

/-- An evaluation that comes to no registered function throws what the check throws. -/
theorem evaluate_uncalled (calls : Calls F W) (mode : p.detect = false)
    (plain : PlainProgram m fuel p.program) {fault : Fault} {mark : Bool} {k : Known F W}
    (traced : (readProgram m fuel p.program).eval (tracing m p.symbols) (.none p.world) =
      .error (fault, mark) k) (uncalled : k.called = false) :
    ∃ q, evaluate m calls fuel p = .error (.fault fault) q ∧ Erased p.symbols k q := by
  have cuts := eval_cuts m p.symbols .called _ plain (.none p.world) p rfl (erased_none_known p)
  rw [traced] at cuts
  obtain ⟨q, stopped, agree⟩ := (if_neg (by simp [uncalled])).mp cuts
  have follows := evaluate_follows (serves_stopping m calls) fuel p mode
  rw [show (readProgram m fuel p.program).eval (running m stopping) p = .error (.fault fault) q
    from stopped] at follows
  obtain absurd | ⟨_, behind, ran⟩ := follows
  · cases absurd
  · exact ⟨q.at behind, ran, agree⟩

theorem evaluate_thrown (what : Text) (mode : p.detect = false)
    (plain : PlainProgram m fuel p.program) {stop : Fault × Bool} {k : Known F W}
    (traced : (readProgram m fuel p.program).eval (tracing m p.symbols) (.none p.world) =
      .error stop k) (called : k.called = true) :
    ∃ q, evaluate m (cutting (.fault (.thrown what))) fuel p = .error (.fault (.thrown what)) q := by
  have cuts := eval_cuts m p.symbols (.fault (.thrown what)) _ plain (.none p.world) p rfl
    (erased_none_known p)
  rw [traced] at cuts
  obtain ⟨q, stopped⟩ := (if_pos called).mp cuts
  have follows := evaluate_follows (serves_cutting m (.fault (.thrown what))) fuel p mode
  rw [stopped] at follows
  obtain absurd | ⟨_, behind, ran⟩ := follows
  · cases absurd
  · exact ⟨q.at behind, ran⟩

theorem symbols_of_erased {k : Known F W} {q r : ExprParser F W} (first : Erased p.symbols k q)
    (second : Erased p.symbols k r) : q.symbols = r.symbols :=
  funext fun word => (first.1 word).symm.trans (second.1 word)

theorem restores_iff {k : Known F W} {q : ExprParser F W} (erased : Erased p.symbols k q) :
    Restores p.symbols k ↔ q.symbols = p.symbols := by
  constructor
  · intro back
    funext word
    rw [← erased.1 word, Known.symbol]
    cases written : k.written.lookup word with
    | some v => exact (back word v written).symm
    | none =>
        show ((p.symbols word).map Marked.clear).map Marked.value = p.symbols word
        cases p.symbols word <;> rfl
  · intro kept word v written
    rw [← kept, ← erased.1 word, Known.symbol, written]
    rfl

theorem with_same {q : ExprParser F W} (symbols : q.symbols = p.symbols)
    (world : q.world = p.world) (detect : Bool) (scan : Scanner F) :
    p.with q detect scan = ({ p with detect := detect } : ExprParser F W).at scan := by
  unfold ExprParser.with ExprParser.at
  rw [symbols, world]

theorem other_text (stop : Stop) : ∃ what, stop ≠ .fault (.thrown what) := by
  by_cases empty : stop = .fault (.thrown [])
  · exact ⟨[nul], by simp [empty]⟩
  · exact ⟨[], empty⟩

theorem evaluate_at (calls : Calls F W) (scan : Scanner F) :
    evaluate m calls fuel (p.at scan) = evaluate m calls fuel p := rfl

theorem world_kept (plain : PlainProgram m fuel p.program) :
    (last ((readProgram m fuel p.program).eval (tracing m p.symbols)) (.none p.world)).world =
      p.world :=
  (eval_within (tracing_keepsCalled m p.symbols) _ plain (.none p.world)).2

/-- Where the check returns. -/
theorem free_of_gives (plain : PlainProgram m fuel p.program) (mode : p.detect = false)
    {r : Marked (ExprValue F)} {k : Known F W}
    (gives : (readProgram m fuel p.program).Gives m p.symbols (.none p.world) r k)
    (calls : Calls F W) : CheckFree m calls fuel p ↔ Restores p.symbols k := by
  obtain ⟨q, outcome, erased⟩ := checked_of_gives gives
  obtain ⟨scan, ran⟩ := parse_ok calls outcome
  have world : q.world = p.world := by
    have kept := world_kept plain
    rw [last, eval_of_gives gives] at kept
    exact erased.2.symm.trans kept
  have reached : last (parse m calls fuel) p = p.with q false scan := by rw [last, ran]
  rw [restores_iff erased]
  constructor
  · intro free
    have kept := free.kept
    rw [reached] at kept
    exact kept
  · intro kept
    rw [with_same kept world false scan, ← mode] at reached
    constructor
    · rw [reached]
      rfl
    · rw [reached]
      exact congrArg ending (evaluate_at calls scan)

/-- Where the check throws. -/
theorem free_of_stops (plain : PlainProgram m fuel p.program) (mode : p.detect = false)
    {mark : Bool} {k : Known F W}
    (stops : (readProgram m fuel p.program).Stops m p.symbols (.none p.world) mark k) :
    (∀ calls, CheckFree m calls fuel p) ↔ Restores p.symbols k ∧ k.called = false := by
  obtain ⟨fault, q, traced, outcome, erased⟩ := checked_of_stops stops
  have unstopped : Stop.fault fault ≠ .called := nofun
  have world : q.world = p.world := by
    have kept := world_kept plain
    rw [last, traced] at kept
    exact erased.2.symm.trans kept
  rw [restores_iff erased]
  constructor
  · intro free
    obtain ⟨scan, ran, _⟩ := parse_error stopping unstopped outcome
    have kept := (free stopping).kept
    rw [last, ran] at kept
    replace kept : q.symbols = p.symbols := kept
    refine ⟨kept, ?_⟩
    cases called : k.called with
    | false => rfl
    | true =>
        -- a function that throws another text is heard by `Evaluate` alone, and after the check it is
        -- not called any more
        obtain ⟨what, differs⟩ := other_text (.fault fault)
        obtain ⟨thrown, alone⟩ := evaluate_thrown what mode plain traced called
        obtain ⟨scan, ran, again⟩ :=
          parse_error (cutting (.fault (.thrown what))) unstopped outcome
        have same := (free (cutting (.fault (.thrown what)))).same
        rw [last, ran, alone] at same
        dsimp only at same
        rw [with_same kept world true scan] at same again
        have second : evaluate m (cutting (.fault (.thrown what))) fuel ((checking p).at scan) =
            .error (.fault fault) ((checking p).at scan) := again
        rw [show ({ p with detect := true } : ExprParser F W) = checking p from rfl, second] at same
        exact (differs (Except.error.inj (congrArg Prod.fst same))).elim
  · rintro ⟨kept, uncalled⟩ calls
    obtain ⟨scan, ran, again⟩ := parse_error calls unstopped outcome
    obtain ⟨r, alone, alike⟩ := evaluate_uncalled calls mode plain traced uncalled
    rw [with_same kept world true scan] at ran again
    constructor
    · rw [last, ran]
      rfl
    · have second : evaluate m calls fuel ((checking p).at scan) =
          .error (.fault fault) ((checking p).at scan) := again
      rw [last, ran, alone]
      show ending (evaluate m calls fuel ((checking p).at scan)) = _
      rw [second]
      exact congrArg (Prod.mk _) (kept.symm.trans (symbols_of_erased erased alike))

section Outcome

variable {program : Text} {symbols : SymbolTable F} {world : W} {k : Known F W}

theorem writesBack_of_gives {r : Marked (ExprValue F)}
    (gives : (readProgram m fuel program).Gives m symbols (.none world) r k) :
    WritesBack m fuel program symbols world ↔ Restores symbols k := by
  refine ⟨fun back => back k (.inl ⟨r, gives⟩), ?_⟩
  rintro back l (⟨r', given⟩ | ⟨mark, stops⟩)
  · have same := (eval_of_gives gives).symm.trans (eval_of_gives given)
    injection same with _ same
    exact same ▸ back
  · obtain ⟨fault, stopped⟩ := eval_of_stops stops
    cases (eval_of_gives gives).symm.trans stopped

theorem uncalled_of_gives {r : Marked (ExprValue F)}
    (gives : (readProgram m fuel program).Gives m symbols (.none world) r k) :
    StopsUncalled m fuel program symbols world := by
  intro mark l stops
  obtain ⟨fault, stopped⟩ := eval_of_stops stops
  cases (eval_of_gives gives).symm.trans stopped

theorem writesBack_of_stops {mark : Bool}
    (stops : (readProgram m fuel program).Stops m symbols (.none world) mark k) :
    WritesBack m fuel program symbols world ↔ Restores symbols k := by
  obtain ⟨fault, stopped⟩ := eval_of_stops stops
  refine ⟨fun back => back k (.inr ⟨mark, stops⟩), ?_⟩
  rintro back l (⟨r, gives⟩ | ⟨mark', again⟩)
  · cases stopped.symm.trans (eval_of_gives gives)
  · obtain ⟨fault', stopped'⟩ := eval_of_stops again
    have same := stopped.symm.trans stopped'
    injection same with _ same
    exact same ▸ back

theorem uncalled_of_stops {mark : Bool}
    (stops : (readProgram m fuel program).Stops m symbols (.none world) mark k) :
    StopsUncalled m fuel program symbols world ↔ k.called = false := by
  obtain ⟨fault, stopped⟩ := eval_of_stops stops
  refine ⟨fun uncalled => uncalled mark k stops, fun uncalled mark' l again => ?_⟩
  obtain ⟨fault', stopped'⟩ := eval_of_stops again
  have same := stopped.symm.trans stopped'
  injection same with _ same
  exact same ▸ uncalled

end Outcome

end Program

/-- Checking a program is free of effects, for all functions that may be registered, exactly
where the program writes back what it finds and comes to none of them before an operation
that refuses its operands. -/
theorem check_free_iff (m : Machine F W) (fuel : Nat) (program : Text) (symbols : SymbolTable F)
    (world : W) (plain : PlainProgram m fuel program) :
    (∀ calls, CheckFree m calls fuel (start m program symbols world)) ↔
      WritesBack m fuel program symbols world ∧ StopsUncalled m fuel program symbols world := by
  have plainHere : PlainProgram m fuel (start m program symbols world).program := plain
  rcases gives_or_stops m symbols (readProgram m fuel program) (.none world) with
    ⟨r, k, gives⟩ | ⟨mark, k, stops⟩
  · rw [writesBack_of_gives gives]
    have free := free_of_gives (p := start m program symbols world) plainHere rfl gives
    exact ⟨fun all => ⟨(free stopping).mp (all stopping), uncalled_of_gives gives⟩,
      fun back calls => (free calls).mpr back.1⟩
  · rw [writesBack_of_stops stops, uncalled_of_stops stops]
    exact free_of_stops (p := start m program symbols world) plainHere rfl stops

/-! Programs whose text alone shows that the check has no effect. -/

/-- The tree names symbols of the table only, and has no assignment and no registered
function. -/
def Tree.quiet (symbols : SymbolTable F) : Tree F W → Bool
  | .literal _ => true
  | .fail _ => true
  | .one f arg => !f.draws && arg.quiet symbols
  | .oneCommon _ _ => false
  | .two f arg1 arg2 => !f.draws && (arg1.quiet symbols && arg2.quiet symbols)
  | .twoCommon _ _ _ => false
  | .three _ arg1 arg2 arg3 => arg1.quiet symbols && (arg2.quiet symbols && arg3.quiet symbols)
  | .symbol word => (symbols word).isSome
  | .assign _ _ _ => false
  | .negated operand => operand.quiet symbols
  | .inverted operand => operand.quiet symbols
  | .binary _ left right => left.quiet symbols && right.quiet symbols

section Quiet

variable {m : Machine F W} {symbols : SymbolTable F}

def keepsKnown : Change (Known F W) where
  rel k k' := k' = k
  refl _ := rfl
  trans _ _ _ first second := second.trans first

theorem raise_keepsKnown {Value : Type} (result : Except (Text × Bool) (Marked Value)) :
    Within keepsKnown (raiseMarked result : MarkedRun F W (Marked Value)) := by
  cases result with
  | ok v => exact within_pure v
  | error stop => exact within_throw _

theorem entry_keepsKnown (word : Text) :
    Within keepsKnown (markedEntry symbols word : MarkedRun F W _) := by
  intro k
  unfold last markedEntry
  cases k.entry symbols word with
  | some v => rfl
  | none => rfl

theorem lookUp_keepsKnown {word : Text} (known : (symbols word).isSome) :
    Within keepsKnown (markedLookUp m symbols word) := by
  intro k
  show k.name m symbols word = k
  obtain ⟨v, found⟩ := Option.isSome_iff_exists.mp known
  unfold Known.name Known.symbol
  rw [found]
  cases k.written.lookup word with
  | some w => rfl
  | none => rfl

theorem quiet_keepsKnown (t : Tree F W) (quiet : t.quiet symbols = true) :
    Within keepsKnown (t.eval (tracing m symbols)) := by
  induction t with
  | literal v => exact within_pure _
  | fail fault => exact within_throw _
  | one f arg ih =>
      simp only [Tree.quiet, Bool.and_eq_true] at quiet
      refine within_bind (ih quiet.2) fun v k => ?_
      cases f with
      | plain g => rfl
      | random g => cases quiet.1
  | oneCommon word arg ih => cases quiet
  | two f arg1 arg2 ih1 ih2 =>
      simp only [Tree.quiet, Bool.and_eq_true] at quiet
      refine within_bind (ih1 quiet.2.1) fun v => within_bind (ih2 quiet.2.2) fun w k => ?_
      cases f with
      | plain g => exact raise_keepsKnown _ k
      | random g => cases quiet.1
  | twoCommon word arg1 arg2 ih1 ih2 => cases quiet
  | three f arg1 arg2 arg3 ih1 ih2 ih3 =>
      simp only [Tree.quiet, Bool.and_eq_true] at quiet
      exact within_bind (ih1 quiet.1) fun v => within_bind (ih2 quiet.2.1) fun w =>
        within_bind (ih3 quiet.2.2) fun x => raise_keepsKnown _
  | symbol word => exact within_bind (lookUp_keepsKnown quiet) fun _ => entry_keepsKnown word
  | assign op word rhs ih => cases quiet
  | negated operand ih => exact within_bind (ih quiet) fun v => raise_keepsKnown _
  | inverted operand ih => exact within_bind (ih quiet) fun v => raise_keepsKnown _
  | binary op left right ihLeft ihRight =>
      simp only [Tree.quiet, Bool.and_eq_true] at quiet
      exact within_bind (ihLeft quiet.1) fun v => within_bind (ihRight quiet.2) fun d =>
        raise_keepsKnown _

variable {fuel : Nat} {program : Text} {world : W}

theorem quiet_writesBack (quiet : (readProgram m fuel program).quiet symbols = true) :
    WritesBack m fuel program symbols world := by
  have still := quiet_keepsKnown (m := m) _ quiet (.none world)
  rintro k (⟨r, gives⟩ | ⟨mark, stops⟩) word v found
  · rw [last, eval_of_gives gives] at still
    replace still : k = .none world := still
    subst still
    cases found
  · obtain ⟨fault, stopped⟩ := eval_of_stops stops
    rw [last, stopped] at still
    replace still : k = .none world := still
    subst still
    cases found

theorem quiet_stopsUncalled (quiet : (readProgram m fuel program).quiet symbols = true) :
    StopsUncalled m fuel program symbols world := by
  have still := quiet_keepsKnown (m := m) _ quiet (.none world)
  intro mark k stops
  obtain ⟨fault, stopped⟩ := eval_of_stops stops
  rw [last, stopped] at still
  exact congrArg Known.called still

end Quiet

/-! Runs on fixed programs. -/

/-- `pi*2` on a parser with the names that the constructor sets. -/
theorem check_free_iff_applies :
    CheckFree wholeMachine stopping 9 (start wholeMachine ['p', 'i', '*', '2']
      (ExprParser.create wholeMachine [] ()).symbols ()) := by
  have quiet : (readProgram wholeMachine 9 ['p', 'i', '*', '2']).quiet
      (ExprParser.create wholeMachine [] ()).symbols = true := by decide +kernel
  exact (check_free_iff wholeMachine 9 ['p', 'i', '*', '2'] _ () (by decide +kernel)).mpr
    ⟨quiet_writesBack quiet, quiet_stopsUncalled quiet⟩ stopping

/-- `a=5` makes an entry for `a`. -/
theorem check_assigns :
    ¬ CheckFree wholeMachine stopping 9 (start wholeMachine ['a', '=', '5']
      (ExprParser.create wholeMachine [] ()).symbols ()) := by
  intro free
  have unchanged := congrFun free.kept ['a']
  revert unchanged
  decide +kernel

end EChainLib.Expr
