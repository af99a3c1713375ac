import Mathlib
import EChainLib.Support.Dependence
import EChainLib.Expr.Operands
import EChainLib.Expr.Check

/-! What the syntax tree of a program says before any registered function is called: the
value of a call is unsure. A value is marked if it depends on a call or on a random
number. -/

namespace EChainLib.Expr

open EChainLib.Dependence
open EChainLib.Effects (last bind_of_ok bind_of_error)
open EChainLib.Simulation

variable {F W : Type}

/-- What is known at a point of a program. -/
structure Known (F W : Type) where
  /-- The entries made and assigned to so far, the last one first. -/
  written : List (Text × Marked (ExprValue F))
  /-- Behind a call every symbol may have another value. -/
  called : Bool
  world : W

def OneArgFunction.draws : OneArgFunction F W → Bool
  | .plain _ => false
  | .random _ => true

def TwoArgFunction.draws : TwoArgFunction F W → Bool
  | .plain _ => false
  | .random _ => true

def Known.write (k : Known F W) (word : Text) (v : Marked (ExprValue F)) : Known F W :=
  { k with written := (word, v) :: k.written }

section Judgement

variable (m : Machine F W) (symbols : SymbolTable F)

def Known.symbol (k : Known F W) (word : Text) : Option (Marked (ExprValue F)) :=
  (k.written.lookup word).or ((symbols word).map .clear)

def Known.entry (k : Known F W) (word : Text) : Option (Marked (ExprValue F)) :=
  (k.symbol symbols word).map fun v => ⟨v.value, v.marked || k.called⟩

/-- An unknown name gets an empty entry. -/
def Known.name (k : Known F W) (word : Text) : Known F W :=
  match k.symbol symbols word with
  | some _ => k
  | none => k.write word (.clear (.empty m.toLibrary))

/-- The tree has the value `r`, and `k'` is known behind it. -/
def Tree.Gives : Tree F W → Known F W → Marked (ExprValue F) → Known F W → Prop
  | .literal v, k, r, k' => r = .clear v ∧ k' = k
  | .fail _, _, _, _ => False
  | .one f arg, k, r, k' => ∃ v k₁, arg.Gives k v k₁ ∧
      r = ⟨.ofDouble (f.apply v.value.dValue k₁.world).1, v.marked || f.draws⟩ ∧
      k' = { k₁ with world := (f.apply v.value.dValue k₁.world).2 }
  | .oneCommon _ arg, k, r, k' => ∃ v k₁, arg.Gives k v k₁ ∧
      r = ⟨.ofType m.toLibrary .unsure, true⟩ ∧ k' = { k₁ with called := true }
  | .two f arg1 arg2, k, r, k' => ∃ v k₁, arg1.Gives k v k₁ ∧ ∃ w k₂, arg2.Gives k₁ w k₂ ∧
      (f.apply v.value w.value k₂.world).1 = .ok r.value ∧
      r.marked = (v.marked || w.marked || f.draws) ∧
      k' = { k₂ with world := (f.apply v.value w.value k₂.world).2 }
  | .twoCommon _ arg1 arg2, k, r, k' => ∃ v k₁, arg1.Gives k v k₁ ∧ ∃ w k₂, arg2.Gives k₁ w k₂ ∧
      r = ⟨.ofType m.toLibrary .unsure, true⟩ ∧ k' = { k₂ with called := true }
  | .three f arg1 arg2 arg3, k, r, k' => ∃ v k₁, arg1.Gives k v k₁ ∧ ∃ w k₂, arg2.Gives k₁ w k₂ ∧
      ∃ x k₃, arg3.Gives k₂ x k₃ ∧ f v.value w.value x.value = .ok r.value ∧
      r.marked = (v.marked || w.marked || x.marked) ∧ k' = k₃
  | .symbol word, k, r, k' => k' = k.name m symbols word ∧ k'.entry symbols word = some r
  | .assign op word rhs, k, r, k' => ∃ d k₁, rhs.Gives (k.name m symbols word) d k₁ ∧
      ∃ v w, k₁.entry symbols word = some v ∧ assigned m.toLibrary op v.value d.value = .ok w ∧
      k' = k₁.write word ⟨w, v.marked || d.marked⟩ ∧ k'.entry symbols word = some r
  | .negated operand, k, r, k' => ∃ v k₁, operand.Gives k v k₁ ∧
      Expr.negated m.toLibrary v.value = .ok r.value ∧ r.marked = v.marked ∧ k' = k₁
  | .inverted operand, k, r, k' => ∃ v k₁, operand.Gives k v k₁ ∧
      Expr.inverted m.toLibrary v.value = .ok r.value ∧ r.marked = v.marked ∧ k' = k₁
  | .binary op left right, k, r, k' => ∃ v k₁, left.Gives k v k₁ ∧ ∃ d k₂, right.Gives k₁ d k₂ ∧
      operate m.toLibrary op v.value d.value = .ok r.value ∧
      r.marked = (v.marked || d.marked) ∧ k' = k₂

/-- The tree comes to an operation that refuses its operands, where `k'` is known; whether
one of them is marked. -/
def Tree.Stops : Tree F W → Known F W → Bool → Known F W → Prop
  | .literal _, _, _, _ => False
  | .fail _, k, mark, k' => mark = false ∧ k' = k
  | .one _ arg, k, mark, k' => arg.Stops k mark k'
  | .oneCommon _ arg, k, mark, k' => arg.Stops k mark k'
  | .two f arg1 arg2, k, mark, k' => arg1.Stops k mark k' ∨ ∃ v k₁, arg1.Gives m symbols k v k₁ ∧
      (arg2.Stops k₁ mark k' ∨ ∃ w k₂, arg2.Gives m symbols k₁ w k₂ ∧
        Refused (f.apply v.value w.value k₂.world).1 ∧
        mark = (v.marked || w.marked || f.draws) ∧
        k' = { k₂ with world := (f.apply v.value w.value k₂.world).2 })
  | .twoCommon _ arg1 arg2, k, mark, k' => arg1.Stops k mark k' ∨
      ∃ v k₁, arg1.Gives m symbols k v k₁ ∧ arg2.Stops k₁ mark k'
  | .three f arg1 arg2 arg3, k, mark, k' => arg1.Stops k mark k' ∨
      ∃ v k₁, arg1.Gives m symbols k v k₁ ∧ (arg2.Stops k₁ mark k' ∨
        ∃ w k₂, arg2.Gives m symbols k₁ w k₂ ∧ (arg3.Stops k₂ mark k' ∨
          ∃ x k₃, arg3.Gives m symbols k₂ x k₃ ∧ Refused (f v.value w.value x.value) ∧
            mark = (v.marked || w.marked || x.marked) ∧ k' = k₃))
  | .symbol _, _, _, _ => False
  | .assign op word rhs, k, mark, k' => rhs.Stops (k.name m symbols word) mark k' ∨
      ∃ d k₁, rhs.Gives m symbols (k.name m symbols word) d k₁ ∧
        ∃ v, k₁.entry symbols word = some v ∧ RefusesAssigned m.toLibrary op v.value d.value ∧
          mark = (v.marked || d.marked) ∧ k' = k₁
  | .negated operand, k, mark, k' => operand.Stops k mark k' ∨
      ∃ v k₁, operand.Gives m symbols k v k₁ ∧ RefusesNegated v.value ∧ mark = v.marked ∧ k' = k₁
  | .inverted operand, k, mark, k' => operand.Stops k mark k' ∨
      ∃ v k₁, operand.Gives m symbols k v k₁ ∧ ¬ v.value.isNumeric ∧ mark = v.marked ∧ k' = k₁
  | .binary op left right, k, mark, k' => left.Stops k mark k' ∨
      ∃ v k₁, left.Gives m symbols k v k₁ ∧ (right.Stops k₁ mark k' ∨
        ∃ d k₂, right.Gives m symbols k₁ d k₂ ∧ RefusesBinary m.toLibrary op v.value d.value ∧
          mark = (v.marked || d.marked) ∧ k' = k₂)

end Judgement

/-! The same by the operations of the check. -/

abbrev MarkedRun (F W : Type) := EStateM (Fault × Bool) (Known F W)

section Tracing

variable (m : Machine F W) (symbols : SymbolTable F)

def raiseMarked {Value : Type} (result : Except (Text × Bool) (Marked Value)) :
    MarkedRun F W (Marked Value) :=
  match result with
  | .ok v => pure v
  | .error (what, marked) => throw (.thrown what, marked)

def markedLookUp (word : Text) : MarkedRun F W Unit := fun k => .ok () (k.name m symbols word)

def markedEntry (word : Text) : MarkedRun F W (Marked (ExprValue F)) := fun k =>
  match k.entry symbols word with
  | some v => .ok v k
  | none => .error (.undefined, k.called) k

def markedStore (op : TokenType) (word : Text) (d : Marked (ExprValue F)) :
    MarkedRun F W Unit := do
  let v ← markedEntry symbols word
  let w ← raiseMarked ((v.pair d).lift fun operands => assigned m.toLibrary op operands.1 operands.2)
  modify fun k => k.write word w

def markedOne (f : OneArgFunction F W) (v : Marked (ExprValue F)) :
    MarkedRun F W (Marked (ExprValue F)) := fun k =>
  .ok ⟨.ofDouble (f.apply v.value.dValue k.world).1, v.marked || f.draws⟩
    { k with world := (f.apply v.value.dValue k.world).2 }

def markedTwo (f : TwoArgFunction F W) (v1 v2 : Marked (ExprValue F)) :
    MarkedRun F W (Marked (ExprValue F)) := fun k =>
  raiseMarked ((Marked.mk () (v1.marked || v2.marked || f.draws)).lift fun _ =>
      (f.apply v1.value v2.value k.world).1)
    { k with world := (f.apply v1.value v2.value k.world).2 }

def markedCommon : MarkedRun F W (Marked (ExprValue F)) := fun k =>
  .ok ⟨.ofType m.toLibrary .unsure, true⟩ { k with called := true }

def tracing : Meaning F W (Marked (ExprValue F)) (Known F W) (Fault × Bool) where
  literal := .clear
  fail fault := (fault, false)
  one := markedOne
  oneCommon _ _ := markedCommon m
  two := markedTwo
  twoCommon _ _ _ := markedCommon m
  three f v1 v2 v3 :=
    raiseMarked (((v1.pair v2).pair v3).lift fun args => f args.1.1 args.1.2 args.2)
  lookUp := markedLookUp m symbols
  entry := markedEntry symbols
  store := markedStore m symbols
  negated v := raiseMarked (v.lift (negated m.toLibrary))
  inverted v := raiseMarked (v.lift (inverted m.toLibrary))
  binary op left d :=
    raiseMarked ((left.pair d).lift fun operands => operate m.toLibrary op operands.1 operands.2)

end Tracing

section Description

/-- From `k` the run returns what `gives` says, or stops as `stops` says. -/
def Describes {Value : Type} (k : Known F W) (run : MarkedRun F W Value)
    (gives : Value → Known F W → Prop) (stops : Bool → Known F W → Prop) : Prop :=
  match run k with
  | .ok v k' => (∀ w l, gives w l ↔ w = v ∧ l = k') ∧ ∀ mark l, ¬ stops mark l
  | .error stop k' => (∀ w l, ¬ gives w l) ∧ ∀ mark l, stops mark l ↔ mark = stop.2 ∧ l = k'

variable {Value Other : Type} {k : Known F W}

theorem describes_returns {run : MarkedRun F W Value} {v : Value} {k' : Known F W}
    (returns : run k = .ok v k') : Describes k run (fun w l => w = v ∧ l = k') fun _ _ => False := by
  unfold Describes
  rw [returns]
  exact ⟨fun _ _ => Iff.rfl, fun _ _ => id⟩

theorem describes_congr {run : MarkedRun F W Value} {gives gives' : Value → Known F W → Prop}
    {stops stops' : Bool → Known F W → Prop} (describes : Describes k run gives stops)
    (same : ∀ v l, gives' v l ↔ gives v l) (stop : ∀ mark l, stops' mark l ↔ stops mark l) :
    Describes k run gives' stops' := by
  have gave : gives' = gives := funext₂ fun v l => propext (same v l)
  have stopped : stops' = stops := funext₂ fun mark l => propext (stop mark l)
  rwa [gave, stopped]

theorem describes_bind {run : MarkedRun F W Value} {next : Value → MarkedRun F W Other}
    {gives : Value → Known F W → Prop} {stops : Bool → Known F W → Prop}
    {gives' : Value → Known F W → Other → Known F W → Prop}
    {stops' : Value → Known F W → Bool → Known F W → Prop} (first : Describes k run gives stops)
    (rest : ∀ v k₁, gives v k₁ → Describes k₁ (next v) (gives' v k₁) (stops' v k₁)) :
    Describes k (run >>= next) (fun r l => ∃ v k₁, gives v k₁ ∧ gives' v k₁ r l)
      (fun mark l => stops mark l ∨ ∃ v k₁, gives v k₁ ∧ stops' v k₁ mark l) := by
  -- the first part either gives one value, and then the second decides, or stops, and then the
  -- second is not reached
  cases outcome : run k with
  | ok v k₁ =>
      unfold Describes at first
      rw [outcome] at first
      obtain ⟨only, never⟩ := first
      have gave : gives v k₁ := (only v k₁).mpr ⟨rfl, rfl⟩
      have step := rest v k₁ gave
      have ran : (run >>= next) k = next v k₁ := bind_of_ok outcome next
      unfold Describes at step ⊢
      rw [ran]
      have here (r : Other) (l : Known F W) :
          (∃ v k₁, gives v k₁ ∧ gives' v k₁ r l) ↔ gives' v k₁ r l := by
        constructor
        · rintro ⟨w, l', given, rest⟩
          obtain ⟨rfl, rfl⟩ := (only w l').mp given
          exact rest
        · exact fun rest => ⟨v, k₁, gave, rest⟩
      have stopped (mark : Bool) (l : Known F W) :
          (stops mark l ∨ ∃ v k₁, gives v k₁ ∧ stops' v k₁ mark l) ↔ stops' v k₁ mark l := by
        constructor
        · rintro (early | ⟨w, l', given, rest⟩)
          · exact (never mark l early).elim
          · obtain ⟨rfl, rfl⟩ := (only w l').mp given
            exact rest
        · exact fun rest => .inr ⟨v, k₁, gave, rest⟩
      simp only [here, stopped]
      exact step
  | error stop k' =>
      unfold Describes at first ⊢
      rw [outcome] at first
      rw [bind_of_error outcome]
      obtain ⟨nothing, stopped⟩ := first
      refine ⟨fun r l ⟨v, k₁, given, _⟩ => nothing v k₁ given, fun mark l => ?_⟩
      rw [← stopped]
      exact or_iff_left fun ⟨v, k₁, given, _⟩ => nothing v k₁ given

theorem describes_raise {Value : Type} (known : Marked Value)
    (f : Value → Except Text (ExprValue F)) :
    Describes k (raiseMarked (known.lift f))
      (fun r l => f known.value = .ok r.value ∧ r.marked = known.marked ∧ l = k)
      (fun mark l => Refused (f known.value) ∧ mark = known.marked ∧ l = k) := by
  unfold Describes Marked.lift
  cases outcome : f known.value with
  | ok v =>
      refine ⟨fun w l => ?_, fun mark l ⟨refused, _⟩ => refused_ok v refused⟩
      obtain ⟨value, marked⟩ := w
      simp only [Except.ok.injEq, Marked.mk.injEq, eq_comm (a := v)]
      tauto
  | error what =>
      constructor
      · rintro w l ⟨absurd, _⟩
        cases absurd
      · exact fun mark l => and_iff_right (refused_error what)

/-- Names that have been come to stay known. -/
theorem name_known (m : Machine F W) (symbols : SymbolTable F) (k : Known F W) (word : Text) :
    ((k.name m symbols word).symbol symbols word).isSome := by
  unfold Known.name
  cases found : k.symbol symbols word with
  | some v => simp [found]
  | none => simp [Known.symbol, Known.write]

theorem write_known {symbols : SymbolTable F} {word name : Text} (v : Marked (ExprValue F))
    (known : (k.symbol symbols name).isSome) : ((k.write word v).symbol symbols name).isSome := by
  unfold Known.symbol Known.write at *
  rw [List.lookup_cons]
  split
  · rfl
  · exact known

theorem name_keeps {m : Machine F W} {symbols : SymbolTable F} {word name : Text}
    (known : (k.symbol symbols name).isSome) :
    ((k.name m symbols word).symbol symbols name).isSome := by
  unfold Known.name
  cases k.symbol symbols word with
  | some v => exact known
  | none => exact write_known _ known

theorem gives_keeps {m : Machine F W} {symbols : SymbolTable F} {name : Text} (t : Tree F W)
    {r : Marked (ExprValue F)} {k k' : Known F W} (known : (k.symbol symbols name).isSome)
    (gives : t.Gives m symbols k r k') : (k'.symbol symbols name).isSome := by
  -- along the tree: a name that is known stays known, since entries are only written
  induction t generalizing k r k' with
  | literal v =>
      obtain ⟨_, rfl⟩ := gives
      exact known
  | fail fault => exact gives.elim
  | one f arg ih =>
      obtain ⟨v, k₁, first, _, rfl⟩ := gives
      have kept := ih known first
      exact kept
  | oneCommon word arg ih =>
      obtain ⟨v, k₁, first, _, rfl⟩ := gives
      have kept := ih known first
      exact kept
  | two f arg1 arg2 ih1 ih2 =>
      obtain ⟨v, k₁, first, w, k₂, second, _, _, rfl⟩ := gives
      have kept := ih2 (ih1 known first) second
      exact kept
  | twoCommon word arg1 arg2 ih1 ih2 =>
      obtain ⟨v, k₁, first, w, k₂, second, _, rfl⟩ := gives
      have kept := ih2 (ih1 known first) second
      exact kept
  | three f arg1 arg2 arg3 ih1 ih2 ih3 =>
      obtain ⟨v, k₁, first, w, k₂, second, x, k₃, third, _, _, rfl⟩ := gives
      exact ih3 (ih2 (ih1 known first) second) third
  | symbol word =>
      obtain ⟨rfl, _⟩ := gives
      exact name_keeps known
  | assign op word rhs ih =>
      obtain ⟨d, k₁, first, v, w, _, _, rfl, _⟩ := gives
      exact write_known _ (ih (name_keeps known) first)
  | negated operand ih =>
      obtain ⟨v, k₁, first, _, _, rfl⟩ := gives
      exact ih known first
  | inverted operand ih =>
      obtain ⟨v, k₁, first, _, _, rfl⟩ := gives
      exact ih known first
  | binary op left right ihLeft ihRight =>
      obtain ⟨v, k₁, first, d, k₂, second, _, _, rfl⟩ := gives
      exact ihRight (ihLeft known first) second

theorem describes_entry {symbols : SymbolTable F} {word : Text}
    (known : (k.symbol symbols word).isSome) :
    Describes k (markedEntry symbols word) (fun r l => l = k ∧ k.entry symbols word = some r)
      fun _ _ => False := by
  obtain ⟨v, found⟩ := Option.isSome_iff_exists.mp known
  have entered : k.entry symbols word = some ⟨v.value, v.marked || k.called⟩ := by
    rw [Known.entry, found]
    rfl
  have returns : markedEntry symbols word k = .ok ⟨v.value, v.marked || k.called⟩ k := by
    rw [markedEntry, entered]
  apply describes_congr (describes_returns returns)
  · intro r l
    rw [entered, Option.some.injEq, and_comm, eq_comm (a := r)]
  · exact fun _ _ => Iff.rfl

theorem describes_store (m : Machine F W) {symbols : SymbolTable F} (op : TokenType) {word : Text}
    (d : Marked (ExprValue F)) (known : (k.symbol symbols word).isSome) :
    Describes k (markedStore m symbols op word d)
      (fun _ l => ∃ v w, k.entry symbols word = some v ∧
        assigned m.toLibrary op v.value d.value = .ok w ∧ l = k.write word ⟨w, v.marked || d.marked⟩)
      (fun mark l => ∃ v, k.entry symbols word = some v ∧
        RefusesAssigned m.toLibrary op v.value d.value ∧ mark = (v.marked || d.marked) ∧ l = k) := by
  have step := describes_bind (describes_entry known) fun v k₁ _ =>
    describes_bind (k := k₁) (describes_raise (v.pair d) fun operands =>
      assigned m.toLibrary op operands.1 operands.2) fun w k₂ _ =>
        describes_returns (show (modify fun k => k.write word w : MarkedRun F W Unit) k₂ =
          .ok ⟨⟩ (k₂.write word w) from rfl)
  apply describes_congr step
  · intro _ l
    constructor
    · rintro ⟨v, w, entered, stored, rfl⟩
      exact ⟨v, k, ⟨rfl, entered⟩, ⟨w, _⟩, k, ⟨stored, rfl, rfl⟩, rfl, rfl⟩
    · rintro ⟨v, _, ⟨rfl, entered⟩, ⟨w, mark⟩, _, ⟨stored, rfl, rfl⟩, _, rfl⟩
      exact ⟨v, w, entered, stored, rfl⟩
  · intro mark l
    constructor
    · rintro ⟨v, entered, refuses, same, rfl⟩
      exact .inr ⟨v, _, ⟨rfl, entered⟩, .inl ⟨(assigned_refused_iff op _ _).mpr refuses, same, rfl⟩⟩
    · rintro (absurd | ⟨v, _, ⟨rfl, entered⟩, ⟨refused, same, rfl⟩ | ⟨_, _, _, absurd⟩⟩)
      · exact absurd.elim
      · exact ⟨v, entered, (assigned_refused_iff op _ _).mp refused, same, rfl⟩
      · exact absurd.elim

theorem describes_throw {Value : Type} (stop : Fault × Bool) :
    Describes k (throw stop : MarkedRun F W Value) (fun _ _ => False)
      fun mark l => mark = stop.2 ∧ l = k :=
  ⟨fun _ _ => id, fun _ _ => Iff.rfl⟩

theorem describes_two (f : TwoArgFunction F W) (v w : Marked (ExprValue F)) :
    Describes k (markedTwo f v w)
      (fun r l => (f.apply v.value w.value k.world).1 = .ok r.value ∧
        r.marked = (v.marked || w.marked || f.draws) ∧
        l = { k with world := (f.apply v.value w.value k.world).2 })
      (fun mark l => Refused (f.apply v.value w.value k.world).1 ∧
        mark = (v.marked || w.marked || f.draws) ∧
        l = { k with world := (f.apply v.value w.value k.world).2 }) := by
  have drawn := describes_raise (k := { k with world := (f.apply v.value w.value k.world).2 })
    (Marked.mk () (v.marked || w.marked || f.draws)) fun _ => (f.apply v.value w.value k.world).1
  exact drawn

theorem describes_common (m : Machine F W) :
    Describes k (markedCommon m)
      (fun r l => r = ⟨.ofType m.toLibrary .unsure, true⟩ ∧ l = { k with called := true })
      fun _ _ => False :=
  describes_returns rfl

theorem describes_lookUp (m : Machine F W) (symbols : SymbolTable F) (word : Text) :
    Describes k (markedLookUp m symbols word) (fun _ l => l = k.name m symbols word)
      fun _ _ => False :=
  describes_congr (describes_returns rfl) (fun _ _ => (and_iff_right rfl).symm) fun _ _ => Iff.rfl

/-- The judgements say what the marked operations do. -/
theorem tree_described (m : Machine F W) (symbols : SymbolTable F) (t : Tree F W) (k : Known F W) :
    Describes k (t.eval (tracing m symbols)) (t.Gives m symbols k) (t.Stops m symbols k) := by
  -- along the tree: each case binds the parts in the order of evaluation, and its last part is
  -- one operation on their values
  induction t generalizing k with
  | literal v => exact describes_returns rfl
  | fail fault => exact describes_throw _
  | one f arg ih =>
      apply describes_congr (describes_bind (ih k) fun v k₁ _ => describes_returns rfl)
      · exact fun _ _ => Iff.rfl
      · exact fun mark l => ⟨.inl, fun stops => stops.elim id fun ⟨_, _, _, absurd⟩ => absurd.elim⟩
  | oneCommon word arg ih =>
      apply describes_congr (describes_bind (ih k) fun v k₁ _ => describes_common m)
      · exact fun _ _ => Iff.rfl
      · exact fun mark l => ⟨.inl, fun stops => stops.elim id fun ⟨_, _, _, absurd⟩ => absurd.elim⟩
  | two f arg1 arg2 ih1 ih2 =>
      apply describes_congr (describes_bind (ih1 k) fun v k₁ _ =>
        describes_bind (ih2 k₁) fun w k₂ _ => describes_two f v w)
      · exact fun _ _ => Iff.rfl
      · exact fun _ _ => Iff.rfl
  | twoCommon word arg1 arg2 ih1 ih2 =>
      apply describes_congr (describes_bind (ih1 k) fun v k₁ _ =>
        describes_bind (ih2 k₁) fun w k₂ _ => describes_common m)
      · exact fun _ _ => Iff.rfl
      · intro mark l
        apply or_congr_right
        exact exists₂_congr fun v k₁ => and_congr_right fun _ =>
          ⟨.inl, fun stops => stops.elim id fun ⟨_, _, _, absurd⟩ => absurd.elim⟩
  | three f arg1 arg2 arg3 ih1 ih2 ih3 =>
      apply describes_congr (describes_bind (ih1 k) fun v k₁ _ =>
        describes_bind (ih2 k₁) fun w k₂ _ => describes_bind (ih3 k₂) fun x k₃ _ =>
          describes_raise ((v.pair w).pair x) fun args => f args.1.1 args.1.2 args.2)
      · exact fun _ _ => Iff.rfl
      · exact fun _ _ => Iff.rfl
  | symbol word =>
      apply describes_congr (describes_bind (describes_lookUp m symbols word) fun _ k₁ named =>
        describes_entry (named ▸ name_known m symbols k word))
      · intro r l
        constructor
        · rintro ⟨rfl, entered⟩
          exact ⟨(), _, rfl, rfl, entered⟩
        · rintro ⟨_, _, rfl, rfl, entered⟩
          exact ⟨rfl, entered⟩
      · exact fun mark l => ⟨False.elim, fun stops => stops.elim id fun ⟨_, _, _, absurd⟩ => absurd⟩
  | assign op word rhs ih =>
      have known : ((k.name m symbols word).symbol symbols word).isSome := name_known m symbols k word
      apply describes_congr (describes_bind (describes_lookUp m symbols word) fun _ k₀ named =>
        describes_bind (ih k₀) fun d k₁ given =>
          describes_bind (describes_store m op d (gives_keeps rhs (named ▸ known) given))
            fun _ k₂ ⟨_, _, _, _, stored⟩ =>
              describes_entry (stored ▸ write_known _ (gives_keeps rhs (named ▸ known) given)))
      · intro r l
        constructor
        · rintro ⟨d, k₁, given, v, w, entered, value, rfl, read⟩
          exact ⟨(), _, rfl, d, k₁, given, (), _, ⟨v, w, entered, value, rfl⟩, rfl, read⟩
        · rintro ⟨_, _, rfl, d, k₁, given, _, _, ⟨v, w, entered, value, rfl⟩, rfl, read⟩
          exact ⟨d, k₁, given, v, w, entered, value, rfl, read⟩
      · intro mark l
        constructor
        · rintro (early | ⟨d, k₁, given, stops⟩)
          · exact .inr ⟨(), _, rfl, .inl early⟩
          · exact .inr ⟨(), _, rfl, .inr ⟨d, k₁, given, .inl stops⟩⟩
        · rintro (absurd | ⟨_, _, rfl, early | ⟨d, k₁, given, stops | ⟨_, _, _, absurd⟩⟩⟩)
          · exact absurd.elim
          · exact .inl early
          · exact .inr ⟨d, k₁, given, stops⟩
          · exact absurd.elim
  | negated operand ih =>
      apply describes_congr (describes_bind (ih k) fun v k₁ _ =>
        describes_raise v (negated m.toLibrary))
      · exact fun _ _ => Iff.rfl
      · intro mark l
        simp only [Tree.Stops, negated_refused_iff]
  | inverted operand ih =>
      apply describes_congr (describes_bind (ih k) fun v k₁ _ =>
        describes_raise v (inverted m.toLibrary))
      · exact fun _ _ => Iff.rfl
      · intro mark l
        simp only [Tree.Stops, inverted_refused_iff]
  | binary op left right ihLeft ihRight =>
      apply describes_congr (describes_bind (ihLeft k) fun v k₁ _ =>
        describes_bind (ihRight k₁) fun d k₂ _ => describes_raise (v.pair d) fun operands =>
          operate m.toLibrary op operands.1 operands.2)
      · exact fun _ _ => Iff.rfl
      · intro mark l
        simp only [Tree.Stops, Marked.pair, operate_refused_iff]

theorem eval_of_gives {m : Machine F W} {symbols : SymbolTable F} {t : Tree F W}
    {r : Marked (ExprValue F)} {k' : Known F W} (gives : t.Gives m symbols k r k') :
    t.eval (tracing m symbols) k = .ok r k' := by
  have described := tree_described m symbols t k
  unfold Describes at described
  cases outcome : t.eval (tracing m symbols) k with
  | ok v l =>
      rw [outcome] at described
      obtain ⟨rfl, rfl⟩ := (described.1 r k').mp gives
      rfl
  | error stop l =>
      rw [outcome] at described
      exact (described.1 r k' gives).elim

theorem eval_of_stops {m : Machine F W} {symbols : SymbolTable F} {t : Tree F W} {mark : Bool}
    {k' : Known F W} (stops : t.Stops m symbols k mark k') :
    ∃ fault, t.eval (tracing m symbols) k = .error (fault, mark) k' := by
  have described := tree_described m symbols t k
  unfold Describes at described
  cases outcome : t.eval (tracing m symbols) k with
  | ok v l =>
      rw [outcome] at described
      exact (described.2 mark k' stops).elim
  | error stop l =>
      rw [outcome] at described
      obtain ⟨rfl, rfl⟩ := (described.2 mark k').mp stops
      exact ⟨stop.1, rfl⟩

theorem gives_of_eval {m : Machine F W} {symbols : SymbolTable F} {t : Tree F W}
    {r : Marked (ExprValue F)} {k' : Known F W} (outcome : t.eval (tracing m symbols) k = .ok r k') :
    t.Gives m symbols k r k' := by
  have described := tree_described m symbols t k
  unfold Describes at described
  rw [outcome] at described
  exact (described.1 r k').mpr ⟨rfl, rfl⟩

theorem stops_of_eval {m : Machine F W} {symbols : SymbolTable F} {t : Tree F W}
    {stop : Fault × Bool} {k' : Known F W} (outcome : t.eval (tracing m symbols) k = .error stop k') :
    t.Stops m symbols k stop.2 k' := by
  have described := tree_described m symbols t k
  unfold Describes at described
  rw [outcome] at described
  exact (described.2 stop.2 k').mpr ⟨rfl, rfl⟩

end Description

/-! Without the marks it is the check. -/

section Erasure

variable {m : Machine F W} {symbols : SymbolTable F}

theorem symbol_write (k : Known F W) (word name : Text) (v : Marked (ExprValue F)) :
    (k.write word v).symbol symbols name =
      if name = word then some v else k.symbol symbols name := by
  unfold Known.symbol Known.write
  by_cases same : name = word
  · simp [same]
  · rw [if_neg same, List.lookup_cons, show (name == word) = false by simpa using same]

def Erased (symbols : SymbolTable F) (k : Known F W) (q : ExprParser F W) : Prop :=
  (∀ word, (k.symbol symbols word).map Marked.value = q.symbols word) ∧ k.world = q.world

def erasedStops (symbols : SymbolTable F) : Stops (Fault × Bool) (Known F W) Stop (ExprParser F W) where
  left _ := False
  right _ := False
  both stop k stop' q := stop' = .fault stop.1 ∧ Erased symbols k q

def ErasedValue (v : Marked (ExprValue F)) (w : ExprValue F) : Prop := v.value = w

theorem raise_erased {Value : Type} (known : Marked Value)
    (f : Value → Except Text (ExprValue F)) :
    Simulates (erasedStops symbols) (Erased symbols) ErasedValue
      (raiseMarked (known.lift f) : MarkedRun F W (Marked (ExprValue F)))
      (raise (f known.value)) := by
  intro k q agree
  unfold Marked.lift
  cases f known.value with
  | ok v => exact ⟨rfl, agree⟩
  | error what => exact Or.inr (Or.inr ⟨rfl, agree⟩)

theorem one_erased (f : OneArgFunction F W) (v : Marked (ExprValue F)) :
    Simulates (erasedStops symbols) (Erased symbols) ErasedValue (markedOne f v)
      (callOne f v.value) := by
  intro k q agree
  have ran : callOne f v.value q = .ok (.ofDouble (f.apply v.value.dValue q.world).1)
    { q with world := (f.apply v.value.dValue q.world).2 } := rfl
  rw [ran, ← agree.2]
  exact ⟨rfl, agree.1, rfl⟩

theorem two_erased (f : TwoArgFunction F W) (v1 v2 : Marked (ExprValue F)) :
    Simulates (erasedStops symbols) (Erased symbols) ErasedValue (markedTwo f v1 v2)
      (callTwo f v1.value v2.value) := by
  intro k q agree
  have ran : callTwo f v1.value v2.value q =
    raise (f.apply v1.value v2.value q.world).1
      { q with world := (f.apply v1.value v2.value q.world).2 } := rfl
  rw [ran, ← agree.2]
  exact raise_erased (Marked.mk () (v1.marked || v2.marked || f.draws))
    (fun _ => (f.apply v1.value v2.value k.world).1)
    { k with world := (f.apply v1.value v2.value k.world).2 } _ ⟨agree.1, rfl⟩

theorem erased_write {k : Known F W} {q : ExprParser F W} (agree : Erased symbols k q) (word : Text)
    (v : Marked (ExprValue F)) :
    Erased symbols (k.write word v) { q with symbols := q.symbols.set word v.value } := by
  refine ⟨fun name => ?_, agree.2⟩
  rw [symbol_write]
  show _ = if name = word then some v.value else q.symbols name
  by_cases same : name = word
  · simp [same]
  · simp [same, agree.1 name]

theorem erased_some {k : Known F W} {q : ExprParser F W} (agree : Erased symbols k q) {word : Text}
    {v : Marked (ExprValue F)} (present : k.symbol symbols word = some v) :
    q.symbols word = some v.value := by
  rw [← agree.1 word, present]
  rfl

theorem erased_none {k : Known F W} {q : ExprParser F W} (agree : Erased symbols k q) {word : Text}
    (absent : k.symbol symbols word = none) : q.symbols word = none := by
  rw [← agree.1 word, absent]
  rfl

theorem lookUp_erased (word : Text) :
    Simulates (erasedStops symbols) (Erased symbols) (fun _ _ => True)
      (markedLookUp m symbols word) (lookUp m word : Run F W Unit) := by
  intro k q agree
  unfold markedLookUp Known.name
  cases found : k.symbol symbols word with
  | some v =>
      rw [lookUp_some m word q v.value (erased_some agree found)]
      exact ⟨trivial, agree⟩
  | none =>
      rw [lookUp_none m word q (erased_none agree found)]
      exact ⟨trivial, erased_write agree word (.clear (.empty m.toLibrary))⟩

theorem entry_erased (word : Text) :
    Simulates (erasedStops symbols) (Erased symbols) ErasedValue (markedEntry symbols word)
      (entry word : Run F W (ExprValue F)) := by
  intro k q agree
  unfold markedEntry Known.entry
  cases found : k.symbol symbols word with
  | some v =>
      rw [entry_some word q v.value (erased_some agree found)]
      exact ⟨rfl, agree⟩
  | none =>
      rw [entry_none word q (erased_none agree found)]
      exact Or.inr (Or.inr ⟨rfl, agree⟩)

theorem store_erased (op : TokenType) (word : Text) (d : Marked (ExprValue F)) :
    Simulates (erasedStops symbols) (Erased symbols) (fun _ _ => True)
      (markedStore m symbols op word d) (store m op word d.value : Run F W Unit) := by
  apply simulates_bind (entry_erased word)
  rintro v _ rfl
  apply simulates_bind (raise_erased (v.pair d) fun operands =>
    assigned m.toLibrary op operands.1 operands.2)
  rintro w _ rfl k q agree
  exact ⟨trivial, erased_write agree word w⟩

theorem erased_related (m : Machine F W) (symbols : SymbolTable F) :
    Related (erasedStops symbols) (Erased symbols) ErasedValue (fun _ => True) (fun _ => True)
      (tracing m symbols) (running m (unsureCalls m)) where
  literal _ := rfl
  fail _ _ _ agree := Or.inr (Or.inr ⟨rfl, agree⟩)
  one f v _ _ erased := erased ▸ one_erased f v
  oneCommon _ _ _ _ := fun _ _ agree => ⟨rfl, agree⟩
  two f v _ w _ _ erased erasedW := erased ▸ erasedW ▸ two_erased f v w
  twoCommon _ _ _ _ _ _ _ := fun _ _ agree => ⟨rfl, agree⟩
  three f v _ w _ x _ erased erasedW erasedX :=
    erased ▸ erasedW ▸ erasedX ▸ raise_erased ((v.pair w).pair x) fun args =>
      f args.1.1 args.1.2 args.2
  lookUp := lookUp_erased
  entry := entry_erased
  store op word d _ erased := erased ▸ store_erased op word d
  negated v _ erased := erased ▸ raise_erased v (negated m.toLibrary)
  inverted v _ erased := erased ▸ raise_erased v (inverted m.toLibrary)
  binary op v _ d _ erased erasedD :=
    erased ▸ erasedD ▸ raise_erased (v.pair d) fun operands =>
      operate m.toLibrary op operands.1 operands.2

/-- Before the program nothing is known but the symbols. -/
def Known.none (world : W) : Known F W := ⟨[], false, world⟩

theorem erased_none_known (p : ExprParser F W) : Erased p.symbols (.none p.world) p := by
  refine ⟨fun word => ?_, rfl⟩
  show ((p.symbols word).map Marked.clear).map Marked.value = p.symbols word
  cases p.symbols word <;> rfl

/-! What the check of a program does, by the judgements. -/

theorem gives_or_stops (m : Machine F W) (symbols : SymbolTable F) (t : Tree F W) (k : Known F W) :
    (∃ r k', t.Gives m symbols k r k') ∨ ∃ mark k', t.Stops m symbols k mark k' := by
  cases outcome : t.eval (tracing m symbols) k with
  | ok r k' => exact .inl ⟨r, k', gives_of_eval outcome⟩
  | error stop k' => exact .inr ⟨stop.2, k', stops_of_eval outcome⟩

variable {fuel : Nat} {p : ExprParser F W}

theorem checked_of_gives {r : Marked (ExprValue F)} {k : Known F W}
    (gives : (readProgram m fuel p.program).Gives m p.symbols (.none p.world) r k) :
    ∃ q, checked m fuel p = .ok r.value q ∧ Erased p.symbols k q := by
  have same := eval_simulates (erased_related m p.symbols) _
    (applies_any (readProgram m fuel p.program)) (.none p.world) (checking p) (erased_none_known p)
  rw [eval_of_gives gives] at same
  unfold checked
  cases outcome : (readProgram m fuel p.program).eval (running m (unsureCalls m)) (checking p) with
  | ok v q =>
      rw [outcome] at same
      obtain ⟨rfl, agree⟩ := same
      exact ⟨q, rfl, agree⟩
  | error stop q =>
      rw [outcome] at same
      exact same.elim

theorem checked_of_stops {mark : Bool} {k : Known F W}
    (stops : (readProgram m fuel p.program).Stops m p.symbols (.none p.world) mark k) :
    ∃ fault q, (readProgram m fuel p.program).eval (tracing m p.symbols) (.none p.world) =
        .error (fault, mark) k ∧
      checked m fuel p = .error (.fault fault) q ∧ Erased p.symbols k q := by
  obtain ⟨fault, traced⟩ := eval_of_stops stops
  have same := eval_simulates (erased_related m p.symbols) _
    (applies_any (readProgram m fuel p.program)) (.none p.world) (checking p) (erased_none_known p)
  rw [traced] at same
  unfold checked
  cases outcome : (readProgram m fuel p.program).eval (running m (unsureCalls m)) (checking p) with
  | ok v q =>
      rw [outcome] at same
      exact same.elim
  | error stop q =>
      rw [outcome] at same
      obtain absurd | absurd | ⟨rfl, agree⟩ := same
      · exact absurd.elim
      · exact absurd.elim
      · exact ⟨fault, q, traced, rfl, agree⟩

/-- `Parse` returns for the programs that come to no operation that refuses its operands. -/
theorem accepts_iff (m : Machine F W) (calls : Calls F W) (fuel : Nat) (p : ExprParser F W) :
    Accepts m calls fuel p ↔
      ∀ mark k, ¬ (readProgram m fuel p.program).Stops m p.symbols (.none p.world) mark k := by
  constructor
  · rintro ⟨v, r, accepted⟩ mark k stops
    obtain ⟨fault, q, _, outcome, _⟩ := checked_of_stops stops
    obtain ⟨scan, ran, _⟩ := parse_error calls (nofun : Stop.fault fault ≠ .called) outcome
    rw [ran] at accepted
    cases accepted
  · intro never
    rcases gives_or_stops m p.symbols (readProgram m fuel p.program) (.none p.world) with
      ⟨r, k, gives⟩ | ⟨mark, k, stops⟩
    · obtain ⟨q, outcome, _⟩ := checked_of_gives gives
      obtain ⟨scan, ran⟩ := parse_ok calls outcome
      exact ⟨r.value, _, ran⟩
    · exact (never mark k stops).elim

end Erasure

end EChainLib.Expr
