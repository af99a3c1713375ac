import Mathlib
import EChainLib.Support.Simulation
import EChainLib.Expr.Parser

/-! What a program says, apart from what evaluating it does: the tree of its
operations. A text that is not a program gives the tree of the operations that precede
the exception, which stands in the tree where it is thrown. -/

namespace EChainLib.Expr

open EChainLib.Effects (Change Within within_pure within_throw within_bind)
open EChainLib.Simulation

variable {F W : Type}

inductive Tree (F W : Type) where
  | literal (v : ExprValue F)
  | fail (fault : Fault)
  | one (f : OneArgFunction F W) (arg : Tree F W)
  | oneCommon (word : Text) (arg : Tree F W)
  | two (f : TwoArgFunction F W) (arg1 arg2 : Tree F W)
  | twoCommon (word : Text) (arg1 arg2 : Tree F W)
  | three (f : ExprValue F → ExprValue F → ExprValue F → Except Text (ExprValue F))
      (arg1 arg2 arg3 : Tree F W)
  | symbol (word : Text)
  | assign (op : TokenType) (word : Text) (rhs : Tree F W)
  | negated (operand : Tree F W)
  | inverted (operand : Tree F W)
  | binary (op : TokenType) (left right : Tree F W)

/-- What the operations do, on values `V` and states `S`. -/
structure Meaning (F W V S E : Type) where
  literal : ExprValue F → V
  fail : Fault → E
  one : OneArgFunction F W → V → EStateM E S V
  oneCommon : Text → V → EStateM E S V
  two : TwoArgFunction F W → V → V → EStateM E S V
  twoCommon : Text → V → V → EStateM E S V
  three : (ExprValue F → ExprValue F → ExprValue F → Except Text (ExprValue F)) →
    V → V → V → EStateM E S V
  lookUp : Text → EStateM E S Unit
  entry : Text → EStateM E S V
  store : TokenType → Text → V → EStateM E S Unit
  negated : V → EStateM E S V
  inverted : V → EStateM E S V
  binary : TokenType → V → V → EStateM E S V

def Tree.eval {V S E : Type} (means : Meaning F W V S E) : Tree F W → EStateM E S V
  | .literal v => pure (means.literal v)
  | .fail fault => throw (means.fail fault)
  | .one f arg => do
      let v ← arg.eval means
      means.one f v
  | .oneCommon word arg => do
      let v ← arg.eval means
      means.oneCommon word v
  | .two f arg1 arg2 => do
      let v1 ← arg1.eval means
      let v2 ← arg2.eval means
      means.two f v1 v2
  | .twoCommon word arg1 arg2 => do
      let v1 ← arg1.eval means
      let v2 ← arg2.eval means
      means.twoCommon word v1 v2
  | .three f arg1 arg2 arg3 => do
      let v1 ← arg1.eval means
      let v2 ← arg2.eval means
      let v3 ← arg3.eval means
      means.three f v1 v2 v3
  | .symbol word => do
      means.lookUp word
      means.entry word
  | .assign op word rhs => do
      means.lookUp word
      let d ← rhs.eval means
      means.store op word d
      means.entry word
  | .negated operand => do
      let v ← operand.eval means
      means.negated v
  | .inverted operand => do
      let v ← operand.eval means
      means.inverted v
  | .binary op left right => do
      let v ← left.eval means
      let d ← right.eval means
      means.binary op v d

/-! Two meanings whose operations are related run related trees. -/

/-- The built-in functions that a tree applies. -/
def Tree.Applies (ones : OneArgFunction F W → Prop) (twos : TwoArgFunction F W → Prop) :
    Tree F W → Prop
  | .literal _ => True
  | .fail _ => True
  | .one f arg => ones f ∧ arg.Applies ones twos
  | .oneCommon _ arg => arg.Applies ones twos
  | .two f arg1 arg2 => twos f ∧ arg1.Applies ones twos ∧ arg2.Applies ones twos
  | .twoCommon _ arg1 arg2 => arg1.Applies ones twos ∧ arg2.Applies ones twos
  | .three _ arg1 arg2 arg3 =>
      arg1.Applies ones twos ∧ arg2.Applies ones twos ∧ arg3.Applies ones twos
  | .symbol _ => True
  | .assign _ _ rhs => rhs.Applies ones twos
  | .negated operand => operand.Applies ones twos
  | .inverted operand => operand.Applies ones twos
  | .binary _ left right => left.Applies ones twos ∧ right.Applies ones twos

theorem applies_any (t : Tree F W) : t.Applies (fun _ => True) fun _ => True := by
  induction t <;> simp_all [Tree.Applies]

section Related

variable {V S E V' S' E' : Type}

structure Related (stops : Stops E S E' S') (states : S → S' → Prop) (values : V → V' → Prop)
    (ones : OneArgFunction F W → Prop) (twos : TwoArgFunction F W → Prop)
    (means : Meaning F W V S E) (means' : Meaning F W V' S' E') : Prop where
  literal : ∀ v, values (means.literal v) (means'.literal v)
  fail : ∀ fault s s', states s s' → stops.left (means.fail fault) ∨
    stops.right (means'.fail fault) ∨ stops.both (means.fail fault) s (means'.fail fault) s'
  one : ∀ f v v', ones f → values v v' →
    Simulates stops states values (means.one f v) (means'.one f v')
  oneCommon : ∀ word v v', values v v' →
    Simulates stops states values (means.oneCommon word v) (means'.oneCommon word v')
  two : ∀ f v v' w w', twos f → values v v' → values w w' →
    Simulates stops states values (means.two f v w) (means'.two f v' w')
  twoCommon : ∀ word v v' w w', values v v' → values w w' →
    Simulates stops states values (means.twoCommon word v w) (means'.twoCommon word v' w')
  three : ∀ f v v' w w' x x', values v v' → values w w' → values x x' →
    Simulates stops states values (means.three f v w x) (means'.three f v' w' x')
  lookUp : ∀ word, Simulates stops states (fun _ _ => True) (means.lookUp word)
    (means'.lookUp word)
  entry : ∀ word, Simulates stops states values (means.entry word) (means'.entry word)
  store : ∀ op word d d', values d d' →
    Simulates stops states (fun _ _ => True) (means.store op word d) (means'.store op word d')
  negated : ∀ v v', values v v' →
    Simulates stops states values (means.negated v) (means'.negated v')
  inverted : ∀ v v', values v v' →
    Simulates stops states values (means.inverted v) (means'.inverted v')
  binary : ∀ op v v' d d', values v v' → values d d' →
    Simulates stops states values (means.binary op v d) (means'.binary op v' d')

variable {stops : Stops E S E' S'} {states : S → S' → Prop} {values : V → V' → Prop}
  {ones : OneArgFunction F W → Prop} {twos : TwoArgFunction F W → Prop}
  {means : Meaning F W V S E} {means' : Meaning F W V' S' E'}

theorem eval_simulates (related : Related stops states values ones twos means means')
    (t : Tree F W) (applies : t.Applies ones twos) :
    Simulates stops states values (t.eval means) (t.eval means') := by
  -- along the tree: the parts agree by induction, and the operation on them by what is related
  induction t with
  | literal v => exact simulates_pure (related.literal v)
  | fail fault => exact simulates_throw (related.fail fault)
  | one f arg ih =>
      apply simulates_bind (ih applies.2)
      intro v v' agree
      exact related.one f v v' applies.1 agree
  | oneCommon word arg ih =>
      apply simulates_bind (ih applies)
      intro v v' agree
      exact related.oneCommon word v v' agree
  | two f arg1 arg2 ih1 ih2 =>
      apply simulates_bind (ih1 applies.2.1)
      intro v v' agree
      apply simulates_bind (ih2 applies.2.2)
      intro w w' agreeW
      exact related.two f v v' w w' applies.1 agree agreeW
  | twoCommon word arg1 arg2 ih1 ih2 =>
      apply simulates_bind (ih1 applies.1)
      intro v v' agree
      apply simulates_bind (ih2 applies.2)
      intro w w' agreeW
      exact related.twoCommon word v v' w w' agree agreeW
  | three f arg1 arg2 arg3 ih1 ih2 ih3 =>
      apply simulates_bind (ih1 applies.1)
      intro v v' agree
      apply simulates_bind (ih2 applies.2.1)
      intro w w' agreeW
      apply simulates_bind (ih3 applies.2.2)
      intro x x' agreeX
      exact related.three f v v' w w' x x' agree agreeW agreeX
  | symbol word =>
      apply simulates_bind (related.lookUp word)
      intro _ _ _
      exact related.entry word
  | assign op word rhs ih =>
      apply simulates_bind (related.lookUp word)
      intro _ _ _
      apply simulates_bind (ih applies)
      intro d d' agree
      apply simulates_bind (related.store op word d d' agree)
      intro _ _ _
      exact related.entry word
  | negated operand ih =>
      apply simulates_bind (ih applies)
      intro v v' agree
      exact related.negated v v' agree
  | inverted operand ih =>
      apply simulates_bind (ih applies)
      intro v v' agree
      exact related.inverted v v' agree
  | binary op left right ihLeft ihRight =>
      apply simulates_bind (ihLeft applies.1)
      intro v v' agree
      apply simulates_bind (ihRight applies.2)
      intro d d' agreeD
      exact related.binary op v v' d d' agree agreeD

end Related

/-! What every operation keeps. -/

section Within

variable {V S E : Type}

structure Steps (change : Change S) (ones : OneArgFunction F W → Prop)
    (twos : TwoArgFunction F W → Prop) (means : Meaning F W V S E) : Prop where
  one : ∀ f v, ones f → Within change (means.one f v)
  oneCommon : ∀ word v, Within change (means.oneCommon word v)
  two : ∀ f v w, twos f → Within change (means.two f v w)
  twoCommon : ∀ word v w, Within change (means.twoCommon word v w)
  three : ∀ f v w x, Within change (means.three f v w x)
  lookUp : ∀ word, Within change (means.lookUp word)
  entry : ∀ word, Within change (means.entry word)
  store : ∀ op word d, Within change (means.store op word d)
  negated : ∀ v, Within change (means.negated v)
  inverted : ∀ v, Within change (means.inverted v)
  binary : ∀ op v d, Within change (means.binary op v d)

variable {change : Change S} {ones : OneArgFunction F W → Prop} {twos : TwoArgFunction F W → Prop}
  {means : Meaning F W V S E}

theorem eval_within (steps : Steps change ones twos means) (t : Tree F W)
    (applies : t.Applies ones twos) : Within change (t.eval means) := by
  induction t with
  | literal v => exact within_pure _
  | fail fault => exact within_throw _
  | one f arg ih => exact within_bind (ih applies.2) fun v => steps.one f v applies.1
  | oneCommon word arg ih => exact within_bind (ih applies) fun v => steps.oneCommon word v
  | two f arg1 arg2 ih1 ih2 =>
      exact within_bind (ih1 applies.2.1) fun v => within_bind (ih2 applies.2.2) fun w =>
        steps.two f v w applies.1
  | twoCommon word arg1 arg2 ih1 ih2 =>
      exact within_bind (ih1 applies.1) fun v => within_bind (ih2 applies.2) fun w =>
        steps.twoCommon word v w
  | three f arg1 arg2 arg3 ih1 ih2 ih3 =>
      exact within_bind (ih1 applies.1) fun v => within_bind (ih2 applies.2.1) fun w =>
        within_bind (ih3 applies.2.2) fun x => steps.three f v w x
  | symbol word => exact within_bind (steps.lookUp word) fun _ => steps.entry word
  | assign op word rhs ih =>
      exact within_bind (steps.lookUp word) fun _ => within_bind (ih applies) fun d =>
        within_bind (steps.store op word d) fun _ => steps.entry word
  | negated operand ih => exact within_bind (ih applies) fun v => steps.negated v
  | inverted operand ih => exact within_bind (ih applies) fun v => steps.inverted v
  | binary op left right ihLeft ihRight =>
      exact within_bind (ihLeft applies.1) fun v => within_bind (ihRight applies.2) fun d =>
        steps.binary op v d

end Within

end EChainLib.Expr
