import Mathlib
import EChainLib.Expr.Check
import EChainLib.Expr.Operators

/-! What the built-in functions see of their arguments. A function of one argument reads
the `double` field, whatever the tag; three of two arguments refuse integers. -/

namespace EChainLib.Expr

open EChainLib.Effects (bind_of_ok)

variable {F W : Type}

/-- The arguments up to the `)`, each an `Expression(true)`, and the parser behind them. -/
inductive ReadsArguments (m : Machine F W) (expression : Run F W (ExprValue F)) :
    ExprParser F W → List (ExprValue F) → ExprParser F W → Prop
  | last (p q : ExprParser F W) (v : ExprValue F) (behind : Scanner F) :
      expression p = .ok v q → closing m q.scan = .ok behind →
        ReadsArguments m expression p [v] { q with scan := behind }
  | more (p q r : ExprParser F W) (v : ExprValue F) (rest : List (ExprValue F)) (behind : Scanner F) :
      expression p = .ok v q → wanted .comma q.scan = .ok behind →
        ReadsArguments m expression { q with scan := behind } rest r →
          ReadsArguments m expression p (v :: rest) r

/-- A built-in function and as many arguments as it has. -/
def Callee.Takes : Callee F W → List (ExprValue F) → Prop
  | .one _, [_] => True
  | .two _, [_, _] => True
  | .three _, [_, _, _] => True
  | _, _ => False

def Callee.applied : Callee F W → List (ExprValue F) → Run F W (ExprValue F)
  | .one f, [v] => callOne f v
  | .two f, [v1, v2] => callTwo f v1 v2
  | .three f, [v1, v2, v3] => raise (f v1 v2 v3)
  | _, _ => throw (.fault .undefined)

/-- The same number as a NUMBER. -/
def ExprValue.asNumber (lib : Library F) (v : ExprValue F) : ExprValue F := .ofDouble (v.number lib)

/-- The same number in the same state, or the same exception. -/
def SameOutcome (lib : Library F) : EStateM.Result Stop (ExprParser F W) (ExprValue F) →
    EStateM.Result Stop (ExprParser F W) (ExprValue F) → Prop
  | .ok v q, .ok w r => v.isNumeric ∧ w.isNumeric ∧ v.number lib = w.number lib ∧ q = r
  | .error stop q, .error stop' r => stop = stop' ∧ q = r
  | _, _ => False

/-- The same run time with other library functions and conversions. -/
def Machine.withFunctions (m : Machine F W) (library : Library F) : Machine F W :=
  { m with
    toInt := library.toInt
    toInt64 := library.toInt64
    fabs := library.fabs
    acos := library.acos
    asin := library.asin
    atan := library.atan
    atanh := library.atanh
    ceil := library.ceil
    cos := library.cos
    cosh := library.cosh
    exp := library.exp
    floor := library.floor
    log := library.log
    log10 := library.log10
    sin := library.sin
    sinh := library.sinh
    sqrt := library.sqrt
    tan := library.tan
    tanh := library.tanh
    fmod := library.fmod
    pow := library.pow }

/-- A function of one argument finds the number in the `double` field; `mod`, `pow` and
`roll` have NUMBERs only. -/
def ArgumentsFit (m : Machine F W) (word : Text) (args : List (ExprValue F)) : Prop :=
  match callee m word with
  | .one _ => ∀ v ∈ args, v.dValue = v.number m.toLibrary
  | .two _ => word = "min".toList ∨ word = "max".toList ∨ ∀ v ∈ args, v.type = .number
  | _ => True

section Calls

variable {m : Machine F W} {calls : Calls F W} {expression : Run F W (ExprValue F)}

theorem closed_ok (q : ExprParser F W) (behind : Scanner F)
    (closes : closing m q.scan = .ok behind) : closed m q = .ok () { q with scan := behind } :=
  scanning_ok (closing m) q behind closes

theorem want_ok (q : ExprParser F W) (type : TokenType) (behind : Scanner F)
    (there : wanted type q.scan = .ok behind) :
    (want type : Run F W Unit) q = .ok () { q with scan := behind } :=
  scanning_ok (wanted type) q behind there

theorem functionCall_applied (word : Text) (args : List (ExprValue F)) {p q : ExprParser F W}
    (takes : (callee m word).Takes args) (read : ReadsArguments m expression p args q) :
    functionCall m calls expression word p = (callee m word).applied args q := by
  unfold functionCall
  cases found : callee m word with
  | one f =>
      rw [found] at takes
      match args, takes, read with
      | [v], _, .last _ q _ behind returned closes =>
          simp only
          rw [bind_of_ok returned, bind_of_ok (closed_ok q behind closes)]
          rfl
      | [v], _, .more _ _ _ _ _ _ _ _ rest => cases rest
  | two f =>
      rw [found] at takes
      match args, takes, read with
      | [v1, v2], _, .more _ q1 _ _ _ comma returned separated
          (.last _ q2 _ behind returned2 closes) =>
          simp only
          rw [bind_of_ok returned, bind_of_ok (want_ok q1 .comma comma separated),
            bind_of_ok returned2, bind_of_ok (closed_ok q2 behind closes)]
          rfl
      | [v1, v2], _, .more _ _ _ _ _ _ _ _ (.more _ _ _ _ _ _ _ _ rest) => cases rest
  | three f =>
      rw [found] at takes
      match args, takes, read with
      | [v1, v2, v3], _, .more _ q1 _ _ _ comma returned separated
          (.more _ q2 _ _ _ comma2 returned2 separated2 (.last _ q3 _ behind returned3 closes)) =>
          simp only
          rw [bind_of_ok returned, bind_of_ok (want_ok q1 .comma comma separated),
            bind_of_ok returned2, bind_of_ok (want_ok q2 .comma comma2 separated2),
            bind_of_ok returned3, bind_of_ok (closed_ok q3 behind closes)]
          rfl
      | [v1, v2, v3], _, .more _ _ _ _ _ _ _ _ (.more _ _ _ _ _ _ _ _ (.more _ _ _ _ _ _ _ _ rest)) =>
          cases rest
  | oneCommon =>
      rw [found] at takes
      exact takes.elim
  | twoCommon =>
      rw [found] at takes
      exact takes.elim
  | missing =>
      rw [found] at takes
      exact takes.elim

/-! The names. -/

theorem callee_one (word : Text) (f : OneArgFunction F W) (found : callee m word = .one f) :
    (oneArgumentFunctions m).lookup word = some f := by
  unfold callee at found
  split at found
  · cases found
    assumption
  · split at found
    · cases found
    · split at found
      · cases found
      · split at found
        · cases found
        · split at found <;> cases found

theorem callee_two (word : Text) (f : TwoArgFunction F W) (found : callee m word = .two f) :
    (twoArgumentFunctions m).lookup word = some f := by
  unfold callee at found
  split at found
  · cases found
  · split at found
    · cases found
    · split at found
      · cases found
        assumption
      · split at found
        · cases found
        · split at found <;> cases found

theorem callee_three (word : Text)
    (f : ExprValue F → ExprValue F → ExprValue F → Except Text (ExprValue F))
    (found : callee m word = .three f) : f = doIf m := by
  unfold callee at found
  split at found
  · cases found
  · split at found
    · cases found
    · split at found
      · cases found
      · split at found
        · cases found
        · split at found
          · rename_i named
            cases found
            rw [threeArgumentFunctions, List.lookup_cons] at named
            split at named <;> cases named
            rfl
          · cases found

theorem twoArgument_named (word : Text) (f : TwoArgFunction F W)
    (found : (twoArgumentFunctions m).lookup word = some f) :
    (word = "min".toList ∧ f = .plain (doMin m)) ∨ (word = "max".toList ∧ f = .plain (doMax m)) ∨
      (word ≠ "min".toList ∧ word ≠ "max".toList ∧
        (f = .plain (doFmod m) ∨ f = .plain (doPow m) ∨ f = .random (doRoll m))) := by
  by_cases least : word = "min".toList
  · subst least
    exact Or.inl ⟨rfl, (Option.some.inj found).symm⟩
  · by_cases greatest : word = "max".toList
    · subst greatest
      exact Or.inr (Or.inl ⟨rfl, (Option.some.inj found).symm⟩)
    · refine Or.inr (Or.inr ⟨least, greatest, ?_⟩)
      simp only [twoArgumentFunctions, List.lookup_cons, beq_eq_false_iff_ne.mpr least,
        beq_eq_false_iff_ne.mpr greatest] at found
      split at found
      · exact Or.inl (Option.some.inj found).symm
      · split at found
        · exact Or.inr (Or.inl (Option.some.inj found).symm)
        · split at found
          · exact Or.inr (Or.inr (Option.some.inj found).symm)
          · cases found

end Calls

/-! Numbers. -/

section Numbers

variable {m : Machine ℚ W} (exact : Exact m.toLibrary)

theorem asNumber_of_number (lib : Library F) (v : ExprValue F) (number : v.type = .number) :
    (v.asNumber lib).dValue = v.dValue := by
  simp [ExprValue.asNumber, ExprValue.number, ExprValue.ofDouble, number]

/-- A comparison sees the numbers. -/
theorem compare_numbers (onDouble : ℚ → ℚ → Bool) {onInt : Int64 → Int64 → Bool}
    {onString : Text → Text → Bool}
    (same : ∀ i j, onInt i j = onDouble (m.fromInt i) (m.fromInt j)) (a b : ExprValue ℚ)
    (left : a.isNumeric) (right : b.isNumeric) :
    ExprValue.compare m.toLibrary onDouble onInt onString a b =
      .ok (.ofBool m.toLibrary (onDouble (a.number m.toLibrary) (b.number m.toLibrary))) := by
  rcases left with left | left <;> rcases right with right | right <;>
    simp [ExprValue.compare, Unsure, ExprValue.number, left, right, same]

include exact

theorem lt_same (i j : Int64) : decide (i < j) = m.lt (m.fromInt i) (m.fromInt j) := by
  rw [exact.lt, exact.fromInt, exact.fromInt]
  exact decide_eq_decide.mpr (Int64.lt_iff_toInt_lt.trans Int.cast_lt.symm)

theorem lt_numbers (a b : ExprValue ℚ) (left : a.isNumeric) (right : b.isNumeric) :
    a.lt m.toLibrary b =
      .ok (.ofBool m.toLibrary (m.lt (a.number m.toLibrary) (b.number m.toLibrary))) :=
  compare_numbers m.lt (lt_same exact) a b left right

theorem gt_numbers (a b : ExprValue ℚ) (left : a.isNumeric) (right : b.isNumeric) :
    a.gt m.toLibrary b =
      .ok (.ofBool m.toLibrary (m.lt (b.number m.toLibrary) (a.number m.toLibrary))) :=
  compare_numbers (fun a b => m.lt b a) (fun i j => lt_same exact j i) a b left right

omit exact in
theorem ne_zero_number (a : ExprValue ℚ) (numeric : a.isNumeric) :
    a.ne m.toLibrary (.ofDouble m.zero) =
      .ok (.ofBool m.toLibrary (!m.eq (a.number m.toLibrary) m.zero)) := by
  rcases numeric with type | type <;>
    simp [ExprValue.ne, ExprValue.compare, Unsure, ExprValue.number, ExprValue.ofDouble, type]

theorem min_seen (a b : ExprValue ℚ) (left : a.isNumeric) (right : b.isNumeric) :
    doMin m a b = .ok (if m.lt (a.number m.toLibrary) (b.number m.toLibrary) then a else b) := by
  rw [doMin, lt_numbers exact a b left right]
  cases m.lt (a.number m.toLibrary) (b.number m.toLibrary) <;> rfl

theorem max_seen (a b : ExprValue ℚ) (left : a.isNumeric) (right : b.isNumeric) :
    doMax m a b = .ok (if m.lt (b.number m.toLibrary) (a.number m.toLibrary) then a else b) := by
  rw [doMax, gt_numbers exact a b left right]
  cases m.lt (b.number m.toLibrary) (a.number m.toLibrary) <;> rfl

omit exact in
theorem if_seen (a b c : ExprValue ℚ) (numeric : a.isNumeric) :
    doIf m a b c = .ok (if m.eq (a.number m.toLibrary) m.zero then c else b) := by
  rw [doIf, ne_zero_number a numeric]
  cases m.eq (a.number m.toLibrary) m.zero <;> rfl

end Numbers


/-! Every interpretation of the library functions. -/

section Interpretations

variable {m : Machine ℚ W} {calls : Calls ℚ W} {expression : Run ℚ W (ExprValue ℚ)}

theorem reads_withFunctions (library : Library ℚ) {p q : ExprParser ℚ W}
    {args : List (ExprValue ℚ)} (read : ReadsArguments m expression p args q) :
    ReadsArguments (m.withFunctions library) expression p args q := by
  induction read with
  | last p q v behind returned closes => exact .last p q v behind returned closes
  | more p q r v rest behind returned separated _ ih =>
      exact .more p q r v rest behind returned separated ih

theorem exact_withFunctions (exact : Exact m.toLibrary) (library : Library ℚ) :
    Exact (m.withFunctions library).toLibrary :=
  ⟨exact.zero, exact.one, exact.fromInt, exact.add, exact.sub, exact.eq, exact.lt, exact.le⟩

theorem lookup_isSome_of_keys {α β γ : Type} [BEq α] (key : α) :
    ∀ (entries : List (α × β)) (others : List (α × γ)),
      entries.map Prod.fst = others.map Prod.fst →
        (entries.lookup key).isSome = (others.lookup key).isSome
  | [], [], _ => rfl
  | (k, _) :: entries, (k', _) :: others, keys => by
      obtain ⟨same, rest⟩ := List.cons.inj keys
      cases (same : k = k')
      rw [List.lookup_cons, List.lookup_cons]
      cases key == k with
      | true => rfl
      | false => exact lookup_isSome_of_keys key entries others rest

theorem takes_one (f : OneArgFunction F W) (args : List (ExprValue F)) :
    (Callee.one f).Takes args ↔ args.length = 1 := by
  rcases args with _ | ⟨_, _ | _⟩ <;> simp [Callee.Takes]

theorem takes_two (f : TwoArgFunction F W) (args : List (ExprValue F)) :
    (Callee.two f).Takes args ↔ args.length = 2 := by
  rcases args with _ | ⟨_, _ | ⟨_, _ | _⟩⟩ <;> simp [Callee.Takes]

theorem takes_three (f : ExprValue F → ExprValue F → ExprValue F → Except Text (ExprValue F))
    (args : List (ExprValue F)) : (Callee.three f : Callee F W).Takes args ↔ args.length = 3 := by
  rcases args with _ | ⟨_, _ | ⟨_, _ | ⟨_, _ | _⟩⟩⟩ <;> simp [Callee.Takes]

/-- Which arguments a name takes depends on the maps' keys only. -/
theorem takes_iff (m : Machine F W) (word : Text) (args : List (ExprValue F)) :
    (callee m word).Takes args ↔
      if ((oneArgumentFunctions m).lookup word).isSome then args.length = 1
      else if m.oneCommon word then False
      else if ((twoArgumentFunctions m).lookup word).isSome then args.length = 2
      else if m.twoCommon word then False
      else ((threeArgumentFunctions m).lookup word).isSome ∧ args.length = 3 := by
  unfold callee
  cases (oneArgumentFunctions m).lookup word with
  | some f => exact takes_one f args
  | none =>
      by_cases common : m.oneCommon word
      · simp [common, Callee.Takes]
      · cases (twoArgumentFunctions m).lookup word with
        | some f => simpa [common] using takes_two f args
        | none =>
            by_cases common_two : m.twoCommon word
            · simp [common, common_two, Callee.Takes]
            · cases (threeArgumentFunctions m).lookup word with
              | some f => simpa [common, common_two] using takes_three f args
              | none => simp [common, common_two, Callee.Takes]

/-- The names stand for functions of the same kind. -/
theorem takes_withFunctions (library : Library ℚ) (word : Text) (args : List (ExprValue ℚ)) :
    (callee (m.withFunctions library) word).Takes args ↔ (callee m word).Takes args := by
  rw [takes_iff, takes_iff,
    lookup_isSome_of_keys word (oneArgumentFunctions (m.withFunctions library))
      (oneArgumentFunctions m) rfl,
    lookup_isSome_of_keys word (twoArgumentFunctions (m.withFunctions library))
      (twoArgumentFunctions m) rfl,
    lookup_isSome_of_keys word (threeArgumentFunctions (m.withFunctions library))
      (threeArgumentFunctions m) rfl]
  rfl

theorem getrandom_zero (m : Machine F W) (world : W) : getrandom m 0 world = (0, world) := rfl

/-- Functions that tell `n` from every other number. -/
def singled (library : Library ℚ) (n : ℚ) : Library ℚ :=
  { library with
    toInt := fun d => if d = n then 100 else 0
    toInt64 := fun _ => 1
    fabs := mark
    acos := mark
    asin := mark
    atan := mark
    atanh := mark
    ceil := mark
    cos := mark
    cosh := mark
    exp := mark
    floor := mark
    log := mark
    log10 := mark
    sin := mark
    sinh := mark
    sqrt := mark
    tan := mark
    tanh := mark }
where
  mark (d : ℚ) : ℚ := if d = n then 1 else 0

theorem singled_functions (n : ℚ) :
    ∀ entry ∈ oneArgumentFunctions (m.withFunctions (singled m.toLibrary n)),
      entry.2 = .plain (singled.mark n) ∨
        entry.2 = .plain (doInt (m.withFunctions (singled m.toLibrary n))) ∨
          entry.2 = .random (doRandom (m.withFunctions (singled m.toLibrary n))) ∨
            entry.2 = .random (doPercent (m.withFunctions (singled m.toLibrary n))) := by
  simp [oneArgumentFunctions, Machine.withFunctions, singled]

/-- Under them every function of one argument tells `n` from other numbers. -/
theorem singled_tells (exact : Exact m.toLibrary) (n d : ℚ) (world : W) (word : Text)
    (f : OneArgFunction ℚ W)
    (found : (oneArgumentFunctions (m.withFunctions (singled m.toLibrary n))).lookup word = some f)
    (same : (f.apply d world).1 = (f.apply n world).1) : d = n := by
  by_contra other
  obtain ⟨before, behind, entries, _⟩ := List.lookup_eq_some_iff.mp found
  have listed : (word, f) ∈ oneArgumentFunctions (m.withFunctions (singled m.toLibrary n)) := by
    rw [entries]
    exact List.mem_append_right _ List.mem_cons_self
  have there : (m.withFunctions (singled m.toLibrary n)).toInt n = 100 := if_pos rfl
  have elsewhere : (m.withFunctions (singled m.toLibrary n)).toInt d = 0 := if_neg other
  have positive : (0 : Int64) < 100 := by decide
  have integers := (exact_withFunctions exact (singled m.toLibrary n)).fromInt
  rcases singled_functions n _ listed with rfl | rfl | rfl | rfl
  · simp only [OneArgFunction.apply, singled.mark, other, if_true, if_false] at same
    norm_num at same
  · simp only [OneArgFunction.apply, doInt, there, elsewhere, integers] at same
    norm_num at same
    exact absurd same (by decide)
  -- the modulus is 100 at `n` and 0 elsewhere, where nothing is drawn
  · have drawn : (getrandom (m.withFunctions (singled m.toLibrary n)) 100 world).1 = 1 := rfl
    simp only [OneArgFunction.apply, doRandom, there, elsewhere, drawn, getrandom_zero,
      integers] at same
    norm_num at same
    exact absurd same (by decide)
  · have zero := (exact_withFunctions exact (singled m.toLibrary n)).zero
    have one := (exact_withFunctions exact (singled m.toLibrary n)).one
    simp only [OneArgFunction.apply, doPercent, there, elsewhere] at same
    rw [show (percent (m.withFunctions (singled m.toLibrary n)) 0 world).1 = false from rfl,
      show (percent (m.withFunctions (singled m.toLibrary n)) 100 world).1 = true from rfl,
      if_neg Bool.false_ne_true, if_pos rfl, zero, one] at same
    exact zero_ne_one same

/-! The calls. -/

theorem one_seen (lib : Library ℚ) (f : OneArgFunction ℚ W) (v : ExprValue ℚ) (q : ExprParser ℚ W)
    (held : v.dValue = v.number lib) :
    SameOutcome lib (callOne f v q) (callOne f (v.asNumber lib) q) := by
  have same : callOne f v q = callOne f (v.asNumber lib) q := by
    show EStateM.Result.ok (ExprValue.ofDouble (f.apply v.dValue q.world).1)
      { q with world := (f.apply v.dValue q.world).2 } = _
    rw [held]
    rfl
  rw [same]
  exact ⟨Or.inr rfl, Or.inr rfl, rfl, rfl⟩

theorem callTwo_apply (f : TwoArgFunction F W) (v w : ExprValue F) (q : ExprParser F W) :
    callTwo f v w q = (raise (f.apply v w q.world).1 : Run F W (ExprValue F))
      { q with world := (f.apply v w q.world).2 } := rfl

theorem plain_two (f : ExprValue F → ExprValue F → Except Text (ExprValue F))
    (v w : ExprValue F) (q : ExprParser F W) :
    callTwo (.plain f) v w q = (raise (f v w) : Run F W (ExprValue F)) q := rfl

theorem chosen_seen (lib : Library ℚ) (c : Bool) (a b : ExprValue ℚ) (q : ExprParser ℚ W)
    (left : a.isNumeric) (right : b.isNumeric) :
    SameOutcome lib (.ok (if c then a else b) q)
      (.ok (if c then a.asNumber lib else b.asNumber lib) q) := by
  cases c with
  | true => exact ⟨left, Or.inr rfl, rfl, rfl⟩
  | false => exact ⟨right, Or.inr rfl, rfl, rfl⟩

theorem least_seen (exact : Exact m.toLibrary) (v1 v2 : ExprValue ℚ) (q : ExprParser ℚ W)
    (left : v1.isNumeric) (right : v2.isNumeric) :
    SameOutcome m.toLibrary (callTwo (.plain (doMin m)) v1 v2 q)
      (callTwo (.plain (doMin m)) (v1.asNumber m.toLibrary) (v2.asNumber m.toLibrary) q) := by
  rw [plain_two, plain_two, min_seen exact v1 v2 left right,
    min_seen exact _ _ (Or.inr rfl) (Or.inr rfl), raise_ok, raise_ok]
  exact chosen_seen m.toLibrary _ v1 v2 q left right

theorem greatest_seen (exact : Exact m.toLibrary) (v1 v2 : ExprValue ℚ) (q : ExprParser ℚ W)
    (left : v1.isNumeric) (right : v2.isNumeric) :
    SameOutcome m.toLibrary (callTwo (.plain (doMax m)) v1 v2 q)
      (callTwo (.plain (doMax m)) (v1.asNumber m.toLibrary) (v2.asNumber m.toLibrary) q) := by
  rw [plain_two, plain_two, max_seen exact v1 v2 left right,
    max_seen exact _ _ (Or.inr rfl) (Or.inr rfl), raise_ok, raise_ok]
  exact chosen_seen m.toLibrary _ v1 v2 q left right

theorem condition_seen (v1 v2 v3 : ExprValue ℚ) (q : ExprParser ℚ W)
    (numeric : v1.isNumeric) (left : v2.isNumeric) (right : v3.isNumeric) :
    SameOutcome m.toLibrary ((raise (doIf m v1 v2 v3) : Run ℚ W (ExprValue ℚ)) q)
      ((raise (doIf m (v1.asNumber m.toLibrary) (v2.asNumber m.toLibrary)
        (v3.asNumber m.toLibrary)) : Run ℚ W (ExprValue ℚ)) q) := by
  rw [if_seen v1 v2 v3 numeric, if_seen _ _ _ (Or.inr rfl), raise_ok, raise_ok]
  exact chosen_seen m.toLibrary _ v3 v2 q right left

/-! `mod`, `pow` and `roll`. -/

theorem numbers_refused {f : TwoArgFunction ℚ W}
    (kind : f = .plain (doFmod m) ∨ f = .plain (doPow m) ∨ f = .random (doRoll m))
    (v1 v2 : ExprValue ℚ) (q : ExprParser ℚ W)
    (refused : v1.type ≠ .number ∨ v2.type ≠ .number) :
    callTwo f v1 v2 q = .error (.fault (.thrown "Type is not number".toList)) q := by
  rcases kind with rfl | rfl | rfl
  · rw [plain_two, doFmod, if_pos refused, raise_error]
  · rw [plain_two, doPow, if_pos refused, raise_error]
  · have result : doRoll m v1 v2 q.world = (.error "Type is not number".toList, q.world) :=
      if_pos refused
    rw [callTwo_apply, TwoArgFunction.apply, result, raise_error]

theorem numbers_answered {f : TwoArgFunction ℚ W}
    (kind : f = .plain (doFmod m) ∨ f = .plain (doPow m) ∨ f = .random (doRoll m))
    (v1 v2 : ExprValue ℚ) (q : ExprParser ℚ W) (left : v1.type = .number)
    (right : v2.type = .number) :
    (∃ w r, callTwo f v1 v2 q = .ok w r ∧ w.isNumeric) ∨
      callTwo f v1 v2 q = .error (.fault (.thrown "Divide by zero in mod".toList)) q := by
  have fit : ¬ (v1.type ≠ .number ∨ v2.type ≠ .number) := by simp [left, right]
  rcases kind with rfl | rfl | rfl
  · rw [plain_two, doFmod, if_neg fit]
    by_cases zero : m.eq v2.dValue m.zero
    · rw [if_pos zero]
      exact Or.inr rfl
    · rw [if_neg zero]
      exact Or.inl ⟨_, q, rfl, Or.inr rfl⟩
  · rw [plain_two, doPow, if_neg fit]
    exact Or.inl ⟨_, q, rfl, Or.inr rfl⟩
  · have result : doRoll m v1 v2 q.world = _ := if_neg fit
    rw [callTwo_apply, TwoArgFunction.apply, result, raise_ok]
    exact Or.inl ⟨_, _, rfl, Or.inl rfl⟩

theorem numbers_seen {f : TwoArgFunction ℚ W}
    (kind : f = .plain (doFmod m) ∨ f = .plain (doPow m) ∨ f = .random (doRoll m))
    (v1 v2 : ExprValue ℚ) (q : ExprParser ℚ W) (left : v1.type = .number)
    (right : v2.type = .number) :
    callTwo f v1 v2 q = callTwo f (v1.asNumber m.toLibrary) (v2.asNumber m.toLibrary) q := by
  have held1 := asNumber_of_number m.toLibrary v1 left
  have held2 := asNumber_of_number m.toLibrary v2 right
  have tag1 : (v1.asNumber m.toLibrary).type = .number := rfl
  have tag2 : (v2.asNumber m.toLibrary).type = .number := rfl
  rcases kind with rfl | rfl | rfl
  · simp only [plain_two, doFmod, left, right, tag1, tag2, held1, held2]
  · simp only [plain_two, doPow, left, right, tag1, tag2, held1, held2]
  · simp only [callTwo, TwoArgFunction.apply, doRoll, left, right, tag1, tag2, held1, held2]

theorem numbers_only {f : TwoArgFunction ℚ W}
    (kind : f = .plain (doFmod m) ∨ f = .plain (doPow m) ∨ f = .random (doRoll m))
    (v1 v2 : ExprValue ℚ) (q : ExprParser ℚ W) :
    SameOutcome m.toLibrary (callTwo f v1 v2 q)
      (callTwo f (v1.asNumber m.toLibrary) (v2.asNumber m.toLibrary) q) ↔
        v1.type = .number ∧ v2.type = .number := by
  have answered := numbers_answered kind (v1.asNumber m.toLibrary) (v2.asNumber m.toLibrary) q rfl rfl
  by_cases numbers : v1.type = .number ∧ v2.type = .number
  · apply iff_of_true ?_ numbers
    rw [numbers_seen kind v1 v2 q numbers.1 numbers.2]
    rcases answered with ⟨w, r, returned, numeric⟩ | thrown
    · rw [returned]
      exact ⟨numeric, numeric, rfl, rfl⟩
    · rw [thrown]
      exact ⟨rfl, rfl⟩
  · apply iff_of_false ?_ numbers
    rw [numbers_refused kind v1 v2 q (not_and_or.mp numbers)]
    rcases answered with ⟨w, r, returned, _⟩ | thrown
    · rw [returned]
      exact not_false
    · rw [thrown]
      rintro ⟨same, _⟩
      exact absurd same (by decide)

/-! One theorem for each number of arguments. -/

theorem takes_shape (c : Callee F W) (args : List (ExprValue F)) (takes : c.Takes args) :
    (∃ v, args = [v]) ∨ (∃ v1 v2, args = [v1, v2]) ∨ ∃ v1 v2 v3, args = [v1, v2, v3] := by
  cases c with
  | one f => exact Or.inl (List.length_eq_one_iff.mp ((takes_one f args).mp takes))
  | two f => exact Or.inr (Or.inl (List.length_eq_two.mp ((takes_two f args).mp takes)))
  | three f => exact Or.inr (Or.inr (List.length_eq_three.mp ((takes_three f args).mp takes)))
  | _ => exact takes.elim

theorem callee_of_one (c : Callee F W) (v : ExprValue F) (takes : c.Takes [v]) :
    ∃ f, c = .one f := by
  cases c with
  | one f => exact ⟨f, rfl⟩
  | _ => exact takes.elim

theorem callee_of_two (c : Callee F W) (v1 v2 : ExprValue F) (takes : c.Takes [v1, v2]) :
    ∃ f, c = .two f := by
  cases c with
  | two f => exact ⟨f, rfl⟩
  | _ => exact takes.elim

theorem callee_of_three (c : Callee F W) (v1 v2 v3 : ExprValue F)
    (takes : c.Takes [v1, v2, v3]) : ∃ f, c = .three f := by
  cases c with
  | three f => exact ⟨f, rfl⟩
  | _ => exact takes.elim

theorem call_one_iff (exact : Exact m.toLibrary) (word : Text) (v : ExprValue ℚ)
    (q : ExprParser ℚ W) (takes : (callee m word).Takes [v]) :
    (∀ library : Library ℚ,
      SameOutcome m.toLibrary ((callee (m.withFunctions library) word).applied [v] q)
        ((callee (m.withFunctions library) word).applied [v.asNumber m.toLibrary] q)) ↔
      v.dValue = v.number m.toLibrary := by
  constructor
  · intro seen
    have here := seen (singled m.toLibrary (v.number m.toLibrary))
    obtain ⟨f, found⟩ := callee_of_one _ v
      ((takes_withFunctions (singled m.toLibrary (v.number m.toLibrary)) word [v]).mpr takes)
    rw [found] at here
    exact singled_tells exact _ _ q.world word f (callee_one word f found) here.2.2.1
  · intro held library
    obtain ⟨f, found⟩ := callee_of_one _ v ((takes_withFunctions library word [v]).mpr takes)
    rw [found]
    exact one_seen m.toLibrary f v q held

theorem call_two_iff (exact : Exact m.toLibrary) (word : Text) (v1 v2 : ExprValue ℚ)
    (q : ExprParser ℚ W) (takes : (callee m word).Takes [v1, v2]) (left : v1.isNumeric)
    (right : v2.isNumeric) :
    (∀ library : Library ℚ,
      SameOutcome m.toLibrary ((callee (m.withFunctions library) word).applied [v1, v2] q)
        ((callee (m.withFunctions library) word).applied
          [v1.asNumber m.toLibrary, v2.asNumber m.toLibrary] q)) ↔
      (word = "min".toList ∨ word = "max".toList ∨ (v1.type = .number ∧ v2.type = .number)) := by
  have each : ∀ library : Library ℚ,
      SameOutcome m.toLibrary ((callee (m.withFunctions library) word).applied [v1, v2] q)
        ((callee (m.withFunctions library) word).applied
          [v1.asNumber m.toLibrary, v2.asNumber m.toLibrary] q) ↔
        (word = "min".toList ∨ word = "max".toList ∨
          (v1.type = .number ∧ v2.type = .number)) := by
    intro library
    obtain ⟨f, found⟩ := callee_of_two _ v1 v2
      ((takes_withFunctions library word [v1, v2]).mpr takes)
    rw [found]
    rcases twoArgument_named word f (callee_two word f found) with
      ⟨least, rfl⟩ | ⟨greatest, rfl⟩ | ⟨not_least, not_greatest, kind⟩
    · exact iff_of_true
        (least_seen (exact_withFunctions exact library) v1 v2 q left right) (Or.inl least)
    · exact iff_of_true
        (greatest_seen (exact_withFunctions exact library) v1 v2 q left right)
        (Or.inr (Or.inl greatest))
    · refine (numbers_only kind v1 v2 q).trans ?_
      simp only [not_least, not_greatest, false_or]
  constructor
  · exact fun seen => (each m.toLibrary).mp (seen m.toLibrary)
  · exact fun fit library => (each library).mpr fit

theorem call_three (word : Text) (v1 v2 v3 : ExprValue ℚ) (q : ExprParser ℚ W)
    (library : Library ℚ) (takes : (callee m word).Takes [v1, v2, v3]) (numeric : v1.isNumeric)
    (left : v2.isNumeric) (right : v3.isNumeric) :
    SameOutcome m.toLibrary ((callee (m.withFunctions library) word).applied [v1, v2, v3] q)
      ((callee (m.withFunctions library) word).applied
        [v1.asNumber m.toLibrary, v2.asNumber m.toLibrary, v3.asNumber m.toLibrary] q) := by
  obtain ⟨f, found⟩ := callee_of_three _ v1 v2 v3
    ((takes_withFunctions library word [v1, v2, v3]).mpr takes)
  rw [found, callee_three word f found]
  exact condition_seen (m := m.withFunctions library) v1 v2 v3 q numeric left right

/-- A built-in function gives the same for an INTEGER64 argument and for the equal NUMBER,
whatever the library functions compute, exactly where the arguments fit. -/
theorem calls_see_the_value_iff (exact : Exact m.toLibrary) (word : Text) {p q : ExprParser ℚ W}
    (args : List (ExprValue ℚ)) (numeric : ∀ v ∈ args, v.isNumeric)
    (takes : (callee m word).Takes args) (read : ReadsArguments m expression p args q) :
    (∀ library : Library ℚ,
      SameOutcome m.toLibrary
        (functionCall (m.withFunctions library) calls expression word p)
        ((callee (m.withFunctions library) word).applied
          (args.map fun v => v.asNumber m.toLibrary) q)) ↔
      ArgumentsFit m word args := by
  have applied : ∀ library : Library ℚ,
      functionCall (m.withFunctions library) calls expression word p =
        (callee (m.withFunctions library) word).applied args q := fun library =>
    functionCall_applied word args ((takes_withFunctions library word args).mpr takes)
      (reads_withFunctions library read)
  simp only [applied]
  rcases takes_shape _ args takes with ⟨v, rfl⟩ | ⟨v1, v2, rfl⟩ | ⟨v1, v2, v3, rfl⟩
  · obtain ⟨f, found⟩ := callee_of_one _ v takes
    refine (call_one_iff exact word v q takes).trans ?_
    simp [ArgumentsFit, found]
  · obtain ⟨f, found⟩ := callee_of_two _ v1 v2 takes
    refine (call_two_iff exact word v1 v2 q takes (numeric v1 (by simp))
      (numeric v2 (by simp))).trans ?_
    simp [ArgumentsFit, found]
  · obtain ⟨f, found⟩ := callee_of_three _ v1 v2 v3 takes
    apply iff_of_true
    · intro library
      exact call_three word v1 v2 v3 q library takes (numeric v1 (by simp))
        (numeric v2 (by simp)) (numeric v3 (by simp))
    · simp only [ArgumentsFit, found]

end Interpretations

/-! A machine with rational numbers. -/

def rationalMachine : Machine ℚ Unit where
  toLibrary := { rationalLibrary with scanLong := fun text => Int64.ofNat (digitsValue text) }
  randMax := 2147483647
  rand world := (0, world)
  oneCommon _ := false
  twoCommon _ := false

/-- `pi)`, behind the `(` of a call. -/
def beforePi : ExprParser ℚ Unit := ExprParser.create rationalMachine "pi)".toList ()

def behindPi : ExprParser ℚ Unit :=
  { beforePi with scan := ⟨[], [], plainToken rationalMachine.toLibrary .end_ "<end of expression>".toList⟩ }

theorem reads_pi :
    ReadsArguments rationalMachine
      (expression rationalMachine (primary rationalMachine stopping 9) 9 true) beforePi
      [.ofDouble 3] behindPi :=
  .last beforePi
    { beforePi with scan := ⟨[], [')'], plainToken rationalMachine.toLibrary .rhparen [')']⟩ }
    (.ofDouble 3) behindPi.scan rfl rfl

theorem calls_see_the_value_iff_applies :
    (∀ library : Library ℚ,
      SameOutcome rationalMachine.toLibrary
        (functionCall (rationalMachine.withFunctions library) stopping
          (expression rationalMachine (primary rationalMachine stopping 9) 9 true)
          "abs".toList beforePi)
        ((callee (rationalMachine.withFunctions library) "abs".toList).applied
          [(ExprValue.ofDouble 3).asNumber rationalMachine.toLibrary] behindPi)) ↔
      ArgumentsFit rationalMachine "abs".toList [.ofDouble 3] := by
  have exact : Exact rationalMachine.toLibrary := by
    constructor <;> intros <;> rfl
  exact calls_see_the_value_iff exact "abs".toList [.ofDouble 3]
    (fun v there => Or.inr (by rw [List.mem_singleton.mp there]; rfl)) trivial reads_pi

/-- `abs(5)` is 0, and `mod(7,2)` throws. -/
theorem integer_arguments_are_lost :
    (ending (evaluate rationalMachine stopping 9
        (ExprParser.create rationalMachine "abs(5)".toList ()))).1 =
      .ok (.ofDouble 0) ∧
    rationalMachine.fabs 5 = 5 ∧
    (ending (evaluate rationalMachine stopping 9
        (ExprParser.create rationalMachine "mod(7,2)".toList ()))).1 =
      .error (.fault (.thrown "Type is not number".toList)) := by
  decide +kernel

end EChainLib.Expr
