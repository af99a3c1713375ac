import Mathlib
import EChainLib.Expr.Operators

/-! Which operands the operations refuse, by the types of their values. -/

namespace EChainLib.Expr

variable {F W : Type}

section Operands

variable (lib : Library F)

/-- The types do not go together: both operands are to be numbers, or both strings where
the operation takes these. With an unsure operand it takes anything. -/
structure Clash (strings : Bool) (v d : ExprValue F) : Prop where
  sure : ¬ Unsure v d
  numbers : ¬ (v.isNumeric ∧ d.isNumeric)
  texts : strings = true → ¬ (v.type = .string ∧ d.type = .string)

def ExprValue.isZero (v : ExprValue F) : Prop := lib.eq (v.number lib) lib.zero = true

def RefusesDivisor (d : ExprValue F) : Prop :=
  d.type ≠ .unsure ∧ (d.isNumeric → d.isZero lib)

/-- The right operand of `&&` and `||` counts only where the left one does not decide. -/
def RefusesBinary (op : TokenType) (v d : ExprValue F) : Prop :=
  match op with
  | .multiply => Clash false v d
  | .divide => RefusesDivisor lib d ∨ Clash false v d
  | .plus => Clash true v d
  | .minus => Clash false v d
  | .lt => Clash true v d
  | .gt => Clash true v d
  | .le => Clash true v d
  | .ge => Clash true v d
  | .eq => Clash true v d
  | .ne => Clash true v d
  | .and => v.type ≠ .unsure ∧ (v.isNumeric → ¬ v.isZero lib ∧ ¬ d.isNumeric)
  | .or => v.type ≠ .unsure ∧ (v.isNumeric → v.isZero lib ∧ ¬ d.isNumeric)
  | _ => False

def RefusesAssigned (op : TokenType) (v d : ExprValue F) : Prop :=
  match op with
  | .assignAdd => Clash true v d
  | .assignSub => Clash false v d
  | .assignMul => Clash false v d
  | .assignDiv => RefusesDivisor lib d ∨ Clash false v d
  | _ => False

def RefusesNegated (v : ExprValue F) : Prop := v.type ≠ .unsure ∧ ¬ v.isNumeric

end Operands

/-- The operation throws. -/
def Refused {Value : Type} (result : Except Text Value) : Prop := ∃ what, result = .error what

theorem refused_ok {Value : Type} (value : Value) : ¬ Refused (.ok value) := nofun

theorem refused_error {Value : Type} (what : Text) : Refused (.error what : Except Text Value) :=
  ⟨what, rfl⟩

theorem refused_bind_iff {Value Other : Type} {result : Except Text Value}
    {next : Value → Except Text Other} :
    Refused (result >>= next) ↔ Refused result ∨ ∃ value, result = .ok value ∧ Refused (next value) := by
  cases result with
  | ok value =>
      constructor
      · exact fun refused => .inr ⟨value, rfl, refused⟩
      · rintro (⟨what, absurd⟩ | ⟨_, same, refused⟩)
        · cases absurd
        · cases same
          exact refused
  | error what => exact iff_of_true ⟨what, rfl⟩ (.inl ⟨what, rfl⟩)

section Refused

variable {lib : Library F}

theorem compare_refused_iff (onDouble : F → F → Bool) (onInt : Int64 → Int64 → Bool)
    (onString : Text → Text → Bool) (v d : ExprValue F) :
    Refused (v.compare lib onDouble onInt onString d) ↔ Clash true v d := by
  unfold ExprValue.compare
  split_ifs with unsure widened widening apart numbers integers strings
  · exact iff_of_false (refused_ok _) fun clash => clash.sure unsure
  · exact iff_of_false (refused_ok _) fun clash =>
      clash.numbers ⟨.inr widened.1, .inl widened.2⟩
  · exact iff_of_false (refused_ok _) fun clash =>
      clash.numbers ⟨.inl widening.1, .inr widening.2⟩
  · refine iff_of_true (refused_error _) ⟨unsure, ?_, ?_⟩
    · rintro ⟨left | left, right | right⟩
      · exact apart (left.trans right.symm)
      · exact widening ⟨left, right⟩
      · exact widened ⟨left, right⟩
      · exact apart (left.trans right.symm)
    · exact fun _ both => apart (both.1.trans both.2.symm)
  · have same : d.type = .number := (not_not.mp apart).symm.trans numbers
    exact iff_of_false (refused_ok _) fun clash => clash.numbers ⟨.inr numbers, .inr same⟩
  · have same : d.type = .integer64 := (not_not.mp apart).symm.trans integers
    exact iff_of_false (refused_ok _) fun clash => clash.numbers ⟨.inl integers, .inl same⟩
  · have same : d.type = .string := (not_not.mp apart).symm.trans strings
    exact iff_of_false (refused_ok _) fun clash => clash.texts rfl ⟨strings, same⟩
  · refine iff_of_true (refused_error _) ⟨unsure, ?_, fun _ both => strings both.1⟩
    rintro ⟨left | left, _⟩
    · exact integers left
    · exact numbers left

theorem compound_refused_iff (onDouble : F → F → F) (onInt : ExprValue F → Int64 → ExprValue F)
    (onString : Option (Text → Text → Text)) (v d : ExprValue F) :
    Refused (v.compound lib onDouble onInt onString d) ↔ Clash onString.isSome v d := by
  unfold ExprValue.compound
  split_ifs with unsure widened widening apart numbers integers strings
  · exact iff_of_false (refused_ok _) fun clash => clash.sure unsure
  · exact iff_of_false (refused_ok _) fun clash =>
      clash.numbers ⟨.inr widened.1, .inl widened.2⟩
  · exact iff_of_false (refused_ok _) fun clash =>
      clash.numbers ⟨.inl widening.1, .inr widening.2⟩
  · refine iff_of_true (refused_error _) ⟨unsure, ?_, ?_⟩
    · rintro ⟨left | left, right | right⟩
      · exact apart (left.trans right.symm)
      · exact widening ⟨left, right⟩
      · exact widened ⟨left, right⟩
      · exact apart (left.trans right.symm)
    · exact fun _ both => apart (both.1.trans both.2.symm)
  · have same : d.type = .number := (not_not.mp apart).symm.trans numbers
    exact iff_of_false (refused_ok _) fun clash => clash.numbers ⟨.inr numbers, .inr same⟩
  · have same : d.type = .integer64 := (not_not.mp apart).symm.trans integers
    exact iff_of_false (refused_ok _) fun clash => clash.numbers ⟨.inl integers, .inl same⟩
  · have same : d.type = .string := (not_not.mp apart).symm.trans strings
    cases onString with
    | some join => exact iff_of_false (refused_ok _) fun clash => clash.texts rfl ⟨strings, same⟩
    | none =>
        refine iff_of_true (refused_error _) ⟨unsure, ?_, nofun⟩
        rintro ⟨left | left, _⟩
        · exact integers left
        · exact numbers left
  · refine iff_of_true (refused_error _) ⟨unsure, ?_, fun _ both => strings both.1⟩
    rintro ⟨left | left, _⟩
    · exact integers left
    · exact numbers left

/-- A comparison with a number decides for numbers only. -/
theorem compared_number_refused {result : Except Text (ExprValue F)} {v : ExprValue F} {test : Bool}
    (unsure : v.type = .unsure → result = .ok (.ofType lib .unsure))
    (clash : v.type ≠ .unsure → ¬ v.isNumeric → Refused result)
    (decides : v.isNumeric → result = .ok (.ofBool lib test)) :
    Refused (do (← result).toBool lib) ↔ ¬ v.isNumeric := by
  rw [refused_bind_iff]
  by_cases numeric : v.isNumeric
  · rw [decides numeric]
    apply iff_of_false _ (not_not.mpr numeric)
    rintro (⟨_, absurd⟩ | ⟨_, same, refused⟩)
    · cases absurd
    · cases same
      exact refused_ok _ refused
  · apply iff_of_true _ numeric
    by_cases known : v.type = .unsure
    · exact .inr ⟨_, unsure known, refused_error _⟩
    · exact .inl (clash known numeric)

theorem clash_zero {v : ExprValue F} (sure : v.type ≠ .unsure) (text : ¬ v.isNumeric) :
    Clash true v (.ofDouble lib.zero) where
  sure := by
    rintro (unsure | unsure)
    · exact sure unsure
    · cases unsure
  numbers both := text both.1
  texts _ both := nomatch both.2

theorem compare_zero (onDouble : F → F → Bool) (onInt : Int64 → Int64 → Bool)
    (onString : Text → Text → Bool) {v : ExprValue F} (numeric : v.isNumeric) :
    v.compare lib onDouble onInt onString (.ofDouble lib.zero) =
      .ok (.ofBool lib (onDouble (v.number lib) lib.zero)) := by
  rcases numeric with integer | number
  · simp [ExprValue.compare, Unsure, ExprValue.ofDouble, ExprValue.number, integer]
  · simp [ExprValue.compare, Unsure, ExprValue.ofDouble, ExprValue.number, number]

theorem compare_unsure (onDouble : F → F → Bool) (onInt : Int64 → Int64 → Bool)
    (onString : Text → Text → Bool) {v : ExprValue F} (d : ExprValue F) (unsure : v.type = .unsure) :
    v.compare lib onDouble onInt onString d = .ok (.ofType lib .unsure) := by
  rw [ExprValue.compare, if_pos (.inl unsure)]

theorem truth_refused_iff (v : ExprValue F) : Refused (truth lib v) ↔ ¬ v.isNumeric :=
  compared_number_refused (compare_unsure _ _ _ _) (fun sure text =>
    (compare_refused_iff _ _ _ _ _).mpr (clash_zero sure text)) (compare_zero _ _ _)

theorem truth_number {v : ExprValue F} (numeric : v.isNumeric) :
    truth lib v = .ok (!lib.eq (v.number lib) lib.zero) := by
  unfold truth ExprValue.ne
  rw [compare_zero _ _ _ numeric]
  rfl

theorem equal_zero_refused_iff (v : ExprValue F) :
    Refused (do (← v.eq lib (.ofDouble lib.zero)).toBool lib) ↔ ¬ v.isNumeric :=
  compared_number_refused (compare_unsure _ _ _ _) (fun sure text =>
    (compare_refused_iff _ _ _ _ _).mpr (clash_zero sure text)) (compare_zero _ _ _)

theorem equal_zero_number {v : ExprValue F} (numeric : v.isNumeric) :
    (do (← v.eq lib (.ofDouble lib.zero)).toBool lib : Except Text Bool) =
      .ok (lib.eq (v.number lib) lib.zero) := by
  unfold ExprValue.eq
  rw [compare_zero _ _ _ numeric]
  rfl

theorem inverted_refused_iff (v : ExprValue F) : Refused (inverted lib v) ↔ ¬ v.isNumeric := by
  have same : inverted lib v = (do
      let test ← (do (← v.eq lib (.ofDouble lib.zero)).toBool lib)
      return .ofDouble (if test then lib.one else lib.zero)) := by
    unfold inverted
    rw [bind_assoc]
  rw [same, refused_bind_iff, equal_zero_refused_iff]
  exact or_iff_left fun ⟨_, _, refused⟩ => refused_ok _ refused

theorem checkDivisor_refused_iff (d : ExprValue F) :
    Refused (checkDivisor lib d) ↔ RefusesDivisor lib d := by
  unfold checkDivisor RefusesDivisor
  by_cases unsure : d.type = .unsure
  · simp only [unsure, ne_eq, not_true_eq_false, false_and, iff_false]
    exact refused_ok ()
  · have same : (do
        let same ← d.eq lib (.ofDouble lib.zero)
        if ← same.toBool lib then throw "Divide by zero".toList) = (do
        let test ← (do (← d.eq lib (.ofDouble lib.zero)).toBool lib)
        if test then throw "Divide by zero".toList : Except Text Unit) := by
      rw [bind_assoc]
    simp only [unsure, ne_eq, not_false_eq_true, if_true, true_and]
    rw [same, refused_bind_iff, equal_zero_refused_iff]
    by_cases numeric : d.isNumeric
    · rw [equal_zero_number numeric]
      constructor
      · rintro (text | ⟨test, found, refused⟩)
        · exact absurd numeric text
        · obtain rfl := Except.ok.inj found
          intro _
          cases zero : lib.eq (d.number lib) lib.zero with
          | true => exact zero
          | false =>
              rw [zero] at refused
              exact (refused_ok () refused).elim
      · intro zero
        refine .inr ⟨_, rfl, ?_⟩
        rw [show lib.eq (d.number lib) lib.zero = true from zero numeric]
        exact refused_error _
    · exact iff_of_true (.inl numeric) fun known => absurd known numeric

theorem negated_refused_iff (v : ExprValue F) : Refused (negated lib v) ↔ RefusesNegated v := by
  unfold negated ExprValue.sub RefusesNegated ExprValue.isNumeric
  rw [show (ExprValue.ofInt lib 0).type = .integer64 from rfl]
  by_cases unsure : v.type = .unsure
  · rw [if_pos (.inr unsure)]
    exact iff_of_false (refused_ok _) fun refuses => refuses.1 unsure
  · have sure : ¬ Unsure (.ofInt lib 0) v := fun known => known.elim nofun unsure
    rw [if_neg sure, if_neg (fun absurd => nomatch absurd.1)]
    by_cases number : v.type = .number
    · rw [if_pos ⟨rfl, number⟩]
      exact iff_of_false (refused_ok _) fun refuses => refuses.2 (.inr number)
    · rw [if_neg (fun both => number both.2)]
      by_cases integer : v.type = .integer64
      · rw [integer, if_neg (not_not.mpr rfl), if_neg (by decide), if_pos rfl]
        exact iff_of_false (refused_ok _) fun refuses => refuses.2 (.inl rfl)
      · rw [if_pos (Ne.symm integer)]
        exact iff_of_true (refused_error _) ⟨unsure, not_or.mpr ⟨integer, number⟩⟩

theorem compared_refused_iff {result : Except Text (ExprValue F)}
    (known : ∀ v, result = .ok v → v.type = .bool ∨ v.type = .unsure) :
    Refused (do compared lib (← result)) ↔ Refused result := by
  rw [refused_bind_iff]
  apply or_iff_left
  rintro ⟨v, found, refused⟩
  unfold compared at refused
  rcases known v found with bool | unsure
  · simp only [bool, ne_eq, reduceCtorEq, not_false_eq_true, if_true, ExprValue.toBool] at refused
    exact refused_ok _ refused
  · simp only [unsure, ne_eq, not_true_eq_false, if_false] at refused
    exact refused_ok _ refused

theorem compare_type {onDouble : F → F → Bool} {onInt : Int64 → Int64 → Bool}
    {onString : Text → Text → Bool} {v d w : ExprValue F}
    (found : v.compare lib onDouble onInt onString d = .ok w) :
    w.type = .bool ∨ w.type = .unsure := by
  unfold ExprValue.compare at found
  split_ifs at found <;> cases found
  · exact .inr rfl
  all_goals exact .inl rfl

theorem comparison_refused_iff (onDouble : F → F → Bool) (onInt : Int64 → Int64 → Bool)
    (onString : Text → Text → Bool) (v d : ExprValue F) :
    Refused (do compared lib (← v.compare lib onDouble onInt onString d)) ↔ Clash true v d :=
  (compared_refused_iff fun _ found => compare_type found).trans (compare_refused_iff _ _ _ _ _)

theorem counting_refused_iff (onDouble : F → F → F) (onInt : ExprValue F → Int64 → ExprValue F)
    (onString : Option (Text → Text → Text)) (v d : ExprValue F) :
    Refused (do return (← v.compound lib onDouble onInt onString d).1) ↔
      Clash onString.isSome v d := by
  rw [refused_bind_iff, compound_refused_iff]
  exact or_iff_left fun ⟨_, _, refused⟩ => refused_ok _ refused

theorem division_refused_iff (v d : ExprValue F) :
    Refused (do
      checkDivisor lib d
      return (← v.divAssign lib d).1) ↔ RefusesDivisor lib d ∨ Clash false v d := by
  rw [refused_bind_iff, checkDivisor_refused_iff]
  have counts : Refused (do return (← v.divAssign lib d).1) ↔ Clash false v d :=
    counting_refused_iff _ _ none v d
  constructor
  · rintro (refuses | ⟨_, _, refused⟩)
    · exact .inl refuses
    · exact .inr (counts.mp refused)
  · rintro (refuses | clash)
    · exact .inl refuses
    · cases checked : checkDivisor lib d with
      | ok done => exact .inr ⟨done, rfl, counts.mpr clash⟩
      | error what => exact .inl ((checkDivisor_refused_iff d).mp ⟨what, checked⟩)

/-- The two connectives differ in which value of the left operand decides. -/
theorem connective_refused_iff (decides : Bool) (v d : ExprValue F) :
    Refused (if v.type ≠ .unsure then do
        if (← truth lib v) = decides then return v.setBool decides
        else return v.setBool (← truth lib d)
      else return v) ↔
      v.type ≠ .unsure ∧
        (v.isNumeric → (!lib.eq (v.number lib) lib.zero) ≠ decides ∧ ¬ d.isNumeric) := by
  by_cases unsure : v.type = .unsure
  · simp only [unsure, ne_eq, not_true_eq_false, if_false, false_and, iff_false]
    exact refused_ok v
  · simp only [unsure, ne_eq, not_false_eq_true, if_true, true_and]
    rw [refused_bind_iff, truth_refused_iff]
    by_cases numeric : v.isNumeric
    · rw [truth_number numeric]
      constructor
      · rintro (text | ⟨test, found, refused⟩)
        · exact absurd numeric text
        · obtain rfl := Except.ok.inj found
          intro _
          split_ifs at refused with decided
          · exact (refused_ok _ refused).elim
          · refine ⟨decided, (@truth_refused_iff _ lib d).mp ?_⟩
            rw [refused_bind_iff] at refused
            exact refused.resolve_right fun ⟨_, _, absurd⟩ => refused_ok _ absurd
      · intro open_
        obtain ⟨undecided, text⟩ := open_ numeric
        refine .inr ⟨_, rfl, ?_⟩
        rw [if_neg undecided, refused_bind_iff]
        exact .inl ((truth_refused_iff d).mpr text)
    · exact iff_of_true (.inl numeric) fun known => absurd known numeric

theorem operate_refused_iff (op : TokenType) (v d : ExprValue F) :
    Refused (operate lib op v d) ↔ RefusesBinary lib op v d := by
  cases op with
  | multiply => exact counting_refused_iff _ _ none v d
  | divide => exact division_refused_iff v d
  | plus => exact counting_refused_iff _ _ (some _) v d
  | minus => exact counting_refused_iff _ _ none v d
  | lt => exact comparison_refused_iff _ _ _ v d
  | gt => exact comparison_refused_iff _ _ _ v d
  | le => exact comparison_refused_iff _ _ _ v d
  | ge => exact comparison_refused_iff _ _ _ v d
  | eq => exact comparison_refused_iff _ _ _ v d
  | ne => exact comparison_refused_iff _ _ _ v d
  | and =>
      have same : operate lib .and v d = if v.type ≠ .unsure then do
            if (← truth lib v) = false then return v.setBool false
            else return v.setBool (← truth lib d)
          else return v := by
        show (if v.type ≠ .unsure then do
            if ← truth lib v then return v.setBool (← truth lib d)
            else return v.setBool false
          else return v) = _
        cases truth lib v with
        | error what => rfl
        | ok test => cases test <;> rfl
      rw [same, connective_refused_iff false]
      simp [RefusesBinary, ExprValue.isZero]
  | or =>
      refine (connective_refused_iff true v d).trans ?_
      simp [RefusesBinary, ExprValue.isZero]
  | _ => exact iff_of_false (refused_ok _) id

theorem assigned_refused_iff (op : TokenType) (v d : ExprValue F) :
    Refused (assigned lib op v d) ↔ RefusesAssigned lib op v d := by
  cases op with
  | assignAdd => exact counting_refused_iff _ _ (some _) v d
  | assignSub => exact counting_refused_iff _ _ none v d
  | assignMul => exact counting_refused_iff _ _ none v d
  | assignDiv => exact division_refused_iff v d
  | _ => exact iff_of_false (refused_ok _) id

theorem comparison_taken_iff (onDouble : F → F → Bool) (onInt : Int64 → Int64 → Bool)
    (onString : Text → Text → Bool) (v w : ExprValue F) :
    Refused (do (← v.compare lib onDouble onInt onString w).toBool lib) ↔
      Unsure v w ∨ Clash true v w := by
  rw [refused_bind_iff, compare_refused_iff, or_comm]
  apply or_congr_left
  constructor
  · rintro ⟨result, found, refused⟩
    unfold ExprValue.compare at found
    split_ifs at found with unsure <;> cases found
    · exact unsure
    all_goals exact (refused_ok _ refused).elim
  · intro unsure
    exact ⟨.ofType lib .unsure, by rw [ExprValue.compare, if_pos unsure], refused_error _⟩

theorem doMin_refused_iff (m : Machine F W) (v w : ExprValue F) :
    Refused (doMin m v w) ↔ Unsure v w ∨ Clash true v w := by
  have same : doMin m v w = (do
      let less ← (do (← v.lt m.toLibrary w).toBool m.toLibrary)
      return if less then v else w) := by
    unfold doMin
    rw [bind_assoc]
  rw [same, refused_bind_iff, ExprValue.lt, comparison_taken_iff]
  exact or_iff_left fun ⟨_, _, refused⟩ => refused_ok _ refused

theorem doMax_refused_iff (m : Machine F W) (v w : ExprValue F) :
    Refused (doMax m v w) ↔ Unsure v w ∨ Clash true v w := by
  have same : doMax m v w = (do
      let greater ← (do (← v.gt m.toLibrary w).toBool m.toLibrary)
      return if greater then v else w) := by
    unfold doMax
    rw [bind_assoc]
  rw [same, refused_bind_iff, ExprValue.gt, comparison_taken_iff]
  exact or_iff_left fun ⟨_, _, refused⟩ => refused_ok _ refused

/-- A built-in function of two arguments takes no unsure one. -/
theorem two_refuses_unsure (m : Machine F W) {name : Text} {f : TwoArgFunction F W}
    (listed : (name, f) ∈ twoArgumentFunctions m) {v w : ExprValue F} (unsure : Unsure v w)
    (world : W) : Refused (f.apply v w world).1 := by
  have numbers : v.type ≠ .number ∨ w.type ≠ .number := by
    rcases unsure with left | right
    · exact .inl (by rw [left]; decide)
    · exact .inr (by rw [right]; decide)
  simp only [twoArgumentFunctions, List.mem_cons, Prod.mk.injEq, List.not_mem_nil, or_false] at listed
  rcases listed with ⟨_, rfl⟩ | ⟨_, rfl⟩ | ⟨_, rfl⟩ | ⟨_, rfl⟩ | ⟨_, rfl⟩
  · exact (doMin_refused_iff m v w).mpr (.inl unsure)
  · exact (doMax_refused_iff m v w).mpr (.inl unsure)
  · show Refused (doFmod m v w)
    rw [doFmod, if_pos numbers]
    exact refused_error _
  · show Refused (doPow m v w)
    rw [doPow, if_pos numbers]
    exact refused_error _
  · show Refused (doRoll m v w world).1
    rw [doRoll, if_pos numbers]
    exact refused_error _

theorem doIf_refused_iff (m : Machine F W) (v w x : ExprValue F) :
    Refused (doIf m v w x) ↔ ¬ v.isNumeric := by
  have same : doIf m v w x = (do return if ← truth m.toLibrary v then w else x) := by
    unfold doIf truth
    rw [bind_assoc]
  rw [same, refused_bind_iff, truth_refused_iff]
  exact or_iff_left fun ⟨_, _, refused⟩ => refused_ok _ refused

end Refused

end EChainLib.Expr
