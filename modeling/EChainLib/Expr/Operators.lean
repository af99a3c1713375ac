import Mathlib
import EChainLib.Expr.Parser

/-! The binary operators beside the compound assignments, and unary minus. Numbers are
exact rationals. -/

namespace EChainLib.Expr

variable {F : Type}

/-- `double` as the rational numbers. -/
structure Exact (lib : Library ℚ) : Prop where
  zero : lib.zero = 0
  one : lib.one = 1
  fromInt : ∀ i, lib.fromInt i = i.toInt
  add : ∀ a b, lib.add a b = a + b
  sub : ∀ a b, lib.sub a b = a - b
  eq : ∀ a b, lib.eq a b = decide (a = b)
  lt : ∀ a b, lib.lt a b = decide (a < b)
  le : ∀ a b, lib.le a b = decide (a ≤ b)

/-- The field that the tag names. -/
inductive Payload (F : Type) where
  | none
  | bool (b : Bool)
  | double (d : F)
  | int (i : Int64)
  | string (s : Text)

def ExprValue.payload (v : ExprValue F) : Payload F :=
  match v.type with
  | .bool => .bool v.bValue
  | .number => .double v.dValue
  | .integer64 => .int v.iValue
  | .string => .string v.sValue
  | _ => .none

structure SameValue (v w : ExprValue F) : Prop where
  type : v.type = w.type
  payload : v.payload = w.payload

/-- A binary operator gives what the compound assignment leaves in its left operand, and
throws what it throws. -/
def Agrees : Except Text (ExprValue F) → Except Text (ExprValue F × ExprValue F) → Prop
  | .ok v, .ok (left, _) => SameValue v left
  | .error what, .error what' => what = what'
  | _, _ => False

def Mixed (a b : ExprValue F) : Prop :=
  (a.type = .number ∧ b.type = .integer64) ∨ (a.type = .integer64 ∧ b.type = .number)

/-- No unsure operand on the right alone, no integer with a number on its right, and no
number with an integer other than 0 on its right. -/
structure OperandsFit (a b : ExprValue F) : Prop where
  sure : b.type = .unsure → a.type = .unsure
  widened : a.type = .integer64 → b.type ≠ .number
  neutral : a.type = .number → b.type = .integer64 → b.iValue = 0

def ExprValue.isNumeric (v : ExprValue F) : Prop := v.type = .integer64 ∨ v.type = .number

/-- The number an INTEGER64 or NUMBER value stands for. -/
def ExprValue.number (lib : Library F) (v : ExprValue F) : F :=
  if v.type = .integer64 then lib.fromInt v.iValue else v.dValue

/-- `-operand` is a number, and the negative one. -/
def Negates (lib : Library ℚ) (v : ExprValue ℚ) : Prop :=
  ∃ w, negated lib v = .ok w ∧ w.isNumeric ∧ w.number lib = -v.number lib

theorem same_of_number {v w : ExprValue F} (left : v.type = .number) (right : w.type = .number) :
    SameValue v w ↔ v.dValue = w.dValue := by
  constructor
  · intro same
    have payload := same.payload
    rw [ExprValue.payload, ExprValue.payload, left, right] at payload
    exact Payload.double.inj payload
  · intro same
    refine ⟨left.trans right.symm, ?_⟩
    rw [ExprValue.payload, ExprValue.payload, left, right, same]

section Family

variable {lib : Library F} {join : ExprValue F → ExprValue F → Except Text (ExprValue F)}
  {onDouble : F → F → F} {onInt : ExprValue F → Int64 → ExprValue F}
  {onString : Option (Text → Text → Text)}

/-- One operator of each kind, from what they do to each sort of operands. -/
theorem agrees_iff_fit (unsure : ∀ a b, Unsure a b → join a b = .ok (.ofType lib .unsure))
    (mixed : ∀ a b, ¬ Unsure a b → Mixed a b → join a b = .ok a)
    (plain : ∀ a b, ¬ Unsure a b → ¬ Mixed a b →
      Agrees (join a b) (ExprValue.compound lib onDouble onInt onString a b))
    (neutral : ∀ d i, onDouble d (lib.fromInt i) = d ↔ i = 0) (a b : ExprValue F) :
    Agrees (join a b) (ExprValue.compound lib onDouble onInt onString a b) ↔ OperandsFit a b := by
  -- an unknown operand, a double and an integer, or operands of one type
  by_cases open_type : Unsure a b
  · have compound : ExprValue.compound lib onDouble onInt onString a b =
        .ok (a, .ofType lib .unsure) := by
      simp only [ExprValue.compound, open_type, if_true]
    rw [unsure a b open_type, compound]
    by_cases left : a.type = .unsure
    · apply iff_of_true
      · refine ⟨left.symm, ?_⟩
        rw [ExprValue.payload, ExprValue.payload, left]
        rfl
      · constructor <;> simp [left]
    · apply iff_of_false
      · intro same
        exact left same.type.symm
      · intro fit
        exact left (fit.sure (open_type.resolve_left left))
  · have left_sure : a.type ≠ .unsure := fun left => open_type (Or.inl left)
    have right_sure : b.type ≠ .unsure := fun right => open_type (Or.inr right)
    by_cases two_kinds : Mixed a b
    · rw [mixed a b open_type two_kinds]
      rcases two_kinds with ⟨number, integer⟩ | ⟨integer, number⟩
      · have compound : ExprValue.compound lib onDouble onInt onString a b =
            .ok (a.setDouble (onDouble a.dValue (lib.fromInt b.iValue)),
              a.setDouble (onDouble a.dValue (lib.fromInt b.iValue))) := by
          simp [ExprValue.compound, open_type, number, integer, ExprValue.compound.returned]
        rw [compound]
        have kept : SameValue a (a.setDouble (onDouble a.dValue (lib.fromInt b.iValue))) ↔
            b.iValue = 0 := by
          rw [same_of_number number rfl, ← neutral a.dValue b.iValue, eq_comm]
          rfl
        refine kept.trans ⟨fun zero => ?_, fun fit => fit.neutral number integer⟩
        constructor
        · exact fun right => absurd right right_sure
        · intro left
          rw [number] at left
          cases left
        · exact fun _ _ => zero
      · have compound : ExprValue.compound lib onDouble onInt onString a b =
            .ok (a.setDouble (onDouble (lib.fromInt a.iValue) b.dValue),
              a.setDouble (onDouble (lib.fromInt a.iValue) b.dValue)) := by
          simp [ExprValue.compound, open_type, number, integer, ExprValue.compound.returned]
        rw [compound]
        apply iff_of_false
        · intro same
          have type := same.type
          rw [integer] at type
          cases type
        · exact fun fit => fit.widened integer number
    · apply iff_of_true (plain a b open_type two_kinds)
      constructor
      · exact fun right => absurd right right_sure
      · exact fun integer number => two_kinds (Or.inr ⟨integer, number⟩)
      · exact fun number integer => absurd (Or.inl ⟨number, integer⟩) two_kinds

end Family

section Sums

variable {lib : Library F}

theorem add_plain (a b : ExprValue F) (sure : ¬ Unsure a b) (one_kind : ¬ Mixed a b) :
    Agrees (a.add lib b) (a.addAssign lib b) := by
  rw [Mixed, not_or] at one_kind
  unfold ExprValue.add ExprValue.addAssign ExprValue.compound
  simp only [sure, one_kind, if_false, ExprValue.compound.returned]
  split
  · rfl
  · split
    · rename_i number
      simp [Agrees, same_of_number, number]
    · split
      · rename_i integer
        refine ⟨rfl, ?_⟩
        simp [ExprValue.payload, integer]
      · split
        · rename_i string
          refine ⟨rfl, ?_⟩
          simp [ExprValue.payload, string]
        · rfl

theorem sub_plain (a b : ExprValue F) (sure : ¬ Unsure a b) (one_kind : ¬ Mixed a b) :
    Agrees (a.sub lib b) (a.subAssign lib b) := by
  rw [Mixed, not_or] at one_kind
  unfold ExprValue.sub ExprValue.subAssign ExprValue.compound
  simp only [sure, one_kind, if_false, ExprValue.compound.returned]
  split
  · rfl
  · split
    · rename_i number
      simp [Agrees, same_of_number, number]
    · split
      · rename_i integer
        refine ⟨rfl, ?_⟩
        simp [ExprValue.payload, integer]
      · split <;> rfl

theorem add_mixed (a b : ExprValue F) (sure : ¬ Unsure a b) (mixed : Mixed a b) :
    a.add lib b = .ok a := by
  rcases mixed with ⟨left, right⟩ | ⟨left, right⟩ <;> simp [ExprValue.add, sure, left, right]

theorem sub_mixed (a b : ExprValue F) (sure : ¬ Unsure a b) (mixed : Mixed a b) :
    a.sub lib b = .ok a := by
  rcases mixed with ⟨left, right⟩ | ⟨left, right⟩ <;> simp [ExprValue.sub, sure, left, right]

end Sums

section Rationals

variable {lib : Library ℚ} (exact : Exact lib)

include exact

theorem fromInt_zero_iff (i : Int64) : lib.fromInt i = 0 ↔ i = 0 := by
  rw [exact.fromInt, Int.cast_eq_zero, ← Int64.toInt_zero, Int64.toInt_inj]

theorem negates_iff (v : ExprValue ℚ) (numeric : v.isNumeric) :
    Negates lib v ↔
      (v.type = .integer64 ∧ v.iValue ≠ Int64.minValue) ∨ (v.type = .number ∧ v.dValue = 0) := by
  rcases numeric with integer | number
  · have negative : negated lib v = .ok { ExprValue.empty lib with
        type := .integer64, iValue := 0 - v.iValue } := by
      simp [negated, ExprValue.sub, Unsure, ExprValue.ofInt, integer]
    have value : Negates lib v ↔ (0 - v.iValue).toInt = -v.iValue.toInt := by
      simp only [Negates, negative, Except.ok.injEq, exists_eq_left', ExprValue.isNumeric,
        ExprValue.number, integer, if_true, exact.fromInt, true_or, true_and]
      norm_cast
    have wraps : (0 - v.iValue).toInt = -v.iValue.toInt ↔ v.iValue ≠ Int64.minValue := by
      have low := v.iValue.le_toInt
      have high := v.iValue.toInt_lt
      rw [Int64.toInt_sub, Int64.toInt_zero, Int.zero_sub, Ne, ← Int64.toInt_inj]
      have least : Int64.minValue.toInt = -2 ^ 63 := by decide
      rw [least]
      constructor
      · rintro same least
        rw [least] at same
        exact absurd same (by decide)
      · intro above
        exact Int.bmod_eq_of_le (by omega) (by omega)
    rw [value, wraps]
    simp [integer]
  · have unchanged : negated lib v = .ok (.ofInt lib 0) := by
      simp [negated, ExprValue.sub, Unsure, ExprValue.ofInt, number]
    simp only [Negates, unchanged, Except.ok.injEq, exists_eq_left', ExprValue.isNumeric,
      ExprValue.number, number, ExprValue.ofInt, exact.fromInt]
    simp [eq_comm]

/-- The operators agree where their operands fit, and a number other than 0 loses its
value under unary minus. -/
theorem arithmetic_agrees_iff (a b v : ExprValue ℚ) (numeric : v.isNumeric) :
    (Agrees (a.add lib b) (a.addAssign lib b) ↔ OperandsFit a b) ∧
      (Agrees (a.sub lib b) (a.subAssign lib b) ↔ OperandsFit a b) ∧
        (Negates lib v ↔ (v.type = .integer64 ∧ v.iValue ≠ Int64.minValue) ∨
          (v.type = .number ∧ v.dValue = 0)) := by
  refine ⟨?_, ?_, negates_iff exact v numeric⟩
  · apply agrees_iff_fit
    · intro a b unsure
      rw [ExprValue.add, if_pos unsure]
    · exact add_mixed
    · exact add_plain
    · intro d i
      rw [exact.add, add_eq_left, fromInt_zero_iff exact]
  · apply agrees_iff_fit
    · intro a b unsure
      rw [ExprValue.sub, if_pos unsure]
    · exact sub_mixed
    · exact sub_plain
    · intro d i
      rw [exact.sub, sub_eq_self, fromInt_zero_iff exact]

end Rationals

/-! The rational numbers, without the functions that leave them and without literals. -/

def rationalLibrary : Library ℚ where
  zero := 0
  one := 1
  pi := 3
  e := 2
  fromInt i := i.toInt
  toInt d := Int64.ofInt (Int.tdiv d.num d.den)
  toInt64 d := Int64.ofInt (Int.tdiv d.num d.den)
  add a b := a + b
  sub a b := a - b
  mul a b := a * b
  div a b := a / b
  eq a b := a = b
  lt a b := a < b
  le a b := a ≤ b
  fabs a := |a|
  acos := id
  asin := id
  atan := id
  atanh := id
  ceil a := ⌈a⌉
  cos := id
  cosh := id
  exp := id
  floor a := ⌊a⌋
  log := id
  log10 := id
  sin := id
  sinh := id
  sqrt := id
  tan := id
  tanh := id
  fmod a b := a - b * (Int.tdiv (a / b).num (a / b).den : Int)
  pow a b := a ^ b.num
  scanLong _ := 0
  readDouble _ := (0, false)
  unsetBool := false
  unsetDouble := 0
  unsetInt := 0

theorem rational_exact : Exact rationalLibrary := by
  constructor <;> intros <;> rfl

theorem arithmetic_agrees_iff_applies :
    (Agrees ((ExprValue.ofInt rationalLibrary 2).add rationalLibrary (.ofInt rationalLibrary 3))
        ((ExprValue.ofInt rationalLibrary 2).addAssign rationalLibrary (.ofInt rationalLibrary 3)) ↔
      OperandsFit (ExprValue.ofInt rationalLibrary 2) (.ofInt rationalLibrary 3)) ∧
    (Agrees ((ExprValue.ofInt rationalLibrary 2).sub rationalLibrary (.ofInt rationalLibrary 3))
        ((ExprValue.ofInt rationalLibrary 2).subAssign rationalLibrary (.ofInt rationalLibrary 3)) ↔
      OperandsFit (ExprValue.ofInt rationalLibrary 2) (.ofInt rationalLibrary 3)) ∧
    (Negates rationalLibrary (.ofInt rationalLibrary 5) ↔
      (TokenType.integer64 = .integer64 ∧ (5 : Int64) ≠ Int64.minValue) ∨
        (TokenType.integer64 = .number ∧ (0 : ℚ) = 0)) :=
  arithmetic_agrees_iff rational_exact _ _ _ (Or.inl rfl)

def twoAndAHalf : ExprValue ℚ := .ofDouble (5 / 2)

/-- `2.5+1`, `2.5-1` and `-(2.5)`. -/
theorem mixed_operands_keep_the_left :
    ¬ Agrees (twoAndAHalf.add rationalLibrary (.ofInt rationalLibrary 1))
        (twoAndAHalf.addAssign rationalLibrary (.ofInt rationalLibrary 1)) ∧
      ¬ Agrees (twoAndAHalf.sub rationalLibrary (.ofInt rationalLibrary 1))
        (twoAndAHalf.subAssign rationalLibrary (.ofInt rationalLibrary 1)) ∧
      ¬ Negates rationalLibrary twoAndAHalf := by
  refine ⟨?_, ?_, ?_⟩
  · intro same
    have payload := (same_of_number rfl rfl).mp same
    revert payload
    decide +kernel
  · intro same
    have payload := (same_of_number rfl rfl).mp same
    revert payload
    decide +kernel
  · rintro ⟨w, negative, _, value⟩
    cases negative
    revert value
    decide +kernel

end EChainLib.Expr
