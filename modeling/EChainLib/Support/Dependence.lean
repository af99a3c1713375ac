import Mathlib

/-! Values that carry a mark for what they depend on. A function applied to marked
values marks its result, and its failure, if one of them is marked. Two runs that
agree on all unmarked values can differ only where a mark is. -/

namespace EChainLib.Dependence

variable {Value Other Result Error : Type}

structure Marked (Value : Type) where
  value : Value
  marked : Bool

namespace Marked

def clear (value : Value) : Marked Value := ⟨value, false⟩

def pair (first : Marked Value) (second : Marked Other) : Marked (Value × Other) :=
  ⟨(first.value, second.value), first.marked || second.marked⟩

/-- What the marked value allows the value of the other run to be. -/
def Agrees (known : Marked Value) (value : Value) : Prop :=
  known.marked = false → known.value = value

theorem clear_agrees (value : Value) : (clear value).Agrees value := fun _ => rfl

theorem pair_agrees {first : Marked Value} {second : Marked Other} {value : Value} {other : Other}
    (left : first.Agrees value) (right : second.Agrees other) :
    (first.pair second).Agrees (value, other) := by
  intro unmarked
  obtain ⟨unmarkedFirst, unmarkedSecond⟩ := Bool.or_eq_false_iff.mp unmarked
  exact Prod.ext (left unmarkedFirst) (right unmarkedSecond)

def lift (f : Value → Except Error Result) (known : Marked Value) :
    Except (Error × Bool) (Marked Result) :=
  match f known.value with
  | .ok result => .ok ⟨result, known.marked⟩
  | .error error => .error (error, known.marked)

/-- A function that returns in the other run returns in this one, or fails on a
marked value. -/
theorem lift_agrees {f : Value → Except Error Result} {known : Marked Value} {value : Value}
    (agrees : known.Agrees value) {result : Result} (returns : f value = .ok result) :
    (∃ found, lift f known = .ok found ∧ found.Agrees result) ∨
      ∃ error, lift f known = .error (error, true) := by
  cases mark : known.marked with
  | true =>
      cases outcome : f known.value with
      | ok found =>
          refine Or.inl ⟨⟨found, true⟩, ?_, nofun⟩
          simp [lift, outcome, mark]
      | error error => exact Or.inr ⟨error, by simp [lift, outcome, mark]⟩
  | false =>
      have same : f known.value = .ok result := by rw [agrees mark, returns]
      refine Or.inl ⟨⟨result, false⟩, ?_, fun _ => rfl⟩
      simp [lift, same, mark]

end Marked

end EChainLib.Dependence
