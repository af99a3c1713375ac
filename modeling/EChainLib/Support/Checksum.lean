import Mathlib

/-! Running checksums. A step that loses neither the register nor the symbol lets
no change of a single symbol through, however long the message is. -/

namespace EChainLib.Checksum

variable {Register Symbol : Type*} {step : Register → Symbol → Register}

theorem foldl_injective (keeps : ∀ symbol, Function.Injective (step · symbol))
    (message : List Symbol) : Function.Injective (message.foldl step ·) := by
  induction message with
  | nil => exact fun _ _ same => same
  | cons symbol rest ih =>
      intro register register' same
      exact keeps symbol (ih same)

/-- Error detection for one changed symbol. -/
theorem foldl_set_ne (keeps : ∀ symbol, Function.Injective (step · symbol))
    (reads : ∀ register, Function.Injective (step register)) (message : List Symbol)
    (register : Register) (i : Nat) (inside : i < message.length) (symbol : Symbol)
    (changed : symbol ≠ message[i]) :
    (message.set i symbol).foldl step register ≠ message.foldl step register := by
  induction message generalizing register i with
  | nil => simp at inside
  | cons first rest ih =>
      cases i with
      | zero =>
          intro same
          exact changed (reads register (foldl_injective keeps rest same))
      | succ i => exact ih (step register first) i (by simpa using inside) (by simpa using changed)

end EChainLib.Checksum
