import Mathlib

/-! Partial maps written over one another. A layer answers for the keys it has
an entry for, by a value or by an absence, and leaves every other key to the map
below it. Nothing here knows what the layers record. -/

namespace EChainLib.Overlay

variable {Key Value : Type*}

/-- `none` leaves the key to the map below; `some none` hides it. -/
abbrev Layer (Key Value : Type*) := Key → Option (Option Value)

def overlay (layer : Layer Key Value) (base : Key → Option Value) : Key → Option Value :=
  fun key => (layer key).getD (base key)

def stack (base : Key → Option Value) : List (Layer Key Value) → Key → Option Value
  | [] => base
  | layer :: below => overlay layer (stack base below)

/-- The single layer that has the effect of `upper` over `lower`. -/
def compose (upper lower : Layer Key Value) : Layer Key Value :=
  fun key => (upper key).or (lower key)

theorem overlay_some (layer : Layer Key Value) (base : Key → Option Value) (key : Key)
    (entry : Option Value) (present : layer key = some entry) :
    overlay layer base key = entry := by
  simp [overlay, present]

theorem overlay_none (layer : Layer Key Value) (base : Key → Option Value) (key : Key)
    (absent : layer key = none) : overlay layer base key = base key := by
  simp [overlay, absent]

theorem overlay_compose (upper lower : Layer Key Value) (base : Key → Option Value) :
    overlay (compose upper lower) base = overlay upper (overlay lower base) := by
  funext key
  cases found : upper key <;> simp [overlay, compose, found]

/-- `folded` may stand for `upper` over `lower` on `base`: it keeps the composed
entry, or drops one that only hides a key the base does not have. -/
def Folds (folded upper lower : Layer Key Value) (base : Key → Option Value) (key : Key) : Prop :=
  folded key = compose upper lower key ∨
    (folded key = none ∧ compose upper lower key = some none ∧ base key = none)

theorem folds_exact (folded upper lower : Layer Key Value) (base : Key → Option Value)
    (key : Key) (folds : Folds folded upper lower base key) :
    overlay folded base key = overlay upper (overlay lower base) key := by
  rw [← overlay_compose]
  rcases folds with same | ⟨dropped, hidden, absent⟩
  · simp [overlay, same]
  · simp [overlay, dropped, hidden, absent]

/-- Dropping the entry that hides a key of the base uncovers that key. -/
theorem dropped_uncovers (folded upper lower : Layer Key Value) (base : Key → Option Value)
    (key : Key) (dropped : folded key = none) (hidden : compose upper lower key = some none)
    (present : (base key).isSome) :
    overlay folded base key ≠ overlay upper (overlay lower base) key := by
  rw [← overlay_compose, overlay_none folded base key dropped, overlay_some _ base key none hidden]
  exact Option.isSome_iff_ne_none.mp present

end EChainLib.Overlay
