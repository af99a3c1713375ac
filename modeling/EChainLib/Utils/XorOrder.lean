import Mathlib.Data.List.Lex
import EChainLib.Keys.KeyElement

/-! `String::LessThanXored`, which orders the texts of one length by their distance to a text. -/

namespace EChainLib.Utils

open EChainLib.Keys (Bytes)

/-- `v1` and `v2`: the text as `x` sees it, byte by byte. -/
def xored (x s : Bytes) : Bytes := List.zipWith (· ^^^ ·) x s

/-- The texts are compared as `std::string` does it, by unsigned bytes and then by length. -/
def lessThanXored (l r x : Bytes) : Bool :=
  if l.length ≠ r.length ∨ r.length ≠ x.length then false
  else decide (xored x l < xored x r)

/-- Of the texts as long as `x`, `least` is below every other. -/
structure Nearest (x least : Bytes) : Prop where
  same_length : least.length = x.length
  below : ∀ r : Bytes, r.length = x.length → r ≠ least → lessThanXored least r x = true

/-- The laws of a strict total order on the texts as long as `x`. -/
structure DistanceOrder (x : Bytes) : Prop where
  irreflexive : ∀ l : Bytes, l.length = x.length → lessThanXored l l x = false
  asymmetric : ∀ l r : Bytes, l.length = x.length → r.length = x.length →
    lessThanXored l r x = true → lessThanXored r l x = false
  transitive : ∀ l m r : Bytes, l.length = x.length → m.length = x.length → r.length = x.length →
    lessThanXored l m x = true → lessThanXored m r x = true → lessThanXored l r x = true
  total : ∀ l r : Bytes, l.length = x.length → r.length = x.length → l ≠ r →
    lessThanXored l r x = true ∨ lessThanXored r l x = true

theorem xored_length (x s : Bytes) (same : s.length = x.length) :
    (xored x s).length = x.length := by
  rw [xored, List.length_zipWith, same, Nat.min_self]

theorem xored_xored (x s : Bytes) (same : s.length = x.length) : xored x (xored x s) = s := by
  induction x generalizing s with
  | nil =>
      rw [List.length_nil, List.length_eq_zero_iff] at same
      rw [same]
      rfl
  | cons mask x ih =>
      obtain ⟨byte, s, rfl⟩ := List.exists_cons_of_length_eq_add_one same
      have tail := ih s (by simpa using same)
      have head : mask ^^^ (mask ^^^ byte) = byte := by
        rw [← UInt8.xor_assoc, UInt8.xor_self, UInt8.zero_xor]
      simp only [xored, List.zipWith_cons_cons] at tail ⊢
      rw [head, tail]

/-- No two texts of the length of `x` are seen alike. -/
theorem xored_injective (x l r : Bytes) (left : l.length = x.length) (right : r.length = x.length)
    (alike : xored x l = xored x r) : l = r := by
  rw [← xored_xored x l left, alike, xored_xored x r right]

theorem xored_self (x : Bytes) : xored x x = List.replicate x.length 0 := by
  induction x with
  | nil => rfl
  | cons byte x ih =>
      rw [xored] at ih
      rw [xored, List.zipWith_cons_cons, UInt8.xor_self, ih, List.length_cons, List.replicate_succ]

theorem lessThanXored_iff (l r x : Bytes) (left : l.length = x.length)
    (right : r.length = x.length) :
    lessThanXored l r x = true ↔ xored x l < xored x r := by
  have lengths : ¬ (l.length ≠ r.length ∨ r.length ≠ x.length) := by
    rw [left, right]
    simp
  rw [lessThanXored, if_neg lengths, decide_eq_true_iff]

theorem lessThanXored_lengths (l r x : Bytes) (differ : l.length ≠ r.length ∨ r.length ≠ x.length) :
    lessThanXored l r x = false := if_pos differ

/-- Bytes that are all 0 come before any others of their number. -/
theorem zeros_lt (v : Bytes) (other : v ≠ List.replicate v.length 0) :
    List.replicate v.length 0 < v := by
  induction v with
  | nil => exact absurd rfl other
  | cons byte v ih =>
      rw [List.length_cons, List.replicate_succ] at other ⊢
      rw [List.cons_lt_cons_iff]
      by_cases zero : byte = 0
      · subst zero
        exact .inr ⟨rfl, ih fun same => other (congrArg (0 :: ·) same)⟩
      · exact .inl (UInt8.pos_iff_ne_zero.mpr zero)

theorem distanceOrder (x : Bytes) : DistanceOrder x := by
  constructor
  · intro l left
    rw [Bool.eq_false_iff, ne_eq, lessThanXored_iff l l x left left]
    exact List.lt_irrefl _
  · intro l r left right less
    rw [lessThanXored_iff l r x left right] at less
    rw [Bool.eq_false_iff, ne_eq, lessThanXored_iff r l x right left]
    exact List.lt_asymm less
  · intro l m r left middle right first second
    rw [lessThanXored_iff l m x left middle] at first
    rw [lessThanXored_iff m r x middle right] at second
    rw [lessThanXored_iff l r x left right]
    exact List.lt_trans first second
  · intro l r left right differ
    rw [lessThanXored_iff l r x left right, lessThanXored_iff r l x right left]
    have apart : xored x l ≠ xored x r := fun alike =>
      differ (xored_injective x l r left right alike)
    rcases trichotomous_of (fun v w : Bytes => v < w) (xored x l) (xored x r) with less | same | more
    · exact .inl less
    · exact absurd same apart
    · exact .inr more

theorem nearest_self (x : Bytes) : Nearest x x := by
  refine ⟨rfl, fun r right differ => ?_⟩
  have length := xored_length x r right
  have other : xored x r ≠ List.replicate (xored x r).length 0 := by
    rw [length, ← xored_self]
    exact fun alike => differ (xored_injective x r x right rfl alike)
  have less := zeros_lt (xored x r) other
  rw [length, ← xored_self] at less
  exact (lessThanXored_iff x r x rfl right).mpr less

/-- Ordered by their distance to `x`, the texts of its length are strictly and totally ordered,
`x` alone is the first of them, and texts of different lengths are never less. -/
theorem lessThanXored_order (x : Bytes) :
    DistanceOrder x ∧ (∀ least : Bytes, Nearest x least ↔ least = x) ∧
      ∀ l r : Bytes, l.length ≠ r.length ∨ r.length ≠ x.length → lessThanXored l r x = false := by
  refine ⟨distanceOrder x, fun least => ⟨fun nearest => ?_, ?_⟩,
    fun l r differ => lessThanXored_lengths l r x differ⟩
  · by_contra differ
    -- each of the two would be below the other
    have down := nearest.below x rfl (Ne.symm differ)
    have up := (nearest_self x).below least nearest.same_length differ
    have never := (distanceOrder x).asymmetric x least rfl nearest.same_length up
    exact Bool.false_ne_true (never.symm.trans down)
  · rintro rfl
    exact nearest_self least

end EChainLib.Utils
