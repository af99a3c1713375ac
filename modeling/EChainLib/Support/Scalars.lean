import Mathlib

/-! Multiples of a point that some number kills: only the scalar's residue
counts, so equations between scalars may be checked in `ZMod`. -/

namespace EChainLib.Scalars

variable {Point : Type*} [AddCommGroup Point] {order : Nat} {point : Point}

theorem nsmul_mod (killed : order • point = 0) (k : Nat) : (k % order) • point = k • point := by
  conv_rhs => rw [← Nat.mod_add_div k order, add_nsmul, mul_nsmul, killed, nsmul_zero, add_zero]

theorem nsmul_eq_of_cast (killed : order • point = 0) (j k : Nat)
    (same : (j : ZMod order) = (k : ZMod order)) : j • point = k • point := by
  have residues : j % order = k % order := (ZMod.natCast_eq_natCast_iff' j k order).mp same
  rw [← nsmul_mod killed j, residues, nsmul_mod killed k]

/-- `s` times the point and `t` times its `d`-fold make one multiple. -/
theorem combined (killed : order • point = 0) (s t d k : Nat)
    (same : (s : ZMod order) + t * d = k) : s • point + t • (d • point) = k • point := by
  rw [← mul_nsmul', ← add_nsmul]
  apply nsmul_eq_of_cast killed
  push_cast
  exact same

end EChainLib.Scalars
