import Mathlib
import EChainLib.Ec.WnafMul
import EChainLib.Support.Run

/-! `ec_wNAF_mul` on groups whose generator may have precomputed multiples. -/

namespace EChainLib.Ec

open SignedDigits

variable {P G : Type} [AddCommGroup G]

/-- An `EC_PRE_COMP` holds the multiples of `g`. -/
structure PreComp.Holds (Rep : P → G → Prop) (pre_comp : PreComp P) (g : G) : Prop where
  width : 0 < pre_comp.w
  narrow : pre_comp.w ≤ 7
  block : 0 < pre_comp.blocksize
  points : List.Forall₂ Rep pre_comp.points
    (blockTable pre_comp.blocksize (2 ^ (pre_comp.w - 1)) pre_comp.numblocks g)
  num : pre_comp.num = pre_comp.numblocks * 2 ^ (pre_comp.w - 1)

/-- Whatever generator the entry was made for, it holds its multiples. -/
def EcGroup.Sound (Rep : P → G → Prop) (group : EcGroup P) : Prop :=
  ∀ pre_comp, group.pre_comp = some pre_comp → ∃ g, pre_comp.Holds Rep g

/-! The blocks of a split wNAF. -/

theorem blockTable_drop (blocksize pre_points_per_block numblocks : Nat) (g : G) :
    (blockTable blocksize pre_points_per_block (numblocks + 1) g).drop pre_points_per_block =
      blockTable blocksize pre_points_per_block numblocks ((2 : Int) ^ blocksize • g) := by
  rw [blockTable]
  exact List.drop_left' (oddTable_length g pre_points_per_block)

/-- The rows add up to this element. -/
inductive Rows (Rep : P → G → Prop) : List (Row P) → G → Prop
  | nil : Rows Rep [] 0
  | cons {row : Row P} {rows : List (Row P)} {base total : G} (selects : Selects Rep row base)
      (later : Rows Rep rows total) : Rows Rep (row :: rows) (value row.wNAF • base + total)

namespace Rows
variable {Rep : P → G → Prop} {row : Row P} {rows : List (Row P)} {base total : G}

theorem bases (all : Rows Rep rows total) :
    ∃ bases, List.Forall₂ (Selects Rep) rows bases ∧
      valueFrom (digitRows rows bases) 0 = total := by
  induction all with
  | nil => exact ⟨[], .nil, rfl⟩
  | cons selects later ih =>
      obtain ⟨bases, all, same⟩ := ih
      exact ⟨_ :: bases, .cons selects all, same ▸ rfl⟩

theorem single (selects : Selects Rep row base) : Rows Rep [row] (value row.wNAF • base) := by
  have alone := cons selects nil
  rwa [add_zero] at alone

theorem append {more : List (Row P)} {other : G} (left : Rows Rep rows total)
    (right : Rows Rep more other) : Rows Rep (rows ++ more) (total + other) := by
  induction left with
  | nil => rwa [zero_add]
  | cons selects later ih =>
      rw [add_assoc]
      exact cons selects ih

theorem of_terms {terms : List (P × BigNum)} {gs : List G} (all : TermRows Rep terms gs rows) :
    Rows Rep rows (List.zipWith (fun term g => term.2.toInt • g) terms gs).sum := by
  induction all with
  | nil => exact nil
  | cons term later ih =>
      have row := cons term.selects ih
      rwa [term.wNAF.spells] at row

end Rows

theorem Selects.of_block {Rep : P → G → Prop} {pp : List Int} {tmp_points : List P}
    {blocksize w numblocks : Nat} {g : G} (width : 0 < w)
    (small : ∀ digit ∈ pp, |digit| < 2 ^ w) (odd : ∀ digit ∈ pp, digit ≠ 0 → Odd digit)
    (points : List.Forall₂ Rep tmp_points (blockTable blocksize (2 ^ (w - 1)) (numblocks + 1) g)) :
    Selects Rep ⟨pp, tmp_points⟩ g :=
  selects_of_table width small odd points

theorem block_not_empty {Rep : P → G → Prop} {tmp_points : List P} {blocksize w numblocks : Nat}
    {g : G}
    (points : List.Forall₂ Rep tmp_points (blockTable blocksize (2 ^ (w - 1)) (numblocks + 1) g)) :
    tmp_points.isEmpty = false := by
  have length := points.length_eq
  have positive := Nat.two_pow_pos (w - 1)
  rw [blockTable, List.length_append, oddTable_length] at length
  exact List.isEmpty_eq_false_iff.mpr (List.ne_nil_of_length_pos (by omega))

theorem splitBlocks_rows {Rep : P → G → Prop} {blocksize w : Nat} (width : 0 < w)
    (numblocks more : Nat) {pp : List Int} {tmp_points : List P} {g : G}
    (small : ∀ digit ∈ pp, |digit| < 2 ^ w) (odd : ∀ digit ∈ pp, digit ≠ 0 → Odd digit)
    (points : List.Forall₂ Rep tmp_points
      (blockTable blocksize (2 ^ (w - 1)) (numblocks + 1 + more) g))
    (long : numblocks * blocksize ≤ pp.length) :
    ∃ rows, splitBlocks blocksize (2 ^ (w - 1)) (numblocks + 1) pp tmp_points = some rows ∧
      Rows Rep rows (value pp • g) := by
  induction numblocks generalizing pp tmp_points g with
  | zero =>
      rw [Nat.zero_add, Nat.add_comm] at points
      have full := block_not_empty points
      refine ⟨[⟨pp, tmp_points⟩], by simp [splitBlocks, full], ?_⟩
      exact Rows.single (Selects.of_block width small odd points)
  | succ numblocks ih =>
      have count : numblocks + 1 + 1 + more = numblocks + 1 + more + 1 := by omega
      rw [count] at points
      have full := block_not_empty points
      have later_points := List.forall₂_drop (2 ^ (w - 1)) points
      rw [blockTable_drop] at later_points
      rw [Nat.add_mul, Nat.one_mul] at long
      obtain ⟨rows, split, all⟩ := @ih (pp.drop blocksize) _ _
        (fun digit member => small digit (List.mem_of_mem_drop member))
        (fun digit member => odd digit (List.mem_of_mem_drop member)) later_points
        (by rw [List.length_drop]; omega)
      have room : ¬ pp.length < blocksize := by omega
      refine ⟨⟨pp.take blocksize, tmp_points⟩ :: rows, by simp [splitBlocks, room, full, split], ?_⟩
      rw [value_blocks blocksize pp g]
      exact Rows.cons (Selects.of_block width
        (fun digit member => small digit (List.mem_of_mem_take member))
        (fun digit member => odd digit (List.mem_of_mem_take member)) points) all

/-- The blocks that `ec_wNAF_mul` makes of a scalar are among those of the entry. -/
theorem precomputedRows_rows {Rep : P → G → Prop} {pre_comp : PreComp P} {g : G}
    (holds : pre_comp.Holds Rep g) (scalar : BigNum) {numblocks : Nat} (some_blocks : 0 < numblocks)
    (few : numblocks ≤ pre_comp.numblocks) (max_len : Nat) :
    ∃ rows, precomputedRows pre_comp numblocks scalar max_len = some rows ∧
      Rows Rep rows (scalar.toInt • g) := by
  obtain ⟨wNAF, computed, is_wNAF⟩ :=
    computeWNAF_isWNAF scalar pre_comp.w holds.width holds.narrow
  have points := holds.points
  have split : ∀ blocks, blocks + 1 ≤ pre_comp.numblocks →
      blocks * pre_comp.blocksize ≤ wNAF.length →
      ∃ rows, splitBlocks pre_comp.blocksize (2 ^ (pre_comp.w - 1)) (blocks + 1) wNAF
          pre_comp.points = some rows ∧ Rows Rep rows (scalar.toInt • g) := by
    intro blocks within long
    obtain ⟨more, total⟩ := Nat.exists_eq_add_of_le within
    rw [total] at points
    rw [← is_wNAF.spells]
    exact splitBlocks_rows holds.width blocks more is_wNAF.sparse.small is_wNAF.sparse.odd points
      long
  rw [precomputedRows, computed]
  simp only [Option.bind_eq_bind, Option.bind_some]
  by_cases short : wNAF.length ≤ max_len
  · obtain ⟨more, total⟩ := Nat.exists_eq_succ_of_ne_zero (lt_of_lt_of_le some_blocks few).ne'
    rw [total] at points
    refine ⟨_, if_pos short, ?_⟩
    rw [← is_wNAF.spells]
    have selects : Selects Rep ⟨wNAF, pre_comp.points⟩ g :=
      .of_block holds.width is_wNAF.sparse.small is_wNAF.sparse.odd points
    exact .single selects
  rw [if_neg short]
  by_cases fewer : wNAF.length < numblocks * pre_comp.blocksize
  · obtain ⟨blocks, rounded⟩ : ∃ blocks,
        (wNAF.length + pre_comp.blocksize - 1) / pre_comp.blocksize = blocks + 1 := by
      refine Nat.exists_eq_succ_of_ne_zero (Nat.div_pos ?_ holds.block).ne'
      have block := holds.block
      omega
    have below : blocks * pre_comp.blocksize < wNAF.length := by
      have product := Nat.div_mul_le_self (wNAF.length + pre_comp.blocksize - 1) pre_comp.blocksize
      rw [rounded, Nat.add_mul, Nat.one_mul] at product
      have block := holds.block
      omega
    have enough : blocks < numblocks :=
      Nat.lt_of_mul_lt_mul_right (below.trans fewer)
    rw [if_pos fewer, rounded, if_neg (by omega)]
    exact split blocks (by omega) below.le
  · obtain ⟨blocks, rfl⟩ := Nat.exists_eq_succ_of_ne_zero some_blocks.ne'
    rw [if_neg fewer]
    rw [Nat.succ_eq_add_one, Nat.add_mul, Nat.one_mul] at fewer
    exact split blocks few (by omega)

section
variable {meth : Method P} {Rep : P → G → Prop} (lawful : Lawful meth Rep)
include lawful

theorem sumRows_total {rows : List (Row P)} {total : G} (all : Rows Rep rows total) (r : P) :
    ∃ p, sumRows meth r rows = some p ∧ Rep p total := by
  obtain ⟨bases, selects, rfl⟩ := all.bases
  exact sumRows_rep lawful selects r

end

/-! `ec_wNAF_precompute_mult`. -/

section
variable {meth : Method P} {Rep : P → G → Prop} (lawful : Lawful meth Rep)
include lawful

theorem dbls_rep (count : List Nat) {base : P} {g : G} (rep : Rep base g) :
    ∃ next, count.foldlM (fun base _ => meth.dbl base) base = some next ∧
      Rep next ((2 : Int) ^ count.length • g) := by
  induction count generalizing base g with
  | nil => exact ⟨base, rfl, by simpa using rep⟩
  | cons k rest ih =>
      obtain ⟨double, doubles, double_rep⟩ := lawful.dbl rep
      obtain ⟨next, later, next_rep⟩ := ih double_rep
      refine ⟨next, by rw [List.foldlM_cons, doubles]; exact later, ?_⟩
      rwa [List.length_cons, pow_succ, mul_smul]

theorem nextBase_rep {tmp_point : P} {g : G} {blocksize : Nat} (large : 2 ≤ blocksize)
    (rep : Rep tmp_point ((2 : Int) • g)) :
    ∃ next, nextBase meth tmp_point blocksize = some next ∧
      Rep next ((2 : Int) ^ blocksize • g) := by
  obtain ⟨double, doubles, double_rep⟩ := lawful.dbl rep
  obtain ⟨next, later, next_rep⟩ := dbls_rep lawful (List.range (blocksize - 2)) double_rep
  refine ⟨next, by simp [nextBase, doubles, later], ?_⟩
  have exponent : (2 : Int) ^ blocksize = 2 ^ (blocksize - 2) * 2 * 2 := by
    rw [mul_assoc, ← pow_two, ← pow_add, Nat.sub_add_cancel large]
  rwa [List.length_range, ← mul_smul, ← mul_smul, ← exponent] at next_rep

theorem blockPoints_rep {blocksize pre_points_per_block : Nat} (large : 2 ≤ blocksize)
    (some_points : 0 < pre_points_per_block) (numblocks : Nat) {base : P} {g : G}
    (rep : Rep base g) :
    ∃ points, blockPoints meth blocksize pre_points_per_block numblocks base = some points ∧
      List.Forall₂ Rep points (blockTable blocksize pre_points_per_block numblocks g) := by
  induction numblocks generalizing base g with
  | zero => exact ⟨[], rfl, .nil⟩
  | succ numblocks ih =>
      obtain ⟨tmp_point, doubles, double_rep⟩ := lawful.dbl rep
      have steps : ∀ p h, Rep p h → ∃ q, meth.add tmp_point p = some q ∧
          Rep q (h + (2 : Int) • g) := by
        intro p h p_rep
        obtain ⟨q, added, q_rep⟩ := lawful.add double_rep p_rep
        exact ⟨q, added, by rwa [add_comm]⟩
      obtain ⟨later, stepped_to, later_rep⟩ :=
        stepped_rep (fun last => meth.add tmp_point last) steps
          (pre_points_per_block - 1) rep
      have block : List.Forall₂ Rep (base :: later) (oddTable g pre_points_per_block) := by
        have one_more : pre_points_per_block = pre_points_per_block - 1 + 1 := by omega
        rw [one_more, oddTable_succ]
        exact .cons rep later_rep
      by_cases last : numblocks = 0
      · refine ⟨base :: later, by simp [blockPoints, doubles, stepped_to, last], ?_⟩
        rw [last, blockTable, blockTable, List.append_nil]
        exact block
      · obtain ⟨next, moved, next_rep⟩ := nextBase_rep lawful large double_rep
        obtain ⟨points, others, points_rep⟩ := ih next_rep
        refine ⟨base :: later ++ points, ?_, List.rel_append block points_rep⟩
        simp [blockPoints, doubles, stepped_to, last, moved, others]

end

/-- What a call of `ec_wNAF_precompute_mult` that succeeds stores. -/
theorem precompute_holds {group : EcGroup P} {Rep : P → G → Prop} (lawful : Lawful group.meth Rep)
    {generator : P} {g : G} (here : group.generator = some generator) (rep : Rep generator g)
    (order : group.order.magnitude ≠ 0) :
    ∃ pre_comp, precompute group = some pre_comp ∧ pre_comp.Holds Rep g ∧
      0 < pre_comp.numblocks := by
  have known : group.order.isZero = false := by
    rw [Bool.eq_false_iff]
    exact fun zero => order ((BigNum.isZero_iff _).mp zero)
  obtain ⟨w, wide⟩ : ∃ w, w =
      if windowBits group.order.numBits > 4 then windowBits group.order.numBits else 4 := ⟨_, rfl⟩
  have width : 0 < w ∧ w ≤ 7 := by
    have range := windowBits_range group.order.numBits
    rw [wide]
    split_ifs <;> omega
  obtain ⟨points, computed, points_rep⟩ := blockPoints_rep lawful (show 2 ≤ 8 by decide)
    (Nat.two_pow_pos (w - 1)) ((group.order.numBits + 8 - 1) / 8) rep
  obtain ⟨affine, made, affine_rep⟩ := lawful.make_affine points_rep
  have entry : precompute group = some ⟨8, (group.order.numBits + 8 - 1) / 8, w, affine,
      2 ^ (w - 1) * ((group.order.numBits + 8 - 1) / 8)⟩ := by
    simp only [precompute, here, known, Option.bind_eq_bind, Option.bind_some, Bool.false_eq_true,
      if_false, ← wide, computed, made]
    rfl
  refine ⟨_, entry, ?_, ?_⟩
  · exact {
      width := width.1
      narrow := width.2
      block := Nat.zero_lt_succ 7
      points := affine_rep
      num := Nat.mul_comm _ _ }
  · have some_bits : 0 < group.order.numBits := Nat.size_pos.mpr (Nat.pos_of_ne_zero order)
    exact Nat.div_pos (by omega) (by decide)

/-! The multiplication. -/

/-- The sum that `ec_wNAF_mul` is for. -/
def combination (terms : List (P × BigNum)) (gs : List G) : G :=
  (List.zipWith (fun term g => term.2.toInt • g) terms gs).sum

theorem combination_snoc {terms : List (P × BigNum)} {gs : List G} (length : terms.length = gs.length)
    (point : P) (scalar : BigNum) (g : G) :
    combination (terms ++ [(point, scalar)]) (gs ++ [g]) =
      combination terms gs + scalar.toInt • g := by
  rw [combination, List.zipWith_append length, List.sum_append]
  simp [combination]

/-- The plans that lead to the product of `scalar` with `g`. -/
inductive PlansFor (Rep : P → G → Prop) (scalar : BigNum) (g : G) : Plan P → Prop
  | asTerm {generator : P} (rep : Rep generator g) : PlansFor Rep scalar g (.asTerm generator scalar)
  | precomputed {pre_comp : PreComp P} {numblocks : Nat} (holds : pre_comp.Holds Rep g)
      (some_blocks : 0 < numblocks) (few : numblocks ≤ pre_comp.numblocks) :
      PlansFor Rep scalar g (.precomputed pre_comp numblocks scalar)

/-- An entry is used for the generator that it was made for, and for no other. -/
theorem generatorPlan_plans {group : EcGroup P} {Rep : P → G → Prop}
    (lawful : Lawful group.meth Rep) (sound : group.Sound Rep) (scalar : BigNum) {generator : P}
    {g : G} (here : group.generator = some generator) (rep : Rep generator g) :
    ∃ plan, generatorPlan group (some scalar) = some plan ∧ PlansFor Rep scalar g plan := by
  simp only [generatorPlan, here, Option.bind_eq_bind, Option.bind_some]
  cases entry : group.pre_comp with
  | none => exact ⟨_, rfl, .asTerm rep⟩
  | some pre_comp =>
      obtain ⟨base, holds⟩ := sound pre_comp entry
      by_cases empty : pre_comp.numblocks = 0
      · exact ⟨_, if_pos empty, .asTerm rep⟩
      obtain ⟨blocks, count⟩ := Nat.exists_eq_succ_of_ne_zero empty
      have points := holds.points
      rw [count, Nat.succ_eq_add_one, blockTable] at points
      have head : (oddTable base (2 ^ (pre_comp.w - 1)) ++ blockTable pre_comp.blocksize
          (2 ^ (pre_comp.w - 1)) blocks ((2 : Int) ^ pre_comp.blocksize • base))[0]? =
            some base := by
        rw [List.getElem?_append_left (by rw [oddTable_length]; exact Nat.two_pow_pos _),
          oddTable_getElem? base (Nat.two_pow_pos _)]
        simp
      obtain ⟨first, first_here, first_rep⟩ := forall₂_getElem? points head
      simp only [if_neg empty, first_here, Option.bind_some]
      by_cases same : group.meth.pointCmp generator first = 0
      · obtain rfl := (lawful.cmp rep first_rep).mp same
        rw [if_pos same, if_neg (not_not.mpr holds.num)]
        generalize scalar.numBits / pre_comp.blocksize = whole
        refine ⟨_, rfl, .precomputed holds ?_ ?_⟩
        · split_ifs <;> omega
        · split_ifs <;> omega
      · exact ⟨_, if_neg same, .asTerm rep⟩

section
variable {group : EcGroup P} {Rep : P → G → Prop} (lawful : Lawful group.meth Rep)
include lawful

theorem terms_sum {terms : List (P × BigNum)} {gs : List G}
    (points : List.Forall₂ (fun term g => Rep term.1 g) terms gs) :
    ∃ rows affine, termRows group.meth terms = some rows ∧
      makeAffine group.meth rows = some affine ∧ Rows Rep affine (combination terms gs) := by
  obtain ⟨rows, computed, all⟩ := termRows_rows lawful points
  obtain ⟨affine, made, affine_all⟩ := makeAffine_rows lawful all
  exact ⟨rows, affine, computed, made, Rows.of_terms affine_all⟩

theorem ecWNAFMul_without {terms : List (P × BigNum)} {gs : List G}
    (points : List.Forall₂ (fun term g => Rep term.1 g) terms gs) (r : P) :
    ∃ p, ecWNAFMul group r none terms = some p ∧ Rep p (combination terms gs) := by
  cases points with
  | nil => exact ⟨_, rfl, lawful.infinity r⟩
  | cons head tail =>
      obtain ⟨rows, affine, computed, made, all⟩ := terms_sum lawful (.cons head tail)
      obtain ⟨p, summed, rep⟩ := sumRows_total lawful all r
      refine ⟨p, ?_, rep⟩
      simp only [ecWNAFMul, List.isEmpty_cons, Bool.false_eq_true, and_false, if_false,
        generatorPlan, Option.bind_eq_bind, Option.bind_some, computed, made, summed]

theorem ecWNAFMul_with (sound : group.Sound Rep) {terms : List (P × BigNum)} {gs : List G}
    (points : List.Forall₂ (fun term g => Rep term.1 g) terms gs) (scalar : BigNum) {generator : P}
    {g : G} (here : group.generator = some generator) (rep : Rep generator g) (r : P) :
    ∃ p, ecWNAFMul group r (some scalar) terms = some p ∧
      Rep p (combination terms gs + scalar.toInt • g) := by
  obtain ⟨plan, planned, plans⟩ := generatorPlan_plans lawful sound scalar here rep
  simp only [ecWNAFMul, Option.isNone_some, Bool.false_eq_true, false_and, if_false, planned,
    Option.bind_eq_bind, Option.bind_some]
  cases plans with
  | asTerm point_rep =>
      rename_i point
      have more : List.Forall₂ (fun term g => Rep term.1 g) (terms ++ [(point, scalar)])
          (gs ++ [g]) := List.rel_append points (.cons point_rep .nil)
      obtain ⟨rows, affine, computed, made, all⟩ := terms_sum lawful more
      rw [combination_snoc points.length_eq] at all
      obtain ⟨p, summed, p_rep⟩ := sumRows_total lawful all r
      exact ⟨p, by simp only [computed, made, summed, Option.bind_some], p_rep⟩
  | precomputed holds some_blocks few =>
      obtain ⟨rows, affine, computed, made, all⟩ := terms_sum lawful points
      obtain ⟨blocks, split, blocks_all⟩ :=
        precomputedRows_rows holds scalar some_blocks few (maxLen rows)
      obtain ⟨p, summed, p_rep⟩ := sumRows_total lawful (all.append blocks_all) r
      exact ⟨p, by simp only [computed, made, split, summed, Option.bind_some], p_rep⟩

end

/-! Runs of calls on a group. -/

theorem ecWNAFPrecomputeMult_sound {group : EcGroup P} {Rep : P → G → Prop}
    (lawful : Lawful group.meth Rep)
    (standing : ∀ generator, group.generator = some generator → ∃ g, Rep generator g) :
    (ecWNAFPrecomputeMult group).1.Sound Rep := by
  intro pre_comp entry
  rw [ecWNAFPrecomputeMult] at entry
  cases made : precompute group with
  | none =>
      rw [made] at entry
      cases entry
  | some stored =>
      rw [made] at entry
      obtain rfl := Option.some.inj entry
      cases here : group.generator with
      | none => simp [precompute, here] at made
      | some generator =>
          obtain ⟨g, rep⟩ := standing generator here
          by_cases order : group.order.magnitude = 0
          · simp [precompute, here, BigNum.isZero, order] at made
          · obtain ⟨computed, same, holds, -⟩ := precompute_holds lawful here rep order
            obtain rfl := Option.some.inj (made.symm.trans same)
            exact ⟨g, holds⟩

/-- What the calls keep of a group. -/
structure Kept (meth : Method P) (Rep : P → G → Prop) (group : EcGroup P) : Prop where
  method : group.meth = meth
  generator : ∀ generator, group.generator = some generator → ∃ g, Rep generator g
  entry : group.Sound Rep
  unset : group.generator = none → group.pre_comp = none

def Standing (Rep : P → G → Prop) : GroupCall P → Prop
  | .setGenerator generator _ _ => ∃ g, Rep generator g
  | .precomputeMult => True

theorem ecWNAFPrecomputeMult_frame (group : EcGroup P) :
    (ecWNAFPrecomputeMult group).1.meth = group.meth ∧
      (ecWNAFPrecomputeMult group).1.generator = group.generator := by
  rw [ecWNAFPrecomputeMult]
  cases precompute group <;> exact ⟨rfl, rfl⟩

theorem ecWNAFPrecomputeMult_unset {group : EcGroup P} (here : group.generator = none) :
    (ecWNAFPrecomputeMult group).1.pre_comp = none := by
  have fails : precompute group = none := by simp [precompute, here]
  rw [ecWNAFPrecomputeMult, fails]

theorem callGroup_kept {meth : Method P} {Rep : P → G → Prop} (lawful : Lawful meth Rep)
    (group : EcGroup P) (call : GroupCall P) (kept : Kept meth Rep group)
    (standing : Standing Rep call) : Kept meth Rep (callGroup group call) := by
  obtain ⟨rfl, generator, entry, unset⟩ := kept
  cases call with
  | setGenerator point order cofactor =>
      exact ⟨rfl, fun other same => Option.some.inj same ▸ standing, entry, fun none => by cases none⟩
  | precomputeMult =>
      obtain ⟨method, generator_kept⟩ := ecWNAFPrecomputeMult_frame group
      exact ⟨method, fun other same => generator other (generator_kept ▸ same),
        ecWNAFPrecomputeMult_sound lawful generator,
        fun none => ecWNAFPrecomputeMult_unset (generator_kept ▸ none)⟩

theorem kept_after_calls {meth : Method P} {Rep : P → G → Prop} (lawful : Lawful meth Rep)
    (calls : List (GroupCall P)) (standing : ∀ call ∈ calls, Standing Rep call) :
    ∀ group ∈ Run.states callGroup (ecGroupNew meth) calls, Kept meth Rep group := by
  have start : Kept meth Rep (ecGroupNew meth) :=
    ⟨rfl, fun generator here => absurd here (by simp [ecGroupNew]),
      fun pre_comp here => absurd here (by simp [ecGroupNew]), fun _ => rfl⟩
  exact Run.invariant_along callGroup (fun _ call => Standing Rep call) (Kept meth Rep)
    (callGroup_kept lawful) _ calls start
    (Run.meets_of_forall callGroup (Standing Rep) _ calls standing)

theorem ecWNAFMul_unset {group : EcGroup P} (here : group.generator = none) (r : P)
    (scalar : BigNum) (terms : List (P × BigNum)) :
    ecWNAFMul group r (some scalar) terms = none := by
  simp [ecWNAFMul, generatorPlan, here]

/-- `ec_wNAF_mul` computes the sum of the terms, and with a scalar the product of the generator too;
it fails only where that is asked for and no generator is set. -/
def WNAFMultiplies (Rep : P → G → Prop) (group : EcGroup P) (r : P) (terms : List (P × BigNum))
    (gs : List G) : Prop :=
  (∃ p, ecWNAFMul group r none terms = some p ∧ Rep p (combination terms gs)) ∧
    ∀ scalar,
      (group.generator = none ∧ ecWNAFMul group r (some scalar) terms = none) ∨
      ∃ generator g p, group.generator = some generator ∧ Rep generator g ∧
        ecWNAFMul group r (some scalar) terms = some p ∧
        Rep p (combination terms gs + scalar.toInt • g)

/-- Generators may be changed and multiples precomputed in any order: each product is of the
generator that is set when it is computed. -/
theorem ecWNAFMul_after_calls {meth : Method P} {Rep : P → G → Prop} (lawful : Lawful meth Rep)
    (calls : List (GroupCall P)) (standing : ∀ call ∈ calls, Standing Rep call)
    (terms : List (P × BigNum)) (gs : List G)
    (points : List.Forall₂ (fun term g => Rep term.1 g) terms gs) (r : P) :
    ∀ group ∈ Run.states callGroup (ecGroupNew meth) calls,
      WNAFMultiplies Rep group r terms gs := by
  intro group reached
  obtain ⟨rfl, generator_standing, entry, -⟩ := kept_after_calls lawful calls standing group reached
  refine ⟨ecWNAFMul_without lawful points r, fun scalar => ?_⟩
  cases here : group.generator with
  | none => exact .inl ⟨rfl, ecWNAFMul_unset here r scalar terms⟩
  | some generator =>
      obtain ⟨g, rep⟩ := generator_standing generator here
      obtain ⟨p, computed, p_rep⟩ := ecWNAFMul_with lawful entry points scalar here rep r
      exact .inr ⟨generator, g, p, rfl, rep, computed, p_rep⟩

/-- The integers as a group of points. -/
def integers : Method Int where
  setToInfinity _ := 0
  add a b := some (a + b)
  dbl a := some (2 * a)
  invert a := some (-a)
  isAtInfinity a := a = 0
  isOnCurve _ := 1
  pointCmp a b := if a = b then 0 else 1
  pointsMakeAffine := some

theorem integers_lawful : Lawful integers (fun a b : Int => a = b) where
  infinity _ := rfl
  add := by
    rintro a b - - rfl rfl
    exact ⟨a + b, rfl, rfl⟩
  dbl := by
    rintro a - rfl
    exact ⟨2 * a, rfl, rfl⟩
  invert := by
    rintro a - rfl
    exact ⟨-a, rfl, rfl⟩
  at_infinity := by
    rintro a - rfl
    exact decide_eq_true_iff
  on_curve _ := Int.one_pos
  cmp := by
    rintro a b - - rfl rfl
    simp [integers]
  make_affine {points gs} all := ⟨points, rfl, all⟩

theorem ecWNAFMul_after_calls_of_integers :
    WNAFMultiplies (fun a b : Int => a = b)
      (Run.final callGroup (ecGroupNew integers)
        [.setGenerator 5 ⟨false, 1000⟩ ⟨false, 1⟩, .precomputeMult,
          .setGenerator 7 ⟨false, 77⟩ ⟨false, 1⟩])
      0 [(2, ⟨true, 300⟩)] [2] :=
  ecWNAFMul_after_calls integers_lawful _ (by simp [Standing]) _ _ (.cons rfl .nil) 0 _
    (Run.final_mem_states _ _ _)

end EChainLib.Ec
