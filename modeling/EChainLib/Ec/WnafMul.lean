import Mathlib
import EChainLib.Ec.Method
import EChainLib.Support.Run

/-! What `ec_wNAF_mul` computes, with and without precomputed multiples of the generator. -/

namespace EChainLib.Ec

open SignedDigits

variable {P G : Type}

theorem forall₂_getElem? {Rep : P → G → Prop} {points : List P} {gs : List G}
    (all : List.Forall₂ Rep points gs) {i : Nat} {g : G} (at_i : gs[i]? = some g) :
    ∃ p, points[i]? = some p ∧ Rep p g := by
  induction all generalizing i with
  | nil => cases at_i
  | cons head tail ih =>
      cases i with
      | zero =>
          rw [List.getElem?_cons_zero, Option.some.injEq] at at_i
          exact ⟨_, rfl, at_i ▸ head⟩
      | succ i => exact ih at_i

theorem splitLengths_rep {Rep : P → G → Prop} {val : List P} {tables : List (List G)}
    (all : List.Forall₂ Rep val tables.flatten) :
    List.Forall₂ (List.Forall₂ Rep) ((tables.map List.length).splitLengths val) tables := by
  induction tables generalizing val with
  | nil => exact .nil
  | cons table rest ih =>
      rw [List.map_cons, List.splitLengths_cons]
      rw [List.flatten_cons] at all
      refine .cons ?_ (ih ?_)
      · have front := List.forall₂_take table.length all
        rwa [List.take_left'  rfl] at front
      · have back := List.forall₂_drop table.length all
        rwa [List.drop_left' rfl] at back

variable [AddCommGroup G]

/-- The point functions compute in `G`; `Rep p g` says that the point `p` stands for `g`. -/
structure Lawful (meth : Method P) (Rep : P → G → Prop) : Prop where
  infinity : ∀ r, Rep (meth.setToInfinity r) 0
  add : ∀ {a b g h}, Rep a g → Rep b h → ∃ c, meth.add a b = some c ∧ Rep c (g + h)
  dbl : ∀ {a g}, Rep a g → ∃ c, meth.dbl a = some c ∧ Rep c ((2 : Int) • g)
  invert : ∀ {a g}, Rep a g → ∃ c, meth.invert a = some c ∧ Rep c (-g)
  at_infinity : ∀ {a g}, Rep a g → (meth.isAtInfinity a = true ↔ g = 0)
  on_curve : ∀ {a g}, Rep a g → 0 < meth.isOnCurve a
  cmp : ∀ {a b g h}, Rep a g → Rep b h → (meth.pointCmp a b = 0 ↔ g = h)
  make_affine : ∀ {points : List P} {gs : List G}, List.Forall₂ Rep points gs →
    ∃ out, meth.pointsMakeAffine points = some out ∧ List.Forall₂ Rep out gs

/-! Tables of multiples. -/

/-- `g`, `3 g`, `5 g`, ... -/
def oddTable (g : G) (count : Nat) : List G :=
  (List.range count).map fun i => ((2 * i + 1 : Nat) : Int) • g

/-- The odd multiples of `g`, of `2 ^ blocksize g`, and so on. -/
def blockTable (blocksize pre_points_per_block : Nat) : Nat → G → List G
  | 0, _ => []
  | numblocks + 1, g =>
      oddTable g pre_points_per_block ++
        blockTable blocksize pre_points_per_block numblocks ((2 : Int) ^ blocksize • g)

theorem oddTable_length (g : G) (count : Nat) : (oddTable g count).length = count := by
  simp [oddTable]

theorem oddTable_getElem? (g : G) {count i : Nat} (inside : i < count) :
    (oddTable g count)[i]? = some (((2 * i + 1 : Nat) : Int) • g) := by
  simp [oddTable, inside]

theorem oddTable_succ (g : G) (count : Nat) :
    oddTable g (count + 1) =
      g :: (List.range count).map fun i => g + ((i + 1 : Nat) : Int) • ((2 : Int) • g) := by
  rw [oddTable, List.range_succ_eq_map, List.map_cons, List.map_map]
  refine congrArg₂ List.cons (by simp) (List.map_congr_left fun i _ => ?_)
  have multiple : ((2 * (i + 1) + 1 : Nat) : Int) = 1 + ((i + 1 : Nat) : Int) * 2 := by
    push_cast
    ring
  rw [Function.comp_apply, Nat.succ_eq_add_one, multiple, add_smul, one_smul, mul_smul]

theorem stepped_rep {Rep : P → G → Prop} (step : P → Option P) {d : G}
    (steps : ∀ p g, Rep p g → ∃ q, step p = some q ∧ Rep q (g + d)) (count : Nat) {last : P} {g : G}
    (rep : Rep last g) :
    ∃ points, stepped step count last = some points ∧
      List.Forall₂ Rep points ((List.range count).map fun i => g + ((i + 1 : Nat) : Int) • d) := by
  induction count generalizing last g with
  | zero => exact ⟨[], rfl, .nil⟩
  | succ count ih =>
      obtain ⟨next, stepped_to, next_rep⟩ := steps last g rep
      obtain ⟨later, rest, later_rep⟩ := ih next_rep
      refine ⟨next :: later, by simp [stepped, stepped_to, rest], ?_⟩
      rw [List.range_succ_eq_map, List.map_cons, List.map_map]
      refine .cons (by simpa using next_rep) ?_
      convert later_rep using 2
      funext i
      have multiple : ((i + 1 + 1 : Nat) : Int) = 1 + ((i + 1 : Nat) : Int) := by
        push_cast
        ring
      rw [Function.comp_apply, Nat.succ_eq_add_one, multiple, add_smul, one_smul, add_assoc]

section
variable {meth : Method P} {Rep : P → G → Prop} (lawful : Lawful meth Rep)
include lawful

theorem oddMultiples_rep {point : P} {g : G} (wsize : Nat) (rep : Rep point g) :
    ∃ val_sub, oddMultiples meth point wsize = some val_sub ∧
      List.Forall₂ Rep val_sub (oddTable g (2 ^ (wsize - 1))) := by
  by_cases wide : wsize > 1
  · obtain ⟨tmp, doubled, tmp_rep⟩ := lawful.dbl rep
    obtain ⟨later, added, later_rep⟩ := stepped_rep (fun last => meth.add last tmp)
      (fun p h rep => lawful.add rep tmp_rep) (2 ^ (wsize - 1) - 1) rep
    refine ⟨point :: later, by simp [oddMultiples, wide, doubled, added], ?_⟩
    have one_more : 2 ^ (wsize - 1) = 2 ^ (wsize - 1) - 1 + 1 := by
      have positive := Nat.two_pow_pos (wsize - 1)
      omega
    rw [one_more, oddTable_succ]
    exact .cons rep later_rep
  · have narrow : wsize - 1 = 0 := by omega
    refine ⟨[point], if_neg wide, ?_⟩
    rw [narrow]
    simpa [oddTable] using rep

end

/-! Rows of digits with their tables. -/

/-- The points that the digits of a row select are the multiples of `g` by their absolute values. -/
def Selects (Rep : P → G → Prop) (row : Row P) (g : G) : Prop :=
  ∀ digit ∈ row.wNAF, digit ≠ 0 →
    ∃ point, row.val_sub[digit.natAbs >>> 1]? = some point ∧ Rep point ((digit.natAbs : Int) • g)

theorem half_of_odd {digit : Int} (odd : Odd digit) :
    digit.natAbs = 2 * (digit.natAbs >>> 1) + 1 := by
  rw [Nat.shiftRight_one]
  rw [Int.odd_iff] at odd
  omega

theorem selects_of_table {Rep : P → G → Prop} {row : Row P} {w : Nat} {g : G} {table : List G}
    (width : 0 < w) (small : ∀ digit ∈ row.wNAF, |digit| < 2 ^ w)
    (odd : ∀ digit ∈ row.wNAF, digit ≠ 0 → Odd digit)
    (points : List.Forall₂ Rep row.val_sub (oddTable g (2 ^ (w - 1)) ++ table)) :
    Selects Rep row g := by
  intro digit member nonzero
  have half := half_of_odd (odd digit member nonzero)
  obtain ⟨v, rfl⟩ := Nat.exists_eq_succ_of_ne_zero width.ne'
  have inside : digit.natAbs >>> 1 < 2 ^ v := by
    have bound := small digit member
    rw [Int.abs_eq_natAbs, pow_succ] at bound
    have cast : ((digit.natAbs : Nat) : Int) < ((2 ^ v * 2 : Nat) : Int) := by
      exact_mod_cast bound
    omega
  have entry : (oddTable g (2 ^ (v + 1 - 1)) ++ table)[digit.natAbs >>> 1]? =
      some ((digit.natAbs : Int) • g) := by
    rw [Nat.add_sub_cancel, List.getElem?_append_left (by rwa [oddTable_length]),
      oddTable_getElem? g inside, ← half]
  exact forall₂_getElem? points entry

/-- The row of a term: its wNAF with the odd multiples that it may need. -/
structure TermRow (Rep : P → G → Prop) (scalar : BigNum) (g : G) (row : Row P) : Prop where
  wNAF : IsWNAF scalar (windowBits scalar.numBits) row.wNAF
  table : List.Forall₂ Rep row.val_sub (oddTable g (2 ^ (windowBits scalar.numBits - 1)))

theorem windowBits_range (b : Nat) : 0 < windowBits b ∧ windowBits b ≤ 7 := by
  unfold windowBits
  split_ifs <;> omega

theorem TermRow.selects {Rep : P → G → Prop} {scalar : BigNum} {g : G} {row : Row P}
    (term : TermRow Rep scalar g row) : Selects Rep row g := by
  have table := term.table
  rw [← List.append_nil (oddTable g _)] at table
  exact selects_of_table (windowBits_range _).1 term.wNAF.sparse.small term.wNAF.sparse.odd table

/-- The rows of the terms whose points stand for these elements. -/
inductive TermRows (Rep : P → G → Prop) : List (P × BigNum) → List G → List (Row P) → Prop
  | nil : TermRows Rep [] [] []
  | cons {point : P} {scalar : BigNum} {g : G} {row : Row P} {terms : List (P × BigNum)}
      {gs : List G} {rows : List (Row P)} (term : TermRow Rep scalar g row)
      (later : TermRows Rep terms gs rows) :
      TermRows Rep ((point, scalar) :: terms) (g :: gs) (row :: rows)

section
variable {meth : Method P} {Rep : P → G → Prop} (lawful : Lawful meth Rep)
include lawful

theorem termRows_rows {terms : List (P × BigNum)} {gs : List G}
    (points : List.Forall₂ (fun term g => Rep term.1 g) terms gs) :
    ∃ rows, termRows meth terms = some rows ∧ TermRows Rep terms gs rows := by
  induction points with
  | nil => exact ⟨[], rfl, .nil⟩
  | cons head tail ih =>
      rename_i term g terms gs
      obtain ⟨point, scalar⟩ := term
      obtain ⟨rows, later, all⟩ := ih
      obtain ⟨width, narrow⟩ := windowBits_range scalar.numBits
      obtain ⟨wNAF, computed, is_wNAF⟩ := computeWNAF_isWNAF scalar _ width narrow
      obtain ⟨val_sub, multiples, table⟩ := oddMultiples_rep lawful (windowBits scalar.numBits) head
      exact ⟨⟨wNAF, val_sub⟩ :: rows, by simp [termRows, computed, multiples, later],
        .cons ⟨is_wNAF, table⟩ all⟩

end

def termTables (terms : List (P × BigNum)) (gs : List G) : List (List G) :=
  List.zipWith (fun term g => oddTable g (2 ^ (windowBits term.2.numBits - 1))) terms gs

namespace TermRows
variable {Rep : P → G → Prop} {terms : List (P × BigNum)} {gs : List G} {rows : List (Row P)}

theorem points (all : TermRows Rep terms gs rows) :
    List.Forall₂ Rep (rows.map Row.val_sub).flatten (termTables terms gs).flatten := by
  induction all with
  | nil => exact .nil
  | cons term later ih => exact List.rel_append term.table ih

theorem lengths (all : TermRows Rep terms gs rows) :
    (rows.map fun row => row.val_sub.length) = (termTables terms gs).map List.length := by
  induction all with
  | nil => rfl
  | cons term later ih => exact congrArg₂ List.cons term.table.length_eq ih

theorem replaced (all : TermRows Rep terms gs rows) {parts : List (List P)}
    (points : List.Forall₂ (List.Forall₂ Rep) parts (termTables terms gs)) :
    TermRows Rep terms gs
      (List.zipWith (fun row part => { row with val_sub := part }) rows parts) := by
  induction all generalizing parts with
  | nil => exact .nil
  | cons term later ih =>
      cases points with
      | cons head tail => exact .cons ⟨term.wNAF, head⟩ (ih tail)

end TermRows

section
variable {meth : Method P} {Rep : P → G → Prop} (lawful : Lawful meth Rep)
include lawful

theorem makeAffine_rows {terms : List (P × BigNum)} {gs : List G} {rows : List (Row P)}
    (all : TermRows Rep terms gs rows) :
    ∃ affine, makeAffine meth rows = some affine ∧ TermRows Rep terms gs affine := by
  obtain ⟨val, made, points⟩ := lawful.make_affine all.points
  have parts := splitLengths_rep points
  rw [← all.lengths] at parts
  exact ⟨_, by rw [makeAffine, made]; rfl, all.replaced parts⟩

end

/-! The main loop. -/

/-- The accumulator stands for `g`; what `r` holds is inverted as the flag says. -/
def Stands (Rep : P → G → Prop) (acc : Accumulator P) (g : G) : Prop :=
  if acc.at_infinity then g = 0 else Rep acc.r (if acc.is_inverted then -g else g)

/-- The rows with the elements that their digits multiply. -/
def digitRows (rows : List (Row P)) (gs : List G) : List (List Int × G) :=
  List.zipWith (fun row g => (row.wNAF, g)) rows gs

section
variable {meth : Method P} {Rep : P → G → Prop} (lawful : Lawful meth Rep)
include lawful

/-- The accumulator is turned so that the digit can be added. -/
theorem turnTo_stands {acc : Accumulator P} {g : G} (stands : Stands Rep acc g) (is_neg : Bool) :
    ∃ turned, turnTo meth is_neg acc = some turned ∧ Stands Rep turned g ∧
      turned.is_inverted = is_neg := by
  by_cases same : is_neg = acc.is_inverted
  · exact ⟨acc, if_pos same, stands, same.symm⟩
  rw [turnTo, if_neg same]
  cases acc with
  | mk r is_inverted at_infinity =>
      cases at_infinity with
      | true => exact ⟨⟨r, is_neg, true⟩, rfl, stands, rfl⟩
      | false =>
          obtain ⟨inverse, inverted, rep⟩ := lawful.invert stands
          refine ⟨⟨inverse, is_neg, false⟩, by simp [inverted], ?_, rfl⟩
          have flag : is_neg = !is_inverted := Bool.eq_not_of_ne same
          rw [flag]
          cases is_inverted with
          | true => simpa [Stands] using rep
          | false => simpa [Stands] using rep

theorem addDigit_stands {acc : Accumulator P} {g : G} (stands : Stands Rep acc g) (k : Nat)
    {row : Row P} {base : G} (selects : Selects Rep row base) :
    ∃ next, addDigit meth k acc row = some next ∧
      Stands Rep next (g + digitAt row.wNAF k • base) := by
  by_cases zero : digitAt row.wNAF k = 0
  · exact ⟨acc, by simp [addDigit, zero], by rwa [zero, zero_smul, add_zero]⟩
  obtain ⟨point, selected, rep⟩ :=
    selects _ (digitAt_mem (lt_length_of_digitAt zero)) zero
  obtain ⟨turned, turn, turned_stands, flag⟩ :=
    turnTo_stands lawful stands (decide (digitAt row.wNAF k < 0))
  have signed : ((digitAt row.wNAF k).natAbs : Int) • base =
      if turned.is_inverted then -(digitAt row.wNAF k • base) else digitAt row.wNAF k • base := by
    rw [flag]
    by_cases negative : digitAt row.wNAF k < 0
    · rw [decide_eq_true negative, if_pos rfl, ← neg_smul]
      congr 1
      omega
    · rw [decide_eq_false negative, if_neg Bool.false_ne_true]
      congr 1
      omega
  rw [signed] at rep
  have run : addDigit meth k acc row =
      if turned.at_infinity then some ⟨point, turned.is_inverted, false⟩
      else (meth.add turned.r point).map fun r => ⟨r, turned.is_inverted, false⟩ := by
    simp only [addDigit, if_neg zero, turn, Option.bind_eq_bind, Option.bind_some, selected]
  rw [run]
  cases turned with
  | mk r is_inverted at_infinity =>
      cases at_infinity with
      | true =>
          have nothing : g = 0 := turned_stands
          refine ⟨⟨point, is_inverted, false⟩, rfl, ?_⟩
          rw [nothing, zero_add]
          exact rep
      | false =>
          obtain ⟨sum, added, sum_rep⟩ := lawful.add turned_stands rep
          refine ⟨⟨sum, is_inverted, false⟩, by simp [added], ?_⟩
          cases is_inverted with
          | true => simpa [Stands, add_comm] using sum_rep
          | false => exact sum_rep

theorem doubled_stands {acc : Accumulator P} {g : G} (stands : Stands Rep acc g) :
    ∃ twice, doubled meth acc = some twice ∧ Stands Rep twice ((2 : Int) • g) := by
  cases acc with
  | mk r is_inverted at_infinity =>
      cases at_infinity with
      | true =>
          have nothing : g = 0 := stands
          refine ⟨_, rfl, ?_⟩
          rw [nothing, smul_zero]
          rfl
      | false =>
          obtain ⟨double, doubles, rep⟩ := lawful.dbl stands
          refine ⟨⟨double, is_inverted, false⟩, by simp [doubled, doubles], ?_⟩
          cases is_inverted with
          | true => simpa [Stands] using rep
          | false => exact rep

theorem level_stands {acc : Accumulator P} {g : G} (stands : Stands Rep acc g) (k : Nat)
    {rows : List (Row P)} {bases : List G} (selects : List.Forall₂ (Selects Rep) rows bases) :
    ∃ next, rows.foldlM (addDigit meth k) acc = some next ∧
      Stands Rep next (g + atPlace (digitRows rows bases) k) := by
  induction selects generalizing acc g with
  | nil => exact ⟨acc, rfl, by simpa [digitRows, atPlace] using stands⟩
  | cons head tail ih =>
      obtain ⟨middle, added, middle_stands⟩ := addDigit_stands lawful stands k head
      obtain ⟨next, later, next_stands⟩ := ih middle_stands
      refine ⟨next, by rw [List.foldlM_cons, added]; exact later, ?_⟩
      rw [add_assoc] at next_stands
      exact next_stands

/-- What is in the accumulator above place `k` becomes the whole sum. -/
theorem sumLoop_stands {rows : List (Row P)} {bases : List G}
    (selects : List.Forall₂ (Selects Rep) rows bases) (k : Nat) {acc : Accumulator P}
    (stands : Stands Rep acc (valueFrom (digitRows rows bases) k)) :
    ∃ done, sumLoop meth rows k acc = some done ∧
      Stands Rep done (valueFrom (digitRows rows bases) 0) := by
  induction k generalizing acc with
  | zero => exact ⟨acc, rfl, stands⟩
  | succ k ih =>
      obtain ⟨twice, doubles, twice_stands⟩ := doubled_stands lawful stands
      obtain ⟨level, added, level_stands⟩ := level_stands lawful twice_stands k selects
      rw [← valueFrom_step] at level_stands
      obtain ⟨done, rest, done_stands⟩ := ih level_stands
      exact ⟨done, by simp [sumLoop, doubles, added, rest], done_stands⟩

end

theorem maxLen_ge (rows : List (Row P)) : ∀ row ∈ rows, row.wNAF.length ≤ maxLen rows := by
  have grows : ∀ (rows : List (Row P)) (start : Nat),
      start ≤ rows.foldl (fun max_len row =>
        if row.wNAF.length > max_len then row.wNAF.length else max_len) start ∧
      ∀ row ∈ rows, row.wNAF.length ≤ rows.foldl (fun max_len row =>
        if row.wNAF.length > max_len then row.wNAF.length else max_len) start := by
    intro rows
    induction rows with
    | nil => exact fun start => ⟨le_refl start, fun row member => absurd member List.not_mem_nil⟩
    | cons first rest ih =>
        intro start
        obtain ⟨above, all⟩ := ih
          (if first.wNAF.length > start then first.wNAF.length else start)
        rw [List.foldl_cons]
        refine ⟨?_, fun row member => ?_⟩
        · split_ifs at above ⊢ <;> omega
        · rcases List.mem_cons.mp member with rfl | later
          · split_ifs at above ⊢ <;> omega
          · exact all row later
  exact (grows rows 0).2

omit [AddCommGroup G] in
theorem digitRows_mem {rows : List (Row P)} {bases : List G} {digits : List Int × G}
    (member : digits ∈ digitRows rows bases) : ∃ row ∈ rows, row.wNAF = digits.1 := by
  rw [digitRows, ← List.map_uncurry_zip_eq_zipWith, List.mem_map] at member
  obtain ⟨⟨row, base⟩, paired, rfl⟩ := member
  exact ⟨row, (List.of_mem_zip paired).1, rfl⟩

theorem sumRows_rep {meth : Method P} {Rep : P → G → Prop} (lawful : Lawful meth Rep)
    {rows : List (Row P)} {bases : List G} (selects : List.Forall₂ (Selects Rep) rows bases)
    (r : P) :
    ∃ p, sumRows meth r rows = some p ∧ Rep p (valueFrom (digitRows rows bases) 0) := by
  have nothing : valueFrom (digitRows rows bases) (maxLen rows) = 0 := by
    refine valueFrom_end _ _ fun row member => ?_
    obtain ⟨of_row, there, same⟩ := digitRows_mem member
    rw [← same]
    exact maxLen_ge rows of_row there
  have start : Stands Rep ⟨r, false, true⟩ (valueFrom (digitRows rows bases) (maxLen rows)) := by
    rw [Stands, nothing]
    rfl
  obtain ⟨done, looped, stands⟩ := sumLoop_stands lawful selects (maxLen rows) start
  rw [sumRows, looped]
  cases at_infinity : done.at_infinity with
  | true =>
      rw [Stands, at_infinity, if_pos rfl] at stands
      rw [stands]
      exact ⟨_, by simp [at_infinity], lawful.infinity done.r⟩
  | false =>
      rw [Stands, at_infinity, if_neg Bool.false_ne_true] at stands
      cases inverted : done.is_inverted with
      | true =>
          rw [inverted, if_pos rfl] at stands
          obtain ⟨p, computed, rep⟩ := lawful.invert stands
          exact ⟨p, by simp [at_infinity, inverted, computed], by rwa [neg_neg] at rep⟩
      | false =>
          rw [inverted, if_neg Bool.false_ne_true] at stands
          exact ⟨done.r, by simp [at_infinity, inverted], stands⟩

end EChainLib.Ec
