import Mathlib

/-! Strings searched by position. Positions are signed and -1 stands for none; a negative
position or length that is passed on is larger than any string. -/

namespace EChainLib.Strings

variable {α : Type}

/-- A list is cut at the first place with an element in one way. -/
theorem cut_unique {mark : α} {before before' after after' : List α} (first : mark ∉ before)
    (first' : mark ∉ before') (same : before ++ mark :: after = before' ++ mark :: after') :
    before = before' ∧ after = after' := by
  rcases List.append_eq_append_iff.mp same with ⟨more, long, rest⟩ | ⟨more, long, rest⟩
  · cases more with
    | nil =>
        injection rest with _ rest
        exact ⟨by simp [long], rest⟩
    | cons head more =>
        injection rest with head_mark
        exact absurd (by simp [long, head_mark]) first'
  · cases more with
    | nil =>
        injection rest with _ rest
        exact ⟨by simp [long], rest.symm⟩
    | cons head more =>
        injection rest with head_mark
        exact absurd (by simp [long, head_mark]) first

/-- `substr`, where `none` is the exception for a position outside. -/
def substr (s : List α) (pos n : Int) : Option (List α) :=
  if pos < 0 ∨ (s.length : Int) < pos then none
  else if n < 0 then some (s.drop pos.toNat)
  else some ((s.drop pos.toNat).take n.toNat)

theorem substr_eq {s before part after : List α} {pos n : Int}
    (parts : s = before ++ (part ++ after)) (place : pos = before.length) (size : n = part.length) :
    substr s pos n = some part := by
  subst parts place size
  have inside : ¬ (part.length + after.length : Int) < 0 := by omega
  simp [substr, inside]

theorem substr_take {s before after : List α} {pos : Int} {n : Nat} (parts : s = before ++ after)
    (place : pos = before.length) : substr s pos n = some (after.take n) := by
  subst parts place
  simp [substr]

theorem substr_rest {s before part : List α} {pos n : Int} (parts : s = before ++ part)
    (place : pos = before.length) (size : n < 0) : substr s pos n = some part := by
  subst parts place
  simp [substr, size]

theorem substr_begins {s part : List α} {pos n : Int} (read : substr s pos n = some part) :
    0 ≤ pos ∧ part <+: s.drop pos.toNat := by
  unfold substr at read
  split_ifs at read with outside negative
  · rw [Option.some.injEq] at read
    exact ⟨by omega, read ▸ List.prefix_refl _⟩
  · rw [Option.some.injEq] at read
    exact ⟨by omega, read ▸ List.take_prefix _ _⟩

theorem substr_within {s part : List α} {pos n : Int} (read : substr s pos n = some part) :
    part <:+: s :=
  (substr_begins read).2.isInfix.trans (List.drop_suffix _ s).isInfix

/-- A part that lies inside is read. -/
theorem substr_isSome {s : List α} {pos n : Int} (nonneg : 0 ≤ pos) (inside : pos ≤ s.length) :
    ∃ part, substr s pos n = some part := by
  unfold substr
  rw [if_neg (by omega)]
  split_ifs
  · exact ⟨_, rfl⟩
  · exact ⟨_, rfl⟩

variable [DecidableEq α]

/-- The first place with the pattern, which is not empty. -/
def findIn (pattern : List α) : List α → Option Nat
  | [] => none
  | head :: rest =>
      if pattern.isPrefixOf (head :: rest) then some 0 else (findIn pattern rest).map (· + 1)

/-- `find`: the first place from the position on. -/
def find (s pattern : List α) (pos : Int) : Int :=
  if pos < 0 then -1
  else
    match findIn pattern (s.drop pos.toNat) with
    | none => -1
    | some ahead => pos + ahead

def rfindIn (s pattern : List α) : Nat → Int
  | 0 => if pattern.isPrefixOf s then 0 else -1
  | pos + 1 =>
      if pattern.isPrefixOf (s.drop (pos + 1)) then ((pos + 1 : Nat) : Int) else rfindIn s pattern pos

/-- `rfind`: the last place up to the position. -/
def rfind (s pattern : List α) (pos : Int) : Int :=
  if pos < 0 then rfindIn s pattern s.length else rfindIn s pattern pos.toNat

/-- `find` with an unsigned position. The empty pattern is found at every position up to the
end. -/
def position (s pattern : List α) (pos : Nat) : Option Nat :=
  if pattern = [] then (if pos ≤ s.length then some pos else none)
  else (findIn pattern (s.drop pos)).map (pos + ·)

theorem findIn_of_notMem (first : α) (pattern s : List α) (absent : first ∉ s) :
    findIn (first :: pattern) s = none := by
  induction s with
  | nil => rfl
  | cons head rest ih =>
      simp only [List.mem_cons, not_or] at absent
      simp [findIn, List.isPrefixOf, absent.1, ih absent.2]

theorem findIn_begins {pattern s : List α} {ahead : Nat} (found : findIn pattern s = some ahead) :
    pattern <+: s.drop ahead := by
  induction s generalizing ahead with
  | nil => cases found
  | cons head rest ih =>
      rw [findIn] at found
      split_ifs at found with here
      · rw [Option.some.injEq] at found
        subst found
        exact List.isPrefixOf_iff_prefix.mp here
      · obtain ⟨behind, later, rfl⟩ := Option.map_eq_some_iff.mp found
        exact ih later

/-- The place that is found is the first one. -/
theorem findIn_eq_some_iff {pattern s : List α} (filled : pattern ≠ []) (ahead : Nat) :
    findIn pattern s = some ahead ↔
      pattern <+: s.drop ahead ∧ ∀ earlier < ahead, ¬ pattern <+: s.drop earlier := by
  induction s generalizing ahead with
  | nil => simp [findIn, filled]
  | cons head rest ih =>
      rw [findIn]
      split_ifs with here
      · have begins := List.isPrefixOf_iff_prefix.mp here
        rw [Option.some.injEq]
        constructor
        · rintro rfl
          exact ⟨begins, fun _ earlier => absurd earlier (Nat.not_lt_zero _)⟩
        · rintro ⟨-, first⟩
          by_contra later
          exact first 0 (by omega) begins
      · have other : ¬ pattern <+: head :: rest := fun begins =>
          here (List.isPrefixOf_iff_prefix.mpr begins)
        cases ahead with
        | zero => simp [other]
        | succ ahead =>
            simp only [Option.map_eq_some_iff, Nat.add_right_cancel_iff, exists_eq_right, ih,
              List.drop_succ_cons]
            refine and_congr_right fun _ => ⟨fun first earlier less => ?_, fun first earlier less =>
              first (earlier + 1) (by omega)⟩
            cases earlier with
            | zero => exact other
            | succ earlier => exact first earlier (by omega)

theorem findIn_of_absent {pattern s : List α} (absent : ¬ pattern <:+: s) :
    findIn pattern s = none := by
  induction s with
  | nil => rfl
  | cons head rest ih =>
      have no_prefix : pattern.isPrefixOf (head :: rest) = false :=
        Bool.eq_false_iff.mpr fun hit => absent (List.isPrefixOf_iff_prefix.mp hit).isInfix
      have later : ¬ pattern <:+: rest := fun inside => absent (List.infix_cons inside)
      rw [findIn, no_prefix, if_neg Bool.false_ne_true, ih later]
      rfl

theorem findIn_isSome_iff {pattern s : List α} (filled : pattern ≠ []) :
    (findIn pattern s).isSome ↔ pattern <:+: s := by
  constructor
  · intro found
    obtain ⟨ahead, hit⟩ := Option.isSome_iff_exists.mp found
    exact (findIn_begins hit).isInfix.trans (List.drop_suffix ahead s).isInfix
  · intro inside
    induction s with
    | nil => exact absurd (List.infix_nil.mp inside) filled
    | cons head rest ih =>
        rw [findIn]
        split_ifs with here
        · rfl
        · rcases List.infix_cons_iff.mp inside with first | later
          · exact absurd (List.isPrefixOf_iff_prefix.mpr first) here
          · simpa using ih later

/-- A pattern is found no later than where it is. -/
theorem findIn_le {pattern s : List α} (filled : pattern ≠ []) {place : Nat}
    (here : pattern <+: s.drop place) : ∃ ahead, findIn pattern s = some ahead ∧ ahead ≤ place := by
  have inside := here.isInfix.trans (List.drop_suffix _ s).isInfix
  obtain ⟨ahead, found⟩ := Option.isSome_iff_exists.mp ((findIn_isSome_iff filled).mpr inside)
  refine ⟨ahead, found, ?_⟩
  by_contra beyond
  exact ((findIn_eq_some_iff filled ahead).mp found).2 place (by omega) here

theorem position_isSome_iff (s pattern : List α) :
    (position s pattern 0).isSome ↔ pattern <:+: s := by
  unfold position
  split_ifs with empty inside
  · simp [empty, List.nil_infix]
  · exact absurd (Nat.zero_le _) inside
  · simpa using findIn_isSome_iff empty

theorem findIn_append (first : α) (pattern before s : List α) (absent : first ∉ before) :
    findIn (first :: pattern) (before ++ s) =
      (findIn (first :: pattern) s).map (before.length + ·) := by
  induction before with
  | nil => simp
  | cons head rest ih =>
      simp only [List.mem_cons, not_or] at absent
      simp only [List.cons_append, findIn, List.isPrefixOf, beq_eq_false_iff_ne.mpr absent.1,
        Bool.false_and, Bool.false_eq_true, if_false, ih absent.2, Option.map_map, List.length_cons]
      congr 1
      funext ahead
      simp
      omega

theorem findIn_here (first : α) (pattern s : List α) :
    findIn (first :: pattern) (first :: pattern ++ s) = some 0 := by
  have here : (first :: pattern).isPrefixOf (first :: pattern ++ s) = true :=
    List.isPrefixOf_iff_prefix.mpr (List.prefix_append _ _)
  simp only [List.cons_append] at here ⊢
  simp [findIn, here]

/-- The first place with the one element. -/
theorem findIn_at (wanted : α) (before s : List α) (absent : wanted ∉ before) :
    findIn [wanted] (before ++ wanted :: s) = some before.length := by
  have here : findIn [wanted] (wanted :: s) = some 0 := findIn_here wanted [] s
  rw [findIn_append wanted [] before _ absent, here]
  simp

theorem find_found {s before after pattern : List α} {pos : Int} {ahead : Nat}
    (parts : s = before ++ after) (place : pos = before.length)
    (found : findIn pattern after = some ahead) : find s pattern pos = pos + ahead := by
  subst parts place
  simp [find, found]

theorem find_missing {s before after pattern : List α} {pos : Int}
    (parts : s = before ++ after) (place : pos = before.length)
    (missing : findIn pattern after = none) : find s pattern pos = -1 := by
  subst parts place
  simp [find, missing]

/-- A place that is found is not in front of the position, and the pattern is there. -/
theorem find_begins {s pattern : List α} {pos : Int} (found : find s pattern pos ≠ -1) :
    0 ≤ pos ∧ pos ≤ find s pattern pos ∧ pattern <+: s.drop (find s pattern pos).toNat := by
  unfold find at found ⊢
  split_ifs at found ⊢ with negative
  · exact absurd rfl found
  · cases hit : findIn pattern (s.drop pos.toNat) with
    | none => simp [hit] at found
    | some ahead =>
        have begins := findIn_begins hit
        rw [List.drop_drop] at begins
        have place : (pos + (ahead : Int)).toNat = pos.toNat + ahead := by omega
        refine ⟨by omega, by simp, ?_⟩
        simpa [place] using begins

/-- The pattern that is found is inside. -/
theorem find_fits {s pattern : List α} {pos : Int} (found : find s pattern pos ≠ -1) :
    find s pattern pos + pattern.length ≤ s.length ∨ pattern = [] := by
  obtain ⟨nonneg, behind, begins⟩ := find_begins found
  rcases pattern with _ | ⟨head, rest⟩
  · exact .inr rfl
  · left
    have size := begins.length_le
    rw [List.length_drop, List.length_cons] at size
    rw [List.length_cons]
    omega

/-- Where there is nothing to find up to a later place, the search may begin there. -/
theorem find_skip {s before between after : List α} {wanted : α} {pos later : Int}
    (parts : s = before ++ (between ++ after)) (place : pos = before.length)
    (behind : later = pos + between.length) (absent : wanted ∉ between) :
    find s [wanted] pos = find s [wanted] later := by
  have skip := findIn_append wanted [] between after absent
  have cut : s = (before ++ between) ++ after := by simp [parts]
  have later_place : later = (before ++ between).length := by simp [behind, place]
  cases found : findIn [wanted] after with
  | none =>
      rw [found] at skip
      rw [find_missing parts place skip, find_missing cut later_place found]
  | some ahead =>
      rw [found] at skip
      rw [find_found parts place skip, find_found cut later_place found, behind]
      push_cast
      omega

/-- The last place up to a position is not in front of any other, and not behind it. -/
theorem rfindIn_bounds {s pattern : List α} {place pos : Nat} (hit : pattern <+: s.drop place)
    (reached : place ≤ pos) :
    (place : Int) ≤ rfindIn s pattern pos ∧ rfindIn s pattern pos ≤ pos := by
  induction pos with
  | zero =>
      obtain rfl : place = 0 := by omega
      simp [rfindIn, List.isPrefixOf_iff_prefix.mpr (by simpa using hit)]
  | succ pos ih =>
      rw [rfindIn]
      split_ifs with here
      · omega
      · have earlier : place ≤ pos := by
          rcases Nat.lt_or_ge pos place with beyond | earlier
          · obtain rfl : place = pos + 1 := by omega
            exact absurd (List.isPrefixOf_iff_prefix.mpr hit) here
          · exact earlier
        have bounds := ih earlier
        omega

theorem rfindIn_eq {s before between after : List α} {wanted : α} {pos : Nat}
    (parts : s = before ++ wanted :: (between ++ after))
    (reached : pos ≤ before.length + between.length) (behind : before.length ≤ pos)
    (absent : wanted ∉ between) : rfindIn s [wanted] pos = before.length := by
  induction pos with
  | zero =>
      have empty := List.length_eq_zero_iff.mp (Nat.le_zero.mp behind)
      simp [rfindIn, parts, empty]
  | succ pos ih =>
      rw [rfindIn]
      rcases Nat.lt_or_ge before.length (pos + 1) with later | here
      · have inside : pos - before.length < between.length := by omega
        have other : ¬ [wanted].isPrefixOf (s.drop (pos + 1)) = true := by
          rw [List.isPrefixOf_iff_prefix]
          rintro ⟨rest, shape⟩
          have place : pos + 1 = before.length + (pos - before.length + 1) := by omega
          rw [parts, place, List.drop_append, List.drop_eq_nil_of_le (by omega),
            Nat.add_sub_cancel_left, List.drop_succ_cons, List.drop_append_of_le_length (by omega),
            List.nil_append, List.drop_eq_getElem_cons inside] at shape
          injection shape with same
          exact absent (by rw [same]; exact List.getElem_mem _)
        rw [if_neg other]
        exact ih (by omega) (by omega)
      · have place : pos + 1 = before.length := by omega
        rw [parts, place, List.drop_left]
        simp [List.isPrefixOf]

end EChainLib.Strings
