import EChainLib.Support.Strings
import EChainLib.Support.Separator

/-! Lines that end with a mark, up to the first empty one, and the rest behind it. -/

namespace EChainLib.LineBlock

open EChainLib.Strings
open EChainLib.Separator (Unbordered)

variable {α : Type} [DecidableEq α] {mark : List α}

theorem findIn_first {s : List α} {ahead : Nat} (found : findIn mark s = some ahead)
    (earlier : Nat) (before : earlier < ahead) : ¬ mark <+: s.drop earlier := by
  induction s generalizing ahead earlier with
  | nil => cases found
  | cons head rest ih =>
      rw [findIn] at found
      split_ifs at found with here
      · cases found
        exact absurd before (Nat.not_lt_zero _)
      · obtain ⟨behind, later, rfl⟩ := Option.map_eq_some_iff.mp found
        cases earlier with
        | zero => exact fun start => here (List.isPrefixOf_iff_prefix.mpr start)
        | succ earlier => exact ih later earlier (Nat.lt_of_succ_lt_succ before)

/-- A line that does not hold the mark ends at the next one: the mark cannot begin in the line
and end in itself. -/
theorem findIn_line (unbordered : Unbordered mark) (filled : mark ≠ []) (line rest : List α)
    (clean : ¬ mark <:+: line) : findIn mark (line ++ (mark ++ rest)) = some line.length := by
  have occurs : mark <:+: line ++ (mark ++ rest) := ⟨line, rest, by simp⟩
  obtain ⟨ahead, found⟩ := Option.isSome_iff_exists.mp ((findIn_isSome_iff filled).mpr occurs)
  rcases Nat.lt_trichotomy ahead line.length with inside | same | beyond
  -- a mark that begins in the line is in it, or ends in the mark behind it
  · have begins := findIn_begins found
    rw [List.drop_append_of_le_length (Nat.le_of_lt inside)] at begins
    have some_left : line.drop ahead ≠ [] := by
      rw [Ne, List.drop_eq_nil_iff]
      omega
    obtain ⟨more, whole⟩ := begins
    rcases List.append_eq_append_iff.mp whole with ⟨middle, left, -⟩ | ⟨tail, split, overlap⟩
    · exact absurd (List.IsInfix.trans ⟨[], middle, by simp [left]⟩
        (List.drop_suffix ahead line).isInfix) clean
    · rcases Separator.overlap_trivial mark _ tail more rest unbordered split overlap with
        nothing | nothing
      · rw [nothing, List.append_nil] at split
        exact absurd (split ▸ (List.drop_suffix ahead line).isInfix) clean
      · exact absurd nothing some_left
  · rw [found, same]
  · exact absurd (by simp) (findIn_first found line.length beyond)

/-- What is in front of the first mark does not hold it. -/
theorem findIn_clean (filled : mark ≠ []) {s : List α} {ahead : Nat}
    (found : findIn mark s = some ahead) : ¬ mark <:+: s.take ahead := by
  rintro ⟨front, back, split⟩
  have room := List.length_pos_iff.mpr filled
  have size := congrArg List.length split
  simp only [List.length_append, List.length_take] at size
  apply findIn_first found front.length (by omega)
  have whole : front ++ (mark ++ (back ++ s.drop ahead)) = s := by
    rw [← List.append_assoc, ← List.append_assoc, split, List.take_append_drop]
  have begins : mark <+: (front ++ (mark ++ (back ++ s.drop ahead))).drop front.length := by
    rw [List.drop_left]
    exact List.prefix_append _ _
  rwa [whole] at begins

/-! The lines. -/

/-- `fuel` bounds the number of lines. -/
def linesFrom (mark : List α) : Nat → List α → Option (List (List α) × List α)
  | 0, _ => none
  | fuel + 1, s =>
      match findIn mark s with
      | none => none
      | some 0 => some ([], s.drop mark.length)
      | some (before + 1) =>
          (linesFrom mark fuel (s.drop (before + 1 + mark.length))).map fun block =>
            (s.take (before + 1) :: block.1, block.2)

def lines (mark s : List α) : Option (List (List α) × List α) := linesFrom mark (s.length + 1) s

/-- The text with these lines in front of the empty one. -/
def block (mark : List α) (lines : List (List α)) (body : List α) : List α :=
  lines.flatMap (· ++ mark) ++ (mark ++ body)

/-- A line that the block can hold: not empty, and without the mark. -/
structure Line (mark line : List α) : Prop where
  filled : line ≠ []
  clean : ¬ mark <:+: line

omit [DecidableEq α] in
theorem block_cons (line : List α) (later : List (List α)) (body : List α) :
    block mark (line :: later) body = line ++ (mark ++ block mark later body) := by
  simp [block]

theorem linesFrom_sound (filled : mark ≠ []) (fuel : Nat) (s : List α) (found : List (List α))
    (body : List α) (read : linesFrom mark fuel s = some (found, body)) :
    s = block mark found body ∧ ∀ line ∈ found, Line mark line := by
  induction fuel generalizing s found with
  | zero => cases read
  | succ fuel ih =>
      rw [linesFrom] at read
      cases place : findIn mark s with
      | none =>
          rw [place] at read
          cases read
      | some ahead =>
          rw [place] at read
          obtain ⟨rest, begins⟩ := findIn_begins place
          have whole : s = s.take ahead ++ (mark ++ rest) := by
            rw [begins, List.take_append_drop]
          have behind : s.drop (ahead + mark.length) = rest := by
            rw [← List.drop_drop, ← begins, List.drop_left]
          cases ahead with
          | zero =>
              rw [Nat.zero_add] at behind
              simp only [behind, Option.some.injEq, Prod.mk.injEq] at read
              obtain ⟨rfl, rfl⟩ := read
              exact ⟨by simpa [block] using whole, by simp⟩
          | succ before =>
              obtain ⟨⟨later, end_⟩, continued, shape⟩ := Option.map_eq_some_iff.mp read
              rw [behind] at continued
              cases shape
              obtain ⟨same, proper⟩ := ih rest later continued
              refine ⟨by rw [block_cons, ← same, ← whole], ?_⟩
              intro line member
              rcases List.mem_cons.mp member with rfl | inside
              · refine ⟨fun empty => ?_, findIn_clean filled place⟩
                have begun := List.take_eq_nil_iff.mp empty
                rcases begun with none_left | nothing
                · cases none_left
                · rw [nothing] at place
                  cases place
              · exact proper line inside

theorem linesFrom_block (unbordered : Unbordered mark) (filled : mark ≠ []) (found : List (List α))
    (body : List α) (proper : ∀ line ∈ found, Line mark line) {fuel : Nat}
    (enough : found.length < fuel) :
    linesFrom mark fuel (block mark found body) = some (found, body) := by
  induction found generalizing fuel with
  | nil =>
      obtain ⟨fuel, rfl⟩ : ∃ left, fuel = left + 1 := ⟨fuel - 1, by omega⟩
      have here := findIn_line unbordered filled [] body (fun inside =>
        filled (List.infix_nil.mp inside))
      rw [List.nil_append] at here
      have shape : block mark [] body = mark ++ body := rfl
      rw [shape, linesFrom, here]
      simp
  | cons line later ih =>
      obtain ⟨fuel, rfl⟩ : ∃ left, fuel = left + 1 := ⟨fuel - 1, by omega⟩
      have proper_line := proper line (by simp)
      have here := findIn_line unbordered filled line (block mark later body) proper_line.clean
      have rest := ih (fun other member => proper other (List.mem_cons_of_mem _ member))
        (Nat.lt_of_succ_lt_succ enough)
      obtain ⟨before, size⟩ := Nat.exists_eq_succ_of_ne_zero
        (List.length_pos_iff.mpr proper_line.filled).ne'
      have taken : (line ++ (mark ++ block mark later body)).take (before + 1) = line := by
        rw [← Nat.succ_eq_add_one, ← size, List.take_left]
      have dropped : (line ++ (mark ++ block mark later body)).drop (before + 1 + mark.length) =
          block mark later body := by
        rw [← Nat.succ_eq_add_one, ← size, ← List.drop_drop, List.drop_left, List.drop_left]
      rw [block_cons, linesFrom, here, size]
      simp only [taken, dropped, rest, Option.map_some]

/-- The lines of a text are these exactly when the text is made of them. -/
theorem lines_eq_some_iff (unbordered : Unbordered mark) (filled : mark ≠ []) (s : List α)
    (found : List (List α)) (body : List α) :
    lines mark s = some (found, body) ↔
      s = block mark found body ∧ ∀ line ∈ found, Line mark line := by
  constructor
  · exact linesFrom_sound filled _ s found body
  · rintro ⟨rfl, proper⟩
    refine linesFrom_block unbordered filled found body proper ?_
    clear proper
    induction found with
    | nil => simp
    | cons line later ih =>
        rw [block_cons]
        have room := List.length_pos_iff.mpr filled
        simp only [List.length_append, List.length_cons]
        omega

end EChainLib.LineBlock
