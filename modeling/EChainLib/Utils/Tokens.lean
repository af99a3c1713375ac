import EChainLib.Support.Strings
import EChainLib.Node.Records

/-! The tokenizers of `strings.h`: `split`, which looks for one of several characters, the
`Strtok` for one character, and the template `Strtok`, which looks for a text and counts in
`int`s. -/

namespace EChainLib.Utils

open EChainLib.Keys (Bytes cString)
open EChainLib.Node (int32 IsInt32 int32_of_inside)
open EChainLib.Strings (findIn position)

/-! `split`. -/

/-- `find_first_of`. -/
def findFirstOf (s delim : Bytes) (pos : Nat) : Option Nat :=
  ((s.drop pos).findIdx? fun c => delim.contains c).map (pos + ·)

/-- The loop from `last` on. `fuel` bounds the number of its rounds. -/
def splitLoop (s delim : Bytes) : Nat → Nat → List Bytes
  | 0, _ => []
  | fuel + 1, last =>
      match findFirstOf s delim last with
      | some index => (s.drop last).take (index - last) :: splitLoop s delim fuel (index + 1)
      -- `index` is `npos`, and `npos - last` is more than 0 on an empty rest too
      | none => [s.drop last]

def split (s delim : Bytes) : List Bytes := splitLoop s delim (s.length + 1) 0

theorem findFirstOf_cut (front before after : Bytes) (d : UInt8) (absent : d ∉ before) :
    findFirstOf (front ++ (before ++ d :: after)) [d] front.length =
      some (front.length + before.length) := by
  have place : (before ++ d :: after).findIdx? (fun c => List.contains [d] c) =
      some before.length := by
    refine List.findIdx?_eq_some_iff_getElem.mpr ⟨by simp, by simp, fun j inside => ?_⟩
    rw [List.getElem_append_left inside]
    intro same
    rw [List.contains_iff_mem, List.mem_singleton] at same
    exact absent (same ▸ List.getElem_mem inside)
  rw [findFirstOf, List.drop_left, place, Option.map_some]

theorem findFirstOf_missing (front rest : Bytes) (d : UInt8) (absent : d ∉ rest) :
    findFirstOf (front ++ rest) [d] front.length = none := by
  have nowhere : rest.findIdx? (fun c => List.contains [d] c) = none := by
    refine List.findIdx?_eq_none_iff.mpr fun c member => ?_
    rw [Bool.eq_false_iff]
    intro same
    rw [List.contains_iff_mem, List.mem_singleton] at same
    exact absent (same ▸ member)
  rw [findFirstOf, List.drop_left, nowhere, Option.map_none]

theorem splitLoop_eq (d : UInt8) (fuel : Nat) (front rest : Bytes) (enough : rest.length < fuel) :
    splitLoop (front ++ rest) [d] fuel front.length = rest.splitOn d := by
  induction fuel generalizing front rest with
  | zero => exact absurd enough (Nat.not_lt_zero _)
  | succ fuel ih =>
      rw [splitLoop]
      by_cases occurs : d ∈ rest
      -- the piece ends at the first mark, and `last` goes behind that
      · obtain ⟨before, after, rfl, absent⟩ := List.eq_append_cons_of_mem occurs
        have next : front.length + before.length + 1 = (front ++ before ++ [d]).length := by
          simp
          omega
        have same : front ++ (before ++ d :: after) = (front ++ before ++ [d]) ++ after := by simp
        have later : after.length < fuel := by
          simp only [List.length_append, List.length_cons] at enough
          omega
        rw [findFirstOf_cut front before after d absent, List.drop_left,
          List.splitOn_append_cons_self_of_not_mem absent]
        simp only [Nat.add_sub_cancel_left, List.take_left, List.cons.injEq, true_and]
        rw [next, same]
        exact ih _ after later
      · rw [findFirstOf_missing front rest d occurs, List.drop_left,
          List.splitOn_eq_singleton occurs]

/-- By one character, `split` cuts at every occurrence of it. -/
theorem split_eq (s : Bytes) (d : UInt8) : split s [d] = s.splitOn d := by
  exact splitLoop_eq d (s.length + 1) [] s (Nat.lt_succ_self _)

/-! `Strtok` by one character. -/

/-- The loop from `newPos` on. -/
def strtokCharLoop (str : Bytes) (separator : UInt8) : Nat → Nat → List Bytes
  | 0, _ => []
  | fuel + 1, newPos =>
      match findFirstOf str [separator] newPos with
      -- `pos` is `npos`, which is more than any position
      | none => [str.drop newPos]
      | some pos =>
          if pos > newPos then
            (str.drop newPos).take (pos - newPos) :: strtokCharLoop str separator fuel (pos + 1)
          else strtokCharLoop str separator fuel (pos + 1)

def strtokChar (str : Bytes) (separator : UInt8) : List Bytes :=
  strtokCharLoop str separator (str.length + 1) 0

/-- The pieces that are not empty, and the last. -/
def keptPieces : List Bytes → List Bytes
  | [] => []
  | [last] => [last]
  | piece :: rest => if piece = [] then keptPieces rest else piece :: keptPieces rest

theorem keptPieces_append (front pieces : List Bytes) (some_piece : pieces ≠ []) :
    keptPieces (front ++ pieces) = front.filter (fun piece => piece ≠ []) ++ keptPieces pieces := by
  induction front with
  | nil => rfl
  | cons piece rest ih =>
      obtain ⟨next, more, shape⟩ := List.exists_cons_of_ne_nil
        (List.append_ne_nil_of_right_ne_nil rest some_piece)
      rw [List.cons_append, shape, keptPieces, ← shape, ih]
      · by_cases empty : piece = []
        · simp [empty]
        · simp [empty]
      · simp

theorem strtokCharLoop_eq (d : UInt8) (fuel : Nat) (front rest : Bytes)
    (enough : rest.length < fuel) :
    strtokCharLoop (front ++ rest) d fuel front.length = keptPieces (rest.splitOn d) := by
  induction fuel generalizing front rest with
  | zero => exact absurd enough (Nat.not_lt_zero _)
  | succ fuel ih =>
      rw [strtokCharLoop]
      by_cases occurs : d ∈ rest
      · obtain ⟨before, after, rfl, absent⟩ := List.eq_append_cons_of_mem occurs
        have next : front.length + before.length + 1 = (front ++ before ++ [d]).length := by
          simp
          omega
        have same : front ++ (before ++ d :: after) = (front ++ before ++ [d]) ++ after := by simp
        have later : after.length < fuel := by
          simp only [List.length_append, List.length_cons] at enough
          omega
        have step := ih (front ++ before ++ [d]) after later
        have pieces := keptPieces_append [before] (after.splitOn d) (List.splitOn_ne_nil d after)
        rw [findFirstOf_cut front before after d absent, List.drop_left,
          List.splitOn_append_cons_self_of_not_mem absent]
        simp only [Nat.add_sub_cancel_left, List.take_left]
        rw [List.singleton_append] at pieces
        rw [next, same, step, pieces]
        by_cases empty : before = []
        · simp [empty]
        · have some_char := List.length_pos_iff.mpr empty
          rw [if_pos (by omega)]
          simp [empty]
      · rw [findFirstOf_missing front rest d occurs, List.drop_left,
          List.splitOn_eq_singleton occurs]
        rfl

theorem strtokChar_eq (s : Bytes) (d : UInt8) : strtokChar s d = keptPieces (s.splitOn d) :=
  strtokCharLoop_eq d (s.length + 1) [] s (Nat.lt_succ_self _)

/-- In front of a separator the pieces that are not empty are kept. -/
theorem strtokChar_append (front after : Bytes) (d : UInt8) :
    strtokChar (front ++ d :: after) d =
      (front.splitOn d).filter (fun piece => piece ≠ []) ++ strtokChar after d := by
  rw [strtokChar_eq, strtokChar_eq, List.splitOn_append_cons_self,
    keptPieces_append _ _ (List.splitOn_ne_nil d after)]

theorem strtokChar_piece (before after : Bytes) (d : UInt8) (absent : d ∉ before)
    (filled : before ≠ []) : strtokChar (before ++ d :: after) d = before :: strtokChar after d := by
  rw [strtokChar_append, List.splitOn_eq_singleton absent]
  simp [filled]

theorem strtokChar_last (s : Bytes) (d : UInt8) (absent : d ∉ s) : strtokChar s d = [s] := by
  rw [strtokChar_eq, List.splitOn_eq_singleton absent]
  rfl

/-! `Strtok` by a text. -/

/-- A size or a position of a string put in an `int`. -/
def narrow (size : Nat) : Int := (Int32.ofNat size).toInt

/-- `(int)content.find(key.c_str(), start_pos)`; `npos` becomes -1. -/
def findPos (content key : Bytes) (start_pos : Int) : Int :=
  match position content (cString key) start_pos.toNat with
  | none => -1
  | some found => narrow found

/-- The loop from `start_pos` on, with the pieces found from there; `none` is an overflow. -/
def strtokLoop (content key : Bytes) (max_items : Int) (ignore_empty : Bool) (end_pos : Int) :
    Nat → Int → Int → Option (List Bytes)
  | 0, _, _ => none
  | fuel + 1, start_pos, item_count =>
      if start_pos < end_pos then
        let find_pos := findPos content key start_pos
        let find_pos :=
          if find_pos < 0 ∨ find_pos ≥ end_pos ∨ (max_items > 0 ∧ item_count = max_items - 1) then
            end_pos
          else find_pos
        if find_pos < start_pos then some []
        else do
          let start ← int32 (find_pos + narrow key.length)
          if find_pos > start_pos ∨ !ignore_empty then
            let new_value := (content.drop start_pos.toNat).take (find_pos - start_pos).toNat
            let rest ← strtokLoop content key max_items ignore_empty end_pos fuel start (item_count + 1)
            return new_value :: rest
          else
            strtokLoop content key max_items ignore_empty end_pos fuel start item_count
      else some []

/-- The pieces left in `values`, which the function also counts; `content_len` is `none` for
`npos`. -/
def strtok (content key : Bytes) (max_items : Int) (ignore_empty : Bool)
    (content_len : Option Nat) : Option (List Bytes) :=
  let end_pos := match content_len with
    | none => narrow content.length
    | some size => narrow size
  if key = [] then some []
  else
    let end_pos := if end_pos ≤ 0 ∨ end_pos ≥ narrow content.length then narrow content.length else end_pos
    strtokLoop content key max_items ignore_empty end_pos (content.length + 1) 0 0

theorem narrow_of_lt {size : Nat} (small : size < 2 ^ 31) : narrow size = size :=
  Int32.toInt_ofNat_of_lt small

theorem narrow_range (size : Nat) : -2 ^ 31 ≤ narrow size ∧ narrow size < 2 ^ 31 :=
  ⟨Int32.le_toInt _, Int32.toInt_lt _⟩

/-- A size that does not fit loses at least 2^32. -/
theorem narrow_of_ge {size : Nat} (large : 2 ^ 31 ≤ size) : narrow size + 2 ^ 32 ≤ size := by
  have narrowed : narrow size = Int.bmod size (2 ^ 32) := Int32.toInt_ofNat'
  rw [narrowed, Int.bmod]
  split_ifs <;> omega

section OneMark

variable {d : UInt8} (marked : d ≠ 0)

include marked

theorem cString_mark : cString [d] = [d] :=
  Keys.cString_of_text [d] (by simpa using marked.symm)

theorem findPos_cut (front before after : Bytes) (absent : d ∉ before)
    (small : front.length + before.length < 2 ^ 31) :
    findPos (front ++ (before ++ d :: after)) [d] front.length =
      (front.length + before.length : Nat) := by
  have place := Strings.findIn_at d before after absent
  rw [findPos, cString_mark marked, position, if_neg (List.cons_ne_nil d []), Int.toNat_natCast,
    List.drop_left, place]
  exact narrow_of_lt small

theorem findPos_missing (front rest : Bytes) (absent : d ∉ rest) :
    findPos (front ++ rest) [d] front.length = -1 := by
  have nowhere := Strings.findIn_of_notMem d [] rest absent
  rw [findPos, cString_mark marked, position, if_neg (List.cons_ne_nil d []), Int.toNat_natCast,
    List.drop_left, nowhere]
  rfl

/-- A piece in front of the mark. -/
theorem strtokLoop_piece (front before after : Bytes) (absent : d ∉ before) (max_items : Int)
    (fuel : Nat) (item_count : Int) (open_ : ¬ (max_items > 0 ∧ item_count = max_items - 1))
    (small : (front ++ (before ++ d :: after)).length < 2 ^ 31) :
    strtokLoop (front ++ (before ++ d :: after)) [d] max_items false
        (front ++ (before ++ d :: after)).length (fuel + 1) front.length item_count =
      (strtokLoop (front ++ (before ++ d :: after)) [d] max_items false
        (front ++ (before ++ d :: after)).length fuel (front ++ before ++ [d]).length
        (item_count + 1)).map (before :: ·) := by
  have size : (front ++ (before ++ d :: after)).length =
      front.length + before.length + 1 + after.length := by
    simp
    omega
  have found := findPos_cut marked front before after absent (by omega)
  have one : narrow [d].length = 1 := rfl
  have step : int32 ((front.length + before.length : Nat) + 1) =
      some ((front ++ before ++ [d]).length : Int) := by
    have value : ((front.length + before.length : Nat) + 1 : Int) =
        (front ++ before ++ [d]).length := by
      simp
      omega
    rw [value]
    exact int32_of_inside ⟨by omega, by simp; omega⟩
  have kept : ¬ (((front.length + before.length : Nat) : Int) < 0 ∨
      ((front.length + before.length : Nat) : Int) ≥ (front ++ (before ++ d :: after)).length ∨
      (max_items > 0 ∧ item_count = max_items - 1)) := by
    rintro (negative | beyond | last)
    · omega
    · omega
    · exact open_ last
  have ahead : ¬ ((front.length + before.length : Nat) : Int) < front.length := by omega
  have piece : ((front ++ (before ++ d :: after)).drop (front.length : Int).toNat).take
      (((front.length + before.length : Nat) : Int) - front.length).toNat = before := by
    have width : (((front.length + before.length : Nat) : Int) - front.length).toNat =
        before.length := by omega
    rw [width, Int.toNat_natCast, List.drop_left, List.take_left]
  rw [strtokLoop, if_pos (by omega)]
  simp only [found, if_neg kept, if_neg ahead, one, step, piece, Bool.not_false, or_true, if_true,
    Option.bind_eq_bind, Option.bind_some]
  cases strtokLoop _ _ _ _ _ fuel _ _ <;> rfl

/-- The last piece; the position is moved past the end by the length of the mark. -/
theorem strtokLoop_last (front rest : Bytes) (filled : rest ≠ []) (max_items : Int) (fuel : Nat)
    (item_count : Int) (closed : d ∉ rest ∨ (max_items > 0 ∧ item_count = max_items - 1))
    (small : (front ++ rest).length < 2 ^ 31) :
    strtokLoop (front ++ rest) [d] max_items false (front ++ rest).length (fuel + 2) front.length
        item_count =
      if (front ++ rest).length + 1 < 2 ^ 31 then some [rest] else none := by
  have size : (front ++ rest).length = front.length + rest.length := List.length_append
  have room := List.length_pos_iff.mpr filled
  have one : narrow [d].length = 1 := rfl
  have taken : findPos (front ++ rest) [d] front.length < 0 ∨
      findPos (front ++ rest) [d] front.length ≥ (front ++ rest).length ∨
      (max_items > 0 ∧ item_count = max_items - 1) := by
    rcases closed with absent | last
    · rw [findPos_missing marked front rest absent]
      exact .inl (by decide)
    · exact .inr (.inr last)
  have ahead : ¬ ((front ++ rest).length : Int) < front.length := by omega
  have piece : ((front ++ rest).drop (front.length : Int).toNat).take
      (((front ++ rest).length : Int) - front.length).toNat = rest := by
    have width : (((front ++ rest).length : Int) - front.length).toNat = rest.length := by omega
    rw [width, Int.toNat_natCast, List.drop_left, List.take_length]
  rw [strtokLoop, if_pos (by omega)]
  simp only [if_pos taken, if_neg ahead, one, piece, Bool.not_false, or_true, if_true]
  -- the position behind the end is computed before it is compared
  by_cases fits : (front ++ rest).length + 1 < 2 ^ 31
  · have step : int32 ((front ++ rest).length + 1) = some ((front ++ rest).length + 1 : Int) :=
      int32_of_inside ⟨by omega, by omega⟩
    rw [step, if_pos fits]
    simp only [Option.bind_eq_bind, Option.bind_some]
    rw [strtokLoop, if_neg (by omega)]
    rfl
  · have overflow : int32 ((front ++ rest).length + 1) = none :=
      if_neg fun inside => fits (by have := inside.2; omega)
    rw [overflow, if_neg fits]
    rfl

theorem strtokLoop_pieces (pieces : List Bytes) (last front : Bytes) (filled : last ≠ [])
    (absent : ∀ piece ∈ pieces ++ [last], d ∉ piece) {fuel : Nat} {item_count : Int}
    (enough : pieces.length + 2 ≤ fuel)
    (small : (front ++ [d].intercalate (pieces ++ [last])).length < 2 ^ 31) :
    strtokLoop (front ++ [d].intercalate (pieces ++ [last])) [d] (-1) false
        (front ++ [d].intercalate (pieces ++ [last])).length fuel front.length item_count =
      if (front ++ [d].intercalate (pieces ++ [last])).length + 1 < 2 ^ 31 then
        some (pieces ++ [last])
      else none := by
  induction pieces generalizing front fuel item_count with
  | nil =>
      obtain ⟨fuel, rfl⟩ := Nat.exists_eq_add_of_le' enough
      have alone : [d].intercalate ([] ++ [last]) = last := List.intercalate_singleton
      rw [alone] at small ⊢
      exact strtokLoop_last marked front last filled _ _ _ (.inl (absent last (by simp))) small
  | cons piece pieces ih =>
      obtain ⟨fuel, rfl⟩ : ∃ left, fuel = left + 1 := ⟨fuel - 1, by omega⟩
      have whole : front ++ [d].intercalate (piece :: pieces ++ [last]) =
          front ++ (piece ++ d :: [d].intercalate (pieces ++ [last])) := by
        rw [List.cons_append, List.intercalate_cons_of_ne_nil (by simp)]
        simp
      have onward : front ++ (piece ++ d :: [d].intercalate (pieces ++ [last])) =
          (front ++ piece ++ [d]) ++ [d].intercalate (pieces ++ [last]) := by simp
      rw [whole] at small ⊢
      rw [strtokLoop_piece marked front piece _ (absent piece (by simp)) _ _ _ (by omega) small]
      rw [onward] at small ⊢
      rw [ih (front ++ piece ++ [d]) (fun other member => absent other (by simp [member]))
        (by simp at enough ⊢; omega) small]
      split_ifs <;> rfl

omit marked in
theorem strtok_eq (content : Bytes) (max_items : Int) (ignore_empty : Bool) :
    strtok content [d] max_items ignore_empty none =
      strtokLoop content [d] max_items ignore_empty (narrow content.length) (content.length + 1) 0 0 := by
  simp [strtok]

/-- A text of pieces is cut into them if the position behind it is still an `int`. -/
theorem strtok_pieces (pieces : List Bytes) (last : Bytes) (filled : last ≠ [])
    (absent : ∀ piece ∈ pieces ++ [last], d ∉ piece)
    (small : ([d].intercalate (pieces ++ [last])).length < 2 ^ 31) :
    strtok ([d].intercalate (pieces ++ [last])) [d] (-1) false none =
      if ([d].intercalate (pieces ++ [last])).length + 1 < 2 ^ 31 then some (pieces ++ [last])
      else none := by
  have enough : pieces.length + 2 ≤ ([d].intercalate (pieces ++ [last])).length + 1 := by
    have room := List.length_pos_iff.mpr filled
    clear absent small
    induction pieces with
    | nil =>
        rw [List.nil_append, List.intercalate_singleton, List.length_nil]
        omega
    | cons piece pieces ih =>
        rw [List.cons_append, List.intercalate_cons_of_ne_nil (by simp)]
        simp only [List.length_append, List.length_cons, List.length_nil]
        omega
  rw [strtok_eq, narrow_of_lt small]
  exact strtokLoop_pieces marked pieces last [] filled absent enough small

/-- Of two items the second is everything behind the first mark. -/
theorem strtok_two (first second : Bytes) (absent : d ∉ first)
    (small : (first ++ d :: second).length + 1 < 2 ^ 31) :
    strtok (first ++ d :: second) [d] 2 false none =
      some (if second = [] then [first] else [first, second]) := by
  have size : (first ++ d :: second).length = first.length + second.length + 1 := by
    simp
    omega
  have below : (first ++ d :: second).length < 2 ^ 31 := by omega
  have step := strtokLoop_piece marked [] first second absent 2 (first ++ d :: second).length 0
    (by omega) below
  rw [List.nil_append] at step
  rw [strtok_eq, narrow_of_lt below]
  refine step.trans ?_
  have front : [] ++ first ++ [d] = first ++ [d] := rfl
  by_cases empty : second = []
  · subst empty
    rw [front, size, strtokLoop, if_neg (by simp)]
    rfl
  · have room := List.length_pos_iff.mpr empty
    obtain ⟨fuel, enough⟩ : ∃ fuel, (first ++ d :: second).length = fuel + 2 :=
      ⟨first.length + second.length - 1, by omega⟩
    have same : first ++ d :: second = (first ++ [d]) ++ second := by simp
    have last := strtokLoop_last marked (first ++ [d]) second empty 2 fuel (0 + 1)
      (.inr ⟨by omega, rfl⟩) (same ▸ below)
    rw [← same, if_pos small] at last
    rw [front, enough, if_neg empty]
    rw [enough] at last
    rw [last]
    rfl

omit marked in
/-- The pieces do not overlap, and lie in front of the end. -/
theorem strtokLoop_bound (content : Bytes) (max_items : Int) (ignore_empty : Bool) (end_pos : Int)
    (fuel : Nat) (start_pos item_count : Int) (pieces : List Bytes)
    (returned : strtokLoop content [d] max_items ignore_empty end_pos fuel start_pos item_count =
      some pieces) :
    (pieces.map fun piece => piece.length + 1).sum ≤ (end_pos + 1 - start_pos).toNat := by
  have one : narrow [d].length = 1 := rfl
  induction fuel generalizing start_pos item_count pieces with
  | zero => cases returned
  | succ fuel ih =>
      rw [strtokLoop] at returned
      split_ifs at returned with inside
      · dsimp only at returned
        generalize find_shape : (if findPos content [d] start_pos < 0 ∨
            findPos content [d] start_pos ≥ end_pos ∨
            (max_items > 0 ∧ item_count = max_items - 1) then end_pos
          else findPos content [d] start_pos) = find_pos at returned
        have limit : find_pos ≤ end_pos := by
          rw [← find_shape]
          split_ifs <;> omega
        split_ifs at returned with back pushed
        · cases returned
          simp
        · obtain ⟨start, moved, continued⟩ := Option.bind_eq_some_iff.mp returned
          obtain ⟨rest, rest_found, shape⟩ := Option.bind_eq_some_iff.mp continued
          cases shape
          have next := (Node.int32_eq_some _ _).mp moved
          have later := ih start (item_count + 1) rest rest_found
          have width := List.length_take_le (find_pos - start_pos).toNat
            (content.drop start_pos.toNat)
          rw [List.map_cons, List.sum_cons]
          omega
        · obtain ⟨start, moved, continued⟩ := Option.bind_eq_some_iff.mp returned
          have next := (Node.int32_eq_some _ _).mp moved
          have later := ih start item_count pieces continued
          omega
      · cases returned
        simp

omit marked in
theorem strtok_bound (content : Bytes) (max_items : Int) (ignore_empty : Bool)
    (pieces : List Bytes)
    (returned : strtok content [d] max_items ignore_empty none = some pieces) :
    (pieces.map fun piece => piece.length + 1).sum ≤ (narrow content.length + 1).toNat := by
  rw [strtok_eq] at returned
  simpa using strtokLoop_bound content max_items ignore_empty _ _ 0 0 pieces returned

end OneMark

end EChainLib.Utils
