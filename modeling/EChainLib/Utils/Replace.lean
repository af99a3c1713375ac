import EChainLib.Support.Substitution
import EChainLib.Config.Ini

/-! `String::Replace` of `strings.h`, and `File::RegularPath`. -/

namespace EChainLib.Utils

open EChainLib.Keys (Bytes)
open EChainLib.Config (chr)
open EChainLib.Strings (findIn position)
open EChainLib.Substitution

/-- The loop. A position of -1 is `npos`; `none` is that the fuel was used up. -/
def replaceLoop (from_ to_ : Bytes) : Nat → Bytes → Nat → Option Bytes
  | 0, _, _ => none
  | fuel + 1, str, pos =>
      match position str from_ pos with
      | none => some str
      | some pos =>
          let str := str.take pos ++ to_ ++ str.drop (pos + from_.length)
          replaceLoop from_ to_ fuel str (pos + to_.length)

/-- The text that `Replace` leaves in its first argument, and returns. -/
def replace (fuel : Nat) (str from_ to_ : Bytes) : Option Bytes := replaceLoop from_ to_ fuel str 0

/-- `Replace` returns, with the text that the scan from left to right makes. -/
def Replaces (str from_ to_ : Bytes) : Prop :=
  ∃ fuel, replace fuel str from_ to_ = some (substitute from_ to_ str)

/-- What lies in front of the position stays, and what lies behind it is scanned. -/
theorem replaceLoop_eq {from_ : Bytes} (to_ : Bytes) (filled : from_ ≠ []) (fuel : Nat)
    (before rest : Bytes) (enough : rest.length < fuel) :
    replaceLoop from_ to_ fuel (before ++ rest) before.length =
      some (before ++ substitute from_ to_ rest) := by
  induction fuel generalizing before rest with
  | zero => exact absurd enough (Nat.not_lt_zero _)
  | succ fuel ih =>
      -- the search from the position on sees the rest only
      have looked : position (before ++ rest) from_ before.length =
          (findIn from_ rest).map (before.length + ·) := by
        rw [position, if_neg filled, List.drop_left]
      rw [replaceLoop, looked]
      cases found : findIn from_ rest with
      | none => simp [substitute_of_missing to_ found]
      | some ahead =>
          have length := List.length_pos_iff.mpr filled
          have inside := (Strings.findIn_begins found).length_le
          rw [List.length_drop] at inside
          have kept : (before ++ rest).take (before.length + ahead) = before ++ rest.take ahead :=
            List.take_length_add_append ahead
          have left : (before ++ rest).drop (before.length + ahead + from_.length) =
              rest.drop (ahead + from_.length) := by
            rw [Nat.add_assoc, List.drop_length_add_append]
          -- the next position is behind the text put in
          have front : before.length + ahead + to_.length =
              (before ++ rest.take ahead ++ to_).length := by
            simp
            omega
          simp only [Option.map_some, kept, left, front]
          rw [ih _ _ (by rw [List.length_drop]; omega), substitute_of_found to_ filled found]
          simp only [List.append_assoc]

/-- The empty text is found again at every position reached. -/
theorem replaceLoop_empty (to_ : Bytes) (fuel : Nat) (str : Bytes) (pos : Nat)
    (inside : pos ≤ str.length) : replaceLoop [] to_ fuel str pos = none := by
  induction fuel generalizing str pos with
  | zero => rfl
  | succ fuel ih =>
      have found : position str [] pos = some pos := by
        rw [position, if_pos rfl, if_pos inside]
      rw [replaceLoop, found]
      apply ih
      simp
      omega

theorem replaces_iff (str from_ to_ : Bytes) : Replaces str from_ to_ ↔ from_ ≠ [] := by
  constructor
  · rintro ⟨fuel, returned⟩ rfl
    rw [replace, replaceLoop_empty to_ fuel str 0 (Nat.zero_le _)] at returned
    cases returned
  · exact fun filled =>
      ⟨str.length + 1, replaceLoop_eq to_ filled (str.length + 1) [] str (Nat.lt_succ_self _)⟩

-- The replacement holds the pattern, and is not replaced again.
example : replace 4 [chr 'a', chr 'b', chr 'a'] [chr 'a'] [chr 'a', chr 'a'] =
    some [chr 'a', chr 'a', chr 'b', chr 'a', chr 'a'] := by decide

theorem empty_pattern_not_replaced :
    substitute [] [chr 'b'] [chr 'a'] = [chr 'a'] ∧ ¬ Replaces [chr 'a'] [] [chr 'b'] := by
  refine ⟨substitute_empty _ _, ?_⟩
  rintro ⟨fuel, returned⟩
  rw [replace, replaceLoop_empty _ fuel _ 0 (Nat.zero_le _)] at returned
  cases returned

/-- What `Replace` leaves for a pattern that is not empty. -/
def replaced (str from_ to_ : Bytes) : Bytes := (replace (str.length + 1) str from_ to_).getD str

theorem replaced_char (s : Bytes) (a b : UInt8) :
    replaced s [a] [b] = s.map fun c => if c = a then b else c := by
  have done := replaceLoop_eq [b] (List.cons_ne_nil a []) (s.length + 1) [] s (Nat.lt_succ_self _)
  rw [replaced, replace]
  simp only [List.nil_append, List.length_nil] at done
  rw [done, Option.getD_some, substitute_char]

/-- `File::RegularPath`. -/
def regularPath (path : Bytes) : Bytes := replaced path [chr '\\'] [chr '/']

theorem regularPath_plain (path : Bytes) (plain : chr '\\' ∉ path) : regularPath path = path := by
  have kept : ∀ byte ∈ path, (if byte = chr '\\' then chr '/' else byte) = byte := by
    rintro byte member
    exact if_neg (by rintro rfl; exact plain member)
  rw [regularPath, replaced_char]
  exact (List.map_congr_left kept).trans (List.map_id' path)

end EChainLib.Utils
