import EChainLib.Support.Strings
import EChainLib.Config.Ini

/-! The functions of `strings.h` that do not tell upper case from lower case: `ToUpper`,
`EqualsIgnoreCase` and `IsContainStringIgnoreCase`. -/

namespace EChainLib.Utils

open EChainLib.Keys (Bytes)
open EChainLib.Config (chr)
open EChainLib.Strings (position)

def upperByte (byte : UInt8) : UInt8 :=
  if chr 'a' ≤ byte ∧ byte ≤ chr 'z' then byte - 0x20 else byte

/-- The text that `ToUpper` leaves in its argument, and returns. -/
def toUpper (str : Bytes) : Bytes := str.map upperByte

def charIsLetter (c : UInt8) : Bool :=
  (chr 'A' ≤ c && c ≤ chr 'Z') || (chr 'a' ≤ c && c ≤ chr 'z')

/-- One round of `EqualsIgnoreCase`: the characters are equal, or letters 0x20 apart. -/
def equalsByte (c d : UInt8) : Bool :=
  if c = d then true
  else if !charIsLetter c || !charIsLetter d then false
  else if 0x20 ≠ ((c.toNat : Int) - d.toNat).natAbs then false
  else true

def equalsLoop : Bytes → Bytes → Bool
  | c :: s1, d :: s2 => if equalsByte c d then equalsLoop s1 s2 else false
  | _, _ => true

def equalsIgnoreCase (s1 s2 : Bytes) : Bool :=
  if s1.length ≠ s2.length then false else equalsLoop s1 s2

/-- The two copies `s1` and `s2` are folded, and the arguments are searched. -/
def isContainStringIgnoreCase (str1 str2 : Bytes) : Bool :=
  let _s1 := toUpper str1
  let _s2 := toUpper str2
  (position str1 str2 0).isSome

/-- A part of `a` that is `b` up to case. -/
def ContainsIgnoringCase (a b : Bytes) : Prop :=
  ∃ part, part <:+: a ∧ part.length = b.length ∧ equalsIgnoreCase part b = true

theorem upperByte_toNat (byte : UInt8) : (upperByte byte).toNat =
    if 97 ≤ byte.toNat ∧ byte.toNat ≤ 122 then byte.toNat - 32 else byte.toNat := by
  have first : (chr 'a').toNat = 97 := rfl
  have last : (chr 'z').toNat = 122 := rfl
  unfold upperByte
  simp only [UInt8.le_iff_toNat_le, first, last]
  split_ifs with lower
  · exact UInt8.toNat_sub_of_le byte 0x20 (UInt8.le_iff_toNat_le.mpr (by simp; omega))
  · rfl

theorem charIsLetter_iff (c : UInt8) : charIsLetter c = true ↔
    (65 ≤ c.toNat ∧ c.toNat ≤ 90) ∨ (97 ≤ c.toNat ∧ c.toNat ≤ 122) := by
  have upper : (chr 'A').toNat = 65 ∧ (chr 'Z').toNat = 90 := ⟨rfl, rfl⟩
  have lower : (chr 'a').toNat = 97 ∧ (chr 'z').toNat = 122 := ⟨rfl, rfl⟩
  simp [charIsLetter, UInt8.le_iff_toNat_le, upper, lower]

/-- Two letters are 0x20 apart only if they are one letter in both cases. -/
theorem equalsByte_iff (c d : UInt8) : equalsByte c d = true ↔ upperByte c = upperByte d := by
  have c_small := c.toNat_lt
  have d_small := d.toNat_lt
  rw [← UInt8.toNat_inj, upperByte_toNat, upperByte_toNat]
  unfold equalsByte
  by_cases same : c = d
  · simp [same]
  · have apart : c.toNat ≠ d.toNat := fun equal => same (UInt8.toNat_inj.mp equal)
    by_cases letters : charIsLetter c = true ∧ charIsLetter d = true
    -- both cases have fewer than 0x20 letters
    · have c_letter := (charIsLetter_iff c).mp letters.1
      have d_letter := (charIsLetter_iff d).mp letters.2
      simp only [same, letters.1, letters.2, if_false, Bool.not_true, Bool.or_self,
        Bool.false_eq_true]
      split_ifs <;> simp <;> omega
    · have other : (!charIsLetter c || !charIsLetter d) = true := by
        rw [Bool.or_eq_true, Bool.not_eq_true', Bool.not_eq_true']
        rcases not_and_or.mp letters with no | no
        · exact .inl (Bool.eq_false_iff.mpr no)
        · exact .inr (Bool.eq_false_iff.mpr no)
      rw [charIsLetter_iff, charIsLetter_iff] at letters
      simp only [same, other, if_false, if_true]
      split_ifs <;> simp <;> omega

theorem equalsLoop_iff (s1 s2 : Bytes) (same : s1.length = s2.length) :
    equalsLoop s1 s2 = true ↔ toUpper s1 = toUpper s2 := by
  induction s1 generalizing s2 with
  | nil =>
      obtain rfl := List.length_eq_zero_iff.mp same.symm
      simp [equalsLoop]
  | cons c rest ih =>
      cases s2 with
      | nil => cases same
      | cons d s2 =>
          have below := ih s2 (Nat.succ.inj same)
          simp only [toUpper] at below
          simp [equalsLoop, toUpper, equalsByte_iff, below]

theorem equalsIgnoreCase_iff (a b : Bytes) :
    equalsIgnoreCase a b = true ↔ toUpper a = toUpper b := by
  unfold equalsIgnoreCase
  split_ifs with other
  · constructor
    · intro no
      cases no
    · intro same
      exact absurd (by simpa [toUpper] using congrArg List.length same) other
  · exact equalsLoop_iff a b (not_not.mp other)

theorem isContainStringIgnoreCase_iff (a b : Bytes) :
    isContainStringIgnoreCase a b = true ↔ b <:+: a :=
  Strings.position_isSome_iff a b

/-- A part that is `b` as it is written is also one up to case. -/
theorem contains_as_written {a b : Bytes} (inside : b <:+: a) :
    ContainsIgnoringCase a b :=
  ⟨b, inside, rfl, (equalsIgnoreCase_iff b b).mpr rfl⟩

/-- `EqualsIgnoreCase` compares what `ToUpper` makes of two texts. `IsContainStringIgnoreCase`
does not: it finds the second text in the first only as it is written. -/
theorem ignore_case_iff (a b : Bytes) :
    (equalsIgnoreCase a b = true ↔ toUpper a = toUpper b) ∧
      ((isContainStringIgnoreCase a b = true ↔ ContainsIgnoringCase a b) ↔
        (b <:+: a ∨ ∀ part, part <:+: a → toUpper part ≠ toUpper b)) := by
  refine ⟨equalsIgnoreCase_iff a b, ?_⟩
  rw [isContainStringIgnoreCase_iff]
  constructor
  · intro finds
    by_cases inside : b <:+: a
    · exact .inl inside
    · refine .inr fun part within same => inside (finds.mpr ⟨part, within, ?_, ?_⟩)
      · simpa [toUpper] using congrArg List.length same
      · exact (equalsIgnoreCase_iff part b).mpr same
  · rintro (inside | nowhere)
    · exact ⟨fun _ => contains_as_written inside, fun _ => inside⟩
    · refine ⟨contains_as_written, ?_⟩
      rintro ⟨part, within, _, equal⟩
      exact absurd ((equalsIgnoreCase_iff part b).mp equal) (nowhere part within)

theorem other_case_not_found :
    isContainStringIgnoreCase [chr 'A'] [chr 'a'] = false ∧
      ContainsIgnoringCase [chr 'A'] [chr 'a'] :=
  ⟨by decide, [chr 'A'], List.infix_rfl, rfl, by decide⟩

end EChainLib.Utils
