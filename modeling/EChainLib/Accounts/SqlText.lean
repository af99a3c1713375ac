import Mathlib
import EChainLib.Support.Quoted
import EChainLib.Keys.KeyElement

/-! The texts that the database functions print into `SQLCmd` with their arguments
between quotes, and what MySQL reads in them. -/

namespace EChainLib.Accounts

open EChainLib.Keys (Bytes cString cString_of_text text)
open EChainLib.Quoted (Fixed Plain Mark)

/-! Printing. -/

/-- `sprintf("%d")`. -/
def decimal (value : Int) : Bytes :=
  let digits := Nat.toDigits 10 value.natAbs
  (if value < 0 then ['-'.toUInt8] else []) ++ digits.map Char.toUInt8

/-- What is put between two quotes: a string through `c_str()`, or an `int`. -/
inductive Argument where
  | string (value : Bytes)
  | number (value : Int)

def Argument.bytes : Argument → Bytes
  | .string value => value
  | .number value => decimal value

structure SqlStatement where
  head : Fixed
  fields : List (Argument × Fixed)

namespace SqlStatement

/-- The statement with every string whole. -/
def meant (statement : SqlStatement) : Quoted.Statement where
  head := statement.head
  fields := statement.fields.map fun field => (field.1.bytes, field.2)

/-- The C string in `SQLCmd`. -/
def text (statement : SqlStatement) : Bytes := (statement.meant.printed cString).render

def strings (statement : SqlStatement) : List Bytes :=
  statement.fields.filterMap fun field =>
    match field.1 with
    | .string value => some value
    | .number _ => none

/-- The text fits in `SQLCmd` with its terminator, and is read as one statement with
the arguments for its literals. -/
structure Rendered (statement : SqlStatement) : Prop where
  fits : statement.text.length + 1 ≤ 1024
  reads : Quoted.read .plain statement.text = some statement.meant.marks

instance (statement : SqlStatement) : Decidable statement.Rendered :=
  decidable_of_iff (statement.text.length + 1 ≤ 1024 ∧
    Quoted.read .plain statement.text = some statement.meant.marks)
    ⟨fun ⟨fits, reads⟩ => ⟨fits, reads⟩, fun ⟨fits, reads⟩ => ⟨fits, reads⟩⟩

/-- No string has a NUL, a quote or a backslash that MySQL takes for an escape, and
together they leave room for the fixed parts. -/
structure Harmless (statement : SqlStatement) : Prop where
  plain : ∀ value ∈ statement.strings, (0 : UInt8) ∉ value ∧ Plain value
  short : statement.meant.fixedLength + (statement.meant.arguments.map List.length).sum ≤ 1023

end SqlStatement

def part (literal : String) (valid : Quoted.separates (text literal) = true) : Fixed :=
  ⟨text literal, valid⟩

def comma : Fixed := part ", " (by decide +kernel)

def semicolon : Fixed := part ";" (by decide +kernel)

def closing : Fixed := part ");" (by decide +kernel)

/-! What is read. -/

theorem plain_of_bytes (value : Bytes)
    (safe : ∀ byte ∈ value, byte ≠ Quoted.quote ∧ byte ≠ Quoted.backslash) : Plain value := by
  induction value with
  | nil => exact .nil
  | cons byte rest ih =>
      obtain ⟨no_quote, no_escape⟩ := safe byte (by simp)
      exact .byte no_quote no_escape (ih fun other member => safe other (List.mem_cons_of_mem _ member))

theorem digit_byte (digit : Char) (decimal_digit : digit.isDigit = true) :
    0x2d ≤ digit.toUInt8 ∧ digit.toUInt8 ≤ 0x39 := by
  simp only [Char.isDigit, Bool.and_eq_true, decide_eq_true_eq] at decimal_digit
  have lower : 48 ≤ digit.val.toNat := UInt32.le_iff_toNat_le.mp decimal_digit.1
  have upper : digit.val.toNat ≤ 57 := UInt32.le_iff_toNat_le.mp decimal_digit.2
  have same : digit.toUInt8.toNat = digit.val.toNat := by
    rw [← Char.toUInt8_val, UInt32.toNat_toUInt8]
    omega
  rw [UInt8.le_iff_toNat_le, UInt8.le_iff_toNat_le, same]
  exact ⟨(by decide : (0x2d : UInt8).toNat ≤ 48).trans lower, upper⟩

/-- A digit or a minus sign. -/
theorem decimal_bytes (value : Int) (byte : UInt8) (member : byte ∈ decimal value) :
    0x2d ≤ byte ∧ byte ≤ 0x39 := by
  rcases List.mem_append.mp member with sign | digit
  · split_ifs at sign with negative
    · rw [List.mem_singleton.mp sign]
      decide
    · cases sign
  · obtain ⟨character, found, rfl⟩ := List.mem_map.mp digit
    apply digit_byte character
    exact Nat.isDigit_of_mem_toDigits (Nat.succ_pos 9) le_rfl found

theorem cString_shortens : Quoted.Statement.Shortens cString := by
  intro value
  have start := List.takeWhile_prefix (fun byte : UInt8 => byte ≠ 0) (l := value)
  exact ⟨start.length_le, start.eq_of_length⟩

theorem cString_kept_iff (value : Bytes) : cString value = value ↔ (0 : UInt8) ∉ value := by
  constructor
  · intro kept nul
    have nonzero := List.takeWhile_eq_self_iff.mp kept 0 nul
    exact absurd nonzero (by decide)
  · exact cString_of_text value

namespace SqlStatement

theorem argument_iff (argument : Argument) :
    cString argument.bytes = argument.bytes ∧ Plain argument.bytes ↔
      ∀ value, argument = .string value → (0 : UInt8) ∉ value ∧ Plain value := by
  cases argument with
  | string value => simp [Argument.bytes, cString_kept_iff]
  | number value =>
      have digits := decimal_bytes value
      refine iff_of_true ⟨?_, ?_⟩ (by simp)
      · apply cString_of_text
        intro nul
        exact absurd (digits 0 nul).1 (by decide)
      · apply plain_of_bytes
        intro byte member
        obtain ⟨low, high⟩ := digits byte member
        constructor
        · rintro rfl
          exact absurd low (by decide)
        · rintro rfl
          exact absurd high (by decide)

theorem reads_iff (statement : SqlStatement) :
    Quoted.read .plain statement.text = some statement.meant.marks ↔
      ∀ value ∈ statement.strings, (0 : UInt8) ∉ value ∧ Plain value := by
  rw [text, Quoted.Statement.printed_read_iff cString_shortens]
  simp only [Quoted.Statement.arguments, meant, List.map_map, List.forall_mem_map,
    Function.comp_apply, argument_iff, strings, List.mem_filterMap]
  constructor
  · rintro each value ⟨field, member, found⟩
    apply each field member value
    cases argument : field.1 with
    | string other =>
        rw [argument] at found
        cases found
        rfl
    | number other =>
        rw [argument] at found
        cases found
  · intro each field member value same
    exact each value ⟨field, member, by rw [same]⟩

/-- A statement is rendered as it is meant exactly where its strings are harmless. -/
theorem rendered_iff (statement : SqlStatement) : statement.Rendered ↔ statement.Harmless := by
  have size : Quoted.read .plain statement.text = some statement.meant.marks →
      statement.text.length = statement.meant.fixedLength +
        (statement.meant.arguments.map List.length).sum := by
    intro reads
    have kept := (Quoted.Statement.printed_read_iff cString_shortens statement.meant).mp reads
    rw [text, Quoted.Statement.printed_eq _ fun argument member => (kept argument member).1,
      Quoted.Statement.render_length]
  constructor
  · rintro ⟨fits, reads⟩
    have length := size reads
    exact ⟨(reads_iff statement).mp reads, by omega⟩
  · rintro ⟨plain, short⟩
    have reads := (reads_iff statement).mpr plain
    have length := size reads
    exact ⟨by omega, reads⟩

/-- A statement with the same arguments behind a shorter head. -/
theorem rendered_of_shorter {head longer : Fixed} {fields : List (Argument × Fixed)}
    (shorter : head.bytes.length ≤ longer.bytes.length)
    (rendered : (SqlStatement.mk longer fields).Rendered) : (SqlStatement.mk head fields).Rendered := by
  rw [rendered_iff] at rendered ⊢
  have room : (SqlStatement.mk head fields).meant.fixedLength ≤
      (SqlStatement.mk longer fields).meant.fixedLength := Nat.add_le_add_right shorter _
  exact ⟨rendered.plain, (Nat.add_le_add_right room _).trans rendered.short⟩

theorem rendered_literals (statement : SqlStatement) (rendered : statement.Rendered) :
    (Quoted.read .plain statement.text).map Quoted.Statement.literals =
      some statement.meant.arguments := by
  rw [rendered.reads, Option.map_some, Quoted.Statement.literals_marks]

end SqlStatement

end EChainLib.Accounts
