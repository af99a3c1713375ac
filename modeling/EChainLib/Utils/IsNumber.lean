import EChainLib.Config.Ini

/-! `String::is_number` of `strings.h`: a pointer goes through the C string, and what it stops
at decides. -/

namespace EChainLib.Utils

open EChainLib.Keys (Bytes cString)
open EChainLib.Config (chr isBlank)

/-- `*ptr`; behind the text the null byte is read. -/
def deref (ptr : Bytes) : UInt8 := ptr.headD 0

@[simp] theorem deref_nil : deref [] = 0 := rfl

@[simp] theorem deref_cons (c : UInt8) (rest : Bytes) : deref (c :: rest) = c := rfl

def isDigit (c : UInt8) : Bool := chr '0' ≤ c && c ≤ chr '9'

/-- `IS_HEX_DIGIT`, which holds of the letters only. -/
def isHexLetter (c : UInt8) : Bool :=
  (chr 'A' ≤ c && c ≤ chr 'F') || (chr 'a' ≤ c && c ≤ chr 'f')

def isHexDigit (c : UInt8) : Bool := isDigit c || isHexLetter c

def skipSign (ptr : Bytes) : Bytes :=
  if deref ptr = chr '-' ∨ deref ptr = chr '+' then ptr.tail else ptr

/-- `type`, `base` and the pointer behind a number without a point. -/
def scanInteger (ptr : Bytes) : Int × Nat × Bytes :=
  let (type, base, ptr) :=
    if deref ptr = chr '0' ∧ deref ptr.tail ≠ 0 ∧
        (deref ptr.tail = chr 'x' ∨ deref ptr.tail = chr 'X') then
      (2, 16, ptr.drop 2)
    else (0, 10, ptr)
  let ptr := ptr.dropWhile fun c => c = chr '0'
  (type, base, ptr.dropWhile fun c => isDigit c || (base == 16 && isHexLetter c))

/-- What follows the sign. -/
def scanBody (ptr : Bytes) : Int :=
  if isDigit (deref ptr) ∨ deref ptr = chr '.' then
    -- a point in front is met again below
    let (type, base, ptr) := if deref ptr ≠ chr '.' then scanInteger ptr else (0, 10, ptr)
    let (type, ptr) :=
      if base = 10 ∧ deref ptr ≠ 0 ∧ deref ptr = chr '.' then (3, ptr.tail) else (type, ptr)
    let ptr := if type = 3 ∧ base = 10 then ptr.dropWhile isDigit else ptr
    if deref ptr = 0 then (if type > 0 then type else 1) else 0
  else 0

def isNumber (str : Bytes) : Int :=
  if str = [] then 0 else scanBody (skipSign ((cString str).dropWhile isBlank))

/-! The grammar. -/

/-- Blanks, an optional sign and a body. -/
def Signed (body : Bytes → Prop) (s : Bytes) : Prop :=
  ∃ blanks sign rest, s = blanks ++ (sign ++ rest) ∧ (∀ c ∈ blanks, isBlank c = true) ∧
    (sign = [] ∨ sign = [chr '+'] ∨ sign = [chr '-']) ∧ body rest

def Decimal (s : Bytes) : Prop := s ≠ [] ∧ ∀ c ∈ s, isDigit c = true

/-- `0x` or `0X` with nothing behind it. -/
def BarePrefix (s : Bytes) : Prop := s = [chr '0', chr 'x'] ∨ s = [chr '0', chr 'X']

def Hexadecimal (s : Bytes) : Prop :=
  ∃ start digits, s = start ++ digits ∧ BarePrefix start ∧ digits ≠ [] ∧
    ∀ c ∈ digits, isHexDigit c = true

def Fraction (s : Bytes) : Prop :=
  ∃ whole part, s = whole ++ chr '.' :: part ∧ whole ++ part ≠ [] ∧
    ∀ c ∈ whole ++ part, isDigit c = true

/-- The values of `is_number` are those of the grammar. -/
structure FollowsGrammar (s : Bytes) : Prop where
  decimal : isNumber s = 1 ↔ Signed Decimal s
  hexadecimal : isNumber s = 2 ↔ Signed Hexadecimal s
  fraction : isNumber s = 3 ↔ Signed Fraction s
  other : isNumber s = 0 ↔ ¬ (Signed Decimal s ∨ Signed Hexadecimal s ∨ Signed Fraction s)

/-- The part in front of the first null byte is no bare prefix and no lone point, and is no
number either if there is a null byte. -/
structure Plain (s : Bytes) : Prop where
  no_hex : ¬ Signed BarePrefix (cString s)
  no_point : ¬ Signed (· = [chr '.']) (cString s)
  no_null : (0 : UInt8) ∈ s → ¬ (Signed Decimal (cString s) ∨ Signed Hexadecimal (cString s) ∨
    Signed Fraction (cString s))

/-! Scanning. -/

theorem dropWhile_dropWhile {first second : UInt8 → Bool} (s : Bytes)
    (covered : ∀ c, first c = true → second c = true) :
    (s.dropWhile first).dropWhile second = s.dropWhile second := by
  induction s with
  | nil => rfl
  | cons c rest ih =>
      by_cases skipped : first c = true
      · rw [List.dropWhile_cons_of_pos skipped, ih, List.dropWhile_cons_of_pos (covered c skipped)]
      · rw [List.dropWhile_cons_of_neg skipped]

theorem deref_zero_iff {ptr : Bytes} (clean : (0 : UInt8) ∉ ptr) : deref ptr = 0 ↔ ptr = [] := by
  cases ptr with
  | nil => simp [deref]
  | cons c rest =>
      simp only [List.mem_cons, not_or] at clean
      simp [deref, Ne.symm clean.1]

/-- The pointer has come to the end if all characters are of the kind that is skipped. -/
theorem skipped_all_iff {ptr : Bytes} (clean : (0 : UInt8) ∉ ptr) (skipped : UInt8 → Bool) :
    deref (ptr.dropWhile skipped) = 0 ↔ ∀ c ∈ ptr, skipped c = true := by
  have rest_clean : (0 : UInt8) ∉ ptr.dropWhile skipped := fun member =>
    clean ((List.dropWhile_sublist _).mem member)
  rw [deref_zero_iff rest_clean, List.dropWhile_eq_nil_iff]

theorem scanBody_point (rest : Bytes) (clean : (0 : UInt8) ∉ rest) :
    scanBody (chr '.' :: rest) = if ∀ c ∈ rest, isDigit c = true then 3 else 0 := by
  have point : chr '.' ≠ 0 := by decide
  simp [scanBody, point, skipped_all_iff clean isDigit]

/-- Behind `0x` the base is 16, and no point is looked for. -/
theorem scanBody_after_sign {x : UInt8} (marked : x = chr 'x' ∨ x = chr 'X') (rest : Bytes)
    (clean : (0 : UInt8) ∉ rest) :
    scanBody (chr '0' :: x :: rest) = if ∀ c ∈ rest, isHexDigit c = true then 2 else 0 := by
  have zero : isDigit (chr '0') = true ∧ chr '0' ≠ chr '.' := by decide
  have some_x : x ≠ 0 := by rcases marked with rfl | rfl <;> decide
  have digits : (rest.dropWhile fun c => c = chr '0').dropWhile
      (fun c => isDigit c || ((16 : Nat) == 16 && isHexLetter c)) = rest.dropWhile isHexDigit := by
    rw [dropWhile_dropWhile]
    · rfl
    · intro c skipped
      obtain rfl := of_decide_eq_true skipped
      rfl
  have scanned : scanInteger (chr '0' :: x :: rest) = (2, 16, rest.dropWhile isHexDigit) := by
    rw [scanInteger, if_pos ⟨rfl, some_x, marked⟩]
    exact congrArg (fun ptr => ((2 : Int), 16, ptr)) digits
  simp [scanBody, scanned, zero, skipped_all_iff clean isHexDigit]

/-- A number that begins with another digit is read up to the first character that is none. -/
theorem scanBody_digits {ptr : Bytes} (digit : isDigit (deref ptr) = true)
    (decimal : ¬ (deref ptr = chr '0' ∧ deref ptr.tail ≠ 0 ∧
      (deref ptr.tail = chr 'x' ∨ deref ptr.tail = chr 'X')))
    (clean : (0 : UInt8) ∉ ptr) :
    scanBody ptr = match ptr.dropWhile isDigit with
      | [] => 1
      | c :: part => if c = chr '.' ∧ ∀ d ∈ part, isDigit d = true then 3 else 0 := by
  have no_point : deref ptr ≠ chr '.' := by
    intro point
    rw [point] at digit
    cases digit
  have digits : (ptr.dropWhile fun c => c = chr '0').dropWhile
      (fun c => isDigit c || ((10 : Nat) == 16 && isHexLetter c)) = ptr.dropWhile isDigit := by
    rw [dropWhile_dropWhile]
    · simp
    · intro c skipped
      obtain rfl := of_decide_eq_true skipped
      rfl
  have rest_clean : (0 : UInt8) ∉ ptr.dropWhile isDigit := fun member =>
    clean ((List.dropWhile_sublist _).mem member)
  have scanned : scanInteger ptr = (0, 10, ptr.dropWhile isDigit) := by
    rw [scanInteger, if_neg decimal]
    exact congrArg (fun ptr => ((0 : Int), 10, ptr)) digits
  simp only [scanBody, scanned, digit, no_point, true_or, if_true, ne_eq, not_false_eq_true]
  cases shape : ptr.dropWhile isDigit with
  | nil => simp
  | cons c part =>
      rw [shape, List.mem_cons, not_or] at rest_clean
      have ends := skipped_all_iff rest_clean.2 isDigit
      by_cases point : c = chr '.'
      · simp [point, ends, show chr '.' ≠ 0 by decide]
      · simp [point, Ne.symm rest_clean.1]

theorem scanBody_other {ptr : Bytes} (no_digit : isDigit (deref ptr) = false)
    (no_point : deref ptr ≠ chr '.') : scanBody ptr = 0 := by
  simp [scanBody, no_digit, no_point]

/-! The texts that are taken for numbers, the degenerate ones included. -/

/-- A text that is given a value other than 0. -/
def Shape (value : Int) (s : Bytes) : Prop :=
  (value = 1 ∧ Decimal s) ∨ (value = 2 ∧ (Hexadecimal s ∨ BarePrefix s)) ∨
    (value = 3 ∧ (Fraction s ∨ s = [chr '.']))

theorem prefix_marked {start : Bytes} (bare : BarePrefix start) :
    ∃ x, start = [chr '0', x] ∧ (x = chr 'x' ∨ x = chr 'X') := by
  rcases bare with rfl | rfl
  · exact ⟨_, rfl, .inl rfl⟩
  · exact ⟨_, rfl, .inr rfl⟩

/-- Behind a prefix may be digits or nothing. -/
theorem prefixed_iff (s : Bytes) : Hexadecimal s ∨ BarePrefix s ↔
    ∃ x rest, s = chr '0' :: x :: rest ∧ (x = chr 'x' ∨ x = chr 'X') ∧
      ∀ c ∈ rest, isHexDigit c = true := by
  constructor
  · rintro (⟨start, digits, rfl, bare, _, all⟩ | bare)
    · obtain ⟨x, rfl, marked⟩ := prefix_marked bare
      exact ⟨x, digits, rfl, marked, all⟩
    · obtain ⟨x, rfl, marked⟩ := prefix_marked bare
      exact ⟨x, [], rfl, marked, by simp⟩
  · rintro ⟨x, rest, rfl, marked, all⟩
    have bare : BarePrefix [chr '0', x] := by
      rcases marked with rfl | rfl
      · exact .inl rfl
      · exact .inr rfl
    by_cases empty : rest = []
    · exact .inr (empty ▸ bare)
    · exact .inl ⟨_, rest, rfl, bare, empty, all⟩

theorem pointed_iff (s : Bytes) : Fraction s ∨ s = [chr '.'] ↔
    ∃ whole part, s = whole ++ chr '.' :: part ∧ ∀ c ∈ whole ++ part, isDigit c = true := by
  constructor
  · rintro (⟨whole, part, rfl, _, all⟩ | rfl)
    · exact ⟨whole, part, rfl, all⟩
    · exact ⟨[], [], rfl, by simp⟩
  · rintro ⟨whole, part, rfl, all⟩
    by_cases empty : whole ++ part = []
    · obtain ⟨rfl, rfl⟩ := List.append_eq_nil_iff.mp empty
      exact .inr rfl
    · exact .inl ⟨whole, part, rfl, empty, all⟩

theorem shape_clean {value : Int} {s : Bytes} (shape : Shape value s) : (0 : UInt8) ∉ s := by
  have zero : isDigit 0 = false ∧ isHexDigit 0 = false := by decide
  rcases shape with ⟨_, _, all⟩ | ⟨_, prefixed⟩ | ⟨_, pointed⟩
  · intro member
    exact absurd (all 0 member) (by simp [zero])
  · obtain ⟨x, rest, rfl, marked, all⟩ := (prefixed_iff s).mp prefixed
    intro member
    simp only [List.mem_cons] at member
    rcases member with same | rfl | inside
    · exact absurd same (by decide)
    · exact absurd marked (by decide)
    · exact absurd (all 0 inside) (by simp [zero])
  · obtain ⟨whole, part, rfl, all⟩ := (pointed_iff s).mp pointed
    intro member
    simp only [List.mem_append, List.mem_cons] at member
    rcases member with inside | same | inside
    · exact absurd (all 0 (List.mem_append_left _ inside)) (by simp [zero])
    · exact absurd same (by decide)
    · exact absurd (all 0 (List.mem_append_right _ inside)) (by simp [zero])

/-- No digit is the mark of a prefix. -/
theorem decimal_start {c : UInt8} (digit : isDigit c = true) : c ≠ chr 'x' ∧ c ≠ chr 'X' := by
  constructor <;> rintro rfl <;> cases digit

theorem scanBody_of_shape {value : Int} {s : Bytes} (shape : Shape value s) :
    scanBody s = value := by
  have clean := shape_clean shape
  rcases shape with ⟨rfl, filled, all⟩ | ⟨rfl, prefixed⟩ | ⟨rfl, pointed⟩
  · obtain ⟨c, rest, rfl⟩ := List.exists_cons_of_ne_nil filled
    have ended : (c :: rest).dropWhile isDigit = [] := List.dropWhile_eq_nil_iff.mpr all
    have digit : isDigit (deref (c :: rest)) = true := all c List.mem_cons_self
    rw [scanBody_digits digit _ clean, ended]
    rintro ⟨_, _, marked⟩
    -- a second digit is no mark of a base, and neither is the end
    cases rest with
    | nil =>
        change (0 : UInt8) = chr 'x' ∨ (0 : UInt8) = chr 'X' at marked
        exact absurd marked (by decide)
    | cons second rest =>
        have other := decimal_start (all second (by simp))
        exact marked.elim other.1 other.2
  · obtain ⟨x, rest, rfl, marked, all⟩ := (prefixed_iff s).mp prefixed
    simp only [List.mem_cons, not_or] at clean
    rw [scanBody_after_sign marked rest clean.2.2, if_pos all]
  · obtain ⟨whole, part, rfl, all⟩ := (pointed_iff s).mp pointed
    have part_digits : ∀ c ∈ part, isDigit c = true := fun c member =>
      all c (List.mem_append_right whole member)
    cases whole with
    | nil =>
        simp only [List.nil_append, List.mem_cons, not_or] at clean
        rw [List.nil_append, scanBody_point part clean.2, if_pos part_digits]
    | cons c rest =>
        have whole_digits : ∀ d ∈ c :: rest, isDigit d = true := fun d member =>
          all d (List.mem_append_left part member)
        have stopped : (c :: rest ++ chr '.' :: part).dropWhile isDigit = chr '.' :: part := by
          rw [List.dropWhile_append_of_pos whole_digits]
          rfl
        have digit : isDigit (deref (c :: rest ++ chr '.' :: part)) = true :=
          whole_digits c List.mem_cons_self
        rw [scanBody_digits digit _ clean, stopped]
        · exact if_pos ⟨rfl, part_digits⟩
        · rintro ⟨_, _, marked⟩
          cases rest with
          | nil =>
              change chr '.' = chr 'x' ∨ chr '.' = chr 'X' at marked
              exact absurd marked (by decide)
          | cons second rest =>
              have other := decimal_start (whole_digits second (by simp))
              exact marked.elim other.1 other.2

theorem shape_of_scanBody {s : Bytes} (clean : (0 : UInt8) ∉ s) (taken : scanBody s ≠ 0) :
    Shape (scanBody s) s := by
  -- the cases are those of the code: a point, a base, other digits, anything else
  by_cases point : deref s = chr '.'
  · cases s with
    | nil => exact absurd point (by decide)
    | cons c part =>
        obtain rfl : c = chr '.' := point
        simp only [List.mem_cons, not_or] at clean
        rw [scanBody_point part clean.2] at taken ⊢
        split_ifs at taken ⊢ with digits
        · exact .inr (.inr ⟨rfl, (pointed_iff _).mpr ⟨[], part, rfl, digits⟩⟩)
        · exact absurd rfl taken
  · by_cases digit : isDigit (deref s) = true
    · by_cases decimal : deref s = chr '0' ∧ deref s.tail ≠ 0 ∧
          (deref s.tail = chr 'x' ∨ deref s.tail = chr 'X')
      · obtain ⟨zero, filled, marked⟩ := decimal
        match s, clean, taken, zero, filled, marked with
        | [], _, _, zero, _, _ => exact absurd zero (by decide)
        | [_], _, _, _, filled, _ => exact absurd rfl filled
        | c :: x :: rest, clean, taken, zero, _, marked =>
            obtain rfl : c = chr '0' := zero
            simp only [List.tail_cons, deref_cons] at marked
            simp only [List.mem_cons, not_or] at clean
            rw [scanBody_after_sign marked rest clean.2.2] at taken ⊢
            split_ifs at taken ⊢ with digits
            · exact .inr (.inl ⟨rfl, (prefixed_iff _).mpr ⟨x, rest, rfl, marked, digits⟩⟩)
            · exact absurd rfl taken
      -- the digits in front, and what stops them
      · have filled : s ≠ [] := by
          rintro rfl
          exact absurd digit (by decide)
        have front : ∀ c ∈ s.takeWhile isDigit, isDigit c = true := fun c member =>
          List.mem_takeWhile_imp member
        have parts := List.takeWhile_append_dropWhile (p := isDigit) (l := s)
        rw [scanBody_digits digit decimal clean] at taken ⊢
        cases behind : s.dropWhile isDigit with
        | nil =>
            rw [behind, List.append_nil] at parts
            rw [parts] at front
            exact .inl ⟨rfl, filled, front⟩
        | cons c part =>
            rw [behind] at parts taken
            simp only at taken ⊢
            split_ifs at taken ⊢ with pointed
            · obtain ⟨rfl, digits⟩ := pointed
              refine .inr (.inr ⟨rfl, (pointed_iff _).mpr ⟨_, part, parts.symm, ?_⟩⟩)
              intro d member
              exact (List.mem_append.mp member).elim (front d) (digits d)
            · exact absurd rfl taken
    · exact absurd (scanBody_other (Bool.eq_false_iff.mpr digit) point) taken

theorem scanBody_iff {value : Int} {s : Bytes} (clean : (0 : UInt8) ∉ s) (some_value : value ≠ 0) :
    scanBody s = value ↔ Shape value s := by
  constructor
  · rintro rfl
    exact shape_of_scanBody clean some_value
  · exact scanBody_of_shape

/-! Blanks and the sign. -/

/-- A body begins with what is no blank and no sign, and has no null byte. -/
structure Begins (body : Bytes → Prop) : Prop where
  filled : ∀ rest, body rest → rest ≠ []
  start : ∀ rest, body rest → isBlank (deref rest) = false ∧ deref rest ≠ chr '-' ∧
    deref rest ≠ chr '+'
  clean : ∀ rest, body rest → (0 : UInt8) ∉ rest

theorem skipSign_length (ptr : Bytes) :
    ∃ sign, ptr = sign ++ skipSign ptr ∧ (sign = [] ∨ sign = [chr '+'] ∨ sign = [chr '-']) := by
  unfold skipSign
  split_ifs with signed
  · cases ptr with
    | nil => exact absurd signed (by decide)
    | cons c rest =>
        rcases signed with minus | plus
        · exact ⟨[c], rfl, .inr (.inr (congrArg (· :: []) minus))⟩
        · exact ⟨[c], rfl, .inr (.inl (congrArg (· :: []) plus))⟩
  · exact ⟨[], rfl, .inl rfl⟩

theorem signed_iff {body : Bytes → Prop} (begins : Begins body) (s : Bytes) :
    Signed body s ↔ body (skipSign (s.dropWhile isBlank)) := by
  constructor
  · rintro ⟨blanks, sign, rest, rfl, blank, signs, holds⟩
    -- the body stops the blanks, and is not taken for the sign
    obtain ⟨c, tail, rfl⟩ := List.exists_cons_of_ne_nil (begins.filled _ holds)
    obtain ⟨solid, no_minus, no_plus⟩ := begins.start _ holds
    have behind : (sign ++ c :: tail).dropWhile isBlank = sign ++ c :: tail := by
      rcases signs with rfl | rfl | rfl
      · exact List.dropWhile_cons_of_neg (Bool.eq_false_iff.mp solid)
      · exact List.dropWhile_cons_of_neg (by decide)
      · exact List.dropWhile_cons_of_neg (by decide)
    rw [List.dropWhile_append_of_pos blank, behind]
    simp only [deref_cons] at no_minus no_plus
    rcases signs with rfl | rfl | rfl
    · simpa [skipSign, no_minus, no_plus] using holds
    · simpa [skipSign] using holds
    · simpa [skipSign] using holds
  · intro holds
    obtain ⟨sign, parts, signs⟩ := skipSign_length (s.dropWhile isBlank)
    refine ⟨s.takeWhile isBlank, sign, _, ?_, fun c member => List.mem_takeWhile_imp member, signs,
      holds⟩
    rw [← parts, List.takeWhile_append_dropWhile]

theorem isBlank_sign_digit {c : UInt8} (start : isDigit c = true ∨ c = chr '.') :
    isBlank c = false ∧ c ≠ chr '-' ∧ c ≠ chr '+' := by
  refine Keys.byte_cases (fun c => isDigit c = true ∨ c = chr '.' →
    isBlank c = false ∧ c ≠ chr '-' ∧ c ≠ chr '+') ?_ c start
  decide +kernel

theorem shape_begins (value : Int) : Begins (Shape value) where
  filled := by
    rintro _ shape rfl
    rcases shape with ⟨_, filled, _⟩ | ⟨_, prefixed⟩ | ⟨_, pointed⟩
    · exact filled rfl
    · obtain ⟨x, rest, empty, _⟩ := (prefixed_iff _).mp prefixed
      cases empty
    · obtain ⟨whole, part, empty, _⟩ := (pointed_iff _).mp pointed
      exact absurd empty.symm (by simp)
  start := by
    intro rest shape
    apply isBlank_sign_digit
    rcases shape with ⟨_, filled, all⟩ | ⟨_, prefixed⟩ | ⟨_, pointed⟩
    · obtain ⟨c, tail, rfl⟩ := List.exists_cons_of_ne_nil filled
      exact .inl (all c List.mem_cons_self)
    · obtain ⟨x, tail, rfl, _⟩ := (prefixed_iff _).mp prefixed
      have zero : isDigit (chr '0') = true := by decide
      exact .inl zero
    · obtain ⟨whole, part, rfl, all⟩ := (pointed_iff _).mp pointed
      cases whole with
      | nil => exact .inr rfl
      | cons c tail => exact .inl (all c (by simp))
  clean := fun _ shape => shape_clean shape

theorem Begins.weaken {body other : Bytes → Prop} (begins : Begins body)
    (within : ∀ rest, other rest → body rest) : Begins other where
  filled := fun rest holds => begins.filled rest (within rest holds)
  start := fun rest holds => begins.start rest (within rest holds)
  clean := fun rest holds => begins.clean rest (within rest holds)

theorem decimal_begins : Begins Decimal :=
  (shape_begins 1).weaken fun _ decimal => .inl ⟨rfl, decimal⟩

theorem hexadecimal_begins : Begins Hexadecimal :=
  (shape_begins 2).weaken fun _ hexadecimal => .inr (.inl ⟨rfl, .inl hexadecimal⟩)

theorem prefix_begins : Begins BarePrefix :=
  (shape_begins 2).weaken fun _ bare => .inr (.inl ⟨rfl, .inr bare⟩)

theorem fraction_begins : Begins Fraction :=
  (shape_begins 3).weaken fun _ fraction => .inr (.inr ⟨rfl, .inl fraction⟩)

theorem point_begins : Begins (· = [chr '.']) :=
  (shape_begins 3).weaken fun _ point => .inr (.inr ⟨rfl, .inr point⟩)

theorem signed_clean {body : Bytes → Prop} (begins : Begins body) {s : Bytes}
    (signed : Signed body s) : (0 : UInt8) ∉ s := by
  have marks : (0 : UInt8) ≠ chr '+' ∧ (0 : UInt8) ≠ chr '-' ∧ isBlank 0 = false := by decide
  obtain ⟨blanks, sign, rest, rfl, blank, signs, holds⟩ := signed
  have clean := begins.clean rest holds
  simp only [List.mem_append, not_or]
  refine ⟨fun member => absurd (blank 0 member) (by simp [marks]), ?_, clean⟩
  rcases signs with rfl | rfl | rfl
  · simp
  · simp [marks.1]
  · simp [marks.2.1]

/-! `is_number`. -/

theorem skipSign_clean {ptr : Bytes} (clean : (0 : UInt8) ∉ ptr) : (0 : UInt8) ∉ skipSign ptr := by
  obtain ⟨sign, parts, _⟩ := skipSign_length ptr
  rw [parts] at clean
  exact fun member => clean (List.mem_append_right sign member)

theorem isNumber_eq (str : Bytes) :
    isNumber str = scanBody (skipSign ((cString str).dropWhile isBlank)) := by
  unfold isNumber
  split_ifs with empty
  · subst empty
    rfl
  · rfl

/-- The value says which shape the text in front of the first null byte has. -/
theorem isNumber_iff {value : Int} (some_value : value ≠ 0) (str : Bytes) :
    isNumber str = value ↔ Signed (Shape value) (cString str) := by
  have clean : (0 : UInt8) ∉ (cString str).dropWhile isBlank := fun member =>
    Keys.cString_clean str ((List.dropWhile_sublist _).mem member)
  rw [isNumber_eq, scanBody_iff (skipSign_clean clean) some_value, signed_iff (shape_begins value)]

theorem decimal_value (str : Bytes) : isNumber str = 1 ↔ Signed Decimal (cString str) := by
  rw [isNumber_iff (by decide), signed_iff (shape_begins 1), signed_iff decimal_begins]
  simp [Shape]

theorem hexadecimal_value (str : Bytes) : isNumber str = 2 ↔
    Signed Hexadecimal (cString str) ∨ Signed BarePrefix (cString str) := by
  rw [isNumber_iff (by decide), signed_iff (shape_begins 2), signed_iff hexadecimal_begins,
    signed_iff prefix_begins]
  simp [Shape]

theorem fraction_value (str : Bytes) : isNumber str = 3 ↔
    Signed Fraction (cString str) ∨ Signed (· = [chr '.']) (cString str) := by
  rw [isNumber_iff (by decide), signed_iff (shape_begins 3), signed_iff fraction_begins,
    signed_iff point_begins]
  simp [Shape]

theorem isNumber_range (str : Bytes) :
    isNumber str = 0 ∨ isNumber str = 1 ∨ isNumber str = 2 ∨ isNumber str = 3 := by
  by_cases zero : isNumber str = 0
  · exact .inl zero
  · obtain ⟨_, _, _, _, _, _, shape⟩ := (isNumber_iff zero str).mp rfl
    rcases shape with ⟨same, _⟩ | ⟨same, _⟩ | ⟨same, _⟩ <;> simp [same]

theorem prefix_not_hexadecimal {s : Bytes} (bare : Signed BarePrefix s)
    (hexadecimal : Signed Hexadecimal s) : False := by
  rw [signed_iff prefix_begins] at bare
  rw [signed_iff hexadecimal_begins] at hexadecimal
  obtain ⟨start, digits, same, bare', filled, _⟩ := hexadecimal
  obtain ⟨x, shape, _⟩ := prefix_marked bare
  obtain ⟨y, rfl, _⟩ := prefix_marked bare'
  rw [shape] at same
  simp only [List.cons_append, List.nil_append, List.cons.injEq] at same
  exact filled same.2.2.symm

theorem point_not_fraction {s : Bytes} (point : Signed (· = [chr '.']) s)
    (fraction : Signed Fraction s) : False := by
  rw [signed_iff point_begins] at point
  rw [signed_iff fraction_begins] at fraction
  obtain ⟨whole, part, same, filled, _⟩ := fraction
  rw [point] at same
  have lengths := congrArg List.length same
  simp only [List.length_append, List.length_cons, List.length_nil] at lengths
  exact filled (List.length_eq_zero_iff.mp (by rw [List.length_append]; omega))

theorem is_number_iff (s : Bytes) : FollowsGrammar s ↔ Plain s := by
  constructor
  · intro follows
    have whole : ∀ {value : Int} {body : Bytes → Prop}, Begins body →
        (isNumber s = value ↔ Signed body s) → isNumber s = value → (0 : UInt8) ∉ s :=
      fun begins told taken => signed_clean begins (told.mp taken)
    refine ⟨fun bare => ?_, fun point => ?_, fun null number => ?_⟩
    · have taken := (hexadecimal_value s).mpr (.inr bare)
      have clean := whole hexadecimal_begins follows.hexadecimal taken
      rw [Keys.cString_of_text s clean] at bare
      exact prefix_not_hexadecimal bare (follows.hexadecimal.mp taken)
    · have taken := (fraction_value s).mpr (.inr point)
      have clean := whole fraction_begins follows.fraction taken
      rw [Keys.cString_of_text s clean] at point
      exact point_not_fraction point (follows.fraction.mp taken)
    · rcases number with decimal | hexadecimal | fraction
      · exact whole decimal_begins follows.decimal ((decimal_value s).mpr decimal) null
      · exact whole hexadecimal_begins follows.hexadecimal
          ((hexadecimal_value s).mpr (.inl hexadecimal)) null
      · exact whole fraction_begins follows.fraction ((fraction_value s).mpr (.inl fraction)) null
  · rintro ⟨no_hex, no_point, no_null⟩
    have decimal : isNumber s = 1 ↔ Signed Decimal (cString s) := decimal_value s
    have hexadecimal : isNumber s = 2 ↔ Signed Hexadecimal (cString s) := by
      rw [hexadecimal_value, or_iff_left no_hex]
    have fraction : isNumber s = 3 ↔ Signed Fraction (cString s) := by
      rw [fraction_value, or_iff_left no_point]
    -- no text with a null byte is one of the grammar, and none is cut to one
    have same : ∀ body : Bytes → Prop, Begins body →
        (∀ rest, Signed body rest → Signed Decimal rest ∨ Signed Hexadecimal rest ∨
          Signed Fraction rest) → (Signed body (cString s) ↔ Signed body s) := by
      intro body begins listed
      by_cases null : (0 : UInt8) ∈ s
      · exact ⟨fun signed => absurd (listed _ signed) (no_null null),
          fun signed => absurd null (signed_clean begins signed)⟩
      · rw [Keys.cString_of_text s null]
    rw [same _ decimal_begins fun _ => .inl] at decimal
    rw [same _ hexadecimal_begins fun _ signed => .inr (.inl signed)] at hexadecimal
    rw [same _ fraction_begins fun _ signed => .inr (.inr signed)] at fraction
    refine ⟨decimal, hexadecimal, fraction, ?_⟩
    rw [← decimal, ← hexadecimal, ← fraction]
    have range := isNumber_range s
    omega

/-- A point alone is taken for a fraction. -/
theorem lone_point_is_a_number : isNumber [chr '.'] = 3 ∧ ¬ FollowsGrammar [chr '.'] := by
  refine ⟨by decide, fun follows => ?_⟩
  have point : Signed (· = [chr '.']) [chr '.'] := ⟨[], [], _, rfl, by simp, .inl rfl, rfl⟩
  exact point_not_fraction point (follows.fraction.mp (by decide))

end EChainLib.Utils
