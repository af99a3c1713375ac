import Mathlib
import EChainLib.Expr.Reading

/-! Expressions over integers: what they are worth, the texts they are written as, and
the tokens in such a text. A text has at least the parentheses its expression needs. -/

namespace EChainLib.Expr

variable {F W : Type}

inductive Operator where
  | plus
  | minus
  | times

def Operator.apply : Operator → Int → Int → Int
  | .plus, left, right => left + right
  | .minus, left, right => left - right
  | .times, left, right => left * right

inductive Ast where
  | number (n : Nat)
  | name (word : Text)
  | negated (operand : Ast)
  | binary (op : Operator) (left right : Ast)
  | comma (left right : Ast)
  | assign (word : Text) (rhs : Ast)

/-- The names that stand for an integer. -/
abbrev Integers := Text → Option Int

def inRange (n : Int) : Option Int := if -2 ^ 63 ≤ n ∧ n < 2 ^ 63 then some n else none

/-- The value and the names afterwards, from left to right; `none` where a name has no
integer or a result leaves the range. -/
def Ast.value (names : Integers) : Ast → Option (Int × Integers)
  | .number n => (inRange n).map fun value => (value, names)
  | .name word => (names word).map fun value => (value, names)
  | .negated operand => do
      let (n, names) ← operand.value names
      let value ← inRange (-n)
      return (value, names)
  | .binary op left right => do
      let (x, names) ← left.value names
      let (y, names) ← right.value names
      let value ← inRange (op.apply x y)
      return (value, names)
  | .comma left right => do
      let (_, names) ← left.value names
      right.value names
  | .assign word rhs => do
      let (n, names) ← rhs.value names
      return (n, Function.update names word (some n))

/-! How tightly an expression is written. -/

inductive Level where
  | list
  | item
  | sum
  | product
  | unary

def Blank (gap : Text) : Prop := ∀ c ∈ gap, isspace c = true

structure Numeral (digits : Text) (n : Nat) : Prop where
  nonempty : digits ≠ []
  digit : ∀ c ∈ digits, c.isDigit = true
  value : Nat.ofDigitChars 10 digits 0 = n
  small : n < 2 ^ 63

structure Identifier (word : Text) : Prop where
  first : (peek word 0).isAlpha = true
  rest : ∀ c ∈ word, (c.isAlphanum || c = '_') = true

instance (word : Text) : Decidable (Identifier word) :=
  decidable_of_iff ((peek word 0).isAlpha = true ∧ (word.all fun c => c.isAlphanum || c = '_') = true)
    ⟨fun both => ⟨both.1, List.all_eq_true.mp both.2⟩,
      fun identifier => ⟨identifier.first, List.all_eq_true.mpr identifier.rest⟩⟩

/-- The texts of an expression where this level is expected, blanks before each token. -/
inductive Written : Level → Ast → Text → Prop
  | number (gap digits : Text) (n : Nat) : Blank gap → Numeral digits n →
      Written .unary (.number n) (gap ++ digits)
  | name (gap word : Text) : Blank gap → Identifier word →
      Written .unary (.name word) (gap ++ word)
  | negated (gap text : Text) (operand : Ast) : Blank gap → Written .unary operand text →
      Written .unary (.negated operand) (gap ++ '-' :: text)
  | parens (gap text closing : Text) (e : Ast) : Blank gap → Written .list e text → Blank closing →
      Written .unary e (gap ++ '(' :: (text ++ (closing ++ [')'])))
  | unary (e : Ast) (text : Text) : Written .unary e text → Written .product e text
  | times (left right : Ast) (first gap second : Text) : Written .product left first → Blank gap →
      Written .unary right second →
        Written .product (.binary .times left right) (first ++ (gap ++ '*' :: second))
  | product (e : Ast) (text : Text) : Written .product e text → Written .sum e text
  | plus (left right : Ast) (first gap second : Text) : Written .sum left first → Blank gap →
      Written .product right second →
        Written .sum (.binary .plus left right) (first ++ (gap ++ '+' :: second))
  | minus (left right : Ast) (first gap second : Text) : Written .sum left first → Blank gap →
      Written .product right second →
        Written .sum (.binary .minus left right) (first ++ (gap ++ '-' :: second))
  | sum (e : Ast) (text : Text) : Written .sum e text → Written .item e text
  | assign (gap word before text : Text) (rhs : Ast) : Blank gap → Identifier word → Blank before →
      Written .item rhs text → Written .item (.assign word rhs) (gap ++ (word ++ (before ++ '=' :: text)))
  | item (e : Ast) (text : Text) : Written .item e text → Written .list e text
  | comma (left right : Ast) (first gap second : Text) : Written .list left first → Blank gap →
      Written .item right second →
        Written .list (.comma left right) (first ++ (gap ++ ',' :: second))

/-! The text with the parentheses that are needed. -/

def Level.tightness : Level → Nat
  | .list => 0
  | .item => 1
  | .sum => 2
  | .product => 3
  | .unary => 4

def Operator.level : Operator → Level
  | .plus => .sum
  | .minus => .sum
  | .times => .product

/-- The level of the right operand, one tighter than the operator. -/
def Operator.operandLevel : Operator → Level
  | .plus => .product
  | .minus => .product
  | .times => .unary

def Operator.char : Operator → Char
  | .plus => '+'
  | .minus => '-'
  | .times => '*'

/-- Parentheses if an expression of the level stands where a tighter one is expected. -/
def enclosed (level expected : Level) (text : Text) : Text :=
  if level.tightness < expected.tightness then '(' :: (text ++ [')']) else text

def Ast.minimal : Ast → Level → Text
  | .number n, _ => Nat.toDigits 10 n
  | .name word, _ => word
  | .negated operand, _ => '-' :: operand.minimal .unary
  | .binary op left right, expected =>
      enclosed op.level expected (left.minimal op.level ++ op.char :: right.minimal op.operandLevel)
  | .comma left right, expected =>
      enclosed .list expected (left.minimal .list ++ ',' :: right.minimal .item)
  | .assign word rhs, expected => enclosed .item expected (word ++ '=' :: rhs.minimal .item)

/-- The literals are in range and the names are names. -/
def Ast.Lawful : Ast → Prop
  | .number n => n < 2 ^ 63
  | .name word => Identifier word
  | .negated operand => operand.Lawful
  | .binary _ left right => left.Lawful ∧ right.Lawful
  | .comma left right => left.Lawful ∧ right.Lawful
  | .assign word rhs => Identifier word ∧ rhs.Lawful

def Ast.decideLawful : ∀ e : Ast, Decidable e.Lawful
  | .number n => inferInstanceAs (Decidable (n < 2 ^ 63))
  | .name word => inferInstanceAs (Decidable (Identifier word))
  | .negated operand => operand.decideLawful
  | .binary _ left right =>
      have := left.decideLawful
      have := right.decideLawful
      inferInstanceAs (Decidable (left.Lawful ∧ right.Lawful))
  | .comma left right =>
      have := left.decideLawful
      have := right.decideLawful
      inferInstanceAs (Decidable (left.Lawful ∧ right.Lawful))
  | .assign word rhs =>
      have := rhs.decideLawful
      inferInstanceAs (Decidable (Identifier word ∧ rhs.Lawful))

instance (e : Ast) : Decidable e.Lawful := e.decideLawful

theorem no_blanks : Blank [] := fun c member => by cases member

theorem numeral_toDigits (n : Nat) (small : n < 2 ^ 63) : Numeral (Nat.toDigits 10 n) n where
  nonempty := Nat.toDigits_ne_nil
  digit _ member := Nat.isDigit_of_mem_toDigits (by decide : 0 < 10) (by decide) member
  value := Nat.ofDigitChars_toDigits (by decide) (by decide)
  small := small

theorem written_looser {tight loose : Level} {e : Ast} {text : Text}
    (order : loose.tightness ≤ tight.tightness) (written : Written tight e text) :
    Written loose e text := by
  cases tight <;> cases loose
  all_goals first
    | exact absurd order (by decide)
    | repeat first | assumption | constructor

theorem written_enclosed (level expected : Level) (e : Ast) (text : Text)
    (written : Written level e text) : Written expected e (enclosed level expected text) := by
  unfold enclosed
  split
  · have within : Written .list e text := written_looser (Nat.zero_le _) written
    have primary : Written .unary e ('(' :: (text ++ [')'])) :=
      .parens [] text [] e no_blanks within no_blanks
    exact written_looser (by cases expected <;> decide) primary
  · exact written_looser (by omega) written

theorem minimal_written (e : Ast) (lawful : e.Lawful) (expected : Level) :
    Written expected e (e.minimal expected) := by
  induction e generalizing expected with
  | number n =>
      have digits : Written .unary (.number n) (Nat.toDigits 10 n) :=
        .number [] _ n no_blanks (numeral_toDigits n lawful)
      exact written_looser (by cases expected <;> decide) digits
  | name word =>
      have alone : Written .unary (.name word) word := .name [] word no_blanks lawful
      exact written_looser (by cases expected <;> decide) alone
  | negated operand ih =>
      have sign : Written .unary (.negated operand) ('-' :: operand.minimal .unary) :=
        .negated [] _ operand no_blanks (ih lawful .unary)
      exact written_looser (by cases expected <;> decide) sign
  | binary op left right ihLeft ihRight =>
      apply written_enclosed
      cases op with
      | plus => exact .plus left right _ [] _ (ihLeft lawful.1 .sum) no_blanks (ihRight lawful.2 .product)
      | minus => exact .minus left right _ [] _ (ihLeft lawful.1 .sum) no_blanks (ihRight lawful.2 .product)
      | times => exact .times left right _ [] _ (ihLeft lawful.1 .product) no_blanks (ihRight lawful.2 .unary)
  | comma left right ihLeft ihRight =>
      apply written_enclosed
      exact .comma left right _ [] _ (ihLeft lawful.1 .list) no_blanks (ihRight lawful.2 .item)
  | assign word rhs ih =>
      apply written_enclosed
      exact .assign [] word [] _ rhs no_blanks lawful.1 no_blanks (ih lawful.2 .item)

/-- What `sscanf` with `%ld` makes of a decimal literal. -/
structure ScansDecimal (lib : Library F) : Prop where
  plain : ∀ digits n, Numeral digits n → lib.scanLong digits = Int64.ofNat n
  signed : ∀ digits n, Numeral digits n → lib.scanLong ('-' :: digits) = -Int64.ofNat n

/-! The tokens. -/

/-- A character that ends a name and a number. -/
def separates (c : Char) : Bool := !c.isAlphanum && c ≠ '_' && c ≠ '.'

theorem blank_separates (c : Char) (blank : isspace c = true) : separates c = true := by
  simp only [isspace, Bool.or_eq_true, Bool.and_eq_true, decide_eq_true_eq] at blank
  rcases blank with rfl | ⟨low, high⟩
  · decide
  · have code : Char.ofNat c.toNat = c := Char.ofNat_toNat c
    generalize c.toNat = n at low high code
    subst code
    interval_cases n <;> decide

theorem dropWhile_run {α : Type} (test : α → Bool) (run rest : List α)
    (all : ∀ c ∈ run, test c = true) (stop : ∀ c ∈ rest.head?, test c = false) :
    (run ++ rest).dropWhile test = rest := by
  induction run with
  | nil =>
      cases rest with
      | nil => rfl
      | cons c rest => simp [stop c (by simp)]
  | cons c run ih =>
      rw [List.cons_append, List.dropWhile_cons_of_pos (all c List.mem_cons_self)]
      exact ih fun c member => all c (List.mem_cons_of_mem _ member)

variable (lib : Library F)

/-- Blanks before a token are skipped. -/
theorem getToken_at (ignoreSign : Bool) (scan : Scanner F) (gap p : Text) (blank : Blank gap)
    (dark : isspace (peek p 0) = false) (some_char : peek p 0 ≠ nul) (text : scan.pWord = gap ++ p) :
    getToken lib ignoreSign scan =
      (tokenAt lib ignoreSign p).map fun (token, rest) => ⟨rest, p, token⟩ := by
  have stop : ∀ c ∈ p.head?, isspace c = false := by
    cases p with
    | nil => simp
    | cons c more => simpa [peek] using dark
  have skipped : scan.pWord.dropWhile isspace = p := by
    rw [text]
    exact dropWhile_run isspace gap p blank stop
  rw [getToken, skipped, if_neg some_char]

theorem getToken_end (ignoreSign : Bool) (scan : Scanner F) (blank : Blank scan.pWord)
    (going : scan.token.type ≠ .end_) :
    getToken lib ignoreSign scan =
      .ok ⟨[], [], plainToken lib .end_ "<end of expression>".toList⟩ := by
  have skipped : scan.pWord.dropWhile isspace = [] := by
    have all := dropWhile_run isspace scan.pWord [] blank (by simp)
    rwa [List.append_nil] at all
  rw [getToken, skipped, if_pos (by rfl), if_neg going]

theorem between_append (run rest : Text) : between (run ++ rest) rest = run := by
  simp [between]

theorem peek_head (c : Char) (more : Text) : peek (c :: more) 0 = c := rfl

theorem separates_stop (rest : Text) (separated : separates (peek rest 0) = true) :
    ∀ c ∈ rest.head?, c.isAlphanum = false ∧ c ≠ '_' ∧ c ≠ '.' := by
  cases rest with
  | nil => simp
  | cons c more =>
      rw [peek_head] at separated
      simpa [separates, and_assoc] using separated

theorem digit_alphanum (c : Char) (apart : c.isAlphanum = false) : c.isDigit = false := by
  simp only [Char.isAlphanum, Bool.or_eq_false_iff] at apart
  exact apart.2

theorem digit_plain (c : Char) (digit : c.isDigit = true) : isSign c = false ∧ c ≠ 'e' ∧ c ≠ '.' := by
  refine ⟨?_, ?_, ?_⟩
  · simp only [isSign, Bool.or_eq_false_iff, decide_eq_false_iff_not]
    constructor <;> rintro rfl <;> exact absurd digit (by decide)
  · rintro rfl
    exact absurd digit (by decide)
  · rintro rfl
    exact absurd digit (by decide)

theorem number_stops (digits rest : Text) (all : ∀ c ∈ digits, c.isDigit = true)
    (separated : separates (peek rest 0) = true) :
    (digits ++ rest).dropWhile (fun c => c.isDigit || c = '.') = rest ∧
      ¬ (peek rest 0 = 'e' ∨ peek rest 0 = 'E') := by
  constructor
  · apply dropWhile_run
    · intro c member
      simp [all c member]
    · intro c head
      obtain ⟨plain, _, point⟩ := separates_stop rest separated c head
      simp [digit_alphanum c plain, point]
  · rintro (same | same)
    · rw [same] at separated
      exact absurd separated (by decide)
    · rw [same] at separated
      exact absurd separated (by decide)

variable {lib}

theorem numberToken_decimal (word : Text) (n : Int64) (no_e : 'e' ∉ word) (no_point : '.' ∉ word)
    (scanned : lib.scanLong word = n) :
    numberToken lib word = .ok ⟨.integer64, word, lib.zero, n⟩ := by
  rw [numberToken, if_pos ⟨no_e, no_point⟩, scanned]

theorem tokenAt_number (scans : ScansDecimal lib) (ignoreSign : Bool) (digits rest : Text) (n : Nat)
    (numeral : Numeral digits n) (separated : separates (peek rest 0) = true) :
    tokenAt lib ignoreSign (digits ++ rest) =
      .ok (⟨.integer64, digits, lib.zero, Int64.ofNat n⟩, rest) := by
  obtain ⟨stops, no_exponent⟩ := number_stops digits rest numeral.digit separated
  have first : (peek (digits ++ rest) 0).isDigit = true := by
    cases digits with
    | nil => exact absurd rfl numeral.nonempty
    | cons c more => exact numeral.digit c List.mem_cons_self
  have unsigned : skipSign (digits ++ rest) = digits ++ rest := by
    rw [skipSign, (digit_plain _ first).1]
    rfl
  have ends : numberEnd (digits ++ rest) = rest := by
    simp only [numberEnd, unsigned, stops, if_neg no_exponent]
  have token := numberToken_decimal digits _ (fun member => (digit_plain _ (numeral.digit _ member)).2.1 rfl)
    (fun member => (digit_plain _ (numeral.digit _ member)).2.2 rfl) (scans.plain digits n numeral)
  rw [tokenAt, if_pos (by simp [startsNumber, first]), ends, between_append, token]
  rfl

theorem tokenAt_signed (scans : ScansDecimal lib) (digits rest : Text) (n : Nat)
    (numeral : Numeral digits n) (separated : separates (peek rest 0) = true) :
    tokenAt lib false ('-' :: (digits ++ rest)) =
      .ok (⟨.integer64, '-' :: digits, lib.zero, -Int64.ofNat n⟩, rest) := by
  obtain ⟨stops, no_exponent⟩ := number_stops digits rest numeral.digit separated
  have second : (peek ('-' :: (digits ++ rest)) 1).isDigit = true := by
    cases digits with
    | nil => exact absurd rfl numeral.nonempty
    | cons c more => exact numeral.digit c List.mem_cons_self
  have starts : startsNumber false ('-' :: (digits ++ rest)) = true := by
    simp [startsNumber, peek_head, isSign, second]
  have ends : numberEnd ('-' :: (digits ++ rest)) = rest := by
    have unsigned : skipSign ('-' :: (digits ++ rest)) = digits ++ rest := rfl
    simp only [numberEnd, unsigned, stops, if_neg no_exponent]
  have plain : ∀ c ∈ '-' :: digits, c ≠ 'e' ∧ c ≠ '.' := by
    intro c member
    rcases List.mem_cons.mp member with rfl | member
    · decide
    · exact (digit_plain c (numeral.digit c member)).2
  have token := numberToken_decimal ('-' :: digits) _ (fun member => (plain _ member).1 rfl)
    (fun member => (plain _ member).2 rfl) (scans.signed digits n numeral)
  rw [tokenAt, if_pos starts, ends, ← List.cons_append, between_append, token]
  rfl

theorem alpha_digit (c : Char) (alpha : c.isAlpha = true) : c.isDigit = false := by
  have upper : 'A'.val.toNat = 65 ∧ 'Z'.val.toNat = 90 := by decide
  have lower : 'a'.val.toNat = 97 ∧ 'z'.val.toNat = 122 := by decide
  have digit : '0'.val.toNat = 48 ∧ '9'.val.toNat = 57 := by decide
  simp only [Char.isAlpha, Char.isUpper, Char.isLower, Char.isDigit, Bool.or_eq_true,
    Bool.and_eq_true, Bool.and_eq_false_iff, decide_eq_true_eq, decide_eq_false_iff_not, ge_iff_le,
    UInt32.le_iff_toNat_le] at alpha ⊢
  omega

theorem alpha_plain (c next : Char) (alpha : c.isAlpha = true) :
    isSign c = false ∧ c.isDigit = false ∧ c ≠ '.' ∧ c ≠ quote ∧ pairType c next = none ∧
      singleType c = none := by
  have other : ∀ x : Char, x.isAlpha = false → c ≠ x := by
    rintro x letterless rfl
    rw [letterless] at alpha
    cases alpha
  refine ⟨?_, alpha_digit c alpha, other _ (by decide), other _ (by decide), ?_, ?_⟩
  · simp [isSign, other '+' (by decide), other '-' (by decide)]
  · unfold pairType
    rw [if_neg (fun both : c = '&' ∧ next = '&' => other '&' (by decide) both.1),
      if_neg (fun both : c = '|' ∧ next = '|' => other '|' (by decide) both.1)]
    split
    · split <;> first | rfl | exact absurd alpha (by decide)
    · rfl
  · unfold singleType
    split <;> first | rfl | exact absurd alpha (by decide)

theorem tokenAt_name (ignoreSign : Bool) (word rest : Text) (identifier : Identifier word)
    (separated : separates (peek rest 0) = true) :
    tokenAt lib ignoreSign (word ++ rest) = .ok (plainToken lib .name word, rest) := by
  have head : peek (word ++ rest) 0 = peek word 0 := by
    cases word with
    | nil => exact absurd identifier.first (by decide)
    | cons c more => rfl
  obtain ⟨unsigned, no_digit, no_point, no_quote, no_pair, no_single⟩ :=
    alpha_plain (peek word 0) (peek (word ++ rest) 1) identifier.first
  have ends : (word ++ rest).dropWhile (fun c => c.isAlphanum || c = '_') = rest := by
    apply dropWhile_run
    · exact identifier.rest
    · intro c member
      obtain ⟨plain, underscore, _⟩ := separates_stop rest separated c member
      simp [plain, underscore]
  have no_number : startsNumber ignoreSign (word ++ rest) = false := by
    simp [startsNumber, head, unsigned, no_digit, no_point]
  rw [tokenAt, if_neg (by simp [no_number]), head, no_pair]
  simp only [no_single, if_neg no_quote, identifier.first, if_true, ends, between_append]

theorem tokenAt_single (ignoreSign : Bool) (c : Char) (more : Text) (type : TokenType)
    (no_number : startsNumber ignoreSign (c :: more) = false)
    (no_pair : pairType c (peek more 0) = none) (single : singleType c = some type) :
    tokenAt lib ignoreSign (c :: more) = .ok (plainToken lib type [c], more) := by
  have second : peek (c :: more) 1 = peek more 0 := rfl
  rw [tokenAt, if_neg (by simp [no_number]), peek_head, second, no_pair]
  simp only [single]
  rfl

/-! The characters an expression begins with. -/

theorem single_plain (c : Char) (type : TokenType) (single : singleType c = some type) :
    separates c = true ∧ isspace c = false ∧ c ≠ nul ∧ c ≠ '&' ∧ c ≠ '|' := by
  unfold singleType at single
  split at single
  all_goals first | decide | cases single

theorem no_pair (c next : Char) (type : TokenType) (single : singleType c = some type)
    (apart : next ≠ '=') : pairType c next = none := by
  obtain ⟨_, _, _, no_and, no_or⟩ := single_plain c type single
  unfold pairType
  rw [if_neg apart, if_neg (fun both => no_and both.1), if_neg (fun both => no_or both.1)]

/-- Closing parentheses and commas pair with nothing. -/
theorem no_pair_mark (c next : Char) (mark : c = ')' ∨ c = '(' ∨ c = ',') :
    pairType c next = none := by
  rcases mark with rfl | rfl | rfl
  all_goals
    unfold pairType
    split
    · rfl
    · simp

/-- Not the rest of an operator, and no digit or point. -/
def opensPlain (c : Char) : Bool := c ≠ '=' && !c.isDigit && c ≠ '.'

theorem blank_opens (gap p : Text) (blank : Blank gap) (opens : opensPlain (peek p 0) = true)
    (some_text : p ≠ []) : ∃ c more, gap ++ p = c :: more ∧ opensPlain c = true := by
  cases gap with
  | nil =>
      cases p with
      | nil => exact absurd rfl some_text
      | cons c more => exact ⟨c, more, rfl, opens⟩
  | cons c gap =>
      refine ⟨c, gap ++ p, rfl, ?_⟩
      have apart := blank_separates c (blank c List.mem_cons_self)
      have no_equals : c ≠ '=' := by
        rintro rfl
        exact absurd (blank '=' List.mem_cons_self) (by decide)
      simp only [separates, Bool.and_eq_true, Bool.not_eq_true', decide_eq_true_eq] at apart
      simp [opensPlain, no_equals, digit_alphanum c apart.1.1, apart.2]

theorem alpha_opens (c : Char) (alpha : c.isAlpha = true) : opensPlain c = true := by
  have no_equals : c ≠ '=' := by
    rintro rfl
    exact absurd alpha (by decide)
  obtain ⟨_, no_digit, no_point, _⟩ := alpha_plain c c alpha
  simp [opensPlain, no_equals, no_digit, no_point]

/-- Only a literal without blanks begins with a digit. -/
theorem unary_opens {e : Ast} {text : Text} (written : Written .unary e text) :
    (∃ n, e = .number n ∧ Numeral text n) ∨ ∃ c more, text = c :: more ∧ opensPlain c = true := by
  cases written with
  | number gap digits n blank numeral =>
      cases gap with
      | nil => exact Or.inl ⟨n, rfl, numeral⟩
      | cons c gap =>
          obtain ⟨c, more, text, opens⟩ := blank_opens (c :: gap) ['-'] blank rfl (by simp)
          refine Or.inr ⟨c, gap ++ digits, ?_, opens⟩
          cases text
          rfl
  | name gap word blank identifier =>
      have some_text : word ≠ [] := by
        rintro rfl
        exact absurd identifier.first (by decide)
      exact Or.inr (blank_opens gap word blank (alpha_opens _ identifier.first) some_text)
  | negated gap text operand blank _ =>
      exact Or.inr (blank_opens gap ('-' :: text) blank rfl (List.cons_ne_nil _ _))
  | parens gap text closing e blank _ _ =>
      exact Or.inr (blank_opens gap ('(' :: _) blank rfl (List.cons_ne_nil _ _))

theorem written_opens {level : Level} {e : Ast} {text : Text} (written : Written level e text)
    (rest : Text) : peek (text ++ rest) 0 ≠ '=' := by
  have apart : ∃ c more, text = c :: more ∧ c ≠ '=' := by
    have unary : ∀ {e text}, Written .unary e text → ∃ c more, text = c :: more ∧ c ≠ '=' := by
      intro e text written
      rcases unary_opens written with ⟨n, _, numeral⟩ | ⟨c, more, text, opens⟩
      · cases text with
        | nil => exact absurd rfl numeral.nonempty
        | cons c more =>
            refine ⟨c, more, rfl, ?_⟩
            rintro rfl
            exact absurd (numeral.digit '=' List.mem_cons_self) (by decide)
      · simp only [opensPlain, Bool.and_eq_true, decide_eq_true_eq] at opens
        exact ⟨c, more, text, opens.1.1⟩
    have goes_on : ∀ first rest : Text, (∃ c more, first = c :: more ∧ c ≠ '=') →
        ∃ c more, first ++ rest = c :: more ∧ c ≠ '=' := by
      rintro first rest ⟨c, more, rfl, opens⟩
      exact ⟨c, more ++ rest, rfl, opens⟩
    induction written with
    | number gap digits n blank numeral => exact unary (.number gap digits n blank numeral)
    | name gap word blank identifier => exact unary (.name gap word blank identifier)
    | negated gap text operand blank written _ => exact unary (.negated gap text operand blank written)
    | parens gap text closing e blank written before _ =>
        exact unary (.parens gap text closing e blank written before)
    | unary e text _ ih => exact ih
    | times left right first gap second _ _ _ ih _ => exact goes_on first _ ih
    | product e text _ ih => exact ih
    | plus left right first gap second _ _ _ ih _ => exact goes_on first _ ih
    | minus left right first gap second _ _ _ ih _ => exact goes_on first _ ih
    | sum e text _ ih => exact ih
    | assign gap word before text rhs blank identifier _ _ _ =>
        rw [← List.append_assoc]
        exact goes_on _ _ (unary (.name gap word blank identifier))
    | item e text _ ih => exact ih
    | comma left right first gap second _ _ _ ih _ => exact goes_on first _ ih
  obtain ⟨c, more, rfl, opens⟩ := apart
  exact opens

end EChainLib.Expr
