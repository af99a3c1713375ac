import Mathlib
import EChainLib.Expr.Notation
import EChainLib.Expr.Operators

/-! Numbers in a program: their form and what they are worth, what the converters read, and
when `GetToken` reads a number whole or refuses it. -/

namespace EChainLib.Expr

variable {F : Type}

abbrev Sign := {c : Char // isSign c = true}

abbrev Digit := {c : Char // c.isDigit = true}

structure Exponent where
  letter : {c : Char // c = 'e' ∨ c = 'E'}
  sign : Option Sign
  digits : List Digit
  nonempty : digits ≠ []

/-- `[+-]?(digits[.digits*]|.digits)([eE][+-]?digits)?`. -/
structure Literal where
  sign : Option Sign
  whole : List Digit
  fraction : Option (List Digit)
  exponent : Option Exponent
  mantissa : whole ≠ [] ∨ ∃ digits, fraction = some digits ∧ digits ≠ []

def signText (sign : Option Sign) : Text := sign.elim [] fun c => [c.val]

def digitText (digits : List Digit) : Text := digits.map Subtype.val

def Exponent.text (e : Exponent) : Text := e.letter.val :: (signText e.sign ++ digitText e.digits)

def fractionText (fraction : Option (List Digit)) : Text :=
  fraction.elim [] fun digits => '.' :: digitText digits

def exponentText (exponent : Option Exponent) : Text := exponent.elim [] Exponent.text

def Literal.text (l : Literal) : Text :=
  signText l.sign ++ (digitText l.whole ++ (fractionText l.fraction ++ exponentText l.exponent))

def natural (digits : Text) : Nat := Nat.ofDigitChars 10 digits 0

def minus (sign : Option Sign) : Bool := signText sign = ['-']

def Exponent.value (e : Exponent) : Int :=
  if minus e.sign then -natural (digitText e.digits) else natural (digitText e.digits)

/-- The number that a mantissa and an exponent stand for. -/
def decimal (negative : Bool) (whole fraction : Text) (exponent : Int) : ℚ :=
  (if negative then -1 else 1) * natural (whole ++ fraction) / 10 ^ fraction.length * 10 ^ exponent

def Literal.value (l : Literal) : ℚ :=
  decimal (minus l.sign) (digitText l.whole) (digitText (l.fraction.getD []))
    (l.exponent.elim 0 Exponent.value)

/-- Neither point nor exponent. -/
def Literal.IsInteger (l : Literal) : Prop := l.fraction = none ∧ l.exponent = none

instance (l : Literal) : Decidable l.IsInteger :=
  decidable_of_iff (l.fraction.isNone = true ∧ l.exponent.isNone = true)
    (and_congr Option.isNone_iff_eq_none Option.isNone_iff_eq_none)

/-- What the loops over a number take at `p`. -/
def lexemeAt (p : Text) : Text := between p (numberEnd p)

/-- The texts that `GetToken` gives to a converter. -/
def Scanned (text : Text) : Prop :=
  ∃ ignoreSign p, startsNumber ignoreSign p = true ∧ lexemeAt p = text

def Fits (n : ℚ) : Prop := -2 ^ 63 ≤ n ∧ n < 2 ^ 63

/-- `sscanf` and `istream >> double` read the longest beginning that is a number. The
stream fails before its end if there is none and the text is not itself the beginning of
a number. -/
structure ReadsLongest (lib : Library F) (round : ℚ → F) : Prop where
  long : ∀ (l : Literal) (rest : Text), l.IsInteger → (peek rest 0).isDigit = false →
    Fits l.value → ((lib.scanLong (l.text ++ rest)).toInt : ℚ) = l.value
  whole : ∀ l : Literal, lib.readDouble l.text = (round l.value, false)
  part : ∀ text, Scanned text → (∃ l : Literal, l.text <+: text) →
    (lib.readDouble text).2 = false
  nothing : ∀ text, Scanned text → (¬ ∃ l : Literal, l.text <+: text) →
    ((lib.readDouble text).2 = true ↔ ¬ ∃ l : Literal, text <+: l.text)

/-- What the call that takes `lexeme` should come to: the number it is, and an exception if
it is none. -/
def ReadWhole (round : ℚ → F) (lexeme : Text) : Except Fault (Scanner F) → Prop
  | .ok next =>
      between next.pWordStart next.pWord = lexeme ∧ ∃ l : Literal, l.text = lexeme ∧
        if l.IsInteger then
          next.token.type = .integer64 ∧ (next.token.iValue.toInt : ℚ) = l.value
        else next.token.type = .number ∧ next.token.value = round l.value
  | .error fault => (¬ ∃ l : Literal, l.text = lexeme) ∧ ∃ what, fault = .thrown what

/-- A number, but not one with `E` and no point; or a sign and a point with something other
than a digit behind them. -/
def WholeOrRefused (lexeme : Text) : Prop :=
  ((∃ l : Literal, l.text = lexeme) ∧ ('E' ∈ lexeme → '.' ∈ lexeme)) ∨
    ∃ sign c rest, lexeme = sign :: '.' :: c :: rest ∧ isSign sign = true ∧ c.isDigit = false

/-! The characters of a literal. -/

theorem mem_signText {sign : Option Sign} {c : Char} (member : c ∈ signText sign) :
    isSign c = true := by
  cases sign with
  | none => cases member
  | some s =>
      obtain rfl : c = s.val := by simpa [signText] using member
      exact s.property

theorem mem_digitText {digits : List Digit} {c : Char} (member : c ∈ digitText digits) :
    c.isDigit = true := by
  obtain ⟨d, _, rfl⟩ := List.mem_map.mp member
  exact d.property

theorem mem_text {l : Literal} {c : Char} (member : c ∈ l.text) :
    isSign c = true ∨ c.isDigit = true ∨ (c = '.' ∧ l.fraction.isSome) ∨
      ∃ e, l.exponent = some e ∧ e.letter.val = c := by
  simp only [Literal.text, List.mem_append] at member
  rcases member with sign | whole | fraction | exponent
  · exact Or.inl (mem_signText sign)
  · exact Or.inr (Or.inl (mem_digitText whole))
  · cases written : l.fraction with
    | none =>
        rw [written] at fraction
        cases fraction
    | some digits =>
        rw [written] at fraction
        rcases List.mem_cons.mp fraction with rfl | digit
        · exact Or.inr (Or.inr (Or.inl ⟨rfl, rfl⟩))
        · exact Or.inr (Or.inl (mem_digitText digit))
  · cases written : l.exponent with
    | none =>
        rw [written] at exponent
        cases exponent
    | some e =>
        rw [written] at exponent
        rcases List.mem_cons.mp exponent with rfl | behind
        · exact Or.inr (Or.inr (Or.inr ⟨e, rfl, rfl⟩))
        · rcases List.mem_append.mp behind with sign | digit
          · exact Or.inl (mem_signText sign)
          · exact Or.inr (Or.inl (mem_digitText digit))

theorem point_mem {l : Literal} (point : l.fraction.isSome) : '.' ∈ l.text := by
  obtain ⟨digits, written⟩ := Option.isSome_iff_exists.mp point
  simp [Literal.text, written, fractionText]

theorem letter_mem {l : Literal} {e : Exponent} (written : l.exponent = some e) :
    e.letter.val ∈ l.text := by
  simp [Literal.text, written, exponentText, Exponent.text]

theorem mem_point {l : Literal} (member : '.' ∈ l.text) : l.fraction.isSome := by
  rcases mem_text member with sign | digit | ⟨_, point⟩ | ⟨e, _, letter⟩
  · exact absurd sign (by decide)
  · exact absurd digit (by decide)
  · exact point
  · rcases e.letter.property with same | same <;> exact absurd (same.symm.trans letter) (by decide)

theorem mem_letter {l : Literal} {c : Char} (letter : c = 'e' ∨ c = 'E') (member : c ∈ l.text) :
    ∃ e, l.exponent = some e ∧ e.letter.val = c := by
  rcases mem_text member with sign | digit | ⟨point, _⟩ | written
  · rcases letter with rfl | rfl <;> exact absurd sign (by decide)
  · rcases letter with rfl | rfl <;> exact absurd digit (by decide)
  · rcases letter with rfl | rfl <;> exact absurd point (by decide)
  · exact written

theorem no_letter {l : Literal} (unwritten : l.exponent = none) {c : Char}
    (letter : c = 'e' ∨ c = 'E') : c ∉ l.text := by
  intro member
  obtain ⟨e, written, _⟩ := mem_letter letter member
  rw [unwritten] at written
  cases written

/-- What the classifier asks for, and the capital letter that it leaves out. -/
theorem isInteger_iff (l : Literal) :
    l.IsInteger ↔ 'e' ∉ l.text ∧ '.' ∉ l.text ∧ 'E' ∉ l.text := by
  constructor
  · rintro ⟨no_fraction, no_exponent⟩
    refine ⟨no_letter no_exponent (Or.inl rfl), ?_, no_letter no_exponent (Or.inr rfl)⟩
    intro member
    have point := mem_point member
    rw [no_fraction] at point
    cases point
  · rintro ⟨no_e, no_point, no_capital⟩
    constructor
    · by_contra point
      exact no_point (point_mem (Option.isSome_iff_ne_none.mpr point))
    · by_contra written
      obtain ⟨e, written⟩ := Option.ne_none_iff_exists'.mp written
      rcases e.letter.property with same | same
      · exact no_e (same ▸ letter_mem written)
      · exact no_capital (same ▸ letter_mem written)

theorem one_letter (l : Literal) (e : 'e' ∈ l.text) : 'E' ∉ l.text := by
  intro capital
  obtain ⟨first, written, letter⟩ := mem_letter (Or.inl rfl) e
  obtain ⟨second, again, other⟩ := mem_letter (Or.inr rfl) capital
  rw [written] at again
  cases again
  exact absurd (letter.symm.trans other) (by decide)

/-! Beginnings. -/

theorem digit_no_sign (d : Digit) : isSign d.val = false := (digit_plain d.val d.property).1

/-- A mantissa begins with a digit, or with a point and a digit. -/
theorem mantissa_head (l : Literal) (behind : Text) :
    (∃ (d : Digit) (more : Text),
        digitText l.whole ++ (fractionText l.fraction ++ behind) = d.val :: more) ∨
      ∃ (d : Digit) (more : Text),
        digitText l.whole ++ (fractionText l.fraction ++ behind) = '.' :: d.val :: more := by
  cases whole : l.whole with
  | cons d others => exact Or.inl ⟨d, _, rfl⟩
  | nil =>
      obtain ⟨digits, written, nonempty⟩ := l.mantissa.resolve_left fun none => none whole
      cases digits with
      | nil => exact absurd rfl nonempty
      | cons d others =>
          rw [written]
          exact Or.inr ⟨d, _, rfl⟩

/-- Nothing that begins with a sign and a point is a number without a digit behind them. -/
theorem no_beginning (l : Literal) (sign : Char) (rest : Text) (signed : isSign sign = true)
    (bare : (peek rest 0).isDigit = false) : ¬ l.text <+: sign :: '.' :: rest := by
  rintro ⟨behind, whole⟩
  rw [Literal.text] at whole
  have head := mantissa_head l (exponentText l.exponent)
  cases written : l.sign with
  | none =>
      rw [written] at whole
      rcases head with ⟨d, more, head⟩ | ⟨d, more, head⟩
      · rw [head] at whole
        obtain ⟨rfl, _⟩ := List.cons.inj whole
        rw [digit_no_sign] at signed
        cases signed
      · rw [head] at whole
        obtain ⟨rfl, _⟩ := List.cons.inj whole
        exact absurd signed (by decide)
  | some s =>
      rw [written] at whole
      rcases head with ⟨d, more, head⟩ | ⟨d, more, head⟩
      · rw [head] at whole
        obtain ⟨point, _⟩ := List.cons.inj (List.cons.inj whole).2
        exact absurd (point ▸ d.property) (by decide)
      · rw [head] at whole
        obtain ⟨_, same⟩ := List.cons.inj (List.cons.inj whole).2
        rw [← same] at bare
        have digit : (peek (d.val :: (more ++ behind)) 0).isDigit = true := d.property
        exact absurd (digit.symm.trans bare) (by decide)

/-- How what the loops take begins. -/
inductive Opens : Text → Prop
  | digit (d : Digit) (rest : Text) : Opens (d.val :: rest)
  | point (d : Digit) (rest : Text) : Opens ('.' :: d.val :: rest)
  | signed (s : Sign) (d : Digit) (rest : Text) : Opens (s.val :: d.val :: rest)
  | pointed (s : Sign) (rest : Text) : Opens (s.val :: '.' :: rest)

/-- The loops take the sign and all digits and points behind it. -/
theorem lexemeAt_run (p : Text) : ∃ more,
    lexemeAt p = p.take (p.length - (skipSign p).length) ++
      ((skipSign p).takeWhile (fun c => c.isDigit || c = '.') ++ more) := by
  have skipped : ∀ q : Text, skipSign q <:+ q := by
    intro q
    rw [skipSign]
    split
    · exact List.drop_suffix 1 q
    · exact List.suffix_rfl
  have ends : numberEnd p <:+ (skipSign p).dropWhile fun c => c.isDigit || c = '.' := by
    rw [numberEnd]
    split
    · exact (List.dropWhile_suffix _).trans ((skipped _).trans (List.drop_suffix 1 _))
    · exact List.suffix_rfl
  obtain ⟨more, rest⟩ := ends
  obtain ⟨front, whole⟩ := skipped p
  refine ⟨more, ?_⟩
  have split : p = (front ++ ((skipSign p).takeWhile (fun c => c.isDigit || c = '.') ++ more)) ++
      numberEnd p := by
    rw [List.append_assoc, List.append_assoc, rest, List.takeWhile_append_dropWhile, whole]
  have taken : p.take (p.length - (skipSign p).length) = front := by
    have length := congrArg List.length whole
    rw [List.length_append] at length
    have front_length : p.length - (skipSign p).length = front.length := by omega
    rw [front_length, ← whole]
    exact List.take_left' rfl
  rw [taken, lexemeAt]
  nth_rewrite 1 [split]
  exact between_append _ _

theorem sign_char (c : Char) (sign : isSign c = true) : c = '+' ∨ c = '-' := by
  simpa [isSign] using sign

theorem scanned_opens {text : Text} (scanned : Scanned text) : Opens text := by
  obtain ⟨ignoreSign, p, starts, rfl⟩ := scanned
  obtain ⟨more, taken⟩ := lexemeAt_run p
  rw [taken]
  cases p with
  | nil => simp [startsNumber, peek, nul] at starts
  | cons c rest =>
      by_cases sign : isSign c = true
      · have skipped : skipSign (c :: rest) = rest := by simp [skipSign, peek, sign]
        have front : (c :: rest).take ((c :: rest).length - rest.length) = [c] := by
          rw [List.length_cons, Nat.add_sub_cancel_left, List.take_succ_cons, List.take_zero]
        rw [skipped, front]
        cases rest with
        | nil =>
            rcases sign_char c sign with rfl | rfl <;> simp [startsNumber, peek, nul] at starts
        | cons d others =>
            have second : d.isDigit = true ∨ d = '.' := by
              rcases sign_char c sign with rfl | rfl
              all_goals
                simp [startsNumber, peek] at starts
                exact starts.2
            rcases second with digit | rfl
            · rw [List.takeWhile_cons_of_pos (by simp [digit])]
              exact .signed ⟨c, sign⟩ ⟨d, digit⟩ _
            · exact .pointed ⟨c, sign⟩ _
      · have skipped : skipSign (c :: rest) = c :: rest := by simp [skipSign, peek, sign]
        rw [skipped, Nat.sub_self, List.take_zero, List.nil_append]
        have first : c.isDigit = true ∨ (c = '.' ∧ (peek rest 0).isDigit = true) := by
          simpa [startsNumber, peek, sign] using starts
        rcases first with digit | ⟨rfl, digit⟩
        · rw [List.takeWhile_cons_of_pos (by simp [digit])]
          exact .digit ⟨c, digit⟩ _
        · cases rest with
          | nil => cases digit
          | cons d others =>
              change d.isDigit = true at digit
              rw [List.takeWhile_cons_of_pos (by simp), List.takeWhile_cons_of_pos (by simp [digit])]
              exact .point ⟨d, digit⟩ _

/-- Where no number begins, a sign stands in front of a point and no digit behind it. -/
theorem no_number (text : Text) (opens : Opens text)
    (none_begins : ¬ ∃ l : Literal, l.text <+: text) :
    ∃ (s : Sign) (rest : Text), text = s.val :: '.' :: rest ∧ (peek rest 0).isDigit = false := by
  cases opens with
  | digit d rest => exact absurd ⟨⟨none, [d], none, none, Or.inl (by simp)⟩, rest, rfl⟩ none_begins
  | point d rest =>
      exact absurd ⟨⟨none, [], some [d], none, Or.inr ⟨[d], rfl, by simp⟩⟩, rest, rfl⟩ none_begins
  | signed s d rest =>
      exact absurd ⟨⟨some s, [d], none, none, Or.inl (by simp)⟩, rest, rfl⟩ none_begins
  | pointed s rest =>
      refine ⟨s, rest, rfl, ?_⟩
      cases rest with
      | nil => rfl
      | cons c others =>
          rw [← Bool.not_eq_true]
          intro digit
          exact none_begins
            ⟨⟨some s, [], some [⟨c, digit⟩], none, Or.inr ⟨_, rfl, by simp⟩⟩, others, rfl⟩

/-- A sign and a point begin a number exactly where nothing stands behind them, if no digit
does. -/
theorem begins_iff (s : Sign) (rest : Text) (bare : (peek rest 0).isDigit = false) :
    (∃ l : Literal, s.val :: '.' :: rest <+: l.text) ↔ rest = [] := by
  constructor
  · rintro ⟨l, behind, whole⟩
    cases rest with
    | nil => rfl
    | cons c others =>
        have same : l.text <+: s.val :: '.' :: (c :: others ++ behind) := by
          rw [← whole]
          exact List.prefix_rfl
        exact absurd same (no_beginning l s.val _ s.property bare)
  · rintro rfl
    exact ⟨⟨some s, [], some [⟨'0', by decide⟩], none, Or.inr ⟨_, rfl, by simp⟩⟩, ['0'], rfl⟩

/-! The call. -/

variable {lib : Library F} {round : ℚ → F}

/-- The converters on a text that the loops have taken. -/
theorem numberToken_whole (reads : ReadsLongest lib round) (text : Text) (scanned : Scanned text)
    (fits : ∀ l : Literal, l.text = text → l.IsInteger → Fits l.value) (p rest : Text)
    (taken : between p rest = text) :
    ReadWhole round text ((numberToken lib text).map fun token => ⟨rest, p, token⟩) ↔
      WholeOrRefused text := by
  by_cases plain : 'e' ∉ text ∧ '.' ∉ text
  -- the integers, and with them what has a capital letter and no point
  · rw [numberToken, if_pos plain]
    constructor
    · rintro ⟨-, l, rfl, value⟩
      refine Or.inl ⟨⟨l, rfl⟩, fun capital => ?_⟩
      have fraction : ¬ l.IsInteger := fun integer => ((isInteger_iff l).mp integer).2.2 capital
      rw [if_neg fraction] at value
      cases value.1
    · rintro (⟨⟨l, rfl⟩, point⟩ | ⟨sign, c, others, rfl, -, -⟩)
      · have integer : l.IsInteger :=
          (isInteger_iff l).mpr ⟨plain.1, plain.2, fun capital => plain.2 (point capital)⟩
        have value := reads.long l [] integer (by decide) (fits l rfl integer)
        rw [List.append_nil] at value
        exact ⟨taken, l, rfl, by rw [if_pos integer]; exact ⟨rfl, value⟩⟩
      · exact absurd (by simp) plain.2
  · rw [numberToken, if_neg plain]
    by_cases failed : (lib.readDouble text).2 = true
    -- no number begins the text, and something is left of it
    · rw [if_pos failed]
      have none_begins : ¬ ∃ l : Literal, l.text <+: text := by
        intro begins
        rw [reads.part text scanned begins] at failed
        cases failed
      constructor
      · intro _
        obtain ⟨s, others, rfl, bare⟩ := no_number text (scanned_opens scanned) none_begins
        have more := (reads.nothing _ scanned none_begins).mp failed
        rw [begins_iff s others bare] at more
        cases others with
        | nil => exact absurd rfl more
        | cons c others => exact Or.inr ⟨s.val, c, others, rfl, s.property, bare⟩
      · intro _
        refine ⟨?_, _, rfl⟩
        rintro ⟨l, same⟩
        exact none_begins ⟨l, same ▸ List.prefix_rfl⟩
    -- a number begins the text, or the stream has come to its end
    · rw [if_neg failed]
      constructor
      · rintro ⟨-, l, rfl, -⟩
        refine Or.inl ⟨⟨l, rfl⟩, fun capital => ?_⟩
        by_contra no_point
        exact plain ⟨fun letter => one_letter l letter capital, no_point⟩
      · rintro (⟨⟨l, rfl⟩, -⟩ | ⟨sign, c, others, rfl, signed, bare⟩)
        · have fraction : ¬ l.IsInteger := fun integer =>
            plain ⟨((isInteger_iff l).mp integer).1, ((isInteger_iff l).mp integer).2.1⟩
          refine ⟨taken, l, rfl, ?_⟩
          rw [if_neg fraction]
          exact ⟨rfl, congrArg Prod.fst (reads.whole l)⟩
        · have none_begins : ¬ ∃ l : Literal, l.text <+: sign :: '.' :: c :: others := by
            rintro ⟨l, begins⟩
            exact no_beginning l sign (c :: others) signed bare begins
          refine absurd ((reads.nothing _ scanned none_begins).mpr ?_) failed
          rw [begins_iff ⟨sign, signed⟩ (c :: others) bare]
          exact List.cons_ne_nil c others

/-- A call that comes to a number reads it whole, or throws because it is none, exactly
where the number has no `E` without a point, and what is no number is a sign and a point
with something other than a digit behind. -/
theorem numbers_read_iff (reads : ReadsLongest lib round) (scan : Scanner F) (ignoreSign : Bool)
    (starts : startsNumber ignoreSign (scan.pWord.dropWhile isspace) = true)
    (fits : ∀ l : Literal, l.text = lexemeAt (scan.pWord.dropWhile isspace) → l.IsInteger →
      Fits l.value) :
    ReadWhole round (lexemeAt (scan.pWord.dropWhile isspace)) (getToken lib ignoreSign scan) ↔
      WholeOrRefused (lexemeAt (scan.pWord.dropWhile isspace)) := by
  have solid : peek (scan.pWord.dropWhile isspace) 0 ≠ nul := by
    intro ended
    rw [startsNumber, ended] at starts
    simp [nul, isSign] at starts
  have call : getToken lib ignoreSign scan =
      (numberToken lib (lexemeAt (scan.pWord.dropWhile isspace))).map fun token =>
        ⟨numberEnd (scan.pWord.dropWhile isspace), scan.pWord.dropWhile isspace, token⟩ := by
    rw [getToken, if_neg solid, tokenAt, if_pos starts]
    show Except.map _ (Except.map _ (numberToken lib (lexemeAt _))) = _
    cases numberToken lib (lexemeAt (scan.pWord.dropWhile isspace)) <;> rfl
  rw [call]
  exact numberToken_whole reads _ ⟨ignoreSign, _, starts, rfl⟩ fits _ _ rfl

/-! Converters on the rational numbers. -/

def negative (text : Text) : Bool := peek text 0 = '-'

def digitsIn (text : Text) : Text := text.takeWhile Char.isDigit

def behindDigits (text : Text) : Text := text.dropWhile Char.isDigit

/-- The integer at the beginning. -/
def integerIn (text : Text) : Int :=
  if negative text then -natural (digitsIn (skipSign text)) else natural (digitsIn (skipSign text))

def fractionIn (text : Text) : Text := if peek text 0 = '.' then digitsIn (text.drop 1) else []

def behindFraction (text : Text) : Text :=
  if peek text 0 = '.' then behindDigits (text.drop 1) else text

def exponentIn (text : Text) : Int :=
  if peek text 0 = 'e' ∨ peek text 0 = 'E' then integerIn (text.drop 1) else 0

def numberIn (text : Text) : ℚ :=
  decimal (negative text) (digitsIn (skipSign text)) (fractionIn (behindDigits (skipSign text)))
    (exponentIn (behindFraction (behindDigits (skipSign text))))

/-- Whether a stream fails in front of something that cannot go on a number. -/
def stopsEarly : Text → Bool
  | sign :: '.' :: c :: _ => isSign sign && !c.isDigit
  | _ => false

def readingLibrary : Library ℚ :=
  { rationalLibrary with
    scanLong := fun text => Int64.ofInt (integerIn text)
    readDouble := fun text => (numberIn text, stopsEarly text) }

theorem skipSign_signText (sign : Option Sign) (rest : Text) (plain : isSign (peek rest 0) = false) :
    skipSign (signText sign ++ rest) = rest ∧ negative (signText sign ++ rest) = minus sign := by
  cases sign with
  | none =>
      have positive : peek rest 0 ≠ '-' := by
        intro same
        rw [same] at plain
        cases plain
      exact ⟨by simp [signText, skipSign, plain], by simp [signText, negative, minus, positive]⟩
  | some s =>
      have signed : isSign (peek (s.val :: rest) 0) = true := s.property
      refine ⟨by simp [signText, skipSign, signed], ?_⟩
      exact decide_eq_decide.mpr (by simp [signText, peek_head])

theorem digits_digitText (digits : List Digit) (rest : Text)
    (stops : (peek rest 0).isDigit = false) :
    digitsIn (digitText digits ++ rest) = digitText digits ∧
      behindDigits (digitText digits ++ rest) = rest := by
  have all : ∀ c ∈ digitText digits, c.isDigit = true := fun c => mem_digitText
  have stop : ∀ c ∈ rest.head?, c.isDigit = false := by
    cases rest with
    | nil => simp
    | cons c more => simpa [peek] using stops
  have behind := dropWhile_run Char.isDigit (digitText digits) rest all stop
  have split := List.takeWhile_append_dropWhile (p := Char.isDigit) (l := digitText digits ++ rest)
  rw [behind] at split
  exact ⟨List.append_cancel_right split, behind⟩

theorem peek_digitText (digits : List Digit) (rest : Text) (nonempty : digits ≠ []) :
    (peek (digitText digits ++ rest) 0).isDigit = true := by
  cases digits with
  | nil => exact absurd rfl nonempty
  | cons d others => exact d.property

theorem digits_no_sign (digits : List Digit) (rest : Text) (plain : isSign (peek rest 0) = false) :
    isSign (peek (digitText digits ++ rest) 0) = false := by
  cases digits with
  | nil => exact plain
  | cons d others => exact digit_no_sign d

theorem exponent_plain (exponent : Option Exponent) :
    isSign (peek (exponentText exponent) 0) = false ∧
      (peek (exponentText exponent) 0).isDigit = false ∧ peek (exponentText exponent) 0 ≠ '.' := by
  cases exponent with
  | none => decide
  | some e =>
      show isSign e.letter.val = false ∧ e.letter.val.isDigit = false ∧ e.letter.val ≠ '.'
      rcases e.letter.property with letter | letter <;> rw [letter] <;> decide

theorem exponentIn_text (exponent : Option Exponent) :
    exponentIn (exponentText exponent) = exponent.elim 0 Exponent.value := by
  cases exponent with
  | none => rfl
  | some e =>
      have letter : peek e.text 0 = 'e' ∨ peek e.text 0 = 'E' := e.letter.property
      have digits := digits_digitText e.digits [] (by decide)
      rw [List.append_nil] at digits
      have plain : isSign (peek (digitText e.digits) 0) = false := by
        have plain := digits_no_sign e.digits [] (by decide)
        rwa [List.append_nil] at plain
      obtain ⟨skipped, sign⟩ := skipSign_signText e.sign (digitText e.digits) plain
      show exponentIn e.text = e.value
      rw [exponentIn, if_pos letter]
      show integerIn (signText e.sign ++ digitText e.digits) = e.value
      rw [integerIn, skipped, sign, digits.1, Exponent.value]

theorem fractionIn_text (fraction : Option (List Digit)) (exponent : Option Exponent) :
    fractionIn (fractionText fraction ++ exponentText exponent) = digitText (fraction.getD []) ∧
      behindFraction (fractionText fraction ++ exponentText exponent) = exponentText exponent := by
  obtain ⟨-, no_digit, no_point⟩ := exponent_plain exponent
  cases fraction with
  | none =>
      show fractionIn (exponentText exponent) = [] ∧
        behindFraction (exponentText exponent) = exponentText exponent
      rw [fractionIn, behindFraction, if_neg no_point, if_neg no_point]
      exact ⟨rfl, rfl⟩
  | some digits => exact digits_digitText digits (exponentText exponent) no_digit

/-- What the converter finds in the text of a literal is what the literal is worth. -/
theorem numberIn_text (l : Literal) : numberIn l.text = l.value := by
  obtain ⟨no_sign, no_digit, -⟩ := exponent_plain l.exponent
  have bare : isSign (peek (fractionText l.fraction ++ exponentText l.exponent) 0) = false ∧
      (peek (fractionText l.fraction ++ exponentText l.exponent) 0).isDigit = false := by
    cases l.fraction with
    | none => exact ⟨no_sign, no_digit⟩
    | some digits => exact ⟨rfl, rfl⟩
  obtain ⟨skipped, sign⟩ := skipSign_signText l.sign _ (digits_no_sign l.whole _ bare.1)
  obtain ⟨whole, behind⟩ := digits_digitText l.whole _ bare.2
  obtain ⟨fraction, rest⟩ := fractionIn_text l.fraction l.exponent
  rw [numberIn, Literal.text, skipped, sign, whole, behind, fraction, rest, exponentIn_text]
  rfl

theorem integerIn_text (l : Literal) (rest : Text) (integer : l.IsInteger)
    (stops : (peek rest 0).isDigit = false) : (integerIn (l.text ++ rest) : ℚ) = l.value := by
  obtain ⟨no_fraction, no_exponent⟩ := integer
  have nonempty : l.whole ≠ [] := by
    refine l.mantissa.resolve_right ?_
    rintro ⟨digits, written, _⟩
    rw [no_fraction] at written
    cases written
  have text : l.text ++ rest = signText l.sign ++ (digitText l.whole ++ rest) := by
    simp [Literal.text, no_fraction, no_exponent, fractionText, exponentText]
  have plain : isSign (peek (digitText l.whole ++ rest) 0) = false :=
    (digit_plain _ (peek_digitText l.whole rest nonempty)).1
  obtain ⟨skipped, sign⟩ := skipSign_signText l.sign _ plain
  rw [text, integerIn, skipped, sign, (digits_digitText l.whole rest stops).1, Literal.value,
    decimal, no_fraction, no_exponent]
  cases minus l.sign <;> simp [digitText]

theorem early_begins_none (text : Text) (early : stopsEarly text = true) (l : Literal) :
    ¬ l.text <+: text := by
  unfold stopsEarly at early
  split at early
  · rename_i sign c others
    simp only [Bool.and_eq_true, Bool.not_eq_true'] at early
    exact no_beginning l sign (c :: others) early.1 early.2
  · cases early

theorem stopsEarly_signed (s : Sign) (rest : Text) (bare : (peek rest 0).isDigit = false) :
    stopsEarly (s.val :: '.' :: rest) = true ↔ rest ≠ [] := by
  cases rest with
  | nil => simp [stopsEarly]
  | cons c others =>
      have no_digit : c.isDigit = false := bare
      simp [stopsEarly, s.property, no_digit]

theorem reading_longest : ReadsLongest readingLibrary id where
  long l rest integer stops fits := by
    have read := integerIn_text l rest integer stops
    rw [← read] at fits ⊢
    obtain ⟨low, high⟩ := fits
    have low_int : -2 ^ 63 ≤ integerIn (l.text ++ rest) := by exact_mod_cast low
    have high_int : integerIn (l.text ++ rest) < 2 ^ 63 := by exact_mod_cast high
    show ((Int64.ofInt (integerIn (l.text ++ rest))).toInt : ℚ) = _
    rw [Int64.toInt_ofInt_of_le low_int high_int]
  whole l := by
    have early : stopsEarly l.text = false := by
      rw [← Bool.not_eq_true]
      exact fun early => early_begins_none l.text early l List.prefix_rfl
    exact Prod.ext (numberIn_text l) early
  part text _ begins := by
    obtain ⟨l, begins⟩ := begins
    show stopsEarly text = false
    rw [← Bool.not_eq_true]
    exact fun early => early_begins_none text early l begins
  nothing text scanned none_begins := by
    obtain ⟨s, rest, rfl, bare⟩ := no_number text (scanned_opens scanned) none_begins
    show stopsEarly _ = true ↔ _
    rw [begins_iff s rest bare]
    exact stopsEarly_signed s rest bare

def sampleLiteral : Literal where
  sign := some ⟨'-', by decide⟩
  whole := [⟨'1', by decide⟩, ⟨'2', by decide⟩]
  fraction := some [⟨'5', by decide⟩]
  exponent := some ⟨⟨'E', Or.inr rfl⟩, none, [⟨'2', by decide⟩], by simp⟩
  mantissa := Or.inl (by simp)

example : sampleLiteral.value = -1250 ∧ numberIn "-12.5E2".toList = -1250 := by decide +kernel

/-- `-12.5E2` in front of `*x`. -/
theorem numbers_read_iff_applies :
    ReadWhole id "-12.5E2".toList (getToken readingLibrary false
        ⟨" -12.5E2*x".toList, [], plainToken readingLibrary .none []⟩) ∧
      sampleLiteral.text = "-12.5E2".toList := by
  refine ⟨?_, rfl⟩
  have whole := numbers_read_iff reading_longest
    ⟨" -12.5E2*x".toList, [], plainToken readingLibrary .none []⟩ false (by decide +kernel)
  have lexeme : lexemeAt (" -12.5E2*x".toList.dropWhile isspace) = "-12.5E2".toList := by
    decide +kernel
  rw [lexeme] at whole
  refine (whole ?_).mpr (Or.inl ⟨⟨sampleLiteral, rfl⟩, by decide⟩)
  intro l same integer
  have no_capital := ((isInteger_iff l).mp integer).2.2
  rw [same] at no_capital
  exact absurd (by decide) no_capital

/-- `1E5` becomes the integer 1. -/
theorem capital_exponent_is_lost :
    lexemeAt "1E5".toList = "1E5".toList ∧
      getToken readingLibrary true ⟨"1E5".toList, [], plainToken readingLibrary .none []⟩ =
        .ok ⟨[], "1E5".toList, ⟨.integer64, "1E5".toList, 0, 1⟩⟩ ∧
      ¬ ReadWhole id "1E5".toList (getToken readingLibrary true
        ⟨"1E5".toList, [], plainToken readingLibrary .none []⟩) := by
  have call : getToken readingLibrary true
      ⟨"1E5".toList, [], plainToken readingLibrary .none []⟩ =
        .ok ⟨[], "1E5".toList, ⟨.integer64, "1E5".toList, 0, 1⟩⟩ := rfl
  refine ⟨by decide +kernel, call, ?_⟩
  rw [call]
  rintro ⟨-, l, same, value⟩
  have fraction : ¬ l.IsInteger := by
    intro integer
    have no_capital := ((isInteger_iff l).mp integer).2.2
    rw [same] at no_capital
    exact absurd (by decide) no_capital
  rw [if_neg fraction] at value
  cases value.1

end EChainLib.Expr
