import Mathlib
import EChainLib.Expr.Check
import EChainLib.Expr.Notation

/-! Reading a written expression: the tree has its operators where the expression has
them. A sign in front of a literal belongs to the token. -/

namespace EChainLib.Expr

variable {F W : Type}

def Operator.token : Operator → TokenType
  | .plus => .plus
  | .minus => .minus
  | .times => .multiply

/-- The trees of an expression. -/
inductive Denotes (lib : Library F) : Tree F W → Ast → Prop
  | number (n : Nat) : n < 2 ^ 63 → Denotes lib (.literal (.ofInt lib (Int64.ofNat n))) (.number n)
  | signed (n : Nat) : n < 2 ^ 63 →
      Denotes lib (.literal (.ofInt lib (-Int64.ofNat n))) (.negated (.number n))
  | name (word : Text) : Denotes lib (.symbol word) (.name word)
  | negated (t : Tree F W) (operand : Ast) : Denotes lib t operand →
      Denotes lib (.negated t) (.negated operand)
  | binary (op : Operator) (s t : Tree F W) (left right : Ast) : Denotes lib s left →
      Denotes lib t right → Denotes lib (.binary op.token s t) (.binary op left right)
  | comma (s t : Tree F W) (left right : Ast) : Denotes lib s left → Denotes lib t right →
      Denotes lib (.binary .comma s t) (.comma left right)
  | assign (word : Text) (t : Tree F W) (rhs : Ast) : Denotes lib t rhs →
      Denotes lib (.assign .assign word t) (.assign word rhs)

section Reading

variable (m : Machine F W)

def reader (fuel : Nat) : Level → Bool → Scanner F → Reading F W (Spelled F W)
  | .unary => readPrimary m fuel
  | .product => readTerm (readPrimary m fuel) fuel
  | .sum => readAddSubtract (readPrimary m fuel) fuel
  | .item => readExpression (readPrimary m fuel) fuel
  | .list => readCommaList (readPrimary m fuel) fuel

/-- The tokens with which a reader of this level goes on. -/
def continues : Level → List TokenType
  | .unary => .lhparen :: assignments
  | .product => .lhparen :: assignments ++ termOps
  | .sum => .lhparen :: assignments ++ termOps ++ addSubtractOps
  | .item => .lhparen :: assignments ++ termOps ++ addSubtractOps ++ comparisonOps ++ expressionOps
  | .list => .lhparen :: assignments ++ termOps ++ addSubtractOps ++ comparisonOps ++
      expressionOps ++ commaListOps

/-- The token behind an expression, as it is read without a sign. -/
structure Ahead (rest : Text) (behind : Scanner F) : Prop where
  separated : separates (peek rest 0) = true
  read : ∀ scan : Scanner F, scan.pWord = rest → scan.token.type ≠ .end_ →
    getToken m.toLibrary true scan = .ok behind

/-- The reader of a level reads the text, whatever stands behind it. -/
def Reads (fuel : Nat) (level : Level) (e : Ast) (text : Text) : Prop :=
  ∀ rest behind, Ahead m rest behind → behind.token.type ∉ continues level →
    ∀ scan : Scanner F, scan.pWord = text ++ rest → scan.token.type ≠ .end_ →
      ∃ t, reader m fuel level true scan = .ok (t, behind) ∧ Denotes m.toLibrary t e

/-- The loop of a level reads the text in some rounds and goes on behind it. -/
def ReadsOn (fuel : Nat) (operand : Level) (ops : List TokenType) (e : Ast) (text : Text) : Prop :=
  ∀ rest behind, Ahead m rest behind → behind.token.type ∉ continues operand →
    ∀ scan : Scanner F, scan.pWord = text ++ rest → scan.token.type ≠ .end_ →
      ∃ t used, used ≤ text.length ∧ Denotes m.toLibrary t e ∧ ∀ n, used ≤ n →
        readLevel (reader m fuel operand) ops n true scan =
          readRounds (reader m fuel operand) ops (n - used) t behind

/-- Any reader, and any trees that it should find. -/
def ReadsAs (read : Scanner F → Reading F W (Spelled F W)) (goesOn : List TokenType)
    (meant : Tree F W → Prop) (text : Text) : Prop :=
  ∀ rest behind, Ahead m rest behind → behind.token.type ∉ goesOn →
    ∀ scan : Scanner F, scan.pWord = text ++ rest → scan.token.type ≠ .end_ →
      ∃ t, read scan = .ok (t, behind) ∧ meant t

/-- Any loop, and any trees that it should go on from. -/
def RoundsAs (operand : Bool → Scanner F → Reading F W (Spelled F W)) (ops goesOn : List TokenType)
    (meant : Tree F W → Prop) (text : Text) : Prop :=
  ∀ rest behind, Ahead m rest behind → behind.token.type ∉ goesOn →
    ∀ scan : Scanner F, scan.pWord = text ++ rest → scan.token.type ≠ .end_ →
      ∃ t used, used ≤ text.length ∧ meant t ∧ ∀ n, used ≤ n →
        readLevel operand ops n true scan = readRounds operand ops (n - used) t behind

def Understood (fuel : Nat) : Level → Ast → Text → Prop
  | .unary => Reads m fuel .unary
  | .product => ReadsOn m fuel .unary termOps
  | .sum => ReadsOn m fuel .product addSubtractOps
  | .item => Reads m fuel .item
  | .list => ReadsOn m fuel .item commaListOps

variable {m}

/-! Loops. -/

theorem level_stops {operand : Bool → Scanner F → Reading F W (Spelled F W)}
    {ops : List TokenType} {n : Nat} {scan behind : Scanner F} {t : Tree F W}
    (read : operand true scan = .ok (t, behind)) (last : behind.token.type ∉ ops) (room : 0 < n) :
    readLevel operand ops n true scan = .ok (t, behind) := by
  obtain ⟨n, rfl⟩ := Nat.exists_eq_succ_of_ne_zero (by omega : n ≠ 0)
  unfold readLevel
  rw [read]
  show readRounds operand ops (n + 1) t behind = _
  rw [readRounds, if_neg last]

section Loops

variable {operand : Bool → Scanner F → Reading F W (Spelled F W)} {ops goesOn : List TokenType}

theorem roundsAs_operand {meant : Tree F W → Prop} {text : Text}
    (reads : ReadsAs m (operand true) goesOn meant text) :
    RoundsAs m operand ops goesOn meant text := by
  intro rest behind ahead last scan start going
  obtain ⟨t, read, means⟩ := reads rest behind ahead last scan start going
  refine ⟨t, 0, Nat.zero_le _, means, fun n _ => ?_⟩
  unfold readLevel
  rw [read]
  rfl

theorem readsAs_of_rounds {meant : Tree F W → Prop} {text : Text} {fuel : Nat}
    (room : text.length < fuel) (rounds : RoundsAs m operand ops goesOn meant text) :
    ReadsAs m (readLevel operand ops fuel true) (goesOn ++ ops) meant text := by
  intro rest behind ahead last scan start going
  rw [List.mem_append, not_or] at last
  obtain ⟨t, used, short, means, goOn⟩ := rounds rest behind ahead last.1 scan start going
  refine ⟨t, ?_, means⟩
  rw [goOn fuel (by omega)]
  obtain ⟨left, remaining⟩ := Nat.exists_eq_succ_of_ne_zero (by omega : fuel - used ≠ 0)
  rw [remaining, readRounds, if_neg last.2]

/-- One more round: an operator and an operand. -/
theorem roundsAs_round {meantLeft meantRight meant : Tree F W → Prop} {first gap second : Text}
    (mark word : Text) (type : TokenType) (member : type ∈ ops) (apart : type ∉ goesOn)
    (token : ∀ rest, Ahead m (gap ++ (mark ++ (second ++ rest)))
      ⟨second ++ rest, mark ++ (second ++ rest), plainToken m.toLibrary type word⟩)
    (going_on : type ≠ .end_)
    (tree : ∀ s t : Tree F W, meantLeft s → meantRight t → meant (.binary type s t))
    (marked : 0 < mark.length) (left : RoundsAs m operand ops goesOn meantLeft first)
    (right : ReadsAs m (operand true) goesOn meantRight second) :
    RoundsAs m operand ops goesOn meant (first ++ (gap ++ (mark ++ second))) := by
  intro rest behind ahead last scan start going
  have start_left : scan.pWord = first ++ (gap ++ (mark ++ (second ++ rest))) := by
    rw [start]
    simp [List.append_assoc]
  obtain ⟨s, used, short, means_left, rounds⟩ := left _ _ (token rest) apart scan start_left going
  obtain ⟨t, read, means_right⟩ := right rest behind ahead last
    ⟨second ++ rest, mark ++ (second ++ rest), plainToken m.toLibrary type word⟩ rfl going_on
  refine ⟨.binary type s t, used + 1, ?_, tree s t means_left means_right, ?_⟩
  · simp only [List.length_append]
    omega
  · intro n enough
    rw [rounds n (by omega)]
    obtain ⟨remaining, count⟩ := Nat.exists_eq_succ_of_ne_zero (by omega : n - used ≠ 0)
    have goes_on : (plainToken m.toLibrary type word).type ∈ ops := member
    rw [count, readRounds, if_pos goes_on, read]
    have fewer : n - (used + 1) = remaining := by omega
    rw [fewer]
    rfl

end Loops

theorem readsOn_operand (fuel : Nat) (operand : Level) (ops : List TokenType) (e : Ast)
    (text : Text) (reads : Reads m fuel operand e text) : ReadsOn m fuel operand ops e text :=
  roundsAs_operand reads

theorem reads_of_on (fuel : Nat) (level operand : Level) (ops : List TokenType) (e : Ast)
    (text : Text) (same : reader m fuel level = readLevel (reader m fuel operand) ops fuel)
    (more : continues level = continues operand ++ ops) (room : text.length < fuel)
    (on : ReadsOn m fuel operand ops e text) : Reads m fuel level e text := by
  have reads := readsAs_of_rounds room on
  rw [← same, ← more] at reads
  exact reads

theorem readsOn_round (fuel : Nat) (operand : Level) (ops : List TokenType) (left right e : Ast)
    (first gap second : Text) (op : Char) (type : TokenType) (member : type ∈ ops)
    (apart : type ∉ continues operand)
    (token : ∀ rest, Ahead m (gap ++ op :: (second ++ rest))
      ⟨second ++ rest, op :: (second ++ rest), plainToken m.toLibrary type [op]⟩)
    (going_on : type ≠ .end_)
    (tree : ∀ s t : Tree F W, Denotes m.toLibrary s left → Denotes m.toLibrary t right →
      Denotes m.toLibrary (.binary type s t) e)
    (on : ReadsOn m fuel operand ops left first) (reads : Reads m fuel operand right second) :
    ReadsOn m fuel operand ops e (first ++ (gap ++ op :: second)) :=
  roundsAs_round [op] [op] type member apart token going_on tree Nat.one_pos on reads

/-! The token behind an expression. -/

theorem ahead_single (gap more : Text) (c : Char) (type : TokenType) (blank : Blank gap)
    (single : singleType c = some type) (alone : pairType c (peek more 0) = none) :
    Ahead m (gap ++ c :: more) ⟨more, c :: more, plainToken m.toLibrary type [c]⟩ := by
  obtain ⟨separated, dark, some_char, _⟩ := single_plain c type single
  have no_number : startsNumber true (c :: more) = false := by
    simp only [separates, Bool.and_eq_true, Bool.not_eq_true', decide_eq_true_eq] at separated
    simp [startsNumber, peek_head, digit_alphanum c separated.1.1, separated.2]
  constructor
  · cases gap with
    | nil => exact separated
    | cons b gap => exact blank_separates b (blank b List.mem_cons_self)
  · intro scan text _
    rw [getToken_at m.toLibrary true scan gap (c :: more) blank dark some_char text,
      tokenAt_single true c more type no_number alone single]
    rfl

theorem ahead_end (gap : Text) (blank : Blank gap) :
    Ahead m gap ⟨[], [], plainToken m.toLibrary .end_ "<end of expression>".toList⟩ := by
  constructor
  · cases gap with
    | nil => decide
    | cons b gap => exact blank_separates b (blank b List.mem_cons_self)
  · intro scan text going
    exact getToken_end m.toLibrary true scan (by rw [text]; exact blank) going

/-! One token of an operand. -/

theorem readPrimary_first (fuel : Nat) (scan first : Scanner F)
    (found : getToken m.toLibrary false scan = .ok first) :
    readPrimary m (fuel + 1) true scan = readToken m (readPrimary m fuel) fuel first := by
  unfold readPrimary
  rw [step, found]
  rfl

theorem readLiteral_ahead (v : ExprValue F) (scan : Scanner F) {rest : Text} {behind : Scanner F}
    (ahead : Ahead m rest behind) (text : scan.pWord = rest) (going : scan.token.type ≠ .end_) :
    readLiteral m v scan = .ok (.literal v, behind) := by
  unfold readLiteral
  rw [step, ahead.read scan text going]
  rfl

theorem readToken_name (fuel : Nat) (primary : Bool → Scanner F → Reading F W (Spelled F W))
    (word : Text) (scan : Scanner F) {rest : Text} {behind : Scanner F} (ahead : Ahead m rest behind)
    (text : scan.pWord = rest) (token : scan.token = plainToken m.toLibrary .name word)
    (no_call : behind.token.type ≠ .lhparen) :
    readToken m primary fuel scan =
      readSymbol (readExpression primary fuel true) word behind := by
  have going : scan.token.type ≠ .end_ := by
    rw [token]
    exact TokenType.noConfusion
  unfold readToken
  rw [token]
  show (step (getToken m.toLibrary true) scan >>= _) = _
  rw [step, ahead.read scan text going]
  show (if behind.token.type = .lhparen then _ else _) = _
  rw [if_neg no_call]
  rfl

variable (m) in
/-- Text that begins with a name. -/
theorem getToken_name (gap word rest : Text) (blank : Blank gap) (identifier : Identifier word)
    (separated : separates (peek rest 0) = true) (scan : Scanner F)
    (text : scan.pWord = gap ++ (word ++ rest)) :
    getToken m.toLibrary false scan =
      .ok ⟨rest, word ++ rest, plainToken m.toLibrary .name word⟩ := by
  have head : peek (word ++ rest) 0 = peek word 0 := by
    cases word with
    | nil => exact absurd identifier.first (by decide)
    | cons c more => rfl
  have dark : isspace (peek (word ++ rest) 0) = false := by
    rw [head]
    by_contra bright
    have apart := blank_separates _ (Bool.not_eq_false _ ▸ bright)
    simp [separates, Char.isAlphanum, identifier.first] at apart
  have some_char : peek (word ++ rest) 0 ≠ nul := by
    rw [head]
    intro same
    exact absurd (same ▸ identifier.first) (by decide)
  rw [getToken_at m.toLibrary false scan gap _ blank dark some_char text,
    tokenAt_name false word rest identifier separated]
  rfl

variable (m) in
/-- Text that begins with a mark of one character. -/
theorem getToken_mark (gap more : Text) (c : Char) (type : TokenType) (blank : Blank gap)
    (single : singleType c = some type) (alone : pairType c (peek more 0) = none)
    (no_number : startsNumber false (c :: more) = false) (scan : Scanner F)
    (text : scan.pWord = gap ++ c :: more) :
    getToken m.toLibrary false scan = .ok ⟨more, c :: more, plainToken m.toLibrary type [c]⟩ := by
  obtain ⟨_, dark, some_char, _⟩ := single_plain c type single
  rw [getToken_at m.toLibrary false scan gap (c :: more) blank dark some_char text,
    tokenAt_single false c more type no_number alone single]
  rfl

/-! Levels. -/

theorem reads_of_understood (fuel : Nat) (level : Level) (e : Ast) (text : Text)
    (room : text.length < fuel) (understood : Understood m fuel level e text) :
    Reads m fuel level e text := by
  cases level with
  | list => exact reads_of_on fuel .list .item commaListOps e text rfl rfl room understood
  | item => exact understood
  | sum => exact reads_of_on fuel .sum .product addSubtractOps e text rfl rfl room understood
  | product => exact reads_of_on fuel .product .unary termOps e text rfl rfl room understood
  | unary => exact understood

/-- An item without an operator of its own. -/
theorem item_stops (fuel : Nat) (room : 0 < fuel) {scan behind : Scanner F} {t : Tree F W}
    (read : readAddSubtract (readPrimary m fuel) fuel true scan = .ok (t, behind))
    (last : behind.token.type ∉ continues .item) :
    reader m fuel .item true scan = .ok (t, behind) := by
  have parts : behind.token.type ∉ comparisonOps ∧ behind.token.type ∉ expressionOps := by
    simp only [continues, List.mem_append, not_or] at last
    exact ⟨last.1.2, last.2⟩
  exact level_stops (level_stops read parts.1 room) parts.2 room

theorem reads_number (scans : ScansDecimal m.toLibrary) (fuel : Nat) (gap digits : Text) (n : Nat)
    (blank : Blank gap) (numeral : Numeral digits n) (room : 0 < fuel) :
    Reads m fuel .unary (.number n) (gap ++ digits) := by
  obtain ⟨fuel, rfl⟩ := Nat.exists_eq_succ_of_ne_zero (by omega : fuel ≠ 0)
  intro rest behind ahead last scan start going
  have first : (peek (digits ++ rest) 0).isDigit = true := by
    cases digits with
    | nil => exact absurd rfl numeral.nonempty
    | cons c more => exact numeral.digit c List.mem_cons_self
  have dark : isspace (peek (digits ++ rest) 0) = false := by
    by_contra bright
    have apart := blank_separates _ (Bool.not_eq_false _ ▸ bright)
    simp [separates, Char.isAlphanum, first] at apart
  have some_char : peek (digits ++ rest) 0 ≠ nul := by
    intro same
    exact absurd (same ▸ first) (by decide)
  rw [List.append_assoc] at start
  have found := getToken_at m.toLibrary false scan gap _ blank dark some_char start
  rw [tokenAt_number scans false digits rest n numeral ahead.separated] at found
  refine ⟨.literal (.ofInt m.toLibrary (Int64.ofNat n)), ?_, .number n numeral.small⟩
  show readPrimary m (fuel + 1) true scan = _
  rw [readPrimary_first fuel scan _ found]
  exact readLiteral_ahead _ _ ahead rfl TokenType.noConfusion

theorem reads_name (fuel : Nat) (gap word : Text) (blank : Blank gap) (identifier : Identifier word)
    (room : 0 < fuel) : Reads m fuel .unary (.name word) (gap ++ word) := by
  obtain ⟨fuel, rfl⟩ := Nat.exists_eq_succ_of_ne_zero (by omega : fuel ≠ 0)
  intro rest behind ahead last scan start going
  rw [List.append_assoc] at start
  have found := getToken_name m gap word rest blank identifier ahead.separated scan start
  simp only [continues, List.mem_cons, not_or] at last
  refine ⟨.symbol word, ?_, .name word⟩
  show readPrimary m (fuel + 1) true scan = _
  rw [readPrimary_first fuel scan _ found]
  show readToken m _ fuel _ = _
  rw [readToken_name fuel _ word _ ahead rfl rfl last.1, readSymbol, if_neg last.2]

theorem reads_signed (scans : ScansDecimal m.toLibrary) (fuel : Nat) (gap digits : Text) (n : Nat)
    (blank : Blank gap) (numeral : Numeral digits n) (room : 0 < fuel) :
    Reads m fuel .unary (.negated (.number n)) (gap ++ '-' :: digits) := by
  obtain ⟨fuel, rfl⟩ := Nat.exists_eq_succ_of_ne_zero (by omega : fuel ≠ 0)
  intro rest behind ahead last scan start going
  rw [List.append_assoc] at start
  have found := getToken_at m.toLibrary false scan gap ('-' :: (digits ++ rest)) blank
    (show isspace '-' = false by decide) (show '-' ≠ nul by decide) start
  rw [tokenAt_signed scans digits rest n numeral ahead.separated] at found
  refine ⟨.literal (.ofInt m.toLibrary (-Int64.ofNat n)), ?_, .signed n numeral.small⟩
  show readPrimary m (fuel + 1) true scan = _
  rw [readPrimary_first fuel scan _ found]
  exact readLiteral_ahead _ _ ahead rfl TokenType.noConfusion

/-- A sign that is not part of a literal. -/
theorem reads_minus (fuel : Nat) (gap text : Text) (operand : Ast) (blank : Blank gap)
    (opens : ∃ c more, text = c :: more ∧ opensPlain c = true)
    (reads : Reads m fuel .unary operand text) :
    Reads m (fuel + 1) .unary (.negated operand) (gap ++ '-' :: text) := by
  intro rest behind ahead last scan start going
  rw [List.append_assoc] at start
  obtain ⟨c, more, rfl, plain⟩ := opens
  simp only [opensPlain, Bool.and_eq_true, Bool.not_eq_true', decide_eq_true_eq] at plain
  have found := getToken_mark m gap ((c :: more) ++ rest) '-' .minus blank rfl
    (no_pair '-' c .minus rfl plain.1.1)
    (by simp [startsNumber, peek, plain.1.2, plain.2]) scan start
  obtain ⟨t, read, denotes⟩ := reads rest behind ahead last ⟨(c :: more) ++ rest,
    '-' :: ((c :: more) ++ rest), plainToken m.toLibrary .minus ['-']⟩ rfl TokenType.noConfusion
  refine ⟨.negated t, ?_, .negated t operand denotes⟩
  show readPrimary m (fuel + 1) true scan = _
  rw [readPrimary_first fuel scan _ found]
  show (readPrimary m fuel true _ >>= _) = _
  have deeper : readPrimary m fuel true _ = .ok (t, behind) := read
  rw [deeper]
  rfl

/-- What stands in parentheses is read as a list. -/
theorem readsAs_parens {meant : Tree F W → Prop} (fuel : Nat) (gap text tail : Text)
    (blank : Blank gap) (blank_tail : Blank tail) (opens : ∀ rest, peek (text ++ rest) 0 ≠ '=')
    (reads : ReadsAs m (readCommaList (readPrimary m fuel) fuel true) (continues .list) meant text) :
    ReadsAs m (readPrimary m (fuel + 1) true) (continues .unary) meant
      (gap ++ '(' :: (text ++ (tail ++ [')']))) := by
  intro rest behind ahead last scan start going
  have start' : scan.pWord = gap ++ '(' :: (text ++ (tail ++ ')' :: rest)) := by
    rw [start]
    simp [List.append_assoc]
  have found := getToken_mark m gap (text ++ (tail ++ ')' :: rest)) '(' .lhparen blank rfl
    (no_pair '(' _ .lhparen rfl (opens _)) (by simp [startsNumber, peek_head, isSign]) scan start'
  obtain ⟨t, inside, means⟩ := reads (tail ++ ')' :: rest) _
    (ahead_single tail rest ')' .rhparen blank_tail rfl (no_pair_mark _ _ (Or.inl rfl)))
    (show TokenType.rhparen ∉ continues .list by decide)
    ⟨text ++ (tail ++ ')' :: rest), '(' :: (text ++ (tail ++ ')' :: rest)),
      plainToken m.toLibrary .lhparen ['(']⟩ rfl TokenType.noConfusion
  have closed : closing m ⟨rest, ')' :: rest, plainToken m.toLibrary .rhparen [')']⟩ = .ok behind :=
    ahead.read ⟨rest, ')' :: rest, plainToken m.toLibrary .rhparen [')']⟩ rfl TokenType.noConfusion
  refine ⟨t, ?_, means⟩
  rw [readPrimary_first fuel scan _ found]
  show (readCommaList (readPrimary m fuel) fuel true _ >>= _) = _
  rw [inside]
  show (after t (step (closing m) _) >>= _) = _
  rw [step, closed]
  rfl

theorem reads_parens (fuel : Nat) (gap text tail : Text) (e : Ast) (blank : Blank gap)
    (blank_tail : Blank tail) (opens : ∀ rest, peek (text ++ rest) 0 ≠ '=')
    (reads : Reads m fuel .list e text) :
    Reads m (fuel + 1) .unary e (gap ++ '(' :: (text ++ (tail ++ [')']))) :=
  readsAs_parens fuel gap text tail blank blank_tail opens reads

theorem reads_assign (fuel : Nat) (gap word before text : Text) (rhs : Ast) (blank : Blank gap)
    (identifier : Identifier word) (blank_before : Blank before)
    (opens : ∀ rest, peek (text ++ rest) 0 ≠ '=') (reads : Reads m fuel .item rhs text) :
    Reads m (fuel + 1) .item (.assign word rhs) (gap ++ (word ++ (before ++ '=' :: text))) := by
  intro rest behind ahead last scan start going
  have start' : scan.pWord = gap ++ (word ++ (before ++ '=' :: (text ++ rest))) := by
    rw [start]
    simp [List.append_assoc]
  have equals : Ahead m (before ++ '=' :: (text ++ rest))
      ⟨text ++ rest, '=' :: (text ++ rest), plainToken m.toLibrary .assign ['=']⟩ :=
    ahead_single before (text ++ rest) '=' .assign blank_before rfl
      (no_pair '=' _ .assign rfl (opens rest))
  have found := getToken_name m gap word _ blank identifier equals.separated scan start'
  obtain ⟨t, read, denotes⟩ := reads rest behind ahead last ⟨text ++ rest, '=' :: (text ++ rest),
    plainToken m.toLibrary .assign ['=']⟩ rfl TokenType.noConfusion
  have primary : readPrimary m (fuel + 1) true scan = .ok (.assign .assign word t, behind) := by
    rw [readPrimary_first fuel scan _ found, readToken_name fuel _ word _ equals rfl rfl
      TokenType.noConfusion, readSymbol]
    have assigns : (plainToken m.toLibrary .assign ['=']).type ∈ assignments := by
      show TokenType.assign ∈ assignments
      decide
    rw [if_pos assigns]
    have deeper : readExpression (readPrimary m fuel) fuel true _ = .ok (t, behind) := read
    rw [deeper]
    rfl
  refine ⟨.assign .assign word t, ?_, .assign word t rhs denotes⟩
  have parts : behind.token.type ∉ termOps ∧ behind.token.type ∉ addSubtractOps := by
    simp only [continues, List.mem_append, not_or] at last
    exact ⟨last.1.1.1.2, last.1.1.2⟩
  exact item_stops (fuel + 1) (Nat.succ_pos _)
    (level_stops (level_stops primary parts.1 (Nat.succ_pos _)) parts.2 (Nat.succ_pos _)) last

/-- Every text of an expression is read as the expression. -/
theorem understood (scans : ScansDecimal m.toLibrary) {level : Level} {e : Ast} {text : Text}
    (written : Written level e text) (fuel : Nat) (room : text.length < fuel) :
    Understood m fuel level e text := by
  -- on how the text is written: each rule takes one turn of the fuel for the level below
  induction written generalizing fuel with
  | number gap digits n blank numeral =>
      exact reads_number scans fuel gap digits n blank numeral (by omega)
  | name gap word blank identifier => exact reads_name fuel gap word blank identifier (by omega)
  | negated gap text operand blank written ih =>
      simp only [List.length_append, List.length_cons] at room
      rcases unary_opens written with ⟨n, rfl, numeral⟩ | opens
      · exact reads_signed scans fuel gap text n blank numeral (by omega)
      · obtain ⟨fuel, rfl⟩ := Nat.exists_eq_succ_of_ne_zero (by omega : fuel ≠ 0)
        exact reads_minus fuel gap text operand blank opens (ih fuel (by omega))
  | parens gap text tail e blank written blank_tail ih =>
      simp only [List.length_append, List.length_cons, List.length_nil] at room
      obtain ⟨fuel, rfl⟩ := Nat.exists_eq_succ_of_ne_zero (by omega : fuel ≠ 0)
      exact reads_parens fuel gap text tail e blank blank_tail (written_opens written)
        (reads_of_understood fuel .list e text (by omega) (ih fuel (by omega)))
  | unary e text _ ih => exact readsOn_operand fuel .unary termOps e text (ih fuel room)
  | times left right first gap second _ blank written ihLeft ihRight =>
      simp only [List.length_append, List.length_cons] at room
      exact readsOn_round fuel .unary termOps left right _ first gap second '*' .multiply (by decide)
        (by decide) (fun rest => ahead_single gap _ '*' .multiply blank rfl
          (no_pair '*' _ .multiply rfl (written_opens written rest)))
        TokenType.noConfusion (.binary .times · · left right) (ihLeft fuel (by omega))
        (ihRight fuel (by omega))
  | product e text _ ih =>
      exact readsOn_operand fuel .product addSubtractOps e text
        (reads_of_understood fuel .product e text room (ih fuel room))
  | plus left right first gap second _ blank written ihLeft ihRight =>
      simp only [List.length_append, List.length_cons] at room
      exact readsOn_round fuel .product addSubtractOps left right _ first gap second '+' .plus
        (by decide) (by decide) (fun rest => ahead_single gap _ '+' .plus blank rfl
          (no_pair '+' _ .plus rfl (written_opens written rest)))
        TokenType.noConfusion (.binary .plus · · left right) (ihLeft fuel (by omega))
        (reads_of_understood fuel .product right second (by omega) (ihRight fuel (by omega)))
  | minus left right first gap second _ blank written ihLeft ihRight =>
      simp only [List.length_append, List.length_cons] at room
      exact readsOn_round fuel .product addSubtractOps left right _ first gap second '-' .minus
        (by decide) (by decide) (fun rest => ahead_single gap _ '-' .minus blank rfl
          (no_pair '-' _ .minus rfl (written_opens written rest)))
        TokenType.noConfusion (.binary .minus · · left right) (ihLeft fuel (by omega))
        (reads_of_understood fuel .product right second (by omega) (ihRight fuel (by omega)))
  | sum e text _ ih =>
      intro rest behind ahead last scan start going
      have apart : behind.token.type ∉ continues .sum := by
        simp only [continues, List.mem_append, not_or] at last ⊢
        exact last.1.1
      obtain ⟨t, read, denotes⟩ := reads_of_understood fuel .sum e text room (ih fuel room)
        rest behind ahead apart scan start going
      exact ⟨t, item_stops fuel (by omega) read last, denotes⟩
  | assign gap word before text rhs blank identifier blank_before written ih =>
      simp only [List.length_append, List.length_cons] at room
      obtain ⟨fuel, rfl⟩ := Nat.exists_eq_succ_of_ne_zero (by omega : fuel ≠ 0)
      exact reads_assign fuel gap word before text rhs blank identifier blank_before
        (written_opens written) (ih fuel (by omega))
  | item e text _ ih => exact readsOn_operand fuel .item commaListOps e text (ih fuel room)
  | comma left right first gap second _ blank written ihLeft ihRight =>
      simp only [List.length_append, List.length_cons] at room
      exact readsOn_round fuel .item commaListOps left right _ first gap second ',' .comma
        (by decide) (by decide) (fun rest => ahead_single gap _ ',' .comma blank rfl
          (no_pair_mark ',' _ (Or.inr (Or.inr rfl))))
        TokenType.noConfusion (.comma · · left right) (ihLeft fuel (by omega))
        (ihRight fuel (by omega))

/-- The tree of a program that is an expression and blanks behind it. -/
theorem readProgram_written (scans : ScansDecimal m.toLibrary) {e : Ast} {text tail : Text}
    (written : Written .list e text) (blank : Blank tail) (fuel : Nat) (room : text.length < fuel) :
    Denotes m.toLibrary (readProgram m fuel (text ++ tail)) e := by
  obtain ⟨t, read, denotes⟩ := reads_of_understood fuel .list e text room
    (understood scans written fuel room) tail _ (ahead_end tail blank)
    (show TokenType.end_ ∉ continues .list by decide) (fresh m (text ++ tail)) rfl
    TokenType.noConfusion
  have list : readCommaList (readPrimary m fuel) fuel true (fresh m (text ++ tail)) = .ok (t, _) :=
    read
  rw [readProgram, list]
  exact denotes

end Reading

end EChainLib.Expr
