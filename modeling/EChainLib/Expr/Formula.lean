import Mathlib
import EChainLib.Expr.Arithmetic

/-! Conditions: comparisons joined by `&&` and `||`. What they are worth, the texts they are
written as, and the trees that are read from such a text. -/

namespace EChainLib.Expr

variable {F W : Type}

inductive Relation where
  | lt | gt | le | ge | eq | ne

inductive Junction where
  | and | or

/-- An operand may be a condition, or an expression over integers. -/
inductive Formula where
  | integer (e : Ast)
  | compare (op : Relation) (left right : Formula)
  | join (op : Junction) (left right : Formula)
  | inverted (operand : Formula)
  | ifThen (condition yes no : Formula)

def Relation.holds : Relation → Int → Int → Bool
  | .lt, x, y => x < y
  | .gt, x, y => y < x
  | .le, x, y => x ≤ y
  | .ge, x, y => y ≤ x
  | .eq, x, y => x = y
  | .ne, x, y => x ≠ y

def Junction.holds : Junction → Bool → Bool → Bool
  | .and, x, y => x && y
  | .or, x, y => x || y

/-- The left operand alone decides. -/
def Junction.Decided : Junction → Bool → Prop
  | .and, x => x = false
  | .or, x => x = true

instance (op : Junction) (x : Bool) : Decidable (op.Decided x) :=
  match op with
  | .and => inferInstanceAs (Decidable (x = false))
  | .or => inferInstanceAs (Decidable (x = true))

def bit (b : Bool) : Int := if b then 1 else 0

/-- A true condition is worth 1, a false one 0. Integers assign to nothing; `none` where one
of them leaves the range. -/
def Formula.value (names : Integers) : Formula → Option Int
  | .integer e => if e.targets = [] then (e.value names).map Prod.fst else none
  | .compare op left right => do
      let x ← left.value names
      let y ← right.value names
      return bit (op.holds x y)
  | .join op left right => do
      let x ← left.value names
      let y ← right.value names
      return bit (op.holds (x ≠ 0) (y ≠ 0))
  | .inverted operand => do
      let x ← operand.value names
      return bit (x = 0)
  | .ifThen condition yes no => do
      let c ← condition.value names
      let x ← yes.value names
      let y ← no.value names
      return if c ≠ 0 then x else y

def Formula.truth (names : Integers) (f : Formula) : Bool := f.value names ≠ some 0

/-- The condition comes out of `&&` or `||`. -/
def Formula.joined (names : Integers) : Formula → Bool
  | .integer _ => false
  | .compare _ _ _ => false
  | .join _ _ _ => true
  | .inverted _ => false
  | .ifThen condition yes no =>
      if condition.truth names then yes.joined names else no.joined names

/-- Nothing that comes out of `&&` or `||` is compared, inverted, the condition of an `if`,
the left operand of `&&` or `||`, or the right one where the left one does not decide. -/
def Formula.Clean (names : Integers) : Formula → Prop
  | .integer _ => True
  | .compare _ left right => left.Clean names ∧ right.Clean names ∧
      left.joined names = false ∧ right.joined names = false
  | .join op left right => left.Clean names ∧ right.Clean names ∧ left.joined names = false ∧
      (right.joined names = true → op.Decided (left.truth names))
  | .inverted operand => operand.Clean names ∧ operand.joined names = false
  | .ifThen condition yes no => condition.Clean names ∧ yes.Clean names ∧ no.Clean names ∧
      condition.joined names = false

/-! Texts. -/

def Relation.mark : Relation → Text
  | .lt => ['<']
  | .gt => ['>']
  | .le => ['<', '=']
  | .ge => ['>', '=']
  | .eq => ['=', '=']
  | .ne => ['!', '=']

def Junction.mark : Junction → Text
  | .and => ['&', '&']
  | .or => ['|', '|']

inductive Rank where
  | unary
  | operand
  | relation
  | junction

/-- The texts of a condition where this rank is expected, blanks before each token. -/
inductive Worded : Rank → Formula → Text → Prop
  | primary (e : Ast) (text : Text) : Written .unary e text → Worded .unary (.integer e) text
  | inverted (gap text : Text) (operand : Formula) : Blank gap → Worded .unary operand text →
      Worded .unary (.inverted operand) (gap ++ '!' :: text)
  | parens (gap text closing : Text) (f : Formula) : Blank gap → Worded .junction f text →
      Blank closing → Worded .unary f (gap ++ '(' :: (text ++ (closing ++ [')'])))
  | ifThen (gap before first comma second comma' third closing : Text)
      (condition yes no : Formula) : Blank gap → Blank before → Worded .junction condition first →
      Blank comma → Worded .junction yes second → Blank comma' → Worded .junction no third →
      Blank closing → Worded .unary (.ifThen condition yes no)
        (gap ++ (['i', 'f'] ++ (before ++ '(' :: (first ++ (comma ++ ',' :: (second ++
          (comma' ++ ',' :: (third ++ (closing ++ [')'])))))))))
  | sum (e : Ast) (text : Text) : Written .sum e text → Worded .operand (.integer e) text
  | unary (f : Formula) (text : Text) : Worded .unary f text → Worded .operand f text
  | operand (f : Formula) (text : Text) : Worded .operand f text → Worded .relation f text
  | compare (op : Relation) (left right : Formula) (first gap second : Text) :
      Worded .relation left first → Blank gap → Worded .operand right second →
        Worded .relation (.compare op left right) (first ++ (gap ++ (op.mark ++ second)))
  | relation (f : Formula) (text : Text) : Worded .relation f text → Worded .junction f text
  | join (op : Junction) (left right : Formula) (first gap second : Text) :
      Worded .junction left first → Blank gap → Worded .relation right second →
        Worded .junction (.join op left right) (first ++ (gap ++ (op.mark ++ second)))

theorem worded_opens {rank : Rank} {f : Formula} {text : Text} (worded : Worded rank f text)
    (rest : Text) : peek (text ++ rest) 0 ≠ '=' := by
  have opened : ∀ (gap : Text) (c : Char) (more : Text), Blank gap → c ≠ '=' →
      peek (gap ++ c :: more) 0 ≠ '=' := by
    intro gap c more blank apart
    cases gap with
    | nil => exact apart
    | cons b gap =>
        rintro rfl
        exact absurd (blank '=' List.mem_cons_self) (by decide)
  induction worded generalizing rest with
  | primary e text written => exact written_opens written rest
  | inverted gap text operand blank _ _ =>
      rw [List.append_assoc]
      exact opened gap '!' _ blank (by decide)
  | parens gap text closing f blank _ _ _ =>
      rw [List.append_assoc]
      exact opened gap '(' _ blank (by decide)
  | ifThen gap before first comma second comma' third closing condition yes no blank =>
      rw [List.append_assoc]
      exact opened gap 'i' _ blank (by decide)
  | sum e text written => exact written_opens written rest
  | unary f text _ ih => exact ih rest
  | operand f text _ ih => exact ih rest
  | compare op left right first gap second _ _ _ ih _ =>
      rw [List.append_assoc]
      exact ih _
  | relation f text _ ih => exact ih rest
  | join op left right first gap second _ _ _ ih _ =>
      rw [List.append_assoc]
      exact ih _

/-! Trees. -/

def Relation.token : Relation → TokenType
  | .lt => .lt
  | .gt => .gt
  | .le => .le
  | .ge => .ge
  | .eq => .eq
  | .ne => .ne

def Junction.token : Junction → TokenType
  | .and => .and
  | .or => .or

/-- The trees of a condition. -/
inductive Means (m : Machine F W) : Tree F W → Formula → Prop
  | integer (t : Tree F W) (e : Ast) : Denotes m.toLibrary t e → Means m t (.integer e)
  | compare (op : Relation) (s t : Tree F W) (left right : Formula) : Means m s left →
      Means m t right → Means m (.binary op.token s t) (.compare op left right)
  | join (op : Junction) (s t : Tree F W) (left right : Formula) : Means m s left →
      Means m t right → Means m (.binary op.token s t) (.join op left right)
  | inverted (t : Tree F W) (operand : Formula) : Means m t operand →
      Means m (.inverted t) (.inverted operand)
  | ifThen (s t u : Tree F W) (condition yes no : Formula) : Means m s condition →
      Means m t yes → Means m u no →
        Means m (.three (doIf m) s t u) (.ifThen condition yes no)

section Reading

variable {m : Machine F W}

/-- No registered function hides `if`. -/
structure IfVisible (m : Machine F W) : Prop where
  one : m.oneCommon "if".toList = false
  two : m.twoCommon "if".toList = false

theorem callee_if (visible : IfVisible m) : callee m "if".toList = .three (doIf m) := by
  have no_one : (oneArgumentFunctions m).lookup "if".toList = none := rfl
  have no_two : (twoArgumentFunctions m).lookup "if".toList = none := rfl
  have three : (threeArgumentFunctions m).lookup "if".toList = some (doIf m) := rfl
  simp only [callee, no_one, no_two, three, visible.one, visible.two, Bool.false_eq_true, if_false]

/-- What a reader of this rank has to do with the text of a condition. -/
def Grasped (m : Machine F W) (fuel : Nat) : Rank → Formula → Text → Prop
  | .unary, f, text => ReadsAs m (readPrimary m fuel true) (continues .unary) (Means m · f) text
  | .operand, f, text =>
      ReadsAs m (readAddSubtract (readPrimary m fuel) fuel true) (continues .sum) (Means m · f) text
  | .relation, f, text =>
      RoundsAs m (readAddSubtract (readPrimary m fuel) fuel) comparisonOps (continues .sum)
        (Means m · f) text
  | .junction, f, text =>
      RoundsAs m (readComparison (readPrimary m fuel) fuel) expressionOps
        (continues .sum ++ comparisonOps) (Means m · f) text

theorem readsAs_mono {read : Scanner F → Reading F W (Spelled F W)} {goesOn : List TokenType}
    {meant weaker : Tree F W → Prop} {text : Text} (reads : ReadsAs m read goesOn meant text)
    (follows : ∀ t, meant t → weaker t) : ReadsAs m read goesOn weaker text := by
  intro rest behind ahead last scan start going
  obtain ⟨t, read, means⟩ := reads rest behind ahead last scan start going
  exact ⟨t, read, follows t means⟩

/-- The token of an operator of two characters. -/
theorem ahead_pair (gap more : Text) (c d : Char) (type : TokenType) (blank : Blank gap)
    (pair : pairType c d = some type) (separated : separates c = true)
    (dark : isspace c = false) (some_char : c ≠ nul) :
    Ahead m (gap ++ ([c, d] ++ more)) ⟨more, [c, d] ++ more, plainToken m.toLibrary type [c, d]⟩ := by
  have no_number : startsNumber true ([c, d] ++ more) = false := by
    simp only [separates, Bool.and_eq_true, Bool.not_eq_true', decide_eq_true_eq] at separated
    simp [startsNumber, peek, digit_alphanum c separated.1.1, separated.2]
  constructor
  · cases gap with
    | nil => exact separated
    | cons b gap => exact blank_separates b (blank b List.mem_cons_self)
  · intro scan text _
    have token : tokenAt m.toLibrary true ([c, d] ++ more) =
        .ok (plainToken m.toLibrary type [c, d], more) := by
      have found : pairType (peek ([c, d] ++ more) 0) (peek ([c, d] ++ more) 1) = some type := pair
      rw [tokenAt, if_neg (Bool.eq_false_iff.mp no_number), found]
      rfl
    rw [getToken_at m.toLibrary true scan gap ([c, d] ++ more) blank dark some_char text, token]
    rfl

theorem ahead_relation (op : Relation) (gap more : Text) (blank : Blank gap)
    (opens : peek more 0 ≠ '=') :
    Ahead m (gap ++ (op.mark ++ more))
      ⟨more, op.mark ++ more, plainToken m.toLibrary op.token op.mark⟩ := by
  cases op with
  | lt => exact ahead_single gap more '<' .lt blank rfl (no_pair '<' _ .lt rfl opens)
  | gt => exact ahead_single gap more '>' .gt blank rfl (no_pair '>' _ .gt rfl opens)
  | le => exact ahead_pair gap more '<' '=' .le blank rfl (by decide) (by decide) (by decide)
  | ge => exact ahead_pair gap more '>' '=' .ge blank rfl (by decide) (by decide) (by decide)
  | eq => exact ahead_pair gap more '=' '=' .eq blank rfl (by decide) (by decide) (by decide)
  | ne => exact ahead_pair gap more '!' '=' .ne blank rfl (by decide) (by decide) (by decide)

theorem ahead_junction (op : Junction) (gap more : Text) (blank : Blank gap) :
    Ahead m (gap ++ (op.mark ++ more))
      ⟨more, op.mark ++ more, plainToken m.toLibrary op.token op.mark⟩ := by
  cases op with
  | and => exact ahead_pair gap more '&' '&' .and blank rfl (by decide) (by decide) (by decide)
  | or => exact ahead_pair gap more '|' '|' .or blank rfl (by decide) (by decide) (by decide)

/-! Ranks. -/

theorem operand_of_unary {fuel : Nat} {f : Formula} {text : Text} (room : text.length < fuel)
    (unary : Grasped m fuel .unary f text) : Grasped m fuel .operand f text :=
  readsAs_of_rounds room (roundsAs_operand (readsAs_of_rounds room (roundsAs_operand unary)))

theorem readsAs_relation {fuel : Nat} {f : Formula} {text : Text} (room : text.length < fuel)
    (relation : Grasped m fuel .relation f text) :
    ReadsAs m (readComparison (readPrimary m fuel) fuel true) (continues .sum ++ comparisonOps)
      (Means m · f) text :=
  readsAs_of_rounds room relation

theorem readsAs_junction {fuel : Nat} {f : Formula} {text : Text} (room : text.length < fuel)
    (junction : Grasped m fuel .junction f text) :
    ReadsAs m (readExpression (readPrimary m fuel) fuel true) (continues .item) (Means m · f) text :=
  readsAs_of_rounds room junction

theorem readsAs_list {fuel : Nat} {f : Formula} {text : Text} (room : text.length < fuel)
    (junction : Grasped m fuel .junction f text) :
    ReadsAs m (readCommaList (readPrimary m fuel) fuel true) (continues .list) (Means m · f) text :=
  readsAs_of_rounds room (roundsAs_operand (readsAs_junction room junction))

theorem readsAs_inverted (fuel : Nat) (gap text : Text) (operand : Formula) (blank : Blank gap)
    (opens : ∀ rest, peek (text ++ rest) 0 ≠ '=') (reads : Grasped m fuel .unary operand text) :
    Grasped m (fuel + 1) .unary (.inverted operand) (gap ++ '!' :: text) := by
  intro rest behind ahead last scan start going
  rw [List.append_assoc] at start
  have found := getToken_mark m gap (text ++ rest) '!' .not blank rfl
    (no_pair '!' _ .not rfl (opens rest)) (by simp [startsNumber, peek_head, isSign]) scan start
  obtain ⟨t, read, means⟩ := reads rest behind ahead last
    ⟨text ++ rest, '!' :: (text ++ rest), plainToken m.toLibrary .not ['!']⟩ rfl
    TokenType.noConfusion
  refine ⟨.inverted t, ?_, .inverted t operand means⟩
  rw [readPrimary_first fuel scan _ found]
  show (readPrimary m fuel true _ >>= _) = _
  rw [read]
  rfl

/-- An argument of a call, and the mark behind it. -/
theorem argument_read {fuel : Nat} {f : Formula} {text : Text} (c : Char) (type : TokenType)
    (mark : c = ')' ∧ type = .rhparen ∨ c = ',' ∧ type = .comma)
    (reads : ReadsAs m (readExpression (readPrimary m fuel) fuel true) (continues .item)
      (Means m · f) text) (gap more : Text) (blank : Blank gap) (scan : Scanner F)
    (start : scan.pWord = text ++ (gap ++ c :: more)) (going : scan.token.type ≠ .end_) :
    ∃ t, readExpression (readPrimary m fuel) fuel true scan =
        .ok (t, ⟨more, c :: more, plainToken m.toLibrary type [c]⟩) ∧ Means m t f := by
  rcases mark with ⟨rfl, rfl⟩ | ⟨rfl, rfl⟩
  · exact reads _ _ (ahead_single gap more ')' .rhparen blank rfl (no_pair_mark _ _ (Or.inl rfl)))
      (show TokenType.rhparen ∉ continues .item by decide) scan start going
  · exact reads _ _
      (ahead_single gap more ',' .comma blank rfl (no_pair_mark _ _ (Or.inr (Or.inr rfl))))
      (show TokenType.comma ∉ continues .item by decide) scan start going

theorem wanted_comma (more start word : Text) :
    wanted .comma ⟨more, start, plainToken m.toLibrary .comma word⟩ =
      .ok ⟨more, start, plainToken m.toLibrary .comma word⟩ := rfl

theorem readsAs_if (visible : IfVisible m) (fuel : Nat)
    (gap before first comma second comma' third closing : Text) (condition yes no : Formula)
    (blank : Blank gap) (blank_before : Blank before) (blank_comma : Blank comma)
    (blank_comma' : Blank comma') (blank_closing : Blank closing)
    (reads_condition : ReadsAs m (readExpression (readPrimary m fuel) fuel true) (continues .item)
      (Means m · condition) first)
    (reads_yes : ReadsAs m (readExpression (readPrimary m fuel) fuel true) (continues .item)
      (Means m · yes) second)
    (reads_no : ReadsAs m (readExpression (readPrimary m fuel) fuel true) (continues .item)
      (Means m · no) third) :
    Grasped m (fuel + 1) .unary (.ifThen condition yes no)
      (gap ++ (['i', 'f'] ++ (before ++ '(' :: (first ++ (comma ++ ',' :: (second ++
        (comma' ++ ',' :: (third ++ (closing ++ [')']))))))))) := by
  intro rest behind ahead last scan start going
  -- what stands behind the opening mark and behind the two commas
  obtain ⟨p3, third_text⟩ : ∃ p3, p3 = third ++ (closing ++ ')' :: rest) := ⟨_, rfl⟩
  obtain ⟨p2, second_text⟩ : ∃ p2, p2 = second ++ (comma' ++ ',' :: p3) := ⟨_, rfl⟩
  obtain ⟨p1, first_text⟩ : ∃ p1, p1 = first ++ (comma ++ ',' :: p2) := ⟨_, rfl⟩
  have start' : scan.pWord = gap ++ (['i', 'f'] ++ (before ++ '(' :: p1)) := by
    rw [start, first_text, second_text, third_text]
    simp [List.append_assoc]
  have opening : Ahead m (before ++ '(' :: p1)
      ⟨p1, '(' :: p1, plainToken m.toLibrary .lhparen ['(']⟩ :=
    ahead_single before p1 '(' .lhparen blank_before rfl (no_pair_mark _ _ (Or.inr (Or.inl rfl)))
  have identifier : Identifier ['i', 'f'] := by decide
  have found := getToken_name m gap ['i', 'f'] _ blank identifier opening.separated scan start'
  obtain ⟨s, read_condition, means_condition⟩ := argument_read ',' .comma (Or.inr ⟨rfl, rfl⟩)
    reads_condition comma p2 blank_comma ⟨p1, '(' :: p1, plainToken m.toLibrary .lhparen ['(']⟩
    first_text TokenType.noConfusion
  obtain ⟨t, read_yes, means_yes⟩ := argument_read ',' .comma (Or.inr ⟨rfl, rfl⟩)
    reads_yes comma' p3 blank_comma' ⟨p2, ',' :: p2, plainToken m.toLibrary .comma [',']⟩
    second_text TokenType.noConfusion
  obtain ⟨u, read_no, means_no⟩ := argument_read ')' .rhparen (Or.inl ⟨rfl, rfl⟩)
    reads_no closing rest blank_closing ⟨p3, ',' :: p3, plainToken m.toLibrary .comma [',']⟩
    third_text TokenType.noConfusion
  have closed : Expr.closing m ⟨rest, ')' :: rest, plainToken m.toLibrary .rhparen [')']⟩ =
      .ok behind :=
    ahead.read ⟨rest, ')' :: rest, plainToken m.toLibrary .rhparen [')']⟩ rfl TokenType.noConfusion
  refine ⟨.three (doIf m) s t u, ?_,
    .ifThen s t u condition yes no means_condition means_yes means_no⟩
  rw [readPrimary_first fuel scan _ found]
  unfold readToken
  show (step (getToken m.toLibrary true) _ >>= _) = _
  rw [step, opening.read _ rfl TokenType.noConfusion]
  show readCall m (readExpression (readPrimary m fuel) fuel true) "if".toList _ = _
  rw [readCall, callee_if visible]
  show (readExpression (readPrimary m fuel) fuel true _ >>= _) = _
  rw [read_condition]
  simp only [bind, Except.bind, after, step, wanted_comma, Except.mapError, read_yes, read_no, closed]
  rfl

/-- Every text of a condition is read as the condition. -/
theorem grasped (scans : ScansDecimal m.toLibrary) (visible : IfVisible m) {rank : Rank}
    {f : Formula} {text : Text} (worded : Worded rank f text) (fuel : Nat)
    (room : text.length < fuel) : Grasped m fuel rank f text := by
  induction worded generalizing fuel with
  | primary e text written =>
      exact readsAs_mono (understood scans written fuel room) fun t => .integer t e
  | inverted gap text operand blank worded ih =>
      simp only [List.length_append, List.length_cons] at room
      obtain ⟨fuel, rfl⟩ := Nat.exists_eq_succ_of_ne_zero (by omega : fuel ≠ 0)
      exact readsAs_inverted fuel gap text operand blank (worded_opens worded) (ih fuel (by omega))
  | parens gap text closing f blank worded blank_closing ih =>
      simp only [List.length_append, List.length_cons, List.length_nil] at room
      obtain ⟨fuel, rfl⟩ := Nat.exists_eq_succ_of_ne_zero (by omega : fuel ≠ 0)
      exact readsAs_parens fuel gap text closing blank blank_closing (worded_opens worded)
        (readsAs_list (by omega) (ih fuel (by omega)))
  | ifThen gap before first comma second comma' third closing condition yes no blank blank_before _
      blank_comma _ blank_comma' _ blank_closing ihCondition ihYes ihNo =>
      simp only [List.length_append, List.length_cons, List.length_nil] at room
      obtain ⟨fuel, rfl⟩ := Nat.exists_eq_succ_of_ne_zero (by omega : fuel ≠ 0)
      exact readsAs_if visible fuel gap before first comma second comma' third closing condition yes
        no blank blank_before blank_comma blank_comma' blank_closing
        (readsAs_junction (by omega) (ihCondition fuel (by omega)))
        (readsAs_junction (by omega) (ihYes fuel (by omega)))
        (readsAs_junction (by omega) (ihNo fuel (by omega)))
  | sum e text written =>
      have reads := reads_of_understood fuel .sum e text room (understood scans written fuel room)
      exact readsAs_mono reads fun t => .integer t e
  | unary f text _ ih => exact operand_of_unary room (ih fuel room)
  | operand f text _ ih => exact roundsAs_operand (ih fuel room)
  | compare op left right first gap second _ blank worded ihLeft ihRight =>
      simp only [List.length_append] at room
      exact roundsAs_round op.mark op.mark op.token (by cases op <;> decide)
        (by cases op <;> decide)
        (fun rest => ahead_relation op gap _ blank (worded_opens worded rest))
        (by cases op <;> decide) (fun s t => .compare op s t left right) (by cases op <;> decide)
        (ihLeft fuel (by omega)) (ihRight fuel (by omega))
  | relation f text _ ih => exact roundsAs_operand (readsAs_relation room (ih fuel room))
  | join op left right first gap second _ blank _ ihLeft ihRight =>
      simp only [List.length_append] at room
      exact roundsAs_round op.mark op.mark op.token (by cases op <;> decide)
        (by cases op <;> decide) (fun rest => ahead_junction op gap _ blank)
        (by cases op <;> decide) (fun s t => .join op s t left right) (by cases op <;> decide)
        (ihLeft fuel (by omega)) (readsAs_relation (by omega) (ihRight fuel (by omega)))

/-- The tree of a program that is a condition and blanks behind it. -/
theorem readProgram_worded (scans : ScansDecimal m.toLibrary) (visible : IfVisible m) {f : Formula}
    {text tail : Text} (worded : Worded .junction f text) (blank : Blank tail) (fuel : Nat)
    (room : text.length < fuel) : Means m (readProgram m fuel (text ++ tail)) f := by
  obtain ⟨t, list, means⟩ := readsAs_list room (grasped scans visible worded fuel room) tail _
    (ahead_end tail blank) (show TokenType.end_ ∉ continues .list by decide)
    (fresh m (text ++ tail)) rfl TokenType.noConfusion
  rw [readProgram, list]
  exact means

end Reading

end EChainLib.Expr
