import Mathlib
import EChainLib.Expr.Buffer
import EChainLib.Expr.Check
import EChainLib.Expr.Session

/-! `Evaluate` ends. Every token takes a part of the text with it, and with it an even
number of quotes; what the parsers have left bounds their depth and their rounds. -/

namespace EChainLib.Expr

open EChainLib.Effects (Ends ends_bind ends_mono ends_of_ok bind_of_ok bind_of_error)

variable {F W : Type}

def quotes (p : Text) : Nat := p.count quote

/-! A token has no quote, or two. -/

theorem quotes_dropWhile (keep : Char → Bool) (stops : keep quote = false) (p : Text) :
    quotes (p.dropWhile keep) = quotes p := by
  have none_taken : (p.takeWhile keep).count quote = 0 := by
    rw [List.count_eq_zero]
    intro there
    have kept := List.mem_takeWhile_imp there
    rw [stops] at kept
    cases kept
  have split := congrArg (List.count quote) (List.takeWhile_append_dropWhile (p := keep) (l := p))
  rw [List.count_append, none_taken, Nat.zero_add] at split
  exact split

theorem quotes_drop_one (p : Text) (other : peek p 0 ≠ quote) : quotes (p.drop 1) = quotes p := by
  cases p with
  | nil => rfl
  | cons c rest => exact (List.count_cons_of_ne other).symm

theorem quotes_skipSign (p : Text) : quotes (skipSign p) = quotes p := by
  rw [skipSign]
  split
  · rename_i sign
    apply quotes_drop_one
    intro same
    rw [same] at sign
    revert sign
    decide
  · rfl

theorem quotes_numberEnd (p : Text) : quotes (numberEnd p) = quotes p := by
  have digits : quotes ((skipSign p).dropWhile fun c => c.isDigit || c = '.') = quotes p :=
    (quotes_dropWhile _ (by decide) _).trans (quotes_skipSign p)
  rw [numberEnd]
  split
  · rename_i exponent
    rw [quotes_dropWhile _ (by decide), quotes_skipSign, quotes_drop_one, digits]
    intro same
    rw [same] at exponent
    revert exponent
    decide
  · exact digits

theorem pairType_quotes (first second : Char) (type : TokenType)
    (pair : pairType first second = some type) : first ≠ quote ∧ second ≠ quote := by
  constructor
  · rintro rfl
    rw [pairType_quote] at pair
    cases pair
  · rintro rfl
    unfold pairType at pair
    rw [if_neg (by decide), if_neg fun both => absurd both.2 (by decide),
      if_neg fun both => absurd both.2 (by decide)] at pair
    cases pair

theorem singleType_quote (first : Char) (type : TokenType) (single : singleType first = some type) :
    first ≠ quote := by
  rintro rfl
  cases single

/-- Both quotes of a literal are taken. -/
theorem quotes_literal (p : Text) (literal : peek p 0 = quote)
    (closed : (p.drop 1).dropWhile (fun c => c ≠ quote) ≠ []) :
    quotes p = quotes (((p.drop 1).dropWhile fun c => c ≠ quote).drop 1) + 2 := by
  cases p with
  | nil => exact absurd literal (by decide)
  | cons c rest =>
      obtain rfl : c = quote := literal
      have none_taken : (rest.takeWhile fun c => c ≠ quote).count quote = 0 := by
        rw [List.count_eq_zero]
        intro there
        simpa using List.mem_takeWhile_imp there
      have split := congrArg (List.count quote)
        (List.takeWhile_append_dropWhile (p := fun c => decide (c ≠ quote)) (l := rest))
      rw [List.count_append, none_taken, Nat.zero_add] at split
      rw [List.drop_succ_cons, List.drop_zero] at closed ⊢
      cases behind : rest.dropWhile (fun c => decide (c ≠ quote)) with
      | nil => exact absurd behind closed
      | cons d others =>
          have second : d = quote := by
            have stopped := List.head_dropWhile_not (fun c => decide (c ≠ quote)) closed
            simp only [behind, List.head_cons] at stopped
            simpa using stopped
          rw [behind, second, List.count_cons_self] at split
          rw [quotes, List.count_cons_self, ← split]
          rfl

theorem tokenAt_quotes (lib : Library F) (ignoreSign : Bool) (p rest : Text) (token : Token F)
    (read : tokenAt lib ignoreSign p = .ok (token, rest)) : quotes rest % 2 = quotes p % 2 := by
  rw [tokenAt] at read
  split at read
  · cases number : numberToken lib (between p (numberEnd p)) with
    | ok token =>
        rw [number] at read
        cases read
        rw [quotes_numberEnd]
    | error fault =>
        rw [number] at read
        cases read
  · split at read
    · rename_i type pair
      cases read
      obtain ⟨first, second⟩ := pairType_quotes _ _ type pair
      have two : p.drop 2 = (p.drop 1).drop 1 := by rw [List.drop_drop]
      rw [two, quotes_drop_one, quotes_drop_one p first]
      rwa [peek_drop]
    · split at read
      · rename_i type single
        cases read
        rw [quotes_drop_one p (singleType_quote _ type single)]
      · split at read
        · rename_i literal
          dsimp only at read
          split at read
          · cases read
          · rename_i closed
            cases read
            rw [quotes_literal p literal closed, Nat.add_mod_right]
        · split at read
          · cases read
            rw [quotes_dropWhile _ (by decide)]
          · cases read

/-! What a call of `GetToken` leaves. -/

/-- Twice what is left of the text, and the report of its end. -/
def size (scan : Scanner F) : Nat :=
  2 * scan.pWord.length + if scan.token.type = .end_ then 0 else 1

theorem tokenAt_shorter (lib : Library F) (ignoreSign : Bool) (p rest : Text) (token : Token F)
    (nonempty : p ≠ []) (read : tokenAt lib ignoreSign p = .ok (token, rest)) :
    rest.length < p.length := by
  have mirrors := tokenStartingAt_mirrors lib p ignoreSign 0 (List.length_pos_iff.mpr nonempty)
  rw [List.drop_zero, read] at mirrors
  revert mirrors
  rcases tokenStartingAt lib p ignoreSign 0 with fault | ⟨fault | token', stop⟩
  · exact fun mirrors => mirrors.elim
  · exact fun mirrors => mirrors.elim
  · rintro ⟨_, behind, further, within⟩
    rw [behind, List.length_drop]
    omega

theorem getToken_shrinks (lib : Library F) (ignoreSign : Bool) (scan next : Scanner F)
    (read : getToken lib ignoreSign scan = .ok next) :
    size next + 1 ≤ size scan ∧ quotes next.pWord % 2 = quotes scan.pWord % 2 := by
  have blanks := (List.dropWhile_sublist (l := scan.pWord) isspace).length_le
  have blank_quotes := quotes_dropWhile isspace (by decide) scan.pWord
  rw [getToken] at read
  dsimp only at read
  split at read
  · split at read
    · cases read
    · rename_i fresh_end
      cases read
      refine ⟨?_, by rw [blank_quotes]⟩
      simp only [size, fresh_end, plainToken]
      simp
      omega
  · rename_i solid
    cases token : tokenAt lib ignoreSign (scan.pWord.dropWhile isspace) with
    | ok pair =>
        rw [token] at read
        cases read
        have nonempty : scan.pWord.dropWhile isspace ≠ [] := by
          intro empty
          rw [empty] at solid
          exact solid rfl
        have shorter := tokenAt_shorter lib ignoreSign _ pair.2 pair.1 nonempty token
        have same := tokenAt_quotes lib ignoreSign _ pair.2 pair.1 token
        refine ⟨?_, same.trans (by rw [blank_quotes])⟩
        have flag : (if pair.1.type = .end_ then 0 else 1) ≤ 1 := by split <;> omega
        simp only [size]
        omega
    | error fault =>
        rw [token] at read
        cases read

/-! The parsers. -/

/-- The text has become shorter by `taken`, no half of a literal was read, and no symbol is
lost. -/
structure Onward (taken : Nat) (p q : ExprParser F W) : Prop where
  size : size q.scan + taken ≤ size p.scan
  pairs : quotes q.scan.pWord % 2 = quotes p.scan.pWord % 2
  kept : ∀ word, (p.symbols word).isSome → (q.symbols word).isSome

/-- An exception, or a literal without its second quote ahead. -/
def Stopped (p : ExprParser F W) (stop : Stop) (q : ExprParser F W) : Prop :=
  (∃ what, stop = .fault (.thrown what)) ∨
    (stop = .fault .undefined ∧ Unterminated (q.scan.pWord.dropWhile isspace) ∧
      quotes q.scan.pWord % 2 = quotes p.scan.pWord % 2)

/-- From every text shorter than `limit` the run ends, and takes `taken` of it. -/
def Proceeds {Value : Type} (limit taken : Nat) (run : Run F W Value) : Prop :=
  ∀ p, size p.scan < limit → Ends run p (fun _ => Onward taken p) (Stopped p)

/-- What a registered function may do: it returns or throws, and leaves the text and the
names of the symbols. -/
def Harmless (run : Run F W (ExprValue F)) : Prop :=
  ∀ p, Ends run p
    (fun _ q => q.scan = p.scan ∧ ∀ word, (p.symbols word).isSome → (q.symbols word).isSome)
    (fun stop _ => ∃ what, stop = .fault (.thrown what))

structure CallsHarmless (calls : Calls F W) : Prop where
  one : ∀ word v, Harmless (calls.one word v)
  two : ∀ word v1 v2, Harmless (calls.two word v1 v2)

section Rules

variable {Value Other : Type} {limit taken : Nat}

theorem onward_refl (p : ExprParser F W) : Onward 0 p p := ⟨le_refl _, rfl, fun _ there => there⟩

theorem Onward.trans {more : Nat} {p q r : ExprParser F W} (first : Onward taken p q)
    (second : Onward more q r) : Onward (taken + more) p r where
  size := by
    have := first.size
    have := second.size
    omega
  pairs := second.pairs.trans first.pairs
  kept word there := second.kept word (first.kept word there)

theorem Onward.weaken {less : Nat} {p q : ExprParser F W} (onward : Onward taken p q)
    (fewer : less ≤ taken) : Onward less p q where
  size := (Nat.add_le_add_left fewer _).trans onward.size
  pairs := onward.pairs
  kept := onward.kept

theorem Stopped.since {p q r : ExprParser F W} {stop : Stop} (stopped : Stopped q stop r)
    (onward : Onward taken p q) : Stopped p stop r :=
  stopped.imp_right fun ⟨undefined, endless, pairs⟩ =>
    ⟨undefined, endless, pairs.trans onward.pairs⟩

theorem proceeds_weaken {less : Nat} {run : Run F W Value} (proceeds : Proceeds limit taken run)
    (fewer : less ≤ taken) : Proceeds limit less run := fun p short =>
  ends_mono (proceeds p short) (fun _ _ onward => onward.weaken fewer) fun _ _ stopped => stopped

theorem proceeds_pure (value : Value) : Proceeds limit 0 (pure value : Run F W Value) :=
  fun p _ => onward_refl p

theorem proceeds_throw (what : Text) :
    Proceeds limit taken (throw (.fault (.thrown what)) : Run F W Value) :=
  fun _ _ => Or.inl ⟨what, rfl⟩

/-- What the first part takes, the second need not be able to read. -/
theorem proceeds_bind {more rest : Nat} {run : Run F W Value} {next : Value → Run F W Other}
    (first : Proceeds limit taken run) (room : limit ≤ rest + taken)
    (further : ∀ value, Proceeds rest more (next value)) :
    Proceeds limit (taken + more) (run >>= next) := by
  intro p short
  refine ends_bind (fun _ => Onward taken p) (first p short) ?_
  intro value q onward
  have shorter : size q.scan < rest := by
    have := onward.size
    omega
  exact ends_mono (further value q shorter) (fun _ _ again => onward.trans again)
    fun _ _ stopped => stopped.since onward

/-- A sequence whose first part may take nothing. -/
theorem proceeds_then {more : Nat} {run : Run F W Value} {next : Value → Run F W Other}
    (first : Proceeds limit taken run) (further : ∀ value, Proceeds limit more (next value)) :
    Proceeds limit more (run >>= next) :=
  proceeds_weaken (proceeds_bind first (Nat.le_add_right _ _) further) (Nat.le_add_left _ _)

theorem proceeds_shorter {less : Nat} {run : Run F W Value} (proceeds : Proceeds limit taken run)
    (shorter : less ≤ limit) : Proceeds less taken run :=
  fun p short => proceeds p (short.trans_le shorter)

theorem proceeds_scanned {next : Scanner F → Run F W Other}
    (further : ∀ scan, Proceeds limit taken (next scan)) :
    Proceeds limit taken (scanned >>= next) := fun p short => further p.scan p short

theorem proceeds_raise (result : Except Text Value) :
    Proceeds limit 0 (raise result : Run F W Value) := by
  cases result with
  | ok value => exact proceeds_pure value
  | error what => exact proceeds_throw what

end Rules

section Parsers

variable {m : Machine F W} {calls : Calls F W} {limit : Nat}

theorem proceeds_scanning {taken : Nat} (move : Scanner F → Except Fault (Scanner F))
    (moves : ∀ scan next, move scan = .ok next →
      size next + taken ≤ size scan ∧ quotes next.pWord % 2 = quotes scan.pWord % 2)
    (fails : ∀ scan fault, move scan = .error fault → (∃ what, fault = .thrown what) ∨
      (fault = .undefined ∧ Unterminated (scan.pWord.dropWhile isspace))) :
    Proceeds limit taken (scanning move : Run F W Unit) := by
  intro p _
  unfold Ends
  cases read : move p.scan with
  | ok scan =>
      rw [scanning_ok move p scan read]
      obtain ⟨shorter, pairs⟩ := moves p.scan scan read
      exact ⟨shorter, pairs, fun _ there => there⟩
  | error fault =>
      rw [scanning_error move p fault read]
      rcases fails p.scan fault read with ⟨what, rfl⟩ | ⟨rfl, endless⟩
      · exact Or.inl ⟨what, rfl⟩
      · exact Or.inr ⟨rfl, endless, rfl⟩

theorem proceeds_next (ignoreSign : Bool) : Proceeds limit 1 (next m ignoreSign : Run F W Unit) :=
  proceeds_scanning _ (getToken_shrinks m.toLibrary ignoreSign)
    (getToken_error m.toLibrary ignoreSign)

theorem checkToken_error (type : TokenType) (scan : Scanner F) (fault : Fault)
    (failed : checkToken type scan = .error fault) : ∃ what, fault = .thrown what := by
  rw [checkToken] at failed
  split at failed <;> cases failed
  exact ⟨_, rfl⟩

theorem proceeds_closed : Proceeds limit 1 (closed m : Run F W Unit) := by
  apply proceeds_scanning
  · intro scan behind read
    cases checked : checkToken .rhparen scan with
    | ok _ =>
        rw [closing, checked] at read
        exact getToken_shrinks m.toLibrary true scan behind read
    | error fault =>
        rw [closing, checked] at read
        cases read
  · intro scan fault failed
    cases checked : checkToken .rhparen scan with
    | ok _ =>
        rw [closing, checked] at failed
        exact getToken_error m.toLibrary true scan fault failed
    | error fault' =>
        rw [closing, checked] at failed
        cases failed
        exact Or.inl (checkToken_error .rhparen scan _ checked)

theorem proceeds_want (type : TokenType) : Proceeds limit 0 (want type : Run F W Unit) := by
  apply proceeds_scanning
  · intro scan behind read
    cases checked : checkToken type scan with
    | ok _ =>
        rw [wanted, checked] at read
        cases read
        exact ⟨le_refl _, rfl⟩
    | error fault =>
        rw [wanted, checked] at read
        cases read
  · intro scan fault failed
    cases checked : checkToken type scan with
    | ok _ =>
        rw [wanted, checked] at failed
        cases failed
    | error fault' =>
        rw [wanted, checked] at failed
        cases failed
        exact Or.inl (checkToken_error type scan _ checked)

theorem proceeds_callOne (f : OneArgFunction F W) (v : ExprValue F) :
    Proceeds limit 0 (callOne f v) := fun _ _ => ⟨le_refl _, rfl, fun _ there => there⟩

theorem proceeds_callTwo (f : TwoArgFunction F W) (v1 v2 : ExprValue F) :
    Proceeds limit 0 (callTwo f v1 v2) := by
  intro p _
  show Ends (raise (f.apply v1 v2 p.world).1) { p with world := (f.apply v1 v2 p.world).2 } _ _
  cases (f.apply v1 v2 p.world).1 with
  | ok v => exact ⟨le_refl _, rfl, fun _ there => there⟩
  | error what => exact Or.inl ⟨what, rfl⟩

theorem proceeds_common {run : Run F W (ExprValue F)} (harmless : Harmless run) :
    Proceeds limit 0 (do
      if (← get).detect then return .ofType m.toLibrary .unsure
      run) := by
  intro p short
  show Ends (if p.detect then (pure (.ofType m.toLibrary .unsure) : Run F W (ExprValue F))
    else run) p _ _
  cases p.detect with
  | true => exact proceeds_pure _ p short
  | false =>
      refine ends_mono (harmless p) (fun _ q kept => ?_) fun _ _ thrown => Or.inl thrown
      exact ⟨by rw [kept.1]; rfl, by rw [kept.1], kept.2⟩

variable (harmless : CallsHarmless calls)

include harmless in
theorem proceeds_functionCall {expression : Run F W (ExprValue F)}
    (operand : Proceeds limit 1 expression) (word : Text) :
    Proceeds limit 0 (functionCall m calls expression word) := by
  have close : ∀ {taken : Nat} {next : Unit → Run F W (ExprValue F)},
      (∀ value, Proceeds limit taken (next value)) → Proceeds limit taken (closed m >>= next) :=
    fun further => proceeds_then proceeds_closed further
  unfold functionCall
  cases callee m word with
  | one f =>
      exact proceeds_then operand fun v => close fun _ => proceeds_callOne f v
  | oneCommon =>
      exact proceeds_then operand fun v => close fun _ => proceeds_common (harmless.one word v)
  | two f =>
      exact proceeds_then operand fun v1 => proceeds_then (proceeds_want .comma) fun _ =>
        proceeds_then operand fun v2 => close fun _ => proceeds_callTwo f v1 v2
  | twoCommon =>
      exact proceeds_then operand fun v1 => proceeds_then (proceeds_want .comma) fun _ =>
        proceeds_then operand fun v2 => close fun _ => proceeds_common (harmless.two word v1 v2)
  | three f =>
      exact proceeds_then operand fun v1 => proceeds_then (proceeds_want .comma) fun _ =>
        proceeds_then operand fun v2 => proceeds_then (proceeds_want .comma) fun _ =>
          proceeds_then operand fun v3 => close fun _ => proceeds_raise (f v1 v2 v3)
  | missing => exact proceeds_throw _

theorem set_isSome (symbols : SymbolTable F) (word name : Text) (v : ExprValue F)
    (there : (symbols name).isSome) : (symbols.set word v name).isSome := by
  unfold SymbolTable.set
  split
  · rfl
  · exact there

theorem set_self_isSome (symbols : SymbolTable F) (word : Text) (v : ExprValue F) :
    (symbols.set word v word).isSome := by
  simp [SymbolTable.set]

/-- `symbols_[word]` leaves an entry behind. -/
theorem ends_lookUp (word : Text) (p : ExprParser F W) :
    Ends (lookUp m word) p (fun _ q => Onward 0 p q ∧ (q.symbols word).isSome) (Stopped p) := by
  cases present : p.symbols word with
  | some v =>
      refine ends_of_ok (lookUp_some m word p v present) ⟨onward_refl p, ?_⟩
      rw [present]
      rfl
  | none =>
      exact ends_of_ok (lookUp_none m word p present)
        ⟨⟨le_refl _, rfl, fun name => set_isSome p.symbols word name _⟩,
          set_self_isSome p.symbols word _⟩

theorem ends_store (op : TokenType) (word : Text) (d : ExprValue F) (p : ExprParser F W)
    (present : (p.symbols word).isSome) :
    Ends (store m op word d) p (fun _ q => Onward 0 p q ∧ (q.symbols word).isSome)
      (Stopped p) := by
  obtain ⟨v, there⟩ := Option.isSome_iff_exists.mp present
  cases value : assigned m.toLibrary op v d with
  | ok w =>
      exact ends_of_ok (store_ok m op word d v w p there value)
        ⟨⟨le_refl _, rfl, fun name => set_isSome p.symbols word name w⟩,
          set_self_isSome p.symbols word w⟩
  | error what =>
      unfold Ends
      rw [store_error m op word d v what p there value]
      exact Or.inl ⟨what, rfl⟩

theorem ends_entry (word : Text) (p : ExprParser F W) (present : (p.symbols word).isSome) :
    Ends (entry word) p (fun _ => Onward 0 p) (Stopped p) := by
  obtain ⟨v, there⟩ := Option.isSome_iff_exists.mp present
  exact ends_of_ok (entry_some word p v there) (onward_refl p)

/-- The entry that `symbols_[word]` has made is still there when it is read. -/
theorem proceeds_symbol {expression : Run F W (ExprValue F)} (operand : Proceeds limit 1 expression)
    (word : Text) : Proceeds limit 0 (symbol m expression word) := by
  intro p short
  -- the right-hand side may make entries, and takes none away
  refine ends_bind _ (ends_lookUp word p) ?_
  rintro ⟨⟩ q ⟨made, present⟩
  have shorter : size q.scan < limit := (Nat.le_add_right _ _).trans_lt (made.size.trans_lt short)
  show Ends (if q.scan.token.type ∈ assignments then _ else _) q _ _
  by_cases assigns : q.scan.token.type ∈ assignments
  · rw [if_pos assigns]
    refine ends_bind (fun _ r => Onward 1 p r ∧ (r.symbols word).isSome) ?_ ?_
    · exact ends_mono (operand q shorter)
        (fun _ r read => ⟨made.trans read |>.weaken (Nat.le_add_left _ _), read.kept word present⟩)
        fun _ _ stopped => stopped.since made
    · rintro d r ⟨read, there⟩
      refine ends_bind (fun _ t => Onward 1 p t ∧ (t.symbols word).isSome) ?_ ?_
      · exact ends_mono (ends_store _ word d r there)
          (fun _ t stored => ⟨read.trans stored.1, stored.2⟩) fun _ _ stopped => stopped.since read
      · rintro ⟨⟩ t ⟨stored, still⟩
        exact ends_mono (ends_entry word t still)
          (fun _ _ reads => (stored.trans reads).weaken (Nat.zero_le _))
          fun _ _ stopped => stopped.since stored
  · rw [if_neg assigns]
    exact ends_mono (ends_entry word q present) (fun _ _ reads => made.trans reads)
      fun _ _ stopped => stopped.since made

theorem proceeds_rounds {operand : Bool → Run F W (ExprValue F)}
    (operands : Proceeds limit 1 (operand true)) (ops : List TokenType) (fuel : Nat)
    (room : fuel ≤ limit) (left : ExprValue F) :
    Proceeds fuel 0 (rounds m operand ops fuel left) := by
  induction fuel generalizing left with
  | zero => exact fun p short => absurd short (Nat.not_lt_zero _)
  | succ fuel ih =>
      apply proceeds_scanned
      intro scan
      by_cases goesOn : scan.token.type ∈ ops
      · simp only [goesOn, if_true]
        -- the operand takes a part of the text, so the rounds left are enough for the rest
        have further : ∀ d, Proceeds fuel 0 (raise (operate m.toLibrary scan.token.type left d) >>=
            rounds m operand ops fuel) := fun d =>
          proceeds_then (proceeds_raise _) fun left => ih (Nat.le_of_succ_le room) left
        exact proceeds_weaken
          (proceeds_bind (proceeds_shorter operands room) (le_refl _) further) (Nat.zero_le _)
      · simp only [goesOn, if_false]
        exact proceeds_pure left

theorem proceeds_level {operand : Bool → Run F W (ExprValue F)}
    (operands : Proceeds limit 1 (operand true)) (ops : List TokenType) :
    Proceeds limit 1 (level m operand ops limit true) :=
  proceeds_bind operands (Nat.le_add_right _ _) fun left =>
    proceeds_rounds operands ops limit (le_refl _) left

theorem proceeds_expression {primary : Bool → Run F W (ExprValue F)}
    (operands : Proceeds limit 1 (primary true)) :
    Proceeds limit 1 (expression m primary limit true) := by
  apply proceeds_level
  apply proceeds_level
  apply proceeds_level
  apply proceeds_level
  exact operands

theorem proceeds_commaList {primary : Bool → Run F W (ExprValue F)}
    (operands : Proceeds limit 1 (primary true)) :
    Proceeds limit 1 (commaList m primary limit true) :=
  proceeds_level (proceeds_expression operands) _

include harmless

theorem proceeds_tokenCase {primary : Bool → Run F W (ExprValue F)}
    (operands : Proceeds limit 1 (primary true)) :
    Proceeds limit 0 (tokenCase m calls primary limit) := by
  have literal : ∀ v, Proceeds limit 0 (literal m v : Run F W (ExprValue F)) := fun v =>
    proceeds_then (proceeds_next true) fun _ => proceeds_pure v
  apply proceeds_scanned
  intro scan
  cases scan.token.type with
  | number => exact literal _
  | integer64 => exact literal _
  | string => exact literal _
  | name =>
      apply proceeds_then (proceeds_next true)
      intro _
      apply proceeds_scanned
      intro behind
      by_cases call : behind.token.type = .lhparen
      · simp only [call, if_true]
        exact proceeds_functionCall harmless (proceeds_expression operands) scan.token.word
      · simp only [call, if_false]
        exact proceeds_symbol (proceeds_expression operands) scan.token.word
  | minus => exact proceeds_then operands fun v => proceeds_raise _
  | not => exact proceeds_then operands fun v => proceeds_raise _
  | lhparen =>
      exact proceeds_then (proceeds_commaList operands) fun v =>
        proceeds_then proceeds_closed fun _ => proceeds_pure v
  | _ => exact proceeds_throw _

/-- The depth of the recursion is bounded by the text. -/
theorem proceeds_primary (fuel : Nat) : Proceeds fuel 1 (primary m calls fuel true) := by
  induction fuel with
  | zero => exact fun p short => absurd short (Nat.not_lt_zero _)
  | succ fuel ih =>
      exact proceeds_bind (proceeds_next false) (le_refl _) fun _ =>
        proceeds_tokenCase harmless ih

end Parsers

/-! Programs. -/

/-- The run returns or throws. -/
def Completes (result : EStateM.Result Stop (ExprParser F W) (ExprValue F)) : Prop :=
  match result with
  | .ok _ _ => True
  | .error stop _ => ∃ what, stop = .fault (.thrown what)

/-- The run ends in the call of `GetToken` that stands at a literal without its second
quote. -/
def RunsOut (result : EStateM.Result Stop (ExprParser F W) (ExprValue F)) : Prop :=
  match result with
  | .ok _ _ => False
  | .error stop q => stop = .fault .undefined ∧ Unterminated (q.scan.pWord.dropWhile isspace)

theorem quotes_unterminated (p : Text) (endless : Unterminated (p.dropWhile isspace)) :
    quotes p = 1 := by
  rw [← quotes_dropWhile isspace (by decide) p]
  obtain ⟨literal, none_left⟩ := endless
  cases there : p.dropWhile isspace with
  | nil =>
      rw [there] at literal
      exact absurd literal (by decide)
  | cons c rest =>
      rw [there] at literal none_left
      obtain rfl : c = quote := literal
      have none_behind : rest.count quote = 0 := by
        rw [List.count_eq_zero]
        intro further
        have kept := List.dropWhile_eq_nil_iff.mp none_left quote further
        simp at kept
      rw [quotes, List.count_cons_self, none_behind]

/-- Fuel for a program: `END` is reported once behind its text. -/
def fuelFor (program : Text) : Nat := 2 * program.length + 2

section Programs

variable (m : Machine F W) (calls : Calls F W)

theorem evaluate_stops (harmless : CallsHarmless calls) (p : ExprParser F W) (fuel : Nat)
    (room : fuelFor p.program ≤ fuel) :
    Ends (evaluate m calls fuel) p (fun _ _ => True) fun stop q =>
      (∃ what, stop = .fault (.thrown what)) ∨
        (stop = .fault .undefined ∧ Unterminated (q.scan.pWord.dropWhile isspace) ∧
          quotes q.scan.pWord % 2 = quotes p.program % 2) := by
  have short : size (fresh m p.program) < fuel := by
    have whole : size (fresh m p.program) = 2 * p.program.length + 1 := rfl
    unfold fuelFor at room
    omega
  have reads : Proceeds fuel 1 (commaList m (primary m calls fuel) fuel true) :=
    proceeds_commaList (proceeds_primary harmless fuel)
  have ran := reads { p with scan := fresh m p.program } short
  show Ends (commaList m (primary m calls fuel) fuel true >>= _)
    { p with scan := fresh m p.program } _ _
  refine ends_bind (fun _ _ => True) ?_ ?_
  · exact ends_mono ran (fun _ _ _ => trivial) fun _ _ stopped => stopped
  · intro v q _
    show Ends (if q.scan.token.type = .end_ then _ else _) q _ _
    split
    · exact trivial
    · exact Or.inl ⟨_, rfl⟩

theorem completes_iff (harmless : CallsHarmless calls) (p : ExprParser F W) (fuel : Nat)
    (room : fuelFor p.program ≤ fuel) :
    Completes (evaluate m calls fuel p) ↔ ¬ RunsOut (evaluate m calls fuel p) := by
  have stops := evaluate_stops m calls harmless p fuel room
  unfold Ends at stops
  cases outcome : evaluate m calls fuel p with
  | ok v q => exact iff_of_true trivial fun runsOut => runsOut
  | error stop q =>
      rw [outcome] at stops
      constructor
      · rintro ⟨what, rfl⟩ ⟨differs, _⟩
        cases differs
      · intro closed
        exact stops.resolve_right fun undefined => closed ⟨undefined.1, undefined.2.1⟩

/-- With a second quote for every first one the run never stands at half a literal. -/
theorem completes_of_even (harmless : CallsHarmless calls) (p : ExprParser F W) (fuel : Nat)
    (room : fuelFor p.program ≤ fuel) (even : quotes p.program % 2 = 0) :
    Completes (evaluate m calls fuel p) := by
  have stops := evaluate_stops m calls harmless p fuel room
  unfold Ends at stops
  cases outcome : evaluate m calls fuel p with
  | ok v q => exact trivial
  | error stop q =>
      rw [outcome] at stops
      refine stops.resolve_right ?_
      rintro ⟨-, endless, pairs⟩
      rw [quotes_unterminated q.scan.pWord endless, even] at pairs
      cases pairs

/-- Each call stays in the buffer, and `Evaluate` returns or throws, exactly where no call
stands at a literal without its second quote. -/
theorem scanning_ends_iff (harmless : CallsHarmless calls) :
    (∀ (text : Text) (ignoreSign : Bool) (type : TokenType) (p : Nat), p ≤ text.length →
      (StaysInBuffer text p (getTokenAt m.toLibrary text ignoreSign type p) ↔
        ¬ Unterminated ((text.drop p).dropWhile isspace))) ∧
      ∀ (p : ExprParser F W) (fuel : Nat), fuelFor p.program ≤ fuel →
        (Completes (evaluate m calls fuel p) ↔ ¬ RunsOut (evaluate m calls fuel p)) ∧
          (quotes p.program % 2 = 0 → Completes (evaluate m calls fuel p)) := by
  constructor
  · intro text ignoreSign type p inside
    exact stays_iff m.toLibrary text ignoreSign p inside type
  · intro p fuel room
    exact ⟨completes_iff m calls harmless p fuel room, completes_of_even m calls harmless p fuel room⟩

end Programs

theorem echoing_harmless : CallsHarmless (echoing : Calls F W) where
  one _ _ _ := ⟨rfl, fun _ there => there⟩
  two _ _ _ _ := ⟨rfl, fun _ there => there⟩

/-- `f("1")` has both quotes. -/
theorem scanning_ends_iff_applies :
    (∀ (text : Text) (ignoreSign : Bool) (type : TokenType) (p : Nat), p ≤ text.length →
      (StaysInBuffer text p (getTokenAt wholeLibrary text ignoreSign type p) ↔
        ¬ Unterminated ((text.drop p).dropWhile isspace))) ∧
      Completes (evaluate wholeMachine echoing 14
        (start wholeMachine "f(\"1\")".toList (fun _ => none) ())) :=
  ⟨(scanning_ends_iff wholeMachine echoing echoing_harmless).1,
    ((scanning_ends_iff wholeMachine echoing echoing_harmless).2
      (start wholeMachine "f(\"1\")".toList (fun _ => none) ()) 14 (by decide)).2 (by decide)⟩

/-- `"abc`: the search for the second quote goes on behind the buffer. -/
theorem open_literal_leaves_the_buffer :
    ¬ StaysInBuffer "\"abc".toList 0
        (getTokenAt wholeLibrary "\"abc".toList false .none 0) ∧
      ¬ Completes (evaluate wholeMachine echoing 10
        (start wholeMachine "\"abc".toList (fun _ => none) ())) := by
  have call : getTokenAt wholeLibrary "\"abc".toList false .none 0 = .error .undefined := rfl
  have run : (ending (evaluate wholeMachine echoing 10
      (start wholeMachine "\"abc".toList (fun _ => none) ()))).1 =
        .error (.fault .undefined) := by decide +kernel
  constructor
  · rw [call]
    exact fun stays => stays
  · intro completes
    cases outcome : evaluate wholeMachine echoing 10
        (start wholeMachine "\"abc".toList (fun _ => none) ()) with
    | ok v q =>
        rw [outcome] at run
        cases run
    | error stop q =>
        rw [outcome] at run completes
        obtain ⟨what, rfl⟩ := completes
        cases run

end EChainLib.Expr
