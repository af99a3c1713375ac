import Mathlib
import EChainLib.Expr.Lexer

/-! `GetToken` on the buffer of `program_`, with pointers for positions. A read behind the
terminating NUL is `Fault.undefined`. -/

namespace EChainLib.Expr

variable {F : Type}

/-- `*p`. -/
def deref (text : Text) (p : Nat) : Except Fault Char :=
  if p ≤ text.length then .ok (peek text p) else .error .undefined

/-- `while (keep (*p)) ++p`. -/
def advance (text : Text) (keep : Char → Bool) : Nat → Nat → Except Fault Nat
  | 0, _ => .error .spent
  | rounds + 1, p => do
      if keep (← deref text p) then advance text keep rounds (p + 1)
      else return p

/-- `std::string (start, p - start)`. -/
def slice (text : Text) (start p : Nat) : Text := (text.drop start).take (p - start)

section Tokens

variable (lib : Library F) (text : Text)

/-- No loop makes more rounds before it reads behind the buffer. -/
def rounds_bound : Nat := text.length + 2

def skipSignAt (p : Nat) : Except Fault Nat := do
  if isSign (← deref text p) then return p + 1
  else return p

/-- The loops over a number that starts at `p`. -/
def numberEndAt (p : Nat) : Except Fault Nat := do
  let p ← skipSignAt text p
  let p ← advance text (fun c => c.isDigit || c = '.') (rounds_bound text) p
  let c ← deref text p
  if c = 'e' ∨ c = 'E' then do
    let p ← skipSignAt text (p + 1)
    advance text Char.isDigit (rounds_bound text) p
  else return p

/-- The token at `start` or what is thrown there, and where that leaves `pWord_`. -/
def tokenStartingAt (ignoreSign : Bool) (start : Nat) :
    Except Fault (Except Fault (Token F) × Nat) := do
  let first ← deref text start
  -- `start` is in front of the NUL, so this is the NUL at the most
  let second ← deref text (start + 1)
  if startsNumber ignoreSign [first, second] then do
    let p ← numberEndAt text start
    return (numberToken lib (slice text start p), p)
  else
    match pairType first second with
    | some type => return (.ok (plainToken lib type (slice text start (start + 2))), start + 2)
    | none =>
        match singleType first with
        | some type => return (.ok (plainToken lib type (slice text start (start + 1))), start + 1)
        | none =>
            if first = quote then do
              -- the NUL does not stop this loop
              let p ← advance text (fun c => c ≠ quote) (rounds_bound text) (start + 1)
              return (.ok (plainToken lib .string (slice text (start + 1) p)), p + 1)
            else if first.isAlpha then do
              let p ← advance text (fun c => c.isAlphanum || c = '_') (rounds_bound text) start
              return (.ok (plainToken lib .name (slice text start p)), p)
            else return (.error (unexpectedCharacter first), start)

/-- The token or what is thrown, `pWordStart_` and `pWord_` of a call that finds `pWord_` at
`p` and the token type `type`. -/
def getTokenAt (ignoreSign : Bool) (type : TokenType) (p : Nat) :
    Except Fault (Except Fault (Token F) × Nat × Nat) := do
  let start ← advance text (fun c => c ≠ nul && isspace c) (rounds_bound text) p
  let first ← deref text start
  if first = nul then
    if type = .end_ then
      return (.error (.thrown "Unexpected end of expression.".toList), start, start)
    else return (.ok (plainToken lib .end_ "<end of expression>".toList), start, start)
  else do
    let (outcome, p) ← tokenStartingAt lib text ignoreSign start
    return (outcome, start, p)

end Tokens

/-! Loops. -/

theorem peek_drop (text : Text) (p k : Nat) : peek (text.drop p) k = peek text (p + k) := by
  simp [peek, List.getD_eq_getElem?_getD]

theorem deref_ok {text : Text} {p : Nat} (inside : p ≤ text.length) :
    deref text p = .ok (peek (text.drop p) 0) := by
  rw [deref, if_pos inside, peek_drop, Nat.add_zero]

theorem deref_next {text : Text} {p : Nat} (inside : p < text.length) :
    deref text (p + 1) = .ok (peek (text.drop p) 1) := by
  rw [deref, if_pos (Nat.succ_le_of_lt inside), peek_drop]

theorem drop_peek {text : Text} {p : Nat} (inside : p < text.length) :
    text.drop p = peek (text.drop p) 0 :: text.drop (p + 1) := by
  have head : peek (text.drop p) 0 = text[p] := by
    rw [peek_drop, Nat.add_zero, peek, List.getD_eq_getElem _ _ inside]
  rw [head]
  exact List.drop_eq_getElem_cons inside

theorem peek_end (text : Text) : peek (text.drop text.length) 0 = nul := by
  simp [peek]

theorem advance_step {text : Text} {keep : Char → Bool} {p rounds : Nat}
    (inside : p ≤ text.length) :
    advance text keep (rounds + 1) p =
      if keep (peek (text.drop p) 0) then advance text keep rounds (p + 1) else .ok p := by
  rw [advance, deref_ok inside]
  rfl

/-- A loop that stops at the NUL at the latest, or in front of it, stops in the buffer. -/
theorem advance_ok {text : Text} (keep : Char → Bool) {p rounds : Nat}
    (inside : p ≤ text.length) (room : text.length - p < rounds)
    (halts : keep nul = false ∨ (text.drop p).dropWhile keep ≠ []) :
    ∃ stop, advance text keep rounds p = .ok stop ∧
      text.drop stop = (text.drop p).dropWhile keep ∧ p ≤ stop ∧ stop ≤ text.length := by
  induction rounds generalizing p with
  | zero => omega
  | succ rounds ih =>
      rw [advance_step inside]
      rcases inside.lt_or_eq with before | rfl
      · cases goesOn : keep (peek (text.drop p) 0) with
        | false =>
            refine ⟨p, by simp, ?_, le_refl p, inside⟩
            rw [drop_peek before, List.dropWhile_cons, goesOn]
            rfl
        | true =>
            have rest : (text.drop p).dropWhile keep = (text.drop (p + 1)).dropWhile keep := by
              rw [drop_peek before, List.dropWhile_cons, goesOn]
              rfl
            rw [rest] at halts ⊢
            obtain ⟨stop, ran, at_stop, behind, within⟩ := ih before (by omega) halts
            exact ⟨stop, by simpa using ran, at_stop, by omega, within⟩
      · have keeps : keep nul = false := halts.resolve_right (by simp)
        rw [peek_end, keeps]
        exact ⟨text.length, by simp, by simp, le_refl _, le_refl _⟩

theorem rounds_room (text : Text) (p : Nat) : text.length - p < rounds_bound text := by
  unfold rounds_bound
  omega

/-- A loop that nothing stops reads behind the NUL. -/
theorem advance_past {text : Text} {keep : Char → Bool} {p rounds : Nat}
    (inside : p ≤ text.length) (room : text.length + 1 - p < rounds) (keeps : keep nul = true)
    (endless : (text.drop p).dropWhile keep = []) :
    advance text keep rounds p = .error .undefined := by
  induction rounds generalizing p with
  | zero => omega
  | succ rounds ih =>
      rw [advance_step inside]
      rcases inside.lt_or_eq with before | rfl
      · cases goesOn : keep (peek (text.drop p) 0) with
        | false =>
            rw [drop_peek before, List.dropWhile_cons, goesOn] at endless
            cases endless
        | true =>
            rw [drop_peek before, List.dropWhile_cons, goesOn] at endless
            exact ih before (by omega) endless
      · rw [peek_end, keeps, if_pos rfl]
        obtain ⟨more, rfl⟩ : ∃ more, rounds = more + 1 := ⟨rounds - 1, by omega⟩
        rw [advance, deref, if_neg (by omega)]
        rfl

theorem slice_between {text : Text} {start stop : Nat} (inside : stop ≤ text.length)
    (order : start ≤ stop) : slice text start stop = between (text.drop start) (text.drop stop) := by
  rw [slice, between, List.length_drop, List.length_drop]
  congr 1
  omega

/-! The call finds the token that stands in the text, and no pointer leaves the buffer. -/

theorem skipSignAt_ok {text : Text} {p : Nat} (inside : p ≤ text.length) :
    ∃ stop, skipSignAt text p = .ok stop ∧ text.drop stop = skipSign (text.drop p) ∧ p ≤ stop ∧
      stop ≤ text.length := by
  have ran : skipSignAt text p = .ok (if isSign (peek (text.drop p) 0) then p + 1 else p) := by
    rw [skipSignAt, deref_ok inside]
    show (if isSign (peek (text.drop p) 0) then Except.ok (p + 1) else .ok p) = _
    split <;> rfl
  rw [ran, skipSign]
  cases sign : isSign (peek (text.drop p) 0) with
  | false => exact ⟨p, rfl, by simp, le_refl p, inside⟩
  | true =>
      rcases inside.lt_or_eq with before | rfl
      · exact ⟨p + 1, rfl, by simp [List.drop_drop], by omega, before⟩
      · rw [peek_end] at sign
        cases sign

theorem numberEndAt_ok {text : Text} {start : Nat} (inside : start ≤ text.length) :
    ∃ stop, numberEndAt text start = .ok stop ∧ text.drop stop = numberEnd (text.drop start) ∧
      start ≤ stop ∧ stop ≤ text.length := by
  obtain ⟨p, skipped, at_p, after_start, p_inside⟩ := skipSignAt_ok inside
  obtain ⟨q, moved, at_q, after_p, q_inside⟩ := advance_ok (fun c => c.isDigit || c = '.')
    p_inside (rounds_room text p) (Or.inl (by decide))
  rw [at_p] at at_q
  have ran : numberEndAt text start =
      if peek (text.drop q) 0 = 'e' ∨ peek (text.drop q) 0 = 'E' then
        skipSignAt text (q + 1) >>= advance text Char.isDigit (rounds_bound text)
      else .ok q := by
    rw [numberEndAt, skipped]
    show (advance text _ (rounds_bound text) p >>= fun p => _) = _
    rw [moved]
    show (deref text q >>= fun c => _) = _
    rw [deref_ok q_inside]
    rfl
  rw [ran, numberEnd, ← at_q]
  by_cases exponent : peek (text.drop q) 0 = 'e' ∨ peek (text.drop q) 0 = 'E'
  · have before : q < text.length := by
      refine lt_of_le_of_ne q_inside fun same => ?_
      rw [same, peek_end] at exponent
      exact absurd exponent (by decide)
    obtain ⟨r, signed, at_r, after_q, r_inside⟩ := skipSignAt_ok (Nat.succ_le_of_lt before)
    obtain ⟨stop, finished, at_stop, after_r, stop_inside⟩ := advance_ok Char.isDigit
      r_inside (rounds_room text r) (Or.inl (by decide))
    refine ⟨stop, ?_, ?_, by omega, stop_inside⟩
    · rw [if_pos exponent, signed]
      exact finished
    · rw [at_stop, at_r]
      simp [exponent, List.drop_drop]
  · exact ⟨q, by simp [exponent], by simp [exponent], by omega, q_inside⟩

theorem numberEnd_le (p : Text) :
    (numberEnd p).length ≤ ((skipSign p).dropWhile fun c => c.isDigit || c = '.').length := by
  have skipped : ∀ q : Text, (skipSign q).length ≤ q.length := by
    intro q
    rw [skipSign]
    split <;> simp
  rw [numberEnd]
  split
  · calc _ ≤ (skipSign (((skipSign p).dropWhile fun c => c.isDigit || c = '.').drop 1)).length :=
        (List.dropWhile_sublist _).length_le
      _ ≤ _ := (skipped _).trans (by simp)
  · exact le_refl _

/-- A number takes one character at least. -/
theorem numberEnd_shorter {ignoreSign : Bool} {p : Text} (starts : startsNumber ignoreSign p) :
    (numberEnd p).length < p.length := by
  cases p with
  | nil => simp [startsNumber, peek, nul] at starts
  | cons c rest =>
      refine (numberEnd_le _).trans_lt ?_
      by_cases sign : isSign c
      · have skipped : skipSign (c :: rest) = rest := by simp [skipSign, peek, sign]
        rw [skipped]
        exact Nat.lt_succ_of_le (List.dropWhile_sublist _).length_le
      · have kept : skipSign (c :: rest) = c :: rest := by simp [skipSign, peek, sign]
        have first : (c.isDigit || c = '.') = true := by
          simp [startsNumber, peek, sign] at starts
          rcases starts with digit | point
          · simp [digit]
          · simp [point.1]
        rw [kept, List.dropWhile_cons, first]
        exact Nat.lt_succ_of_le (List.dropWhile_sublist _).length_le

/-- `"` without another one behind it. -/
def Unterminated (p : Text) : Prop :=
  peek p 0 = quote ∧ (p.drop 1).dropWhile (fun c => c ≠ quote) = []

instance (p : Text) : Decidable (Unterminated p) :=
  inferInstanceAs (Decidable (peek p 0 = quote ∧ (p.drop 1).dropWhile (fun c => c ≠ quote) = []))

/-- The pointers' call ends as the call on the rest of the text does. -/
def Mirrors (text : Text) (start : Nat) : Except Fault (Token F × Text) →
    Except Fault (Except Fault (Token F) × Nat) → Prop
  | .ok (token, rest), .ok (.ok token', p) =>
      token = token' ∧ rest = text.drop p ∧ start < p ∧ p ≤ text.length
  | .error fault, .ok (.error fault', p) => fault = fault' ∧ start ≤ p ∧ p ≤ text.length
  | .error fault, .error fault' => fault = .undefined ∧ fault' = .undefined
  | _, _ => False

theorem pairType_next (first second : Char) (type : TokenType)
    (pair : pairType first second = some type) : second ≠ nul := by
  rintro rfl
  revert pair
  simp [pairType, nul]

theorem tokenStartingAt_mirrors (lib : Library F) (text : Text) (ignoreSign : Bool) (start : Nat)
    (inside : start < text.length) :
    Mirrors text start (tokenAt lib ignoreSign (text.drop start))
      (tokenStartingAt lib text ignoreSign start) := by
  have rest_length : (text.drop start).length = text.length - start := List.length_drop
  -- the kinds of tokens in the order in which the lexer tries them
  obtain ⟨stop, ran, at_stop, order, stop_inside⟩ := numberEndAt_ok inside.le
  rw [tokenStartingAt, deref_ok inside.le, tokenAt]
  show Mirrors text start _ (deref text (start + 1) >>= fun second => _)
  rw [deref_next inside]
  show Mirrors text start _ (if startsNumber ignoreSign (text.drop start) then _ else _)
  by_cases number : startsNumber ignoreSign (text.drop start)
  · rw [if_pos number, if_pos number]
    have shorter := numberEnd_shorter number
    rw [← at_stop, List.length_drop, rest_length] at shorter
    rw [ran, ← at_stop, ← slice_between stop_inside order]
    show Mirrors text start _ (.ok (numberToken lib (slice text start stop), stop))
    cases numberToken lib (slice text start stop) with
    | ok token => exact ⟨rfl, rfl, by omega, stop_inside⟩
    | error fault => exact ⟨rfl, order, stop_inside⟩
  · rw [if_neg number, if_neg number]
    cases pair : pairType (peek (text.drop start) 0) (peek (text.drop start) 1) with
    | some type =>
        have more : start + 1 < text.length := by
          refine lt_of_le_of_ne inside fun same => pairType_next _ _ type pair ?_
          rw [peek_drop, same, ← Nat.add_zero text.length, ← peek_drop, peek_end]
        exact ⟨by simp [slice], by simp [List.drop_drop], by omega, more⟩
    | none =>
        cases single : singleType (peek (text.drop start) 0) with
        | some type => exact ⟨by simp [slice], by simp [List.drop_drop], by omega, inside⟩
        | none =>
            by_cases literal : peek (text.drop start) 0 = quote
            · simp only [literal, if_true]
              have behind : (text.drop start).drop 1 = text.drop (start + 1) := by
                rw [List.drop_drop]
              rw [behind]
              by_cases endless : (text.drop (start + 1)).dropWhile (fun c => c ≠ quote) = []
              · rw [if_pos endless, advance_past inside (by unfold rounds_bound; omega)
                  (by decide) endless]
                exact ⟨rfl, rfl⟩
              · obtain ⟨stop, ran, at_stop, order, stop_inside⟩ := advance_ok
                  (fun c => c ≠ quote) inside (rounds_room text (start + 1)) (Or.inr endless)
                have before : stop < text.length := by
                  refine lt_of_le_of_ne stop_inside fun same => endless ?_
                  rw [← at_stop, same, List.drop_length]
                rw [if_neg endless, ran, ← at_stop, ← slice_between stop_inside order]
                exact ⟨rfl, by rw [List.drop_drop], by omega, before⟩
            · simp only [literal, if_false]
              by_cases letter : (peek (text.drop start) 0).isAlpha
              · simp only [letter, if_true]
                obtain ⟨stop, ran, at_stop, order, stop_inside⟩ := advance_ok
                  (fun c => c.isAlphanum || c = '_') inside.le (rounds_room text start)
                  (Or.inl (by decide))
                rw [ran, ← at_stop, ← slice_between stop_inside order]
                refine ⟨rfl, rfl, ?_, stop_inside⟩
                have first : ((peek (text.drop start) 0).isAlphanum ||
                    peek (text.drop start) 0 = '_') = true := by
                  simp [Char.isAlphanum, letter]
                rw [drop_peek inside, List.dropWhile_cons, first, if_pos rfl] at at_stop
                have shorter := congrArg List.length at_stop
                have at_most := (List.dropWhile_sublist (l := text.drop (start + 1))
                  fun c => c.isAlphanum || c = '_').length_le
                rw [List.length_drop] at shorter at_most
                omega
              · simp only [letter]
                exact ⟨rfl, le_refl _, inside.le⟩

theorem isspace_nul (c : Char) : (c ≠ nul && isspace c) = isspace c := by
  by_cases ended : c = nul
  · subst ended
    decide
  · simp [ended]

/-- The scanner behind a call, and the pointers that stand for it; from `p` on they stay in
the buffer and advance. -/
def Found (text : Text) (p : Nat) : Except Fault (Scanner F) →
    Except Fault (Except Fault (Token F) × Nat × Nat) → Prop
  | .ok next, .ok (.ok token, start, stop) =>
      next = ⟨text.drop stop, text.drop start, token⟩ ∧ p ≤ start ∧ start ≤ stop ∧
        stop ≤ text.length ∧ (token.type ≠ .end_ → start < stop)
  | .error fault, .ok (.error fault', start, stop) =>
      fault = fault' ∧ p ≤ start ∧ start ≤ stop ∧ stop ≤ text.length
  | .error fault, .error fault' => fault = .undefined ∧ fault' = .undefined
  | _, _ => False

/-- The call on pointers finds what the call on the rest of the text finds. -/
theorem getTokenAt_found (lib : Library F) (text : Text) (ignoreSign : Bool) (p : Nat)
    (inside : p ≤ text.length) (scan : Scanner F) (here : scan.pWord = text.drop p) :
    Found text p (getToken lib ignoreSign scan)
      (getTokenAt lib text ignoreSign scan.token.type p) := by
  obtain ⟨start, ran, at_start, order, start_inside⟩ := advance_ok
    (fun c => c ≠ nul && isspace c) inside (rounds_room text p) (Or.inl (by decide))
  simp only [isspace_nul] at at_start ran
  rw [getToken, here, ← at_start, getTokenAt]
  simp only [isspace_nul]
  rw [ran]
  show Found text p _ (deref text start >>= fun first => _)
  rw [deref_ok start_inside]
  show Found text p _ (if peek (text.drop start) 0 = nul then _ else _)
  by_cases ended : peek (text.drop start) 0 = nul
  · rw [if_pos ended, if_pos ended]
    by_cases again : scan.token.type = .end_
    · rw [if_pos again, if_pos again]
      exact ⟨rfl, order, le_refl _, start_inside⟩
    · rw [if_neg again, if_neg again]
      exact ⟨rfl, order, le_refl _, start_inside, fun differs => absurd rfl differs⟩
  · rw [if_neg ended, if_neg ended]
    have before : start < text.length := by
      refine lt_of_le_of_ne start_inside fun same => ended ?_
      rw [same, peek_end]
    have mirrors := tokenStartingAt_mirrors lib text ignoreSign start before
    show Found text p _ (tokenStartingAt lib text ignoreSign start >>= fun pair => _)
    revert mirrors
    rcases tokenAt lib ignoreSign (text.drop start) with fault | ⟨token, rest⟩ <;>
      rcases tokenStartingAt lib text ignoreSign start with fault' | ⟨fault' | token', stop⟩ <;>
      intro mirrors
    · exact mirrors
    · obtain ⟨same, further, within⟩ := mirrors
      exact ⟨same, order, further, within⟩
    · exact mirrors.elim
    · exact mirrors.elim
    · exact mirrors.elim
    · obtain ⟨same, behind, further, within⟩ := mirrors
      refine ⟨?_, order, further.le, within, fun _ => further⟩
      rw [← same, ← behind]

/-- How a call of `GetToken` at `p` should end: with pointers in the buffer, and `pWord_`
behind `p` unless it throws or reports `END`. -/
def StaysInBuffer (text : Text) (p : Nat) :
    Except Fault (Except Fault (Token F) × Nat × Nat) → Prop
  | .ok (.ok token, start, stop) =>
      p ≤ start ∧ start ≤ stop ∧ stop ≤ text.length ∧ (token.type ≠ .end_ → p < stop)
  | .ok (.error fault, start, stop) =>
      (∃ what, fault = .thrown what) ∧ p ≤ start ∧ start ≤ stop ∧ stop ≤ text.length
  | .error _ => False

theorem numberToken_error (lib : Library F) (word : Text) (fault : Fault)
    (failed : numberToken lib word = .error fault) : ∃ what, fault = .thrown what := by
  unfold numberToken at failed
  split at failed
  · cases failed
  · split at failed <;> cases failed
    exact ⟨_, rfl⟩

/-- What a call may fail with: an exception, or a literal without its second quote. -/
theorem tokenAt_error (lib : Library F) (ignoreSign : Bool) (p : Text) (fault : Fault)
    (failed : tokenAt lib ignoreSign p = .error fault) :
    (∃ what, fault = .thrown what) ∨ (fault = .undefined ∧ Unterminated p) := by
  rw [tokenAt] at failed
  split at failed
  · cases number : numberToken lib (between p (numberEnd p)) with
    | ok token =>
        rw [number] at failed
        cases failed
    | error fault' =>
        rw [number] at failed
        cases failed
        exact Or.inl (numberToken_error lib _ _ number)
  · split at failed
    · cases failed
    · split at failed
      · cases failed
      · split at failed
        · rename_i literal
          dsimp only at failed
          split at failed
          · rename_i endless
            cases failed
            exact Or.inr ⟨rfl, literal, endless⟩
          · cases failed
        · split at failed
          · cases failed
          · cases failed
            unfold unexpectedCharacter
            split
            · exact Or.inl ⟨_, rfl⟩
            · exact Or.inl ⟨_, rfl⟩

theorem pairType_quote (second : Char) : pairType quote second = none := by
  unfold pairType
  by_cases assigns : second = '='
  · rw [if_pos assigns]
    rfl
  · rw [if_neg assigns, if_neg fun both => absurd both.1 (by decide),
      if_neg fun both => absurd both.1 (by decide)]

theorem tokenAt_unterminated (lib : Library F) (ignoreSign : Bool) (p : Text)
    (endless : Unterminated p) : tokenAt lib ignoreSign p = .error .undefined := by
  obtain ⟨literal, none_left⟩ := endless
  have number : startsNumber ignoreSign p = false := by
    rw [startsNumber, literal]
    simp [quote, isSign]
  have pair : pairType quote (peek p 1) = none := pairType_quote _
  have single : singleType quote = none := rfl
  rw [tokenAt, number, literal, pair, single, if_neg Bool.false_ne_true, if_pos rfl]
  dsimp only
  rw [if_pos none_left]

theorem getToken_error (lib : Library F) (ignoreSign : Bool) (scan : Scanner F) (fault : Fault)
    (failed : getToken lib ignoreSign scan = .error fault) :
    (∃ what, fault = .thrown what) ∨
      (fault = .undefined ∧ Unterminated (scan.pWord.dropWhile isspace)) := by
  rw [getToken] at failed
  split at failed
  · split at failed <;> cases failed
    exact Or.inl ⟨_, rfl⟩
  · cases read : tokenAt lib ignoreSign (scan.pWord.dropWhile isspace) with
    | ok pair =>
        rw [read] at failed
        cases failed
    | error fault' =>
        rw [read] at failed
        cases failed
        exact tokenAt_error lib ignoreSign _ _ read

theorem getToken_unterminated (lib : Library F) (ignoreSign : Bool) (scan : Scanner F)
    (endless : Unterminated (scan.pWord.dropWhile isspace)) :
    getToken lib ignoreSign scan = .error .undefined := by
  have solid : peek (scan.pWord.dropWhile isspace) 0 ≠ nul := by
    rw [endless.1]
    decide
  rw [getToken, if_neg solid, tokenAt_unterminated lib ignoreSign _ endless]
  rfl

/-- A call stays in the buffer unless it stands at a literal without its second quote. -/
theorem stays_iff (lib : Library F) (text : Text) (ignoreSign : Bool) (p : Nat)
    (inside : p ≤ text.length) (type : TokenType) :
    StaysInBuffer text p (getTokenAt lib text ignoreSign type p) ↔
      ¬ Unterminated ((text.drop p).dropWhile isspace) := by
  have found := getTokenAt_found lib text ignoreSign p inside
    ⟨text.drop p, text.drop p, plainToken lib type []⟩ rfl
  change Found text p _ (getTokenAt lib text ignoreSign type p) at found
  constructor
  · intro stays endless
    rw [getToken_unterminated lib ignoreSign _ endless] at found
    revert stays found
    rcases getTokenAt lib text ignoreSign type p with fault | ⟨fault | token, start, stop⟩
    · exact fun _ stays => stays
    · rintro ⟨rfl, _⟩ ⟨⟨what, differs⟩, _⟩
      cases differs
    · exact fun found _ => found
  · intro closed
    cases list : getToken lib ignoreSign ⟨text.drop p, text.drop p, plainToken lib type []⟩ with
    | ok next =>
        rw [list] at found
        revert found
        rcases getTokenAt lib text ignoreSign type p with fault | ⟨fault | token, start, stop⟩
        · exact fun found => found
        · exact fun found => found.elim
        · rintro ⟨_, order, further, within, advances⟩
          exact ⟨order, further, within, fun solid => order.trans_lt (advances solid)⟩
    | error fault =>
        have thrown := (getToken_error lib ignoreSign _ fault list).resolve_right
          fun endless => closed endless.2
        rw [list] at found
        revert found
        rcases getTokenAt lib text ignoreSign type p with fault' | ⟨fault' | token, start, stop⟩
        · rintro ⟨rfl, _⟩
          obtain ⟨what, differs⟩ := thrown
          cases differs
        · rintro ⟨rfl, within⟩
          exact ⟨thrown, within⟩
        · exact fun found => found.elim

end EChainLib.Expr
