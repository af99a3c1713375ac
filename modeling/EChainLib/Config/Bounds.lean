import EChainLib.Support.Cursor
import EChainLib.Config.Lookup

/-! `GetIniString` with its indices: which of them it reads, and how much it copies. -/

namespace EChainLib.Config

open EChainLib.Keys (Bytes cString text)

/-- A read outside `szBuffer`, a negative `min`, or a copy of `min` bytes that does not fit. -/
inductive Fault where
  | outside (index : Int)
  | negative (min : Int)
  | overflow (min : Nat)

abbrev Checked := Except Fault

def reading {Value : Type} : Except Int Value → Checked Value
  | .ok value => return value
  | .error index => throw (.outside index)

/-- -1, or `min` and the text in `pResult`. -/
abbrev Returned := Option (Nat × Bytes)

inductive Step where
  | returned (result : Returned)
  | goesOn (iKeyFound : Bool) (i : Nat)

variable (szBuffer : Bytes)

def skipAt (more : UInt8 → Bool) (i : Nat) : Checked Nat :=
  reading (Cursor.scan more szBuffer (szBuffer.length - i) i)

def inLine (byte : UInt8) : Bool := byte ≠ chr '\n'

def ignoreAt (iKeyFound : Bool) (i : Nat) : Checked Step := do
  let i ← skipAt szBuffer inLine i
  if szBuffer.length ≤ i then
    return .returned none
  return .goesOn iKeyFound (i + 1)

/-- Behind the `=`. -/
def valueAt (i : Nat) : Checked Step := do
  let i ← skipAt szBuffer isBlank i
  if szBuffer.length ≤ i then
    return .returned none
  let j ← skipAt szBuffer inLine i
  let j ← reading (Cursor.back isBlank szBuffer j (j - 1))
  let min := j - i + 1
  if min < 0 then
    throw (.negative min)
  return .returned (some (min.toNat, ← reading (Cursor.copy 0 szBuffer min.toNat i)))

/-- Behind a `[`. -/
def headerAt (pSection : Bytes) (iKeyFound : Bool) (i : Nat) : Checked Step := do
  let i ← skipAt szBuffer isBlank i
  if szBuffer.length ≤ i then
    return .returned none
  if ← reading (Cursor.starts szBuffer i pSection) then
    let i ← skipAt szBuffer isBlank (i + pSection.length)
    if szBuffer.length ≤ i then
      return .returned none
    let closing ← reading (Cursor.read szBuffer i)
    ignoreAt szBuffer (iKeyFound || closing = chr ']') (i + 1)
  else
    ignoreAt szBuffer iKeyFound i

def keyAt (pIdent : Bytes) (iKeyFound : Bool) (i : Nat) : Checked Step := do
  if ← reading (Cursor.starts szBuffer i pIdent) then
    let i := i + pIdent.length
    if szBuffer.length ≤ i then
      return .returned none
    let i ← skipAt szBuffer isBlank i
    -- the one read without a look at iBufferLen
    if (← reading (Cursor.read szBuffer i)) = chr '=' then
      valueAt szBuffer (i + 1)
    else
      ignoreAt szBuffer iKeyFound i
  else
    ignoreAt szBuffer iKeyFound i

def turnAt (pSection pIdent : Bytes) (iKeyFound : Bool) (i : Nat) : Checked Step := do
  let i ← skipAt szBuffer isBlank i
  if szBuffer.length ≤ i then
    return .returned none
  let byte ← reading (Cursor.read szBuffer i)
  if byte = chr '#' then
    ignoreAt szBuffer iKeyFound i
  else if byte = chr '[' then
    headerAt szBuffer pSection iKeyFound (i + 1)
  else if !iKeyFound then
    ignoreAt szBuffer iKeyFound i
  else
    keyAt szBuffer pIdent iKeyFound i

def loopAt (pSection pIdent : Bytes) : Nat → Bool → Nat → Checked Returned
  | 0, _, _ => return none
  | fuel + 1, iKeyFound, i => do
      if szBuffer.length ≤ i then
        return none
      match ← turnAt szBuffer pSection pIdent iKeyFound i with
      | .returned result => return result
      | .goesOn iKeyFound i => loopAt pSection pIdent fuel iKeyFound i

def getIniStringAt (pSection pIdent : Bytes) : Checked Returned :=
  if pSection = [] ∨ pIdent = [] then return none
  else loopAt szBuffer pSection pIdent (szBuffer.length + 1) false 0

/-- `GetIniString` into `szTempBuffer`. -/
def tempBuffer (pSection pIdent : Bytes) : Checked (Option Bytes) := do
  match ← getIniStringAt szBuffer pSection pIdent with
  | none => return none
  | some (min, content) =>
      if min < MAX_VALUE_BUFFER_SIZE then return some content else throw (.overflow min)

/-- `GetIniInteger`, `GetIniLong` and `GetIniDouble`, as the conversion of the text. -/
def getIniNumber {Number : Type} (convert : Bytes → Number) (zero : Number)
    (pSection pIdent : Bytes) : Checked Number := do
  match ← tempBuffer szBuffer pSection pIdent with
  | none => return zero
  | some szTempBuffer => return convert szTempBuffer

def isHex (szTempBuffer : Bytes) : Bool := 2 < szTempBuffer.length ∧ startsHex szTempBuffer

def getIniIntegerAt : Bytes → Bytes → Checked Int :=
  getIniNumber szBuffer
    (fun szTempBuffer =>
      if isHex szTempBuffer then toInt (strtol 16 szTempBuffer) else atoi szTempBuffer) 0

def getIniLongAt : Bytes → Bytes → Checked Int :=
  getIniNumber szBuffer
    (fun szTempBuffer => if isHex szTempBuffer then strtol 16 szTempBuffer else strtol 10 szTempBuffer)
    0

def getIniDoubleAt {Double : Type} (atof : Bytes → Double) (zero : Double) :
    Bytes → Bytes → Checked Double :=
  getIniNumber szBuffer atof zero

/-! The steps, against the turns of the loop over the rest of the content. -/

/-- The step at an index is the turn at the rest from there on. -/
def Matches : Step → Turn → Prop
  | .returned none, .ends .missing => True
  | .returned (some (min, content)), .ends (.found value) =>
      min = value.length ∧ content = cString value
  | .goesOn iKeyFound i, .goesOn found next => iKeyFound = found ∧ szBuffer.drop i = next
  | _, _ => False

/-- The call at an index runs like the turn. -/
def Runs (call : Checked Step) (turn : Turn) : Prop :=
  ∃ step, call = .ok step ∧ Matches szBuffer step turn

def Faults {Value : Type} (call : Checked Value) : Prop := ∃ fault, call = .error fault

variable {szBuffer}

theorem skipAt_run (more : UInt8 → Bool) {i : Nat} {rest : Bytes} (here : szBuffer.drop i = rest) :
    ∃ place, skipAt szBuffer more i = .ok place ∧ place = i + (rest.takeWhile more).length ∧
      szBuffer.drop place = rest.dropWhile more := by
  subst here
  refine ⟨_, ?_, rfl, Cursor.drop_scan more szBuffer i⟩
  rw [skipAt, Cursor.scan_eq]
  rfl

theorem past_iff {i : Nat} {rest : Bytes} (here : szBuffer.drop i = rest) :
    szBuffer.length ≤ i ↔ rest = [] := by
  rw [← here, List.drop_eq_nil_iff]

theorem read_run {i : Nat} {byte : UInt8} {rest : Bytes} (here : szBuffer.drop i = byte :: rest) :
    reading (Cursor.read szBuffer i) = .ok byte := by
  rw [Cursor.read_drop here]
  rfl

theorem nextLine_dropWhile (rest : Bytes) :
    nextLine rest = match rest.dropWhile inLine with
      | [] => none
      | _ :: next => some next := by
  induction rest with
  | nil => rfl
  | cons byte rest ih =>
      by_cases ends : byte = chr '\n'
      · simp [nextLine, inLine, ends]
      · rw [nextLine, if_neg ends, List.dropWhile_cons_of_pos (by simpa [inLine] using ends), ih]

/-- The turn that passes over the rest of the line. -/
def ignored (iKeyFound : Bool) (rest : Bytes) : Turn :=
  match nextLine rest with
  | none => .ends .missing
  | some next => .goesOn iKeyFound next

theorem ignoreAt_runs (iKeyFound : Bool) {i : Nat} {rest : Bytes} (here : szBuffer.drop i = rest) :
    Runs szBuffer (ignoreAt szBuffer iKeyFound i) (ignored iKeyFound rest) := by
  obtain ⟨place, skipped, _, there⟩ := skipAt_run inLine here
  have run : ignoreAt szBuffer iKeyFound i = if szBuffer.length ≤ place then
      .ok (.returned none) else .ok (.goesOn iKeyFound (place + 1)) := by
    rw [ignoreAt, skipped]
    rfl
  rw [run, ignored, nextLine_dropWhile]
  cases left : rest.dropWhile inLine with
  | nil =>
      rw [if_pos ((past_iff there).mpr left)]
      exact ⟨_, rfl, trivial⟩
  | cons byte next =>
      rw [left] at there
      rw [if_neg (by rw [past_iff there]; exact List.cons_ne_nil _ _)]
      exact ⟨_, rfl, rfl, Cursor.drop_succ there⟩

/-- A value of nothing but blanks, and the end of its line. -/
def BlankValue (after : Bytes) : Prop :=
  (skipBlanks after).head? = some (chr '\n') ∧ skipBlanks after ≠ after

theorem head_not_blank {after rest : Bytes} {byte : UInt8}
    (start : after.dropWhile isBlank = byte :: rest) : isBlank byte = false := by
  have head := List.head?_dropWhile_not isBlank after
  rw [start] at head
  simpa using head

/-- The content up to the place where the value starts, or would. -/
theorem take_value {sign : Nat} {after : Bytes} (here : szBuffer.drop sign = chr '=' :: after) :
    szBuffer.take (sign + 1 + (after.takeWhile isBlank).length) =
      szBuffer.take sign ++ [chr '='] ++ after.takeWhile isBlank := by
  have split : szBuffer.drop sign = (chr '=' :: after.takeWhile isBlank) ++ skipBlanks after := by
    rw [here, List.cons_append, skipBlanks, List.takeWhile_append_dropWhile]
  have taken := Cursor.take_of_drop split
  rw [List.length_cons, ← Nat.add_assoc, Nat.add_right_comm] at taken
  rw [taken, List.append_assoc, List.singleton_append]

theorem blanks_dropped {front blanks : Bytes} (all : ∀ byte ∈ blanks, isBlank byte = true) :
    (front ++ [chr '='] ++ blanks).rdropWhile isBlank = front ++ [chr '='] := by
  rw [Cursor.rdropWhile_append, if_pos (List.rdropWhile_eq_nil_iff.mpr all),
    List.rdropWhile_concat_neg _ _ _ (by decide)]

theorem skipAt_faultless (more : UInt8 → Bool) (i : Nat) :
    skipAt szBuffer more i = .ok (i + ((szBuffer.drop i).takeWhile more).length) := by
  rw [skipAt, Cursor.scan_eq]
  rfl

/-- The run behind the blanks of a right-hand side. -/
theorem valueAt_eq {sign place : Nat} {first : UInt8} {after more : Bytes}
    (here : szBuffer.drop sign = chr '=' :: after)
    (start : skipBlanks after = first :: more)
    (at_value : place = sign + 1 + (after.takeWhile isBlank).length) {j : Int}
    (ends : reading (Cursor.back isBlank szBuffer
      (place + ((first :: more).takeWhile inLine).length)
      ((place + ((first :: more).takeWhile inLine).length : Nat) - 1)) = .ok j) :
    valueAt szBuffer (sign + 1) =
      if j - place + 1 < 0 then .error (.negative (j - place + 1))
      else (reading (Cursor.copy 0 szBuffer (j - place + 1).toNat place)).bind fun content =>
        .ok (.returned (some ((j - place + 1).toNat, content))) := by
  obtain ⟨_, skipped, rfl, there⟩ := skipAt_run isBlank (Cursor.drop_succ here)
  rw [← at_value] at skipped there
  have some_value : ¬ szBuffer.length ≤ place := by
    rw [past_iff (there.trans start)]
    exact List.cons_ne_nil _ _
  have line : skipAt szBuffer inLine place = .ok _ := skipAt_faultless inLine place
  rw [there, show after.dropWhile isBlank = first :: more from start] at line
  simp only [valueAt, skipped, bind, Except.bind, if_neg some_value, line, ends]
  by_cases negative : j - place + 1 < 0
  · rw [if_pos negative, if_pos negative]
    rfl
  · rw [if_neg negative, if_neg negative]
    rfl

/-- Where the way back from the end of the line stops. -/
theorem back_run {sign place : Nat} {first : UInt8} {after more : Bytes}
    (here : szBuffer.drop sign = chr '=' :: after)
    (start : skipBlanks after = first :: more)
    (at_value : place = sign + 1 + (after.takeWhile isBlank).length) :
    reading (Cursor.back isBlank szBuffer (place + ((first :: more).takeWhile inLine).length)
        ((place + ((first :: more).takeWhile inLine).length : Nat) - 1)) =
      .ok (if ((first :: more).takeWhile inLine).rdropWhile isBlank = [] then (sign : Int)
        else place + (((first :: more).takeWhile inLine).rdropWhile isBlank).length - 1) := by
  have inside := Cursor.lt_of_drop here
  have split : szBuffer.drop (sign + 1) = after.takeWhile isBlank ++ skipBlanks after := by
    rw [Cursor.drop_succ here, skipBlanks, List.takeWhile_append_dropWhile]
  have value := Cursor.drop_add split
  rw [← at_value, start, ← List.takeWhile_append_dropWhile (p := inLine) (l := first :: more)] at value
  have whole := Cursor.take_of_drop value
  have front := take_value here
  rw [← at_value] at front
  have place_length : (szBuffer.take place).length = place := by
    rw [front, at_value]
    simp only [List.length_append, List.length_take, min_eq_left inside.le, List.length_singleton]
  have kept : (szBuffer.take (place + ((first :: more).takeWhile inLine).length)).rdropWhile isBlank =
      if ((first :: more).takeWhile inLine).rdropWhile isBlank = [] then
        szBuffer.take sign ++ [chr '=']
      else szBuffer.take place ++ ((first :: more).takeWhile inLine).rdropWhile isBlank := by
    rw [whole, Cursor.rdropWhile_append, front]
    rw [blanks_dropped fun byte => List.mem_takeWhile_imp]
  have stops : (szBuffer.take (place + ((first :: more).takeWhile inLine).length)).rdropWhile
      isBlank ≠ [] := by
    rw [kept]
    split_ifs with blank
    · simp
    · exact fun empty => blank (List.append_eq_nil_iff.mp empty).2
  have room : place + ((first :: more).takeWhile inLine).length ≤ szBuffer.length := by
    have total := congrArg List.length whole
    have most := List.length_take_le (place + ((first :: more).takeWhile inLine).length) szBuffer
    rw [List.length_append, place_length] at total
    rw [List.length_take] at total
    omega
  rw [Cursor.back_eq isBlank szBuffer _ room stops, kept]
  split_ifs with blank
  · simp [reading, min_eq_left inside.le]
    rfl
  · rw [List.length_append, place_length, Nat.cast_add]
    rfl

theorem valueAt_faults {sign : Nat} {after : Bytes} (here : szBuffer.drop sign = chr '=' :: after)
    (blank : BlankValue after) : Faults (valueAt szBuffer (sign + 1)) := by
  obtain ⟨ended, moved⟩ := blank
  obtain ⟨more, start⟩ := List.head?_eq_some_iff.mp ended
  have some_blanks : 0 < (after.takeWhile isBlank).length := by
    by_contra none_there
    have empty := List.eq_nil_of_length_eq_zero (Nat.eq_zero_of_not_pos none_there)
    have all := List.takeWhile_append_dropWhile (p := isBlank) (l := after)
    rw [empty, List.nil_append] at all
    exact moved all
  have no_line : (chr '\n' :: more).takeWhile inLine = [] := rfl
  have ends := back_run here start rfl
  rw [if_pos (by rw [no_line]; rfl)] at ends
  rw [valueAt_eq here start rfl ends, if_pos (by omega)]
  exact ⟨_, rfl⟩

theorem valueAt_runs {sign : Nat} {after : Bytes} (here : szBuffer.drop sign = chr '=' :: after)
    (written : ¬ BlankValue after) :
    Runs szBuffer (valueAt szBuffer (sign + 1)) (.ends (valueOf after)) := by
  -- behind the blanks the text may be at its end, which is tested, or the value begins
  cases start : skipBlanks after with
  | nil =>
      obtain ⟨place, skipped, _, there⟩ := skipAt_run isBlank (Cursor.drop_succ here)
      refine ⟨.returned none, ?_, by rw [valueOf, start]; trivial⟩
      have past := (past_iff (there.trans start)).mpr rfl
      simp only [valueAt, skipped, bind, Except.bind, if_pos past]
      rfl
  | cons first more =>
      have ends := back_run here start rfl
      have value : valueOf after =
          if (first :: more).takeWhile inLine = [] ∧ first :: more ≠ after then .negative
          else .found (((first :: more).takeWhile inLine).rdropWhile isBlank) := by
        rw [valueOf, start]
        rfl
      by_cases blank : ((first :: more).takeWhile inLine).rdropWhile isBlank = []
      · -- the line starts with no blank, so it ends at once, right behind the `=`
        have no_line : inLine first = false := by
          by_contra inside
          rw [Bool.not_eq_false] at inside
          rw [List.takeWhile_cons_of_pos inside, List.rdropWhile_eq_nil_iff] at blank
          have first_blank := blank first List.mem_cons_self
          rw [head_not_blank start] at first_blank
          cases first_blank
        have newline : first = chr '\n' := by simpa [inLine] using no_line
        have unmoved : first :: more = after := by
          by_contra moved
          exact written ⟨by rw [start, newline]; rfl, start ▸ moved⟩
        have no_blanks : after.takeWhile isBlank = [] := by
          rw [← unmoved, List.takeWhile_cons_of_neg (by rw [newline]; decide)]
        rw [if_pos blank] at ends
        have at_sign : (sign : Int) -
            (sign + 1 + (after.takeWhile isBlank).length : Nat) + 1 = 0 := by
          rw [no_blanks, List.length_nil]
          omega
        have no_move : ¬ ((first :: more).takeWhile inLine = [] ∧ first :: more ≠ after) :=
          fun both => both.2 unmoved
        rw [valueAt_eq here start rfl ends, value, at_sign, if_neg no_move, blank]
        exact ⟨_, rfl, rfl, rfl⟩
      · have some_line : (first :: more).takeWhile inLine ≠ [] := by
          rintro empty
          rw [empty] at blank
          exact blank rfl
        rw [if_neg blank] at ends
        have length : ((sign + 1 + (after.takeWhile isBlank).length : Nat) +
            (((first :: more).takeWhile inLine).rdropWhile isBlank).length - 1 : Int) -
            (sign + 1 + (after.takeWhile isBlank).length : Nat) + 1 =
            ((((first :: more).takeWhile inLine).rdropWhile isBlank).length : Nat) := by omega
        have split : szBuffer.drop (sign + 1) = after.takeWhile isBlank ++ (first :: more) := by
          rw [Cursor.drop_succ here, ← start, skipBlanks, List.takeWhile_append_dropWhile]
        obtain ⟨behind, whole⟩ := (List.rdropWhile_prefix isBlank _).trans
          (List.takeWhile_prefix (l := first :: more) inLine)
        have there := Cursor.drop_add split
        rw [← whole] at there
        have copied := Cursor.copy_eq 0 there
        rw [valueAt_eq here start rfl ends, value, length, if_neg (by omega), Int.toNat_natCast,
          copied, if_neg fun both => some_line both.1]
        exact ⟨_, rfl, rfl, rfl⟩

/-- The content ends inside the name. -/
def Cut (name rest : Bytes) : Prop := rest <+: name ∧ rest ≠ name

theorem starts_faults {name rest : Bytes} {i : Nat} (here : szBuffer.drop i = rest)
    (cut : Cut name rest) : Faults (reading (Cursor.starts szBuffer i name)) := by
  subst here
  obtain ⟨index, failed⟩ := Cursor.starts_of_cut cut.1 cut.2
  rw [failed]
  exact ⟨_, rfl⟩

/-- Where the content does not end inside the name, what lies behind it plays no part. -/
theorem starts_runs {name rest : Bytes} {i : Nat} (here : szBuffer.drop i = rest)
    (whole : ¬ Cut name rest) (beyond : Bytes) :
    reading (Cursor.starts szBuffer i name) = .ok (name.isPrefixOf (rest ++ beyond)) := by
  subst here
  by_cases found : name <+: szBuffer.drop i
  · rw [Cursor.starts_of_prefix found,
      List.isPrefixOf_iff_prefix.mpr (found.trans (List.prefix_append _ _))]
    rfl
  · have longer : ¬ szBuffer.drop i <+: name := fun short =>
      whole ⟨short, fun same => found (same ▸ List.prefix_rfl)⟩
    have absent : name.isPrefixOf (szBuffer.drop i ++ beyond) = false := by
      rw [Bool.eq_false_iff, ne_eq, List.isPrefixOf_iff_prefix]
      intro starts
      rcases List.prefix_or_prefix_of_prefix starts (List.prefix_append _ beyond) with
        inside | short
      · exact found inside
      · exact longer short
    rw [Cursor.starts_of_other found longer, absent]
    rfl

/-- The turn behind a `[`. -/
def headerTurn (beyond pSection : Bytes) (iKeyFound : Bool) (rest : Bytes) : Turn :=
  match skipBlanks rest with
  | [] => .ends .missing
  | heading =>
      if pSection.isPrefixOf (heading ++ beyond) then
        match skipBlanks (heading.drop pSection.length) with
        | [] => .ends .missing
        | closing :: after => ignored (iKeyFound || closing = chr ']') after
      else ignored iKeyFound heading

/-- The turn at a key. -/
def keyTurn (beyond pIdent : Bytes) (key : Bytes) : Turn :=
  if pIdent.isPrefixOf (key ++ beyond) then
    match key.drop pIdent.length with
    | [] => .ends .missing
    | named =>
        match skipBlanks named with
        | [] => .ends .missing
        | sign :: after =>
            if sign = chr '=' then .ends (valueOf after) else ignored true (sign :: after)
  else ignored true key

theorem turn_eq (beyond pSection pIdent : Bytes) (iKeyFound : Bool) (line : Bytes) :
    turn beyond pSection pIdent iKeyFound line =
      match skipBlanks line with
      | [] => .ends .missing
      | byte :: rest =>
          if byte = chr '#' then ignored iKeyFound (byte :: rest)
          else if byte = chr '[' then headerTurn beyond pSection iKeyFound rest
          else if !iKeyFound then ignored iKeyFound (byte :: rest)
          else keyTurn beyond pIdent (byte :: rest) := by
  cases iKeyFound <;> rfl

section Header

variable {pSection rest : Bytes} {i : Nat}

theorem headerAt_faults (iKeyFound : Bool) (here : szBuffer.drop i = rest)
    (some_heading : skipBlanks rest ≠ []) (cut : Cut pSection (skipBlanks rest)) :
    Faults (headerAt szBuffer pSection iKeyFound i) := by
  obtain ⟨place, skipped, _, there⟩ := skipAt_run isBlank here
  have inside : ¬ szBuffer.length ≤ place := by
    rw [past_iff there]
    exact some_heading
  obtain ⟨fault, failed⟩ := starts_faults there cut
  refine ⟨fault, ?_⟩
  simp only [headerAt, skipped, bind, Except.bind, if_neg inside, failed]

theorem headerAt_runs (beyond : Bytes) (iKeyFound : Bool) (here : szBuffer.drop i = rest)
    (whole : skipBlanks rest = [] ∨ ¬ Cut pSection (skipBlanks rest)) :
    Runs szBuffer (headerAt szBuffer pSection iKeyFound i)
      (headerTurn beyond pSection iKeyFound rest) := by
  obtain ⟨place, skipped, _, there⟩ := skipAt_run isBlank here
  cases heading : skipBlanks rest with
  | nil =>
      refine ⟨.returned none, ?_, by rw [headerTurn, heading]; trivial⟩
      have past := (past_iff (there.trans heading)).mpr rfl
      simp only [headerAt, skipped, bind, Except.bind, if_pos past]
      rfl
  | cons first more =>
      rw [heading] at whole
      replace whole := whole.resolve_left (List.cons_ne_nil _ _)
      replace there := there.trans heading
      have inside : ¬ szBuffer.length ≤ place := by
        rw [past_iff there]
        exact List.cons_ne_nil _ _
      have compared := starts_runs there whole beyond
      simp only [headerAt, skipped, bind, Except.bind, if_neg inside, compared, headerTurn, heading]
      cases named : pSection.isPrefixOf (first :: more ++ beyond) with
      | false =>
          simp only [Bool.false_eq_true, if_false]
          exact ignoreAt_runs iKeyFound there
      | true =>
          have after_name : szBuffer.drop (place + pSection.length) =
              (first :: more).drop pSection.length := by rw [← List.drop_drop, there]
          obtain ⟨close, skipped_name, _, at_close⟩ := skipAt_run isBlank after_name
          simp only [if_true, skipped_name]
          cases closed : skipBlanks ((first :: more).drop pSection.length) with
          | nil =>
              have past := (past_iff (at_close.trans closed)).mpr rfl
              simp only [if_pos past]
              exact ⟨.returned none, rfl, trivial⟩
          | cons closing after =>
              replace at_close := at_close.trans closed
              have inside_name : ¬ szBuffer.length ≤ close := by
                rw [past_iff at_close]
                exact List.cons_ne_nil _ _
              simp only [if_neg inside_name, read_run at_close]
              exact ignoreAt_runs _ (Cursor.drop_succ at_close)

end Header

/-- The content does not end inside the key, nor in the blanks behind it, and the value is
not blank. -/
structure KeyWhole (pIdent key : Bytes) : Prop where
  whole : ¬ Cut pIdent key
  signed : ∀ named, key = pIdent ++ named → named ≠ [] → skipBlanks named ≠ []
  written : ∀ named after, key = pIdent ++ named → skipBlanks named = chr '=' :: after →
    ¬ BlankValue after

section Key

variable {pIdent key : Bytes} {i : Nat}

theorem keyAt_faults (here : szBuffer.drop i = key) (broken : ¬ KeyWhole pIdent key) :
    Faults (keyAt szBuffer pIdent true i) := by
  by_cases cut : Cut pIdent key
  · obtain ⟨fault, failed⟩ := starts_faults here cut
    refine ⟨fault, ?_⟩
    simp only [keyAt, bind, Except.bind, failed]
  by_cases named : pIdent <+: key
  swap
  · exact absurd ⟨cut, fun rest split => absurd ⟨rest, split.symm⟩ named,
      fun rest _ split => absurd ⟨rest, split.symm⟩ named⟩ broken
  obtain ⟨rest, rfl⟩ := named
  have compared := starts_runs here cut []
  rw [List.append_nil, List.isPrefixOf_iff_prefix.mpr (List.prefix_append _ _)] at compared
  have at_rest := Cursor.drop_add here
  obtain ⟨place, skipped, _, there⟩ := skipAt_run isBlank at_rest
  have same {other : Bytes} (split : pIdent ++ rest = pIdent ++ other) : other = rest :=
    (List.append_cancel_left split).symm
  cases rest with
  | nil =>
      refine absurd ⟨cut, fun other split some_rest => ?_, fun other after split sign => ?_⟩ broken
      · exact absurd (same split) some_rest
      · rw [same split] at sign
        cases sign
  | cons first rest =>
      have inside : ¬ szBuffer.length ≤ i + pIdent.length := by
        rw [past_iff at_rest]
        exact List.cons_ne_nil _ _
      simp only [keyAt, bind, Except.bind, compared, if_true, if_neg inside, skipped]
      cases signed : skipBlanks (first :: rest) with
      | nil =>
          rw [Cursor.read_past (there.trans signed)]
          exact ⟨_, rfl⟩
      | cons sign after =>
          replace there := there.trans signed
          rw [read_run there]
          have blank : sign = chr '=' ∧ BlankValue after := by
            by_contra fine
            refine broken ⟨cut, fun other split _ => ?_, fun other value split equals lost => ?_⟩
            · rw [same split, signed]
              exact List.cons_ne_nil _ _
            · rw [same split, signed] at equals
              cases equals
              exact fine ⟨rfl, lost⟩
          obtain ⟨rfl, lost⟩ := blank
          exact valueAt_faults there lost

theorem keyAt_runs (beyond : Bytes) (here : szBuffer.drop i = key)
    (fine : KeyWhole pIdent key) :
    Runs szBuffer (keyAt szBuffer pIdent true i) (keyTurn beyond pIdent key) := by
  have compared := starts_runs here fine.whole beyond
  cases found : pIdent.isPrefixOf (key ++ beyond) with
  | false =>
      rw [found] at compared
      simp only [keyAt, bind, Except.bind, compared, keyTurn, found, Bool.false_eq_true, if_false]
      exact ignoreAt_runs true here
  | true =>
      rw [found] at compared
      obtain ⟨named, rfl⟩ : pIdent <+: key := by
        rcases List.prefix_or_prefix_of_prefix (List.isPrefixOf_iff_prefix.mp found)
          (List.prefix_append key beyond) with inside | short
        · exact inside
        · by_contra absent
          exact fine.whole ⟨short, fun same => absent (same ▸ List.prefix_rfl)⟩
      have at_rest := Cursor.drop_add here
      simp only [keyAt, bind, Except.bind, compared, keyTurn, found, if_true, List.drop_left]
      cases named with
      | nil =>
          have past := (past_iff at_rest).mpr rfl
          simp only [if_pos past]
          exact ⟨.returned none, rfl, trivial⟩
      | cons first named =>
          have inside : ¬ szBuffer.length ≤ i + pIdent.length := by
            rw [past_iff at_rest]
            exact List.cons_ne_nil _ _
          obtain ⟨place, skipped, _, there⟩ := skipAt_run isBlank at_rest
          simp only [if_neg inside, skipped]
          cases signed : skipBlanks (first :: named) with
          | nil => exact absurd signed (fine.signed _ rfl (List.cons_ne_nil _ _))
          | cons sign after =>
              replace there := there.trans signed
              simp only [read_run there]
              by_cases equals : sign = chr '='
              · subst equals
                simp only [if_true]
                exact valueAt_runs there (fine.written _ after rfl signed)
              · simp only [if_neg equals]
                exact ignoreAt_runs true there

end Key

/-! A turn, and the whole loop. -/

/-- The content does not end inside a name that is compared, nor behind the key, and the
value is not blank. -/
def TurnWhole (pSection pIdent : Bytes) (iKeyFound : Bool) (line : Bytes) : Prop :=
  match skipBlanks line with
  | [] => True
  | byte :: rest =>
      if byte = chr '#' then True
      else if byte = chr '[' then skipBlanks rest = [] ∨ ¬ Cut pSection (skipBlanks rest)
      else iKeyFound = true → KeyWhole pIdent (byte :: rest)

section Turns

variable {pSection pIdent line : Bytes} {i : Nat}

theorem turnAt_faults (iKeyFound : Bool) (here : szBuffer.drop i = line)
    (broken : ¬ TurnWhole pSection pIdent iKeyFound line) :
    Faults (turnAt szBuffer pSection pIdent iKeyFound i) := by
  obtain ⟨place, skipped, _, there⟩ := skipAt_run isBlank here
  unfold TurnWhole at broken
  cases start : skipBlanks line with
  | nil =>
      rw [start] at broken
      exact absurd trivial broken
  | cons byte rest =>
      simp only [start] at broken
      replace there := there.trans start
      have inside : ¬ szBuffer.length ≤ place := by
        rw [past_iff there]
        exact List.cons_ne_nil _ _
      simp only [turnAt, skipped, bind, Except.bind, if_neg inside, read_run there]
      split_ifs at broken with comment header
      · exact absurd trivial broken
      · obtain ⟨some_heading, cut⟩ := not_or.mp broken
        rw [if_neg comment, if_pos header]
        exact headerAt_faults iKeyFound (Cursor.drop_succ there) some_heading (not_not.mp cut)
      · obtain ⟨rfl, lost⟩ := Classical.not_imp.mp broken
        rw [if_neg comment, if_neg header]
        exact keyAt_faults there lost

theorem turnAt_runs (beyond : Bytes) (iKeyFound : Bool) (here : szBuffer.drop i = line)
    (fine : TurnWhole pSection pIdent iKeyFound line) :
    Runs szBuffer (turnAt szBuffer pSection pIdent iKeyFound i)
      (turn beyond pSection pIdent iKeyFound line) := by
  obtain ⟨place, skipped, _, there⟩ := skipAt_run isBlank here
  unfold TurnWhole at fine
  rw [turn_eq]
  cases start : skipBlanks line with
  | nil =>
      have past := (past_iff (there.trans start)).mpr rfl
      simp only [turnAt, skipped, bind, Except.bind, if_pos past]
      exact ⟨.returned none, rfl, trivial⟩
  | cons byte rest =>
      simp only [start] at fine
      replace there := there.trans start
      have inside : ¬ szBuffer.length ≤ place := by
        rw [past_iff there]
        exact List.cons_ne_nil _ _
      simp only [turnAt, skipped, bind, Except.bind, if_neg inside, read_run there]
      split_ifs at fine ⊢ with comment header waiting
      · exact ignoreAt_runs iKeyFound there
      · exact headerAt_runs beyond iKeyFound (Cursor.drop_succ there) fine
      · exact ignoreAt_runs iKeyFound there
      · cases iKeyFound with
        | false => exact absurd rfl waiting
        | true => exact keyAt_runs beyond there (fine rfl)

end Turns

theorem skipBlanks_length (rest : Bytes) : (skipBlanks rest).length ≤ rest.length :=
  (List.dropWhile_sublist _).length_le

theorem ignored_shorter {iKeyFound found : Bool} {rest next : Bytes}
    (goes : ignored iKeyFound rest = .goesOn found next) : next.length < rest.length := by
  unfold ignored at goes
  rw [nextLine_dropWhile] at goes
  have short : (rest.dropWhile inLine).length ≤ rest.length := (List.dropWhile_sublist _).length_le
  cases left : rest.dropWhile inLine with
  | nil =>
      rw [left] at goes
      cases goes
  | cons byte after =>
      rw [left] at goes short
      cases goes
      exact short

theorem headerTurn_shorter {beyond pSection rest next : Bytes} {iKeyFound found : Bool}
    (goes : headerTurn beyond pSection iKeyFound rest = .goesOn found next) :
    next.length < rest.length := by
  have heading_short := skipBlanks_length rest
  unfold headerTurn at goes
  cases heading : skipBlanks rest with
  | nil =>
      rw [heading] at goes
      cases goes
  | cons first more =>
      simp only [heading] at goes
      rw [heading] at heading_short
      split_ifs at goes with named
      · have close_short := skipBlanks_length ((first :: more).drop pSection.length)
        rw [List.length_drop] at close_short
        cases closed : skipBlanks ((first :: more).drop pSection.length) with
        | nil =>
            simp only [closed] at goes
            cases goes
        | cons closing after =>
            simp only [closed] at goes
            have shorter := ignored_shorter goes
            rw [closed, List.length_cons] at close_short
            omega
      · exact (ignored_shorter goes).trans_le heading_short

theorem keyTurn_shorter {beyond pIdent key next : Bytes} {found : Bool}
    (goes : keyTurn beyond pIdent key = .goesOn found next) : next.length < key.length := by
  unfold keyTurn at goes
  split_ifs at goes with named
  · have left_short : (key.drop pIdent.length).length ≤ key.length := by
      rw [List.length_drop]
      exact Nat.sub_le _ _
    cases left : key.drop pIdent.length with
    | nil =>
        rw [left] at goes
        cases goes
    | cons first rest =>
        have sign_short := skipBlanks_length (first :: rest)
        rw [left] at left_short
        simp only [left] at goes
        cases signed : skipBlanks (first :: rest) with
        | nil =>
            simp only [signed] at goes
            cases goes
        | cons sign after =>
            simp only [signed] at goes
            rw [signed] at sign_short
            split_ifs at goes
            exact (ignored_shorter goes).trans_le (sign_short.trans left_short)
  · exact ignored_shorter goes

theorem turn_shorter {beyond pSection pIdent line next : Bytes} {iKeyFound found : Bool}
    (goes : turn beyond pSection pIdent iKeyFound line = .goesOn found next) :
    next.length < line.length := by
  have short := skipBlanks_length line
  rw [turn_eq] at goes
  cases start : skipBlanks line with
  | nil =>
      rw [start] at goes
      cases goes
  | cons byte rest =>
      rw [start] at short
      simp only [start] at goes
      rw [List.length_cons] at short
      split_ifs at goes
      · exact (ignored_shorter goes).trans_le short
      · exact (headerTurn_shorter goes).trans (Nat.lt_of_succ_le short)
      · exact (ignored_shorter goes).trans_le short
      · exact (keyTurn_shorter goes).trans_le short

/-- Where a turn starts: whether the section is found, and the content from there on. -/
abbrev Place := Bool × Bytes

/-- The loop comes from the one place to the other. -/
def Follows (pSection pIdent : Bytes) (place next : Place) : Prop :=
  turn [] pSection pIdent place.1 place.2 = .goesOn next.1 next.2

abbrev Reaches (pSection pIdent : Bytes) : Place → Place → Prop :=
  Relation.ReflTransGen (Follows pSection pIdent)

/-- What is copied, and how much of it. -/
def returnedOf : IniValue → Returned
  | .found value => some (value.length, cString value)
  | _ => none

theorem matches_returned {result : Returned} {value : IniValue}
    (same : Matches szBuffer (.returned result) (.ends value)) : result = returnedOf value := by
  cases result with
  | none => cases value <;> first | rfl | cases same
  | some copy =>
      cases value with
      | found value => exact congrArg some (Prod.ext same.1 same.2)
      | missing => cases same
      | negative => cases same

section Loop

variable {pSection pIdent : Bytes}

/-- Every place reached is whole, and where a turn ends the loop its result is as asked. -/
def Sound (pSection pIdent : Bytes) (asked : Returned → Prop) (start : Place) : Prop :=
  ∀ place, Reaches pSection pIdent start place →
    TurnWhole pSection pIdent place.1 place.2 ∧
      ∀ value, turn [] pSection pIdent place.1 place.2 = .ends value → asked (returnedOf value)

variable {iKeyFound : Bool} {line : Bytes} {asked : Returned → Prop}

theorem sound_ends {value : IniValue}
    (ends : turn [] pSection pIdent iKeyFound line = .ends value) :
    Sound pSection pIdent asked (iKeyFound, line) ↔
      TurnWhole pSection pIdent iKeyFound line ∧ asked (returnedOf value) := by
  constructor
  · intro sound
    obtain ⟨whole, result⟩ := sound _ .refl
    exact ⟨whole, result value ends⟩
  · rintro ⟨whole, result⟩ place reached
    rcases reached.cases_head with rfl | ⟨next, follows, _⟩
    · refine ⟨whole, fun other same => ?_⟩
      cases ends.symm.trans same
      exact result
    · cases ends.symm.trans follows

theorem sound_goesOn {found : Bool} {rest : Bytes}
    (goes : turn [] pSection pIdent iKeyFound line = .goesOn found rest) :
    Sound pSection pIdent asked (iKeyFound, line) ↔
      TurnWhole pSection pIdent iKeyFound line ∧ Sound pSection pIdent asked (found, rest) := by
  constructor
  · intro sound
    have follows : Follows pSection pIdent (iKeyFound, line) (found, rest) := goes
    exact ⟨(sound _ .refl).1, fun place reached => sound place (.head follows reached)⟩
  · rintro ⟨whole, sound⟩ place reached
    rcases reached.cases_head with rfl | ⟨⟨other, next⟩, follows, reached⟩
    · refine ⟨whole, fun value ends => ?_⟩
      cases goes.symm.trans ends
    · cases goes.symm.trans follows
      exact sound place reached

def Step.resume (loop : Bool → Nat → Checked Returned) : Step → Checked Returned
  | .returned result => .ok result
  | .goesOn iKeyFound i => loop iKeyFound i

theorem loopAt_succ {i : Nat} {step : Step} (inside : ¬ szBuffer.length ≤ i)
    (ran : turnAt szBuffer pSection pIdent iKeyFound i = .ok step) (fuel : Nat) :
    loopAt szBuffer pSection pIdent (fuel + 1) iKeyFound i =
      step.resume (loopAt szBuffer pSection pIdent fuel) := by
  rw [loopAt, if_neg inside, ran]
  cases step <;> rfl

-- Induction on the turns left: a turn at a place that is not whole ends in a fault.
theorem loopAt_iff (asked : Returned → Prop) (fuel : Nat) (iKeyFound : Bool) (i : Nat) (line : Bytes)
    (here : szBuffer.drop i = line) (enough : line.length < fuel) :
    (∃ result, loopAt szBuffer pSection pIdent fuel iKeyFound i = .ok result ∧ asked result) ↔
      Sound pSection pIdent asked (iKeyFound, line) := by
  induction fuel generalizing iKeyFound i line with
  | zero => exact absurd enough (Nat.not_lt_zero _)
  | succ fuel ih =>
      by_cases past : szBuffer.length ≤ i
      · have empty := (past_iff here).mp past
        have ends : turn [] pSection pIdent iKeyFound line = .ends .missing := by
          rw [turn_eq, empty]
          rfl
        have whole : TurnWhole pSection pIdent iKeyFound line := by
          rw [TurnWhole, empty]
          trivial
        have run : loopAt szBuffer pSection pIdent (fuel + 1) iKeyFound i = .ok none := by
          rw [loopAt, if_pos past]
          rfl
        rw [sound_ends ends, run]
        simp [whole, returnedOf]
      by_cases whole : TurnWhole pSection pIdent iKeyFound line
      · obtain ⟨step, ran, same⟩ := turnAt_runs [] iKeyFound here whole
        rw [loopAt_succ past ran]
        cases next : turn [] pSection pIdent iKeyFound line with
        | ends value =>
            rw [next] at same
            cases step with
            | goesOn found i => cases same
            | returned result =>
                rw [sound_ends next, ← matches_returned same]
                simp [whole, Step.resume]
        | goesOn found rest =>
            rw [next] at same
            cases step with
            | returned result => cases result <;> cases same
            | goesOn other i =>
                obtain ⟨rfl, there⟩ := same
                have shorter := turn_shorter next
                rw [sound_goesOn next, Step.resume, ih other i rest there (by omega)]
                simp [whole]
      · obtain ⟨fault, failed⟩ := turnAt_faults iKeyFound here whole
        have run : loopAt szBuffer pSection pIdent (fuel + 1) iKeyFound i = .error fault := by
          rw [loopAt, if_neg past, failed]
          rfl
        rw [run]
        constructor
        · rintro ⟨result, lost, _⟩
          cases lost
        · intro sound
          exact absurd (sound (iKeyFound, line) .refl).1 whole

-- The same induction, for whatever lies behind the content.
theorem loopAt_refines (beyond : Bytes) (fuel : Nat) (iKeyFound : Bool) (i : Nat) (line : Bytes)
    (here : szBuffer.drop i = line) {result : Returned}
    (ran : loopAt szBuffer pSection pIdent fuel iKeyFound i = .ok result) :
    Matches szBuffer (.returned result)
      (.ends (iniLoop beyond pSection pIdent fuel iKeyFound line)) := by
  induction fuel generalizing iKeyFound i line with
  | zero =>
      cases ran
      trivial
  | succ fuel ih =>
      rw [iniLoop_succ]
      by_cases past : szBuffer.length ≤ i
      · rw [loopAt, if_pos past] at ran
        cases ran
        rw [turn_eq, (past_iff here).mp past]
        trivial
      rw [loopAt, if_neg past] at ran
      by_cases whole : TurnWhole pSection pIdent iKeyFound line
      · obtain ⟨step, stepped, same⟩ := turnAt_runs beyond iKeyFound here whole
        rw [stepped] at ran
        cases next : turn beyond pSection pIdent iKeyFound line with
        | ends value =>
            rw [next] at same
            cases step with
            | goesOn found i => cases same
            | returned other =>
                cases ran
                exact same
        | goesOn found rest =>
            rw [next] at same
            cases step with
            | returned result => cases result <;> cases same
            | goesOn other i =>
                obtain ⟨rfl, there⟩ := same
                exact ih other i rest there ran
      · obtain ⟨fault, failed⟩ := turnAt_faults iKeyFound here whole
        rw [failed] at ran
        cases ran

end Loop

/-! The calls. -/

section Calls

variable (szBuffer) (pSection pIdent : Bytes)

/-- A name is missing, or every place reached is whole, and where a turn ends the loop its
result is as asked. -/
def CallSound (asked : Returned → Prop) : Prop :=
  pSection = [] ∨ pIdent = [] ∨ Sound pSection pIdent asked (false, szBuffer)

theorem getIniStringAt_iff (asked : Returned → Prop) (nothing : asked none) :
    (∃ result, getIniStringAt szBuffer pSection pIdent = .ok result ∧ asked result) ↔
      CallSound szBuffer pSection pIdent asked := by
  unfold getIniStringAt CallSound
  rw [← or_assoc]
  by_cases unnamed : pSection = [] ∨ pIdent = []
  · rw [if_pos unnamed]
    exact iff_of_true ⟨none, rfl, nothing⟩ (.inl unnamed)
  · rw [if_neg unnamed, loopAt_iff asked _ false 0 szBuffer rfl (Nat.lt_succ_self _)]
    exact (or_iff_right unnamed).symm

/-- A run without a fault returns what the call returns, whatever lies behind the content. -/
theorem getIniStringAt_refines (beyond : Bytes) {result : Returned}
    (ran : getIniStringAt szBuffer pSection pIdent = .ok result) :
    Matches szBuffer (.returned result)
      (.ends (getIniString (some ⟨szBuffer, beyond⟩) pSection pIdent)) := by
  unfold getIniStringAt at ran
  unfold getIniString
  dsimp only
  split_ifs at ran ⊢
  · cases ran
    trivial
  · exact loopAt_refines beyond _ false 0 szBuffer rfl ran

/-- A copy with its terminator fits `szTempBuffer`. -/
def FitsTemp : Returned → Prop
  | none => True
  | some (min, _) => min < MAX_VALUE_BUFFER_SIZE

theorem tempBuffer_iff :
    (∃ szTempBuffer, tempBuffer szBuffer pSection pIdent = .ok szTempBuffer) ↔
      ∃ result, getIniStringAt szBuffer pSection pIdent = .ok result ∧ FitsTemp result := by
  unfold tempBuffer
  cases getIniStringAt szBuffer pSection pIdent with
  | error fault => simp [bind, Except.bind]
  | ok result =>
      rcases result with _ | ⟨min, content⟩
      · exact iff_of_true ⟨none, rfl⟩ ⟨none, rfl, trivial⟩
      · by_cases fits : min < MAX_VALUE_BUFFER_SIZE
        · simp [bind, Except.bind, FitsTemp, fits, pure, Except.pure]
        · simp [bind, Except.bind, FitsTemp, fits, throw, throwThe, MonadExceptOf.throw]

theorem getIniNumber_iff {Number : Type} (convert : Bytes → Number) (zero : Number) :
    (∃ number, getIniNumber szBuffer convert zero pSection pIdent = .ok number) ↔
      ∃ szTempBuffer, tempBuffer szBuffer pSection pIdent = .ok szTempBuffer := by
  unfold getIniNumber
  cases tempBuffer szBuffer pSection pIdent with
  | error fault => simp [bind, Except.bind]
  | ok szTempBuffer =>
      cases szTempBuffer <;> simp [bind, Except.bind, pure, Except.pure]

/-- No call reads outside the content, computes a negative `min` or copies more than fits. -/
structure InBounds : Prop where
  string : ∃ result, getIniStringAt szBuffer pSection pIdent = .ok result
  integer : ∃ number, getIniIntegerAt szBuffer pSection pIdent = .ok number
  long : ∃ number, getIniLongAt szBuffer pSection pIdent = .ok number
  double : ∀ {Double : Type} (atof : Bytes → Double) (zero : Double),
    ∃ number, getIniDoubleAt szBuffer atof zero pSection pIdent = .ok number

/-- The calls stay in bounds exactly where no place that the loop reaches is cut off or has a
blank value, and the value found fits the buffer of the numbers. -/
theorem ini_bounds_iff :
    InBounds szBuffer pSection pIdent ↔ CallSound szBuffer pSection pIdent FitsTemp := by
  rw [← getIniStringAt_iff szBuffer pSection pIdent FitsTemp trivial]
  constructor
  · intro inside
    rw [← tempBuffer_iff, ← getIniNumber_iff szBuffer pSection pIdent]
    exact inside.integer
  · intro fits
    have temp := (tempBuffer_iff szBuffer pSection pIdent).mpr fits
    obtain ⟨result, ran, _⟩ := fits
    exact ⟨⟨result, ran⟩, (getIniNumber_iff szBuffer pSection pIdent _ _).mpr temp,
      (getIniNumber_iff szBuffer pSection pIdent _ _).mpr temp,
      fun atof zero => (getIniNumber_iff szBuffer pSection pIdent atof zero).mpr temp⟩

end Calls

/-- On the way back over a blank value the loop passes its start. -/
theorem blank_value_is_negative : ¬ InBounds (text "[a]\nk=  \n") (text "a") (text "k") := by
  rintro ⟨⟨result, ran⟩, -⟩
  have failed : (getIniStringAt (text "[a]\nk=  \n") (text "a") (text "k")).isOk = false := by
    decide +kernel
  rw [ran] at failed
  cases failed

end EChainLib.Config
