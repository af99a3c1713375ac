import EChainLib.Config.Ini

/-! What `GetIniString` finds in a file of lines, against the entry that the file
has for the name in the section. -/

namespace EChainLib.Config

open EChainLib.Keys (Bytes cString text)

/-! One turn of the loop. -/

inductive Turn where
  | ends (value : IniValue)
  | goesOn (iKeyFound : Bool) (next : Bytes)

def turn (beyond pSection pIdent : Bytes) (iKeyFound : Bool) (line : Bytes) : Turn :=
  let ignore (found : Bool) (rest : Bytes) : Turn :=
    match nextLine rest with
    | none => .ends .missing
    | some next => .goesOn found next
  match skipBlanks line with
  | [] => .ends .missing
  | byte :: rest =>
      if byte = chr '#' then
        ignore iKeyFound (byte :: rest)
      else if byte = chr '[' then
        match skipBlanks rest with
        | [] => .ends .missing
        | heading =>
            if pSection.isPrefixOf (heading ++ beyond) then
              match skipBlanks (heading.drop pSection.length) with
              | [] => .ends .missing
              | closing :: after => ignore (iKeyFound || closing = chr ']') after
            else
              ignore iKeyFound heading
      else if !iKeyFound then
        ignore iKeyFound (byte :: rest)
      else if pIdent.isPrefixOf (byte :: rest ++ beyond) then
        match (byte :: rest).drop pIdent.length with
        | [] => .ends .missing
        | named =>
            match skipBlanks named with
            | [] => .ends .missing
            | sign :: after =>
                if sign = chr '=' then .ends (valueOf after)
                else ignore iKeyFound (sign :: after)
      else
        ignore iKeyFound (byte :: rest)

variable (beyond pSection pIdent : Bytes)

/-- The value of the loop behind a turn. -/
def Turn.resume (loop : Bool → Bytes → IniValue) : Turn → IniValue
  | .ends value => value
  | .goesOn found next => loop found next

theorem iniLoop_succ (fuel : Nat) (iKeyFound : Bool) (line : Bytes) :
    iniLoop beyond pSection pIdent (fuel + 1) iKeyFound line =
      (turn beyond pSection pIdent iKeyFound line).resume
        (iniLoop beyond pSection pIdent fuel) := by
  have ignored (found : Bool) (rest : Bytes) :
      (match nextLine rest with
        | none => IniValue.missing
        | some next => iniLoop beyond pSection pIdent fuel found next) =
      (match nextLine rest with
        | none => Turn.ends .missing
        | some next => .goesOn found next).resume (iniLoop beyond pSection pIdent fuel) := by
    cases nextLine rest <;> rfl
  -- the branches of one turn, in the order of the source
  rw [iniLoop, turn]
  cases skipBlanks line with
  | nil => rfl
  | cons byte rest =>
      dsimp only
      by_cases comment : byte = chr '#'
      · simp only [if_pos comment]
        exact ignored _ _
      simp only [if_neg comment]
      by_cases header : byte = chr '['
      · simp only [if_pos header]
        cases skipBlanks rest with
        | nil => rfl
        | cons first heading =>
            dsimp only
            by_cases named : pSection.isPrefixOf (first :: heading ++ beyond)
            · simp only [if_pos named]
              cases skipBlanks ((first :: heading).drop pSection.length) with
              | nil => rfl
              | cons closing after => exact ignored _ _
            · simp only [if_neg named]
              exact ignored _ _
      simp only [if_neg header]
      by_cases waiting : (!iKeyFound) = true
      · simp only [if_pos waiting]
        exact ignored _ _
      simp only [if_neg waiting]
      by_cases named : pIdent.isPrefixOf (byte :: rest ++ beyond)
      · simp only [if_pos named]
        cases (byte :: rest).drop pIdent.length with
        | nil => rfl
        | cons first named =>
            dsimp only
            cases skipBlanks (first :: named) with
            | nil => rfl
            | cons sign after =>
                dsimp only
                by_cases equals : sign = chr '='
                · simp only [if_pos equals]
                  rfl
                · simp only [if_neg equals]
                  exact ignored _ _
      · simp only [if_neg named]
        exact ignored _ _

/-! The file as lines. -/

/-- A section or a key, as it can stand on a line. -/
structure Name where
  bytes : Bytes
  nonempty : bytes ≠ []
  no_zero : (0 : UInt8) ∉ bytes
  one_line : chr '\n' ∉ bytes

/-- A line opens a section, if its first character behind the blanks is a bracket. -/
def isHeader (line : Bytes) : Bool := (skipBlanks line).head? = some (chr '[')

def isComment (line : Bytes) : Bool := (skipBlanks line).head? = some (chr '#')

/-- What stands behind the name and its blanks in a text that starts with the name. -/
def behindName (name content : Bytes) : Option Bytes :=
  if name.isPrefixOf content then some (skipBlanks (content.drop name.length)) else none

/-- What a header has behind the name. -/
def headerRest (pSection line : Bytes) : Option Bytes :=
  if isHeader line then behindName pSection (skipBlanks ((skipBlanks line).drop 1)) else none

/-- The header of the section with exactly this name. -/
def heads (pSection line : Bytes) : Bool :=
  (headerRest pSection line).any fun rest => rest.head? = some (chr ']')

/-- A header which ends behind the name. -/
def unclosed (pSection line : Bytes) : Bool := headerRest pSection line = some []

/-- The right-hand side of a line `pIdent = value`. -/
def entryOf (pIdent line : Bytes) : Option Bytes :=
  if isComment line || isHeader line then none
  else
    match behindName pIdent (skipBlanks line) with
    | some (sign :: value) => if sign = chr '=' then some value else none
    | _ => none

def trimmed (value : Bytes) : Bytes := (skipBlanks value).rdropWhile isBlank

/-- The lines inside the sections with this name. -/
def sectionLines (pSection : Bytes) : Bool → List Bytes → List Bytes
  | _, [] => []
  | inside, line :: rest =>
      if isHeader line then sectionLines pSection (heads pSection line) rest
      else if inside then line :: sectionLines pSection inside rest
      else sectionLines pSection inside rest

/-- The value of the first entry for `pIdent` inside a section with the name `pSection`. -/
def lookup (pSection pIdent : Bytes) (lines : List Bytes) : Option Bytes :=
  ((sectionLines pSection false lines).findSome? (entryOf pIdent)).map trimmed

/-- All lines but those behind an unclosed header of the section. -/
def looked (pSection : Bytes) : List Bytes → List Bytes
  | [] => []
  | line :: rest =>
      if unclosed pSection line then
        match rest with
        | [] => [line]
        | _ :: rest => line :: looked pSection rest
      else line :: looked pSection rest

/-- The right-hand side of the first entry for `pIdent` behind the first header of the section,
in whatever section it stands. -/
def seen (pSection pIdent : Bytes) (lines : List Bytes) : Option Bytes :=
  (((looked pSection lines).dropWhile fun line => !heads pSection line).drop 1).findSome?
    (entryOf pIdent)

/-- The value that is taken from a right-hand side. -/
def taken (value : Bytes) : IniValue :=
  if skipBlanks value = [] ∧ value ≠ [] then .negative else .found (trimmed value)

/-! The loop over the lines. `tail` is what follows a line. -/

def tail : List Bytes → Bytes
  | [] => []
  | line :: rest => chr '\n' :: (line ++ tail rest)

theorem skipBlanks_tail (rest : List Bytes) : skipBlanks (tail rest) = tail rest := by
  cases rest with
  | nil => rfl
  | cons line rest => rfl

theorem skipBlanks_line (line : Bytes) (rest : List Bytes) :
    skipBlanks (line ++ tail rest) = skipBlanks line ++ tail rest := by
  induction line with
  | nil => exact skipBlanks_tail rest
  | cons byte line ih =>
      unfold skipBlanks at ih ⊢
      rw [List.cons_append, List.dropWhile_cons, List.dropWhile_cons]
      split
      · exact ih
      · rfl

/-- The turn goes on with the first of the lines. -/
def goOn (iKeyFound : Bool) : List Bytes → Turn
  | [] => .ends .missing
  | line :: rest => .goesOn iKeyFound (line ++ tail rest)

theorem ignore_line (iKeyFound : Bool) (line : Bytes) (clean : chr '\n' ∉ line)
    (rest : List Bytes) :
    (match nextLine (line ++ tail rest) with
      | none => Turn.ends .missing
      | some next => .goesOn iKeyFound next) = goOn iKeyFound rest := by
  induction line with
  | nil =>
      cases rest with
      | nil => rfl
      | cons next rest => simp [tail, nextLine, goOn]
  | cons byte line ih =>
      have first : byte ≠ chr '\n' := fun same => clean (same ▸ List.mem_cons_self)
      rw [List.cons_append, nextLine, if_neg first]
      exact ih fun member => clean (List.mem_cons_of_mem _ member)

/-- A name that a line does not hold is not found across its end. -/
theorem not_prefix_line (name : Name) (line : Bytes) (next : Bytes) (rest : List Bytes)
    (absent : ¬ name.bytes <+: line) :
    ¬ name.bytes <+: line ++ tail (next :: rest) ++ beyond := by
  intro starts
  rw [List.append_assoc] at starts
  rcases List.prefix_or_prefix_of_prefix starts (List.prefix_append line _) with inside | ⟨more, split⟩
  · exact absent inside
  · rw [← split, List.prefix_append_right_inj] at starts
    cases more with
    | nil => exact absent (by rw [← split, List.append_nil])
    | cons byte more =>
        have first : byte = chr '\n' := (List.cons_prefix_cons.mp starts).1
        apply name.one_line
        rw [← split, first]
        simp

/-- A turn of the loop at a line. -/
def lineTurn (pSection pIdent : Bytes) (iKeyFound : Bool) (line : Bytes) (rest : List Bytes) :
    Turn :=
  if unclosed pSection line then goOn iKeyFound (rest.drop 1)
  else if heads pSection line then goOn true rest
  else
    match iKeyFound, entryOf pIdent line with
    | true, some value => .ends (valueOf (value ++ tail rest))
    | _, _ => goOn iKeyFound rest

theorem lineTurn_other {pSection pIdent line : Bytes} (iKeyFound : Bool) (rest : List Bytes)
    (no_header : headerRest pSection line = none) (no_entry : entryOf pIdent line = none) :
    lineTurn pSection pIdent iKeyFound line rest = goOn iKeyFound rest := by
  simp only [lineTurn, unclosed, heads, no_header, no_entry]
  cases iKeyFound <;> rfl

theorem headerRest_other {line : Bytes} (pSection : Bytes) (other : isHeader line = false) :
    headerRest pSection line = none := by
  rw [headerRest, other]
  rfl

theorem entryOf_header {line : Bytes} (pIdent : Bytes) (header : isHeader line = true) :
    entryOf pIdent line = none := by
  rw [entryOf, header, Bool.or_true]
  rfl

theorem skipBlanks_clean {line : Bytes} (clean : chr '\n' ∉ line) : chr '\n' ∉ skipBlanks line :=
  fun member => clean (List.dropWhile_sublist _ |>.mem member)

theorem behindName_clean {name content rest : Bytes} (clean : chr '\n' ∉ content)
    (found : behindName name content = some rest) : chr '\n' ∉ rest := by
  unfold behindName at found
  split at found
  · cases found
    exact skipBlanks_clean fun member => clean (List.mem_of_mem_drop member)
  · cases found

/-- What the source does behind a `[`, and behind a key: the name, the blanks, and the rest. -/
theorem name_line (name : Name) (content : Bytes) (rest : List Bytes) :
    (∃ after, behindName name.bytes content = some after ∧
      name.bytes.isPrefixOf (content ++ tail rest ++ beyond) = true ∧
      skipBlanks ((content ++ tail rest).drop name.bytes.length) = after ++ tail rest) ∨
    (behindName name.bytes content = none ∧
      (rest ≠ [] → name.bytes.isPrefixOf (content ++ tail rest ++ beyond) = false) ∧
      (rest = [] → name.bytes.isPrefixOf (content ++ tail rest ++ beyond) = true →
        (content ++ tail rest).drop name.bytes.length = [])) := by
  by_cases starts : name.bytes <+: content
  · obtain ⟨after, rfl⟩ := starts
    refine .inl ⟨skipBlanks after, ?_, ?_, ?_⟩
    · rw [behindName, if_pos (by simp), List.drop_left]
    · simp
    · rw [List.append_assoc, List.drop_left, skipBlanks_line]
  · refine .inr ⟨?_, ?_, ?_⟩
    · rw [behindName, if_neg (by simpa using starts)]
    · intro more
      obtain ⟨next, rest, rfl⟩ := List.exists_cons_of_ne_nil more
      rw [Bool.eq_false_iff, ne_eq, List.isPrefixOf_iff_prefix]
      exact not_prefix_line beyond name content next rest starts
    · rintro rfl inside
      rw [List.isPrefixOf_iff_prefix, tail, List.append_nil] at inside
      rcases List.prefix_or_prefix_of_prefix inside (List.prefix_append content beyond) with
        short | long
      · exact absurd short starts
      · rw [tail, List.append_nil, List.drop_eq_nil_iff]
        exact long.length_le

theorem turn_header (pSection pIdent : Name) (iKeyFound : Bool) (line content : Bytes)
    (clean : chr '\n' ∉ line) (rest : List Bytes) (rest_clean : ∀ line ∈ rest, chr '\n' ∉ line)
    (start : skipBlanks line = chr '[' :: content) :
    turn beyond pSection.bytes pIdent.bytes iKeyFound (line ++ tail rest) =
      lineTurn pSection.bytes pIdent.bytes iKeyFound line rest := by
  have header : isHeader line = true := by simp [isHeader, start]
  have content_clean : chr '\n' ∉ content := fun member =>
    skipBlanks_clean clean (start ▸ List.mem_cons_of_mem _ member)
  have named : headerRest pSection.bytes line = behindName pSection.bytes (skipBlanks content) := by
    rw [headerRest, if_pos header, start]
    rfl
  have no_comment : chr '[' ≠ chr '#' := by decide
  rw [turn, skipBlanks_line, start]
  simp only [List.cons_append, if_neg no_comment, if_true, skipBlanks_line]
  -- the name of the section stands in the header, or the header is of another one
  rcases name_line beyond pSection (skipBlanks content) rest with
    ⟨after, found, starts, behind⟩ | ⟨absent, other, short⟩
  · have long : skipBlanks content ++ tail rest ≠ [] := by
      intro empty
      rw [(List.append_eq_nil_iff.mp empty).1] at found
      rw [behindName, if_neg (by simpa using pSection.nonempty)] at found
      cases found
    obtain ⟨first, heading, split⟩ := List.exists_cons_of_ne_nil long
    rw [split] at starts behind ⊢
    simp only [starts, if_true, behind]
    have after_clean := behindName_clean (skipBlanks_clean content_clean) found
    rw [found] at named
    cases after with
    | nil =>
        have open_header : unclosed pSection.bytes line = true := by simp [unclosed, named]
        simp only [lineTurn, open_header, if_true]
        cases rest with
        | nil => rfl
        | cons next rest =>
            -- the header ends with its name, and the search for the bracket goes on in the next line
            have no_bracket : (chr '\n' = chr ']') = False := eq_false (by decide)
            simp only [List.nil_append, tail, no_bracket, decide_false, Bool.or_false]
            exact ignore_line iKeyFound next (rest_clean next List.mem_cons_self) rest
    | cons closing after =>
        have closed : unclosed pSection.bytes line = false := by simp [unclosed, named]
        have headed : heads pSection.bytes line = decide (closing = chr ']') := by
          simp [heads, named]
        have no_entry := entryOf_header pIdent.bytes header
        simp only [List.cons_append, lineTurn, closed, headed, no_entry]
        rw [ignore_line _ after (fun member => after_clean (List.mem_cons_of_mem _ member)) rest]
        by_cases bracket : closing = chr ']'
        · simp [bracket]
        · cases iKeyFound <;> simp [bracket]
  · rw [lineTurn_other iKeyFound rest (named.trans absent) (entryOf_header _ header)]
    cases rest with
    | nil =>
      cases content_eq : skipBlanks content ++ tail [] with
      | nil => rfl
      | cons first heading =>
        dsimp only
        rw [content_eq] at other short
        split_ifs with starts
        · rw [short rfl starts]
          rfl
        · rw [← content_eq]
          exact ignore_line iKeyFound _ (skipBlanks_clean content_clean) []
    | cons next rest =>
      have inside : skipBlanks content ++ tail (next :: rest) ≠ [] := by simp [tail]
      obtain ⟨first, heading, split⟩ := List.exists_cons_of_ne_nil inside
      rw [split] at other ⊢
      simp only [other (List.cons_ne_nil _ _), Bool.false_eq_true, if_false]
      rw [← split]
      exact ignore_line iKeyFound _ (skipBlanks_clean content_clean) (next :: rest)

theorem turn_key (pSection pIdent : Name) (iKeyFound : Bool) (line content : Bytes) (byte : UInt8)
    (clean : chr '\n' ∉ line) (rest : List Bytes) (start : skipBlanks line = byte :: content)
    (no_comment : byte ≠ chr '#') (no_header : byte ≠ chr '[') :
    turn beyond pSection.bytes pIdent.bytes iKeyFound (line ++ tail rest) =
      lineTurn pSection.bytes pIdent.bytes iKeyFound line rest := by
  have key_clean : chr '\n' ∉ byte :: content := start ▸ skipBlanks_clean clean
  have not_header : isHeader line = false := by simp [isHeader, start, no_header]
  have not_comment : isComment line = false := by simp [isComment, start, no_comment]
  have no_rest := headerRest_other pSection.bytes not_header
  have named : entryOf pIdent.bytes line = match behindName pIdent.bytes (byte :: content) with
      | some (sign :: value) => if sign = chr '=' then some value else none
      | _ => none := by
    rw [entryOf, not_comment, not_header, start]
    rfl
  have ignored := ignore_line iKeyFound (byte :: content) key_clean rest
  rw [turn, skipBlanks_line, start]
  simp only [List.cons_append, if_neg no_comment, if_neg no_header]
  -- keys are looked at in the section only; a sign must follow the name at once
  cases iKeyFound with
  | false =>
      simp only [Bool.not_false, if_true, lineTurn, unclosed, heads, no_rest]
      exact ignored
  | true =>
      simp only [Bool.not_true, Bool.false_eq_true, if_false]
      rcases name_line beyond pIdent (byte :: content) rest with
        ⟨after, found, starts, behind⟩ | ⟨absent, other, short⟩
      · have no_entry_last : after = [] → entryOf pIdent.bytes line = none := by
          rintro rfl
          rw [named, found]
        simp only [List.cons_append] at starts behind
        simp only [starts, if_true]
        cases left : (byte :: (content ++ tail rest)).drop pIdent.bytes.length with
        | nil =>
            rw [left] at behind
            obtain ⟨ended, last⟩ := List.append_eq_nil_iff.mp behind.symm
            rw [lineTurn_other true rest no_rest (no_entry_last ended)]
            cases rest with
            | nil => rfl
            | cons next rest => cases last
        | cons first behind_key =>
            rw [left] at behind
            simp only [behind]
            cases after with
            | nil =>
                rw [lineTurn_other true rest no_rest (no_entry_last rfl)]
                cases rest with
                | nil => rfl
                | cons next rest =>
                    have no_sign : chr '\n' ≠ chr '=' := by decide
                    simp only [List.nil_append, tail, if_neg no_sign]
                    exact ignore_line true [] List.not_mem_nil (next :: rest)
            | cons sign value =>
                rw [found] at named
                dsimp only at named
                have after_clean := behindName_clean key_clean found
                simp only [List.cons_append, lineTurn, unclosed, heads, no_rest, named]
                by_cases equals : sign = chr '='
                · simp [equals]
                · simp only [if_neg equals]
                  exact ignore_line true (sign :: value) after_clean rest
      · rw [lineTurn_other true rest no_rest (by rw [named, absent])]
        simp only [List.cons_append] at other short
        cases rest with
        | nil =>
            split_ifs with starts
            · rw [short rfl starts]
              rfl
            · exact ignored
        | cons next rest =>
            simp only [other (List.cons_ne_nil _ _), Bool.false_eq_true, if_false]
            exact ignored

theorem turn_blank (pSection pIdent : Name) (iKeyFound : Bool) (line : Bytes)
    (rest : List Bytes) (rest_clean : ∀ line ∈ rest, chr '\n' ∉ line)
    (start : skipBlanks line = []) :
    turn beyond pSection.bytes pIdent.bytes iKeyFound (line ++ tail rest) =
      lineTurn pSection.bytes pIdent.bytes iKeyFound line rest := by
  have not_header : isHeader line = false := by simp [isHeader, start]
  have no_entry : entryOf pIdent.bytes line = none := by
    rw [entryOf, start]
    simp [isComment, isHeader, start, behindName, pIdent.nonempty]
  rw [lineTurn_other iKeyFound rest (headerRest_other _ not_header) no_entry]
  rw [turn, skipBlanks_line, start, List.nil_append]
  cases rest with
  | nil => rfl
  | cons next rest =>
      have ignored := ignore_line iKeyFound [] List.not_mem_nil (next :: rest)
      have no_comment : chr '\n' ≠ chr '#' := by decide
      have no_header : chr '\n' ≠ chr '[' := by decide
      have no_key := not_prefix_line beyond pIdent [] next rest (by simpa using pIdent.nonempty)
      rw [List.nil_append, tail] at no_key
      rw [← List.isPrefixOf_iff_prefix] at no_key
      simp only [tail, if_neg no_comment, if_neg no_header, if_neg no_key, ite_self]
      exact ignored

theorem turn_line (pSection pIdent : Name) (iKeyFound : Bool) (line : Bytes)
    (clean : chr '\n' ∉ line) (rest : List Bytes) (rest_clean : ∀ line ∈ rest, chr '\n' ∉ line) :
    turn beyond pSection.bytes pIdent.bytes iKeyFound (line ++ tail rest) =
      lineTurn pSection.bytes pIdent.bytes iKeyFound line rest := by
  cases start : skipBlanks line with
  | nil => exact turn_blank beyond pSection pIdent iKeyFound line rest rest_clean start
  | cons byte content =>
      by_cases comment : byte = chr '#'
      · have not_header : isHeader line = false := by
          rw [isHeader, start, comment]
          rfl
        have no_entry : entryOf pIdent.bytes line = none := by
          rw [entryOf, isComment, start, comment]
          rfl
        have content_clean : chr '\n' ∉ byte :: content := start ▸ skipBlanks_clean clean
        rw [lineTurn_other iKeyFound rest (headerRest_other _ not_header) no_entry]
        rw [turn, skipBlanks_line, start]
        simp only [List.cons_append, if_pos comment]
        exact ignore_line iKeyFound (byte :: content) content_clean rest
      · by_cases header : byte = chr '['
        · exact turn_header beyond pSection pIdent iKeyFound line content clean rest rest_clean
            (header ▸ start)
        · exact turn_key beyond pSection pIdent iKeyFound line content byte clean rest start comment
            header

/-! The whole loop. -/

/-- All lines but a last one without an end whose value is blank, which is not an entry. -/
def visible (pIdent : Bytes) : List Bytes → List Bytes
  | [] => []
  | [last] => if (entryOf pIdent last).any fun value => skipBlanks value = [] then [] else [last]
  | line :: next :: rest => line :: visible pIdent (next :: rest)

/-- What the loop sees, before and behind the header. -/
def seenFrom (pSection pIdent : Bytes) : Bool → List Bytes → Option Bytes
  | false, lines => seen pSection pIdent lines
  | true, lines => (looked pSection lines).findSome? (entryOf pIdent)

def outcome : Option Bytes → IniValue
  | none => .missing
  | some value => taken value

/-- The loop at the first of the lines. -/
def loopLines (pSection pIdent : Bytes) (fuel : Nat) (iKeyFound : Bool) : List Bytes → IniValue
  | [] => .missing
  | line :: rest => iniLoop beyond pSection pIdent fuel iKeyFound (line ++ tail rest)

theorem resume_goOn (pSection pIdent : Bytes) (fuel : Nat) (iKeyFound : Bool) (lines : List Bytes) :
    (goOn iKeyFound lines).resume (iniLoop beyond pSection pIdent fuel) =
      loopLines beyond pSection pIdent fuel iKeyFound lines := by
  cases lines <;> rfl

theorem looked_closed {pSection line : Bytes} (closed : unclosed pSection line = false)
    (rest : List Bytes) : looked pSection (line :: rest) = line :: looked pSection rest := by
  cases rest <;> simp [looked, closed]

theorem looked_unclosed {pSection line : Bytes} (open_header : unclosed pSection line = true)
    (rest : List Bytes) :
    looked pSection (line :: rest) = line :: looked pSection (rest.drop 1) := by
  cases rest <;> simp [looked, open_header]

theorem seenFrom_unclosed {pSection line : Bytes} (pIdent : Bytes)
    (open_header : unclosed pSection line = true) (iKeyFound : Bool) (rest : List Bytes) :
    seenFrom pSection pIdent iKeyFound (line :: rest) =
      seenFrom pSection pIdent iKeyFound (rest.drop 1) := by
  have no_head : heads pSection line = false := by
    have named := of_decide_eq_true open_header
    simp [heads, named]
  have header : isHeader line = true := by
    by_contra other
    have named := of_decide_eq_true open_header
    rw [headerRest_other _ (Bool.eq_false_iff.mpr other)] at named
    cases named
  have no_entry := entryOf_header pIdent header
  cases iKeyFound <;> simp [seenFrom, seen, looked_unclosed open_header, no_head, no_entry]

theorem seenFrom_heads {pSection line : Bytes} (pIdent : Bytes)
    (closed : unclosed pSection line = false) (headed : heads pSection line = true)
    (iKeyFound : Bool) (rest : List Bytes) :
    seenFrom pSection pIdent iKeyFound (line :: rest) = seenFrom pSection pIdent true rest := by
  have header : isHeader line = true := by
    by_contra other
    rw [heads, headerRest_other _ (Bool.eq_false_iff.mpr other)] at headed
    cases headed
  have no_entry := entryOf_header pIdent header
  cases iKeyFound <;> simp [seenFrom, seen, looked_closed closed, headed, no_entry]

theorem seenFrom_other {pSection line : Bytes} (pIdent : Bytes)
    (closed : unclosed pSection line = false) (no_head : heads pSection line = false)
    (iKeyFound : Bool) (rest : List Bytes) :
    seenFrom pSection pIdent iKeyFound (line :: rest) =
      match iKeyFound, entryOf pIdent line with
      | true, some value => some value
      | _, _ => seenFrom pSection pIdent iKeyFound rest := by
  cases iKeyFound with
  | false => simp [seenFrom, seen, looked_closed closed, no_head]
  | true =>
      cases found : entryOf pIdent line <;> simp [seenFrom, looked_closed closed, found]

theorem takeWhile_line (line : Bytes) (clean : chr '\n' ∉ line) (rest : List Bytes) :
    (line ++ tail rest).takeWhile (fun byte => byte ≠ chr '\n') = line := by
  induction line with
  | nil => cases rest <;> simp [tail]
  | cons byte line ih =>
      have first : byte ≠ chr '\n' := fun same => clean (same ▸ List.mem_cons_self)
      rw [List.cons_append, List.takeWhile_cons_of_pos (by simpa using first)]
      rw [ih fun member => clean (List.mem_cons_of_mem _ member)]

/-- A right-hand side, with the rest of the lines behind it. -/
theorem valueOf_line (value : Bytes) (clean : chr '\n' ∉ value) (rest : List Bytes) :
    valueOf (value ++ tail rest) =
      if skipBlanks value = [] ∧ rest = [] then .missing else taken value := by
  rw [valueOf, skipBlanks_line]
  split
  · next empty =>
      obtain ⟨blank, last⟩ := List.append_eq_nil_iff.mp empty
      cases rest with
      | nil => rw [if_pos ⟨blank, rfl⟩]
      | cons next rest => cases last
  · next start more =>
      have visible_value : ¬ (skipBlanks value = [] ∧ rest = []) := by
        rintro ⟨blank, rfl⟩
        exact more (by rw [blank]; rfl)
      rw [if_neg visible_value, taken, trimmed, takeWhile_line _ (skipBlanks_clean clean)]
      have moved : skipBlanks value = [] → (skipBlanks value ++ tail rest ≠ value ++ tail rest ↔
          value ≠ []) := by
        intro blank
        rw [ne_eq, List.append_cancel_right_eq, blank]
        exact not_congr eq_comm
      by_cases blank : skipBlanks value = []
      · simp only [blank, true_and, ← moved blank]
      · simp only [blank, false_and, if_false]

theorem entryOf_clean {pIdent line value : Bytes} (clean : chr '\n' ∉ line)
    (found : entryOf pIdent line = some value) : chr '\n' ∉ value := by
  unfold entryOf at found
  split at found
  · cases found
  · cases named : behindName pIdent (skipBlanks line) with
    | none =>
        rw [named] at found
        cases found
    | some rest =>
        rw [named] at found
        have rest_clean := behindName_clean (skipBlanks_clean clean) named
        cases rest with
        | nil => cases found
        | cons sign rest =>
            dsimp only at found
            split at found
            · cases found
              exact fun member => rest_clean (List.mem_cons_of_mem _ member)
            · cases found

theorem visible_cons {pIdent line : Bytes} {rest : List Bytes}
    (kept : rest = [] → ∀ value, entryOf pIdent line = some value → skipBlanks value ≠ []) :
    visible pIdent (line :: rest) = line :: visible pIdent rest := by
  cases rest with
  | nil =>
      cases found : entryOf pIdent line with
      | none => simp [visible, found]
      | some value => simp [visible, found, kept rfl value found]
  | cons next rest => rfl

theorem visible_drop (pIdent : Bytes) (lines : List Bytes) :
    (visible pIdent lines).drop 1 = visible pIdent (lines.drop 1) := by
  match lines with
  | [] => rfl
  | [last] =>
      rw [visible]
      split <;> rfl
  | _ :: _ :: _ => rfl

theorem entryOf_heads {pSection pIdent line : Bytes} (named : headerRest pSection line ≠ none) :
    entryOf pIdent line = none := by
  apply entryOf_header
  by_contra other
  exact named (headerRest_other _ (Bool.eq_false_iff.mpr other))

-- Induction on the turns left; the line behind an unclosed header goes with it.
theorem loop_lines (pSection pIdent : Name) (fuel : Nat) (iKeyFound : Bool) (lines : List Bytes)
    (clean : ∀ line ∈ lines, chr '\n' ∉ line) (enough : lines.length ≤ fuel) :
    loopLines beyond pSection.bytes pIdent.bytes fuel iKeyFound lines =
      outcome (seenFrom pSection.bytes pIdent.bytes iKeyFound (visible pIdent.bytes lines)) := by
  induction fuel generalizing iKeyFound lines with
  | zero =>
      obtain rfl := List.length_eq_zero_iff.mp (Nat.le_zero.mp enough)
      cases iKeyFound <;> rfl
  | succ fuel ih =>
      cases lines with
      | nil => cases iKeyFound <;> rfl
      | cons line rest =>
          obtain ⟨line_clean, rest_clean⟩ := List.forall_mem_cons.mp clean
          have rest_enough : rest.length ≤ fuel := Nat.le_of_succ_le_succ enough
          have go (found : Bool) := ih found rest rest_clean rest_enough
          rw [loopLines, iniLoop_succ, turn_line beyond pSection pIdent iKeyFound line line_clean
            rest rest_clean]
          unfold lineTurn
          -- a header without its bracket swallows the next line
          by_cases open_header : unclosed pSection.bytes line = true
          · have no_entry : entryOf pIdent.bytes line = none :=
              entryOf_heads (by rw [of_decide_eq_true open_header]; exact Option.some_ne_none _)
            rw [if_pos open_header, resume_goOn, visible_cons (by simp [no_entry]),
              seenFrom_unclosed _ open_header, visible_drop]
            refine ih iKeyFound (rest.drop 1) ?_ ?_
            · exact fun line member => rest_clean line (List.mem_of_mem_drop member)
            · rw [List.length_drop]
              omega
          have closed := Bool.eq_false_iff.mpr open_header
          rw [if_neg open_header]
          by_cases headed : heads pSection.bytes line = true
          · have no_entry : entryOf pIdent.bytes line = none := by
              refine entryOf_heads fun none_there : headerRest pSection.bytes line = none => ?_
              rw [heads, none_there] at headed
              cases headed
            rw [if_pos headed, resume_goOn, visible_cons (by simp [no_entry]),
              seenFrom_heads _ closed headed]
            exact go true
          have no_head := Bool.eq_false_iff.mpr headed
          rw [if_neg headed]
          cases iKeyFound with
          | false =>
              by_cases blank_last : rest = [] ∧
                  ∃ value, entryOf pIdent.bytes line = some value ∧ skipBlanks value = []
              · obtain ⟨rfl, value, found, blank⟩ := blank_last
                simp [visible, found, blank, goOn, Turn.resume, seenFrom, seen, looked, outcome]
              · rw [visible_cons fun last value found blank => blank_last ⟨last, value, found, blank⟩,
                  seenFrom_other _ closed no_head]
                exact (resume_goOn _ _ _ _ _ _).trans (go false)
          | true =>
              cases found : entryOf pIdent.bytes line with
              | none =>
                  rw [visible_cons (by simp [found]), seenFrom_other _ closed no_head, found]
                  exact (resume_goOn _ _ _ _ _ _).trans (go true)
              | some value =>
                  rw [Turn.resume, valueOf_line value (entryOf_clean line_clean found)]
                  -- a blank value on the last line: the skipping runs out of
                  -- the text
                  by_cases blank_last : skipBlanks value = [] ∧ rest = []
                  · obtain ⟨blank, rfl⟩ := blank_last
                    simp [visible, found, blank, seenFrom, looked, outcome]
                  · rw [if_neg blank_last, visible_cons, seenFrom_other _ closed no_head, found]
                    · rfl
                    · intro last other same blank
                      obtain rfl := Option.some.inj (found.symm.trans same)
                      exact blank_last ⟨blank, last⟩

/-! Files. -/

def join : List Bytes → Bytes
  | [] => []
  | line :: rest => line ++ tail rest

theorem tail_length (lines : List Bytes) : lines.length ≤ (tail lines).length := by
  induction lines with
  | nil => rfl
  | cons line rest ih =>
      rw [tail, List.length_cons, List.length_cons, List.length_append]
      omega

/-- `GetIniString` on any file, as its lines. -/
theorem getIniString_join (pSection pIdent : Name) (lines : List Bytes)
    (clean : ∀ line ∈ lines, chr '\n' ∉ line) :
    getIniString (some ⟨join lines, beyond⟩) pSection.bytes pIdent.bytes =
      outcome (seen pSection.bytes pIdent.bytes (visible pIdent.bytes lines)) := by
  have named : ¬ (pSection.bytes = [] ∨ pIdent.bytes = []) :=
    not_or.mpr ⟨pSection.nonempty, pIdent.nonempty⟩
  rw [getIniString, if_neg named]
  cases lines with
  | nil => rfl
  | cons line rest =>
      have long := tail_length rest
      have enough : (line :: rest).length ≤ (line ++ tail rest).length + 1 := by
        rw [List.length_cons, List.length_append]
        omega
      exact loop_lines beyond pSection pIdent _ false (line :: rest) clean enough

/-- Lines that all have their end. -/
def textOf (lines : List Bytes) : Bytes := lines.flatMap fun line => line ++ [chr '\n']

theorem textOf_join (lines : List Bytes) : textOf lines = join (lines ++ [[]]) := by
  induction lines with
  | nil => rfl
  | cons line rest ih =>
      have step : textOf (line :: rest) = line ++ chr '\n' :: textOf rest := by
        simp [textOf]
      rw [step, ih]
      cases rest <;> rfl

theorem entryOf_nil (pIdent : Name) : entryOf pIdent.bytes [] = none := by
  simp [entryOf, isComment, isHeader, skipBlanks, behindName, pIdent.nonempty]

theorem visible_ended (pIdent : Name) (lines : List Bytes) :
    visible pIdent.bytes (lines ++ [[]]) = lines ++ [[]] := by
  induction lines with
  | nil => simp [visible, entryOf_nil]
  | cons line rest ih =>
      rw [List.cons_append, visible_cons (by simp), ih]

-- Induction on the number of lines; an unclosed header takes two of them.
theorem seenFrom_ended (pSection pIdent : Name) (count : Nat) (iKeyFound : Bool)
    (lines : List Bytes) (few : lines.length ≤ count) :
    seenFrom pSection.bytes pIdent.bytes iKeyFound (lines ++ [[]]) =
      seenFrom pSection.bytes pIdent.bytes iKeyFound lines := by
  have no_entry := entryOf_nil pIdent
  induction count generalizing iKeyFound lines with
  | zero =>
      obtain rfl := List.length_eq_zero_iff.mp (Nat.le_zero.mp few)
      have other := headerRest_other pSection.bytes (rfl : isHeader [] = false)
      cases iKeyFound <;> simp [seenFrom, seen, looked, unclosed, heads, other, no_entry]
  | succ count ih =>
      cases lines with
      | nil => exact ih iKeyFound [] (Nat.zero_le _)
      | cons line rest =>
          have fewer : rest.length ≤ count := Nat.le_of_succ_le_succ few
          rw [List.cons_append]
          by_cases open_header : unclosed pSection.bytes line = true
          · rw [seenFrom_unclosed _ open_header, seenFrom_unclosed _ open_header]
            cases rest with
            | nil => rfl
            | cons next rest => exact ih iKeyFound rest (Nat.le_of_succ_le fewer)
          have closed := Bool.eq_false_iff.mpr open_header
          by_cases headed : heads pSection.bytes line = true
          · rw [seenFrom_heads _ closed headed, seenFrom_heads _ closed headed, ih true rest fewer]
          · have no_head := Bool.eq_false_iff.mpr headed
            rw [seenFrom_other _ closed no_head, seenFrom_other _ closed no_head,
              ih iKeyFound rest fewer]

/-- The call returns 0 with this value, or -1 where there is none. -/
def Finds (result : IniValue) : Option Bytes → Prop
  | none => result = .missing
  | some value => ∃ pResult, result = .found pResult ∧ cString pResult = value

/-- The first entry seen has the value of the first one inside the section, and its
right-hand side is not made of blanks. -/
structure SeesOwn (pSection pIdent : Bytes) (lines : List Bytes) : Prop where
  same : (seen pSection pIdent lines).map (fun value => cString (trimmed value)) =
    lookup pSection pIdent lines
  written : ∀ value, seen pSection pIdent lines = some value → skipBlanks value = [] → value = []

theorem finds_outcome (entry own : Option Bytes) :
    Finds (outcome entry) own ↔
      entry.map (fun value => cString (trimmed value)) = own ∧
        ∀ value, entry = some value → skipBlanks value = [] → value = [] := by
  cases entry with
  | none => cases own <;> simp [Finds, outcome]
  | some value =>
      by_cases blank : skipBlanks value = [] ∧ value ≠ []
      · have lost : outcome (some value) = .negative := if_pos blank
        rw [lost]
        cases own <;> simp [Finds, blank]
      · have kept : outcome (some value) = .found (trimmed value) := if_neg blank
        rw [kept]
        cases own with
        | none => simp [Finds]
        | some own =>
            simp only [Finds, IniValue.found.injEq, exists_eq_left', Option.map_some,
              Option.some.injEq, forall_eq']
            exact (and_iff_left fun empty => of_not_not fun there => blank ⟨empty, there⟩).symm

theorem getIniString_text (pSection pIdent : Name) (lines : List Bytes)
    (clean : ∀ line ∈ lines, chr '\n' ∉ line) :
    getIniString (some ⟨textOf lines, beyond⟩) pSection.bytes pIdent.bytes =
      outcome (seen pSection.bytes pIdent.bytes lines) := by
  have ended : ∀ line ∈ lines ++ [[]], chr '\n' ∉ line := by
    intro line member
    rcases List.mem_append.mp member with inside | last
    · exact clean line inside
    · rw [List.mem_singleton.mp last]
      exact List.not_mem_nil
  rw [textOf_join, getIniString_join beyond pSection pIdent _ ended, visible_ended]
  exact congrArg outcome (seenFrom_ended pSection pIdent lines.length false lines le_rfl)

/-- The lookup finds the entry of the section exactly where the first entry that it sees has
that value. -/
theorem ini_lookup_iff (pSection pIdent : Name) (lines : List Bytes)
    (clean : ∀ line ∈ lines, chr '\n' ∉ line) :
    Finds (getIniString (some ⟨textOf lines, beyond⟩) pSection.bytes pIdent.bytes)
        (lookup pSection.bytes pIdent.bytes lines) ↔
      SeesOwn pSection.bytes pIdent.bytes lines := by
  rw [getIniString_text beyond pSection pIdent lines clean, finds_outcome]
  exact ⟨fun both => ⟨both.1, both.2⟩, fun sees => ⟨sees.same, sees.written⟩⟩

def nameA : Name := ⟨text "a", by decide +kernel, by decide +kernel, by decide +kernel⟩

def nameK : Name := ⟨text "k", by decide +kernel, by decide +kernel, by decide +kernel⟩

theorem ini_lookup_iff_applies :
    Finds (getIniString (some ⟨textOf [text "[a]", text "k = 1"], []⟩) (text "a") (text "k"))
        (lookup (text "a") (text "k") [text "[a]", text "k = 1"]) ↔
      SeesOwn (text "a") (text "k") [text "[a]", text "k = 1"] :=
  ini_lookup_iff [] nameA nameK [text "[a]", text "k = 1"] (by decide +kernel)

/-- The key of section `b` is found in section `a`. -/
theorem value_of_another_section :
    lookup (text "a") (text "k") [text "[a]", text "[b]", text "k=1"] = none ∧
      ¬ Finds (getIniString (some ⟨textOf [text "[a]", text "[b]", text "k=1"], []⟩) (text "a")
        (text "k")) none := by
  refine ⟨by decide +kernel, fun absent => ?_⟩
  have found : seen (text "a") (text "k") [text "[a]", text "[b]", text "k=1"] =
    some (text "1") := by decide +kernel
  have value := getIniString_text [] nameA nameK [text "[a]", text "[b]", text "k=1"]
    (by decide +kernel)
  rw [show getIniString _ (text "a") (text "k") = _ from value] at absent
  change outcome (seen (text "a") (text "k") _) = .missing at absent
  rw [found, outcome, taken] at absent
  split_ifs at absent

end EChainLib.Config
