import Mathlib

/-! Quoted literals in the text of a statement as MySQL reads them, and statements
made of fixed texts with arguments between quotes. -/

namespace EChainLib.Quoted

abbrev Text := List UInt8

def quote : UInt8 := 0x27

def backslash : UInt8 := 0x5c

def isQuote (byte : UInt8) : Bool := byte = quote || byte = 0x22

/-- What the byte after a backslash stands for. The two escapes of patterns keep
their backslash, a byte that is no escape loses it. -/
def unescape (byte : UInt8) : Text :=
  if byte = '%'.toUInt8 ∨ byte = '_'.toUInt8 then [backslash, byte]
  else if byte = '0'.toUInt8 then [0x00]
  else if byte = 'b'.toUInt8 then [0x08]
  else if byte = 't'.toUInt8 then [0x09]
  else if byte = 'n'.toUInt8 then [0x0a]
  else if byte = 'r'.toUInt8 then [0x0d]
  else if byte = 'Z'.toUInt8 then [0x1a]
  else [byte]

/-- A byte outside the literals, or an end or a byte of a literal. -/
inductive Mark where
  | plain (byte : UInt8)
  | opens
  | holds (byte : UInt8)
  | closes
  deriving DecidableEq

/-- Where the reader is. A quote in a literal ends it unless the same one follows. -/
inductive Mode where
  | plain
  | literal (opening : UInt8)
  | escaped (opening : UInt8)
  | ending (opening : UInt8)

def read : Mode → Text → Option (List Mark)
  | .plain, [] => some []
  | .plain, byte :: rest =>
      if isQuote byte then (read (.literal byte) rest).map (.opens :: ·)
      else (read .plain rest).map (.plain byte :: ·)
  | .literal _, [] => none
  | .literal opening, byte :: rest =>
      if byte = backslash then read (.escaped opening) rest
      else if byte = opening then read (.ending opening) rest
      else (read (.literal opening) rest).map (.holds byte :: ·)
  | .escaped _, [] => none
  | .escaped opening, byte :: rest =>
      (read (.literal opening) rest).map ((unescape byte).map .holds ++ ·)
  | .ending _, [] => some [.closes]
  | .ending opening, byte :: rest =>
      if byte = opening then (read (.literal opening) rest).map (.holds byte :: ·)
      else if isQuote byte then (read (.literal byte) rest).map (.closes :: .opens :: ·)
      else (read .plain rest).map (.closes :: .plain byte :: ·)

/-- The bytes that have been taken and not yet marked. -/
def Mode.pending : Mode → Nat
  | .plain => 0
  | .literal _ => 0
  | .escaped _ => 1
  | .ending _ => 1

theorem unescape_length (byte : UInt8) : (unescape byte).length ≤ 2 := by
  unfold unescape
  split_ifs <;> simp

/-- A reading has no more marks than the text has bytes. -/
theorem read_length (mode : Mode) (bytes : Text) (marks : List Mark)
    (found : read mode bytes = some marks) : marks.length ≤ bytes.length + mode.pending := by
  induction bytes generalizing mode marks with
  | nil =>
      cases mode <;> simp only [read, Option.some.injEq, reduceCtorEq] at found <;> subst found <;>
        simp [Mode.pending]
  | cons byte rest ih =>
      cases mode with
      | plain =>
          simp only [read] at found
          split_ifs at found
          all_goals
            obtain ⟨later, tail, rfl⟩ := Option.map_eq_some_iff.mp found
            have small := ih _ _ tail
            simp only [List.length_cons, Mode.pending] at *
            omega
      | literal opening =>
          simp only [read] at found
          split_ifs at found
          · exact (ih _ _ found).trans (by simp [Mode.pending])
          · exact (ih _ _ found).trans (by simp [Mode.pending])
          · obtain ⟨later, tail, rfl⟩ := Option.map_eq_some_iff.mp found
            have small := ih _ _ tail
            simp only [List.length_cons, Mode.pending] at *
            omega
      | escaped opening =>
          obtain ⟨later, tail, rfl⟩ := Option.map_eq_some_iff.mp found
          have small := ih _ _ tail
          have short := unescape_length byte
          simp only [List.length_append, List.length_map, List.length_cons, Mode.pending] at *
          omega
      | ending opening =>
          simp only [read] at found
          split_ifs at found
          all_goals
            obtain ⟨later, tail, rfl⟩ := Option.map_eq_some_iff.mp found
            have small := ih _ _ tail
            simp only [List.length_cons, Mode.pending] at *
            omega

/-! Arguments that are read as they are written. -/

/-- No quote, and no backslash but in the two escapes that stay as they are. -/
inductive Plain : Text → Prop where
  | nil : Plain []
  | byte {byte : UInt8} {rest : Text} (no_quote : byte ≠ quote) (no_escape : byte ≠ backslash)
      (later : Plain rest) : Plain (byte :: rest)
  | pattern {byte : UInt8} {rest : Text} (kept : byte = '%'.toUInt8 ∨ byte = '_'.toUInt8)
      (later : Plain rest) : Plain (backslash :: byte :: rest)

/-- The text behind a literal does not go on with its quote. -/
def Resumes (behind : Text) : Prop := ∀ byte, behind.head? = some byte → isQuote byte = false

theorem read_ending (behind : Text) (resumes : Resumes behind) :
    read (.ending quote) behind = (read .plain behind).map (.closes :: ·) := by
  cases behind with
  | nil => rfl
  | cons byte rest =>
      have unquoted := resumes byte rfl
      have differs : byte ≠ quote := by
        rintro rfl
        exact absurd unquoted (by decide)
      simp only [read, differs, if_false, unquoted, Bool.false_eq_true, Option.map_map]
      rfl

theorem read_closing (behind : Text) (resumes : Resumes behind) :
    read (.literal quote) (quote :: behind) = (read .plain behind).map (.closes :: ·) := by
  rw [← read_ending behind resumes]
  rfl

theorem unescape_pattern (byte : UInt8) (kept : byte = '%'.toUInt8 ∨ byte = '_'.toUInt8) :
    unescape byte = [backslash, byte] := if_pos kept

theorem unescape_other (byte : UInt8) (other : ¬ (byte = '%'.toUInt8 ∨ byte = '_'.toUInt8)) :
    (unescape byte).length = 1 := by
  rw [unescape, if_neg other]
  split_ifs <;> rfl

theorem read_plain_argument (argument : Text) (plain : Plain argument) (behind : Text)
    (resumes : Resumes behind) :
    read (.literal quote) (argument ++ quote :: behind) =
      (read .plain behind).map (argument.map .holds ++ .closes :: ·) := by
  induction plain with
  | nil => simpa using read_closing behind resumes
  | byte no_quote no_escape later ih =>
      simp only [List.cons_append, read, no_escape, no_quote, if_false, ih, Option.map_map]
      rfl
  | pattern kept later ih =>
      simp only [List.cons_append, read, if_true, unescape_pattern _ kept, ih, Option.map_map]
      rfl

/-- A quote in the argument ends the literal, or costs a byte with the one after it. -/
theorem quote_lost (rest behind : Text) (later : List Mark)
    (complete : later.length = behind.length) :
    read (.literal quote) (quote :: (rest ++ quote :: behind)) ≠
      some ((quote :: rest).map .holds ++ .closes :: later) := by
  intro found
  have ending : read (.ending quote) (rest ++ quote :: behind) =
      some ((quote :: rest).map .holds ++ .closes :: later) := found
  cases rest with
  | nil =>
      simp only [List.nil_append, read, if_true, Option.map_eq_some_iff] at ending
      obtain ⟨marks, tail, same⟩ := ending
      have sizes := congrArg List.length same
      have short := read_length _ _ _ tail
      simp only [List.length_append, List.length_map, List.length_cons, List.length_nil,
        Mode.pending] at sizes short
      omega
  | cons next rest =>
      by_cases doubled : next = quote
      · simp only [List.cons_append, read, doubled, if_true, Option.map_eq_some_iff] at ending
        obtain ⟨marks, tail, same⟩ := ending
        have sizes := congrArg List.length same
        have short := read_length _ _ _ tail
        simp only [List.length_append, List.length_map, List.length_cons, Mode.pending] at sizes short
        omega
      · simp only [List.cons_append, read, doubled, if_false] at ending
        split_ifs at ending
        all_goals
          obtain ⟨marks, _, same⟩ := Option.map_eq_some_iff.mp ending
          cases same

/-- A backslash in the argument stays only in the escapes of patterns. -/
theorem escape_kept (rest behind : Text) (later : List Mark)
    (complete : later.length = behind.length)
    (found : read (.literal quote) (backslash :: (rest ++ quote :: behind)) =
      some ((backslash :: rest).map .holds ++ .closes :: later))
    (shorter : ∀ tail : Text, tail.length < (backslash :: rest).length →
      read (.literal quote) (tail ++ quote :: behind) = some (tail.map .holds ++ .closes :: later) →
      Plain tail ∧ read .plain behind = some later) :
    Plain (backslash :: rest) ∧ read .plain behind = some later := by
  have escaped : read (.escaped quote) (rest ++ quote :: behind) =
      some ((backslash :: rest).map .holds ++ .closes :: later) := found
  cases rest with
  | nil =>
      -- the closing quote would be the one that is escaped
      obtain ⟨marks, _, same⟩ := Option.map_eq_some_iff.mp escaped
      cases (List.cons.inj same).1
  | cons next rest =>
      obtain ⟨marks, tail, same⟩ := Option.map_eq_some_iff.mp escaped
      by_cases kept : next = '%'.toUInt8 ∨ next = '_'.toUInt8
      · rw [unescape_pattern next kept] at same
        obtain rfl : marks = rest.map .holds ++ .closes :: later := by simpa using same
        obtain ⟨plain, read_on⟩ := shorter rest (by simp) tail
        exact ⟨.pattern kept plain, read_on⟩
      · have sizes := congrArg List.length same
        have short := read_length _ (rest ++ quote :: behind) _ tail
        simp only [List.length_append, List.length_map, unescape_other next kept, List.length_cons,
          Mode.pending] at sizes short
        omega

/-- The reader finds the argument between its quotes only where no byte of it was
taken for an escape or for the end of the literal. -/
theorem plain_of_read (argument behind : Text) (resumes : Resumes behind) (later : List Mark)
    (complete : later.length = behind.length)
    (found : read (.literal quote) (argument ++ quote :: behind) =
      some (argument.map .holds ++ .closes :: later)) :
    Plain argument ∧ read .plain behind = some later := by
  induction size : argument.length using Nat.strong_induction_on generalizing argument with
  | _ size ih =>
      match argument, size with
      | [], _ =>
          rw [List.nil_append, read_closing behind resumes] at found
          obtain ⟨marks, tail, same⟩ := Option.map_eq_some_iff.mp found
          cases same
          exact ⟨.nil, tail⟩
      | byte :: rest, size =>
          subst size
          rw [List.cons_append] at found
          by_cases escape : byte = backslash
          · subst byte
            exact escape_kept rest behind later complete found
              fun shorter smaller read => ih _ smaller shorter read rfl
          · by_cases closing : byte = quote
            · subst byte
              exact absurd found (quote_lost rest behind later complete)
            · simp only [read, escape, closing, if_false] at found
              obtain ⟨marks, tail, same⟩ := Option.map_eq_some_iff.mp found
              obtain ⟨_, rfl⟩ := List.cons.inj same
              obtain ⟨plain, read_on⟩ := ih rest.length (by simp) rest tail rfl
              exact ⟨.byte closing escape plain, read_on⟩

/-! Statements. -/

def separates (bytes : Text) : Bool := !bytes.isEmpty && bytes.all fun byte => !isQuote byte

/-- A part of a statement that is the same for all arguments. -/
structure Fixed where
  bytes : Text
  valid : separates bytes = true

theorem Fixed.nonempty (part : Fixed) : part.bytes ≠ [] := by
  have valid := part.valid
  rintro empty
  rw [empty] at valid
  cases valid

theorem Fixed.unquoted (part : Fixed) (byte : UInt8) (member : byte ∈ part.bytes) :
    isQuote byte = false := by
  have valid := (Bool.and_eq_true_iff.mp part.valid).2
  simpa using List.all_eq_true.mp valid byte member

theorem Fixed.resumes (part : Fixed) (behind : Text) : Resumes (part.bytes ++ behind) := by
  intro byte first
  cases found : part.bytes with
  | nil => exact absurd found part.nonempty
  | cons head rest =>
      rw [found] at first
      cases first
      exact part.unquoted _ (by simp [found])

theorem read_unquoted (bytes behind : Text) (unquoted : ∀ byte ∈ bytes, isQuote byte = false) :
    read .plain (bytes ++ behind) = (read .plain behind).map (bytes.map .plain ++ ·) := by
  induction bytes with
  | nil => simp
  | cons byte rest ih =>
      have later := ih fun other member => unquoted other (List.mem_cons_of_mem _ member)
      simp only [List.cons_append, read, unquoted byte (by simp), Bool.false_eq_true, if_false,
        later, Option.map_map]
      rfl

/-- The arguments of a statement, each with the part that follows it. -/
abbrev Fields := List (Text × Fixed)

def Fields.render : Fields → Text
  | [] => []
  | (argument, part) :: rest =>
      quote :: (argument ++ quote :: (part.bytes ++ Fields.render rest))

def Fields.marks : Fields → List Mark
  | [] => []
  | (argument, part) :: rest =>
      .opens :: (argument.map .holds ++ .closes :: (part.bytes.map .plain ++ Fields.marks rest))

theorem Fields.marks_length (fields : Fields) : fields.marks.length = fields.render.length := by
  induction fields with
  | nil => rfl
  | cons field rest ih =>
      obtain ⟨argument, part⟩ := field
      simp only [Fields.marks, Fields.render, List.length_cons, List.length_append,
        List.length_map, ih]

theorem Fields.read_iff (fields : Fields) :
    read .plain fields.render = some fields.marks ↔ ∀ field ∈ fields, Plain field.1 := by
  induction fields with
  | nil => simp [Fields.render, Fields.marks, read]
  | cons field rest ih =>
      obtain ⟨argument, part⟩ := field
      have opened : read .plain (Fields.render ((argument, part) :: rest)) =
          (read (.literal quote) (argument ++ quote :: (part.bytes ++ Fields.render rest))).map
            (.opens :: ·) := rfl
      have behind := read_unquoted part.bytes (Fields.render rest) part.unquoted
      rw [opened, List.forall_mem_cons, ← ih]
      constructor
      · intro found
        obtain ⟨marks, tail, same⟩ := Option.map_eq_some_iff.mp found
        obtain ⟨_, rfl⟩ := List.cons.inj same
        obtain ⟨plain, read_on⟩ := plain_of_read argument _ (part.resumes _) _
          (by simp [Fields.marks_length]) tail
        rw [behind] at read_on
        obtain ⟨later, rest_read, same_later⟩ := Option.map_eq_some_iff.mp read_on
        exact ⟨plain, by rw [rest_read, List.append_cancel_left same_later]⟩
      · rintro ⟨plain, rest_read⟩
        rw [read_plain_argument argument plain _ (part.resumes _), behind, rest_read]
        rfl

structure Statement where
  head : Fixed
  fields : Fields

namespace Statement

def arguments (statement : Statement) : List Text := statement.fields.map Prod.fst

def render (statement : Statement) : Text := statement.head.bytes ++ statement.fields.render

/-- The reading that is meant: these parts, and these literals between them. -/
def marks (statement : Statement) : List Mark :=
  statement.head.bytes.map .plain ++ statement.fields.marks

/-- The same statement with the arguments as they are printed. -/
def printed (print : Text → Text) (statement : Statement) : Statement :=
  { statement with fields := statement.fields.map fun field => (print field.1, field.2) }

theorem marks_length (statement : Statement) :
    statement.marks.length = statement.render.length := by
  simp [marks, render, Fields.marks_length]

theorem read_iff (statement : Statement) :
    read .plain statement.render = some statement.marks ↔
      ∀ argument ∈ statement.arguments, Plain argument := by
  rw [render, read_unquoted _ _ statement.head.unquoted, marks]
  simp only [arguments, List.forall_mem_map, ← Fields.read_iff]
  constructor
  · intro found
    obtain ⟨later, read_on, same⟩ := Option.map_eq_some_iff.mp found
    rw [read_on, List.append_cancel_left same]
  · intro found
    rw [found]
    rfl

/-- The bytes of the parts and the quotes. -/
def fixedLength (statement : Statement) : Nat :=
  statement.head.bytes.length + (statement.fields.map fun field => field.2.bytes.length + 2).sum

theorem render_length (statement : Statement) :
    statement.render.length = statement.fixedLength + (statement.arguments.map List.length).sum := by
  obtain ⟨head, fields⟩ := statement
  simp only [render, fixedLength, arguments, List.length_append, Nat.add_assoc]
  congr 1
  induction fields with
  | nil => rfl
  | cons field rest ih =>
      simp only [Fields.render, List.length_cons, List.length_append, List.map_cons, List.sum_cons,
        ih]
      omega

section Printing

variable {print : Text → Text}

/-- A printer that can only lose bytes. -/
def Shortens (print : Text → Text) : Prop :=
  ∀ argument, (print argument).length ≤ argument.length ∧
    ((print argument).length = argument.length → print argument = argument)

theorem printed_eq (statement : Statement)
    (kept : ∀ argument ∈ statement.arguments, print argument = argument) :
    statement.printed print = statement := by
  obtain ⟨head, fields⟩ := statement
  have same : fields.map (fun field => (print field.1, field.2)) = fields.map id := by
    apply List.map_congr_left
    intro field member
    rw [kept field.1 (List.mem_map_of_mem member), id]
  simp only [printed, same, List.map_id]

theorem kept_of_length (shortens : Shortens print) (arguments : List Text)
    (long : (arguments.map List.length).sum ≤ ((arguments.map print).map List.length).sum) :
    ∀ argument ∈ arguments, print argument = argument := by
  have total : ∀ rest : List Text,
      ((rest.map print).map List.length).sum ≤ (rest.map List.length).sum := by
    intro rest
    induction rest with
    | nil => rfl
    | cons argument rest ih =>
        have small := (shortens argument).1
        simp only [List.map_cons, List.sum_cons]
        omega
  induction arguments with
  | nil => simp
  | cons argument rest ih =>
      have small := (shortens argument).1
      have others := total rest
      simp only [List.map_cons, List.sum_cons] at long
      rw [List.forall_mem_cons]
      exact ⟨(shortens argument).2 (by omega), ih (by omega)⟩

/-- The printed statement is read as it was meant exactly where the printer keeps
every argument and the argument needs no escape. -/
theorem printed_read_iff (shortens : Shortens print) (statement : Statement) :
    read .plain (statement.printed print).render = some statement.marks ↔
      ∀ argument ∈ statement.arguments, print argument = argument ∧ Plain argument := by
  constructor
  · intro found
    have long := read_length _ _ _ found
    have same_parts : (statement.printed print).fixedLength = statement.fixedLength := by
      simp [printed, fixedLength, Function.comp_def]
    have same_arguments : (statement.printed print).arguments = statement.arguments.map print := by
      simp [printed, arguments, Function.comp_def]
    rw [marks_length, render_length, render_length, same_parts, same_arguments] at long
    have kept := kept_of_length shortens statement.arguments
      (by simpa [Mode.pending] using long)
    rw [printed_eq statement kept, read_iff] at found
    exact fun argument member => ⟨kept argument member, found argument member⟩
  · intro each
    rw [printed_eq statement fun argument member => (each argument member).1, read_iff]
    exact fun argument member => (each argument member).2

end Printing

/-! The literals of a reading. -/

/-- `literal` is what has been read of the current one. -/
def literalsFrom : Option Text → List Mark → List Text
  | _, [] => []
  | none, .opens :: rest => literalsFrom (some []) rest
  | none, _ :: rest => literalsFrom none rest
  | some literal, .holds byte :: rest => literalsFrom (some (literal ++ [byte])) rest
  | some literal, .closes :: rest => literal :: literalsFrom none rest
  | some literal, _ :: rest => literalsFrom (some literal) rest

def literals (marks : List Mark) : List Text := literalsFrom none marks

theorem literalsFrom_plain (bytes : Text) (rest : List Mark) :
    literalsFrom none (bytes.map .plain ++ rest) = literalsFrom none rest := by
  induction bytes with
  | nil => rfl
  | cons byte bytes ih => exact ih

theorem literalsFrom_holds (seen argument : Text) (rest : List Mark) :
    literalsFrom (some seen) (argument.map .holds ++ .closes :: rest) =
      (seen ++ argument) :: literalsFrom none rest := by
  induction argument generalizing seen with
  | nil =>
      rw [List.append_nil]
      rfl
  | cons byte argument ih =>
      have step := ih (seen ++ [byte])
      rw [List.append_assoc, List.singleton_append] at step
      exact step

theorem literals_marks (statement : Statement) :
    literals statement.marks = statement.arguments := by
  obtain ⟨head, fields⟩ := statement
  rw [literals, marks, literalsFrom_plain, arguments]
  induction fields with
  | nil => rfl
  | cons field rest ih =>
      obtain ⟨argument, part⟩ := field
      have opened : literalsFrom none (Fields.marks ((argument, part) :: rest)) =
          literalsFrom (some []) (argument.map .holds ++
            .closes :: (part.bytes.map .plain ++ Fields.marks rest)) := rfl
      rw [opened, literalsFrom_holds, literalsFrom_plain, ih]
      rfl

end Statement

end EChainLib.Quoted
