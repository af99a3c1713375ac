import EChainLib.Utils.TimeTexts

/-! The names `LogWriter::Write` gives to backups, and what `CheckExpiredLog` reads in them. -/

namespace EChainLib.Utils

open EChainLib.Calendar
open EChainLib.Keys (Bytes cString)
open EChainLib.Config (chr)
open EChainLib.Node (int32 int32_of_inside)
open EChainLib.Strings (find rfind substr)

/-- The four replacements in a time. -/
def nameTime (text : Bytes) : Bytes :=
  let text := replaced text [chr '-'] [chr '.']
  let text := replaced text [chr '/'] [chr '.']
  let text := replaced text [chr ':'] [chr '.']
  replaced text [chr ' '] [chr '-']

def kMaxStringLen : Nat := 1024 * 1024

/-- `String::Format`, whose largest buffer has 128 times that size. -/
def format (text : Bytes) : Bytes := if text.length < 128 * kMaxStringLen then text else []

/-- `backup_file_name`; `now` is the time stamp of the end. -/
def backupFileName (offset begin_time_ now : Int) (file_name_ : Bytes) : Bytes :=
  let strBeginTime := nameTime (toFormatString offset (begin_time_ * kMicroSecondsPerSecond))
  let strEndTime := nameTime (toFormatString offset now)
  format (cString file_name_ ++ [chr '-', chr '('] ++ strBeginTime ++ [chr '~'] ++ strEndTime ++
    [chr ')'])

/-- `GetBackupNameTime`, which may say no; the outer `none` is an overflow in a number. -/
def getBackupNameTime (offset : Int) (strBackupName : Bytes) : Option (Option (Int × Int)) :=
  let nBeginPos := find strBackupName [chr '('] 0
  let nMidPos := find strBackupName [chr '~'] 0
  let nEndPos := rfind strBackupName [chr ')'] (-1)
  if nBeginPos = -1 ∨ nEndPos = -1 ∨ nMidPos = -1 ∨ ¬ (nMidPos > nBeginPos ∧ nMidPos < nEndPos) then
    some none
  else do
    let strLogTimeFrom ← substr strBackupName (nBeginPos + 1) (nMidPos - nBeginPos - 1)
    let strLogTimeTo ← substr strBackupName (nMidPos + 1) (nEndPos - nMidPos - 1)
    let nTimeFrom ← toTimestamp offset strLogTimeFrom
    let nTimeTo ← toTimestamp offset strLogTimeTo
    return some (nTimeFrom, nTimeTo)

structure FileAttribute where
  is_directory_ : Bool
  create_time_ : Int
  modify_time_ : Int

def SECOND_UNITS_PER_DAY : Int := 86400

/-- Whether the loop of `CheckExpiredLog` deletes a file. -/
def deletes (offset : Int) (expire_days_ : UInt32) (now : Int) (strName : Bytes)
    (nAttr : FileAttribute) : Option Bool :=
  if nAttr.is_directory_ then some false
  else do
    let times ← getBackupNameTime offset strName
    let nTimeTo := match times with
      | some (_, nTimeTo) => nTimeTo
      | none => max nAttr.create_time_ nAttr.modify_time_
    let nExpiredTime := expire_days_.toNat * SECOND_UNITS_PER_DAY
    return nTimeTo + nExpiredTime < now

/-! The name of a backup. -/

theorem replaced_timeText (t : DateTime) (four : FourDigitYear t) (date day clock a b : UInt8)
    (foreign : a.toNat < 48 ∨ 57 < a.toNat) :
    replaced (timeText t date day clock) [a] [b] =
      timeText t (if date = a then b else date) (if day = a then b else day)
        (if clock = a then b else clock) := by
  rw [replaced_char, timeText_map t four]
  intro c digit
  rw [if_neg]
  rintro rfl
  omega

theorem nameTime_timeText (t : DateTime) (four : FourDigitYear t) :
    nameTime (timeText t (chr '-') (chr ' ') (chr ':')) =
      timeText t (chr '.') (chr '-') (chr '.') := by
  have dash : replaced (timeText t (chr '-') (chr ' ') (chr ':')) [chr '-'] [chr '.'] =
      timeText t (chr '.') (chr ' ') (chr ':') :=
    replaced_timeText t four (chr '-') (chr ' ') (chr ':') (chr '-') (chr '.') (by decide)
  have slash : replaced (timeText t (chr '.') (chr ' ') (chr ':')) [chr '/'] [chr '.'] =
      timeText t (chr '.') (chr ' ') (chr ':') :=
    replaced_timeText t four (chr '.') (chr ' ') (chr ':') (chr '/') (chr '.') (by decide)
  have colon : replaced (timeText t (chr '.') (chr ' ') (chr ':')) [chr ':'] [chr '.'] =
      timeText t (chr '.') (chr ' ') (chr '.') :=
    replaced_timeText t four (chr '.') (chr ' ') (chr ':') (chr ':') (chr '.') (by decide)
  have blank : replaced (timeText t (chr '.') (chr ' ') (chr '.')) [chr ' '] [chr '-'] =
      timeText t (chr '.') (chr '-') (chr '.') :=
    replaced_timeText t four (chr '.') (chr ' ') (chr '.') (chr ' ') (chr '-') (by decide)
  rw [nameTime, dash, slash, colon, blank]

/-- The name for two times, behind the base name. -/
def backupText (base : Bytes) (begins ends : DateTime) : Bytes :=
  base ++ chr '-' :: chr '(' :: (timeText begins (chr '.') (chr '-') (chr '.') ++
    chr '~' :: (timeText ends (chr '.') (chr '-') (chr '.') ++ [chr ')']))

theorem toUnixTimestamp_seconds (seconds : Int) :
    toUnixTimestamp (seconds * kMicroSecondsPerSecond) = seconds :=
  Int.mul_tdiv_cancel seconds (by decide)

/-- The name is within the limit of `Format`. -/
def Formatted (base : Bytes) : Prop := base.length + 42 < 2 ^ 27

instance (base : Bytes) : Decidable (Formatted base) :=
  inferInstanceAs (Decidable (base.length + 42 < 2 ^ 27))

theorem backupFileName_eq (offset begin_time_ now : Int) (file_name_ : Bytes)
    (begins : FourDigitYear (localtime offset begin_time_))
    (ends : FourDigitYear (localtime offset (toUnixTimestamp now))) :
    backupFileName offset begin_time_ now file_name_ =
      if Formatted (cString file_name_) then
        backupText (cString file_name_) (localtime offset begin_time_)
          (localtime offset (toUnixTimestamp now))
      else [] := by
  have first := toUnixTimestamp_seconds begin_time_
  have begin_text := toFormatString_eq offset (begin_time_ * kMicroSecondsPerSecond)
    (by rw [first]; exact begins)
  have begin_length := (timeText_numerals _ begins (chr '.') (chr '-') (chr '.')).2
  have end_length := (timeText_numerals _ ends (chr '.') (chr '-') (chr '.')).2
  rw [first] at begin_text
  have limit : 128 * kMaxStringLen = 2 ^ 27 := rfl
  simp only [backupFileName, format]
  rw [begin_text, toFormatString_eq offset now ends, nameTime_timeText _ begins,
    nameTime_timeText _ ends, limit]
  refine if_congr ?_ ?_ rfl
  · simp only [Formatted, List.length_append, List.length_cons, List.length_nil, begin_length, end_length]
  · simp [backupText]

/-! What is read in a name that ends with `)`. -/

theorem find_first (before after : Bytes) (c : UInt8) (absent : c ∉ before) :
    find (before ++ c :: after) [c] 0 = before.length := by
  have whole : before ++ c :: after = [] ++ (before ++ c :: after) := rfl
  have found := Strings.find_found whole Int.ofNat_zero.symm (Strings.findIn_at c before after absent)
  simpa using found

theorem rfind_last (s : Bytes) (c : UInt8) : rfind (s ++ [c]) [c] (-1) = s.length := by
  have length : (s ++ [c]).length = s.length + 1 := by simp
  have behind : (s ++ [c]).drop (s.length + 1) = [] := List.drop_of_length_le (by simp)
  rw [rfind, if_pos (by decide), length, Strings.rfindIn, behind]
  have last : s ++ [c] = s ++ c :: ([] ++ []) := rfl
  exact Strings.rfindIn_eq last le_rfl le_rfl List.not_mem_nil

theorem getBackupNameTime_read (offset : Int) (before from_ to_ : Bytes) (no_open : chr '(' ∉ before)
    (no_mark : chr '~' ∉ before) (no_mark_between : chr '~' ∉ from_) :
    getBackupNameTime offset (before ++ chr '(' :: (from_ ++ chr '~' :: (to_ ++ [chr ')']))) =
      (toTimestamp offset from_).bind fun nTimeFrom =>
        (toTimestamp offset to_).map fun nTimeTo => some (nTimeFrom, nTimeTo) := by
  generalize shape : before ++ chr '(' :: (from_ ++ chr '~' :: (to_ ++ [chr ')'])) = name
  have name_mid : name = (before ++ chr '(' :: from_) ++ chr '~' :: (to_ ++ [chr ')']) := by
    simp [← shape]
  have name_end : name = (before ++ chr '(' :: (from_ ++ chr '~' :: to_)) ++ [chr ')'] := by
    simp [← shape]
  have nBeginPos : find name [chr '('] 0 = before.length := shape ▸ find_first before _ _ no_open
  have no_mark_front : chr '~' ∉ before ++ chr '(' :: from_ := by
    simp only [List.mem_append, List.mem_cons, not_or]
    exact ⟨no_mark, by decide, no_mark_between⟩
  have nMidPos : find name [chr '~'] 0 = (before.length + 1 + from_.length : Nat) := by
    rw [name_mid, find_first _ _ _ no_mark_front]
    simp only [List.length_append, List.length_cons]
    omega
  have nEndPos : rfind name [chr ')'] (-1) =
      (before.length + 1 + from_.length + 1 + to_.length : Nat) := by
    rw [name_end, rfind_last]
    simp only [List.length_append, List.length_cons]
    omega
  have from_part : name = (before ++ [chr '(']) ++ (from_ ++ chr '~' :: (to_ ++ [chr ')'])) := by
    simp [← shape]
  have to_part : name = (before ++ chr '(' :: from_ ++ [chr '~']) ++ (to_ ++ [chr ')']) := by
    simp [← shape]
  have strLogTimeFrom : substr name (before.length + 1) from_.length = some from_ :=
    Strings.substr_eq from_part (by simp) rfl
  have strLogTimeTo : substr name (before.length + 1 + from_.length + 1) to_.length = some to_ :=
    Strings.substr_eq to_part (by simp; omega) rfl
  rw [getBackupNameTime]
  simp only [nBeginPos, nMidPos, nEndPos]
  rw [if_neg (by omega)]
  have size_from : ((before.length + 1 + from_.length : Nat) : Int) - before.length - 1 =
      from_.length := by omega
  have size_to : ((before.length + 1 + from_.length + 1 + to_.length : Nat) : Int) -
      (before.length + 1 + from_.length : Nat) - 1 = to_.length := by omega
  have place : ((before.length + 1 + from_.length : Nat) : Int) + 1 =
      before.length + 1 + from_.length + 1 := by push_cast; rfl
  rw [size_from, size_to, place, strLogTimeFrom, strLogTimeTo]
  simp only [Option.bind_eq_bind, Option.bind_some]
  cases toTimestamp offset from_ with
  | none => rfl
  | some nTimeFrom => cases toTimestamp offset to_ <;> rfl

/-- The first `~` in front of any `(`. -/
theorem getBackupNameTime_refused (offset : Int) (before after : Bytes) (no_open : chr '(' ∉ before)
    (no_mark : chr '~' ∉ before) :
    getBackupNameTime offset (before ++ chr '~' :: after) = some none := by
  have nMidPos := find_first before after (chr '~') no_mark
  have nBeginPos : find (before ++ chr '~' :: after) [chr '('] 0 = -1 ∨
      (before.length : Int) < find (before ++ chr '~' :: after) [chr '('] 0 := by
    have whole : before ++ chr '~' :: after = [] ++ (before ++ chr '~' :: after) := rfl
    have skipped := Strings.findIn_append (chr '(') [] (before ++ [chr '~']) after (by
      simp only [List.mem_append, List.mem_singleton, not_or]
      exact ⟨no_open, by decide⟩)
    rw [List.append_assoc, List.singleton_append] at skipped
    cases found : Strings.findIn [chr '('] after with
    | none =>
        rw [found] at skipped
        exact .inl (Strings.find_missing whole Int.ofNat_zero.symm skipped)
    | some ahead =>
        rw [found] at skipped
        have place := Strings.find_found whole Int.ofNat_zero.symm skipped
        rw [place]
        simp only [List.length_append, List.length_singleton]
        omega
  rw [getBackupNameTime]
  simp only [nMidPos]
  rw [if_pos (by omega)]

/-! Times with a part of the base name in front. -/

/-- What is kept of the pieces in front of a separator. -/
def frontPieces (text : Bytes) : List Bytes :=
  ((separated text).splitOn (chr '-')).filter fun piece => piece ≠ []

theorem frontPieces_nil_iff (text : Bytes) :
    frontPieces text = [] ↔ ∀ c ∈ text, isSeparator c = true := by
  induction text with
  | nil => simp [frontPieces, separated]
  | cons c rest ih =>
      have dash : isSeparator (chr '-') = true := by decide
      rw [List.forall_mem_cons, ← ih]
      by_cases separator : isSeparator c = true
      · have head : separated (c :: rest) = chr '-' :: separated rest := by
          simp [separated, separator]
        simp only [frontPieces, head, List.splitOn_cons_eq_if_modifyHead]
        simp [separator]
      · have head : separated (c :: rest) = c :: separated rest := by simp [separated, separator]
        have other : (c == chr '-') = false := by
          rw [beq_eq_false_iff_ne]
          rintro rfl
          exact separator dash
        obtain ⟨piece, more, pieces⟩ := List.exists_cons_of_ne_nil
          (List.splitOn_ne_nil (chr '-') (separated rest))
        simp only [frontPieces, head, List.splitOn_cons_eq_if_modifyHead, other]
        simp [separator, pieces]

theorem separated_append (front back : Bytes) :
    separated (front ++ back) = separated front ++ separated back := List.map_append

theorem separated_opened (front text : Bytes) :
    separated (front ++ chr '-' :: chr '(' :: text) =
      separated front ++ chr '-' :: ([chr '('] ++ separated text) := by
  rw [separated_append]
  rfl

theorem separated_nameText (t : DateTime) (four : FourDigitYear t) :
    separated (timeText t (chr '.') (chr '-') (chr '.')) =
      timeText t (chr '-') (chr '-') (chr '-') :=
  separated_timeText t four _ _ _ (by simp [isSeparator])

/-- The year 0 is a leap year, so it has every day. -/
theorem day_in_yearZero (date : Date) : 1 ≤ date.day ∧ date.day ≤ monthLength 0 date.month := by
  have range := date.day_range
  have longest : monthLength date.year date.month ≤ monthLength 0 date.month := by
    have leap : Leap 0 := ⟨rfl, .inr rfl⟩
    simp only [monthLength, if_pos leap]
    split_ifs <;> omega
  omega

/-- The year of a time in brackets. -/
def yearZero (t : DateTime) : DateTime :=
  { t with date := { t.date with year := 0, day_range := day_in_yearZero t.date } }

theorem yearZero_earlier (t : DateTime) (four : FourDigitYear t) :
    (yearZero t).seconds < t.seconds := by
  have earlier := dayNumber_lt 0 t.date.year t.date.month t.date.day (by have := four.1; omega)
  simp only [DateTime.seconds, Date.number, yearZero]
  omega

theorem atoi_bracket (text : Bytes) : Config.atoi (chr '(' :: text) = 0 := by
  have no_space : Keys.isSpace (chr '(') = false := by decide
  have no_sign : chr '(' ≠ chr '-' ∧ chr '(' ≠ chr '+' := by decide
  have no_digit : Config.digitOf 10 (chr '(') = none := by decide
  have no_value : Config.toInt 0 = 0 := by decide
  simp [Config.atoi, Config.strtol, Config.strtolDigits, no_space, no_sign, no_digit, no_value]

/-- Behind a `-(` the year is not read, and anything more in front is a piece too many. -/
theorem toTimestamp_opened (offset : Int) (front : Bytes) (t : DateTime) (four : FourDigitYear t) :
    toTimestamp offset (front ++ chr '-' :: chr '(' :: timeText t (chr '.') (chr '-') (chr '.')) =
      if frontPieces front = [] then some ((yearZero t).seconds - offset) else some 0 := by
  have numerals := (timeText_numerals t four (chr '-') (chr '-') (chr '-')).1
  have pieces := strtokChar_timeText t four [chr '('] (chr '-') (by decide) (by decide)
  rw [toTimestamp_separated, separated_opened, separated_nameText t four, strtokChar_append, pieces]
  rw [← frontPieces]
  split_ifs with none
  · have counted : Node.IsInt32 (0 - 1900) := by decide
    rw [none, List.nil_append]
    exact piecesTimestamp_civil offset (yearZero t) counted _ _ _ _ _ _ (atoi_bracket _)
      numerals.month.value numerals.day.value numerals.hour.value numerals.minute.value
      numerals.second.value
  · have more := List.length_pos_iff.mpr none
    refine piecesTimestamp_other offset _ ?_
    simp only [List.length_append, List.length_cons, List.length_nil]
    omega

/-- Two times are eleven pieces. -/
theorem toTimestamp_both (offset : Int) (front : Bytes) (begins ends : DateTime)
    (begin_four : FourDigitYear begins) (end_four : FourDigitYear ends) :
    toTimestamp offset (front ++ chr '-' :: chr '(' :: (timeText begins (chr '.') (chr '-') (chr '.') ++
      chr '~' :: timeText ends (chr '.') (chr '-') (chr '.'))) = some 0 := by
  have numerals := (timeText_numerals begins begin_four (chr '-') (chr '-') (chr '-')).1
  have mark : separated (chr '~' :: timeText ends (chr '.') (chr '-') (chr '.')) =
      chr '~' :: timeText ends (chr '-') (chr '-') (chr '-') := by
    rw [← separated_nameText ends end_four]
    rfl
  have first := strtokChar_timeText_append begins begin_four [chr '(']
    (chr '~' :: timeText ends (chr '-') (chr '-') (chr '-')) (chr '-') (by decide) (by decide)
  have second := strtokChar_timeText ends end_four
    (printed (chr '0') 2 begins.second ++ [chr '~']) (chr '-') (by decide) (by
      simp only [List.mem_append, List.mem_singleton, not_or]
      exact ⟨numerals.second.absent _ (by decide), by decide⟩)
  rw [List.append_assoc, List.singleton_append] at second
  rw [second] at first
  rw [toTimestamp_separated, separated_opened, separated_append, mark,
    separated_nameText begins begin_four, strtokChar_append, first]
  refine piecesTimestamp_other offset _ ?_
  simp only [List.length_append, List.length_cons, List.length_nil]
  omega

/-! The name read back. -/

/-- What lies in front of the first of a character, and what lies behind it. -/
def inFront (mark : UInt8) (text : Bytes) : Bytes := text.takeWhile fun c => c ≠ mark

def behind (mark : UInt8) (text : Bytes) : Bytes := (text.dropWhile fun c => c ≠ mark).tail

theorem inFront_absent (mark : UInt8) (text : Bytes) : mark ∉ inFront mark text := fun member => by
  simpa using List.mem_takeWhile_imp member

theorem cut_at (mark : UInt8) (text : Bytes) (occurs : mark ∈ text) :
    inFront mark text ++ mark :: behind mark text = text := by
  obtain ⟨before, after, rfl, absent⟩ := List.eq_append_cons_of_mem occurs
  have kept : ∀ c ∈ before, decide (c ≠ mark) = true := fun c member =>
    decide_eq_true fun same => absent (same ▸ member)
  rw [inFront, behind, List.takeWhile_append_of_pos kept, List.dropWhile_append_of_pos kept]
  simp

section Read

variable (offset : Int) (base : Bytes) (begins ends : DateTime) (begin_four : FourDigitYear begins)
  (end_four : FourDigitYear ends)

include begin_four end_four

theorem read_plain (no_mark : chr '~' ∉ base) (no_open : chr '(' ∉ base) :
    getBackupNameTime offset (backupText base begins ends) =
      some (some (begins.seconds - offset, ends.seconds - offset)) := by
  have between := timeText_absent begins begin_four (chr '.') (chr '-') (chr '.') (chr '~')
    (by decide) (by decide)
  have read := getBackupNameTime_read offset (base ++ [chr '-'])
    (timeText begins (chr '.') (chr '-') (chr '.')) (timeText ends (chr '.') (chr '-') (chr '.'))
    (by simp [no_open]; decide) (by simp [no_mark]; decide) between
  rw [toTimestamp_timeText offset begins begin_four _ _ _ (by simp [isSeparator]),
    toTimestamp_timeText offset ends end_four _ _ _ (by simp [isSeparator])] at read
  have shape : backupText base begins ends = base ++ [chr '-'] ++ chr '(' ::
      (timeText begins (chr '.') (chr '-') (chr '.') ++
        chr '~' :: (timeText ends (chr '.') (chr '-') (chr '.') ++ [chr ')'])) := by
    simp [backupText]
  rw [shape, read]
  rfl

/-- A `(` of the base name is taken for that of the times. -/
theorem read_opened (no_mark : chr '~' ∉ base) (opened : chr '(' ∈ base) :
    getBackupNameTime offset (backupText base begins ends) =
      some (some (if frontPieces (behind (chr '(') base) = [] then (yearZero begins).seconds - offset
        else 0, ends.seconds - offset)) := by
  have between := timeText_absent begins begin_four (chr '.') (chr '-') (chr '.') (chr '~')
    (by decide) (by decide)
  have whole := cut_at (chr '(') base opened
  have absent := no_mark
  rw [← whole] at absent
  simp only [List.mem_append, List.mem_cons, not_or] at absent
  have no_mark_between : chr '~' ∉ behind (chr '(') base ++
      chr '-' :: chr '(' :: timeText begins (chr '.') (chr '-') (chr '.') := by
    simp only [List.mem_append, List.mem_cons, not_or]
    exact ⟨absent.2.2, by decide, by decide, between⟩
  have read := getBackupNameTime_read offset (inFront (chr '(') base) _
    (timeText ends (chr '.') (chr '-') (chr '.')) (inFront_absent _ _) absent.1 no_mark_between
  rw [toTimestamp_opened offset _ begins begin_four,
    toTimestamp_timeText offset ends end_four _ _ _ (by simp [isSeparator])] at read
  have shape : backupText base begins ends = inFront (chr '(') base ++ chr '(' ::
      (behind (chr '(') base ++ chr '-' :: chr '(' :: timeText begins (chr '.') (chr '-') (chr '.') ++
        chr '~' :: (timeText ends (chr '.') (chr '-') (chr '.') ++ [chr ')'])) := by
    rw [backupText]
    conv_lhs => rw [← whole]
    simp
  rw [shape, read]
  split_ifs <;> rfl

/-- A `~` of the base name is taken for that between the times. -/
theorem read_marked (marked : chr '~' ∈ base) :
    getBackupNameTime offset (backupText base begins ends) =
      if chr '(' ∈ inFront (chr '~') base then
        (toTimestamp offset (behind (chr '(') (inFront (chr '~') base))).map fun nTimeFrom =>
          some (nTimeFrom, 0)
      else some none := by
  have whole := cut_at (chr '~') base marked
  have absent := inFront_absent (chr '~') base
  have shape : backupText base begins ends = inFront (chr '~') base ++ chr '~' ::
      ((behind (chr '~') base ++ chr '-' :: chr '(' ::
        (timeText begins (chr '.') (chr '-') (chr '.') ++
          chr '~' :: timeText ends (chr '.') (chr '-') (chr '.'))) ++ [chr ')']) := by
    rw [backupText]
    conv_lhs => rw [← whole]
    simp
  by_cases opened : chr '(' ∈ inFront (chr '~') base
  · have front := cut_at (chr '(') _ opened
    have parts := absent
    rw [← front] at parts
    simp only [List.mem_append, List.mem_cons, not_or] at parts
    have read := getBackupNameTime_read offset (inFront (chr '(') (inFront (chr '~') base))
      (behind (chr '(') (inFront (chr '~') base))
      (behind (chr '~') base ++ chr '-' :: chr '(' ::
        (timeText begins (chr '.') (chr '-') (chr '.') ++
          chr '~' :: timeText ends (chr '.') (chr '-') (chr '.')))
      (inFront_absent _ _) parts.1 parts.2.2
    rw [toTimestamp_both offset _ begins ends begin_four end_four] at read
    rw [if_pos opened, shape]
    conv_lhs => rw [← front]
    rw [List.append_assoc, List.cons_append, read]
    cases toTimestamp offset (behind (chr '(') (inFront (chr '~') base)) <;> rfl
  · rw [if_neg opened, shape]
    exact getBackupNameTime_refused offset _ _ opened absent

end Read

/-- A base name without the marks, and what is read by chance in the others. -/
def ReadsBack (offset : Int) (base : Bytes) (begin_time_ end_time : Int) : Prop :=
  Formatted base ∧
    if chr '~' ∈ base then
      chr '(' ∈ inFront (chr '~') base ∧ end_time = 0 ∧
        toTimestamp offset (behind (chr '(') (inFront (chr '~') base)) = some begin_time_
    else chr '(' ∈ base → begin_time_ = 0 ∧ ∃ c ∈ behind (chr '(') base, isSeparator c = false

def expiry (expire_days_ : UInt32) : Int := expire_days_.toNat * SECOND_UNITS_PER_DAY

/-- The end is read right, or what is taken for it has not expired either. -/
def StaysYoung (offset : Int) (expire_days_ : UInt32) (now : Int) (base : Bytes)
    (nAttr : FileAttribute) : Prop :=
  nAttr.is_directory_ = true ∨
    if Formatted base ∧ chr '~' ∉ base then True
    else if Formatted base ∧ chr '(' ∈ inFront (chr '~') base then
      (toTimestamp offset (behind (chr '(') (inFront (chr '~') base))).isSome = true ∧
        now ≤ expiry expire_days_
    else now ≤ max nAttr.create_time_ nAttr.modify_time_ + expiry expire_days_

theorem localtime_seconds (offset seconds : Int) :
    (localtime offset seconds).seconds - offset = seconds := by
  rw [localtime, seconds_ofSeconds]
  omega

/-- The time a file is judged by. -/
def readEnd (nAttr : FileAttribute) : Option (Int × Int) → Int
  | some (_, nTimeTo) => nTimeTo
  | none => max nAttr.create_time_ nAttr.modify_time_

theorem kept_file_iff (offset : Int) (expire_days_ : UInt32) (now : Int) (strName : Bytes)
    (nAttr : FileAttribute) (file : ¬ nAttr.is_directory_ = true) :
    deletes offset expire_days_ now strName nAttr = some false ↔
      ∃ times, getBackupNameTime offset strName = some times ∧
        now ≤ readEnd nAttr times + expiry expire_days_ := by
  have judged : deletes offset expire_days_ now strName nAttr =
      (getBackupNameTime offset strName).map fun times =>
        decide (readEnd nAttr times + expiry expire_days_ < now) := by
    rw [deletes, if_neg file]
    cases getBackupNameTime offset strName with
    | none => rfl
    | some times => cases times <;> rfl
  rw [judged, Option.map_eq_some_iff]
  simp only [decide_eq_false_iff_not, not_lt]

theorem getBackupNameTime_empty (offset : Int) : getBackupNameTime offset [] = some none := rfl

section Written

variable (offset begin_time_ now_us : Int) (file_name_ : Bytes)
  (begins : FourDigitYear (localtime offset begin_time_))
  (ends : FourDigitYear (localtime offset (toUnixTimestamp now_us)))

include begins ends

theorem reads_back_iff :
    getBackupNameTime offset (backupFileName offset begin_time_ now_us file_name_) =
        some (some (begin_time_, toUnixTimestamp now_us)) ↔
      ReadsBack offset (cString file_name_) begin_time_ (toUnixTimestamp now_us) := by
  rw [backupFileName_eq offset begin_time_ now_us file_name_ begins ends]
  generalize cString file_name_ = base
  generalize toUnixTimestamp now_us = end_time at ends ⊢
  by_cases formatted : Formatted base
  · rw [if_pos formatted, ReadsBack, and_iff_right formatted]
    by_cases marked : chr '~' ∈ base
    · rw [if_pos marked, read_marked offset base _ _ begins ends marked]
      by_cases opened : chr '(' ∈ inFront (chr '~') base
      · rw [if_pos opened, and_iff_right opened]
        cases toTimestamp offset (behind (chr '(') (inFront (chr '~') base)) with
        | none => simp
        | some nTimeFrom =>
            simp only [Option.map_some, Option.some.injEq, Prod.mk.injEq]
            exact and_comm.trans (and_congr_left' eq_comm)
      · simp [opened]
    · rw [if_neg marked]
      by_cases opened : chr '(' ∈ base
      · have earlier := yearZero_earlier _ begins
        have begin_seconds := localtime_seconds offset begin_time_
        have filled := frontPieces_nil_iff (behind (chr '(') base)
        rw [read_opened offset base _ _ begins ends marked opened, localtime_seconds]
        simp only [opened, forall_const, Option.some.injEq, Prod.mk.injEq, and_true]
        by_cases none : frontPieces (behind (chr '(') base) = []
        · have all := filled.mp none
          rw [if_pos none]
          constructor
          · intro same
            omega
          · rintro ⟨_, c, member, other⟩
            rw [all c member] at other
            cases other
        · have some_other : ∃ c ∈ behind (chr '(') base, isSeparator c = false := by
            simpa using filled.not.mp none
          rw [if_neg none]
          exact ⟨fun zero => ⟨zero.symm, some_other⟩, fun both => both.1.symm⟩
      · rw [read_plain offset base _ _ begins ends marked opened, localtime_seconds,
          localtime_seconds]
        simp [opened]
  · rw [if_neg formatted, getBackupNameTime_empty]
    simp [ReadsBack, formatted]

theorem stays_young_iff (expire_days_ : UInt32) (now : Int) (nAttr : FileAttribute)
    (young : now < toUnixTimestamp now_us + expiry expire_days_) :
    deletes offset expire_days_ now (backupFileName offset begin_time_ now_us file_name_) nAttr =
        some false ↔
      StaysYoung offset expire_days_ now (cString file_name_) nAttr := by
  rw [backupFileName_eq offset begin_time_ now_us file_name_ begins ends]
  generalize cString file_name_ = base
  generalize toUnixTimestamp now_us = end_time at ends young ⊢
  rw [StaysYoung]
  by_cases directory : nAttr.is_directory_ = true
  · simp [deletes, directory]
  · rw [kept_file_iff offset expire_days_ now _ nAttr directory, or_iff_right directory]
    by_cases formatted : Formatted base
    · simp only [formatted, true_and, if_true]
      by_cases marked : chr '~' ∈ base
      · rw [read_marked offset base _ _ begins ends marked, if_neg (not_not.mpr marked)]
        by_cases opened : chr '(' ∈ inFront (chr '~') base
        · simp only [opened, if_true]
          cases toTimestamp offset (behind (chr '(') (inFront (chr '~') base)) with
          | none => simp
          | some nTimeFrom => simp [readEnd]
        · simp [opened, readEnd]
      · rw [if_pos marked, iff_true]
        by_cases opened : chr '(' ∈ base
        · rw [read_opened offset base _ _ begins ends marked opened, localtime_seconds]
          exact ⟨_, rfl, young.le⟩
        · rw [read_plain offset base _ _ begins ends marked opened, localtime_seconds]
          exact ⟨_, rfl, by rw [readEnd, localtime_seconds]; exact young.le⟩
    · simp only [formatted, false_and, if_false]
      rw [getBackupNameTime_empty]
      simp [readEnd]

end Written

/-- A name is read back exactly where its base name has neither a `(` nor a `~`, or where the
wrong parts happen to give the times; and a backup is kept while it is young exactly where its
base name has no `~`, or what is taken for its end has not expired. -/
theorem backup_names_read_iff (offset begin_time_ now_us : Int) (file_name_ : Bytes)
    (begins : FourDigitYear (localtime offset begin_time_))
    (ends : FourDigitYear (localtime offset (toUnixTimestamp now_us))) (expire_days_ : UInt32)
    (now : Int) (nAttr : FileAttribute)
    (young : now < toUnixTimestamp now_us + expiry expire_days_) :
    (getBackupNameTime offset (backupFileName offset begin_time_ now_us file_name_) =
        some (some (begin_time_, toUnixTimestamp now_us)) ↔
      ReadsBack offset (cString file_name_) begin_time_ (toUnixTimestamp now_us)) ∧
    (deletes offset expire_days_ now (backupFileName offset begin_time_ now_us file_name_) nAttr =
        some false ↔
      StaysYoung offset expire_days_ now (cString file_name_) nAttr) :=
  ⟨reads_back_iff offset begin_time_ now_us file_name_ begins ends,
    stays_young_iff offset begin_time_ now_us file_name_ begins ends expire_days_ now nAttr young⟩

/-- 5 March 2018, 10:15:00 and a little later. -/
def loggedFrom : Int := 1520244900

def loggedTo : Int := 1520331300000000

theorem logged_years : FourDigitYear (localtime 28800 loggedFrom) ∧
    FourDigitYear (localtime 28800 (toUnixTimestamp loggedTo)) := by
  decide

theorem backup_names_read_iff_applies :
    getBackupNameTime 28800 (backupFileName 28800 loggedFrom loggedTo "run.log".toUTF8.data.toList) =
        some (some (1520244900, 1520331300)) ∧
      deletes 28800 10 1520331400
          (backupFileName 28800 loggedFrom loggedTo "run.log".toUTF8.data.toList) ⟨false, 0, 0⟩ =
        some false := by
  have both := backup_names_read_iff 28800 loggedFrom loggedTo "run.log".toUTF8.data.toList
    logged_years.1 logged_years.2 10 1520331400 ⟨false, 0, 0⟩ (by decide)
  have marks : Formatted (cString "run.log".toUTF8.data.toList) ∧
      chr '~' ∉ cString "run.log".toUTF8.data.toList ∧
      chr '(' ∉ cString "run.log".toUTF8.data.toList := by decide
  refine ⟨both.1.mpr ⟨marks.1, ?_⟩, both.2.mpr (.inr ?_)⟩
  · rw [if_neg marks.2.1]
    exact fun opened => absurd opened marks.2.2
  · rw [if_pos ⟨marks.1, marks.2.1⟩]
    trivial

/-- A bracket in the base name, and a bracket and a `~`, for which a backup of a minute ago is
deleted. -/
theorem marked_names_misread :
    getBackupNameTime 28800
        (backupFileName 28800 loggedFrom loggedTo "run(1).log".toUTF8.data.toList) =
      some (some (0, 1520331300)) ∧
    getBackupNameTime 28800
        (backupFileName 28800 loggedFrom loggedTo "run(~.log".toUTF8.data.toList) =
      some (some (0, 0)) ∧
    deletes 28800 10 1520331360
        (backupFileName 28800 loggedFrom loggedTo "run(~.log".toUTF8.data.toList)
        ⟨false, 1520331300, 1520331300⟩ = some true := by
  decide +kernel

end EChainLib.Utils
