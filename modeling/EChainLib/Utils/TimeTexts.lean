import EChainLib.Support.Calendar
import EChainLib.Node.StoredRows
import EChainLib.Utils.Replace
import EChainLib.Utils.Tokens

/-! `Timestamp::ToFormatString` and `String::ToTimestamp`, in a time zone that is a fixed number
of seconds ahead of UTC. -/

namespace EChainLib.Utils

open EChainLib.Calendar
open EChainLib.Keys (Bytes)
open EChainLib.Config (chr atoi)
open EChainLib.Node (IsInt32 int32 int32_of_inside)

/-- `%*d` and `%0*d`, the latter for numbers that are not negative. -/
def printed (pad : UInt8) (width : Nat) (n : Int) : Bytes :=
  let text := Accounts.decimal n
  List.replicate (width - text.length) pad ++ text

/-- `localtime`. -/
def localtime (offset seconds : Int) : DateTime := DateTime.ofSeconds (seconds + offset)

/-- `mktime` with `tm_isdst` 0; -1 is that no `int` holds the year. -/
def mktime (offset tm_year tm_mon tm_mday tm_hour tm_min tm_sec : Int) : Int :=
  let seconds := 86400 * dayNumber (tm_year + 1900 + tm_mon / 12) (tm_mon % 12 + 1) tm_mday +
    3600 * tm_hour + 60 * tm_min + tm_sec
  if IsInt32 ((DateTime.ofSeconds seconds).date.year - 1900) then seconds - offset else -1

def kMicroSecondsPerSecond : Int := 1000000

/-- `ToUnixTimestamp`. -/
def toUnixTimestamp (timestamp_ : Int) : Int := timestamp_.tdiv kMicroSecondsPerSecond

/-- `ToFormatString(false)`, through a buffer of 32 bytes. -/
def toFormatString (offset timestamp_ : Int) : Bytes :=
  let tm_time := localtime offset (toUnixTimestamp timestamp_)
  (printed (chr ' ') 4 tm_time.date.year ++ chr '-' :: printed (chr '0') 2 tm_time.date.month ++
    chr '-' :: printed (chr '0') 2 tm_time.date.day ++ chr ' ' :: printed (chr '0') 2 tm_time.hour ++
    chr ':' :: printed (chr '0') 2 tm_time.minute ++
    chr ':' :: printed (chr '0') 2 tm_time.second).take 31

/-- The last part of `ToTimestamp`, on what `Strtok` found. -/
def piecesTimestamp (offset : Int) (nValues : List Bytes) : Option Int :=
  match nValues with
  | [year, mon, mday, hour, min, sec] => do
      let tm_year ← int32 (atoi year - 1900)
      let tm_mon ← int32 (atoi mon - 1)
      return mktime offset tm_year tm_mon (atoi mday) (atoi hour) (atoi min) (atoi sec)
  | _ => some 0

/-- `ToTimestamp`; `none` is an overflow. -/
def toTimestamp (offset : Int) (strTime : Bytes) : Option Int :=
  let strNewTime := replaced strTime [chr ':'] [chr '-']
  let strNewTime := replaced strNewTime [chr ' '] [chr '-']
  let strNewTime := replaced strNewTime [chr '/'] [chr '-']
  let strNewTime := replaced strNewTime [chr '.'] [chr '-']
  piecesTimestamp offset (strtokChar strNewTime (chr '-'))

/-- The characters between numbers. -/
def isSeparator (c : UInt8) : Bool :=
  c = chr ':' || c = chr ' ' || c = chr '/' || c = chr '.' || c = chr '-'

/-- All of them become `-`. -/
def separated (text : Bytes) : Bytes := text.map fun c => if isSeparator c then chr '-' else c

theorem toTimestamp_separated (offset : Int) (strTime : Bytes) :
    toTimestamp offset strTime = piecesTimestamp offset (strtokChar (separated strTime) (chr '-')) := by
  have all : replaced (replaced (replaced (replaced strTime [chr ':'] [chr '-']) [chr ' '] [chr '-'])
      [chr '/'] [chr '-']) [chr '.'] [chr '-'] = separated strTime := by
    simp only [replaced_char, separated, List.map_map]
    refine List.map_congr_left fun c _ => ?_
    simp only [Function.comp_apply, isSeparator]
    split_ifs <;> simp_all
  rw [← all]
  rfl

/-! The texts of numbers. -/

structure Numeral (text : Bytes) (n : Int) : Prop where
  filled : text ≠ []
  digits : ∀ c ∈ text, 48 ≤ c.toNat ∧ c.toNat ≤ 57
  value : atoi text = n

theorem strtolDigits_zeros (zeros : Nat) (text : Bytes) :
    Config.strtolDigits 10 0 (List.replicate zeros (chr '0') ++ text) =
      Config.strtolDigits 10 0 text := by
  have zero : Config.digitOf 10 (chr '0') = some 0 := by decide
  induction zeros with
  | zero => rfl
  | succ zeros ih => simpa [List.replicate_succ, Config.strtolDigits, zero] using ih

theorem decimal_natural (n : Nat) :
    Accounts.decimal n = (Nat.toDigits 10 n).map Char.toUInt8 := by
  rw [Accounts.decimal, if_neg (by omega), List.nil_append, Int.natAbs_natCast]

/-- Digits with zeros in front. -/
theorem zeros_numeral (zeros n : Nat) (small : n < 2 ^ 31) :
    Numeral (List.replicate zeros (chr '0') ++ Accounts.decimal n) n := by
  have digits : ∀ c ∈ List.replicate zeros (chr '0') ++ Accounts.decimal n,
      48 ≤ c.toNat ∧ c.toNat ≤ 57 := by
    intro c member
    rw [decimal_natural, List.mem_append, List.mem_replicate, List.mem_map] at member
    rcases member with ⟨_, rfl⟩ | ⟨digit, found, rfl⟩
    · decide
    · obtain ⟨number, lower, upper⟩ := Node.digit_number digit
        (Nat.isDigit_of_mem_toDigits (by decide) (by decide) found)
      rw [number]
      exact ⟨lower, upper⟩
  have filled : List.replicate zeros (chr '0') ++ Accounts.decimal n ≠ [] := by
    rw [decimal_natural]
    exact List.append_ne_nil_of_right_ne_nil _ (by simp [Nat.toDigits_ne_nil])
  refine ⟨filled, digits, ?_⟩
  have read : Config.strtolDigits 10 0 (List.replicate zeros (chr '0') ++ Accounts.decimal n) = n := by
    rw [strtolDigits_zeros, decimal_natural, Node.strtol_digits]
  obtain ⟨first, rest, shape⟩ := List.exists_cons_of_ne_nil filled
  rw [shape] at digits read ⊢
  obtain ⟨lower, upper⟩ := digits first List.mem_cons_self
  rw [atoi, (Node.strtol_unsigned first rest lower upper).1, read, Config.toInt]
  rw [min_eq_right (by omega), max_eq_right (by omega)]
  exact Int.bmod_eq_of_le (by omega) (by omega)

theorem decimal_length_le_iff (n count : Nat) (positive : 0 < count) :
    (Accounts.decimal n).length ≤ count ↔ n < 10 ^ count := by
  rw [decimal_natural, List.length_map]
  exact Nat.length_toDigits_le_iff (by decide) positive

theorem printed_two (n : Nat) (small : n < 100) :
    Numeral (printed (chr '0') 2 n) n ∧ (printed (chr '0') 2 n).length = 2 := by
  have short := (decimal_length_le_iff n 2 (by decide)).mpr (by omega)
  refine ⟨zeros_numeral _ n (by omega), ?_⟩
  rw [printed, List.length_append, List.length_replicate]
  omega

theorem printed_year (year : Int) (four : 1000 ≤ year ∧ year ≤ 9999) :
    Numeral (printed (chr ' ') 4 year) year ∧ (printed (chr ' ') 4 year).length = 4 := by
  obtain ⟨n, rfl⟩ := Int.eq_ofNat_of_zero_le (by omega : 0 ≤ year)
  have short := (decimal_length_le_iff n 4 (by decide)).mpr (by omega)
  have long := (decimal_length_le_iff n 3 (by decide)).not.mpr (by omega)
  have bare : printed (chr ' ') 4 n = Accounts.decimal n := by
    rw [printed, show 4 - (Accounts.decimal n).length = 0 by omega]
    rfl
  rw [bare]
  exact ⟨zeros_numeral 0 n (by omega), by omega⟩

theorem Numeral.absent {text : Bytes} {n : Int} (numeral : Numeral text n) (c : UInt8)
    (foreign : c.toNat < 48 ∨ 57 < c.toNat) : c ∉ text := by
  intro member
  have range := numeral.digits c member
  omega

theorem digit_not_separator (c : UInt8) (digit : 48 ≤ c.toNat ∧ c.toNat ≤ 57) :
    isSeparator c = false := by
  simp only [isSeparator, Bool.or_eq_false_iff, decide_eq_false_iff_not]
  refine ⟨⟨⟨⟨?_, ?_⟩, ?_⟩, ?_⟩, ?_⟩ <;> rintro rfl <;> revert digit <;> decide

/-! The text of a time. -/

def FourDigitYear (t : DateTime) : Prop := 1000 ≤ t.date.year ∧ t.date.year ≤ 9999

instance (t : DateTime) : Decidable (FourDigitYear t) := instDecidableAnd

/-- The six numbers with a character between any two. -/
def timeText (t : DateTime) (date day clock : UInt8) : Bytes :=
  printed (chr ' ') 4 t.date.year ++ date :: printed (chr '0') 2 t.date.month ++
    date :: printed (chr '0') 2 t.date.day ++ day :: printed (chr '0') 2 t.hour ++
    clock :: printed (chr '0') 2 t.minute ++ clock :: printed (chr '0') 2 t.second

/-- The numbers of a time. -/
structure Numerals (t : DateTime) : Prop where
  year : Numeral (printed (chr ' ') 4 t.date.year) t.date.year
  month : Numeral (printed (chr '0') 2 t.date.month) t.date.month
  day : Numeral (printed (chr '0') 2 t.date.day) t.date.day
  hour : Numeral (printed (chr '0') 2 t.hour) t.hour
  minute : Numeral (printed (chr '0') 2 t.minute) t.minute
  second : Numeral (printed (chr '0') 2 t.second) t.second

theorem timeText_numerals (t : DateTime) (four : FourDigitYear t) (date day clock : UInt8) :
    Numerals t ∧ (timeText t date day clock).length = 19 := by
  obtain ⟨hours, minutes, seconds⟩ := t.clock_range
  have months := t.date.month_range
  have days := t.date.day_range
  have length := monthLength_range t.date.year t.date.month
  have year := printed_year t.date.year four
  have month := printed_two t.date.month (by omega)
  have mday := printed_two t.date.day (by omega)
  have hour := printed_two t.hour (by omega)
  have minute := printed_two t.minute (by omega)
  have second := printed_two t.second (by omega)
  refine ⟨⟨year.1, month.1, mday.1, hour.1, minute.1, second.1⟩, ?_⟩
  simp only [timeText, List.length_append, List.length_cons]
  omega

theorem timeText_absent (t : DateTime) (four : FourDigitYear t) (date day clock c : UInt8)
    (foreign : c.toNat < 48 ∨ 57 < c.toNat) (other : c ∉ [date, day, clock]) :
    c ∉ timeText t date day clock := by
  have numerals := (timeText_numerals t four date day clock).1
  simp only [List.mem_cons, List.not_mem_nil, or_false, not_or] at other
  simp [timeText, other, numerals.year.absent c foreign, numerals.month.absent c foreign,
    numerals.day.absent c foreign, numerals.hour.absent c foreign, numerals.minute.absent c foreign,
    numerals.second.absent c foreign]

/-- A change of characters that leaves digits alone changes the characters between. -/
theorem timeText_map (t : DateTime) (four : FourDigitYear t) (date day clock : UInt8)
    (f : UInt8 → UInt8) (digits : ∀ c : UInt8, 48 ≤ c.toNat ∧ c.toNat ≤ 57 → f c = c) :
    (timeText t date day clock).map f = timeText t (f date) (f day) (f clock) := by
  have numerals := (timeText_numerals t four date day clock).1
  have kept : ∀ {text : Bytes} {n : Int}, Numeral text n → text.map f = text := fun numeral =>
    (List.map_congr_left fun c member => digits c (numeral.digits c member)).trans (List.map_id _)
  simp only [timeText, List.map_append, List.map_cons, kept numerals.year, kept numerals.month,
    kept numerals.day, kept numerals.hour, kept numerals.minute, kept numerals.second]

theorem toFormatString_eq (offset timestamp_ : Int)
    (four : FourDigitYear (localtime offset (toUnixTimestamp timestamp_))) :
    toFormatString offset timestamp_ =
      timeText (localtime offset (toUnixTimestamp timestamp_)) (chr '-') (chr ' ') (chr ':') := by
  have length := (timeText_numerals _ four (chr '-') (chr ' ') (chr ':')).2
  exact List.take_of_length_le (by rw [← timeText, length]; decide)

/-- The text with one character between any two numbers is cut there. -/
theorem strtokChar_timeText_append (t : DateTime) (four : FourDigitYear t) (front tail : Bytes)
    (d : UInt8) (foreign : d.toNat < 48 ∨ 57 < d.toNat) (absent : d ∉ front) :
    strtokChar (front ++ (timeText t d d d ++ tail)) d =
      (front ++ printed (chr ' ') 4 t.date.year) :: printed (chr '0') 2 t.date.month ::
        printed (chr '0') 2 t.date.day :: printed (chr '0') 2 t.hour ::
          printed (chr '0') 2 t.minute :: strtokChar (printed (chr '0') 2 t.second ++ tail) d := by
  have numerals := (timeText_numerals t four d d d).1
  have first : d ∉ front ++ printed (chr ' ') 4 t.date.year := fun member =>
    (List.mem_append.mp member).elim absent (numerals.year.absent d foreign)
  have filled : front ++ printed (chr ' ') 4 t.date.year ≠ [] :=
    List.append_ne_nil_of_right_ne_nil _ numerals.year.filled
  have shape : front ++ (timeText t d d d ++ tail) =
      (front ++ printed (chr ' ') 4 t.date.year) ++ d :: (printed (chr '0') 2 t.date.month ++
        d :: (printed (chr '0') 2 t.date.day ++ d :: (printed (chr '0') 2 t.hour ++
          d :: (printed (chr '0') 2 t.minute ++ d :: (printed (chr '0') 2 t.second ++ tail))))) := by
    simp [timeText]
  rw [shape, strtokChar_piece _ _ d first filled,
    strtokChar_piece _ _ d (numerals.month.absent d foreign) numerals.month.filled,
    strtokChar_piece _ _ d (numerals.day.absent d foreign) numerals.day.filled,
    strtokChar_piece _ _ d (numerals.hour.absent d foreign) numerals.hour.filled,
    strtokChar_piece _ _ d (numerals.minute.absent d foreign) numerals.minute.filled]

theorem strtokChar_timeText (t : DateTime) (four : FourDigitYear t) (front : Bytes) (d : UInt8)
    (foreign : d.toNat < 48 ∨ 57 < d.toNat) (absent : d ∉ front) :
    strtokChar (front ++ timeText t d d d) d =
      [front ++ printed (chr ' ') 4 t.date.year, printed (chr '0') 2 t.date.month,
        printed (chr '0') 2 t.date.day, printed (chr '0') 2 t.hour, printed (chr '0') 2 t.minute,
        printed (chr '0') 2 t.second] := by
  have numerals := (timeText_numerals t four d d d).1
  have pieces := strtokChar_timeText_append t four front [] d foreign absent
  rw [List.append_nil, List.append_nil,
    strtokChar_last _ d (numerals.second.absent d foreign)] at pieces
  exact pieces

/-- `mktime` on the fields of a time. -/
theorem mktime_civil (offset : Int) (t : DateTime) (counted : IsInt32 (t.date.year - 1900)) :
    mktime offset (t.date.year - 1900) (t.date.month - 1) t.date.day t.hour t.minute t.second =
      t.seconds - offset := by
  have months := t.date.month_range
  have same : 86400 * dayNumber (t.date.year - 1900 + 1900 + ((t.date.month : Int) - 1) / 12)
      (((t.date.month : Int) - 1) % 12 + 1) t.date.day + 3600 * t.hour + 60 * t.minute + t.second =
        t.seconds := by
    have year : t.date.year - 1900 + 1900 + ((t.date.month : Int) - 1) / 12 = t.date.year := by omega
    have month : ((t.date.month : Int) - 1) % 12 + 1 = t.date.month := by omega
    rw [year, month, DateTime.seconds, Date.number]
  rw [mktime, same, if_pos (by rwa [ofSeconds_seconds])]

theorem separated_timeText (t : DateTime) (four : FourDigitYear t) (date day clock : UInt8)
    (between : ∀ c ∈ [date, day, clock], isSeparator c = true) :
    separated (timeText t date day clock) = timeText t (chr '-') (chr '-') (chr '-') := by
  have kept : ∀ c : UInt8, 48 ≤ c.toNat ∧ c.toNat ≤ 57 →
      (if isSeparator c then chr '-' else c) = c := fun c digit => by
    rw [digit_not_separator c digit]
    rfl
  rw [separated, timeText_map t four date day clock _ kept, between date (by simp),
    between day (by simp), between clock (by simp)]
  rfl

/-- Six pieces are read as the time of their numbers. -/
theorem piecesTimestamp_civil (offset : Int) (t : DateTime)
    (counted : IsInt32 (t.date.year - 1900)) (year month day hour minute second : Bytes)
    (year_value : atoi year = t.date.year) (month_value : atoi month = t.date.month)
    (day_value : atoi day = t.date.day) (hour_value : atoi hour = t.hour)
    (minute_value : atoi minute = t.minute) (second_value : atoi second = t.second) :
    piecesTimestamp offset [year, month, day, hour, minute, second] = some (t.seconds - offset) := by
  have months := t.date.month_range
  have tm_year : int32 (t.date.year - 1900) = some (t.date.year - 1900) := int32_of_inside counted
  have tm_mon : int32 ((t.date.month : Int) - 1) = some ((t.date.month : Int) - 1) :=
    int32_of_inside ⟨by omega, by omega⟩
  simp only [piecesTimestamp, year_value, month_value, day_value, hour_value, minute_value,
    second_value, tm_year, tm_mon, Option.bind_eq_bind, Option.bind_some,
    mktime_civil offset t counted]
  rfl

theorem piecesTimestamp_other (offset : Int) (pieces : List Bytes) (other : pieces.length ≠ 6) :
    piecesTimestamp offset pieces = some 0 := by
  unfold piecesTimestamp
  split
  · exact absurd rfl other
  · rfl

/-- The text of a time is read as that time. -/
theorem toTimestamp_timeText (offset : Int) (t : DateTime) (four : FourDigitYear t)
    (date day clock : UInt8) (between : ∀ c ∈ [date, day, clock], isSeparator c = true) :
    toTimestamp offset (timeText t date day clock) = some (t.seconds - offset) := by
  have numerals := (timeText_numerals t four date day clock).1
  have pieces := strtokChar_timeText t four [] (chr '-') (by decide) List.not_mem_nil
  obtain ⟨low, high⟩ := four
  rw [toTimestamp_separated, separated_timeText t ⟨low, high⟩ date day clock between]
  simp only [List.nil_append] at pieces
  rw [pieces]
  exact piecesTimestamp_civil offset t ⟨by omega, by omega⟩ _ _ _ _ _ _ numerals.year.value
    numerals.month.value numerals.day.value numerals.hour.value numerals.minute.value
    numerals.second.value

end EChainLib.Utils
