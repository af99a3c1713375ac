import Mathlib
import EChainLib.Support.Calendar
import EChainLib.Ca.MakeRoot

/-! The texts `CA::CheckCertValidity` writes, and the calendar's own eight hours later. -/

namespace EChainLib.Ca

open Calendar
open Keys (Bytes)

/-! Times in UTC as an ASN.1 time writes them. -/

/-- Seconds that are zero may be left out. -/
inductive SecondText (t : DateTime) : Bytes → Prop where
  | left_out : t.second = 0 → SecondText t []
  | written : SecondText t (twoDigitText t.second)

def minuteNumbers (t : DateTime) : List Nat := [t.date.month, t.date.day, t.hour, t.minute]

def yearOfCentury (t : DateTime) : Nat := (t.date.year % 100).toNat

def century (t : DateTime) : Nat := (t.date.year / 100).toNat

inductive UtcTime (t : DateTime) : Asn1Time → Prop where
  | utctime (second : Bytes) : 1950 ≤ t.date.year → t.date.year < 2050 → SecondText t second →
      UtcTime t ⟨.utctime, (yearOfCentury t :: minuteNumbers t).flatMap twoDigitText ++ second ++
        ['Z'.toUInt8]⟩
  | generalizedtime (second : Bytes) : 1950 ≤ t.date.year → t.date.year ≤ 9998 →
      SecondText t second →
      UtcTime t ⟨.generalizedtime,
        (century t :: yearOfCentury t :: minuteNumbers t).flatMap twoDigitText ++ second ++
          ['Z'.toUInt8]⟩
  | fraction (digits : Bytes) : 1950 ≤ t.date.year → t.date.year ≤ 9998 → digits ≠ [] →
      (∀ c ∈ digits, (digit c).isSome = true) →
      UtcTime t ⟨.generalizedtime,
        (century t :: yearOfCentury t :: minuteNumbers t).flatMap twoDigitText ++
          twoDigitText t.second ++ '.'.toUInt8 :: digits ++ ['Z'.toUInt8]⟩

/-- The fields of a time, with what the local said of daylight saving. -/
def fieldsOf (t : DateTime) (dst : Int) : Tm :=
  ⟨t.date.year - 1900, t.date.month - 1, t.date.day, t.hour, t.minute, t.second, dst⟩

/-- The fourteen digits of the calendar in Beijing. -/
def beijingText (t : DateTime) : Bytes :=
  let shown := DateTime.ofSeconds (t.seconds + 8 * 3600)
  decimal 4 shown.date.year ++ decimal 2 shown.date.month ++ decimal 2 shown.date.day ++
    decimal 2 shown.hour ++ decimal 2 shown.minute ++ decimal 2 shown.second

/-! What the parsers make of such a time. -/

def minuteFields : List TimeField := clockFields.take 4

def secondField : TimeField := ⟨0, 59, true, fun n tm => { tm with tm_sec := n }⟩

theorem second_read (t : DateTime) (before text after : Bytes) (tm : Tm)
    (second : SecondText t text) (zone : text = [] → isZone (octet after 0) = true) :
    readFields (before ++ text ++ after) [secondField] before.length tm =
      some ((before ++ text).length, { tm with tm_sec := t.second }) := by
  cases second with
  | left_out zero =>
      have here : octet (before ++ [] ++ after) before.length = octet after 0 := by
        rw [List.append_nil, octet, List.getD_append_right _ _ _ _ (le_refl _), Nat.sub_self, octet]
      rw [readFields, here, zone rfl, zero]
      simp [secondField]
  | written =>
      have range := t.clock_range
      have fit : Fits secondField t.second := ⟨Nat.zero_le _, range.2.2, by omega⟩
      have read := readFields_written [secondField] [t.second] before after tm
        (.cons fit .nil)
      simpa [setFields, secondField, twoDigitText] using read

theorem minute_fits (t : DateTime) : List.Forall₂ Fits minuteFields (minuteNumbers t) := by
  have clock := t.clock_range
  have month := t.date.month_range
  have day := t.date.day_range
  have length := monthLength_range t.date.year t.date.month
  simp only [minuteFields, clockFields, minuteNumbers, List.take_succ_cons, List.take_zero,
    List.forall₂_cons, List.Forall₂.nil, Fits, and_true]
  omega

/-- The fields in front of the seconds. -/
theorem minutes_read (fields : List TimeField) (numbers : List Nat) (t : DateTime)
    (text after : Bytes) (tm : Tm) (fits : List.Forall₂ Fits fields numbers)
    (second : SecondText t text) (zone : text = [] → isZone (octet after 0) = true) :
    readFields ((numbers ++ minuteNumbers t).flatMap twoDigitText ++ text ++ after)
        (fields ++ minuteFields ++ [secondField]) 0 tm =
      some (((numbers ++ minuteNumbers t).flatMap twoDigitText ++ text).length,
        { setFields (fields ++ minuteFields) (numbers ++ minuteNumbers t) tm with
          tm_sec := t.second }) := by
  have all := List.rel_append fits (minute_fits t)
  have front := readFields_written_append (fields ++ minuteFields) [secondField]
    (numbers ++ minuteNumbers t) [] (text ++ after) tm all
  have back := second_read t ((numbers ++ minuteNumbers t).flatMap twoDigitText) text after
    (setFields (fields ++ minuteFields) (numbers ++ minuteNumbers t) tm) second zone
  rw [written_length] at back
  simp only [List.nil_append, List.length_nil, zero_add, ← List.append_assoc] at front
  rw [front, back]

theorem zulu_zone : isZone (octet ['Z'.toUInt8] 0) = true := by decide

theorem utctime_parsed (t : DateTime) (text : Bytes) (now tm : Tm) (first : 1950 ≤ t.date.year)
    (last : t.date.year < 2050) (second : SecondText t text) :
    asn1TimeToTm now tm (some ⟨.utctime, (yearOfCentury t :: minuteNumbers t).flatMap twoDigitText ++
      text ++ ['Z'.toUInt8]⟩) = some (fieldsOf t tm.tm_isdst) := by
  have year : yearOfCentury t ≤ 99 := by
    simp only [yearOfCentury]
    omega
  have fits : List.Forall₂ Fits (utcFields.take 1) [yearOfCentury t] :=
    .cons ⟨Nat.zero_le _, year, year⟩ .nil
  have read := minutes_read (utcFields.take 1) [yearOfCentury t] t text ['Z'.toUInt8] tm fits second
    fun _ => zulu_zone
  have fields : utcFields.take 1 ++ minuteFields ++ [secondField] = utcFields := rfl
  have long := written_length (yearOfCentury t :: minuteNumbers t)
  have count : (yearOfCentury t :: minuteNumbers t).length = 5 := rfl
  have set : { setFields (utcFields.take 1 ++ minuteFields)
      (yearOfCentury t :: minuteNumbers t) tm with tm_sec := (t.second : Int) } =
        fieldsOf t tm.tm_isdst := by
    have tm_year : (if yearOfCentury t < 50 then (yearOfCentury t : Int) + 100
        else yearOfCentury t) = t.date.year - 1900 := by
      simp only [yearOfCentury]
      split_ifs <;> omega
    simp [setFields, utcFields, minuteFields, clockFields, minuteNumbers, fieldsOf, tm_year]
  rw [fields, List.singleton_append, set] at read
  simp only [asn1TimeToTm, asn1UtctimeToTm, ne_eq, not_true_eq_false, if_false, List.length_append,
    List.length_singleton]
  rw [if_neg (by omega), read, Option.bind_some, zulu_complete]

/-- A GeneralizedTime up to its `Z`, from what is behind the seconds. -/
theorem generalizedtime_parsed (t : DateTime) (text rest : Bytes) (now tm : Tm)
    (first : 1950 ≤ t.date.year) (last : t.date.year ≤ 9998) (second : SecondText t text)
    (zone : text = [] → isZone (octet (rest ++ ['Z'.toUInt8]) 0) = true)
    (skipped : ∀ before : Bytes,
      skipFraction (before ++ rest ++ ['Z'.toUInt8]) before.length = some (before ++ rest).length) :
    asn1TimeToTm now tm (some ⟨.generalizedtime,
      (century t :: yearOfCentury t :: minuteNumbers t).flatMap twoDigitText ++ text ++ rest ++
        ['Z'.toUInt8]⟩) = some (fieldsOf t tm.tm_isdst) := by
  have years : century t ≤ 99 ∧ yearOfCentury t ≤ 99 := by
    simp only [century, yearOfCentury]
    omega
  have fits : List.Forall₂ Fits (generalizedFields.take 2) [century t, yearOfCentury t] :=
    .cons ⟨Nat.zero_le _, years.1, years.1⟩ (.cons ⟨Nat.zero_le _, years.2, years.2⟩ .nil)
  have read := minutes_read (generalizedFields.take 2) [century t, yearOfCentury t] t text
    (rest ++ ['Z'.toUInt8]) tm fits second zone
  have fields : generalizedFields.take 2 ++ minuteFields ++ [secondField] = generalizedFields := rfl
  have long := written_length (century t :: yearOfCentury t :: minuteNumbers t)
  have count : (century t :: yearOfCentury t :: minuteNumbers t).length = 6 := rfl
  have set : { setFields (generalizedFields.take 2 ++ minuteFields)
      ([century t, yearOfCentury t] ++ minuteNumbers t) tm with tm_sec := (t.second : Int) } =
        fieldsOf t tm.tm_isdst := by
    have tm_year : (century t : Int) * 100 - 1900 + yearOfCentury t = t.date.year - 1900 := by
      simp only [century, yearOfCentury]
      omega
    simp [setFields, generalizedFields, minuteFields, clockFields, minuteNumbers, fieldsOf, tm_year]
  rw [fields, set, ← List.append_assoc] at read
  simp only [List.cons_append, List.nil_append] at read
  simp only [asn1TimeToTm, asn1GeneralizedtimeToTm, ne_eq, not_true_eq_false, if_false,
    List.length_append, List.length_singleton]
  rw [if_neg (by omega), read, Option.bind_some, skipped, Option.bind_some, zulu_complete]

theorem no_fraction (before : Bytes) :
    skipFraction (before ++ [] ++ ['Z'.toUInt8]) before.length = some (before ++ []).length := by
  have zulu : octet (before ++ [] ++ ['Z'.toUInt8]) before.length ≠ '.'.toUInt8 := by
    rw [List.append_nil, octet, List.getD_append_right _ _ _ _ (le_refl _), Nat.sub_self]
    decide
  rw [skipFraction, if_pos zulu, List.append_nil]

theorem fraction_skipped (digits before : Bytes) (some_digit : digits ≠ [])
    (all : ∀ c ∈ digits, (digit c).isSome = true) :
    skipFraction (before ++ '.'.toUInt8 :: digits ++ ['Z'.toUInt8]) before.length =
      some (before ++ '.'.toUInt8 :: digits).length := by
  have point : octet (before ++ '.'.toUInt8 :: digits ++ ['Z'.toUInt8]) before.length =
      '.'.toUInt8 := by simp [octet]
  have behind : (before ++ '.'.toUInt8 :: digits ++ ['Z'.toUInt8]).drop (before.length + 1) =
      digits ++ ['Z'.toUInt8] := by simp
  have taken : (digits ++ ['Z'.toUInt8]).takeWhile (fun c => (digit c).isSome) = digits := by
    rw [List.takeWhile_append_of_pos all, List.takeWhile_cons_of_neg (by decide), List.append_nil]
  have long : (before ++ '.'.toUInt8 :: digits ++ ['Z'.toUInt8]).length =
      before.length + 1 + digits.length + 1 := by
    simp only [List.length_append, List.length_cons, List.length_nil]
    omega
  rw [skipFraction, if_neg (not_not.mpr point), long, if_neg (by omega), behind, taken]
  obtain ⟨c, more, rfl⟩ := List.exists_cons_of_ne_nil some_digit
  simp only [List.length_append, List.length_cons]
  congr 1
  omega

/-- A well-formed time is read as its fields. -/
theorem utcTime_parsed (t : DateTime) (time : Asn1Time) (written : UtcTime t time) (now tm : Tm) :
    asn1TimeToTm now tm (some time) = some (fieldsOf t tm.tm_isdst) := by
  cases written with
  | utctime text first last second => exact utctime_parsed t text now tm first last second
  | generalizedtime text first last second =>
      have parsed := generalizedtime_parsed t text [] now tm first last second
        (fun _ => zulu_zone) no_fraction
      rwa [List.append_nil] at parsed
  | fraction digits first last some_digit all =>
      exact generalizedtime_parsed t (twoDigitText t.second) ('.'.toUInt8 :: digits) now tm first last
        .written (fun none => absurd none (List.cons_ne_nil _ _))
        fun before => fraction_skipped digits before some_digit all

/-! Eight hours later. -/

theorem shifted_early (t : DateTime) (early : t.hour < 16) :
    DateTime.ofSeconds (t.seconds + 8 * 3600) =
      ⟨t.date, t.hour + 8, t.minute, t.second, by have range := t.clock_range; omega⟩ := by
  rw [← ofSeconds_seconds ⟨t.date, t.hour + 8, t.minute, t.second, _⟩]
  congr 1
  simp only [DateTime.seconds]
  push_cast
  ring

/-- From 16:00 on it is the next day in Beijing. -/
theorem shifted_late (t : DateTime) (late : 16 ≤ t.hour) :
    DateTime.ofSeconds (t.seconds + 8 * 3600) =
      ⟨t.date.next, t.hour - 16, t.minute, t.second, by have range := t.clock_range; omega⟩ := by
  rw [← ofSeconds_seconds ⟨t.date.next, t.hour - 16, t.minute, t.second, _⟩]
  have tomorrow : t.date.next.number = t.date.number + 1 := number_ofNumber _
  congr 1
  simp only [DateTime.seconds, tomorrow]
  omega

theorem validityText_fields (t : DateTime) :
    validityText (fieldsOf t 0) =
      decimal 4 t.date.year ++ decimal 2 t.date.month ++ decimal 2 t.date.day ++
        decimal 2 (if 16 ≤ t.hour then (t.hour : Int) - 16 else t.hour + 8) ++ decimal 2 t.minute ++
        decimal 2 t.second := by
  have hour : shownHour (fieldsOf t 0) =
      if 16 ≤ t.hour then (t.hour : Int) - 16 else t.hour + 8 := by
    simp only [shownHour, fieldsOf]
    split_ifs <;> omega
  rw [validityText, hour]
  simp [fieldsOf]

theorem two_digits_long (n : Nat) (small : n ≤ 99) : (decimal 2 n).length = 2 :=
  decimal_length 2 n (by omega)

/-- The text is Beijing's exactly until 16:00: later the day in it is yesterday's. -/
theorem validityText_beijing_iff (t : DateTime) :
    validityText (fieldsOf t 0) = beijingText t ↔ t.hour < 16 := by
  rw [validityText_fields]
  constructor
  · intro same
    by_contra late
    have range := t.clock_range
    rw [beijingText, shifted_late t (by omega), if_pos (by omega)] at same
    dsimp only at same
    have hour : ((t.hour - 16 : Nat) : Int) = (t.hour : Int) - 16 := by omega
    rw [hour, List.append_cancel_right_eq, List.append_cancel_right_eq,
      List.append_cancel_right_eq] at same
    have own := t.date.day_range
    have next := t.date.next.day_range
    have length := monthLength_range t.date.year t.date.month
    have next_length := monthLength_range t.date.next.year t.date.next.month
    have days := List.append_inj_right' same
      ((two_digits_long _ (by omega)).trans (two_digits_long _ (by omega)).symm)
    exact next_day_ne t.date (by exact_mod_cast (decimal_injective 2 days).symm)
  · intro early
    rw [beijingText, shifted_early t early, if_neg (by omega)]
    dsimp only
    push_cast
    rfl

/-- A certificate in its period has its times shown in Beijing time exactly where both are
before 16:00 and it is not the last second yet. -/
theorem validity_in_beijing_iff (lib : OpenSsl) (x509 : X509 lib.toKeyTypes) (t1 t2 : DateTime)
    (begins : UtcTime t1 x509.not_before) (ends : UtcTime t2 x509.not_after)
    (begin_read : ∀ second, lib.instant x509.not_before = some second → second = t1.seconds)
    (end_read : ∀ second, lib.instant x509.not_after = some second → second = t2.seconds)
    (now : Int) (started : t1.seconds ≤ now) (not_over : now ≤ t2.seconds)
    (gmtime tm_not_before tm_not_after : Tm) (before_dst : tm_not_before.tm_isdst = 0)
    (after_dst : tm_not_after.tm_isdst = 0) :
    checkCertValidity lib x509 now gmtime tm_not_before tm_not_after =
        .ok (beijingText t1, beijingText t2) ↔
      t1.hour < 16 ∧ t2.hour < 16 ∧ lib.instant x509.not_after ≠ some now := by
  have before := utcTime_parsed t1 x509.not_before begins blankTm blankTm
  have after := utcTime_parsed t2 x509.not_after ends blankTm blankTm
  have passes : TimesPass lib x509 now ↔ lib.instant x509.not_after ≠ some now := by
    rw [TimesPass, before, after]
    constructor
    · rintro ⟨_, later, _⟩ last
      exact absurd (later now last) (lt_irrefl now)
    · intro not_last
      refine ⟨fun second read => (begin_read second read).trans_le started, fun second read => ?_,
        rfl, rfl⟩
      have apart : second ≠ now := fun same => not_last (same ▸ read)
      have value := end_read second read
      omega
  rw [checkCertValidity_ok_iff, passes, ← validityText_beijing_iff, ← validityText_beijing_iff,
    before, after, before_dst, after_dst]
  constructor
  · rintro ⟨not_last, _, _, first, second, texts⟩
    obtain rfl := Option.some.inj first
    obtain rfl := Option.some.inj second
    have both := Prod.mk.inj texts
    exact ⟨both.1.symm, both.2.symm, not_last⟩
  · rintro ⟨first, second, not_last⟩
    exact ⟨not_last, _, _, rfl, rfl, Prod.ext first.symm second.symm⟩

/-- 5 and 6 March 2018 at 10:15:00. -/
def dayTime (day : Nat) (range : 1 ≤ day ∧ day ≤ 31) : DateTime :=
  ⟨⟨2018, 3, day, by decide, range⟩, 10, 15, 0, by decide⟩

theorem validity_in_beijing_iff_applies :
    checkCertValidity plainOpenSsl forgedCert 1520300000 blankTm blankTm blankTm =
        .ok (beijingText (dayTime 5 (by decide)), beijingText (dayTime 6 (by decide))) := by
  have first : plainOpenSsl.instant forgedCert.not_before = some 1520244900 := by decide +kernel
  have last : plainOpenSsl.instant forgedCert.not_after = some 1520331300 := by decide +kernel
  have seconds : (dayTime 5 (by decide)).seconds = 1520244900 ∧
      (dayTime 6 (by decide)).seconds = 1520331300 := by decide
  refine (validity_in_beijing_iff plainOpenSsl forgedCert (dayTime 5 (by decide))
    (dayTime 6 (by decide)) ?_ ?_ ?_ ?_ 1520300000 ?_ ?_ blankTm blankTm blankTm rfl rfl).mpr ?_
  · exact .utctime (twoDigitText 0) (by decide) (by decide) .written
  · exact .utctime (twoDigitText 0) (by decide) (by decide) .written
  · intro second read
    rw [first] at read
    rw [seconds.1, Option.some.inj read]
  · intro second read
    rw [last] at read
    rw [seconds.2, Option.some.inj read]
  · rw [seconds.1]
    decide
  · rw [seconds.2]
    decide
  · rw [last]
    decide

/-! Times from 16:00 on. -/

def eveningText (day : Nat) : Asn1Time :=
  ⟨.utctime, ([18, 3, day, 20, 15].flatMap twoDigitText ++ twoDigitText 0) ++ ['Z'.toUInt8]⟩

def evening (day : Nat) (range : 1 ≤ day ∧ day ≤ 31) : DateTime :=
  ⟨⟨2018, 3, day, by decide, range⟩, 20, 15, 0, by decide⟩

def eveningOpenSsl : OpenSsl :=
  { plainOpenSsl with
    instant := fun t =>
      if t = eveningText 5 then some 1520280900
      else if t = eveningText 6 then some 1520367300
      else none
    instant_unset := by decide
    gmtimeAdj := fun _ => none
    gmtimeAdj_written := fun _ _ written => by cases written }

def eveningCert : X509 eveningOpenSsl.toKeyTypes :=
  { forgedCert with not_before := eveningText 5, not_after := eveningText 6 }

/-- It is 6 March in Beijing, and the text says 5 March. -/
theorem evening_shown_a_day_early :
    checkCertValidity eveningOpenSsl eveningCert 1520300000 blankTm blankTm blankTm =
        .ok ("20180305041500".toUTF8.data.toList, "20180306041500".toUTF8.data.toList) ∧
      beijingText (evening 5 (by decide)) = "20180306041500".toUTF8.data.toList ∧
      UtcTime (evening 5 (by decide)) eveningCert.not_before ∧
      UtcTime (evening 6 (by decide)) eveningCert.not_after ∧
      eveningOpenSsl.instant eveningCert.not_before = some (evening 5 (by decide)).seconds ∧
      eveningOpenSsl.instant eveningCert.not_after = some (evening 6 (by decide)).seconds ∧
      (evening 5 (by decide)).seconds ≤ 1520300000 ∧
      1520300000 ≤ (evening 6 (by decide)).seconds := by
  refine ⟨by decide +kernel, by decide +kernel, ?_, ?_, by decide, by decide, by decide, by decide⟩
  · exact .utctime (twoDigitText 0) (by decide) (by decide) .written
  · exact .utctime (twoDigitText 0) (by decide) (by decide) .written

end EChainLib.Ca
