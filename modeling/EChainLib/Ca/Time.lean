import Mathlib
import EChainLib.Keys.KeyElement

/-! The time parsers of `ca.cpp` and the text the root code takes from a time. An
ASN.1 time is its octets, behind which OpenSSL keeps a NUL. -/

namespace EChainLib.Ca

open Keys (Bytes)

/-- The fields of `struct tm` the code reads. -/
structure Tm where
  tm_year : Int
  tm_mon : Int
  tm_mday : Int
  tm_hour : Int
  tm_min : Int
  tm_sec : Int
  tm_isdst : Int
  deriving DecidableEq

inductive Asn1Type where
  | utctime
  | generalizedtime
  | other
  deriving DecidableEq

structure Asn1Time where
  type : Asn1Type
  data : Bytes
  deriving DecidableEq

/-! Julian days; C division truncates. -/

def dateToJulian (y m d : Int) : Int :=
  (1461 * (y + 4800 + (m - 14).tdiv 12)).tdiv 4 +
    (367 * (m - 2 - 12 * (m - 14).tdiv 12)).tdiv 12 -
    (3 * (y + 4900 + (m - 14).tdiv 12).tdiv 100).tdiv 4 + d - 32075

def julianToDate (jd : Int) : Int × Int × Int :=
  let L := jd + 68569
  let n := (4 * L).tdiv 146097
  let L := L - (146097 * n + 3).tdiv 4
  let i := (4000 * (L + 1)).tdiv 1461001
  let L := L - (1461 * i).tdiv 4 + 31
  let j := (80 * L).tdiv 2447
  let d := L - (2447 * j).tdiv 80
  let L := j.tdiv 11
  (100 * (n - 49) + i + L, j + 2 - 12 * L, d)

def SECS_PER_DAY : Int := 24 * 60 * 60

/-- The Julian day and the second of the day. -/
def julianAdj (tm : Tm) (off_day offset_sec : Int) : Option (Int × Int) :=
  let offset_day := offset_sec.tdiv SECS_PER_DAY
  let offset_hms := offset_sec - offset_day * SECS_PER_DAY
  let offset_day := offset_day + off_day
  let offset_hms := offset_hms + tm.tm_hour * 3600 + tm.tm_min * 60 + tm.tm_sec
  let (offset_day, offset_hms) :=
    if SECS_PER_DAY ≤ offset_hms then (offset_day + 1, offset_hms - SECS_PER_DAY)
    else if offset_hms < 0 then (offset_day - 1, offset_hms + SECS_PER_DAY)
    else (offset_day, offset_hms)
  let time_jd := dateToJulian (tm.tm_year + 1900) (tm.tm_mon + 1) tm.tm_mday + offset_day
  if time_jd < 0 then none else some (time_jd, offset_hms)

def opensslGmtimeAdj (tm : Tm) (off_day offset_sec : Int) : Option Tm :=
  match julianAdj tm off_day offset_sec with
  | none => none
  | some (time_jd, time_sec) =>
      let (time_year, time_month, time_day) := julianToDate time_jd
      if time_year < 1900 ∨ 9999 < time_year then none
      else some { tm with
        tm_year := time_year - 1900, tm_mon := time_month - 1, tm_mday := time_day,
        tm_hour := time_sec.tdiv 3600, tm_min := (time_sec.tdiv 60).tmod 60,
        tm_sec := time_sec.tmod 60 }

/-! The two parsers differ in their fields, in the fraction of a second and in
what they make of a missing time zone. -/

/-- `a[o]`, where the octets end in a NUL. -/
def octet (a : Bytes) (o : Nat) : UInt8 := a.getD o 0

def digit (c : UInt8) : Option Nat :=
  if '0'.toUInt8 ≤ c ∧ c ≤ '9'.toUInt8 then some (c - '0'.toUInt8).toNat else none

/-- Two digits at `o`, checked against `min[i]` and `max[i]`. -/
def twoDigits (a : Bytes) (o min max : Nat) : Option (Nat × Nat) :=
  match digit (octet a o) with
  | none => none
  | some high =>
      if a.length < o + 1 then none
      else
        match digit (octet a (o + 1)) with
        | none => none
        | some low =>
            if a.length < o + 2 then none
            else if high * 10 + low < min ∨ max < high * 10 + low then none
            else some (high * 10 + low, o + 2)

structure TimeField where
  min : Nat
  max : Nat
  /-- The seconds may be left out before a time zone. -/
  optional : Bool
  set : Int → Tm → Tm

def isSign (c : UInt8) : Bool := c == '+'.toUInt8 || c == '-'.toUInt8

def isZone (c : UInt8) : Bool := c == 'Z'.toUInt8 || isSign c

def readFields (a : Bytes) : List TimeField → Nat → Tm → Option (Nat × Tm)
  | [], o, tm => some (o, tm)
  | field :: rest, o, tm =>
      if field.optional && isZone (octet a o) then some (o, { tm with tm_sec := 0 })
      else
        match twoDigits a o field.min field.max with
        | none => none
        | some (n, o) => readFields a rest o (field.set n tm)

/-- The fields both kinds end in. -/
def clockFields : List TimeField :=
  [⟨1, 12, false, fun n tm => { tm with tm_mon := n - 1 }⟩,
    ⟨1, 31, false, fun n tm => { tm with tm_mday := n }⟩,
    ⟨0, 23, false, fun n tm => { tm with tm_hour := n }⟩,
    ⟨0, 59, false, fun n tm => { tm with tm_min := n }⟩,
    ⟨0, 59, true, fun n tm => { tm with tm_sec := n }⟩]

def utcFields : List TimeField :=
  ⟨0, 99, false, fun n tm => { tm with tm_year := if n < 50 then n + 100 else n }⟩ :: clockFields

def generalizedFields : List TimeField :=
  ⟨0, 99, false, fun n tm => { tm with tm_year := n * 100 - 1900 }⟩ ::
    ⟨0, 99, false, fun n tm => { tm with tm_year := tm.tm_year + n }⟩ :: clockFields

/-- The optional fractional seconds: where they end. -/
def skipFraction (a : Bytes) (o : Nat) : Option Nat :=
  if octet a o ≠ '.'.toUInt8 then some o
  else if a.length < o + 1 then none
  else
    match ((a.drop (o + 1)).takeWhile fun c => (digit c).isSome).length with
    | 0 => none
    | count => some (o + 1 + count)

/-- The time zone; `missing` says whether it may be left out at `o`. -/
def readZone (missing : UInt8 → Bool) (a : Bytes) (o : Nat) (tm : Tm) : Option (Nat × Tm) :=
  if octet a o = 'Z'.toUInt8 then some (o + 1, tm)
  else if isSign (octet a o) then
    let offsign : Int := if octet a o = '-'.toUInt8 then -1 else 1
    if a.length < o + 1 + 4 then none
    else
      match twoDigits a (o + 1) 0 12 with
      | none => none
      | some (hours, o) =>
          match twoDigits a o 0 59 with
          | none => none
          | some (minutes, o) =>
              let offset : Int := hours * 3600 + minutes * 60
              if offset = 0 then some (o, tm)
              else (opensslGmtimeAdj tm 0 (offset * offsign)).map fun tm => (o, tm)
  else if missing (octet a o) then some (o, tm)
  else none

def complete (a : Bytes) : Option (Nat × Tm) → Option Tm
  | some (o, tm) => if o = a.length then some tm else none
  | none => none

def asn1UtctimeToTm (tm : Tm) (d : Asn1Time) : Option Tm :=
  if d.type ≠ .utctime then none
  else if d.data.length < 11 then none
  else
    complete d.data <| (readFields d.data utcFields 0 tm).bind fun (o, tm) =>
      readZone (fun _ => true) d.data o tm

def asn1GeneralizedtimeToTm (tm : Tm) (d : Asn1Time) : Option Tm :=
  if d.type ≠ .generalizedtime then none
  else if d.data.length < 13 then none
  else
    complete d.data <| (readFields d.data generalizedFields 0 tm).bind fun (o, tm) =>
      (skipFraction d.data o).bind fun o => readZone (fun c => c == 0) d.data o tm

/-- `tm` is what the local holds; `now` is `gmtime` of the current time. -/
def asn1TimeToTm (now tm : Tm) : Option Asn1Time → Option Tm
  | none => some now
  | some t =>
      match t.type with
      | .utctime => asn1UtctimeToTm tm t
      | .generalizedtime => asn1GeneralizedtimeToTm tm t
      | .other => none

/-! The text of a time: eight hours on, or seven where the local said so. -/

/-- `%0*d`, at a width of at least one. -/
def decimal (width : Nat) (n : Int) : Bytes :=
  let digits := ((Nat.digits 10 n.natAbs).map fun digit => UInt8.ofNat (48 + digit)).reverse
  if n < 0 then '-'.toUInt8 :: (List.replicate (width - 1 - digits.length) '0'.toUInt8 ++ digits)
  else List.replicate (width - digits.length) '0'.toUInt8 ++ digits

def shownHour (tm : Tm) : Int :=
  if tm.tm_isdst = 1 then
    if 24 ≤ tm.tm_hour + 7 then tm.tm_hour - 17 else tm.tm_hour + 7
  else if 24 ≤ tm.tm_hour + 8 then tm.tm_hour - 16
  else tm.tm_hour + 8

def validityText (tm : Tm) : Bytes :=
  decimal 4 (tm.tm_year + 1900) ++ decimal 2 (tm.tm_mon + 1) ++ decimal 2 tm.tm_mday ++
    decimal 2 (shownHour tm) ++ decimal 2 tm.tm_min ++ decimal 2 tm.tm_sec

/-! The parsers set every field but `tm_isdst`, which keeps what the local held. -/

def Tm.withDst (tm : Tm) (dst : Int) : Tm := { tm with tm_isdst := dst }

def blankTm : Tm := ⟨0, 0, 0, 0, 0, 0, 0⟩

def keepDst (dst : Int) (read : Nat × Tm) : Nat × Tm := (read.1, read.2.withDst dst)

theorem clock_keeps_dst (a : Bytes) (o : Nat) (year : Int) (tm blank : Tm)
    (tm_year : tm.tm_year = year) (blank_year : blank.tm_year = year) :
    readFields a clockFields o tm = (readFields a clockFields o blank).map (keepDst tm.tm_isdst) := by
  subst year
  simp only [readFields, clockFields, Bool.false_and, Bool.true_and, Bool.false_eq_true, if_false]
  cases twoDigits a o 1 12 with
  | none => rfl
  | some month =>
      simp only
      cases twoDigits a month.2 1 31 with
      | none => rfl
      | some day =>
          simp only
          cases twoDigits a day.2 0 23 with
          | none => rfl
          | some hour =>
              simp only
              cases twoDigits a hour.2 0 59 with
              | none => rfl
              | some minute =>
                  simp only
                  split
                  · simp [keepDst, Tm.withDst, blank_year]
                  · cases twoDigits a minute.2 0 59 with
                    | none => rfl
                    | some second => simp [keepDst, Tm.withDst, blank_year]

theorem utc_keeps_dst (a : Bytes) (tm : Tm) :
    readFields a utcFields 0 tm = (readFields a utcFields 0 blankTm).map (keepDst tm.tm_isdst) := by
  simp only [readFields, utcFields, Bool.false_and, Bool.false_eq_true, if_false]
  cases twoDigits a 0 0 99 with
  | none => rfl
  | some year => exact clock_keeps_dst a year.2 _ _ _ rfl rfl

theorem generalized_keeps_dst (a : Bytes) (tm : Tm) :
    readFields a generalizedFields 0 tm =
      (readFields a generalizedFields 0 blankTm).map (keepDst tm.tm_isdst) := by
  simp only [readFields, generalizedFields, Bool.false_and, Bool.false_eq_true, if_false]
  cases twoDigits a 0 0 99 with
  | none => rfl
  | some century =>
      simp only
      cases twoDigits a century.2 0 99 with
      | none => rfl
      | some year => exact clock_keeps_dst a year.2 _ _ _ rfl rfl

theorem gmtimeAdj_keeps_dst (tm : Tm) (dst off_day offset_sec : Int) :
    opensslGmtimeAdj (tm.withDst dst) off_day offset_sec =
      (opensslGmtimeAdj tm off_day offset_sec).map fun adjusted => adjusted.withDst dst := by
  have same : julianAdj (tm.withDst dst) off_day offset_sec = julianAdj tm off_day offset_sec := rfl
  unfold opensslGmtimeAdj
  rw [same]
  cases julianAdj tm off_day offset_sec with
  | none => rfl
  | some moved =>
      simp only
      split <;> rfl

theorem readZone_keeps_dst (missing : UInt8 → Bool) (a : Bytes) (dst : Int) (read : Nat × Tm) :
    readZone missing a (keepDst dst read).1 (keepDst dst read).2 =
      (readZone missing a read.1 read.2).map (keepDst dst) := by
  obtain ⟨o, tm⟩ := read
  simp only [readZone, keepDst]
  by_cases zulu : octet a o = 'Z'.toUInt8
  · simp [zulu, keepDst]
  · by_cases signed : isSign (octet a o) = true
    · by_cases short : a.length < o + 1 + 4
      · simp [zulu, signed, short]
      · simp only [zulu, signed, short, if_true, if_false]
        cases twoDigits a (o + 1) 0 12 with
        | none => rfl
        | some hours =>
            simp only
            cases twoDigits a hours.2 0 59 with
            | none => rfl
            | some minutes =>
                simp only
                split
                · rfl
                · rw [gmtimeAdj_keeps_dst, Option.map_map, Option.map_map]
                  rfl
    · by_cases allowed : missing (octet a o) = true <;> simp [zulu, signed, allowed, keepDst]

theorem complete_keeps_dst (a : Bytes) (dst : Int) (read : Option (Nat × Tm)) :
    complete a (read.map (keepDst dst)) = (complete a read).map fun tm => tm.withDst dst := by
  cases read with
  | none => rfl
  | some read =>
      simp only [complete, Option.map_some, keepDst]
      split <;> rfl

/-- Nothing of the local but `tm_isdst` shows in what is parsed into it. -/
theorem parsed_keeps_dst (now tm : Tm) (t : Asn1Time) :
    asn1TimeToTm now tm (some t) =
      (asn1TimeToTm now blankTm (some t)).map fun parsed => parsed.withDst tm.tm_isdst := by
  cases kind : t.type with
  | other => simp [asn1TimeToTm, kind]
  | utctime =>
      simp only [asn1TimeToTm, kind, asn1UtctimeToTm, ne_eq, not_true_eq_false, if_false]
      split
      · rfl
      · rw [← complete_keeps_dst, utc_keeps_dst t.data tm]
        cases readFields t.data utcFields 0 blankTm with
        | none => rfl
        | some read =>
            simp only [Option.map_some, Option.bind_some]
            exact congrArg _ (readZone_keeps_dst _ t.data tm.tm_isdst read)
  | generalizedtime =>
      simp only [asn1TimeToTm, kind, asn1GeneralizedtimeToTm, ne_eq, not_true_eq_false, if_false]
      split
      · rfl
      · rw [← complete_keeps_dst, generalized_keeps_dst t.data tm]
        cases readFields t.data generalizedFields 0 blankTm with
        | none => rfl
        | some read =>
            cases skip : skipFraction t.data read.1 with
            | none => simp [skip, keepDst]
            | some o =>
                have zone := readZone_keeps_dst (fun c => c == 0) t.data tm.tm_isdst (o, read.2)
                simp only [Option.map_some, Option.bind_some, keepDst, skip] at zone ⊢
                exact congrArg _ zone

/-! Two texts of one time agree exactly when both locals, or neither, said that
daylight saving is on. -/

def decimalValue (text : Bytes) : Nat :=
  Nat.ofDigits 10 (text.reverse.map fun c => c.toNat - 48)

theorem digit_value (n : Nat) :
    decimalValue ((Nat.digits 10 n).map fun digit => UInt8.ofNat (48 + digit)).reverse = n := by
  have small : ∀ digit ∈ Nat.digits 10 n,
      ((fun c : UInt8 => c.toNat - 48) ∘ fun digit => UInt8.ofNat (48 + digit)) digit = digit := by
    intro digit member
    have bound := Nat.digits_lt_base (by decide : 1 < 10) member
    simp only [Function.comp_apply, UInt8.toNat_ofNat']
    omega
  rw [decimalValue, List.reverse_reverse, List.map_map, List.map_congr_left small, List.map_id']
  exact Nat.ofDigits_digits 10 n

theorem padded_value (count : Nat) (text : Bytes) :
    decimalValue (List.replicate count '0'.toUInt8 ++ text) = decimalValue text := by
  have zero : ('0'.toUInt8).toNat - 48 = 0 := by decide
  simp [decimalValue, Nat.ofDigits_append, Nat.ofDigits_replicate_zero, zero]

theorem signed_value (text : Bytes) :
    decimalValue ('-'.toUInt8 :: text) = decimalValue text := by
  have zero : ('-'.toUInt8).toNat - 48 = 0 := by decide
  simp [decimalValue, Nat.ofDigits_append, zero]

theorem decimal_value (width : Nat) (n : Int) : decimalValue (decimal width n) = n.natAbs := by
  simp only [decimal]
  split
  · rw [signed_value, padded_value, digit_value]
  · rw [padded_value, digit_value]

theorem decimal_digits (width : Nat) (n : Int) (positive : 0 ≤ n) :
    ∀ c ∈ decimal width n, c ≠ '-'.toUInt8 := by
  intro c member
  simp only [decimal, if_neg (by omega : ¬ n < 0), List.mem_append, List.mem_replicate,
    List.mem_reverse, List.mem_map] at member
  rcases member with ⟨_, rfl⟩ | ⟨digit, found, rfl⟩
  · decide
  · have bound := Nat.digits_lt_base (by decide : 1 < 10) found
    intro same
    have value := congrArg UInt8.toNat same
    rw [UInt8.toNat_ofNat', show ('-'.toUInt8).toNat = 45 from rfl] at value
    omega

theorem decimal_injective (width : Nat) : Function.Injective (decimal width) := by
  intro n m same
  have magnitude : n.natAbs = m.natAbs := by
    rw [← decimal_value width n, same, decimal_value]
  have sign : ∀ a b : Int, decimal width a = decimal width b → a < 0 → b < 0 := by
    intro a b equal negative
    by_contra positive
    refine decimal_digits width b (by omega) '-'.toUInt8 ?_ rfl
    rw [← equal, decimal, if_pos negative]
    exact List.mem_cons_self
  have forward := sign n m same
  have backward := sign m n same.symm
  omega

theorem shownHour_eq_iff (tm : Tm) (first second : Int) :
    shownHour (tm.withDst first) = shownHour (tm.withDst second) ↔
      (first = 1 ↔ second = 1) := by
  simp only [shownHour, Tm.withDst]
  split_ifs <;> omega

theorem validityText_eq_iff (tm : Tm) (first second : Int) :
    validityText (tm.withDst first) = validityText (tm.withDst second) ↔
      (first = 1 ↔ second = 1) := by
  rw [← shownHour_eq_iff tm first second]
  constructor
  · intro same
    simp only [validityText, Tm.withDst, List.append_assoc, List.append_cancel_left_eq] at same
    simp only [← List.append_assoc, List.append_cancel_right_eq] at same
    exact decimal_injective 2 same
  · intro same
    simp only [validityText, same]
    rfl

/-! What the parsers accept is in range, so that its text has fourteen characters. -/

structure Tm.InRange (tm : Tm) : Prop where
  year : 0 ≤ tm.tm_year + 1900 ∧ tm.tm_year + 1900 ≤ 9999
  mon : 0 ≤ tm.tm_mon ∧ tm.tm_mon ≤ 11
  mday : 1 ≤ tm.tm_mday ∧ tm.tm_mday ≤ 31
  hour : 0 ≤ tm.tm_hour ∧ tm.tm_hour ≤ 23
  min : 0 ≤ tm.tm_min ∧ tm.tm_min ≤ 59
  sec : 0 ≤ tm.tm_sec ∧ tm.tm_sec ≤ 59

theorem twoDigits_range (a : Bytes) (o min max : Nat) (read : Nat × Nat)
    (accepted : twoDigits a o min max = some read) :
    min ≤ read.1 ∧ read.1 ≤ max ∧ read.2 = o + 2 := by
  unfold twoDigits at accepted
  cases high_read : digit (octet a o) with
  | none => simp [high_read] at accepted
  | some high =>
      cases low_read : digit (octet a (o + 1)) with
      | none => simp [high_read, low_read] at accepted
      | some low =>
          simp only [high_read, low_read] at accepted
          split_ifs at accepted with _ _ bounds
          obtain rfl := Option.some.inj accepted
          refine ⟨?_, ?_, rfl⟩ <;> dsimp only <;> omega

theorem clock_range (a : Bytes) (o : Nat) (tm : Tm) (read : Nat × Tm)
    (year : 0 ≤ tm.tm_year + 1900 ∧ tm.tm_year + 1900 ≤ 9999)
    (accepted : readFields a clockFields o tm = some read) : read.2.InRange := by
  simp only [readFields, clockFields, Bool.false_and, Bool.true_and, Bool.false_eq_true,
    if_false] at accepted
  cases month_read : twoDigits a o 1 12 with
  | none => simp [month_read] at accepted
  | some month =>
      have month_range := twoDigits_range a o 1 12 month month_read
      simp only [month_read] at accepted
      cases day_read : twoDigits a month.2 1 31 with
      | none => simp [day_read] at accepted
      | some day =>
          have day_range := twoDigits_range a _ 1 31 day day_read
          simp only [day_read] at accepted
          cases hour_read : twoDigits a day.2 0 23 with
          | none => simp [hour_read] at accepted
          | some hour =>
              have hour_range := twoDigits_range a _ 0 23 hour hour_read
              simp only [hour_read] at accepted
              cases minute_read : twoDigits a hour.2 0 59 with
              | none => simp [minute_read] at accepted
              | some minute =>
                  have minute_range := twoDigits_range a _ 0 59 minute minute_read
                  simp only [minute_read] at accepted
                  split at accepted
                  · obtain rfl := Option.some.inj accepted
                    constructor <;> dsimp only <;> omega
                  · cases second_read : twoDigits a minute.2 0 59 with
                    | none => simp [second_read] at accepted
                    | some second =>
                        have second_range := twoDigits_range a _ 0 59 second second_read
                        simp only [second_read, Option.some.injEq] at accepted
                        subst accepted
                        constructor <;> dsimp only <;> omega

theorem utc_range (a : Bytes) (tm : Tm) (read : Nat × Tm)
    (accepted : readFields a utcFields 0 tm = some read) : read.2.InRange := by
  rw [utcFields, readFields] at accepted
  simp only [Bool.false_and, Bool.false_eq_true, if_false] at accepted
  cases year_read : twoDigits a 0 0 99 with
  | none => simp [year_read] at accepted
  | some year =>
      have year_range := twoDigits_range a _ 0 99 year year_read
      simp only [year_read] at accepted
      refine clock_range a year.2 _ read ?_ accepted
      dsimp only
      split_ifs <;> omega

theorem generalized_range (a : Bytes) (tm : Tm) (read : Nat × Tm)
    (accepted : readFields a generalizedFields 0 tm = some read) : read.2.InRange := by
  rw [generalizedFields, readFields] at accepted
  simp only [Bool.false_and, Bool.false_eq_true, if_false] at accepted
  cases century_read : twoDigits a 0 0 99 with
  | none => simp [century_read] at accepted
  | some century =>
      have century_range := twoDigits_range a _ 0 99 century century_read
      simp only [century_read] at accepted
      rw [readFields] at accepted
      simp only [Bool.false_and, Bool.false_eq_true, if_false] at accepted
      cases year_read : twoDigits a century.2 0 99 with
      | none => simp [year_read] at accepted
      | some year =>
          have year_range := twoDigits_range a _ 0 99 year year_read
          simp only [year_read] at accepted
          refine clock_range a year.2 _ read ?_ accepted
          dsimp only
          omega

theorem julianToDate_range (jd : Int) (positive : 0 ≤ jd) :
    (1 ≤ (julianToDate jd).2.1 ∧ (julianToDate jd).2.1 ≤ 12) ∧
      1 ≤ (julianToDate jd).2.2 ∧ (julianToDate jd).2.2 ≤ 31 := by
  have shift : 0 ≤ jd + 68569 := by omega
  simp only [julianToDate]
  generalize jd + 68569 = L at shift ⊢
  rw [Int.tdiv_eq_ediv_of_nonneg (by omega : 0 ≤ 4 * L)]
  generalize cycles : 4 * L / 146097 = n
  rw [Int.tdiv_eq_ediv_of_nonneg (by omega : 0 ≤ 146097 * n + 3)]
  have in_cycle : 0 ≤ L - (146097 * n + 3) / 4 ∧ L - (146097 * n + 3) / 4 ≤ 36524 := by omega
  generalize L - (146097 * n + 3) / 4 = rest at in_cycle ⊢
  rw [Int.tdiv_eq_ediv_of_nonneg (by omega : 0 ≤ 4000 * (rest + 1))]
  generalize years : 4000 * (rest + 1) / 1461001 = i
  rw [Int.tdiv_eq_ediv_of_nonneg (by omega : 0 ≤ 1461 * i)]
  have in_year : 31 ≤ rest - 1461 * i / 4 + 31 ∧ rest - 1461 * i / 4 + 31 ≤ 396 := by omega
  generalize rest - 1461 * i / 4 + 31 = day at in_year ⊢
  rw [Int.tdiv_eq_ediv_of_nonneg (by omega : 0 ≤ 80 * day)]
  generalize months : 80 * day / 2447 = j
  rw [Int.tdiv_eq_ediv_of_nonneg (by omega : 0 ≤ 2447 * j),
    Int.tdiv_eq_ediv_of_nonneg (by omega : 0 ≤ j)]
  have in_months : 1 ≤ j ∧ j ≤ 12 := by omega
  obtain ⟨first, last⟩ := in_months
  interval_cases j <;> omega

theorem tdiv_day (offset_sec : Int) (small : -50000 < offset_sec ∧ offset_sec < 50000) :
    offset_sec.tdiv SECS_PER_DAY = 0 := by
  have day_seconds : SECS_PER_DAY = 86400 := rfl
  rcases le_total 0 offset_sec with positive | negative
  · exact Int.tdiv_eq_zero_of_lt positive (by omega)
  · have mirrored : (-offset_sec).tdiv SECS_PER_DAY = 0 :=
      Int.tdiv_eq_zero_of_lt (by omega) (by omega)
    rwa [Int.neg_tdiv, neg_eq_zero] at mirrored

theorem julianAdj_range (tm : Tm) (moved : Int × Int) (offset_sec : Int) (range : tm.InRange)
    (small : -50000 < offset_sec ∧ offset_sec < 50000)
    (found : julianAdj tm 0 offset_sec = some moved) :
    0 ≤ moved.1 ∧ 0 ≤ moved.2 ∧ moved.2 < 86400 := by
  obtain ⟨year, mon, mday, hour, min, sec⟩ := range
  have day_seconds : SECS_PER_DAY = 86400 := rfl
  unfold julianAdj at found
  rw [tdiv_day offset_sec small, day_seconds] at found
  dsimp only at found
  have clock : -86400 ≤ offset_sec - 0 * 86400 + tm.tm_hour * 3600 + tm.tm_min * 60 + tm.tm_sec ∧
      offset_sec - 0 * 86400 + tm.tm_hour * 3600 + tm.tm_min * 60 + tm.tm_sec < 2 * 86400 := by
    omega
  generalize offset_sec - 0 * 86400 + tm.tm_hour * 3600 + tm.tm_min * 60 + tm.tm_sec = hms
    at found clock
  split_ifs at found with late before early before before
  all_goals
    obtain rfl := Option.some.inj found
    dsimp only at before ⊢
    omega

theorem gmtimeAdj_range (tm adjusted : Tm) (offset_sec : Int) (range : tm.InRange)
    (small : -50000 < offset_sec ∧ offset_sec < 50000)
    (accepted : opensslGmtimeAdj tm 0 offset_sec = some adjusted) : adjusted.InRange := by
  unfold opensslGmtimeAdj at accepted
  cases found : julianAdj tm 0 offset_sec with
  | none => simp [found] at accepted
  | some moved =>
      have bounds := julianAdj_range tm moved offset_sec range small found
      have dates := julianToDate_range moved.1 bounds.1
      simp only [found] at accepted
      generalize julianToDate moved.1 = date at dates accepted
      obtain ⟨time_year, time_month, time_day⟩ := date
      dsimp only at dates accepted
      split_ifs at accepted with years
      obtain rfl := Option.some.inj accepted
      have hours := Int.tdiv_eq_ediv_of_nonneg bounds.2.1 (b := 3600)
      have minutes := Int.tdiv_eq_ediv_of_nonneg bounds.2.1 (b := 60)
      have minute : (moved.2 / 60).tmod 60 = moved.2 / 60 % 60 :=
        Int.tmod_eq_emod_of_nonneg (by omega)
      have second : moved.2.tmod 60 = moved.2 % 60 := Int.tmod_eq_emod_of_nonneg bounds.2.1
      constructor
      all_goals
        dsimp only
        first | rw [hours] | rw [minutes, minute] | rw [second] | skip
        omega

theorem readZone_range (missing : UInt8 → Bool) (a : Bytes) (o : Nat) (tm : Tm) (read : Nat × Tm)
    (range : tm.InRange) (accepted : readZone missing a o tm = some read) : read.2.InRange := by
  unfold readZone at accepted
  by_cases zulu : octet a o = 'Z'.toUInt8
  · rw [if_pos zulu] at accepted
    obtain rfl := Option.some.inj accepted
    exact range
  · by_cases signed : isSign (octet a o) = true
    · simp only [zulu, signed, if_true, if_false] at accepted
      split_ifs at accepted
      all_goals
        cases hours_read : twoDigits a (o + 1) 0 12 with
        | none => simp [hours_read] at accepted
        | some hours =>
            have hours_range := twoDigits_range a _ 0 12 hours hours_read
            simp only [hours_read] at accepted
            cases minutes_read : twoDigits a hours.2 0 59 with
            | none => simp [minutes_read] at accepted
            | some minutes =>
                have minutes_range := twoDigits_range a _ 0 59 minutes minutes_read
                simp only [minutes_read] at accepted
                split_ifs at accepted
                · obtain rfl := Option.some.inj accepted
                  exact range
                · obtain ⟨adjusted, found, rfl⟩ := Option.map_eq_some_iff.mp accepted
                  exact gmtimeAdj_range tm adjusted _ range (by omega) found
    · rw [if_neg zulu, if_neg signed] at accepted
      split_ifs at accepted
      obtain rfl := Option.some.inj accepted
      exact range

theorem parsed_range (now tm parsed : Tm) (t : Asn1Time)
    (accepted : asn1TimeToTm now tm (some t) = some parsed) : parsed.InRange := by
  have whole : ∀ read : Option (Nat × Tm), complete t.data read = some parsed →
      ∃ o, read = some (o, parsed) := by
    intro read found
    cases read with
    | none => simp [complete] at found
    | some read =>
        simp only [complete] at found
        split_ifs at found
        exact ⟨read.1, by rw [← Option.some.inj found]⟩
  cases kind : t.type with
  | other => simp [asn1TimeToTm, kind] at accepted
  | utctime =>
      simp only [asn1TimeToTm, kind, asn1UtctimeToTm, ne_eq, not_true_eq_false, if_false] at accepted
      split_ifs at accepted
      obtain ⟨o, found⟩ := whole _ accepted
      obtain ⟨read, fields, zone⟩ := Option.bind_eq_some_iff.mp found
      exact readZone_range _ t.data read.1 read.2 _ (utc_range t.data tm read fields) zone
  | generalizedtime =>
      simp only [asn1TimeToTm, kind, asn1GeneralizedtimeToTm, ne_eq, not_true_eq_false,
        if_false] at accepted
      split_ifs at accepted
      obtain ⟨o, found⟩ := whole _ accepted
      obtain ⟨read, fields, rest⟩ := Option.bind_eq_some_iff.mp found
      obtain ⟨skipped, _, zone⟩ := Option.bind_eq_some_iff.mp rest
      exact readZone_range _ t.data skipped read.2 _ (generalized_range t.data tm read fields) zone

theorem decimal_length (width : Nat) (n : Int) (range : 0 ≤ n ∧ n < 10 ^ width) :
    (decimal width n).length = width := by
  have magnitude : n.natAbs < 10 ^ width := by
    have cast : ((n.natAbs : Nat) : Int) < ((10 ^ width : Nat) : Int) := by
      push_cast
      rw [abs_of_nonneg range.1]
      exact range.2
    exact_mod_cast cast
  have short := (Nat.digits_length_le_iff (by decide : 1 < 10) n.natAbs).mpr magnitude
  simp only [decimal, if_neg (by omega : ¬ n < 0), List.length_append, List.length_replicate,
    List.length_reverse, List.length_map]
  omega

theorem shownHour_range (tm : Tm) (range : tm.InRange) : 0 ≤ shownHour tm ∧ shownHour tm ≤ 23 := by
  have hour := range.hour
  simp only [shownHour]
  split_ifs <;> omega

theorem validityText_length (tm : Tm) (range : tm.InRange) : (validityText tm).length = 14 := by
  have hour := shownHour_range tm range
  obtain ⟨year, mon, mday, _, min, sec⟩ := range
  simp only [validityText, List.length_append]
  rw [decimal_length 4 _ (by omega), decimal_length 2 _ (by omega), decimal_length 2 _ (by omega),
    decimal_length 2 _ (by omega), decimal_length 2 _ (by omega), decimal_length 2 _ (by omega)]

theorem Tm.InRange.withDst (tm : Tm) (range : tm.InRange) (dst : Int) : (tm.withDst dst).InRange :=
  ⟨range.year, range.mon, range.mday, range.hour, range.min, range.sec⟩

end EChainLib.Ca
