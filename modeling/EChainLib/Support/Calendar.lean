import Mathlib

/-! The Gregorian calendar: dates and the numbers of their days, times of day and the seconds
since 1970. -/

namespace EChainLib.Calendar

def Leap (year : Int) : Prop := year % 4 = 0 ∧ (year % 100 ≠ 0 ∨ year % 400 = 0)

instance (year : Int) : Decidable (Leap year) := instDecidableAnd

def monthLength (year : Int) (month : Nat) : Nat :=
  if month = 2 then if Leap year then 29 else 28
  else if month = 4 ∨ month = 6 ∨ month = 9 ∨ month = 11 then 30
  else 31

@[ext] structure Date where
  year : Int
  month : Nat
  day : Nat
  month_range : 1 ≤ month ∧ month ≤ 12
  day_range : 1 ≤ day ∧ day ≤ monthLength year month

/-! Years are counted from March, so that the leap day is the last of its year. -/

/-- The days from 1 March of the year 0 to 1 March of a year. -/
def yearStart (year : Int) : Int := 365 * year + year / 4 - year / 100 + year / 400

/-- The days from 1 March to the first of a month, March being 0. -/
def monthStart (month : Int) : Int := (153 * month + 2) / 5

/-- The number of a day, which may lie beyond its month. 1 January 1970 is 0. -/
def dayNumber (year month day : Int) : Int :=
  (if month ≤ 2 then yearStart (year - 1) + monthStart (month + 9)
    else yearStart year + monthStart (month - 3)) + day - 1 - 719468

def Date.number (date : Date) : Int := dayNumber date.year date.month date.day

/-- Four centuries, a century, four years and a year, and the day in it. -/
structure Cycles where
  era : Int
  century : Int
  olympiad : Int
  annum : Int
  day : Int

def cycles (days : Int) : Cycles :=
  let era := days / 146097
  let in_era := days % 146097
  let century := min 3 (in_era / 36524)
  let in_century := in_era - 36524 * century
  let olympiad := in_century / 1461
  let in_olympiad := in_century % 1461
  let annum := min 3 (in_olympiad / 365)
  ⟨era, century, olympiad, annum, in_olympiad - 365 * annum⟩

def Cycles.year (c : Cycles) : Int := 400 * c.era + 100 * c.century + 4 * c.olympiad + c.annum

/-- Where the parts of a day's number may lie; the last day is that of a leap year. -/
structure Cycles.InRange (c : Cycles) : Prop where
  century : 0 ≤ c.century ∧ c.century ≤ 3
  olympiad : 0 ≤ c.olympiad ∧ c.olympiad ≤ 24
  annum : 0 ≤ c.annum ∧ c.annum ≤ 3
  day : 0 ≤ c.day ∧ c.day ≤ 365
  last : c.day = 365 → c.annum = 3 ∧ (c.olympiad = 24 → c.century = 3)

theorem yearStart_cycles (c : Cycles) (range : c.InRange) :
    yearStart c.year = 146097 * c.era + 36524 * c.century + 1461 * c.olympiad + 365 * c.annum := by
  obtain ⟨century, olympiad, annum, _, _⟩ := range
  simp only [yearStart, Cycles.year]
  omega

theorem leap_after (c : Cycles) (range : c.InRange) :
    Leap (c.year + 1) ↔ c.annum = 3 ∧ (c.olympiad = 24 → c.century = 3) := by
  obtain ⟨century, olympiad, annum, _, _⟩ := range
  simp only [Leap, Cycles.year]
  omega

theorem cycles_range (days : Int) : (cycles days).InRange := by
  have era := Int.emod_nonneg days (by decide : (146097 : Int) ≠ 0)
  have era_end := Int.emod_lt_of_pos days (by decide : (0 : Int) < 146097)
  constructor <;> simp only [cycles] <;> omega

theorem cycles_days (days : Int) : yearStart (cycles days).year + (cycles days).day = days := by
  rw [yearStart_cycles _ (cycles_range days)]
  simp only [cycles]
  omega

/-- The parts are found again. -/
theorem cycles_unique (c : Cycles) (range : c.InRange) :
    cycles (yearStart c.year + c.day) = c := by
  rw [yearStart_cycles c range]
  obtain ⟨century, olympiad, annum, day, last⟩ := range
  obtain ⟨era, c, q, a, d⟩ := c
  simp only at century olympiad annum day last ⊢
  have days : 146097 * era + 36524 * c + 1461 * q + 365 * a + d =
      146097 * era + (36524 * c + 1461 * q + 365 * a + d) := by ring
  have in_era : (146097 * era + (36524 * c + 1461 * q + 365 * a + d)) / 146097 = era ∧
      (146097 * era + (36524 * c + 1461 * q + 365 * a + d)) % 146097 =
        36524 * c + 1461 * q + 365 * a + d := by omega
  have in_century : min 3 ((36524 * c + 1461 * q + 365 * a + d) / 36524) = c := by omega
  have rest : 36524 * c + 1461 * q + 365 * a + d - 36524 * c = 1461 * q + (365 * a + d) := by ring
  have in_olympiad : (1461 * q + (365 * a + d)) / 1461 = q ∧
      (1461 * q + (365 * a + d)) % 1461 = 365 * a + d := by omega
  have in_year : min 3 ((365 * a + d) / 365) = a := by omega
  simp only [cycles, days, in_era, in_century, rest, in_olympiad, in_year]
  congr
  omega

theorem cycles_ofYear (year day : Int) (inside : 0 ≤ day ∧ day ≤ 365)
    (last : day = 365 → Leap (year + 1)) :
    cycles (yearStart year + day) =
      ⟨year / 400, year % 400 / 100, year % 100 / 4, year % 4, day⟩ := by
  let c : Cycles := ⟨year / 400, year % 400 / 100, year % 100 / 4, year % 4, day⟩
  have same : c.year = year := by
    simp only [Cycles.year, c]
    omega
  have range : c.InRange := by
    simp only [Leap] at last
    constructor <;> simp only [c] <;> omega
  have found := cycles_unique c range
  rwa [same] at found

/-! The day in the year gives the month. -/

def monthOf (day : Int) : Int := (5 * day + 2) / 153

theorem monthOf_range (day : Int) (inside : 0 ≤ day ∧ day ≤ 365) :
    (0 ≤ monthOf day ∧ monthOf day ≤ 11) ∧ monthStart (monthOf day) ≤ day := by
  simp only [monthOf, monthStart]
  omega

theorem monthOf_start (month day : Int) (range : 0 ≤ month ∧ month ≤ 11)
    (within : 0 ≤ day ∧ monthStart month + day < monthStart (month + 1)) :
    monthOf (monthStart month + day) = month := by
  obtain ⟨first, last⟩ := range
  simp only [monthOf, monthStart] at within ⊢
  omega

def marchMonth (month : Nat) : Int := if month ≤ 2 then month + 9 else (month : Int) - 3

def marchYear (year : Int) (month : Nat) : Int := if month ≤ 2 then year - 1 else year

theorem dayNumber_march (year : Int) (month : Nat) (day : Int) :
    dayNumber year month day =
      yearStart (marchYear year month) + (monthStart (marchMonth month) + (day - 1)) - 719468 := by
  simp only [dayNumber, marchYear, marchMonth]
  split_ifs <;> omega

/-- The length of a month, where it ends in its March-year. -/
theorem monthLength_march (year : Int) (month : Nat) (range : 1 ≤ month ∧ month ≤ 12) :
    monthStart (marchMonth month) + monthLength year month =
      if month = 2 then if Leap year then 366 else 365 else monthStart (marchMonth month + 1) := by
  obtain ⟨first, last⟩ := range
  interval_cases month <;> simp [monthLength, marchMonth, monthStart]
  split_ifs <;> rfl

/-- The civil year and month of a month of a March-year. -/
def civilYear (year month : Int) : Int := if month ≤ 9 then year else year + 1

def civilMonth (month : Int) : Nat := if month ≤ 9 then (month + 3).toNat else (month - 9).toNat

theorem civil_march (year : Int) (month : Nat) (range : 1 ≤ month ∧ month ≤ 12) :
    civilYear (marchYear year month) (marchMonth month) = year ∧
      civilMonth (marchMonth month) = month := by
  simp only [civilYear, civilMonth, marchYear, marchMonth]
  split_ifs <;> omega

theorem march_civil (year month : Int) (range : 0 ≤ month ∧ month ≤ 11) :
    marchYear (civilYear year month) (civilMonth month) = year ∧
      marchMonth (civilMonth month) = month := by
  simp only [civilYear, civilMonth, marchYear, marchMonth]
  split_ifs <;> omega

theorem monthOf_next (day : Int) : day < monthStart (monthOf day + 1) := by
  simp only [monthOf, monthStart]
  omega

theorem civil_day_range (c : Cycles) (range : c.InRange) :
    1 ≤ (c.day - monthStart (monthOf c.day) + 1).toNat ∧
      (c.day - monthStart (monthOf c.day) + 1).toNat ≤
        monthLength (civilYear c.year (monthOf c.day)) (civilMonth (monthOf c.day)) := by
  obtain ⟨months, start⟩ := monthOf_range c.day range.day
  have months_civil : 1 ≤ civilMonth (monthOf c.day) ∧ civilMonth (monthOf c.day) ≤ 12 := by
    simp only [civilMonth]
    split_ifs <;> omega
  have length := monthLength_march (civilYear c.year (monthOf c.day)) _ months_civil
  rw [(march_civil c.year _ months).2] at length
  have before_next := monthOf_next c.day
  have full : c.day = 365 → Leap (c.year + 1) := fun last =>
    (leap_after c range).mpr (range.last last)
  have days := range.day
  by_cases february : civilMonth (monthOf c.day) = 2
  · have next_year : civilYear c.year (monthOf c.day) = c.year + 1 := by
      simp only [civilMonth] at february
      simp only [civilYear]
      split_ifs at february ⊢ <;> omega
    rw [if_pos february, next_year] at length
    rw [next_year]
    split_ifs at length with leap
    · omega
    · have shorter : c.day ≠ 365 := fun last => leap (full last)
      omega
  · rw [if_neg february] at length
    omega

def Date.ofNumber (number : Int) : Date :=
  let c := cycles (number + 719468)
  have months := (monthOf_range c.day (cycles_range _).day).1
  { year := civilYear c.year (monthOf c.day)
    month := civilMonth (monthOf c.day)
    day := (c.day - monthStart (monthOf c.day) + 1).toNat
    month_range := by
      simp only [civilMonth]
      split_ifs <;> omega
    day_range := civil_day_range c (cycles_range _) }

theorem number_ofNumber (number : Int) : (Date.ofNumber number).number = number := by
  have days := cycles_days (number + 719468)
  have range := cycles_range (number + 719468)
  obtain ⟨months, start⟩ := monthOf_range _ range.day
  obtain ⟨year, month⟩ := march_civil (cycles (number + 719468)).year _ months
  rw [Date.number, dayNumber_march]
  simp only [Date.ofNumber]
  rw [year, month]
  omega

theorem monthLength_range (year : Int) (month : Nat) :
    28 ≤ monthLength year month ∧ monthLength year month ≤ 31 := by
  simp only [monthLength]
  split_ifs <;> omega

/-- Where a day of the month is in its March-year. -/
theorem march_day (date : Date) :
    (0 ≤ monthStart (marchMonth date.month) + (date.day - 1) ∧
        monthStart (marchMonth date.month) + (date.day - 1) ≤ 365) ∧
      (monthStart (marchMonth date.month) + (date.day - 1) = 365 →
        Leap (marchYear date.year date.month + 1)) ∧
      monthStart (marchMonth date.month) + (date.day - 1) < monthStart (marchMonth date.month + 1) := by
  obtain ⟨first_day, last_day⟩ := date.day_range
  have length := monthLength_march date.year date.month date.month_range
  have range := date.month_range
  by_cases february : date.month = 2
  · have end_of_year : marchYear date.year date.month + 1 = date.year := by
      simp only [marchYear]
      omega
    have month : marchMonth date.month = 11 := by simp [marchMonth, february]
    have start : monthStart 11 = 337 ∧ monthStart (11 + 1) = 367 := by decide
    rw [if_pos february] at length
    rw [end_of_year]
    rw [month] at length ⊢
    split_ifs at length with leap
    · exact ⟨by omega, fun _ => leap, by omega⟩
    · exact ⟨by omega, by omega, by omega⟩
  · rw [if_neg february] at length
    have last : 0 ≤ monthStart (marchMonth date.month) ∧
        monthStart (marchMonth date.month + 1) ≤ 337 := by
      simp only [monthStart, marchMonth]
      split_ifs <;> omega
    omega

theorem ofNumber_number (date : Date) : Date.ofNumber date.number = date := by
  obtain ⟨inside, leap, before_next⟩ := march_day date
  have first_day := date.day_range.1
  have range : 0 ≤ marchMonth date.month ∧ marchMonth date.month ≤ 11 := by
    have range := date.month_range
    simp only [marchMonth]
    split_ifs <;> omega
  have month := monthOf_start (marchMonth date.month) (date.day - 1) range ⟨by omega, before_next⟩
  have parts : cycles (date.number + 719468) =
      cycles (yearStart (marchYear date.year date.month) +
        (monthStart (marchMonth date.month) + (date.day - 1))) := by
    rw [Date.number, dayNumber_march, Int.sub_add_cancel]
  rw [cycles_ofYear _ _ inside leap] at parts
  have year : (cycles (date.number + 719468)).year = marchYear date.year date.month := by
    rw [parts]
    simp only [Cycles.year]
    omega
  have civil := civil_march date.year date.month date.month_range
  ext
  · simp only [Date.ofNumber, year]
    rw [parts, month, civil.1]
  · simp only [Date.ofNumber]
    rw [parts, month, civil.2]
  · simp only [Date.ofNumber]
    rw [parts]
    dsimp only
    rw [month]
    omega

def Date.next (date : Date) : Date := Date.ofNumber (date.number + 1)

theorem yearStart_lt (year other : Int) (before : year < other) :
    yearStart year + 365 ≤ yearStart other := by
  simp only [yearStart]
  omega

theorem dayNumber_lt (year other month day : Int) (before : year < other) :
    dayNumber year month day + 365 ≤ dayNumber other month day := by
  simp only [dayNumber]
  split_ifs
  · have starts := yearStart_lt (year - 1) (other - 1) (by omega)
    omega
  · have starts := yearStart_lt year other before
    omega

/-- The next day has another number in its month. -/
theorem next_day_ne (date : Date) : date.next.day ≠ date.day := by
  intro same
  have apart : date.next.number = date.number + 1 := number_ofNumber _
  have months : ∀ month : Nat, 1 ≤ month ∧ month ≤ 12 →
      0 ≤ monthStart (marchMonth month) ∧ monthStart (marchMonth month) ≤ 337 := by
    intro month range
    simp only [monthStart, marchMonth]
    split_ifs <;> omega
  have own := months date.month date.month_range
  have other := months date.next.month date.next.month_range
  rw [Date.number, dayNumber_march, Date.number, dayNumber_march, same] at apart
  rcases lt_trichotomy (marchYear date.year date.month) (marchYear date.next.year date.next.month)
    with before | equal | after
  · have year := yearStart_lt _ _ before
    omega
  · -- two months of one year start a month apart
    rw [equal] at apart
    simp only [monthStart] at apart
    rcases le_or_gt (marchMonth date.next.month) (marchMonth date.month) with before | after <;>
      omega
  · have year := yearStart_lt _ _ after
    omega

/-! Times of day. -/

@[ext] structure DateTime where
  date : Date
  hour : Nat
  minute : Nat
  second : Nat
  clock_range : hour ≤ 23 ∧ minute ≤ 59 ∧ second ≤ 59

def DateTime.seconds (t : DateTime) : Int :=
  86400 * t.date.number + 3600 * t.hour + 60 * t.minute + t.second

def DateTime.ofSeconds (seconds : Int) : DateTime where
  date := Date.ofNumber (seconds / 86400)
  hour := (seconds % 86400 / 3600).toNat
  minute := (seconds % 3600 / 60).toNat
  second := (seconds % 60).toNat
  clock_range := by omega

theorem seconds_ofSeconds (seconds : Int) : (DateTime.ofSeconds seconds).seconds = seconds := by
  simp only [DateTime.seconds, DateTime.ofSeconds, number_ofNumber]
  omega

theorem ofSeconds_seconds (t : DateTime) : DateTime.ofSeconds t.seconds = t := by
  have range := t.clock_range
  have day : t.seconds / 86400 = t.date.number := by
    simp only [DateTime.seconds]
    omega
  ext1
  · rw [DateTime.ofSeconds, day, ofNumber_number]
  all_goals
    simp only [DateTime.ofSeconds, DateTime.seconds]
    omega

end EChainLib.Calendar
