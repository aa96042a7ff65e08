import Beep.Lib.Calendar
import Beep.Lib.Decimal

/-!
# `Controller.MicroTime` — timestamps

`micro_time` of `controller/src/lease.rs`: the RFC 3339 text, with microseconds, of a point in time. The date is computed
by divisions, in eras of 400 years that begin on the first of March of a year divisible by 400 (`civilDate`); it is the
date of the calendar (`civilDate_eq`).

A `SystemTime` is a number of nanoseconds since the Unix epoch, negative before it.
-/

namespace Beep

open Calendar

/-- `SystemTime`. -/
abbrev SystemTime := Int

/-- The duration since the Unix epoch, in nanoseconds; none for a time before it. -/
def sinceEpoch (t : SystemTime) : Nat := t.toNat

/-- Days since the epoch to civil date: the year, the month and the day. -/
def civilDate (days : Nat) : Int × Int × Int :=
  let z : Int := days + 719468
  let era := z.ediv 146097
  let doe := z.emod 146097
  let yoe := (doe - doe.tdiv 1460 + doe.tdiv 36524 - doe.tdiv 146096).tdiv 365
  let doy := doe - (365 * yoe + yoe.tdiv 4 - yoe.tdiv 100)
  let mp := (5 * doy + 2).tdiv 153
  let day := doy - (153 * mp + 2).tdiv 5 + 1
  let month := if mp < 10 then mp + 3 else mp - 9
  let year := yoe + era * 400 + (if month ≤ 2 then 1 else 0)
  (year, month, day)

/-- `{n:0<width>}` of a signed number. -/
def paddedInt (width : Nat) (n : Int) : List Char :=
  if n < 0 then '-' :: Decimal.padded (width - 1) n.natAbs else Decimal.padded width n.natAbs

/-- `micro_time`. -/
def microTime (t : SystemTime) : String :=
  let d := sinceEpoch t
  let secs := d / 1000000000
  let (hour, minute, second) := (secs % 86400 / 3600, secs % 3600 / 60, secs % 60)
  let (year, month, day) := civilDate (secs / 86400)
  String.ofList
    (paddedInt 4 year ++ '-' :: paddedInt 2 month ++ '-' :: paddedInt 2 day ++ 'T' :: paddedInt 2 hour ++
      ':' :: paddedInt 2 minute ++ ':' :: paddedInt 2 second ++ '.' :: paddedInt 6 (d % 1000000000 / 1000 : Nat) ++ ['Z'])

example : microTime 1700000000123456789 = "2023-11-14T22:13:20.123456Z" := by decide +kernel

/-- RFC 3339 with microseconds. -/
def rfc3339 (date : Date) (clock : TimeOfDay) : List Char :=
  Decimal.padded 4 date.year ++ '-' :: Decimal.padded 2 date.month ++ '-' :: Decimal.padded 2 date.day ++
    'T' :: Decimal.padded 2 clock.hour ++ ':' :: Decimal.padded 2 clock.minute ++ ':' :: Decimal.padded 2 clock.second ++
      '.' :: Decimal.padded 6 clock.micros ++ ['Z']

/-- Divisions of numbers that are not negative do not round. -/
theorem tdiv_natCast (m k : Nat) : (m : Int).tdiv k = (m / k : Nat) := (Int.ofNat_tdiv m k).symm

/-- **The date of a day** is the date that so many days after the epoch lead to. -/
theorem civilDate_eq (days : Nat) :
    civilDate days =
      (((dateOfDay days).year : Int), ((dateOfDay days).month : Int), ((dateOfDay days).day : Int)) := by
  have hyear := year_dateOfDay days
  have hz : ((days : Int) + 719468) = (dateOfDay days).number := by
    rw [number_dateOfDay]
    rfl
  unfold civilDate
  rw [hz]
  generalize dateOfDay days = d at hyear ⊢
  have hera : (d.number : Int).ediv 146097 = (d.marchYear / 400 : Nat) := by
    rw [← d.number_div]
    rfl
  have hdoe : (d.number : Int).emod 146097 = d.dayOfEra := by
    rw [← d.number_mod]
    rfl
  have hyoe : ((d.dayOfEra : Int) - (d.dayOfEra : Int).tdiv 1460 + (d.dayOfEra : Int).tdiv 36524 -
      (d.dayOfEra : Int).tdiv 146096).tdiv 365 = d.yearOfEra := by
    have hleaps : (d.dayOfEra : Int).tdiv 1460 = (d.dayOfEra / 1460 : Nat) := tdiv_natCast _ _
    have hcenturies : (d.dayOfEra : Int).tdiv 36524 = (d.dayOfEra / 36524 : Nat) := tdiv_natCast _ _
    have heras : (d.dayOfEra : Int).tdiv 146096 = (d.dayOfEra / 146096 : Nat) := tdiv_natCast _ _
    have hyears : (d.dayOfEra : Int) - (d.dayOfEra / 1460 : Nat) + (d.dayOfEra / 36524 : Nat) -
        (d.dayOfEra / 146096 : Nat) =
          (d.dayOfEra - d.dayOfEra / 1460 + d.dayOfEra / 36524 - d.dayOfEra / 146096 : Nat) := by
      omega
    rw [hleaps, hcenturies, heras, hyears, ← Date.yearOfEra_eq (show 0 < d.year by omega)]
    exact tdiv_natCast _ _
  have hdoy : (d.dayOfEra : Int) - (365 * d.yearOfEra + (d.yearOfEra : Int).tdiv 4 - (d.yearOfEra : Int).tdiv 100) =
      d.dayOfYear := by
    have hleaps : (d.yearOfEra : Int).tdiv 4 = (d.yearOfEra / 4 : Nat) := tdiv_natCast _ _
    have hcenturies : (d.yearOfEra : Int).tdiv 100 = (d.yearOfEra / 100 : Nat) := tdiv_natCast _ _
    rw [hleaps, hcenturies]
    unfold Date.dayOfEra
    omega
  have hmp : (5 * (d.dayOfYear : Int) + 2).tdiv 153 = d.marchMonth := by
    rw [← d.marchMonth_eq]
    exact tdiv_natCast (5 * d.dayOfYear + 2) 153
  have hday : (d.dayOfYear : Int) - (153 * (d.marchMonth : Int) + 2).tdiv 5 + 1 = d.day := by
    have hstart : (153 * (d.marchMonth : Int) + 2).tdiv 5 = ((153 * d.marchMonth + 2) / 5 : Nat) :=
      tdiv_natCast (153 * d.marchMonth + 2) 5
    have hpos := d.day_mem.1
    rw [hstart]
    unfold Date.dayOfYear
    omega
  have hmonth : (if (d.marchMonth : Int) < 10 then (d.marchMonth : Int) + 3 else d.marchMonth - 9) = d.month := by
    rw [← d.month_eq]
    split_ifs <;> omega
  have hyear' : (d.yearOfEra : Int) + (d.marchYear / 400 : Nat) * 400 + (if (d.month : Int) ≤ 2 then 1 else 0) =
      d.year := by
    have heq := Date.year_eq (show 0 < d.year by omega)
    split_ifs at heq ⊢ <;> omega
  simp only [hera, hdoe, hyoe, hdoy, hmp, hday, hmonth, hyear']

/-! ## The text -/

theorem paddedInt_natCast (width n : Nat) : paddedInt width n = Decimal.padded width n := by
  unfold paddedInt
  rw [if_neg (by omega), Int.natAbs_natCast]

/-- The day of a time, counted from the epoch. -/
def dayOf (t : SystemTime) : Nat := sinceEpoch t / 1000 / 86400000000

/-- The time of the day. -/
def clockOf (t : SystemTime) : TimeOfDay := .ofMicros (sinceEpoch t / 1000)

/-- **`micro_time`** writes the date of the day and the time of day. -/
theorem microTime_eq (t : SystemTime) : microTime t = String.ofList (rfc3339 (dateOfDay (dayOf t)) (clockOf t)) := by
  have hday : sinceEpoch t / 1000000000 / 86400 = dayOf t := by
    unfold dayOf
    omega
  unfold microTime
  dsimp only
  rw [hday, civilDate_eq]
  dsimp only
  have hhour : sinceEpoch t / 1000000000 % 86400 / 3600 = (clockOf t).hour := by
    simp only [clockOf, TimeOfDay.ofMicros]
    omega
  have hminute : sinceEpoch t / 1000000000 % 3600 / 60 = (clockOf t).minute := by
    simp only [clockOf, TimeOfDay.ofMicros]
    omega
  have hsecond : sinceEpoch t / 1000000000 % 60 = (clockOf t).second := by
    simp only [clockOf, TimeOfDay.ofMicros]
    omega
  have hmicros : sinceEpoch t % 1000000000 / 1000 = (clockOf t).micros := by
    simp only [clockOf, TimeOfDay.ofMicros]
    omega
  rw [hhour, hminute, hsecond, hmicros]
  simp only [paddedInt_natCast]
  rfl

/-! ## The order of the texts -/

section
variable {date date' : Date} {clock clock' : TimeOfDay}

/-- The part of the text behind the year. -/
def behindYear (date : Date) (clock : TimeOfDay) : List Char :=
  '-' :: (Decimal.padded 2 date.month ++ '-' :: (Decimal.padded 2 date.day ++
    'T' :: (Decimal.padded 2 clock.hour ++ ':' :: (Decimal.padded 2 clock.minute ++ ':' :: (Decimal.padded 2 clock.second ++
      '.' :: (Decimal.padded 6 clock.micros ++ ['Z']))))))

theorem rfc3339_eq (date : Date) (clock : TimeOfDay) :
    rfc3339 date clock = Decimal.padded 4 date.year ++ behindYear date clock := by
  simp only [rfc3339, behindYear, List.cons_append, List.append_assoc]

theorem month_fits (date : Date) : date.month < 10 ^ 2 := by
  have h := date.month_mem
  omega

theorem day_fits (date : Date) : date.day < 10 ^ 2 := by
  have h := date.day_mem
  have hlength := monthLength_le date.year date.month
  omega

/-- Two digits are enough for the hours, the minutes and the seconds. -/
theorem clock_fits (clock : TimeOfDay) : clock.hour < 10 ^ 2 ∧ clock.minute < 10 ^ 2 ∧ clock.second < 10 ^ 2 := by
  have hhour := clock.hour_lt
  have hminute := clock.minute_lt
  have hsecond := clock.second_lt
  omega

theorem length_behindYear (date : Date) (clock : TimeOfDay) : (behindYear date clock).length = 23 := by
  obtain ⟨hhour, hminute, hsecond⟩ := clock_fits clock
  simp only [behindYear, List.length_cons, List.length_append, List.length_nil,
    Decimal.length_padded (Nat.zero_lt_succ 1) (month_fits date),
    Decimal.length_padded (Nat.zero_lt_succ 1) (day_fits date),
    Decimal.length_padded (Nat.zero_lt_succ 1) hhour, Decimal.length_padded (Nat.zero_lt_succ 1) hminute,
    Decimal.length_padded (Nat.zero_lt_succ 1) hsecond, Decimal.length_padded (Nat.zero_lt_succ 5) clock.micros_lt]

theorem behindYear_inj : behindYear date clock = behindYear date' clock' ↔
    date.month = date'.month ∧ date.day = date'.day ∧ clock = clock' := by
  obtain ⟨hhour, hminute, hsecond⟩ := clock_fits clock
  obtain ⟨hhour', hminute', hsecond'⟩ := clock_fits clock'
  unfold behindYear
  rw [List.cons_inj_right, Decimal.field_inj (Nat.zero_lt_succ 1) (month_fits date) (month_fits date'),
    Decimal.field_inj (Nat.zero_lt_succ 1) (day_fits date) (day_fits date'),
    Decimal.field_inj (Nat.zero_lt_succ 1) hhour hhour', Decimal.field_inj (Nat.zero_lt_succ 1) hminute hminute',
    Decimal.field_inj (Nat.zero_lt_succ 1) hsecond hsecond',
    Decimal.field_inj (Nat.zero_lt_succ 5) clock.micros_lt clock'.micros_lt]
  cases clock
  cases clock'
  simp

/-- **The text of a date and a time is that of no other.** -/
theorem rfc3339_inj : rfc3339 date clock = rfc3339 date' clock' ↔ date = date' ∧ clock = clock' := by
  refine ⟨fun h => ?_, fun ⟨hdate, hclock⟩ => hdate ▸ hclock ▸ rfl⟩
  rw [rfc3339_eq, rfc3339_eq] at h
  obtain ⟨hyear, hbehind⟩ := List.append_inj' h (by rw [length_behindYear, length_behindYear])
  obtain ⟨hmonth, hday, hclock⟩ := behindYear_inj.mp hbehind
  exact ⟨Date.ext (Decimal.padded_inj.mp hyear) hmonth hday, hclock⟩

/-- **The texts are in the order of the times**, as long as the years have four digits. -/
theorem rfc3339_lt (hyear : date.year < 10000) (hyear' : date'.year < 10000) :
    rfc3339 date clock < rfc3339 date' clock' ↔
      date.Before date' ∨ date = date' ∧ clock.number < clock'.number := by
  obtain ⟨hhour, hminute, hsecond⟩ := clock_fits clock
  obtain ⟨hhour', hminute', hsecond'⟩ := clock_fits clock'
  rw [rfc3339_eq, rfc3339_eq, TimeOfDay.number_lt]
  unfold behindYear
  rw [Decimal.field_lt_field (Nat.zero_lt_succ 3) hyear hyear',
    Decimal.field_lt_field (Nat.zero_lt_succ 1) (month_fits date) (month_fits date'),
    Decimal.field_lt_field (Nat.zero_lt_succ 1) (day_fits date) (day_fits date'),
    Decimal.field_lt_field (Nat.zero_lt_succ 1) hhour hhour',
    Decimal.field_lt_field (Nat.zero_lt_succ 1) hminute hminute',
    Decimal.field_lt_field (Nat.zero_lt_succ 1) hsecond hsecond',
    Decimal.field_lt_field (Nat.zero_lt_succ 5) clock.micros_lt clock'.micros_lt]
  unfold Date.Before
  rw [Date.ext_iff]
  simp only [List.not_lt_nil, and_false, or_false]
  tauto

end

section
variable {t t' : SystemTime}

/-- **Times in different microseconds have different texts.** -/
theorem microTime_inj : microTime t = microTime t' ↔ sinceEpoch t / 1000 = sinceEpoch t' / 1000 := by
  rw [microTime_eq, microTime_eq, String.ofList_inj, rfc3339_inj, dateOfDay_inj, ← TimeOfDay.number_inj]
  unfold clockOf dayOf
  rw [TimeOfDay.number_ofMicros, TimeOfDay.number_ofMicros]
  omega

/-- **The texts are in the order of the microseconds**, up to the end of the year 9999. -/
theorem microTime_lt (hyear : (dateOfDay (dayOf t)).year ≤ 9999) (hyear' : (dateOfDay (dayOf t')).year ≤ 9999) :
    microTime t < microTime t' ↔ sinceEpoch t / 1000 < sinceEpoch t' / 1000 := by
  rw [microTime_eq, microTime_eq, String.lt_iff, String.toList_ofList, String.toList_ofList,
    rfc3339_lt (Nat.lt_succ_of_le hyear) (Nat.lt_succ_of_le hyear'), dateOfDay_before_iff, dateOfDay_inj]
  unfold clockOf dayOf
  rw [TimeOfDay.number_ofMicros, TimeOfDay.number_ofMicros]
  omega

end

end Beep
