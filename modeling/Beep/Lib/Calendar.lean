import Mathlib.Tactic.IntervalCases

/-!
# `Lib.Calendar` — the Gregorian calendar

A date is a year, a month of it and a day of that month (`Date`), and the days follow one another by the lengths of the
months and the leap-year rule (`Date.next`). The calendar is that, and nothing else: day `n` is the date `n` days after
1970-01-01 (`dateOfDay`). Programs compute dates the other way, by division; what carries them is the number of a date
(`Date.number`), which counts the days of whole years, of whole months and of the month, in years that begin in March, so
that the leap day is the last one.
-/

namespace Calendar

/-- The leap-year rule. -/
def isLeap (year : Nat) : Bool := decide (year % 4 = 0 ∧ (year % 100 ≠ 0 ∨ year % 400 = 0))

/-- The leap days of the years up to this one. -/
def leapDays (year : Nat) : Nat := year / 4 - year / 100 + year / 400

/-- The length of a month. -/
def monthLength (year month : Nat) : Nat :=
  if month = 2 then if isLeap year then 29 else 28
  else if month = 4 ∨ month = 6 ∨ month = 9 ∨ month = 11 then 30
  else 31

theorem isLeap_iff {year : Nat} : isLeap year = true ↔ 4 ∣ year ∧ (¬ 100 ∣ year ∨ 400 ∣ year) := by
  simp only [isLeap, decide_eq_true_eq, Nat.dvd_iff_mod_eq_zero]

theorem leapDays_succ (year : Nat) : leapDays (year + 1) = leapDays year + if isLeap (year + 1) then 1 else 0 := by
  have hle : year / 100 ≤ year / 4 := Nat.div_le_div_left (by decide) (by decide)
  have hcentury : 100 ∣ year + 1 → 4 ∣ year + 1 := Nat.dvd_trans (by decide)
  have hfourth : 400 ∣ year + 1 → 100 ∣ year + 1 := Nat.dvd_trans (by decide)
  unfold leapDays
  rw [Nat.succ_div, Nat.succ_div, Nat.succ_div, if_congr isLeap_iff rfl rfl]
  generalize year / 4 = a at hle ⊢
  generalize year / 100 = b at hle ⊢
  split_ifs <;> grind

theorem monthLength_pos (year month : Nat) : 0 < monthLength year month := by
  unfold monthLength
  split_ifs <;> omega

theorem monthLength_le (year month : Nat) : monthLength year month ≤ 31 := by
  unfold monthLength
  split_ifs <;> omega

/-- A date. -/
@[ext] structure Date where
  year : Nat
  month : Nat
  day : Nat
  month_mem : 1 ≤ month ∧ month ≤ 12
  day_mem : 1 ≤ day ∧ day ≤ monthLength year month
  deriving DecidableEq

namespace Date

/-- The day after. -/
def next (d : Date) : Date :=
  if hday : d.day < monthLength d.year d.month then
    { d with day := d.day + 1, day_mem := ⟨Nat.le_add_left 1 _, hday⟩ }
  else if hmonth : d.month < 12 then
    { year := d.year, month := d.month + 1, day := 1
      month_mem := ⟨Nat.le_add_left 1 _, hmonth⟩, day_mem := ⟨Nat.le_refl 1, monthLength_pos _ _⟩ }
  else
    { year := d.year + 1, month := 1, day := 1
      month_mem := ⟨Nat.le_refl 1, by decide⟩, day_mem := ⟨Nat.le_refl 1, monthLength_pos _ _⟩ }

/-- 1970-01-01. -/
def epoch : Date :=
  { year := 1970, month := 1, day := 1, month_mem := ⟨Nat.le_refl 1, by decide⟩, day_mem := ⟨Nat.le_refl 1, by decide⟩ }

end Date

/-- The date `n` days after 1970-01-01. -/
def dateOfDay : Nat → Date
  | 0 => Date.epoch
  | n + 1 => (dateOfDay n).next

namespace Date

/-! ## The number of a date -/

/-- The year that began in the last March. -/
def marchYear (d : Date) : Nat := if d.month ≤ 2 then d.year - 1 else d.year

/-- The month, counted from March. -/
def marchMonth (d : Date) : Nat := if d.month ≤ 2 then d.month + 9 else d.month - 3

/-- The day of the year that began in the last March. -/
def dayOfYear (d : Date) : Nat := (153 * d.marchMonth + 2) / 5 + (d.day - 1)

/-- The number of a date, counted from the March of the year `0`. -/
def number (d : Date) : Nat := 365 * d.marchYear + leapDays d.marchYear + d.dayOfYear

/-- A month begins where the one before it ends. -/
theorem monthStart_succ {d : Date} (h : d.month ≠ 2) :
    (153 * (d.marchMonth + 1) + 2) / 5 = (153 * d.marchMonth + 2) / 5 + monthLength d.year d.month := by
  obtain ⟨year, month, day, ⟨hpos, hle⟩, hday⟩ := d
  -- one month at a time
  interval_cases month
  all_goals simp [marchMonth, monthLength] at h ⊢

theorem marchMonth_le {d : Date} (h : d.month ≠ 2) : d.marchMonth ≤ 10 := by
  have hmonth := d.month_mem
  unfold marchMonth
  split_ifs <;> omega

/-- The leap day is the last one of a year that begins in March. -/
theorem dayOfYear_le (d : Date) : d.dayOfYear ≤ 364 ∨ d.dayOfYear = 365 ∧ d.month = 2 ∧ isLeap d.year = true := by
  have hday := d.day_mem
  by_cases h : d.month = 2
  · unfold dayOfYear marchMonth
    unfold monthLength at hday
    rw [if_pos h] at hday
    rw [if_pos (by omega)]
    split_ifs at hday with hleap
    · rcases Nat.lt_or_ge d.day 29 with hlt | hge
      · exact Or.inl (by omega)
      · exact Or.inr ⟨by omega, h, hleap⟩
    · omega
  · have hstart := monthStart_succ h
    have hmonth := marchMonth_le h
    unfold dayOfYear
    omega

/-- **The next day has the next number.** -/
theorem number_next {d : Date} (hyear : 0 < d.year) : d.next.number = d.number + 1 := by
  have hday := d.day_mem
  have hmonth := d.month_mem
  unfold next
  split_ifs with hlast hdec
  · simp only [number, dayOfYear, marchYear, marchMonth]
    omega
  · -- the first day of a month
    by_cases hfeb : d.month = 2
    · have hstart := leapDays_succ (d.year - 1)
      rw [Nat.sub_add_cancel hyear] at hstart
      simp only [number, dayOfYear, marchYear, marchMonth, monthLength, hfeb] at hday hlast ⊢
      norm_num at hday hlast ⊢
      split_ifs at hday hlast hstart <;> omega
    · have hstart := monthStart_succ hfeb
      simp only [number, dayOfYear, marchYear, marchMonth] at hstart ⊢
      split_ifs at hstart ⊢ <;> omega
  · -- the first day of a year
    have hstart := monthStart_succ (show d.month ≠ 2 by omega)
    have hmarch : ¬ d.month ≤ 2 := by omega
    simp only [number, dayOfYear, marchYear, marchMonth, if_neg hmarch] at hstart ⊢
    norm_num
    omega

/-! ## A date from its number

An era is a cycle of 400 years. In what is said of the year of the era, `365 * r + r / 4 - r / 100` is the number of the
first day of the year `r`. -/

theorem leapDays_era (era r : Nat) (hr : r < 400) : leapDays (400 * era + r) = 97 * era + (r / 4 - r / 100) := by
  have hle : r / 100 ≤ r / 4 := Nat.div_le_div_left (by decide) (by decide)
  unfold leapDays
  omega

/-- The year of the era. -/
def yearOfEra (d : Date) : Nat := d.marchYear % 400

/-- The day of the era. -/
def dayOfEra (d : Date) : Nat := 365 * d.yearOfEra + (d.yearOfEra / 4 - d.yearOfEra / 100) + d.dayOfYear

theorem number_eq (d : Date) : d.number = 146097 * (d.marchYear / 400) + d.dayOfEra := by
  have hera := leapDays_era (d.marchYear / 400) (d.marchYear % 400) (Nat.mod_lt _ (by decide))
  rw [Nat.div_add_mod] at hera
  unfold number dayOfEra yearOfEra
  rw [hera]
  omega

theorem dayOfEra_lt (d : Date) : d.dayOfEra < 146097 := by
  have hyear : d.yearOfEra < 400 := Nat.mod_lt _ (by decide)
  have hday := d.dayOfYear_le
  unfold dayOfEra
  omega

/-- **The era** of a number. -/
theorem number_div (d : Date) : d.number / 146097 = d.marchYear / 400 := by
  have hlt := d.dayOfEra_lt
  rw [number_eq]
  omega

theorem number_mod (d : Date) : d.number % 146097 = d.dayOfEra := by
  have hlt := d.dayOfEra_lt
  rw [number_eq]
  omega

/-- A year of 366 days ends in a leap year. -/
theorem yearOfEra_of_leapDay {d : Date} (hyear : 0 < d.year) (h : d.dayOfYear = 365) :
    4 ∣ d.yearOfEra + 1 ∧ (¬ 100 ∣ d.yearOfEra + 1 ∨ 400 ∣ d.yearOfEra + 1) := by
  obtain hle | ⟨-, hmonth, hleap⟩ := d.dayOfYear_le
  · omega
  · have hrule := isLeap_iff.mp hleap
    have hmarch : d.marchYear + 1 = d.year := by
      unfold marchYear
      rw [if_pos (by omega)]
      omega
    unfold yearOfEra
    omega

/-- Centuries are 36524 days long, but for the last, and cycles of four years 1461, but for the last of a century. -/
theorem yearOfEra_eq_of_parts {c q s doy : Nat} (hc : c ≤ 3) (hq : q ≤ 24) (hs : s ≤ 3)
    (hdoy : doy ≤ 364 ∨ doy = 365 ∧ s = 3 ∧ (q ≤ 23 ∨ c = 3)) {doe : Nat}
    (hdoe : doe = 36524 * c + 1461 * q + 365 * s + doy) :
    (doe - doe / 1460 + doe / 36524 - doe / 146096) / 365 = 100 * c + 4 * q + s := by
  have hcenturies : doe / 36524 = c + doe / 146096 := by
    by_cases hlast : 1461 * q + 365 * s + doy < 36524
    · omega
    · -- the last day of the era, which begins a fifth century
      obtain ⟨rfl, rfl, rfl, rfl⟩ : c = 3 ∧ q = 24 ∧ s = 3 ∧ doy = 365 := by omega
      rw [hdoe]
  have hcycles : doe / 1460 = 25 * c + q + (24 * c + q + 365 * s + doy) / 1460 := by
    have hsplit : doe = 24 * c + q + 365 * s + doy + 1460 * (25 * c + q) := by omega
    rw [hsplit, Nat.add_mul_div_left _ _ (by decide), Nat.add_comm]
  -- a cycle may be begun too early by its last day, and is then a day short
  have hcarry : (24 * c + q + 365 * s + doy) / 1460 ≤ doy ∧ doy - (24 * c + q + 365 * s + doy) / 1460 < 365 := by
    omega
  generalize (24 * c + q + 365 * s + doy) / 1460 = k at hcycles hcarry
  have hyears : doe - doe / 1460 + doe / 36524 - doe / 146096 = 365 * (100 * c + 4 * q + s) + (doy - k) := by
    rw [hcycles, hcenturies]
    omega
  rw [hyears]
  omega

/-- **The year of the era** of a day: the days of the leap days before it are taken off, and what is left are years of 365
    days. -/
theorem yearOfEra_eq {d : Date} (hyear : 0 < d.year) :
    (d.dayOfEra - d.dayOfEra / 1460 + d.dayOfEra / 36524 - d.dayOfEra / 146096) / 365 = d.yearOfEra := by
  have hlt : d.yearOfEra < 400 := Nat.mod_lt _ (by decide)
  have hday := d.dayOfYear_le
  have hleap := yearOfEra_of_leapDay hyear
  unfold dayOfEra
  generalize d.yearOfEra = r at hlt hleap ⊢
  generalize d.dayOfYear = doy at hday hleap ⊢
  -- the centuries, the cycles of four years in the last one, and the years in the last of these
  obtain ⟨c, q, s, hc, hq, hs, rfl⟩ : ∃ c q s, c ≤ 3 ∧ q ≤ 24 ∧ s ≤ 3 ∧ r = 100 * c + 4 * q + s :=
    ⟨r / 100, r % 100 / 4, r % 4, by omega, by omega, by omega, by omega⟩
  have hdays : 365 * (100 * c + 4 * q + s) + ((100 * c + 4 * q + s) / 4 - (100 * c + 4 * q + s) / 100) + doy =
      36524 * c + 1461 * q + 365 * s + doy := by omega
  have hbound : doy ≤ 364 ∨ doy = 365 ∧ s = 3 ∧ (q ≤ 23 ∨ c = 3) := by
    obtain hle | ⟨h, -⟩ := hday
    · exact Or.inl hle
    · have hrule := hleap h
      exact Or.inr ⟨h, by omega, by omega⟩
  exact yearOfEra_eq_of_parts hc hq hs hbound hdays

/-- **The month** of a day of the year. -/
theorem marchMonth_eq (d : Date) : (5 * d.dayOfYear + 2) / 153 = d.marchMonth := by
  obtain ⟨year, month, day, ⟨hpos, hle⟩, hday⟩ := d
  have hlong : monthLength year 2 ≤ 29 := by
    unfold monthLength
    split_ifs <;> omega
  unfold dayOfYear
  -- one month at a time
  interval_cases month <;> simp only [marchMonth] <;> simp [monthLength] at hday hlong ⊢ <;> omega

theorem month_eq (d : Date) : (if d.marchMonth < 10 then d.marchMonth + 3 else d.marchMonth - 9) = d.month := by
  have hmonth := d.month_mem
  unfold marchMonth
  split_ifs <;> omega

theorem year_eq {d : Date} (hyear : 0 < d.year) :
    d.yearOfEra + 400 * (d.marchYear / 400) + (if d.month ≤ 2 then 1 else 0) = d.year := by
  unfold yearOfEra marchYear
  split_ifs <;> omega

/-! ## The order of dates -/

/-- One date is before another. -/
def Before (d d' : Date) : Prop :=
  d.year < d'.year ∨ d.year = d'.year ∧ (d.month < d'.month ∨ d.month = d'.month ∧ d.day < d'.day)

theorem Before.trans {d d' d'' : Date} (h : d.Before d') (h' : d'.Before d'') : d.Before d'' := by
  unfold Before at *
  omega

theorem before_next (d : Date) : d.Before d.next := by
  have hmonth := d.month_mem
  unfold next Before
  split_ifs
  · simp
  · simp
  · simp

end Date

theorem dateOfDay_before {n m : Nat} (h : n < m) : (dateOfDay n).Before (dateOfDay m) := by
  induction h with
  | refl => exact (dateOfDay n).before_next
  | step _ ih => exact ih.trans (Date.before_next _)

theorem Date.Before.irrefl (d : Date) : ¬ d.Before d := by
  unfold Date.Before
  omega

/-- **The days are in the order of their dates.** -/
theorem dateOfDay_before_iff {n m : Nat} : (dateOfDay n).Before (dateOfDay m) ↔ n < m := by
  refine ⟨fun h => ?_, dateOfDay_before⟩
  by_contra hle
  rcases Nat.lt_or_eq_of_le (Nat.le_of_not_lt hle) with hlt | rfl
  · exact Date.Before.irrefl _ (h.trans (dateOfDay_before hlt))
  · exact Date.Before.irrefl _ h

theorem dateOfDay_inj {n m : Nat} : dateOfDay n = dateOfDay m ↔ n = m := by
  refine ⟨fun h => ?_, fun h => h ▸ rfl⟩
  rcases Nat.lt_trichotomy n m with hlt | heq | hgt
  · have hbefore := dateOfDay_before hlt
    rw [h] at hbefore
    exact absurd hbefore (Date.Before.irrefl _)
  · exact heq
  · have hbefore := dateOfDay_before hgt
    rw [h] at hbefore
    exact absurd hbefore (Date.Before.irrefl _)

theorem year_dateOfDay (n : Nat) : 1970 ≤ (dateOfDay n).year := by
  cases n with
  | zero => exact Nat.le_refl _
  | succ n =>
    have hbefore : (dateOfDay 0).Before (dateOfDay (n + 1)) := dateOfDay_before (Nat.succ_pos n)
    have hepoch : (dateOfDay 0).year = 1970 := rfl
    unfold Date.Before at hbefore
    omega

/-- **The number of day `n`.** -/
theorem number_dateOfDay (n : Nat) : (dateOfDay n).number = n + 719468 := by
  induction n with
  | zero =>
    have hdays : Date.epoch.number = 719468 := by decide
    rw [dateOfDay, hdays]
  | succ n ih =>
    have hyear := year_dateOfDay n
    rw [Nat.add_right_comm, ← ih]
    exact Date.number_next (by omega)

/-! ## The time of day -/

/-- A time of day, in microseconds. -/
structure TimeOfDay where
  hour : Nat
  minute : Nat
  second : Nat
  micros : Nat
  hour_lt : hour < 24
  minute_lt : minute < 60
  second_lt : second < 60
  micros_lt : micros < 1000000
  deriving DecidableEq

namespace TimeOfDay

/-- The microseconds since midnight. -/
def number (c : TimeOfDay) : Nat := ((c.hour * 60 + c.minute) * 60 + c.second) * 1000000 + c.micros

/-- The time of day after so many microseconds. -/
def ofMicros (n : Nat) : TimeOfDay where
  hour := n / 3600000000 % 24
  minute := n / 60000000 % 60
  second := n / 1000000 % 60
  micros := n % 1000000
  hour_lt := Nat.mod_lt _ (Nat.zero_lt_succ 23)
  minute_lt := Nat.mod_lt _ (Nat.zero_lt_succ 59)
  second_lt := Nat.mod_lt _ (Nat.zero_lt_succ 59)
  micros_lt := Nat.mod_lt _ (Nat.zero_lt_succ 999999)

/-- A time of day is known by the microseconds since midnight. -/
theorem number_inj {c c' : TimeOfDay} : c.number = c'.number ↔ c = c' := by
  refine ⟨fun h => ?_, fun h => h ▸ rfl⟩
  obtain ⟨hour, minute, second, micros, hh, hm, hs, hu⟩ := c
  obtain ⟨hour', minute', second', micros', hh', hm', hs', hu'⟩ := c'
  simp only [number] at h
  simp only [mk.injEq]
  omega

/-- The order of the day is that of the hours, the minutes, the seconds and the microseconds. -/
theorem number_lt {c c' : TimeOfDay} : c.number < c'.number ↔
    c.hour < c'.hour ∨ c.hour = c'.hour ∧ (c.minute < c'.minute ∨ c.minute = c'.minute ∧
      (c.second < c'.second ∨ c.second = c'.second ∧ c.micros < c'.micros)) := by
  have hminute := c.minute_lt
  have hminute' := c'.minute_lt
  have hsecond := c.second_lt
  have hsecond' := c'.second_lt
  have hmicros := c.micros_lt
  have hmicros' := c'.micros_lt
  unfold number
  omega

theorem number_ofMicros (n : Nat) : (ofMicros n).number = n % 86400000000 := by
  unfold number ofMicros
  dsimp only
  omega

end TimeOfDay

end Calendar
