import Beep.Controller.Lease
import Beep.Controller.MicroTime

/-!
# `Controller.Correctness.RenewTimes` — a renewal is seen

A Lease is live while its `renewTime` keeps changing, and what is compared is the text of the timestamp. The text is that
of the date and the time of day; it changes with every microsecond, so two renewals in different microseconds are told
apart by whoever observes the Lease (`LeaseTracker.observe`), and up to the end of the year 9999 the later one has the
greater text.
-/

namespace Beep

open Calendar

/-- What a timestamp shows: the date of its day, counted from 1970-01-01, and the time of the day. -/
structure Stamped (t : Int) (date : Date) (clock : TimeOfDay) : Prop where
  text : microTime t = String.ofList (rfc3339 date clock)
  day : date = dateOfDay (t / 86400000000000).toNat
  civil : civilDate (t / 86400000000000).toNat = ((date.year : Int), (date.month : Int), (date.day : Int))
  month_mem : 1 ≤ date.month ∧ date.month ≤ 12
  day_mem : 1 ≤ date.day ∧ date.day ≤ monthLength date.year date.month
  micros : (clock.number : Int) = t / 1000 % 86400000000
  clock_mem : clock.hour < 24 ∧ clock.minute < 60 ∧ clock.second < 60 ∧ clock.micros < 1000000

theorem stamped {t : Int} (ht : 0 ≤ t) : Stamped t (dateOfDay (dayOf t)) (clockOf t) := by
  have hday : dayOf t = (t / 86400000000000).toNat := by
    unfold dayOf sinceEpoch
    omega
  refine ⟨microTime_eq t, congrArg dateOfDay hday, hday ▸ civilDate_eq _, (dateOfDay _).month_mem, (dateOfDay _).day_mem, ?_,
    (clockOf t).hour_lt, (clockOf t).minute_lt, (clockOf t).second_lt, (clockOf t).micros_lt⟩
  unfold clockOf sinceEpoch
  rw [TimeOfDay.number_ofMicros]
  omega

/-- **A `renewTime` that changed** is a Lease that changed now. -/
theorem LeaseTracker.changedAt_of_renewed {tracker : LeaseTracker} {listed : List ListedLease} {name : String}
    {lease : ListedLease} {old : ObservedLease} (hlisted : listedAs listed name = some lease)
    (hold : tracker.leases.lookup name = some old) (hrenewed : old.renewTime ≠ lease.renewTime) (now : Instant) :
    ∃ o, (tracker.observe listed now).leases.lookup name = some o ∧ o.changedAt = now := by
  have hobserved := tracker.lookup_observe listed now name
  rw [hlisted] at hobserved
  obtain ⟨o, ho, hobserves⟩ := hobserved
  refine ⟨o, ho, ?_⟩
  rcases hobserves.changedAt with hnow | ⟨other, hother, hsame, -⟩
  · exact hnow
  · rw [(name_of_listedAs hlisted).2, hold] at hother
    obtain rfl := Option.some_inj.mp hother
    exact absurd hsame hrenewed

/-- **Timestamps**: the date and the time of a point in time, told apart and ordered as the microseconds are; and so a
    renewal in another microsecond is one that is observed. -/
theorem renew_times (t t' : Int) (ht : 0 ≤ t) (ht' : 0 ≤ t') :
    (∃ date clock, Stamped t date clock) ∧
    (microTime t = microTime t' ↔ t / 1000 = t' / 1000) ∧
    ((dateOfDay (t / 86400000000000).toNat).year ≤ 9999 → (dateOfDay (t' / 86400000000000).toNat).year ≤ 9999 →
      (microTime t < microTime t' ↔ t / 1000 < t' / 1000)) ∧
    (t / 1000 ≠ t' / 1000 → ∀ (tracker : LeaseTracker) listed name lease old now,
      listedAs listed name = some lease → lease.renewTime = microTime t' →
        tracker.leases.lookup name = some old → old.renewTime = microTime t →
          ∃ o, (tracker.observe listed now).leases.lookup name = some o ∧ o.changedAt = now) := by
  have hinj : microTime t = microTime t' ↔ t / 1000 = t' / 1000 := by
    rw [microTime_inj]
    unfold sinceEpoch
    omega
  refine ⟨⟨_, _, stamped ht⟩, hinj, fun hyear hyear' => ?_, ?_⟩
  · rw [← (stamped ht).day] at hyear
    rw [← (stamped ht').day] at hyear'
    rw [microTime_lt hyear hyear']
    unfold sinceEpoch
    omega
  · intro hmicros tracker listed name lease old now hlisted hrenew hold hrenewed
    refine LeaseTracker.changedAt_of_renewed hlisted hold ?_ now
    rw [hrenew, hrenewed]
    exact mt hinj.mp hmicros

/-- The years are those that the code computes. -/
theorem year_dateOfDay_le {days : Nat} (h : (civilDate days).1 ≤ 9999) : (dateOfDay days).year ≤ 9999 := by
  rw [civilDate_eq] at h
  exact Int.ofNat_le.mp h

/-- The last microsecond of the year 2023, and the next one. -/
theorem renew_times_end_of_2023 : microTime 1704067199999999000 < microTime 1704067200000000000 :=
  ((renew_times 1704067199999999000 1704067200000000000 (by decide) (by decide)).2.2.1 (year_dateOfDay_le (by decide))
    (year_dateOfDay_le (by decide))).mpr (by decide)

end Beep
