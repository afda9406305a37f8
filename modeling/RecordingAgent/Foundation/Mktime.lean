import Mathlib.Algebra.Order.BigOperators.Group.List
import RecordingAgent.Foundation.Calendar

/-!
# Seconds from a broken-down time

`mktime` in the time zone UTC, which has no daylight saving time. It undoes `gmtime_r`, and the
broken-down times of two seconds, read from the year down, are in the order of the seconds.
-/

namespace Foundation

/-- The fields of `struct tm` which `mktime` reads. -/
structure TmFields where
  tmYear : ℤ
  tmMon : ℤ
  tmMday : ℤ
  tmHour : ℤ
  tmMin : ℤ
  tmSec : ℤ
  tmIsdst : ℤ
  deriving DecidableEq

/-- The days from the beginning of 1970 to that of a year counted from 1900. -/
def daysToYear (y : ℤ) : ℤ := 365 * (y - 70) + (y - 69) / 4 - (y - 1) / 100 + (y + 299) / 400

/-- `mktime` in UTC: months outside the year carry into it, the other fields only count. -/
def mktime (t : TmFields) : ℤ :=
  let year := t.tmYear + t.tmMon / 12
  let month := (t.tmMon % 12).toNat
  -- leap years repeat every 400 years
  let yday := ((monthLengths ((year + 1900) % 400).toNat).take month).sum + (t.tmMday - 1)
  (daysToYear year + yday) * 86400 + t.tmHour * 3600 + t.tmMin * 60 + t.tmSec

/-- The broken-down time as a caller of `mktime` passes it. -/
def Tm.fields (tm : Tm) (isdst : ℤ) : TmFields :=
  ⟨tm.tmYear, tm.tmMon, tm.tmMday, tm.tmHour, tm.tmMin, tm.tmSec, isdst⟩

/-- A year adds its days. -/
theorem daysToYear_succ (year : ℕ) :
    daysToYear ((year + 1 : ℕ) - 1900 : ℤ) = daysToYear (year - 1900) + (monthLengths year).sum := by
  have hsum : ((monthLengths year).sum : ℤ) = if isLeapYear year = true then 366 else 365 := by
    cases h : isLeapYear year <;> simp [monthLengths, h]
  rw [hsum]
  unfold daysToYear
  by_cases h : isLeapYear year = true
  · rw [if_pos h]
    simp only [isLeapYear, Bool.and_eq_true, beq_iff_eq, Bool.or_eq_true, bne_iff_ne] at h
    omega
  · rw [if_neg h]
    simp only [isLeapYear, Bool.and_eq_true, beq_iff_eq, Bool.or_eq_true, bne_iff_ne] at h
    omega

/-- The years counted off make up for the days taken away. -/
theorem daysToYear_splitYears (fuel year day : ℕ) :
    daysToYear ((splitYears fuel year day).1 - 1900) + (splitYears fuel year day).2 =
      daysToYear (year - 1900) + day := by
  induction fuel generalizing year day with
  | zero => rfl
  | succ fuel ih =>
    rw [splitYears]
    split
    · rfl
    · have hstep := daysToYear_succ year
      rw [ih]
      omega

theorem monthLengths_mod (year : ℕ) : monthLengths (year % 400) = monthLengths year := by
  have hleap : isLeapYear (year % 400) = isLeapYear year := by
    unfold isLeapYear
    rw [Nat.mod_mod_of_dvd year (by decide : 4 ∣ 400), Nat.mod_mod_of_dvd year (by decide : 100 ∣ 400), Nat.mod_mod]
  rw [monthLengths, hleap, monthLengths]

namespace Tm

/-- The days from the beginning of 1970 to the date. -/
def dayNumber (tm : Tm) : ℤ :=
  daysToYear tm.tmYear + ((monthLengths (tm.tmYear + 1900)).take tm.tmMon).sum + (tm.tmMday - 1)

/-- The seconds of the day that have passed. -/
def secondOfDay (tm : Tm) : ℕ := tm.tmHour * 3600 + tm.tmMin * 60 + tm.tmSec

/-- The date is a day of its month. -/
def OnCalendar (tm : Tm) : Prop :=
  ∃ len, (monthLengths (tm.tmYear + 1900))[tm.tmMon]? = some len ∧ 0 < tm.tmMday ∧ tm.tmMday ≤ len

/-- The date comes before the other's. -/
def EarlierDate (tm tm' : Tm) : Prop :=
  tm.tmYear < tm'.tmYear ∨
    tm.tmYear = tm'.tmYear ∧ (tm.tmMon < tm'.tmMon ∨ tm.tmMon = tm'.tmMon ∧ tm.tmMday < tm'.tmMday)

/-- `mktime` puts the day and the second of the day together. -/
theorem mktime_fields {tm : Tm} (hmon : tm.tmMon < 12) (isdst : ℤ) :
    mktime (tm.fields isdst) = tm.dayNumber * 86400 + tm.secondOfDay := by
  have hcarry : (tm.tmMon : ℤ) / 12 = 0 := by omega
  have hmonth : ((tm.tmMon : ℤ) % 12).toNat = tm.tmMon := by omega
  have hyear : (((tm.tmYear : ℤ) + 1900) % 400).toNat = (tm.tmYear + 1900) % 400 := by omega
  simp only [mktime, fields, hcarry, hmonth, add_zero, hyear, monthLengths_mod, dayNumber, secondOfDay]
  push_cast
  ring

/-- A date lies before the end of its month. -/
theorem OnCalendar.sum_take_succ {tm : Tm} (h : tm.OnCalendar) :
    ((monthLengths (tm.tmYear + 1900)).take tm.tmMon).sum + tm.tmMday ≤
      ((monthLengths (tm.tmYear + 1900)).take (tm.tmMon + 1)).sum := by
  obtain ⟨len, hlen, -, hmday⟩ := h
  rw [List.take_add_one, hlen, List.sum_append, Option.toList_some, List.sum_singleton]
  omega

/-- Earlier dates have smaller day numbers. -/
theorem EarlierDate.dayNumber_lt {tm tm' : Tm} (h : tm.EarlierDate tm') (hon : tm.OnCalendar) (hon' : tm'.OnCalendar) :
    tm.dayNumber < tm'.dayNumber := by
  have hend := hon.sum_take_succ
  have hmonths : ∀ {i j : ℕ}, i ≤ j → ((monthLengths (tm.tmYear + 1900)).take i).sum ≤
      ((monthLengths (tm.tmYear + 1900)).take j).sum := fun hij =>
    (List.take_sublist_take_left hij).sum_le_sum fun _ _ => Nat.zero_le _
  have hpos : 0 < tm'.tmMday := by
    obtain ⟨-, -, hpos, -⟩ := hon'
    exact hpos
  unfold dayNumber
  rcases h with hyear | ⟨hyear, hmon | ⟨hmon, hmday⟩⟩
  · -- the whole year passes in between
    have hwhole : ((monthLengths (tm.tmYear + 1900)).take (tm.tmMon + 1)).sum ≤ (monthLengths (tm.tmYear + 1900)).sum :=
      (List.take_sublist _ _).sum_le_sum fun _ _ => Nat.zero_le _
    have hnext := daysToYear_succ (tm.tmYear + 1900)
    have hmono : daysToYear (tm.tmYear + 1) ≤ daysToYear tm'.tmYear := by
      unfold daysToYear
      omega
    rw [show (((tm.tmYear + 1900 + 1 : ℕ) : ℤ) - 1900) = tm.tmYear + 1 by omega,
      show (((tm.tmYear + 1900 : ℕ) : ℤ) - 1900) = tm.tmYear by omega] at hnext
    omega
  · have hlater := hmonths (show tm.tmMon + 1 ≤ tm'.tmMon from hmon)
    rw [← hyear]
    omega
  · rw [← hyear, ← hmon]
    omega

end Tm

/-- A day of a year is on the calendar. -/
theorem brokenDown_spec {year day : ℕ} (hyear : 1970 ≤ year) (hday : day < (monthLengths year).sum) (t : ℕ) :
    (brokenDown year (splitMonths (monthLengths year) day) t).OnCalendar ∧
      (brokenDown year (splitMonths (monthLengths year) day) t).dayNumber = daysToYear (year - 1900) + day ∧
      (brokenDown year (splitMonths (monthLengths year) day) t).secondOfDay = t % 86400 := by
  obtain ⟨len, hlen, hmday, hmonths⟩ := splitMonths_spec hday
  generalize splitMonths (monthLengths year) day = month at *
  obtain ⟨y, rfl⟩ : ∃ y, year = y + 1900 := ⟨year - 1900, by omega⟩
  have hback : y + 1900 - 1900 = y := by omega
  have hcast : (((y + 1900 : ℕ) : ℤ) - 1900) = y := by omega
  unfold brokenDown
  rw [hback, hcast]
  refine ⟨⟨len, hlen, Nat.succ_pos _, hmday⟩, ?_, ?_⟩
  · simp only [Tm.dayNumber]
    omega
  · simp only [Tm.secondOfDay]
    omega

/-- What `gmtime_r` finds: the days and the seconds that have passed. -/
theorem gmtime_spec (t : ℕ) :
    (gmtime t).OnCalendar ∧ (gmtime t).dayNumber = (t / 86400 : ℕ) ∧ (gmtime t).secondOfDay = t % 86400 := by
  have hfuel : t / 86400 < 365 * (t / 86400 / 365 + 1) := by omega
  have hepoch : daysToYear ((1970 : ℕ) - 1900) = 0 := by
    unfold daysToYear
    omega
  have hyears := daysToYear_splitYears (t / 86400 / 365 + 1) 1970 (t / 86400)
  obtain ⟨hyear, hday⟩ := @splitYears_lt _ 1970 _ hfuel
  rw [hepoch, zero_add] at hyears
  unfold gmtime
  generalize splitYears (t / 86400 / 365 + 1) 1970 (t / 86400) = year at *
  obtain ⟨hon, hnumber, hsecond⟩ := brokenDown_spec hyear hday t
  exact ⟨hon, hnumber.trans hyears, hsecond⟩

/-- `mktime` undoes `gmtime_r`. -/
theorem mktime_gmtime (t : ℕ) (isdst : ℤ) : mktime ((gmtime t).fields isdst) = t := by
  obtain ⟨-, hday, hsecond⟩ := gmtime_spec t
  rw [Tm.mktime_fields (gmtime_inRange t).mon, hday, hsecond]
  omega

/-- The dates of two times are in the order of their days. -/
theorem gmtime_earlierDate_iff (t t' : ℕ) : (gmtime t).EarlierDate (gmtime t') ↔ t / 86400 < t' / 86400 := by
  obtain ⟨hon, hday, -⟩ := gmtime_spec t
  obtain ⟨hon', hday', -⟩ := gmtime_spec t'
  constructor
  · intro h
    have hlt := h.dayNumber_lt hon hon'
    omega
  · intro hlt
    by_contra hnot
    -- then the other date is earlier, or both are the same
    have hsame : (gmtime t').EarlierDate (gmtime t) ∨ (gmtime t').dayNumber = (gmtime t).dayNumber := by
      unfold Tm.EarlierDate at hnot ⊢
      by_cases hyear : (gmtime t).tmYear = (gmtime t').tmYear
      · by_cases hmon : (gmtime t).tmMon = (gmtime t').tmMon
        · by_cases hmday : (gmtime t).tmMday = (gmtime t').tmMday
          · exact Or.inr (by simp only [Tm.dayNumber, hyear, hmon, hmday])
          · omega
        · omega
      · omega
    rcases hsame with hearlier | heq
    · have hgt := hearlier.dayNumber_lt hon' hon
      omega
    · omega

end Foundation
