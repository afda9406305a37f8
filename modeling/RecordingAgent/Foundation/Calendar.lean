import Mathlib.Tactic.Ring
import Mathlib.Data.List.Basic

/-!
# Broken-down time

`gmtime_r` for seconds since the beginning of 1970: the year is found by counting off whole
years, the month by counting off the months of that year. The fields are in the ranges the C
library documents.
-/

namespace Foundation

/-- The fields of `struct tm` that a UTC time has; the year counts from 1900, the month from 0. -/
structure Tm where
  tmYear : ℕ
  tmMon : ℕ
  tmMday : ℕ
  tmHour : ℕ
  tmMin : ℕ
  tmSec : ℕ
  deriving DecidableEq, Repr

/-- Whether a year of the Gregorian calendar has a leap day. -/
def isLeapYear (year : ℕ) : Bool := year % 4 == 0 && (year % 100 != 0 || year % 400 == 0)

/-- The lengths of the months of a year. -/
def monthLengths (year : ℕ) : List ℕ :=
  [31, if isLeapYear year then 29 else 28, 31, 30, 31, 30, 31, 31, 30, 31, 30, 31]

/-- Count off the months of a year: the month, and the day in it, both from 0. -/
def splitMonths : List ℕ → ℕ → ℕ × ℕ
  | [], day => (0, day)
  | len :: rest, day =>
    if day < len then (0, day) else ((splitMonths rest (day - len)).1 + 1, (splitMonths rest (day - len)).2)

/-- Count off at most `fuel` years from `year` on: the year, and the day in it from 0. -/
def splitYears : ℕ → ℕ → ℕ → ℕ × ℕ
  | 0, year, day => (year, day)
  | fuel + 1, year, day =>
    if day < (monthLengths year).sum then (year, day)
    else splitYears fuel (year + 1) (day - (monthLengths year).sum)

/-- The broken-down time with the given year, month and day in the month, both from 0. -/
def brokenDown (year : ℕ) (month : ℕ × ℕ) (t : ℕ) : Tm where
  tmYear := year - 1900
  tmMon := month.1
  tmMday := month.2 + 1
  tmHour := t / 3600 % 24
  tmMin := t / 60 % 60
  tmSec := t % 60

/-- `gmtime_r`. -/
def gmtime (t : ℕ) : Tm :=
  let year := splitYears (t / 86400 / 365 + 1) 1970 (t / 86400)
  brokenDown year.1 (splitMonths (monthLengths year.1) year.2) t

/-- The fields fit the two digits that they are printed with. -/
structure Tm.InRange (tm : Tm) : Prop where
  year : 70 ≤ tm.tmYear
  mon : tm.tmMon < 12
  mday : 0 < tm.tmMday ∧ tm.tmMday ≤ 31
  hour : tm.tmHour < 24
  min : tm.tmMin < 60
  sec : tm.tmSec < 60

/-- A day within the months lies in one of them, and the months counted off make up for the days taken away. -/
theorem splitMonths_spec {lengths : List ℕ} {day : ℕ} (hday : day < lengths.sum) :
    ∃ len, lengths[(splitMonths lengths day).1]? = some len ∧ (splitMonths lengths day).2 < len ∧
      (lengths.take (splitMonths lengths day).1).sum + (splitMonths lengths day).2 = day := by
  induction lengths generalizing day with
  | nil => simp at hday
  | cons len rest ih =>
    rw [splitMonths]
    split
    · rename_i hlt
      exact ⟨len, rfl, hlt, Nat.zero_add day⟩
    · have hrest : day - len < rest.sum := by
        rw [List.sum_cons] at hday
        omega
      obtain ⟨len', hlen, hmday, htake⟩ := ih hrest
      refine ⟨len', hlen, hmday, ?_⟩
      rw [List.take_succ_cons, List.sum_cons]
      omega

/-- A year has at least 365 days. -/
theorem le_monthLengths_sum (year : ℕ) : 365 ≤ (monthLengths year).sum := by
  cases h : isLeapYear year <;> simp [monthLengths, h]

/-- With enough fuel for the years that the days can make up, the remaining day lies in the year
found. -/
theorem splitYears_lt {fuel year day : ℕ} (hfuel : day < 365 * fuel) :
    year ≤ (splitYears fuel year day).1 ∧
      (splitYears fuel year day).2 < (monthLengths (splitYears fuel year day).1).sum := by
  induction fuel generalizing year day with
  | zero => omega
  | succ fuel ih =>
    rw [splitYears]
    split
    · rename_i hlt
      exact ⟨le_rfl, hlt⟩
    · have hlong := le_monthLengths_sum year
      obtain ⟨hyear, hday⟩ := @ih (year + 1) (day - (monthLengths year).sum) (by omega)
      exact ⟨by omega, hday⟩

theorem brokenDown_inRange {year : ℕ} {month : ℕ × ℕ} (hyear : 1970 ≤ year) (hmonth : month.1 < 12)
    (hmday : month.2 < 31) (t : ℕ) : (brokenDown year month t).InRange where
  year := Nat.sub_le_sub_right hyear 1900
  mon := hmonth
  mday := ⟨Nat.succ_pos _, hmday⟩
  hour := Nat.mod_lt _ (by decide)
  min := Nat.mod_lt _ (by decide)
  sec := Nat.mod_lt _ (by decide)

/-- The broken-down time is in range. -/
theorem gmtime_inRange (t : ℕ) : (gmtime t).InRange := by
  have hfuel : t / 86400 < 365 * (t / 86400 / 365 + 1) := by omega
  obtain ⟨hyear, hday⟩ := @splitYears_lt (t / 86400 / 365 + 1) 1970 (t / 86400) hfuel
  have hbound : ∀ y, ∀ len ∈ monthLengths y, len ≤ 31 := by
    intro y len hlen
    simp only [monthLengths, List.mem_cons, List.not_mem_nil, or_false] at hlen
    split at hlen <;> omega
  obtain ⟨len, hlen, hmday, -⟩ := splitMonths_spec hday
  obtain ⟨hmonth, -⟩ := List.getElem?_eq_some_iff.mp hlen
  exact brokenDown_inRange hyear hmonth (hmday.trans_le (hbound _ len (List.mem_of_getElem? hlen))) t

example : gmtime 1709251199 = ⟨124, 1, 29, 23, 59, 59⟩ := by decide +kernel

end Foundation
