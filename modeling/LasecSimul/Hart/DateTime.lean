import LasecSimul.Hart.Commands
import LasecSimul.Lib.Calendar

/-!
# Dates of trend samples

`encodeDateTimeEngine` writes the Gregorian date of a time that is counted from the first of January 1900.
-/

namespace LasecSimul.Hart

open Lib.Calendar

/-- The arithmetic of `encodeDateTimeEngine` is that of the calendar. -/
theorem encodeDateTimeEngine_take (seconds : Nat) :
    (encodeDateTimeEngine seconds).take 3 =
      let day := seconds / 86400 + 693901
      let month := if civilMonth day < 10 then civilMonth day + 3 else civilMonth day - 9
      [UInt8.ofNat (day - marchDays (marchYear day) - (153 * civilMonth day + 2) / 5 + 1), UInt8.ofNat month,
        UInt8.ofNat (marchYear day + (if month ≤ 2 then 1 else 0) - 1900)] := by
  generalize shifted : seconds / 86400 + 693901 = day
  have era : day - day / 146097 * 146097 = day % 146097 := by
    have := Nat.div_add_mod' day 146097
    omega
  have dayOfYear : day % 146097 - (365 * yearOfEra (day % 146097) + yearOfEra (day % 146097) / 4 -
      yearOfEra (day % 146097) / 100) = day - marchDays (marchYear day) := by
    obtain ⟨century, cycle, rest, same, centuries, cycles, rests, last⟩ :=
      exists_cycle (Nat.mod_lt day (by decide : 0 < 146097))
    have small : yearOfEra (day % 146097) ≤ 399 := by
      rw [same, yearOfEra_eq centuries cycles rests last]
      omega
    have split := Nat.div_add_mod' day 146097
    unfold marchYear marchDays
    generalize yearOfEra (day % 146097) = year at small
    have fourths : (year + day / 146097 * 400) / 4 = year / 4 + 100 * (day / 146097) := by omega
    have hundredths : (year + day / 146097 * 400) / 100 = year / 100 + 4 * (day / 146097) := by omega
    have eras : (year + day / 146097 * 400) / 400 = day / 146097 := by omega
    rw [fourths, hundredths, eras]
    omega
  unfold encodeDateTimeEngine
  dsimp only
  rw [shifted, era]
  unfold yearOfEra at dayOfYear
  rw [dayOfYear]
  rfl

/-- Before the year 2156 the three bytes are a date, and the days from 1900 to it are those of the time. -/
theorem encodeDateTimeEngine_gregorian (seconds : Nat) (early : seconds / 86400 < yearDays 1900 2156) :
    ∃ date : Date, ((encodeDateTimeEngine seconds).take 3).map UInt8.toNat = [date.day, date.month, date.year - 1900] ∧
      1900 ≤ date.year ∧ date.daysFrom 1900 = seconds / 86400 := by
  obtain ⟨date, days, day, month, year⟩ := exists_date (seconds / 86400 + 693901)
  have epoch : yearDays 0 1900 = 693961 := by
    have closed := yearDays_zero 1900
    have : leapDay 1900 = 0 := by decide
    unfold marchDays at closed
    omega
  have limit := yearDays_split (show 1900 ≤ 2156 by decide)
  obtain ⟨notBefore, before⟩ := date.year_bounds 1900 2156 (by omega) (by omega)
  have counted := Date.daysFrom_zero notBefore
  refine ⟨date, ?_, notBefore, by omega⟩
  have inMonth : date.day ≤ 31 := by
    have bounds := date.dayInMonth.2
    have : leapDay date.year ≤ 1 := by
      unfold leapDay
      split <;> decide
    unfold monthLength at bounds
    split at bounds <;> omega
  have inYear := date.monthInYear.2
  rw [encodeDateTimeEngine_take]
  dsimp only
  rw [← day, ← month, ← year]
  simp only [List.map_cons, List.map_nil, UInt8.toNat_ofNat']
  rw [Nat.mod_eq_of_lt (by omega), Nat.mod_eq_of_lt (by omega), Nat.mod_eq_of_lt (by omega)]

/-- The last second of the leap day of 2000. -/
theorem encodeDateTimeEngine_leapDay :
    ∃ date : Date, ((encodeDateTimeEngine 3160857599).take 3).map UInt8.toNat = [date.day, date.month, date.year - 1900] ∧
      1900 ≤ date.year ∧ date.daysFrom 1900 = 3160857599 / 86400 :=
  encodeDateTimeEngine_gregorian 3160857599 (by
    have first := yearDays_zero 1900
    have last := yearDays_zero 2156
    have split := yearDays_split (show 1900 ≤ 2156 by decide)
    have noLeap : leapDay 1900 = 0 := by decide
    have leap : leapDay 2156 = 1 := by decide
    unfold marchDays at first last
    omega)

end LasecSimul.Hart
