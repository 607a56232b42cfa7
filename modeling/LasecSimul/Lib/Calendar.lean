import Mathlib.Algebra.BigOperators.Intervals
import Mathlib.Tactic.IntervalCases

/-!
# The Gregorian calendar

Days are counted by years and months, and `civil` finds the date of a day without counting. Years are those
of the proleptic calendar, from the year 0 on.
-/

namespace LasecSimul.Lib.Calendar

/-- 1 in a leap year. -/
def leapDay (year : Nat) : Nat := if (4 ∣ year ∧ ¬100 ∣ year) ∨ 400 ∣ year then 1 else 0

def yearLength (year : Nat) : Nat := 365 + leapDay year

def monthLength (year : Nat) : Nat → Nat
  | 2 => 28 + leapDay year
  | 4 | 6 | 9 | 11 => 30
  | _ => 31

/-- The days of the years from `first` on, up to `year`. -/
def yearDays (first year : Nat) : Nat := ∑ i ∈ Finset.range (year - first), yearLength (first + i)

/-- The days of the year in front of a month. -/
def monthDays (year : Nat) : Nat → Nat
  | 0 | 1 => 0
  | month + 2 => monthDays year (month + 1) + monthLength year (month + 1)

structure Date where
  year : Nat
  month : Nat
  day : Nat
  monthInYear : 1 ≤ month ∧ month ≤ 12
  dayInMonth : 1 ≤ day ∧ day ≤ monthLength year month

/-- The days from the first of January of the year `first` to the date. -/
def Date.daysFrom (first : Nat) (date : Date) : Nat :=
  yearDays first date.year + monthDays date.year date.month + (date.day - 1)

/-- The days of March years in front of the one that starts in `year`. -/
def marchDays (year : Nat) : Nat := 365 * year + year / 4 - year / 100 + year / 400

theorem marchDays_succ (year : Nat) : marchDays (year + 1) = marchDays year + 365 + leapDay (year + 1) := by
  have ordered : year / 100 ≤ year / 4 := Nat.div_le_div_left (by decide) (by decide)
  unfold marchDays leapDay
  rw [Nat.succ_div, Nat.succ_div, Nat.succ_div]
  by_cases fourth : 4 ∣ year + 1
  · by_cases century : 100 ∣ year + 1
    · by_cases era : 400 ∣ year + 1
      · rw [if_pos fourth, if_pos century, if_pos era, if_pos (.inr era)]
        omega
      · rw [if_pos fourth, if_pos century, if_neg era, if_neg fun leap => leap.elim (fun both => both.2 century) era]
        omega
    · have era : ¬400 ∣ year + 1 := fun era => century (Nat.dvd_trans (by decide) era)
      rw [if_pos fourth, if_neg century, if_neg era, if_pos (.inl ⟨fourth, century⟩)]
      omega
  · have century : ¬100 ∣ year + 1 := fun century => fourth (Nat.dvd_trans (by decide) century)
    have era : ¬400 ∣ year + 1 := fun era => fourth (Nat.dvd_trans (by decide) era)
    rw [if_neg fourth, if_neg century, if_neg era, if_neg fun leap => leap.elim (fun both => fourth both.1) era]
    omega

theorem yearDays_succ (year : Nat) : yearDays 0 (year + 1) = yearDays 0 year + yearLength year := by
  unfold yearDays
  rw [Nat.sub_zero, Nat.sub_zero, Finset.sum_range_succ, Nat.zero_add]

theorem yearDays_zero (year : Nat) : yearDays 0 year + leapDay year = marchDays year + 1 := by
  induction year with
  | zero => rfl
  | succ year ih =>
    rw [yearDays_succ, marchDays_succ, yearLength]
    omega

theorem yearDays_split {first year : Nat} (notBefore : first ≤ year) :
    yearDays 0 year = yearDays 0 first + yearDays first year := by
  unfold yearDays
  obtain ⟨count, rfl⟩ := Nat.exists_eq_add_of_le notBefore
  rw [Nat.sub_zero, Nat.sub_zero, Nat.add_sub_cancel_left, Finset.sum_range_add]
  simp only [Nat.zero_add]

theorem yearDays_mono {year other : Nat} (ordered : year ≤ other) : yearDays 0 year ≤ yearDays 0 other := by
  rw [yearDays_split ordered]
  exact Nat.le_add_right _ _

theorem monthDays_march {year month : Nat} (fromMarch : 3 ≤ month) (inYear : month ≤ 12) :
    monthDays year month = 59 + leapDay year + (153 * (month - 3) + 2) / 5 := by
  interval_cases month <;> simp only [monthDays, monthLength] <;> omega

theorem Date.daysFrom_lt (date : Date) : date.daysFrom 0 < yearDays 0 (date.year + 1) := by
  obtain ⟨year, month, day, ⟨first, last⟩, ⟨one, inMonth⟩⟩ := date
  have inYear : monthDays year month + monthLength year month ≤ yearLength year := by
    unfold yearLength
    interval_cases month <;> simp only [monthDays, monthLength] <;> omega
  rw [yearDays_succ]
  unfold Date.daysFrom
  dsimp only at inYear inMonth ⊢
  omega

theorem march_month (day : Nat) (inYear : day ≤ 365) :
    (153 * ((5 * day + 2) / 153) + 2) / 5 ≤ day ∧ (5 * day + 2) / 153 ≤ 11 ∧
      ∀ year, (5 * day + 2) / 153 < 10 →
        day - (153 * ((5 * day + 2) / 153) + 2) / 5 + 1 ≤ monthLength year ((5 * day + 2) / 153 + 3) := by
  refine ⟨by omega, by omega, fun year before => ?_⟩
  have months : (5 * day + 2) / 153 < 10 := before
  generalize same : (5 * day + 2) / 153 = month at *
  interval_cases month <;> simp only [monthLength] <;> omega

/-- The year of a day of an era of 400 March years. -/
def yearOfEra (day : Nat) : Nat := (day - day / 1460 + day / 36524 - day / 146096) / 365

/-- An era has four centuries of 25 cycles of four years; only the last ends with a leap day. -/
theorem exists_cycle {day : Nat} (inEra : day < 146097) :
    ∃ century cycle rest, day = 36524 * century + 1461 * cycle + rest ∧ century ≤ 3 ∧ cycle ≤ 24 ∧ rest ≤ 1460 ∧
      (rest = 1460 → cycle = 24 → century = 3) := by
  by_cases last : day = 146096
  · exact ⟨3, 24, 1460, by omega, by decide, by decide, by decide, fun _ _ => rfl⟩
  · exact ⟨day / 36524, day % 36524 / 1461, day % 36524 % 1461, by omega, by omega, by omega, by omega, by omega⟩

theorem yearOfEra_eq {century cycle rest : Nat} (centuries : century ≤ 3) (cycles : cycle ≤ 24) (rests : rest ≤ 1460)
    (last : rest = 1460 → cycle = 24 → century = 3) :
    yearOfEra (36524 * century + 1461 * cycle + rest) = 100 * century + 4 * cycle + min (rest / 365) 3 := by
  have eras : (36524 * century + 1461 * cycle + rest) / 146096 =
      if century = 3 ∧ cycle = 24 ∧ rest = 1460 then 1 else 0 := by
    split <;> omega
  have cycles' : (36524 * century + 1461 * cycle + rest) / 1460 =
      25 * century + cycle + (24 * century + cycle + rest) / 1460 := by
    omega
  have centuries' : (36524 * century + 1461 * cycle + rest) / 36524 =
      century + if century = 3 ∧ cycle = 24 ∧ rest = 1460 then 1 else 0 := by
    split <;> omega
  unfold yearOfEra
  rw [eras, cycles', centuries']
  split <;> omega

/-- The March year of a day, counted from the first of March of the year 0. -/
def marchYear (day : Nat) : Nat := yearOfEra (day % 146097) + day / 146097 * 400

theorem marchYear_spec (day : Nat) :
    marchDays (marchYear day) ≤ day ∧ day < marchDays (marchYear day) + 365 + leapDay (marchYear day + 1) := by
  obtain ⟨century, cycle, rest, same, centuries, cycles, rests, last⟩ := exists_cycle (Nat.mod_lt day (by decide : 0 < 146097))
  have era : day = 146097 * (day / 146097) + (36524 * century + 1461 * cycle + rest) := by
    rw [← same, Nat.div_add_mod]
  unfold marchYear
  rw [same, yearOfEra_eq centuries cycles rests last]
  generalize day / 146097 = eras at era
  have start : marchDays (100 * century + 4 * cycle + min (rest / 365) 3 + eras * 400) =
      146097 * eras + (36524 * century + 1461 * cycle + 365 * min (rest / 365) 3) := by
    have inCycle : min (rest / 365) 3 ≤ 3 := Nat.min_le_right _ _
    generalize min (rest / 365) 3 = year at inCycle
    have fourths : (100 * century + 4 * cycle + year + eras * 400) / 4 = 25 * century + cycle + 100 * eras := by omega
    have hundredths : (100 * century + 4 * cycle + year + eras * 400) / 100 = century + 4 * eras := by omega
    have eras' : (100 * century + 4 * cycle + year + eras * 400) / 400 = eras := by omega
    unfold marchDays
    rw [fourths, hundredths, eras']
    omega
  rw [start]
  refine ⟨by omega, ?_⟩
  by_cases leap : rest = 1460
  · have : leapDay (100 * century + 4 * cycle + min (rest / 365) 3 + eras * 400 + 1) = 1 := by
      unfold leapDay
      apply if_pos
      omega
    omega
  · omega

def civilMonth (day : Nat) : Nat := (5 * (day - marchDays (marchYear day)) + 2) / 153

/-- The date of a day, counted from the first of March of the year 0. -/
theorem exists_date (day : Nat) :
    ∃ date : Date, date.daysFrom 0 = day + 60 ∧
      date.day = day - marchDays (marchYear day) - (153 * civilMonth day + 2) / 5 + 1 ∧
      date.month = (if civilMonth day < 10 then civilMonth day + 3 else civilMonth day - 9) ∧
      date.year = marchYear day + if date.month ≤ 2 then 1 else 0 := by
  obtain ⟨started, inYear⟩ := marchYear_spec day
  have leap : leapDay (marchYear day + 1) ≤ 1 := by
    unfold leapDay
    split <;> decide
  obtain ⟨notBefore, months, inMonth⟩ := march_month (day - marchDays (marchYear day)) (by omega)
  change (153 * civilMonth day + 2) / 5 ≤ _ at notBefore
  change civilMonth day ≤ 11 at months
  change ∀ year, civilMonth day < 10 → _ - (153 * civilMonth day + 2) / 5 + 1 ≤ monthLength year (civilMonth day + 3)
    at inMonth
  have years := yearDays_zero (marchYear day)
  have next := yearDays_zero (marchYear day + 1)
  rw [marchDays_succ] at next
  by_cases early : civilMonth day < 10
  · refine ⟨⟨marchYear day, civilMonth day + 3, day - marchDays (marchYear day) - (153 * civilMonth day + 2) / 5 + 1,
      by omega, by omega, inMonth _ early⟩, ?_, rfl, (if_pos early).symm, ?_⟩
    · unfold Date.daysFrom
      dsimp only
      rw [monthDays_march (by omega) (by omega), Nat.add_sub_cancel]
      omega
    · dsimp only
      rw [if_neg (by omega), Nat.add_zero]
  · have january : monthDays (marchYear day + 1) 1 = 0 := rfl
    have february : monthDays (marchYear day + 1) 2 = 31 := rfl
    have lengths : monthLength (marchYear day + 1) 1 = 31 ∧
        monthLength (marchYear day + 1) 2 = 28 + leapDay (marchYear day + 1) := ⟨rfl, rfl⟩
    have which : civilMonth day = 10 ∨ civilMonth day = 11 := by omega
    have inLast : civilMonth day = 10 → day - marchDays (marchYear day) < 337 := by
      unfold civilMonth
      omega
    refine ⟨⟨marchYear day + 1, civilMonth day - 9,
      day - marchDays (marchYear day) - (153 * civilMonth day + 2) / 5 + 1, by omega, by omega, ?_⟩, ?_, rfl,
      (if_neg early).symm, ?_⟩
    · rcases which with month | month
      · rw [show civilMonth day - 9 = 1 by omega]
        omega
      · rw [show civilMonth day - 9 = 2 by omega]
        omega
    · unfold Date.daysFrom
      dsimp only
      rcases which with month | month
      · rw [show civilMonth day - 9 = 1 by omega]
        omega
      · rw [show civilMonth day - 9 = 2 by omega]
        omega
    · dsimp only
      rw [if_pos (by omega)]

theorem Date.year_bounds (date : Date) (first last : Nat) (notBefore : yearDays 0 first ≤ date.daysFrom 0)
    (before : date.daysFrom 0 < yearDays 0 last) : first ≤ date.year ∧ date.year < last := by
  have inYear := date.daysFrom_lt
  have started : yearDays 0 date.year ≤ date.daysFrom 0 := Nat.le_add_right_of_le (Nat.le_add_right _ _)
  constructor
  · by_contra earlier
    have := yearDays_mono (Nat.succ_le_of_lt (not_le.mp earlier))
    exact absurd (inYear.trans_le this) (not_lt.mpr notBefore)
  · by_contra later
    have := yearDays_mono (not_lt.mp later)
    omega

theorem Date.daysFrom_zero {date : Date} {first : Nat} (notBefore : first ≤ date.year) :
    date.daysFrom 0 = yearDays 0 first + date.daysFrom first := by
  unfold Date.daysFrom
  rw [yearDays_split notBefore]
  omega

end LasecSimul.Lib.Calendar
