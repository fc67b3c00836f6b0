import Mathlib.Tactic.IntervalCases
import ModelHub.Time.Calendar

namespace ModelHub.Calendar

/-- A day of an era by its century, its cycle of four years, its year and its place in that year.
Years begin in March, so the leap day is the last one. -/
structure EraDay where
  century : Int
  cycle : Int
  year : Int
  day : Int
  century_range : 0 ≤ century ∧ century ≤ 3
  cycle_range : 0 ≤ cycle ∧ cycle ≤ 24
  year_range : 0 ≤ year ∧ year ≤ 3
  day_range : 0 ≤ day ∧ day ≤ 365
  leapDay : day = 365 → year = 3 ∧ (cycle = 24 → century = 3)

namespace EraDay

def ofCentury (place : EraDay) : Int := 1461 * place.cycle + 365 * place.year + place.day

def ofEra (place : EraDay) : Int := 36524 * place.century + place.ofCentury

def yearOfEra (place : EraDay) : Int := 100 * place.century + 4 * place.cycle + place.year

theorem exists_ofEra {days : Int} (nonneg : 0 ≤ days) (bound : days < 146097) :
    ∃ place : EraDay, place.ofEra = days := by
  let century := min (days / 36524) 3
  let inCentury := days - 36524 * century
  let cycle := inCentury / 1461
  let inCycle := inCentury - 1461 * cycle
  let year := min (inCycle / 365) 3
  refine ⟨⟨century, cycle, year, inCycle - 365 * year, ?_, ?_, ?_, ?_, ?_⟩, ?_⟩
  case refine_6 =>
    simp only [ofEra, ofCentury]
    omega
  all_goals omega

theorem ofCentury_range (place : EraDay) :
    0 ≤ place.ofCentury ∧ place.ofCentury ≤ 36524 ∧
      (place.ofCentury = 36524 → place.century = 3) := by
  obtain ⟨century, cycle, year, day, _, _, _, _, _⟩ := place
  simp only [ofCentury]
  omega

/-- The last day of an era is the only one that the first quotient puts into a fifth century. -/
theorem century_eq (place : EraDay) :
    place.ofEra / 36524 - place.ofEra / 146096 = place.century := by
  have range := place.ofCentury_range
  have century := place.century_range
  simp only [ofEra]
  omega

theorem yearOfEra_eq (place : EraDay) :
    (place.ofEra - place.ofEra / 1460 + place.ofEra / 36524 - place.ofEra / 146096) / 365 =
      place.yearOfEra := by
  have centuries := place.century_eq
  obtain ⟨century, cycle, year, day, _, _, _, _, _⟩ := place
  simp only [ofEra, ofCentury, yearOfEra] at *
  omega

theorem day_eq (place : EraDay) :
    place.ofEra - (365 * place.yearOfEra + place.yearOfEra / 4 - place.yearOfEra / 100) =
      place.day := by
  obtain ⟨century, cycle, year, day, _, _, _, _, _⟩ := place
  simp only [ofEra, ofCentury, yearOfEra]
  omega

theorem yearOfEra_range (place : EraDay) : 0 ≤ place.yearOfEra ∧ place.yearOfEra < 400 := by
  obtain ⟨century, cycle, year, day, _, _, _, _, _⟩ := place
  simp only [yearOfEra]
  omega

/-- Only a leap year, named after its January, has a last day of February like this. -/
theorem isLeap_of_leapDay (place : EraDay) (era : Int) (last : place.day = 365) :
    isLeap (place.yearOfEra + era * 400 + 1) = true := by
  obtain ⟨isLast, isCentury⟩ := place.leapDay last
  have cycle := place.cycle_range
  unfold isLeap yearOfEra
  simp only [Bool.and_eq_true, Bool.or_eq_true, decide_eq_true_eq]
  omega

end EraDay

theorem monthLength_le (year : Int) (month : Nat) : monthLength year month ≤ 31 := by
  unfold monthLength
  split
  · split <;> omega
  all_goals omega

/-- The months from March on, by the day of the year: 31 and 30 days in turn, but for a pause. -/
theorem monthFromMarch_range {day : Int} (range : 0 ≤ day ∧ day ≤ 365) :
    0 ≤ (5 * day + 2) / 153 ∧ (5 * day + 2) / 153 ≤ 11 ∧
      (153 * ((5 * day + 2) / 153) + 2) / 5 ≤ day ∧
      day < (153 * ((5 * day + 2) / 153 + 1) + 2) / 5 := by
  omega

namespace Date

def ofYearDay (yearOfMarch day : Int) : Date :=
  let monthFromMarch := (5 * day + 2) / 153
  let month := if monthFromMarch < 10 then monthFromMarch + 3 else monthFromMarch - 9
  { year := if month ≤ 2 then yearOfMarch + 1 else yearOfMarch
    month := month.toNat
    day := (day - (153 * monthFromMarch + 2) / 5 + 1).toNat }

theorem ofDays_eq (place : EraDay) (era : Int) :
    ofDays (era * 146097 + place.ofEra - 719468) =
      ofYearDay (place.yearOfEra + era * 400) place.day := by
  have range := place.ofCentury_range
  have centuries := place.century_range
  have whole : place.ofEra = 36524 * place.century + place.ofCentury := rfl
  have shifted : era * 146097 + place.ofEra - 719468 + 719468 = era * 146097 + place.ofEra := by
    omega
  have isEra : (era * 146097 + place.ofEra) / 146097 = era := by omega
  have inEra : era * 146097 + place.ofEra - era * 146097 = place.ofEra := by omega
  simp only [ofDays, ofYearDay, shifted, isEra, inEra, place.yearOfEra_eq, place.day_eq]

theorem toDays_ofYearDay {year day : Int} (range : 0 ≤ day ∧ day ≤ 365) :
    (ofYearDay year day).toDays = year / 400 * 146097 +
      ((year - year / 400 * 400) * 365 + (year - year / 400 * 400) / 4 -
        (year - year / 400 * 400) / 100 + day) - 719468 := by
  obtain ⟨first, last, starts, ends⟩ := monthFromMarch_range range
  by_cases early : (5 * day + 2) / 153 < 10
  · have late : ¬(5 * day + 2) / 153 + 3 ≤ 2 := by omega
    have lateNat : ¬((5 * day + 2) / 153 + 3).toNat ≤ 2 := by omega
    simp only [ofYearDay, toDays, early, late, lateNat, if_true, if_false]
    omega
  · have soon : (5 * day + 2) / 153 - 9 ≤ 2 := by omega
    have soonNat : ((5 * day + 2) / 153 - 9).toNat ≤ 2 := by omega
    have same : year + 1 - 1 = year := by omega
    simp only [ofYearDay, toDays, early, soon, soonNat, same, if_true, if_false]
    omega

theorem ofYearDay_isValid {year day : Int} (range : 0 ≤ day ∧ day ≤ 365)
    (leap : day = 365 → isLeap (year + 1) = true) : (ofYearDay year day).isValid = true := by
  obtain ⟨first, last, starts, ends⟩ := monthFromMarch_range range
  generalize isMonth : (5 * day + 2) / 153 = month at first last starts ends
  simp only [isValid, ofYearDay, isMonth, Bool.and_eq_true, decide_eq_true_eq]
  interval_cases month
  case «11» =>
    by_cases isLast : day = 365
    · simp [monthLength, leap isLast]
      omega
    · simp [monthLength]
      split <;> omega
  all_goals
    simp [monthLength]
    omega

theorem ofDays_isValid (days : Int) : (ofDays days).isValid = true := by
  let era := (days + 719468) / 146097
  obtain ⟨place, same⟩ := @EraDay.exists_ofEra (days + 719468 - era * 146097) (by omega) (by omega)
  have whole : days = era * 146097 + place.ofEra - 719468 := by omega
  rw [whole, ofDays_eq]
  exact ofYearDay_isValid place.day_range fun last => place.isLeap_of_leapDay era last

theorem toDays_ofDays (days : Int) : (ofDays days).toDays = days := by
  let era := (days + 719468) / 146097
  obtain ⟨place, same⟩ := @EraDay.exists_ofEra (days + 719468 - era * 146097) (by omega) (by omega)
  have whole : days = era * 146097 + place.ofEra - 719468 := by omega
  have years := place.yearOfEra_range
  have isEra : (place.yearOfEra + era * 400) / 400 = era := by omega
  have inEra : place.yearOfEra + era * 400 - era * 400 = place.yearOfEra := by omega
  have day := place.day_eq
  rw [whole, ofDays_eq, toDays_ofYearDay place.day_range, isEra, inEra]
  omega

end Date

end ModelHub.Calendar
