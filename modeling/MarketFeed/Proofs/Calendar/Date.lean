import Mathlib.Algebra.BigOperators.Group.List.Basic
import Mathlib.Tactic.IntervalCases
import Mathlib.Tactic.Ring
import MarketFeed.Calendar

/-!
# Days of the Gregorian calendar

A date has a number in the Gregorian calendar (`Date.dayNumber`): the days of the years before its
year, which have a leap day every fourth year but for three centuries of four, those of the months
before its month, and those before it.  The date that is found for a number of days is one that the
calendar has, and has that number (`ofDays_spec`).
-/

namespace MarketFeed

namespace Date

/-! ### The calendar -/

/-- The days of the years before a year, counted from the year zero. -/
def daysBeforeYear (year : Nat) : Nat :=
  365 * year + (year + 3) / 4 - (year + 99) / 100 + (year + 399) / 400

/-- The days of a year before a month. -/
def daysBeforeMonth (year month : Nat) : Nat :=
  [0, 31, 59, 90, 120, 151, 181, 212, 243, 273, 304, 334].getD (month - 1) 0 +
    if 2 < month ∧ isLeap year then 1 else 0

/-- The days of a month. -/
def monthLength (year month : Nat) : Nat :=
  if month = 2 then if isLeap year then 29 else 28
  else if month = 4 ∨ month = 6 ∨ month = 9 ∨ month = 11 then 30 else 31

/-- The calendar has the date. -/
structure IsValid (d : Date) : Prop where
  month_pos : 1 ≤ d.month
  month_le : d.month ≤ 12
  day_pos : 1 ≤ d.day
  day_le : d.day ≤ monthLength d.year d.month

/-- The days from the first day of the year zero to a date. -/
def dayNumber (d : Date) : Nat :=
  daysBeforeYear d.year + daysBeforeMonth d.year d.month + (d.day - 1)

/-! ### Years -/

/-- Every fourth year has a leap day, every hundredth has none, and every 400th has one again. -/
theorem yearLength_rules (year : Nat) :
    yearLength year + (if year % 100 = 0 then 1 else 0) =
      365 + (if year % 4 = 0 then 1 else 0) + if year % 400 = 0 then 1 else 0 := by
  have hcenturies : year % 100 = 0 → year % 4 = 0 := by omega
  have hcycles : year % 400 = 0 → year % 100 = 0 := by omega
  by_cases h₄ : year % 4 = 0
  · by_cases h₁₀₀ : year % 100 = 0
    · by_cases h₄₀₀ : year % 400 = 0 <;> simp [yearLength, isLeap, h₄, h₁₀₀, h₄₀₀]
    · simp [yearLength, isLeap, h₄, h₁₀₀, mt hcycles h₁₀₀]
  · simp [yearLength, isLeap, h₄, mt hcenturies h₄, mt hcycles (mt hcenturies h₄)]

theorem daysBeforeYear_succ (year : Nat) :
    daysBeforeYear (year + 1) = daysBeforeYear year + yearLength year := by
  have hfour : (year + 1 + 3) / 4 = (year + 3) / 4 + if year % 4 = 0 then 1 else 0 := by
    split_ifs <;> omega
  have hcentury : (year + 1 + 99) / 100 = (year + 99) / 100 + if year % 100 = 0 then 1 else 0 := by
    split_ifs <;> omega
  have hcycle : (year + 1 + 399) / 400 = (year + 399) / 400 + if year % 400 = 0 then 1 else 0 := by
    split_ifs <;> omega
  have hfewer : (year + 99) / 100 ≤ (year + 3) / 4 := by omega
  have hrules := yearLength_rules year
  rw [daysBeforeYear, daysBeforeYear, hfour, hcentury, hcycle]
  generalize (year + 3) / 4 = fours at hfewer ⊢
  generalize (year + 99) / 100 = centuries at hfewer ⊢
  split_ifs at hrules ⊢ <;> omega

theorem sum_yearLength (years : Nat) :
    ((List.range years).map yearLength).sum = daysBeforeYear years := by
  induction years with
  | zero => rfl
  | succ years ih =>
    rw [List.range_succ, List.map_append, List.sum_append, ih, daysBeforeYear_succ,
      List.map_singleton, List.sum_singleton]

/-- The calendar repeats itself after 400 years. -/
theorem daysBeforeYear_cycle (cycles year : Nat) :
    daysBeforeYear (400 * cycles + year) = cycleLength * cycles + daysBeforeYear year := by
  have hfour : (400 * cycles + year + 3) / 4 = 100 * cycles + (year + 3) / 4 := by omega
  have hcentury : (400 * cycles + year + 99) / 100 = 4 * cycles + (year + 99) / 100 := by omega
  have hcycle : (400 * cycles + year + 399) / 400 = cycles + (year + 399) / 400 := by omega
  have hfewer : (year + 99) / 100 ≤ (year + 3) / 4 := by omega
  rw [daysBeforeYear, daysBeforeYear, cycleLength, hfour, hcentury, hcycle]
  generalize (year + 3) / 4 = fours at hfewer ⊢
  generalize (year + 99) / 100 = centuries at hfewer ⊢
  omega

theorem isLeap_cycle (cycles year : Nat) : isLeap (400 * cycles + year) = isLeap year := by
  unfold isLeap
  rw [show (400 * cycles + year) % 4 = year % 4 by omega,
    show (400 * cycles + year) % 100 = year % 100 by omega,
    show (400 * cycles + year) % 400 = year % 400 by omega]

/-! ### Months -/

theorem sum_monthLengths (year : Nat) : (monthLengths year).sum = yearLength year := by
  unfold monthLengths yearLength
  cases isLeap year <;> rfl

theorem sum_take_monthLengths {i : Nat} (hi : i < 12) (year : Nat) :
    ((monthLengths year).take i).sum = daysBeforeMonth year (i + 1) := by
  unfold monthLengths daysBeforeMonth
  cases isLeap year <;> interval_cases i <;> rfl

theorem getElem?_monthLengths {i : Nat} (hi : i < 12) (year : Nat) :
    (monthLengths year)[i]? = some (monthLength year (i + 1)) := by
  unfold monthLengths monthLength
  cases isLeap year <;> interval_cases i <;> rfl

/-! ### Finding a date -/

/-- What is found lies in the stretch that is found, behind all the stretches before it. -/
theorem exists_locate {lengths : List Nat} {n : Nat} (h : n < lengths.sum) :
    ∃ i rest length, locate lengths n = (i, rest) ∧ (lengths.take i).sum + rest = n ∧
      lengths[i]? = some length ∧ rest < length := by
  induction lengths generalizing n with
  | nil => exact absurd h (Nat.not_lt_zero n)
  | cons length lengths ih =>
    rw [List.sum_cons] at h
    by_cases hn : n < length
    · exact ⟨0, n, length, by rw [locate, if_pos hn], Nat.zero_add n, rfl, hn⟩
    · obtain ⟨i, rest, length', hlocate, hsum, hget, hrest⟩ := ih (n := n - length) (by omega)
      refine ⟨i + 1, rest, length', by rw [locate, if_neg hn, hlocate], ?_, hget, hrest⟩
      rw [List.take_succ_cons, List.sum_cons]
      omega

theorem exists_year (days : Nat) :
    ∃ year rest, locate ((List.range 400).map yearLength) (days % cycleLength) = (year, rest) ∧
      daysBeforeYear year + rest = days % cycleLength ∧ rest < yearLength year := by
  have hcycle : days % cycleLength < ((List.range 400).map yearLength).sum := by
    rw [sum_yearLength]
    exact Nat.mod_lt _ (by decide)
  obtain ⟨year, rest, length, hlocate, hsum, hget, hrest⟩ := exists_locate hcycle
  obtain ⟨hyear, hlength⟩ := List.getElem?_eq_some_iff.1 hget
  rw [List.length_map, List.length_range] at hyear
  rw [List.getElem_map, List.getElem_range] at hlength
  rw [← List.map_take, List.take_range, Nat.min_eq_left hyear.le, sum_yearLength] at hsum
  exact ⟨year, rest, hlocate, hsum, hlength ▸ hrest⟩

theorem exists_month {year rest : Nat} (h : rest < yearLength year) :
    ∃ i day, locate (monthLengths year) rest = (i, day) ∧ i < 12 ∧
      daysBeforeMonth year (i + 1) + day = rest ∧ day < monthLength year (i + 1) := by
  rw [← sum_monthLengths] at h
  obtain ⟨i, day, length, hlocate, hsum, hget, hday⟩ := exists_locate h
  obtain ⟨hi, -⟩ := List.getElem?_eq_some_iff.1 hget
  have hi : i < 12 := hi
  obtain rfl := Option.some.inj ((getElem?_monthLengths hi year).symm.trans hget)
  exact ⟨i, day, hlocate, hi, (sum_take_monthLengths hi year) ▸ hsum, hday⟩

/-- The date for a number of days is in the calendar and has that number. -/
theorem ofDays_spec (days : Nat) : (ofDays days).IsValid ∧ (ofDays days).dayNumber = days := by
  obtain ⟨yearOfCycle, dayOfYear, hyear, hyearSum, hlt⟩ := exists_year days
  -- A year has the months of its place in the cycle.
  rw [yearLength, ← isLeap_cycle (days / cycleLength), ← yearLength] at hlt
  obtain ⟨i, day, hmonth, hi, hmonthSum, hday⟩ := exists_month hlt
  have hdate : ofDays days = ⟨400 * (days / cycleLength) + yearOfCycle, i + 1, day + 1⟩ := by
    unfold ofDays
    simp only [hyear, hmonth]
  rw [hdate]
  refine ⟨⟨Nat.succ_pos i, hi, Nat.succ_pos day, hday⟩, ?_⟩
  calc daysBeforeYear (400 * (days / cycleLength) + yearOfCycle) +
        daysBeforeMonth (400 * (days / cycleLength) + yearOfCycle) (i + 1) + day
      = cycleLength * (days / cycleLength) + (daysBeforeYear yearOfCycle + dayOfYear) := by
        rw [daysBeforeYear_cycle, ← hmonthSum]
        ring
    _ = days := by rw [hyearSum, Nat.div_add_mod]

end Date

end MarketFeed
