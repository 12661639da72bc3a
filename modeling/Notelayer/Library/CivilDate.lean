import Mathlib.Data.Int.Order.Basic

/-!
# Civil dates

Years are counted from 1 March here, so that the leap day is the last one and the months
begin at the same days of every year. A `Rule` says on which day a year begins and in which
year a day falls. `julian` and `gregorian` are the two rules of the western calendar, and
`CivilDate.ofDay` is the historical calendar, Julian up to 4 October 1582 and Gregorian from
the day after, 15 October 1582. `CivilDate.toDay` takes its dates back to their days
(`CivilDate.toDay_ofDay`).

Days are numbered from the Gregorian 1 March of the year 0.
-/

/-- A year, a month and a day of the month. -/
@[ext] structure CivilDate where
  year : ℤ
  month : ℤ
  day : ℤ
  deriving DecidableEq

namespace CivilDate

/-- What a calendar knows about its years, which begin on 1 March. -/
structure Rule where
  /-- The number of days before 1 March of a year. -/
  yearStart : ℤ → ℤ
  yearOf : ℤ → ℤ
  yearStart_yearOf_le : ∀ n, yearStart (yearOf n) ≤ n
  lt_yearStart_succ : ∀ n, n < yearStart (yearOf n + 1)
  yearStart_succ_le : ∀ year, yearStart (year + 1) ≤ yearStart year + 366

/-- Every fourth year has a leap day. -/
def julian : Rule where
  yearStart year := 365 * year + year / 4
  yearOf n := (4 * n + 3) / 1461
  yearStart_yearOf_le n := by omega
  lt_yearStart_succ n := by omega
  yearStart_succ_le year := by omega

/-- The days before 1 March of a year without the leap days of most centuries. -/
def gregorianYearStart (year : ℤ) : ℤ :=
  365 * year + year / 4 - year / 100 + year / 400

/-- The mean length of a year finds the year of a day up to one. -/
def gregorianYearOf (n : ℤ) : ℤ :=
  let year := 400 * n / 146097
  if n < gregorianYearStart year then year - 1
  else if gregorianYearStart (year + 1) ≤ n then year + 1
  else year

/-- The Gregorian leap years. -/
def gregorian : Rule where
  yearStart := gregorianYearStart
  yearOf := gregorianYearOf
  yearStart_yearOf_le n := by
    unfold gregorianYearOf gregorianYearStart
    dsimp only
    split_ifs <;> omega
  lt_yearStart_succ n := by
    unfold gregorianYearOf gregorianYearStart
    dsimp only
    split_ifs <;> omega
  yearStart_succ_le year := by
    unfold gregorianYearStart
    omega

namespace Rule

variable (rule : Rule)

/-- The months begin at 0, 31, 61, 92, 122, 153, … -/
def ofDay (n : ℤ) : CivilDate :=
  let year := rule.yearOf n
  let dayOfYear := n - rule.yearStart year
  let month := (5 * dayOfYear + 2) / 153
  { year := if month < 10 then year else year + 1
    month := if month < 10 then month + 3 else month - 9
    day := dayOfYear - (153 * month + 2) / 5 + 1 }

/-- The number of a day, by the rule of its year. -/
def toDay (date : CivilDate) : ℤ :=
  let year := if date.month ≤ 2 then date.year - 1 else date.year
  let month := if date.month ≤ 2 then date.month + 9 else date.month - 3
  rule.yearStart year + (153 * month + 2) / 5 + date.day - 1

/-- The day of the year of a day. -/
theorem dayOfYear_bounds (n : ℤ) :
    0 ≤ n - rule.yearStart (rule.yearOf n) ∧ n - rule.yearStart (rule.yearOf n) ≤ 365 := by
  have hle := rule.yearStart_yearOf_le n
  have hlt := rule.lt_yearStart_succ n
  have hsucc := rule.yearStart_succ_le (rule.yearOf n)
  omega

/-- The month and the day are those of a calendar. -/
theorem ofDay_bounds (n : ℤ) : 1 ≤ (rule.ofDay n).month ∧ (rule.ofDay n).month ≤ 12 ∧
    1 ≤ (rule.ofDay n).day ∧ (rule.ofDay n).day ≤ 31 := by
  obtain ⟨hlow, hhigh⟩ := rule.dayOfYear_bounds n
  unfold ofDay
  dsimp only
  generalize n - rule.yearStart (rule.yearOf n) = dayOfYear at hlow hhigh ⊢
  split_ifs <;> omega

/-- A day is the day of its date. -/
theorem toDay_ofDay (n : ℤ) : rule.toDay (rule.ofDay n) = n := by
  obtain ⟨hlow, hhigh⟩ := rule.dayOfYear_bounds n
  unfold ofDay toDay
  dsimp only
  obtain ⟨dayOfYear, hday⟩ : ∃ d, n - rule.yearStart (rule.yearOf n) = d := ⟨_, rfl⟩
  simp only [hday] at hlow hhigh ⊢
  by_cases hmonth : (5 * dayOfYear + 2) / 153 < 10
  · rw [if_pos hmonth, if_pos hmonth, if_neg (by omega), if_neg (by omega)]
    omega
  · rw [if_neg hmonth, if_neg hmonth, if_pos (by omega), if_pos (by omega), Int.add_sub_cancel]
    omega

end Rule

/-! ## The historical calendar -/

/-- The Gregorian 15 October 1582. -/
def cutover : ℤ :=
  578041

/-- The date is one of the Julian calendar. -/
def BeforeCutover (date : CivilDate) : Prop :=
  date.year < 1582 ∨ date.year = 1582 ∧ (date.month < 10 ∨ date.month = 10 ∧ date.day < 15)

instance (date : CivilDate) : Decidable date.BeforeCutover :=
  inferInstanceAs (Decidable (_ ∨ _))

/-- The Julian 1 March of the year 0 is two days before the Gregorian one. -/
def ofDay (n : ℤ) : CivilDate :=
  if cutover ≤ n then gregorian.ofDay n else julian.ofDay (n + 2)

/-- The number of a day, by the calendar in force at the time. -/
def toDay (date : CivilDate) : ℤ :=
  if date.BeforeCutover then julian.toDay date - 2 else gregorian.toDay date

/-- A late day is dated after the cutover. -/
theorem not_beforeCutover {n : ℤ} (h : cutover ≤ n) : ¬(gregorian.ofDay n).BeforeCutover := by
  unfold cutover at h
  have hlt : n < gregorianYearStart (gregorianYearOf n + 1) := gregorian.lt_yearStart_succ n
  have hle : gregorianYearStart (gregorianYearOf n) ≤ n := gregorian.yearStart_yearOf_le n
  unfold BeforeCutover Rule.ofDay gregorian
  dsimp only
  generalize gregorianYearOf n = year at hlt hle ⊢
  unfold gregorianYearStart at hlt hle ⊢
  have hyear : 1582 ≤ year := by omega
  rcases lt_or_eq_of_le hyear with hlater | rfl
  · split_ifs <;> omega
  · split_ifs <;> omega

/-- An early day is dated before the cutover. -/
theorem beforeCutover {n : ℤ} (h : n < cutover) : (julian.ofDay (n + 2)).BeforeCutover := by
  unfold cutover at h
  have hlt := julian.lt_yearStart_succ (n + 2)
  have hle := julian.yearStart_yearOf_le (n + 2)
  unfold BeforeCutover Rule.ofDay
  dsimp only
  generalize julian.yearOf (n + 2) = year at hlt hle ⊢
  unfold julian at hlt hle ⊢
  dsimp only at hlt hle ⊢
  have hyear : year ≤ 1582 := by omega
  rcases lt_or_eq_of_le hyear with hearlier | rfl
  · split_ifs <;> omega
  · split_ifs <;> omega

theorem toDay_ofDay (n : ℤ) : (ofDay n).toDay = n := by
  unfold ofDay
  split_ifs with h
  · rw [toDay, if_neg (not_beforeCutover h), Rule.toDay_ofDay]
  · rw [toDay, if_pos (beforeCutover (not_le.mp h)), Rule.toDay_ofDay]
    omega

end CivilDate
