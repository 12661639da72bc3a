import Mathlib.Data.Nat.Digits.Lemmas
import Notelayer.Library.BinaryFormat
import Notelayer.Library.CivilDate
import Notelayer.TaskFormat

/-!
# The calendar

`Calendar` has the operations of Foundation's `Calendar` that the services use, and
`Calendar.gregorian` is the Gregorian calendar of a time zone with a constant offset. A day key
is the date of a day as text. Parsing the key of a day gives the day back
(`parseDayKey_dayKey`).
-/

namespace Notelayer

/-! ## Calendars -/

/-- What `dateComponents` reads off a date. -/
structure DateComponents where
  year : ℤ
  month : ℤ
  day : ℤ
  hour : ℤ
  deriving DecidableEq

/-- The operations of a Gregorian `Calendar` in a time zone. -/
structure Calendar where
  startOfDay : Date → Date
  /-- `date(byAdding: .day, value:, to:)`. -/
  dateByAddingDays : ℤ → Date → Option Date
  /-- `dateComponents([.year, .month, .day, .hour], from:)`. -/
  dateComponents : Date → Option DateComponents
  /-- `component(.hour, from:)`. -/
  hour : Date → ℤ
  /-- `date(from:)` of a year, a month and a day. -/
  date : ℤ → ℤ → ℤ → Option Date
  /-- `date(bySettingHour:, minute: 0, second: 0, of:)`. -/
  dateBySettingHour : ℤ → Date → Option Date

/-- A time zone with the same offset at all times. `TimeZone(secondsFromGMT:)` takes up to 18
hours. -/
structure FixedTimeZone where
  minutesFromGMT : ℤ
  bound : -1080 ≤ minutesFromGMT ∧ minutesFromGMT ≤ 1080

namespace FixedTimeZone

/-- No offset. -/
def gmt : FixedTimeZone :=
  ⟨0, by decide⟩

variable (z : FixedTimeZone)

/-- The local time of an instant, in seconds since 1970. -/
def localSeconds (seconds : ℚ) : ℚ :=
  seconds + 60 * z.minutesFromGMT

/-- The number of the local day of an instant. -/
def dayNumber (seconds : ℚ) : ℤ :=
  ⌊z.localSeconds seconds / 86400⌋

/-- The instant at which a local day begins. -/
def dayStart (dayNumber : ℤ) : Date :=
  ⟨.finite (86400 * dayNumber - 60 * z.minutesFromGMT)⟩

/-- The local hour of an instant. -/
def hourNumber (seconds : ℚ) : ℤ :=
  ⌊(z.localSeconds seconds - 86400 * z.dayNumber seconds) / 3600⌋

end FixedTimeZone

/-- The days from 1 March of the year 0 to 1970. -/
def daysBefore1970 : ℤ :=
  719468

/-- The year of the era : 1 BC comes before 1. -/
def yearOfEra (year : ℤ) : ℤ :=
  if 1 ≤ year then year else 1 - year

/-- The Gregorian calendar of a zone with a fixed offset. A date that is not finite is its own day.
-/
def Calendar.gregorian (z : FixedTimeZone) : Calendar where
  startOfDay date := match date.timeIntervalSince1970 with
    | .finite seconds => z.dayStart (z.dayNumber seconds)
    | _ => date
  dateByAddingDays value date := match date.timeIntervalSince1970 with
    | .finite seconds => some ⟨.finite (seconds + 86400 * value)⟩
    | _ => none
  dateComponents date := match date.timeIntervalSince1970 with
    | .finite seconds =>
      let civil := CivilDate.ofDay (z.dayNumber seconds + daysBefore1970)
      some ⟨yearOfEra civil.year, civil.month, civil.day, z.hourNumber seconds⟩
    | _ => none
  hour date := match date.timeIntervalSince1970 with
    | .finite seconds => z.hourNumber seconds
    | _ => 0
  date year month day :=
    -- months beyond the year are carried over
    let civil := ⟨year + (month - 1) / 12, (month - 1) % 12 + 1, day⟩
    some (z.dayStart (CivilDate.toDay civil - daysBefore1970))
  dateBySettingHour hour date := match date.timeIntervalSince1970 with
    | .finite seconds =>
      if 0 ≤ hour ∧ hour < 24 then
        some ⟨.finite (86400 * z.dayNumber seconds - 60 * z.minutesFromGMT + 3600 * hour)⟩
      else none
    | _ => none

/-! ## Day keys -/

/-- `%0<width>d` of `String(format:)`. -/
def padded (width : ℕ) (n : ℤ) : String :=
  let digits := (Nat.digits 10 n.natAbs).reverse.map Nat.digitChar
  String.ofList (if n < 0 then '-' :: digits.leftpad (width - 1) '0' else digits.leftpad width '0')

/-- `String(format: "%04d-%02d-%02d", year, month, day)`. -/
def dayKey (year month day : ℤ) : String :=
  String.intercalate "-" [padded 4 year, padded 2 month, padded 2 day]

/-- The `Double` next to a number. -/
def TimeInterval.rounded (q : ℚ) : TimeInterval :=
  let nearest := BinaryFormat.binary64.round q
  if |nearest| < 2 ^ 1024 then .finite nearest
  else if 0 < nearest then .infinity
  else .negInfinity

/-- The beginning of 2001, from which a date counts its seconds. -/
def Date.timeIntervalBetween1970AndReferenceDate : ℚ :=
  978307200

/-- A date holds a `Double` of seconds since the reference date, so the sum is rounded there. -/
def Date.addingTimeInterval (date : Date) (seconds : ℚ) : Date :=
  match date.timeIntervalSince1970 with
  | .finite q =>
    match TimeInterval.rounded (q - timeIntervalBetween1970AndReferenceDate + seconds) with
    | .finite sum => ⟨.finite (sum + timeIntervalBetween1970AndReferenceDate)⟩
    | sum => ⟨sum⟩
  | _ => date

/-- The local day key and hour of an event. It traps if the offset overflows in seconds. -/
def dayKeyAndHour (timestampUTC : Date) (timezoneOffsetMinutes : ℤ) : Option (String × ℤ) :=
  (checkedInt (timezoneOffsetMinutes * 60)).map fun (seconds : ℤ) =>
    let shiftedDate := timestampUTC.addingTimeInterval seconds
    let components := (Calendar.gregorian .gmt).dateComponents shiftedDate
    (dayKey ((components.map DateComponents.year).getD 1970)
      ((components.map DateComponents.month).getD 1) ((components.map DateComponents.day).getD 1),
      (components.map DateComponents.hour).getD 0)

/-- The start of the day of a day key. -/
def parseDayKey (dayKey : String) (calendar : Calendar) : Option Date :=
  -- `split(separator: "-")` leaves empty parts out
  let parts := (dayKey.toList.splitOn '-').filter (· ≠ [])
  match parts.map String.ofList with
  | [yearPart, monthPart, dayPart] => do
    let year ← intOfString yearPart
    let month ← intOfString monthPart
    let day ← intOfString dayPart
    (calendar.date year month day).map calendar.startOfDay
  | _ => none

/-! ## Reading a key back -/

/-- A digit stands for itself. -/
theorem digitChar_spec {d : ℕ} (h : d < 10) :
    (Nat.digitChar d).isDigit = true ∧ ((Nat.digitChar d).toNat : ℤ) - '0'.toNat = d := by
  have hall : ∀ d < 10, (Nat.digitChar d).isDigit = true ∧
      ((Nat.digitChar d).toNat : ℤ) - '0'.toNat = d := by decide
  exact hall d h

theorem toList_padded {n : ℤ} (h : 0 ≤ n) (width : ℕ) : (padded width n).toList =
    List.replicate (width - (Nat.digits 10 n.natAbs).length) '0' ++
      ((Nat.digits 10 n.natAbs).map Nat.digitChar).reverse := by
  simp [padded, h.not_gt, List.leftpad]

theorem isDigit_of_mem_padded {n : ℤ} (h : 0 ≤ n) {width : ℕ} :
    ∀ c ∈ (padded width n).toList, c.isDigit = true := by
  intro c hc
  rw [toList_padded h] at hc
  rcases List.mem_append.mp hc with hc | hc
  · rw [List.eq_of_mem_replicate hc]
    rfl
  · obtain ⟨d, hd, rfl⟩ := List.mem_map.mp (List.mem_reverse.mp hc)
    exact (digitChar_spec (Nat.digits_lt_base (by decide) hd)).1

theorem padded_ne_nil {n : ℤ} (h : 0 ≤ n) {width : ℕ} (hw : 0 < width) :
    (padded width n).toList ≠ [] := by
  intro hnil
  have hlength := congrArg List.length hnil
  rw [toList_padded h] at hlength
  simp only [List.length_append, List.length_replicate, List.length_reverse, List.length_map,
    List.length_nil] at hlength
  omega

/-- The zeros in front do not count. -/
theorem foldl_padded {n : ℤ} (h : 0 ≤ n) (width : ℕ) :
    (padded width n).toList.foldl (fun n c => 10 * n + ((c.toNat : ℤ) - '0'.toNat)) 0 = n := by
  have hzeros : ∀ k, (List.replicate k '0').foldl
      (fun n c => 10 * n + ((c.toNat : ℤ) - '0'.toNat)) 0 = 0 := by
    intro k
    induction k with
    | zero => rfl
    | succ k ih => exact ih
  rw [toList_padded h, List.foldl_append, hzeros, List.foldl_reverse, List.foldr_map]
  conv_rhs => rw [← Int.natAbs_of_nonneg h, ← Nat.ofDigits_digits 10 n.natAbs,
    Nat.coe_ofDigits, Nat.ofDigits_eq_foldr]
  refine List.foldr_ext _ _ _ fun d hd m => ?_
  rw [(digitChar_spec (Nat.digits_lt_base (by decide) hd)).2]
  exact add_comm _ _

/-- A numeral without a sign is read as its digits. -/
theorem intOfString_of_isDigit {s : String}
    (h : ∀ c ∈ s.toList, c.isDigit = true) :
    intOfString s = (intOfDigits s.toList).filter fun n => -2 ^ 63 ≤ n ∧ n < 2 ^ 63 := by
  unfold intOfString
  split
  · rename_i digits hs
    exact absurd (h '-' (by rw [hs]; exact List.mem_cons_self)) (by decide)
  · rename_i digits hs
    exact absurd (h '+' (by rw [hs]; exact List.mem_cons_self)) (by decide)
  · rfl

theorem intOfString_padded {n : ℤ} (h : 0 ≤ n) (hn : n < 2 ^ 63) {width : ℕ} (hw : 0 < width) :
    intOfString (padded width n) = some n := by
  rw [intOfString_of_isDigit (isDigit_of_mem_padded h), intOfDigits,
    if_pos ⟨padded_ne_nil h hw, List.all_eq_true.mpr (isDigit_of_mem_padded h)⟩, Nat.cast_zero,
    foldl_padded h]
  exact Option.filter_some_pos (by simpa using ⟨by omega, hn⟩)

/-- The key of a date is parsed as the date. -/
theorem parseDayKey_dayKey {year month day : ℤ} (hyear : 0 ≤ year ∧ year < 2 ^ 63)
    (hmonth : 0 ≤ month ∧ month < 2 ^ 63) (hday : 0 ≤ day ∧ day < 2 ^ 63)
    (calendar : Calendar) : parseDayKey (dayKey year month day) calendar =
      (calendar.date year month day).map calendar.startOfDay := by
  have hparts : (((dayKey year month day).toList.splitOn '-').filter (· ≠ [])).map
      String.ofList = [padded 4 year, padded 2 month, padded 2 day] := by
    have hdigits : ∀ part ∈ [(padded 4 year).toList, (padded 2 month).toList,
        (padded 2 day).toList], part ≠ [] ∧ ∀ c ∈ part, c.isDigit = true := by
      refine List.forall_mem_cons.mpr ⟨?_, List.forall_mem_cons.mpr
        ⟨?_, List.forall_mem_singleton.mpr ?_⟩⟩
      · exact ⟨padded_ne_nil hyear.1 (by decide), isDigit_of_mem_padded hyear.1⟩
      · exact ⟨padded_ne_nil hmonth.1 (by decide), isDigit_of_mem_padded hmonth.1⟩
      · exact ⟨padded_ne_nil hday.1 (by decide), isDigit_of_mem_padded hday.1⟩
    have hdash : ∀ part ∈ [(padded 4 year).toList, (padded 2 month).toList,
        (padded 2 day).toList], '-' ∉ part :=
      fun part hpart hmem => absurd ((hdigits part hpart).2 '-' hmem) (by decide)
    rw [dayKey, String.toList_intercalate]
    change List.map _ (List.filter _ (List.splitOn '-' (List.intercalate ['-'] _))) = _
    rw [List.map_cons, List.map_cons, List.map_cons, List.map_nil,
      List.splitOn_intercalate '-' hdash (List.cons_ne_nil _ _),
      List.filter_eq_self.mpr fun part hpart => decide_eq_true (hdigits part hpart).1]
    simp
  unfold parseDayKey
  simp only [hparts]
  rw [intOfString_padded hyear.1 hyear.2 (by decide),
    intOfString_padded hmonth.1 hmonth.2 (by decide),
    intOfString_padded hday.1 hday.2 (by decide)]
  rfl

end Notelayer
