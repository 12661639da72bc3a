import Notelayer.Calendar
import Notelayer.TaskDrops

/-!
# The date that a bucket gives

A drop on a date bucket dates the task a fixed number of days from now, and the section that shows
the task is found by tests for today, tomorrow and the week. The two agree for every bucket but
This Week, whose date is three days on : it lies in the week if and only if the day of now is one
of the first four of its week (`dueDateForBucket_roundTrips_iff`).
-/

namespace Notelayer

/-! ## Weeks -/

/-- The days of the week before a day. Day 0 is 1 January 1970, a Thursday, and the weekdays count
from 1 for Sunday. -/
def weekPosition (firstWeekday day : ℤ) : ℤ :=
  (day + 5 - firstWeekday) % 7

/-- The number of the week of a day, where the week starts on `firstWeekday`. -/
def weekNumber (firstWeekday day : ℤ) : ℤ :=
  (day + 5 - firstWeekday) / 7

theorem weekNumber_add_eq_iff {n : ℤ} (h : 0 ≤ n) (firstWeekday day : ℤ) :
    weekNumber firstWeekday (day + n) = weekNumber firstWeekday day ↔
      weekPosition firstWeekday day + n ≤ 6 := by
  unfold weekNumber weekPosition
  omega

namespace TodoCalendar

/-- The calendar adds days and compares days and weeks by their numbers, in the time zone whose
local days `day` numbers. -/
structure IsGregorian (c : TodoCalendar) (day : ℚ → ℤ) (firstWeekday : ℤ) (now : ℚ) : Prop where
  now_eq : c.now = ⟨.finite now⟩
  dateByAddingDays : ∀ value, ∃ date, c.dateByAddingDays value c.now = some ⟨.finite date⟩ ∧
    day date = day now + value ∧ (date < now ↔ value < 0)
  isDateInToday : ∀ date, c.isDateInToday ⟨.finite date⟩ = true ↔ day date = day now
  isDateInTomorrow : ∀ date, c.isDateInTomorrow ⟨.finite date⟩ = true ↔ day date = day now + 1
  isInWeekOfNow : ∀ date, c.isInWeekOfNow ⟨.finite date⟩ = true ↔
    weekNumber firstWeekday (day date) = weekNumber firstWeekday (day now)

/-- The calendar of a time zone with a constant offset. -/
def gregorian (z : FixedTimeZone) (firstWeekday : ℤ) (now : ℚ) : TodoCalendar where
  now := ⟨.finite now⟩
  dateByAddingDays := (Calendar.gregorian z).dateByAddingDays
  isDateInToday date := match date.timeIntervalSince1970 with
    | .finite date => z.dayNumber date = z.dayNumber now
    | _ => false
  isDateInTomorrow date := match date.timeIntervalSince1970 with
    | .finite date => z.dayNumber date = z.dayNumber now + 1
    | _ => false
  isInWeekOfNow date := match date.timeIntervalSince1970 with
    | .finite date =>
      weekNumber firstWeekday (z.dayNumber date) = weekNumber firstWeekday (z.dayNumber now)
    | _ => false

theorem isGregorian_gregorian (z : FixedTimeZone) (firstWeekday : ℤ) (now : ℚ) :
    (gregorian z firstWeekday now).IsGregorian z.dayNumber firstWeekday now where
  now_eq := rfl
  dateByAddingDays value := by
    refine ⟨now + 86400 * value, rfl, ?_, ?_⟩
    · have hdays : z.localSeconds (now + 86400 * value) / 86400 =
          z.localSeconds now / 86400 + value := by
        unfold FixedTimeZone.localSeconds
        ring
      rw [FixedTimeZone.dayNumber, hdays, Int.floor_add_intCast]
      rfl
    · rw [add_lt_iff_neg_left, ← Int.cast_lt_zero (R := ℚ)]
      constructor
      · intro h
        linarith
      · intro h
        linarith
  isDateInToday _ := decide_eq_true_iff
  isDateInTomorrow _ := decide_eq_true_iff
  isInWeekOfNow _ := decide_eq_true_iff

/-! ## The round trip -/

section RoundTrip

variable {c : TodoCalendar} {day : ℚ → ℤ} {firstWeekday : ℤ} {now : ℚ}

theorem bucketForDueDate_now (h : c.IsGregorian day firstWeekday now) :
    c.bucketForDueDate (some c.now) = .today := by
  have htoday : c.isDateInToday c.now = true := by
    rw [h.now_eq, h.isDateInToday]
  exact if_pos htoday

/-- The bucket of a date that is a number of days from now. -/
theorem bucketForDueDate_dateByAddingDays (h : c.IsGregorian day firstWeekday now) (value : ℤ) :
    c.bucketForDueDate (some ((c.dateByAddingDays value c.now).getD c.now)) =
      if value = 0 then .today else if value = 1 then .tomorrow else if value < 0 then .overdue
      else if weekPosition firstWeekday (day now) + value ≤ 6 then .thisWeek else .later := by
  obtain ⟨date, hdate, hday, hbefore⟩ := h.dateByAddingDays value
  have htoday : c.isDateInToday ⟨.finite date⟩ = true ↔ value = 0 := by
    rw [h.isDateInToday, hday]
    omega
  have htomorrow : c.isDateInTomorrow ⟨.finite date⟩ = true ↔ value = 1 := by
    rw [h.isDateInTomorrow, hday]
    omega
  have hoverdue : (⟨.finite date⟩ : Date) < c.now ↔ value < 0 := by
    rw [h.now_eq, ← hbefore]
    exact decide_eq_true_iff
  rw [hdate, Option.getD_some]
  unfold bucketForDueDate
  by_cases hneg : value < 0
  · simp only [htoday, htomorrow, hoverdue, hneg, if_true]
  · have hweek : c.isInWeekOfNow ⟨.finite date⟩ = true ↔
        weekPosition firstWeekday (day now) + value ≤ 6 := by
      rw [h.isInWeekOfNow, hday, weekNumber_add_eq_iff (not_lt.mp hneg)]
    simp only [htoday, htomorrow, hoverdue, hneg, hweek]

/-- The date of This Week is in Later when the week ends before it. -/
theorem bucketForDueDate_dueDateForBucket (h : c.IsGregorian day firstWeekday now)
    (bucket : TodoDateBucket) : c.bucketForDueDate (c.dueDateForBucket bucket) =
      if bucket = .thisWeek ∧ 3 < weekPosition firstWeekday (day now) then .later else bucket := by
  have hposition : 0 ≤ weekPosition firstWeekday (day now) :=
    Int.emod_nonneg _ (by decide)
  cases bucket with
  | overdue => exact bucketForDueDate_dateByAddingDays h (-1)
  | today => exact bucketForDueDate_now h
  | tomorrow => exact bucketForDueDate_dateByAddingDays h 1
  | thisWeek =>
    refine (bucketForDueDate_dateByAddingDays h 3).trans ?_
    by_cases hle : weekPosition firstWeekday (day now) ≤ 3
    · simp [hle.not_gt, show weekPosition firstWeekday (day now) + 3 ≤ 6 by omega]
    · simp [not_le.mp hle, show ¬weekPosition firstWeekday (day now) + 3 ≤ 6 by omega]
  | later =>
    refine (bucketForDueDate_dateByAddingDays h 14).trans ?_
    simp [show ¬weekPosition firstWeekday (day now) + 14 ≤ 6 by omega]
  | noDate => rfl

theorem mem_groupTasksByDateBucket {tasks : List Task} {bucket : TodoDateBucket} {t : Task} :
    t ∈ c.groupTasksByDateBucket tasks bucket ↔
      t ∈ tasks ∧ c.bucketForDueDate t.dueDate = bucket := by
  rw [groupTasksByDateBucket_eq, mem_shownTasks]
  by_cases heq : c.bucketForDueDate t.dueDate = bucket <;> simp [heq]

end RoundTrip

end TodoCalendar

open TodoCalendar

/-- The date of a bucket is classified as the bucket, and the task that is dropped on the bucket
appears in it, if and only if the week of now has three days left or the bucket is another one
than This Week. -/
theorem dueDateForBucket_roundTrips_iff {c : TodoCalendar} {day : ℚ → ℤ} {firstWeekday : ℤ}
    {now : ℚ} (h : c.IsGregorian day firstWeekday now) (bucket : TodoDateBucket) :
    (c.bucketForDueDate (c.dueDateForBucket bucket) = bucket ↔
      (bucket = .thisWeek → weekPosition firstWeekday (day now) ≤ 3)) ∧
    ∀ (s : LocalStore) (t : Task), DistinctIds s.tasks → t ∈ s.tasks →
      ∀ (sourceGroupId : String) (beforeTaskId : Option String) (showingDone : Bool),
        ∃ s' t', TodoDateModeView.applyDateDrop c s ⟨t.id, sourceGroupId⟩ bucket beforeTaskId
            showingDone = some s' ∧
          (∀ u, u ∈ s'.tasks ∧ u.id = t.id ↔ u = t') ∧
          (t' ∈ c.groupTasksByDateBucket s'.tasks bucket ↔
            (bucket = .thisWeek → weekPosition firstWeekday (day now) ≤ 3)) := by
  have hround : c.bucketForDueDate (c.dueDateForBucket bucket) = bucket ↔
      (bucket = .thisWeek → weekPosition firstWeekday (day now) ≤ 3) := by
    rw [bucketForDueDate_dueDateForBucket h]
    by_cases hlate : bucket = .thisWeek ∧ 3 < weekPosition firstWeekday (day now)
    · obtain ⟨rfl, hlate⟩ := hlate
      simp [hlate, hlate.not_ge]
    · rw [if_neg hlate, eq_self_iff_true, true_iff]
      exact fun hbucket => not_lt.mp fun hlt => hlate ⟨hbucket, hlt⟩
  refine ⟨hround, fun s t hd ht sourceGroupId beforeTaskId showingDone => ?_⟩
  obtain ⟨s', key, hs', honly⟩ := LocalStore.exists_droppedTask hd ht
    (TodoDateModeView.dropUpdate (c.dueDateForBucket bucket)) c.now
    (List.filter_sublist.trans List.filter_sublist) beforeTaskId
  refine ⟨s', _, hs', honly, ?_⟩
  rw [mem_groupTasksByDateBucket, and_iff_right ((honly _).mpr rfl).1, ← hround]
  rfl

/-- On a Thursday the week that begins on a Monday has three days left. -/
theorem dueDateForBucket_roundTrips_thursday :
    ((gregorian .gmt 2 0).bucketForDueDate ((gregorian .gmt 2 0).dueDateForBucket .thisWeek) =
        .thisWeek ↔
      (TodoDateBucket.thisWeek = .thisWeek → weekPosition 2 (FixedTimeZone.gmt.dayNumber 0) ≤ 3)) ∧
    ∃ s' t', TodoDateModeView.applyDateDrop (gregorian .gmt 2 0) twoTasks ⟨"b", "today"⟩ .thisWeek
        none false = some s' ∧
      (∀ u, u ∈ s'.tasks ∧ u.id = "b" ↔ u = t') ∧
      (t' ∈ (gregorian .gmt 2 0).groupTasksByDateBucket s'.tasks .thisWeek ↔
        (TodoDateBucket.thisWeek = .thisWeek →
          weekPosition 2 (FixedTimeZone.gmt.dayNumber 0) ≤ 3)) := by
  obtain ⟨hround, hdrop⟩ := dueDateForBucket_roundTrips_iff (isGregorian_gregorian .gmt 2 0)
    .thisWeek
  exact ⟨hround, hdrop twoTasks (openTask "b" 1) (by decide) (by decide) "today" none false⟩

/-- On a Friday the week that begins on a Sunday has one day left. -/
theorem not_dueDateForBucket_roundTrips_friday :
    ¬ ∀ (c : TodoCalendar) (day : ℚ → ℤ) (firstWeekday : ℤ) (now : ℚ),
      c.IsGregorian day firstWeekday now →
        ∀ bucket, c.bucketForDueDate (c.dueDateForBucket bucket) = bucket := by
  intro h
  have hweek := h (gregorian .gmt 1 86400) _ 1 86400 (isGregorian_gregorian .gmt 1 86400) .thisWeek
  rw [bucketForDueDate_dueDateForBucket (isGregorian_gregorian .gmt 1 86400)] at hweek
  have hday : FixedTimeZone.gmt.dayNumber 86400 = 1 := by decide +kernel
  rw [hday, if_pos ⟨rfl, by decide⟩] at hweek
  exact absurd hweek nofun

end Notelayer
