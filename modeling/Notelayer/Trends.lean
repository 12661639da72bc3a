import Mathlib.Algebra.BigOperators.Ring.Finset
import Mathlib.Data.Set.List
import Notelayer.Library.Days
import Notelayer.OldestTasks
import Notelayer.Rankings

/-!
# The trends

A trend is meant to have a point for every day of a range, with the tasks created and completed on
it. The code counts the tasks by the starts of their days, but finds the days by adding one day
after the other to the start of the first. Adding days keeps the time of day, and the start of a
day is not at midnight where clocks go forward at that time : the days after it are missed, as is
the first day of the window if today is such a day. So a trend is right exactly if adding a day to
the start of each of its days gives the start of the next (`trendsFollow_iff`).
-/

namespace Notelayer

open Days Sorting

/-! ## Local time -/

/-- The date of a finite number of seconds. -/
abbrev Date.instant (p : ℚ) : Date :=
  ⟨.finite p⟩

/-- What day it is at a place, and what time of the day. -/
structure LocalTime extends Days ℚ where
  timeOfDay : ℚ → ℚ

namespace LocalTime

variable (t : LocalTime)

/-- What a clock shows : the day and the time. -/
def reading (p : ℚ) : ℤ ×ₗ ℚ :=
  toLex (t.day p, t.timeOfDay p)

/-- An instant with the reading or, if there is none, the end of the gap that the reading is in. -/
def MovesTo (reading : ℤ ×ₗ ℚ) (q : ℚ) : Prop :=
  t.reading q = reading ∨
    (∀ r, t.reading r ≠ reading) ∧ reading < t.reading q ∧ ∀ r < q, t.reading r < reading

/-- The date lies on the day. -/
def IsOn (day : ℤ) (date : Date) : Bool :=
  match date.timeIntervalSince1970 with
  | .finite p => t.day p = day
  | _ => false

variable {t}

theorem MovesTo.le_day {day : ℤ} {time q : ℚ} (h : t.MovesTo (toLex (day, time)) q) :
    day ≤ t.day q := by
  rcases h with h | ⟨-, h, -⟩
  · exact (congrArg (fun reading => (ofLex reading).1) h).ge
  · rcases Prod.Lex.toLex_lt_toLex.mp h with hlt | heq
    · exact hlt.le
    · exact heq.1.le

/-- It is not later than any instant of a later day. -/
theorem MovesTo.le_of_day_lt {day : ℤ} {time q r : ℚ} (h : t.MovesTo (toLex (day, time)) q)
    (hr : day < t.day r) : q ≤ r := by
  rcases h with h | ⟨-, -, hbefore⟩
  · have hday : t.day q = day := congrArg (fun reading => (ofLex reading).1) h
    exact (Days.lt_of_day_lt (hday.trans_lt hr)).le
  · refine le_of_not_gt fun hlt => ?_
    rcases Prod.Lex.toLex_lt_toLex.mp (hbefore r hlt) with hday | ⟨heq, -⟩
    · exact hr.asymm hday
    · exact hr.ne' heq

end LocalTime

/-- The calendar follows a local time : adding days keeps the time of day, or moves on to the end
of a gap. -/
structure Calendar.IsLocal (calendar : Calendar) (t : LocalTime) : Prop where
  startOfDay : ∀ p, calendar.startOfDay (.instant p) = .instant (t.start p)
  dateByAddingDays : ∀ n p, ∃ q, calendar.dateByAddingDays n (.instant p) = some (.instant q) ∧
    t.MovesTo (toLex (t.day p + n, t.timeOfDay p)) q

namespace InsightsAggregator

variable {calendar : Calendar} {t : LocalTime}

/-! ## The days of a trend -/

/-- A day after an instant. -/
def dayAfter (calendar : Calendar) (p : ℚ) : Option ℚ :=
  match calendar.dateByAddingDays 1 (.instant p) with
  | some ⟨.finite q⟩ => some q
  | _ => none

theorem exists_dayAfter (h : calendar.IsLocal t) (p : ℚ) :
    ∃ q, dayAfter calendar p = some q ∧ t.day p < t.day q := by
  obtain ⟨q, hq, hmoves⟩ := h.dateByAddingDays 1 p
  refine ⟨q, by simp [dayAfter, hq], ?_⟩
  have hle := hmoves.le_day
  omega

/-- The loop is a walk. -/
theorem isWalk_of_datesUntil (h : calendar.IsLocal t) {e : ℚ} {fuel : ℕ} {p : ℚ}
    {dates : List Date} (hdates : datesUntil calendar (.instant e) fuel (.instant p) = some dates) :
    ∃ l, dates = l.map Date.instant ∧ IsWalk (dayAfter calendar) e p l := by
  induction fuel generalizing p dates with
  | zero => simp [datesUntil] at hdates
  | succ fuel ih =>
    obtain ⟨q, hq, -⟩ := h.dateByAddingDays 1 p
    rw [datesUntil] at hdates
    by_cases hle : p ≤ e
    · rw [if_pos ((Date.atMost_finite p e).mpr hle)] at hdates
      simp only [hq] at hdates
      obtain ⟨rest, hrest, rfl⟩ := Option.map_eq_some_iff.mp hdates
      obtain ⟨l, rfl, hwalk⟩ := ih hrest
      exact ⟨p :: l, rfl, .next hle (by simp [dayAfter, hq]) hwalk⟩
    · rw [if_neg fun hatMost => hle ((Date.atMost_finite p e).mp hatMost)] at hdates
      obtain rfl := Option.some.inj hdates
      exact ⟨[], rfl, .stop hle⟩

/-- The loop takes no more steps than there are days. -/
theorem exists_datesUntil_of_isLocal (h : calendar.IsLocal t) {e : ℚ} (fuel : ℕ) {p : ℚ}
    (hp : t.day e - t.day p < fuel) :
    ∃ dates, datesUntil calendar (.instant e) (fuel + 1) (.instant p) = some dates := by
  induction fuel generalizing p with
  | zero =>
    refine exists_datesUntil_succ fun next hle _ => ?_
    have hday := t.day_mono ((Date.atMost_finite p e).mp hle)
    omega
  | succ fuel ih =>
    refine exists_datesUntil_succ fun next _ hnext => ?_
    obtain ⟨q, hq, hmoves⟩ := h.dateByAddingDays 1 p
    obtain rfl := Option.some.inj (hq.symm.trans hnext)
    have hle := hmoves.le_day
    refine ih ?_
    push_cast at hp
    omega

/-! ## The trend that is meant -/

/-- The tasks created on a day. -/
def createdOn (t : LocalTime) (tasks : List Task) (day : ℤ) : ℕ :=
  tasks.countP fun task => t.IsOn day task.createdAt

/-- The tasks completed on a day. -/
def completedOn (t : LocalTime) (tasks : List Task) (day : ℤ) : ℕ :=
  tasks.countP fun task => task.completedAt.any (t.IsOn day)

/-- The points are those of the days from `first` to `last`, in order, with the numbers of tasks
created and completed on them. -/
structure IsTrend (t : LocalTime) (tasks : List Task) (first last : ℤ)
    (points : List InsightsDailyTrendPoint) : Prop where
  sorted : (points.map InsightsDailyTrendPoint.date).Pairwise fun d e => d < e
  mem_iff : ∀ date, date ∈ points.map InsightsDailyTrendPoint.date ↔
    ∃ s, date = .instant s ∧ t.IsStart s ∧ first ≤ t.day s ∧ t.day s ≤ last
  counts : ∀ point ∈ points, ∀ s, point.date = .instant s →
    point.added = createdOn t tasks (t.day s) ∧ point.completed = completedOn t tasks (t.day s)

/-- Adding a day to the start of a day before the last one gives the start of the next day. -/
def StartsMeet (calendar : Calendar) (t : LocalTime) (first last : ℤ) : Prop :=
  ∀ s, t.IsStart s → first ≤ t.day s → t.day s < last →
    ∃ s', dayAfter calendar s = some s' ∧ t.IsNext s s'

/-- Then no day before the last one begins at a later time than the next one does. -/
theorem StartsMeet.timeOfDay_le (h : calendar.IsLocal t) {first last : ℤ}
    (hmeet : StartsMeet calendar t first last) {s s' : ℚ} (hs : t.IsStart s)
    (hfirst : first ≤ t.day s) (hlast : t.day s < last) (hnext : t.IsNext s s')
    (hday : t.day s' = t.day s + 1) : t.timeOfDay s ≤ t.timeOfDay s' := by
  obtain ⟨q, hq, hmoves⟩ := h.dateByAddingDays 1 s
  obtain ⟨r, hr, hnext'⟩ := hmeet s hs hfirst hlast
  obtain rfl : q = r := by simpa [dayAfter, hq] using hr
  obtain rfl : s' = q := hnext.unique hnext'
  rcases hmoves with heq | ⟨-, hlt, -⟩
  · exact (congrArg (fun reading => (ofLex reading).2) heq).ge
  · rcases Prod.Lex.toLex_lt_toLex.mp hlt with hlt | ⟨-, hlt⟩
    · exact absurd hday hlt.ne'
    · exact hlt.le

/-- The instant is on the first day that is not before a number. -/
def IsOnFirst (t : LocalTime) (first : ℤ) (p : ℚ) : Prop :=
  first ≤ t.day p ∧ ∀ r, first ≤ t.day r → t.day p ≤ t.day r

/-- The dates of the tasks are instants up to `n`. -/
def DatesUpTo (tasks : List Task) (n : ℚ) : Prop :=
  ∀ task ∈ tasks, ∀ date ∈ taskDates task, ∃ p ≤ n, date = .instant p

theorem countDay_apply (startDate endDate : Date) (calendar : Calendar) (counts : Date → ℤ)
    (date day : Date) : countDay startDate endDate calendar counts date day = counts day +
      if (startDate.atMost (calendar.startOfDay date) &&
          (calendar.startOfDay date).atMost endDate) ∧
        day = calendar.startOfDay date then 1 else 0 := by
  unfold countDay
  by_cases hin : startDate.atMost (calendar.startOfDay date) &&
      (calendar.startOfDay date).atMost endDate
  · simp only [hin, if_true, addCount_apply, true_and]
  · simp [hin]

/-- On the start of a day the dates of that day are counted, unless it is before the first date. -/
theorem countDay_fold (h : calendar.IsLocal t) {a e s : ℚ} (hs : t.IsStart s) (hse : s ≤ e)
    {tasks : List Task} {dateOf : Task → Option Date} {f : (Date → ℤ) → Task → Date → ℤ}
    (hf : ∀ counts task, f counts task = (dateOf task).elim counts
      (countDay (.instant a) (.instant e) calendar counts))
    (hdates : ∀ task ∈ tasks, ∀ date ∈ dateOf task, ∃ p, date = .instant p) :
    tasks.foldl f (fun _ => 0) (.instant s) =
      if a ≤ s then (tasks.countP fun task => (dateOf task).any (t.IsOn (t.day s)) : ℤ) else 0 := by
  have hstep : ∀ (counts : Date → ℤ) (task : Task) (day : Date),
      f counts task day = counts day + (dateOf task).elim 0 fun date =>
          if ((Date.instant a).atMost (calendar.startOfDay date) &&
              (calendar.startOfDay date).atMost (.instant e)) ∧
            day = calendar.startOfDay date then 1 else 0 := by
    intro counts task day
    rw [hf]
    cases dateOf task with
    | none => simp
    | some date => exact countDay_apply _ _ _ _ _ _
  have hmember : ∀ task ∈ tasks, ((dateOf task).elim (0 : ℤ) fun date =>
      if ((Date.instant a).atMost (calendar.startOfDay date) &&
          (calendar.startOfDay date).atMost (.instant e)) ∧
        Date.instant s = calendar.startOfDay date then 1 else 0) =
      if a ≤ s ∧ (dateOf task).any (t.IsOn (t.day s)) then 1 else 0 := by
    intro task htask
    cases hdate : dateOf task with
    | none => simp
    | some date =>
      obtain ⟨p, rfl⟩ := hdates task htask date hdate
      refine if_congr ?_ rfl rfl
      rw [h.startOfDay, Bool.and_eq_true, Date.atMost_finite, Date.atMost_finite]
      have hday : Date.instant s = .instant (t.start p) ↔ t.day p = t.day s := by
        rw [← start_eq_iff, hs, eq_comm]
        simp
      have hon : (some (Date.instant p)).any (t.IsOn (t.day s)) ↔ t.day p = t.day s := by
        simp [LocalTime.IsOn]
      rw [hday, hon]
      constructor
      · rintro ⟨⟨ha, -⟩, heq⟩
        rw [← start_eq_iff, hs] at heq
        exact ⟨heq ▸ ha, by rw [← start_eq_iff, hs, heq]⟩
      · rintro ⟨ha, heq⟩
        refine ⟨?_, heq⟩
        rw [← start_eq_iff, hs] at heq
        rw [heq]
        exact ⟨ha, hse⟩
  rw [Tally.foldl_apply hstep, zero_add, List.map_congr_left hmember, Tally.sum_map_ite_one]
  by_cases ha : a ≤ s
  · simp [ha]
  · simp [ha]

/-- Where the points of a computed trend come from. -/
theorem buildTaskTrend_spec (h : calendar.IsLocal t) {a n : ℚ} (ha : a ≤ t.start n)
    {tasks : List Task} (htasks : DatesUpTo tasks n) {fuel : ℕ}
    {points : List InsightsDailyTrendPoint}
    (hpoints : buildTaskTrend fuel tasks (.instant a) (.instant (t.start n)) calendar =
      some points) :
    ∃ l, IsWalk (dayAfter calendar) (t.start n) (t.start a) l ∧
      points.map InsightsDailyTrendPoint.date = l.map Date.instant ∧
      ∀ point ∈ points, ∀ s, point.date = .instant s → t.IsStart s → s ≤ t.start n →
        point.added = (if a ≤ s then createdOn t tasks (t.day s) else 0 : ℕ) ∧
          point.completed = (if a ≤ s then completedOn t tasks (t.day s) else 0 : ℕ) := by
  have hstart := isStart_start (d := t.toDays) n
  obtain ⟨dates, hdates, rfl⟩ := Option.map_eq_some_iff.mp hpoints
  rw [dateRange, if_pos ((Date.atMost_finite _ _).mpr ha), h.startOfDay, h.startOfDay, hstart]
    at hdates
  obtain ⟨l, rfl, hwalk⟩ := isWalk_of_datesUntil h hdates
  refine ⟨l, hwalk, by simp, fun point hpoint s hdate hs hse => ?_⟩
  obtain ⟨day, -, rfl⟩ := List.mem_map.mp hpoint
  obtain rfl : day = .instant s := hdate
  have hcounted : ∀ (dateOf : Task → Option Date) {f : (Date → ℤ) → Task → Date → ℤ},
      (∀ counts task, f counts task = (dateOf task).elim counts
        (countDay (.instant a) (.instant (t.start n)) calendar counts)) →
      (∀ task, ∀ date ∈ dateOf task, date ∈ taskDates task) →
      tasks.foldl f (fun _ => 0) (.instant s) = (if a ≤ s then
        tasks.countP fun task => (dateOf task).any (t.IsOn (t.day s)) else 0 : ℕ) := by
    intro dateOf f hf hdateOf
    rw [countDay_fold h hs hse hf fun task htask date hdate => ?_]
    · push_cast
      rfl
    · obtain ⟨p, -, hp⟩ := htasks task htask date (hdateOf task date hdate)
      exact ⟨p, hp⟩
  refine ⟨?_, ?_⟩
  · exact hcounted (fun task => some task.createdAt) (fun _ _ => rfl)
      fun task date hdate => List.mem_cons.mpr (Or.inl (Option.mem_some.mp hdate).symm)
  · refine hcounted Task.completedAt (fun counts task => ?_)
      fun task date hdate => List.mem_cons_of_mem _ (Option.mem_toList.mpr hdate)
    cases task.completedAt <;> rfl

/-- The starts of the days from the first one to the last. -/
theorem lists_iff_of_isOnFirst {first : ℤ} {a n : ℚ} (hfirst : IsOnFirst t first a) (l : List ℚ) :
    t.Lists (t.start a) (t.start n) l ↔ l.Pairwise (· < ·) ∧
      ∀ r, r ∈ l ↔ t.IsStart r ∧ first ≤ t.day r ∧ t.day r ≤ t.day n := by
  have hrange : ∀ r, t.IsStart r → (t.start a ≤ r ∧ r ≤ t.start n ↔
      first ≤ t.day r ∧ t.day r ≤ t.day n) := by
    intro r hr
    rw [(isStart_start a).le_iff, t.day_start, hr.le_iff, t.day_start]
    exact and_congr ⟨hfirst.1.trans, hfirst.2 r⟩ Iff.rfl
  refine and_congr Iff.rfl (forall_congr' fun r => iff_congr Iff.rfl ?_)
  exact and_congr_right (hrange r)

/-- Nothing is counted on a day if and only if no date lies on it. -/
theorem countsOn_eq_zero_iff {tasks : List Task} {day : ℤ} :
    createdOn t tasks day = 0 ∧ completedOn t tasks day = 0 ↔
      ∀ task ∈ tasks, ∀ date ∈ taskDates task, ¬t.IsOn day date := by
  unfold createdOn completedOn
  rw [List.countP_eq_zero, List.countP_eq_zero]
  constructor
  · rintro ⟨hcreated, hcompleted⟩ task htask date hdate hon
    rcases List.mem_cons.mp hdate with rfl | hdate
    · exact hcreated task htask hon
    · exact hcompleted task htask ((Option.any_eq_true _ _).mpr
        ⟨date, Option.mem_toList.mp hdate, hon⟩)
  · intro h
    refine ⟨fun task htask => h task htask _ List.mem_cons_self, fun task htask hany => ?_⟩
    obtain ⟨date, hdate, hon⟩ := (Option.any_eq_true _ _).mp hany
    exact h task htask date (List.mem_cons_of_mem _ (Option.mem_toList.mpr hdate)) hon

/-- A trend that begins at an instant is right exactly if this is on the first day, the starts of
the days meet and, if it is not the start of its day, no task belongs there. -/
theorem isTrend_iff (h : calendar.IsLocal t) {a n : ℚ} (ha : a ≤ t.start n) (first : ℤ)
    {tasks : List Task} (htasks : DatesUpTo tasks n) {fuel : ℕ}
    {points : List InsightsDailyTrendPoint}
    (hpoints : buildTaskTrend fuel tasks (.instant a) (.instant (t.start n)) calendar =
      some points) :
    IsTrend t tasks first (t.day n) points ↔
      IsOnFirst t first a ∧ StartsMeet calendar t first (t.day n) ∧
        (t.IsStart a ∨ ∀ task ∈ tasks, ∀ date ∈ taskDates task, ¬t.IsOn (t.day a) date) := by
  obtain ⟨l, hwalk, hdates, hcounts⟩ := buildTaskTrend_spec h ha htasks hpoints
  have hstart := isStart_start (d := t.toDays) a
  have hstartle : t.start a ≤ t.start n := (start_le_self a).trans ha
  have hlast := isStart_start (d := t.toDays) n
  have hlists := hwalk.lists_iff (d := t.toDays) (exists_dayAfter h) hstart hlast hstartle
  have hmeet : IsOnFirst t first a → (t.Lists (t.start a) (t.start n) l ↔
      StartsMeet calendar t first (t.day n)) := by
    intro hfirst
    rw [hlists]
    refine forall_congr' fun r => imp_congr_right fun hr => ?_
    have hle : t.start a ≤ r ↔ first ≤ t.day r := by
      rw [hstart.le_iff, t.day_start]
      exact ⟨hfirst.1.trans, hfirst.2 r⟩
    have hlt : r < t.start n ↔ t.day r < t.day n := by
      rw [← not_le, hlast.le_iff, t.day_start, not_le]
    rw [hle, hlt]
  -- without its start the first day has points without counts
  have hzero : ∀ {k : ℕ}, ¬t.IsStart a → (if a ≤ t.start a then k else 0) = 0 := fun hnot =>
    if_neg fun hle => hnot (le_antisymm (start_le_self a) hle)
  constructor
  · rintro ⟨hsorted, hmem, htrend⟩
    rw [hdates] at hsorted hmem
    have hmem' : ∀ r, r ∈ l ↔ t.IsStart r ∧ first ≤ t.day r ∧ t.day r ≤ t.day n := by
      intro r
      have hr := hmem (.instant r)
      simpa using hr
    have hsorted' : l.Pairwise (· < ·) := (List.pairwise_map.mp hsorted).imp fun h => by
      simpa using (decide_eq_true_iff.mp h)
    obtain ⟨m, rfl⟩ := hwalk.exists_cons hstartle
    have hhead := ((hmem' (t.start a)).mp List.mem_cons_self).2
    rw [t.day_start] at hhead
    have hfirst : IsOnFirst t first a := by
      refine ⟨hhead.1, fun r hr => ?_⟩
      rcases le_or_gt (t.day r) (t.day n) with hle | hlt
      · have hr' := (hmem' (t.start r)).mpr
          ⟨isStart_start r, by rwa [t.day_start], by rwa [t.day_start]⟩
        have hle' : t.start a ≤ t.start r := (List.mem_cons.mp hr').elim (fun heq => heq.ge)
          fun hr' => ((List.pairwise_cons.mp hsorted').1 _ hr').le
        have hday := t.day_mono hle'
        rwa [t.day_start, t.day_start] at hday
      · exact hhead.2.trans hlt.le
    refine ⟨hfirst, (hmeet hfirst).mp ((lists_iff_of_isOnFirst hfirst _).mpr ⟨hsorted', hmem'⟩),
      or_iff_not_imp_left.mpr fun hnot => ?_⟩
    have hpoint : Date.instant (t.start a) ∈ points.map InsightsDailyTrendPoint.date := by
      rw [hdates]
      exact List.mem_map_of_mem List.mem_cons_self
    obtain ⟨point, hpoint, hdate⟩ := List.mem_map.mp hpoint
    have hcode := hcounts point hpoint _ hdate hstart hstartle
    have hmeant := htrend point hpoint _ hdate
    rw [hzero hnot, hzero hnot, hmeant.1, hmeant.2, t.day_start] at hcode
    exact countsOn_eq_zero_iff.mp (by exact_mod_cast hcode)
  · rintro ⟨hfirst, hstarts, hor⟩
    obtain ⟨hsorted, hmem⟩ := (lists_iff_of_isOnFirst hfirst l).mp ((hmeet hfirst).mpr hstarts)
    have hmem' : ∀ date, date ∈ points.map InsightsDailyTrendPoint.date ↔
        ∃ s, date = .instant s ∧ t.IsStart s ∧ first ≤ t.day s ∧ t.day s ≤ t.day n := by
      intro date
      rw [hdates, List.mem_map]
      simp only [hmem]
      constructor <;> rintro ⟨r, hr⟩
      · exact ⟨r, hr.2.symm, hr.1⟩
      · exact ⟨r, hr.2, hr.1.symm⟩
    refine ⟨?_, hmem', fun point hpoint s hdate => ?_⟩
    · rw [hdates]
      exact List.pairwise_map.mpr (hsorted.imp fun h => decide_eq_true h)
    · obtain ⟨_, heq, hs, hday⟩ := (hmem' point.date).mp (List.mem_map_of_mem hpoint)
      rw [hdate] at heq
      simp only [Date.mk.injEq, TimeInterval.finite.injEq] at heq
      subst heq
      have hse : s ≤ t.start n := hs.le_iff.mpr (by rw [t.day_start]; exact hday.2)
      obtain ⟨hcreated, hcompleted⟩ := hcounts point hpoint s hdate hs hse
      rw [hcreated, hcompleted]
      by_cases has : a ≤ s
      · rw [if_pos has, if_pos has]
        exact ⟨rfl, rfl⟩
      · -- the first day, which the code begins too late
        rw [if_neg has, if_neg has]
        have hle : t.start a ≤ s := hstart.le_iff.mpr (by rw [t.day_start]; exact hfirst.2 s hday.1)
        have heq : t.day s = t.day a := le_antisymm (t.day_mono (not_le.mp has).le)
          (hfirst.2 s hday.1)
        have hnone := hor.resolve_left fun hstart' => has (hstart' ▸ hle)
        obtain ⟨hzero₁, hzero₂⟩ := countsOn_eq_zero_iff.mpr (heq ▸ hnone)
        rw [hzero₁, hzero₂]
        exact ⟨rfl, rfl⟩

/-! ## The sums of a trend -/

/-- On the days of a trend every instant of them is counted once. -/
theorem exists_days_of_isTrend {tasks : List Task} {first last : ℤ}
    {points : List InsightsDailyTrendPoint} (h : IsTrend t tasks first last points) :
    ∃ l : List ℚ,
      points.map InsightsDailyTrendPoint.added =
        l.map (fun s => (createdOn t tasks (t.day s) : ℤ)) ∧
      points.map InsightsDailyTrendPoint.completed =
        l.map (fun s => (completedOn t tasks (t.day s) : ℤ)) ∧
      ∀ p, first ≤ t.day p → t.day p ≤ last → l.countP (fun s => t.day s = t.day p) = 1 := by
  obtain ⟨hsorted, hmem, hcounts⟩ := h
  obtain ⟨l, hl⟩ : ∃ l : List ℚ, points.map InsightsDailyTrendPoint.date = l.map Date.instant := by
    have hrange : points.map InsightsDailyTrendPoint.date ∈ Set.range (List.map Date.instant) := by
      rw [Set.range_list_map]
      intro date hdate
      obtain ⟨s, hs, -⟩ := (hmem date).mp hdate
      exact ⟨s, hs.symm⟩
    exact hrange.imp fun _ h => h.symm
  rw [hl] at hsorted
  have hsorted' : l.Pairwise (· < ·) := (List.pairwise_map.mp hsorted).imp fun h => by
    simpa using (decide_eq_true_iff.mp h)
  have hmem' : ∀ s, s ∈ l ↔ t.IsStart s ∧ first ≤ t.day s ∧ t.day s ≤ last := by
    intro s
    have hs := hmem (.instant s)
    rw [hl] at hs
    simpa using hs
  have hread : ∀ {f : InsightsDailyTrendPoint → ℤ} {g : ℚ → ℤ},
      (∀ point ∈ points, ∀ s, point.date = .instant s → f point = g s) →
      points.map f = l.map g := by
    intro f g hfg
    clear hcounts hmem hmem' hsorted hsorted'
    induction points generalizing l with
    | nil =>
      obtain rfl : l = [] := List.map_eq_nil_iff.mp hl.symm
      rfl
    | cons point points ih =>
      cases l with
      | nil => exact absurd hl (by simp)
      | cons s l =>
        obtain ⟨hdate, hrest⟩ := List.cons.inj hl
        rw [List.map_cons, List.map_cons, hfg point List.mem_cons_self s hdate,
          ih l hrest fun point hpoint => hfg point (List.mem_cons_of_mem _ hpoint)]
  refine ⟨l, hread fun point hpoint s hdate => (hcounts point hpoint s hdate).1,
    hread fun point hpoint s hdate => (hcounts point hpoint s hdate).2, fun p hfirst hlast => ?_⟩
  refine countP_day_eq_one hsorted' (fun r hr => ((hmem' r).mp hr).1) ((hmem' _).mpr ?_)
  exact ⟨isStart_start p, by rwa [t.day_start], by rwa [t.day_start]⟩

/-- The points add up to the tasks, if all dates are on their days. -/
theorem sum_of_isTrend {tasks : List Task} {first last : ℤ}
    {points : List InsightsDailyTrendPoint} (h : IsTrend t tasks first last points)
    (htasks : ∀ task ∈ tasks, ∀ date ∈ taskDates task,
      ∃ p, date = .instant p ∧ first ≤ t.day p ∧ t.day p ≤ last) :
    (points.map InsightsDailyTrendPoint.added).sum = tasks.length ∧
      (points.map InsightsDailyTrendPoint.completed).sum =
        (tasks.filter fun task => task.completedAt ≠ none).length := by
  obtain ⟨l, hadded, hcompleted, honce⟩ := exists_days_of_isTrend h
  have hcount : ∀ task ∈ tasks, ∀ date ∈ taskDates task,
      l.countP (fun s => t.IsOn (t.day s) date) = 1 := by
    intro task htask date hdate
    obtain ⟨p, rfl, hfirst, hlast⟩ := htasks task htask date hdate
    rw [← honce p hfirst hlast]
    refine List.countP_congr fun s _ => ?_
    simp [LocalTime.IsOn, eq_comm]
  have hcast : ∀ f : ℚ → ℕ, (l.map fun s => (f s : ℤ)).sum = ((l.map f).sum : ℕ) := by
    intro f
    rw [Nat.cast_list_sum, List.map_map]
    rfl
  rw [hadded, hcompleted, hcast, hcast]
  unfold createdOn completedOn
  constructor
  · rw [Tally.sum_map_countP_comm,
      List.map_congr_left fun task htask => hcount task htask _ List.mem_cons_self]
    simp
  · have hone : ∀ task ∈ tasks, (l.countP fun s => task.completedAt.any (t.IsOn (t.day s))) =
        if task.completedAt ≠ none then 1 else 0 := by
      intro task htask
      cases hcompleted : task.completedAt with
      | none => simp
      | some completedAt =>
        have hdate : completedAt ∈ taskDates task := by simp [taskDates, hcompleted]
        rw [if_pos (by simp), ← hcount task htask completedAt hdate]
        rfl
    rw [Tally.sum_map_countP_comm, List.map_congr_left hone, Tally.sum_map_ite_one,
      List.countP_eq_length_filter]
    rfl

/-! ## The two trends -/

/-- The first day of the tasks, which is today at the latest. -/
def firstTaskDay (t : LocalTime) (tasks : List Task) (today : ℤ) : ℤ :=
  (tasks.flatMap taskDates).foldr (fun date first => match date.timeIntervalSince1970 with
    | .finite p => min (t.day p) first
    | _ => first) today

/-- The first day is that of the earliest date, or today. -/
theorem firstTaskDay_spec (t : LocalTime) (tasks : List Task) (today : ℤ) :
    firstTaskDay t tasks today ≤ today ∧
      (∀ p, Date.instant p ∈ tasks.flatMap taskDates → firstTaskDay t tasks today ≤ t.day p) ∧
      (firstTaskDay t tasks today = today ∨
        ∃ p, Date.instant p ∈ tasks.flatMap taskDates ∧ firstTaskDay t tasks today = t.day p) := by
  unfold firstTaskDay
  induction tasks.flatMap taskDates with
  | nil => simp
  | cons date dates ih =>
    obtain ⟨hle, hall, hor⟩ := ih
    obtain ⟨seconds⟩ := date
    cases seconds with
    | finite q =>
      refine ⟨(min_le_right _ _).trans hle, fun p hp => ?_, ?_⟩
      · rcases List.mem_cons.mp hp with heq | hp
        · obtain rfl : p = q := by simpa using heq
          exact min_le_left _ _
        · exact (min_le_right _ _).trans (hall p hp)
      · rw [List.foldr_cons]
        rcases min_choice (t.day q) (dates.foldr (fun date first =>
          match date.timeIntervalSince1970 with
            | .finite p => min (t.day p) first
            | _ => first) today) with heq | heq
        · exact Or.inr ⟨q, List.mem_cons_self, heq⟩
        · refine hor.imp (fun h => heq.trans h) ?_
          rintro ⟨p, hp, h⟩
          exact ⟨p, List.mem_cons_of_mem _ hp, heq.trans h⟩
    | infinity | negInfinity | nan =>
      refine ⟨hle, fun p hp => hall p ((List.mem_cons.mp hp).resolve_left (by simp)), ?_⟩
      refine hor.imp id ?_
      rintro ⟨p, hp, h⟩
      exact ⟨p, List.mem_cons_of_mem _ hp, h⟩

theorem earliestTaskDay_eq (tasks : List Task) (fallback : Date) (calendar : Calendar) :
    earliestTaskDay tasks fallback calendar =
      (earliestDate (tasks.flatMap taskDates)).elim fallback calendar.startOfDay := by
  have hdates : earliestDate (tasks.flatMap fun task => task.createdAt :: task.completedAt.toList) =
      earliestDate (tasks.flatMap taskDates) := rfl
  unfold earliestTaskDay
  dsimp only
  rw [hdates]
  cases earliestDate (tasks.flatMap taskDates) <;> rfl

/-- The trend of all time begins at the start of the first day. -/
theorem earliestTaskDay_spec (h : calendar.IsLocal t) {n : ℚ} {tasks : List Task}
    (htasks : DatesUpTo tasks n) :
    ∃ a, earliestTaskDay tasks (.instant (t.start n)) calendar = .instant a ∧ t.IsStart a ∧
      a ≤ t.start n ∧ t.day a = firstTaskDay t tasks (t.day n) := by
  obtain ⟨hle, hall, hor⟩ := firstTaskDay_spec t tasks (t.day n)
  have hcandidates : ∀ date ∈ tasks.flatMap taskDates, ∃ p ≤ n, date = .instant p := by
    intro date hdate
    obtain ⟨task, htask, hdate⟩ := List.mem_flatMap.mp hdate
    exact htasks task htask date hdate
  rw [earliestTaskDay_eq]
  cases hearliest : earliestDate (tasks.flatMap taskDates) with
  | none =>
    have hnil := earliestDate_eq_none_iff.mp hearliest
    refine ⟨t.start n, rfl, isStart_start n, le_rfl, ?_⟩
    rw [t.day_start]
    refine (hor.resolve_right ?_).symm
    rintro ⟨p, hp, -⟩
    rw [hnil] at hp
    exact absurd hp List.not_mem_nil
  | some minDate =>
    obtain ⟨hmem, hleast⟩ := earliestDate_spec (fun date hdate => by
      obtain ⟨p, -, rfl⟩ := hcandidates date hdate
      exact TimeInterval.noConfusion) hearliest
    obtain ⟨m, hmn, rfl⟩ := hcandidates minDate hmem
    refine ⟨t.start m, h.startOfDay m, isStart_start m, ?_, ?_⟩
    · rw [(isStart_start m).le_iff, t.day_start, t.day_start]
      exact t.day_mono hmn
    · rw [t.day_start]
      refine le_antisymm ?_ (hall m hmem)
      rcases hor with heq | ⟨p, hp, heq⟩
      · rw [heq]
        exact t.day_mono hmn
      · rw [heq]
        exact t.day_mono ((Date.finite_rank_le_iff m p).mp (hleast _ hp))

/-- Both trends are right, and the trend of all time adds up to the totals. -/
structure TrendsFollow (t : LocalTime) (tasks : List Task) (today days : ℤ)
    (model : CompleteSnapshotModel) : Prop where
  trendWindow : IsTrend t (topLevelTasks tasks) (today - (days - 1)) today model.trendWindow
  trendAllTime : IsTrend t (topLevelTasks tasks) (firstTaskDay t (topLevelTasks tasks) today) today
    model.trendAllTime
  added : (model.trendAllTime.map InsightsDailyTrendPoint.added).sum = model.totals.all
  completed : (model.trendAllTime.map InsightsDailyTrendPoint.completed).sum = model.totals.done

/-- Going back from the start of today leads to the first day of the window, and to its start if a
task belongs to that day. -/
def WindowMeets (calendar : Calendar) (t : LocalTime) (tasks : List Task) (n : ℚ) (days : ℤ) :
    Prop :=
  ∃ q, calendar.dateByAddingDays (-(days - 1)) (.instant (t.start n)) = some (.instant q) ∧
    IsOnFirst t (t.day n - (days - 1)) q ∧
      (t.IsStart q ∨ ∀ task ∈ tasks, ∀ date ∈ taskDates task, ¬t.IsOn (t.day q) date)

section Snapshot

variable {n : ℚ} {tasks : List Task} {selectedWindow : InsightsWindow}

/-- The window begins at an instant up to the start of today. -/
theorem windowStart_spec (h : calendar.IsLocal t) (n : ℚ) (selectedWindow : InsightsWindow) :
    ∃ q, calendar.dateByAddingDays (-(selectedWindow.rawValue - 1)) (.instant (t.start n)) =
        some (.instant q) ∧
      windowStart selectedWindow (.instant n) calendar = .instant q ∧ q ≤ t.start n := by
  obtain ⟨q, hq, hmoves⟩ := h.dateByAddingDays (-(selectedWindow.rawValue - 1)) (t.start n)
  refine ⟨q, hq, ?_, hmoves.le_of_day_lt ?_⟩
  · unfold windowStart
    dsimp only
    rw [h.startOfDay, hq]
    rfl
  · cases selectedWindow <;> simp [InsightsWindow.rawValue]

/-- The trends are computed in finitely many steps. -/
theorem exists_trends (h : calendar.IsLocal t) (htasks : DatesUpTo (topLevelTasks tasks) n)
    (selectedWindow : InsightsWindow) :
    ∃ N, ∀ fuel, N ≤ fuel → ∃ trendWindow trendAllTime,
      buildTaskTrend fuel (topLevelTasks tasks)
          (windowStart selectedWindow (.instant n) calendar) (calendar.startOfDay (.instant n))
          calendar = some trendWindow ∧
        buildTaskTrend fuel (topLevelTasks tasks)
          (earliestTaskDay (topLevelTasks tasks) (calendar.startOfDay (.instant n)) calendar)
          (calendar.startOfDay (.instant n)) calendar = some trendAllTime := by
  have htrend : ∀ a, ∃ N, ∀ fuel, N ≤ fuel → ∃ points, buildTaskTrend fuel (topLevelTasks tasks)
      (.instant a) (.instant (t.start n)) calendar = some points := by
    intro a
    obtain ⟨dates, hdates⟩ := exists_datesUntil_of_isLocal h (e := t.start (t.start n))
      (p := t.start a) ((t.day n - t.day a).toNat + 1) (by simp only [t.day_start]; omega)
    refine ⟨(t.day n - t.day a).toNat + 1 + 1, fun fuel hfuel => ?_⟩
    unfold buildTaskTrend dateRange
    by_cases ha : (Date.instant a).atMost (.instant (t.start n))
    · rw [if_pos ha, h.startOfDay, h.startOfDay, datesUntil_of_le hfuel hdates]
      exact ⟨_, rfl⟩
    · rw [if_neg ha]
      exact ⟨_, rfl⟩
  obtain ⟨q, -, hstart, -⟩ := windowStart_spec h n selectedWindow
  obtain ⟨a, hearliest, -⟩ := earliestTaskDay_spec h htasks
  obtain ⟨N, hN⟩ := htrend q
  obtain ⟨N', hN'⟩ := htrend a
  refine ⟨max N N', fun fuel hfuel => ?_⟩
  obtain ⟨trendWindow, hwindow⟩ := hN fuel (le_of_max_le_left hfuel)
  obtain ⟨trendAllTime, hall⟩ := hN' fuel (le_of_max_le_right hfuel)
  rw [h.startOfDay, hstart, hearliest]
  exact ⟨trendWindow, trendAllTime, hwindow, hall⟩

end Snapshot

/-- The trends are right exactly if adding days leads from the start of a day to the start of the
next one on the days of both, and back to the start of the window. -/
theorem trendsFollow_iff {calendar : InsightsCalendar} (h : calendar.toCalendar.IsLocal t) {n : ℚ}
    {tasks : List Task} (htasks : DatesUpTo (topLevelTasks tasks) n)
    (selectedWindow : InsightsWindow) :
    (∃ N, ∀ fuel, N ≤ fuel → ∃ trendWindow trendAllTime,
      buildTaskTrend fuel (topLevelTasks tasks)
          (windowStart selectedWindow (.instant n) calendar.toCalendar)
          (calendar.startOfDay (.instant n)) calendar.toCalendar = some trendWindow ∧
        buildTaskTrend fuel (topLevelTasks tasks) (earliestTaskDay (topLevelTasks tasks)
          (calendar.startOfDay (.instant n)) calendar.toCalendar)
          (calendar.startOfDay (.instant n)) calendar.toCalendar = some trendAllTime) ∧
    ∀ sorter setOrder fuel categories telemetry current model,
      buildCompleteSnapshot sorter setOrder fuel tasks categories telemetry selectedWindow
        (.instant n) calendar current = some model →
      (TrendsFollow t tasks (t.day n) selectedWindow.rawValue model ↔
        WindowMeets calendar.toCalendar t (topLevelTasks tasks) n selectedWindow.rawValue ∧
        StartsMeet calendar.toCalendar t (t.day n - (selectedWindow.rawValue - 1)) (t.day n) ∧
        StartsMeet calendar.toCalendar t (firstTaskDay t (topLevelTasks tasks) (t.day n))
          (t.day n)) := by
  refine ⟨exists_trends h htasks selectedWindow, ?_⟩
  intro sorter setOrder fuel categories telemetry current model hmodel
  obtain ⟨records, hbuilt⟩ := isBuilt_of_buildCompleteSnapshot hmodel
  obtain ⟨q, hq, hstart, hqn⟩ := windowStart_spec h n selectedWindow
  obtain ⟨a, hearliest, ha, han, hday⟩ := earliestTaskDay_spec h htasks
  have hwindow := hbuilt.trendWindow
  have hall := hbuilt.trendAllTime
  rw [h.startOfDay, hstart] at hwindow
  rw [h.startOfDay, hearliest] at hall
  have hwindow_iff := isTrend_iff h hqn (t.day n - (selectedWindow.rawValue - 1)) htasks hwindow
  have hall_iff := isTrend_iff h han (firstTaskDay t (topLevelTasks tasks) (t.day n)) htasks hall
  constructor
  · rintro ⟨htrendWindow, htrendAllTime, -, -⟩
    obtain ⟨hfirst, hmeet, hor⟩ := hwindow_iff.mp htrendWindow
    exact ⟨⟨q, hq, hfirst, hor⟩, hmeet, (hall_iff.mp htrendAllTime).2.1⟩
  · rintro ⟨⟨q', hq', hfirst, hor⟩, hmeet, hmeet'⟩
    obtain rfl : q = q' := by simpa using hq.symm.trans hq'
    have htrend := hall_iff.mpr ⟨⟨hday.ge, fun r hr => hday ▸ hr⟩, hmeet', Or.inl ha⟩
    obtain ⟨hadded, hcompleted⟩ := sum_of_isTrend htrend fun task htask date hdate => by
      obtain ⟨p, hpn, rfl⟩ := htasks task htask date hdate
      refine ⟨p, rfl, ?_, t.day_mono hpn⟩
      exact (firstTaskDay_spec t _ _).2.1 p (List.mem_flatMap.mpr ⟨task, htask, hdate⟩)
    refine ⟨hwindow_iff.mpr ⟨hfirst, hmeet, hor⟩, htrend, ?_, ?_⟩
    · rw [hadded, hbuilt.totals]
    · rw [hcompleted, hbuilt.totals]

/-! ## A gap at midnight -/

/-- The clocks went from midnight to one o'clock at the beginning of 1970. -/
def gapSeconds (p : ℚ) : ℚ :=
  if p < 0 then p else p + 3600

/-- The instant of a local time, or the end of the gap. -/
def gapInstant (seconds : ℚ) : ℚ :=
  if seconds < 0 then seconds else if seconds < 3600 then 0 else seconds - 3600

theorem gapSeconds_strictMono : StrictMono gapSeconds := by
  intro p r h
  unfold gapSeconds
  split_ifs <;> linarith

theorem gapInstant_mono : Monotone gapInstant := by
  intro x y h
  unfold gapInstant
  split_ifs <;> linarith

theorem gapInstant_gapSeconds (p : ℚ) : gapInstant (gapSeconds p) = p := by
  unfold gapInstant gapSeconds
  split_ifs <;> linarith

theorem gapSeconds_gapInstant {x : ℚ} (h : x < 0 ∨ 3600 ≤ x) : gapSeconds (gapInstant x) = x := by
  unfold gapSeconds gapInstant
  split_ifs <;> first | linarith | exact absurd h (by simp only [not_or, not_lt, not_le]; grind)

theorem gapSeconds_notMem_gap (p : ℚ) : gapSeconds p < 0 ∨ 3600 ≤ gapSeconds p := by
  unfold gapSeconds
  split_ifs with h
  · exact Or.inl h
  · exact Or.inr (by linarith)

theorem floor_day_eq_iff {x : ℚ} {day : ℤ} :
    ⌊x / 86400⌋ = day ↔ 86400 * day ≤ x ∧ x < 86400 * (day + 1) := by
  rw [Int.floor_eq_iff, le_div_iff₀ (by norm_num), div_lt_iff₀ (by norm_num), mul_comm,
    mul_comm (86400 : ℚ) (day + 1)]

/-- The number of the day of an instant, by the clock with the gap. -/
def gapDay (p : ℚ) : ℤ :=
  ⌊gapSeconds p / 86400⌋

/-- The gap ends on the day on which it begins. -/
theorem gapDay_gapInstant (x : ℚ) : gapDay (gapInstant x) = ⌊x / 86400⌋ := by
  unfold gapDay
  by_cases h : x < 0 ∨ 3600 ≤ x
  · rw [gapSeconds_gapInstant h]
  · obtain ⟨h0, h1⟩ := not_or.mp h
    rw [not_lt] at h0
    rw [not_le] at h1
    have hx : gapInstant x = 0 := by
      unfold gapInstant
      rw [if_neg h0.not_gt, if_pos h1]
    have hday : ⌊x / 86400⌋ = 0 := floor_day_eq_iff.mpr (by constructor <;> push_cast <;> linarith)
    rw [hx, hday, floor_day_eq_iff]
    norm_num [gapSeconds]

/-- The local time of the place. -/
def gapTime : LocalTime where
  day := gapDay
  start p := gapInstant (86400 * gapDay p)
  day_mono p r h := Int.floor_mono (by
    have hle := gapSeconds_strictMono.monotone h
    linarith)
  day_start p := by
    rw [gapDay_gapInstant, floor_day_eq_iff]
    constructor <;> linarith
  start_le p r h := by
    rw [← gapInstant_gapSeconds r, ← h]
    exact gapInstant_mono (floor_day_eq_iff.mp rfl).1
  timeOfDay p := gapSeconds p - 86400 * gapDay p

/-- Its calendar. -/
def gapCalendar : InsightsCalendar where
  startOfDay date := match date.timeIntervalSince1970 with
    | .finite p => .instant (gapInstant (86400 * gapDay p))
    | _ => date
  dateByAddingDays value date := match date.timeIntervalSince1970 with
    | .finite p => some (.instant (gapInstant (gapSeconds p + 86400 * value)))
    | _ => none
  dateComponents date := match date.timeIntervalSince1970 with
    | .finite p => (Calendar.gregorian .gmt).dateComponents (.instant (gapSeconds p))
    | _ => none
  hour date := match date.timeIntervalSince1970 with
    | .finite p => (Calendar.gregorian .gmt).hour (.instant (gapSeconds p))
    | _ => 0
  date year month day := match (Calendar.gregorian .gmt).date year month day with
    | some ⟨.finite x⟩ => some (.instant (gapInstant x))
    | _ => none
  dateBySettingHour hour date := match date.timeIntervalSince1970 with
    | .finite p => if 0 ≤ hour ∧ hour < 24 then
        some (.instant (gapInstant (86400 * gapDay p + 3600 * hour)))
      else none
    | _ => none
  daysBetween d e := match d.timeIntervalSince1970, e.timeIntervalSince1970 with
    | .finite p, .finite q => some (Date.truncated ((gapSeconds q - gapSeconds p) / 86400))
    | _, _ => none

/-- The reading of a local time, whether the clocks show it or not. -/
def readingOf (x : ℚ) : ℤ ×ₗ ℚ :=
  toLex (⌊x / 86400⌋, x - 86400 * ⌊x / 86400⌋)

theorem readingOf_strictMono : StrictMono readingOf := by
  intro x y h
  have hfloor : ⌊x / 86400⌋ ≤ ⌊y / 86400⌋ := Int.floor_mono (by linarith)
  refine Prod.Lex.toLex_lt_toLex.mpr (hfloor.lt_or_eq.imp_right fun heq => ⟨heq, ?_⟩)
  have hcast : (⌊x / 86400⌋ : ℚ) = ⌊y / 86400⌋ := congrArg Int.cast heq
  change x - 86400 * ⌊x / 86400⌋ < y - 86400 * ⌊y / 86400⌋
  linarith

/-- The clock with the gap moves to its instants. -/
theorem movesTo_gapInstant (x : ℚ) : gapTime.MovesTo (readingOf x) (gapInstant x) := by
  have hreading : ∀ p, gapTime.reading p = readingOf (gapSeconds p) := fun _ => rfl
  unfold LocalTime.MovesTo
  simp only [hreading, readingOf_strictMono.injective.ne_iff, readingOf_strictMono.lt_iff_lt]
  by_cases h : x < 0 ∨ 3600 ≤ x
  · exact Or.inl (by rw [gapSeconds_gapInstant h])
  · -- the local time is in the gap, which ends at 0
    refine Or.inr ⟨fun r heq => h (heq ▸ gapSeconds_notMem_gap r), ?_, fun r hr => ?_⟩
    · unfold gapSeconds gapInstant
      grind
    · unfold gapSeconds gapInstant at *
      grind

/-- The calendar with the gap is local. -/
theorem isLocal_gapCalendar : gapCalendar.toCalendar.IsLocal gapTime := by
  refine ⟨fun _ => rfl, fun n p => ⟨_, rfl, ?_⟩⟩
  have hday : ⌊(gapSeconds p + 86400 * n) / 86400⌋ = gapDay p + n := by
    rw [add_div, mul_div_cancel_left₀ _ (by norm_num : (86400 : ℚ) ≠ 0), Int.floor_add_intCast]
    rfl
  have hreading : readingOf (gapSeconds p + 86400 * n) =
      toLex (gapTime.day p + n, gapTime.timeOfDay p) := by
    unfold readingOf
    rw [hday]
    refine congrArg (fun time => toLex (gapDay p + n, time)) ?_
    change _ = gapSeconds p - 86400 * gapDay p
    push_cast
    ring
  exact hreading ▸ movesTo_gapInstant _

/-- A day that begins before the gap is followed by the next one. -/
theorem startsMeet_gapTime (first : ℤ) : StartsMeet gapCalendar.toCalendar gapTime first 0 := by
  intro s hs _ hneg
  have hday : ((gapDay s + 1 : ℤ) : ℚ) ≤ 0 := by exact_mod_cast hneg
  push_cast at hday
  have hstart : 86400 * (gapDay s : ℚ) = s := by
    have hs' : gapInstant (86400 * gapDay s) = s := hs
    rwa [gapInstant, if_pos (by linarith)] at hs'
  have hnext : gapInstant (gapSeconds s + 86400 * (1 : ℤ)) = s + 86400 := by
    unfold gapInstant gapSeconds
    push_cast
    split_ifs <;> linarith
  refine ⟨s + 86400, congrArg some hnext, ?_, by linarith, fun r hsr hrs => ?_⟩
  · change gapInstant (86400 * gapDay (s + 86400)) = s + 86400
    have hday' : gapDay (s + 86400) = gapDay s + 1 := by
      rw [← hnext, gapDay_gapInstant, floor_day_eq_iff]
      unfold gapSeconds
      push_cast
      split_ifs <;> constructor <;> linarith
    rw [hday', gapInstant]
    push_cast
    split_ifs <;> linarith
  · change ⌊gapSeconds r / 86400⌋ = gapDay s
    rw [floor_day_eq_iff, gapSeconds, if_pos (by linarith)]
    constructor <;> linarith

/-- The snapshot of tasks at an instant of the place. -/
def gapSnapshot (tasks : List Task) (n : ℚ) : Option CompleteSnapshotModel :=
  buildCompleteSnapshot .insertion .dedup 20 tasks [] {} .days7 (.instant n) gapCalendar
    (Calendar.gregorian .gmt)

theorem datesUpTo_sampleTask {id : String} {p : ℤ} {n : ℚ} (h : (p : ℚ) ≤ n) :
    DatesUpTo [sampleTask id (.seconds p)] n := by
  intro task htask date hdate
  obtain rfl := List.mem_singleton.mp htask
  obtain rfl := List.mem_singleton.mp hdate
  exact ⟨p, h, rfl⟩

theorem trendsFollow_iff_sample :
    ∃ model, gapSnapshot [sampleTask "a" (.seconds (-3600))] 39600 = some model ∧
      TrendsFollow gapTime [sampleTask "a" (.seconds (-3600))] 0 7 model := by
  obtain ⟨model, h⟩ : ∃ model, gapSnapshot [sampleTask "a" (.seconds (-3600))] 39600 = some model :=
    Option.isSome_iff_exists.mp (by decide +kernel)
  have hdates : DatesUpTo (topLevelTasks [sampleTask "a" (.seconds (-3600))]) 39600 :=
    datesUpTo_sampleTask (by norm_num)
  have hiff := (trendsFollow_iff isLocal_gapCalendar hdates .days7).2 _ _ _ _ _ _ _ h
  have hday : gapTime.day 39600 = 0 := by decide +kernel
  rw [hday] at hiff
  refine ⟨model, h, hiff.mpr ⟨⟨-514800, by decide +kernel, ⟨by decide +kernel, fun r hr => ?_⟩,
    Or.inr fun task htask date hdate => ?_⟩, startsMeet_gapTime _, startsMeet_gapTime _⟩⟩
  · have hday' : gapTime.day (-514800) = gapTime.day 39600 - (7 - 1) := by decide +kernel
    exact hday'.trans_le hr
  · obtain rfl := List.mem_singleton.mp htask
    obtain rfl := List.mem_singleton.mp hdate
    decide +kernel

/-- On the day after the gap no trend reaches today. -/
theorem not_trendsFollow :
    ∃ model, gapSnapshot
        [sampleTask "a" (.seconds (-3600)), sampleTask "b" (.seconds 90000)] 126000 = some model ∧
      model.trendAllTime.map InsightsDailyTrendPoint.date = [.seconds (-86400), .seconds 0] ∧
      gapTime.day 90000 = gapTime.day 126000 ∧
      ¬TrendsFollow gapTime [sampleTask "a" (.seconds (-3600)), sampleTask "b" (.seconds 90000)]
        (gapTime.day 126000) 7 model := by
  obtain ⟨model, h, hdates⟩ : ∃ model, gapSnapshot
      [sampleTask "a" (.seconds (-3600)), sampleTask "b" (.seconds 90000)] 126000 = some model ∧
      model.trendAllTime.map InsightsDailyTrendPoint.date = [.seconds (-86400), .seconds 0] := by
    rw [← Option.map_eq_some_iff]
    decide +kernel
  refine ⟨model, h, hdates, by decide +kernel, fun hfollow => ?_⟩
  have htoday := (hfollow.trendAllTime.mem_iff (.instant 82800)).mpr
    ⟨82800, rfl, show gapTime.start 82800 = 82800 by decide +kernel, by decide +kernel,
      by decide +kernel⟩
  rw [hdates] at htoday
  exact absurd htoday (by decide +kernel)

end InsightsAggregator

end Notelayer
