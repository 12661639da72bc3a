import Notelayer.InsightsAggregator
import Notelayer.Library.Sorting

/-!
# The whole Insights snapshot

`buildCompleteSnapshot` is `buildSnapshot` with all that it returns : the trends, the oldest open
tasks, the rankings and the first usage date. It sorts with any `Sorter`, goes through sets in any
order, and traps where a count leaves the range of `Int`.

The days of a trend are collected in a loop, which ends after as many steps as there are days
(`exists_dateRange_eq_some`).
-/

namespace Notelayer

open Sorting

/-! ## The model of the view -/

/-- Whether a figure comes from telemetry events or from the tasks as they are now. -/
inductive InsightsDataFidelity where
  | eventExact
  | snapshotEstimated
  | mixed
  deriving DecidableEq

/-- The title of a gap status. -/
def InsightsGapStatus.rawValue : InsightsGapStatus → String
  | unused => "Unused"
  | underused => "Underused"
  | used => "Used"

/-- How many tasks were added and completed on one day. -/
structure InsightsDailyTrendPoint where
  date : Date
  added : ℤ
  completed : ℤ
  deriving DecidableEq

/-- A row of a ranking. -/
structure InsightsRankingItem where
  id : String
  title : String
  value : ℤ
  subtitle : String
  deriving DecidableEq

/-- An open task, with its age in days. -/
structure InsightsOldestOpenTaskSummary where
  taskId : String
  title : String
  createdAt : Date
  ageDays : ℤ
  categories : List String
  deriving DecidableEq

/-- The age groups of open tasks. -/
inductive InsightsOpenTaskAgeBucket where
  | days0to7
  | days8to14
  | days15to30
  | days31to60
  | days61to90
  | days90plus
  deriving DecidableEq

namespace InsightsOpenTaskAgeBucket

/-- The age groups, youngest first. -/
def allCases : List InsightsOpenTaskAgeBucket :=
  [days0to7, days8to14, days15to30, days31to60, days61to90, days90plus]

/-- `bucket(for:)`. -/
def ofAge (ageDays : ℤ) : InsightsOpenTaskAgeBucket :=
  if 0 ≤ ageDays ∧ ageDays ≤ 7 then days0to7
  else if 8 ≤ ageDays ∧ ageDays ≤ 14 then days8to14
  else if 15 ≤ ageDays ∧ ageDays ≤ 30 then days15to30
  else if 31 ≤ ageDays ∧ ageDays ≤ 60 then days31to60
  else if 61 ≤ ageDays ∧ ageDays ≤ 90 then days61to90
  else days90plus

end InsightsOpenTaskAgeBucket

/-- The number of open tasks in one age group. -/
structure InsightsOpenTaskAgeBucketStat where
  bucket : InsightsOpenTaskAgeBucket
  count : ℤ
  deriving DecidableEq

/-- The value by which hours are ranked. -/
def InsightsHourBucketStat.combinedCount (stat : InsightsHourBucketStat) : ℤ :=
  stat.addedCount + stat.completedCount + stat.appUsageCount

/-- The title of an hour, on the clock of twelve hours. -/
def InsightsHourBucketStat.label (stat : InsightsHourBucketStat) : String :=
  let hour12 := if stat.hour = 0 then 12 else if 12 < stat.hour then stat.hour - 12 else stat.hour
  toString hour12 ++ if stat.hour < 12 then "AM" else "PM"

/-- The value by which categories are ranked. -/
def InsightsCategoryUsageStat.combinedCount (stat : InsightsCategoryUsageStat) : ℤ :=
  stat.addedCount + stat.completedCount + stat.openCount

/-- `InsightsSnapshotModel` with all its fields. -/
structure CompleteSnapshotModel extends InsightsSnapshotModel where
  trendWindow : List InsightsDailyTrendPoint
  trendAllTime : List InsightsDailyTrendPoint
  oldestOpenTasksPreview : List InsightsOldestOpenTaskSummary
  oldestOpenTasksDrilldown : List InsightsOldestOpenTaskSummary
  openTaskAgeBuckets : List InsightsOpenTaskAgeBucketStat
  mostUsedFeatures : List InsightsRankingItem
  leastUsedFeatures : List InsightsRankingItem
  mostUsedCategories : List InsightsRankingItem
  leastUsedCategories : List InsightsRankingItem
  mostUsedHours : List InsightsRankingItem
  leastUsedHours : List InsightsRankingItem
  taskDataFidelity : InsightsDataFidelity
  appUsageFidelity : InsightsDataFidelity
  calendarRateFidelity : InsightsDataFidelity
  firstAppUsageDate : Option Date
  deriving DecidableEq

/-! ## Dates -/

/-- A calendar that counts days too. -/
structure InsightsCalendar extends Calendar where
  /-- `dateComponents([.day], from:, to:).day`. -/
  daysBetween : Date → Date → Option ℤ

/-- The calendar of a fixed time zone, where a day is 86400 seconds. -/
def InsightsCalendar.gregorian (z : FixedTimeZone) : InsightsCalendar where
  toCalendar := Calendar.gregorian z
  daysBetween d e := match d.timeIntervalSince1970, e.timeIntervalSince1970 with
    | .finite p, .finite q => some (Date.truncated ((q - p) / 86400))
    | _, _ => none

/-- `lhs == rhs` of dates. -/
def Date.equals (d e : Date) : Bool :=
  d = e && d.timeIntervalSince1970 ≠ .nan

/-- `min()` : the first of the earliest dates. -/
def earliestDate : List Date → Option Date
  | [] => none
  | date :: dates => some (dates.foldl (fun result date => if date < result then date else result)
    date)

/-- `InsightsTelemetrySnapshot.date(fromDayKey:)`. -/
def dateFromDayKey (dayKey : String) (current : Calendar) : Option Date :=
  let parts := (dayKey.toList.splitOn '-').filter (· ≠ [])
  match parts.map String.ofList with
  | [yearPart, monthPart, dayPart] => do
    let year ← intOfString yearPart
    let month ← intOfString monthPart
    let day ← intOfString dayPart
    current.date year month day
  | _ => none

/-- `InsightsTelemetrySnapshot.firstUsageDate`. -/
def firstUsageDate (telemetry : InsightsTelemetryScopeState) (current : Calendar) : Option Date :=
  let firstRaw := earliestDate (telemetry.rawEvents.map InsightsTelemetryEvent.timestampUTC)
  let firstAggregate := earliestDate
    (telemetry.aggregateBuckets.filterMap fun bucket => dateFromDayKey bucket.dayKey current)
  match firstRaw, firstAggregate with
  | some firstRaw, some firstAggregate =>
    some (if firstAggregate < firstRaw then firstAggregate else firstRaw)
  | some firstRaw, none => some firstRaw
  | none, firstAggregate => firstAggregate

namespace InsightsAggregator

/-- The loop of `dateRange`, which is `none` if it takes more steps than `fuel`. -/
def datesUntil (calendar : Calendar) (endDay : Date) : ℕ → Date → Option (List Date)
  | 0, _ => none
  | fuel + 1, cursor =>
    if cursor.atMost endDay then
      match calendar.dateByAddingDays 1 cursor with
      | some next => (datesUntil calendar endDay fuel next).map fun dates => cursor :: dates
      | none => some [cursor]
    else some []

/-- The days from `start` to `endDate`, or `none` where the fuel does not suffice. -/
def dateRange (fuel : ℕ) (start endDate : Date) (calendar : Calendar) : Option (List Date) :=
  if start.atMost endDate then
    datesUntil calendar (calendar.startOfDay endDate) fuel (calendar.startOfDay start)
  else some []

/-! ## Trends -/

/-- Count a date on its day, from a first day to a last one. -/
def countDay (startDate endDate : Date) (calendar : Calendar) (counts : Date → ℤ) (date : Date) :
    Date → ℤ :=
  let day := calendar.startOfDay date
  if startDate.atMost day && day.atMost endDate then addCount counts day 1 else counts

/-- One point for each day of the range. -/
def buildTaskTrend (fuel : ℕ) (tasks : List Task) (startDate endDate : Date)
    (calendar : Calendar) : Option (List InsightsDailyTrendPoint) :=
  let addedByDay := tasks.foldl (fun counts task =>
    countDay startDate endDate calendar counts task.createdAt) fun _ => 0
  let completedByDay : Date → ℤ := tasks.foldl (fun counts task =>
    match task.completedAt with
    | some completedAt => countDay startDate endDate calendar counts completedAt
    | none => counts) fun _ => 0
  (dateRange fuel startDate endDate calendar).map fun days => days.map fun day =>
    { date := day
      added := addedByDay day
      completed := completedByDay day }

/-- The day of the earliest date that any task carries. -/
def earliestTaskDay (tasks : List Task) (fallback : Date) (calendar : Calendar) : Date :=
  let candidates := tasks.flatMap fun task => task.createdAt :: task.completedAt.toList
  match earliestDate candidates with
  | some minDate => calendar.startOfDay minDate
  | none => fallback

/-! ## The oldest open tasks -/

/-- The summary of one open task. -/
def openTaskSummary (now : Date) (calendar : InsightsCalendar) (task : Task) :
    InsightsOldestOpenTaskSummary :=
  let createdDay := calendar.startOfDay task.createdAt
  let currentDay := calendar.startOfDay now
  { taskId := task.id
    title := task.title
    createdAt := task.createdAt
    ageDays := max 0 ((calendar.daysBetween createdDay currentDay).getD 0)
    categories := task.categories }

/-- The oldest come first, then those with the smaller id. -/
def summaryPrecedes (a b : InsightsOldestOpenTaskSummary) : Bool :=
  if a.ageDays ≠ b.ageDays then b.ageDays < a.ageDays
  else if ¬a.createdAt.equals b.createdAt then a.createdAt < b.createdAt
  else a.taskId < b.taskId

/-- The summaries from which `buildOldestOpenTaskData` takes the preview and the drilldown. -/
def oldestOpenTasks (sorter : Sorter) (tasks : List Task) (now : Date)
    (calendar : InsightsCalendar) : List InsightsOldestOpenTaskSummary :=
  sorter.sorted summaryPrecedes
    ((tasks.filter fun task => task.completedAt = none).map (openTaskSummary now calendar))

/-- One statistic for each age group, youngest first. -/
def openTaskAgeBuckets (summaries : List InsightsOldestOpenTaskSummary) :
    List InsightsOpenTaskAgeBucketStat :=
  let bucketCounts := summaries.foldl (fun counts summary =>
    addCount counts (InsightsOpenTaskAgeBucket.ofAge summary.ageDays) 1) fun _ => 0
  InsightsOpenTaskAgeBucket.allCases.map fun bucket =>
    { bucket := bucket
      count := bucketCounts bucket }

/-! ## Rankings -/

/-- Whether a ranking shows the largest or the smallest values first. -/
inductive RankOrder where
  | ascending
  | descending
  deriving DecidableEq

/-- By count, then by what a ranking does with equal counts. -/
def rankPrecedes {A : Type} (order : RankOrder) (count : A → ℤ) (tiePrecedes : A → A → Bool)
    (a b : A) : Bool :=
  if count a ≠ count b then
    match order with
    | .descending => count b < count a
    | .ascending => count a < count b
  else tiePrecedes a b

/-- The first features by use over all time, where the most recently used wins a tie. -/
def rankFeatures (sorter : Sorter) (stats : List InsightsFeatureUsageStat) (order : RankOrder)
    (limit : ℕ := 5) : List InsightsRankingItem :=
  let sorted := sorter.sorted (rankPrecedes order InsightsFeatureUsageStat.allTimeCount fun a b =>
    let leftDate := a.lastUsedAt.getD Date.distantPast
    let rightDate := b.lastUsedAt.getD Date.distantPast
    if ¬leftDate.equals rightDate then rightDate < leftDate else a.featureKey < b.featureKey) stats
  (sorted.take limit).map fun stat =>
    { id := stat.featureKey
      title := stat.title
      value := stat.allTimeCount
      subtitle := stat.gapStatus.rawValue }

/-- The first categories by what happened in them, then by name. -/
def rankCategories (sorter : Sorter) (stats : List InsightsCategoryUsageStat) (order : RankOrder)
    (limit : ℕ := 5) : List InsightsRankingItem :=
  let sorted := sorter.sorted (rankPrecedes order InsightsCategoryUsageStat.combinedCount
    fun a b => a.categoryName < b.categoryName) stats
  (sorted.take limit).map fun stat =>
    { id := stat.categoryId
      title := stat.categoryIcon ++ " " ++ stat.categoryName
      value := stat.combinedCount
      subtitle := "Added " ++ toString stat.addedCount ++ " • Done " ++
        toString stat.completedCount }

/-- The first hours by what happened in them, then by the hour. -/
def rankHours (sorter : Sorter) (stats : List InsightsHourBucketStat) (order : RankOrder)
    (limit : ℕ := 5) : List InsightsRankingItem :=
  let sorted := sorter.sorted (rankPrecedes order InsightsHourBucketStat.combinedCount
    fun a b => a.hour < b.hour) stats
  (sorted.take limit).map fun stat =>
    { id := "hour-" ++ toString stat.hour
      title := stat.label
      value := stat.combinedCount
      subtitle := "Added " ++ toString stat.addedCount ++ " • Done " ++
        toString stat.completedCount ++ " • App " ++ toString stat.appUsageCount }

/-! ## Overflow -/

/-- What an event or a bucket adds to the exports of the categories. -/
def exportAdditions (record : InsightsTelemetryRecord) : List (String × ℤ) :=
  if record.featureKey = InsightsFeatureKey.calendarExportInitiated then
    if record.categoryIds.isEmpty then [(uncategorizedCategoryId, record.count)]
    else record.categoryIds.map fun categoryId => (categoryId, record.count)
  else []

/-- No entry of a dictionary leaves the range of `Int` on the way. -/
def additionsFit {K : Type} [DecidableEq K] (additions : List (K × ℤ)) : Bool :=
  (additions.foldlM (Tally.checkedAdd fun n : ℤ => -2 ^ 63 ≤ n ∧ n < 2 ^ 63) fun _ => 0).isSome

/-- The counts of events and buckets do not overflow. -/
def countsFit (telemetryRecords : List InsightsTelemetryRecord) (windowStart now : Date) : Bool :=
  additionsFit (telemetryRecords.flatMap exportAdditions) &&
  additionsFit (telemetryRecords.map fun record => (record.hour, record.count)) &&
  additionsFit (telemetryRecords.map fun record => (record.featureKey, record.count)) &&
  additionsFit ((telemetryRecords.filter (isInWindow windowStart now)).map fun record =>
    (record.featureKey, record.count))

/-! ## The snapshot -/

/-- `buildSnapshot`. It is `none` if it traps, or if the trends take more steps than `fuel`. -/
def buildCompleteSnapshot (sorter : Sorter) (setOrder : SetOrder String) (fuel : ℕ)
    (tasks : List Task) (categories : List Category) (telemetry : InsightsTelemetryScopeState)
    (selectedWindow : InsightsWindow) (now : Date) (calendar : InsightsCalendar)
    (current : Calendar) : Option CompleteSnapshotModel := do
  let todayStart := calendar.startOfDay now
  let windowStart := windowStart selectedWindow now calendar.toCalendar
  let topLevelTasks := topLevelTasks tasks
  let trendWindow ← buildTaskTrend fuel topLevelTasks windowStart todayStart calendar.toCalendar
  let allTimeStart := earliestTaskDay topLevelTasks todayStart calendar.toCalendar
  let trendAllTime ← buildTaskTrend fuel topLevelTasks allTimeStart todayStart calendar.toCalendar
  let telemetryRecords ← normalizeTelemetry telemetry calendar.toCalendar
  let hourBuckets := buildHourBuckets topLevelTasks telemetryRecords calendar.toCalendar
  guard (countsFit telemetryRecords windowStart now)
  guard (hourBuckets.all fun stat => (checkedInt stat.combinedCount).isSome)
  let categoryIds := sorter.sorted (categoryIdPrecedes categories)
    (setOrder.elements (categories.map Category.id ++ [uncategorizedCategoryId]))
  let categoryStats := categoryIds.map
    (categoryUsageStat topLevelTasks categories telemetryRecords windowStart now)
  let summaries := oldestOpenTasks sorter topLevelTasks now calendar
  let featureStats := buildFeatureStats telemetryRecords windowStart now
  return {
    generatedAt := now
    selectedWindow := selectedWindow
    windowStart := windowStart
    totals :=
      { all := topLevelTasks.length
        open' := (topLevelTasks.filter fun task => task.completedAt = none).length
        done := (topLevelTasks.filter fun task => task.completedAt ≠ none).length }
    trendWindow := trendWindow
    trendAllTime := trendAllTime
    hourBuckets := hourBuckets
    categoryStats := categoryStats
    featureStats := featureStats
    oldestOpenTasksPreview := summaries.take 3
    oldestOpenTasksDrilldown := summaries.take 50
    openTaskAgeBuckets := openTaskAgeBuckets summaries
    tasksLeftUncategorized :=
      ((categoryStats.find? fun stat => stat.isUncategorized).map
        InsightsCategoryUsageStat.openCount).getD 0
    mostUsedFeatures := rankFeatures sorter featureStats .descending
    leastUsedFeatures := rankFeatures sorter featureStats .ascending
    mostUsedCategories := rankCategories sorter categoryStats .descending
    leastUsedCategories := rankCategories sorter categoryStats .ascending
    mostUsedHours := rankHours sorter hourBuckets .descending
    leastUsedHours := rankHours sorter hourBuckets .ascending
    taskDataFidelity := .snapshotEstimated
    appUsageFidelity := .eventExact
    calendarRateFidelity := .mixed
    firstAppUsageDate := firstUsageDate telemetry current }

/-! ## The days of a trend -/

end InsightsAggregator

/-- A day is at least a second long, and only a finite date has a next day. -/
structure Calendar.DaysAdvance (calendar : Calendar) : Prop where
  isFinite_startOfDay : ∀ date : Date, date.timeIntervalSince1970.isFinite →
    (calendar.startOfDay date).timeIntervalSince1970.isFinite
  next : ∀ date next : Date, calendar.dateByAddingDays 1 date = some next →
    ∃ p q : ℚ, date = ⟨.finite p⟩ ∧ next = ⟨.finite q⟩ ∧ p + 1 ≤ q

/-- The days of a fixed time zone follow one another. -/
theorem Calendar.daysAdvance_gregorian (z : FixedTimeZone) :
    (Calendar.gregorian z).DaysAdvance where
  isFinite_startOfDay date h := by
    obtain ⟨seconds⟩ := date
    cases seconds with
    | finite seconds => rfl
    | infinity | negInfinity | nan => exact absurd h Bool.false_ne_true
  next date next h := by
    obtain ⟨seconds⟩ := date
    cases seconds with
    | finite seconds =>
      have hnext : next = ⟨.finite (seconds + 86400 * (1 : ℤ))⟩ := (Option.some.inj h).symm
      refine ⟨seconds, _, rfl, hnext, ?_⟩
      norm_num
    | infinity | negInfinity | nan => simp [Calendar.gregorian] at h

namespace InsightsAggregator

section DateRange

variable {calendar : Calendar}

/-- More fuel changes nothing. -/
theorem datesUntil_succ {endDay : Date} {fuel : ℕ} {cursor : Date} {dates : List Date}
    (h : datesUntil calendar endDay fuel cursor = some dates) :
    datesUntil calendar endDay (fuel + 1) cursor = some dates := by
  induction fuel generalizing cursor dates with
  | zero => simp [datesUntil] at h
  | succ fuel ih =>
    rw [datesUntil] at h ⊢
    by_cases hend : cursor.atMost endDay
    · rw [if_pos hend] at h ⊢
      cases hnext : calendar.dateByAddingDays 1 cursor with
      | none => simpa [hnext] using h
      | some next =>
        simp only [hnext] at h ⊢
        obtain ⟨rest, hrest, rfl⟩ := Option.map_eq_some_iff.mp h
        rw [ih hrest, Option.map_some]
    · rwa [if_neg hend] at h ⊢

theorem datesUntil_of_le {endDay : Date} {fuel fuel' : ℕ} (hle : fuel ≤ fuel') {cursor : Date}
    {dates : List Date} (h : datesUntil calendar endDay fuel cursor = some dates) :
    datesUntil calendar endDay fuel' cursor = some dates := by
  induction hle with
  | refl => exact h
  | step _ ih => exact datesUntil_succ ih

/-- The loop ends if it ends from the next day. -/
theorem exists_datesUntil_succ {endDay : Date} {fuel : ℕ} {cursor : Date}
    (h : ∀ next, cursor.atMost endDay → calendar.dateByAddingDays 1 cursor = some next →
      ∃ dates, datesUntil calendar endDay fuel next = some dates) :
    ∃ dates, datesUntil calendar endDay (fuel + 1) cursor = some dates := by
  rw [datesUntil]
  by_cases hend : cursor.atMost endDay
  · rw [if_pos hend]
    cases hnext : calendar.dateByAddingDays 1 cursor with
    | none => exact ⟨_, rfl⟩
    | some next =>
      obtain ⟨dates, hdates⟩ := h next hend hnext
      exact ⟨cursor :: dates, by simp [hdates]⟩
  · rw [if_neg hend]
    exact ⟨_, rfl⟩

/-- With every step the loop is a second closer to the end. -/
theorem exists_datesUntil_eq_some (h : calendar.DaysAdvance) {e : ℚ} {fuel : ℕ} {cursor : Date}
    (hcursor : ∀ p, cursor = ⟨.finite p⟩ → e - p < fuel) :
    ∃ dates, datesUntil calendar ⟨.finite e⟩ (fuel + 1) cursor = some dates := by
  induction fuel generalizing cursor with
  | zero =>
    refine exists_datesUntil_succ fun next hend hnext => ?_
    obtain ⟨p, q, rfl, -, -⟩ := h.next cursor next hnext
    have hlt := hcursor p rfl
    have hle : p ≤ e := (Date.atMost_finite _ _).mp hend
    rw [Nat.cast_zero, sub_neg] at hlt
    exact absurd hlt hle.not_gt
  | succ fuel ih =>
    refine exists_datesUntil_succ fun next _ hnext => ih fun q' hq' => ?_
    obtain ⟨p, q, rfl, rfl, hpq⟩ := h.next cursor next hnext
    obtain rfl : q = q' := by simpa using hq'
    have hlt := hcursor p rfl
    push_cast at hlt
    linarith

/-- The days up to a finite date are collected in finitely many steps. -/
theorem exists_dateRange_eq_some (h : calendar.DaysAdvance) (start : Date) {endDate : Date}
    (hend : endDate.timeIntervalSince1970.isFinite) :
    ∃ n dates, ∀ fuel, n ≤ fuel → dateRange fuel start endDate calendar = some dates := by
  have hfinite := h.isFinite_startOfDay endDate hend
  obtain ⟨e, he⟩ : ∃ e, calendar.startOfDay endDate = ⟨.finite e⟩ := by
    cases hday : (calendar.startOfDay endDate).timeIntervalSince1970 with
    | finite e => exact ⟨e, congrArg Date.mk hday⟩
    | infinity | negInfinity | nan => simp [hday, TimeInterval.isFinite] at hfinite
  obtain ⟨n, hn⟩ : ∃ n : ℕ, ∀ p, calendar.startOfDay start = ⟨.finite p⟩ → e - p < n := by
    cases hstart : calendar.startOfDay start with
    | mk seconds =>
      cases seconds with
      | finite p =>
        refine ⟨⌊e - p⌋₊ + 1, fun p' hp' => ?_⟩
        obtain rfl : p = p' := by simpa using hp'
        exact_mod_cast Nat.lt_floor_add_one (e - p)
      | infinity | negInfinity | nan => exact ⟨0, fun p hp => by simp at hp⟩
  obtain ⟨dates, hdates⟩ := exists_datesUntil_eq_some h hn
  unfold dateRange
  by_cases hle : start.atMost endDate
  · refine ⟨n + 1, dates, fun fuel hfuel => ?_⟩
    rw [if_pos hle, he]
    exact datesUntil_of_le hfuel hdates
  · exact ⟨0, [], fun fuel _ => if_neg hle⟩

theorem exists_buildTaskTrend_eq_some (h : calendar.DaysAdvance) (tasks : List Task)
    (startDate : Date) {endDate : Date} (hend : endDate.timeIntervalSince1970.isFinite) :
    ∃ n points, ∀ fuel, n ≤ fuel →
      buildTaskTrend fuel tasks startDate endDate calendar = some points := by
  obtain ⟨n, dates, hdates⟩ := exists_dateRange_eq_some h startDate hend
  obtain ⟨points, hpoints⟩ : ∃ points,
      buildTaskTrend n tasks startDate endDate calendar = some points :=
    Option.isSome_iff_exists.mp (by simp [buildTaskTrend, hdates n le_rfl])
  refine ⟨n, points, fun fuel hfuel => ?_⟩
  rw [← hpoints, buildTaskTrend, buildTaskTrend, hdates fuel hfuel, hdates n le_rfl]

end DateRange

/-- The snapshot is computed, or traps, in finitely many steps. -/
theorem exists_buildCompleteSnapshot_eq (sorter : Sorter) (setOrder : SetOrder String)
    (tasks : List Task) (categories : List Category) (telemetry : InsightsTelemetryScopeState)
    (selectedWindow : InsightsWindow) {now : Date} (hnow : now.timeIntervalSince1970.isFinite)
    {calendar : InsightsCalendar} (h : calendar.DaysAdvance) (current : Calendar) :
    ∃ n result, ∀ fuel, n ≤ fuel → buildCompleteSnapshot sorter setOrder fuel tasks categories
      telemetry selectedWindow now calendar current = result := by
  have hend := h.isFinite_startOfDay now hnow
  obtain ⟨n, points, hpoints⟩ := exists_buildTaskTrend_eq_some h (topLevelTasks tasks)
    (windowStart selectedWindow now calendar.toCalendar) hend
  obtain ⟨n', points', hpoints'⟩ := exists_buildTaskTrend_eq_some h (topLevelTasks tasks)
    (earliestTaskDay (topLevelTasks tasks) (calendar.startOfDay now) calendar.toCalendar) hend
  refine ⟨max n n', buildCompleteSnapshot sorter setOrder (max n n') tasks categories telemetry
    selectedWindow now calendar current, fun fuel hfuel => ?_⟩
  simp only [buildCompleteSnapshot, hpoints fuel (le_of_max_le_left hfuel),
    hpoints' fuel (le_of_max_le_right hfuel), hpoints _ (le_max_left n n'),
    hpoints' _ (le_max_right n n')]

end InsightsAggregator

end Notelayer
