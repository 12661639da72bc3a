import Mathlib.Tactic.FieldSimp
import Notelayer.GapStatus

/-!
# The calendar export rate

The rate of a category is meant to be the exports in the window per 100 tasks active in it. The
code counts the tasks of the window, but the exports of all times, and each as often as it lists
the category. So the rate is right where these exports count for nothing, and where the window has
no active task but no export either (`calendarExportRate_eq_iff`).
-/

namespace Notelayer

open KeyedList Sorting

namespace InsightsAggregator

/-! ## The formula -/

/-- `calendar_export_initiated` : an event, or the events of a bucket at its hour. -/
structure CalendarExport where
  time : Date
  categoryIds : List String
  count : ℤ

/-- The beginning of the hour of a bucket. -/
def bucketTime (calendar : Calendar) (bucket : InsightsTelemetryAggregateBucket) : Date :=
  let dayDate := (parseDayKey bucket.dayKey calendar).getD Date.distantPast
  (calendar.dateBySettingHour bucket.hour dayDate).getD dayDate

/-- The calendar exports of the telemetry, raw and counted. -/
def calendarExports (telemetry : InsightsTelemetryScopeState) (calendar : Calendar) :
    List CalendarExport :=
  (telemetry.rawEvents.filter fun event =>
      event.featureKey = InsightsFeatureKey.calendarExportInitiated).map
    (fun event => ⟨event.timestampUTC, event.categoryIds, 1⟩) ++
  (telemetry.aggregateBuckets.filter fun bucket =>
      bucket.featureKey = InsightsFeatureKey.calendarExportInitiated).map
    fun bucket => ⟨bucketTime calendar bucket, bucket.categoryIds, bucket.count⟩

/-- Without categories it is uncategorized. -/
def isInCategory (ids : List String) (categoryId : String) : Bool :=
  if ids.isEmpty then categoryId = uncategorizedCategoryId else categoryId ∈ ids

/-- The export is counted : it is of the category and in the window. -/
def CalendarExport.isCounted (windowStart now : Date) (categoryId : String)
    (calendarExport : CalendarExport) : Bool :=
  isInCategory calendarExport.categoryIds categoryId &&
    (windowStart.atMost calendarExport.time && calendarExport.time.atMost now)

/-- The numerator of the rate. -/
def exportsInWindow (exports : List CalendarExport) (windowStart now : Date)
    (categoryId : String) : ℤ :=
  ((exports.filter (CalendarExport.isCounted windowStart now categoryId)).map
    CalendarExport.count).sum

/-- What the exports outside of the window add to the count of a category, and every export that
lists it more than once. -/
def otherExports (exports : List CalendarExport) (windowStart now : Date)
    (categoryId : String) : ℤ :=
  (exports.map fun calendarExport => calendarExport.count *
    (categoryCount calendarExport.categoryIds categoryId -
      if calendarExport.isCounted windowStart now categoryId then 1 else 0)).sum

/-- The tasks of a category that are active in the window. -/
def activeTasks (tasks : List Task) (windowStart now : Date) (categoryId : String) : List Task :=
  (topLevelTasks tasks).filter fun task =>
    isInCategory task.categories categoryId && isActiveInWindow windowStart now task

/-- The number of distinct tasks of a list. -/
def distinctCount (tasks : List Task) : ℕ :=
  (tasks.map Task.id).dedup.length

theorem distinctCount_le (tasks : List Task) : distinctCount tasks ≤ tasks.length := by
  simpa [distinctCount] using (tasks.map Task.id).dedup_sublist.length_le

theorem distinctCount_eq_zero_iff (tasks : List Task) : distinctCount tasks = 0 ↔ tasks = [] := by
  simp [distinctCount]

/-! ## What the code counts -/

/-- An id counts once, however often a task has it. -/
theorem categoryCount_dedup (ids : List String) (categoryId : String) :
    categoryCount ids.dedup categoryId = if isInCategory ids categoryId then 1 else 0 := by
  unfold categoryCount isInCategory
  by_cases hempty : ids = []
  · simp [hempty]
  · have hdedup : ids.dedup ≠ [] := by simpa using hempty
    have hcount := List.count_dedup ids categoryId
    simp only [List.isEmpty_iff, hempty, hdedup, if_false, decide_eq_true_eq,
      Tally.sum_map_ite_one]
    rw [List.count_eq_countP] at hcount
    simp only [eq_comm (a := categoryId), beq_eq_decide] at hcount ⊢
    rw [hcount]
    split_ifs <;> rfl

/-- The records of the exports. -/
theorem map_normalizeTelemetry {telemetry : InsightsTelemetryScopeState} {calendar : Calendar}
    {records : List InsightsTelemetryRecord}
    (h : normalizeTelemetry telemetry calendar = some records) :
    (records.filter fun record =>
        record.featureKey = InsightsFeatureKey.calendarExportInitiated).map
      (fun record => CalendarExport.mk record.timestampForOrdering record.categoryIds
        record.count) = calendarExports telemetry calendar := by
  obtain ⟨eventRecords, hevents, rfl⟩ := Option.map_eq_some_iff.mp h
  have hforall := forall₂_of_mapM hevents
  unfold calendarExports
  generalize telemetry.rawEvents = events at hforall ⊢
  rw [List.filter_append, List.map_append, List.filter_map, List.map_map]
  refine congrArg₂ (· ++ ·) ?_ rfl
  clear h hevents
  induction hforall with
  | nil => rfl
  | cons hrecord _ ih =>
    obtain ⟨⟨day, hour⟩, -, rfl⟩ := Option.map_eq_some_iff.mp hrecord
    simp only [List.filter_cons, decide_eq_true_eq]
    split_ifs
    · rw [List.map_cons, List.map_cons, ih]
    · exact ih

/-- The code counts the exports in the window, and the others. -/
theorem sum_exports (exports : List CalendarExport) (windowStart now : Date)
    (categoryId : String) :
    (exports.map fun calendarExport => calendarExport.count *
      categoryCount calendarExport.categoryIds categoryId).sum =
        exportsInWindow exports windowStart now categoryId +
          otherExports exports windowStart now categoryId := by
  unfold exportsInWindow otherExports
  induction exports with
  | nil => rfl
  | cons calendarExport exports ih =>
    by_cases hcounted : calendarExport.isCounted windowStart now categoryId
    · simp [hcounted, ih]
      ring
    · simp [hcounted, ih]
      ring

section Rows

variable {tasks : List Task} {categories : List Category}
  {telemetry : InsightsTelemetryScopeState} {calendar : Calendar}
  {records : List InsightsTelemetryRecord} {windowStart now : Date}
  {stat : InsightsCategoryUsageStat}

/-- The count of a category : its exports of the window, and those of an unknown time. -/
theorem calendarExportCount_of_mem
    (hrecords : normalizeTelemetry telemetry calendar = some records)
    (h : stat ∈ buildCategoryStats (topLevelTasks tasks) categories records windowStart now) :
    stat.calendarExportCount =
      exportsInWindow (calendarExports telemetry calendar) windowStart now stat.categoryId +
        otherExports (calendarExports telemetry calendar) windowStart now stat.categoryId := by
  obtain ⟨categoryId, -, rfl⟩ := List.mem_map.mp h
  dsimp only [categoryUsageStat]
  have hstep : ∀ (counts : String → ℤ) (record : InsightsTelemetryRecord) (k : String),
      (if record.featureKey = InsightsFeatureKey.calendarExportInitiated then
        countCategories record.categoryIds record.count counts else counts) k =
      counts k + if record.featureKey = InsightsFeatureKey.calendarExportInitiated then
        record.count * categoryCount record.categoryIds k else 0 := by
    intro counts record k
    split_ifs
    · exact countCategories_apply _ _ _ _
    · rw [add_zero]
  rw [Tally.foldl_apply hstep, zero_add, List.sum_map_ite, ← sum_exports,
    ← map_normalizeTelemetry hrecords, List.map_map]
  simp [Function.comp_def]

/-- The tasks of the denominator are counted once each, whatever else is in the row. -/
theorem activeDenominator_eq (tasks : List Task) (windowStart now : Date) (categoryId : String) :
    (topLevelTasks tasks).foldl (fun counts task =>
      if isActiveInWindow windowStart now task then countCategories task.categories.dedup 1 counts
      else counts) (fun _ => 0) categoryId =
        ((activeTasks tasks windowStart now categoryId).length : ℤ) := by
  have hstep : ∀ (counts : String → ℤ) (task : Task) (k : String),
      (if isActiveInWindow windowStart now task then
        countCategories task.categories.dedup 1 counts else counts) k =
      counts k + if isInCategory task.categories k && isActiveInWindow windowStart now task then 1
        else 0 := by
    intro counts task k
    by_cases htask : isActiveInWindow windowStart now task
    · rw [if_pos htask, countCategories_apply, categoryCount_dedup, htask, one_mul, Bool.and_true]
    · simp [htask]
  rw [Tally.foldl_apply hstep, zero_add, Tally.sum_map_ite_one, List.countP_eq_length_filter]
  simp [activeTasks]

/-- The rate of a category : 0 without active tasks, else its exports for 100 of them. -/
theorem calendarExportRate_of_mem
    (h : stat ∈ buildCategoryStats (topLevelTasks tasks) categories records windowStart now) :
    stat.calendarExportRatePer100 =
      if activeTasks tasks windowStart now stat.categoryId = [] then (0 : ℚ)
      else (stat.calendarExportCount : ℚ) * 100 /
        (activeTasks tasks windowStart now stat.categoryId).length := by
  obtain ⟨categoryId, -, rfl⟩ := List.mem_map.mp h
  dsimp only [categoryUsageStat]
  rw [activeDenominator_eq]
  by_cases hnil : activeTasks tasks windowStart now categoryId = []
  · simp [hnil]
  · have hpos := List.length_pos_iff.mpr hnil
    simp [hnil, hpos]

/-- The rate is right if the exports that are not meant count for nothing. A task that is listed
twice, which the formula counts once, takes its share of both. -/
theorem rate_eq_iff {n other : ℤ} {d repeated : ℕ} (hd : 0 < d) :
    ((n + other : ℤ) : ℚ) * 100 / ((d + repeated : ℕ) : ℚ) = 100 * n / d ↔
      other * d = n * repeated := by
  have hd' : (d : ℚ) ≠ 0 := by exact_mod_cast hd.ne'
  have hsum : ((d + repeated : ℕ) : ℚ) ≠ 0 := by
    exact_mod_cast (Nat.add_pos_left hd repeated).ne'
  rw [div_eq_div_iff hsum hd']
  push_cast
  constructor
  · intro h
    have hq : (other : ℚ) * d = n * repeated := by linarith
    exact_mod_cast hq
  · intro h
    have hq : (other : ℚ) * d = n * repeated := by exact_mod_cast h
    linarith

/-- The rate of a category is as in the formula exactly if the exports outside of its numerator
count for nothing or, where the window has no active task, if it has no export. -/
theorem calendarExportRate_eq_iff {sorter : Sorter} {setOrder : SetOrder String} {fuel : ℕ}
    {selectedWindow : InsightsWindow} {calendar : InsightsCalendar} {current : Calendar}
    {model : CompleteSnapshotModel}
    (h : buildCompleteSnapshot sorter setOrder fuel tasks categories telemetry selectedWindow now
      calendar current = some model) :
    ∀ stat ∈ model.categoryStats,
      let exports := calendarExports telemetry calendar.toCalendar
      let n := exportsInWindow exports model.windowStart now stat.categoryId
      let active := activeTasks tasks model.windowStart now stat.categoryId
      stat.calendarExportRatePer100 = 100 * n / (max 1 (distinctCount active) : ℕ) ↔
        if active = [] then n = 0
        else otherExports exports model.windowStart now stat.categoryId * distinctCount active =
          n * (active.length - distinctCount active : ℕ) := by
  obtain ⟨records, hbuilt⟩ := isBuilt_of_buildCompleteSnapshot h
  intro stat hstat
  rw [hbuilt.categoryStats, ← hbuilt.start] at hstat
  dsimp only
  rw [calendarExportRate_of_mem hstat, calendarExportCount_of_mem hbuilt.normalized hstat]
  generalize activeTasks tasks model.windowStart now stat.categoryId = active
  by_cases hnil : active = []
  · rw [if_pos hnil, if_pos hnil, (distinctCount_eq_zero_iff active).mpr hnil]
    have hzero : ∀ n : ℤ, (0 : ℚ) = 100 * n / (max 1 0 : ℕ) ↔ n = 0 := fun n => by
      rw [eq_comm]
      simp
    exact hzero _
  · have hpos : 0 < distinctCount active :=
      Nat.pos_of_ne_zero fun hzero => hnil ((distinctCount_eq_zero_iff active).mp hzero)
    have hle := distinctCount_le active
    rw [if_neg hnil, if_neg hnil, max_eq_right (by omega), ← rate_eq_iff hpos]
    rw [Nat.add_sub_cancel' hle]

end Rows

/-! ## A sample -/

/-- A category for the samples below. -/
def workCategory : Category where
  id := "work"
  name := "Work"
  icon := "💼"
  color := "#6B7280"

/-- A task of ten days ago that is still open. -/
def workTasks : List Task :=
  [{ sampleTask "a" (.seconds (-864000)) with categories := ["work"] }]

/-- A calendar export of some days ago. -/
def workExport (daysAgo : ℤ) : InsightsTelemetryScopeState where
  rawEvents := [{ sampleEvent "calendar_export_initiated" (.seconds (-86400 * daysAgo)) with
    categoryIds := ["work"] }]

/-- The snapshot of a week, with one export `daysAgo` days ago. -/
def exportSnapshot (daysAgo : ℤ) : Option CompleteSnapshotModel :=
  buildCompleteSnapshot .insertion .dedup 20 workTasks [workCategory] (workExport daysAgo) .days7
    (.seconds 60) (InsightsCalendar.gregorian .gmt) (Calendar.gregorian .gmt)

theorem calendarExportRate_eq_iff_sample :
    ∃ model, exportSnapshot 2 = some model ∧ ∀ stat ∈ model.categoryStats,
      let exports := calendarExports (workExport 2) (Calendar.gregorian .gmt)
      let n := exportsInWindow exports model.windowStart (.seconds 60) stat.categoryId
      let active := activeTasks workTasks model.windowStart (.seconds 60) stat.categoryId
      stat.calendarExportRatePer100 = 100 * n / (max 1 (distinctCount active) : ℕ) ↔
        if active = [] then n = 0
        else otherExports exports model.windowStart (.seconds 60) stat.categoryId *
          distinctCount active = n * (active.length - distinctCount active : ℕ) := by
  obtain ⟨model, h⟩ : ∃ model, exportSnapshot 2 = some model :=
    Option.isSome_iff_exists.mp (by decide +kernel)
  exact ⟨model, h, calendarExportRate_eq_iff h⟩

/-- The rate with an export of eight days ago is 100, although there is none in the last seven. -/
theorem not_calendarExportRate :
    (exportSnapshot 8).map (fun model => model.categoryStats.map fun stat =>
        (stat.categoryId, stat.calendarExportRatePer100)) =
          some [("work", 100), ("uncategorized", 0)] ∧
      (exportSnapshot 8).map (fun model => model.categoryStats.map fun stat =>
        (exportsInWindow (calendarExports (workExport 8) (Calendar.gregorian .gmt))
            model.windowStart (.seconds 60) stat.categoryId,
          distinctCount (activeTasks workTasks model.windowStart (.seconds 60) stat.categoryId))) =
            some [(0, 1), (0, 0)] := by
  decide +kernel

end InsightsAggregator

end Notelayer
