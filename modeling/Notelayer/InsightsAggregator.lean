import Mathlib.Algebra.Order.BigOperators.Group.List
import Notelayer.InsightsTelemetryStore

/-!
# The Insights snapshot

`InsightsAggregator.buildSnapshot` turns the tasks, the categories and the telemetry of a scope
into the totals and statistics of the Insights view. A dictionary of counts is a function that
is 0 where nothing was counted.
-/

namespace Notelayer

/-! ## Metrics -/

/-- The windows the Insights tab offers. -/
inductive InsightsWindow where
  | days7
  | days30
  | days60
  | days180
  | days365
  deriving DecidableEq

/-- The number of days of a window. -/
def InsightsWindow.rawValue : InsightsWindow → ℤ
  | days7 => 7
  | days30 => 30
  | days60 => 60
  | days180 => 180
  | days365 => 365

/-- How often a feature was used within the window, against the other features. -/
inductive InsightsGapStatus where
  | unused
  | underused
  | used
  deriving DecidableEq

namespace InsightsFeatureKey

/-- The event that an export to the calendar records. -/
def calendarExportInitiated : String :=
  "calendar_export_initiated"

end InsightsFeatureKey

/-- `featureCatalog`. -/
def featureCatalog : List (String × String) :=
  [("task_create", "Tasks Created"),
    ("task_edit", "Tasks Edited"),
    ("task_complete", "Tasks Completed"),
    ("task_restore", "Completed Tasks Reopened"),
    ("task_delete", "Tasks Deleted"),
    ("task_reorder", "Task Reorders"),
    ("due_date_set", "Due Dates Added"),
    ("due_date_cleared", "Due Dates Removed"),
    ("reminder_set", "Reminders Added"),
    ("reminder_cleared", "Reminders Removed"),
    ("reminder_permission_prompted", "Reminder Permission Requests"),
    ("reminder_permission_denied", "Reminder Permission Denials"),
    (InsightsFeatureKey.calendarExportInitiated, "Calendar Export Attempts"),
    ("calendar_export_presented", "Calendar Export Screens Opened"),
    ("calendar_export_permission_denied", "Calendar Export Permission Denials"),
    ("category_create", "Categories Created"),
    ("category_rename", "Category Renames"),
    ("category_reorder", "Category Reorders"),
    ("category_delete", "Categories Deleted"),
    ("category_assign", "Category Assignments"),
    ("tab_select", "Tab Switches"),
    ("view_open", "# of detailed Task views"),
    ("view_duration", "Time Spent in Views"),
    ("todos_mode_switch", "To-Do View Mode Switches"),
    ("todos_filter_change", "Doing/Done Filter Changes"),
    ("notes_usage", "Notes Tab Opens"),
    ("theme_change", "Theme Changes"),
    ("profile_settings_open", "Profile and Settings Opens"),
    ("insights_drilldown_open", "# of Insight analytics views")]

/-! ## The model of the view -/

/-- The number of top-level tasks, and of the open and the completed ones. -/
structure InsightsTaskTotals where
  all : ℤ
  open' : ℤ
  done : ℤ
  deriving DecidableEq

/-- What happened within one hour of the day. -/
structure InsightsHourBucketStat where
  hour : ℤ
  addedCount : ℤ
  completedCount : ℤ
  appUsageCount : ℤ
  deriving DecidableEq

/-- What happened within one category. -/
structure InsightsCategoryUsageStat where
  categoryId : String
  categoryName : String
  categoryIcon : String
  categoryColorHex : String
  isUncategorized : Bool
  addedCount : ℤ
  completedCount : ℤ
  openCount : ℤ
  calendarExportCount : ℤ
  calendarExportRatePer100 : ℚ
  deriving DecidableEq

/-- How often a feature was used, over all time and within the window. -/
structure InsightsFeatureUsageStat where
  featureKey : String
  title : String
  allTimeCount : ℤ
  windowCount : ℤ
  lastUsedAt : Option Date
  gapStatus : InsightsGapStatus
  deriving DecidableEq

/-- Everything the Insights tab shows. -/
structure InsightsSnapshotModel where
  generatedAt : Date
  selectedWindow : InsightsWindow
  windowStart : Date
  totals : InsightsTaskTotals
  hourBuckets : List InsightsHourBucketStat
  categoryStats : List InsightsCategoryUsageStat
  featureStats : List InsightsFeatureUsageStat
  tasksLeftUncategorized : ℤ
  deriving DecidableEq

/-- An event, or a bucket with its count. -/
structure InsightsTelemetryRecord where
  featureKey : String
  eventName : String
  dayKey : String
  dayDate : Date
  hour : ℤ
  count : ℤ
  categoryIds : List String
  timestampForOrdering : Date
  deriving DecidableEq

/-- `counts[key, default: 0] += n`. -/
def addCount {K : Type} [DecidableEq K] (counts : K → ℤ) (key : K) (n : ℤ) : K → ℤ :=
  Function.update counts key (counts key + n)

/-- `lhs <= rhs` of dates. -/
def Date.atMost (d e : Date) : Bool :=
  match d.timeIntervalSince1970, e.timeIntervalSince1970 with
  | .nan, _ | _, .nan => false
  | _, _ => ¬e < d

theorem Date.atMost_finite (p q : ℚ) :
    Date.atMost ⟨.finite p⟩ ⟨.finite q⟩ = true ↔ p ≤ q := by
  have hlt : (⟨.finite q⟩ : Date) < ⟨.finite p⟩ ↔ q < p := decide_eq_true_iff
  simp only [Date.atMost, hlt, decide_eq_true_eq, not_lt]

/-- `Date.distantPast`, the beginning of the year 1. -/
def Date.distantPast : Date :=
  .seconds (-62135769600)

namespace InsightsAggregator

/-- The id under which tasks without a category are counted. -/
def uncategorizedCategoryId : String :=
  "uncategorized"

/-! ## Telemetry -/

/-- The record of an event. -/
def recordOfEvent (calendar : Calendar) (event : InsightsTelemetryEvent) :
    Option InsightsTelemetryRecord :=
  (dayKeyAndHour event.timestampUTC event.timezoneOffsetMinutesAtEvent).map fun (dayKey, hour) =>
    { featureKey := event.featureKey
      eventName := event.eventName
      dayKey := dayKey
      dayDate := (parseDayKey dayKey calendar).getD event.timestampUTC
      hour := hour
      count := 1
      categoryIds := event.categoryIds
      timestampForOrdering := event.timestampUTC }

/-- The record of a bucket, at the beginning of its hour. -/
def recordOfBucket (calendar : Calendar) (bucket : InsightsTelemetryAggregateBucket) :
    InsightsTelemetryRecord :=
  let dayDate := (parseDayKey bucket.dayKey calendar).getD Date.distantPast
  let timestamp := (calendar.dateBySettingHour bucket.hour dayDate).getD dayDate
  { featureKey := bucket.featureKey
    eventName := bucket.eventName
    dayKey := bucket.dayKey
    dayDate := dayDate
    hour := bucket.hour
    count := bucket.count
    categoryIds := bucket.categoryIds
    timestampForOrdering := timestamp }

/-- It traps if the offset of an event overflows. -/
def normalizeTelemetry (snapshot : InsightsTelemetryScopeState) (calendar : Calendar) :
    Option (List InsightsTelemetryRecord) :=
  (snapshot.rawEvents.mapM (recordOfEvent calendar)).map fun records =>
    records ++ snapshot.aggregateBuckets.map (recordOfBucket calendar)

/-! ## Category statistics -/

/-- Count a task in each of its categories, or as uncategorized. -/
def countCategories (ids : List String) (n : ℤ) (counts : String → ℤ) : String → ℤ :=
  if ids.isEmpty then addCount counts uncategorizedCategoryId n
  else ids.foldl (fun counts id => addCount counts id n) counts

/-- The last category with an id. -/
def categoryMeta (categories : List Category) : String → Option Category :=
  categories.foldl (fun result category => Function.update result category.id (some category))
    fun _ => none

/-- The order of the rows : by the order of the categories, and the uncategorized row last. -/
def categoryIdPrecedes (categories : List Category) (a b : String) : Bool :=
  if a = uncategorizedCategoryId then false
  else if b = uncategorizedCategoryId then true
  else
    let leftOrder := ((categoryMeta categories a).map Category.order).getD (2 ^ 63 - 1)
    let rightOrder := ((categoryMeta categories b).map Category.order).getD (2 ^ 63 - 1)
    if leftOrder ≠ rightOrder then leftOrder < rightOrder else a < b

/-- The ids of the rows. -/
def sortedIds (categories : List Category) : List String :=
  ((categories.map Category.id ++ [uncategorizedCategoryId]).dedup).insertionSort
    fun a b => ¬categoryIdPrecedes categories b a

/-- `isActiveInWindow`. -/
def isActiveInWindow (windowStart now : Date) (task : Task) : Bool :=
  task.createdAt.atMost now &&
    match task.completedAt with
    | none => true
    | some completedAt => windowStart.atMost completedAt

/-- The row of a category. -/
def categoryUsageStat (tasks : List Task) (categories : List Category)
    (telemetryRecords : List InsightsTelemetryRecord) (windowStart now : Date)
    (categoryId : String) : InsightsCategoryUsageStat :=
  let addedByCategory := tasks.foldl (fun counts task => countCategories task.categories 1 counts)
    fun _ => 0
  let completedByCategory := tasks.foldl (fun counts task =>
    if task.completedAt = none then counts else countCategories task.categories 1 counts) fun _ => 0
  let openByCategory := tasks.foldl (fun counts task =>
    if task.completedAt = none then countCategories task.categories 1 counts else counts) fun _ => 0
  let calendarExportByCategory := telemetryRecords.foldl (fun counts record =>
    if record.featureKey = InsightsFeatureKey.calendarExportInitiated then
      countCategories record.categoryIds record.count counts
    else counts) fun _ => 0
  let activeDenominatorByCategory := tasks.foldl (fun counts task =>
    if isActiveInWindow windowStart now task then countCategories task.categories.dedup 1 counts
    else counts) fun _ => 0
  let category := categoryMeta categories categoryId
  let isUncategorized : Bool := categoryId = uncategorizedCategoryId
  let exportCount := calendarExportByCategory categoryId
  let denominator := activeDenominatorByCategory categoryId
  { categoryId := categoryId
    categoryName := if isUncategorized then "Uncategorized"
      else (category.map Category.name).getD categoryId
    categoryIcon := if isUncategorized then "🏷️" else (category.map Category.icon).getD "🏷️"
    categoryColorHex := if isUncategorized then "#6B7280"
      else (category.map Category.color).getD "#6B7280"
    isUncategorized := isUncategorized
    addedCount := addedByCategory categoryId
    completedCount := completedByCategory categoryId
    openCount := openByCategory categoryId
    calendarExportCount := exportCount
    calendarExportRatePer100 := if 0 < denominator then exportCount * 100 / denominator else 0 }

/-- One statistic for each category, in display order, and one for tasks without a category. -/
def buildCategoryStats (tasks : List Task) (categories : List Category)
    (telemetryRecords : List InsightsTelemetryRecord) (windowStart now : Date) :
    List InsightsCategoryUsageStat :=
  (sortedIds categories).map (categoryUsageStat tasks categories telemetryRecords windowStart now)

/-! ## Hours -/

/-- One statistic for each of the 24 hours. -/
def buildHourBuckets (tasks : List Task) (telemetryRecords : List InsightsTelemetryRecord)
    (calendar : Calendar) : List InsightsHourBucketStat :=
  let added := tasks.foldl (fun counts task => addCount counts (calendar.hour task.createdAt) 1)
    fun _ => 0
  let completed := tasks.foldl (fun counts task =>
    match task.completedAt with
    | some completedAt => addCount counts (calendar.hour completedAt) 1
    | none => counts) fun _ => 0
  let usage := telemetryRecords.foldl (fun counts record =>
    addCount counts record.hour record.count) fun _ => 0
  (List.range 24).map fun hour =>
    { hour := hour
      addedCount := added hour
      completedCount := completed hour
      appUsageCount := usage hour }

/-! ## Feature statistics -/

/-- The value at the end of the first quarter of the sorted values. -/
def percentile25 (values : List ℤ) : ℤ :=
  if values.isEmpty then 0
  else
    let sorted := values.insertionSort (· ≤ ·)
    let index := (sorted.length - 1) / 4
    sorted.getD (min index (sorted.length - 1)) 0

/-- `record.timestampForOrdering >= windowStart && record.timestampForOrdering <= now`. -/
def isInWindow (windowStart now : Date) (record : InsightsTelemetryRecord) : Bool :=
  windowStart.atMost record.timestampForOrdering && record.timestampForOrdering.atMost now

/-- The gap status of a feature that was used `countInWindow` times. -/
def gapStatus (countInWindow threshold : ℤ) : InsightsGapStatus :=
  if countInWindow = 0 then .unused
  else if countInWindow < threshold then .underused
  else .used

/-- One statistic for each feature that Insights knows. -/
def buildFeatureStats (telemetryRecords : List InsightsTelemetryRecord) (windowStart now : Date) :
    List InsightsFeatureUsageStat :=
  let allTimeCounts := telemetryRecords.foldl (fun counts record =>
    addCount counts record.featureKey record.count) fun _ => 0
  let windowCounts := telemetryRecords.foldl (fun counts record =>
    if isInWindow windowStart now record then addCount counts record.featureKey record.count
    else counts) fun _ => 0
  let lastUsed : String → Option Date := telemetryRecords.foldl (fun lastUsed record =>
    let existing := (lastUsed record.featureKey).getD Date.distantPast
    if existing < record.timestampForOrdering then
      Function.update lastUsed record.featureKey (some record.timestampForOrdering)
    else lastUsed) fun _ => none
  let catalogCounts := featureCatalog.map fun item => windowCounts item.1
  let threshold := max 3 (percentile25 catalogCounts)
  featureCatalog.map fun item =>
    { featureKey := item.1
      title := item.2
      allTimeCount := allTimeCounts item.1
      windowCount := windowCounts item.1
      lastUsedAt := lastUsed item.1
      gapStatus := gapStatus (windowCounts item.1) threshold }

/-! ## The snapshot -/

/-- The start of the day on which the window begins. -/
def windowStart (selectedWindow : InsightsWindow) (now : Date) (calendar : Calendar) : Date :=
  let todayStart := calendar.startOfDay now
  (calendar.dateByAddingDays (-(selectedWindow.rawValue - 1)) todayStart).getD todayStart

/-- The tasks that have no parent. -/
def topLevelTasks (tasks : List Task) : List Task :=
  tasks.filter fun task => task.parentTaskId = none

/-- The snapshot of the Insights tab, or `none` where the offset of an event overflows. -/
def buildSnapshot (tasks : List Task) (categories : List Category)
    (telemetry : InsightsTelemetryScopeState) (selectedWindow : InsightsWindow) (now : Date)
    (calendar : Calendar) : Option InsightsSnapshotModel :=
  let windowStart := windowStart selectedWindow now calendar
  let topLevelTasks := topLevelTasks tasks
  (normalizeTelemetry telemetry calendar).map fun telemetryRecords =>
    let categoryStats :=
      buildCategoryStats topLevelTasks categories telemetryRecords windowStart now
    { generatedAt := now
      selectedWindow := selectedWindow
      windowStart := windowStart
      totals :=
        { all := topLevelTasks.length
          open' := (topLevelTasks.filter fun task => task.completedAt = none).length
          done := (topLevelTasks.filter fun task => task.completedAt ≠ none).length }
      hourBuckets := buildHourBuckets topLevelTasks telemetryRecords calendar
      categoryStats := categoryStats
      featureStats := buildFeatureStats telemetryRecords windowStart now
      tasksLeftUncategorized :=
        ((categoryStats.find? fun stat => stat.isUncategorized).map
          InsightsCategoryUsageStat.openCount).getD 0 }

/-! ## Counts as sums -/

theorem addCount_apply {K : Type} [DecidableEq K] (counts : K → ℤ) (key : K) (n : ℤ) (k : K) :
    addCount counts key n k = counts k + if k = key then n else 0 := by
  unfold addCount
  by_cases h : k = key
  · rw [h, Function.update_self, if_pos rfl]
  · rw [Function.update_of_ne h, if_neg h, add_zero]

/-- How often a task or an event with the ids is counted in a category. -/
def categoryCount (ids : List String) (categoryId : String) : ℤ :=
  if ids.isEmpty then if categoryId = uncategorizedCategoryId then 1 else 0
  else (ids.map fun id => if categoryId = id then 1 else 0).sum

theorem countCategories_apply (ids : List String) (n : ℤ) (counts : String → ℤ)
    (categoryId : String) :
    countCategories ids n counts categoryId =
      counts categoryId + n * categoryCount ids categoryId := by
  unfold countCategories categoryCount
  split_ifs with hempty hid
  · rw [addCount_apply, if_pos hid, mul_one]
  · rw [addCount_apply, if_neg hid, mul_zero]
  · rw [Tally.foldl_apply fun d id k => addCount_apply d id n k, ← List.sum_map_mul_left]
    simp only [mul_ite, mul_one, mul_zero]

/-- A task without categories is counted as uncategorized, and any other in each of its
categories. -/
theorem categoryCount_pos {ids : List String} {categoryId : String}
    (h : ids = [] ∧ categoryId = uncategorizedCategoryId ∨ categoryId ∈ ids) :
    0 < categoryCount ids categoryId := by
  unfold categoryCount
  rcases h with ⟨rfl, rfl⟩ | hmem
  · decide
  · have hne : ids.isEmpty = false := by
      rw [List.isEmpty_eq_false_iff]
      exact List.ne_nil_of_mem hmem
    rw [hne, if_neg Bool.false_ne_true]
    have hone : (1 : ℤ) ∈ ids.map fun id => if categoryId = id then 1 else 0 :=
      List.mem_map.mpr ⟨categoryId, hmem, if_pos rfl⟩
    refine Int.lt_of_lt_of_le Int.one_pos (List.single_le_sum (fun n hn => ?_) 1 hone)
    obtain ⟨id, -, rfl⟩ := List.mem_map.mp hn
    split_ifs <;> decide

end InsightsAggregator

end Notelayer
