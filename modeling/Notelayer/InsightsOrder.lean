import Mathlib.Algebra.Order.Monoid.WithTop
import Mathlib.Data.Prod.Lex
import Mathlib.Data.String.Basic
import Notelayer.InsightsSnapshot

/-!
# The order of the data behind Insights

The counts of the snapshot are sums over the tasks, the events and the buckets, its dates are the
earliest or the latest of some, and its lists are sorted by comparators that tell all their
elements apart, or are rankings of such lists. So the snapshot is the same for any order of the
data (`buildCompleteSnapshot_perm`), up to two inputs : a date that is NaN is neither before nor
after any other, and a bucket with a negative count may undo an overflow
(`buildCompleteSnapshot_order`).
-/

namespace Notelayer

open KeyedList Sorting

/-! ## Dates that are numbers -/

/-- The date is comparable with every other date. -/
def Date.IsNumber (date : Date) : Prop :=
  date.timeIntervalSince1970 ≠ .nan

/-- Where a date lies among the others. -/
def Date.rank (date : Date) : WithBot (WithTop ℚ) :=
  match date.timeIntervalSince1970 with
  | .finite seconds => ((seconds : WithTop ℚ) : WithBot (WithTop ℚ))
  | .infinity => ((⊤ : WithTop ℚ) : WithBot (WithTop ℚ))
  | .negInfinity | .nan => ⊥

theorem Date.lt_iff_rank_lt {d e : Date} (hd : d.IsNumber) (he : e.IsNumber) :
    d < e ↔ d.rank < e.rank := by
  obtain ⟨a⟩ := d
  obtain ⟨b⟩ := e
  change a.lt b = true ↔ _
  cases a <;> cases b <;>
    simp [Date.IsNumber, TimeInterval.lt, Date.rank] at hd he ⊢
  exact WithBot.coe_lt_coe.mpr (WithTop.coe_lt_top _)

theorem Date.eq_of_rank_eq {d e : Date} (hd : d.IsNumber) (he : e.IsNumber)
    (h : d.rank = e.rank) : d = e := by
  obtain ⟨a⟩ := d
  obtain ⟨b⟩ := e
  cases a <;> cases b <;> simp [Date.IsNumber, Date.rank] at hd he h ⊢
  exact h

theorem Date.equals_iff_rank_eq {d e : Date} (hd : d.IsNumber) (he : e.IsNumber) :
    d.equals e ↔ d.rank = e.rank := by
  have heq : d.equals e ↔ d = e := by
    unfold Date.equals Date.IsNumber at *
    simp [hd]
  exact heq.trans ⟨congrArg rank, eq_of_rank_eq hd he⟩

/-- A date before another is a number, and so is that. -/
theorem Date.isNumber_of_lt {d e : Date} (h : d < e) : d.IsNumber ∧ e.IsNumber := by
  obtain ⟨a⟩ := d
  obtain ⟨b⟩ := e
  change a.lt b = true at h
  cases a <;> cases b <;> simp [Date.IsNumber, TimeInterval.lt] at h ⊢

/-! ## The earliest date -/

/-- The earliest date is one of the dates, and none is before it. -/
theorem earliestDate_spec {dates : List Date} (hdates : ∀ d ∈ dates, d.IsNumber) {date : Date}
    (h : earliestDate dates = some date) : date ∈ dates ∧ ∀ d ∈ dates, date.rank ≤ d.rank := by
  cases dates with
  | nil => simp [earliestDate] at h
  | cons first dates =>
    obtain rfl : _ = date := Option.some.inj h
    obtain ⟨hfirst, hrest⟩ := List.forall_mem_cons.mp hdates
    clear h hdates
    induction dates generalizing first with
    | nil => simp
    | cons d dates ih =>
      obtain ⟨hd, hrest⟩ := List.forall_mem_cons.mp hrest
      rw [List.foldl_cons]
      by_cases hlt : d < first
      · rw [if_pos hlt]
        obtain ⟨hmem, hle⟩ := ih d hd hrest
        have hrank := (Date.lt_iff_rank_lt hd hfirst).mp hlt
        refine ⟨List.mem_cons_of_mem first hmem, List.forall_mem_cons.mpr ⟨?_, hle⟩⟩
        exact (hle d List.mem_cons_self).trans hrank.le
      · rw [if_neg hlt]
        obtain ⟨hmem, hle⟩ := ih first hfirst hrest
        obtain ⟨hle₁, hle₂⟩ := List.forall_mem_cons.mp hle
        have hrank : first.rank ≤ d.rank :=
          not_lt.mp fun h => hlt ((Date.lt_iff_rank_lt hd hfirst).mpr h)
        refine ⟨?_, List.forall_mem_cons.mpr
          ⟨hle₁, List.forall_mem_cons.mpr ⟨hle₁.trans hrank, hle₂⟩⟩⟩
        rcases List.mem_cons.mp hmem with heq | hmem
        · rw [heq]
          exact List.mem_cons_self
        · exact List.mem_cons_of_mem first (List.mem_cons_of_mem d hmem)

theorem earliestDate_eq_none_iff {dates : List Date} : earliestDate dates = none ↔ dates = [] := by
  cases dates <;> simp [earliestDate]

/-- The earliest date does not depend on the order. -/
theorem earliestDate_perm {dates dates' : List Date} (hdates : ∀ d ∈ dates, d.IsNumber)
    (h : dates.Perm dates') : earliestDate dates = earliestDate dates' := by
  have hdates' : ∀ d ∈ dates', d.IsNumber := fun d hd => hdates d (h.mem_iff.mpr hd)
  cases hfirst : earliestDate dates with
  | none =>
    rw [earliestDate_eq_none_iff.mp hfirst, List.nil_perm] at h
    rw [h]
    rfl
  | some date =>
    cases hfirst' : earliestDate dates' with
    | none =>
      rw [earliestDate_eq_none_iff.mp hfirst', List.perm_nil] at h
      rw [h] at hfirst
      exact absurd hfirst (by simp [earliestDate])
    | some date' =>
      obtain ⟨hmem, hle⟩ := earliestDate_spec hdates hfirst
      obtain ⟨hmem', hle'⟩ := earliestDate_spec hdates' hfirst'
      refine congrArg some (Date.eq_of_rank_eq (hdates _ hmem) (hdates' _ hmem') ?_)
      exact le_antisymm (hle _ (h.mem_iff.mpr hmem')) (hle' _ (h.mem_iff.mp hmem))

/-- The dates of a calendar are numbers. -/
def Calendar.HasNumbers (calendar : Calendar) : Prop :=
  ∀ year month day date, calendar.date year month day = some date → date.IsNumber

theorem Calendar.hasNumbers_gregorian (z : FixedTimeZone) : (Calendar.gregorian z).HasNumbers := by
  intro year month day date h
  obtain rfl := Option.some.inj h
  exact TimeInterval.noConfusion

theorem isNumber_dateFromDayKey {current : Calendar} (h : current.HasNumbers) {dayKey : String}
    {date : Date} (hdate : dateFromDayKey dayKey current = some date) : date.IsNumber := by
  unfold dateFromDayKey at hdate
  dsimp only at hdate
  split at hdate
  · obtain ⟨year, -, hdate⟩ := Option.bind_eq_some_iff.mp hdate
    obtain ⟨month, -, hdate⟩ := Option.bind_eq_some_iff.mp hdate
    obtain ⟨day, -, hdate⟩ := Option.bind_eq_some_iff.mp hdate
    exact h year month day date hdate
  · exact absurd hdate (by simp)

/-! ## Records -/

/-- A permuted list is mapped to a permuted list. -/
theorem perm_mapM {A B : Type} {f : A → Option B} {l m : List A} (h : l.Perm m) :
    ∀ k, l.mapM f = some k → ∃ k', m.mapM f = some k' ∧ k.Perm k' := by
  induction h with
  | nil => exact fun k hk => ⟨k, hk, .refl k⟩
  | cons a h ih =>
    intro k hk
    rw [List.mapM_cons] at hk ⊢
    obtain ⟨b, hb, hk⟩ := Option.bind_eq_some_iff.mp hk
    obtain ⟨k, hl, hk⟩ := Option.bind_eq_some_iff.mp hk
    obtain rfl := Option.some.inj hk
    obtain ⟨k', hm, hperm⟩ := ih k hl
    exact ⟨b :: k', by simp [hb, hm], hperm.cons b⟩
  | swap a a' l =>
    intro k hk
    simp only [List.mapM_cons] at hk ⊢
    obtain ⟨b', hb', hk⟩ := Option.bind_eq_some_iff.mp hk
    obtain ⟨k, hk', hk⟩ := Option.bind_eq_some_iff.mp hk
    obtain rfl := Option.some.inj hk
    obtain ⟨b, hb, hk'⟩ := Option.bind_eq_some_iff.mp hk'
    obtain ⟨k, hl, hk'⟩ := Option.bind_eq_some_iff.mp hk'
    obtain rfl := Option.some.inj hk'
    exact ⟨b :: b' :: k, by simp [hb, hb', hl], .swap b b' k⟩
  | trans _ _ ih ih' =>
    intro k hk
    obtain ⟨k', hk', hperm⟩ := ih k hk
    obtain ⟨k'', hk'', hperm'⟩ := ih' k' hk'
    exact ⟨k'', hk'', hperm.trans hperm'⟩

/-- The same events and buckets, in any order. -/
structure InsightsTelemetryScopeState.Perm (telemetry telemetry' : InsightsTelemetryScopeState) :
    Prop where
  rawEvents : telemetry.rawEvents.Perm telemetry'.rawEvents
  aggregateBuckets : telemetry.aggregateBuckets.Perm telemetry'.aggregateBuckets

/-- The first use does not depend on the order. -/
theorem firstUsageDate_perm {telemetry telemetry' : InsightsTelemetryScopeState}
    (h : telemetry.Perm telemetry') {current : Calendar} (hcurrent : current.HasNumbers)
    (hevents : ∀ event ∈ telemetry.rawEvents, event.timestampUTC.IsNumber) :
    firstUsageDate telemetry current = firstUsageDate telemetry' current := by
  have hraw : ∀ date ∈ telemetry.rawEvents.map InsightsTelemetryEvent.timestampUTC,
      date.IsNumber := by
    intro date hdate
    obtain ⟨event, hevent, rfl⟩ := List.mem_map.mp hdate
    exact hevents event hevent
  have haggregate : ∀ date ∈ telemetry.aggregateBuckets.filterMap fun bucket =>
      dateFromDayKey bucket.dayKey current, date.IsNumber := by
    intro date hdate
    obtain ⟨bucket, -, hdate⟩ := List.mem_filterMap.mp hdate
    exact isNumber_dateFromDayKey hcurrent hdate
  unfold firstUsageDate
  dsimp only
  rw [earliestDate_perm hraw (h.rawEvents.map _),
    earliestDate_perm haggregate (h.aggregateBuckets.filterMap _)]

namespace InsightsAggregator

/-- The records do not depend on the order, but for their own. -/
theorem normalizeTelemetry_perm {telemetry telemetry' : InsightsTelemetryScopeState}
    (h : telemetry.Perm telemetry') (calendar : Calendar) :
    normalizeTelemetry telemetry calendar = none ∧ normalizeTelemetry telemetry' calendar = none ∨
      ∃ records records', normalizeTelemetry telemetry calendar = some records ∧
        normalizeTelemetry telemetry' calendar = some records' ∧ records.Perm records' := by
  unfold normalizeTelemetry
  have hbuckets := h.aggregateBuckets.map (recordOfBucket calendar)
  cases hevents : telemetry.rawEvents.mapM (recordOfEvent calendar) with
  | none =>
    refine Or.inl ⟨rfl, ?_⟩
    cases hevents' : telemetry'.rawEvents.mapM (recordOfEvent calendar) with
    | none => rfl
    | some records =>
      obtain ⟨_, hsome, -⟩ := perm_mapM h.rawEvents.symm records hevents'
      exact absurd (hevents.symm.trans hsome) (by simp)
  | some records =>
    obtain ⟨records', hevents', hperm⟩ := perm_mapM h.rawEvents records hevents
    exact Or.inr ⟨_, _, rfl, by rw [hevents', Option.map_some], hperm.append hbuckets⟩

/-- An event counts once, and a bucket as often as it says. -/
theorem count_nonneg {telemetry : InsightsTelemetryScopeState} {calendar : Calendar}
    {records : List InsightsTelemetryRecord}
    (h : normalizeTelemetry telemetry calendar = some records)
    (hcounts : ∀ bucket ∈ telemetry.aggregateBuckets, 0 ≤ bucket.count) :
    ∀ record ∈ records, 0 ≤ record.count := by
  obtain ⟨eventRecords, hevents, rfl⟩ := Option.map_eq_some_iff.mp h
  intro record hrecord
  rcases List.mem_append.mp hrecord with hrecord | hrecord
  · obtain ⟨event, -, hevent⟩ := exists_of_forall₂ (forall₂_of_mapM hevents) hrecord
    obtain ⟨⟨day, hour⟩, -, rfl⟩ := Option.map_eq_some_iff.mp hevent
    exact Int.one_nonneg
  · obtain ⟨bucket, hbucket, rfl⟩ := List.mem_map.mp hrecord
    exact hcounts bucket hbucket

/-! ## Counts -/

theorem adds_addCount {A K : Type} [DecidableEq K] (key : A → K) (n : A → ℤ) :
    Tally.Adds fun counts a => addCount counts (key a) (n a) :=
  ⟨fun a k => if k = key a then n a else 0, fun counts _ k => addCount_apply counts _ _ k⟩

theorem adds_countCategories {A : Type} (ids : A → List String) (n : A → ℤ) :
    Tally.Adds fun counts a => countCategories (ids a) (n a) counts :=
  ⟨fun a k => n a * categoryCount (ids a) k, fun counts _ k => countCategories_apply _ _ counts k⟩

theorem adds_countDay (startDate endDate : Date) (calendar : Calendar) :
    Tally.Adds (countDay startDate endDate calendar) :=
  (adds_addCount calendar.startOfDay fun _ => 1).ite fun date =>
    (startDate.atMost (calendar.startOfDay date) &&
      (calendar.startOfDay date).atMost endDate) = true

/-- A loop that counts the completed tasks. -/
theorem adds_completedAt {K : Type} {f : (K → ℤ) → Date → K → ℤ} (h : Tally.Adds f)
    {f' : (K → ℤ) → Task → K → ℤ}
    (hf' : ∀ counts task, f' counts task = task.completedAt.elim counts (f counts)) :
    Tally.Adds f' := by
  obtain ⟨g, hg⟩ := h
  refine ⟨fun task k => task.completedAt.elim 0 fun completedAt => g completedAt k,
    fun counts task k => ?_⟩
  cases hcompleted : task.completedAt <;> simp [hf', hcompleted, hg]

section Statistics

variable {tasks tasks' : List Task} {records records' : List InsightsTelemetryRecord}

theorem buildTaskTrend_perm (h : tasks.Perm tasks') (fuel : ℕ) (startDate endDate : Date)
    (calendar : Calendar) : buildTaskTrend fuel tasks startDate endDate calendar =
      buildTaskTrend fuel tasks' startDate endDate calendar := by
  have hday := adds_countDay startDate endDate calendar
  refine congrArg (Option.map · _) (funext fun days => List.map_congr_left fun day _ => ?_)
  congr 1
  · exact congrFun ((hday.comp Task.createdAt).foldl_eq h _) day
  · exact congrFun (Tally.Adds.foldl_eq (adds_completedAt hday fun counts task => by
      cases task.completedAt <;> rfl) h _) day

/-- The earliest day does not depend on the order. -/
theorem earliestTaskDay_perm (h : tasks.Perm tasks')
    (hdates : ∀ task ∈ tasks, task.createdAt.IsNumber ∧
      ∀ completedAt ∈ task.completedAt, completedAt.IsNumber)
    (fallback : Date) (calendar : Calendar) :
    earliestTaskDay tasks fallback calendar = earliestTaskDay tasks' fallback calendar := by
  have hcandidates : ∀ date ∈ tasks.flatMap fun task => task.createdAt :: task.completedAt.toList,
      date.IsNumber := by
    intro date hdate
    obtain ⟨task, htask, hdate⟩ := List.mem_flatMap.mp hdate
    rcases List.mem_cons.mp hdate with rfl | hdate
    · exact (hdates task htask).1
    · exact (hdates task htask).2 date (Option.mem_toList.mp hdate)
  unfold earliestTaskDay
  dsimp only
  rw [earliestDate_perm hcandidates (h.flatMap_right _)]

/-- The hours do not depend on the order. -/
theorem buildHourBuckets_perm (h : tasks.Perm tasks') (hr : records.Perm records')
    (calendar : Calendar) :
    buildHourBuckets tasks records calendar = buildHourBuckets tasks' records' calendar := by
  have hhour := adds_addCount calendar.hour fun _ => 1
  have husage := adds_addCount InsightsTelemetryRecord.hour InsightsTelemetryRecord.count
  unfold buildHourBuckets
  refine List.map_congr_left fun hour _ => ?_
  congr 1
  · exact congrFun ((hhour.comp Task.createdAt).foldl_eq h _) _
  · exact congrFun (Tally.Adds.foldl_eq (adds_completedAt hhour fun counts task => by
      cases task.completedAt <;> rfl) h _) _
  · exact congrFun (husage.foldl_eq hr _) _

/-- The statistic of a category does not depend on the order. -/
theorem categoryUsageStat_perm (h : tasks.Perm tasks') {categories categories' : List Category}
    (hmeta : categoryMeta categories = categoryMeta categories') (hr : records.Perm records')
    (windowStart now : Date) :
    categoryUsageStat tasks categories records windowStart now =
      categoryUsageStat tasks' categories' records' windowStart now := by
  have hcategories := adds_countCategories Task.categories fun _ => 1
  have hexport := (adds_countCategories InsightsTelemetryRecord.categoryIds
    InsightsTelemetryRecord.count).ite fun record =>
      record.featureKey = InsightsFeatureKey.calendarExportInitiated
  have hdenominator := (adds_countCategories (fun task : Task => task.categories.dedup)
    fun _ => 1).ite fun task => isActiveInWindow windowStart now task = true
  ext categoryId
  unfold categoryUsageStat
  simp only [hmeta, hcategories.foldl_eq h, (hcategories.ite _).foldl_eq h,
    (hcategories.ite_not _).foldl_eq h, hexport.foldl_eq hr, hdenominator.foldl_eq h]

/-- The last use of a feature that is used at a date. -/
def lastUse (existing : Option Date) (date : Date) : Option Date :=
  if existing.getD Date.distantPast < date then some date else existing

/-- Of two uses the later one counts. -/
theorem lastUse_of_lt (existing : Option Date) {d e : Date} (h : d < e) :
    lastUse (lastUse existing d) e = lastUse existing e ∧
      lastUse (lastUse existing e) d = lastUse existing e := by
  have hasymm : ¬e < d := by
    obtain ⟨hd, he⟩ := Date.isNumber_of_lt h
    rw [Date.lt_iff_rank_lt hd he] at h
    rw [Date.lt_iff_rank_lt he hd]
    exact h.asymm
  unfold lastUse
  by_cases hd : existing.getD Date.distantPast < d
  · have he := Date.lt_trans hd h
    simp [hd, he, h, hasymm]
  · by_cases he : existing.getD Date.distantPast < e <;> simp [hd, he, hasymm]

/-- Two uses may be exchanged. -/
theorem lastUse_comm (existing : Option Date) (d e : Date) :
    lastUse (lastUse existing d) e = lastUse (lastUse existing e) d := by
  by_cases hlt : d < e
  · exact (lastUse_of_lt existing hlt).1.trans (lastUse_of_lt existing hlt).2.symm
  by_cases hlt' : e < d
  · exact (lastUse_of_lt existing hlt').2.trans (lastUse_of_lt existing hlt').1.symm
  unfold lastUse
  by_cases hd : existing.getD Date.distantPast < d
  · by_cases he : existing.getD Date.distantPast < e
    · have hn := (Date.isNumber_of_lt hd).2
      have hn' := (Date.isNumber_of_lt he).2
      rw [Date.lt_iff_rank_lt hn hn', not_lt] at hlt
      rw [Date.lt_iff_rank_lt hn' hn, not_lt] at hlt'
      rw [Date.eq_of_rank_eq hn hn' (le_antisymm hlt' hlt)]
    · simp [hd, he, hlt]
  · by_cases he : existing.getD Date.distantPast < e <;> simp [hd, he, hlt']

theorem lastUsed_step (lastUsed : String → Option Date) (record : InsightsTelemetryRecord) :
    (if (lastUsed record.featureKey).getD Date.distantPast < record.timestampForOrdering then
      Function.update lastUsed record.featureKey (some record.timestampForOrdering)
    else lastUsed) = Function.update lastUsed record.featureKey
      (lastUse (lastUsed record.featureKey) record.timestampForOrdering) := by
  unfold lastUse
  split_ifs
  · rfl
  · rw [Function.update_eq_self]

/-- Neither dates nor features get in the way of each other. -/
theorem lastUsed_perm (h : records.Perm records') (lastUsed : String → Option Date) :
    records.foldl (fun (lastUsed : String → Option Date) record =>
      if (lastUsed record.featureKey).getD Date.distantPast < record.timestampForOrdering then
        Function.update lastUsed record.featureKey (some record.timestampForOrdering)
      else lastUsed) lastUsed =
    records'.foldl (fun (lastUsed : String → Option Date) record =>
      if (lastUsed record.featureKey).getD Date.distantPast < record.timestampForOrdering then
        Function.update lastUsed record.featureKey (some record.timestampForOrdering)
      else lastUsed) lastUsed := by
  simp only [lastUsed_step]
  refine h.foldl_eq' (fun r _ r' _ lastUsed => ?_) lastUsed
  by_cases hkey : r.featureKey = r'.featureKey
  · simp only [hkey, Function.update_self, Function.update_idem]
    rw [lastUse_comm]
  · simp only [Function.update_of_ne hkey, Function.update_of_ne (Ne.symm hkey)]
    rw [Function.update_comm hkey]

theorem buildFeatureStats_perm (hr : records.Perm records') (windowStart now : Date) :
    buildFeatureStats records windowStart now = buildFeatureStats records' windowStart now := by
  have hcount := adds_addCount InsightsTelemetryRecord.featureKey InsightsTelemetryRecord.count
  unfold buildFeatureStats
  simp only [hcount.foldl_eq hr, (hcount.ite _).foldl_eq hr, lastUsed_perm hr]

end Statistics

/-! ## Sorted lists -/

/-- The place of a category among the rows. -/
def categoryIdKey (categories : List Category) (id : String) : Bool ×ₗ ℤ ×ₗ String :=
  if id = uncategorizedCategoryId then toLex (true, toLex (0, ""))
  else toLex (false,
    toLex (((categoryMeta categories id).map Category.order).getD (2 ^ 63 - 1), id))

/-- The order of the categories is that of a key. -/
theorem categoryIdPrecedes_iff (categories : List Category) (a b : String) :
    categoryIdPrecedes categories a b ↔
      categoryIdKey categories a < categoryIdKey categories b := by
  unfold categoryIdPrecedes categoryIdKey
  by_cases ha : a = uncategorizedCategoryId <;> by_cases hb : b = uncategorizedCategoryId
  · simp [ha, hb]
  · simp [ha, hb, Prod.Lex.toLex_lt_toLex]
  · simp [ha, hb, Prod.Lex.toLex_lt_toLex]
  · simp only [ha, hb, if_false, Prod.Lex.toLex_lt_toLex, lt_irrefl, false_or, true_and]
    split_ifs with horder
    · simpa using fun heq => absurd heq horder
    · rw [not_not.mp horder]
      simp

theorem categoryIdKey_injective (categories : List Category) :
    Function.Injective (categoryIdKey categories) := by
  intro a b h
  unfold categoryIdKey at h
  by_cases ha : a = uncategorizedCategoryId <;> by_cases hb : b = uncategorizedCategoryId
  · rw [ha, hb]
  · simp [ha, hb] at h
  · simp [ha, hb] at h
  · simp only [ha, hb, if_false, EmbeddingLike.apply_eq_iff_eq, Prod.mk.injEq, true_and] at h
    exact h.2

/-- However the ids are sorted, they come in the order of the rows. -/
theorem sorted_categoryIds (sorter : Sorter) (setOrder : SetOrder String)
    (categories : List Category) :
    sorter.sorted (categoryIdPrecedes categories)
      (setOrder.elements (categories.map Category.id ++ [uncategorizedCategoryId])) =
        sortedIds categories :=
  sorter.sorted_eq_sorted .insertion
    (fun a _ b _ => categoryIdPrecedes_iff categories a b)
    (fun _ _ _ _ h => categoryIdKey_injective categories h)
    (setOrder.perm .dedup fun _ => Iff.rfl)

theorem categoryMeta_perm {categories categories' : List Category}
    (hd : DistinctKeys Category.id categories) (h : categories.Perm categories') :
    categoryMeta categories = categoryMeta categories' := by
  refine h.foldl_eq' (fun c hc c' hc' result => ?_) _
  by_cases hid : c.id = c'.id
  · obtain rfl : c = c' := List.inj_on_of_nodup_map hd hc hc' hid
    rfl
  · rw [Function.update_comm hid]

/-- The place of a task among the oldest. -/
def summaryKey (summary : InsightsOldestOpenTaskSummary) :
    ℤᵒᵈ ×ₗ WithBot (WithTop ℚ) ×ₗ String :=
  toLex (OrderDual.toDual summary.ageDays, toLex (summary.createdAt.rank, summary.taskId))

/-- The order of the open tasks is that of a key. -/
theorem summaryPrecedes_iff {a b : InsightsOldestOpenTaskSummary} (ha : a.createdAt.IsNumber)
    (hb : b.createdAt.IsNumber) : summaryPrecedes a b ↔ summaryKey a < summaryKey b := by
  unfold summaryPrecedes summaryKey
  simp only [Prod.Lex.toLex_lt_toLex, OrderDual.toDual_lt_toDual, EmbeddingLike.apply_eq_iff_eq]
  by_cases hage : a.ageDays = b.ageDays
  · simp only [hage, lt_irrefl, ne_eq, not_true_eq_false, if_false, false_or, true_and,
      Date.equals_iff_rank_eq ha hb]
    by_cases hcreated : a.createdAt.rank = b.createdAt.rank
    · simp [hcreated]
    · simp [hcreated, Date.lt_iff_rank_lt ha hb]
  · simp [hage]

/-- The open tasks come out in the same order, whatever order they came in. -/
theorem oldestOpenTasks_perm (sorter : Sorter) {tasks tasks' : List Task}
    (hd : DistinctKeys Task.id tasks) (hdates : ∀ task ∈ tasks, task.createdAt.IsNumber)
    (h : tasks.Perm tasks') (now : Date) (calendar : InsightsCalendar) :
    oldestOpenTasks sorter tasks now calendar = oldestOpenTasks sorter tasks' now calendar := by
  have hsummary : ∀ summary ∈ (tasks.filter fun task => task.completedAt = none).map
      (openTaskSummary now calendar),
      ∃ task ∈ tasks, openTaskSummary now calendar task = summary := by
    intro summary hsummary
    obtain ⟨task, htask, rfl⟩ := List.mem_map.mp hsummary
    exact ⟨task, List.mem_of_mem_filter htask, rfl⟩
  have hprecedes : ∀ a ∈ (tasks.filter fun task => task.completedAt = none).map
        (openTaskSummary now calendar),
      ∀ b ∈ (tasks.filter fun task => task.completedAt = none).map (openTaskSummary now calendar),
        summaryPrecedes a b ↔ summaryKey a < summaryKey b := by
    intro a ha b hb
    obtain ⟨task, htask, rfl⟩ := hsummary a ha
    obtain ⟨task', htask', rfl⟩ := hsummary b hb
    exact summaryPrecedes_iff (hdates task htask) (hdates task' htask')
  refine sorter.sorted_eq_sorted sorter hprecedes (fun a ha b hb hkey => ?_) ((h.filter _).map _)
  · obtain ⟨task, htask, rfl⟩ := hsummary a ha
    obtain ⟨task', htask', rfl⟩ := hsummary b hb
    have hid : task.id = task'.id := by
      simp only [summaryKey, EmbeddingLike.apply_eq_iff_eq, Prod.mk.injEq] at hkey
      exact hkey.2.2
    rw [List.inj_on_of_nodup_map hd htask htask' hid]

/-! ## Overflow -/

/-- Counts that are not negative overflow in every order or in none. -/
theorem additionsFit_perm {K : Type} [DecidableEq K] {additions additions' : List (K × ℤ)}
    (h : additions.Perm additions') (hn : ∀ a ∈ additions, 0 ≤ a.2) :
    additionsFit additions = additionsFit additions' := by
  have hn' : ∀ a ∈ additions', 0 ≤ a.2 := fun a ha => hn a (h.mem_iff.mpr ha)
  have hrange : ∀ x y : ℤ, 0 ≤ x → x ≤ y → -2 ^ 63 ≤ y ∧ y < 2 ^ 63 → -2 ^ 63 ≤ x ∧ x < 2 ^ 63 := by
    omega
  unfold additionsFit
  rw [Bool.eq_iff_iff, Tally.isSome_foldlM_checkedAdd_iff hrange (fun _ => le_rfl) hn,
    Tally.isSome_foldlM_checkedAdd_iff hrange (fun _ => le_rfl) hn']
  simp only [Tally.total_perm h, h.mem_iff]

/-- Whether the counts fit does not depend on the order. -/
theorem countsFit_perm {records records' : List InsightsTelemetryRecord}
    (h : records.Perm records') (hn : ∀ record ∈ records, 0 ≤ record.count)
    (windowStart now : Date) :
    countsFit records windowStart now = countsFit records' windowStart now := by
  have hexport : ∀ a ∈ records.flatMap exportAdditions, 0 ≤ a.2 := by
    intro a ha
    obtain ⟨record, hrecord, ha⟩ := List.mem_flatMap.mp ha
    have hcount : a.2 = record.count := by
      unfold exportAdditions at ha
      split_ifs at ha
      · rw [List.mem_singleton.mp ha]
      · obtain ⟨categoryId, -, rfl⟩ := List.mem_map.mp ha
        rfl
      · exact absurd ha List.not_mem_nil
    rw [hcount]
    exact hn record hrecord
  have hmap : ∀ {K : Type} (key : InsightsTelemetryRecord → K) (p : InsightsTelemetryRecord → Bool),
      ∀ a ∈ (records.filter p).map fun record => (key record, record.count), 0 ≤ a.2 := by
    intro K key p a ha
    obtain ⟨record, hrecord, rfl⟩ := List.mem_map.mp ha
    exact hn record (List.mem_of_mem_filter hrecord)
  have hall := List.filter_true records
  unfold countsFit
  rw [additionsFit_perm (h.flatMap_right _) hexport,
    additionsFit_perm (h.map _)
      (by simpa [hall] using hmap InsightsTelemetryRecord.hour fun _ => true),
    additionsFit_perm (h.map _)
      (by simpa [hall] using hmap InsightsTelemetryRecord.featureKey fun _ => true),
    additionsFit_perm ((h.filter _).map _) (hmap InsightsTelemetryRecord.featureKey _)]

/-! ## The snapshot -/

/-- The categories come out in the same order, whatever order they came in. -/
theorem sortedIds_perm {categories categories' : List Category}
    (hd : DistinctKeys Category.id categories) (h : categories.Perm categories') :
    sortedIds categories = sortedIds categories' := by
  have hprecedes : categoryIdPrecedes categories = categoryIdPrecedes categories' := by
    ext a b
    unfold categoryIdPrecedes
    rw [categoryMeta_perm hd h]
  rw [← sorted_categoryIds .insertion .dedup, ← sorted_categoryIds .insertion .dedup, hprecedes]
  refine Sorter.sorted_eq_sorted _ _ (fun a _ b _ => categoryIdPrecedes_iff categories' a b)
    (fun _ _ _ _ h => categoryIdKey_injective categories' h) (SetOrder.perm _ _ fun a => ?_)
  exact ((h.map Category.id).append_right _).mem_iff

/-- The statistics that both models have are those of `buildSnapshot`. -/
theorem buildSnapshot_of_buildCompleteSnapshot {sorter : Sorter} {setOrder : SetOrder String}
    {fuel : ℕ} {tasks : List Task} {categories : List Category}
    {telemetry : InsightsTelemetryScopeState} {selectedWindow : InsightsWindow} {now : Date}
    {calendar : InsightsCalendar} {current : Calendar} {model : CompleteSnapshotModel}
    (h : buildCompleteSnapshot sorter setOrder fuel tasks categories telemetry selectedWindow now
      calendar current = some model) :
    buildSnapshot tasks categories telemetry selectedWindow now calendar.toCalendar =
        some model.toInsightsSnapshotModel ∧
      ∃ records, normalizeTelemetry telemetry calendar.toCalendar = some records ∧
        countsFit records (windowStart selectedWindow now calendar.toCalendar) now := by
  unfold buildCompleteSnapshot at h
  obtain ⟨trendWindow, -, h⟩ := Option.bind_eq_some_iff.mp h
  obtain ⟨trendAllTime, -, h⟩ := Option.bind_eq_some_iff.mp h
  obtain ⟨records, hrecords, h⟩ := Option.bind_eq_some_iff.mp h
  obtain ⟨_, hfit, h⟩ := Option.bind_eq_some_iff.mp h
  obtain ⟨-, -, h⟩ := Option.bind_eq_some_iff.mp h
  obtain rfl := Option.some.inj h
  refine ⟨?_, records, hrecords, ?_⟩
  · unfold buildSnapshot buildCategoryStats
    dsimp only
    rw [hrecords, sorted_categoryIds]
    rfl
  · simpa using hfit

/-- What the lists of a snapshot are made from. -/
structure IsBuilt (sorter : Sorter) (fuel : ℕ) (tasks : List Task) (categories : List Category)
    (telemetry : InsightsTelemetryScopeState) (selectedWindow : InsightsWindow) (now : Date)
    (calendar : InsightsCalendar) (records : List InsightsTelemetryRecord)
    (model : CompleteSnapshotModel) : Prop where
  normalized : normalizeTelemetry telemetry calendar.toCalendar = some records
  start : model.windowStart = windowStart selectedWindow now calendar.toCalendar
  totals : model.totals =
    { all := (topLevelTasks tasks).length
      open' := ((topLevelTasks tasks).filter fun task => task.completedAt = none).length
      done := ((topLevelTasks tasks).filter fun task => task.completedAt ≠ none).length }
  trendWindow : buildTaskTrend fuel (topLevelTasks tasks)
    (windowStart selectedWindow now calendar.toCalendar) (calendar.startOfDay now)
    calendar.toCalendar = some model.trendWindow
  trendAllTime : buildTaskTrend fuel (topLevelTasks tasks)
    (earliestTaskDay (topLevelTasks tasks) (calendar.startOfDay now) calendar.toCalendar)
    (calendar.startOfDay now) calendar.toCalendar = some model.trendAllTime
  hourBuckets : model.hourBuckets =
    buildHourBuckets (topLevelTasks tasks) records calendar.toCalendar
  categoryStats : model.categoryStats = buildCategoryStats (topLevelTasks tasks) categories records
    (windowStart selectedWindow now calendar.toCalendar) now
  featureStats : model.featureStats =
    buildFeatureStats records (windowStart selectedWindow now calendar.toCalendar) now
  preview : model.oldestOpenTasksPreview =
    (oldestOpenTasks sorter (topLevelTasks tasks) now calendar).take 3
  drilldown : model.oldestOpenTasksDrilldown =
    (oldestOpenTasks sorter (topLevelTasks tasks) now calendar).take 50
  ageBuckets : model.openTaskAgeBuckets =
    openTaskAgeBuckets (oldestOpenTasks sorter (topLevelTasks tasks) now calendar)
  rankedFeatures : model.mostUsedFeatures = rankFeatures sorter model.featureStats .descending ∧
    model.leastUsedFeatures = rankFeatures sorter model.featureStats .ascending
  rankedCategories :
    model.mostUsedCategories = rankCategories sorter model.categoryStats .descending ∧
    model.leastUsedCategories = rankCategories sorter model.categoryStats .ascending
  rankedHours : model.mostUsedHours = rankHours sorter model.hourBuckets .descending ∧
    model.leastUsedHours = rankHours sorter model.hourBuckets .ascending

/-- A snapshot that is built is what its parts say. -/
theorem isBuilt_of_buildCompleteSnapshot {sorter : Sorter} {setOrder : SetOrder String}
    {fuel : ℕ} {tasks : List Task} {categories : List Category}
    {telemetry : InsightsTelemetryScopeState} {selectedWindow : InsightsWindow} {now : Date}
    {calendar : InsightsCalendar} {current : Calendar} {model : CompleteSnapshotModel}
    (h : buildCompleteSnapshot sorter setOrder fuel tasks categories telemetry selectedWindow now
      calendar current = some model) :
    ∃ records, IsBuilt sorter fuel tasks categories telemetry selectedWindow now calendar records
      model := by
  unfold buildCompleteSnapshot at h
  obtain ⟨trendWindow, hwindow, h⟩ := Option.bind_eq_some_iff.mp h
  obtain ⟨trendAllTime, hall, h⟩ := Option.bind_eq_some_iff.mp h
  obtain ⟨records, hrecords, h⟩ := Option.bind_eq_some_iff.mp h
  obtain ⟨-, -, h⟩ := Option.bind_eq_some_iff.mp h
  obtain ⟨-, -, h⟩ := Option.bind_eq_some_iff.mp h
  obtain rfl := Option.some.inj h
  exact ⟨records, hrecords, rfl, rfl, hwindow, hall, rfl, by rw [sorted_categoryIds]; rfl, rfl, rfl,
    rfl, rfl, ⟨rfl, rfl⟩, ⟨rfl, rfl⟩, ⟨rfl, rfl⟩⟩

section Permuted

variable (sorter : Sorter) (setOrder setOrder' : SetOrder String) {tasks tasks' : List Task}
  {categories categories' : List Category}
  {telemetry telemetry' : InsightsTelemetryScopeState} (selectedWindow : InsightsWindow)
  (now : Date) (calendar : InsightsCalendar) {current : Calendar}

/-- The snapshots differ in nothing but whether the counts of telemetry fit. -/
theorem buildCompleteSnapshot_eq_of_countsFit (htasks : tasks.Perm tasks')
    (hids : DistinctKeys Task.id tasks) (hcategories : categories.Perm categories')
    (hcategoryIds : DistinctKeys Category.id categories) (htelemetry : telemetry.Perm telemetry')
    (hdates : ∀ task ∈ topLevelTasks tasks, task.createdAt.IsNumber ∧
      ∀ completedAt ∈ task.completedAt, completedAt.IsNumber)
    (hevents : ∀ event ∈ telemetry.rawEvents, event.timestampUTC.IsNumber)
    (hcurrent : current.HasNumbers)
    (hfit : ∀ records records',
      normalizeTelemetry telemetry calendar.toCalendar = some records →
      normalizeTelemetry telemetry' calendar.toCalendar = some records' →
      records.Perm records' →
        countsFit records (windowStart selectedWindow now calendar.toCalendar) now =
          countsFit records' (windowStart selectedWindow now calendar.toCalendar) now)
    (fuel : ℕ) :
    buildCompleteSnapshot sorter setOrder fuel tasks categories telemetry selectedWindow now
        calendar current =
      buildCompleteSnapshot sorter setOrder' fuel tasks' categories' telemetry' selectedWindow
        now calendar current := by
  have htop : (topLevelTasks tasks).Perm (topLevelTasks tasks') := htasks.filter _
  have htopIds : DistinctKeys Task.id (topLevelTasks tasks) := hids.sublist List.filter_sublist
  have hmeta := categoryMeta_perm hcategoryIds hcategories
  unfold buildCompleteSnapshot
  simp only [sorted_categoryIds, sortedIds_perm hcategoryIds hcategories,
    earliestTaskDay_perm htop hdates, buildTaskTrend_perm htop, htop.length_eq,
    (htop.filter _).length_eq, oldestOpenTasks_perm sorter htopIds (fun task h => (hdates task h).1)
      htop, firstUsageDate_perm htelemetry hcurrent hevents]
  rcases normalizeTelemetry_perm htelemetry calendar.toCalendar with
    ⟨hnone, hnone'⟩ | ⟨records, records', hrecords, hrecords', hperm⟩
  · simp only [hnone, hnone', Option.bind_eq_bind, Option.bind_none]
  · simp only [hrecords, hrecords', Option.bind_eq_bind, Option.bind_some,
      hfit records records' hrecords hrecords' hperm,
      buildHourBuckets_perm htop hperm, categoryUsageStat_perm htop hmeta hperm,
      buildFeatureStats_perm hperm]

/-- For any order of the data the snapshot is the same, if it is computed. Without negative counts
it is computed for all orders or for none, and then after finitely many steps. -/
theorem buildCompleteSnapshot_perm (htasks : tasks.Perm tasks') (hids : DistinctKeys Task.id tasks)
    (hcategories : categories.Perm categories')
    (hcategoryIds : DistinctKeys Category.id categories) (htelemetry : telemetry.Perm telemetry')
    (hdates : ∀ task ∈ topLevelTasks tasks, task.createdAt.IsNumber ∧
      ∀ completedAt ∈ task.completedAt, completedAt.IsNumber)
    (hevents : ∀ event ∈ telemetry.rawEvents, event.timestampUTC.IsNumber)
    (hcurrent : current.HasNumbers) :
    (∀ fuel model model',
      buildCompleteSnapshot sorter setOrder fuel tasks categories telemetry selectedWindow now
        calendar current = some model →
      buildCompleteSnapshot sorter setOrder' fuel tasks' categories' telemetry' selectedWindow
        now calendar current = some model' → model = model') ∧
    ((∀ bucket ∈ telemetry.aggregateBuckets, 0 ≤ bucket.count) → ∀ fuel,
      buildCompleteSnapshot sorter setOrder fuel tasks categories telemetry selectedWindow now
          calendar current =
        buildCompleteSnapshot sorter setOrder' fuel tasks' categories' telemetry' selectedWindow
          now calendar current) ∧
    (calendar.DaysAdvance → now.timeIntervalSince1970.isFinite →
      ∃ n result, ∀ fuel, n ≤ fuel →
        buildCompleteSnapshot sorter setOrder fuel tasks categories telemetry selectedWindow now
          calendar current = result) := by
  have heq := buildCompleteSnapshot_eq_of_countsFit sorter setOrder setOrder' selectedWindow now
    calendar htasks hids hcategories hcategoryIds htelemetry hdates hevents hcurrent
  refine ⟨fun fuel model model' h h' => ?_, fun hcounts => ?_, fun hadvance hnow => ?_⟩
  · obtain ⟨-, records, hrecords, hfit⟩ := buildSnapshot_of_buildCompleteSnapshot h
    obtain ⟨-, records', hrecords', hfit'⟩ := buildSnapshot_of_buildCompleteSnapshot h'
    refine Option.some.inj (h.symm.trans ((heq (fun r r' hr hr' _ => ?_) fuel).trans h'))
    obtain rfl := Option.some.inj (hrecords.symm.trans hr)
    obtain rfl := Option.some.inj (hrecords'.symm.trans hr')
    exact hfit.trans hfit'.symm
  · exact heq fun records records' hrecords _ hperm =>
      countsFit_perm hperm (count_nonneg hrecords hcounts) _ _
  · exact exists_buildCompleteSnapshot_eq sorter setOrder tasks categories telemetry
      selectedWindow hnow hadvance current

end Permuted

/-! ## Two samples -/

/-- An open task, for the samples below. -/
def sampleTask (id : String) (createdAt : Date) : Task :=
  { id := id, title := "Plan", createdAt := createdAt, updatedAt := .seconds 0 }

/-- A bucket that stands for `count` events, for the samples below. -/
def sampleBucket (count : ℤ) : InsightsTelemetryAggregateBucket where
  dayKey := "1970-01-01"
  hour := 0
  eventName := "view_open"
  featureKey := "view_open"
  tabName := none
  viewName := none
  categoryIds := []
  count := count
  userScopeKey := "anonymous"

/-- The snapshot of some tasks and counts in the first minute of 1970. -/
def sampleSnapshot (tasks : List Task) (counts : List ℤ) : Option CompleteSnapshotModel :=
  buildCompleteSnapshot .insertion .dedup 8 tasks [] { aggregateBuckets := counts.map sampleBucket }
    .days7 (.seconds 60) (InsightsCalendar.gregorian .gmt) (Calendar.gregorian .gmt)

theorem buildCompleteSnapshot_perm_swap :
    (sampleSnapshot [sampleTask "a" (.seconds 0), sampleTask "b" (.seconds 0)] [1, 2]).isSome ∧
      sampleSnapshot [sampleTask "a" (.seconds 0), sampleTask "b" (.seconds 0)] [1, 2] =
        sampleSnapshot [sampleTask "b" (.seconds 0), sampleTask "a" (.seconds 0)] [2, 1] := by
  have htasks : [sampleTask "a" (.seconds 0), sampleTask "b" (.seconds 0)].Perm
      [sampleTask "b" (.seconds 0), sampleTask "a" (.seconds 0)] := .swap _ _ []
  have htelemetry : InsightsTelemetryScopeState.Perm
      { aggregateBuckets := [1, 2].map sampleBucket }
      { aggregateBuckets := [2, 1].map sampleBucket } :=
    ⟨.rfl, (List.Perm.swap 2 1 []).map sampleBucket⟩
  have hperm := buildCompleteSnapshot_perm .insertion .dedup .dedup .days7 (.seconds 60)
    (InsightsCalendar.gregorian .gmt) htasks (by decide) (.refl []) List.nodup_nil htelemetry
    (by simp [topLevelTasks, sampleTask, Date.IsNumber, Date.seconds]) (by simp)
    (Calendar.hasNumbers_gregorian .gmt)
  exact ⟨by decide +kernel, hperm.2.1 (by simp [sampleBucket]) 8⟩

/-- An order in which a negative count comes too late overflows, and tasks created at no number are
not told apart. -/
theorem not_buildCompleteSnapshot_perm :
    (sampleSnapshot [] [2 ^ 63 - 1, -1, 1]).isSome ∧
      sampleSnapshot [] [2 ^ 63 - 1, 1, -1] = none ∧
      (sampleSnapshot [sampleTask "a" ⟨.nan⟩, sampleTask "b" ⟨.nan⟩] []).isSome ∧
      sampleSnapshot [sampleTask "a" ⟨.nan⟩, sampleTask "b" ⟨.nan⟩] [] ≠
        sampleSnapshot [sampleTask "b" ⟨.nan⟩, sampleTask "a" ⟨.nan⟩] [] := by
  decide +kernel

end InsightsAggregator

end Notelayer
