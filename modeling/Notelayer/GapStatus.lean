import Mathlib.Data.List.GetD
import Notelayer.InsightsOrder

/-!
# The gap status of a feature that is used

A feature is used, underused or unused by its count in the window, against a threshold of 3 or the
25th percentile of the counts of all features. Using a feature raises the percentile as well, but
not beyond the count of the feature if that was at the percentile before
(`percentile25_le_iff`) : the status of the feature does not go down
(`level_gapStatus_le_of_perm`). A bucket with a negative count breaks this, as the events after it
may bring the count back to 0.
-/

namespace Notelayer

open Sorting

/-- The place of a status in the order unused, underused, used. -/
def InsightsGapStatus.level : InsightsGapStatus → ℕ
  | unused => 0
  | underused => 1
  | used => 2

namespace InsightsAggregator

/-! ## The percentile -/

/-- A bound of the percentile is a bound of more than a quarter of the values. -/
theorem percentile25_le_iff {values : List ℤ} (h : values ≠ []) (c : ℤ) :
    percentile25 values ≤ c ↔ (values.length - 1) / 4 < values.countP (· ≤ c) := by
  have hpos := List.length_pos_iff.mpr h
  have hlength : (values.insertionSort (· ≤ ·)).length = values.length :=
    List.length_insertionSort _ _
  have hj : (values.length - 1) / 4 < (values.insertionSort (· ≤ ·)).length := by omega
  have hmin : min ((values.length - 1) / 4) (values.length - 1) = (values.length - 1) / 4 := by
    omega
  unfold percentile25
  rw [if_neg (by simpa using h)]
  dsimp only
  rw [hlength, hmin, List.getD_eq_getElem _ _ hj, getElem_insertionSort_le_iff hj]

/-- Raising one of the values to at least the percentile leaves it at least the percentile. -/
theorem percentile25_map_le {A : Type} {l : List A} {f g : A → ℤ} {c c' : ℤ} (hl : l ≠ [])
    (hfg : ∀ a ∈ l, f a ≤ c → g a ≤ c') (h : percentile25 (l.map f) ≤ c) :
    percentile25 (l.map g) ≤ c' := by
  rw [percentile25_le_iff (by simpa using hl), List.length_map, List.countP_map] at h ⊢
  refine h.trans_le (List.countP_mono_left fun a ha hf => ?_)
  exact decide_eq_true (hfg a ha (of_decide_eq_true hf))

/-! ## The status -/

/-- The threshold for some counts of the features. -/
def gapThreshold (counts : String → ℤ) : ℤ :=
  max 3 (percentile25 (featureCatalog.map fun item => counts item.1))

/-- A feature that is counted more often has no lower status, if its count was not negative. -/
theorem level_gapStatus_le {counts counts' : String → ℤ} {featureKey : String}
    (hpos : 0 ≤ counts featureKey) (hle : counts featureKey ≤ counts' featureKey)
    (hother : ∀ key, key ≠ featureKey → counts' key = counts key) :
    (gapStatus (counts featureKey) (gapThreshold counts)).level ≤
      (gapStatus (counts' featureKey) (gapThreshold counts')).level := by
  have hthreshold : gapThreshold counts ≤ counts featureKey →
      gapThreshold counts' ≤ counts' featureKey := by
    intro h
    refine max_le ((le_of_max_le_left h).trans hle) ?_
    refine percentile25_map_le (List.cons_ne_nil _ _) (fun item _ hitem => ?_)
      (le_of_max_le_right h)
    by_cases hkey : item.1 = featureKey
    · rw [hkey]
    · rw [hother _ hkey]
      exact hitem.trans hle
  unfold gapStatus
  split_ifs <;> simp only [InsightsGapStatus.level] <;> omega

/-- How often a feature is counted in the window. -/
def windowCount (records : List InsightsTelemetryRecord) (windowStart now : Date)
    (featureKey : String) : ℤ :=
  (records.map fun record =>
    if isInWindow windowStart now record ∧ featureKey = record.featureKey then record.count
    else 0).sum

/-- The status of a feature, from its count and the counts of the others. -/
theorem gapStatus_of_mem_buildFeatureStats {records : List InsightsTelemetryRecord}
    {windowStart now : Date} {stat : InsightsFeatureUsageStat}
    (h : stat ∈ buildFeatureStats records windowStart now) :
    stat.gapStatus = gapStatus (windowCount records windowStart now stat.featureKey)
      (gapThreshold (windowCount records windowStart now)) := by
  have hcount : ∀ key, records.foldl (fun counts record =>
      if isInWindow windowStart now record then addCount counts record.featureKey record.count
      else counts) (fun _ => 0) key = windowCount records windowStart now key := by
    intro key
    have hstep : ∀ (counts : String → ℤ) (record : InsightsTelemetryRecord) (k : String),
        (if isInWindow windowStart now record then
          addCount counts record.featureKey record.count else counts) k =
        counts k + if isInWindow windowStart now record ∧ k = record.featureKey then record.count
          else 0 := by
      intro counts record k
      by_cases hin : isInWindow windowStart now record
      · simp [hin, addCount_apply]
      · simp [hin]
    rw [Tally.foldl_apply hstep, zero_add, windowCount]
  obtain ⟨item, -, rfl⟩ := List.mem_map.mp h
  simp only [hcount, gapThreshold]

theorem windowCount_append (records records' : List InsightsTelemetryRecord)
    (windowStart now : Date) (featureKey : String) :
    windowCount (records ++ records') windowStart now featureKey =
      windowCount records windowStart now featureKey +
        windowCount records' windowStart now featureKey := by
  unfold windowCount
  rw [List.map_append, List.sum_append]

theorem windowCount_perm {records records' : List InsightsTelemetryRecord}
    (h : records.Perm records') (windowStart now : Date) (featureKey : String) :
    windowCount records windowStart now featureKey =
      windowCount records' windowStart now featureKey :=
  (h.map _).sum_eq

theorem windowCount_nonneg {records : List InsightsTelemetryRecord}
    (h : ∀ record ∈ records, 0 ≤ record.count) (windowStart now : Date) (featureKey : String) :
    0 ≤ windowCount records windowStart now featureKey := by
  refine List.sum_nonneg fun n hn => ?_
  obtain ⟨record, hrecord, rfl⟩ := List.mem_map.mp hn
  split_ifs
  · exact h record hrecord
  · exact le_rfl

/-! ## More events -/

/-- The records of events of one feature count for that feature only. -/
theorem windowCount_eq_zero {records : List InsightsTelemetryRecord} {featureKey key : String}
    (h : ∀ record ∈ records, record.featureKey = featureKey) (hkey : key ≠ featureKey)
    (windowStart now : Date) : windowCount records windowStart now key = 0 := by
  refine List.sum_eq_zero fun n hn => ?_
  obtain ⟨record, hrecord, rfl⟩ := List.mem_map.mp hn
  exact if_neg fun hcount => hkey (hcount.2.trans (h record hrecord))

/-- The records with some more events. -/
theorem normalizeTelemetry_of_perm_append {telemetry telemetry' : InsightsTelemetryScopeState}
    {events : List InsightsTelemetryEvent} {calendar : Calendar}
    {records' : List InsightsTelemetryRecord}
    (hraw : telemetry'.rawEvents.Perm (events ++ telemetry.rawEvents))
    (hbuckets : telemetry'.aggregateBuckets = telemetry.aggregateBuckets)
    (h : normalizeTelemetry telemetry' calendar = some records') :
    ∃ added records, events.mapM (recordOfEvent calendar) = some added ∧
      normalizeTelemetry telemetry calendar = some records ∧ records'.Perm (added ++ records) := by
  obtain ⟨eventRecords, hevents, rfl⟩ := Option.map_eq_some_iff.mp h
  obtain ⟨all, hall, hperm⟩ := perm_mapM hraw eventRecords hevents
  rw [List.mapM_append] at hall
  obtain ⟨added, hadded, hall⟩ := Option.bind_eq_some_iff.mp hall
  obtain ⟨old, hold, hall⟩ := Option.bind_eq_some_iff.mp hall
  obtain rfl := Option.some.inj hall
  refine ⟨added, old ++ telemetry.aggregateBuckets.map (recordOfBucket calendar), hadded, ?_, ?_⟩
  · rw [normalizeTelemetry, hold, Option.map_some]
  · rw [hbuckets, ← List.append_assoc]
    exact hperm.append_right _

/-- Using a feature does not lower its status, if no bucket has a negative count. -/
theorem level_gapStatus_le_of_perm {sorter : Sorter} {setOrder : SetOrder String} {fuel : ℕ}
    {tasks : List Task} {categories : List Category}
    {telemetry telemetry' : InsightsTelemetryScopeState} {events : List InsightsTelemetryEvent}
    {selectedWindow : InsightsWindow} {now : Date} {calendar : InsightsCalendar}
    {current : Calendar} {featureKey : String} {model model' : CompleteSnapshotModel}
    (hcounts : ∀ bucket ∈ telemetry.aggregateBuckets, 0 ≤ bucket.count)
    (hraw : telemetry'.rawEvents.Perm (events ++ telemetry.rawEvents))
    (hbuckets : telemetry'.aggregateBuckets = telemetry.aggregateBuckets)
    (hevents : ∀ event ∈ events, event.featureKey = featureKey)
    (h : buildCompleteSnapshot sorter setOrder fuel tasks categories telemetry selectedWindow now
      calendar current = some model)
    (h' : buildCompleteSnapshot sorter setOrder fuel tasks categories telemetry' selectedWindow
      now calendar current = some model') :
    ∀ stat ∈ model.featureStats, ∀ stat' ∈ model'.featureStats, stat.featureKey = featureKey →
      stat'.featureKey = featureKey → stat.gapStatus.level ≤ stat'.gapStatus.level := by
  obtain ⟨hmodel, -⟩ := buildSnapshot_of_buildCompleteSnapshot h
  obtain ⟨hmodel', -⟩ := buildSnapshot_of_buildCompleteSnapshot h'
  obtain ⟨records, hrecords, hmodel⟩ := Option.map_eq_some_iff.mp hmodel
  obtain ⟨records', hrecords', hmodel'⟩ := Option.map_eq_some_iff.mp hmodel'
  obtain ⟨added, old, hadded, hold, hperm⟩ :=
    normalizeTelemetry_of_perm_append hraw hbuckets hrecords'
  obtain rfl : old = records := Option.some.inj (hold.symm.trans hrecords)
  have hadded_spec : ∀ record ∈ added, record.featureKey = featureKey ∧ 0 ≤ record.count := by
    intro record hrecord
    obtain ⟨event, hevent, hrecordOf⟩ := exists_of_forall₂ (forall₂_of_mapM hadded) hrecord
    obtain ⟨⟨day, hour⟩, -, rfl⟩ := Option.map_eq_some_iff.mp hrecordOf
    exact ⟨hevents event hevent, Int.one_nonneg⟩
  intro stat hstat stat' hstat' hkey hkey'
  rw [← hmodel] at hstat
  rw [← hmodel'] at hstat'
  rw [gapStatus_of_mem_buildFeatureStats hstat, gapStatus_of_mem_buildFeatureStats hstat', hkey,
    hkey']
  refine level_gapStatus_le (windowCount_nonneg (count_nonneg hrecords hcounts) _ _ _) ?_
    fun key hne => ?_
  · rw [windowCount_perm hperm, windowCount_append]
    have hnonneg := windowCount_nonneg (fun record hrecord => (hadded_spec record hrecord).2)
      (windowStart selectedWindow now calendar.toCalendar) now featureKey
    omega
  · rw [windowCount_perm hperm, windowCount_append,
      windowCount_eq_zero (fun record hrecord => (hadded_spec record hrecord).1) hne, zero_add]

/-! ## A sample -/

/-- One use of a feature. -/
def sampleEvent (featureKey : String) (timestampUTC : Date) : InsightsTelemetryEvent where
  id := "event"
  eventName := featureKey
  featureKey := featureKey
  timestampUTC := timestampUTC
  timezoneOffsetMinutesAtEvent := 0
  tabName := none
  viewName := none
  categoryIds := []
  taskIdPolicyField := none
  metadata := []
  userScopeKey := "anonymous"

/-- Some events, and a bucket of views. -/
def sampleUse (events : List InsightsTelemetryEvent) (count : ℤ) : InsightsTelemetryScopeState where
  rawEvents := events
  aggregateBuckets := [sampleBucket count]

/-- The snapshot in the first minute of 1970. -/
def useSnapshot (events : List InsightsTelemetryEvent) (count : ℤ) :
    Option CompleteSnapshotModel :=
  buildCompleteSnapshot .insertion .dedup 8 [] [] (sampleUse events count) .days7 (.seconds 60)
    (InsightsCalendar.gregorian .gmt) (Calendar.gregorian .gmt)

theorem level_gapStatus_le_of_perm_view :
    ∃ model model', useSnapshot [] 2 = some model ∧
      useSnapshot [sampleEvent "view_open" (.seconds 30)] 2 = some model' ∧
      ∀ stat ∈ model.featureStats, ∀ stat' ∈ model'.featureStats, stat.featureKey = "view_open" →
        stat'.featureKey = "view_open" → stat.gapStatus.level ≤ stat'.gapStatus.level := by
  obtain ⟨model, h⟩ : ∃ model, useSnapshot [] 2 = some model :=
    Option.isSome_iff_exists.mp (by decide +kernel)
  obtain ⟨model', h'⟩ : ∃ model,
      useSnapshot [sampleEvent "view_open" (.seconds 30)] 2 = some model :=
    Option.isSome_iff_exists.mp (by decide +kernel)
  have hcounts : ∀ bucket ∈ (sampleUse [] 2).aggregateBuckets, 0 ≤ bucket.count := by
    simp [sampleUse, sampleBucket]
  have hraw : (sampleUse [sampleEvent "view_open" (.seconds 30)] 2).rawEvents.Perm
      ([sampleEvent "view_open" (.seconds 30)] ++ (sampleUse [] 2).rawEvents) := .refl _
  exact ⟨model, model', h, h', level_gapStatus_le_of_perm hcounts hraw rfl
    (by simp [sampleEvent]) h h'⟩

/-- A view after a bucket with a negative count : the views add up to none. -/
theorem not_level_gapStatus_le :
    (useSnapshot [] (-1)).map (fun model => (model.featureStats.filter fun stat =>
        stat.featureKey = "view_open").map InsightsFeatureUsageStat.gapStatus) =
          some [.underused] ∧
      (useSnapshot [sampleEvent "view_open" (.seconds 30)] (-1)).map (fun model =>
        (model.featureStats.filter fun stat =>
          stat.featureKey = "view_open").map InsightsFeatureUsageStat.gapStatus) =
            some [.unused] := by
  decide +kernel

end InsightsAggregator

end Notelayer
