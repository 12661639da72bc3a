import Mathlib.Data.Int.ConditionallyCompleteOrder
import Notelayer.InsightsOrder

/-!
# The oldest open tasks

The open tasks are sorted by their age in days, then by the date of creation. A task that was
created earlier is not younger where the days of the calendar are in order
(`InsightsCalendar.IsMonotone`), so that the lists have the tasks in the order of creation, and the
age buckets count every open task once (`oldestOpenTasks_spec`). A creation date that is NaN is
neither before nor after the others and keeps them from being sorted.
-/

namespace Notelayer

open KeyedList Sorting

/-! ## Calendars whose days are in order -/

/-- On some dates, days begin in the order of the dates, and a later date is not more days ago. -/
structure InsightsCalendar.IsMonotone (calendar : InsightsCalendar) (dates : Set Date) :
    Prop where
  startOfDay : ∀ d ∈ dates, ∀ e ∈ dates, d.rank ≤ e.rank →
    (calendar.startOfDay d).rank ≤ (calendar.startOfDay e).rank
  startOfDay_mem : ∀ d ∈ dates, calendar.startOfDay d ∈ dates
  daysBetween : ∀ d ∈ dates, ∀ e ∈ dates, d.rank ≤ e.rank → ∀ f,
    (calendar.daysBetween e f).getD 0 ≤ (calendar.daysBetween d f).getD 0

/-- Truncation preserves the order. -/
theorem Date.truncated_mono : Monotone Date.truncated := by
  intro p q h
  unfold Date.truncated
  have hfloor : ∀ r : ℚ, 0 ≤ r → r.num.tdiv r.den = ⌊r⌋ := fun r hr => by
    rw [Rat.floor_def', Int.tdiv_eq_ediv_of_nonneg (Rat.num_nonneg.mpr hr)]
  have hceil : ∀ r : ℚ, r ≤ 0 → r.num.tdiv r.den = ⌈r⌉ := fun r hr => by
    have hneg := hfloor (-r) (neg_nonneg.mpr hr)
    rw [Rat.neg_num, Rat.neg_den, Int.neg_tdiv, Int.floor_neg, neg_inj] at hneg
    exact hneg
  rcases le_total 0 p with hp | hp
  · rw [hfloor p hp, hfloor q (hp.trans h)]
    exact Int.floor_mono h
  · rw [hceil p hp]
    rcases le_total 0 q with hq | hq
    · rw [hfloor q hq]
      have hle : ⌈p⌉ ≤ 0 := Int.ceil_le.mpr (by simpa using hp)
      exact hle.trans (Int.floor_nonneg.mpr hq)
    · rw [hceil q hq]
      exact Int.ceil_mono h

theorem Date.finite_rank_le_iff (p q : ℚ) :
    (⟨.finite p⟩ : Date).rank ≤ (⟨.finite q⟩ : Date).rank ↔ p ≤ q := by
  simp [Date.rank]

/-- The dates that are not infinite. -/
def finiteDates : Set Date :=
  {d | d.timeIntervalSince1970.isFinite}

theorem exists_of_mem_finiteDates {d : Date} (h : d ∈ finiteDates) : ∃ p, d = ⟨.finite p⟩ := by
  obtain ⟨seconds⟩ := d
  cases seconds with
  | finite p => exact ⟨p, rfl⟩
  | infinity | negInfinity | nan => exact absurd h Bool.false_ne_true

/-- The Gregorian calendar preserves the order of dates. -/
theorem InsightsCalendar.isMonotone_gregorian (z : FixedTimeZone) :
    (InsightsCalendar.gregorian z).IsMonotone finiteDates where
  startOfDay d hd e he h := by
    obtain ⟨p, rfl⟩ := exists_of_mem_finiteDates hd
    obtain ⟨q, rfl⟩ := exists_of_mem_finiteDates he
    have hpq := (Date.finite_rank_le_iff p q).mp h
    refine (Date.finite_rank_le_iff _ _).mpr ?_
    have hday : z.dayNumber p ≤ z.dayNumber q := by
      refine Int.floor_mono (div_le_div_of_nonneg_right ?_ (by norm_num))
      exact add_le_add_left hpq _
    have hday' : (z.dayNumber p : ℚ) ≤ z.dayNumber q := by exact_mod_cast hday
    linarith
  startOfDay_mem d hd := by
    obtain ⟨p, rfl⟩ := exists_of_mem_finiteDates hd
    rfl
  daysBetween d hd e he h f := by
    obtain ⟨p, rfl⟩ := exists_of_mem_finiteDates hd
    obtain ⟨q, rfl⟩ := exists_of_mem_finiteDates he
    have hpq := (Date.finite_rank_le_iff p q).mp h
    obtain ⟨seconds⟩ := f
    cases seconds with
    | finite r =>
      refine Date.truncated_mono (div_le_div_of_nonneg_right ?_ (by norm_num))
      exact sub_le_sub_left hpq r
    | infinity | negInfinity | nan => exact le_rfl

/-! ## Age buckets -/

namespace InsightsOpenTaskAgeBucket

/-- The age is within the bounds of the bucket. -/
def Contains : InsightsOpenTaskAgeBucket → ℤ → Prop
  | days0to7, ageDays => 0 ≤ ageDays ∧ ageDays ≤ 7
  | days8to14, ageDays => 8 ≤ ageDays ∧ ageDays ≤ 14
  | days15to30, ageDays => 15 ≤ ageDays ∧ ageDays ≤ 30
  | days31to60, ageDays => 31 ≤ ageDays ∧ ageDays ≤ 60
  | days61to90, ageDays => 61 ≤ ageDays ∧ ageDays ≤ 90
  | days90plus, ageDays => 90 < ageDays

instance (bucket : InsightsOpenTaskAgeBucket) (ageDays : ℤ) : Decidable (bucket.Contains ageDays) :=
  match bucket with
  | days0to7 => inferInstanceAs (Decidable (_ ∧ _))
  | days8to14 => inferInstanceAs (Decidable (_ ∧ _))
  | days15to30 => inferInstanceAs (Decidable (_ ∧ _))
  | days31to60 => inferInstanceAs (Decidable (_ ∧ _))
  | days61to90 => inferInstanceAs (Decidable (_ ∧ _))
  | days90plus => inferInstanceAs (Decidable (90 < _))

/-- The bucket of an age is the one that contains it. -/
theorem contains_iff {ageDays : ℤ} (h : 0 ≤ ageDays) (bucket : InsightsOpenTaskAgeBucket) :
    bucket.Contains ageDays ↔ bucket = ofAge ageDays := by
  unfold ofAge
  split_ifs <;> cases bucket <;> simp [Contains] <;> omega

end InsightsOpenTaskAgeBucket

namespace InsightsAggregator

theorem openTaskAgeBuckets_apply (summaries : List InsightsOldestOpenTaskSummary) :
    openTaskAgeBuckets summaries = InsightsOpenTaskAgeBucket.allCases.map fun bucket =>
      ⟨bucket, (summaries.map fun summary =>
        if bucket = InsightsOpenTaskAgeBucket.ofAge summary.ageDays then 1 else 0).sum⟩ := by
  refine List.map_congr_left fun bucket _ => ?_
  rw [Tally.foldl_apply fun counts summary k => addCount_apply counts _ 1 k, zero_add]

/-- Every summary is counted in one bucket. -/
theorem sum_openTaskAgeBuckets (summaries : List InsightsOldestOpenTaskSummary) :
    ((openTaskAgeBuckets summaries).map InsightsOpenTaskAgeBucketStat.count).sum =
      summaries.length := by
  simp only [openTaskAgeBuckets_apply, InsightsOpenTaskAgeBucket.allCases, List.map_cons,
    List.map_nil, List.sum_cons, List.sum_nil]
  induction summaries with
  | nil => rfl
  | cons summary summaries ih =>
    simp only [List.map_cons, List.sum_cons, List.length_cons]
    push_cast
    rw [← ih]
    cases InsightsOpenTaskAgeBucket.ofAge summary.ageDays <;> simp <;> omega

/-! ## The order of creation -/

/-- By the date of creation, then by the id. -/
def creationKey (task : Task) : WithBot (WithTop ℚ) ×ₗ String :=
  toLex (task.createdAt.rank, task.id)

/-- The open top-level tasks. -/
def openTasks (tasks : List Task) : List Task :=
  (topLevelTasks tasks).filter fun task => task.completedAt = none

/-- The open top-level tasks, the oldest first. -/
def openTasksByCreation (tasks : List Task) : List Task :=
  (openTasks tasks).insertionSort fun a b => creationKey a ≤ creationKey b

section Ordered

variable {calendar : InsightsCalendar} {dates : Set Date}

/-- A task that was created earlier is not younger. -/
theorem ageDays_le (h : calendar.IsMonotone dates) (now : Date) {a b : Task}
    (ha : a.createdAt ∈ dates) (hb : b.createdAt ∈ dates)
    (hab : a.createdAt.rank ≤ b.createdAt.rank) :
    (openTaskSummary now calendar b).ageDays ≤ (openTaskSummary now calendar a).ageDays := by
  have hstart := h.startOfDay _ ha _ hb hab
  exact max_le_max_left 0
    (h.daysBetween _ (h.startOfDay_mem _ ha) _ (h.startOfDay_mem _ hb) hstart _)

/-- The order of creation is the order in which the tasks are sorted. -/
theorem summaryKey_le (h : calendar.IsMonotone dates) (now : Date) {a b : Task}
    (ha : a.createdAt ∈ dates) (hb : b.createdAt ∈ dates)
    (hab : creationKey a ≤ creationKey b) :
    summaryKey (openTaskSummary now calendar a) ≤ summaryKey (openTaskSummary now calendar b) := by
  have hrank : a.createdAt.rank ≤ b.createdAt.rank := (Prod.Lex.toLex_le_toLex.mp hab).elim
    (fun hlt => hlt.le) fun heq => heq.1.le
  refine Prod.Lex.toLex_le_toLex.mpr ?_
  rcases (ageDays_le h now ha hb hrank).lt_or_eq with hlt | heq
  · exact Or.inl (OrderDual.toDual_lt_toDual.mpr hlt)
  · exact Or.inr ⟨congrArg OrderDual.toDual heq.symm, hab⟩

/-- The open tasks in the order of their creation. -/
theorem oldestOpenTasks_eq (sorter : Sorter) (h : calendar.IsMonotone dates) (now : Date)
    {tasks : List Task} (hnumbers : ∀ d ∈ dates, d.IsNumber)
    (hdates : ∀ task ∈ openTasks tasks, task.createdAt ∈ dates)
    (hids : DistinctKeys Task.id tasks) :
    oldestOpenTasks sorter (topLevelTasks tasks) now calendar =
      (openTasksByCreation tasks).map (openTaskSummary now calendar) := by
  have hsummary : ∀ summary ∈ (openTasks tasks).map (openTaskSummary now calendar),
      ∃ task ∈ openTasks tasks, openTaskSummary now calendar task = summary :=
    fun summary hsummary => List.mem_map.mp hsummary
  have hprecedes : ∀ a ∈ (openTasks tasks).map (openTaskSummary now calendar),
      ∀ b ∈ (openTasks tasks).map (openTaskSummary now calendar),
        summaryPrecedes a b ↔ summaryKey a < summaryKey b := by
    intro a ha b hb
    obtain ⟨task, htask, rfl⟩ := hsummary a ha
    obtain ⟨task', htask', rfl⟩ := hsummary b hb
    exact summaryPrecedes_iff (hnumbers _ (hdates task htask)) (hnumbers _ (hdates task' htask'))
  have hweak := StrictWeak.of_key hprecedes
  have hopen : (openTasksByCreation tasks).Perm (openTasks tasks) := List.perm_insertionSort _ _
  have hsorted : ((openTasksByCreation tasks).map (openTaskSummary now calendar)).Pairwise
      fun a b => summaryKey a ≤ summaryKey b := by
    refine List.pairwise_map.mpr ((List.pairwise_insertionSort _ _).imp_of_mem ?_)
    intro a b ha hb hab
    exact summaryKey_le h now (hdates a (hopen.mem_iff.mp ha)) (hdates b (hopen.mem_iff.mp hb)) hab
  have hperm := sorter.perm hweak
  have hsorted' : (oldestOpenTasks sorter (topLevelTasks tasks) now calendar).Pairwise
      fun a b => summaryKey a ≤ summaryKey b := by
    refine (sorter.pairwise hweak).imp_of_mem fun {a b} ha hb hab => ?_
    rwa [hprecedes b (hperm.mem_iff.mp hb) a (hperm.mem_iff.mp ha), not_lt] at hab
  refine List.Perm.eq_of_pairwise (fun a b ha hb hab hba => ?_) hsorted' hsorted
    (hperm.trans (hopen.map _).symm)
  obtain ⟨task, htask, rfl⟩ := hsummary a (hperm.mem_iff.mp ha)
  obtain ⟨task', htask', rfl⟩ := hsummary b ((hopen.map _).mem_iff.mp hb)
  have hkey := le_antisymm hab hba
  have hid : task.id = task'.id := by
    simp only [summaryKey, EmbeddingLike.apply_eq_iff_eq, Prod.mk.injEq] at hkey
    exact hkey.2.2
  have hmem : ∀ {task}, task ∈ openTasks tasks → task ∈ tasks := fun htask =>
    List.mem_of_mem_filter (List.mem_of_mem_filter htask)
  rw [List.inj_on_of_nodup_map hids (hmem htask) (hmem htask') hid]

/-- The preview and the drilldown have the open tasks in the order of creation, with ages that do
not grow, and every open task is counted in the one bucket that contains its age. -/
theorem oldestOpenTasks_spec {sorter : Sorter} {setOrder : SetOrder String} {fuel : ℕ}
    {tasks : List Task} {categories : List Category} {telemetry : InsightsTelemetryScopeState}
    {selectedWindow : InsightsWindow} {now : Date} {current : Calendar}
    {model : CompleteSnapshotModel} (hcalendar : calendar.IsMonotone dates)
    (hnumbers : ∀ d ∈ dates, d.IsNumber) (hdates : ∀ task ∈ openTasks tasks, task.createdAt ∈ dates)
    (hids : DistinctKeys Task.id tasks)
    (h : buildCompleteSnapshot sorter setOrder fuel tasks categories telemetry selectedWindow now
      calendar current = some model) :
    model.oldestOpenTasksPreview =
        ((openTasksByCreation tasks).take 3).map (openTaskSummary now calendar) ∧
      model.oldestOpenTasksDrilldown =
        ((openTasksByCreation tasks).take 50).map (openTaskSummary now calendar) ∧
      ((openTasksByCreation tasks).map (openTaskSummary now calendar)).Pairwise
        (fun a b => b.ageDays ≤ a.ageDays) ∧
      (∀ task ∈ openTasks tasks, ∃! bucket : InsightsOpenTaskAgeBucket,
        bucket.Contains (openTaskSummary now calendar task).ageDays) ∧
      model.openTaskAgeBuckets = InsightsOpenTaskAgeBucket.allCases.map (fun bucket =>
        ⟨bucket, (openTasks tasks).countP fun task =>
          bucket.Contains (openTaskSummary now calendar task).ageDays⟩) ∧
      (model.openTaskAgeBuckets.map InsightsOpenTaskAgeBucketStat.count).sum =
        model.totals.open' := by
  obtain ⟨records, hbuilt⟩ := isBuilt_of_buildCompleteSnapshot h
  have holdest := oldestOpenTasks_eq sorter hcalendar now hnumbers hdates hids
  have hopen : (openTasksByCreation tasks).Perm (openTasks tasks) := List.perm_insertionSort _ _
  have hage : ∀ task, 0 ≤ (openTaskSummary now calendar task).ageDays := fun _ => le_max_left _ _
  refine ⟨?_, ?_, ?_, fun task _ => ?_, ?_, ?_⟩
  · rw [hbuilt.preview, holdest, List.map_take]
  · rw [hbuilt.drilldown, holdest, List.map_take]
  · refine List.pairwise_map.mpr ((List.pairwise_insertionSort _ _).imp_of_mem ?_)
    intro a b ha hb hab
    refine ageDays_le hcalendar now (hdates a (hopen.mem_iff.mp ha))
      (hdates b (hopen.mem_iff.mp hb)) ?_
    exact (Prod.Lex.toLex_le_toLex.mp hab).elim (fun hlt => hlt.le) fun heq => heq.1.le
  · refine ⟨_, (InsightsOpenTaskAgeBucket.contains_iff (hage task) _).mpr rfl, fun bucket hb => ?_⟩
    exact (InsightsOpenTaskAgeBucket.contains_iff (hage task) bucket).mp hb
  · rw [hbuilt.ageBuckets, holdest, openTaskAgeBuckets_apply]
    refine List.map_congr_left fun bucket _ => ?_
    rw [← hopen.countP_eq, List.map_map]
    simp only [InsightsOpenTaskAgeBucket.contains_iff (hage _), Function.comp_def]
    rw [Tally.sum_map_ite_one]
  · rw [hbuilt.ageBuckets, sum_openTaskAgeBuckets, hbuilt.totals, holdest, List.length_map,
      hopen.length_eq]
    rfl

end Ordered

theorem oldestOpenTasks_spec_sample :
    ∃ model, sampleSnapshot [sampleTask "b" (.seconds 50), sampleTask "a" (.seconds (-100000))] [] =
        some model ∧
      model.oldestOpenTasksPreview.map InsightsOldestOpenTaskSummary.taskId = ["a", "b"] := by
  obtain ⟨model, h⟩ : ∃ model, sampleSnapshot
      [sampleTask "b" (.seconds 50), sampleTask "a" (.seconds (-100000))] [] = some model :=
    Option.isSome_iff_exists.mp (by decide +kernel)
  refine ⟨model, h, ?_⟩
  obtain ⟨hpreview, -⟩ := oldestOpenTasks_spec (InsightsCalendar.isMonotone_gregorian .gmt)
    (fun d hd => by obtain ⟨p, rfl⟩ := exists_of_mem_finiteDates hd; exact TimeInterval.noConfusion)
    (by simp [openTasks, topLevelTasks, sampleTask, finiteDates, Date.seconds,
      TimeInterval.isFinite]) (by decide) h
  rw [hpreview]
  decide +kernel

/-- Between two tasks created today one that was created at no number keeps them in the order they
have. -/
theorem not_oldestOpenTasks_spec :
    (sampleSnapshot [sampleTask "x" (.seconds 5), sampleTask "y" ⟨.nan⟩,
        sampleTask "z" (.seconds 1)] []).map (fun model =>
      model.oldestOpenTasksPreview.map InsightsOldestOpenTaskSummary.createdAt) =
        some [.seconds 5, ⟨.nan⟩, .seconds 1] := by
  decide +kernel

end InsightsAggregator

end Notelayer
