import Notelayer.ExportRates

/-!
# The rankings

A ranking has five items, meant to be by count, then by the latest activity, then by the key. The
code compares features in this way, but categories of equal counts by their names and hours of
equal counts by the hour. So the rankings are right exactly if these rules put each item of the
five before the items with its count that come later (`rankingsFollow_iff`), which for features is
no condition on dates after the beginning of the year 1 (`tiesFollow_features`).
-/

namespace Notelayer

open KeyedList Sorting

namespace InsightsAggregator

/-! ## The ranking that is meant -/

/-- The latest of some dates. -/
def latest (dates : List Date) : WithBot (WithTop ℚ) :=
  dates.foldr (fun date result => max date.rank result) ⊥

/-- The latest use of a feature. -/
def featureActivity (records : List InsightsTelemetryRecord) (stat : InsightsFeatureUsageStat) :
    WithBot (WithTop ℚ) :=
  latest ((records.filter fun record => record.featureKey = stat.featureKey).map
    InsightsTelemetryRecord.timestampForOrdering)

/-- When a task was created and, if it is done, completed. -/
def taskDates (task : Task) : List Date :=
  task.createdAt :: task.completedAt.toList

/-- The latest date of a task in a category. -/
def categoryActivity (tasks : List Task) (stat : InsightsCategoryUsageStat) :
    WithBot (WithTop ℚ) :=
  latest ((tasks.filter fun task => isInCategory task.categories stat.categoryId).flatMap taskDates)

/-- The latest date of a task or of a use within an hour of the day. -/
def hourActivity (tasks : List Task) (records : List InsightsTelemetryRecord) (calendar : Calendar)
    (stat : InsightsHourBucketStat) : WithBot (WithTop ℚ) :=
  latest (((tasks.flatMap taskDates).filter fun date => calendar.hour date = stat.hour) ++
    (records.filter fun record => record.hour = stat.hour).map
      InsightsTelemetryRecord.timestampForOrdering)

section Ranked

variable {A K : Type} [LinearOrder K] (order : RankOrder) (count : A → ℤ)
  (activity : A → WithBot (WithTop ℚ)) (key : A → K)

/-- Items with the same count : the latest activity comes first. -/
def tieKey (a : A) : (WithBot (WithTop ℚ))ᵒᵈ ×ₗ K :=
  toLex (OrderDual.toDual (activity a), key a)

/-- The place of an item : by its count, then by its activity, then by its key. -/
def rankKey (a : A) : ℤ ×ₗ (WithBot (WithTop ℚ))ᵒᵈ ×ₗ K :=
  toLex (if order = .descending then -count a else count a, tieKey activity key a)

/-- The first five items. -/
def ranked (items : List A) : List A :=
  (items.insertionSort fun a b => rankKey order count activity key a ≤
    rankKey order count activity key b).take 5

/-- A rule puts every item of the five before the items with its count that come later. -/
def TiesFollow (tiePrecedes : A → A → Bool) (items : List A) : Prop :=
  ∀ a ∈ items, ∀ b ∈ items, count a = count b → tieKey activity key a < tieKey activity key b →
    items.countP (fun c => rankKey order count activity key c < rankKey order count activity key a)
      < 5 → tiePrecedes a b

variable {order count activity key} {tiePrecedes : A → A → Bool} {items : List A}

theorem rankPrecedes_iff {T : Type} [LinearOrder T] {tie : A → T} {a b : A}
    (h : tiePrecedes a b ↔ tie a < tie b) : rankPrecedes order count tiePrecedes a b ↔
      toLex (if order = .descending then -count a else count a, tie a) <
        toLex (if order = .descending then -count b else count b, tie b) := by
  unfold rankPrecedes
  rw [Prod.Lex.toLex_lt_toLex]
  by_cases hcount : count a = count b
  · simp [hcount, h]
  · cases order <;> simp [hcount]

/-- A function that tells the items apart tells their lists apart. -/
theorem map_inj_of_mem {B : Type} {f : A → B} (hf : ∀ a ∈ items, ∀ b ∈ items, f a = f b → a = b)
    {l m : List A} (hl : ∀ a ∈ l, a ∈ items) (hm : ∀ a ∈ m, a ∈ items) (h : l.map f = m.map f) :
    l = m := by
  induction l generalizing m with
  | nil => exact (List.map_eq_nil_iff.mp h.symm).symm
  | cons a l ih =>
    cases m with
    | nil => exact absurd h (by simp)
    | cons b m =>
      obtain ⟨hab, hlm⟩ := List.cons.inj h
      obtain ⟨ha, hl⟩ := List.forall_mem_cons.mp hl
      obtain ⟨hb, hm⟩ := List.forall_mem_cons.mp hm
      rw [hf a ha b hb hab, ih hl hm hlm]

/-- Whatever sorts the items by the count and a rule, they are ranked as meant exactly if the rule
follows the ties. -/
theorem forall_sorted_eq_ranked_iff {T : Type} [LinearOrder T] (tie : A → T)
    (item : A → InsightsRankingItem) (hitem : ∀ a ∈ items, ∀ b ∈ items, item a = item b → a = b)
    (hkey : ∀ a ∈ items, ∀ b ∈ items, key a = key b → a = b) (hitems : items.Nodup)
    (htie : ∀ a ∈ items, ∀ b ∈ items, tiePrecedes a b ↔ tie a < tie b) :
    (∀ s : Sorter, ((s.sorted (rankPrecedes order count tiePrecedes) items).take 5).map item =
        (ranked order count activity key items).map item) ↔
      TiesFollow order count activity key tiePrecedes items := by
  have hweak : StrictWeak (rankPrecedes order count tiePrecedes) items :=
    StrictWeak.of_key fun a ha b hb => rankPrecedes_iff (htie a ha b hb)
  have hrank : ∀ a ∈ items, ∀ b ∈ items, rankKey order count activity key a =
      rankKey order count activity key b → a = b := by
    intro a ha b hb h
    simp only [rankKey, tieKey, EmbeddingLike.apply_eq_iff_eq, Prod.mk.injEq] at h
    exact hkey a ha b hb h.2.2
  have hsub : ∀ s : Sorter, ∀ a ∈ (s.sorted (rankPrecedes order count tiePrecedes) items).take 5,
      a ∈ items := fun s a ha => (s.perm hweak).mem_iff.mp (List.mem_of_mem_take ha)
  have hsub' : ∀ a ∈ ranked order count activity key items, a ∈ items := fun a ha =>
    (List.perm_insertionSort _ _).mem_iff.mp (List.mem_of_mem_take ha)
  have hmap : ∀ s : Sorter,
      ((s.sorted (rankPrecedes order count tiePrecedes) items).take 5).map item =
          (ranked order count activity key items).map item ↔
        (s.sorted (rankPrecedes order count tiePrecedes) items).take 5 =
          ranked order count activity key items := fun s =>
    ⟨map_inj_of_mem hitem (hsub s) hsub', congrArg _⟩
  simp only [hmap]
  refine (Sorter.forall_take_sorted_iff hweak hitems hrank 5).trans ?_
  constructor
  · intro h a ha b hb hcount hab hfive
    have hlt : rankKey order count activity key a < rankKey order count activity key b :=
      Prod.Lex.toLex_lt_toLex.mpr (Or.inr ⟨by simp only [hcount], hab⟩)
    have hprecedes := h a ha b hb hlt hfive
    unfold rankPrecedes at hprecedes
    rwa [if_neg (not_not.mpr hcount)] at hprecedes
  · intro h a ha b hb hab hfive
    by_cases hcount : count a = count b
    · unfold rankPrecedes
      rw [if_neg (not_not.mpr hcount)]
      refine h a ha b hb hcount ?_ hfive
      rcases Prod.Lex.toLex_lt_toLex.mp hab with hlt | ⟨-, hlt⟩
      · simp only [hcount, lt_irrefl] at hlt
      · exact hlt
    · refine (rankPrecedes_iff (htie a ha b hb)).mpr (Prod.Lex.toLex_lt_toLex.mpr (Or.inl ?_))
      rcases Prod.Lex.toLex_lt_toLex.mp hab with hlt | ⟨heq, -⟩
      · exact hlt
      · split_ifs at heq <;> omega

end Ranked

/-! ## The last use of a feature -/

theorem rank_eq_bot_of_not_isNumber {date : Date} (h : ¬date.IsNumber) : date.rank = ⊥ := by
  obtain ⟨seconds⟩ := date
  obtain rfl : seconds = .nan := not_not.mp h
  rfl

/-- The later of two dates, where a NaN is not later than anything. -/
theorem rank_lastUse {existing : Option Date} (date : Date)
    (h : (existing.getD Date.distantPast).IsNumber) :
    ((lastUse existing date).getD Date.distantPast).IsNumber ∧
      ((lastUse existing date).getD Date.distantPast).rank =
        max (existing.getD Date.distantPast).rank date.rank := by
  unfold lastUse
  by_cases hlt : existing.getD Date.distantPast < date
  · rw [if_pos hlt]
    have hnumber := (Date.isNumber_of_lt hlt).2
    exact ⟨hnumber, (max_eq_right ((Date.lt_iff_rank_lt h hnumber).mp hlt).le).symm⟩
  · rw [if_neg hlt]
    refine ⟨h, (max_eq_left ?_).symm⟩
    by_cases hnumber : date.IsNumber
    · exact not_lt.mp fun hrank => hlt ((Date.lt_iff_rank_lt h hnumber).mpr hrank)
    · rw [rank_eq_bot_of_not_isNumber hnumber]
      exact bot_le

/-- The last use of a feature ranks like the latest of its dates. -/
theorem rank_foldl_lastUse (dates : List Date) {existing : Option Date}
    (h : (existing.getD Date.distantPast).IsNumber) :
    ((dates.foldl lastUse existing).getD Date.distantPast).IsNumber ∧
      ((dates.foldl lastUse existing).getD Date.distantPast).rank =
        max (existing.getD Date.distantPast).rank (latest dates) := by
  induction dates generalizing existing with
  | nil => exact ⟨h, (max_eq_left bot_le).symm⟩
  | cons date dates ih =>
    obtain ⟨hnumber, hrank⟩ := rank_lastUse date h
    obtain ⟨hnumber', hrank'⟩ := ih hnumber
    refine ⟨hnumber', hrank'.trans ?_⟩
    rw [hrank, max_assoc]
    rfl

/-- The last use of a feature is its latest activity after the distant past. -/
theorem lastUsedAt_of_mem {records : List InsightsTelemetryRecord} {windowStart now : Date}
    {stat : InsightsFeatureUsageStat} (h : stat ∈ buildFeatureStats records windowStart now) :
    (stat.lastUsedAt.getD Date.distantPast).IsNumber ∧
      (stat.lastUsedAt.getD Date.distantPast).rank =
        max Date.distantPast.rank (featureActivity records stat) := by
  have hfold : ∀ (lastUsed : String → Option Date) (featureKey : String),
      records.foldl (fun lastUsed record => Function.update lastUsed record.featureKey
        (lastUse (lastUsed record.featureKey) record.timestampForOrdering)) lastUsed featureKey =
      ((records.filter fun record => record.featureKey = featureKey).map
        InsightsTelemetryRecord.timestampForOrdering).foldl lastUse (lastUsed featureKey) := by
    intro lastUsed featureKey
    clear h
    induction records generalizing lastUsed with
    | nil => rfl
    | cons record records ih =>
      rw [List.foldl_cons, ih]
      by_cases hkey : record.featureKey = featureKey
      · simp [hkey]
      · simp [hkey, Function.update_of_ne (Ne.symm hkey)]
  obtain ⟨item, -, rfl⟩ := List.mem_map.mp h
  dsimp only [featureActivity]
  simp only [lastUsed_step, hfold]
  exact rank_foldl_lastUse _ TimeInterval.noConfusion

/-- A date before every other one is before the latest of them. -/
theorem lt_latest {d : WithBot (WithTop ℚ)} {dates : List Date}
    (h : ∀ date ∈ dates, date.IsNumber → d < date.rank) (hne : latest dates ≠ ⊥) :
    d < latest dates := by
  induction dates with
  | nil => exact absurd rfl hne
  | cons date dates ih =>
    obtain ⟨hdate, hrest⟩ := List.forall_mem_cons.mp h
    by_cases hnumber : date.IsNumber
    · exact (hdate hnumber).trans_le (le_max_left _ _)
    · have heq : latest (date :: dates) = latest dates := by
        change max date.rank (latest dates) = _
        rw [rank_eq_bot_of_not_isNumber hnumber, max_eq_right bot_le]
      rw [heq] at hne ⊢
      exact ih hrest hne

/-! ## The rules of the code -/

/-- The order of features that are used equally often. -/
def featureTie (a b : InsightsFeatureUsageStat) : Bool :=
  let leftDate := a.lastUsedAt.getD Date.distantPast
  let rightDate := b.lastUsedAt.getD Date.distantPast
  if ¬leftDate.equals rightDate then rightDate < leftDate else a.featureKey < b.featureKey

/-- The order of the features is that of a key. -/
theorem featureTie_iff {records : List InsightsTelemetryRecord} {windowStart now : Date}
    {a b : InsightsFeatureUsageStat} (ha : a ∈ buildFeatureStats records windowStart now)
    (hb : b ∈ buildFeatureStats records windowStart now) : featureTie a b ↔
      tieKey (fun stat => max Date.distantPast.rank (featureActivity records stat))
        InsightsFeatureUsageStat.featureKey a <
      tieKey (fun stat => max Date.distantPast.rank (featureActivity records stat))
        InsightsFeatureUsageStat.featureKey b := by
  obtain ⟨hna, hra⟩ := lastUsedAt_of_mem ha
  obtain ⟨hnb, hrb⟩ := lastUsedAt_of_mem hb
  unfold featureTie tieKey
  dsimp only
  rw [Prod.Lex.toLex_lt_toLex, OrderDual.toDual_lt_toDual, ← hra, ← hrb]
  simp only [Date.equals_iff_rank_eq hna hnb]
  by_cases heq : (a.lastUsedAt.getD Date.distantPast).rank =
      (b.lastUsedAt.getD Date.distantPast).rank
  · simp [heq]
  · simp [heq, Date.lt_iff_rank_lt hnb hna]

/-- After the beginning of the year 1 the code ranks features as meant. -/
theorem tiesFollow_features {records : List InsightsTelemetryRecord}
    (h : ∀ record ∈ records, record.timestampForOrdering.IsNumber →
      Date.distantPast < record.timestampForOrdering) (windowStart now : Date) (order : RankOrder) :
    TiesFollow order InsightsFeatureUsageStat.allTimeCount (featureActivity records)
      InsightsFeatureUsageStat.featureKey featureTie
      (buildFeatureStats records windowStart now) := by
  have hactivity : ∀ stat, featureActivity records stat ≠ ⊥ →
      Date.distantPast.rank < featureActivity records stat := by
    intro stat
    refine lt_latest fun date hdate hnumber => ?_
    obtain ⟨record, hrecord, rfl⟩ := List.mem_map.mp hdate
    exact (Date.lt_iff_rank_lt TimeInterval.noConfusion hnumber).mp
      (h record (List.mem_of_mem_filter hrecord) hnumber)
  intro a ha b hb _ hab _
  refine (featureTie_iff ha hb).mpr ?_
  rcases Prod.Lex.toLex_lt_toLex.mp hab with hlt | ⟨heq, hlt⟩
  · have hlt' := OrderDual.toDual_lt_toDual.mp hlt
    refine Prod.Lex.toLex_lt_toLex.mpr (Or.inl (OrderDual.toDual_lt_toDual.mpr ?_))
    have hpast := hactivity a (bot_le.trans_lt hlt').ne'
    exact (max_lt hpast hlt').trans_le (le_max_right _ _)
  · have heq' := OrderDual.toDual.injective heq
    refine Prod.Lex.toLex_lt_toLex.mpr (Or.inr ⟨?_, hlt⟩)
    simp only [heq']

/-! ## All rankings -/

/-- The row of a feature. -/
def featureItem (stat : InsightsFeatureUsageStat) : InsightsRankingItem where
  id := stat.featureKey
  title := stat.title
  value := stat.allTimeCount
  subtitle := stat.gapStatus.rawValue

/-- The row of a category. -/
def categoryItem (stat : InsightsCategoryUsageStat) : InsightsRankingItem where
  id := stat.categoryId
  title := stat.categoryIcon ++ " " ++ stat.categoryName
  value := stat.combinedCount
  subtitle := "Added " ++ toString stat.addedCount ++ " • Done " ++ toString stat.completedCount

/-- The row of an hour. -/
def hourItem (stat : InsightsHourBucketStat) : InsightsRankingItem where
  id := "hour-" ++ toString stat.hour
  title := stat.label
  value := stat.combinedCount
  subtitle := "Added " ++ toString stat.addedCount ++ " • Done " ++
    toString stat.completedCount ++ " • App " ++ toString stat.appUsageCount

section Rankings

variable (tasks : List Task) (records : List InsightsTelemetryRecord) (calendar : Calendar)

/-- The rankings of a snapshot are the ones that are meant. -/
structure RankingsFollow (model : CompleteSnapshotModel) : Prop where
  mostUsedFeatures : model.mostUsedFeatures =
    (ranked .descending InsightsFeatureUsageStat.allTimeCount (featureActivity records)
      InsightsFeatureUsageStat.featureKey model.featureStats).map featureItem
  leastUsedFeatures : model.leastUsedFeatures =
    (ranked .ascending InsightsFeatureUsageStat.allTimeCount (featureActivity records)
      InsightsFeatureUsageStat.featureKey model.featureStats).map featureItem
  mostUsedCategories : model.mostUsedCategories =
    (ranked .descending InsightsCategoryUsageStat.combinedCount (categoryActivity tasks)
      InsightsCategoryUsageStat.categoryId model.categoryStats).map categoryItem
  leastUsedCategories : model.leastUsedCategories =
    (ranked .ascending InsightsCategoryUsageStat.combinedCount (categoryActivity tasks)
      InsightsCategoryUsageStat.categoryId model.categoryStats).map categoryItem
  mostUsedHours : model.mostUsedHours =
    (ranked .descending InsightsHourBucketStat.combinedCount (hourActivity tasks records calendar)
      InsightsHourBucketStat.hour model.hourBuckets).map hourItem
  leastUsedHours : model.leastUsedHours =
    (ranked .ascending InsightsHourBucketStat.combinedCount (hourActivity tasks records calendar)
      InsightsHourBucketStat.hour model.hourBuckets).map hourItem

/-- The rules of the code for equal counts follow the ties among features, categories and hours. -/
structure AllTiesFollow (categories : List Category) (windowStart now : Date) : Prop where
  features : ∀ order, TiesFollow order InsightsFeatureUsageStat.allTimeCount
    (featureActivity records) InsightsFeatureUsageStat.featureKey featureTie
    (buildFeatureStats records windowStart now)
  categories : ∀ order, TiesFollow order InsightsCategoryUsageStat.combinedCount
    (categoryActivity tasks) InsightsCategoryUsageStat.categoryId
    (fun a b => a.categoryName < b.categoryName)
    (buildCategoryStats tasks categories records windowStart now)
  hours : ∀ order, TiesFollow order InsightsHourBucketStat.combinedCount
    (hourActivity tasks records calendar) InsightsHourBucketStat.hour
    (fun a b => a.hour < b.hour) (buildHourBuckets tasks records calendar)

variable {tasks records calendar} {categories : List Category} {windowStart now : Date}
  {order : RankOrder}

/-- The ranking of the features, in terms of ties. -/
theorem forall_rankFeatures_iff :
    (∀ s : Sorter, rankFeatures s (buildFeatureStats records windowStart now) order =
      (ranked order InsightsFeatureUsageStat.allTimeCount (featureActivity records)
        InsightsFeatureUsageStat.featureKey (buildFeatureStats records windowStart now)).map
          featureItem) ↔
      TiesFollow order InsightsFeatureUsageStat.allTimeCount (featureActivity records)
        InsightsFeatureUsageStat.featureKey featureTie
        (buildFeatureStats records windowStart now) := by
  have hkeys : ((buildFeatureStats records windowStart now).map
      InsightsFeatureUsageStat.featureKey).Nodup := by
    have hmap : (buildFeatureStats records windowStart now).map
        InsightsFeatureUsageStat.featureKey = featureCatalog.map Prod.fst := by
      unfold buildFeatureStats
      rw [List.map_map]
      rfl
    rw [hmap]
    decide
  have hkey := fun a ha b hb => List.inj_on_of_nodup_map (x := a) (y := b) hkeys ha hb
  refine forall_sorted_eq_ranked_iff _ featureItem (fun a ha b hb hab => ?_) hkey
    (List.Nodup.of_map _ hkeys) fun a ha b hb => featureTie_iff ha hb
  exact hkey a ha b hb (congrArg InsightsRankingItem.id hab)

/-- The ranking of the categories, in terms of ties. -/
theorem forall_rankCategories_iff :
    (∀ s : Sorter, rankCategories s (buildCategoryStats tasks categories records windowStart now)
        order =
      (ranked order InsightsCategoryUsageStat.combinedCount (categoryActivity tasks)
        InsightsCategoryUsageStat.categoryId
        (buildCategoryStats tasks categories records windowStart now)).map categoryItem) ↔
      TiesFollow order InsightsCategoryUsageStat.combinedCount (categoryActivity tasks)
        InsightsCategoryUsageStat.categoryId (fun a b => a.categoryName < b.categoryName)
        (buildCategoryStats tasks categories records windowStart now) := by
  have hkeys : ((buildCategoryStats tasks categories records windowStart now).map
      InsightsCategoryUsageStat.categoryId).Nodup := by
    have hmap : (buildCategoryStats tasks categories records windowStart now).map
        InsightsCategoryUsageStat.categoryId = sortedIds categories := by
      unfold buildCategoryStats
      rw [List.map_map]
      exact List.map_id _
    rw [hmap]
    exact (List.perm_insertionSort _ _).nodup_iff.mpr (List.nodup_dedup _)
  have hkey := fun a ha b hb => List.inj_on_of_nodup_map (x := a) (y := b) hkeys ha hb
  refine forall_sorted_eq_ranked_iff InsightsCategoryUsageStat.categoryName categoryItem
    (fun a ha b hb hab => ?_) hkey (List.Nodup.of_map _ hkeys) fun a _ b _ => decide_eq_true_iff
  exact hkey a ha b hb (congrArg InsightsRankingItem.id hab)

/-- The ranking of the hours, in terms of ties. -/
theorem forall_rankHours_iff :
    (∀ s : Sorter, rankHours s (buildHourBuckets tasks records calendar) order =
      (ranked order InsightsHourBucketStat.combinedCount (hourActivity tasks records calendar)
        InsightsHourBucketStat.hour (buildHourBuckets tasks records calendar)).map hourItem) ↔
      TiesFollow order InsightsHourBucketStat.combinedCount (hourActivity tasks records calendar)
        InsightsHourBucketStat.hour (fun a b => a.hour < b.hour)
        (buildHourBuckets tasks records calendar) := by
  have hmap : (buildHourBuckets tasks records calendar).map InsightsHourBucketStat.hour =
      (List.range 24).map Nat.cast := by
    unfold buildHourBuckets
    rw [List.map_map]
    rfl
  have hkeys :
      ((buildHourBuckets tasks records calendar).map InsightsHourBucketStat.hour).Nodup := by
    rw [hmap]
    exact List.nodup_range.map Nat.cast_injective
  have hkey := fun a ha b hb => List.inj_on_of_nodup_map (x := a) (y := b) hkeys ha hb
  have hids : ((buildHourBuckets tasks records calendar).map fun stat =>
      (hourItem stat).id).Nodup := by
    have hmap' : (buildHourBuckets tasks records calendar).map (fun stat => (hourItem stat).id) =
        ((List.range 24).map Nat.cast).map fun hour : ℤ => "hour-" ++ toString hour := by
      rw [← hmap, List.map_map]
      rfl
    rw [hmap']
    decide +kernel
  refine forall_sorted_eq_ranked_iff InsightsHourBucketStat.hour hourItem
    (fun a ha b hb hab => ?_) hkey (List.Nodup.of_map _ hkeys) fun a _ b _ => decide_eq_true_iff
  exact List.inj_on_of_nodup_map hids ha hb (congrArg InsightsRankingItem.id hab)

/-- Whether a snapshot is computed does not depend on how it sorts. -/
theorem exists_buildCompleteSnapshot_sorter {sorter : Sorter} (sorter' : Sorter)
    {setOrder : SetOrder String} {fuel : ℕ} {telemetry : InsightsTelemetryScopeState}
    {selectedWindow : InsightsWindow} {calendar : InsightsCalendar} {current : Calendar}
    (h : (buildCompleteSnapshot sorter setOrder fuel tasks categories telemetry selectedWindow now
      calendar current).isSome) :
    ∃ model, buildCompleteSnapshot sorter' setOrder fuel tasks categories telemetry selectedWindow
      now calendar current = some model := by
  obtain ⟨model, h⟩ := Option.isSome_iff_exists.mp h
  unfold buildCompleteSnapshot at h
  obtain ⟨trendWindow, hwindow, h⟩ := Option.bind_eq_some_iff.mp h
  obtain ⟨trendAllTime, hall, h⟩ := Option.bind_eq_some_iff.mp h
  obtain ⟨records, hrecords, h⟩ := Option.bind_eq_some_iff.mp h
  obtain ⟨_, hfit, h⟩ := Option.bind_eq_some_iff.mp h
  obtain ⟨_, hcombined, -⟩ := Option.bind_eq_some_iff.mp h
  unfold buildCompleteSnapshot
  simp only [hwindow, hall, hrecords, hfit, hcombined, Option.bind_eq_bind, Option.bind_some]
  exact ⟨_, rfl⟩

/-- The rankings are the ones that are meant, however they are sorted, exactly if the rules of the
code follow the ties. -/
theorem rankingsFollow_iff {sorter : Sorter} {setOrder : SetOrder String} {fuel : ℕ}
    {telemetry : InsightsTelemetryScopeState} {selectedWindow : InsightsWindow}
    {calendar : InsightsCalendar} {current : Calendar}
    (h : (buildCompleteSnapshot sorter setOrder fuel tasks categories telemetry selectedWindow now
      calendar current).isSome) :
    ∃ records, normalizeTelemetry telemetry calendar.toCalendar = some records ∧
      ((∀ s model, buildCompleteSnapshot s setOrder fuel tasks categories telemetry selectedWindow
          now calendar current = some model →
        RankingsFollow (topLevelTasks tasks) records calendar.toCalendar model) ↔
      AllTiesFollow (topLevelTasks tasks) records calendar.toCalendar categories
        (InsightsAggregator.windowStart selectedWindow now calendar.toCalendar) now) := by
  obtain ⟨model₀, h₀⟩ := exists_buildCompleteSnapshot_sorter sorter h
  obtain ⟨records, hbuilt₀⟩ := isBuilt_of_buildCompleteSnapshot h₀
  refine ⟨records, hbuilt₀.normalized, ?_⟩
  have hbuilt : ∀ s model, buildCompleteSnapshot s setOrder fuel tasks categories telemetry
      selectedWindow now calendar current = some model →
      IsBuilt s fuel tasks categories telemetry selectedWindow now calendar records model := by
    intro s model hmodel
    obtain ⟨records', hbuilt⟩ := isBuilt_of_buildCompleteSnapshot hmodel
    obtain rfl := Option.some.inj (hbuilt.normalized.symm.trans hbuilt₀.normalized)
    exact hbuilt
  constructor
  · intro hfollow
    have hmodels : ∀ s, ∃ model, IsBuilt s fuel tasks categories telemetry selectedWindow now
        calendar records model ∧
          RankingsFollow (topLevelTasks tasks) records calendar.toCalendar model := by
      intro s
      obtain ⟨model, hmodel⟩ := exists_buildCompleteSnapshot_sorter s h
      exact ⟨model, hbuilt s model hmodel, hfollow s model hmodel⟩
    refine ⟨fun order => forall_rankFeatures_iff.mp fun s => ?_,
      fun order => forall_rankCategories_iff.mp fun s => ?_,
      fun order => forall_rankHours_iff.mp fun s => ?_⟩ <;>
      obtain ⟨model, hmodel, hranked⟩ := hmodels s
    · rw [← hmodel.featureStats]
      cases order
      · exact hmodel.rankedFeatures.2.symm.trans hranked.leastUsedFeatures
      · exact hmodel.rankedFeatures.1.symm.trans hranked.mostUsedFeatures
    · rw [← hmodel.categoryStats]
      cases order
      · exact hmodel.rankedCategories.2.symm.trans hranked.leastUsedCategories
      · exact hmodel.rankedCategories.1.symm.trans hranked.mostUsedCategories
    · rw [← hmodel.hourBuckets]
      cases order
      · exact hmodel.rankedHours.2.symm.trans hranked.leastUsedHours
      · exact hmodel.rankedHours.1.symm.trans hranked.mostUsedHours
  · intro hties s model hmodel
    have hmodel := hbuilt s model hmodel
    constructor
    · rw [hmodel.rankedFeatures.1, hmodel.featureStats]
      exact forall_rankFeatures_iff.mpr (hties.features _) s
    · rw [hmodel.rankedFeatures.2, hmodel.featureStats]
      exact forall_rankFeatures_iff.mpr (hties.features _) s
    · rw [hmodel.rankedCategories.1, hmodel.categoryStats]
      exact forall_rankCategories_iff.mpr (hties.categories _) s
    · rw [hmodel.rankedCategories.2, hmodel.categoryStats]
      exact forall_rankCategories_iff.mpr (hties.categories _) s
    · rw [hmodel.rankedHours.1, hmodel.hourBuckets]
      exact forall_rankHours_iff.mpr (hties.hours _) s
    · rw [hmodel.rankedHours.2, hmodel.hourBuckets]
      exact forall_rankHours_iff.mpr (hties.hours _) s

end Rankings

/-! ## A sample -/

/-- A category for the samples below. -/
def homeCategory : Category where
  id := "home"
  name := "Home"
  icon := "🏠"
  color := "#6B7280"

/-- Two categories with one task each, of which the second in the alphabet was used last. -/
def tiedTasks : List Task :=
  [{ sampleTask "a" (.seconds 0) with categories := ["home"] },
    { sampleTask "b" (.seconds 30) with categories := ["work"] }]

/-- Two categories with one open task each. -/
def tiedSnapshot (sorter : Sorter) : Option CompleteSnapshotModel :=
  buildCompleteSnapshot sorter .dedup 8 tiedTasks [homeCategory, workCategory] {} .days7
    (.seconds 60) (InsightsCalendar.gregorian .gmt) (Calendar.gregorian .gmt)

theorem rankingsFollow_iff_tied :
    ∃ records, normalizeTelemetry {} (Calendar.gregorian .gmt) = some records ∧
      ((∀ s model, tiedSnapshot s = some model →
        RankingsFollow (topLevelTasks tiedTasks) records (Calendar.gregorian .gmt) model) ↔
      AllTiesFollow (topLevelTasks tiedTasks) records (Calendar.gregorian .gmt)
        [homeCategory, workCategory]
        (windowStart .days7 (.seconds 60) (Calendar.gregorian .gmt)) (.seconds 60)) := by
  have h : (tiedSnapshot .insertion).isSome := by decide +kernel
  exact rankingsFollow_iff h

/-- The category that was used last comes second among the most used. -/
theorem not_rankingsFollow :
    (tiedSnapshot .insertion).map (fun model =>
      (model.mostUsedCategories.map InsightsRankingItem.id,
        (ranked .descending InsightsCategoryUsageStat.combinedCount (categoryActivity tiedTasks)
          InsightsCategoryUsageStat.categoryId model.categoryStats).map
            InsightsCategoryUsageStat.categoryId)) =
      some (["home", "work", "uncategorized"], ["work", "home", "uncategorized"]) := by
  decide +kernel

end InsightsAggregator

end Notelayer
