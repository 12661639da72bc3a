import Notelayer.FeatureEvents
import Notelayer.TelemetryAttribution
import Notelayer.TelemetryCompaction

/-!
# Feature counts

An event of the store goes through the two queues of telemetry, is appended to the data of the
account and at some time compacted into a bucket. The key of a bucket begins with the name of
the event and its feature, so whatever its categories are called, a compaction keeps the number
of events of every feature (`Compacted.countFeature_eq`).

So the all-time count of a feature is the number of its events in the run
(`Telemetered.allTimeCount_eq`), which is the number of calls but for reminders : they are
counted twice (`Telemetered.featureCounts_iff`).
-/

namespace Notelayer

open KeyedList InsightsAggregator

/-! ## Keys up to the feature -/

/-- The day key and the hour of any event have no separator. -/
theorem dayKeyAndHour_spec {timestampUTC : Date} {offset : ℤ} {day : String} {hour : ℤ}
    (h : dayKeyAndHour timestampUTC offset = some (day, hour)) :
    '|' ∉ day.toList ∧ 0 ≤ hour := by
  obtain ⟨seconds, -, hpair⟩ := Option.map_eq_some_iff.mp h
  obtain ⟨rfl, rfl⟩ := Prod.mk.inj hpair
  generalize timestampUTC.addingTimeInterval seconds = shiftedDate
  simp only [Calendar.gregorian]
  split
  · rename_i seconds hseconds
    obtain ⟨hmonth, -, hday, -⟩ :=
      CivilDate.ofDay_bounds (FixedTimeZone.gmt.dayNumber seconds + daysBefore1970)
    refine ⟨notMem_dayKey ?_ ?_ ?_, (FixedTimeZone.gmt.hourNumber_bounds seconds).1⟩
    · simp only [Option.map_some, Option.getD_some, yearOfEra]
      split_ifs <;> omega
    · simp only [Option.map_some, Option.getD_some]
      omega
    · simp only [Option.map_some, Option.getD_some]
      omega
  · exact ⟨notMem_dayKey (by decide) (by decide) (by decide), le_refl _⟩

/-- What is before the first separator, and what is after it. -/
theorem append_cons_inj {A : Type} {a : A} {l l' m m' : List A} (h : a ∉ l) (h' : a ∉ l')
    (heq : l ++ a :: m = l' ++ a :: m') : l = l' ∧ m = m' := by
  induction l generalizing l' with
  | nil =>
    cases l' with
    | nil => exact ⟨rfl, (List.cons.inj heq).2⟩
    | cons b l' => exact absurd ((List.cons.inj heq).1 ▸ List.mem_cons_self) h'
  | cons b l ih =>
    cases l' with
    | nil => exact absurd ((List.cons.inj heq).1 ▸ List.mem_cons_self) h
    | cons c l' =>
      obtain ⟨rfl, htail⟩ := List.cons.inj heq
      obtain ⟨rfl, hm⟩ := ih (fun hmem => h (List.mem_cons_of_mem _ hmem))
        (fun hmem => h' (List.mem_cons_of_mem _ hmem)) htail
      exact ⟨rfl, hm⟩

/-- A text without a bar ends at the first bar. -/
theorem intercalate_separator_inj {part part' next next' : String} {parts parts' : List String}
    (h : '|' ∉ part.toList) (h' : '|' ∉ part'.toList)
    (heq : String.intercalate "|" (part :: next :: parts) =
      String.intercalate "|" (part' :: next' :: parts')) :
    part = part' ∧
      String.intercalate "|" (next :: parts) = String.intercalate "|" (next' :: parts') := by
  rw [String.intercalate_cons_cons, String.intercalate_cons_cons] at heq
  have hlists := congrArg String.toList heq
  simp only [String.toList_append, List.append_assoc] at hlists
  obtain ⟨hpart, hrest⟩ := append_cons_inj h h' hlists
  exact ⟨String.toList_injective hpart, String.toList_injective hrest⟩

namespace InsightsTelemetryAggregateBucket

/-- The parts of the key up to the feature can be told apart. -/
structure HasFeature (b : InsightsTelemetryAggregateBucket) : Prop where
  dayKey : '|' ∉ b.dayKey.toList
  hour : 0 ≤ b.hour
  eventName : '|' ∉ b.eventName.toList
  featureKey : '|' ∉ b.featureKey.toList

variable {b b' : InsightsTelemetryAggregateBucket}

theorem HasFeature.featureKey_eq (h : b.HasFeature) (h' : b'.HasFeature) {scope : String}
    (hkey : b.key scope = b'.key scope) : b.featureKey = b'.featureKey := by
  have hparts := intercalate_keyParts_inj hkey
  obtain ⟨-, hparts⟩ := intercalate_separator_inj h.dayKey h'.dayKey hparts
  obtain ⟨-, hparts⟩ := intercalate_separator_inj (notMem_toString h.hour)
    (notMem_toString h'.hour) hparts
  obtain ⟨-, hparts⟩ := intercalate_separator_inj h.eventName h'.eventName hparts
  exact (intercalate_separator_inj h.featureKey h'.featureKey hparts).1

end InsightsTelemetryAggregateBucket

/-! ## Events of a feature -/

namespace InsightsTelemetryEvent

/-- The event has an offset that does not overflow, and its names have no separator. -/
structure IsCountable (e : InsightsTelemetryEvent) : Prop where
  offset : (checkedInt (e.timezoneOffsetMinutesAtEvent * 60)).isSome
  eventName : '|' ∉ e.eventName.toList
  featureKey : '|' ∉ e.featureKey.toList

variable {e : InsightsTelemetryEvent} {scope : String} {b : InsightsTelemetryAggregateBucket}

theorem IsCountable.bucket_spec (h : e.IsCountable) (hb : e.bucket scope = some b) :
    b.HasFeature ∧ b.featureKey = e.featureKey ∧ b.count = 1 := by
  obtain ⟨⟨day, hour⟩, hkey, rfl⟩ := Option.map_eq_some_iff.mp hb
  obtain ⟨hday, hhour⟩ := dayKeyAndHour_spec hkey
  exact ⟨⟨hday, hhour, h.eventName, h.featureKey⟩, rfl, rfl⟩

/-- The record of the event is found. -/
theorem IsCountable.exists_recordOfEvent (h : e.IsCountable) (calendar : Calendar) :
    ∃ record, recordOfEvent calendar e = some record ∧ record.featureKey = e.featureKey ∧
      record.count = 1 := by
  obtain ⟨seconds, hseconds⟩ := Option.isSome_iff_exists.mp h.offset
  unfold recordOfEvent dayKeyAndHour
  rw [hseconds]
  exact ⟨_, rfl, rfl, rfl⟩

end InsightsTelemetryEvent

/-- What a bucket counts for in a feature. -/
def featureWeight (feature : String) (b : InsightsTelemetryAggregateBucket) : ℤ :=
  if b.featureKey = feature then b.count else 0

theorem featureWeight_bumped {feature : String} {b new : InsightsTelemetryAggregateBucket}
    (hfeature : b.featureKey = new.featureKey) (hcount : new.count = 1) :
    featureWeight feature b.bumped = featureWeight feature b + featureWeight feature new := by
  unfold featureWeight InsightsTelemetryAggregateBucket.bumped
  dsimp only
  rw [hfeature, hcount]
  split_ifs <;> rfl

namespace Compacted

variable {scope : String} {log : List InsightsTelemetryEvent}
  {state : InsightsTelemetryScopeState}

/-- The new buckets weigh as much as there are events of the feature. -/
theorem sum_featureWeight_new {feature : String} {events : List InsightsTelemetryEvent}
    {newBuckets : List InsightsTelemetryAggregateBucket}
    (hevents : ∀ e ∈ events, e.IsCountable)
    (h : List.Forall₂ (fun e b => InsightsTelemetryEvent.bucket scope e = some b) events
      newBuckets) :
    (newBuckets.map (featureWeight feature)).sum =
      events.countP fun e => e.featureKey = feature := by
  induction h with
  | nil => rfl
  | @cons e b events newBuckets hb _ ih =>
    obtain ⟨-, hfeature, hcount⟩ := (hevents e List.mem_cons_self).bucket_spec hb
    rw [List.map_cons, List.sum_cons, ih fun e he => hevents e (List.mem_cons_of_mem _ he),
      List.countP_cons, featureWeight, hfeature, hcount]
    simp only [decide_eq_true_eq]
    split_ifs <;> push_cast <;> omega

/-- The events that are left and the buckets count as many events of the feature as the log. -/
theorem countFeature_eq (h : Compacted scope log state) (hlog : ∀ e ∈ log, e.IsCountable)
    (feature : String) :
    (∀ e ∈ state.rawEvents, e ∈ log) ∧
      DistinctKeys (InsightsTelemetryAggregateBucket.key scope) state.aggregateBuckets ∧
      (∀ b ∈ state.aggregateBuckets, b.HasFeature) ∧
      (state.rawEvents.countP (fun e => e.featureKey = feature) : ℤ) +
        (state.aggregateBuckets.map (featureWeight feature)).sum =
          log.countP fun e => e.featureKey = feature := by
  induction h with
  | empty => exact ⟨fun e he => he, List.nodup_nil, nofun, rfl⟩
  | record s call context _ _ ih =>
    obtain ⟨hraw, hdistinct, hbuckets, hsum⟩ :=
      ih fun e he => hlog e (List.mem_append_left _ he)
    refine ⟨fun e he => ?_, hdistinct, hbuckets, ?_⟩
    · exact List.mem_append.mpr ((List.mem_append.mp he).imp_left (hraw e))
    · rw [List.countP_append, List.countP_append]
      push_cast
      rw [← hsum]
      exact add_right_comm _ _ _
  | @compact log state state' n order hcompacted hstate ih =>
    obtain ⟨hraw, hdistinct, hbuckets, hsum⟩ := ih hlog
    have hcountable : ∀ e ∈ state.rawEvents.take n, e.IsCountable := fun e he =>
      hlog e (hraw e (List.mem_of_mem_take he))
    obtain ⟨hdrop, hdistinct', hbuckets', newBuckets, horigin, htotal⟩ :=
      InsightsTelemetryScopeState.compact_spec
        (P := InsightsTelemetryAggregateBucket.HasFeature) (f := featureWeight feature) hstate
        (fun b hb => ⟨hb.dayKey, hb.hour, hb.eventName, hb.featureKey⟩) hbuckets
        (fun e he b hb => ((hcountable e he).bucket_spec hb).1)
        (fun e he new hnew b hb hkey => by
          obtain ⟨hfeature, -, hcount⟩ := (hcountable e he).bucket_spec hnew
          exact featureWeight_bumped (hb.featureKey_eq hfeature hkey) hcount)
        hdistinct
    refine ⟨fun e he => hraw e (List.mem_of_mem_drop (hdrop ▸ he)), hdistinct', hbuckets', ?_⟩
    have hnew : (newBuckets.map (featureWeight feature)).sum =
        (state.rawEvents.take n).countP fun e => e.featureKey = feature :=
      sum_featureWeight_new hcountable horigin
    have hsplit := congrArg (List.countP fun e : InsightsTelemetryEvent => e.featureKey = feature)
      (List.take_append_drop n state.rawEvents)
    rw [List.countP_append] at hsplit
    rw [htotal, hdrop, hnew]
    omega

end Compacted

/-! ## The count of the snapshot -/

/-- The all-time count under a title. -/
def InsightsSnapshotModel.allTimeCount (model : InsightsSnapshotModel) (title : String) :
    Option ℤ :=
  (model.featureStats.find? fun stat => stat.title = title).map
    InsightsFeatureUsageStat.allTimeCount

/-- The sum over the events and the buckets of a scope. -/
theorem exists_normalizeTelemetry {state : InsightsTelemetryScopeState}
    (h : ∀ e ∈ state.rawEvents, e.IsCountable) (calendar : Calendar) :
    ∃ records, normalizeTelemetry state calendar = some records ∧ ∀ feature : String,
      (records.map fun record => if feature = record.featureKey then record.count else 0).sum =
        (state.rawEvents.countP (fun e => e.featureKey = feature) : ℤ) +
          (state.aggregateBuckets.map (featureWeight feature)).sum := by
  have hevents : ∀ events : List InsightsTelemetryEvent, (∀ e ∈ events, e.IsCountable) →
      ∃ records, events.mapM (recordOfEvent calendar) = some records ∧ ∀ feature : String,
        (records.map fun record => if feature = record.featureKey then record.count else 0).sum =
          (events.countP (fun e => e.featureKey = feature) : ℤ) := by
    intro events hevents
    induction events with
    | nil => exact ⟨[], rfl, fun _ => rfl⟩
    | cons e events ih =>
      obtain ⟨records, hrecords, hsum⟩ := ih fun e he => hevents e (List.mem_cons_of_mem _ he)
      obtain ⟨record, hrecord, hfeature, hcount⟩ :=
        (hevents e List.mem_cons_self).exists_recordOfEvent calendar
      refine ⟨record :: records, ?_, fun feature => ?_⟩
      · rw [List.mapM_cons, hrecord, hrecords]
        rfl
      · rw [List.map_cons, List.sum_cons, hsum, List.countP_cons, hfeature, hcount]
        simp only [decide_eq_true_eq, eq_comm (a := feature)]
        split_ifs <;> push_cast <;> omega
  obtain ⟨records, hrecords, hsum⟩ := hevents state.rawEvents h
  refine ⟨_, congrArg _ hrecords, fun feature => ?_⟩
  rw [List.map_append, List.sum_append, hsum, List.map_map]
  refine congrArg _ (congrArg _ (List.map_congr_left fun b _ => ?_))
  by_cases heq : feature = b.featureKey
  · simp [recordOfBucket, featureWeight, heq]
  · simp [recordOfBucket, featureWeight, heq, Ne.symm heq]

/-- The count of a feature that is in the catalog under a title of its own. -/
theorem exists_allTimeCount {scope : String} {log : List InsightsTelemetryEvent}
    {state : InsightsTelemetryScopeState} (h : Compacted scope log state)
    (hlog : ∀ e ∈ log, e.IsCountable) (tasks : List Task) (categories : List Category)
    (selectedWindow : InsightsWindow) (now : Date) (calendar : Calendar) :
    ∃ model, buildSnapshot tasks categories state selectedWindow now calendar = some model ∧
      ∀ call : FeatureCall, model.allTimeCount call.title =
        some ((log.countP fun e => e.featureKey = call.featureKey : ℕ) : ℤ) := by
  have hraw := (h.countFeature_eq hlog "").1
  obtain ⟨records, hrecords, hsum⟩ :=
    exists_normalizeTelemetry (fun e he => hlog e (hraw e he)) calendar
  unfold buildSnapshot
  rw [hrecords]
  refine ⟨_, rfl, fun call => ?_⟩
  have htotal := (h.countFeature_eq hlog call.featureKey).2.2.2
  have hcounts : records.foldl (fun counts record =>
      addCount counts record.featureKey record.count) (fun _ => 0) call.featureKey =
        log.countP fun e => e.featureKey = call.featureKey := by
    rw [Tally.foldl_apply fun d record k => addCount_apply d record.featureKey record.count k,
      zero_add, hsum, htotal]
  have hcatalog : featureCatalog.find? (fun item => item.2 = call.title) =
      some (call.featureKey, call.title) := by
    cases call <;> decide
  unfold InsightsSnapshotModel.allTimeCount buildFeatureStats
  dsimp only
  rw [List.find?_map, Option.map_map]
  exact (congrArg (Option.map _) hcatalog).trans (congrArg some hcounts)

/-! ## Recording -/

/-- `secondsFromGMT` is an `Int`. -/
def RecordContext.IsInt (context : RecordContext) : Prop :=
  -2 ^ 63 ≤ context.secondsFromGMT ∧ context.secondsFromGMT < 2 ^ 63

/-- Cut to minutes, an `Int` of seconds can be taken back to seconds. -/
theorem RecordContext.IsInt.isSome_checkedInt {context : RecordContext} (h : context.IsInt) :
    (checkedInt (context.secondsFromGMT.tdiv 60 * 60)).isSome := by
  unfold IsInt at h
  have hrange : -2 ^ 63 ≤ context.secondsFromGMT.tdiv 60 * 60 ∧
      context.secondsFromGMT.tdiv 60 * 60 < 2 ^ 63 := by
    rw [Int.tdiv_eq_ediv, Int.sign_eq_one_of_pos (by decide)]
    split_ifs <;> omega
  rw [checkedInt, if_pos hrange]
  rfl

namespace TelemetryQueues

/-- The queues of a store that is enabled and stays in its scope. -/
structure Recording (scope : String) (x : TelemetryQueues) : Prop where
  isEnabled : x.store.isEnabled = true
  currentScope : x.store.storage.currentScopeKey = scope
  isFree : x.isWaiting = false
  records : ∀ block ∈ x.storeQueue, block.isChange = false
  kept : x.Kept
  data : Compacted scope (x.stored.map Prod.snd) (x.store.data scope)
  stored : ∀ p ∈ x.stored, ∃ (s : InsightsTelemetryStore) (timestampUTC : Date)
    (context : RecordContext), context.IsInt ∧
      p.2 = s.event (AnalyticsService.recordCall p.1.event timestampUTC) context

end TelemetryQueues

/-- The step does not change the scope, and the offset that it draws is an `Int`. -/
def QueueStep.KeepsScope : QueueStep → TelemetryQueues → Prop
  | setUserScope _, _ => False
  | runStore context, _ => context.IsInt
  | _, _ => True

namespace TelemetryQueues

variable {scope : String} {x x' : TelemetryQueues}

/-- A record appends its event to the log of the scope. -/
theorem compacted_record {log : List InsightsTelemetryEvent} {s s' : InsightsTelemetryStore}
    {call : RecordCall} {context : RecordContext} (henabled : s.isEnabled = true)
    (hscope : s.storage.currentScopeKey = scope) (h : Compacted scope log (s.data scope))
    (hs' : s.record call context = some s') :
    Compacted scope (log ++ [s.event call context]) (s'.data scope) := by
  rcases InsightsTelemetryStore.record_cases hs' with ⟨hdisabled, -⟩ | ⟨-, state, hstate, rfl⟩
  · rw [henabled] at hdisabled
    cases hdisabled
  rw [InsightsTelemetryStore.data_persistLocked, InsightsTelemetryStore.data_setState,
    if_pos hscope.symm]
  rw [hscope] at hstate
  have happended := Compacted.record s call context hscope h
  unfold InsightsTelemetryStore.compactIfNeeded at hstate
  dsimp only at hstate
  split_ifs at hstate
  · obtain rfl := Option.some_inj.mp hstate
    exact happended
  · exact Compacted.compact _ context.order happended hstate

/-- A step that keeps the scope records in this scope. -/
theorem Recording.step (h : x.Recording scope) {l : QueueStep} (hl : l.KeepsScope x)
    (hx : step l x = some x') : x'.Recording scope := by
  have hkept := h.kept.step hx
  cases l with
  | logEvent event =>
    simp only [TelemetryQueues.step, h.isFree] at hx
    obtain rfl := Option.some_inj.mp hx
    unfold logEvent at hkept ⊢
    rw [if_pos h.isEnabled] at hkept ⊢
    exact { h with kept := hkept }
  | setUserScope userId => exact hl.elim
  | runTelemetry now =>
    simp only [TelemetryQueues.step, runTelemetry] at hx
    split at hx
    · cases hx
    · rename_i logged telemetryQueue hqueue
      obtain rfl := Option.some_inj.mp hx
      refine { h with kept := hkept, records := ?_ }
      dsimp only
      rw [if_pos h.isEnabled]
      intro block hblock
      rcases List.mem_append.mp hblock with hblock | hblock
      · exact h.records block hblock
      · obtain rfl := List.mem_singleton.mp hblock
        rfl
  | runStore context =>
    rcases runStore_cases hx with ⟨logged, timestampUTC, storeQueue, store, hqueue, hstore, rfl⟩ |
      ⟨userId, storeQueue, hqueue, rfl⟩
    · obtain ⟨henabled, hscope⟩ := InsightsTelemetryStore.frame_record hstore
      refine ⟨henabled.trans h.isEnabled, hscope.trans h.currentScope, h.isFree, ?_, hkept, ?_, ?_⟩
      · intro block hblock
        exact h.records block (hqueue ▸ List.mem_cons_of_mem _ hblock)
      · rw [List.map_append]
        exact compacted_record h.isEnabled h.currentScope h.data hstore
      · intro p hp
        rcases List.mem_append.mp hp with hp | hp
        · exact h.stored p hp
        · obtain rfl := List.mem_singleton.mp hp
          exact ⟨x.store, timestampUTC, context, hl, rfl⟩
    · have hchange := h.records (.setUserScope userId) (hqueue ▸ List.mem_cons_self)
      cases hchange

/-- A new store records in the anonymous scope. -/
theorem recording_start (rawEventCap compactionBatchSize : ℤ) :
    (start (.launch none true rawEventCap compactionBatchSize)).Recording
      InsightsTelemetryStore.anonymousScope := by
  refine ⟨?_, ?_, rfl, nofun, kept_start _, ?_, nofun⟩
  · unfold start InsightsTelemetryStore.launch InsightsTelemetryStore.migrateIfNeeded
      InsightsTelemetryStore.ensureState
    dsimp only
    split_ifs <;> simp [InsightsTelemetryStore.setState]
  · unfold start InsightsTelemetryStore.launch InsightsTelemetryStore.migrateIfNeeded
      InsightsTelemetryStore.ensureState
    dsimp only
    split_ifs <;> simp [InsightsTelemetryStore.setState, InsightsTelemetryStore.loadPersistedStore]
  · rw [start, InsightsTelemetryStore.data_launch_none]
    exact Compacted.empty

/-- Once no block is waiting, what was logged is what was stored. -/
theorem Recording.stored_eq (h : x.Recording scope) (hdrained : x.IsDrained) :
    x.stored.map Prod.fst = x.logged := by
  have hkept := h.kept.kept
  rw [hdrained.1, List.append_nil, placed, hdrained.2, StoreBlock.destinations,
    List.append_nil, List.map_map] at hkept
  exact hkept

end TelemetryQueues

/-! ## The app with its telemetry -/

/-- The app and the queues that its events go through. -/
structure Telemetered where
  app : ReminderSession
  queues : TelemetryQueues
  /-- The calls that succeeded so far. -/
  calls : List FeatureCall := []

/-- A step of the app, or a block of a queue. -/
inductive TelemeteredStep where
  | store (e : Date × FeatureStep)
  /-- The first block of the telemetry queue, at an instant. -/
  | runTelemetry (now : Date)
  /-- The first block of the store's queue. -/
  | runStore (context : RecordContext)

namespace Telemetered

variable (y : Telemetered)

/-- The events that are in the second store and not in the first. -/
def newEvents (s s' : LocalStore) : List AnalyticsEvent :=
  s'.analytics.drop s.analytics.length

/-- A step of the queues. -/
def runQueue (l : QueueStep) : Option Telemetered :=
  (TelemetryQueues.step l y.queues).map fun queues => { y with queues := queues }

/-- The step function of the app with its telemetry. -/
def step : TelemeteredStep → Telemetered → Option Telemetered
  | .store e, y => do
    let app ← FeatureStep.step e y.app
    let events := newEvents y.app.session.store app.session.store
    let queues ← Runs.run TelemetryQueues.step (events.map .logEvent) y.queues
    some ⟨app, queues, y.calls ++ FeatureStep.calls e y.app⟩
  | .runTelemetry now, y => y.runQueue (.runTelemetry now)
  | .runStore context, y => y.runQueue (.runStore context)

/-- The app with telemetry in which nothing was recorded. -/
def start (app : ReminderSession) (rawEventCap compactionBatchSize : ℤ) : Telemetered where
  app := app
  queues := .start (.launch none true rawEventCap compactionBatchSize)

end Telemetered

/-- The offset that the step draws is an `Int`. -/
def TelemeteredStep.DrawsInt : TelemeteredStep → Telemetered → Prop
  | runStore context, _ => context.IsInt
  | _, _ => True

namespace TelemetryQueues

variable {scope : String} {x x' : TelemetryQueues}

/-- What is logged is kept in order. -/
theorem Recording.logEvents (h : x.Recording scope) {events : List AnalyticsEvent}
    (hx : Runs.run TelemetryQueues.step (events.map QueueStep.logEvent) x = some x') :
    x'.Recording scope ∧
      x'.logged.map LoggedEvent.event = x.logged.map LoggedEvent.event ++ events := by
  induction events generalizing x with
  | nil =>
    obtain rfl := Option.some_inj.mp hx
    exact ⟨h, (List.append_nil _).symm⟩
  | cons event events ih =>
    obtain ⟨x₁, hx₁, hx'⟩ := Runs.run_cons_eq_some.mp hx
    obtain ⟨hrecording, hlogged⟩ := ih (h.step (l := .logEvent event) trivial hx₁) hx'
    refine ⟨hrecording, ?_⟩
    simp only [TelemetryQueues.step, h.isFree] at hx₁
    obtain rfl := Option.some_inj.mp hx₁
    rw [hlogged, logEvent, if_pos h.isEnabled]
    simp

/-- A block that runs logs nothing. -/
theorem logged_runQueue {l : QueueStep} (hl : ∀ event, l ≠ .logEvent event)
    (hx : step l x = some x') : x'.logged = x.logged := by
  cases l with
  | logEvent event => exact absurd rfl (hl event)
  | setUserScope userId =>
    simp only [step] at hx
    split_ifs at hx
    obtain rfl := Option.some_inj.mp hx
    rfl
  | runTelemetry now =>
    simp only [step, runTelemetry] at hx
    split at hx
    · cases hx
    · obtain rfl := Option.some_inj.mp hx
      rfl
  | runStore context => exact (frame_runStore hx).2.2.2.2

end TelemetryQueues

/-! ## Counting -/

/-- An event of the store is mapped to the feature of a call if it is one of the call's. -/
theorem featureKey_eq_iff {name : String} (h : name ∈ countedNames ∨ name ∈ otherNames)
    (viewName : Option String) (call : FeatureCall) :
    AnalyticsService.featureKey name viewName = call.featureKey ↔ name ∈ call.eventNames := by
  refine ⟨fun hkey => ?_, fun hname => FeatureCall.featureKey_of_mem_eventNames hname viewName⟩
  rcases h with hcounted | hother
  · obtain ⟨call', hcall'⟩ := mem_countedNames.mp hcounted
    rw [FeatureCall.featureKey_of_mem_eventNames hcall' viewName] at hkey
    rwa [← FeatureCall.featureKey_inj hkey]
  · exact absurd hkey (featureKey_ne_of_mem_otherNames hother viewName call)

/-- The events of the calls that are events of one call. -/
theorem countP_flatMap_eventNames (calls : List FeatureCall) (call : FeatureCall) :
    (calls.flatMap FeatureCall.eventNames).countP (fun name => name ∈ call.eventNames) =
      calls.count call * call.eventNames.length := by
  have hone : ∀ call' : FeatureCall,
      call'.eventNames.countP (fun name => name ∈ call.eventNames) =
        if call' = call then call.eventNames.length else 0 := by
    intro call'
    split_ifs with heq
    · rw [heq, List.countP_eq_length]
      exact fun name hname => decide_eq_true hname
    · rw [List.countP_eq_zero]
      intro name hname hname'
      refine heq (FeatureCall.featureKey_inj ?_)
      rw [← FeatureCall.featureKey_of_mem_eventNames hname none,
        ← FeatureCall.featureKey_of_mem_eventNames (of_decide_eq_true hname') none]
  induction calls with
  | nil => simp
  | cons call' calls ih =>
    rw [List.flatMap_cons, List.countP_append, ih, hone, List.count_cons]
    simp only [beq_iff_eq]
    split_ifs <;> ring

/-- A feature counts as many events as it has calls, where the other names count for none of the
ten. -/
theorem countP_featureKey {events : List AnalyticsEvent} {calls : List FeatureCall}
    (hnames : ∀ e ∈ events, e.name ∈ countedNames ∨ e.name ∈ otherNames)
    (hcounted : countedEvents events = calls.flatMap FeatureCall.eventNames)
    (viewName : AnalyticsEvent → Option String) (call : FeatureCall) :
    events.countP (fun e => AnalyticsService.featureKey e.name (viewName e) = call.featureKey) =
      calls.count call * call.eventNames.length := by
  rw [← countP_flatMap_eventNames, ← hcounted, countedEvents, List.countP_filter, List.countP_map]
  refine List.countP_congr fun e he => ?_
  simp only [decide_eq_true_eq, Function.comp_apply, Bool.and_eq_true,
    featureKey_eq_iff (hnames e he)]
  exact ⟨fun h => ⟨h, mem_countedNames.mpr ⟨call, h⟩⟩, And.left⟩

namespace Telemetered

open TelemetryQueues

variable {y y' : Telemetered}

/-- What is on its way is what the calls have logged. -/
structure Follows (y : Telemetered) : Prop where
  recording : y.queues.Recording InsightsTelemetryStore.anonymousScope
  names : ∀ logged ∈ y.queues.logged,
    logged.event.name ∈ countedNames ∨ logged.event.name ∈ otherNames
  counted : countedEvents (y.queues.logged.map LoggedEvent.event) =
    y.calls.flatMap FeatureCall.eventNames

theorem Follows.runQueue (h : y.Follows) {l : QueueStep} (hl : l.KeepsScope y.queues)
    (hlog : ∀ event, l ≠ .logEvent event) (hy : y.runQueue l = some y') : y'.Follows := by
  obtain ⟨queues, hqueues, rfl⟩ := Option.map_eq_some_iff.mp hy
  have hlogged := logged_runQueue hlog hqueues
  exact ⟨h.recording.step hl hqueues, by rw [hlogged]; exact h.names,
    by rw [hlogged]; exact h.counted⟩

/-- A step of the app, or of its queues. -/
theorem Follows.step (h : y.Follows) {l : TelemeteredStep} (hl : l.DrawsInt y)
    (hy : step l y = some y') : y'.Follows := by
  cases l with
  | runTelemetry now => exact h.runQueue (l := .runTelemetry now) trivial nofun hy
  | runStore context => exact h.runQueue (l := .runStore context) hl nofun hy
  | store e =>
    obtain ⟨app, happ, hy⟩ := Option.bind_eq_some_iff.mp hy
    obtain ⟨queues, hqueues, hy⟩ := Option.bind_eq_some_iff.mp hy
    obtain rfl := Option.some_inj.mp hy
    obtain ⟨events, hanalytics, hnames, hcounted⟩ := FeatureStep.logs_step happ
    have hevents : newEvents y.app.session.store app.session.store = events := by
      rw [newEvents, hanalytics, List.drop_left]
    rw [hevents] at hqueues
    obtain ⟨hrecording, hlogged⟩ := h.recording.logEvents hqueues
    refine ⟨hrecording, ?_, ?_⟩
    · intro logged hmem
      have hevent : logged.event ∈ y.queues.logged.map LoggedEvent.event ++ events := by
        rw [← hlogged]
        exact List.mem_map_of_mem hmem
      rcases List.mem_append.mp hevent with hevent | hevent
      · obtain ⟨before, hbefore, heq⟩ := List.mem_map.mp hevent
        rw [← heq]
        exact h.names before hbefore
      · exact hnames _ hevent
    · dsimp only
      rw [hlogged, countedEvents_append, h.counted, hcounted, List.flatMap_append]

theorem follows_start (app : ReminderSession) (rawEventCap compactionBatchSize : ℤ) :
    (start app rawEventCap compactionBatchSize).Follows :=
  ⟨recording_start rawEventCap compactionBatchSize, nofun, rfl⟩

/-- The names of the store have no separator. -/
theorem notMem_name {name : String} (h : name ∈ countedNames ∨ name ∈ otherNames) :
    '|' ∉ name.toList ∧ ∀ viewName, '|' ∉ (AnalyticsService.featureKey name viewName).toList := by
  have hnames : ∀ name ∈ countedNames ++ otherNames, '|' ∉ name.toList := by decide
  have hfeatures : ∀ feature ∈ otherFeatures, '|' ∉ feature.toList := by decide
  refine ⟨hnames name (List.mem_append.mpr h), fun viewName => ?_⟩
  rcases h with hcounted | hother
  · obtain ⟨call, hcall⟩ := mem_countedNames.mp hcounted
    rw [FeatureCall.featureKey_of_mem_eventNames hcall]
    cases call <;> decide
  · exact hfeatures _ (featureKey_mem_otherFeatures hother viewName)

/-- Once the queues are drained, every stored event is one that Insights counts. -/
theorem Follows.isCountable (h : y.Follows) (hdrained : y.queues.IsDrained) :
    ∀ e ∈ y.queues.stored.map Prod.snd, e.IsCountable := by
  intro e he
  obtain ⟨p, hp, rfl⟩ := List.mem_map.mp he
  obtain ⟨s, timestampUTC, context, hint, heq⟩ := h.recording.stored p hp
  have hlogged : p.1 ∈ y.queues.logged := by
    rw [← h.recording.stored_eq hdrained]
    exact List.mem_map_of_mem hp
  obtain ⟨hname, hfeature⟩ := notMem_name (h.names p.1 hlogged)
  rw [heq]
  exact ⟨hint.isSome_checkedInt, hname, hfeature _⟩

/-- Once the queues are empty, the snapshot counts the events of the calls. -/
theorem Follows.exists_model (h : y.Follows) (hdrained : y.queues.IsDrained) (tasks : List Task)
    (categories : List Category) (selectedWindow : InsightsWindow) (now : Date)
    (calendar : Calendar) :
    ∃ model, buildSnapshot tasks categories (y.queues.store.snapshot none).2 selectedWindow now
        calendar = some model ∧
      ∀ call : FeatureCall, model.allTimeCount call.title =
        some ((y.calls.count call * call.eventNames.length : ℕ) : ℤ) := by
  have hsnapshot : (y.queues.store.snapshot none).2 =
      y.queues.store.data InsightsTelemetryStore.anonymousScope := by
    unfold InsightsTelemetryStore.snapshot InsightsTelemetryStore.normalizedScopeKey
    dsimp only
    rw [Option.getD_none, h.recording.currentScope]
    split_ifs <;> rfl
  obtain ⟨model, hmodel, hcounts⟩ := exists_allTimeCount h.recording.data
    (h.isCountable hdrained) tasks categories selectedWindow now calendar
  refine ⟨model, by rw [hsnapshot]; exact hmodel, fun call => ?_⟩
  have hnames : ∀ e ∈ y.queues.logged.map LoggedEvent.event,
      e.name ∈ countedNames ∨ e.name ∈ otherNames := by
    intro e he
    obtain ⟨logged, hlogged, rfl⟩ := List.mem_map.mp he
    exact h.names logged hlogged
  have hfeature : ∀ p ∈ y.queues.stored, p.2.featureKey =
      AnalyticsService.featureKey p.1.event.name
        (AnalyticsService.stringParam p.1.event.params "view_name") := by
    intro p hp
    obtain ⟨s, timestampUTC, context, -, heq⟩ := h.recording.stored p hp
    rw [heq]
    rfl
  rw [hcounts, ← countP_featureKey hnames h.counted
    (fun e => AnalyticsService.stringParam e.params "view_name") call,
    ← h.recording.stored_eq hdrained, List.map_map, List.countP_map, List.countP_map]
  refine congrArg some (congrArg Nat.cast (List.countP_congr fun p hp => ?_))
  simp only [Function.comp_apply, hfeature p hp]

/-! ## Runs -/

/-- The calls for reminders. -/
def reminderCalls (y : Telemetered) : List FeatureCall :=
  y.calls.filter fun call => call = .setReminder ∨ call = .removeReminder

end Telemetered

/-- No `setReminder` and no `removeReminder` runs to its end in the step. -/
def TelemeteredStep.CompletesNoReminder : TelemeteredStep → Telemetered → Prop
  | store e, y => .setReminder ∉ FeatureStep.calls e y.app ∧
    .removeReminder ∉ FeatureStep.calls e y.app
  | _, _ => True

namespace Telemetered

open TelemetryQueues

variable {y y' : Telemetered}

/-- The calls about reminders grow if and only if a step completes one. -/
theorem reminderCalls_step {l : TelemeteredStep} (hy : step l y = some y') :
    ∃ calls, y'.reminderCalls = y.reminderCalls ++ calls ∧
      (calls = [] ↔ l.CompletesNoReminder y) := by
  have hqueue : ∀ {l : QueueStep}, y.runQueue l = some y' →
      y'.reminderCalls = y.reminderCalls ++ [] := by
    intro l hy
    obtain ⟨queues, -, rfl⟩ := Option.map_eq_some_iff.mp hy
    exact (List.append_nil _).symm
  cases l with
  | runTelemetry now => exact ⟨[], hqueue hy, iff_of_true rfl trivial⟩
  | runStore context => exact ⟨[], hqueue hy, iff_of_true rfl trivial⟩
  | store e =>
    obtain ⟨app, -, hy⟩ := Option.bind_eq_some_iff.mp hy
    obtain ⟨queues, -, hy⟩ := Option.bind_eq_some_iff.mp hy
    obtain rfl := Option.some_inj.mp hy
    refine ⟨_, List.filter_append _ _, ?_⟩
    rw [List.filter_eq_nil_iff]
    simp only [decide_eq_true_eq, not_or]
    exact ⟨fun h => ⟨fun hmem => (h _ hmem).1 rfl, fun hmem => (h _ hmem).2 rfl⟩,
      fun h call hmem => ⟨fun heq => h.1 (heq ▸ hmem), fun heq => h.2 (heq ▸ hmem)⟩⟩

variable {app : ReminderSession} {rawEventCap compactionBatchSize : ℤ}
  {ls : List TelemeteredStep}

/-- In every run the all-time counts are the numbers of the calls, with those for reminders
taken twice. -/
theorem allTimeCount_eq
    (hdraws : Runs.Guarded step TelemeteredStep.DrawsInt ls
      (start app rawEventCap compactionBatchSize))
    (hy : Runs.run step ls (start app rawEventCap compactionBatchSize) = some y)
    (hdrained : y.queues.IsDrained) (tasks : List Task) (categories : List Category)
    (selectedWindow : InsightsWindow) (now : Date) (calendar : Calendar) :
    ∃ model, buildSnapshot tasks categories (y.queues.store.snapshot none).2 selectedWindow now
        calendar = some model ∧
      ∀ call : FeatureCall, model.allTimeCount call.title =
        some ((y.calls.count call * call.eventNames.length : ℕ) : ℤ) := by
  have hfollows : y.Follows := Runs.invariant_of_guarded
    (fun _ _ _ h hl hstep => Follows.step h hl hstep)
    (follows_start app rawEventCap compactionBatchSize) hdraws hy
  exact hfollows.exists_model hdrained tasks categories selectedWindow now calendar

/-- The all-time counts of a run are the numbers of the calls in it exactly if no call for a
reminder runs to its end. -/
theorem featureCounts_iff
    (hdraws : Runs.Guarded step TelemeteredStep.DrawsInt ls
      (start app rawEventCap compactionBatchSize))
    (hy : Runs.run step ls (start app rawEventCap compactionBatchSize) = some y)
    (hdrained : y.queues.IsDrained) (tasks : List Task) (categories : List Category)
    (selectedWindow : InsightsWindow) (now : Date) (calendar : Calendar) :
    ∃ model, buildSnapshot tasks categories (y.queues.store.snapshot none).2 selectedWindow now
        calendar = some model ∧
      ((∀ call : FeatureCall, model.allTimeCount call.title = some (y.calls.count call : ℤ)) ↔
        Runs.Guarded step TelemeteredStep.CompletesNoReminder ls
          (start app rawEventCap compactionBatchSize)) := by
  obtain ⟨model, hmodel, hcounts⟩ :=
    allTimeCount_eq hdraws hy hdrained tasks categories selectedWindow now calendar
  obtain ⟨calls, hcalls, hguarded⟩ := Runs.log_eq_iff_guarded reminderCalls
    (fun _ _ _ hstep => reminderCalls_step hstep) hy
  have hreminders : y.reminderCalls = calls := hcalls
  refine ⟨model, hmodel, Iff.trans ?_ hguarded⟩
  have hcount : ∀ call : FeatureCall,
      model.allTimeCount call.title = some (y.calls.count call : ℤ) ↔
        (call = .setReminder ∨ call = .removeReminder → call ∉ y.calls) := by
    intro call
    rw [hcounts, Option.some_inj, call.length_eventNames, Nat.cast_inj, ← List.count_eq_zero]
    split_ifs with hreminder
    · simp only [hreminder, true_implies]
      omega
    · simp [hreminder]
  simp only [hcount]
  rw [← hreminders, reminderCalls, List.filter_eq_nil_iff]
  simp only [decide_eq_true_eq]
  exact ⟨fun h call hmem hreminder => h call hreminder hmem,
    fun h call hreminder hmem => h call hmem hreminder⟩

/-- A store with one task. -/
def sampleApp : ReminderSession where
  session := ⟨{ tasks := [.sampleParent] }, [], []⟩

/-- A category is added, and its event recorded. -/
def categorySteps : List TelemeteredStep :=
  [.store (.seconds 1, .view (.addCategory ⟨"work", "Work", "", "", 0⟩)),
    .runTelemetry (.seconds 2), .runStore TelemetryQueues.sampleContext]

/-- A reminder is set, and its two events recorded. -/
def reminderSteps : List TelemeteredStep :=
  [.store (.seconds 1, .app (.setReminder "parent" (.seconds 60) "notification")),
    .store (.seconds 1, .app (.resume 0 "" false)),
    .runTelemetry (.seconds 2), .runTelemetry (.seconds 2),
    .runStore TelemetryQueues.sampleContext, .runStore TelemetryQueues.sampleContext]

/-- A run whose contexts are those of the samples draws integers. -/
theorem guarded_drawsInt {ls : List TelemeteredStep} {y : Telemetered}
    (h : ∀ context, .runStore context ∈ ls → context = TelemetryQueues.sampleContext) :
    Runs.Guarded step TelemeteredStep.DrawsInt ls y := by
  induction ls generalizing y with
  | nil => trivial
  | cons l ls ih =>
    refine ⟨?_, fun y' _ => ih fun context hmem => h context (List.mem_cons_of_mem _ hmem)⟩
    cases l with
    | runStore context =>
      rw [h context List.mem_cons_self]
      exact ⟨by decide, by decide⟩
    | _ => trivial

theorem featureCounts_iff_category : ∃ y model,
    Runs.run step categorySteps (start sampleApp 10 5) = some y ∧ y.queues.IsDrained ∧
    buildSnapshot [] [] (y.queues.store.snapshot none).2 .days7 (.seconds 3)
      (Calendar.gregorian .gmt) = some model ∧
    model.allTimeCount "Categories Created" = some 1 ∧
    model.allTimeCount "Reminders Added" = some 0 := by
  have hdraws : Runs.Guarded step TelemeteredStep.DrawsInt categorySteps (start sampleApp 10 5) :=
    guarded_drawsInt (by simp [categorySteps])
  have hguarded : Runs.Guarded step TelemeteredStep.CompletesNoReminder categorySteps
      (start sampleApp 10 5) :=
    ⟨⟨by decide, by decide⟩, fun _ _ => ⟨trivial, fun _ _ => ⟨trivial, fun _ _ => trivial⟩⟩⟩
  obtain ⟨model, hmodel, hiff⟩ := featureCounts_iff hdraws rfl ⟨rfl, rfl⟩ [] [] .days7 (.seconds 3)
    (Calendar.gregorian .gmt)
  exact ⟨_, model, rfl, ⟨rfl, rfl⟩, hmodel, hiff.mpr hguarded .addCategory,
    hiff.mpr hguarded .setReminder⟩

/-- One reminder that was set is counted as two. -/
theorem not_featureCounts_reminder :
    ¬ ∀ (app : ReminderSession) (rawEventCap compactionBatchSize : ℤ) (ls : List TelemeteredStep)
      (y : Telemetered) (tasks : List Task) (categories : List Category)
      (selectedWindow : InsightsWindow) (now : Date) (calendar : Calendar)
      (model : InsightsSnapshotModel),
      Runs.Guarded step TelemeteredStep.DrawsInt ls
        (start app rawEventCap compactionBatchSize) →
      Runs.run step ls (start app rawEventCap compactionBatchSize) = some y →
      y.queues.IsDrained →
      buildSnapshot tasks categories (y.queues.store.snapshot none).2 selectedWindow now
        calendar = some model →
      ∀ call : FeatureCall, model.allTimeCount call.title = some (y.calls.count call : ℤ) := by
  intro h
  have hdraws : Runs.Guarded step TelemeteredStep.DrawsInt reminderSteps (start sampleApp 10 5) :=
    guarded_drawsInt (by simp [reminderSteps])
  obtain ⟨model, hmodel, hcounts⟩ := allTimeCount_eq hdraws rfl ⟨rfl, rfl⟩ [] [] .days7
    (.seconds 3) (Calendar.gregorian .gmt)
  have hclaimed := h sampleApp 10 5 reminderSteps _ [] [] .days7 (.seconds 3)
    (Calendar.gregorian .gmt) model hdraws rfl ⟨rfl, rfl⟩ hmodel .setReminder
  rw [hcounts] at hclaimed
  exact absurd (Option.some_inj.mp hclaimed) (by decide)

end Telemetered

end Notelayer
