import Notelayer.Calendar
import Notelayer.Library.Runs
import Notelayer.Library.Tally

/-!
# The telemetry store of Insights

`InsightsTelemetryStore` keeps for each account the latest events as they are and the older
ones in buckets with a count. Each of its operations is a block of a serial queue. A
compaction drops the first events and moves their weight to the buckets
(`InsightsTelemetryScopeState.compact_spec`).
-/

namespace Notelayer

open KeyedList

/-! ## Events and buckets -/

/-- One recorded event. -/
structure InsightsTelemetryEvent where
  id : String
  eventName : String
  featureKey : String
  timestampUTC : Date
  timezoneOffsetMinutesAtEvent : ℤ
  tabName : Option String
  viewName : Option String
  categoryIds : List String
  taskIdPolicyField : Option String
  metadata : List (String × String)
  userScopeKey : String
  deriving DecidableEq

/-- The number of events that agree in day, hour, name, feature, place, categories and scope. -/
structure InsightsTelemetryAggregateBucket where
  dayKey : String
  hour : ℤ
  eventName : String
  featureKey : String
  tabName : Option String
  viewName : Option String
  categoryIds : List String
  count : ℤ
  userScopeKey : String
  deriving DecidableEq

/-- The events of one scope, raw or counted in buckets. -/
structure InsightsTelemetryScopeState where
  rawEvents : List InsightsTelemetryEvent := []
  aggregateBuckets : List InsightsTelemetryAggregateBucket := []
  deriving DecidableEq

/-- What the telemetry file holds : one state for each scope. -/
structure InsightsTelemetryPersistedStore where
  schemaVersion : ℤ
  currentScopeKey : String
  states : List (String × InsightsTelemetryScopeState)
  deriving DecidableEq

/-- The order in which a dictionary lists its values. -/
structure IterationOrder (A : Type) where
  arrange : List A → List A
  perm : ∀ l, (arrange l).Perm l

/-- The text that identifies a bucket. -/
def bucketKey (dayKey : String) (hour : ℤ) (eventName featureKey : String)
    (tabName viewName : Option String) (categoryIds : List String) (scopeKey : String) : String :=
  let tab := tabName.getD "-"
  let view := viewName.getD "-"
  let cats := joinedByComma categoryIds
  String.intercalate "|" [scopeKey, dayKey, toString hour, eventName, featureKey, tab, view, cats]

namespace InsightsTelemetryAggregateBucket

/-- The key under which a bucket of the scope is merged. -/
def key (scope : String) (b : InsightsTelemetryAggregateBucket) : String :=
  bucketKey b.dayKey b.hour b.eventName b.featureKey b.tabName b.viewName b.categoryIds scope

/-- `existing.count += 1`. -/
def bumped (b : InsightsTelemetryAggregateBucket) : InsightsTelemetryAggregateBucket :=
  { b with count := b.count + 1 }

/-- The order of the buckets. -/
def Precedes (a b : InsightsTelemetryAggregateBucket) : Prop :=
  if a.dayKey ≠ b.dayKey then a.dayKey < b.dayKey
  else if a.hour ≠ b.hour then a.hour < b.hour
  else a.featureKey < b.featureKey

instance (a b : InsightsTelemetryAggregateBucket) : Decidable (a.Precedes b) := by
  unfold Precedes
  infer_instance

end InsightsTelemetryAggregateBucket

/-- The bucket that an event starts. -/
def InsightsTelemetryEvent.bucket (scope : String) (e : InsightsTelemetryEvent) :
    Option InsightsTelemetryAggregateBucket :=
  (dayKeyAndHour e.timestampUTC e.timezoneOffsetMinutesAtEvent).map fun (dayKey, hour) =>
    { dayKey := dayKey
      hour := hour
      eventName := e.eventName
      featureKey := e.featureKey
      tabName := e.tabName
      viewName := e.viewName
      categoryIds := e.categoryIds
      count := 1
      userScopeKey := scope }

/-! ## Compaction -/

/-- The entries of `aggregateMap`. -/
abbrev BucketEntry :=
  String × InsightsTelemetryAggregateBucket

/-- The entry of a bucket under its own key. -/
def BucketEntry.of (scope : String) (b : InsightsTelemetryAggregateBucket) : BucketEntry :=
  (b.key scope, b)

/-- The entry with one more event counted. -/
def BucketEntry.bump (entry : BucketEntry) : BucketEntry :=
  (entry.1, entry.2.bumped)

/-- `aggregateMap` after the buckets and the new buckets of the compacted events. -/
def aggregateMap (scope : String) (buckets newBuckets : List InsightsTelemetryAggregateBucket) :
    List BucketEntry :=
  newBuckets.foldl (Tally.add Prod.fst BucketEntry.bump (BucketEntry.of scope))
    ((buckets.map (BucketEntry.of scope)).foldl (upsert Prod.fst) [])

/-- The body of `compactIfNeeded` for the first `boundedChunkSize` events. It traps if the
offset of one of them overflows. -/
def InsightsTelemetryScopeState.compact (scope : String) (boundedChunkSize : ℕ)
    (order : IterationOrder InsightsTelemetryAggregateBucket)
    (state : InsightsTelemetryScopeState) : Option InsightsTelemetryScopeState :=
  let compacted := state.rawEvents.take boundedChunkSize
  (compacted.mapM (InsightsTelemetryEvent.bucket scope)).map fun newBuckets =>
    let values := (aggregateMap scope state.aggregateBuckets newBuckets).map Prod.snd
    { rawEvents := state.rawEvents.drop boundedChunkSize
      aggregateBuckets := (order.arrange values).insertionSort fun a b => ¬b.Precedes a }

/-! ## The store -/

/-- What the user defaults hold under the storage key. -/
inductive TelemetryData where
  | store (storage : InsightsTelemetryPersistedStore)
  | legacyEvents (events : List InsightsTelemetryEvent)
  | unreadable
  deriving DecidableEq

/-- The telemetry store, with the contents of its persisted data. -/
structure InsightsTelemetryStore where
  isEnabled : Bool
  rawEventCap : ℤ
  compactionBatchSize : ℤ
  userDefaults : Option TelemetryData
  storage : InsightsTelemetryPersistedStore

/-- The arguments of `record`. -/
structure RecordCall where
  eventName : String
  featureKey : String
  tabName : Option String := none
  viewName : Option String := none
  categoryIds : List String := []
  taskIdPolicyField : Option String := none
  metadata : List (String × String) := []
  timestampUTC : Date
  timezoneOffsetMinutesAtEvent : Option ℤ := none

/-- What `record` takes from outside : a UUID, `TimeZone.current.secondsFromGMT(for:)`, and the
order of a dictionary. -/
structure RecordContext where
  uuid : String
  secondsFromGMT : ℤ
  order : IterationOrder InsightsTelemetryAggregateBucket

namespace InsightsTelemetryStore

/-- The version that the store writes. -/
def schemaVersion : ℤ :=
  1

/-- The scope of events that no account owns. -/
def anonymousScope : String :=
  "anonymous"

/-- The scope of a user id, where a blank id counts as no user. -/
def normalizedScopeKey (raw : Option String) : String :=
  match raw with
  | some raw => if (trimmed raw).isEmpty then anonymousScope else raw
  | none => anonymousScope

variable (s : InsightsTelemetryStore)

/-- `storage.states[scope]`. -/
def state? (scope : String) : Option InsightsTelemetryScopeState :=
  (lookup Prod.fst s.storage.states scope).map Prod.snd

/-- The data of a scope. -/
def data (scope : String) : InsightsTelemetryScopeState :=
  (s.state? scope).getD {}

/-- Replaces or appends the state of one scope. -/
def setState (scope : String) (state : InsightsTelemetryScopeState) : InsightsTelemetryStore :=
  { s with storage :=
    { s.storage with states := upsert Prod.fst s.storage.states (scope, state) } }

/-- JSON has no infinity and no NaN. -/
def isEncodable : Bool :=
  s.storage.states.all fun entry => entry.2.rawEvents.all fun e =>
    e.timestampUTC.timeIntervalSince1970.isFinite

/-- Writes the whole storage, unless it does not encode. -/
def persistLocked : InsightsTelemetryStore :=
  if s.isEncodable then { s with userDefaults := some (.store s.storage) } else s

/-- `if storage.states[scope] == nil { storage.states[scope] = … }`. -/
def ensureState (scope : String) : InsightsTelemetryStore :=
  if s.state? scope = none then s.setState scope {} else s

/-- Switches the scope that later events are recorded in. -/
def setUserScope (userId : Option String) : InsightsTelemetryStore :=
  let scope := normalizedScopeKey userId
  if s.storage.currentScopeKey = scope then s
  else
    ({ s with storage := { s.storage with currentScopeKey := scope } }.ensureState
      scope).persistLocked

/-- Empties one scope. -/
def clearScopeData (scopeKey : String) : InsightsTelemetryStore :=
  (s.setState (normalizedScopeKey scopeKey) {}).persistLocked

/-- The event that `record` appends. -/
def event (call : RecordCall) (context : RecordContext) : InsightsTelemetryEvent where
  id := context.uuid
  eventName := call.eventName
  featureKey := call.featureKey
  timestampUTC := call.timestampUTC
  timezoneOffsetMinutesAtEvent :=
    call.timezoneOffsetMinutesAtEvent.getD (context.secondsFromGMT.tdiv 60)
  tabName := call.tabName
  viewName := call.viewName
  categoryIds := (call.categoryIds.filter fun id => ¬id.isEmpty).insertionSort (· ≤ ·)
  taskIdPolicyField := call.taskIdPolicyField
  metadata := call.metadata
  userScopeKey := s.storage.currentScopeKey

/-- Moves the oldest events into buckets once there are more than the cap. -/
def compactIfNeeded (scope : String) (order : IterationOrder InsightsTelemetryAggregateBucket)
    (state : InsightsTelemetryScopeState) : Option InsightsTelemetryScopeState :=
  let count : ℤ := state.rawEvents.length
  if count ≤ s.rawEventCap then some state
  else
    let extra := count - s.rawEventCap
    let chunkSize := max s.compactionBatchSize extra
    let boundedChunkSize := min chunkSize count
    state.compact scope boundedChunkSize.toNat order

/-- Records one event in the current scope, and compacts that scope. -/
def record (call : RecordCall) (context : RecordContext) : Option InsightsTelemetryStore :=
  if ¬s.isEnabled then some s
  else
    let scope := s.storage.currentScopeKey
    let state := s.data scope
    let state := { state with rawEvents := state.rawEvents ++ [s.event call context] }
    (s.compactIfNeeded scope context.order state).map fun state =>
      (s.setState scope state).persistLocked

/-- The state of the asked or the current scope. -/
def snapshot (scopeKey : Option String) : String × InsightsTelemetryScopeState :=
  let scope := normalizedScopeKey (some (scopeKey.getD s.storage.currentScopeKey))
  (scope, s.data scope)

/-! ### Launching -/

/-- The storage that the persisted data decodes to. -/
def loadPersistedStore : InsightsTelemetryPersistedStore :=
  match s.userDefaults with
  | some (.store decoded) => decoded
  | some (.legacyEvents legacyEvents) =>
    ⟨schemaVersion, anonymousScope, [(anonymousScope, { rawEvents := legacyEvents })]⟩
  | _ => s.storage

/-- Sets the version and makes sure that the current scope has a state. -/
def migrateIfNeeded : InsightsTelemetryStore :=
  ({ s with storage := { s.storage with schemaVersion := schemaVersion } }.ensureState
    s.storage.currentScopeKey).persistLocked

/-- `init` over what the user defaults hold. -/
def launch (userDefaults : Option TelemetryData) (isEnabled : Bool)
    (rawEventCap compactionBatchSize : ℤ) : InsightsTelemetryStore :=
  let s : InsightsTelemetryStore :=
    { isEnabled := isEnabled
      rawEventCap := max 1 rawEventCap
      compactionBatchSize := max 1 compactionBatchSize
      userDefaults := userDefaults
      storage := ⟨schemaVersion, anonymousScope, [(anonymousScope, {})]⟩ }
  { s with storage := s.loadPersistedStore }.migrateIfNeeded

/-- The store that the next launch reads from the same persisted data. -/
def relaunch : InsightsTelemetryStore :=
  launch s.userDefaults s.isEnabled s.rawEventCap s.compactionBatchSize

end InsightsTelemetryStore

/-! ## What compaction keeps -/

section Compaction

variable {scope : String} {P : InsightsTelemetryAggregateBucket → Prop}
  {f : InsightsTelemetryAggregateBucket → ℤ}

/-- The values of the map weigh as much as the buckets and the new buckets. -/
theorem sum_aggregateMap {buckets newBuckets : List InsightsTelemetryAggregateBucket}
    (hP : ∀ b, P b → P b.bumped) (hbuckets : ∀ b ∈ buckets, P b) (hnew : ∀ b ∈ newBuckets, P b)
    (hf : ∀ new ∈ newBuckets, ∀ b, P b → b.key scope = new.key scope →
      f b.bumped = f b + f new)
    (hd : DistinctKeys (InsightsTelemetryAggregateBucket.key scope) buckets) :
    let values := (aggregateMap scope buckets newBuckets).map Prod.snd
    DistinctKeys (InsightsTelemetryAggregateBucket.key scope) values ∧ (∀ b ∈ values, P b) ∧
      (values.map f).sum = (buckets.map f).sum + (newBuckets.map f).sum := by
  have hentries : DistinctKeys Prod.fst (buckets.map (BucketEntry.of scope)) := by
    unfold DistinctKeys at hd ⊢
    rwa [List.map_map]
  let Q : BucketEntry → Prop := fun entry => entry.1 = entry.2.key scope ∧ P entry.2
  have hload : ∀ entry ∈ buckets.map (BucketEntry.of scope), Q entry := by
    intro entry hentry
    obtain ⟨b, hb, rfl⟩ := List.mem_map.mp hentry
    exact ⟨rfl, hbuckets b hb⟩
  obtain ⟨hdistinct, hall, hsum⟩ := @Tally.sum_foldl_add String BucketEntry _ ℤ _ Prod.fst _
    BucketEntry.bump (BucketEntry.of scope) _ Q (f ∘ Prod.snd) (fun _ => rfl)
    (fun entry hentry => ⟨hentry.1, hP entry.2 hentry.2⟩) newBuckets
    (fun b hb => ⟨rfl, hnew b hb⟩)
    (fun b hb entry hentry hkey => hf b hb entry.2 hentry.2 (hentry.1.symm.trans hkey))
    hentries hload
  have hmap : aggregateMap scope buckets newBuckets = newBuckets.foldl
      (Tally.add Prod.fst BucketEntry.bump (BucketEntry.of scope))
        (buckets.map (BucketEntry.of scope)) := by
    rw [aggregateMap, Tally.foldl_upsert_nil hentries]
  rw [← hmap] at hdistinct hall hsum
  refine ⟨?_, fun b hb => ?_, ?_⟩
  · have hkeys : ((aggregateMap scope buckets newBuckets).map Prod.snd).map
        (InsightsTelemetryAggregateBucket.key scope) =
          (aggregateMap scope buckets newBuckets).map Prod.fst := by
      rw [List.map_map]
      exact List.map_congr_left fun entry hentry => (hall entry hentry).1.symm
    unfold DistinctKeys
    rwa [hkeys]
  · obtain ⟨entry, hentry, rfl⟩ := List.mem_map.mp hb
    exact (hall entry hentry).2
  · rw [List.map_map, hsum, List.map_map]
    rfl

/-- A loop that does not trap has a value for every element. -/
theorem forall₂_of_mapM {A B : Type} {g : A → Option B} {l : List A} {l' : List B}
    (h : l.mapM g = some l') : List.Forall₂ (fun a b => g a = some b) l l' := by
  induction l generalizing l' with
  | nil =>
    obtain rfl : [] = l' := by simpa using h
    exact List.Forall₂.nil
  | cons a l ih =>
    rw [List.mapM_cons] at h
    obtain ⟨b, hb, h⟩ := Option.bind_eq_some_iff.mp h
    obtain ⟨bs, hbs, h⟩ := Option.bind_eq_some_iff.mp h
    obtain rfl := Option.some_inj.mp h
    exact List.Forall₂.cons hb (ih hbs)

theorem exists_of_forall₂ {A B : Type} {R : A → B → Prop} {l : List A} {l' : List B}
    (h : List.Forall₂ R l l') {b : B} (hb : b ∈ l') : ∃ a ∈ l, R a b := by
  induction h with
  | nil => exact absurd hb List.not_mem_nil
  | cons hab _ ih =>
    rcases List.mem_cons.mp hb with rfl | hb
    · exact ⟨_, List.mem_cons_self, hab⟩
    · obtain ⟨a, ha, hr⟩ := ih hb
      exact ⟨a, List.mem_cons_of_mem _ ha, hr⟩

/-- A compaction drops the first events, and the buckets gain the weight of theirs. -/
theorem InsightsTelemetryScopeState.compact_spec {n : ℕ}
    {order : IterationOrder InsightsTelemetryAggregateBucket}
    {state state' : InsightsTelemetryScopeState} (h : state.compact scope n order = some state')
    (hP : ∀ b, P b → P b.bumped) (hbuckets : ∀ b ∈ state.aggregateBuckets, P b)
    (hnew : ∀ e ∈ state.rawEvents.take n, ∀ b, e.bucket scope = some b → P b)
    (hf : ∀ e ∈ state.rawEvents.take n, ∀ new, e.bucket scope = some new → ∀ b, P b →
      b.key scope = new.key scope → f b.bumped = f b + f new)
    (hd : DistinctKeys (InsightsTelemetryAggregateBucket.key scope) state.aggregateBuckets) :
    state'.rawEvents = state.rawEvents.drop n ∧
      DistinctKeys (InsightsTelemetryAggregateBucket.key scope) state'.aggregateBuckets ∧
      (∀ b ∈ state'.aggregateBuckets, P b) ∧
      ∃ newBuckets, List.Forall₂ (fun e b => e.bucket scope = some b) (state.rawEvents.take n)
        newBuckets ∧ (state'.aggregateBuckets.map f).sum =
          (state.aggregateBuckets.map f).sum + (newBuckets.map f).sum := by
  obtain ⟨newBuckets, hmap, rfl⟩ := Option.map_eq_some_iff.mp h
  have horigin := forall₂_of_mapM hmap
  obtain ⟨hdistinct, hall, hsum⟩ := sum_aggregateMap hP hbuckets
    (fun b hb => by
      obtain ⟨e, he, heb⟩ := exists_of_forall₂ horigin hb
      exact hnew e he b heb)
    (fun new hb => by
      obtain ⟨e, he, heb⟩ := exists_of_forall₂ horigin hb
      exact hf e he new heb) hd
  have hperm : (List.insertionSort (fun a b => ¬b.Precedes a) (order.arrange
      ((aggregateMap scope state.aggregateBuckets newBuckets).map Prod.snd))).Perm
        ((aggregateMap scope state.aggregateBuckets newBuckets).map Prod.snd) :=
    (List.perm_insertionSort _ _).trans (order.perm _)
  refine ⟨rfl, hdistinct.perm hperm.symm, fun b hb => hall b (hperm.mem_iff.mp hb), newBuckets,
    horigin, ?_⟩
  rw [← hsum]
  exact (hperm.map f).sum_eq

end Compaction

end Notelayer
