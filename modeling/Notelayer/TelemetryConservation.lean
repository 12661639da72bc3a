import Notelayer.InsightsTelemetryStore

/-!
# No telemetry is lost

`TelemetryRun.step` is one block of the telemetry store's queue, or a relaunch of the app. In
every run the events of a scope and the counts of its buckets add up to what was recorded in
the scope since it was cleared, the events that are kept are the latest, and a step leaves the
other scopes alone (`TelemetryRun.accountsFor_run`).
-/

namespace Notelayer

open KeyedList

/-! ## The data of a scope -/

namespace InsightsTelemetryStore

variable (s : InsightsTelemetryStore)

theorem data_setState (scope : String) (state : InsightsTelemetryScopeState) (scope' : String) :
    (s.setState scope state).data scope' = if scope' = scope then state else s.data scope' := by
  unfold data state? setState
  dsimp only
  rw [lookup_upsert]
  split_ifs <;> rfl

@[simp] theorem data_persistLocked (scope : String) :
    s.persistLocked.data scope = s.data scope := by
  unfold persistLocked
  split_ifs <;> rfl

@[simp] theorem rawEventCap_persistLocked : s.persistLocked.rawEventCap = s.rawEventCap := by
  unfold persistLocked
  split_ifs <;> rfl

@[simp] theorem rawEventCap_setUserScope (userId : Option String) :
    (s.setUserScope userId).rawEventCap = s.rawEventCap := by
  unfold setUserScope
  dsimp only
  split_ifs
  · rfl
  · rw [rawEventCap_persistLocked, ensureState]
    split_ifs <;> rfl

@[simp] theorem data_ensureState (scope scope' : String) :
    (s.ensureState scope).data scope' = s.data scope' := by
  unfold ensureState
  split_ifs with hnone
  · rw [data_setState]
    split_ifs with heq
    · rw [data, heq, hnone]
      rfl
    · rfl
  · rfl

theorem isEncodable_iff : s.isEncodable = true ↔ ∀ entry ∈ s.storage.states,
    ∀ e ∈ entry.2.rawEvents, e.timestampUTC.timeIntervalSince1970.isFinite = true := by
  simp [isEncodable]

end InsightsTelemetryStore

/-! ## Runs -/

/-- A call of the telemetry store, or a launch. -/
inductive TelemetryStep where
  | record (call : RecordCall) (context : RecordContext)
  | setUserScope (userId : Option String)
  | clearScopeData (scopeKey : String)
  | relaunch

/-- A run of the telemetry store, with what was recorded. -/
structure TelemetryRun where
  store : InsightsTelemetryStore
  /-- The events recorded in a scope since it was last cleared, in recording order. -/
  recorded : String → List InsightsTelemetryEvent := fun _ => []

namespace TelemetryRun

variable (x : TelemetryRun)

/-- A trap ends the app, which is then launched again. -/
def record (call : RecordCall) (context : RecordContext) : TelemetryRun :=
  match x.store.record call context with
  | some s =>
    let scope := x.store.storage.currentScopeKey
    { store := s
      recorded := if x.store.isEnabled then
        Function.update x.recorded scope (x.recorded scope ++ [x.store.event call context])
        else x.recorded }
  | none => { x with store := x.store.relaunch }

/-- The step function of the telemetry store. -/
def step : TelemetryStep → TelemetryRun → Option TelemetryRun
  | .record call context, x => some (x.record call context)
  | .setUserScope userId, x => some { x with store := x.store.setUserScope userId }
  | .clearScopeData scopeKey, x =>
    some {
      store := x.store.clearScopeData scopeKey
      recorded := Function.update x.recorded
        (InsightsTelemetryStore.normalizedScopeKey (some scopeKey)) [] }
  | .relaunch, x => some { x with store := x.store.relaunch }

/-- A store over empty user defaults. -/
def start (isEnabled : Bool) (rawEventCap compactionBatchSize : ℤ) : TelemetryRun where
  store := .launch none isEnabled rawEventCap compactionBatchSize

/-- What is kept of a scope adds up to what was recorded, and the events that are kept are the
latest. -/
structure Conserved (rawEventCap : ℤ) : Prop where
  total : ∀ scope, (x.store.data scope).rawEvents.length +
    ((x.store.data scope).aggregateBuckets.map InsightsTelemetryAggregateBucket.count).sum =
      (x.recorded scope).length
  latest : ∀ scope, (x.store.data scope).rawEvents <:+ x.recorded scope
  cap : ∀ scope, (x.store.data scope).rawEvents.length ≤ rawEventCap

end TelemetryRun

/-- The scope that a step is about. -/
def TelemetryStep.scope (x : TelemetryRun) : TelemetryStep → Option String
  | record _ _ => some x.store.storage.currentScopeKey
  | clearScopeData scopeKey =>
    some (InsightsTelemetryStore.normalizedScopeKey (some scopeKey))
  | setUserScope _ => none
  | relaunch => none

/-- The event of the step has a date that encodes. -/
def TelemetryStep.FiniteTimestamp : TelemetryStep → TelemetryRun → Prop
  | record call _, _ => call.timestampUTC.timeIntervalSince1970.isFinite = true
  | _, _ => True

/-! ## The invariant -/

namespace InsightsTelemetryStore

/-- What the user defaults hold is what the store holds, and a launch changes nothing. -/
structure Persisted (s : InsightsTelemetryStore) : Prop where
  cap : 1 ≤ s.rawEventCap
  batch : 1 ≤ s.compactionBatchSize
  schema : s.storage.schemaVersion = schemaVersion
  current : s.state? s.storage.currentScopeKey ≠ none
  encodable : s.isEncodable = true
  userDefaults : s.userDefaults = some (.store s.storage)

variable {s s' : InsightsTelemetryStore}

/-- A launch finds what was persisted. -/
theorem Persisted.relaunch_eq (h : s.Persisted) : s.relaunch = s := by
  obtain ⟨isEnabled, rawEventCap, compactionBatchSize, userDefaults, storage⟩ := s
  obtain ⟨hcap, hbatch, hschema, hcurrent, hencodable, huserDefaults⟩ := h
  obtain ⟨version, currentScopeKey, states⟩ := storage
  dsimp only at hcap hbatch hschema huserDefaults
  subst hschema huserDefaults
  have hcap' : max 1 rawEventCap = rawEventCap := max_eq_right hcap
  have hbatch' : max 1 compactionBatchSize = compactionBatchSize := max_eq_right hbatch
  unfold relaunch launch migrateIfNeeded loadPersistedStore
  dsimp only
  rw [hcap', hbatch', ensureState, if_neg hcurrent, persistLocked]
  exact if_pos hencodable

/-- Persisting makes the user defaults agree. -/
theorem Persisted.persistLocked (hcap : 1 ≤ s.rawEventCap) (hbatch : 1 ≤ s.compactionBatchSize)
    (hschema : s.storage.schemaVersion = schemaVersion)
    (hcurrent : s.state? s.storage.currentScopeKey ≠ none) (hencodable : s.isEncodable = true) :
    s.persistLocked.Persisted := by
  have heq : s.persistLocked = { s with userDefaults := some (.store s.storage) } :=
    if_pos hencodable
  rw [heq]
  exact ⟨hcap, hbatch, hschema, hcurrent, hencodable, rfl⟩

theorem state?_setState (scope : String) (state : InsightsTelemetryScopeState) (scope' : String) :
    (s.setState scope state).state? scope' =
      if scope' = scope then some state else s.state? scope' := by
  unfold state? setState
  dsimp only
  rw [lookup_upsert]
  split_ifs <;> rfl

theorem isEncodable_setState (h : s.isEncodable = true) (scope : String)
    {state : InsightsTelemetryScopeState}
    (hstate : ∀ e ∈ state.rawEvents, e.timestampUTC.timeIntervalSince1970.isFinite = true) :
    (s.setState scope state).isEncodable = true :=
  (isEncodable_iff _).mpr (forall_mem_upsert ((isEncodable_iff s).mp h) hstate)

theorem states_launch_none (isEnabled : Bool) (rawEventCap compactionBatchSize : ℤ) :
    (launch none isEnabled rawEventCap compactionBatchSize).storage.states =
      [(anonymousScope, {})] :=
  rfl

/-- A launch over empty user defaults. -/
theorem persisted_launch_none (isEnabled : Bool) (rawEventCap compactionBatchSize : ℤ) :
    (launch none isEnabled rawEventCap compactionBatchSize).Persisted :=
  ⟨le_max_left _ _, le_max_left _ _, rfl, Option.some_ne_none ({} : InsightsTelemetryScopeState),
    rfl, rfl⟩

theorem data_launch_none (isEnabled : Bool) (rawEventCap compactionBatchSize : ℤ)
    (scope : String) :
    (launch none isEnabled rawEventCap compactionBatchSize).data scope = {} := by
  rw [data, state?, states_launch_none]
  cases hlookup : lookup Prod.fst [(anonymousScope, ({} : InsightsTelemetryScopeState))] scope with
  | none => rfl
  | some entry => exact congrArg Prod.snd (List.mem_singleton.mp (mem_of_lookup hlookup))

/-- Setting the state of a scope and persisting it. -/
theorem Persisted.setState (h : s.Persisted) (scope : String) {state : InsightsTelemetryScopeState}
    (hstate : ∀ e ∈ state.rawEvents, e.timestampUTC.timeIntervalSince1970.isFinite = true) :
    (s.setState scope state).persistLocked.Persisted := by
  refine Persisted.persistLocked h.cap h.batch h.schema ?_ (isEncodable_setState h.encodable scope
    hstate)
  rw [state?_setState]
  split_ifs
  · exact Option.some_ne_none _
  · exact h.current

/-- A change of the scope is persisted. -/
theorem Persisted.setUserScope (h : s.Persisted) (userId : Option String) :
    (s.setUserScope userId).Persisted := by
  unfold InsightsTelemetryStore.setUserScope
  dsimp only
  split_ifs
  · exact h
  · refine Persisted.persistLocked ?_ ?_ ?_ ?_ ?_
    all_goals unfold ensureState; split_ifs with hnone
    · exact h.cap
    · exact h.cap
    · exact h.batch
    · exact h.batch
    · exact h.schema
    · exact h.schema
    · change state? _ (normalizedScopeKey userId) ≠ none
      rw [state?_setState, if_pos rfl]
      exact Option.some_ne_none _
    · exact hnone
    · exact isEncodable_setState h.encodable _ nofun
    · exact h.encodable

@[simp] theorem data_setUserScope (s : InsightsTelemetryStore) (userId : Option String)
    (scope : String) : (s.setUserScope userId).data scope = s.data scope := by
  unfold InsightsTelemetryStore.setUserScope
  dsimp only
  split_ifs
  · rfl
  · rw [data_persistLocked, data_ensureState]
    rfl

theorem data_clearScopeData (s : InsightsTelemetryStore) (scopeKey scope : String) :
    (s.clearScopeData scopeKey).data scope =
      if scope = normalizedScopeKey (some scopeKey) then {} else s.data scope := by
  rw [clearScopeData, data_persistLocked, data_setState]

/-- The events of a scope have finite timestamps. -/
theorem Persisted.isFinite (h : s.Persisted) {scope : String} :
    ∀ e ∈ (s.data scope).rawEvents, e.timestampUTC.timeIntervalSince1970.isFinite = true := by
  unfold data state?
  cases hlookup : lookup Prod.fst s.storage.states scope with
  | none => exact nofun
  | some entry => exact (isEncodable_iff s).mp h.encodable entry (mem_of_lookup hlookup)

/-! ### Recording -/

/-- A compaction leaves at most as many events as the cap allows. -/
theorem compactIfNeeded_cases {scope : String}
    {order : IterationOrder InsightsTelemetryAggregateBucket}
    {state state' : InsightsTelemetryScopeState} (hcap : 1 ≤ s.rawEventCap)
    (h : s.compactIfNeeded scope order state = some state') :
    ∃ n ≤ state.rawEvents.length, (state.rawEvents.length - n : ℤ) ≤ s.rawEventCap ∧
      (n = 0 ∧ state' = state ∨ state.compact scope n order = some state') := by
  unfold compactIfNeeded at h
  dsimp only at h
  split_ifs at h with hle
  · exact ⟨0, Nat.zero_le _, by simpa using hle, Or.inl ⟨rfl, (Option.some_inj.mp h).symm⟩⟩
  · refine ⟨_, ?_, ?_, Or.inr h⟩
    · omega
    · omega

/-- What a record does to the data : it appends the event and compacts. -/
theorem record_cases {call : RecordCall} {context : RecordContext}
    (h : s.record call context = some s') :
    s.isEnabled = false ∧ s' = s ∨ s.isEnabled = true ∧ ∃ state,
      s.compactIfNeeded s.storage.currentScopeKey context.order
        { s.data s.storage.currentScopeKey with
          rawEvents := (s.data s.storage.currentScopeKey).rawEvents ++ [s.event call context] } =
        some state ∧ s' = (s.setState s.storage.currentScopeKey state).persistLocked := by
  unfold record at h
  split_ifs at h with henabled
  · obtain ⟨state, hstate, rfl⟩ := Option.map_eq_some_iff.mp h
    exact Or.inr ⟨henabled, state, hstate, rfl⟩
  · exact Or.inl ⟨by simpa using henabled, (Option.some_inj.mp h).symm⟩

end InsightsTelemetryStore

namespace TelemetryRun

variable {x x' : TelemetryRun} {rawEventCap : ℤ}

/-- The invariant of a run. -/
structure Valid (rawEventCap : ℤ) (x : TelemetryRun) : Prop extends x.Conserved rawEventCap where
  persisted : x.store.Persisted
  distinct : ∀ scope, DistinctKeys (InsightsTelemetryAggregateBucket.key scope)
    (x.store.data scope).aggregateBuckets
  cap_eq : x.store.rawEventCap = rawEventCap

/-- A step that keeps the data and the record of every scope. -/
theorem Valid.of_data (h : x.Valid rawEventCap) {s : InsightsTelemetryStore}
    (hs : s.Persisted) (hcap : s.rawEventCap = x.store.rawEventCap)
    (hdata : ∀ scope, s.data scope = x.store.data scope) :
    Valid rawEventCap { x with store := s } where
  total scope := by
    rw [hdata]
    exact h.total scope
  latest scope := by
    rw [hdata]
    exact h.latest scope
  cap scope := by
    rw [hdata]
    exact h.cap scope
  persisted := hs
  distinct scope := by
    rw [hdata]
    exact h.distinct scope
  cap_eq := hcap.trans h.cap_eq

/-- A step that sets the data and the record of one scope. -/
theorem Valid.setState (h : x.Valid rawEventCap) {scope : String}
    {state : InsightsTelemetryScopeState} {recorded : List InsightsTelemetryEvent}
    (hevents : ∀ e ∈ state.rawEvents, e.timestampUTC.timeIntervalSince1970.isFinite = true)
    (htotal : (state.rawEvents.length +
      (state.aggregateBuckets.map InsightsTelemetryAggregateBucket.count).sum : ℤ) =
        recorded.length)
    (hlatest : state.rawEvents <:+ recorded) (hcap : state.rawEvents.length ≤ rawEventCap)
    (hdistinct : DistinctKeys (InsightsTelemetryAggregateBucket.key scope)
      state.aggregateBuckets) :
    Valid rawEventCap {
      store := (x.store.setState scope state).persistLocked
      recorded := Function.update x.recorded scope recorded } := by
  have hself : (x.store.setState scope state).persistLocked.data scope = state := by
    rw [InsightsTelemetryStore.data_persistLocked, InsightsTelemetryStore.data_setState, if_pos rfl]
  have hother : ∀ {other}, other ≠ scope →
      (x.store.setState scope state).persistLocked.data other = x.store.data other := by
    intro other hne
    rw [InsightsTelemetryStore.data_persistLocked, InsightsTelemetryStore.data_setState, if_neg hne]
  refine ⟨⟨fun other => ?_, fun other => ?_, fun other => ?_⟩,
    h.persisted.setState scope hevents, fun other => ?_, ?_⟩
  · rcases eq_or_ne other scope with rfl | hne
    · dsimp only
      rw [hself, Function.update_self]
      exact htotal
    · dsimp only
      rw [hother hne, Function.update_of_ne hne]
      exact h.total other
  · rcases eq_or_ne other scope with rfl | hne
    · dsimp only
      rw [hself, Function.update_self]
      exact hlatest
    · dsimp only
      rw [hother hne, Function.update_of_ne hne]
      exact h.latest other
  · rcases eq_or_ne other scope with rfl | hne
    · rw [hself]
      exact hcap
    · rw [hother hne]
      exact h.cap other
  · rcases eq_or_ne other scope with rfl | hne
    · rw [hself]
      exact hdistinct
    · rw [hother hne]
      exact h.distinct other
  · rw [InsightsTelemetryStore.rawEventCap_persistLocked]
    exact h.cap_eq

/-- What a scope has after its events and a new one were compacted. -/
theorem Valid.compactIfNeeded_spec (h : x.Valid rawEventCap) {scope : String}
    {order : IterationOrder InsightsTelemetryAggregateBucket} {e : InsightsTelemetryEvent}
    {state : InsightsTelemetryScopeState}
    (hstate : x.store.compactIfNeeded scope order
      { x.store.data scope with rawEvents := (x.store.data scope).rawEvents ++ [e] } =
        some state) :
    (state.rawEvents.length +
        (state.aggregateBuckets.map InsightsTelemetryAggregateBucket.count).sum : ℤ) =
          (x.recorded scope).length + 1 ∧
      state.rawEvents <:+ (x.store.data scope).rawEvents ++ [e] ∧
      state.rawEvents.length ≤ rawEventCap ∧
      DistinctKeys (InsightsTelemetryAggregateBucket.key scope) state.aggregateBuckets := by
  have htotal := h.total scope
  have hlength : (((x.store.data scope).rawEvents ++ [e]).length : ℤ) =
      (x.store.data scope).rawEvents.length + 1 := by simp
  obtain ⟨n, hn, hcap, ⟨rfl, rfl⟩ | hcompact⟩ :=
    InsightsTelemetryStore.compactIfNeeded_cases h.persisted.cap hstate
  · refine ⟨?_, List.suffix_refl _, ?_, h.distinct scope⟩
    · dsimp only
      omega
    · rw [← h.cap_eq]
      simpa using hcap
  · have hone : ∀ {e : InsightsTelemetryEvent} {b}, e.bucket scope = some b → b.count = 1 := by
      intro e b hb
      obtain ⟨⟨dayKey, hour⟩, -, rfl⟩ := Option.map_eq_some_iff.mp hb
      rfl
    obtain ⟨hraw, hdistinct, -, newBuckets, hnew, hsum⟩ :=
      InsightsTelemetryScopeState.compact_spec (P := fun _ => True)
        (f := InsightsTelemetryAggregateBucket.count) hcompact (fun _ _ => trivial)
        (fun _ _ => trivial) (fun _ _ _ _ => trivial)
        (fun e _ new hnew b _ _ => by rw [hone hnew]; rfl) (h.distinct scope)
    have hcount : (newBuckets.map InsightsTelemetryAggregateBucket.count).sum = n := by
      have hones : newBuckets.map InsightsTelemetryAggregateBucket.count =
          List.replicate newBuckets.length 1 := by
        refine List.eq_replicate_iff.mpr ⟨List.length_map _, fun k hk => ?_⟩
        obtain ⟨b, hb, rfl⟩ := List.mem_map.mp hk
        obtain ⟨e, -, heb⟩ := exists_of_forall₂ hnew hb
        exact hone heb
      rw [hones, List.sum_replicate, ← hnew.length_eq, List.length_take, min_eq_left hn]
      simp
    dsimp only at hraw hn hcap hsum
    have hdrop : state.rawEvents.length =
        ((x.store.data scope).rawEvents ++ [e]).length - n := by
      rw [hraw, List.length_drop]
    refine ⟨?_, ?_, ?_, hdistinct⟩
    · omega
    · rw [hraw]
      exact List.drop_suffix _ _
    · rw [← h.cap_eq]
      omega

/-- A recorded event keeps the invariant. -/
theorem Valid.record (h : x.Valid rawEventCap) {call : RecordCall} (context : RecordContext)
    (hfinite : call.timestampUTC.timeIntervalSince1970.isFinite = true) :
    (x.record call context).Valid rawEventCap := by
  unfold TelemetryRun.record
  cases hrecord : x.store.record call context with
  | none =>
    dsimp only
    rwa [h.persisted.relaunch_eq]
  | some s =>
    dsimp only
    rcases InsightsTelemetryStore.record_cases hrecord with
      ⟨hdisabled, rfl⟩ | ⟨henabled, state, hstate, rfl⟩
    · rw [hdisabled]
      exact h
    obtain ⟨htotal, hsuffix, hcap, hdistinct⟩ := h.compactIfNeeded_spec hstate
    rw [henabled, if_pos rfl]
    have hevent : (x.store.event call context).timestampUTC.timeIntervalSince1970.isFinite =
        true := hfinite
    generalize x.store.event call context = e at hsuffix hevent ⊢
    have hevents : ∀ e' ∈ state.rawEvents,
        e'.timestampUTC.timeIntervalSince1970.isFinite = true := by
      intro e' he'
      rcases List.mem_append.mp (hsuffix.subset he') with hmem | hmem
      · exact h.persisted.isFinite e' hmem
      · rwa [List.mem_singleton.mp hmem]
    refine h.setState hevents ?_ ?_ hcap hdistinct
    · rw [List.length_append]
      exact htotal
    · obtain ⟨earlier, hearlier⟩ := h.latest x.store.storage.currentScopeKey
      refine hsuffix.trans ⟨earlier, ?_⟩
      rw [← List.append_assoc, hearlier]

/-- Every step keeps the invariant. -/
theorem Valid.step (h : x.Valid rawEventCap) {l : TelemetryStep} (hl : l.FiniteTimestamp x)
    (hx : step l x = some x') : x'.Valid rawEventCap := by
  cases l with
  | record call context =>
    obtain rfl := Option.some_inj.mp hx
    exact h.record context hl
  | setUserScope userId =>
    obtain rfl := Option.some_inj.mp hx
    exact h.of_data (h.persisted.setUserScope userId)
      (InsightsTelemetryStore.rawEventCap_setUserScope _ userId)
      (InsightsTelemetryStore.data_setUserScope _ userId)
  | clearScopeData scopeKey =>
    obtain rfl := Option.some_inj.mp hx
    have hcap : (0 : ℤ) ≤ rawEventCap := by
      have hone := h.persisted.cap
      rw [h.cap_eq] at hone
      omega
    exact h.setState nofun rfl (List.suffix_refl _) (by simpa using hcap) List.nodup_nil
  | relaunch =>
    obtain rfl := Option.some_inj.mp hx
    rwa [h.persisted.relaunch_eq]

/-- A store over empty user defaults has recorded nothing. -/
theorem valid_start (isEnabled : Bool) (rawEventCap compactionBatchSize : ℤ) :
    (start isEnabled rawEventCap compactionBatchSize).Valid (max 1 rawEventCap) := by
  have hdata : ∀ scope, (start isEnabled rawEventCap compactionBatchSize).store.data scope = {} :=
    fun scope => InsightsTelemetryStore.data_launch_none ..
  refine ⟨⟨fun scope => ?_, fun scope => ?_, fun scope => ?_⟩,
    InsightsTelemetryStore.persisted_launch_none .., fun scope => ?_, rfl⟩
  · rw [hdata]
    rfl
  · rw [hdata]
    exact List.nil_suffix
  · rw [hdata]
    exact (by decide : (0 : ℤ) ≤ 1).trans (le_max_left _ _)
  · rw [hdata]
    exact List.nodup_nil

/-- A step leaves the data of the other scopes alone. -/
theorem Valid.data_step (h : x.Valid rawEventCap) {l : TelemetryStep}
    (hx : TelemetryRun.step l x = some x') {scope : String} (hscope : l.scope x ≠ some scope) :
    x'.store.data scope = x.store.data scope := by
  cases l with
  | record call context =>
    obtain rfl := Option.some_inj.mp hx
    have hne : scope ≠ x.store.storage.currentScopeKey := fun heq => hscope (congrArg some heq.symm)
    unfold TelemetryRun.record
    cases hrecord : x.store.record call context with
    | none =>
      dsimp only
      rw [h.persisted.relaunch_eq]
    | some s =>
      rcases InsightsTelemetryStore.record_cases hrecord with ⟨-, rfl⟩ | ⟨-, state, -, rfl⟩
      · rfl
      · dsimp only
        rw [InsightsTelemetryStore.data_persistLocked, InsightsTelemetryStore.data_setState,
          if_neg hne]
  | setUserScope userId =>
    obtain rfl := Option.some_inj.mp hx
    exact InsightsTelemetryStore.data_setUserScope _ _ _
  | clearScopeData scopeKey =>
    obtain rfl := Option.some_inj.mp hx
    have hne : scope ≠ InsightsTelemetryStore.normalizedScopeKey (some scopeKey) :=
      fun heq => hscope (congrArg some heq.symm)
    exact (InsightsTelemetryStore.data_clearScopeData _ _ _).trans (if_neg hne)
  | relaunch =>
    obtain rfl := Option.some_inj.mp hx
    dsimp only
    rw [h.persisted.relaunch_eq]

/-- In every run what is kept of a scope adds up to what was recorded in it, and the next step
leaves the other scopes alone. -/
theorem accountsFor_run {isEnabled : Bool} {rawEventCap compactionBatchSize : ℤ}
    {ls : List TelemetryStep} (hl : Runs.Guarded step TelemetryStep.FiniteTimestamp ls
      (start isEnabled rawEventCap compactionBatchSize))
    (hx : Runs.run step ls (start isEnabled rawEventCap compactionBatchSize) = some x) :
    x.Conserved (max 1 rawEventCap) ∧ ∀ l x', step l x = some x' → ∀ scope,
      l.scope x ≠ some scope → x'.store.data scope = x.store.data scope := by
  have hvalid : x.Valid (max 1 rawEventCap) := Runs.invariant_of_guarded
    (fun l x x' hv hg hs => hv.step hg hs) (valid_start _ _ _) hl hx
  exact ⟨hvalid.toConserved, fun l x' hx' scope hscope => hvalid.data_step hx' hscope⟩

/-- An event at an hour. -/
def sampleRecord (hour : ℤ) : TelemetryStep :=
  .record ⟨"tab_selected", "tab_select", none, none, [], none, [], .seconds (3600 * hour), some 0⟩
    ⟨"id", 0, ⟨id, fun _ => .refl _⟩⟩

/-- Three events in two scopes. -/
def sampleSteps : List TelemetryStep :=
  [sampleRecord 1, sampleRecord 2, .setUserScope (some "user"), sampleRecord 3,
    .clearScopeData "user", .relaunch]

theorem accountsFor_run_sample : ∃ x, Runs.run step sampleSteps (start true 1 1) = some x ∧
    x.Conserved (max 1 1) := by
  have hfinite : Runs.Guarded step TelemetryStep.FiniteTimestamp sampleSteps (start true 1 1) :=
    ⟨rfl, fun _ _ => ⟨rfl, fun _ _ => ⟨trivial, fun _ _ => ⟨rfl, fun _ _ =>
      ⟨trivial, fun _ _ => ⟨trivial, fun _ _ => trivial⟩⟩⟩⟩⟩⟩
  exact ⟨_, rfl, (accountsFor_run hfinite rfl).1⟩

end TelemetryRun

end Notelayer
