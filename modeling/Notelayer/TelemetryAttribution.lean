import Notelayer.AnalyticsService
import Notelayer.TelemetryConservation

/-!
# Whose telemetry it is

An event goes through two queues : `AnalyticsService.logEvent` leaves a block on the telemetry
queue, and that block leaves a `record` on the store's queue. `setUserScope` goes to the store's
queue directly, so a change of account can overtake the events that were logged before it. The
events of a run are stored in the scope in which they were logged exactly if none of them is
overtaken so (`TelemetryQueues.attributed_iff`).
-/

namespace Notelayer

open AnalyticsService

/-! ## The queues -/

/-- A call of `logEvent`, with the scope that was current at the call. -/
structure LoggedEvent where
  event : AnalyticsEvent
  scope : String

/-- A block on the store's queue. -/
inductive StoreBlock where
  | record (logged : LoggedEvent) (timestampUTC : Date)
  | setUserScope (userId : Option String)

/-- The telemetry store with its two queues. -/
structure TelemetryQueues where
  store : InsightsTelemetryStore
  telemetryQueue : List LoggedEvent := []
  storeQueue : List StoreBlock := []
  /-- The main actor is inside `queue.sync`. -/
  isWaiting : Bool := false
  /-- What was logged, in order. -/
  logged : List LoggedEvent := []
  /-- What was stored, in order. -/
  stored : List (LoggedEvent × InsightsTelemetryEvent) := []

/-- What the main actor or a queue does next. -/
inductive QueueStep where
  | logEvent (event : AnalyticsEvent)
  | setUserScope (userId : Option String)
  /-- The first block of the telemetry queue, at an instant. -/
  | runTelemetry (now : Date)
  /-- The first block of the store's queue. -/
  | runStore (context : RecordContext)

namespace TelemetryQueues

variable (x : TelemetryQueues)

/-- Both services are disabled in screenshot mode only. -/
def logEvent (event : AnalyticsEvent) : TelemetryQueues :=
  if x.store.isEnabled then
    let logged := ⟨event, x.store.storage.currentScopeKey⟩
    { x with telemetryQueue := x.telemetryQueue ++ [logged], logged := x.logged ++ [logged] }
  else x

/-- The first event of the telemetry queue moves to the queue of the store. -/
def runTelemetry (now : Date) : Option TelemetryQueues :=
  match x.telemetryQueue with
  | [] => none
  | logged :: telemetryQueue =>
    some { x with
      telemetryQueue := telemetryQueue
      storeQueue :=
        if x.store.isEnabled then x.storeQueue ++ [.record logged now] else x.storeQueue }

/-- `none` also when `record` traps. -/
def runStore (context : RecordContext) : Option TelemetryQueues :=
  match x.storeQueue with
  | [] => none
  | .record logged timestampUTC :: storeQueue =>
    let call := recordCall logged.event timestampUTC
    (x.store.record call context).map fun store =>
      { x with
        store := store
        storeQueue := storeQueue
        stored := x.stored ++ [(logged, x.store.event call context)] }
  | .setUserScope userId :: storeQueue =>
    some { x with
      store := x.store.setUserScope userId
      storeQueue := storeQueue
      isWaiting := false }

/-- The step function of the two queues. -/
def step : QueueStep → TelemetryQueues → Option TelemetryQueues
  | .logEvent event, x => if x.isWaiting then none else some (x.logEvent event)
  | .setUserScope userId, x =>
    if x.isWaiting then none
    else some { x with storeQueue := x.storeQueue ++ [.setUserScope userId], isWaiting := true }
  | .runTelemetry now, x => x.runTelemetry now
  | .runStore context, x => x.runStore context

/-- The store before anything is logged. -/
def start (store : InsightsTelemetryStore) : TelemetryQueues where
  store := store

end TelemetryQueues

namespace StoreBlock

/-- The scope that the blocks lead to. -/
def scopeAfter : List StoreBlock → String → String
  | [], scope => scope
  | record _ _ :: blocks, scope => scopeAfter blocks scope
  | setUserScope userId :: blocks, _ =>
    scopeAfter blocks (InsightsTelemetryStore.normalizedScopeKey userId)

/-- The events of the blocks, each with the scope that it is recorded in. -/
def destinations : List StoreBlock → String → List (LoggedEvent × String)
  | [], _ => []
  | record logged _ :: blocks, scope => (logged, scope) :: destinations blocks scope
  | setUserScope userId :: blocks, _ =>
    destinations blocks (InsightsTelemetryStore.normalizedScopeKey userId)

end StoreBlock

namespace TelemetryQueues

variable (x : TelemetryQueues)

/-- The scope that the store's queue leads to. -/
def nextScope : String :=
  StoreBlock.scopeAfter x.storeQueue x.store.storage.currentScopeKey

/-- The events that were stored and those that the store's queue holds, with their scopes. -/
def placed : List (LoggedEvent × String) :=
  x.stored.map (fun p => (p.1, p.2.userScopeKey)) ++
    StoreBlock.destinations x.storeQueue x.store.storage.currentScopeKey

/-- Every event that was stored is in the scope in which it was logged, and no event is lost. -/
structure Attributed : Prop where
  scope : ∀ p ∈ x.stored, p.2.userScopeKey = p.1.scope
  kept : x.placed.map Prod.fst ++ x.telemetryQueue = x.logged

/-- No block is waiting. -/
def IsDrained : Prop :=
  x.telemetryQueue = [] ∧ x.storeQueue = []

end TelemetryQueues

/-- A telemetry block runs only while the store's queue leads to the scope in which its event
was logged. -/
def QueueStep.NotOvertaken : QueueStep → TelemetryQueues → Prop
  | runTelemetry _, x => ∀ logged ∈ x.telemetryQueue.head?, x.nextScope = logged.scope
  | _, _ => True

/-- The scope changes only while no event waits on the telemetry queue. -/
def QueueStep.ChangesWhenIdle : QueueStep → TelemetryQueues → Prop
  | setUserScope userId, x =>
    InsightsTelemetryStore.normalizedScopeKey userId = x.store.storage.currentScopeKey ∨
      x.telemetryQueue = []
  | _, _ => True

/-! ## What a block does to the store -/

namespace InsightsTelemetryStore

variable {s s' : InsightsTelemetryStore}

@[simp] theorem isEnabled_persistLocked (s : InsightsTelemetryStore) :
    s.persistLocked.isEnabled = s.isEnabled := by
  unfold persistLocked
  split_ifs <;> rfl

@[simp] theorem storage_persistLocked (s : InsightsTelemetryStore) :
    s.persistLocked.storage = s.storage := by
  unfold persistLocked
  split_ifs <;> rfl

@[simp] theorem isEnabled_setUserScope (s : InsightsTelemetryStore) (userId : Option String) :
    (s.setUserScope userId).isEnabled = s.isEnabled := by
  unfold setUserScope ensureState
  dsimp only
  split_ifs <;> simp [setState]

@[simp] theorem currentScopeKey_setUserScope (s : InsightsTelemetryStore)
    (userId : Option String) :
    (s.setUserScope userId).storage.currentScopeKey = normalizedScopeKey userId := by
  unfold setUserScope ensureState
  dsimp only
  split_ifs with heq
  · exact heq
  · simp [setState]
  · simp

/-- A record changes neither the scope nor whether the store is enabled. -/
theorem frame_record {call : RecordCall} {context : RecordContext}
    (h : s.record call context = some s') :
    s'.isEnabled = s.isEnabled ∧ s'.storage.currentScopeKey = s.storage.currentScopeKey := by
  rcases record_cases h with ⟨-, rfl⟩ | ⟨-, state, -, rfl⟩
  · exact ⟨rfl, rfl⟩
  · simp [setState]

end InsightsTelemetryStore

/-! ## What a step does to the events -/

namespace StoreBlock

variable (blocks : List StoreBlock) (scope : String)

@[simp] theorem scopeAfter_append_record (logged : LoggedEvent) (timestampUTC : Date) :
    scopeAfter (blocks ++ [record logged timestampUTC]) scope = scopeAfter blocks scope := by
  induction blocks generalizing scope with
  | nil => rfl
  | cons block blocks ih => cases block <;> exact ih _

@[simp] theorem scopeAfter_append_setUserScope (userId : Option String) :
    scopeAfter (blocks ++ [setUserScope userId]) scope =
      InsightsTelemetryStore.normalizedScopeKey userId := by
  induction blocks generalizing scope with
  | nil => rfl
  | cons block blocks ih => cases block <;> exact ih _

@[simp] theorem destinations_append_record (logged : LoggedEvent) (timestampUTC : Date) :
    destinations (blocks ++ [record logged timestampUTC]) scope =
      destinations blocks scope ++ [(logged, scopeAfter blocks scope)] := by
  induction blocks generalizing scope with
  | nil => rfl
  | cons block blocks ih =>
    cases block with
    | record logged' timestampUTC' => exact congrArg _ (ih scope)
    | setUserScope userId => exact ih _

@[simp] theorem destinations_append_setUserScope (userId : Option String) :
    destinations (blocks ++ [setUserScope userId]) scope = destinations blocks scope := by
  induction blocks generalizing scope with
  | nil => rfl
  | cons block blocks ih =>
    cases block with
    | record logged timestampUTC => exact congrArg _ (ih scope)
    | setUserScope userId' => exact ih _

/-- The block changes the scope. -/
def isChange : StoreBlock → Bool
  | record _ _ => false
  | setUserScope _ => true

/-- Records do not change the scope. -/
theorem scopeAfter_eq_self {blocks : List StoreBlock} (h : blocks.countP isChange = 0) :
    scopeAfter blocks scope = scope := by
  induction blocks with
  | nil => rfl
  | cons block blocks ih =>
    cases block with
    | record logged timestampUTC => exact ih (by simpa [isChange] using h)
    | setUserScope userId => simp [isChange] at h

end StoreBlock

namespace TelemetryQueues

variable {x x' : TelemetryQueues}

/-- What the first block of the store's queue does : a record, or a change of scope. -/
theorem runStore_cases {context : RecordContext} (h : x.runStore context = some x') :
    (∃ logged timestampUTC storeQueue store, x.storeQueue = .record logged timestampUTC ::
        storeQueue ∧ x.store.record (recordCall logged.event timestampUTC) context = some store ∧
      x' = { x with
        store := store
        storeQueue := storeQueue
        stored := x.stored ++
          [(logged, x.store.event (recordCall logged.event timestampUTC) context)] }) ∨
    ∃ userId storeQueue, x.storeQueue = .setUserScope userId :: storeQueue ∧
      x' = { x with
        store := x.store.setUserScope userId
        storeQueue := storeQueue
        isWaiting := false } := by
  unfold runStore at h
  split at h
  · cases h
  · rename_i logged timestampUTC storeQueue hqueue
    obtain ⟨store, hstore, rfl⟩ := Option.map_eq_some_iff.mp h
    exact Or.inl ⟨logged, timestampUTC, storeQueue, store, hqueue, hstore, rfl⟩
  · rename_i userId storeQueue hqueue
    exact Or.inr ⟨userId, storeQueue, hqueue, (Option.some_inj.mp h).symm⟩

/-- A block of the store's queue puts its event where it was bound to go. -/
theorem frame_runStore {context : RecordContext} (h : x.runStore context = some x') :
    x'.placed = x.placed ∧ x'.nextScope = x.nextScope ∧
      x'.store.isEnabled = x.store.isEnabled ∧ x'.telemetryQueue = x.telemetryQueue ∧
      x'.logged = x.logged := by
  rcases runStore_cases h with ⟨logged, timestampUTC, storeQueue, store, hqueue, hstore, rfl⟩ |
    ⟨userId, storeQueue, hqueue, rfl⟩
  · obtain ⟨henabled, hscope⟩ := InsightsTelemetryStore.frame_record hstore
    have hkey : (x.store.event (recordCall logged.event timestampUTC) context).userScopeKey =
        x.store.storage.currentScopeKey := rfl
    refine ⟨?_, ?_, henabled, rfl, rfl⟩
    · simp [placed, hqueue, hscope, StoreBlock.destinations, hkey]
    · simp [nextScope, hqueue, hscope, StoreBlock.scopeAfter]
  · refine ⟨?_, ?_, InsightsTelemetryStore.isEnabled_setUserScope _ _, rfl, rfl⟩
    · simp [placed, hqueue, StoreBlock.destinations]
    · simp [nextScope, hqueue, StoreBlock.scopeAfter]

/-- Nothing is logged by a store that is disabled, and no event is lost. -/
structure Kept (x : TelemetryQueues) : Prop where
  disabled : x.store.isEnabled = false → x.telemetryQueue = []
  kept : x.placed.map Prod.fst ++ x.telemetryQueue = x.logged

theorem Kept.isEnabled (h : x.Kept) {logged : LoggedEvent} {telemetryQueue : List LoggedEvent}
    (hqueue : x.telemetryQueue = logged :: telemetryQueue) : x.store.isEnabled = true := by
  by_contra hno
  have hnil := h.disabled (by simpa using hno)
  exact absurd (hqueue.symm.trans hnil) (by simp)

/-- Every step keeps the order of the events. -/
theorem Kept.step (h : x.Kept) {l : QueueStep} (hx : step l x = some x') : x'.Kept := by
  have hkept := h.kept
  cases l with
  | logEvent event =>
    simp only [TelemetryQueues.step] at hx
    split_ifs at hx
    obtain rfl := Option.some_inj.mp hx
    unfold logEvent
    split_ifs with henabled
    · refine ⟨fun hno => ?_, ?_⟩
      · exact absurd (henabled.symm.trans hno) (by simp)
      · rw [← hkept]
        simp [placed]
    · exact h
  | setUserScope userId =>
    simp only [TelemetryQueues.step] at hx
    split_ifs at hx
    obtain rfl := Option.some_inj.mp hx
    exact ⟨h.disabled, by simpa [placed] using hkept⟩
  | runTelemetry now =>
    simp only [TelemetryQueues.step, runTelemetry] at hx
    split at hx
    · cases hx
    rename_i logged telemetryQueue hqueue
    obtain rfl := Option.some_inj.mp hx
    have henabled := h.isEnabled hqueue
    refine ⟨fun hno => absurd (henabled.symm.trans hno) (by simp), ?_⟩
    rw [← hkept, hqueue]
    simp [placed, henabled]
  | runStore context =>
    obtain ⟨hplaced, -, henabled, hqueue, hlogged⟩ := frame_runStore hx
    refine ⟨?_, ?_⟩
    · rw [henabled, hqueue]
      exact h.disabled
    · rwa [hplaced, hqueue, hlogged]

theorem kept_start (store : InsightsTelemetryStore) : (start store).Kept :=
  ⟨fun _ => rfl, rfl⟩

/-- The events that are, or are bound to be, in a scope in which they were not logged. -/
def misplaced (x : TelemetryQueues) : List (LoggedEvent × String) :=
  x.placed.filter fun p => p.2 ≠ p.1.scope

/-- A step misplaces an event exactly if it lets the event be overtaken. -/
theorem misplaced_step {l : QueueStep} (hkept : x.Kept) (hx : step l x = some x') :
    ∃ ws, x'.misplaced = x.misplaced ++ ws ∧ (ws = [] ↔ l.NotOvertaken x) := by
  cases l with
  | logEvent event =>
    simp only [TelemetryQueues.step] at hx
    split_ifs at hx
    obtain rfl := Option.some_inj.mp hx
    refine ⟨[], ?_, iff_of_true rfl trivial⟩
    unfold logEvent
    split_ifs <;> simp [misplaced, placed]
  | setUserScope userId =>
    simp only [TelemetryQueues.step] at hx
    split_ifs at hx
    obtain rfl := Option.some_inj.mp hx
    exact ⟨[], by simp [misplaced, placed], iff_of_true rfl trivial⟩
  | runTelemetry now =>
    simp only [TelemetryQueues.step, runTelemetry] at hx
    split at hx
    · cases hx
    rename_i logged telemetryQueue hqueue
    obtain rfl := Option.some_inj.mp hx
    have henabled := hkept.isEnabled hqueue
    refine ⟨[(logged, x.nextScope)].filter fun p => p.2 ≠ p.1.scope, ?_, ?_⟩
    · simp [misplaced, placed, henabled, nextScope]
    · simp [QueueStep.NotOvertaken, hqueue]
  | runStore context =>
    obtain ⟨hplaced, -⟩ := frame_runStore hx
    exact ⟨[], by rw [misplaced, hplaced, List.append_nil, misplaced], iff_of_true rfl trivial⟩

/-- An event that was stored is misplaced if it is in another scope. -/
theorem scope_of_misplaced_eq_nil (h : x.misplaced = []) :
    ∀ p ∈ x.stored, p.2.userScopeKey = p.1.scope := by
  intro p hp
  have hplaced : (p.1, p.2.userScopeKey) ∈ x.placed :=
    List.mem_append_left _ (List.mem_map.mpr ⟨p, hp, rfl⟩)
  have hall := List.filter_eq_nil_iff.mp h _ hplaced
  simpa using hall

/-- Once no block is waiting, the misplaced events are in the store. -/
theorem misplaced_eq_nil_of_isDrained (hdrained : x.IsDrained)
    (h : ∀ p ∈ x.stored, p.2.userScopeKey = p.1.scope) : x.misplaced = [] := by
  refine List.filter_eq_nil_iff.mpr fun p hp => ?_
  rw [placed, hdrained.2, StoreBlock.destinations, List.append_nil] at hp
  obtain ⟨q, hq, rfl⟩ := List.mem_map.mp hp
  simpa using h q hq

/-! ## Runs -/

/-- In every run in which no event is overtaken by a change of scope, the events are stored in
the scope in which they were logged, and once the queues are empty only in such a run. -/
theorem attributed_iff {store : InsightsTelemetryStore} {ls : List QueueStep}
    (hx : Runs.run step ls (start store) = some x) :
    (Runs.Guarded step QueueStep.NotOvertaken ls (start store) → x.Attributed) ∧
      (x.IsDrained → x.Attributed →
        Runs.Guarded step QueueStep.NotOvertaken ls (start store)) := by
  have hkept : x.Kept := Runs.invariant_of_run (fun l x x' h hx' => h.step hx')
    (kept_start store) hx
  obtain ⟨ws, hws, hiff⟩ := Runs.log_eq_iff_guarded_of_invariant misplaced
    (fun l x x' h hx' => Kept.step h hx') (fun l x x' h hx' => misplaced_step h hx')
    (kept_start store) hx
  have hmisplaced : x.misplaced = ws := hws
  refine ⟨fun hguarded => ⟨?_, hkept.kept⟩, fun hdrained hattributed => ?_⟩
  · exact scope_of_misplaced_eq_nil (hmisplaced.trans (hiff.mpr hguarded))
  · exact hiff.mp (hmisplaced.symm.trans
      (misplaced_eq_nil_of_isDrained hdrained hattributed.scope))

/-- A store that was launched for the first time. -/
def sampleStore : InsightsTelemetryStore :=
  .launch none true 10 5

/-- A context for the samples below. -/
def sampleContext : RecordContext :=
  ⟨"id", 0, ⟨id, fun l => List.Perm.refl l⟩⟩

/-- A sign-in after the event was handed to the store's queue. -/
def orderlySteps : List QueueStep :=
  [.logEvent ⟨"theme_changed", []⟩, .runTelemetry (.seconds 1), .setUserScope (some "user"),
    .runStore sampleContext, .runStore sampleContext]

/-- A sign-in before that. -/
def overtakenSteps : List QueueStep :=
  [.logEvent ⟨"theme_changed", []⟩, .setUserScope (some "user"), .runTelemetry (.seconds 1),
    .runStore sampleContext, .runStore sampleContext]

theorem attributed_iff_orderly :
    ∃ x, Runs.run step orderlySteps (start sampleStore) = some x ∧ x.IsDrained ∧
      x.Attributed := by
  have hguarded : Runs.Guarded step QueueStep.NotOvertaken orderlySteps (start sampleStore) := by
    refine ⟨trivial, fun _ h => ⟨?_, fun _ _ => ⟨trivial, fun _ _ => ⟨trivial, fun _ _ =>
      ⟨trivial, fun _ _ => trivial⟩⟩⟩⟩⟩
    obtain rfl := Option.some_inj.mp h
    intro logged hlogged
    obtain rfl := Option.some_inj.mp hlogged
    rfl
  exact ⟨_, rfl, ⟨rfl, rfl⟩, (attributed_iff rfl).1 hguarded⟩

/-- An event that a sign-in overtook is stored in the scope of the account. -/
theorem not_attributed_overtaken :
    ¬ ∀ (store : InsightsTelemetryStore) (ls : List QueueStep) (x : TelemetryQueues),
      Runs.run step ls (start store) = some x → x.Attributed := by
  intro h
  have hattributed := h sampleStore overtakenSteps _ rfl
  have hscope : "user" = "anonymous" := hattributed.scope _ (List.mem_singleton_self _)
  exact absurd hscope (by decide)

/-! ## Changing the scope while no event waits -/

/-- The events that wait were logged in the scope that the store's queue leads to, and the
store's queue holds no change of scope but the one that the main actor waits for. -/
structure Settled (x : TelemetryQueues) : Prop where
  scope : ∀ logged ∈ x.telemetryQueue, x.nextScope = logged.scope
  changes : x.storeQueue.countP StoreBlock.isChange = if x.isWaiting then 1 else 0

theorem Settled.nextScope_eq (h : x.Settled) (hfree : x.isWaiting = false) :
    x.nextScope = x.store.storage.currentScopeKey :=
  StoreBlock.scopeAfter_eq_self _ (by rw [h.changes, hfree]; rfl)

theorem settled_start (store : InsightsTelemetryStore) : (start store).Settled :=
  ⟨nofun, rfl⟩

theorem Settled.notOvertaken (h : x.Settled) (l : QueueStep) : l.NotOvertaken x := by
  cases l with
  | runTelemetry now => exact fun logged hhead => h.scope logged (List.mem_of_mem_head? hhead)
  | _ => trivial

/-- A change of the scope while the queues are idle leaves the scopes settled, as does every other
step. -/
theorem Settled.step (h : x.Settled) {l : QueueStep} (hl : l.ChangesWhenIdle x)
    (hx : TelemetryQueues.step l x = some x') : x'.Settled := by
  cases l with
  | logEvent event =>
    simp only [TelemetryQueues.step] at hx
    split_ifs at hx with hwaiting
    obtain rfl := Option.some_inj.mp hx
    have hnext := h.nextScope_eq (by simpa using hwaiting)
    unfold logEvent
    split_ifs
    · refine ⟨fun logged hlogged => ?_, h.changes⟩
      rcases List.mem_append.mp hlogged with hmem | hmem
      · exact h.scope logged hmem
      · obtain rfl := List.mem_singleton.mp hmem
        exact hnext
    · exact h
  | setUserScope userId =>
    simp only [TelemetryQueues.step] at hx
    split_ifs at hx with hwaiting
    obtain rfl := Option.some_inj.mp hx
    have hnext := h.nextScope_eq (by simpa using hwaiting)
    have hchanges := h.changes
    rw [if_neg hwaiting] at hchanges
    refine ⟨fun logged hlogged => ?_, ?_⟩
    · rcases hl with hsame | hidle
      · rw [← h.scope logged hlogged, hnext, ← hsame]
        exact StoreBlock.scopeAfter_append_setUserScope _ _ _
      · exact absurd (hidle ▸ hlogged) List.not_mem_nil
    · simp [List.countP_append, hchanges, StoreBlock.isChange]
  | runTelemetry now =>
    simp only [TelemetryQueues.step, runTelemetry] at hx
    split at hx
    · cases hx
    rename_i logged telemetryQueue hqueue
    obtain rfl := Option.some_inj.mp hx
    refine ⟨fun logged' hlogged' => ?_, ?_⟩
    · rw [← h.scope logged' (by rw [hqueue]; exact List.mem_cons_of_mem _ hlogged')]
      unfold nextScope
      dsimp only
      split_ifs <;> simp
    · rw [← h.changes]
      dsimp only
      split_ifs <;> simp [StoreBlock.isChange]
  | runStore context =>
    obtain ⟨-, hnext, -, htelemetry, -⟩ := frame_runStore hx
    refine ⟨by rw [hnext, htelemetry]; exact h.scope, ?_⟩
    have hchanges := h.changes
    rcases runStore_cases hx with ⟨logged, timestampUTC, storeQueue, store, hqueue, -, rfl⟩ |
      ⟨userId, storeQueue, hqueue, rfl⟩
    · rw [hqueue] at hchanges
      simpa [StoreBlock.isChange] using hchanges
    · rw [hqueue, List.countP_cons_of_pos rfl] at hchanges
      split_ifs at hchanges
      simpa using hchanges

/-- If the scope changes only while no event waits on the telemetry queue, the events are stored
in the scope in which they were logged. -/
theorem attributed_of_changesWhenIdle {store : InsightsTelemetryStore} {ls : List QueueStep}
    (hguarded : Runs.Guarded step QueueStep.ChangesWhenIdle ls (start store))
    (hx : Runs.run step ls (start store) = some x) : x.Attributed :=
  (attributed_iff hx).1 (Runs.Guarded.of_invariant (fun _ _ _ h hl hx' => h.step hl hx')
    (fun l _ h _ => h.notOvertaken l) (settled_start store) hguarded)

end TelemetryQueues

end Notelayer
