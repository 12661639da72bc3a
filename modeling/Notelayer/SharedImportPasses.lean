import Mathlib.Data.List.ReduceOption
import Notelayer.Calendar
import Notelayer.SharedImport
import Notelayer.SharedItemCoding

/-!
# Passes over the queue of shared items

A pass of the app over a queue that nobody else writes. Which items are rejected does not depend on
what the pass draws (`SharedItem.rejection`), so the first pass imports all others, in the order of
the queue, and every pass puts the rejected ones back, with one more retry counted
(`runPasses_spec`).

`markedFailed` adds to a 64-bit integer. A pass that rejects an item with the greatest one traps,
and no item of the queue is imported.
-/

namespace Notelayer

open JSONValue

/-! ## Rejection -/

namespace SharedItem

variable (item : SharedItem)

/-- Why `buildSharedImportPayload` throws, if it does. -/
def rejection : Option SharedImportProcessingError :=
  match item.resolvedDestination with
  | .note => none
  | .task => if item.hasTaskTitle then none else some .missingTaskTitle
  | .taskBatch => if item.titledDrafts.isEmpty then some .noTaskDrafts else none

/-- It throws for the same reason in every pass. -/
theorem buildSharedImportPayload_eq_error_iff (context : ImportContext)
    {error : SharedImportProcessingError} :
    item.buildSharedImportPayload context = .error error ↔ item.rejection = some error := by
  unfold buildSharedImportPayload rejection
  cases item.resolvedDestination with
  | note =>
    have hnote : (item.buildImportedNoteText context).isEmpty = false :=
      item.isEmpty_joinedSections context _
    simp [hnote]
  | task =>
    dsimp only
    rw [isEmpty_resolvedTaskTitle]
    cases item.hasTaskTitle <;> simp
  | taskBatch =>
    dsimp only
    split_ifs <;> simp

/-- The item after some rejections. -/
def failedTimes (n : ℕ) (error : SharedImportProcessingError) : SharedItem :=
  { item with
    status := .failed, lastError := some error.errorDescription, retryCount := item.retryCount + n }

/-- What the queue has of the item after some passes. -/
def retained (n : ℕ) : Option SharedItem :=
  item.rejection.map (item.failedTimes n)

end SharedItem

/-! ## A pass -/

/-- What a pass draws, each item that is decoded and each round of the loop its own. The current
time is a finite number of seconds. -/
structure PassDraws where
  uuid : ℕ → String
  decodedAt : ℕ → Date
  isFinite : ∀ index, (decodedAt index).timeIntervalSince1970.isFinite = true
  processedAt : Date
  contexts : ℕ → ImportContext
  appliedAt : Date

/-- One round of the loop. It traps if the number of retries overflows. -/
def ProcessedItems.processChecked (p : ProcessedItems) (item : ImportContext × SharedItem) :
    Option ProcessedItems :=
  match item.2.markedPending.buildSharedImportPayload item.1 with
  | .ok _ => some (p.process item)
  | .error _ => (checkedInt (item.2.retryCount + 1)).map fun _ => p.process item

/-- The items of a pass, where a retry count that overflows traps. -/
def processItemsChecked (contexts : ℕ → ImportContext) (items : List SharedItem) :
    Option ProcessedItems :=
  (items.mapIdx fun index item => (contexts index, item)).foldlM ProcessedItems.processChecked {}

/-- `decodeSharedItems(from:)`. -/
def decodeQueue (draws : PassDraws) (queue : Option JSONValue) : List SharedItem :=
  (queue.bind (decodeItems draws.uuid draws.decodedAt)).getD []

/-- `persistSharedItemsForBackground`, the queue and the error. -/
def persistItems (items : List SharedItem) (queue : Option JSONValue) :
    Option JSONValue × Option String :=
  if items.isEmpty then (none, none)
  else
    match encodeItems items with
    | none => (queue, some "Unable to persist pending shared imports.")
    | some data => (some data, none)

/-- `processSharedItemsOnBackgroundQueue` where there is storage, and its block on the main queue :
the store and the queue. -/
def processSharedItems (draws : PassDraws) (x : LocalStore × Option JSONValue) :
    Option (LocalStore × Option JSONValue) :=
  let s := { x.1 with lastSharedImportProcessedAt := some draws.processedAt }
  let sharedItems := decodeQueue draws x.2
  if sharedItems.isEmpty then
    some ({ s with pendingSharedImportCount := 0, lastSharedImportError := none }, x.2)
  else
    (processItemsChecked draws.contexts sharedItems).map fun processed =>
      let (queue, persistenceError) := persistItems processed.failedItems x.2
      ({ s.applySharedImports processed.importedNotes processed.importedTasks draws.appliedAt with
          pendingSharedImportCount := processed.failedItems.length
          lastSharedImportError :=
            (processed.failedItems.head?.bind SharedItem.lastError) <|> persistenceError },
        queue)

/-! ## What the loop makes of a queue -/

/-- The payloads of the items that are accepted. -/
def payloads (contexts : ℕ → ImportContext) (items : List SharedItem) : List SharedImportPayload :=
  (items.mapIdx fun index item =>
    (item.buildSharedImportPayload (contexts index)).toOption).reduceOption

theorem processItems_concat (contexts : ℕ → ImportContext) (items : List SharedItem)
    (item : SharedItem) : processItems contexts (items ++ [item]) =
      (processItems contexts items).process (contexts items.length, item) := by
  simp [processItems, List.mapIdx_append]

/-- A pass imports the payloads, and keeps the items that have none. -/
theorem processItems_spec (contexts : ℕ → ImportContext) (items : List SharedItem) :
    (processItems contexts items).importedNotes =
        (payloads contexts items).flatMap SharedImportPayload.notes ∧
      (processItems contexts items).importedTasks =
        (payloads contexts items).flatMap SharedImportPayload.tasks ∧
      (processItems contexts items).failedItems = items.filterMap (SharedItem.retained · 1) := by
  induction items using List.reverseRecOn with
  | nil => exact ⟨rfl, rfl, rfl⟩
  | append_singleton items item ih =>
    obtain ⟨hnotes, htasks, hfailed⟩ := ih
    have hpayloads : payloads contexts (items ++ [item]) = payloads contexts items ++
        ((item.buildSharedImportPayload (contexts items.length)).toOption).toList := by
      rw [payloads, List.mapIdx_append, List.mapIdx_singleton, List.reduceOption_append,
        List.reduceOption_singleton, Nat.zero_add]
      rfl
    have hbuild : item.markedPending.buildSharedImportPayload (contexts items.length) =
      item.buildSharedImportPayload (contexts items.length) := rfl
    rw [processItems_concat, hpayloads, List.filterMap_append]
    unfold ProcessedItems.process
    dsimp only
    rw [hbuild]
    cases hpayload : item.buildSharedImportPayload (contexts items.length) with
    | ok payload =>
      have hkept : item.retained 1 = none := by
        rw [SharedItem.retained, Option.map_eq_none_iff, Option.eq_none_iff_forall_ne_some]
        intro error herror
        rw [(item.buildSharedImportPayload_eq_error_iff _).mpr herror] at hpayload
        cases hpayload
      refine ⟨?_, ?_, ?_⟩
      · simp [hnotes, Except.toOption]
      · simp [htasks, Except.toOption]
      · simp [hfailed, hkept]
    | error error =>
      have herror := (item.buildSharedImportPayload_eq_error_iff _).mp hpayload
      have hkept : item.retained 1 = some (item.markedFailed error.errorDescription) := by
        rw [SharedItem.retained, herror]
        rfl
      refine ⟨?_, ?_, ?_⟩
      · simp [hnotes, Except.toOption]
      · simp [htasks, Except.toOption]
      · simp [hfailed, hkept]

theorem processChecked_eq {p : ProcessedItems} {item : ImportContext × SharedItem}
    (h : item.2.rejection ≠ none → (checkedInt (item.2.retryCount + 1)).isSome) :
    p.processChecked item = some (p.process item) := by
  unfold ProcessedItems.processChecked
  split
  · rfl
  · rename_i error herror
    have hrejection := (item.2.buildSharedImportPayload_eq_error_iff item.1).mp herror
    obtain ⟨n, hn⟩ := Option.isSome_iff_exists.mp (h (by simp [hrejection]))
    rw [hn, Option.map_some]

/-- The loop does not trap if the retries of the rejected items can be counted. -/
theorem processItemsChecked_eq (contexts : ℕ → ImportContext) {items : List SharedItem}
    (h : ∀ item ∈ items, item.rejection ≠ none → (checkedInt (item.retryCount + 1)).isSome) :
    processItemsChecked contexts items = some (processItems contexts items) := by
  have hfold : ∀ (l : List (ImportContext × SharedItem)) (p : ProcessedItems),
      (∀ item ∈ l, item.2.rejection ≠ none → (checkedInt (item.2.retryCount + 1)).isSome) →
      l.foldlM ProcessedItems.processChecked p = some (l.foldl ProcessedItems.process p) := by
    intro l
    induction l with
    | nil => exact fun _ _ => rfl
    | cons item l ih =>
      intro p hl
      rw [List.foldlM_cons, processChecked_eq (hl item List.mem_cons_self)]
      exact ih _ fun other hother => hl other (List.mem_cons_of_mem _ hother)
  refine hfold _ _ fun item hitem => ?_
  obtain ⟨index, hindex, rfl⟩ := List.mem_mapIdx.mp hitem
  exact h _ (List.getElem_mem hindex)

/-! ## The queue after a pass -/

/-- A date that was read is finite. -/
theorem isFinite_of_decodeIfPresent {v : JSONValue} {key : String} {date : Option Date}
    (h : v.decodeIfPresent Date key = some date) :
    ∀ d ∈ date, d.timeIntervalSince1970.isFinite = true := by
  intro d hd
  unfold decodeIfPresent at h
  split at h
  · obtain rfl := Option.some.inj h
    cases hd
  · rename_i found _
    obtain ⟨d', hd', rfl⟩ := Option.map_eq_some_iff.mp h
    obtain rfl := Option.mem_some.mp hd
    cases found <;> cases hd'
    rfl

/-- The dates of an item that was read are finite. -/
theorem SharedItem.isEncodable_of_decode {uuid : String} {now : Date}
    (hnow : now.timeIntervalSince1970.isFinite = true) {v : JSONValue} {item : SharedItem}
    (h : decode uuid now v = some item) : item.isEncodable = true := by
  have hgetD : ∀ {date : Option Date} {default : Date} {key : String},
      v.decodeIfPresent Date key = some date → default.timeIntervalSince1970.isFinite = true →
      (date.getD default).timeIntervalSince1970.isFinite = true := by
    intro date default key hread hdefault
    cases date with
    | none => exact hdefault
    | some d => exact isFinite_of_decodeIfPresent hread d rfl
  have hall : ∀ {date : Option Date} {key : String}, v.decodeIfPresent Date key = some date →
      date.all (fun d => d.timeIntervalSince1970.isFinite) = true := by
    intro date key hread
    cases date with
    | none => rfl
    | some d => exact isFinite_of_decodeIfPresent hread d rfl
  unfold decode at h
  iterate 5 obtain ⟨_, -, h⟩ := Option.bind_eq_some_iff.mp h
  obtain ⟨createdAt, hcreated, h⟩ := Option.bind_eq_some_iff.mp h
  iterate 2 obtain ⟨_, -, h⟩ := Option.bind_eq_some_iff.mp h
  obtain ⟨dueDate, hdue, h⟩ := Option.bind_eq_some_iff.mp h
  obtain ⟨reminderDate, hreminder, h⟩ := Option.bind_eq_some_iff.mp h
  iterate 5 obtain ⟨_, -, h⟩ := Option.bind_eq_some_iff.mp h
  obtain ⟨importTimestamp, himport, h⟩ := Option.bind_eq_some_iff.mp h
  iterate 2 obtain ⟨_, -, h⟩ := Option.bind_eq_some_iff.mp h
  obtain rfl := Option.some.inj h
  have hcreated' := hgetD hcreated hnow
  simp only [isEncodable, Bool.and_eq_true]
  exact ⟨⟨⟨hcreated', hall hdue⟩, hall hreminder⟩, hgetD himport hcreated'⟩

/-- What a pass leaves in the queue, any pass reads. -/
theorem persistItems_spec {items : List SharedItem} (h : ∀ item ∈ items, item.isEncodable = true)
    (queue : Option JSONValue) :
    (∀ draws, decodeQueue draws (persistItems items queue).1 = items) ∧
      (persistItems items queue).2 = none := by
  unfold persistItems
  split_ifs with hempty
  · exact ⟨fun _ => (List.isEmpty_iff.mp hempty).symm, rfl⟩
  · obtain ⟨v, hv⟩ := Option.isSome_iff_exists.mp ((isSome_encodeItems items).trans
      (by rw [encodeSharedItems, dif_pos h]; rfl))
    rw [hv]
    refine ⟨fun draws => ?_, rfl⟩
    rw [decodeQueue, Option.bind_some, decodeItems_of_encodeItems hv, Option.getD_some]

theorem isEncodable_of_mem_decodeQueue {draws : PassDraws} {queue : Option JSONValue}
    {item : SharedItem} (h : item ∈ decodeQueue draws queue) : item.isEncodable = true := by
  unfold decodeQueue at h
  cases hitems : queue.bind (decodeItems draws.uuid draws.decodedAt) with
  | none => simp [hitems] at h
  | some items =>
    rw [hitems, Option.getD_some] at h
    obtain ⟨v, -, hv⟩ := Option.bind_eq_some_iff.mp hitems
    obtain ⟨index, element, hread⟩ := mem_of_decodeArray hv h
    exact SharedItem.isEncodable_of_decode (draws.isFinite index) hread

/-! ## The store after a pass -/

namespace LocalStore

variable (s : LocalStore)

/-- The imported notes come last. -/
theorem notes_applySharedImports (ns : List Note) (ts : List Task) (now : Date) :
    (s.applySharedImports ns ts now).notes = s.notes ++ ns := by
  have hnotes : (if ns.isEmpty then s else s.importNotes ns).notes = s.notes ++ ns := by
    split_ifs with hn
    · rw [List.isEmpty_iff.mp hn, List.append_nil]
    · exact s.notes_importNotes ns
  unfold applySharedImports
  dsimp only
  generalize (if ns.isEmpty then s else s.importNotes ns) = s₁ at hnotes
  split_ifs
  · exact hnotes
  · rw [notes_importTasks, hnotes]

/-- Tasks that have an order and no parent are stored as they are. -/
theorem preparedTasks_eq {ts : List Task} (now : Date)
    (h : ∀ t ∈ ts, t.orderIndex.isSome ∧ t.parentTaskId = none ∧ t.parentManualReopenAt = none) :
    s.preparedTasks ts now = ts := by
  refine List.ext_getElem? fun i => ?_
  rw [preparedTasks, List.getElem?_mapIdx]
  cases hi : ts[i]? with
  | none => rfl
  | some t =>
    obtain ⟨horder, hparent, hreopen⟩ := h t (List.mem_of_getElem? hi)
    obtain ⟨n, hn⟩ := Option.isSome_iff_exists.mp horder
    have hordered : ∀ k, t.ordered k = t := fun k => by
      rw [Task.ordered, hn, Option.getD_some, ← hn]
    have hattached : t.attached s.tasks = t := by
      unfold Task.attached
      split
      · rename_i hsome
        rw [hparent] at hsome
        cases hsome
      · rw [← hreopen]
    rw [Option.map_some, hordered, hattached]

end LocalStore

/-- A payload is that of an item. -/
theorem mem_payloads {contexts : ℕ → ImportContext} {items : List SharedItem}
    {payload : SharedImportPayload} (h : payload ∈ payloads contexts items) :
    ∃ item ∈ items, ∃ context : ImportContext,
      item.buildSharedImportPayload context = .ok payload := by
  unfold payloads at h
  rw [List.reduceOption_mem_iff, List.mem_mapIdx] at h
  obtain ⟨index, hindex, heq⟩ := h
  refine ⟨items[index], List.getElem_mem hindex, contexts index, ?_⟩
  cases hbuild : items[index].buildSharedImportPayload (contexts index) with
  | ok payload' =>
    rw [hbuild] at heq
    rw [Option.some.inj heq]
  | error error =>
    rw [hbuild] at heq
    cases heq

/-- The tasks of the payloads are stored as they are. -/
theorem preparedTasks_payloads (s : LocalStore) (contexts : ℕ → ImportContext)
    (items : List SharedItem) (now : Date) :
    s.preparedTasks ((payloads contexts items).flatMap SharedImportPayload.tasks) now =
      (payloads contexts items).flatMap SharedImportPayload.tasks := by
  refine s.preparedTasks_eq now fun t ht => ?_
  obtain ⟨payload, hpayload, ht⟩ := List.mem_flatMap.mp ht
  obtain ⟨item, -, context, hbuild⟩ := mem_payloads hpayload
  have himported : ∃ title body index, t = item.importedTask context title body index := by
    unfold SharedItem.buildSharedImportPayload at hbuild
    split at hbuild
    · dsimp only at hbuild
      split_ifs at hbuild
      obtain rfl := Except.ok.inj hbuild
      cases ht
    · dsimp only at hbuild
      split_ifs at hbuild
      obtain rfl := Except.ok.inj hbuild
      obtain rfl := List.mem_singleton.mp ht
      exact ⟨_, _, _, rfl⟩
    · dsimp only at hbuild
      split_ifs at hbuild
      obtain rfl := Except.ok.inj hbuild
      obtain ⟨index, -, rfl⟩ := List.mem_mapIdx.mp ht
      exact ⟨_, _, _, rfl⟩
  obtain ⟨title, body, index, rfl⟩ := himported
  exact ⟨rfl, rfl, rfl⟩

/-! ## Passes -/

/-- One pass after the other, with nobody else at the queue. -/
def runPasses : List PassDraws → LocalStore × Option JSONValue →
    Option (LocalStore × Option JSONValue) :=
  Runs.run processSharedItems

/-- A pass imports the payloads of the items it accepts and keeps the others. -/
theorem processSharedItems_spec (draws : PassDraws) (s : LocalStore) {queue : Option JSONValue}
    {items : List SharedItem} (hitems : decodeQueue draws queue = items)
    (hempty : items = [] → ∀ draws', decodeQueue draws' queue = [])
    (hcount : ∀ item ∈ items, item.rejection ≠ none → (checkedInt (item.retryCount + 1)).isSome) :
    ∃ s' queue', processSharedItems draws (s, queue) = some (s', queue') ∧
      s'.notes = s.notes ++ (payloads draws.contexts items).flatMap SharedImportPayload.notes ∧
      s'.tasks = s.tasks ++ (payloads draws.contexts items).flatMap SharedImportPayload.tasks ∧
      ∀ draws', decodeQueue draws' queue' = items.filterMap (SharedItem.retained · 1) := by
  unfold processSharedItems
  dsimp only
  rw [hitems]
  split_ifs with hnil
  · obtain rfl := List.isEmpty_iff.mp hnil
    exact ⟨_, _, rfl, (List.append_nil _).symm, (List.append_nil _).symm, hempty rfl⟩
  · obtain ⟨hnotes, htasks, hfailed⟩ := processItems_spec draws.contexts items
    have hencodable : ∀ item ∈ items, item.isEncodable = true := fun item hitem =>
      isEncodable_of_mem_decodeQueue (hitems ▸ hitem)
    rw [processItemsChecked_eq _ hcount, Option.map_some, hnotes, htasks]
    refine ⟨_, _, rfl, ?_, ?_, fun draws' => ?_⟩
    · exact LocalStore.notes_applySharedImports _ _ _ _
    · exact (LocalStore.tasks_applySharedImports _ _ _ _).trans
        (congrArg _ (preparedTasks_payloads _ _ _ _))
    · rw [← hfailed]
      exact (persistItems_spec (SharedImport.isEncodable_failedItems hencodable draws.contexts)
        queue).1 draws'

/-- The pass is what the steps of a pass do, if nothing comes between them. -/
theorem run_passSteps (draws : PassDraws) (s : LocalStore) {queue : Option JSONValue}
    {data : Option QueueData} (hdata : decodeSharedItems data = decodeQueue draws queue)
    (hcount : ∀ item ∈ decodeQueue draws queue, item.rejection ≠ none →
      (checkedInt (item.retryCount + 1)).isSome) :
    ∃ x s' queue', processSharedItems draws (s, queue) = some (s', queue') ∧
      Runs.run SharedImport.step
        (SharedImport.passSteps draws.processedAt draws.contexts draws.appliedAt)
        (SharedImport.start s data) = some x ∧
      x.pass = .idle ∧ x.store = s' ∧ decodeSharedItems x.queue = decodeQueue draws queue' := by
  unfold processSharedItems
  dsimp only
  by_cases hnil : decodeQueue draws queue = []
  · rw [if_pos (by rw [hnil]; rfl)]
    have hread : (SharedImport.start s data).scheduleSharedImportProcessing.readQueue
        draws.processedAt true =
          { SharedImport.start s data with pass := .empty draws.processedAt } :=
      if_pos (by rw [← hdata] at hnil; exact List.isEmpty_iff.mpr hnil)
    refine ⟨SharedImport.start { s with
      lastSharedImportProcessedAt := some draws.processedAt
      pendingSharedImportCount := 0
      lastSharedImportError := none } data, _, _, rfl, ?_, rfl, rfl, hdata⟩
    change some ((((SharedImport.start s data).scheduleSharedImportProcessing.readQueue
      draws.processedAt true).buildPayloads
        draws.contexts).persistSharedItems.applyNotes.applyTasks draws.appliedAt) = _
    rw [hread]
    rfl
  · obtain ⟨x, hx, hpass, rfl, hqueue⟩ := @SharedImport.exists_persisted s draws.contexts
      draws.processedAt draws.appliedAt data (by rwa [hdata])
    rw [hdata] at hpass hqueue
    have hencodable : ∀ item ∈ decodeQueue draws queue, item.isEncodable = true :=
      fun _ => isEncodable_of_mem_decodeQueue
    obtain ⟨hkept, herror⟩ := persistItems_spec
      (SharedImport.isEncodable_failedItems hencodable draws.contexts) queue
    have hsteps : SharedImport.passSteps draws.processedAt draws.contexts draws.appliedAt =
        (SharedImport.passSteps draws.processedAt draws.contexts draws.appliedAt).take 4 ++
          [.applyNotes, .applyTasks draws.appliedAt] := rfl
    rw [if_neg (by simpa using hnil), processItemsChecked_eq _ hcount, Option.map_some, herror]
    refine ⟨x.applyNotes.applyTasks draws.appliedAt, _, _, rfl, ?_, ?_, ?_, ?_⟩
    · rw [hsteps, Runs.run_append, hx]
      rfl
    · unfold SharedImport.applyNotes
      rw [hpass]
      rfl
    · exact SharedImport.store_applyTasks_applyNotes x hpass draws.appliedAt
    · rw [hkept, SharedImport.queue_applyTasks, SharedImport.queue_applyNotes, hqueue]

theorem mem_filterMap_retained {items : List SharedItem} {n : ℕ} {failed : SharedItem} :
    failed ∈ items.filterMap (SharedItem.retained · n) ↔
      ∃ item ∈ items, ∃ error, item.rejection = some error ∧ failed = item.failedTimes n error := by
  simp only [List.mem_filterMap, SharedItem.retained, Option.map_eq_some_iff]
  exact exists_congr fun item => and_congr_right fun _ => exists_congr fun error =>
    and_congr_right fun _ => eq_comm

theorem rejection_failedTimes (item : SharedItem) (n : ℕ) (error : SharedImportProcessingError) :
    (item.failedTimes n error).rejection = item.rejection :=
  rfl

/-- The items that one pass retains are those that more passes retain. -/
theorem filterMap_retained (items : List SharedItem) (n m : ℕ) :
    (items.filterMap (SharedItem.retained · n)).filterMap (SharedItem.retained · m) =
      items.filterMap (SharedItem.retained · (n + m)) := by
  rw [List.filterMap_filterMap]
  refine List.filterMap_congr fun item _ => ?_
  cases h : item.rejection with
  | none => simp [SharedItem.retained, h]
  | some error =>
    simp only [SharedItem.retained, h, Option.map_some, Option.bind_some, rejection_failedTimes]
    unfold SharedItem.failedTimes
    push_cast
    rw [add_assoc]

/-- Of what was rejected nothing is accepted. -/
theorem payloads_filterMap_retained (contexts : ℕ → ImportContext) (items : List SharedItem)
    (n : ℕ) : payloads contexts (items.filterMap (SharedItem.retained · n)) = [] := by
  refine List.eq_nil_iff_forall_not_mem.mpr fun payload hpayload => ?_
  obtain ⟨failed, hfailed, context, hbuild⟩ := mem_payloads hpayload
  obtain ⟨item, -, error, hrejection, rfl⟩ := mem_filterMap_retained.mp hfailed
  have herror := ((item.failedTimes n error).buildSharedImportPayload_eq_error_iff context).mpr
    hrejection
  rw [hbuild] at herror
  cases herror

/-- The retries of the rejected items can be counted for so many passes. -/
def CountsTo (items : List SharedItem) (passes : ℕ) : Prop :=
  ∀ item ∈ items, item.rejection ≠ none →
    -2 ^ 63 ≤ item.retryCount ∧ item.retryCount + passes < 2 ^ 63

theorem CountsTo.isSome_checkedInt {items : List SharedItem} {n passes : ℕ}
    (h : CountsTo items passes) (hn : n < passes) :
    ∀ item ∈ items.filterMap (SharedItem.retained · n), item.rejection ≠ none →
      (checkedInt (item.retryCount + 1)).isSome := by
  rintro failed hfailed -
  obtain ⟨item, hitem, error, hrejection, rfl⟩ := mem_filterMap_retained.mp hfailed
  obtain ⟨hlow, hhigh⟩ := h item hitem (by simp [hrejection])
  have hfits : -2 ^ 63 ≤ item.retryCount + n + 1 ∧ item.retryCount + n + 1 < 2 ^ 63 := by omega
  unfold checkedInt SharedItem.failedTimes
  rw [if_pos hfits, Option.isSome_some]

/-- Passes over a queue of rejected items. -/
theorem runPasses_retained (passes : List PassDraws) (s : LocalStore) {queue : Option JSONValue}
    {items : List SharedItem} {n : ℕ}
    (hqueue : ∀ draws, decodeQueue draws queue = items.filterMap (SharedItem.retained · n))
    (hcount : CountsTo items (n + passes.length)) :
    ∃ s' queue', runPasses passes (s, queue) = some (s', queue') ∧ s'.notes = s.notes ∧
      s'.tasks = s.tasks ∧ ∀ draws, decodeQueue draws queue' =
        items.filterMap (SharedItem.retained · (n + passes.length)) := by
  induction passes generalizing s queue n with
  | nil => exact ⟨s, queue, rfl, rfl, rfl, hqueue⟩
  | cons draws passes ih =>
    have hcount' : CountsTo items (n + 1 + passes.length) := by
      rwa [Nat.add_assoc, Nat.add_comm 1]
    obtain ⟨s₁, queue₁, hstep, hnotes, htasks, hqueue₁⟩ := processSharedItems_spec draws s
      (hqueue draws) (fun hnil draws' => (hqueue draws').trans hnil)
      (hcount.isSome_checkedInt (by rw [List.length_cons]; omega))
    simp only [filterMap_retained] at hqueue₁
    obtain ⟨s', queue', hrun, hnotes', htasks', hqueue'⟩ := ih s₁ hqueue₁ hcount'
    refine ⟨s', queue', Runs.run_cons_eq_some.mpr ⟨_, hstep, hrun⟩, ?_, ?_, fun draws' => ?_⟩
    · rw [hnotes', hnotes, payloads_filterMap_retained, List.flatMap_nil, List.append_nil]
    · rw [htasks', htasks, payloads_filterMap_retained, List.flatMap_nil, List.append_nil]
    · rw [hqueue', List.length_cons, Nat.add_assoc, Nat.add_comm 1]

/-- The passes over a queue : the first one imports what is accepted, in order, and all of them keep
what is rejected, with its retries counted. -/
theorem runPasses_spec (draws : PassDraws) (later : List PassDraws) (s : LocalStore)
    {data : JSONValue} {items : List SharedItem}
    (hdata : decodeItems draws.uuid draws.decodedAt data = some items)
    (hcount : CountsTo items (later.length + 1)) :
    ∃ s' queue', runPasses (draws :: later) (s, some data) = some (s', queue') ∧
      s'.notes = s.notes ++ (payloads draws.contexts items).flatMap SharedImportPayload.notes ∧
      s'.tasks = s.tasks ++ (payloads draws.contexts items).flatMap SharedImportPayload.tasks ∧
      ∀ draws', decodeQueue draws' queue' =
        items.filterMap (SharedItem.retained · (later.length + 1)) := by
  have hitems : decodeQueue draws (some data) = items := by
    rw [decodeQueue, Option.bind_some, hdata, Option.getD_some]
  have hempty : items = [] → ∀ draws', decodeQueue draws' (some data) = [] := by
    rintro rfl draws'
    rw [decodeQueue, Option.bind_some, decodeItems, decodeArray_eq_some_nil hdata, Option.getD_some]
  obtain ⟨s₁, queue₁, hstep, hnotes, htasks, hqueue₁⟩ := processSharedItems_spec draws s hitems
    hempty fun item hitem hrejection => by
      obtain ⟨hlow, hhigh⟩ := hcount item hitem hrejection
      have hfits : -2 ^ 63 ≤ item.retryCount + 1 ∧ item.retryCount + 1 < 2 ^ 63 := by omega
      rw [checkedInt, if_pos hfits, Option.isSome_some]
  obtain ⟨s', queue', hrun, hnotes', htasks', hqueue'⟩ := runPasses_retained later s₁ hqueue₁
    (by rwa [Nat.add_comm])
  refine ⟨s', queue', Runs.run_cons_eq_some.mpr ⟨_, hstep, hrun⟩, hnotes'.trans hnotes,
    htasks'.trans htasks, fun draws' => ?_⟩
  rw [hqueue', Nat.add_comm]

/-- A list without titles that was queued next to a task. -/
def sampleQueueData (retryCount : ℤ) : JSONValue :=
  .array [.object [("title", .string "Plan")],
    .object [("id", .string "list"), ("destination", .string "taskBatch"),
      ("retryCount", .number retryCount)]]

/-- The draws of a pass over two items. -/
def PassDraws.sample : PassDraws where
  uuid index := "drawn " ++ (if index = 0 then "0" else "1")
  decodedAt index := .seconds (if index = 0 then 5 else 6)
  isFinite _ := rfl
  processedAt := .seconds 5
  contexts _ := .sample
  appliedAt := .seconds 6

/-- What is read of it. -/
def sampleQueueItems (retryCount : ℤ) : List SharedItem :=
  [{ id := "drawn 0", title := "Plan", createdAt := .seconds 5, importTimestamp := .seconds 5 },
    { id := "list", title := "", createdAt := .seconds 6, destination := .taskBatch
      retryCount := retryCount, importTimestamp := .seconds 6 }]

theorem runPasses_spec_sample :
    ∃ s' queue', runPasses [.sample, .sample] ({}, some (sampleQueueData 3)) = some (s', queue') ∧
      s'.tasks.map Task.title = ["Plan"] ∧
      (decodeQueue .sample queue').map (fun item => (item.id, item.status, item.retryCount)) =
        [("list", .failed, 5)] := by
  have hcount : CountsTo (sampleQueueItems 3) 2 := by
    intro item hitem _
    rcases List.mem_cons.mp hitem with rfl | hitem
    · decide
    · obtain rfl := List.mem_singleton.mp hitem
      decide
  obtain ⟨s', queue', hrun, -, htasks, hqueue⟩ := runPasses_spec .sample [.sample] {}
    (by decide +kernel : decodeItems PassDraws.sample.uuid PassDraws.sample.decodedAt
      (sampleQueueData 3) = some (sampleQueueItems 3)) hcount
  refine ⟨s', queue', hrun, ?_, ?_⟩
  · rw [htasks]
    decide +kernel
  · rw [hqueue]
    decide +kernel

/-- The greatest count is read, and cannot be counted on. -/
theorem not_runPasses_spec :
    decodeItems PassDraws.sample.uuid PassDraws.sample.decodedAt (sampleQueueData (2 ^ 63 - 1)) =
        some (sampleQueueItems (2 ^ 63 - 1)) ∧
      runPasses [.sample] ({}, some (sampleQueueData (2 ^ 63 - 1))) = none := by
  refine ⟨by decide +kernel, Option.isNone_iff_eq_none.mp ?_⟩
  decide +kernel

end Notelayer
