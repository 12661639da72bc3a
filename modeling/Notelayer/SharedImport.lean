import Notelayer.Library.Runs
import Notelayer.SharedItems

/-!
# The queue of shared items

The extension saves an item by reading the queue, appending, and writing it. A pass of the
app reads the queue, writes back what it could not import, and later, on the main queue,
applies the rest to the store. Extension and app are two processes and share the one value.
There is at most one pass at a time, but saves and the pass interleave in any order.

A save or a pass that writes over a newer queue loses or duplicates items. If every write
finds the items that were read, each item is in the end imported once or queued once
(`conserved_run`). A pass writes the queue before the store. Terminated in between, it loses
the items it took (`survives_iff`).
-/

namespace Notelayer

/-! ## Steps -/

/-- Where the pass of the app is. -/
inductive ImportPass where
  | idle
  | scheduled
  /-- There is no storage, the main queue is to report it. -/
  | unavailable (processedAt : Date)
  /-- The queue was empty, the main queue is to report it. -/
  | empty (processedAt : Date)
  | read (processedAt : Date) (items : List SharedItem)
  | built (processedAt : Date) (items : List SharedItem) (processed : ProcessedItems)
  /-- The queue is written, the block on the main queue has not begun. -/
  | persisted (processedAt : Date) (processed : ProcessedItems) (persistenceError : Option String)
  /-- The notes are in the store, the tasks are not. -/
  | notesApplied (processed : ProcessedItems) (persistenceError : Option String)

/-- The app and the extension. -/
structure SharedImport where
  store : LocalStore
  queue : Option QueueData
  pass : ImportPass := .idle
  /-- The saves that have read the queue, with what they read. -/
  saves : List (SharedItem × List SharedItem) := []
  /-- The items whose save was written. -/
  saved : List SharedItem := []
  /-- The items that were applied to the store, with what they became. -/
  imports : List (SharedItem × SharedImportPayload) := []

/-- A step of a save in the share sheet, or of a pass in the app. -/
inductive ImportStep where
  /-- `saveTask` up to its read of the queue. -/
  | beginSave (form : ShareForm)
  /-- The `k`-th save appends its item to what it read, and writes. -/
  | finishSave (k : ℕ)
  | scheduleSharedImportProcessing
  /-- `UserDefaults(suiteName:)` and `decodeSharedItems`. -/
  | readQueue (processedAt : Date) (available : Bool)
  | buildPayloads (contexts : ℕ → ImportContext)
  | persistSharedItems
  /-- The block on the main queue up to the notes. -/
  | applyNotes
  /-- The rest of the block. -/
  | applyTasks (now : Date)

namespace SharedImport

variable (x : SharedImport)

/-- A save reads the queue. -/
def beginSave (form : ShareForm) : SharedImport :=
  match form.sharedItem with
  | none => x
  | some item => { x with saves := x.saves ++ [(item, decodeSharedItems x.queue)] }

/-- A save appends its item to what it has read. -/
def finishSave (k : ℕ) : SharedImport :=
  match x.saves[k]? with
  | none => x
  | some (item, items) =>
    let x := { x with saves := x.saves.eraseIdx k }
    match encodeSharedItems (items ++ [item]) with
    | some data => { x with queue := some data, saved := x.saved ++ [item] }
    | none => x

/-- `isSharedImportProcessing` is set as long as the pass is not idle. -/
def scheduleSharedImportProcessing : SharedImport :=
  match x.pass with
  | .idle => { x with pass := .scheduled }
  | _ => x

/-- The pass reads the queue. -/
def readQueue (processedAt : Date) (available : Bool) : SharedImport :=
  match x.pass with
  | .scheduled =>
    if available then
      let sharedItems := decodeSharedItems x.queue
      if sharedItems.isEmpty then { x with pass := .empty processedAt }
      else { x with pass := .read processedAt sharedItems }
    else { x with pass := .unavailable processedAt }
  | _ => x

/-- The pass builds what the items become. -/
def buildPayloads (contexts : ℕ → ImportContext) : SharedImport :=
  match x.pass with
  | .read processedAt items =>
    { x with pass := .built processedAt items (processItems contexts items) }
  | _ => x

/-- The queue and the error after `persistSharedItemsForBackground`. -/
def persistSharedItemsForBackground (items : List SharedItem) (queue : Option QueueData) :
    Option QueueData × Option String :=
  if items.isEmpty then (none, none)
  else
    match encodeSharedItems items with
    | none => (queue, some "Unable to persist pending shared imports.")
    | some data => (some data, none)

/-- The pass writes back the items that failed. -/
def persistSharedItems : SharedImport :=
  match x.pass with
  | .built processedAt _ processed =>
    let (queue, persistenceError) :=
      persistSharedItemsForBackground processed.failedItems x.queue
    { x with queue := queue, pass := .persisted processedAt processed persistenceError }
  | _ => x

/-- The notes are added, or the pass ends without an import. -/
def applyNotes : SharedImport :=
  match x.pass with
  | .unavailable processedAt =>
    { x with
      pass := .idle
      store := { x.store with
        lastSharedImportProcessedAt := some processedAt
        lastSharedImportError :=
          some "Shared import storage is unavailable on this device." } }
  | .empty processedAt =>
    { x with
      pass := .idle
      store := { x.store with
        lastSharedImportProcessedAt := some processedAt
        pendingSharedImportCount := 0
        lastSharedImportError := none } }
  | .persisted processedAt processed persistenceError =>
    let s := { x.store with lastSharedImportProcessedAt := some processedAt }
    { x with
      pass := .notesApplied processed persistenceError
      store := if processed.importedNotes.isEmpty then s
        else s.importNotes processed.importedNotes }
  | _ => x

/-- The tasks are added, and the pass ends. -/
def applyTasks (now : Date) : SharedImport :=
  match x.pass with
  | .notesApplied processed persistenceError =>
    let s := if processed.importedTasks.isEmpty then x.store
      else x.store.importTasks processed.importedTasks now
    { x with
      pass := .idle
      imports := x.imports ++ processed.imports
      store := { s with
        pendingSharedImportCount := processed.failedItems.length
        lastSharedImportError :=
          (processed.failedItems.head?.bind SharedItem.lastError) <|> persistenceError } }
  | _ => x

/-- Every step has a result. -/
def step (l : ImportStep) (x : SharedImport) : Option SharedImport :=
  some <| match l with
  | .beginSave form => x.beginSave form
  | .finishSave k => x.finishSave k
  | .scheduleSharedImportProcessing => x.scheduleSharedImportProcessing
  | .readQueue processedAt available => x.readQueue processedAt available
  | .buildPayloads contexts => x.buildPayloads contexts
  | .persistSharedItems => x.persistSharedItems
  | .applyNotes => x.applyNotes
  | .applyTasks now => x.applyTasks now

/-- The block on the main queue is `applySharedImports` and the report. -/
theorem store_applyTasks_applyNotes {processedAt : Date} {processed : ProcessedItems}
    {persistenceError : Option String} (hx : x.pass = .persisted processedAt processed
      persistenceError) (now : Date) :
    (x.applyNotes.applyTasks now).store =
      { LocalStore.applySharedImports
          { x.store with lastSharedImportProcessedAt := some processedAt }
          processed.importedNotes processed.importedTasks now with
        pendingSharedImportCount := processed.failedItems.length
        lastSharedImportError :=
          (processed.failedItems.head?.bind SharedItem.lastError) <|> persistenceError } := by
  unfold applyNotes
  rw [hx]
  rfl

end SharedImport

/-! ## What a pass holds -/

namespace ImportPass

/-- The items that are taken off the queue and not yet applied. -/
def inFlight : ImportPass → List SharedItem
  | persisted _ processed _ => processed.imports.map Prod.fst
  | notesApplied processed _ => processed.imports.map Prod.fst
  | _ => []

/-- The notes that are in the store before their items are recorded as applied. -/
def appliedNotes : ImportPass → List Note
  | notesApplied processed _ => processed.importedNotes
  | _ => []

/-- What the pass has in hand was read from the queue, and comes from the loop. -/
def FromQueue : ImportPass → Prop
  | read _ items => ∀ item ∈ items, item.isEncodable = true
  | built _ items processed => (∀ item ∈ items, item.isEncodable = true) ∧
    ∃ contexts, processed = processItems contexts items
  | persisted _ processed _ => ∃ contexts items, processed = processItems contexts items
  | notesApplied processed _ => ∃ contexts items, processed = processItems contexts items
  | _ => True

end ImportPass

/-! ## What an import leaves in the store -/

namespace LocalStore

variable (s : LocalStore)

@[simp] theorem notes_spawnSync (c : FirestoreBackend → Closure) :
    (s.spawnSync c).notes = s.notes := by
  unfold spawnSync
  split <;> rfl

@[simp] theorem userDefaults_spawnSync (c : FirestoreBackend → Closure) :
    (s.spawnSync c).userDefaults = s.userDefaults := by
  unfold spawnSync
  split <;> rfl

theorem notes_importNotes (notes : List Note) :
    (s.importNotes notes).notes = s.notes ++ notes := by
  simp [importNotes, saveNotes]

theorem userDefaults_importNotes (notes : List Note) :
    (s.importNotes notes).userDefaults =
      { s.userDefaults with notes := some (s.notes ++ notes) } := by
  simp [importNotes, saveNotes]

theorem tasks_importTasks (tasks : List Task) (now : Date) :
    (s.importTasks tasks now).tasks = s.tasks ++ s.preparedTasks tasks now := by
  simp [importTasks, foldl_logTaskCreatedAnalytics (f := LocalStore.tasks)]

@[simp] theorem notes_importTasks (tasks : List Task) (now : Date) :
    (s.importTasks tasks now).notes = s.notes := by
  unfold importTasks
  dsimp only
  rw [notes_spawnSync, foldl_logTaskCreatedAnalytics (f := LocalStore.notes)]
  · rfl
  · intro s t
    unfold logTaskCreatedAnalytics
    split <;> rfl

theorem userDefaults_importTasks (tasks : List Task) (now : Date) :
    (s.importTasks tasks now).userDefaults =
      { s.userDefaults with tasks := some (s.tasks ++ s.preparedTasks tasks now) } := by
  unfold importTasks
  dsimp only
  rw [userDefaults_spawnSync, foldl_logTaskCreatedAnalytics (f := LocalStore.userDefaults)]
  · rfl
  · intro s t
    unfold logTaskCreatedAnalytics
    split <;> rfl

end LocalStore

open LocalStore

namespace SharedImport

variable {s : LocalStore} {items : List SharedItem} {x x' : SharedImport}

/-- The store has what it had before and what the applied items became. -/
structure Imported (s : LocalStore) (x : SharedImport) : Prop where
  pass : x.pass.FromQueue
  imports : ∀ entry ∈ x.imports, ∃ context,
    entry.1.markedPending.buildSharedImportPayload context = .ok entry.2
  notes : x.store.notes =
    s.notes ++ (x.imports.flatMap fun entry => entry.2.notes) ++ x.pass.appliedNotes
  tasks : x.store.tasks.map Task.id =
    s.tasks.map Task.id ++ (x.imports.flatMap fun entry => entry.2.tasks).map Task.id

/-- Each item that was queued or saved is applied, in the hands of the pass, or in the queue. -/
def Accounted (items : List SharedItem) (x : SharedImport) : Prop :=
  ((x.imports.map Prod.fst ++ x.pass.inFlight ++ decodeSharedItems x.queue).map
    SharedItem.unmarked).Perm ((items ++ x.saved).map SharedItem.unmarked)

/-- `persistSharedItemsForBackground` of items from the queue does not fail. -/
theorem decode_persistSharedItemsForBackground (h : ∀ item ∈ items, item.isEncodable = true)
    (queue : Option QueueData) :
    decodeSharedItems (persistSharedItemsForBackground items queue).1 = items ∧
      (persistSharedItemsForBackground items queue).2 = none := by
  unfold persistSharedItemsForBackground
  split_ifs with hempty
  · exact ⟨(List.isEmpty_iff.mp hempty).symm, rfl⟩
  · rw [encodeSharedItems, dif_pos h]
    exact ⟨rfl, rfl⟩

theorem isEncodable_failedItems (h : ∀ item ∈ items, item.isEncodable = true)
    (contexts : ℕ → ImportContext) :
    ∀ failed ∈ (processItems contexts items).failedItems, failed.isEncodable = true := by
  intro failed hf
  obtain ⟨index, item, error, hitem, -, rfl⟩ :=
    ((ProcessedItems.accounts_processItems contexts items).mem_failedItems failed).mp hf
  exact h item (List.mem_of_getElem? hitem)

/-! ## One step -/

/-- A pass in the hands of which is what it has read. -/
theorem Imported.withPass (h : x.Imported s) {pass : ImportPass} (hpass : pass.FromQueue)
    (hnotes : pass.appliedNotes = x.pass.appliedNotes) :
    Imported s { x with pass := pass } where
  pass := hpass
  imports := h.imports
  notes := by rw [hnotes]; exact h.notes
  tasks := h.tasks

/-- The notes of the pass are imported. -/
theorem Imported.applyNotes (h : x.Imported s) : x.applyNotes.Imported s := by
  have hpass := h.pass
  have hnotes := h.notes
  unfold SharedImport.applyNotes
  split
  · rename_i hx
    rw [hx] at hnotes
    exact ⟨trivial, h.imports, hnotes, h.tasks⟩
  · rename_i hx
    rw [hx] at hnotes
    exact ⟨trivial, h.imports, hnotes, h.tasks⟩
  · rename_i processedAt processed persistenceError hx
    rw [hx] at hpass hnotes
    simp only [ImportPass.appliedNotes, List.append_nil] at hnotes
    refine ⟨hpass, h.imports, ?_, ?_⟩
    · dsimp only [ImportPass.appliedNotes]
      split_ifs with hempty
      · rw [List.isEmpty_iff.mp hempty, List.append_nil, hnotes]
      · rw [notes_importNotes, hnotes]
    · dsimp only
      split_ifs
      · exact h.tasks
      · rw [tasks_importNotes]
        exact h.tasks
  · exact h

/-- The tasks of the pass are imported. -/
theorem Imported.applyTasks (h : x.Imported s) (now : Date) : (x.applyTasks now).Imported s := by
  unfold SharedImport.applyTasks
  split
  · rename_i processed persistenceError hx
    have hpass := h.pass
    have hnotes := h.notes
    rw [hx] at hpass hnotes
    obtain ⟨contexts, items, rfl⟩ := hpass
    have haccounts := ProcessedItems.accounts_processItems contexts items
    refine ⟨trivial, ?_, ?_, ?_⟩
    · intro entry hentry
      rcases List.mem_append.mp hentry with hentry | hentry
      · exact h.imports entry hentry
      · obtain ⟨index, -, hbuild⟩ := (haccounts.mem_imports entry).mp hentry
        exact ⟨_, hbuild⟩
    · have hstore : ∀ ts : List Task,
          (if ts.isEmpty then x.store else x.store.importTasks ts now).notes = x.store.notes :=
        fun ts => by split_ifs <;> simp
      simp only [hstore, hnotes, ImportPass.appliedNotes, haccounts.notes, List.flatMap_append,
        List.append_assoc, List.append_nil]
    · have hstore : ∀ ts : List Task, (if ts.isEmpty then x.store
          else x.store.importTasks ts now).tasks.map Task.id =
            x.store.tasks.map Task.id ++ ts.map Task.id := fun ts => by
        split_ifs with hempty
        · simp [List.isEmpty_iff.mp hempty]
        · simp [tasks_importTasks]
      simp only [hstore, h.tasks, haccounts.tasks, List.flatMap_append, List.map_append,
        List.append_assoc]
  · exact h

/-- A step of any kind. -/
theorem Imported.step (h : x.Imported s) {l : ImportStep} (hx : x.step l = some x') :
    x'.Imported s := by
  obtain rfl := Option.some_inj.mp hx
  have hpass := h.pass
  cases l with
  | beginSave form =>
    dsimp only [beginSave]
    split <;> exact { h with }
  | finishSave k =>
    dsimp only [finishSave]
    split
    · exact h
    · split <;> exact { h with }
  | scheduleSharedImportProcessing =>
    dsimp only [scheduleSharedImportProcessing]
    split
    · rename_i hidle
      exact h.withPass trivial (by rw [hidle]; rfl)
    · exact h
  | readQueue processedAt available =>
    dsimp only [readQueue]
    split
    · rename_i hscheduled
      split_ifs
      · exact h.withPass trivial (by rw [hscheduled]; rfl)
      · exact h.withPass (fun item => isEncodable_of_mem_decodeSharedItems)
          (by rw [hscheduled]; rfl)
      · exact h.withPass trivial (by rw [hscheduled]; rfl)
    · exact h
  | buildPayloads contexts =>
    dsimp only [buildPayloads]
    split
    · rename_i hread
      rw [hread] at hpass
      exact h.withPass ⟨hpass, contexts, rfl⟩ (by rw [hread]; rfl)
    · exact h
  | persistSharedItems =>
    dsimp only [persistSharedItems]
    split
    · rename_i processedAt read processed hbuilt
      rw [hbuilt] at hpass
      obtain ⟨-, contexts, hprocessed⟩ := hpass
      have hpersisted : (ImportPass.persisted processedAt processed
          (persistSharedItemsForBackground processed.failedItems x.queue).2).FromQueue :=
        ⟨contexts, read, hprocessed⟩
      have hnext := h.withPass hpersisted (by rw [hbuilt]; rfl)
      exact { hnext with }
    · exact h
  | applyNotes => exact h.applyNotes
  | applyTasks now => exact h.applyTasks now

/-! ## Conservation -/

end SharedImport

/-- A step that writes the queue finds in it the items it had read. -/
def ImportStep.WritesCurrent (l : ImportStep) (x : SharedImport) : Prop :=
  match l with
  | finishSave k => ∀ entry ∈ x.saves[k]?, (encodeSharedItems (entry.2 ++ [entry.1])).isSome →
    (entry.2.map SharedItem.unmarked).Perm ((decodeSharedItems x.queue).map SharedItem.unmarked)
  | persistSharedItems => ∀ processedAt items processed,
    x.pass = .built processedAt items processed →
    (items.map SharedItem.unmarked).Perm ((decodeSharedItems x.queue).map SharedItem.unmarked)
  | _ => True

namespace SharedImport

variable {s : LocalStore} {items : List SharedItem} {x x' : SharedImport}

/-- Lists that complete the same list are the same up to order. -/
theorem perm_append_iff {A : Type} {a b c d : List A} (h : (a ++ b).Perm c) :
    (a ++ d).Perm c ↔ d.Perm b := by
  refine ⟨fun hd => ?_, fun hd => (hd.append_left a).trans h⟩
  exact (List.perm_append_left_iff a).mp (hd.trans h.symm)

/-- A save accounts for every item if and only if it writes a current queue. -/
theorem accounted_finishSave_iff (ha : x.Accounted items) (k : ℕ) :
    (x.finishSave k).Accounted items ↔ (ImportStep.finishSave k).WritesCurrent x := by
  unfold finishSave ImportStep.WritesCurrent
  dsimp only
  cases hk : x.saves[k]? with
  | none => simpa using ha
  | some entry =>
    obtain ⟨item, read⟩ := entry
    dsimp only
    cases hencode : encodeSharedItems (read ++ [item]) with
    | none =>
      refine ⟨fun _ entry he hsome => ?_, fun _ => ha⟩
      obtain rfl := Option.some_inj.mp he
      rw [hencode] at hsome
      cases hsome
    | some data =>
      have hdecode := decode_encodeSharedItems hencode
      simp only [Option.mem_some_iff, forall_eq', hencode, Option.isSome_some, true_implies]
      unfold Accounted at ha ⊢
      simp only [hdecode, List.map_append] at ha ⊢
      rw [← List.append_assoc, ← List.append_assoc, List.perm_append_right_iff]
      exact perm_append_iff ha

/-- A pass accounts for every item if and only if it writes a current queue. -/
theorem accounted_persistSharedItems_iff (hi : x.pass.FromQueue) (ha : x.Accounted items) :
    x.persistSharedItems.Accounted items ↔ ImportStep.persistSharedItems.WritesCurrent x := by
  unfold persistSharedItems ImportStep.WritesCurrent
  dsimp only
  cases hx : x.pass with
  | built processedAt read processed =>
    rw [hx] at hi
    obtain ⟨hencodable, contexts, rfl⟩ := hi
    have hfailed := isEncodable_failedItems hencodable contexts
    have hdecode := (decode_persistSharedItemsForBackground hfailed x.queue).1
    have hperm := (ProcessedItems.accounts_processItems contexts read).perm
    unfold Accounted at ha ⊢
    rw [hx] at ha
    simp only [ImportPass.inFlight, List.append_nil, List.map_append, hdecode,
      List.append_assoc] at ha ⊢
    rw [perm_append_iff ha]
    rw [List.map_append] at hperm
    refine ⟨fun hqueue processedAt' items' processed' hbuilt => ?_, fun hqueue => ?_⟩
    · obtain ⟨rfl, rfl, rfl⟩ := ImportPass.built.inj hbuilt
      exact hperm.symm.trans hqueue
    · exact hperm.trans (hqueue processedAt read _ rfl)
  | _ => simpa [hx] using ha

/-- A step keeps the account exactly if what it writes is current. -/
theorem accounted_step_iff (hi : x.pass.FromQueue) (ha : x.Accounted items) {l : ImportStep}
    (hx : x.step l = some x') : x'.Accounted items ↔ l.WritesCurrent x := by
  obtain rfl := Option.some_inj.mp hx
  have htrivial : ∀ {y : SharedImport}, y.Accounted items → (y.Accounted items ↔ True) :=
    fun hy => iff_true_intro hy
  have hmoves : ∀ {pass : ImportPass}, pass.inFlight = x.pass.inFlight →
      Accounted items { x with pass := pass } := by
    intro pass hpass
    unfold Accounted
    rw [hpass]
    exact ha
  cases l with
  | beginSave form =>
    refine htrivial ?_
    dsimp only [beginSave]
    split <;> exact ha
  | finishSave k => exact accounted_finishSave_iff ha k
  | scheduleSharedImportProcessing =>
    refine htrivial ?_
    dsimp only [scheduleSharedImportProcessing]
    split
    · rename_i hidle
      exact hmoves (by rw [hidle]; rfl)
    · exact ha
  | readQueue processedAt available =>
    refine htrivial ?_
    dsimp only [readQueue]
    split
    · rename_i hscheduled
      split_ifs <;> exact hmoves (by rw [hscheduled]; rfl)
    · exact ha
  | buildPayloads contexts =>
    refine htrivial ?_
    dsimp only [buildPayloads]
    split
    · rename_i hread
      exact hmoves (by rw [hread]; rfl)
    · exact ha
  | persistSharedItems => exact accounted_persistSharedItems_iff hi ha
  | applyNotes =>
    refine htrivial ?_
    dsimp only [SharedImport.applyNotes]
    split
    · rename_i hpass
      exact @hmoves .idle (by rw [hpass]; rfl)
    · rename_i hpass
      exact @hmoves .idle (by rw [hpass]; rfl)
    · rename_i processedAt processed persistenceError hpass
      refine @hmoves (.notesApplied processed persistenceError) ?_
      rw [hpass]
      rfl
    · exact ha
  | applyTasks now =>
    refine htrivial ?_
    dsimp only [SharedImport.applyTasks]
    split
    · rename_i processed persistenceError hpass
      unfold Accounted at ha ⊢
      rw [hpass] at ha
      simpa only [ImportPass.inFlight, List.map_append, List.append_assoc, List.append_nil,
        List.nil_append] using ha
    · exact ha

/-! ## Runs -/

/-- Before the first step. -/
def start (s : LocalStore) (queue : Option QueueData) : SharedImport :=
  { store := s, queue := queue }

theorem imported_start (s : LocalStore) (queue : Option QueueData) :
    (start s queue).Imported s where
  pass := trivial
  imports _ h := absurd h List.not_mem_nil
  notes := by simp [start, ImportPass.appliedNotes]
  tasks := by simp [start]

theorem accounted_start (s : LocalStore) (queue : Option QueueData) :
    (start s queue).Accounted (decodeSharedItems queue) := by
  simp [Accounted, start, ImportPass.inFlight]

/-- All saves and passes have finished. -/
def Finished (x : SharedImport) : Prop :=
  x.pass = .idle ∧ x.saves = []

/-- Each item that was queued or saved was imported once, or is queued once. -/
def Conserved (s : LocalStore) (items : List SharedItem) (x : SharedImport) : Prop :=
  ∃ imports : List (SharedItem × SharedImportPayload),
    (∀ entry ∈ imports, ∃ context,
      entry.1.markedPending.buildSharedImportPayload context = .ok entry.2) ∧
    x.store.notes = s.notes ++ (imports.flatMap fun entry => entry.2.notes) ∧
    x.store.tasks.map Task.id =
      s.tasks.map Task.id ++ (imports.flatMap fun entry => entry.2.tasks).map Task.id ∧
    ((imports.map Prod.fst ++ decodeSharedItems x.queue).map SharedItem.unmarked).Perm
      ((items ++ x.saved).map SharedItem.unmarked)

theorem Accounted.conserved (ha : x.Accounted items) (hi : x.Imported s)
    (hidle : x.pass = .idle) : x.Conserved s items := by
  have hnotes := hi.notes
  unfold Accounted at ha
  rw [hidle] at hnotes ha
  refine ⟨x.imports, hi.imports, ?_, hi.tasks, ?_⟩
  · simpa only [ImportPass.appliedNotes, List.append_nil] using hnotes
  · simpa only [ImportPass.inFlight, List.append_nil] using ha

/-- All along a run the items are accounted for exactly if every write is current. -/
theorem accounted_iff_guarded {queue : Option QueueData} {ls : List ImportStep} :
    (∀ k, ∃ t, Runs.run step (ls.take k) (start s queue) = some t ∧ t.Imported s ∧
      t.Accounted (decodeSharedItems queue)) ↔
      Runs.Guarded step ImportStep.WritesCurrent ls (start s queue) := by
  have htrue : Runs.Guarded step (fun _ _ => True) ls (start s queue) := by
    generalize start s queue = x
    induction ls generalizing x with
    | nil => trivial
    | cons l ls ih => exact ⟨trivial, fun x' _ => ih x'⟩
  refine Runs.forall_take_iff_guarded
    (I := fun x => Imported s x ∧ Accounted (decodeSharedItems queue) x) ?_ ?_
    ⟨imported_start s queue, accounted_start s queue⟩ htrue
  · rintro l x ⟨hi, ha⟩ - hg
    exact ⟨_, rfl, hi.step rfl, (accounted_step_iff hi.pass ha rfl).mpr hg⟩
  · rintro l x x' ⟨hi, ha⟩ - hx ⟨-, ha'⟩
    exact (accounted_step_iff hi.pass ha hx).mp ha'

/-- If every write of the queue finds the items that were read, nothing is lost and nothing
is imported twice. -/
theorem conserved_run {queue : Option QueueData} {ls : List ImportStep} {t : SharedImport}
    (hg : Runs.Guarded step ImportStep.WritesCurrent ls (start s queue))
    (ht : Runs.run step ls (start s queue) = some t) (hf : t.Finished) :
    t.Conserved s (decodeSharedItems queue) := by
  obtain ⟨t', ht', hi, ha⟩ := accounted_iff_guarded.mpr hg ls.length
  rw [List.take_length, ht] at ht'
  obtain rfl := Option.some_inj.mp ht'
  exact ha.conserved hi hf.1

end SharedImport

/-- A form with a title, for the samples below. -/
def ShareForm.sample (title : String) : ShareForm where
  title := title
  model := ⟨.task, [], none, .seconds 0, false, none⟩
  url := none
  notes := none
  categories := []
  priority := .medium
  dueDate := none
  reminderDate := none
  id := title
  now := .seconds 0

/-- A context for one task, for the samples below. -/
def ImportContext.sample : ImportContext :=
  ⟨fun _ => "task", .seconds 1, fun _ => "today", fun _ _ => true⟩

namespace SharedImport

/-- An item is saved, then a pass imports it. -/
def sampleSteps : List ImportStep :=
  [.beginSave (.sample "Plan"), .finishSave 0, .scheduleSharedImportProcessing,
    .readQueue (.seconds 1) true, .buildPayloads fun _ => .sample, .persistSharedItems,
    .applyNotes, .applyTasks (.seconds 1)]

/-- No step of the sample writes a stale queue. -/
theorem guarded_sampleSteps :
    Runs.Guarded step ImportStep.WritesCurrent sampleSteps (start {} none) := by
  refine .cons trivial rfl <| .cons ?_ rfl <| .cons trivial rfl <| .cons trivial rfl <|
    .cons trivial rfl <| .cons ?_ rfl <| .cons trivial rfl <| .cons trivial rfl trivial
  · intro entry he _
    obtain rfl := Option.some_inj.mp he
    exact List.Perm.refl _
  · intro processedAt items processed hbuilt
    obtain ⟨-, rfl, -⟩ := ImportPass.built.inj hbuilt
    exact List.Perm.refl _

theorem conserved_run_sample : ∃ t, Runs.run step sampleSteps (start {} none) = some t ∧
    t.Conserved {} (decodeSharedItems none) :=
  ⟨_, rfl, conserved_run guarded_sampleSteps rfl ⟨rfl, rfl⟩⟩

/-- Each import adds a note or a task. -/
theorem length_le_of_imports {imports : List (SharedItem × SharedImportPayload)}
    (h : ∀ entry ∈ imports, ∃ context,
      entry.1.markedPending.buildSharedImportPayload context = .ok entry.2) :
    imports.length ≤ (imports.flatMap fun entry => entry.2.notes).length +
      (imports.flatMap fun entry => entry.2.tasks).length := by
  induction imports with
  | nil => exact Nat.le_refl 0
  | cons entry imports ih =>
    have hrest := ih fun e he => h e (List.mem_cons_of_mem _ he)
    obtain ⟨context, hbuild⟩ := h entry List.mem_cons_self
    have hpositive : 0 < entry.2.notes.length + entry.2.tasks.length := by
      rcases SharedItem.buildSharedImportPayload_cases context entry.1.markedPending with
        ⟨note, hok, -⟩ | ⟨tasks, hok, hne, -⟩ | ⟨error, herror, -⟩
      · rw [hbuild] at hok
        rw [Except.ok.inj hok]
        exact Nat.succ_pos _
      · rw [hbuild] at hok
        rw [Except.ok.inj hok]
        simpa [Nat.pos_iff_ne_zero] using hne
      · rw [hbuild] at herror
        cases herror
    simp only [List.length_cons, List.flatMap_cons, List.length_append]
    omega

/-- A save that is written between the read and the write of a pass. -/
def sampleLoss : List ImportStep :=
  [.beginSave (.sample "Plan"), .finishSave 0, .scheduleSharedImportProcessing,
    .readQueue (.seconds 1) true, .buildPayloads fun _ => .sample, .beginSave (.sample "Pack"),
    .finishSave 0, .persistSharedItems, .applyNotes, .applyTasks (.seconds 1)]

theorem run_sampleLoss : ∃ t, Runs.run step sampleLoss (start {} none) = some t ∧ t.Finished ∧
    decodeSharedItems t.queue = [] ∧ t.saved.length = 2 ∧ t.store.notes = [] ∧
    t.store.tasks.length = 1 :=
  ⟨_, rfl, ⟨rfl, rfl⟩, rfl, rfl, rfl, rfl⟩

/-- Two items were saved, one was imported, and the queue is empty. -/
theorem not_conserved_run : ¬∀ (s : LocalStore) (queue : Option QueueData)
    (ls : List ImportStep) (t : SharedImport), Runs.run step ls (start s queue) = some t →
    t.Finished → t.Conserved s (decodeSharedItems queue) := by
  intro h
  obtain ⟨t, ht, hfinished, hqueue, hsaved, hnotes, htasks⟩ := run_sampleLoss
  obtain ⟨imports, hbuild, hnotes', htasks', hperm⟩ := h {} none _ t ht hfinished
  have hlength := length_le_of_imports hbuild
  have hitems := hperm.length_eq
  have hcount := congrArg List.length hnotes'
  have hids := congrArg List.length htasks'
  rw [hnotes] at hcount
  simp only [hqueue, List.length_append, List.length_map, List.length_nil] at hitems hcount hids
  simp only [decodeSharedItems, List.length_nil] at hitems
  omega

/-! ## Termination of the app -/

/-- The steps of a pass. -/
def passSteps (processedAt : Date) (contexts : ℕ → ImportContext) (now : Date) :
    List ImportStep :=
  [.scheduleSharedImportProcessing, .readQueue processedAt true, .buildPayloads contexts,
    .persistSharedItems, .applyNotes, .applyTasks now]

/-- A store that was loaded has the notes and tasks of the payload. -/
def Holds (loaded : LocalStore) (payload : SharedImportPayload) : Prop :=
  (∀ note ∈ payload.notes, note ∈ loaded.notes) ∧
    ∀ task ∈ payload.tasks, task.id ∈ loaded.tasks.map Task.id

/-- After a termination and a fresh load each item is queued, or its note or all its tasks are
in the store. -/
def Survives (contexts : ℕ → ImportContext) (items : List SharedItem) (x : SharedImport) :
    Prop :=
  ∀ (index : ℕ) (item : SharedItem), items[index]? = some item →
    (∃ queued ∈ decodeSharedItems x.queue, queued.unmarked = item.unmarked) ∨
    ∃ payload, item.markedPending.buildSharedImportPayload (contexts index) = .ok payload ∧
      Holds (LocalStore.load x.store.userDefaults) payload

variable {s : LocalStore} {items : List SharedItem} {x : SharedImport}
  {contexts : ℕ → ImportContext}

/-- An item that is rejected is never accepted, whatever the marks and what is drawn. -/
theorem not_error_of_ok {item item' : SharedItem} {context context' : ImportContext}
    {payload : SharedImportPayload} {error : SharedImportProcessingError}
    (h : item.unmarked = item'.unmarked)
    (hok : item.markedPending.buildSharedImportPayload context = .ok payload) :
    item'.markedPending.buildSharedImportPayload context' ≠ .error error := by
  intro herror
  have hnote : item.unmarked.importsNote = item'.unmarked.importsNote :=
    congrArg SharedItem.importsNote h
  have htasks : item.unmarked.importsTasks = item'.unmarked.importsTasks :=
    congrArg SharedItem.importsTasks h
  have hnone : item'.unmarked.importsNote = false ∧ item'.unmarked.importsTasks = false := by
    rcases SharedItem.buildSharedImportPayload_cases context' item'.markedPending with
      ⟨note, h', -⟩ | ⟨tasks, h', -⟩ | ⟨error', -, hfalse⟩
    · rw [herror] at h'
      cases h'
    · rw [herror] at h'
      cases h'
    · exact hfalse
  rcases SharedItem.buildSharedImportPayload_cases context item.markedPending with
    ⟨note, -, -, htrue, -⟩ | ⟨tasks, -, -, -, -, htrue⟩ | ⟨error', h', -⟩
  · exact Bool.false_ne_true (hnone.1.symm.trans (hnote.symm.trans htrue))
  · exact Bool.false_ne_true (hnone.2.symm.trans (htasks.symm.trans htrue))
  · rw [hok] at h'
    cases h'

/-- Before the queue is written nothing is lost. -/
theorem survives_of_queue (h : decodeSharedItems x.queue = items) : x.Survives contexts items := by
  intro index item hitem
  exact Or.inl ⟨item, h ▸ List.mem_of_getElem? hitem, rfl⟩

/-- Once the queue is written, what was accepted must be in the store. -/
theorem survives_iff_of_persisted
    (h : decodeSharedItems x.queue = (processItems contexts items).failedItems) :
    x.Survives contexts items ↔ ∀ (index : ℕ) (item : SharedItem) (payload : SharedImportPayload),
      items[index]? = some item →
      item.markedPending.buildSharedImportPayload (contexts index) = .ok payload →
      Holds (LocalStore.load x.store.userDefaults) payload := by
  have hfailed := (ProcessedItems.accounts_processItems contexts items).mem_failedItems
  unfold Survives
  rw [h]
  refine ⟨fun hsurvives index item payload hitem hbuild => ?_, fun hall index item hitem => ?_⟩
  · rcases hsurvives index item hitem with ⟨queued, hqueued, hmarks⟩ | ⟨payload', hbuild', hholds⟩
    · obtain ⟨index', item', error, -, herror, rfl⟩ := (hfailed queued).mp hqueued
      exact absurd herror (not_error_of_ok hmarks.symm hbuild)
    · rw [hbuild] at hbuild'
      rw [Except.ok.inj hbuild']
      exact hholds
  · cases hbuild : item.markedPending.buildSharedImportPayload (contexts index) with
    | ok payload => exact Or.inr ⟨payload, rfl, hall index item payload hitem hbuild⟩
    | error error =>
      exact Or.inl ⟨_, (hfailed _).mpr ⟨index, item, error, hitem, hbuild, rfl⟩, rfl⟩

/-- The notes are saved or new to the store, and so are the tasks. -/
theorem holds_iff {loaded : LocalStore} {notesSaved tasksSaved : Prop}
    (hnotes : notesSaved → ∀ note ∈ (processItems contexts items).importedNotes,
      note ∈ loaded.notes)
    (hnotes' : ¬notesSaved → ∀ note ∈ loaded.notes, ∀ i j, note.id ≠ (contexts i).uuid j)
    (htasks : tasksSaved → ∀ task ∈ (processItems contexts items).importedTasks,
      task.id ∈ loaded.tasks.map Task.id)
    (htasks' : ¬tasksSaved → ∀ i j, (contexts i).uuid j ∉ loaded.tasks.map Task.id) :
    (∀ (index : ℕ) (item : SharedItem) (payload : SharedImportPayload),
      items[index]? = some item →
      item.markedPending.buildSharedImportPayload (contexts index) = .ok payload →
      Holds loaded payload) ↔
    ∀ item ∈ items, (item.importsNote = true → notesSaved) ∧
      (item.importsTasks = true → tasksSaved) := by
  have haccounts := ProcessedItems.accounts_processItems contexts items
  have himport : ∀ {index : ℕ} {item : SharedItem} {payload : SharedImportPayload},
      items[index]? = some item →
      item.markedPending.buildSharedImportPayload (contexts index) = .ok payload →
      (item, payload) ∈ (processItems contexts items).imports :=
    fun hitem hbuild => (haccounts.mem_imports _).mpr ⟨_, hitem, hbuild⟩
  refine ⟨fun hall item hmem => ?_, fun hall index item payload hitem hbuild => ?_⟩
  · obtain ⟨index, hitem⟩ := List.mem_iff_getElem?.mp hmem
    rcases SharedItem.buildSharedImportPayload_cases (contexts index) item.markedPending with
      ⟨note, hok, hid, -, hno⟩ | ⟨tasks, hok, hne, hids, hno, -⟩ | ⟨error, -, hno, hno'⟩
    · refine ⟨fun _ => ?_, fun hyes => absurd (hno.symm.trans hyes) Bool.false_ne_true⟩
      by_contra hsaved
      exact hnotes' hsaved note ((hall index item _ hitem hok).1 note List.mem_cons_self) index 0
        hid
    · refine ⟨fun hyes => absurd (hno.symm.trans hyes) Bool.false_ne_true, fun _ => ?_⟩
      by_contra hsaved
      obtain ⟨task, htask⟩ := List.exists_mem_of_ne_nil tasks hne
      obtain ⟨j, hj⟩ := hids task htask
      exact htasks' hsaved index j (hj ▸ (hall index item _ hitem hok).2 task htask)
    · exact ⟨fun hyes => absurd (hno.symm.trans hyes) Bool.false_ne_true,
        fun hyes => absurd (hno'.symm.trans hyes) Bool.false_ne_true⟩
  · have hmem := himport hitem hbuild
    obtain ⟨hn, ht⟩ := hall item (List.mem_of_getElem? hitem)
    rcases SharedItem.buildSharedImportPayload_cases (contexts index) item.markedPending with
      ⟨note, hok, -, hyes, -⟩ | ⟨tasks, hok, -, -, -, hyes⟩ | ⟨error, herror, -⟩
    · rw [hbuild] at hok
      obtain rfl := Except.ok.inj hok
      refine ⟨fun note' hnote => hnotes (hn hyes) note' ?_, fun _ h => absurd h List.not_mem_nil⟩
      rw [haccounts.notes]
      exact List.mem_flatMap.mpr ⟨_, hmem, hnote⟩
    · rw [hbuild] at hok
      obtain rfl := Except.ok.inj hok
      refine ⟨fun _ h => absurd h List.not_mem_nil, fun task htask => htasks (ht hyes) task ?_⟩
      rw [haccounts.tasks]
      exact List.mem_flatMap.mpr ⟨_, hmem, htask⟩
    · rw [hbuild] at herror
      cases herror

/-! What the steps other than the write do to the queue. -/

theorem queue_readQueue (x : SharedImport) (processedAt : Date) (available : Bool) :
    (x.readQueue processedAt available).queue = x.queue := by
  unfold readQueue
  split
  · dsimp only
    split_ifs <;> rfl
  · rfl

theorem queue_buildPayloads (x : SharedImport) (contexts : ℕ → ImportContext) :
    (x.buildPayloads contexts).queue = x.queue := by
  unfold buildPayloads
  split <;> rfl

theorem queue_applyNotes (x : SharedImport) : x.applyNotes.queue = x.queue := by
  unfold applyNotes
  split <;> rfl

theorem queue_applyTasks (x : SharedImport) (now : Date) : (x.applyTasks now).queue = x.queue := by
  unfold applyTasks
  split <;> rfl

section Saved

variable {processed : ProcessedItems} {persistenceError : Option String}
  {processedAt now : Date} {queue : Option QueueData}

/-- The notes of a pass survive a launch once they are added. -/
theorem load_applyNotes (hx : x.pass = .persisted processedAt processed persistenceError) :
    (∀ note ∈ processed.importedNotes,
      note ∈ (LocalStore.load x.applyNotes.store.userDefaults).notes) ∧
    (LocalStore.load x.applyNotes.store.userDefaults).tasks =
      (LocalStore.load x.store.userDefaults).tasks := by
  unfold applyNotes
  rw [hx]
  dsimp only
  split_ifs with hempty
  · rw [List.isEmpty_iff.mp hempty]
    exact ⟨fun _ h => absurd h List.not_mem_nil, rfl⟩
  · rw [userDefaults_importNotes]
    exact ⟨fun note hnote => List.mem_append_right _ hnote, rfl⟩

/-- The tasks of a pass survive a launch once they are added. -/
theorem load_applyTasks (hx : x.pass = .notesApplied processed persistenceError) :
    (LocalStore.load (x.applyTasks now).store.userDefaults).notes =
      (LocalStore.load x.store.userDefaults).notes ∧
    ∀ task ∈ processed.importedTasks,
      task.id ∈ (LocalStore.load (x.applyTasks now).store.userDefaults).tasks.map Task.id := by
  unfold applyTasks
  rw [hx]
  dsimp only
  split_ifs with hempty
  · rw [List.isEmpty_iff.mp hempty]
    exact ⟨rfl, fun _ h => absurd h List.not_mem_nil⟩
  · rw [userDefaults_importTasks]
    refine ⟨rfl, fun task htask => ?_⟩
    change task.id ∈ (x.store.tasks ++ x.store.preparedTasks _ now).map Task.id
    rw [List.map_append, ids_preparedTasks]
    exact List.mem_append_right _ (List.mem_map_of_mem htask)

/-- The pass after the queue has been written. -/
theorem exists_persisted (h : decodeSharedItems queue ≠ []) :
    ∃ x, Runs.run step ((passSteps processedAt contexts now).take 4) (start s queue) = some x ∧
      x.pass = .persisted processedAt (processItems contexts (decodeSharedItems queue)) none ∧
      x.store = s ∧ decodeSharedItems x.queue =
        (processItems contexts (decodeSharedItems queue)).failedItems := by
  have hread : ((start s queue).scheduleSharedImportProcessing).readQueue processedAt true =
      { start s queue with pass := .read processedAt (decodeSharedItems queue) } := by
    have hempty : ¬(decodeSharedItems queue).isEmpty = true := by simpa using h
    exact if_neg hempty
  have hencodable : ∀ item ∈ decodeSharedItems queue, item.isEncodable = true :=
    fun _ => isEncodable_of_mem_decodeSharedItems
  obtain ⟨hqueue, herror⟩ := decode_persistSharedItemsForBackground
    (isEncodable_failedItems hencodable contexts) queue
  refine ⟨{ start s queue with
    queue := (persistSharedItemsForBackground
      (processItems contexts (decodeSharedItems queue)).failedItems queue).1
    pass := .persisted processedAt (processItems contexts (decodeSharedItems queue)) none },
    ?_, rfl, rfl, hqueue⟩
  change some ((((start s queue).scheduleSharedImportProcessing).readQueue processedAt
    true).buildPayloads contexts).persistSharedItems = _
  rw [hread, ← herror]
  rfl

end Saved

/-- The pass terminated after its first `k` steps : what was queued survives exactly if, once
the queue has been written, the notes and the tasks that the items became have been saved. -/
theorem survives_iff {queue : Option QueueData} {processedAt now : Date}
    (hnotes : ∀ note ∈ (LocalStore.load s.userDefaults).notes, ∀ i j,
      note.id ≠ (contexts i).uuid j)
    (htasks : ∀ i j, (contexts i).uuid j ∉ (LocalStore.load s.userDefaults).tasks.map Task.id)
    (k : ℕ) :
    ∃ t, Runs.run step ((passSteps processedAt contexts now).take k) (start s queue) = some t ∧
      (t.Survives contexts (decodeSharedItems queue) ↔
        (.persistSharedItems ∈ (passSteps processedAt contexts now).take k →
          ∀ item ∈ decodeSharedItems queue,
            (item.importsNote = true →
              .applyNotes ∈ (passSteps processedAt contexts now).take k) ∧
            (item.importsTasks = true →
              .applyTasks now ∈ (passSteps processedAt contexts now).take k))) := by
  by_cases hempty : decodeSharedItems queue = []
  · obtain ⟨t, ht⟩ := Runs.exists_run (I := fun _ => True) (fun l x _ => ⟨_, rfl, trivial⟩)
      ((passSteps processedAt contexts now).take k) (s := start s queue) trivial
    refine ⟨t, ht, ?_⟩
    rw [hempty]
    exact ⟨fun _ _ _ h => absurd h List.not_mem_nil, fun _ index item h => by cases h⟩
  have hcases : k ≤ 3 ∨ k = 4 ∨ k = 5 ∨ 6 ≤ k := by omega
  obtain ⟨x, hx, hpass, hstore, hqueue⟩ :=
    @exists_persisted s contexts processedAt now queue hempty
  rcases hcases with hk | rfl | rfl | hk
  · -- the queue is as it was
    have hkeep : ∃ t, Runs.run step ((passSteps processedAt contexts now).take k)
        (start s queue) = some t ∧ t.queue = queue ∧
          .persistSharedItems ∉ (passSteps processedAt contexts now).take k := by
      obtain rfl | rfl | rfl | rfl : k = 0 ∨ k = 1 ∨ k = 2 ∨ k = 3 := by omega
      · exact ⟨_, rfl, rfl, by simp [passSteps]⟩
      · exact ⟨_, rfl, rfl, by simp [passSteps]⟩
      · exact ⟨_, rfl, queue_readQueue _ _ _, by simp [passSteps]⟩
      · exact ⟨_, rfl, (queue_buildPayloads _ _).trans (queue_readQueue _ _ _),
          by simp [passSteps]⟩
    obtain ⟨t, ht, htqueue, hmem⟩ := hkeep
    exact ⟨t, ht, fun _ h => absurd h hmem, fun _ => survives_of_queue (by rw [htqueue])⟩
  · refine ⟨x, hx, ?_⟩
    have hnone : False → ∀ note ∈ (processItems contexts (decodeSharedItems queue)).importedNotes,
        note ∈ (LocalStore.load s.userDefaults).notes := nofun
    have hnone' : False → ∀ task ∈ (processItems contexts (decodeSharedItems queue)).importedTasks,
        task.id ∈ (LocalStore.load s.userDefaults).tasks.map Task.id := nofun
    rw [survives_iff_of_persisted hqueue, hstore,
      holds_iff hnone (fun _ => hnotes) hnone' (fun _ => htasks)]
    simp [passSteps]
  · obtain ⟨hsaved, hsame⟩ := load_applyNotes hpass
    refine ⟨x.applyNotes, ?_, ?_⟩
    · change Runs.run step ((passSteps processedAt contexts now).take 4 ++ [.applyNotes]) _ = _
      rw [Runs.run_append, hx]
      rfl
    · have hnone : False → ∀ task ∈ (processItems contexts
          (decodeSharedItems queue)).importedTasks,
          task.id ∈ (LocalStore.load x.applyNotes.store.userDefaults).tasks.map Task.id := nofun
      rw [survives_iff_of_persisted ((congrArg _ (queue_applyNotes x)).trans hqueue),
        holds_iff (fun _ : True => hsaved) (fun h => absurd trivial h) hnone
        (fun _ => by rw [hsame, hstore]; exact htasks)]
      simp [passSteps]
  · obtain ⟨hsaved, -⟩ := load_applyNotes hpass
    have hpass' : x.applyNotes.pass = .notesApplied
        (processItems contexts (decodeSharedItems queue)) none := by
      unfold applyNotes
      rw [hpass]
    obtain ⟨hsame, hsaved'⟩ := load_applyTasks hpass'
    have hall : (passSteps processedAt contexts now).take k =
        (passSteps processedAt contexts now).take 4 ++ [.applyNotes, .applyTasks now] :=
      List.take_of_length_le hk
    refine ⟨x.applyNotes.applyTasks now, ?_, ?_⟩
    · rw [hall, Runs.run_append, hx]
      rfl
    · have hqueue' := (congrArg decodeSharedItems ((queue_applyTasks x.applyNotes now).trans
        (queue_applyNotes x))).trans hqueue
      rw [survives_iff_of_persisted hqueue',
        holds_iff (fun _ : True => by rw [hsame]; exact hsaved) (fun h => absurd trivial h)
        (fun _ : True => hsaved') (fun h => absurd trivial h), hall]
      simp

/-- A queue with the item of a form. -/
def sampleQueue : Option QueueData :=
  (ShareForm.sample "Plan").sharedItem.bind fun item => encodeSharedItems [item]

theorem survives_iff_sample : ∃ t, Runs.run step
    ((passSteps (.seconds 1) (fun _ => .sample) (.seconds 1)).take 6) (start {} sampleQueue) =
      some t ∧ t.Survives (fun _ => .sample) (decodeSharedItems sampleQueue) := by
  obtain ⟨t, ht, hiff⟩ := @survives_iff {} (fun _ => .sample) sampleQueue (.seconds 1)
    (.seconds 1) (fun _ h => absurd h List.not_mem_nil) (fun _ _ => List.not_mem_nil) 6
  refine ⟨t, ht, hiff.mpr fun _ _ _ => ⟨fun _ => ?_, fun _ => ?_⟩⟩
  · simp [passSteps]
  · simp [passSteps]

/-- The app is terminated after the queue was cleared and before the task was saved. -/
theorem not_survives : ¬∀ (s : LocalStore) (queue : Option QueueData) (processedAt now : Date)
    (contexts : ℕ → ImportContext) (k : ℕ) (t : SharedImport),
    Runs.run step ((passSteps processedAt contexts now).take k) (start s queue) = some t →
    t.Survives contexts (decodeSharedItems queue) := by
  intro h
  rcases h {} sampleQueue (.seconds 1) (.seconds 1) (fun _ => .sample) 4 _ rfl 0 _ rfl with
    ⟨queued, hqueued, -⟩ | ⟨payload, hbuild, -, htasks⟩
  · cases hqueued
  · obtain rfl := Except.ok.inj hbuild
    exact List.not_mem_nil (htasks _ List.mem_cons_self)

end SharedImport

end Notelayer
