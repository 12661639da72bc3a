import Mathlib.Data.List.Sort
import Notelayer.CategoryColorDefaults

/-!
# The local store

`LocalStore` holds the notes, tasks and categories of the app, the metadata of the
account, and what it has persisted (`userDefaults`). Two outputs are recorded in order :
the closures handed to `_Concurrency.Task` (`spawned`) and the analytics events. A
closure runs later, so `Closure` says what each one captured; the ones that read the
store when they run capture only the backend.

Remote data replaces local data under `suppressBackendWrites`, so no closure writes it
back. `sanitizeHierarchy` and `migrateIfNeeded` repair parent links on the way in. Both
build a dictionary of the tasks and trap (`none`) on a repeated id.
-/

namespace Notelayer

/-! ## State -/

/-- The Firestore object of one user. -/
structure FirestoreBackend where
  userId : String
  deriving DecidableEq

/-- A closure passed to `_Concurrency.Task`, with what it captured. -/
inductive Closure where
  | upsertNote (backend : FirestoreBackend) (note : Note)
  | deleteNote (backend : FirestoreBackend) (id : String)
  | upsertNotes (backend : FirestoreBackend) (notes : List Note)
  | upsertTask (backend : FirestoreBackend) (task : Task)
  | upsertTasks (backend : FirestoreBackend) (tasks : List Task)
  /-- `backend.upsert(tasks: tasks)` : the store's tasks when it runs. -/
  | upsertStoreTasks (backend : FirestoreBackend)
  /-- `backend.upsert(task: tasks[parentIndex])` : the store's task at `parentIndex` when
  it runs. `parentId` is the task the index was computed for; the closure has no use of
  it. -/
  | upsertTaskAt (backend : FirestoreBackend) (parentIndex : ℕ) (parentId : String)
  | deleteTask (backend : FirestoreBackend) (id : String)
  /-- Two writes : the category, then, once that has returned, the tasks. -/
  | deleteCategory (backend : FirestoreBackend) (id : String) (updatedTasks : List Task)
  | upsertCategory (backend : FirestoreBackend) (category : Category)
  /-- `backend.upsert(categories: categories)` : the store's categories when it runs. -/
  | upsertStoreCategories (backend : FirestoreBackend)
  | cancelReminder (notificationId : String)
  | scheduleReminder (task : Task) (date : Date) (categories : List Category)
      (notificationId : String)
  /-- `rescheduleRemindersAfterSync` of the given tasks. -/
  | rescheduleReminders (tasks : List Task)
  deriving DecidableEq

/-- A value among the parameters of an event. -/
inductive AnalyticsValue where
  | string (value : String)
  | int (value : ℤ)
  | bool (value : Bool)
  deriving DecidableEq

/-- What the analytics get of an event. -/
structure AnalyticsEvent where
  name : String
  params : List (String × AnalyticsValue)
  deriving DecidableEq

/-- The persisted values, by key. Coding to JSON and back is taken as exact. -/
structure UserDefaults where
  notes : Option (List Note) := none
  tasks : Option (List Task) := none
  categories : Option (List Category) := none
  uncategorizedPosition : Option ℤ := none
  experimentalFeaturesEnabled : Option Bool := none
  experimentalFeaturesUpdatedAt : Option Date := none
  insightsHintState : Option InsightsHintState := none
  voiceStagingDrafts : Option (List VoiceParsedTaskDraft) := none
  voiceSourceTranscript : Option String := none
  backendUserId : Option String := none
  deriving DecidableEq

/-- The store, with what it has saved, spawned and sent to the analytics. -/
structure LocalStore where
  notes : List Note := []
  tasks : List Task := []
  categories : List Category := []
  uncategorizedPosition : ℤ := 0
  experimentalFeaturesPreference : ExperimentalFeaturePreference := .default
  insightsHintState : InsightsHintState := .default
  voiceStagingDrafts : List VoiceParsedTaskDraft := []
  voiceSourceTranscript : String := ""
  isVoiceStagingPresented : Bool := false
  pendingSharedImportCount : ℕ := 0
  lastSharedImportError : Option String := none
  lastSharedImportProcessedAt : Option Date := none
  backend : Option FirestoreBackend := none
  suppressBackendWrites : Bool := false
  hasStoredExperimentalPreference : Bool := false
  hasStoredInsightsHintState : Bool := false
  userDefaults : UserDefaults := {}
  spawned : List Closure := []
  analytics : List AnalyticsEvent := []
  deriving DecidableEq

namespace LocalStore

variable (s : LocalStore)

/-! ## Outputs and saving -/

/-- A `Task` is spawned, to run later. -/
def spawn (closure : Closure) : LocalStore :=
  { s with spawned := s.spawned ++ [closure] }

/-- `if let backend, !suppressBackendWrites`. -/
def syncingBackend : Option FirestoreBackend :=
  if s.suppressBackendWrites then none else s.backend

/-- `if let backend, !suppressBackendWrites { _Concurrency.Task { … } }`. -/
def spawnSync (closure : FirestoreBackend → Closure) : LocalStore :=
  match s.syncingBackend with
  | some backend => s.spawn (closure backend)
  | none => s

/-- An event for the analytics. -/
def logEvent (name : String) (params : List (String × AnalyticsValue)) : LocalStore :=
  { s with analytics := s.analytics ++ [⟨name, params⟩] }

/-- The notes are saved. -/
def saveNotes : LocalStore :=
  { s with userDefaults := { s.userDefaults with notes := some s.notes } }

/-- The tasks are saved. -/
def saveTasks : LocalStore :=
  { s with userDefaults := { s.userDefaults with tasks := some s.tasks } }

/-- The categories are saved. -/
def saveCategories : LocalStore :=
  { s with userDefaults := { s.userDefaults with categories := some s.categories } }

/-- The place of the uncategorized group is saved. -/
def saveUncategorizedPosition : LocalStore :=
  { s with userDefaults :=
    { s.userDefaults with uncategorizedPosition := some s.uncategorizedPosition } }

/-- The preference is saved under its keys. -/
def saveExperimentalFeaturesPreference : LocalStore :=
  { s with
    userDefaults := { s.userDefaults with
      experimentalFeaturesEnabled := some s.experimentalFeaturesPreference.isEnabled
      experimentalFeaturesUpdatedAt :=
        some (AppDateBounds.clampedForFirestore s.experimentalFeaturesPreference.updatedAt) }
    hasStoredExperimentalPreference := true }

/-- The hint state is saved. -/
def saveInsightsHintState : LocalStore :=
  { s with
    userDefaults := { s.userDefaults with insightsHintState := some s.insightsHintState }
    hasStoredInsightsHintState := true }

/-- What is staged is saved, or its keys are removed if nothing is. -/
def saveVoiceStaging : LocalStore :=
  if s.voiceStagingDrafts.isEmpty then
    { s with userDefaults := { s.userDefaults with
      voiceStagingDrafts := none
      voiceSourceTranscript := none } }
  else
    { s with userDefaults := { s.userDefaults with
      voiceStagingDrafts := some s.voiceStagingDrafts
      voiceSourceTranscript := some s.voiceSourceTranscript } }

/-! What these helpers do to the tasks, the backend and the closures. -/

section Frame

@[simp] theorem tasks_spawn (c : Closure) : (s.spawn c).tasks = s.tasks :=
  rfl

@[simp] theorem tasks_spawnSync (c : FirestoreBackend → Closure) :
    (s.spawnSync c).tasks = s.tasks := by
  unfold spawnSync
  split <;> rfl

@[simp] theorem tasks_logEvent (n : String) (ps : List (String × AnalyticsValue)) :
    (s.logEvent n ps).tasks = s.tasks :=
  rfl

@[simp] theorem tasks_saveNotes : s.saveNotes.tasks = s.tasks :=
  rfl

@[simp] theorem tasks_saveTasks : s.saveTasks.tasks = s.tasks :=
  rfl

@[simp] theorem tasks_saveCategories : s.saveCategories.tasks = s.tasks :=
  rfl

@[simp] theorem tasks_saveUncategorizedPosition : s.saveUncategorizedPosition.tasks = s.tasks :=
  rfl

@[simp] theorem syncingBackend_spawnSync (c : FirestoreBackend → Closure) :
    (s.spawnSync c).syncingBackend = s.syncingBackend := by
  unfold spawnSync
  split <;> rfl

@[simp] theorem syncingBackend_logEvent (n : String) (ps : List (String × AnalyticsValue)) :
    (s.logEvent n ps).syncingBackend = s.syncingBackend :=
  rfl

@[simp] theorem syncingBackend_saveTasks : s.saveTasks.syncingBackend = s.syncingBackend :=
  rfl

@[simp] theorem spawned_spawn (c : Closure) : (s.spawn c).spawned = s.spawned ++ [c] :=
  rfl

/-- The closure is spawned if a backend is attached and writes are not suppressed. -/
@[simp] theorem spawned_spawnSync (c : FirestoreBackend → Closure) :
    (s.spawnSync c).spawned = s.spawned ++ (s.syncingBackend.map c).toList := by
  unfold spawnSync
  split <;> simp [*]

@[simp] theorem spawned_logEvent (n : String) (ps : List (String × AnalyticsValue)) :
    (s.logEvent n ps).spawned = s.spawned :=
  rfl

@[simp] theorem spawned_saveTasks : s.saveTasks.spawned = s.spawned :=
  rfl

end Frame

/-! ## The backend -/

/-- The user whose data the store had last. -/
def lastBackendUserId : Option String :=
  s.userDefaults.backendUserId

/-- The backend that the store writes to. -/
def attachBackend (backend : Option FirestoreBackend) : LocalStore :=
  { s with backend := backend }

/-- The user whose data the store has. -/
def updateBackendUserId (userId : Option String) : LocalStore :=
  { s with userDefaults := { s.userDefaults with backendUserId := userId } }

/-- Run `updates` with backend writes suppressed. -/
def applyRemoteUpdate (updates : LocalStore → Option LocalStore) : Option LocalStore :=
  (updates { s with suppressBackendWrites := true }).map fun s' =>
    { s' with suppressBackendWrites := s.suppressBackendWrites }

/-! ## Categories -/

/-- `categorySort` : by order, then by id. -/
def categoryPrecedes (lhs rhs : Category) : Prop :=
  lhs.order < rhs.order ∨ lhs.order = rhs.order ∧ lhs.id ≤ rhs.id

instance (lhs rhs : Category) : Decidable (categoryPrecedes lhs rhs) :=
  inferInstanceAs (Decidable (_ ∨ _ ∧ _))

/-- `categories.sorted(by: categorySort)`. -/
def sortedByCategorySort (categories : List Category) : List Category :=
  categories.insertionSort categoryPrecedes

/-- The categories in their order. -/
def sortedCategories : List Category :=
  sortedByCategorySort s.categories

/-- Between the first place and the one behind all categories. -/
def clampUncategorizedPosition (position : ℤ) (categoryCount : ℕ) : ℤ :=
  min (max position 0) (max 0 categoryCount)

/-- A place for the uncategorized group. -/
def setUncategorizedPosition (position : ℤ) : LocalStore :=
  { s with uncategorizedPosition :=
    clampUncategorizedPosition position s.categories.length }.saveUncategorizedPosition

end LocalStore

/-! ## Migration and repair -/

/-- The parent link and the override of one task, repaired against the list it is in. -/
def Task.sanitized (lookup : String → Option Task) (task : Task) : Task :=
  let sanitized := match task.parentTaskId with
    | some parentId =>
      if parentId = task.id ∨ (lookup parentId).bind Task.parentTaskId ≠ none ∨
          lookup parentId = none then
        { task with parentTaskId := none }
      else task
    | none => task
  if sanitized.parentTaskId.isSome then { sanitized with parentManualReopenAt := none }
  else sanitized

/-- One round of the task loop of `migrateIfNeeded`. -/
def Task.migrated (lookup : String → Option Task) (task : Task) : Task :=
  let task := match task.parentTaskId with
    | some parentId =>
      let parent := lookup parentId
      let parentIsTopLevel := parent.bind Task.parentTaskId = none
      if parent = none ∨ ¬parentIsTopLevel ∨ parentId = task.id then
        { task with parentTaskId := none }
      else task
    | none => task
  if task.parentTaskId.isSome && task.parentManualReopenAt.isSome then
    { task with parentManualReopenAt := none }
  else task

/-- The category with a color that can be shown. -/
def Category.normalizedColor (c : Category) : Category :=
  { c with color := CategoryColorDefaults.normalizeHexOrDefault c.color c.id }

namespace LocalStore

variable (s : LocalStore)

/-- The tasks of a snapshot, without parents that cannot be. Tasks of one id trap. -/
def sanitizeHierarchy (tasks : List Task) : Option (List Task) :=
  (uniqueKeysWithValues Task.id tasks).map fun lookup => tasks.map (Task.sanitized lookup)

/-- Default categories if there are none. -/
def migrateEmptyCategories : LocalStore :=
  if s.categories.isEmpty then { s with categories := Category.defaultCategories }.saveCategories
  else s

/-- Normalize the colors, then number the categories if every order is 0. -/
def migratedCategories (categories : List Category) : List Category :=
  let normalized := categories.map Category.normalizedColor
  if normalized.length > 1 ∧ normalized.all (fun c => c.order = 0) then
    normalized.mapIdx fun idx c => { c with order := idx }
  else normalized

/-- Clamp the position of the uncategorized group. -/
def migrateUncategorizedPosition : LocalStore :=
  let clamped := clampUncategorizedPosition s.uncategorizedPosition s.categories.length
  if clamped ≠ s.uncategorizedPosition then
    { s with uncategorizedPosition := clamped }.saveUncategorizedPosition
  else s

/-- The flags `changed` and `tasksChanged` are set where a value is written that differs
from the one before, so they are read off the lists here. -/
def migrateIfNeeded : Option LocalStore :=
  let s := s.migrateEmptyCategories
  let categories := migratedCategories s.categories
  let changed := categories ≠ s.categories
  let s := { s with categories := categories }.migrateUncategorizedPosition
  (uniqueKeysWithValues Task.id s.tasks).map fun taskLookup =>
    let tasks := s.tasks.map (Task.migrated taskLookup)
    let tasksChanged := tasks ≠ s.tasks
    let s := { s with tasks := tasks }
    let s := if changed then s.saveCategories else s
    if tasksChanged then s.saveTasks else s

/-! ## Remote data -/

/-- The reminders of a snapshot are rescheduled in a `Task`. -/
def rescheduleRemindersAfterSync (tasks : List Task) : LocalStore :=
  s.spawn (.rescheduleReminders tasks)

/-- The store takes over a fetched account. -/
def applyRemoteSnapshot (notes : List Note) (tasks : List Task) (categories : List Category) :
    Option LocalStore :=
  s.applyRemoteUpdate fun s => (sanitizeHierarchy tasks).bind fun tasks =>
    let s := { s with
      notes := notes
      tasks := tasks
      categories := sortedByCategorySort categories }
    s.saveNotes.saveTasks.saveCategories.migrateIfNeeded

/-- The store takes over fetched notes. -/
def applyRemoteNotes (notes : List Note) : Option LocalStore :=
  s.applyRemoteUpdate fun s => some { s with notes := notes }.saveNotes

/-- The store takes over fetched tasks. -/
def applyRemoteTasks (tasks : List Task) : Option LocalStore :=
  s.applyRemoteUpdate fun s => (sanitizeHierarchy tasks).map fun sanitizedTasks =>
    let s := { s with tasks := sanitizedTasks }
    s.saveTasks.rescheduleRemindersAfterSync sanitizedTasks

/-- The store takes over the place of the uncategorized group. -/
def applyRemoteUncategorizedPosition (position : ℤ) : Option LocalStore :=
  s.applyRemoteUpdate fun s => some (s.setUncategorizedPosition position)

/-- The store takes over fetched categories and migrates them. -/
def applyRemoteCategories (categories : List Category) : Option LocalStore :=
  s.applyRemoteUpdate fun s =>
    let s := { s with categories := sortedByCategorySort categories }
    s.saveCategories.migrateIfNeeded

/-- Everything of the last user goes. -/
def resetForNewUser : Option LocalStore :=
  s.applyRemoteUpdate fun s =>
    let s := { s with
      notes := []
      tasks := []
      categories := []
      uncategorizedPosition := 0
      experimentalFeaturesPreference := .default
      insightsHintState := .default
      voiceStagingDrafts := []
      voiceSourceTranscript := ""
      isVoiceStagingPresented := false
      pendingSharedImportCount := 0
      lastSharedImportError := none
      lastSharedImportProcessedAt := none
      hasStoredExperimentalPreference := false
      hasStoredInsightsHintState := false }
    let s := s.saveNotes.saveTasks.saveCategories.saveUncategorizedPosition
    let s := s.saveExperimentalFeaturesPreference.saveInsightsHintState.saveVoiceStaging
    s.migrateIfNeeded

/-! ## Metadata -/

/-- The preference waits for what the account says. -/
def beginExperimentalReconciliation : LocalStore :=
  { s with experimentalFeaturesPreference :=
    { s.experimentalFeaturesPreference with state := .pendingSyncReconcile } }

/-- The store after adopting or keeping the preference, and whether to push it. -/
def reconcileExperimentalPreference (remoteEnabled : Option Bool)
    (remoteUpdatedAt : Option Date) : LocalStore × Bool :=
  let preference := s.experimentalFeaturesPreference
  let kept := { preference with state := .ofEnabled preference.isEnabled }
  let (preference, shouldPushLocal) := match remoteEnabled, remoteUpdatedAt with
    | some enabled, some updatedAt =>
      if s.hasStoredExperimentalPreference = false then
        (⟨enabled, updatedAt, .ofEnabled enabled⟩, false)
      else if preference.updatedAt < updatedAt then
        (⟨enabled, updatedAt, .ofEnabled enabled⟩, false)
      else (kept, true)
    | _, _ => (kept, s.hasStoredExperimentalPreference)
  ({ s with experimentalFeaturesPreference := preference }.saveExperimentalFeaturesPreference,
    shouldPushLocal)

/-- The store after adopting or keeping the hint state, and whether to push it. -/
def reconcileInsightsHintState (remote : Option InsightsHintState) : LocalStore × Bool :=
  let (hint, shouldPushLocal) := match remote with
    | some remote =>
      if s.hasStoredInsightsHintState = false then (remote, false)
      else if s.insightsHintState.updatedAt < remote.updatedAt then (remote, false)
      else (s.insightsHintState, true)
    | none => (s.insightsHintState, s.hasStoredInsightsHintState)
  ({ s with insightsHintState := hint }.saveInsightsHintState, shouldPushLocal)

/-! ## Loading -/

/-- `load` of a store that has just been created, from the persisted values. -/
def load (userDefaults : UserDefaults) : LocalStore :=
  let categories := userDefaults.categories.getD []
  let preference := match userDefaults.experimentalFeaturesEnabled with
    | some enabled => ⟨enabled, AppDateBounds.clampedForFirestore
        (userDefaults.experimentalFeaturesUpdatedAt.getD AppDateBounds.metadataBaseline),
        .ofEnabled enabled⟩
    | none => .default
  let hint := match userDefaults.insightsHintState with
    | some hint => { hint with updatedAt := AppDateBounds.clampedForFirestore hint.updatedAt }
    | none => .default
  let drafts := userDefaults.voiceStagingDrafts.getD []
  { notes := userDefaults.notes.getD []
    tasks := userDefaults.tasks.getD []
    categories := if categories.isEmpty then Category.defaultCategories else categories
    uncategorizedPosition := userDefaults.uncategorizedPosition.getD 0
    experimentalFeaturesPreference := preference
    insightsHintState := hint
    voiceStagingDrafts := drafts
    voiceSourceTranscript := userDefaults.voiceSourceTranscript.getD ""
    isVoiceStagingPresented := ¬drafts.isEmpty
    hasStoredExperimentalPreference := userDefaults.experimentalFeaturesEnabled.isSome
    hasStoredInsightsHintState := userDefaults.insightsHintState.isSome
    userDefaults := userDefaults }

end LocalStore

end Notelayer
