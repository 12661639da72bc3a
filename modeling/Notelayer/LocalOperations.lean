import Notelayer.CategoryOperations
import Notelayer.Reminders

/-!
# All local operations

The operations on notes and on the metadata of the account, and `LocalOperation`, which lists
with the task operations and the category operations what the views do to the store in one
piece. `LocalOperation.step` runs one of them in a session. `setReminder` and `removeReminder`
suspend, and are steps of a `ReminderSession`. The voice staging, which no backend sees, is in
`VoiceStagingView`.

An operation, or a piece of a reminder operation, leaves the account as it is, and what it
spawns writes through the backend that is attached (`LocalOperation.keepsAccount_step`,
`ReminderStep.edits_step`).
-/

namespace Notelayer

namespace LocalStore

variable (s : LocalStore)

/-! ## Notes -/

/-- `addNote(_:)`. -/
def addNote (note : Note) : LocalStore :=
  { s with notes := s.notes ++ [note] }.saveNotes.spawnSync (.upsertNote · note)

/-- `deleteNotes(at:)`. It traps on an offset that is not in the list. -/
def deleteNotes (offsets : List ℕ) : Option LocalStore :=
  (offsets.mapM fun offset => s.notes[offset]?).map fun deletedNotes =>
    let notes := (s.notes.zipIdx.filter fun entry => entry.2 ∉ offsets).map Prod.fst
    deletedNotes.foldl (fun s note => s.spawnSync (.deleteNote · note.id))
      { s with notes := notes }.saveNotes

/-! ## Metadata -/

/-- A change by hand is stored with its time. -/
def setExperimentalFeaturesEnabled (enabled : Bool) (now : Date) : LocalStore :=
  if s.experimentalFeaturesPreference.isEnabled = enabled then s
  else
    { s with experimentalFeaturesPreference :=
      ⟨enabled, now, .ofEnabled enabled⟩ }.saveExperimentalFeaturesPreference

/-- The state is stored and saved. -/
def withInsightsHintState (state : InsightsHintState) : LocalStore :=
  { s with insightsHintState := state }.saveInsightsHintState

/-- It is up once more. -/
def markInsightsHintShown (now : Date) : LocalStore :=
  s.withInsightsHintState { s.insightsHintState with
    showCount := s.insightsHintState.showCount + 1
    lastShownAt := some now
    updatedAt := now }

/-- It was taken down once more. -/
def dismissInsightsHint (now : Date) : LocalStore :=
  s.withInsightsHintState { s.insightsHintState with
    dismissCount := s.insightsHintState.dismissCount + 1
    lastDismissedAt := some now
    updatedAt := now }

/-- The first visit of Insights. -/
def recordInsightsInteraction (now : Date) : LocalStore :=
  if s.insightsHintState.interactedAt ≠ none then s
  else s.withInsightsHintState { s.insightsHintState with
    interactedAt := some now
    updatedAt := now }

end LocalStore

/-! ## Operations of the views -/

/-- An operation of the views that runs without suspending. -/
inductive LocalOperation where
  | task (operation : Operation) (isLocal : operation.isLocal = true)
  | addNote (note : Note)
  | deleteNotes (offsets : List ℕ)
  | addCategory (category : Category)
  | updateCategory (id : String) (updates : CategoryUpdate)
  | reorderCategories (orderedIds : List String)
  | applyOnboardingPresetCategories (presetCategories : List Category)
  | setUncategorizedPosition (position : ℤ)
  | setExperimentalFeaturesEnabled (enabled : Bool)
  | markInsightsHintShown
  | dismissInsightsHint
  | recordInsightsInteraction

/-- Run an operation at the instant `e.1`. -/
def LocalOperation.step (e : Date × LocalOperation) (u : Session) : Option Session :=
  let now := e.1
  match e.2 with
  | task operation _ => Session.step (now, operation) u
  | addNote note => some (u.withStore (u.store.addNote note))
  | deleteNotes offsets => (u.store.deleteNotes offsets).map u.withStore
  | addCategory category => some (u.withStore (u.store.addCategory category))
  | updateCategory id updates => some (u.withStore (u.store.updateCategory id updates))
  | reorderCategories orderedIds => (u.store.reorderCategories orderedIds).map u.withStore
  | applyOnboardingPresetCategories presetCategories =>
    some (u.withStore (u.store.applyOnboardingPresetCategories presetCategories))
  | setUncategorizedPosition position =>
    some (u.withStore (u.store.setUncategorizedPosition position))
  | setExperimentalFeaturesEnabled enabled =>
    some (u.withStore (u.store.setExperimentalFeaturesEnabled enabled now))
  | markInsightsHintShown => some (u.withStore (u.store.markInsightsHintShown now))
  | dismissInsightsHint => some (u.withStore (u.store.dismissInsightsHint now))
  | recordInsightsInteraction => some (u.withStore (u.store.recordInsightsInteraction now))

/-! ## What every operation leaves alone -/

/-- The backend a closure writes through. -/
def Closure.backend : Closure → Option FirestoreBackend
  | upsertNote backend _ => backend
  | deleteNote backend _ => backend
  | upsertNotes backend _ => backend
  | upsertTask backend _ => backend
  | upsertTasks backend _ => backend
  | upsertStoreTasks backend => backend
  | upsertTaskAt backend _ _ => backend
  | deleteTask backend _ => backend
  | deleteCategory backend _ _ => backend
  | upsertCategory backend _ => backend
  | upsertStoreCategories backend => backend
  | cancelReminder _ => none
  | scheduleReminder _ _ _ _ => none
  | rescheduleReminders _ => none

/-- The account did not change, and new closures write through the backend that is attached. -/
structure LocalStore.KeepsAccount (s s' : LocalStore) : Prop where
  backend : s'.backend = s.backend
  lastUser : s'.lastBackendUserId = s.lastBackendUserId
  suppress : s'.suppressBackendWrites = s.suppressBackendWrites
  spawned : ∃ closures, s'.spawned = s.spawned ++ closures ∧
    ∀ closure ∈ closures, ∀ backend ∈ closure.backend, s.backend = some backend

/-- Lists and the position are replaced and saved, events are logged and closures spawned, one
after another. -/
inductive LocalStore.Edits (s : LocalStore) : LocalStore → Prop
  | refl : s.Edits s
  | notes {s' : LocalStore} (h : s.Edits s') (notes : List Note) :
    s.Edits { s' with notes := notes }.saveNotes
  | tasks {s' : LocalStore} (h : s.Edits s') (tasks : List Task) :
    s.Edits (s'.withTasks tasks).saveTasks
  | categories {s' : LocalStore} (h : s.Edits s') (categories : List Category) :
    s.Edits { s' with categories := categories }.saveCategories
  | position {s' : LocalStore} (h : s.Edits s') (position : ℤ) :
    s.Edits { s' with uncategorizedPosition := position }.saveUncategorizedPosition
  | logEvent {s' : LocalStore} (h : s.Edits s') (name : String)
    (params : List (String × AnalyticsValue)) : s.Edits (s'.logEvent name params)
  | spawn {s' : LocalStore} (h : s.Edits s') {closure : Closure} (hc : closure.backend = none) :
    s.Edits (s'.spawn closure)
  | spawnSync {s' : LocalStore} (h : s.Edits s') {f : FirestoreBackend → Closure}
    (hf : ∀ b, (f b).backend = some b) : s.Edits (s'.spawnSync f)

namespace LocalStore

variable {s s' s'' : LocalStore}

theorem KeepsAccount.refl (s : LocalStore) : s.KeepsAccount s :=
  ⟨rfl, rfl, rfl, [], (List.append_nil _).symm, by simp⟩

/-- Two changes that keep the account, one after the other. -/
theorem KeepsAccount.trans (h : s.KeepsAccount s') (h' : s'.KeepsAccount s'') :
    s.KeepsAccount s'' := by
  obtain ⟨closures, hs, hc⟩ := h.spawned
  obtain ⟨closures', hs', hc'⟩ := h'.spawned
  refine ⟨h'.backend.trans h.backend, h'.lastUser.trans h.lastUser,
    h'.suppress.trans h.suppress, closures ++ closures', ?_, fun closure hmem => ?_⟩
  · rw [hs', hs, List.append_assoc]
  · rcases List.mem_append.mp hmem with hmem | hmem
    · exact hc closure hmem
    · rw [← h.backend]
      exact hc' closure hmem

theorem KeepsAccount.syncingBackend (h : s.KeepsAccount s') :
    s'.syncingBackend = s.syncingBackend := by
  unfold LocalStore.syncingBackend
  rw [h.backend, h.suppress]

/-- Saving, logging and changing the lists. -/
theorem KeepsAccount.eq (h : s.KeepsAccount s') (hb : s''.backend = s'.backend)
    (hl : s''.lastBackendUserId = s'.lastBackendUserId)
    (hw : s''.suppressBackendWrites = s'.suppressBackendWrites)
    (hs : s''.spawned = s'.spawned) : s.KeepsAccount s'' :=
  h.trans ⟨hb, hl, hw, [], by rw [hs, List.append_nil], by simp⟩

theorem KeepsAccount.spawn (h : s.KeepsAccount s') {closure : Closure}
    (hc : closure.backend = none) : s.KeepsAccount (s'.spawn closure) := by
  refine h.trans ⟨rfl, rfl, rfl, [closure], rfl, fun c hmem => ?_⟩
  obtain rfl := List.mem_singleton.mp hmem
  rw [hc]
  exact fun b hb => absurd hb (Option.not_mem_none b)

/-- A closure goes through the backend of the account. -/
theorem KeepsAccount.spawnSync (h : s.KeepsAccount s') {f : FirestoreBackend → Closure}
    (hf : ∀ b, (f b).backend = some b) : s.KeepsAccount (s'.spawnSync f) := by
  refine h.trans ?_
  unfold LocalStore.spawnSync
  split
  · rename_i backend hb
    refine ⟨rfl, rfl, rfl, [f backend], rfl, fun c hmem b hcb => ?_⟩
    obtain rfl := List.mem_singleton.mp hmem
    rw [hf, Option.mem_some_iff] at hcb
    unfold LocalStore.syncingBackend at hb
    split_ifs at hb
    exact hb.trans (congrArg some hcb)
  · exact .refl _

theorem Edits.keepsAccount (h : s.Edits s') : s.KeepsAccount s' := by
  induction h with
  | refl => exact .refl s
  | notes _ _ ih => exact ih.eq rfl rfl rfl rfl
  | tasks _ _ ih => exact ih.eq rfl rfl rfl rfl
  | categories _ _ ih => exact ih.eq rfl rfl rfl rfl
  | position _ _ ih => exact ih.eq rfl rfl rfl rfl
  | logEvent _ _ _ ih => exact ih.eq rfl rfl rfl rfl
  | spawn _ hc ih => exact ih.spawn hc
  | spawnSync _ hf ih => exact ih.spawnSync hf

/-! ### Task operations -/

/-- A reconciliation is an edit. -/
theorem Edits.reconcileParent (h : s.Edits s') (p : Option String) (r : Bool) (now : Date) :
    s.Edits (s'.reconcileParent p r now) := by
  cases p with
  | none => exact h
  | some p =>
    change s.Edits (s'.reconcileParentCompletion p r now)
    rcases s'.reconcileParentCompletion_cases p r now with
      hs | ⟨i, old, new, closure, -, -, -, -, -, hc, hs⟩
    · rwa [hs]
    · rw [hs]
      refine (h.tasks (s'.tasks.set i new)).spawnSync fun b => ?_
      rcases hc with rfl | ⟨rfl, -⟩ <;> rfl

/-- The tasks are replaced, a parent is reconciled, and the tasks are saved. -/
theorem Edits.saveTasks_reconcileParent (h : s.Edits s') (tasks : List Task) (p : Option String)
    (r : Bool) (now : Date) : s.Edits ((s'.withTasks tasks).reconcileParent p r now).saveTasks := by
  cases p with
  | none => exact h.tasks tasks
  | some p =>
    change s.Edits ((s'.withTasks tasks).reconcileParentCompletion p r now).saveTasks
    rcases (s'.withTasks tasks).reconcileParentCompletion_cases p r now with
      hs | ⟨i, old, new, closure, -, -, -, -, -, hc, hs⟩
    · rw [hs]
      exact h.tasks tasks
    · rw [hs]
      have hspawned := (h.tasks (tasks.set i new)).spawnSync (f := closure) fun b => by
        rcases hc with rfl | ⟨rfl, -⟩ <;> rfl
      exact hspawned.tasks _

theorem Edits.logTaskCreatedAnalytics (h : s.Edits s') (t : Task) :
    s.Edits (s'.logTaskCreatedAnalytics t) := by
  unfold LocalStore.logTaskCreatedAnalytics
  dsimp only
  split_ifs
  · exact h.logEvent _ _
  · exact (h.logEvent _ _).logEvent _ _

/-- The events of an edited task are no edit of their own. -/
theorem Edits.logTaskEditedAnalytics (h : s.Edits s') (t t' : Task) :
    s.Edits (s'.logTaskEditedAnalytics t t') := by
  have hlog : ∀ (c : Prop) [Decidable c] {s₁ : LocalStore} (name : String)
      (params : List (String × AnalyticsValue)), s.Edits s₁ →
        s.Edits (if c then s₁.logEvent name params else s₁) := by
    intro c _ s₁ name params h₁
    split_ifs
    · exact h₁.logEvent _ _
    · exact h₁
  unfold LocalStore.logTaskEditedAnalytics
  dsimp only
  refine hlog _ _ _ ?_
  have hedited := hlog (t.title ≠ t'.title ∨ t.categories ≠ t'.categories ∨
    t.priority ≠ t'.priority ∨ t.dueDate ≠ t'.dueDate ∨ t.taskNotes ≠ t'.taskNotes) "task_edited" [
      ("title_changed", .bool (t.title ≠ t'.title)),
      ("categories_changed", .bool (t.categories ≠ t'.categories)),
      ("priority_changed", .bool (t.priority ≠ t'.priority)),
      ("due_date_changed", .bool (t.dueDate ≠ t'.dueDate)),
      ("notes_changed", .bool (t.taskNotes ≠ t'.taskNotes))] h
  split_ifs at hedited ⊢
  all_goals first | exact hedited.logEvent _ _ | exact hedited

theorem Edits.addTask (h : s.Edits s') (task : Task) (now : Date) :
    s.Edits (s'.addTask task now).1 := by
  unfold LocalStore.addTask
  dsimp only
  refine Edits.spawnSync (Edits.logTaskCreatedAnalytics ?_ _) fun _ => rfl
  exact h.saveTasks_reconcileParent _ _ true now

/-- A new parent is an edit. -/
theorem Edits.setParent (h : s.Edits s') (taskId : String) (parentId : Option String)
    (now : Date) : s.Edits (s'.setParent taskId parentId now) := by
  unfold LocalStore.setParent
  split
  · exact h
  · rename_i index task hentry
    split_ifs
    · exact h
    · have hmoved := h.tasks (s'.tasks.set index (s'.movedTask task parentId now))
      exact ((hmoved.reconcileParent task.parentTaskId true now).reconcileParent parentId true
        now).spawnSync fun _ => rfl

theorem Edits.spawnCancelReminder (h : s.Edits s') (n : Option String) :
    s.Edits (s'.spawnCancelReminder n) := by
  cases n with
  | none => exact h
  | some n => exact h.spawn rfl

theorem Edits.logTaskDeleted (h : s.Edits s') (t : Option Task) :
    s.Edits (s'.logTaskDeleted t) := by
  cases t with
  | none => exact h
  | some t => exact h.logEvent _ _

theorem Edits.deleteTask (h : s.Edits s') (id : String) (now : Date) :
    s.Edits (s'.deleteTask id now) := by
  unfold LocalStore.deleteTask
  dsimp only
  have hremoved := h.tasks (KeyedList.remove Task.id s'.tasks id)
  exact (((hremoved.logTaskDeleted _).spawnCancelReminder _).spawnSync fun _ => rfl).reconcileParent
    _ true now

/-- What one step keeps, a list of them keeps. -/
theorem Edits.foldl {A : Type} {f : LocalStore → A → LocalStore}
    (hf : ∀ (s' : LocalStore) a, s.Edits s' → s.Edits (f s' a)) (as : List A)
    (h : s.Edits s') : s.Edits (as.foldl f s') := by
  induction as generalizing s' with
  | nil => exact h
  | cons a as ih => exact ih (hf s' a h)

/-- The deletion of a parent is an edit. -/
theorem Edits.deleteParentTask (h : s.Edits s') (id : String)
    (strategy : ParentTaskDeletionStrategy) (now : Date) :
    s.Edits (s'.deleteParentTask id strategy now) := by
  unfold LocalStore.deleteParentTask
  split_ifs
  · cases strategy with
    | deleteSubtasks =>
      exact (h.foldl (fun s₁ childId h₁ => h₁.deleteTask childId now) _).deleteTask id now
    | detachSubtasks =>
      exact (h.foldl (fun s₁ childId h₁ => h₁.setParent childId none now) _).deleteTask id now
  · exact h.deleteTask id now

theorem Edits.addSubtask (h : s.Edits s') (parentId title : String) (priority : Priority)
    (id : String) (now : Date) : s.Edits (s'.addSubtask parentId title priority id now).1 := by
  rcases s'.addSubtask_cases parentId title priority id now with hs | ⟨task, -, hs⟩
  · rwa [hs]
  · rw [hs]
    exact h.addTask task now

theorem Edits.updateTask (h : s.Edits s') (id : String) (updates : TaskUpdate) (now : Date) :
    s.Edits (s'.updateTask id updates now) := by
  unfold LocalStore.updateTask
  split
  · exact h
  · rename_i index oldTask hentry
    have hsaved := h.tasks (s'.tasks.set index (updates.applied oldTask now))
    exact (hsaved.logTaskEditedAnalytics _ _).spawnSync fun _ => rfl

/-- A completion is an edit. -/
theorem Edits.completeTask (h : s.Edits s') (id : String) (now : Date) :
    s.Edits (s'.completeTask id now) := by
  unfold LocalStore.completeTask
  split
  · exact h
  · rename_i index oldTask hentry
    have hlogged := (h.tasks (s'.tasks.set index (oldTask.completed now))).logEvent
      "task_completed" [
        ("completion_latency_s", .int (max 0 (now.roundedSecondsSince oldTask.createdAt))),
        ("category_count", .int oldTask.categories.length),
        ("priority", .string oldTask.priority.rawValue),
        ("had_due_date", .bool oldTask.dueDate.isSome),
        ("had_reminder", .bool oldTask.reminderDate.isSome),
        ("category_ids_csv", .string (joinedByComma oldTask.categories))]
    exact ((hlogged.spawnCancelReminder _).spawnSync fun _ => rfl).reconcileParent _ false now

/-- A restoration is an edit. -/
theorem Edits.restoreTask (h : s.Edits s') (id : String) (now : Date) :
    s.Edits (s'.restoreTask id now) := by
  unfold LocalStore.restoreTask
  split
  · exact h
  · rename_i index oldTask hentry
    dsimp only
    have hreminder : s.Edits (s'.restoreReminder oldTask
        (oldTask.reopened (s'.subtaskCount oldTask.id) now) now).1 := by
      rcases s'.restoreReminder_cases oldTask (oldTask.reopened (s'.subtaskCount oldTask.id) now)
        now with ⟨closure, date, cs, n, rfl, hr⟩ | ⟨date, n, hr⟩
      · rw [hr]
        exact h.spawn rfl
      · rwa [hr]
    refine Edits.reconcileParent (Edits.spawnSync ?_ fun _ => rfl) _ true now
    exact (hreminder.tasks _).logEvent _ _

theorem Edits.reorderTasks (h : s.Edits s') {orderedIds : List String} {now : Date}
    (hs : s'.reorderTasks orderedIds now = some s'') : s.Edits s'' := by
  obtain ⟨taskMap, -, rfl⟩ := Option.map_eq_some_iff.mp hs
  exact ((h.tasks _).logEvent _ _).spawnSync fun _ => rfl

/-- The deletion of a category is an edit. -/
theorem Edits.deleteCategory (h : s.Edits s') (id : String) (replacementId : Option String)
    (now : Date) : s.Edits (s'.deleteCategory id replacementId now) := by
  have hupdated : s.Edits (s'.updateTasksForCategoryRemoval id
      (s'.resolvedReplacementId id replacementId) now).1 := by
    unfold LocalStore.updateTasksForCategoryRemoval
    dsimp only
    split_ifs with hnone
    · -- no task has the category, so the list is the one before
      have hsame : s'.tasks.map (withoutCategoryIf id (s'.resolvedReplacementId id replacementId)
          now) = s'.tasks := by
        refine (List.map_congr_left fun t ht => ?_).trans (List.map_id _)
        have hempty : s'.tasks.filter (fun t => id ∈ t.categories) = [] :=
          List.map_eq_nil_iff.mp (List.isEmpty_iff.mp hnone)
        have hnot := List.filter_eq_nil_iff.mp hempty t ht
        exact if_neg (by simpa using hnot)
      rw [hsame]
      exact h
    · exact h.tasks _
  unfold LocalStore.deleteCategory
  dsimp only
  refine Edits.logEvent (Edits.spawnSync ?_ fun _ => rfl) _ _
  split_ifs <;> exact (hupdated.categories _).position _

theorem Edits.importNotes (h : s.Edits s') (notes : List Note) : s.Edits (s'.importNotes notes) :=
  (h.notes _).spawnSync fun _ => rfl

theorem Edits.importTasks (h : s.Edits s') (tasks : List Task) (now : Date) :
    s.Edits (s'.importTasks tasks now) := by
  unfold LocalStore.importTasks
  refine Edits.spawnSync (Edits.foldl ?_ _ (h.tasks _)) fun _ => rfl
  exact fun s₁ t h₁ => h₁.logTaskCreatedAnalytics t

theorem Edits.applySharedImports (h : s.Edits s') (notes : List Note) (tasks : List Task)
    (now : Date) : s.Edits (s'.applySharedImports notes tasks now) := by
  unfold LocalStore.applySharedImports
  dsimp only
  split_ifs
  · exact h
  · exact h.importNotes notes
  · exact h.importTasks tasks now
  · exact (h.importNotes notes).importTasks tasks now

/-! ### Notes and categories -/

theorem Edits.addNote (h : s.Edits s') (note : Note) : s.Edits (s'.addNote note) :=
  (h.notes _).spawnSync fun _ => rfl

theorem Edits.deleteNotes (h : s.Edits s') {offsets : List ℕ}
    (hs : s'.deleteNotes offsets = some s'') : s.Edits s'' := by
  obtain ⟨deletedNotes, -, rfl⟩ := Option.map_eq_some_iff.mp hs
  refine Edits.foldl ?_ _ (h.notes _)
  exact fun s₁ note h₁ => h₁.spawnSync fun _ => rfl

theorem Edits.addCategory (h : s.Edits s') (category : Category) :
    s.Edits (s'.addCategory category) :=
  (((h.categories _).position _).logEvent _ _).spawnSync fun _ => rfl

/-- The update of a category is an edit. -/
theorem Edits.updateCategory (h : s.Edits s') (id : String) (updates : CategoryUpdate) :
    s.Edits (s'.updateCategory id updates) := by
  unfold LocalStore.updateCategory
  split
  · exact h
  · split
    · exact h
    · refine Edits.spawnSync ?_ fun _ => rfl
      split_ifs
      · exact (h.categories _).logEvent _ _
      · exact h.categories _

theorem Edits.reorderCategories (h : s.Edits s') {orderedIds : List String}
    (hs : s'.reorderCategories orderedIds = some s'') : s.Edits s'' := by
  obtain ⟨categoryMap, -, rfl⟩ := Option.map_eq_some_iff.mp hs
  exact ((h.categories _).logEvent _ _).spawnSync fun _ => rfl

theorem Edits.applyOnboardingPresetCategories (h : s.Edits s') (presetCategories : List Category) :
    s.Edits (s'.applyOnboardingPresetCategories presetCategories) :=
  ((h.categories _).position _).spawnSync fun _ => rfl

end LocalStore

open LocalStore

/-- A local task operation edits the lists. -/
theorem edits_sessionStep {e : Date × Operation} (hlocal : e.2.isLocal = true)
    {u u' : Session} (h : Session.step e u = some u') : u.store.Edits u'.store := by
  obtain ⟨now, op⟩ := e
  have hrefl := @Edits.refl u.store
  cases op with
  | addTask task =>
    obtain rfl := Option.some_inj.mp h
    exact hrefl.addTask task now
  | addSubtask parentId title priority id =>
    obtain rfl := Option.some_inj.mp h
    exact hrefl.addSubtask parentId title priority id now
  | setParent taskId parentId =>
    obtain rfl := Option.some_inj.mp h
    exact hrefl.setParent taskId parentId now
  | updateTask id updates =>
    obtain rfl := Option.some_inj.mp h
    exact hrefl.updateTask id updates now
  | completeTask id =>
    obtain rfl := Option.some_inj.mp h
    exact hrefl.completeTask id now
  | restoreTask id =>
    obtain rfl := Option.some_inj.mp h
    exact hrefl.restoreTask id now
  | deleteTask id =>
    obtain rfl := Option.some_inj.mp h
    exact hrefl.deleteTask id now
  | deleteTaskUndoably id =>
    obtain rfl := Option.some_inj.mp h
    unfold Session.deleteTaskUndoably
    split
    · exact hrefl
    · exact hrefl.deleteTask id now
  | undo =>
    obtain rfl := Option.some_inj.mp h
    unfold Session.undo
    split
    · exact hrefl
    · exact hrefl.addTask _ now
  | redo =>
    obtain rfl := Option.some_inj.mp h
    unfold Session.redo
    split
    · exact hrefl
    · exact hrefl.deleteTask _ now
  | deleteParentTask id strategy =>
    obtain rfl := Option.some_inj.mp h
    exact hrefl.deleteParentTask id strategy now
  | reorderTasks orderedIds =>
    obtain ⟨s', hs', rfl⟩ := Option.map_eq_some_iff.mp h
    exact hrefl.reorderTasks hs'
  | deleteCategory id replacementId =>
    obtain rfl := Option.some_inj.mp h
    exact hrefl.deleteCategory id replacementId now
  | applySharedImports notes tasks =>
    obtain rfl := Option.some_inj.mp h
    exact hrefl.applySharedImports notes tasks now
  | applyRemoteTasks tasks => cases hlocal
  | applyRemoteSnapshot notes tasks categories => cases hlocal

/-! ### Reminder operations -/

theorem LocalStore.Edits.finishReminder {s s' : LocalStore} {index : ℕ} {task : Task}
    {f : LocalStore → LocalStore} (h : (s.assignTask index task).map f = some s')
    (hf : ∀ s' : LocalStore, s.Edits s'.saveTasks → s.Edits (f s')) : s.Edits s' := by
  obtain ⟨s₁, h₁, rfl⟩ := Option.map_eq_some_iff.mp h
  unfold assignTask at h₁
  split_ifs at h₁
  obtain rfl := Option.some_inj.mp h₁
  exact hf _ (Edits.refl.tasks (s.tasks.set index task))

theorem LocalStore.edits_finishSetReminder {s s' : LocalStore} {index : ℕ} {task : Task}
    {date : Date} {notificationId : String} {now : Date}
    (h : s.finishSetReminder index task date notificationId now = some s') : s.Edits s' :=
  Edits.finishReminder h fun _ h₁ => ((h₁.logEvent _ _).logEvent _ _).spawnSync fun _ => rfl

theorem LocalStore.edits_finishRemoveReminder {s s' : LocalStore} {index : ℕ} {task : Task}
    {now : Date} (h : s.finishRemoveReminder index task now = some s') : s.Edits s' :=
  Edits.finishReminder h fun _ h₁ => ((h₁.logEvent _ _).logEvent _ _).spawnSync fun _ => rfl

/-- A piece of a reminder operation edits the lists. -/
theorem ReminderStep.edits_step {e : Date × ReminderStep} (hr : e.2.isReminder = true)
    {r r' : ReminderSession} (h : ReminderSession.step e r = some r') :
    r.session.store.Edits r'.session.store := by
  obtain ⟨now, step⟩ := e
  have hrefl := @Edits.refl r.session.store
  cases step with
  | operation operation => cases hr
  | resetForNewUser => cases hr
  | setReminder taskId date notificationId =>
    obtain rfl := Option.some_inj.mp h
    change r.session.store.Edits (r.setReminder taskId date notificationId).session.store
    unfold ReminderSession.setReminder
    split
    · exact hrefl
    · split_ifs <;> exact hrefl
  | removeReminder taskId =>
    change r.removeReminder taskId now = some r' at h
    unfold ReminderSession.removeReminder at h
    split at h
    · obtain rfl := Option.some_inj.mp h
      exact hrefl
    · split_ifs at h
      · obtain rfl := Option.some_inj.mp h
        exact hrefl
      · obtain ⟨s', hs', rfl⟩ := Option.map_eq_some_iff.mp h
        exact edits_finishRemoveReminder hs'
  | resume k notificationId throwing =>
    change r.resume k notificationId throwing now = some r' at h
    unfold ReminderSession.resume at h
    split at h
    · obtain rfl := Option.some_inj.mp h
      exact hrefl
    · split at h
      · obtain rfl := Option.some_inj.mp h
        exact hrefl
      · split_ifs at h
        · obtain rfl := Option.some_inj.mp h
          exact hrefl
        · obtain ⟨s', hs', rfl⟩ := Option.map_eq_some_iff.mp h
          exact edits_finishSetReminder hs'
      · obtain ⟨s', hs', rfl⟩ := Option.map_eq_some_iff.mp h
        exact edits_finishRemoveReminder hs'

/-! ### Operations of the views -/

/-- The operation is on the metadata of the account, the position apart. -/
def LocalOperation.isMetadata : LocalOperation → Bool
  | setExperimentalFeaturesEnabled _ => true
  | markInsightsHintShown => true
  | dismissInsightsHint => true
  | recordInsightsInteraction => true
  | _ => false

/-- Every operation that sets no metadata is an edit. -/
theorem LocalOperation.edits_step {e : Date × LocalOperation} (hm : e.2.isMetadata = false)
    {u u' : Session} (h : LocalOperation.step e u = some u') : u.store.Edits u'.store := by
  obtain ⟨now, op⟩ := e
  have hrefl := @Edits.refl u.store
  cases op with
  | task operation isLocal => exact edits_sessionStep isLocal h
  | addNote note =>
    obtain rfl := Option.some_inj.mp h
    exact hrefl.addNote note
  | deleteNotes offsets =>
    obtain ⟨s', hs', rfl⟩ := Option.map_eq_some_iff.mp h
    exact hrefl.deleteNotes hs'
  | addCategory category =>
    obtain rfl := Option.some_inj.mp h
    exact hrefl.addCategory category
  | updateCategory id updates =>
    obtain rfl := Option.some_inj.mp h
    exact hrefl.updateCategory id updates
  | reorderCategories orderedIds =>
    obtain ⟨s', hs', rfl⟩ := Option.map_eq_some_iff.mp h
    exact hrefl.reorderCategories hs'
  | applyOnboardingPresetCategories presetCategories =>
    obtain rfl := Option.some_inj.mp h
    exact hrefl.applyOnboardingPresetCategories presetCategories
  | setUncategorizedPosition position =>
    obtain rfl := Option.some_inj.mp h
    exact hrefl.position _
  | setExperimentalFeaturesEnabled enabled => cases hm
  | markInsightsHintShown => cases hm
  | dismissInsightsHint => cases hm
  | recordInsightsInteraction => cases hm

/-- Every local operation keeps the account. -/
theorem LocalOperation.keepsAccount_step {e : Date × LocalOperation} {u u' : Session}
    (h : LocalOperation.step e u = some u') : u.store.KeepsAccount u'.store := by
  rcases Bool.eq_false_or_eq_true e.2.isMetadata with hm | hm
  · obtain ⟨now, op⟩ := e
    have hrefl := KeepsAccount.refl u.store
    cases op with
    | setExperimentalFeaturesEnabled enabled =>
      obtain rfl := Option.some_inj.mp h
      change u.store.KeepsAccount (u.store.setExperimentalFeaturesEnabled enabled now)
      unfold LocalStore.setExperimentalFeaturesEnabled
      split_ifs
      · exact hrefl
      · exact hrefl.eq rfl rfl rfl rfl
    | markInsightsHintShown =>
      obtain rfl := Option.some_inj.mp h
      exact hrefl.eq rfl rfl rfl rfl
    | dismissInsightsHint =>
      obtain rfl := Option.some_inj.mp h
      exact hrefl.eq rfl rfl rfl rfl
    | recordInsightsInteraction =>
      obtain rfl := Option.some_inj.mp h
      change u.store.KeepsAccount (u.store.recordInsightsInteraction now)
      unfold LocalStore.recordInsightsInteraction
      split_ifs
      · exact hrefl
      · exact hrefl.eq rfl rfl rfl rfl
    | _ => cases hm
  · exact (LocalOperation.edits_step hm h).keepsAccount

end Notelayer
