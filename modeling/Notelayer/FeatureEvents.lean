import Notelayer.AnalyticsService
import Notelayer.LocalOperations
import Notelayer.Reminders

/-!
# The events of the store

Every operation of the store logs what it did under the name of an event. `Logs` says which of
the ten counted features the events of a piece of code stand for, and
`FeatureStep.logs_step` that each step of the app logs the events of the calls that succeed in it,
for every branch of every operation. A completed `setReminder` or `removeReminder` logs two
events, and both names are mapped to the one feature.
-/

namespace Notelayer

open AnalyticsService

/-! ## Calls that are counted -/

/-- A function of the store that Insights counts the calls of. -/
inductive FeatureCall where
  | addTask
  | completeTask
  | restoreTask
  | deleteTask
  | reorderTasks
  | setReminder
  | removeReminder
  | addCategory
  | deleteCategory
  | reorderCategories
  deriving DecidableEq

namespace FeatureCall

/-- The ten features. -/
def allCases : List FeatureCall :=
  [addTask, completeTask, restoreTask, deleteTask, reorderTasks, setReminder, removeReminder,
    addCategory, deleteCategory, reorderCategories]

/-- The title that the count is shown under. -/
def title : FeatureCall → String
  | addTask => "Tasks Created"
  | completeTask => "Tasks Completed"
  | restoreTask => "Completed Tasks Reopened"
  | deleteTask => "Tasks Deleted"
  | reorderTasks => "Task Reorders"
  | setReminder => "Reminders Added"
  | removeReminder => "Reminders Removed"
  | addCategory => "Categories Created"
  | deleteCategory => "Categories Deleted"
  | reorderCategories => "Category Reorders"

/-- The events that a call logs when it succeeds. -/
def eventNames : FeatureCall → List String
  | addTask => ["task_created"]
  | completeTask => ["task_completed"]
  | restoreTask => ["task_restored"]
  | deleteTask => ["task_deleted"]
  | reorderTasks => ["task_reordered"]
  | setReminder => ["task_reminder_set", "reminder_scheduled"]
  | removeReminder => ["task_reminder_cleared", "reminder_cleared"]
  | addCategory => ["category_created"]
  | deleteCategory => ["category_deleted"]
  | reorderCategories => ["category_reordered"]

/-- The feature that these events are mapped to. -/
def featureKey : FeatureCall → String
  | addTask => "task_create"
  | completeTask => "task_complete"
  | restoreTask => "task_restore"
  | deleteTask => "task_delete"
  | reorderTasks => "task_reorder"
  | setReminder => "reminder_set"
  | removeReminder => "reminder_cleared"
  | addCategory => "category_create"
  | deleteCategory => "category_delete"
  | reorderCategories => "category_reorder"

theorem mem_allCases (call : FeatureCall) : call ∈ allCases := by
  cases call <;> decide

theorem featureKey_inj {call call' : FeatureCall} (h : call.featureKey = call'.featureKey) :
    call = call' := by
  revert h
  cases call <;> cases call' <;> decide

/-- The events of a call are all mapped to its feature. -/
theorem featureKey_of_mem_eventNames {call : FeatureCall} {name : String}
    (h : name ∈ call.eventNames) (viewName : Option String) :
    AnalyticsService.featureKey name viewName = call.featureKey := by
  cases call <;> simp only [eventNames, List.mem_cons, List.not_mem_nil, or_false] at h
  case setReminder => rcases h with rfl | rfl <;> rfl
  case removeReminder => rcases h with rfl | rfl <;> rfl
  all_goals
    subst h
    rfl

/-- Only the calls for reminders log two events. -/
theorem length_eventNames (call : FeatureCall) :
    call.eventNames.length = if call = setReminder ∨ call = removeReminder then 2 else 1 := by
  cases call <;> rfl

end FeatureCall

/-- The events of the ten features. -/
def countedNames : List String :=
  FeatureCall.allCases.flatMap FeatureCall.eventNames

/-- The other events of the store. -/
def otherNames : List String :=
  ["task_edited", "task_due_date_set", "task_due_date_cleared", "category_assigned_to_task",
    "category_renamed"]

theorem mem_countedNames {name : String} :
    name ∈ countedNames ↔ ∃ call : FeatureCall, name ∈ call.eventNames := by
  simp [countedNames, FeatureCall.mem_allCases]

/-- The features of the other events. -/
def otherFeatures : List String :=
  ["task_edit", "due_date_set", "due_date_cleared", "category_assign", "category_rename"]

theorem featureKey_mem_otherFeatures {name : String} (h : name ∈ otherNames)
    (viewName : Option String) : AnalyticsService.featureKey name viewName ∈ otherFeatures := by
  have hfeatures : otherNames.map (AnalyticsService.featureKey · viewName) = otherFeatures := rfl
  rw [← hfeatures]
  exact List.mem_map_of_mem (f := (AnalyticsService.featureKey · viewName)) h

/-- The other events are mapped to other features. -/
theorem featureKey_ne_of_mem_otherNames {name : String} (h : name ∈ otherNames)
    (viewName : Option String) (call : FeatureCall) :
    AnalyticsService.featureKey name viewName ≠ call.featureKey := by
  have hother : call.featureKey ∉ otherFeatures := by
    cases call <;> decide
  exact fun heq => hother (heq ▸ featureKey_mem_otherFeatures h viewName)

/-! ## What is logged -/

/-- The names of the events that are counted, in order. -/
def countedEvents (events : List AnalyticsEvent) : List String :=
  (events.map AnalyticsEvent.name).filter (· ∈ countedNames)

@[simp] theorem countedEvents_nil : countedEvents [] = [] :=
  rfl

@[simp] theorem countedEvents_append (events events' : List AnalyticsEvent) :
    countedEvents (events ++ events') = countedEvents events ++ countedEvents events' := by
  simp [countedEvents]

/-- From the first store to the second, the events of the calls were logged, and other events
of the store. -/
def LocalStore.Logs (s s' : LocalStore) (calls : List FeatureCall) : Prop :=
  ∃ events, s'.analytics = s.analytics ++ events ∧
    (∀ e ∈ events, e.name ∈ countedNames ∨ e.name ∈ otherNames) ∧
    countedEvents events = calls.flatMap FeatureCall.eventNames

namespace LocalStore

variable {s s' s'' : LocalStore} {calls calls' : List FeatureCall}

theorem Logs.of_eq (h : s'.analytics = s.analytics) : s.Logs s' [] :=
  ⟨[], by simpa using h, nofun, rfl⟩

theorem Logs.refl (s : LocalStore) : s.Logs s [] :=
  .of_eq rfl

theorem Logs.trans (h : s.Logs s' calls) (h' : s'.Logs s'' calls') :
    s.Logs s'' (calls ++ calls') := by
  obtain ⟨events, hs, hnames, hcounted⟩ := h
  obtain ⟨events', hs', hnames', hcounted'⟩ := h'
  refine ⟨events ++ events', ?_, ?_, ?_⟩
  · rw [hs', hs, List.append_assoc]
  · intro e he
    exact (List.mem_append.mp he).elim (hnames e) (hnames' e)
  · rw [countedEvents_append, hcounted, hcounted', List.flatMap_append]

/-- Code that logs nothing, before. -/
theorem Logs.after (h : s'.Logs s'' calls) (hs' : s'.analytics = s.analytics) :
    s.Logs s'' calls :=
  (Logs.of_eq hs').trans h

/-- The one event of a call. -/
theorem logs_logEvent {call : FeatureCall} {name : String} (h : call.eventNames = [name])
    (hs' : s'.analytics = s.analytics) (params : List (String × AnalyticsValue)) :
    s.Logs (s'.logEvent name params) [call] := by
  have hcounted : name ∈ countedNames := mem_countedNames.mpr ⟨call, by simp [h]⟩
  refine ⟨[⟨name, params⟩], by rw [← hs']; rfl, ?_, ?_⟩
  · simpa using Or.inl hcounted
  · simp [countedEvents, hcounted, h]

/-- An event of another name adds no call. -/
theorem Logs.other (h : s.Logs s' calls) {name : String} (hname : name ∈ otherNames)
    (params : List (String × AnalyticsValue)) : s.Logs (s'.logEvent name params) calls := by
  have hcounted : name ∉ countedNames := by
    intro hmem
    obtain ⟨call, hcall⟩ := mem_countedNames.mp hmem
    exact featureKey_ne_of_mem_otherNames hname none call
      (FeatureCall.featureKey_of_mem_eventNames hcall none)
  have hlogged : s'.Logs (s'.logEvent name params) [] := by
    refine ⟨[⟨name, params⟩], rfl, ?_, ?_⟩
    · simpa using Or.inr hname
    · simp [countedEvents, hcounted]
  simpa using h.trans hlogged

/-! ## Operations on tasks -/

section Frame

variable (s : LocalStore)

@[simp] theorem analytics_spawn (closure : Closure) : (s.spawn closure).analytics = s.analytics :=
  rfl

@[simp] theorem analytics_spawnSync (closure : FirestoreBackend → Closure) :
    (s.spawnSync closure).analytics = s.analytics := by
  unfold spawnSync
  split <;> rfl

@[simp] theorem analytics_spawnCancelReminder (notificationId : Option String) :
    (s.spawnCancelReminder notificationId).analytics = s.analytics := by
  cases notificationId <;> rfl

@[simp] theorem analytics_withTasks (tasks : List Task) :
    (s.withTasks tasks).analytics = s.analytics :=
  rfl

@[simp] theorem analytics_setTask (index : ℕ) (task : Task) :
    (s.setTask index task).analytics = s.analytics :=
  rfl

@[simp] theorem analytics_saveTasks : s.saveTasks.analytics = s.analytics :=
  rfl

/-- A reconciliation logs nothing. -/
@[simp] theorem analytics_reconcileParent (parentId : Option String)
    (resetManualOverride : Bool) (now : Date) :
    (s.reconcileParent parentId resetManualOverride now).analytics = s.analytics := by
  cases parentId with
  | none => rfl
  | some parentId =>
    unfold reconcileParent reconcileParentCompletion
    dsimp only
    split
    · rfl
    · split_ifs <;> simp

end Frame

/-- Code that logs nothing, afterwards. -/
theorem logs_iff_of_eq (h : s''.analytics = s'.analytics) :
    s.Logs s'' calls ↔ s.Logs s' calls := by
  unfold Logs
  rw [h]

@[simp] theorem logs_spawnSync (closure : FirestoreBackend → Closure) :
    s.Logs (s'.spawnSync closure) calls ↔ s.Logs s' calls :=
  logs_iff_of_eq (analytics_spawnSync s' closure)

@[simp] theorem logs_spawnCancelReminder (notificationId : Option String) :
    s.Logs (s'.spawnCancelReminder notificationId) calls ↔ s.Logs s' calls :=
  logs_iff_of_eq (analytics_spawnCancelReminder s' notificationId)

@[simp] theorem logs_reconcileParent (parentId : Option String) (resetManualOverride : Bool)
    (now : Date) :
    s.Logs (s'.reconcileParent parentId resetManualOverride now) calls ↔ s.Logs s' calls :=
  logs_iff_of_eq (analytics_reconcileParent s' parentId resetManualOverride now)

variable (s)

theorem logs_logTaskCreatedAnalytics (task : Task) :
    s.Logs (s.logTaskCreatedAnalytics task) [.addTask] := by
  unfold logTaskCreatedAnalytics
  dsimp only
  split_ifs
  · exact logs_logEvent rfl rfl _
  · exact (logs_logEvent rfl rfl _).other (by decide) _

theorem logs_addTask (task : Task) (now : Date) : s.Logs (s.addTask task now).1 [.addTask] := by
  unfold addTask
  dsimp only
  rw [logs_spawnSync]
  exact (logs_logTaskCreatedAnalytics _ _).after (by simp)

/-- `addSubtask` adds a task if it returns an id. -/
theorem logs_addSubtask (parentId title : String) (priority : Priority) (id : String)
    (now : Date) : s.Logs (s.addSubtask parentId title priority id now).1
      (if (s.addSubtask parentId title priority id now).2.isSome then [.addTask] else []) := by
  unfold addSubtask
  split
  · exact .refl s
  · by_cases hempty : (trimmed title).isEmpty
    · simp only [hempty, if_true]
      exact .refl s
    · simp only [hempty]
      exact s.logs_addTask _ now

theorem analytics_setParent (taskId : String) (parentId : Option String) (now : Date) :
    (s.setParent taskId parentId now).analytics = s.analytics := by
  unfold setParent
  split
  · rfl
  · split_ifs <;> simp

theorem logs_logTaskEditedAnalytics (oldTask task : Task) :
    s.Logs (s.logTaskEditedAnalytics oldTask task) [] := by
  unfold logTaskEditedAnalytics
  dsimp only
  split_ifs
  all_goals
    repeat first | exact .refl s | refine Logs.other ?_ (by decide) _

theorem logs_updateTask (id : String) (updates : TaskUpdate) (now : Date) :
    s.Logs (s.updateTask id updates now) [] := by
  unfold updateTask
  split
  · exact .refl s
  · rw [logs_spawnSync]
    exact (logs_logTaskEditedAnalytics _ _ _).after rfl

/-- `deleteTask` of a task that exists. -/
def deleteCalls (id : String) : List FeatureCall :=
  if (taskWithId s.tasks id).isSome then [.deleteTask] else []

/-- A deletion logs its call where it finds the task. -/
theorem logs_deleteTask (id : String) (now : Date) :
    s.Logs (s.deleteTask id now) (s.deleteCalls id) := by
  have hlogs : ∀ s₁ : LocalStore, s₁.Logs (s₁.logTaskDeleted (taskWithId s.tasks id))
      (s.deleteCalls id) := by
    intro s₁
    unfold deleteCalls logTaskDeleted
    cases taskWithId s.tasks id with
    | none => exact .refl s₁
    | some task => exact logs_logEvent rfl rfl _
  unfold deleteTask
  simp only [logs_reconcileParent, logs_spawnSync, logs_spawnCancelReminder]
  exact (hlogs _).after rfl

/-- The calls of `deleteTask` for several tasks, one after another. -/
def deleteAllCalls (now : Date) : List String → LocalStore → List FeatureCall
  | [], _ => []
  | id :: ids, s => s.deleteCalls id ++ deleteAllCalls now ids (s.deleteTask id now)

theorem logs_foldl_deleteTask (ids : List String) (now : Date) :
    s.Logs (ids.foldl (fun s id => s.deleteTask id now) s) (deleteAllCalls now ids s) := by
  induction ids generalizing s with
  | nil => exact .refl s
  | cons id ids ih => exact (s.logs_deleteTask id now).trans (ih _)

theorem analytics_foldl_setParent (ids : List String) (now : Date) :
    (ids.foldl (fun s id => s.setParent id none now) s).analytics = s.analytics := by
  induction ids generalizing s with
  | nil => rfl
  | cons id ids ih => rw [List.foldl_cons, ih, analytics_setParent]

/-- The calls of `deleteTask` in `deleteParentTask`. -/
def deleteParentCalls (id : String) (strategy : ParentTaskDeletionStrategy) (now : Date) :
    List FeatureCall :=
  if s.hasSubtasks id then
    let childIds := (s.subtasks id none).map Task.id
    match strategy with
    | .deleteSubtasks => deleteAllCalls now (childIds ++ [id]) s
    | .detachSubtasks =>
      (childIds.foldl (fun s childId => s.setParent childId none now) s).deleteCalls id
  else s.deleteCalls id

/-- The deletion of a parent logs that of the tasks it deletes. -/
theorem logs_deleteParentTask (id : String) (strategy : ParentTaskDeletionStrategy)
    (now : Date) :
    s.Logs (s.deleteParentTask id strategy now) (s.deleteParentCalls id strategy now) := by
  unfold deleteParentTask deleteParentCalls
  split_ifs
  · cases strategy with
    | deleteSubtasks =>
      have hall := s.logs_foldl_deleteTask ((s.subtasks id none).map Task.id ++ [id]) now
      rwa [List.foldl_append] at hall
    | detachSubtasks =>
      exact (logs_deleteTask _ id now).after (analytics_foldl_setParent _ _ _)
  · exact s.logs_deleteTask id now

/-- A call that finds its task. -/
def callsIfFound (call : FeatureCall) (id : String) : List FeatureCall :=
  if (firstEntry s.tasks fun t => t.id = id).isSome then [call] else []

/-- A completion logs its call where it finds the task. -/
theorem logs_completeTask (id : String) (now : Date) :
    s.Logs (s.completeTask id now) (s.callsIfFound .completeTask id) := by
  unfold completeTask callsIfFound
  split
  · rename_i hnone
    rw [hnone]
    exact .refl s
  · rename_i index oldTask hfound
    rw [hfound]
    simp only [logs_reconcileParent, logs_spawnSync, logs_spawnCancelReminder]
    exact logs_logEvent rfl rfl _

/-- A restoration logs its call where it finds the task. -/
theorem logs_restoreTask (id : String) (now : Date) :
    s.Logs (s.restoreTask id now) (s.callsIfFound .restoreTask id) := by
  have hreminder : ∀ oldTask task, (s.restoreReminder oldTask task now).1.analytics =
      s.analytics := by
    intro oldTask task
    rcases s.restoreReminder_cases oldTask task now with
      ⟨_, _, _, _, -, heq⟩ | ⟨_, _, heq⟩
    · exact congrArg (fun result => result.1.analytics) heq
    · exact congrArg (fun result => result.1.analytics) heq
  unfold restoreTask callsIfFound
  split
  · rename_i hnone
    rw [hnone]
    exact .refl s
  · rename_i index oldTask hfound
    rw [hfound]
    simp only [logs_reconcileParent, logs_spawnSync]
    exact logs_logEvent rfl (hreminder _ _) _

theorem logs_reorderTasks {orderedIds : List String} {now : Date} {s' : LocalStore}
    (h : s.reorderTasks orderedIds now = some s') : s.Logs s' [.reorderTasks] := by
  obtain ⟨taskMap, -, rfl⟩ := Option.map_eq_some_iff.mp h
  dsimp only
  rw [logs_spawnSync]
  exact logs_logEvent rfl rfl _

/-- An import logs an addition for each task. -/
theorem logs_importTasks (tasks : List Task) (now : Date) :
    s.Logs (s.importTasks tasks now) (tasks.map fun _ => .addTask) := by
  have hall : ∀ (prepared : List Task) (s₁ : LocalStore),
      s₁.Logs (prepared.foldl logTaskCreatedAnalytics s₁)
        (prepared.map fun _ => FeatureCall.addTask) := by
    intro prepared
    induction prepared with
    | nil => exact fun s₁ => .refl s₁
    | cons task prepared ih =>
      exact fun s₁ => (s₁.logs_logTaskCreatedAnalytics task).trans (ih _)
  have hlength : (s.preparedTasks tasks now).length = tasks.length := by
    simp [preparedTasks]
  unfold importTasks
  dsimp only
  rw [logs_spawnSync, List.map_const', ← hlength, ← List.map_const']
  exact (hall _ _).after rfl

/-- A pass logs an addition for each imported task. -/
theorem logs_applySharedImports (notes : List Note) (tasks : List Task) (now : Date) :
    s.Logs (s.applySharedImports notes tasks now) (tasks.map fun _ => .addTask) := by
  have hnotes : (if notes.isEmpty then s else s.importNotes notes).analytics = s.analytics := by
    split_ifs
    · rfl
    · exact analytics_spawnSync _ _
  unfold applySharedImports
  dsimp only
  generalize (if notes.isEmpty then s else s.importNotes notes) = s₁ at hnotes
  split_ifs with hempty
  · rw [List.isEmpty_iff.mp hempty]
    exact .of_eq hnotes
  · exact (s₁.logs_importTasks tasks now).after hnotes

/-! ## Other operations -/

theorem logs_deleteCategory (id : String) (replacementId : Option String) (now : Date) :
    s.Logs (s.deleteCategory id replacementId now) [.deleteCategory] := by
  unfold deleteCategory updateTasksForCategoryRemoval
  refine logs_logEvent rfl ?_ _
  rw [analytics_spawnSync]
  split_ifs <;> rfl

theorem logs_addCategory (category : Category) :
    s.Logs (s.addCategory category) [.addCategory] := by
  unfold addCategory
  dsimp only
  rw [logs_spawnSync]
  exact logs_logEvent rfl rfl _

/-- An update of a category logs no call that Insights counts. -/
theorem logs_updateCategory (id : String) (updates : CategoryUpdate) :
    s.Logs (s.updateCategory id updates) [] := by
  unfold updateCategory
  split
  · exact .refl s
  · split
    · exact .refl s
    · dsimp only
      rw [logs_spawnSync]
      split_ifs
      · exact Logs.other (.of_eq rfl) (by decide) _
      · exact .of_eq rfl

theorem logs_reorderCategories {orderedIds : List String} {s' : LocalStore}
    (h : s.reorderCategories orderedIds = some s') : s.Logs s' [.reorderCategories] := by
  obtain ⟨categoryMap, -, rfl⟩ := Option.map_eq_some_iff.mp h
  dsimp only
  rw [logs_spawnSync]
  exact logs_logEvent rfl rfl _

/-- A deletion of notes logs nothing. -/
theorem analytics_deleteNotes {offsets : List ℕ} {s' : LocalStore}
    (h : s.deleteNotes offsets = some s') : s'.analytics = s.analytics := by
  have hall : ∀ (notes : List Note) (s₁ : LocalStore),
      (notes.foldl (fun s note => s.spawnSync (.deleteNote · note.id)) s₁).analytics =
        s₁.analytics := by
    intro notes
    induction notes with
    | nil => exact fun _ => rfl
    | cons note notes ih => exact fun s₁ => (ih _).trans (analytics_spawnSync s₁ _)
  obtain ⟨deletedNotes, -, rfl⟩ := Option.map_eq_some_iff.mp h
  exact hall _ _

/-- A migration logs nothing. -/
theorem analytics_migrateIfNeeded {s s' : LocalStore} (h : s.migrateIfNeeded = some s') :
    s'.analytics = s.analytics := by
  have hcategories : s.migrateEmptyCategories.analytics = s.analytics := by
    unfold migrateEmptyCategories
    split_ifs <;> rfl
  have hposition : ∀ s₁ : LocalStore, s₁.migrateUncategorizedPosition.analytics =
      s₁.analytics := by
    intro s₁
    unfold migrateUncategorizedPosition
    dsimp only
    split_ifs <;> rfl
  obtain ⟨taskLookup, -, rfl⟩ := Option.map_eq_some_iff.mp h
  dsimp only
  rw [← hcategories]
  split_ifs <;> exact hposition _

theorem analytics_applyRemoteUpdate {updates : LocalStore → Option LocalStore} {s' : LocalStore}
    (h : s.applyRemoteUpdate updates = some s')
    (hupdates : ∀ s₁ s₂ : LocalStore, updates s₁ = some s₂ → s₂.analytics = s₁.analytics) :
    s'.analytics = s.analytics := by
  obtain ⟨s₂, hs₂, rfl⟩ := Option.map_eq_some_iff.mp h
  exact (hupdates _ s₂ hs₂).trans rfl

theorem analytics_applyRemoteTasks {tasks : List Task} {s' : LocalStore}
    (h : s.applyRemoteTasks tasks = some s') : s'.analytics = s.analytics := by
  refine s.analytics_applyRemoteUpdate h fun s₁ s₂ h₂ => ?_
  obtain ⟨sanitizedTasks, -, rfl⟩ := Option.map_eq_some_iff.mp h₂
  rfl

theorem analytics_applyRemoteSnapshot {notes : List Note} {tasks : List Task}
    {categories : List Category} {s' : LocalStore}
    (h : s.applyRemoteSnapshot notes tasks categories = some s') : s'.analytics = s.analytics := by
  refine s.analytics_applyRemoteUpdate h fun s₁ s₂ h₂ => ?_
  obtain ⟨sanitizedTasks, -, hmigrated⟩ := Option.bind_eq_some_iff.mp h₂
  exact (analytics_migrateIfNeeded hmigrated).trans rfl

theorem analytics_resetForNewUser {s' : LocalStore} (h : s.resetForNewUser = some s') :
    s'.analytics = s.analytics :=
  s.analytics_applyRemoteUpdate h fun _ _ hmigrated =>
    (analytics_migrateIfNeeded hmigrated).trans rfl

/-- The two events of a call for a reminder. -/
theorem logs_logEvent_logEvent {call : FeatureCall} {name name' : String}
    (h : call.eventNames = [name, name']) (hs' : s'.analytics = s.analytics)
    (params params' : List (String × AnalyticsValue)) :
    s.Logs ((s'.logEvent name params).logEvent name' params') [call] := by
  have hcounted : name ∈ countedNames := mem_countedNames.mpr ⟨call, by simp [h]⟩
  have hcounted' : name' ∈ countedNames := mem_countedNames.mpr ⟨call, by simp [h]⟩
  refine ⟨[⟨name, params⟩, ⟨name', params'⟩], ?_, ?_, ?_⟩
  · rw [← hs']
    exact List.append_assoc _ _ _
  · simp [hcounted, hcounted']
  · simp [countedEvents, hcounted, hcounted', h]

theorem analytics_assignTask {index : ℕ} {task : Task} (h : s.assignTask index task = some s') :
    s'.analytics = s.analytics := by
  unfold assignTask at h
  split_ifs at h
  obtain rfl := Option.some_inj.mp h
  rfl

theorem logs_finishSetReminder {index : ℕ} {task : Task} {date : Date} {notificationId : String}
    {now : Date} (h : s.finishSetReminder index task date notificationId now = some s') :
    s.Logs s' [.setReminder] := by
  obtain ⟨assigned, hassigned, rfl⟩ := Option.map_eq_some_iff.mp h
  dsimp only
  rw [logs_spawnSync]
  exact s.logs_logEvent_logEvent rfl (s.analytics_assignTask hassigned) _ _

theorem logs_finishRemoveReminder {index : ℕ} {task : Task} {now : Date}
    (h : s.finishRemoveReminder index task now = some s') : s.Logs s' [.removeReminder] := by
  obtain ⟨assigned, hassigned, rfl⟩ := Option.map_eq_some_iff.mp h
  dsimp only
  rw [logs_spawnSync]
  exact s.logs_logEvent_logEvent rfl (s.analytics_assignTask hassigned) _ _

end LocalStore

/-! ## Steps -/

/-- A step of the app that goes through the store. -/
inductive FeatureStep where
  | app (step : ReminderStep)
  | view (operation : LocalOperation)

namespace Session

variable (u : Session)

/-- The calls that succeed in an operation. -/
def calls (e : Date × Operation) : List FeatureCall :=
  let now := e.1
  match e.2 with
  | .addTask _ => [.addTask]
  | .addSubtask parentId title priority id =>
    if (u.store.addSubtask parentId title priority id now).2.isSome then [.addTask] else []
  | .setParent _ _ => []
  | .updateTask _ _ => []
  | .completeTask id => u.store.callsIfFound .completeTask id
  | .restoreTask id => u.store.callsIfFound .restoreTask id
  | .deleteTask id => u.store.deleteCalls id
  | .deleteTaskUndoably id => u.store.deleteCalls id
  | .undo => u.undoStack.head?.elim [] fun _ => [.addTask]
  | .redo => u.redoStack.head?.elim [] fun task => u.store.deleteCalls task.id
  | .deleteParentTask id strategy => u.store.deleteParentCalls id strategy now
  | .reorderTasks _ => [.reorderTasks]
  | .deleteCategory _ _ => [.deleteCategory]
  | .applySharedImports _ tasks => tasks.map fun _ => .addTask
  | .applyRemoteTasks _ => []
  | .applyRemoteSnapshot _ _ _ => []

/-- Every operation on tasks logs its calls. -/
theorem logs_step {u u' : Session} {e : Date × Operation} (h : Session.step e u = some u') :
    u.store.Logs u'.store (u.calls e) := by
  obtain ⟨now, operation⟩ := e
  cases operation with
  | addTask task =>
    obtain rfl := Option.some_inj.mp h
    exact u.store.logs_addTask task now
  | addSubtask parentId title priority id =>
    obtain rfl := Option.some_inj.mp h
    exact u.store.logs_addSubtask parentId title priority id now
  | setParent taskId parentId =>
    obtain rfl := Option.some_inj.mp h
    exact .of_eq (u.store.analytics_setParent taskId parentId now)
  | updateTask id updates =>
    obtain rfl := Option.some_inj.mp h
    exact u.store.logs_updateTask id updates now
  | completeTask id =>
    obtain rfl := Option.some_inj.mp h
    exact u.store.logs_completeTask id now
  | restoreTask id =>
    obtain rfl := Option.some_inj.mp h
    exact u.store.logs_restoreTask id now
  | deleteTask id =>
    obtain rfl := Option.some_inj.mp h
    exact u.store.logs_deleteTask id now
  | deleteTaskUndoably id =>
    obtain rfl := Option.some_inj.mp h
    have hdelete := u.store.logs_deleteTask id now
    unfold deleteTaskUndoably
    split
    · rename_i hnone
      simp only [calls, LocalStore.deleteCalls, hnone]
      exact .refl _
    · exact hdelete
  | undo =>
    obtain rfl := Option.some_inj.mp h
    unfold undo calls
    cases u.undoStack with
    | nil => exact .refl _
    | cons task undoStack => exact u.store.logs_addTask task now
  | redo =>
    obtain rfl := Option.some_inj.mp h
    unfold redo calls
    cases u.redoStack with
    | nil => exact .refl _
    | cons task redoStack => exact u.store.logs_deleteTask task.id now
  | deleteParentTask id strategy =>
    obtain rfl := Option.some_inj.mp h
    exact u.store.logs_deleteParentTask id strategy now
  | reorderTasks orderedIds =>
    obtain ⟨s', hs', rfl⟩ := Option.map_eq_some_iff.mp h
    exact u.store.logs_reorderTasks hs'
  | deleteCategory id replacementId =>
    obtain rfl := Option.some_inj.mp h
    exact u.store.logs_deleteCategory id replacementId now
  | applySharedImports notes tasks =>
    obtain rfl := Option.some_inj.mp h
    exact u.store.logs_applySharedImports notes tasks now
  | applyRemoteTasks tasks =>
    obtain ⟨s', hs', rfl⟩ := Option.map_eq_some_iff.mp h
    exact .of_eq (u.store.analytics_applyRemoteTasks hs')
  | applyRemoteSnapshot notes tasks categories =>
    obtain ⟨s', hs', rfl⟩ := Option.map_eq_some_iff.mp h
    exact .of_eq (u.store.analytics_applyRemoteSnapshot hs')

/-- The calls that succeed in an operation of a view. -/
def viewCalls (e : Date × LocalOperation) : List FeatureCall :=
  match e.2 with
  | .task operation _ => u.calls (e.1, operation)
  | .addCategory _ => [.addCategory]
  | .reorderCategories _ => [.reorderCategories]
  | _ => []

/-- Every operation of the views logs its calls. -/
theorem logs_viewStep {u u' : Session} {e : Date × LocalOperation}
    (h : LocalOperation.step e u = some u') : u.store.Logs u'.store (u.viewCalls e) := by
  obtain ⟨now, operation⟩ := e
  cases operation with
  | task operation isLocal => exact logs_step h
  | addNote note =>
    obtain rfl := Option.some_inj.mp h
    exact .of_eq (LocalStore.analytics_spawnSync _ _)
  | deleteNotes offsets =>
    obtain ⟨s', hs', rfl⟩ := Option.map_eq_some_iff.mp h
    exact .of_eq (u.store.analytics_deleteNotes hs')
  | addCategory category =>
    obtain rfl := Option.some_inj.mp h
    exact u.store.logs_addCategory category
  | updateCategory id updates =>
    obtain rfl := Option.some_inj.mp h
    exact u.store.logs_updateCategory id updates
  | reorderCategories orderedIds =>
    obtain ⟨s', hs', rfl⟩ := Option.map_eq_some_iff.mp h
    exact u.store.logs_reorderCategories hs'
  | applyOnboardingPresetCategories presetCategories =>
    obtain rfl := Option.some_inj.mp h
    exact .of_eq (LocalStore.analytics_spawnSync _ _)
  | setUncategorizedPosition position =>
    obtain rfl := Option.some_inj.mp h
    exact .of_eq rfl
  | setExperimentalFeaturesEnabled enabled =>
    obtain rfl := Option.some_inj.mp h
    refine .of_eq ?_
    dsimp only [withStore, LocalStore.setExperimentalFeaturesEnabled]
    split_ifs <;> rfl
  | markInsightsHintShown =>
    obtain rfl := Option.some_inj.mp h
    exact .of_eq rfl
  | dismissInsightsHint =>
    obtain rfl := Option.some_inj.mp h
    exact .of_eq rfl
  | recordInsightsInteraction =>
    obtain rfl := Option.some_inj.mp h
    refine .of_eq ?_
    dsimp only [withStore, LocalStore.recordInsightsInteraction]
    split_ifs <;> rfl

end Session

namespace FeatureStep

/-- The calls that succeed when the await of a reminder operation completes. -/
def resumeCalls (operation : Option ReminderOperation) (throwing : Bool) : List FeatureCall :=
  match operation.map ReminderOperation.stage with
  | some (.scheduling _ _) => if throwing then [] else [.setReminder]
  | some .removing => [.removeReminder]
  | _ => []

/-- The calls that succeed in a step. A call for a reminder does so when it has run to its
end. -/
def calls (e : Date × FeatureStep) (r : ReminderSession) : List FeatureCall :=
  match e.2 with
  | app (.operation operation) => r.session.calls (e.1, operation)
  | app .resetForNewUser => []
  | app (.setReminder _ _ _) => []
  | app (.removeReminder taskId) =>
    match firstEntry r.tasks fun t => t.id = taskId with
    | some (_, task) => if task.reminderNotificationId.isSome then [] else [.removeReminder]
    | none => []
  | app (.resume k _ throwing) => resumeCalls r.pending[k]? throwing
  | view operation => r.session.viewCalls (e.1, operation)

/-- The step function of the app without its telemetry. -/
def step (e : Date × FeatureStep) (r : ReminderSession) : Option ReminderSession :=
  match e.2 with
  | app step => ReminderSession.step (e.1, step) r
  | view operation => (LocalOperation.step (e.1, operation) r.session).map fun session =>
      { r with session := session }

/-- A step logs the events of the calls that succeed in it. -/
theorem logs_step {e : Date × FeatureStep} {r r' : ReminderSession} (h : step e r = some r') :
    r.session.store.Logs r'.session.store (calls e r) := by
  obtain ⟨now, app | operation⟩ := e
  · cases app with
    | operation operation =>
      obtain ⟨session, hsession, rfl⟩ := Option.map_eq_some_iff.mp h
      exact Session.logs_step hsession
    | resetForNewUser =>
      change r.session.store.resetForNewUser.map r.withStore = some r' at h
      obtain ⟨s', hs', rfl⟩ := Option.map_eq_some_iff.mp h
      exact .of_eq (LocalStore.analytics_resetForNewUser _ hs')
    | setReminder taskId date notificationId =>
      obtain rfl := Option.some_inj.mp h
      refine .of_eq ?_
      unfold ReminderSession.setReminder
      split
      · rfl
      · split_ifs <;> rfl
    | removeReminder taskId =>
      change r.removeReminder taskId now = some r' at h
      unfold ReminderSession.removeReminder at h
      unfold calls
      dsimp only
      split at h
      · rename_i hnone
        obtain rfl := Option.some_inj.mp h
        rw [hnone]
        exact .refl _
      · rename_i index task hfound
        rw [hfound]
        dsimp only
        split_ifs at h ⊢
        · obtain rfl := Option.some_inj.mp h
          exact .refl _
        · obtain ⟨s', hs', rfl⟩ := Option.map_eq_some_iff.mp h
          exact LocalStore.logs_finishRemoveReminder _ hs'
    | resume k notificationId throwing =>
      change r.resume k notificationId throwing now = some r' at h
      unfold ReminderSession.resume at h
      unfold calls resumeCalls
      dsimp only
      split at h
      · rename_i hnone
        obtain rfl := Option.some_inj.mp h
        rw [hnone]
        exact .refl _
      · rename_i operation hoperation
        rw [hoperation, Option.map_some]
        split at h
        · rename_i hstage
          obtain rfl := Option.some_inj.mp h
          rw [hstage]
          exact .refl _
        · rename_i hstage
          rw [hstage]
          dsimp only
          split_ifs at h ⊢
          · obtain rfl := Option.some_inj.mp h
            exact .refl _
          · obtain ⟨s', hs', rfl⟩ := Option.map_eq_some_iff.mp h
            exact LocalStore.logs_finishSetReminder _ hs'
        · rename_i hstage
          rw [hstage]
          obtain ⟨s', hs', rfl⟩ := Option.map_eq_some_iff.mp h
          exact LocalStore.logs_finishRemoveReminder _ hs'
  · obtain ⟨session, hsession, rfl⟩ := Option.map_eq_some_iff.mp h
    exact Session.logs_viewStep hsession

end FeatureStep

end Notelayer
