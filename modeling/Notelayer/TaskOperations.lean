import Mathlib.Tactic.SplitIfs
import Notelayer.LocalStore

/-!
# The task operations of the store

`addTask` to `reconcileParentCompletion`, as the store runs them : the new task list,
what is saved and logged, and which closures are spawned, in order. `now` is the
instant one operation reads from `Date()`, and fresh identifiers are arguments.

`reconcileParentCompletion` runs after every change of a subtask. It completes a parent
whose subtasks are all complete, reopens one that has an open subtask, and drops the
override of a parent left without subtasks. In that last branch the closure it spawns
reads the store at an index computed before (`Closure.upsertTaskAt`).
-/

namespace Notelayer

/-- A closure `(inout Task) -> Void`. `Task.id` is a `let`, so no closure changes it. -/
structure TaskUpdate where
  apply : Task → Task
  id_apply : ∀ task, (apply task).id = task.id

/-- `updates(&task); task.updatedAt = Date()`. -/
def TaskUpdate.applied (updates : TaskUpdate) (task : Task) (now : Date) : Task :=
  { updates.apply task with updatedAt := now }

theorem TaskUpdate.applied_id (updates : TaskUpdate) (task : Task) (now : Date) :
    (updates.applied task now).id = task.id :=
  updates.id_apply task

/-- What becomes of the subtasks. -/
inductive ParentTaskDeletionStrategy where
  | deleteSubtasks
  | detachSubtasks
  deriving DecidableEq

/-! ## Finding tasks -/

/-- `tasks.first(where: { $0.id == id })`. -/
def taskWithId (tasks : List Task) (id : String) : Option Task :=
  KeyedList.lookup Task.id tasks id

/-- `tasks.first(where: { $0.id == id && $0.parentTaskId == nil })`. -/
def topLevelTaskWithId (tasks : List Task) (id : String) : Option Task :=
  tasks.find? fun t => t.id = id ∧ t.parentTaskId = none

/-- `tasks.firstIndex(where: p)`, with the task at that index. -/
def firstEntry (tasks : List Task) (p : Task → Bool) : Option (ℕ × Task) :=
  (tasks.findIdx? p).bind fun index => tasks[index]?.map fun task => (index, task)

/-! ## The task a new or reconciled task becomes -/

/-- A new task with an `orderIndex`. -/
def Task.ordered (newTask : Task) (orderIndex : ℤ) : Task :=
  { newTask with orderIndex := some (newTask.orderIndex.getD orderIndex) }

/-- A new task with its parent link kept if it names a top-level task, whose categories
an uncategorized subtask takes over, and dropped otherwise. -/
def Task.attached (tasks : List Task) (newTask : Task) : Task :=
  match newTask.parentTaskId with
  | some parentId =>
    match topLevelTaskWithId tasks parentId with
    | some parent =>
      if newTask.categories.isEmpty then { newTask with categories := parent.categories }
      else newTask
    | none => { newTask with parentTaskId := none }
  | none => { newTask with parentManualReopenAt := none }

/-- With a new order index. -/
def Task.reordered (task : Task) (orderIndex : ℤ) (now : Date) : Task :=
  { task with orderIndex := some orderIndex, updatedAt := now }

/-- The task `completeTask` leaves. -/
def Task.completed (task : Task) (now : Date) : Task :=
  { task with
    completedAt := some now
    reminderDate := none
    reminderNotificationId := none
    parentManualReopenAt := none }

/-- The task `restoreTask` leaves, its reminder apart. A parent gets the override. -/
def Task.reopened (task : Task) (childCount : ℕ) (now : Date) : Task :=
  let task := { task with completedAt := none }
  if childCount > 0 then { task with parentManualReopenAt := some now } else task

/-- The no-children branch of `reconcileParentCompletion` : the parent without override. -/
def Task.withoutOverride (parent : Task) (now : Date) : Task :=
  { parent with parentManualReopenAt := none, updatedAt := now }

/-- `if condition { edit; didChange = true }`, on the parent and `didChange`. -/
def Task.editIf (condition : Task → Bool) (edit : Task → Task) (p : Task × Bool) : Task × Bool :=
  if condition p.1 then (edit p.1, true) else p

/-- The children branch of `reconcileParentCompletion` : the parent, and `didChange`. -/
def Task.reconciled (parent : Task) (allSubtasksCompleted resetManualOverride : Bool)
    (now : Date) : Task × Bool :=
  let dropOverride := fun parent : Task => { parent with parentManualReopenAt := none }
  let p := editIf (fun parent => resetManualOverride && parent.parentManualReopenAt.isSome)
    dropOverride (parent, false)
  if allSubtasksCompleted then
    editIf (fun parent => parent.parentManualReopenAt.isNone && parent.completedAt.isNone)
      (fun parent => { parent with completedAt := some now, updatedAt := now }) p
  else
    let p := editIf (fun parent => parent.completedAt.isSome)
      (fun parent => { parent with completedAt := none, updatedAt := now }) p
    editIf (fun parent => parent.parentManualReopenAt.isSome) dropOverride p

@[simp] theorem Task.ordered_id (t : Task) (i : ℤ) : (t.ordered i).id = t.id :=
  rfl

@[simp] theorem Task.attached_id (tasks : List Task) (t : Task) : (t.attached tasks).id = t.id := by
  unfold Task.attached
  split <;> try split <;> try split
  all_goals rfl

@[simp] theorem Task.completed_id (t : Task) (now : Date) : (t.completed now).id = t.id :=
  rfl

@[simp] theorem Task.reopened_id (t : Task) (n : ℕ) (now : Date) :
    (t.reopened n now).id = t.id := by
  unfold reopened
  dsimp only
  split_ifs <;> rfl

/-- What every edit keeps is kept. -/
theorem Task.editIf_fst {A : Type} {f : Task → A} {c : Task → Bool} {edit : Task → Task}
    (h : ∀ t, f (edit t) = f t) (p : Task × Bool) : f (editIf c edit p).1 = f p.1 := by
  unfold editIf
  split_ifs
  · exact h p.1
  · rfl

/-- Without a change nothing was edited. -/
theorem Task.editIf_of_snd {c : Task → Bool} {edit : Task → Task} {p : Task × Bool}
    (h : (editIf c edit p).2 = false) : editIf c edit p = p := by
  unfold editIf at *
  by_cases hc : c p.1 = true
  · rw [if_pos hc] at h
    cases h
  · rw [if_neg hc]

@[simp] theorem Task.reconciled_id (t : Task) (a r : Bool) (now : Date) :
    (t.reconciled a r now).1.id = t.id := by
  unfold reconciled
  split_ifs <;> simp [editIf_fst (f := id)]

@[simp] theorem Task.reconciled_parentTaskId (t : Task) (a r : Bool) (now : Date) :
    (t.reconciled a r now).1.parentTaskId = t.parentTaskId := by
  unfold reconciled
  split_ifs <;> simp [editIf_fst (f := parentTaskId)]

/-- Without `didChange` the parent is the one before. -/
theorem Task.reconciled_eq_self {t : Task} {a r : Bool} {now : Date}
    (h : (t.reconciled a r now).2 = false) : (t.reconciled a r now).1 = t := by
  unfold reconciled at *
  split_ifs at *
  · have h1 := editIf_of_snd h
    rw [h1] at h ⊢
    rw [editIf_of_snd h]
  · have h1 := editIf_of_snd h
    rw [h1] at h ⊢
    have h2 := editIf_of_snd h
    rw [h2] at h ⊢
    rw [editIf_of_snd h]

namespace LocalStore

variable (s : LocalStore)

/-- `self.tasks = tasks`. -/
def withTasks (tasks : List Task) : LocalStore :=
  { s with tasks := tasks }

@[simp] theorem tasks_withTasks (ts : List Task) : (s.withTasks ts).tasks = ts :=
  rfl

@[simp] theorem syncingBackend_withTasks (ts : List Task) :
    (s.withTasks ts).syncingBackend = s.syncingBackend :=
  rfl

@[simp] theorem spawned_withTasks (ts : List Task) : (s.withTasks ts).spawned = s.spawned :=
  rfl

/-- `tasks[index] = task`. -/
def setTask (index : ℕ) (task : Task) : LocalStore :=
  { s with tasks := s.tasks.set index task }

@[simp] theorem tasks_setTask (i : ℕ) (t : Task) : (s.setTask i t).tasks = s.tasks.set i t :=
  rfl

@[simp] theorem spawned_setTask (i : ℕ) (t : Task) : (s.setTask i t).spawned = s.spawned :=
  rfl

@[simp] theorem syncingBackend_setTask (i : ℕ) (t : Task) :
    (s.setTask i t).syncingBackend = s.syncingBackend :=
  rfl

/-! ## Parent completion -/

/-- Completes the parent if all its subtasks are complete, and reopens it if one is open, unless it
was reopened by hand. -/
def reconcileParentCompletion (parentId : String) (resetManualOverride : Bool) (now : Date) :
    LocalStore :=
  match firstEntry s.tasks fun t => t.id = parentId ∧ t.parentTaskId = none with
  | none => s
  | some (parentIndex, parent) =>
    let children := s.tasks.filter fun t => t.parentTaskId = some parentId
    if children.isEmpty then
      if parent.parentManualReopenAt ≠ none then
        (s.setTask parentIndex (parent.withoutOverride now)).saveTasks.spawnSync
          (.upsertTaskAt · parentIndex parentId)
      else s
    else
      let allSubtasksCompleted := children.all fun t => t.completedAt ≠ none
      let p := parent.reconciled allSubtasksCompleted resetManualOverride now
      if p.2 then (s.setTask parentIndex p.1).saveTasks.spawnSync (.upsertTask · p.1)
      else s

/-- Reconcile the parent if there is one. -/
def reconcileParent (parentId : Option String) (resetManualOverride : Bool) (now : Date) :
    LocalStore :=
  match parentId with
  | some parentId => s.reconcileParentCompletion parentId resetManualOverride now
  | none => s

/-! ## Adding and editing -/

/-- `task_created`, and `category_assigned_to_task` if it has categories. -/
def logTaskCreatedAnalytics (task : Task) : LocalStore :=
  let s := s.logEvent "task_created" [
    ("priority", .string task.priority.rawValue),
    ("category_count", .int task.categories.length),
    ("has_due_date", .bool task.dueDate.isSome),
    ("has_reminder", .bool task.reminderDate.isSome),
    ("category_ids_csv", .string (joinedByComma task.categories))]
  if task.categories.isEmpty then s
  else s.logEvent "category_assigned_to_task" [
    ("category_count", .int task.categories.length),
    ("source_view", .string "Task Create")]

section

variable (task : Task)

@[simp] theorem tasks_logTaskCreatedAnalytics :
    (s.logTaskCreatedAnalytics task).tasks = s.tasks := by
  unfold logTaskCreatedAnalytics
  split <;> rfl

@[simp] theorem syncingBackend_logTaskCreatedAnalytics :
    (s.logTaskCreatedAnalytics task).syncingBackend = s.syncingBackend := by
  unfold logTaskCreatedAnalytics
  split <;> rfl

@[simp] theorem spawned_logTaskCreatedAnalytics :
    (s.logTaskCreatedAnalytics task).spawned = s.spawned := by
  unfold logTaskCreatedAnalytics
  split <;> rfl

end

/-- The store with the task added, and the task's id. -/
def addTask (task : Task) (now : Date) : LocalStore × String :=
  let newTask := (task.ordered now.milliseconds).attached s.tasks
  let s := s.withTasks (s.tasks ++ [newTask])
  let s := s.reconcileParent newTask.parentTaskId true now
  let s := s.saveTasks.logTaskCreatedAnalytics newTask
  (s.spawnSync (.upsertTask · newTask), newTask.id)

/-- `task_edited`, with what changed, and an event of its own for some of it. -/
def logTaskEditedAnalytics (oldTask task : Task) : LocalStore :=
  let titleChanged := oldTask.title ≠ task.title
  let categoriesChanged := oldTask.categories ≠ task.categories
  let priorityChanged := oldTask.priority ≠ task.priority
  let dueDateChanged := oldTask.dueDate ≠ task.dueDate
  let notesChanged := oldTask.taskNotes ≠ task.taskNotes
  let s :=
    if titleChanged ∨ categoriesChanged ∨ priorityChanged ∨ dueDateChanged ∨ notesChanged then
      s.logEvent "task_edited" [
        ("title_changed", .bool titleChanged),
        ("categories_changed", .bool categoriesChanged),
        ("priority_changed", .bool priorityChanged),
        ("due_date_changed", .bool dueDateChanged),
        ("notes_changed", .bool notesChanged)]
    else s
  let dueDateParams := [
    ("category_count", AnalyticsValue.int task.categories.length),
    ("priority", .string task.priority.rawValue)]
  let s :=
    if oldTask.dueDate = none ∧ task.dueDate ≠ none then
      s.logEvent "task_due_date_set" dueDateParams
    else if oldTask.dueDate ≠ none ∧ task.dueDate = none then
      s.logEvent "task_due_date_cleared" dueDateParams
    else s
  let addedCount := subtractingCount task.categories oldTask.categories
  let removedCount := subtractingCount oldTask.categories task.categories
  if categoriesChanged ∧ (addedCount > 0 ∨ removedCount > 0) then
    s.logEvent "category_assigned_to_task" [
      ("added_count", .int addedCount),
      ("removed_count", .int removedCount),
      ("source_view", .string "Task Edit")]
  else s

section

variable (task oldTask : Task)

@[simp] theorem tasks_logTaskEditedAnalytics :
    (s.logTaskEditedAnalytics oldTask task).tasks = s.tasks := by
  unfold logTaskEditedAnalytics
  dsimp only
  split_ifs <;> rfl

@[simp] theorem syncingBackend_logTaskEditedAnalytics :
    (s.logTaskEditedAnalytics oldTask task).syncingBackend = s.syncingBackend := by
  unfold logTaskEditedAnalytics
  dsimp only
  split_ifs <;> rfl

@[simp] theorem spawned_logTaskEditedAnalytics :
    (s.logTaskEditedAnalytics oldTask task).spawned = s.spawned := by
  unfold logTaskEditedAnalytics
  dsimp only
  split_ifs <;> rfl

end

/-- The fields of `updates` that are there are assigned. -/
def updateTask (id : String) (updates : TaskUpdate) (now : Date) : LocalStore :=
  match firstEntry s.tasks fun t => t.id = id with
  | none => s
  | some (index, oldTask) =>
    let task := updates.applied oldTask now
    let s := (s.setTask index task).saveTasks.logTaskEditedAnalytics oldTask task
    s.spawnSync (.upsertTask · task)

/-! ## Subtasks -/

/-- `subtasks(for:includeCompleted:)`, in descending order of `orderIndex`. -/
def subtasks (parentId : String) (includeCompleted : Option Bool) : List Task :=
  let selected := s.tasks.filter fun task =>
    task.parentTaskId = some parentId ∧
      includeCompleted.all fun included => included = task.completedAt.isSome
  selected.insertionSort fun lhs rhs => rhs.orderIndex.getD 0 ≤ lhs.orderIndex.getD 0

/-- How many tasks name it as their parent. -/
def subtaskCount (parentId : String) : ℕ :=
  s.tasks.countP fun t => t.parentTaskId = some parentId

/-- A task names it as its parent. -/
def hasSubtasks (parentId : String) : Bool :=
  s.tasks.any fun t => t.parentTaskId = some parentId

/-- `id` and `now` are what `Task.init` draws. -/
def addSubtask (parentId title : String) (priority : Priority) (id : String) (now : Date) :
    LocalStore × Option String :=
  match topLevelTaskWithId s.tasks parentId with
  | none => (s, none)
  | some parent =>
    let trimmed := trimmed title
    if trimmed.isEmpty then (s, none)
    else
      let subtask := Task.init {
        id := id
        title := trimmed
        categories := parent.categories
        priority := priority
        createdAt := now
        updatedAt := now
        parentTaskId := some parentId }
      let (s, newId) := s.addTask subtask now
      (s, some newId)

/-- The refusals of `setParent`. -/
def refusesParent (taskId : String) (parentId : Option String) : Bool :=
  parentId.any fun parentId =>
    parentId = taskId ∨ s.hasSubtasks taskId ∨ topLevelTaskWithId s.tasks parentId = none

/-- The task under its new parent : without an override, and with the parent's categories
if it has none of its own. -/
def movedTask (task : Task) (parentId : Option String) (now : Date) : Task :=
  let task := { task with parentTaskId := parentId, updatedAt := now }
  match parentId with
  | none => task
  | some parentId =>
    let task := { task with parentManualReopenAt := none }
    if task.categories.isEmpty then
      match taskWithId s.tasks parentId with
      | some parent => { task with categories := parent.categories }
      | none => task
    else task

theorem id_movedTask (task : Task) (parentId : Option String) (now : Date) :
    (s.movedTask task parentId now).id = task.id := by
  unfold movedTask
  dsimp only
  split
  · rfl
  · split_ifs
    · split <;> rfl
    · rfl

/-- Refused parents change nothing. The parent before and the parent after are reconciled. -/
def setParent (taskId : String) (parentId : Option String) (now : Date) : LocalStore :=
  match firstEntry s.tasks fun t => t.id = taskId with
  | none => s
  | some (index, task) =>
    if s.refusesParent taskId parentId then s
    else
      let s := (s.setTask index (s.movedTask task parentId now)).saveTasks
      let s := s.reconcileParent task.parentTaskId true now
      let s := s.reconcileParent parentId true now
      s.spawnSync .upsertStoreTasks

/-! ## Deleting -/

/-- `if let notificationId { _Concurrency.Task { … cancelReminder … } }`. -/
def spawnCancelReminder (notificationId : Option String) : LocalStore :=
  match notificationId with
  | some notificationId => s.spawn (.cancelReminder notificationId)
  | none => s

/-- `task_deleted`, if there was such a task. -/
def logTaskDeleted (taskToDelete : Option Task) : LocalStore :=
  match taskToDelete with
  | some task => s.logEvent "task_deleted" [
      ("has_due_date", .bool task.dueDate.isSome),
      ("has_reminder", .bool task.reminderDate.isSome),
      ("category_count", .int task.categories.length)]
  | none => s

section

variable (notificationId : Option String) (taskToDelete : Option Task)

@[simp] theorem tasks_spawnCancelReminder :
    (s.spawnCancelReminder notificationId).tasks = s.tasks := by
  cases notificationId <;> rfl

@[simp] theorem syncingBackend_spawnCancelReminder :
    (s.spawnCancelReminder notificationId).syncingBackend = s.syncingBackend := by
  cases notificationId <;> rfl

@[simp] theorem spawned_spawnCancelReminder : (s.spawnCancelReminder notificationId).spawned =
    s.spawned ++ (notificationId.map Closure.cancelReminder).toList := by
  cases notificationId <;> simp [spawnCancelReminder]

@[simp] theorem tasks_logTaskDeleted : (s.logTaskDeleted taskToDelete).tasks = s.tasks := by
  cases taskToDelete <;> rfl

@[simp] theorem syncingBackend_logTaskDeleted :
    (s.logTaskDeleted taskToDelete).syncingBackend = s.syncingBackend := by
  cases taskToDelete <;> rfl

@[simp] theorem spawned_logTaskDeleted :
    (s.logTaskDeleted taskToDelete).spawned = s.spawned := by
  cases taskToDelete <;> rfl

end

/-- The task goes, its reminder is cancelled, and its parent is reconciled. -/
def deleteTask (id : String) (now : Date) : LocalStore :=
  let taskToDelete := taskWithId s.tasks id
  let s := (s.withTasks (KeyedList.remove Task.id s.tasks id)).saveTasks
  let s := s.logTaskDeleted taskToDelete
  let s := s.spawnCancelReminder (taskToDelete.bind Task.reminderNotificationId)
  let s := s.spawnSync (.deleteTask · id)
  s.reconcileParent (taskToDelete.bind Task.parentTaskId) true now

/-- A parent goes with its subtasks, or alone. -/
def deleteParentTask (id : String) (strategy : ParentTaskDeletionStrategy) (now : Date) :
    LocalStore :=
  if s.hasSubtasks id then
    let childIds := (s.subtasks id none).map Task.id
    match strategy with
    | .deleteSubtasks =>
      let s := childIds.foldl (fun s childId => s.deleteTask childId now) s
      s.deleteTask id now
    | .detachSubtasks =>
      let s := childIds.foldl (fun s childId => s.setParent childId none now) s
      s.deleteTask id now
  else s.deleteTask id now

/-! ## Completing -/

/-- The task is complete, its reminder is cancelled, and its parent is reconciled. -/
def completeTask (id : String) (now : Date) : LocalStore :=
  match firstEntry s.tasks fun t => t.id = id with
  | none => s
  | some (index, oldTask) =>
    let task := oldTask.completed now
    let s := (s.setTask index task).saveTasks.logEvent "task_completed" [
      ("completion_latency_s", .int (max 0 (now.roundedSecondsSince oldTask.createdAt))),
      ("category_count", .int oldTask.categories.length),
      ("priority", .string oldTask.priority.rawValue),
      ("had_due_date", .bool oldTask.dueDate.isSome),
      ("had_reminder", .bool oldTask.reminderDate.isSome),
      ("category_ids_csv", .string (joinedByComma oldTask.categories))]
    let s := s.spawnCancelReminder oldTask.reminderNotificationId
    let s := s.spawnSync (.upsertTask · task)
    s.reconcileParent task.parentTaskId false now

/-- The reminder of a restored task : scheduled again if it is in the future, and cleared
if not. -/
def restoreReminder (oldTask task : Task) (now : Date) : LocalStore × Task :=
  match oldTask.reminderDate, oldTask.reminderNotificationId with
  | some reminderDate, some notificationId =>
    if now < reminderDate then
      (s.spawn (.scheduleReminder task reminderDate s.categories notificationId), task)
    else (s, { task with reminderDate := none, reminderNotificationId := none })
  | _, _ => (s, task)

/-- The store spawns at most the schedule, and the task changes at most in its reminder. -/
theorem restoreReminder_cases (oldTask task : Task) (now : Date) :
    (∃ c date cs n, c = Closure.scheduleReminder task date cs n ∧
      s.restoreReminder oldTask task now = (s.spawn c, task)) ∨
    (∃ date n, s.restoreReminder oldTask task now =
      (s, { task with reminderDate := date, reminderNotificationId := n })) := by
  unfold restoreReminder
  split
  · split_ifs
    · exact Or.inl ⟨_, _, _, _, rfl, rfl⟩
    · exact Or.inr ⟨_, _, rfl⟩
  · exact Or.inr ⟨task.reminderDate, task.reminderNotificationId, rfl⟩

/-- The task is open again. A parent with subtasks counts as reopened by hand. -/
def restoreTask (id : String) (now : Date) : LocalStore :=
  match firstEntry s.tasks fun t => t.id = id with
  | none => s
  | some (index, oldTask) =>
    let task := oldTask.reopened (s.subtaskCount oldTask.id) now
    let (s, task) := s.restoreReminder oldTask task now
    let s := (s.setTask index task).saveTasks.logEvent "task_restored" [
      ("category_count", .int oldTask.categories.length),
      ("priority", .string oldTask.priority.rawValue),
      ("category_ids_csv", .string (joinedByComma oldTask.categories))]
    let s := s.spawnSync (.upsertTask · task)
    s.reconcileParent task.parentTaskId true now

/-! ## Reordering -/

/-- The tasks get new order indices, in the order of the request. Tasks of one id trap. -/
def reorderTasks (orderedIds : List String) (now : Date) : Option LocalStore :=
  (uniqueKeysWithValues Task.id s.tasks).map fun taskMap =>
    let reordered := orderedIds.filterMap taskMap
    let remaining := s.tasks.filter fun t => t.id ∉ orderedIds
    let nowBase := now.milliseconds
    let reorderedWithOrder := reordered.mapIdx fun index task =>
      task.reordered (nowBase - index) now
    let s := (s.withTasks (reorderedWithOrder ++ remaining)).saveTasks
    let s := s.logEvent "task_reordered" [("task_count", .int s.tasks.length)]
    s.spawnSync .upsertStoreTasks

/-! ## Categories and imports -/

/-- A task with the deleted category taken out, and the replacement put in once. -/
def withoutCategory (categoryId : String) (replacementId : Option String) (now : Date)
    (task : Task) : Task :=
  let categories := task.categories.filter (· ≠ categoryId)
  let categories := match replacementId with
    | some replacementId =>
      if replacementId ∈ categories then categories else categories ++ [replacementId]
    | none => categories
  { task with categories := categories, updatedAt := now }

/-- Only tasks of the category change. -/
def withoutCategoryIf (categoryId : String) (replacementId : Option String) (now : Date)
    (task : Task) : Task :=
  if categoryId ∈ task.categories then withoutCategory categoryId replacementId now task else task

theorem id_withoutCategoryIf (categoryId : String) (replacementId : Option String) (now : Date)
    (task : Task) : (withoutCategoryIf categoryId replacementId now task).id = task.id := by
  unfold withoutCategoryIf
  split_ifs <;> rfl

/-- The store and the tasks that had the category, updated. -/
def updateTasksForCategoryRemoval (categoryId : String) (replacementId : Option String)
    (now : Date) : LocalStore × List Task :=
  let updatedTasks := (s.tasks.filter fun t => categoryId ∈ t.categories).map
    (withoutCategory categoryId replacementId now)
  let s := s.withTasks (s.tasks.map (withoutCategoryIf categoryId replacementId now))
  (if updatedTasks.isEmpty then s else s.saveTasks, updatedTasks)

/-- The orders count from 0. -/
def normalizeCategoryOrder : LocalStore :=
  { s with categories := (sortedByCategorySort s.categories).mapIdx fun index category =>
    { category with order := index } }

/-- The requested replacement, if it is another category of the store. -/
def resolvedReplacementId (id : String) (replacementId : Option String) : Option String :=
  replacementId.filter fun replacementId =>
    replacementId ≠ id ∧ s.categories.any fun c => c.id = replacementId

/-- The category goes, and its tasks get the replacement, if there is one. -/
def deleteCategory (id : String) (replacementId : Option String) (now : Date) : LocalStore :=
  let resolvedReplacementId := s.resolvedReplacementId id replacementId
  let removedIndex := s.sortedCategories.findIdx? fun c => c.id = id
  let (s, updatedTasks) := s.updateTasksForCategoryRemoval id resolvedReplacementId now
  let s := { s with categories := s.categories.filter fun c => c.id ≠ id }.normalizeCategoryOrder
  let s :=
    if removedIndex.any fun removedIndex => (removedIndex : ℤ) < s.uncategorizedPosition then
      s.setUncategorizedPosition (s.uncategorizedPosition - 1)
    else s.setUncategorizedPosition s.uncategorizedPosition
  let s := s.saveCategories.spawnSync (.deleteCategory · id updatedTasks)
  s.logEvent "category_deleted" [
    ("reassigned_task_count", .int updatedTasks.length),
    ("category_count", .int s.categories.length)]

theorem tasks_deleteCategory (id : String) (replacementId : Option String) (now : Date) :
    (s.deleteCategory id replacementId now).tasks =
      s.tasks.map (withoutCategoryIf id (s.resolvedReplacementId id replacementId) now) := by
  unfold deleteCategory updateTasksForCategoryRemoval
  dsimp only
  split_ifs <;> simp [normalizeCategoryOrder, setUncategorizedPosition]

theorem spawned_deleteCategory (id : String) (replacementId : Option String) (now : Date) :
    (s.deleteCategory id replacementId now).spawned = s.spawned ++ (s.syncingBackend.map
      (Closure.deleteCategory · id (s.updateTasksForCategoryRemoval id
        (s.resolvedReplacementId id replacementId) now).2)).toList := by
  unfold deleteCategory updateTasksForCategoryRemoval
  dsimp only
  split_ifs <;> simp [normalizeCategoryOrder, setUncategorizedPosition, syncingBackend, withTasks,
    saveTasks, saveUncategorizedPosition, saveCategories]

/-- The imported tasks as they are stored : parents are looked up among the tasks before the
import. -/
def preparedTasks (importedTasks : List Task) (now : Date) : List Task :=
  importedTasks.mapIdx fun offset task =>
    (task.ordered (now.milliseconds + offset)).attached s.tasks

/-- The task part of `applySharedImports`. -/
def importTasks (importedTasks : List Task) (now : Date) : LocalStore :=
  let preparedTasks := s.preparedTasks importedTasks now
  let s := (s.withTasks (s.tasks ++ preparedTasks)).saveTasks
  let s := preparedTasks.foldl logTaskCreatedAnalytics s
  s.spawnSync (.upsertTasks · preparedTasks)

/-- The note part of `applySharedImports`. -/
def importNotes (importedNotes : List Note) : LocalStore :=
  { s with notes := s.notes ++ importedNotes }.saveNotes.spawnSync (.upsertNotes · importedNotes)

/-- The notes and the tasks of a pass. -/
def applySharedImports (importedNotes : List Note) (importedTasks : List Task) (now : Date) :
    LocalStore :=
  let s := if importedNotes.isEmpty then s else s.importNotes importedNotes
  if importedTasks.isEmpty then s else s.importTasks importedTasks now

/-- What every analytics event keeps, a list of them keeps. -/
theorem foldl_logTaskCreatedAnalytics {A : Type} {f : LocalStore → A}
    (h : ∀ (s : LocalStore) t, f (s.logTaskCreatedAnalytics t) = f s) (l : List Task) :
    f (l.foldl logTaskCreatedAnalytics s) = f s := by
  induction l generalizing s with
  | nil => rfl
  | cons t l ih => rw [List.foldl_cons, ih, h]

@[simp] theorem tasks_importNotes (ns : List Note) : (s.importNotes ns).tasks = s.tasks := by
  simp [importNotes]

/-- The imported tasks come last. -/
theorem tasks_applySharedImports (ns : List Note) (ts : List Task) (now : Date) :
    (s.applySharedImports ns ts now).tasks = s.tasks ++ s.preparedTasks ts now := by
  have hnotes : (if ns.isEmpty then s else s.importNotes ns).tasks = s.tasks := by
    split_ifs <;> simp
  unfold applySharedImports
  dsimp only
  generalize (if ns.isEmpty then s else s.importNotes ns) = s₁ at hnotes
  split_ifs with ht
  · rw [hnotes, List.isEmpty_iff.mp ht]
    simp [preparedTasks]
  · unfold importTasks
    simp [foldl_logTaskCreatedAnalytics (f := tasks), preparedTasks, hnotes]

@[simp] theorem ids_preparedTasks (ts : List Task) (now : Date) :
    (s.preparedTasks ts now).map Task.id = ts.map Task.id := by
  refine KeyedList.map_mapIdx_eq_map (fun i t => ?_) ts
  simp

end LocalStore

end Notelayer
