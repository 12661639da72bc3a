import Notelayer.Library.Runs
import Notelayer.TaskOperations

/-!
# Operations and sessions

A session is the store with the undo manager's two stacks, of the tasks a delete
removed. `Operation` lists what the views and the listeners call, `Session.step` runs
one of them at an instant, and `none` is a trap.

The undo manager is the one of Foundation : an action registered while undoing goes to
the redo stack, one registered while redoing goes to the undo stack, and any other
clears the redo stack.

`Operation.Legal` is what every caller provides : fresh identifiers for new tasks,
remote lists and requested orders without repetition, and updates that leave the parent
link alone.
-/

namespace Notelayer

/-- A call of the store by a view or a listener. -/
inductive Operation where
  | addTask (task : Task)
  | addSubtask (parentId title : String) (priority : Priority) (id : String)
  | setParent (taskId : String) (parentId : Option String)
  | updateTask (id : String) (updates : TaskUpdate)
  | completeTask (id : String)
  | restoreTask (id : String)
  /-- `deleteTask(id:)`. -/
  | deleteTask (id : String)
  /-- `deleteTask(id:undoManager:)`. -/
  | deleteTaskUndoably (id : String)
  | undo
  | redo
  | deleteParentTask (id : String) (strategy : ParentTaskDeletionStrategy)
  | reorderTasks (orderedIds : List String)
  | deleteCategory (id : String) (replacementId : Option String)
  | applySharedImports (notes : List Note) (tasks : List Task)
  | applyRemoteTasks (tasks : List Task)
  | applyRemoteSnapshot (notes : List Note) (tasks : List Task) (categories : List Category)

/-- The store and the tasks the undo manager can restore or delete again, latest
first. -/
structure Session where
  store : LocalStore
  undoStack : List Task := []
  redoStack : List Task := []

/-- A session with a parent and its subtask. -/
def Session.sample : Session :=
  ⟨{ tasks := [.sampleParent, .sampleSubtask] }, [], []⟩

namespace Session

variable (u : Session)

/-- The identifiers in use : of the store's tasks and the parents they name, and of the
deleted tasks. -/
def knownIds : List String :=
  u.store.tasks.map Task.id ++ u.store.tasks.filterMap Task.parentTaskId ++
    (u.undoStack.map Task.id ++ u.redoStack.map Task.id)

/-- The session with another store. -/
def withStore (store : LocalStore) : Session :=
  { u with store := store }

/-- `deleteTask(id:undoManager:)`. -/
def deleteTaskUndoably (id : String) (now : Date) : Session :=
  match taskWithId u.store.tasks id with
  | none => u
  | some task =>
    { store := u.store.deleteTask id now, undoStack := task :: u.undoStack, redoStack := [] }

/-- Run the action of `registerUndoForTaskDeletion` on top of the undo stack. -/
def undo (now : Date) : Session :=
  match u.undoStack with
  | [] => u
  | task :: undoStack =>
    { store := (u.store.addTask task now).1
      undoStack := undoStack
      redoStack := task :: u.redoStack }

/-- Run the action of `registerRedoForTaskDeletion` on top of the redo stack. -/
def redo (now : Date) : Session :=
  match u.redoStack with
  | [] => u
  | task :: redoStack =>
    { store := u.store.deleteTask task.id now
      undoStack := task :: u.undoStack
      redoStack := redoStack }

/-- Run an operation at the instant `e.1`. -/
def step (e : Date × Operation) (u : Session) : Option Session :=
  let now := e.1
  match e.2 with
  | .addTask task => some (u.withStore (u.store.addTask task now).1)
  | .addSubtask parentId title priority id =>
    some (u.withStore (u.store.addSubtask parentId title priority id now).1)
  | .setParent taskId parentId => some (u.withStore (u.store.setParent taskId parentId now))
  | .updateTask id updates => some (u.withStore (u.store.updateTask id updates now))
  | .completeTask id => some (u.withStore (u.store.completeTask id now))
  | .restoreTask id => some (u.withStore (u.store.restoreTask id now))
  | .deleteTask id => some (u.withStore (u.store.deleteTask id now))
  | .deleteTaskUndoably id => some (u.deleteTaskUndoably id now)
  | .undo => some (u.undo now)
  | .redo => some (u.redo now)
  | .deleteParentTask id strategy =>
    some (u.withStore (u.store.deleteParentTask id strategy now))
  | .reorderTasks orderedIds => (u.store.reorderTasks orderedIds now).map u.withStore
  | .deleteCategory id replacementId =>
    some (u.withStore (u.store.deleteCategory id replacementId now))
  | .applySharedImports notes tasks =>
    some (u.withStore (u.store.applySharedImports notes tasks now))
  | .applyRemoteTasks tasks => (u.store.applyRemoteTasks tasks).map u.withStore
  | .applyRemoteSnapshot notes tasks categories =>
    (u.store.applyRemoteSnapshot notes tasks categories).map u.withStore

end Session

namespace Operation

/-- What the callers of an operation provide, in the session it is called in. -/
def Legal (e : Date × Operation) (u : Session) : Prop :=
  match e.2 with
  | addTask task => task.id ∉ u.knownIds
  | addSubtask _ _ _ id => id ∉ u.knownIds
  | updateTask _ updates => ∀ t, (updates.apply t).parentTaskId = t.parentTaskId
  | reorderTasks orderedIds => orderedIds.Nodup
  | applySharedImports _ tasks =>
    (tasks.map Task.id).Nodup ∧ ∀ t ∈ tasks, t.id ∉ u.knownIds
  | applyRemoteTasks tasks => (tasks.map Task.id).Nodup
  | applyRemoteSnapshot _ tasks _ => (tasks.map Task.id).Nodup
  | _ => True

/-- Not a delivery of remote data. -/
def isLocal : Operation → Bool
  | applyRemoteTasks _ => false
  | applyRemoteSnapshot _ _ _ => false
  | _ => true

end Operation

end Notelayer
