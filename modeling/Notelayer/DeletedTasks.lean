import Notelayer.Library.Ledger
import Notelayer.SessionIds

/-!
# Deleted tasks

A delete with the undo manager moves a task from the list to the undo stack, an undo moves it
back, and a redo moves it again. Only `deleteTask(id:)` and `deleteParentTask` let tasks go for
good, and even such a task comes back if it waits on the redo stack : the redo finds nothing to
delete, but its undo adds the task.

Over every run of local operations, a task is in the list or on the undo stack at most once, what
entered is there or was deleted for good, as often, and after all undos what is there is in the
list (`held_tasks_run`).
-/

namespace Notelayer

open KeyedList
open Ledger (Moves)

namespace Session

variable (u : Session)

/-- The ids of the tasks that are in the list or that an undo brings back. -/
def heldIds : List String :=
  u.store.tasks.map Task.id ++ u.undoStack.map Task.id

/-- The ids that an operation brings in. A redo brings its task to the undo stack even if it
is not in the list. -/
def enteredIds : Operation → List String
  | .addTask task => [task.id]
  | .addSubtask parentId title _ id =>
    if (topLevelTaskWithId u.store.tasks parentId).isSome ∧ (trimmed title).isEmpty = false then
      [id]
    else []
  | .applySharedImports _ tasks => tasks.map Task.id
  | .redo => (u.redoStack.head?.toList.map Task.id).filter (· ∉ u.store.tasks.map Task.id)
  | _ => []

/-- The ids that an operation deletes without the undo manager. -/
def deletedIds : Operation → List String
  | .deleteTask id => [id]
  | .deleteParentTask id .deleteSubtasks => id :: (u.store.subtasks id none).map Task.id
  | .deleteParentTask id .detachSubtasks => [id]
  | _ => []

/-- What an operation does to the tasks that the session holds. -/
def taskMoves (e : Date × Operation) (u : Session) : Moves String where
  entered := u.enteredIds e.2
  dropped := (u.store.tasks.map Task.id).filter (· ∈ u.deletedIds e.2)

variable {u}

/-! ## One operation -/

theorem perm_deleteTask (hd : DistinctIds u.store.tasks) {id : String}
    (hmem : id ∈ u.store.tasks.map Task.id) (now : Date) :
    (u.store.tasks.map Task.id).Perm
      (id :: (u.store.deleteTask id now).tasks.map Task.id) := by
  have herase : (u.store.deleteTask id now).tasks.map Task.id =
      (u.store.tasks.map Task.id).erase id := by
    rw [LocalStore.ids_deleteTask, map_key_remove, hd.erase_eq_filter]
    exact List.filter_congr fun k _ => Bool.eq_iff_iff.mpr (by simp)
  rw [herase]
  exact List.perm_cons_erase hmem

theorem subtasks_eq_nil {id : String} (h : ¬ u.store.hasSubtasks id = true) :
    u.store.subtasks id none = [] := by
  have hnone : u.store.tasks.filter (fun t => t.parentTaskId = some id) = [] := by
    simpa [LocalStore.hasSubtasks] using h
  simp [LocalStore.subtasks, hnone]

/-- A subtask comes last, if its title is not blank. -/
theorem ids_addSubtask (parentId title : String) (priority : Priority) (taskId : String)
    (now : Date) :
    (u.store.addSubtask parentId title priority taskId now).1.tasks.map Task.id =
      u.store.tasks.map Task.id ++ u.enteredIds (.addSubtask parentId title priority taskId) := by
  unfold LocalStore.addSubtask enteredIds
  split
  · rename_i hparent
    simp [hparent]
  · rename_i parent hparent
    dsimp only
    split_ifs with hempty hnew hnew
    · simp [hempty] at hnew
    · exact (List.append_nil _).symm
    · exact LocalStore.ids_addTask _ now
    · simp [hparent, hempty] at hnew

/-- What is left after a delete of a parent. -/
theorem ids_deleteParentTask_eq (id : String) (strategy : ParentTaskDeletionStrategy)
    (now : Date) : (u.store.deleteParentTask id strategy now).tasks.map Task.id =
      (u.store.tasks.map Task.id).filter
        (· ∉ u.deletedIds (.deleteParentTask id strategy)) := by
  unfold LocalStore.deleteParentTask
  split_ifs with hsub
  · rcases strategy with _ | _
    · change (LocalStore.deleteTask _ id now).tasks.map Task.id = _
      rw [LocalStore.ids_deleteTask, map_key_remove, LocalStore.ids_foldl_deleteTask_eq,
        List.filter_filter]
      exact List.filter_congr fun k _ => by simp [deletedIds]
    · change (LocalStore.deleteTask _ id now).tasks.map Task.id = _
      rw [LocalStore.ids_deleteTask, map_key_remove, LocalStore.ids_foldl_setParent]
      exact List.filter_congr fun k _ => by simp [deletedIds]
  · rw [LocalStore.ids_deleteTask, map_key_remove]
    have hsubtasks := subtasks_eq_nil hsub
    rcases strategy with _ | _
    · exact List.filter_congr fun k _ => by simp [deletedIds, hsubtasks]
    · exact List.filter_congr fun k _ => by simp [deletedIds]

/-- The list keeps its ids, in some order. -/
theorem balanced_of_perm {s' : LocalStore} {op : Operation}
    (hids : (s'.tasks.map Task.id).Perm (u.store.tasks.map Task.id))
    (hentered : u.enteredIds op = []) (hdeleted : u.deletedIds op = []) (now : Date) :
    Ledger.Balanced id u.heldIds (taskMoves (now, op) u) (u.withStore s').heldIds := by
  have hmoves : taskMoves (now, op) u = {} := by
    simp [taskMoves, hentered, hdeleted]
  unfold Ledger.Balanced heldIds withStore
  simpa [hmoves] using hids.symm.append_right (u.undoStack.map Task.id)

theorem balanced_of_ids_eq {s' : LocalStore} {op : Operation}
    (hids : s'.tasks.map Task.id = u.store.tasks.map Task.id) (hentered : u.enteredIds op = [])
    (hdeleted : u.deletedIds op = []) (now : Date) :
    Ledger.Balanced id u.heldIds (taskMoves (now, op) u) (u.withStore s').heldIds :=
  balanced_of_perm (.of_eq hids) hentered hdeleted now

/-- The list gets new ids. -/
theorem balanced_enter {s' : LocalStore} {op : Operation} {ids : List String}
    (hids : s'.tasks.map Task.id = u.store.tasks.map Task.id ++ ids)
    (hentered : u.enteredIds op = ids) (hdeleted : u.deletedIds op = []) (now : Date) :
    Ledger.Balanced id u.heldIds (taskMoves (now, op) u) (u.withStore s').heldIds := by
  unfold Ledger.Balanced heldIds withStore
  simp only [taskMoves, hentered, hdeleted, hids, List.append_assoc, List.map_id]
  simpa using List.perm_append_comm.append_left (u.store.tasks.map Task.id)

/-- Ids leave the list. -/
theorem balanced_delete {s' : LocalStore} {op : Operation}
    (hids : s'.tasks.map Task.id = (u.store.tasks.map Task.id).filter (· ∉ u.deletedIds op))
    (hentered : u.enteredIds op = []) (now : Date) :
    Ledger.Balanced id u.heldIds (taskMoves (now, op) u) (u.withStore s').heldIds := by
  have hpart : (u.store.tasks.map Task.id).Perm
      ((u.store.tasks.map Task.id).filter (· ∉ u.deletedIds op) ++
        (u.store.tasks.map Task.id).filter (· ∈ u.deletedIds op)) := by
    simpa using (List.filter_append_perm (· ∉ u.deletedIds op) (u.store.tasks.map Task.id)).symm
  have hmoves : taskMoves (now, op) u =
      { dropped := (u.store.tasks.map Task.id).filter (· ∈ u.deletedIds op) } := by
    simp [taskMoves, hentered]
  rw [hmoves]
  refine Ledger.Balanced.drop ?_
  unfold heldIds withStore
  rw [hids, List.append_assoc]
  refine (hpart.append_right _).trans ?_
  rw [List.append_assoc]
  exact List.perm_append_comm.append_left _

theorem heldIds_undo (u : Session) (now : Date) : (u.undo now).heldIds = u.heldIds := by
  unfold Session.undo heldIds
  split
  · rfl
  · rename_i task undoStack hstack
    simp only [hstack, LocalStore.ids_addTask, List.map_cons, List.append_assoc]
    rfl

theorem balanced_undo (now : Date) :
    Ledger.Balanced id u.heldIds (taskMoves (now, .undo) u) (u.undo now).heldIds := by
  have hmoves : taskMoves (now, .undo) u = {} := by
    simp [taskMoves, enteredIds, deletedIds]
  rw [heldIds_undo, hmoves]
  exact Ledger.Balanced.refl _

/-- A task of the list goes to the undo stack. -/
theorem perm_deleteTask_append (hd : DistinctIds u.store.tasks) {taskId : String}
    (hmem : taskId ∈ u.store.tasks.map Task.id) (now : Date) (undoStack : List Task) :
    (u.store.tasks.map Task.id ++ undoStack.map Task.id).Perm
      ((u.store.deleteTask taskId now).tasks.map Task.id ++ taskId :: undoStack.map Task.id) :=
  ((perm_deleteTask hd hmem now).append_right _).trans List.perm_middle.symm

/-- A deletion moves the task to the undo stack. -/
theorem balanced_deleteTaskUndoably (hd : DistinctIds u.store.tasks) (taskId : String)
    (now : Date) : Ledger.Balanced id u.heldIds (taskMoves (now, .deleteTaskUndoably taskId) u)
      (u.deleteTaskUndoably taskId now).heldIds := by
  have hheld : u.heldIds.Perm (u.deleteTaskUndoably taskId now).heldIds := by
    unfold Session.deleteTaskUndoably
    split
    · exact .refl _
    · rename_i task htask
      obtain rfl : task.id = taskId := key_of_lookup htask
      exact perm_deleteTask_append hd (List.mem_map_of_mem (mem_of_lookup htask)) now u.undoStack
  have hmoves : taskMoves (now, .deleteTaskUndoably taskId) u = {} := by
    simp [taskMoves, enteredIds, deletedIds]
  unfold Ledger.Balanced
  simpa [hmoves] using hheld

/-- A redo moves the task back to the undo stack. -/
theorem balanced_redo (hd : DistinctIds u.store.tasks) (now : Date) :
    Ledger.Balanced id u.heldIds (taskMoves (now, .redo) u) (u.redo now).heldIds := by
  have hmoves : taskMoves (now, .redo) u = { entered := u.enteredIds .redo } := by
    simp [taskMoves, deletedIds]
  rw [hmoves]
  unfold Session.redo
  split
  · rename_i hstack
    have hentered : u.enteredIds .redo = [] := by
      simp [enteredIds, hstack]
    rw [hentered]
    exact Ledger.Balanced.refl _
  · rename_i task redoStack hstack
    by_cases hmem : task.id ∈ u.store.tasks.map Task.id
    · have hentered : u.enteredIds .redo = [] := by
        simpa [enteredIds, hstack] using hmem
      rw [hentered]
      unfold Ledger.Balanced
      simpa [heldIds] using perm_deleteTask_append hd hmem now u.undoStack
    · have hentered : u.enteredIds .redo = [task.id] := by
        simpa [enteredIds, hstack] using hmem
      have hids : (u.store.deleteTask task.id now).tasks.map Task.id =
          u.store.tasks.map Task.id := by
        rw [LocalStore.ids_deleteTask, map_key_remove, List.filter_eq_self]
        exact fun k hk => decide_eq_true fun heq => hmem (heq ▸ hk)
      rw [hentered]
      unfold Ledger.Balanced heldIds
      simpa [hids] using (List.perm_append_singleton task.id (u.undoStack.map Task.id)).append_left
        (u.store.tasks.map Task.id)

/-- A legal local operation loses no task, and makes none. -/
theorem balanced_taskMoves {e : Date × Operation} {u' : Session} (h : u.IdsOk)
    (hlocal : e.2.isLocal = true) (hl : Operation.Legal e u) (hs : step e u = some u') :
    Ledger.Balanced id u.heldIds (taskMoves e u) u'.heldIds := by
  obtain ⟨now, op⟩ := e
  cases op with
  | addTask task =>
    obtain rfl := Option.some_inj.mp hs
    exact balanced_enter (LocalStore.ids_addTask task now) rfl rfl now
  | addSubtask parentId title priority taskId =>
    obtain rfl := Option.some_inj.mp hs
    exact balanced_enter (ids_addSubtask parentId title priority taskId now) rfl rfl now
  | setParent taskId parentId =>
    obtain rfl := Option.some_inj.mp hs
    exact balanced_of_ids_eq (LocalStore.ids_setParent taskId parentId now) rfl rfl now
  | updateTask taskId updates =>
    obtain rfl := Option.some_inj.mp hs
    exact balanced_of_ids_eq (LocalStore.ids_updateTask taskId updates now) rfl rfl now
  | completeTask taskId =>
    obtain rfl := Option.some_inj.mp hs
    exact balanced_of_ids_eq (LocalStore.ids_completeTask taskId now) rfl rfl now
  | restoreTask taskId =>
    obtain rfl := Option.some_inj.mp hs
    exact balanced_of_ids_eq (LocalStore.ids_restoreTask taskId now) rfl rfl now
  | deleteTask taskId =>
    obtain rfl := Option.some_inj.mp hs
    refine balanced_delete ?_ rfl now
    rw [LocalStore.ids_deleteTask, map_key_remove]
    exact List.filter_congr fun k _ => by simp [deletedIds]
  | deleteTaskUndoably taskId =>
    obtain rfl := Option.some_inj.mp hs
    exact balanced_deleteTaskUndoably h.distinctIds taskId now
  | undo =>
    obtain rfl := Option.some_inj.mp hs
    exact balanced_undo now
  | redo =>
    obtain rfl := Option.some_inj.mp hs
    exact balanced_redo h.distinctIds now
  | deleteParentTask taskId strategy =>
    obtain rfl := Option.some_inj.mp hs
    exact balanced_delete (ids_deleteParentTask_eq taskId strategy now) rfl now
  | reorderTasks orderedIds =>
    obtain ⟨s', hs', hids, -⟩ := LocalStore.exists_reorderTasks h.distinctIds hl now
    have hsome : step (now, .reorderTasks orderedIds) u = some (u.withStore s') :=
      congrArg (Option.map u.withStore) hs'
    obtain rfl := Option.some_inj.mp (hsome.symm.trans hs)
    exact balanced_of_perm hids rfl rfl now
  | deleteCategory categoryId replacementId =>
    obtain rfl := Option.some_inj.mp hs
    exact balanced_of_ids_eq (LocalStore.ids_deleteCategory categoryId replacementId now) rfl rfl
      now
  | applySharedImports notes tasks =>
    obtain rfl := Option.some_inj.mp hs
    have hids : (u.store.applySharedImports notes tasks now).tasks.map Task.id =
        u.store.tasks.map Task.id ++ tasks.map Task.id := by
      rw [LocalStore.tasks_applySharedImports, List.map_append, LocalStore.ids_preparedTasks]
    exact balanced_enter hids rfl rfl now
  | applyRemoteTasks tasks => cases hlocal
  | applyRemoteSnapshot notes tasks categories => cases hlocal

/-! ## Every run -/

/-- A legal operation that is not a delivery. -/
def LegalHere (e : Date × Operation) (u : Session) : Prop :=
  e.2.isLocal = true ∧ Operation.Legal e u

theorem idsOk_legalHere (e : Date × Operation) (u u' : Session) (h : u.IdsOk)
    (hg : LegalHere e u) (hs : step e u = some u') : u'.IdsOk :=
  idsOk_step h hg.1 hg.2 hs

/-- Undo until the stack is empty. -/
def undoneAll (now : Date) (u : Session) : Session :=
  (Session.undo · now)^[u.undoStack.length] u

/-- Undoing everything brings back every task that is held. -/
theorem ids_undoneAll (now : Date) (u : Session) :
    (u.undoneAll now).store.tasks.map Task.id = u.heldIds := by
  unfold undoneAll
  induction hn : u.undoStack.length generalizing u with
  | zero =>
    have hstack : u.undoStack = [] := List.length_eq_zero_iff.mp hn
    simp [heldIds, hstack]
  | succ n ih =>
    have hpop : (u.undo now).undoStack.length = n := by
      unfold Session.undo
      split
      · rename_i hstack
        simp [hstack] at hn
      · rename_i task undoStack hstack
        simpa [hstack] using hn
    rw [Function.iterate_succ_apply, ih (u.undo now) hpop, heldIds_undo]

/-- Over every run each task is in the list or on the undo stack at most once, what entered is
there or was deleted without the undo manager, as often, and undoing all that can be undone puts
what is there into the list. -/
theorem held_tasks_run {es : List (Date × Operation)} {t : Session} (h : u.IdsOk)
    (hg : Runs.Guarded step LegalHere es u) (hr : Runs.run step es u = some t) :
    t.heldIds.Nodup ∧
      (∀ taskId, t.heldIds.count taskId +
          (Moves.total step taskMoves es u).dropped.count taskId =
        u.heldIds.count taskId + (Moves.total step taskMoves es u).entered.count taskId) ∧
      ∀ now, (t.undoneAll now).store.tasks.map Task.id = t.heldIds := by
  have hbalanced : Ledger.Balanced id u.heldIds (Moves.total step taskMoves es u) t.heldIds :=
    Ledger.Balanced.of_guarded_run idsOk_legalHere
      (fun _ _ _ h hg hs => balanced_taskMoves h hg.1 hg.2 hs) h hg hr
  have ht : t.IdsOk := Runs.invariant_of_guarded idsOk_legalHere h hg hr
  refine ⟨ht.nodup, fun taskId => ?_, fun now => ids_undoneAll now t⟩
  have hcount := hbalanced.count_eq taskId
  simp only [List.map_id, List.count_append] at hcount
  have hdelivered : (Moves.total step taskMoves es u).delivered = [] :=
    Ledger.delivered_total_eq_nil (fun _ _ => rfl) es u
  rw [hdelivered, List.count_nil] at hcount
  omega

/-- A subtask is deleted and brought back, and then deleted with its parent. The redo finds nothing
to delete, and the undo adds the subtask again, alone. -/
def sampleDeletes : List (Date × Operation) :=
  [(.seconds 1, .deleteTaskUndoably Task.sampleSubtask.id), (.seconds 2, .undo),
    (.seconds 3, .deleteParentTask Task.sampleParent.id .deleteSubtasks), (.seconds 4, .redo),
    (.seconds 5, .undo)]

example : (Runs.run step sampleDeletes .sample).map heldIds = some [Task.sampleSubtask.id] := by
  decide

theorem held_tasks_run_sample : ∃ t, Runs.run step sampleDeletes .sample = some t ∧
    t.heldIds.Nodup ∧ ∀ taskId, t.heldIds.count taskId +
        (Moves.total step taskMoves sampleDeletes .sample).dropped.count taskId =
      Session.sample.heldIds.count taskId +
        (Moves.total step taskMoves sampleDeletes .sample).entered.count taskId := by
  have hg : Runs.Guarded step LegalHere sampleDeletes .sample := by
    refine ⟨⟨rfl, trivial⟩, fun _ _ => ⟨⟨rfl, trivial⟩, fun _ _ => ⟨⟨rfl, trivial⟩, fun _ _ => ?_⟩⟩⟩
    exact ⟨⟨rfl, trivial⟩, fun _ _ => ⟨⟨rfl, trivial⟩, fun _ _ => trivial⟩⟩
  obtain ⟨t, ht⟩ := Option.isSome_iff_exists.mp
    (by decide : (Runs.run step sampleDeletes .sample).isSome)
  obtain ⟨hnodup, hcount, -⟩ := held_tasks_run idsOk_sample hg ht
  exact ⟨t, ht, hnodup, hcount⟩

end Session

end Notelayer
