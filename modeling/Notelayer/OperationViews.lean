import Notelayer.TaskView

/-!
# Each operation on the forest

With distinct ids every task operation is an update of the forest at one id, followed by
a reconcile of the parents involved (`view_addTask` to `view_restoreTask`). Reordering,
category removal and editing keep the links, and the two repairs of remote data agree
(`Task.migrated_eq_sanitized`) and yield a forest that is one level deep
(`oneLevel_sanitized`).
-/

namespace Notelayer

open KeyedList

namespace LocalStore

variable {s : LocalStore}

/-! ## Identifiers -/

@[simp] theorem ids_reconcileParentCompletion (parentId : String) (r : Bool) (now : Date) :
    (s.reconcileParentCompletion parentId r now).tasks.map Task.id = s.tasks.map Task.id := by
  rcases s.reconcileParentCompletion_cases parentId r now with
    h | ⟨i, old, new, c, hi, hid, -, hid', -, -, h⟩
  · rw [h]
  · rw [h, tasks_spawnSync, tasks_saveTasks, tasks_setTask]
    exact map_key_set hi (hid'.trans hid.symm)

@[simp] theorem ids_reconcileParent (p : Option String) (r : Bool) (now : Date) :
    (s.reconcileParent p r now).tasks.map Task.id = s.tasks.map Task.id := by
  cases p with
  | none => rfl
  | some p => exact ids_reconcileParentCompletion p r now

theorem distinctIds_reconcileParent (hd : DistinctIds s.tasks) (p : Option String) (r : Bool)
    (now : Date) : DistinctIds (s.reconcileParent p r now).tasks :=
  distinctIds_congr (ids_reconcileParent p r now) hd

theorem view_reconcileParent (hd : DistinctIds s.tasks) (p : Option String) (r : Bool)
    (now : Date) : view (s.reconcileParent p r now).tasks =
      Forest.reconcileAt (view s.tasks) p r := by
  cases p with
  | none => rfl
  | some p => exact view_reconcileParentCompletion s hd p r now

/-- Only the parent is reconciled. -/
theorem taskWithId_reconcileParent (hd : DistinctIds s.tasks) {p : Option String} {x : String}
    (hx : p ≠ some x) (r : Bool) (now : Date) :
    taskWithId (s.reconcileParent p r now).tasks x = taskWithId s.tasks x := by
  cases p with
  | none => rfl
  | some p =>
    rcases s.reconcileParentCompletion_cases p r now with
      hs | ⟨i, old, new, c, hi, rfl, -, hid, -, -, hs⟩
    · rw [reconcileParent, hs]
    · rw [reconcileParent, hs, tasks_spawnSync, tasks_saveTasks, tasks_setTask,
        taskWithId_set hd hi hid, if_neg fun h => hx (congrArg some h.symm)]

/-! ## Adding -/

theorem ids_addTask (task : Task) (now : Date) :
    (s.addTask task now).1.tasks.map Task.id = s.tasks.map Task.id ++ [task.id] := by
  unfold addTask
  simp

theorem distinctIds_addTask (hd : DistinctIds s.tasks) {task : Task}
    (hnew : task.id ∉ s.tasks.map Task.id) (now : Date) :
    DistinctIds (s.addTask task now).1.tasks := by
  unfold DistinctIds DistinctKeys
  rw [ids_addTask, ← List.concat_eq_append]
  exact hd.concat hnew

/-- A parent that `attached` keeps is a top-level task. -/
theorem isRoot_of_attached {tasks : List Task} (hd : DistinctIds tasks) {t : Task} {p : String}
    (h : (t.attached tasks).parentTaskId = some p) : Forest.IsRoot (view tasks) p := by
  unfold Task.attached at h
  split at h
  · rename_i parentId hp
    split at h
    · rename_i parent hparent
      obtain rfl : parentId = p := by
        split_ifs at h
        · exact Option.some_inj.mp (hp.symm.trans h)
        · exact Option.some_inj.mp (hp.symm.trans h)
      exact isRoot_of_topLevelTaskWithId hd hparent
    · cases h
  · rename_i hp
    rw [show t.parentTaskId = none from hp] at h
    cases h

/-- An addition puts a node. -/
theorem view_addTask (hd : DistinctIds s.tasks) {task : Task} (hnew : task.id ∉ s.tasks.map Task.id)
    (now : Date) : view (s.addTask task now).1.tasks =
      Forest.put (view s.tasks) task.id
        ((task.ordered now.milliseconds).attached s.tasks).node true := by
  have hnew' : ((task.ordered now.milliseconds).attached s.tasks).id ∉ s.tasks.map Task.id := by
    simpa using hnew
  unfold addTask
  simp only [tasks_spawnSync, tasks_logTaskCreatedAnalytics, tasks_saveTasks]
  rw [view_reconcileParent (hd.append_singleton hnew'), tasks_withTasks,
    view_append_singleton hnew', Forest.put, Task.attached_id, Task.ordered_id,
    Task.node_parent]

/-! ## Moving and deleting -/

theorem hasSubtasks_iff (hd : DistinctIds s.tasks) {id : String} :
    s.hasSubtasks id = true ↔ Forest.HasChild (view s.tasks) id := by
  rw [hasChild_view_iff hd]
  simp [hasSubtasks]

theorem node_movedTask (task : Task) (parentId : Option String) (now : Date) :
    (s.movedTask task parentId now).node = task.node.under parentId := by
  unfold movedTask
  dsimp only
  split
  · simp [Task.node, Forest.Node.under]
  · split_ifs
    · split <;> simp [Task.node, Forest.Node.under]
    · simp [Task.node, Forest.Node.under]

theorem ids_setParent (taskId : String) (parentId : Option String) (now : Date) :
    (s.setParent taskId parentId now).tasks.map Task.id = s.tasks.map Task.id := by
  unfold setParent
  split
  · rfl
  · rename_i index task hentry
    split_ifs
    · rfl
    · simp only [tasks_spawnSync, ids_reconcileParent, tasks_saveTasks, tasks_setTask]
      exact map_key_set (firstEntry_eq_some hentry).1 (id_movedTask s task parentId now)

/-- `setParent` moves a task, or leaves the store as it is where it refuses. -/
theorem view_setParent (hd : DistinctIds s.tasks) (taskId : String) (parentId : Option String)
    (now : Date) : view (s.setParent taskId parentId now).tasks =
      if s.refusesParent taskId parentId then view s.tasks
      else Forest.reparent (view s.tasks) taskId parentId := by
  unfold setParent
  split
  · rename_i hentry
    have hnone := view_of_firstEntry_none hentry
    unfold Forest.reparent
    simp [hnone]
  · rename_i index task hentry
    obtain ⟨hi, rfl, hview⟩ := view_of_firstEntry hd hentry
    have hid := id_movedTask s task parentId now
    split_ifs
    · rfl
    · have hd' : DistinctIds (s.tasks.set index (s.movedTask task parentId now)) :=
        distinctIds_set hd hi hid
      unfold Forest.reparent
      simp only [hview]
      rw [tasks_spawnSync, view_reconcileParent (distinctIds_reconcileParent hd' _ _ _),
        view_reconcileParent hd', tasks_saveTasks, tasks_setTask, view_set hd hi hid,
        node_movedTask]
      rfl

/-- A parent that `setParent` accepts is another top-level task, and then the moved task has
no subtasks. -/
theorem of_not_refusesParent (hd : DistinctIds s.tasks) {taskId : String}
    {parentId : Option String} (h : ¬s.refusesParent taskId parentId = true) :
    ∀ p, parentId = some p → p ≠ taskId ∧ Forest.IsRoot (view s.tasks) p ∧
      ¬Forest.HasChild (view s.tasks) taskId := by
  rintro p rfl
  simp only [refusesParent, Option.any_some, decide_eq_true_eq, not_or] at h
  obtain ⟨hne, hsub, hroot⟩ := h
  rw [topLevelTaskWithId_eq_none_iff hd, not_not] at hroot
  refine ⟨hne, hroot, ?_⟩
  rwa [← hasSubtasks_iff hd]

theorem ids_deleteTask (id : String) (now : Date) :
    (s.deleteTask id now).tasks.map Task.id = (remove Task.id s.tasks id).map Task.id := by
  simp [deleteTask]

theorem ids_deleteTask_sublist (id : String) (now : Date) :
    ((s.deleteTask id now).tasks.map Task.id).Sublist (s.tasks.map Task.id) := by
  rw [ids_deleteTask]
  exact List.filter_sublist.map Task.id

theorem distinctIds_deleteTask (hd : DistinctIds s.tasks) (id : String) (now : Date) :
    DistinctIds (s.deleteTask id now).tasks :=
  distinctIds_of_sublist (ids_deleteTask_sublist id now) hd

theorem view_deleteTask (hd : DistinctIds s.tasks) (id : String) (now : Date) :
    view (s.deleteTask id now).tasks = Forest.drop (view s.tasks) id := by
  unfold deleteTask
  rw [view_reconcileParent (by simpa using hd.remove id), Forest.drop, parentOf_view]
  simp [view_remove]

/-! ## Completing and editing -/

theorem ids_completeTask (id : String) (now : Date) :
    (s.completeTask id now).tasks.map Task.id = s.tasks.map Task.id := by
  unfold completeTask
  split
  · rfl
  · rename_i index oldTask hentry
    have hi := (firstEntry_eq_some hentry).1
    simp only [ids_reconcileParent, tasks_spawnSync, tasks_spawnCancelReminder, tasks_logEvent,
      tasks_saveTasks, tasks_setTask]
    exact map_key_set hi (oldTask.completed_id now)

/-- A completion by hand completes the node. -/
theorem view_completeTask (hd : DistinctIds s.tasks) (id : String) (now : Date) :
    view (s.completeTask id now).tasks = Forest.complete (view s.tasks) id := by
  unfold completeTask Forest.complete
  split
  · rename_i hentry
    rw [view_of_firstEntry_none hentry]
  · rename_i index oldTask hentry
    obtain ⟨hi, rfl, hview⟩ := view_of_firstEntry hd hentry
    simp only [hview]
    rw [view_reconcileParent, Forest.put]
    · simp only [tasks_spawnSync, tasks_spawnCancelReminder, tasks_logEvent, tasks_saveTasks,
        tasks_setTask]
      rw [view_set hd hi (oldTask.completed_id now)]
      rfl
    · simpa using distinctIds_set hd hi (oldTask.completed_id now)

/-- What is left of `restoreTask` on the list : one task is replaced and its parent
reconciled. -/
theorem restoreTask_cases (id : String) (now : Date) :
    (s.restoreTask id now = s ∧ firstEntry s.tasks (fun t => t.id = id) = none) ∨
    ∃ i old, ∃ s' : LocalStore, ∃ new, firstEntry s.tasks (fun t => t.id = id) = some (i, old) ∧
      new.id = old.id ∧ new.node = (old.reopened (s.subtaskCount old.id) now).node ∧
      s'.tasks = s.tasks.set i new ∧
      s.restoreTask id now = s'.reconcileParent new.parentTaskId true now := by
  unfold restoreTask
  split
  · rename_i hentry
    exact Or.inl ⟨rfl, hentry⟩
  · rename_i i old hentry
    have hr := s.restoreReminder_cases old (old.reopened (s.subtaskCount old.id) now) now
    revert hr
    dsimp only
    generalize s.restoreReminder old (old.reopened (s.subtaskCount old.id) now) now = r
    obtain ⟨s₁, new⟩ := r
    intro hr
    have hnew : s₁.tasks = s.tasks ∧ new.id = old.id ∧
        new.node = (old.reopened (s.subtaskCount old.id) now).node := by
      rcases hr with ⟨c, date, cs, n, -, h⟩ | ⟨date, n, h⟩
      · obtain ⟨rfl, rfl⟩ := Prod.mk.inj h
        simp
      · obtain ⟨rfl, rfl⟩ := Prod.mk.inj h
        simp [Task.node]
    obtain ⟨htasks, hid, hnode⟩ := hnew
    refine Or.inr ⟨i, old, _, new, hentry, hid, hnode, ?_, rfl⟩
    simp [htasks]

theorem ids_restoreTask (id : String) (now : Date) :
    (s.restoreTask id now).tasks.map Task.id = s.tasks.map Task.id := by
  rcases s.restoreTask_cases id now with ⟨h, -⟩ | ⟨i, old, s', new, hentry, hid, -, htasks, h⟩
  · rw [h]
  · rw [h, ids_reconcileParent, htasks]
    exact map_key_set (firstEntry_eq_some hentry).1 hid

theorem subtaskCount_pos_iff (hd : DistinctIds s.tasks) {id : String} :
    s.subtaskCount id > 0 ↔ Forest.HasChild (view s.tasks) id := by
  rw [hasChild_view_iff hd]
  simp [subtaskCount, List.countP_pos_iff]

/-- A restoration by hand opens the node. -/
theorem view_restoreTask (hd : DistinctIds s.tasks) (id : String) (now : Date) :
    view (s.restoreTask id now).tasks = Forest.reopen (view s.tasks) id := by
  classical
  unfold Forest.reopen
  rcases s.restoreTask_cases id now with
    ⟨h, hentry⟩ | ⟨i, old, s', new, hentry, hid, hnode, htasks, h⟩
  · rw [h, view_of_firstEntry_none hentry]
  · obtain ⟨hi, rfl, hview⟩ := view_of_firstEntry hd hentry
    have hd' : DistinctIds s'.tasks := htasks ▸ distinctIds_set hd hi hid
    have hnew : new.node = { old.node with
        complete := false
        reopened := old.node.reopened || decide (s.subtaskCount old.id > 0) } := by
      rw [hnode, Task.reopened]
      split_ifs with hc <;> simp [Task.node, hc]
    have hcount : decide (s.subtaskCount old.id > 0) =
        decide (Forest.HasChild (view s.tasks) old.id) :=
      decide_eq_decide.mpr (subtaskCount_pos_iff hd)
    rw [h, view_reconcileParent hd', htasks, view_set hd hi hid, ← Task.node_parent, hnew, hcount]
    simp only [hview]
    rfl

theorem updateTask_cases (id : String) (updates : TaskUpdate) (now : Date) :
    s.updateTask id updates now = s ∨
      ∃ i old, firstEntry s.tasks (fun t => t.id = id) = some (i, old) ∧
        (s.updateTask id updates now).tasks =
          s.tasks.set i (updates.applied old now) := by
  unfold updateTask
  split
  · exact Or.inl rfl
  · rename_i i old hentry
    exact Or.inr ⟨i, old, hentry, by simp⟩

theorem ids_updateTask (id : String) (updates : TaskUpdate) (now : Date) :
    (s.updateTask id updates now).tasks.map Task.id = s.tasks.map Task.id := by
  rcases s.updateTask_cases id updates now with h | ⟨i, old, hentry, h⟩
  · rw [h]
  · rw [h]
    exact map_key_set (firstEntry_eq_some hentry).1 (updates.applied_id old now)

theorem sameLinks_updateTask (hd : DistinctIds s.tasks) (id : String) {updates : TaskUpdate}
    (hlink : ∀ t, (updates.apply t).parentTaskId = t.parentTaskId) (now : Date) :
    Forest.SameLinks (view (s.updateTask id updates now).tasks) (view s.tasks) := by
  rcases s.updateTask_cases id updates now with h | ⟨i, old, hentry, h⟩
  · rw [h]
    exact fun _ => rfl
  · obtain ⟨hi, rfl, hview⟩ := view_of_firstEntry hd hentry
    rw [h, view_set hd hi (updates.applied_id old now)]
    exact Forest.sameLinks_update hview (hlink old)

/-! ## Reordering and categories -/

/-- The requested tasks followed by the others are the tasks, in another order. -/
theorem perm_reordered {tasks : List Task} (hd : DistinctIds tasks) {orderedIds : List String}
    (hn : orderedIds.Nodup) :
    (orderedIds.filterMap (taskWithId tasks) ++
      tasks.filter fun t => t.id ∉ orderedIds).Perm tasks :=
  perm_filterMap_lookup hd hn

/-- `reorderTasks` does not trap on distinct ids, and keeps ids and links. -/
theorem exists_reorderTasks (hd : DistinctIds s.tasks) {orderedIds : List String}
    (hn : orderedIds.Nodup) (now : Date) : ∃ s', s.reorderTasks orderedIds now = some s' ∧
      (s'.tasks.map Task.id).Perm (s.tasks.map Task.id) ∧ view s'.tasks = view s.tasks := by
  have hperm := perm_reordered hd hn
  have hnodes : ∀ (l : List Task) (base : ℤ),
      (l.mapIdx fun i t => t.reordered (base - i) now).map (fun t => (t.id, t.node)) =
        l.map fun t => (t.id, t.node) := by
    refine fun l base => map_mapIdx_eq_map (fun i t => ?_) l
    rfl
  unfold reorderTasks uniqueKeysWithValues
  rw [if_pos hd, Option.map_some]
  refine ⟨_, rfl, ?_⟩
  simp only [tasks_spawnSync, tasks_logEvent, tasks_saveTasks, tasks_withTasks]
  have hmap := congrArg
    (· ++ (s.tasks.filter fun t => t.id ∉ orderedIds).map fun t => (t.id, t.node))
    (hnodes (orderedIds.filterMap (taskWithId s.tasks)) now.milliseconds)
  simp only [← List.map_append] at hmap
  refine ⟨?_, ?_⟩
  · have hids := congrArg (List.map Prod.fst) hmap
    simp only [List.map_map] at hids
    exact hids ▸ hperm.map Task.id
  · exact (view_congr hmap).trans (view_perm (hd.perm hperm.symm) hperm).symm

/-- The ids in the order `reorderTasks` leaves them. -/
def reorderedIds (ids orderedIds : List String) : List String :=
  orderedIds.filter (· ∈ ids) ++ ids.filter (· ∉ orderedIds)

theorem ids_filterMap_taskWithId (tasks : List Task) (ids : List String) :
    (ids.filterMap (taskWithId tasks)).map Task.id = ids.filter (· ∈ tasks.map Task.id) :=
  keys_filterMap_lookup tasks ids

/-- A reordering permutes the tasks and spawns one upload. -/
theorem reorderTasks_eq_some {s' : LocalStore} {orderedIds : List String} {now : Date}
    (h : s.reorderTasks orderedIds now = some s') :
    s'.tasks.map Task.id = reorderedIds (s.tasks.map Task.id) orderedIds ∧
      s'.spawned = s.spawned ++ (s.syncingBackend.map Closure.upsertStoreTasks).toList ∧
      s'.syncingBackend = s.syncingBackend := by
  unfold reorderTasks uniqueKeysWithValues at h
  obtain ⟨taskMap, htaskMap, rfl⟩ := Option.map_eq_some_iff.mp h
  split_ifs at htaskMap
  obtain rfl := Option.some_inj.mp htaskMap
  refine ⟨?_, by simp, by simp⟩
  simp only [tasks_spawnSync, tasks_logEvent, tasks_saveTasks, tasks_withTasks, List.map_append,
    reorderedIds]
  congr 1
  · rw [← ids_filterMap_taskWithId]
    refine map_mapIdx_eq_map (fun i t => ?_) _
    rfl
  · rw [List.filter_map]
    rfl

theorem ids_deleteCategory (id : String) (replacementId : Option String) (now : Date) :
    (s.deleteCategory id replacementId now).tasks.map Task.id = s.tasks.map Task.id := by
  rw [tasks_deleteCategory, List.map_map]
  exact List.map_congr_left fun t _ => id_withoutCategoryIf id _ now t

theorem view_deleteCategory (id : String) (replacementId : Option String) (now : Date) :
    view (s.deleteCategory id replacementId now).tasks = view s.tasks := by
  rw [tasks_deleteCategory]
  refine view_congr ?_
  rw [List.map_map]
  refine List.map_congr_left fun t _ => ?_
  rw [Function.comp_apply]
  unfold withoutCategoryIf
  split_ifs <;> rfl

/-! ## Imports -/

theorem distinctIds_applySharedImports (hd : DistinctIds s.tasks) (ns : List Note)
    {ts : List Task} (hts : (ts.map Task.id).Nodup)
    (hnew : ∀ t ∈ ts, t.id ∉ s.tasks.map Task.id) (now : Date) :
    DistinctIds (s.applySharedImports ns ts now).tasks := by
  unfold DistinctIds DistinctKeys
  rw [tasks_applySharedImports, List.map_append, ids_preparedTasks, List.nodup_append]
  refine ⟨hd, hts, ?_⟩
  rintro a ha b hb rfl
  obtain ⟨t, ht, rfl⟩ := List.mem_map.mp hb
  exact hnew t ht ha

/-- The parents of imported tasks are top-level tasks from before. -/
theorem oneLevel_applySharedImports (hd : DistinctIds s.tasks)
    (ho : Forest.OneLevel (view s.tasks)) (ns : List Note) {ts : List Task}
    (hts : (ts.map Task.id).Nodup) (hnew : ∀ t ∈ ts, t.id ∉ s.tasks.map Task.id) (now : Date) :
    Forest.OneLevel (view (s.applySharedImports ns ts now).tasks) := by
  have hd' := distinctIds_applySharedImports hd ns hts hnew now
  rw [oneLevel_view_iff hd']
  rw [tasks_applySharedImports]
  have hroot : ∀ t ∈ s.tasks ++ s.preparedTasks ts now, ∀ p, t.parentTaskId = some p →
      Forest.IsRoot (view s.tasks) p := by
    intro t ht p hp
    rcases List.mem_append.mp ht with ht | ht
    · exact ho t.id p ((isChild_view_iff hd).mpr ⟨t, ht, rfl, hp⟩)
    · obtain ⟨i, hi, rfl⟩ := List.mem_mapIdx.mp ht
      exact isRoot_of_attached hd hp
  intro t ht p hp
  obtain ⟨parent, hparent, hid⟩ := (isRoot_view_iff hd).mp (hroot t ht p hp)
  exact ⟨parent, List.mem_append_left _ hparent, hid⟩

/-! ## Subtasks and parents with their subtasks -/

/-- `addSubtask` refuses, or adds a task. -/
theorem addSubtask_cases (parentId title : String) (priority : Priority) (id : String)
    (now : Date) : (s.addSubtask parentId title priority id now).1 = s ∨
      ∃ task, task.id = id ∧
        (s.addSubtask parentId title priority id now).1 = (s.addTask task now).1 := by
  unfold addSubtask
  split
  · exact Or.inl rfl
  · dsimp only
    split_ifs
    · exact Or.inl rfl
    · exact Or.inr ⟨_, rfl, rfl⟩

/-- The ids of the subtasks, as `deleteParentTask` goes through them. -/
def childIds (s : LocalStore) (parentId : String) : List String :=
  (s.subtasks parentId none).map Task.id

theorem mem_childIds (hd : DistinctIds s.tasks) {parentId c : String} :
    c ∈ s.childIds parentId ↔ Forest.IsChild (view s.tasks) c parentId := by
  rw [isChild_view_iff hd]
  unfold childIds subtasks
  simp only [List.mem_map, List.mem_insertionSort, List.mem_filter, decide_eq_true_eq,
    Option.all_none, and_true]
  refine exists_congr fun t => ?_
  rw [and_assoc, and_comm (a := t.parentTaskId = some parentId)]

theorem perm_childIds (s : LocalStore) (id : String) : (s.childIds id).Perm
    ((s.tasks.filter fun t => t.parentTaskId = some id).map Task.id) := by
  unfold childIds subtasks
  refine (List.perm_insertionSort _ _).map Task.id |>.trans (List.Perm.of_eq ?_)
  simp

theorem nodup_childIds (hd : DistinctIds s.tasks) (id : String) : (s.childIds id).Nodup :=
  (s.perm_childIds id).nodup_iff.mpr (List.Nodup.sublist (List.filter_sublist.map Task.id) hd)

theorem ids_foldl_deleteTask (ks : List String) (now : Date) :
    ((ks.foldl (fun s k => s.deleteTask k now) s).tasks.map Task.id).Sublist
      (s.tasks.map Task.id) := by
  induction ks generalizing s with
  | nil => exact List.Sublist.refl _
  | cons k ks ih => exact ih.trans (ids_deleteTask_sublist k now)

theorem ids_foldl_deleteTask_eq (ks : List String) (now : Date) :
    (ks.foldl (fun s k => s.deleteTask k now) s).tasks.map Task.id =
      (s.tasks.map Task.id).filter (· ∉ ks) := by
  induction ks generalizing s with
  | nil => simp
  | cons k ks ih =>
    rw [List.foldl_cons, ih, ids_deleteTask, map_key_remove, List.filter_filter]
    refine List.filter_congr fun x _ => ?_
    simp [Bool.and_comm]

theorem view_foldl_deleteTask (hd : DistinctIds s.tasks) (ks : List String) (now : Date) :
    view (ks.foldl (fun s k => s.deleteTask k now) s).tasks = Forest.dropAll (view s.tasks) ks := by
  unfold Forest.dropAll
  induction ks generalizing s with
  | nil => rfl
  | cons k ks ih =>
    rw [List.foldl_cons, List.foldl_cons, ih, view_deleteTask hd]
    exact distinctIds_deleteTask hd k now

theorem ids_foldl_setParent (ks : List String) (now : Date) :
    (ks.foldl (fun s k => s.setParent k none now) s).tasks.map Task.id = s.tasks.map Task.id := by
  induction ks generalizing s with
  | nil => rfl
  | cons k ks ih => rw [List.foldl_cons, ih, ids_setParent]

theorem view_foldl_setParent (hd : DistinctIds s.tasks) (ks : List String) (now : Date) :
    view (ks.foldl (fun s k => s.setParent k none now) s).tasks =
      Forest.detachAll (view s.tasks) ks := by
  unfold Forest.detachAll
  induction ks generalizing s with
  | nil => rfl
  | cons k ks ih =>
    rw [List.foldl_cons, List.foldl_cons, ih, view_setParent hd]
    · rfl
    · exact distinctIds_congr (ids_setParent k none now) hd

/-- A task without subtasks is deleted alone, as it is after a loop over none. -/
theorem deleteParentTask_eq (hd : DistinctIds s.tasks) (id : String)
    (strategy : ParentTaskDeletionStrategy) (now : Date) :
    s.deleteParentTask id strategy now = deleteTask (match strategy with
      | .deleteSubtasks => (s.childIds id).foldl (fun s k => s.deleteTask k now) s
      | .detachSubtasks => (s.childIds id).foldl (fun s k => s.setParent k none now) s) id now := by
  unfold deleteParentTask
  split_ifs with h
  · cases strategy <;> rfl
  · have hnil : s.childIds id = [] := by
      refine List.eq_nil_iff_forall_not_mem.mpr fun c hc => h ?_
      exact (hasSubtasks_iff hd).mpr ⟨c, (mem_childIds hd).mp hc⟩
    rw [hnil]
    cases strategy <;> rfl

theorem ids_deleteParentTask (id : String) (strategy : ParentTaskDeletionStrategy) (now : Date) :
    ((s.deleteParentTask id strategy now).tasks.map Task.id).Sublist (s.tasks.map Task.id) := by
  unfold deleteParentTask
  split_ifs
  · cases strategy with
    | deleteSubtasks => exact (ids_deleteTask_sublist id now).trans (ids_foldl_deleteTask _ now)
    | detachSubtasks =>
      refine (ids_deleteTask_sublist id now).trans ?_
      rw [ids_foldl_setParent]
  · exact ids_deleteTask_sublist id now

/-- The subtasks are deleted or detached one by one, then the task itself is deleted. -/
theorem view_deleteParentTask (hd : DistinctIds s.tasks) (id : String)
    (strategy : ParentTaskDeletionStrategy) (now : Date) :
    view (s.deleteParentTask id strategy now).tasks = Forest.drop (match strategy with
      | .deleteSubtasks => Forest.dropAll (view s.tasks) (s.childIds id)
      | .detachSubtasks => Forest.detachAll (view s.tasks) (s.childIds id)) id := by
  rw [deleteParentTask_eq hd]
  cases strategy with
  | deleteSubtasks =>
    dsimp only
    rw [view_deleteTask (distinctIds_of_sublist (ids_foldl_deleteTask _ now) hd),
      view_foldl_deleteTask hd]
  | detachSubtasks =>
    dsimp only
    rw [view_deleteTask (distinctIds_congr (ids_foldl_setParent _ now) hd),
      view_foldl_setParent hd]

end LocalStore

/-! ## Repairing remote data -/

/-- The two repairs of parent links agree. -/
theorem Task.migrated_eq_sanitized (lookup : String → Option Task) (t : Task) :
    t.migrated lookup = t.sanitized lookup := by
  unfold Task.migrated Task.sanitized
  cases t with
  | mk id title categories priority dueDate completedAt taskNotes createdAt updatedAt orderIndex
      reminderDate reminderNotificationId parentTaskId parentManualReopenAt =>
    cases parentTaskId with
    | none => rfl
    | some p =>
      have hiff : (lookup p = none ∨ ¬(lookup p).bind Task.parentTaskId = none ∨ p = id) ↔
          (p = id ∨ (lookup p).bind Task.parentTaskId ≠ none ∨ lookup p = none) := by tauto
      rcases Classical.em (p = id ∨ (lookup p).bind Task.parentTaskId ≠ none ∨ lookup p = none)
        with h | h
      · simp only [if_pos h, if_pos (hiff.mpr h)]
        rfl
      · simp only [if_neg h, if_neg (mt hiff.mp h)]
        cases parentManualReopenAt <;> rfl

/-- The repair touches the link and the override only. -/
theorem Task.exists_sanitized_eq (lookup : String → Option Task) (t : Task) :
    ∃ parentTaskId parentManualReopenAt, t.sanitized lookup =
      { t with parentTaskId := parentTaskId, parentManualReopenAt := parentManualReopenAt } := by
  unfold sanitized
  dsimp only
  split
  · split_ifs <;> exact ⟨_, _, rfl⟩
  · split_ifs <;> exact ⟨_, _, rfl⟩

@[simp] theorem Task.sanitized_id (lookup : String → Option Task) (t : Task) :
    (t.sanitized lookup).id = t.id := by
  obtain ⟨_, _, h⟩ := t.exists_sanitized_eq lookup
  rw [h]

/-- A parent link that the repair keeps names another task, which is top-level. -/
theorem Task.parent_of_sanitized {lookup : String → Option Task} {t : Task} {p : String}
    (h : (t.sanitized lookup).parentTaskId = some p) :
    ∃ parent, lookup p = some parent ∧ parent.parentTaskId = none := by
  unfold Task.sanitized at h
  cases ht : t.parentTaskId with
  | none => simp [ht] at h
  | some q =>
    simp only [ht] at h
    rcases Classical.em (q = t.id ∨ (lookup q).bind Task.parentTaskId ≠ none ∨ lookup q = none)
      with hq | hq
    · simp only [if_pos hq] at h
      cases h
    · simp only [if_neg hq, ht, Option.isSome_some, if_true] at h
      obtain rfl := Option.some_inj.mp h
      simp only [not_or, not_not, ne_eq] at hq
      obtain ⟨-, hroot, hsome⟩ := hq
      obtain ⟨parent, hparent⟩ := Option.ne_none_iff_exists'.mp hsome
      exact ⟨parent, hparent, by simpa [hparent] using hroot⟩

/-- A top-level task stays one. -/
theorem Task.sanitized_root {lookup : String → Option Task} {t : Task}
    (h : t.parentTaskId = none) : (t.sanitized lookup).parentTaskId = none := by
  unfold Task.sanitized
  simp [h]

theorem ids_sanitized (tasks : List Task) (lookup : String → Option Task) :
    (tasks.map (Task.sanitized lookup)).map Task.id = tasks.map Task.id := by
  simp

/-- A repaired list is one level deep. -/
theorem oneLevel_sanitized {tasks : List Task} (hd : DistinctIds tasks) :
    Forest.OneLevel (view (tasks.map (Task.sanitized (lookup Task.id tasks)))) := by
  rw [oneLevel_view_iff (distinctIds_congr (ids_sanitized _ _) hd)]
  intro t' ht' p hp
  obtain ⟨t, ht, rfl⟩ := List.mem_map.mp ht'
  obtain ⟨parent, hparent, hroot⟩ := Task.parent_of_sanitized hp
  refine ⟨parent.sanitized (lookup Task.id tasks), List.mem_map_of_mem (mem_of_lookup hparent), ?_,
    Task.sanitized_root hroot⟩
  rw [Task.sanitized_id, key_of_lookup hparent]

namespace LocalStore

variable {s : LocalStore}

/-- On distinct ids a remote task list replaces the tasks by its repair. -/
theorem applyRemoteTasks_of_distinctIds {tasks : List Task} (hd : DistinctIds tasks) :
    ∃ s', s.applyRemoteTasks tasks = some s' ∧
      s'.tasks = tasks.map (Task.sanitized (lookup Task.id tasks)) := by
  unfold applyRemoteTasks applyRemoteUpdate sanitizeHierarchy uniqueKeysWithValues
  rw [if_pos hd]
  exact ⟨_, rfl, rfl⟩

/-- `migrateIfNeeded` traps on a repeated id only, and repairs the tasks once more. -/
theorem migrateIfNeeded_of_distinctIds (hd : DistinctIds s.tasks) :
    ∃ s', s.migrateIfNeeded = some s' ∧ s'.notes = s.notes ∧
      s'.tasks = s.tasks.map (Task.sanitized (lookup Task.id s.tasks)) := by
  have hcategories : s.migrateEmptyCategories.tasks = s.tasks ∧
      s.migrateEmptyCategories.notes = s.notes := by
    unfold migrateEmptyCategories
    split_ifs <;> exact ⟨rfl, rfl⟩
  have hposition : ∀ s : LocalStore, s.migrateUncategorizedPosition.tasks = s.tasks ∧
      s.migrateUncategorizedPosition.notes = s.notes := by
    intro s
    unfold migrateUncategorizedPosition
    dsimp only
    split_ifs <;> exact ⟨rfl, rfl⟩
  have hmigrated : Task.migrated (lookup Task.id s.tasks) =
      Task.sanitized (lookup Task.id s.tasks) :=
    funext (Task.migrated_eq_sanitized _)
  unfold migrateIfNeeded uniqueKeysWithValues
  simp only [(hposition _).1, hcategories.1]
  rw [if_pos hd, Option.map_some, hmigrated]
  refine ⟨_, rfl, ?_, ?_⟩
  · split_ifs <;> exact (hposition _).2.trans hcategories.2
  · split_ifs <;> rfl

/-- On distinct ids a snapshot replaces the notes, and the tasks by their repair, which is then
repaired again. -/
theorem exists_applyRemoteSnapshot (notes : List Note) {tasks : List Task}
    (hd : DistinctIds tasks) (categories : List Category) :
    ∃ s', s.applyRemoteSnapshot notes tasks categories = some s' ∧ s'.notes = notes ∧
      s'.tasks = (tasks.map (Task.sanitized (lookup Task.id tasks))).map (Task.sanitized
        (lookup Task.id (tasks.map (Task.sanitized (lookup Task.id tasks))))) := by
  have hids := ids_sanitized tasks (lookup Task.id tasks)
  obtain ⟨s', hs', hnotes, htasks⟩ := migrateIfNeeded_of_distinctIds
    (s := { s with
      suppressBackendWrites := true
      notes := notes
      tasks := tasks.map (Task.sanitized (lookup Task.id tasks))
      categories := sortedByCategorySort categories }.saveNotes.saveTasks.saveCategories)
    (distinctIds_congr hids hd)
  unfold applyRemoteSnapshot applyRemoteUpdate sanitizeHierarchy
  rw [show uniqueKeysWithValues Task.id tasks = some (lookup Task.id tasks) from if_pos hd,
    Option.map_some]
  exact ⟨_, congrArg (Option.map _) hs', hnotes, htasks⟩

/-- The tasks of a snapshot keep their ids, and their list is one level deep. -/
theorem applyRemoteSnapshot_of_distinctIds (notes : List Note) {tasks : List Task}
    (hd : DistinctIds tasks) (categories : List Category) :
    ∃ s', s.applyRemoteSnapshot notes tasks categories = some s' ∧ s'.notes = notes ∧
      s'.tasks.map Task.id = tasks.map Task.id ∧ Forest.OneLevel (view s'.tasks) := by
  have hids := ids_sanitized tasks (lookup Task.id tasks)
  obtain ⟨s', hs', hnotes, htasks⟩ := exists_applyRemoteSnapshot (s := s) notes hd categories
  refine ⟨s', hs', hnotes, ?_, ?_⟩
  · rw [htasks, ids_sanitized]
    exact hids
  · rw [htasks]
    exact oneLevel_sanitized (distinctIds_congr hids hd)

/-- On distinct ids remote categories replace those of the store, which is migrated then. -/
theorem exists_migrated_applyRemoteCategories (hd : DistinctIds s.tasks)
    (categories : List Category) :
    ∃ s', { s with
        suppressBackendWrites := true
        categories := sortedByCategorySort categories }.saveCategories.migrateIfNeeded = some s' ∧
      s.applyRemoteCategories categories =
        some { s' with suppressBackendWrites := s.suppressBackendWrites } ∧
      s'.tasks = s.tasks.map (Task.sanitized (lookup Task.id s.tasks)) := by
  obtain ⟨s', hs', -, htasks⟩ := migrateIfNeeded_of_distinctIds
    (s := { s with
      suppressBackendWrites := true
      categories := sortedByCategorySort categories }.saveCategories) hd
  exact ⟨s', hs', congrArg (Option.map _) hs', htasks⟩

theorem applyRemoteCategories_of_distinctIds (categories : List Category)
    (hd : DistinctIds s.tasks) :
    ∃ s', s.applyRemoteCategories categories = some s' ∧ DistinctIds s'.tasks := by
  obtain ⟨s', -, happlied, htasks⟩ := exists_migrated_applyRemoteCategories hd categories
  refine ⟨_, happlied, ?_⟩
  dsimp only
  rw [htasks]
  exact distinctIds_congr (ids_sanitized _ _) hd

/-- A repeated id is a trap. -/
theorem applyRemoteSnapshot_of_not_distinctIds (notes : List Note) {tasks : List Task}
    (hd : ¬DistinctIds tasks) (categories : List Category) :
    s.applyRemoteSnapshot notes tasks categories = none := by
  unfold applyRemoteSnapshot applyRemoteUpdate sanitizeHierarchy
  rw [show uniqueKeysWithValues Task.id tasks = none from if_neg hd]
  rfl

end LocalStore

end Notelayer
