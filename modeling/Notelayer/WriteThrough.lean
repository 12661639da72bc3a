import Notelayer.Closures

/-!
# Writing tasks through to the backend

The closures an operation spawns carry the new versions of the tasks it changed, or read
them from the store when they run. `WritesThrough s s'` says that, replayed on the tasks of
`s`, the closures that `s'` has added give the tasks of `s'`. Every operation with a backend
attached does this (`writesThrough_step`).

So the stored tasks, with the writes that still wait, are the local tasks, a task apart
whose second write is due. Two steps can break it : the second write of a category deletion
stores tasks captured before, and the upload of a reopened parent reads an index computed
before. `SyncStep.WritesCurrent` is what they must meet.
-/

namespace Notelayer

open KeyedList MergeDocument

/-! ## Batches of writes -/

theorem putAll_eq_none_iff {tasks : List Task} {x : String} :
    putAll tasks x = none ↔ x ∉ tasks.map Task.id := by
  unfold putAll taskWithId
  rw [Option.map_eq_none_iff, lookup_eq_none_iff_notMem]
  simp

theorem putAll_eq_some {tasks : List Task} {x : String} {w : Write Task}
    (h : putAll tasks x = some w) : ∃ t ∈ tasks, t.id = x ∧ w = .set t := by
  obtain ⟨t, ht, rfl⟩ := Option.map_eq_some_iff.mp h
  exact ⟨t, List.mem_reverse.mp (mem_of_lookup ht), key_of_lookup ht, rfl⟩

theorem putAll_of_distinctIds {tasks : List Task} (hd : DistinctIds tasks) (x : String) :
    putAll tasks x = (taskWithId tasks x).map .set := by
  rw [putAll, taskWithId, lookup_perm hd (List.reverse_perm tasks).symm]
  rfl

theorem putAll_singleton (t : Task) (x : String) :
    putAll [t] x = if x = t.id then some (.set t) else none := by
  unfold putAll taskWithId lookup
  split_ifs with h
  · simp [h]
  · simp [Ne.symm h]

/-- What a closure writes in all, if it finds the tasks it reads as they are now. -/
def Closure.writes (tasks : List Task) : Closure → Data String Task
  | upsertStoreTasks _ => fun x => (taskWithId tasks x).map .set
  | upsertTaskAt _ _ parentId => fun x =>
    if x = parentId then (taskWithId tasks parentId).map .set else none
  | deleteCategory _ _ updatedTasks => putAll updatedTasks
  | closure => closure.data tasks

/-- A closure's write of a task depends on that task only. -/
theorem Closure.writes_congr (closure : Closure) {tasks tasks' : List Task} {x : String}
    (h : taskWithId tasks x = taskWithId tasks' x) :
    closure.writes tasks x = closure.writes tasks' x := by
  cases closure with
  | upsertStoreTasks b => simp only [writes, h]
  | upsertTaskAt b i p =>
    simp only [writes]
    split_ifs with hp
    · rw [← hp, h]
    · rfl
  | _ => rfl

/-! ## Operations write through -/

namespace LocalStore

/-- The closures that `s'` has added, replayed on the tasks of `s`, give those of `s'`. -/
structure WritesThrough (s s' : LocalStore) : Prop where
  syncingBackend : s'.syncingBackend = s.syncingBackend
  exists_new : ∃ new, s'.spawned = s.spawned ++ new ∧ ∀ x,
    mergeAll (taskWithId s.tasks) (new.map (Closure.writes s'.tasks)) x = taskWithId s'.tasks x

variable {s s₁ s₂ s' s'' : LocalStore} {b : FirestoreBackend}

theorem WritesThrough.of_eq (htasks : s'.tasks = s.tasks) (hspawned : s'.spawned = s.spawned)
    (hsyncing : s'.syncingBackend = s.syncingBackend) : s.WritesThrough s' :=
  ⟨hsyncing, [], by simp [hspawned], fun x => by rw [htasks]; rfl⟩

theorem WritesThrough.refl (s : LocalStore) : s.WritesThrough s :=
  .of_eq rfl rfl rfl

/-- Two changes that write through, one after the other. -/
theorem WritesThrough.trans (h : s.WritesThrough s') (h' : s'.WritesThrough s'') :
    s.WritesThrough s'' := by
  obtain ⟨new, hnew, hlocal⟩ := h.exists_new
  obtain ⟨new', hnew', hlocal'⟩ := h'.exists_new
  refine ⟨h'.syncingBackend.trans h.syncingBackend, new ++ new', ?_, fun x => ?_⟩
  · rw [hnew', hnew, List.append_assoc]
  · rw [List.map_append, mergeAll_append, ← hlocal' x]
    cases hlast : lastWrite (new'.map (Closure.writes s''.tasks)) x with
    | some w => rw [mergeAll_of_lastWrite hlast, mergeAll_of_lastWrite hlast]
    | none =>
      -- the task is as it was in `s'`, so the first closures write it as they did there
      have hsame : taskWithId s''.tasks x = taskWithId s'.tasks x := by
        rw [← hlocal' x, mergeAll_of_lastWrite_none hlast]
      refine mergeAll_congr ?_
      rw [mergeAll_congr_writes (lastWrite_map_congr fun c _ => c.writes_congr hsame)]
      exact hlocal x

/-- Tasks are changed without a closure (`s` to `s₁`), other steps write through (`s₁` to
`s₂`), and the closure spawned then writes all that was changed first. -/
theorem WritesThrough.spawnSync (h : s₁.WritesThrough s₂) (hspawned : s₁.spawned = s.spawned)
    (hsyncing : s₁.syncingBackend = s.syncingBackend) (hb : s.syncingBackend = some b)
    {f : FirestoreBackend → Closure}
    (hf : ∀ x, (f b).writes s₂.tasks x = some (.ofValue (taskWithId s₂.tasks x)) ∨
      (f b).writes s₂.tasks x = none ∧ taskWithId s₁.tasks x = taskWithId s.tasks x) :
    s.WritesThrough (s₂.spawnSync f) := by
  obtain ⟨new, hnew, hlocal⟩ := h.exists_new
  have hsyncing₂ := h.syncingBackend.trans hsyncing
  refine ⟨(syncingBackend_spawnSync s₂ f).trans hsyncing₂, new ++ [f b], ?_, fun x => ?_⟩
  · rw [spawned_spawnSync, hsyncing₂, hb, hnew, hspawned, List.append_assoc]
    rfl
  · rw [tasks_spawnSync, List.map_append, mergeAll_append]
    change merge _ ((f b).writes s₂.tasks) x = _
    rcases hf x with hw | ⟨hw, hx⟩
    · rw [merge_of_some hw, Write.value_ofValue]
    · rw [merge_of_none hw, mergeAll_congr hx.symm, hlocal]

/-- The closure writes the one task that was changed. -/
theorem WritesThrough.upsertTask (h : s₁.WritesThrough s₂) (hspawned : s₁.spawned = s.spawned)
    (hsyncing : s₁.syncingBackend = s.syncingBackend) (hb : s.syncingBackend = some b)
    {new : Task} (hnew : taskWithId s₂.tasks new.id = some new)
    (hothers : ∀ x, x ≠ new.id → taskWithId s₁.tasks x = taskWithId s.tasks x) :
    s.WritesThrough (s₂.spawnSync (.upsertTask · new)) := by
  refine h.spawnSync hspawned hsyncing hb fun x => ?_
  change putAll [new] x = _ ∨ putAll [new] x = none ∧ _
  rw [putAll_singleton]
  rcases eq_or_ne x new.id with rfl | hx
  · rw [if_pos rfl, hnew]
    exact Or.inl rfl
  · rw [if_neg hx]
    exact Or.inr ⟨rfl, hothers x hx⟩

/-- The closure writes every task of the list. -/
theorem WritesThrough.upsertStoreTasks (h : s₁.WritesThrough s₂)
    (hspawned : s₁.spawned = s.spawned) (hsyncing : s₁.syncingBackend = s.syncingBackend)
    (hb : s.syncingBackend = some b)
    (hids : ∀ x, x ∉ s₂.tasks.map Task.id → taskWithId s₁.tasks x = taskWithId s.tasks x) :
    s.WritesThrough (s₂.spawnSync .upsertStoreTasks) := by
  refine h.spawnSync hspawned hsyncing hb fun x => ?_
  change (taskWithId s₂.tasks x).map Write.set = _ ∨
    (taskWithId s₂.tasks x).map Write.set = none ∧ _
  cases hx : taskWithId s₂.tasks x with
  | none => exact Or.inr ⟨rfl, hids x (lookup_eq_none_iff_notMem.mp hx)⟩
  | some t => exact Or.inl rfl

theorem taskWithId_set (hd : DistinctIds s.tasks) {i : ℕ} {old new : Task}
    (hi : s.tasks[i]? = some old) (hid : new.id = old.id) (x : String) :
    taskWithId (s.setTask i new).tasks x =
      if x = new.id then some new else taskWithId s.tasks x := by
  rw [hid]
  exact lookup_set hd hi hid x

/-- One task is replaced, nothing else but the log changes, and the closure writes it. -/
theorem writesThrough_setTask (hd : DistinctIds s.tasks) (hb : s.syncingBackend = some b) {i : ℕ}
    {old new : Task} (hi : s.tasks[i]? = some old) (hid : new.id = old.id)
    (h : (s.setTask i new).WritesThrough s₂) (htasks : s₂.tasks = (s.setTask i new).tasks) :
    s.WritesThrough (s₂.spawnSync (.upsertTask · new)) := by
  refine h.upsertTask (s := s) rfl rfl hb ?_ fun x hx => ?_
  · rw [htasks, taskWithId_set hd hi hid, if_pos rfl]
  · rw [taskWithId_set hd hi hid, if_neg hx]

/-- A reconciliation writes through. -/
theorem writesThrough_reconcileParentCompletion (hd : DistinctIds s.tasks)
    (hb : s.syncingBackend = some b) (parentId : String) (r : Bool) (now : Date) :
    s.WritesThrough (s.reconcileParentCompletion parentId r now) := by
  rcases s.reconcileParentCompletion_cases parentId r now with
    hs | ⟨i, old, new, c, hi, hid, -, rfl, -, hc, hs⟩
  · rw [hs]
    exact .refl s
  · rw [hs]
    rcases hc with rfl | ⟨rfl, -⟩
    · exact writesThrough_setTask hd hb hi hid.symm (.of_eq rfl rfl rfl) rfl
    · have hset := taskWithId_set hd hi hid.symm
      have hsave : (s.setTask i new).WritesThrough (s.setTask i new).saveTasks := .of_eq rfl rfl rfl
      refine hsave.spawnSync (s := s) rfl rfl hb fun x => ?_
      simp only [Closure.writes, tasks_saveTasks, hset]
      rcases eq_or_ne x new.id with rfl | hx
      · simp [Write.ofValue]
      · simp [hx]

theorem writesThrough_reconcileParent (hd : DistinctIds s.tasks) (hb : s.syncingBackend = some b)
    (p : Option String) (r : Bool) (now : Date) :
    s.WritesThrough (s.reconcileParent p r now) := by
  cases p with
  | none => exact .refl s
  | some p => exact writesThrough_reconcileParentCompletion hd hb p r now

theorem writesThrough_spawnCancelReminder (n : Option String) :
    s.WritesThrough (s.spawnCancelReminder n) := by
  refine ⟨by simp, (n.map Closure.cancelReminder).toList, by simp, fun x => ?_⟩
  rw [mergeAll_of_lastWrite_none, tasks_spawnCancelReminder]
  rw [lastWrite_eq_none_iff]
  cases n <;> simp [Closure.writes, Closure.data]

/-- An addition writes through. -/
theorem writesThrough_addTask (hd : DistinctIds s.tasks) (hb : s.syncingBackend = some b)
    {task : Task} (hnew : task.id ∉ s.tasks.map Task.id) (now : Date) :
    s.WritesThrough (s.addTask task now).1 := by
  unfold addTask
  dsimp only
  have hid : ((task.ordered now.milliseconds).attached s.tasks).id ∉ s.tasks.map Task.id := by
    simpa using hnew
  have hparent : ((task.ordered now.milliseconds).attached s.tasks).parentTaskId ≠
      some ((task.ordered now.milliseconds).attached s.tasks).id := by
    intro hp
    exact hid (mem_ids_of_isRoot (isRoot_of_attached hd hp))
  generalize (task.ordered now.milliseconds).attached s.tasks = new at hid hparent
  have hd₁ : DistinctIds (s.withTasks (s.tasks ++ [new])).tasks :=
    DistinctKeys.append_singleton hd hid
  have hlookup : ∀ x, taskWithId (s.withTasks (s.tasks ++ [new])).tasks x =
      if x = new.id then some new else taskWithId s.tasks x := lookup_append_singleton hid
  have hreconcile := writesThrough_reconcileParent hd₁ hb new.parentTaskId true now
  refine (hreconcile.trans (.of_eq (by simp) (by simp) (by simp))).upsertTask (s := s) rfl rfl hb
    ?_ ?_
  · rw [tasks_logTaskCreatedAnalytics, tasks_saveTasks, taskWithId_reconcileParent hd₁ hparent,
      hlookup, if_pos rfl]
  · intro x hx
    rw [hlookup, if_neg hx]

theorem writesThrough_updateTask (hd : DistinctIds s.tasks) (hb : s.syncingBackend = some b)
    (id : String) (updates : TaskUpdate) (now : Date) :
    s.WritesThrough (s.updateTask id updates now) := by
  unfold updateTask
  split
  · exact .refl s
  · rename_i index oldTask hentry
    exact writesThrough_setTask hd hb (firstEntry_eq_some hentry).1 (updates.applied_id oldTask now)
      (.of_eq (by simp) (by simp) (by simp)) (by simp)

theorem writesThrough_addSubtask (hd : DistinctIds s.tasks) (hb : s.syncingBackend = some b)
    (parentId title : String) (priority : Priority) {id : String}
    (hnew : id ∉ s.tasks.map Task.id) (now : Date) :
    s.WritesThrough (s.addSubtask parentId title priority id now).1 := by
  rcases s.addSubtask_cases parentId title priority id now with hs | ⟨task, rfl, hs⟩
  · rw [hs]
    exact .refl s
  · rw [hs]
    exact writesThrough_addTask hd hb hnew now

/-- A completion writes through. -/
theorem writesThrough_completeTask (hd : DistinctIds s.tasks) (hb : s.syncingBackend = some b)
    (id : String) (now : Date) : s.WritesThrough (s.completeTask id now) := by
  unfold completeTask
  split
  · exact .refl s
  · rename_i index oldTask hentry
    have hi := (firstEntry_eq_some hentry).1
    have hid := oldTask.completed_id now
    dsimp only
    refine WritesThrough.trans ?_ (writesThrough_reconcileParent ?_ (by simpa using hb) _ false now)
    · refine writesThrough_setTask hd hb hi hid
        (WritesThrough.trans ?_ (writesThrough_spawnCancelReminder _)) (by simp)
      exact .of_eq rfl rfl rfl
    · simpa using distinctIds_set hd hi hid

theorem writesThrough_restoreReminder (oldTask task : Task) (now : Date) :
    s.WritesThrough (s.restoreReminder oldTask task now).1 := by
  rcases s.restoreReminder_cases oldTask task now with ⟨c, date, cs, n, rfl, hr⟩ | ⟨date, n, hr⟩
  · rw [hr]
    exact ⟨rfl, [.scheduleReminder task date cs n], rfl, fun x => rfl⟩
  · rw [hr]
    exact .refl s

/-- A restoration writes through. -/
theorem writesThrough_restoreTask (hd : DistinctIds s.tasks) (hb : s.syncingBackend = some b)
    (id : String) (now : Date) : s.WritesThrough (s.restoreTask id now) := by
  unfold restoreTask
  split
  · exact .refl s
  · rename_i index oldTask hentry
    have hi := (firstEntry_eq_some hentry).1
    have hreminder := s.writesThrough_restoreReminder oldTask
      (oldTask.reopened (s.subtaskCount oldTask.id) now) now
    have hnew : (s.restoreReminder oldTask (oldTask.reopened (s.subtaskCount oldTask.id) now)
        now).1.tasks = s.tasks ∧ (s.restoreReminder oldTask
        (oldTask.reopened (s.subtaskCount oldTask.id) now) now).2.id = oldTask.id := by
      rcases s.restoreReminder_cases oldTask (oldTask.reopened (s.subtaskCount oldTask.id) now) now
        with ⟨c, date, cs, n, -, hr⟩ | ⟨date, n, hr⟩ <;> simp [hr]
    dsimp only
    revert hreminder hnew
    generalize s.restoreReminder oldTask (oldTask.reopened (s.subtaskCount oldTask.id) now) now = r
    obtain ⟨s₁, new⟩ := r
    rintro hreminder ⟨htasks, hid⟩
    have hi₁ : s₁.tasks[index]? = some oldTask := by rwa [htasks]
    have hd₁ : DistinctIds s₁.tasks := by rwa [htasks]
    have hb₁ := hreminder.syncingBackend.trans hb
    refine hreminder.trans (WritesThrough.trans ?_
      (writesThrough_reconcileParent ?_ (by simpa using hb₁) _ true now))
    · exact writesThrough_setTask hd₁ hb₁ hi₁ hid (.of_eq rfl rfl rfl) rfl
    · simpa using distinctIds_set hd₁ hi₁ hid

/-- A new parent writes through. -/
theorem writesThrough_setParent (hd : DistinctIds s.tasks) (hb : s.syncingBackend = some b)
    (taskId : String) (parentId : Option String) (now : Date) :
    s.WritesThrough (s.setParent taskId parentId now) := by
  unfold setParent
  split
  · exact .refl s
  · rename_i index task hentry
    split_ifs
    · exact .refl s
    · have hi := (firstEntry_eq_some hentry).1
      have hid := id_movedTask s task parentId now
      have hd₁ : DistinctIds (s.setTask index (s.movedTask task parentId now)).saveTasks.tasks :=
        distinctIds_set hd hi hid
      have hreconcile := writesThrough_reconcileParent hd₁ hb task.parentTaskId true now
      have hreconcile' := writesThrough_reconcileParent
        (distinctIds_reconcileParent hd₁ task.parentTaskId true now)
        (hreconcile.syncingBackend.trans hb) parentId true now
      refine (hreconcile.trans hreconcile').upsertStoreTasks (s := s) rfl rfl hb fun x hx => ?_
      rw [ids_reconcileParent, ids_reconcileParent, tasks_saveTasks, tasks_setTask,
        map_key_set hi hid] at hx
      rw [tasks_saveTasks, taskWithId_set hd hi hid, if_neg]
      rintro rfl
      exact hx (hid ▸ List.mem_map_of_mem (List.mem_of_getElem? hi))

/-- A deletion writes through. -/
theorem writesThrough_deleteTask (hd : DistinctIds s.tasks) (hb : s.syncingBackend = some b)
    (id : String) (now : Date) : s.WritesThrough (s.deleteTask id now) := by
  unfold deleteTask
  dsimp only
  generalize taskWithId s.tasks id = taskToDelete
  have hlookup : ∀ x, taskWithId (remove Task.id s.tasks id) x =
      if x = id then none else taskWithId s.tasks x := lookup_remove s.tasks id
  have hcancel : (s.withTasks (remove Task.id s.tasks id)).WritesThrough
      (((s.withTasks (remove Task.id s.tasks id)).saveTasks.logTaskDeleted
        taskToDelete).spawnCancelReminder (taskToDelete.bind Task.reminderNotificationId)) :=
    (WritesThrough.of_eq (by simp) (by simp) (by simp)).trans
      (writesThrough_spawnCancelReminder _)
  have hdelete := hcancel.spawnSync (s := s) (f := (.deleteTask · id)) rfl rfl hb fun x => by
    simp only [Closure.writes, Closure.data, tasks_spawnCancelReminder, tasks_logTaskDeleted,
      tasks_saveTasks, tasks_withTasks, hlookup]
    split_ifs
    · exact Or.inl rfl
    · exact Or.inr ⟨rfl, rfl⟩
  refine hdelete.trans (writesThrough_reconcileParent ?_ (hdelete.syncingBackend.trans hb) _ true
    now)
  simpa using hd.remove id

/-- A loop whose every round writes through and keeps ids distinct. -/
theorem writesThrough_foldl {g : LocalStore → String → LocalStore}
    (hg : ∀ s k, DistinctIds s.tasks → s.syncingBackend = some b →
      s.WritesThrough (g s k) ∧ DistinctIds (g s k).tasks)
    (ks : List String) (hd : DistinctIds s.tasks) (hb : s.syncingBackend = some b) :
    s.WritesThrough (ks.foldl g s) ∧ DistinctIds (ks.foldl g s).tasks := by
  induction ks generalizing s with
  | nil => exact ⟨.refl s, hd⟩
  | cons k ks ih =>
    obtain ⟨hround, hd'⟩ := hg s k hd hb
    obtain ⟨hrest, hd''⟩ := ih hd' (hround.syncingBackend.trans hb)
    exact ⟨hround.trans hrest, hd''⟩

/-- The deletion of a parent writes through. -/
theorem writesThrough_deleteParentTask (hd : DistinctIds s.tasks)
    (hb : s.syncingBackend = some b) (id : String) (strategy : ParentTaskDeletionStrategy)
    (now : Date) : s.WritesThrough (s.deleteParentTask id strategy now) := by
  unfold deleteParentTask
  split_ifs
  · cases strategy with
    | deleteSubtasks =>
      obtain ⟨hloop, hd'⟩ := writesThrough_foldl (g := fun s k => s.deleteTask k now)
        (fun s k hd hb => ⟨writesThrough_deleteTask hd hb k now, distinctIds_deleteTask hd k now⟩)
        ((s.subtasks id none).map Task.id) hd hb
      exact hloop.trans (writesThrough_deleteTask hd' (hloop.syncingBackend.trans hb) id now)
    | detachSubtasks =>
      obtain ⟨hloop, hd'⟩ := writesThrough_foldl (g := fun s k => s.setParent k none now)
        (fun s k hd hb => ⟨writesThrough_setParent hd hb k none now,
          distinctIds_congr (ids_setParent k none now) hd⟩)
        ((s.subtasks id none).map Task.id) hd hb
      exact hloop.trans (writesThrough_deleteTask hd' (hloop.syncingBackend.trans hb) id now)
  · exact writesThrough_deleteTask hd hb id now

/-- A reordering writes through. -/
theorem writesThrough_reorderTasks (hb : s.syncingBackend = some b) {orderedIds : List String}
    {now : Date} (hs : s.reorderTasks orderedIds now = some s') : s.WritesThrough s' := by
  have hids := (reorderTasks_eq_some hs).1
  unfold reorderTasks uniqueKeysWithValues at hs
  obtain ⟨taskMap, -, rfl⟩ := Option.map_eq_some_iff.mp hs
  refine (WritesThrough.refl _).upsertStoreTasks (s := s) rfl rfl hb fun x hx => ?_
  have hold : x ∉ s.tasks.map Task.id := by
    intro hmem
    rw [tasks_spawnSync] at hids
    rw [hids, reorderedIds, List.mem_append, List.mem_filter, List.mem_filter] at hx
    by_cases hordered : x ∈ orderedIds
    · exact hx (Or.inl ⟨hordered, by simpa using hmem⟩)
    · exact hx (Or.inr ⟨hmem, by simpa using hordered⟩)
  unfold taskWithId
  rw [lookup_eq_none_iff_notMem.mpr hold, lookup_eq_none_iff_notMem.mpr hx]

@[simp] theorem syncingBackend_deleteCategory (id : String) (replacementId : Option String)
    (now : Date) : (s.deleteCategory id replacementId now).syncingBackend = s.syncingBackend := by
  unfold deleteCategory updateTasksForCategoryRemoval
  dsimp only
  rw [syncingBackend_logEvent, syncingBackend_spawnSync]
  split_ifs <;> rfl

/-- The deletion of a category writes through, its tasks by a second write. -/
theorem writesThrough_deleteCategory (hd : DistinctIds s.tasks) (hb : s.syncingBackend = some b)
    (id : String) (replacementId : Option String) (now : Date) :
    s.WritesThrough (s.deleteCategory id replacementId now) := by
  have hspawned := s.spawned_deleteCategory id replacementId now
  rw [hb, Option.map_some, Option.toList_some] at hspawned
  refine ⟨syncingBackend_deleteCategory id replacementId now, _, hspawned, fun x => ?_⟩
  rw [tasks_deleteCategory]
  generalize s.resolvedReplacementId id replacementId = r
  have hlookup : taskWithId (s.tasks.map (withoutCategoryIf id r now)) x =
      (taskWithId s.tasks x).map (withoutCategoryIf id r now) :=
    lookup_map (id_withoutCategoryIf id r now) s.tasks x
  rw [hlookup]
  change merge (taskWithId s.tasks) (putAll (s.updateTasksForCategoryRemoval id r now).2) x = _
  have hmem : ∀ t ∈ s.tasks, id ∈ t.categories →
      withoutCategory id r now t ∈ (s.updateTasksForCategoryRemoval id r now).2 := fun t ht hc =>
    List.mem_map_of_mem (List.mem_filter.mpr ⟨ht, by simpa using hc⟩)
  cases hw : putAll (s.updateTasksForCategoryRemoval id r now).2 x with
  | some w =>
    obtain ⟨t, ht, rfl, rfl⟩ := putAll_eq_some hw
    obtain ⟨old, hold, rfl⟩ := List.mem_map.mp ht
    obtain ⟨hold, hc⟩ := List.mem_filter.mp hold
    rw [merge_of_some hw, show taskWithId s.tasks (withoutCategory id r now old).id = some old from
      lookup_of_mem hd hold, Option.map_some, withoutCategoryIf, if_pos (by simpa using hc)]
    rfl
  | none =>
    rw [merge_of_none hw]
    cases hx : taskWithId s.tasks x with
    | none => rfl
    | some t =>
      rw [Option.map_some, withoutCategoryIf, if_neg]
      intro hc
      have hid : t.id = x := key_of_lookup hx
      exact putAll_eq_none_iff.mp hw (List.mem_map.mpr ⟨_, hmem t (mem_of_lookup hx) hc, hid⟩)

theorem writesThrough_importNotes (hb : s.syncingBackend = some b) (ns : List Note) :
    s.WritesThrough (s.importNotes ns) := by
  have hsave : s.WritesThrough { s with notes := s.notes ++ ns }.saveNotes := .of_eq rfl rfl rfl
  exact hsave.spawnSync (f := (.upsertNotes · ns)) rfl rfl hb fun _ => Or.inr ⟨rfl, rfl⟩

/-- An import writes through. -/
theorem writesThrough_importTasks (hb : s.syncingBackend = some b)
    {ts : List Task} (hts : (ts.map Task.id).Nodup) (hnew : ∀ t ∈ ts, t.id ∉ s.tasks.map Task.id)
    (now : Date) : s.WritesThrough (s.importTasks ts now) := by
  have hprepared : DistinctIds (s.preparedTasks ts now) := by
    unfold DistinctIds DistinctKeys
    rwa [ids_preparedTasks]
  have hlog : (s.withTasks (s.tasks ++ s.preparedTasks ts now)).WritesThrough
      ((s.preparedTasks ts now).foldl logTaskCreatedAnalytics
        (s.withTasks (s.tasks ++ s.preparedTasks ts now)).saveTasks) :=
    .of_eq (foldl_logTaskCreatedAnalytics (f := tasks) _ (by simp) _)
      (foldl_logTaskCreatedAnalytics (f := spawned) _ (by simp) _)
      (foldl_logTaskCreatedAnalytics (f := LocalStore.syncingBackend) _ (by simp) _)
  refine hlog.spawnSync (s := s) rfl rfl hb fun x => ?_
  rw [foldl_logTaskCreatedAnalytics (f := tasks) _ (by simp), tasks_saveTasks, tasks_withTasks]
  change putAll (s.preparedTasks ts now) x = _ ∨ putAll (s.preparedTasks ts now) x = none ∧ _
  have happend : taskWithId (s.tasks ++ s.preparedTasks ts now) x =
      (taskWithId s.tasks x).or (taskWithId (s.preparedTasks ts now) x) := lookup_append _ _ x
  rw [happend, putAll_of_distinctIds hprepared]
  cases hx : taskWithId (s.preparedTasks ts now) x with
  | none => exact Or.inr ⟨rfl, by simp⟩
  | some t =>
    have hid : t.id ∈ (s.preparedTasks ts now).map Task.id := List.mem_map_of_mem (mem_of_lookup hx)
    rw [ids_preparedTasks, key_of_lookup hx] at hid
    obtain ⟨imported, himported, rfl⟩ := List.mem_map.mp hid
    rw [show taskWithId s.tasks imported.id = none from
      lookup_eq_none_iff_notMem.mpr (hnew imported himported)]
    exact Or.inl rfl

/-- A pass writes through. -/
theorem writesThrough_applySharedImports (hb : s.syncingBackend = some b) (ns : List Note)
    {ts : List Task} (hts : (ts.map Task.id).Nodup)
    (hnew : ∀ t ∈ ts, t.id ∉ s.tasks.map Task.id) (now : Date) :
    s.WritesThrough (s.applySharedImports ns ts now) := by
  unfold applySharedImports
  have hnotes : s.WritesThrough (if ns.isEmpty then s else s.importNotes ns) ∧
      (if ns.isEmpty then s else s.importNotes ns).tasks = s.tasks := by
    split_ifs
    · exact ⟨.refl s, rfl⟩
    · exact ⟨writesThrough_importNotes hb ns, tasks_importNotes s ns⟩
  dsimp only
  generalize (if ns.isEmpty then s else s.importNotes ns) = s₁ at hnotes
  obtain ⟨hnotes, htasks⟩ := hnotes
  split_ifs
  · exact hnotes
  · rw [← htasks] at hnew
    exact hnotes.trans (writesThrough_importTasks (hnotes.syncingBackend.trans hb) hts hnew now)

end LocalStore

/-- A legal local operation with a backend attached writes through. -/
theorem writesThrough_step {e : Date × Operation} {u u' : Session} (h : u.IdsOk)
    {b : FirestoreBackend} (hb : u.store.syncingBackend = some b) (hlocal : e.2.isLocal = true)
    (hl : Operation.Legal e u) (hs : Session.step e u = some u') :
    u.store.WritesThrough u'.store := by
  have hd := h.distinctIds
  obtain ⟨now, op⟩ := e
  cases op with
  | addTask task =>
    obtain rfl := Option.some_inj.mp hs
    exact LocalStore.writesThrough_addTask hd hb (Session.notMem_of_notMem_knownIds hl) now
  | addSubtask parentId title priority id =>
    obtain rfl := Option.some_inj.mp hs
    exact LocalStore.writesThrough_addSubtask hd hb parentId title priority
      (Session.notMem_of_notMem_knownIds hl) now
  | setParent taskId parentId =>
    obtain rfl := Option.some_inj.mp hs
    exact LocalStore.writesThrough_setParent hd hb taskId parentId now
  | updateTask id updates =>
    obtain rfl := Option.some_inj.mp hs
    exact LocalStore.writesThrough_updateTask hd hb id updates now
  | completeTask id =>
    obtain rfl := Option.some_inj.mp hs
    exact LocalStore.writesThrough_completeTask hd hb id now
  | restoreTask id =>
    obtain rfl := Option.some_inj.mp hs
    exact LocalStore.writesThrough_restoreTask hd hb id now
  | deleteTask id =>
    obtain rfl := Option.some_inj.mp hs
    exact LocalStore.writesThrough_deleteTask hd hb id now
  | deleteTaskUndoably id =>
    obtain rfl := Option.some_inj.mp hs
    unfold Session.deleteTaskUndoably
    split
    · exact .refl u.store
    · exact LocalStore.writesThrough_deleteTask hd hb id now
  | undo =>
    obtain rfl := Option.some_inj.mp hs
    unfold Session.undo
    split
    · exact .refl u.store
    · rename_i task undoStack hstack
      exact LocalStore.writesThrough_addTask hd hb (h.notMem_of_undoStack hstack) now
  | redo =>
    obtain rfl := Option.some_inj.mp hs
    unfold Session.redo
    split
    · exact .refl u.store
    · exact LocalStore.writesThrough_deleteTask hd hb _ now
  | deleteParentTask id strategy =>
    obtain rfl := Option.some_inj.mp hs
    exact LocalStore.writesThrough_deleteParentTask hd hb id strategy now
  | reorderTasks orderedIds =>
    obtain ⟨s', hs', rfl⟩ := Option.map_eq_some_iff.mp hs
    exact LocalStore.writesThrough_reorderTasks hb hs'
  | deleteCategory id replacementId =>
    obtain rfl := Option.some_inj.mp hs
    exact LocalStore.writesThrough_deleteCategory hd hb id replacementId now
  | applySharedImports notes tasks =>
    obtain rfl := Option.some_inj.mp hs
    exact LocalStore.writesThrough_applySharedImports hb notes hl.1
      (fun t ht => Session.notMem_of_notMem_knownIds (hl.2 t ht)) now
  | applyRemoteTasks tasks => cases hlocal
  | applyRemoteSnapshot notes tasks categories => cases hlocal

/-! ## Runs -/

namespace SyncedSession

variable (u : SyncedSession)

/-- The writes of the closures that wait. -/
def pending : List (Data String Task) :=
  u.waiting.map (Closure.writes u.tasks)

/-- The tasks of the second writes that are due. -/
def due : List String :=
  u.secondWrites.flatten.map Task.id

/-- With the writes that wait the stored tasks are the local ones, up to tasks that only a
second write will store. -/
structure Replays : Prop where
  idsOk : u.session.IdsOk
  syncing : u.session.store.syncingBackend ≠ none
  stored : ∀ x, mergeAll u.remote u.pending x = taskWithId u.tasks x ∨
    lastWrite u.pending x = none ∧ x ∈ u.due

end SyncedSession

/-- An upload of a reopened parent is within the list, and a second write stores tasks as they
are, or a later write of the same task is outstanding. -/
def SyncStep.WritesCurrent (l : SyncStep) (u : SyncedSession) : Prop :=
  match l with
  | operation _ => True
  | runClosure => ∀ backend index parentId closures,
      u.waiting = .upsertTaskAt backend index parentId :: closures →
      ∃ task, u.tasks[index]? = some task ∧ (task.id = parentId ∨
        (∃ closure ∈ closures, closure.writes u.tasks parentId ≠ none) ∨ parentId ∈ u.due)
  | secondWrite k => ∀ tasks, u.secondWrites[k]? = some tasks → ∀ task ∈ tasks,
      taskWithId u.tasks task.id = some task ∨
        (∃ closure ∈ u.waiting, closure.writes u.tasks task.id ≠ none) ∨
        task.id ∈ (u.secondWrites.eraseIdx k).flatten.map Task.id

theorem lastWrite_map_ne_none {closures : List Closure} {tasks : List Task} {x : String} :
    lastWrite (closures.map (Closure.writes tasks)) x ≠ none ↔
      ∃ closure ∈ closures, closure.writes tasks x ≠ none := by
  rw [Ne, lastWrite_eq_none_iff]
  simp

/-- What the closures of an operation add to the writes that wait. -/
theorem SyncedSession.Replays.operation {u : SyncedSession} (h : u.Replays) {e : Date × Operation}
    (hl : (SyncStep.operation e).Legal u) {session : Session}
    (hs : Session.step e u.session = some session) : (u.withSession session).Replays := by
  obtain ⟨b, hb⟩ := Option.ne_none_iff_exists'.mp h.syncing
  have hwrites := writesThrough_step h.idsOk hb hl.1 hl.2 hs
  obtain ⟨new, hnew, hlocal⟩ := hwrites.exists_new
  refine ⟨idsOk_step h.idsOk hl.1 hl.2 hs, ?_, fun x => ?_⟩
  · exact Option.ne_none_iff_exists'.mpr ⟨b, hwrites.syncingBackend.trans hb⟩
  · have hpending : (u.withSession session).pending =
        u.waiting.map (Closure.writes session.store.tasks) ++
          new.map (Closure.writes session.store.tasks) := by
      rw [← List.map_append, ← show session.store.spawned = u.waiting ++ new from hnew]
      rfl
    change mergeAll u.remote _ x = taskWithId session.store.tasks x ∨ _ ∧ x ∈ u.due
    rw [hpending, lastWrite_append]
    cases hlast : lastWrite (new.map (Closure.writes session.store.tasks)) x with
    | some w =>
      left
      rw [mergeAll_append, mergeAll_of_lastWrite hlast, ← hlocal x, mergeAll_of_lastWrite hlast]
    | none =>
      -- the operation has not changed the task, and what waited writes it as before
      have hsame : taskWithId session.store.tasks x = taskWithId u.tasks x := by
        rw [← hlocal x, mergeAll_of_lastWrite_none hlast]
        rfl
      have hold : lastWrite (u.waiting.map (Closure.writes session.store.tasks)) x =
          lastWrite u.pending x := lastWrite_map_congr fun c _ => c.writes_congr hsame
      rw [mergeAll_append, mergeAll_of_lastWrite_none hlast, mergeAll_congr_writes hold, hold,
        hsame]
      exact h.stored x

/-- The first write of the oldest closure is the one that was expected, or the current version
of its task, or a later write of the task is outstanding. -/
theorem SyncedSession.Replays.data_cases {u : SyncedSession} (h : u.Replays)
    (hg : SyncStep.runClosure.WritesCurrent u) {closure : Closure} {closures : List Closure}
    (hwaiting : u.waiting = closure :: closures) (x : String) :
    closure.data u.tasks x = closure.writes u.tasks x ∨
      closure.data u.tasks x = some (.ofValue (taskWithId u.tasks x)) ∨
      lastWrite (closures.map (Closure.writes u.tasks)) x ≠ none ∨
      x ∈ u.due ∨ x ∈ (closure.secondWrite.getD []).map Task.id := by
  have hd : DistinctIds u.tasks := h.idsOk.distinctIds
  cases closure with
  | upsertStoreTasks b => exact Or.inl (putAll_of_distinctIds hd x)
  | upsertTaskAt b index parentId =>
    obtain ⟨task, htask, hcurrent⟩ := hg b index parentId closures hwaiting
    have hlookup : taskWithId u.tasks task.id = some task :=
      lookup_of_mem hd (List.mem_of_getElem? htask)
    have hdata : (Closure.upsertTaskAt b index parentId).data u.tasks x =
        if x = task.id then some (.set task) else none := by
      simp only [Closure.data, htask, Option.toList_some, putAll_singleton]
    rw [hdata]
    rcases eq_or_ne x task.id with rfl | hx
    · rw [if_pos rfl, hlookup]
      exact Or.inr (Or.inl rfl)
    · rw [if_neg hx]
      rcases eq_or_ne x parentId with rfl | hp
      · rcases hcurrent with hid | hlater | hdue
        · exact absurd hid.symm hx
        · exact Or.inr (Or.inr (Or.inl (lastWrite_map_ne_none.mpr hlater)))
        · exact Or.inr (Or.inr (Or.inr (Or.inl hdue)))
      · simp [Closure.writes, hp]
  | deleteCategory b id updatedTasks =>
    cases hx : putAll updatedTasks x with
    | none => exact Or.inl hx.symm
    | some w =>
      obtain ⟨t, ht, rfl, -⟩ := putAll_eq_some hx
      have hne : ¬updatedTasks.isEmpty = true := by
        rw [List.isEmpty_iff]
        exact List.ne_nil_of_mem ht
      simp only [Closure.secondWrite, if_neg hne, Option.getD_some]
      exact Or.inr (Or.inr (Or.inr (Or.inr (List.mem_map_of_mem ht))))
  | _ => exact Or.inl rfl

/-- A closure that runs keeps the replay. -/
theorem SyncedSession.Replays.runClosure {u u' : SyncedSession} (h : u.Replays)
    (hg : SyncStep.runClosure.WritesCurrent u) (hs : u.runClosure = some u') : u'.Replays := by
  rcases u.runClosure_cases with ⟨-, hrun⟩ | ⟨closure, closures, hwaiting, hrun⟩
  · obtain rfl := Option.some_inj.mp (hrun.symm.trans hs)
    exact h
  · have hs' := hrun.symm.trans hs
    split_ifs at hs'
    obtain rfl := Option.some_inj.mp hs'
    refine ⟨⟨h.idsOk.nodup, h.idsOk.nodupStacks⟩, h.syncing, fun x => ?_⟩
    change mergeAll (merge u.remote (closure.data u.tasks))
        (closures.map (Closure.writes u.tasks)) x = taskWithId u.tasks x ∨
      lastWrite (closures.map (Closure.writes u.tasks)) x = none ∧
        x ∈ (u.secondWrites ++ closure.secondWrite.toList).flatten.map Task.id
    have hpending : lastWrite u.pending x =
        (lastWrite (closures.map (Closure.writes u.tasks)) x).or (closure.writes u.tasks x) := by
      rw [pending, hwaiting]
      rfl
    have hdue : x ∈ u.due ∨ x ∈ (closure.secondWrite.getD []).map Task.id →
        x ∈ (u.secondWrites ++ closure.secondWrite.toList).flatten.map Task.id := by
      rw [List.flatten_append, List.map_append, List.mem_append]
      refine Or.imp_right fun hx => ?_
      cases hsecond : closure.secondWrite <;> simp_all
    have hstored := h.stored x
    rw [mergeAll_eq, hpending] at hstored
    have hdata := h.data_cases hg hwaiting x
    cases hlast : lastWrite (closures.map (Closure.writes u.tasks)) x with
    | some w =>
      rw [hlast] at hstored
      rcases hstored with hstored | ⟨hnone, -⟩
      · exact Or.inl ((mergeAll_of_lastWrite hlast).trans hstored)
      · cases hnone
    | none =>
      rw [hlast, Option.none_or] at hstored
      rw [mergeAll_of_lastWrite_none hlast, merge]
      rcases hdata with hdata | hdata | hdata | hdata
      · rw [hdata]
        exact hstored.imp_right fun hx => ⟨rfl, hdue (Or.inl hx.2)⟩
      · rw [hdata]
        exact Or.inl (Write.value_ofValue _)
      · exact absurd hlast hdata
      · exact Or.inr ⟨rfl, hdue hdata⟩

/-- A second write keeps the replay. -/
theorem SyncedSession.Replays.secondWrite {u : SyncedSession} (h : u.Replays) {k : ℕ}
    (hg : (SyncStep.secondWrite k).WritesCurrent u) : (u.runSecondWrite k).Replays := by
  unfold runSecondWrite
  split
  · exact h
  · rename_i tasks htasks
    refine ⟨h.idsOk, h.syncing, fun x => ?_⟩
    change mergeAll (merge u.remote (putAll tasks)) u.pending x = taskWithId u.tasks x ∨
      lastWrite u.pending x = none ∧ x ∈ (u.secondWrites.eraseIdx k).flatten.map Task.id
    have hstored := h.stored x
    rw [mergeAll_eq] at hstored
    cases hlast : lastWrite u.pending x with
    | some w =>
      rw [hlast] at hstored
      rcases hstored with hstored | ⟨hnone, -⟩
      · exact Or.inl ((mergeAll_of_lastWrite hlast).trans hstored)
      · cases hnone
    | none =>
      rw [hlast] at hstored
      rw [mergeAll_of_lastWrite_none hlast]
      cases hx : putAll tasks x with
      | some w =>
        obtain ⟨t, ht, rfl, rfl⟩ := putAll_eq_some hx
        rcases hg tasks htasks t ht with hcurrent | hlater | hdue
        · exact Or.inl ((merge_of_some hx).trans hcurrent.symm)
        · exact absurd hlast (lastWrite_map_ne_none.mpr hlater)
        · exact Or.inr ⟨rfl, hdue⟩
      | none =>
        rw [merge_of_none hx]
        refine hstored.imp_right fun hdue => ⟨rfl, ?_⟩
        -- the task is due, and not in the write that has run
        obtain ⟨t, ht, rfl⟩ := List.mem_map.mp hdue.2
        obtain ⟨l, hl, htl⟩ := List.mem_flatten.mp ht
        refine List.mem_map_of_mem (List.mem_flatten.mpr ⟨l, ?_, htl⟩)
        refine (List.mem_eraseIdx_iff_getElem?).mpr ?_
        obtain ⟨j, hj⟩ := List.getElem?_of_mem hl
        refine ⟨j, ?_, hj⟩
        rintro rfl
        obtain rfl : l = tasks := by rw [hj] at htasks; exact Option.some_inj.mp htasks
        exact putAll_eq_none_iff.mp hx (List.mem_map_of_mem htl)

/-- Every step keeps the replay. -/
theorem replays_step {l : SyncStep} {u u' : SyncedSession} (h : u.Replays)
    (hg : l.Legal u ∧ l.WritesCurrent u) (hs : SyncedSession.step l u = some u') :
    u'.Replays := by
  cases l with
  | operation e =>
    obtain ⟨session, hsession, rfl⟩ := Option.map_eq_some_iff.mp hs
    exact h.operation hg.1 hsession
  | runClosure => exact h.runClosure hg.2 hs
  | secondWrite k =>
    obtain rfl := Option.some_inj.mp hs
    exact h.secondWrite hg.2

/-- No step traps where every write is current. -/
theorem exists_step_of_writesCurrent {l : SyncStep} {u : SyncedSession} (h : u.session.IdsOk)
    (hg : l.Legal u ∧ l.WritesCurrent u) : ∃ u', SyncedSession.step l u = some u' := by
  cases l with
  | operation e =>
    obtain ⟨session, hsession⟩ := exists_step h hg.1.1 hg.1.2
    exact ⟨_, Option.map_eq_some_iff.mpr ⟨session, hsession, rfl⟩⟩
  | runClosure =>
    rcases u.runClosure_cases with ⟨-, hrun⟩ | ⟨closure, closures, hwaiting, hrun⟩
    · exact ⟨u, hrun⟩
    · have hin : closure.inRange u.tasks = true := by
        cases closure with
        | upsertTaskAt b index parentId =>
          obtain ⟨task, htask, -⟩ := hg.2 b index parentId closures hwaiting
          exact decide_eq_true (List.getElem?_eq_some_iff.mp htask).1
        | _ => rfl
      rw [if_pos hin] at hrun
      exact ⟨_, hrun⟩
  | secondWrite k => exact ⟨_, rfl⟩

/-- From stored tasks that are the local ones, a run whose deferred writes are current does not
trap, and once nothing waits the stored tasks are the local ones again. -/
theorem remote_eq_tasks_run {u : SyncedSession} (hids : u.session.IdsOk)
    (hbackend : u.session.store.syncingBackend ≠ none) (hwaiting : u.waiting = [])
    (hremote : ∀ x, u.remote x = taskWithId u.tasks x)
    {ls : List SyncStep} (hl : Runs.Guarded SyncedSession.step SyncStep.Legal ls u)
    (hg : Runs.Guarded SyncedSession.step SyncStep.WritesCurrent ls u) :
    ∃ t, Runs.run SyncedSession.step ls u = some t ∧ (t.waiting = [] → t.secondWrites = [] →
      ∀ x, t.remote x = taskWithId t.tasks x) := by
  have hreplays : u.Replays := by
    refine ⟨hids, hbackend, fun x => Or.inl ?_⟩
    rw [SyncedSession.pending, hwaiting]
    exact hremote x
  have hstep : ∀ l u u', SyncedSession.Replays u → SyncStep.Legal l u ∧ l.WritesCurrent u →
      SyncedSession.step l u = some u' → u'.Replays :=
    fun l u u' hi hg hs => replays_step hi hg hs
  obtain ⟨t, ht⟩ := Runs.exists_run_of_guarded hstep
    (fun l u hi hg => exists_step_of_writesCurrent hi.idsOk hg) hreplays (hl.and hg)
  refine ⟨t, ht, fun hwaiting' hsecond' x => ?_⟩
  rcases (Runs.invariant_of_guarded hstep hreplays (hl.and hg) ht).stored x with hx | ⟨-, hx⟩
  · rw [SyncedSession.pending, hwaiting'] at hx
    exact hx
  · rw [SyncedSession.due, hsecond'] at hx
    cases hx

/-- A signed-in session with one categorized task, which is stored. -/
def SyncedSession.sampleCategorized : SyncedSession :=
  let tasks := [{ Task.sampleParent with categories := ["work"] }]
  ⟨⟨{ tasks := tasks, backend := some ⟨"user"⟩ }, [], []⟩, taskWithId tasks, []⟩

/-- Deleting the category. Its second write stores the task as it is. -/
theorem remote_eq_tasks_run_sample : ∃ t, Runs.run SyncedSession.step
    [.operation (.seconds 7, .deleteCategory "work" none), .runClosure, .secondWrite 0]
    .sampleCategorized = some t ∧ (t.waiting = [] → t.secondWrites = [] →
      ∀ x, t.remote x = taskWithId t.tasks x) := by
  refine remote_eq_tasks_run ⟨by decide, by decide⟩ (by decide) rfl (fun _ => rfl)
    ⟨⟨rfl, trivial⟩, fun _ _ => ⟨trivial, fun _ _ => ⟨trivial, fun _ _ => trivial⟩⟩⟩
    ⟨trivial, fun u hu => ⟨?_, fun u' hu' => ⟨?_, fun _ _ => trivial⟩⟩⟩
  · obtain rfl := Option.some_inj.mp hu
    rintro b i p closures ⟨⟩
  · obtain rfl := Option.some_inj.mp hu
    obtain rfl := Option.some_inj.mp hu'
    intro tasks htasks task htask
    obtain rfl := Option.some_inj.mp htasks
    obtain rfl := List.mem_singleton.mp htask
    exact Or.inl rfl

/-- Deleting the task between the two writes of its category's deletion. The second write
stores it again. -/
theorem not_remote_eq_tasks_run : ¬∀ (u : SyncedSession) (ls : List SyncStep),
    u.session.IdsOk → u.session.store.syncingBackend ≠ none → u.waiting = [] →
      u.secondWrites = [] → (∀ x, u.remote x = taskWithId u.tasks x) →
      Runs.Guarded SyncedSession.step SyncStep.Legal ls u →
        ∃ t, Runs.run SyncedSession.step ls u = some t ∧ (t.waiting = [] → t.secondWrites = [] →
          ∀ x, t.remote x = taskWithId t.tasks x) := by
  intro h
  obtain ⟨t, ht, hremote⟩ := h .sampleCategorized
    [.operation (.seconds 7, .deleteCategory "work" none), .runClosure,
      .operation (.seconds 8, .deleteTask "parent"), .runClosure, .secondWrite 0]
    ⟨by decide, by decide⟩ (by decide) rfl rfl (fun _ => rfl)
    ⟨⟨rfl, trivial⟩, fun _ _ => ⟨trivial, fun _ _ => ⟨⟨rfl, trivial⟩, fun _ _ =>
      ⟨trivial, fun _ _ => ⟨trivial, fun _ _ => trivial⟩⟩⟩⟩⟩
  obtain rfl := Option.some_inj.mp ht
  cases hremote rfl rfl "parent"

end Notelayer
