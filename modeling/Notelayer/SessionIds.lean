import Notelayer.OperationViews
import Notelayer.Operations

/-!
# Identifiers along a run

Without deliveries of remote data a task is in the list or waiting on the undo stack, not
both, and it is on one of the two stacks only. `Session.IdsOk` says so, and every local
operation keeps it (`idsOk_step`) : new tasks have fresh ids, a delete moves a task to the
undo stack, an undo and a redo move one between the stacks.

A delivery may bring back a task that waits on the undo stack. The ids of the list then stay
distinct exactly as long as every undo adds a task that is not in it (`neverTraps_run_iff`).
-/

namespace Notelayer

open KeyedList

namespace Session

/-- No id is repeated in the list and the undo stack, nor in the two stacks. -/
structure IdsOk (u : Session) : Prop where
  nodup : (u.store.tasks.map Task.id ++ u.undoStack.map Task.id).Nodup
  nodupStacks : (u.undoStack.map Task.id ++ u.redoStack.map Task.id).Nodup

variable {u : Session}

theorem IdsOk.distinctIds (h : u.IdsOk) : DistinctIds u.store.tasks :=
  (List.nodup_append.mp h.nodup).1

theorem notMem_of_notMem_knownIds {id : String} (h : id ∉ u.knownIds) :
    id ∉ u.store.tasks.map Task.id := by
  intro hid
  exact h (List.mem_append_left _ (List.mem_append_left _ hid))

/-- A store whose ids are distinct, and old or unknown before. -/
theorem IdsOk.withStore (h : u.IdsOk) {s' : LocalStore} (hd : DistinctIds s'.tasks)
    (hids : ∀ id ∈ s'.tasks.map Task.id, id ∈ u.store.tasks.map Task.id ∨ id ∉ u.knownIds) :
    (u.withStore s').IdsOk := by
  obtain ⟨-, hundo, hdisjoint⟩ := List.nodup_append.mp h.nodup
  refine ⟨List.nodup_append.mpr ⟨hd, hundo, ?_⟩, h.nodupStacks⟩
  intro a ha b hb hab
  rcases hids a ha with hold | hnew
  · exact hdisjoint a hold b hb hab
  · exact hnew (List.mem_append_right _ (List.mem_append_left _ (hab ▸ hb)))

theorem IdsOk.of_ids_eq (h : u.IdsOk) {s' : LocalStore}
    (hids : s'.tasks.map Task.id = u.store.tasks.map Task.id) : (u.withStore s').IdsOk :=
  h.withStore (distinctIds_congr hids h.distinctIds) fun _ hid => Or.inl (hids ▸ hid)

theorem IdsOk.of_sublist (h : u.IdsOk) {s' : LocalStore}
    (hids : (s'.tasks.map Task.id).Sublist (u.store.tasks.map Task.id)) :
    (u.withStore s').IdsOk :=
  h.withStore (distinctIds_of_sublist hids h.distinctIds) fun _ hid => Or.inl (hids.subset hid)

theorem IdsOk.addTask (h : u.IdsOk) {task : Task} (hnew : task.id ∉ u.knownIds) (now : Date) :
    (u.withStore (u.store.addTask task now).1).IdsOk := by
  refine h.withStore (LocalStore.distinctIds_addTask h.distinctIds
    (notMem_of_notMem_knownIds hnew) now) ?_
  intro id hid
  rw [LocalStore.ids_addTask, List.mem_append, List.mem_singleton] at hid
  rcases hid with hid | rfl
  · exact Or.inl hid
  · exact Or.inr hnew

/-- The task on top of the undo stack is not in the list. -/
theorem IdsOk.notMem_of_undoStack (h : u.IdsOk) {task : Task} {undoStack : List Task}
    (hstack : u.undoStack = task :: undoStack) : task.id ∉ u.store.tasks.map Task.id := by
  have hnodup := h.nodup
  rw [hstack, List.map_cons, List.perm_middle.nodup_iff] at hnodup
  exact fun hmem => (List.nodup_cons.mp hnodup).1 (List.mem_append_left _ hmem)

/-- An undo repeats no id. -/
theorem IdsOk.undo (h : u.IdsOk) (now : Date) : (u.undo now).IdsOk := by
  unfold Session.undo
  split
  · exact h
  · rename_i task undoStack hstack
    have hnodup := h.nodup
    have hstacks := h.nodupStacks
    rw [hstack, List.map_cons] at hnodup hstacks
    refine ⟨?_, ?_⟩
    · dsimp only
      rw [LocalStore.ids_addTask, List.append_assoc]
      exact hnodup
    · rw [List.map_cons, List.perm_middle.nodup_iff]
      exact hstacks

/-- A delete frees the id of its task for the undo stack. -/
theorem notMem_of_deleteTask (h : u.IdsOk) {id : String} (hundo : id ∉ u.undoStack.map Task.id)
    (now : Date) : ((u.store.deleteTask id now).tasks.map Task.id ++
      id :: u.undoStack.map Task.id).Nodup := by
  rw [LocalStore.ids_deleteTask, List.perm_middle.nodup_iff]
  refine List.nodup_cons.mpr ⟨?_, ?_⟩
  · rw [List.mem_append, not_or]
    exact ⟨by simp [remove], hundo⟩
  · exact h.nodup.sublist ((List.filter_sublist.map Task.id).append (List.Sublist.refl _))

/-- A deletion repeats no id. -/
theorem IdsOk.deleteTaskUndoably (h : u.IdsOk) (id : String) (now : Date) :
    (u.deleteTaskUndoably id now).IdsOk := by
  unfold Session.deleteTaskUndoably
  split
  · exact h
  · rename_i task htask
    obtain rfl : task.id = id := key_of_lookup htask
    have hmem : task.id ∈ u.store.tasks.map Task.id := List.mem_map_of_mem (mem_of_lookup htask)
    obtain ⟨-, hnodup, hdisjoint⟩ := List.nodup_append.mp h.nodup
    have hundo : task.id ∉ u.undoStack.map Task.id :=
      fun hid => hdisjoint task.id hmem task.id hid rfl
    refine ⟨notMem_of_deleteTask h hundo now, ?_⟩
    simpa using ⟨by simpa using hundo, hnodup⟩

theorem IdsOk.redo (h : u.IdsOk) (now : Date) : (u.redo now).IdsOk := by
  unfold Session.redo
  split
  · exact h
  · rename_i task redoStack hstack
    have hstacks := h.nodupStacks
    rw [hstack, List.map_cons, List.perm_middle.nodup_iff] at hstacks
    have hundo : task.id ∉ u.undoStack.map Task.id :=
      fun hmem => (List.nodup_cons.mp hstacks).1 (List.mem_append_left _ hmem)
    exact ⟨notMem_of_deleteTask h hundo now, hstacks⟩

end Session

/-- A legal local operation keeps the identifiers apart. -/
theorem idsOk_step {e : Date × Operation} {u u' : Session} (h : u.IdsOk)
    (hlocal : e.2.isLocal = true) (hl : Operation.Legal e u)
    (hs : Session.step e u = some u') : u'.IdsOk := by
  obtain ⟨now, op⟩ := e
  cases op with
  | addTask task =>
    obtain rfl := Option.some_inj.mp hs
    exact h.addTask hl now
  | addSubtask parentId title priority id =>
    obtain rfl := Option.some_inj.mp hs
    rcases u.store.addSubtask_cases parentId title priority id now with hsame | ⟨task, rfl, hadd⟩
    · rwa [hsame]
    · rw [hadd]
      exact h.addTask hl now
  | setParent taskId parentId =>
    obtain rfl := Option.some_inj.mp hs
    exact h.of_ids_eq (LocalStore.ids_setParent taskId parentId now)
  | updateTask id updates =>
    obtain rfl := Option.some_inj.mp hs
    exact h.of_ids_eq (LocalStore.ids_updateTask id updates now)
  | completeTask id =>
    obtain rfl := Option.some_inj.mp hs
    exact h.of_ids_eq (LocalStore.ids_completeTask id now)
  | restoreTask id =>
    obtain rfl := Option.some_inj.mp hs
    exact h.of_ids_eq (LocalStore.ids_restoreTask id now)
  | deleteTask id =>
    obtain rfl := Option.some_inj.mp hs
    exact h.of_sublist (LocalStore.ids_deleteTask_sublist id now)
  | deleteTaskUndoably id =>
    obtain rfl := Option.some_inj.mp hs
    exact h.deleteTaskUndoably id now
  | undo =>
    obtain rfl := Option.some_inj.mp hs
    exact h.undo now
  | redo =>
    obtain rfl := Option.some_inj.mp hs
    exact h.redo now
  | deleteParentTask id strategy =>
    obtain rfl := Option.some_inj.mp hs
    exact h.of_sublist (LocalStore.ids_deleteParentTask id strategy now)
  | reorderTasks orderedIds =>
    obtain ⟨s', hs', hids, -⟩ := LocalStore.exists_reorderTasks h.distinctIds hl now
    have hsome : Session.step (now, .reorderTasks orderedIds) u = some (u.withStore s') :=
      congrArg (Option.map u.withStore) hs'
    obtain rfl := Option.some_inj.mp (hsome.symm.trans hs)
    exact h.withStore (hids.nodup_iff.mpr h.distinctIds) fun _ hid => Or.inl (hids.subset hid)
  | deleteCategory id replacementId =>
    obtain rfl := Option.some_inj.mp hs
    exact h.of_ids_eq (LocalStore.ids_deleteCategory id replacementId now)
  | applySharedImports notes tasks =>
    obtain rfl := Option.some_inj.mp hs
    refine h.withStore (LocalStore.distinctIds_applySharedImports h.distinctIds notes hl.1
      (fun t ht => Session.notMem_of_notMem_knownIds (hl.2 t ht)) now) ?_
    intro id hid
    rw [LocalStore.tasks_applySharedImports, List.map_append, LocalStore.ids_preparedTasks,
      List.mem_append] at hid
    rcases hid with hid | hid
    · exact Or.inl hid
    · obtain ⟨t, ht, rfl⟩ := List.mem_map.mp hid
      exact Or.inr (hl.2 t ht)
  | applyRemoteTasks tasks => cases hlocal
  | applyRemoteSnapshot notes tasks categories => cases hlocal

/-- A legal local operation does not trap. -/
theorem exists_step {e : Date × Operation} {u : Session} (h : u.IdsOk)
    (hlocal : e.2.isLocal = true) (hl : Operation.Legal e u) :
    ∃ u', Session.step e u = some u' := by
  obtain ⟨now, op⟩ := e
  cases op with
  | reorderTasks orderedIds =>
    obtain ⟨s', hs', -⟩ := LocalStore.exists_reorderTasks h.distinctIds hl now
    exact ⟨u.withStore s', congrArg (Option.map u.withStore) hs'⟩
  | applyRemoteTasks tasks => cases hlocal
  | applyRemoteSnapshot notes tasks categories => cases hlocal
  | _ => exact ⟨_, rfl⟩

theorem idsOk_sample : Session.sample.IdsOk :=
  ⟨by decide, by decide⟩

/-! ## With remote data -/

namespace Operation

/-- New tasks have ids that are not in the list, and lists of ids repeat none. -/
def FreshIds (e : Date × Operation) (u : Session) : Prop :=
  match e.2 with
  | addTask task => task.id ∉ u.store.tasks.map Task.id
  | addSubtask _ _ _ id => id ∉ u.store.tasks.map Task.id
  | reorderTasks orderedIds => orderedIds.Nodup
  | applySharedImports _ tasks =>
    (tasks.map Task.id).Nodup ∧ ∀ t ∈ tasks, t.id ∉ u.store.tasks.map Task.id
  | applyRemoteTasks tasks => (tasks.map Task.id).Nodup
  | applyRemoteSnapshot _ tasks _ => (tasks.map Task.id).Nodup
  | _ => True

/-- An undo adds a task that is not in the list. -/
def RestoresAbsent (e : Date × Operation) (u : Session) : Prop :=
  e.2 = undo → ∀ task ∈ u.undoStack.head?, task.id ∉ u.store.tasks.map Task.id

end Operation

/-- No id is repeated, so nothing that reads the list into a dictionary traps. -/
def Session.NeverTraps (u : Session) : Prop :=
  DistinctIds u.store.tasks ∧ (∃ s', u.store.migrateIfNeeded = some s') ∧
    ∀ orderedIds now, ∃ s', u.store.reorderTasks orderedIds now = some s'

theorem Session.neverTraps_iff {u : Session} : u.NeverTraps ↔ DistinctIds u.store.tasks := by
  refine ⟨fun h => h.1, fun hd => ⟨hd, ?_, fun orderedIds now => ?_⟩⟩
  · obtain ⟨s', hs', -⟩ := LocalStore.migrateIfNeeded_of_distinctIds hd
    exact ⟨s', hs'⟩
  · unfold LocalStore.reorderTasks uniqueKeysWithValues
    rw [if_pos hd]
    exact ⟨_, rfl⟩

theorem distinctIds_undo_iff {u : Session} (hd : DistinctIds u.store.tasks) (now : Date) :
    DistinctIds (u.undo now).store.tasks ↔ Operation.RestoresAbsent (now, .undo) u := by
  unfold Session.undo Operation.RestoresAbsent
  cases hstack : u.undoStack with
  | nil => simpa using hd
  | cons task undoStack =>
    unfold DistinctIds DistinctKeys at hd ⊢
    dsimp only
    rw [LocalStore.ids_addTask]
    simp [List.nodup_append, hd]

/-- A step with fresh ids has a result, and keeps ids distinct unless it is an undo. -/
theorem distinctIds_step {e : Date × Operation} {u : Session} (hd : DistinctIds u.store.tasks)
    (hl : Operation.FreshIds e u) (hg : Operation.RestoresAbsent e u) :
    ∃ u', Session.step e u = some u' ∧ DistinctIds u'.store.tasks := by
  obtain ⟨now, op⟩ := e
  cases op with
  | addTask task => exact ⟨_, rfl, LocalStore.distinctIds_addTask hd hl now⟩
  | addSubtask parentId title priority id =>
    refine ⟨_, rfl, ?_⟩
    rcases u.store.addSubtask_cases parentId title priority id now with hsame | ⟨task, rfl, hadd⟩
    · rwa [hsame]
    · rw [hadd]
      exact LocalStore.distinctIds_addTask hd hl now
  | setParent taskId parentId =>
    exact ⟨_, rfl, distinctIds_congr (LocalStore.ids_setParent taskId parentId now) hd⟩
  | updateTask id updates =>
    exact ⟨_, rfl, distinctIds_congr (LocalStore.ids_updateTask id updates now) hd⟩
  | completeTask id => exact ⟨_, rfl, distinctIds_congr (LocalStore.ids_completeTask id now) hd⟩
  | restoreTask id => exact ⟨_, rfl, distinctIds_congr (LocalStore.ids_restoreTask id now) hd⟩
  | deleteTask id => exact ⟨_, rfl, LocalStore.distinctIds_deleteTask hd id now⟩
  | deleteTaskUndoably id =>
    refine ⟨_, rfl, ?_⟩
    unfold Session.deleteTaskUndoably
    split
    · exact hd
    · exact LocalStore.distinctIds_deleteTask hd id now
  | undo => exact ⟨_, rfl, (distinctIds_undo_iff hd now).mpr hg⟩
  | redo =>
    refine ⟨_, rfl, ?_⟩
    unfold Session.redo
    split
    · exact hd
    · exact LocalStore.distinctIds_deleteTask hd _ now
  | deleteParentTask id strategy =>
    exact ⟨_, rfl, distinctIds_of_sublist (LocalStore.ids_deleteParentTask id strategy now) hd⟩
  | reorderTasks orderedIds =>
    obtain ⟨s', hs', hids, -⟩ := LocalStore.exists_reorderTasks hd hl now
    exact ⟨u.withStore s', congrArg (Option.map u.withStore) hs', hids.nodup_iff.mpr hd⟩
  | deleteCategory id replacementId =>
    exact ⟨_, rfl, distinctIds_congr (LocalStore.ids_deleteCategory id replacementId now) hd⟩
  | applySharedImports notes tasks =>
    exact ⟨_, rfl, LocalStore.distinctIds_applySharedImports hd notes hl.1 hl.2 now⟩
  | applyRemoteTasks tasks =>
    obtain ⟨s', hs', htasks⟩ := LocalStore.applyRemoteTasks_of_distinctIds (s := u.store) hl
    refine ⟨u.withStore s', congrArg (Option.map u.withStore) hs', ?_⟩
    change DistinctIds s'.tasks
    rw [htasks]
    exact distinctIds_congr (ids_sanitized _ _) hl
  | applyRemoteSnapshot notes tasks categories =>
    obtain ⟨s', hs', -, hids, -⟩ :=
      LocalStore.applyRemoteSnapshot_of_distinctIds (s := u.store) notes hl categories
    exact ⟨u.withStore s', congrArg (Option.map u.withStore) hs', distinctIds_congr hids hl⟩

/-- Along a run with fresh ids no id is repeated, and nothing traps, exactly if every undo
adds a task that is not in the list. -/
theorem neverTraps_run_iff {u : Session} (hd : DistinctIds u.store.tasks)
    {ops : List (Date × Operation)} (hl : Runs.Guarded Session.step Operation.FreshIds ops u) :
    (∀ k, ∃ t, Runs.run Session.step (ops.take k) u = some t ∧ t.NeverTraps) ↔
      Runs.Guarded Session.step Operation.RestoresAbsent ops u := by
  simp only [Session.neverTraps_iff]
  refine Runs.forall_take_iff_guarded (I := fun u => DistinctIds u.store.tasks)
    (fun _ _ hd hl hg => distinctIds_step hd hl hg) ?_ hd hl
  rintro ⟨now, op⟩ u u' hd - hs hd' rfl
  obtain rfl := Option.some_inj.mp hs
  exact (distinctIds_undo_iff hd now).mp hd' rfl

/-- An undo right after its delete. -/
theorem neverTraps_run_iff_sample : ∃ t, Runs.run Session.step
    [(.seconds 1, .deleteTaskUndoably "subtask"), (.seconds 2, .undo)] Session.sample =
      some t ∧ t.NeverTraps := by
  have hlegal : Runs.Guarded Session.step Operation.FreshIds
      [(.seconds 1, .deleteTaskUndoably "subtask"), (.seconds 2, .undo)] Session.sample :=
    ⟨trivial, fun _ _ => ⟨trivial, fun _ _ => trivial⟩⟩
  refine (neverTraps_run_iff (by decide) hlegal).mpr
    ⟨nofun, fun u hu => ⟨fun _ task htask => ?_, fun _ _ => trivial⟩⟩ 2
  obtain rfl := Option.some_inj.mp hu
  obtain rfl := Option.some_inj.mp htask
  decide

/-- A snapshot brings the deleted task back before the undo. -/
theorem not_neverTraps_run : ¬∀ (u : Session) (ops : List (Date × Operation)),
    DistinctIds u.store.tasks → Runs.Guarded Session.step Operation.FreshIds ops u →
      ∃ t, Runs.run Session.step ops u = some t ∧ t.NeverTraps := by
  intro h
  have hremote : ([Task.sampleParent, Task.sampleSubtask].map Task.id).Nodup := by decide
  obtain ⟨t, ht, hd, -⟩ := h Session.sample [(.seconds 1, .deleteTaskUndoably "subtask"),
    (.seconds 2, .applyRemoteTasks [.sampleParent, .sampleSubtask]), (.seconds 3, .undo)]
    (by decide) ⟨trivial, fun _ _ => ⟨hremote, fun _ _ => ⟨trivial, fun _ _ => trivial⟩⟩⟩
  obtain rfl := Option.some_inj.mp ht
  revert hd
  decide

end Notelayer
