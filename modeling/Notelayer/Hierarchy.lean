import Notelayer.SessionIds

/-!
# The one-level hierarchy

`HierarchyOk` says that ids are distinct and that every parent link names another task,
which is top-level. The adding, moving and repairing operations check what they link to,
and `deleteParentTask` empties a parent before it deletes it. `deleteTask` does not look
for subtasks, a redo calls it on a task that may have got subtasks since, and an undo
adds a task that a snapshot may have brought back.

`Operation.KeepsParents` excludes these three. A step from a good list yields a good list
exactly when it holds (`hierarchyOk_step`, `keepsParents_of_hierarchyOk`), so the
hierarchy holds along a run exactly when every step of it keeps parents
(`hierarchyOk_run_iff`).
-/

namespace Notelayer

open KeyedList

/-- Distinct ids, and every parent link names another task, which is top-level. -/
def HierarchyOk (tasks : List Task) : Prop :=
  (tasks.map Task.id).Nodup ∧ ∀ t ∈ tasks, ∀ p, t.parentTaskId = some p →
    ∃ parent ∈ tasks, parent.id = p ∧ parent.id ≠ t.id ∧ parent.parentTaskId = none

theorem hierarchyOk_iff {tasks : List Task} :
    HierarchyOk tasks ↔ DistinctIds tasks ∧ Forest.OneLevel (view tasks) := by
  refine and_congr_right fun hd => ?_
  rw [oneLevel_view_iff hd]
  refine forall₂_congr fun t ht => forall₂_congr fun p hp => exists_congr fun parent => ?_
  refine and_congr_right fun hparent => and_congr_right fun _ => and_iff_right_of_imp ?_
  intro hroot hid
  rw [List.inj_on_of_nodup_map hd hparent ht hid, hp] at hroot
  cases hroot

namespace LocalStore

variable {s : LocalStore}

/-! ## One operation -/

/-- A new task takes no task that has subtasks as its parent. -/
theorem hierarchyOk_addTask (h : HierarchyOk s.tasks) {task : Task}
    (hnew : task.id ∉ s.tasks.map Task.id) (now : Date) :
    HierarchyOk (s.addTask task now).1.tasks := by
  obtain ⟨hd, ho⟩ := hierarchyOk_iff.mp h
  refine hierarchyOk_iff.mpr ⟨distinctIds_addTask hd hnew now, ?_⟩
  rw [view_addTask hd hnew]
  refine ho.put (fun p hp => ?_) ?_ true
  · have hroot := isRoot_of_attached hd hp
    exact ⟨fun hpk => hnew (hpk ▸ mem_ids_of_isRoot hroot), hroot⟩
  · rintro ⟨c, hc⟩
    exact absurd (mem_ids_of_isRoot (ho c _ hc)) hnew

theorem hierarchyOk_addSubtask (h : HierarchyOk s.tasks) (parentId title : String)
    (priority : Priority) {id : String} (hnew : id ∉ s.tasks.map Task.id) (now : Date) :
    HierarchyOk (s.addSubtask parentId title priority id now).1.tasks := by
  rcases s.addSubtask_cases parentId title priority id now with hs | ⟨task, rfl, hs⟩
  · rwa [hs]
  · rw [hs]
    exact hierarchyOk_addTask h hnew now

theorem hierarchyOk_setParent (h : HierarchyOk s.tasks) (taskId : String)
    (parentId : Option String) (now : Date) :
    HierarchyOk (s.setParent taskId parentId now).tasks := by
  obtain ⟨hd, ho⟩ := hierarchyOk_iff.mp h
  refine hierarchyOk_iff.mpr ⟨distinctIds_congr (ids_setParent taskId parentId now) hd, ?_⟩
  rw [view_setParent hd]
  split_ifs with hr
  · exact ho
  · exact ho.reparent (of_not_refusesParent hd hr)

theorem hierarchyOk_updateTask (h : HierarchyOk s.tasks) (id : String) {updates : TaskUpdate}
    (hlink : ∀ t, (updates.apply t).parentTaskId = t.parentTaskId) (now : Date) :
    HierarchyOk (s.updateTask id updates now).tasks := by
  obtain ⟨hd, ho⟩ := hierarchyOk_iff.mp h
  exact hierarchyOk_iff.mpr ⟨distinctIds_congr (ids_updateTask id updates now) hd,
    (sameLinks_updateTask hd id hlink now).symm.oneLevel ho⟩

theorem hierarchyOk_completeTask (h : HierarchyOk s.tasks) (id : String) (now : Date) :
    HierarchyOk (s.completeTask id now).tasks := by
  obtain ⟨hd, ho⟩ := hierarchyOk_iff.mp h
  refine hierarchyOk_iff.mpr ⟨distinctIds_congr (ids_completeTask id now) hd, ?_⟩
  rw [view_completeTask hd]
  exact (Forest.sameLinks_complete _ id).symm.oneLevel ho

theorem hierarchyOk_restoreTask (h : HierarchyOk s.tasks) (id : String) (now : Date) :
    HierarchyOk (s.restoreTask id now).tasks := by
  obtain ⟨hd, ho⟩ := hierarchyOk_iff.mp h
  refine hierarchyOk_iff.mpr ⟨distinctIds_congr (ids_restoreTask id now) hd, ?_⟩
  rw [view_restoreTask hd]
  exact (Forest.sameLinks_reopen _ id).symm.oneLevel ho

theorem hierarchyOk_deleteTask (h : HierarchyOk s.tasks) {id : String}
    (hsub : s.hasSubtasks id = false) (now : Date) : HierarchyOk (s.deleteTask id now).tasks := by
  obtain ⟨hd, ho⟩ := hierarchyOk_iff.mp h
  refine hierarchyOk_iff.mpr ⟨distinctIds_deleteTask hd id now, ?_⟩
  rw [view_deleteTask hd]
  refine ho.drop ?_
  rw [← hasSubtasks_iff hd, hsub]
  exact Bool.false_ne_true

/-- Deleting a task that has subtasks leaves them with a missing parent. -/
theorem not_hierarchyOk_deleteTask (h : HierarchyOk s.tasks) {id : String}
    (hsub : s.hasSubtasks id = true) (now : Date) : ¬HierarchyOk (s.deleteTask id now).tasks := by
  obtain ⟨hd, ho⟩ := hierarchyOk_iff.mp h
  intro h'
  obtain ⟨-, ho'⟩ := hierarchyOk_iff.mp h'
  rw [view_deleteTask hd] at ho'
  obtain ⟨c, hc⟩ := (hasSubtasks_iff hd).mp hsub
  have hck : c ≠ id := by
    rintro rfl
    exact ho.noNesting.not_hasChild hc ⟨c, hc⟩
  obtain ⟨n, hn, -⟩ := ho' c id (Forest.isChild_drop.mpr ⟨hck, hc⟩)
  rw [← view_deleteTask hd id now, view_eq_none_iff.mpr] at hn
  · cases hn
  · rw [ids_deleteTask]
    simp [remove]

/-- Neither strategy leaves a subtask under the deleted parent. -/
theorem hierarchyOk_deleteParentTask (h : HierarchyOk s.tasks) (id : String)
    (strategy : ParentTaskDeletionStrategy) (now : Date) :
    HierarchyOk (s.deleteParentTask id strategy now).tasks := by
  obtain ⟨hd, ho⟩ := hierarchyOk_iff.mp h
  refine hierarchyOk_iff.mpr
    ⟨distinctIds_of_sublist (ids_deleteParentTask id strategy now) hd, ?_⟩
  rw [view_deleteParentTask hd]
  have hchild : ∀ c, Forest.IsChild (view s.tasks) c id ↔ c ∈ s.childIds id :=
    fun c => (mem_childIds hd).symm
  cases strategy with
  | deleteSubtasks =>
    refine (ho.dropAll fun k hk => ?_).drop ?_
    · exact ho.noNesting.not_hasChild ((hchild k).mpr hk)
    · rintro ⟨c, hc⟩
      obtain ⟨hnot, hc⟩ := Forest.isChild_dropAll.mp hc
      exact hnot ((hchild c).mp hc)
  | detachSubtasks =>
    refine (ho.detachAll _).drop ?_
    rintro ⟨c, hc⟩
    obtain ⟨hnot, hc⟩ := hc.of_detachAll
    exact hnot ((hchild c).mp hc)

theorem hierarchyOk_reorderTasks (h : HierarchyOk s.tasks) {orderedIds : List String}
    (hn : orderedIds.Nodup) (now : Date) :
    ∃ s', s.reorderTasks orderedIds now = some s' ∧ HierarchyOk s'.tasks := by
  obtain ⟨hd, ho⟩ := hierarchyOk_iff.mp h
  obtain ⟨s', hs', hids, hview⟩ := exists_reorderTasks hd hn now
  exact ⟨s', hs', hierarchyOk_iff.mpr ⟨hids.nodup_iff.mpr hd, hview ▸ ho⟩⟩

theorem hierarchyOk_deleteCategory (h : HierarchyOk s.tasks) (id : String)
    (replacementId : Option String) (now : Date) :
    HierarchyOk (s.deleteCategory id replacementId now).tasks := by
  obtain ⟨hd, ho⟩ := hierarchyOk_iff.mp h
  refine hierarchyOk_iff.mpr ⟨distinctIds_congr (ids_deleteCategory id replacementId now) hd, ?_⟩
  rwa [view_deleteCategory]

theorem hierarchyOk_applySharedImports (h : HierarchyOk s.tasks) (ns : List Note)
    {ts : List Task} (hts : (ts.map Task.id).Nodup)
    (hnew : ∀ t ∈ ts, t.id ∉ s.tasks.map Task.id) (now : Date) :
    HierarchyOk (s.applySharedImports ns ts now).tasks := by
  obtain ⟨hd, ho⟩ := hierarchyOk_iff.mp h
  exact hierarchyOk_iff.mpr ⟨distinctIds_applySharedImports hd ns hts hnew now,
    oneLevel_applySharedImports hd ho ns hts hnew now⟩

theorem hierarchyOk_applyRemoteTasks {ts : List Task} (hts : (ts.map Task.id).Nodup) :
    ∃ s', s.applyRemoteTasks ts = some s' ∧ HierarchyOk s'.tasks := by
  obtain ⟨s', hs', htasks⟩ := applyRemoteTasks_of_distinctIds (s := s) hts
  refine ⟨s', hs', hierarchyOk_iff.mpr ?_⟩
  rw [htasks]
  exact ⟨distinctIds_congr (ids_sanitized _ _) hts, oneLevel_sanitized hts⟩

theorem hierarchyOk_applyRemoteSnapshot (ns : List Note) {ts : List Task}
    (hts : (ts.map Task.id).Nodup) (cs : List Category) :
    ∃ s', s.applyRemoteSnapshot ns ts cs = some s' ∧ HierarchyOk s'.tasks := by
  obtain ⟨s', hs', -, hids, ho⟩ := applyRemoteSnapshot_of_distinctIds (s := s) ns hts cs
  exact ⟨s', hs', hierarchyOk_iff.mpr ⟨distinctIds_congr hids hts, ho⟩⟩

end LocalStore

/-! ## Runs -/

/-- The step does not take a parent away from its subtasks, nor add a task that is there. -/
def Operation.KeepsParents (e : Date × Operation) (u : Session) : Prop :=
  match e.2 with
  | deleteTask id => u.store.hasSubtasks id = false
  | deleteTaskUndoably id => u.store.hasSubtasks id = false
  | undo => ∀ task ∈ u.undoStack.head?, task.id ∉ u.store.tasks.map Task.id
  | redo => ∀ task ∈ u.redoStack.head?, u.store.hasSubtasks task.id = false
  | _ => True

/-- A legal step that keeps parents does not trap and keeps the hierarchy. -/
theorem hierarchyOk_step {e : Date × Operation} {u : Session} (h : HierarchyOk u.store.tasks)
    (hl : Operation.Legal e u) (hk : Operation.KeepsParents e u) :
    ∃ u', Session.step e u = some u' ∧ HierarchyOk u'.store.tasks := by
  obtain ⟨now, op⟩ := e
  cases op with
  | addTask task =>
    exact ⟨_, rfl, LocalStore.hierarchyOk_addTask h (Session.notMem_of_notMem_knownIds hl) now⟩
  | addSubtask parentId title priority id =>
    exact ⟨_, rfl, LocalStore.hierarchyOk_addSubtask h parentId title priority
      (Session.notMem_of_notMem_knownIds hl) now⟩
  | setParent taskId parentId =>
    exact ⟨_, rfl, LocalStore.hierarchyOk_setParent h taskId parentId now⟩
  | updateTask id updates => exact ⟨_, rfl, LocalStore.hierarchyOk_updateTask h id hl now⟩
  | completeTask id => exact ⟨_, rfl, LocalStore.hierarchyOk_completeTask h id now⟩
  | restoreTask id => exact ⟨_, rfl, LocalStore.hierarchyOk_restoreTask h id now⟩
  | deleteTask id => exact ⟨_, rfl, LocalStore.hierarchyOk_deleteTask h hk now⟩
  | deleteTaskUndoably id =>
    refine ⟨_, rfl, ?_⟩
    unfold Session.deleteTaskUndoably
    split
    · exact h
    · exact LocalStore.hierarchyOk_deleteTask h hk now
  | undo =>
    refine ⟨_, rfl, ?_⟩
    unfold Session.undo
    split
    · exact h
    · rename_i task undoStack hstack
      exact LocalStore.hierarchyOk_addTask h (hk task (by simp [hstack])) now
  | redo =>
    refine ⟨_, rfl, ?_⟩
    unfold Session.redo
    split
    · exact h
    · rename_i task redoStack hstack
      exact LocalStore.hierarchyOk_deleteTask h (hk task (by simp [hstack])) now
  | deleteParentTask id strategy =>
    exact ⟨_, rfl, LocalStore.hierarchyOk_deleteParentTask h id strategy now⟩
  | reorderTasks orderedIds =>
    obtain ⟨s', hs', h'⟩ := LocalStore.hierarchyOk_reorderTasks h hl now
    exact ⟨u.withStore s', congrArg (Option.map u.withStore) hs', h'⟩
  | deleteCategory id replacementId =>
    exact ⟨_, rfl, LocalStore.hierarchyOk_deleteCategory h id replacementId now⟩
  | applySharedImports notes tasks =>
    exact ⟨_, rfl, LocalStore.hierarchyOk_applySharedImports h notes hl.1
      (fun t ht => Session.notMem_of_notMem_knownIds (hl.2 t ht)) now⟩
  | applyRemoteTasks tasks =>
    obtain ⟨s', hs', h'⟩ := LocalStore.hierarchyOk_applyRemoteTasks (s := u.store) hl
    exact ⟨u.withStore s', congrArg (Option.map u.withStore) hs', h'⟩
  | applyRemoteSnapshot notes tasks categories =>
    obtain ⟨s', hs', h'⟩ :=
      LocalStore.hierarchyOk_applyRemoteSnapshot (s := u.store) notes hl categories
    exact ⟨u.withStore s', congrArg (Option.map u.withStore) hs', h'⟩

/-- A step that does not keep parents breaks the hierarchy. -/
theorem keepsParents_of_hierarchyOk {e : Date × Operation} {u u' : Session}
    (h : HierarchyOk u.store.tasks) (hs : Session.step e u = some u')
    (h' : HierarchyOk u'.store.tasks) : Operation.KeepsParents e u := by
  have hdelete : ∀ id now, HierarchyOk (u.store.deleteTask id now).tasks →
      u.store.hasSubtasks id = false := by
    intro id now hok
    by_contra hsub
    rw [Bool.not_eq_false] at hsub
    exact LocalStore.not_hierarchyOk_deleteTask h hsub now hok
  obtain ⟨now, op⟩ := e
  cases op with
  | deleteTask id =>
    obtain rfl := Option.some_inj.mp hs
    exact hdelete id now h'
  | deleteTaskUndoably id =>
    obtain rfl := Option.some_inj.mp hs
    unfold Session.deleteTaskUndoably at h'
    split at h'
    · rename_i hnone
      -- a task that is not in the list has no subtasks
      obtain ⟨hd, ho⟩ := hierarchyOk_iff.mp h
      have hnot : ¬u.store.hasSubtasks id = true := by
        rw [LocalStore.hasSubtasks_iff hd]
        rintro ⟨c, hc⟩
        exact lookup_eq_none_iff_notMem.mp hnone (mem_ids_of_isRoot (ho c id hc))
      exact Bool.eq_false_of_not_eq_true hnot
    · exact hdelete id now h'
  | undo =>
    obtain rfl := Option.some_inj.mp hs
    intro task htask
    unfold Session.undo at h'
    split at h'
    · rename_i hnil
      simp [hnil] at htask
    · rename_i top undoStack hstack
      obtain rfl : top = task := by simpa [hstack] using htask
      have hn := h'.1
      rw [LocalStore.ids_addTask, ← List.concat_eq_append, List.nodup_concat] at hn
      exact hn.1
  | redo =>
    obtain rfl := Option.some_inj.mp hs
    intro task htask
    unfold Session.redo at h'
    split at h'
    · rename_i hnil
      simp [hnil] at htask
    · rename_i top redoStack hstack
      obtain rfl : top = task := by simpa [hstack] using htask
      exact hdelete top.id now h'
  | _ => trivial

/-- Along a run of legal operations the hierarchy holds in every state if and only if every
step keeps parents. -/
theorem hierarchyOk_run_iff {u : Session} (h : HierarchyOk u.store.tasks)
    {ops : List (Date × Operation)} (hl : Runs.Guarded Session.step Operation.Legal ops u) :
    (∀ k, ∃ t, Runs.run Session.step (ops.take k) u = some t ∧ HierarchyOk t.store.tasks) ↔
      Runs.Guarded Session.step Operation.KeepsParents ops u :=
  Runs.forall_take_iff_guarded (I := fun u => HierarchyOk u.store.tasks)
    (fun _ _ h hl hk => hierarchyOk_step h hl hk)
    (fun _ _ _ h _ hs h' => keepsParents_of_hierarchyOk h hs h') h hl

theorem hierarchyOk_sample : HierarchyOk Session.sample.store.tasks := by
  refine ⟨by decide, ?_⟩
  simp [Session.sample, Task.sampleParent, Task.sampleSubtask]

/-- Deleting the subtask and then its parent. -/
theorem hierarchyOk_run_iff_sample : HierarchyOk Session.sample.store.tasks ∧
    ∀ k, ∃ t, Runs.run Session.step
      ([(.seconds 1, .deleteTask "subtask"), (.seconds 2, .deleteTask "parent")].take k)
      Session.sample = some t ∧ HierarchyOk t.store.tasks := by
  have hlegal : Runs.Guarded Session.step Operation.Legal
      [(.seconds 1, .deleteTask "subtask"), (.seconds 2, .deleteTask "parent")] Session.sample :=
    ⟨trivial, fun _ _ => ⟨trivial, fun _ _ => trivial⟩⟩
  have hsubtask : Session.sample.store.hasSubtasks "subtask" = false := by decide
  have hparent : (Session.sample.store.deleteTask "subtask" (.seconds 1)).hasSubtasks "parent" =
      false := by decide
  refine ⟨hierarchyOk_sample, (hierarchyOk_run_iff hierarchyOk_sample hlegal).mpr
    ⟨hsubtask, fun u' hu' => ?_⟩⟩
  obtain rfl := Option.some_inj.mp hu'
  exact ⟨hparent, fun _ _ => trivial⟩

/-- Deleting a parent as the priority, category and date views do leaves its subtask with a
missing parent. -/
theorem not_hierarchyOk_run : ¬∀ (u : Session) (ops : List (Date × Operation)),
    HierarchyOk u.store.tasks → Runs.Guarded Session.step Operation.Legal ops u →
      ∃ t, Runs.run Session.step ops u = some t ∧ HierarchyOk t.store.tasks := by
  intro h
  obtain ⟨t, ht, hok⟩ := h Session.sample [(.seconds 1, .deleteTask "parent")] hierarchyOk_sample
    ⟨trivial, fun _ _ => trivial⟩
  obtain rfl := Option.some_inj.mp ht
  exact LocalStore.not_hierarchyOk_deleteTask hierarchyOk_sample (by decide) (.seconds 1) hok

end Notelayer
