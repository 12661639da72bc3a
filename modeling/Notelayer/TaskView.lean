import Notelayer.Library.Forest
import Notelayer.TaskOperations

/-!
# The task list as a map

`view` reads a task list as a forest : each id is mapped to its task's parent link,
completion and override. With distinct ids the list operations of the store are updates
of this map, and `reconcileParentCompletion` is `Forest.reconcile`
(`view_reconcileParentCompletion`). Saving, logging and spawning leave the tasks alone.
-/

namespace Notelayer

open KeyedList

/-- No two tasks have the same id. -/
abbrev DistinctIds (tasks : List Task) : Prop :=
  DistinctKeys Task.id tasks

theorem distinctIds_congr {l m : List Task} (h : l.map Task.id = m.map Task.id)
    (hm : DistinctIds m) : DistinctIds l := by
  unfold DistinctIds DistinctKeys
  rw [h]
  exact hm

theorem distinctIds_of_sublist {l m : List Task} (h : (l.map Task.id).Sublist (m.map Task.id))
    (hm : DistinctIds m) : DistinctIds l :=
  List.Nodup.sublist h hm

/-- The task as a node of a forest. -/
def Task.node (task : Task) : Forest.Node String :=
  ⟨task.parentTaskId, task.completedAt.isSome, task.parentManualReopenAt.isSome⟩

@[simp] theorem Task.node_parent (task : Task) : task.node.parent = task.parentTaskId :=
  rfl

/-- The forest a task list stands for. -/
def view (tasks : List Task) : Forest.State String :=
  fun id => (taskWithId tasks id).map Task.node

theorem view_eq_some_iff {tasks : List Task} (hd : DistinctIds tasks) {id : String}
    {n : Forest.Node String} : view tasks id = some n ↔ ∃ t ∈ tasks, t.id = id ∧ t.node = n := by
  unfold view taskWithId
  rw [Option.map_eq_some_iff]
  refine exists_congr fun t => ?_
  rw [lookup_eq_some_iff hd, and_assoc]

theorem view_eq_none_iff {tasks : List Task} {id : String} :
    view tasks id = none ↔ id ∉ tasks.map Task.id := by
  rw [view, Option.map_eq_none_iff]
  exact lookup_eq_none_iff_notMem

/-- A node with a property stands for a task with it. -/
theorem exists_view_iff {tasks : List Task} (hd : DistinctIds tasks) {id : String}
    {P : Forest.Node String → Prop} :
    (∃ n, view tasks id = some n ∧ P n) ↔ ∃ t ∈ tasks, t.id = id ∧ P t.node := by
  refine ⟨?_, ?_⟩
  · rintro ⟨n, hn, hp⟩
    obtain ⟨t, ht, hid, rfl⟩ := (view_eq_some_iff hd).mp hn
    exact ⟨t, ht, hid, hp⟩
  · rintro ⟨t, ht, hid, hp⟩
    exact ⟨t.node, (view_eq_some_iff hd).mpr ⟨t, ht, hid, rfl⟩, hp⟩

theorem isRoot_view_iff {tasks : List Task} (hd : DistinctIds tasks) {id : String} :
    Forest.IsRoot (view tasks) id ↔ ∃ t ∈ tasks, t.id = id ∧ t.parentTaskId = none :=
  exists_view_iff hd

theorem mem_ids_of_isRoot {tasks : List Task} {id : String} (h : Forest.IsRoot (view tasks) id) :
    id ∈ tasks.map Task.id := by
  by_contra hid
  obtain ⟨n, hn, -⟩ := h
  rw [view_eq_none_iff.mpr hid] at hn
  cases hn

theorem isChild_view_iff {tasks : List Task} (hd : DistinctIds tasks) {c p : String} :
    Forest.IsChild (view tasks) c p ↔ ∃ t ∈ tasks, t.id = c ∧ t.parentTaskId = some p :=
  exists_view_iff hd

theorem hasChild_view_iff {tasks : List Task} (hd : DistinctIds tasks) {p : String} :
    Forest.HasChild (view tasks) p ↔ ∃ t ∈ tasks, t.parentTaskId = some p := by
  unfold Forest.HasChild
  simp only [isChild_view_iff hd]
  refine ⟨?_, ?_⟩
  · rintro ⟨c, t, ht, -, hp⟩
    exact ⟨t, ht, hp⟩
  · rintro ⟨t, ht, hp⟩
    exact ⟨t.id, t, ht, rfl, hp⟩

/-- The children of a node are the subtasks of its task. -/
theorem allComplete_view_iff {tasks : List Task} (hd : DistinctIds tasks) {p : String} :
    Forest.AllComplete (view tasks) p ↔
      ∀ t ∈ tasks, t.parentTaskId = some p → t.completedAt ≠ none := by
  unfold Forest.AllComplete
  refine ⟨?_, ?_⟩
  · intro h t ht hp
    have := h t.id t.node ((view_eq_some_iff hd).mpr ⟨t, ht, rfl, rfl⟩) hp
    simpa [Task.node, Option.isSome_iff_ne_none] using this
  · intro h c n hn hp
    obtain ⟨t, ht, -, rfl⟩ := (view_eq_some_iff hd).mp hn
    simpa [Task.node, Option.isSome_iff_ne_none] using h t ht hp

theorem oneLevel_view_iff {tasks : List Task} (hd : DistinctIds tasks) :
    Forest.OneLevel (view tasks) ↔ ∀ t ∈ tasks, ∀ p, t.parentTaskId = some p →
      ∃ parent ∈ tasks, parent.id = p ∧ parent.parentTaskId = none := by
  unfold Forest.OneLevel
  simp only [isChild_view_iff hd, isRoot_view_iff hd]
  refine ⟨?_, ?_⟩
  · intro h t ht p hp
    exact h t.id p ⟨t, ht, rfl, hp⟩
  · rintro h c p ⟨t, ht, -, hp⟩
    exact h t ht p hp

/-! ## Updates of the list -/

section Updates

variable {tasks : List Task}

theorem taskWithId_set (hd : DistinctIds tasks) {i : ℕ} {old new : Task}
    (hi : tasks[i]? = some old) (hid : new.id = old.id) (k : String) :
    taskWithId (tasks.set i new) k = if k = old.id then some new else taskWithId tasks k :=
  lookup_set hd hi hid k

theorem distinctIds_set (hd : DistinctIds tasks) {i : ℕ} {old new : Task}
    (hi : tasks[i]? = some old) (hid : new.id = old.id) : DistinctIds (tasks.set i new) :=
  distinctIds_congr (map_key_set hi hid) hd

theorem view_set (hd : DistinctIds tasks) {i : ℕ} {old new : Task}
    (hi : tasks[i]? = some old) (hid : new.id = old.id) :
    view (tasks.set i new) = Function.update (view tasks) old.id (some new.node) := by
  ext1 k
  unfold view
  rw [taskWithId_set hd hi hid, Function.update_apply]
  split_ifs <;> rfl

theorem view_append_singleton {new : Task} (hnew : new.id ∉ tasks.map Task.id) :
    view (tasks ++ [new]) = Function.update (view tasks) new.id (some new.node) := by
  ext1 k
  unfold view taskWithId
  rw [lookup_append_singleton hnew, Function.update_apply]
  split_ifs <;> rfl

theorem view_remove (id : String) :
    view (remove Task.id tasks id) = Function.update (view tasks) id none := by
  ext1 k
  unfold view taskWithId
  rw [lookup_remove, Function.update_apply]
  split_ifs <;> rfl

theorem view_of_mem (hd : DistinctIds tasks) {t : Task} (ht : t ∈ tasks) :
    view tasks t.id = some t.node :=
  (view_eq_some_iff hd).mpr ⟨t, ht, rfl, rfl⟩

end Updates

/-- Two lists with the same ids and nodes in the same order are the same forest. -/
theorem view_congr {l m : List Task}
    (h : l.map (fun t => (t.id, t.node)) = m.map fun t => (t.id, t.node)) : view l = view m := by
  have hfind : ∀ (l : List Task) (k : String), view l k =
      ((l.map fun t => (t.id, t.node)).find? fun e => e.1 = k).map Prod.snd := by
    intro l k
    rw [List.find?_map, Option.map_map]
    rfl
  ext1 k
  rw [hfind, hfind, h]

theorem view_perm {l m : List Task} (hd : DistinctIds l) (h : l.Perm m) : view m = view l := by
  ext1 k
  unfold view taskWithId
  rw [lookup_perm hd h]

/-! ## Finding tasks -/

theorem parentOf_view (tasks : List Task) (id : String) :
    Forest.parentOf (view tasks) id = (taskWithId tasks id).bind Task.parentTaskId := by
  unfold Forest.parentOf view
  cases taskWithId tasks id <;> rfl

theorem firstEntry_eq_some {tasks : List Task} {p : Task → Bool} {i : ℕ} {t : Task}
    (h : firstEntry tasks p = some (i, t)) : tasks[i]? = some t ∧ p t = true := by
  unfold firstEntry at h
  obtain ⟨j, hj, h⟩ := Option.bind_eq_some_iff.mp h
  obtain ⟨t', ht', h⟩ := Option.map_eq_some_iff.mp h
  obtain ⟨rfl, rfl⟩ := Prod.mk.inj h
  obtain ⟨hlt, hp, -⟩ := List.findIdx?_eq_some_iff_getElem.mp hj
  refine ⟨ht', ?_⟩
  rw [List.getElem?_eq_getElem hlt, Option.some_inj] at ht'
  exact ht' ▸ hp

theorem firstEntry_eq_none {tasks : List Task} {p : Task → Bool} (h : firstEntry tasks p = none) :
    ∀ t ∈ tasks, p t = false := by
  unfold firstEntry at h
  cases hj : tasks.findIdx? p with
  | none => exact List.findIdx?_eq_none_iff.mp hj
  | some j =>
    obtain ⟨hlt, -, -⟩ := List.findIdx?_eq_some_iff_getElem.mp hj
    rw [hj, Option.bind_some, List.getElem?_eq_getElem hlt] at h
    cases h

theorem topLevelTaskWithId_eq_some {tasks : List Task} {id : String} {t : Task}
    (h : topLevelTaskWithId tasks id = some t) :
    t ∈ tasks ∧ t.id = id ∧ t.parentTaskId = none := by
  have hp := List.find?_some h
  simp only [decide_eq_true_eq] at hp
  exact ⟨List.mem_of_find?_eq_some h, hp⟩

theorem topLevelTaskWithId_eq_none_iff {tasks : List Task} (hd : DistinctIds tasks) {id : String} :
    topLevelTaskWithId tasks id = none ↔ ¬Forest.IsRoot (view tasks) id := by
  rw [isRoot_view_iff hd]
  simp [topLevelTaskWithId]

theorem isRoot_of_topLevelTaskWithId {tasks : List Task} (hd : DistinctIds tasks) {id : String}
    {t : Task} (h : topLevelTaskWithId tasks id = some t) : Forest.IsRoot (view tasks) id :=
  (isRoot_view_iff hd).mpr ⟨t, topLevelTaskWithId_eq_some h⟩

theorem view_of_firstEntry {tasks : List Task} (hd : DistinctIds tasks) {id : String} {i : ℕ}
    {t : Task} (h : firstEntry tasks (fun t => t.id = id) = some (i, t)) :
    tasks[i]? = some t ∧ t.id = id ∧ view tasks id = some t.node := by
  obtain ⟨hi, hid⟩ := firstEntry_eq_some h
  obtain rfl : t.id = id := by simpa using hid
  exact ⟨hi, rfl, view_of_mem hd (List.mem_of_getElem? hi)⟩

theorem view_of_firstEntry_none {tasks : List Task} {id : String}
    (h : firstEntry tasks (fun t => t.id = id) = none) : view tasks id = none := by
  rw [view_eq_none_iff]
  intro hmem
  obtain ⟨t, ht, hid⟩ := List.mem_map.mp hmem
  simpa [hid] using firstEntry_eq_none h t ht

/-! ## Reconciling -/

theorem Task.reconciled_node (t : Task) (a r : Bool) (now : Date) :
    (t.reconciled a r now).1.node = t.node.settled r true a := by
  cases t with
  | mk id title categories priority dueDate completedAt taskNotes createdAt updatedAt orderIndex
      reminderDate reminderNotificationId parentTaskId parentManualReopenAt =>
    cases a <;> cases r <;> cases completedAt <;> cases parentManualReopenAt <;> rfl

namespace LocalStore

variable (s : LocalStore)

/-- A reconcile leaves the store as it is, or replaces one top-level task by one with the
same id and link and spawns one closure about it. The closure carries an index only where the
parent had an override and no subtasks. -/
theorem reconcileParentCompletion_cases (parentId : String) (r : Bool) (now : Date) :
    s.reconcileParentCompletion parentId r now = s ∨
      ∃ i old new closure, s.tasks[i]? = some old ∧ old.id = parentId ∧
        old.parentTaskId = none ∧ new.id = parentId ∧ new.parentTaskId = none ∧
        (closure = (Closure.upsertTask · new) ∨ closure = (Closure.upsertTaskAt · i parentId) ∧
          old.parentManualReopenAt ≠ none ∧ ¬s.hasSubtasks parentId = true) ∧
        s.reconcileParentCompletion parentId r now =
          (s.setTask i new).saveTasks.spawnSync closure := by
  unfold reconcileParentCompletion
  split
  · exact Or.inl rfl
  · rename_i i old hentry
    obtain ⟨hi, hold⟩ := firstEntry_eq_some hentry
    simp only [decide_eq_true_eq] at hold
    obtain ⟨hid, hroot⟩ := hold
    dsimp only
    split_ifs with hc ho
    · have hsub : ¬s.hasSubtasks parentId = true := by
        rw [List.isEmpty_iff, List.filter_eq_nil_iff] at hc
        simpa [hasSubtasks] using hc
      exact Or.inr ⟨i, old, old.withoutOverride now, _, hi, hid, hroot, hid, hroot,
        Or.inr ⟨rfl, ho, hsub⟩, rfl⟩
    · exact Or.inl rfl
    · refine Or.inr ⟨i, old, _, _, hi, hid, hroot, ?_, ?_, Or.inl rfl, rfl⟩
      · rw [Task.reconciled_id, hid]
      · rw [Task.reconciled_parentTaskId, hroot]
    · exact Or.inl rfl

/-- On the forest, the store's reconcile is the abstract one. -/
theorem view_reconcileParentCompletion (hd : DistinctIds s.tasks) (parentId : String) (r : Bool)
    (now : Date) : view (s.reconcileParentCompletion parentId r now).tasks =
      Forest.reconcile (view s.tasks) parentId r := by
  classical
  unfold reconcileParentCompletion
  split
  · rename_i hentry
    rw [Forest.reconcile_of_not_root]
    rw [isRoot_view_iff hd]
    rintro ⟨t, ht, hid, hroot⟩
    simpa [hid, hroot] using firstEntry_eq_none hentry t ht
  · rename_i i old hentry
    obtain ⟨hi, hold⟩ := firstEntry_eq_some hentry
    simp only [decide_eq_true_eq] at hold
    obtain ⟨rfl, hroot⟩ := hold
    have hmem : old ∈ s.tasks := List.mem_of_getElem? hi
    have hview := view_of_mem hd hmem
    rw [Forest.reconcile_of_root hview hroot]
    have hempty : (s.tasks.filter fun t => t.parentTaskId = some old.id).isEmpty = true ↔
        ¬Forest.HasChild (view s.tasks) old.id := by
      rw [hasChild_view_iff hd]
      simp
    have hall : ((s.tasks.filter fun t => t.parentTaskId = some old.id).all
        fun t => t.completedAt ≠ none) = decide (Forest.AllComplete (view s.tasks) old.id) := by
      rw [Bool.eq_iff_iff, decide_eq_true_iff, allComplete_view_iff hd]
      simp [imp_iff_not_or]
    have hself : ∀ n : Forest.Node String, n = old.node →
        view s.tasks = Function.update (view s.tasks) old.id (some n) := by
      rintro n rfl
      rw [← hview, Function.update_eq_self]
    dsimp only
    split_ifs with hc ho hch
    · have hno := hempty.mp hc
      have hid : (old.withoutOverride now).id = old.id := rfl
      rw [tasks_spawnSync, tasks_saveTasks, tasks_setTask, view_set hd hi hid]
      simp [hno, Forest.Node.settled, Task.node, Task.withoutOverride]
    · have hno := hempty.mp hc
      refine hself _ ?_
      simp only [ne_eq, not_not] at ho
      simp [hno, Forest.Node.settled, Task.node, ho]
    · have hyes := not_not.mp (mt hempty.mpr hc)
      rw [tasks_spawnSync, tasks_saveTasks, tasks_setTask, view_set hd hi (by simp),
        Task.reconciled_node, hall]
      simp [hyes]
    · have hyes := not_not.mp (mt hempty.mpr hc)
      refine hself _ ?_
      rw [Bool.not_eq_true] at hch
      have := Task.reconciled_node old (decide (Forest.AllComplete (view s.tasks) old.id)) r now
      rw [← hall, Task.reconciled_eq_self hch, hall] at this
      rw [decide_eq_true hyes]
      exact this.symm

end LocalStore

end Notelayer
