import Notelayer.Hierarchy

/-!
# Parent completion

`ParentsSettled` says of every top-level task with subtasks : with all of them complete it
is complete or manually reopened, and while one is open it is neither. On the forest this
is `Forest.Consistent`, which every operation keeps that reconciles the parents it
touches. Three do not reconcile the task they write : completing a parent by hand,
reopening it by hand, and adding a deleted parent again by an undo while its subtasks are
still in the list.

`Operation.SettlesParents` is what these three have to meet. Along a run of task
operations that all do, the parents stay settled (`parentsSettled_run`). The invariant
beside it is that no link names a subtask, and that the tasks waiting to be restored are
not in the list (`Session.Settled`).
-/

namespace Notelayer

open KeyedList Session

/-- The subtasks of `p` are all complete. -/
def SubtasksComplete (tasks : List Task) (p : String) : Prop :=
  ∀ t ∈ tasks, t.parentTaskId = some p → t.completedAt ≠ none

instance (tasks : List Task) (p : String) : Decidable (SubtasksComplete tasks p) :=
  inferInstanceAs (Decidable (∀ t ∈ tasks, _ → _))

/-- Every top-level task with subtasks is complete or reopened if they all are, and neither
if one is open. -/
def ParentsSettled (tasks : List Task) : Prop :=
  ∀ parent ∈ tasks, parent.parentTaskId = none →
    (∃ t ∈ tasks, t.parentTaskId = some parent.id) →
    (SubtasksComplete tasks parent.id →
      parent.completedAt ≠ none ∨ parent.parentManualReopenAt ≠ none) ∧
    (¬SubtasksComplete tasks parent.id →
      parent.completedAt = none ∧ parent.parentManualReopenAt = none)

instance (tasks : List Task) : Decidable (ParentsSettled tasks) :=
  inferInstanceAs (Decidable (∀ parent ∈ tasks, _ → _ → _))

/-- Settled parents are consistent nodes. -/
theorem parentsSettled_iff {tasks : List Task} (hd : DistinctIds tasks) :
    ParentsSettled tasks ↔ Forest.Consistent (view tasks) := by
  unfold ParentsSettled Forest.Consistent Forest.ConsistentAt SubtasksComplete
  simp only [hasChild_view_iff hd, allComplete_view_iff hd]
  refine ⟨?_, ?_⟩
  · intro h p n hn hroot hchild
    obtain ⟨t, ht, rfl, rfl⟩ := (view_eq_some_iff hd).mp hn
    simpa [Task.node, Option.isSome_iff_ne_none] using h t ht hroot hchild
  · intro h t ht hroot hchild
    simpa [Task.node, Option.isSome_iff_ne_none] using
      h t.id t.node (view_of_mem hd ht) hroot hchild

/-! ## The operations -/

/-- The operations on parents and subtasks. -/
def Operation.isHierarchyOperation : Operation → Bool
  | addTask _ => true
  | addSubtask _ _ _ _ => true
  | setParent _ _ => true
  | completeTask _ => true
  | restoreTask _ => true
  | deleteTask _ => true
  | deleteTaskUndoably _ => true
  | deleteParentTask _ _ => true
  | undo => true
  | _ => false

/-- No top-level task is completed or reopened by hand while a subtask of it is open, and a
task that an undo adds to its subtasks is a top-level task, complete if and only if they
are. -/
def Operation.SettlesParents (e : Date × Operation) (u : Session) : Prop :=
  match e.2 with
  | completeTask id => topLevelTaskWithId u.store.tasks id ≠ none →
      SubtasksComplete u.store.tasks id
  | restoreTask id => topLevelTaskWithId u.store.tasks id ≠ none →
      SubtasksComplete u.store.tasks id
  | undo => ∀ task ∈ u.undoStack.head?, u.store.hasSubtasks task.id = true →
      task.parentTaskId = none ∧
        (task.completedAt ≠ none ↔ SubtasksComplete u.store.tasks task.id)
  | _ => True

theorem Operation.isLocal_of_isHierarchyOperation {op : Operation}
    (h : op.isHierarchyOperation = true) : op.isLocal = true := by
  cases op <;> first | rfl | cases h

/-- The invariant of a run : identifiers kept apart, no link to a subtask, and settled
parents. -/
structure Session.Settled (u : Session) : Prop where
  idsOk : u.IdsOk
  noNesting : Forest.NoNesting (view u.store.tasks)
  consistent : Forest.Consistent (view u.store.tasks)

namespace LocalStore

variable {s : LocalStore}

/-- A new task, on its own or as a subtask, or one that is added to its subtasks in the state
they are in. -/
theorem settled_addTask (hd : DistinctIds s.tasks) (hn : Forest.NoNesting (view s.tasks))
    (hc : Forest.Consistent (view s.tasks)) {task : Task} (hnew : task.id ∉ s.tasks.map Task.id)
    (hsub : s.hasSubtasks task.id = true → task.parentTaskId = none ∧
      (task.completedAt ≠ none ↔ SubtasksComplete s.tasks task.id)) (now : Date) :
    Forest.NoNesting (view (s.addTask task now).1.tasks) ∧
      Forest.Consistent (view (s.addTask task now).1.tasks) := by
  have hroots : ∀ p, ((task.ordered now.milliseconds).attached s.tasks).node.parent = some p →
      p ≠ task.id ∧ Forest.IsRoot (view s.tasks) p := by
    intro p hp
    have hroot := isRoot_of_attached hd hp
    exact ⟨fun hpk => hnew (hpk ▸ mem_ids_of_isRoot hroot), hroot⟩
  have hnode : task.parentTaskId = none →
      ((task.ordered now.milliseconds).attached s.tasks).node =
        ⟨none, task.completedAt.isSome, false⟩ := by
    intro hp
    unfold Task.attached
    simp [hp, Task.node, Task.ordered]
  rw [view_addTask hd hnew]
  generalize ((task.ordered now.milliseconds).attached s.tasks).node = n at hroots hnode ⊢
  have hnone : view s.tasks task.id = none := view_eq_none_iff.mpr hnew
  refine ⟨hn.put hroots (fun hchild => ?_) true, hc.put (fun m hm => ?_) ?_ true⟩
  · rw [hnode (hsub ((hasSubtasks_iff hd).mpr hchild)).1]
  · rw [hnone] at hm
    cases hm
  · intro m hm hroot hchild
    rw [Function.update_self, Option.some_inj] at hm
    obtain rfl := hm
    have hchild' := hchild.of_update hroot
    obtain ⟨hparent, hiff⟩ := hsub ((hasSubtasks_iff hd).mpr hchild')
    have hall : Forest.AllComplete (Function.update (view s.tasks) task.id (some n)) task.id ↔
        task.completedAt ≠ none := by
      rw [hiff, SubtasksComplete, ← allComplete_view_iff hd]
      exact ⟨fun h => h.of_update hnone, fun h => h.update hroot⟩
    rw [hall, hnode hparent]
    refine ⟨fun h => Or.inl ?_, fun h => ⟨?_, rfl⟩⟩
    · exact Option.isSome_iff_ne_none.mpr h
    · simpa using h

theorem settled_setParent (hd : DistinctIds s.tasks) (hn : Forest.NoNesting (view s.tasks))
    (hc : Forest.Consistent (view s.tasks)) (taskId : String) (parentId : Option String)
    (now : Date) : Forest.NoNesting (view (s.setParent taskId parentId now).tasks) ∧
      Forest.Consistent (view (s.setParent taskId parentId now).tasks) := by
  rw [view_setParent hd]
  split_ifs with hr
  · exact ⟨hn, hc⟩
  · exact ⟨hn.reparent (of_not_refusesParent hd hr), hc.reparent hn taskId parentId⟩

/-- The condition under which the forest lets a task be completed or reopened by hand. -/
theorem allComplete_of_topLevel (hd : DistinctIds s.tasks) {id : String}
    (h : topLevelTaskWithId s.tasks id ≠ none → SubtasksComplete s.tasks id) :
    Forest.IsRoot (view s.tasks) id → Forest.AllComplete (view s.tasks) id := by
  intro hroot
  rw [allComplete_view_iff hd]
  exact h (mt (topLevelTaskWithId_eq_none_iff hd).mp (not_not.mpr hroot))

theorem settled_deleteParentTask (hd : DistinctIds s.tasks)
    (hn : Forest.NoNesting (view s.tasks)) (hc : Forest.Consistent (view s.tasks)) (id : String)
    (strategy : ParentTaskDeletionStrategy) (now : Date) :
    Forest.NoNesting (view (s.deleteParentTask id strategy now).tasks) ∧
      Forest.Consistent (view (s.deleteParentTask id strategy now).tasks) := by
  rw [view_deleteParentTask hd]
  cases strategy with
  | deleteSubtasks => exact ⟨(hn.dropAll _).drop id, (hc.dropAll _).drop id⟩
  | detachSubtasks => exact ⟨(hn.detachAll _).drop id, (hc.detachAll hn _).drop id⟩

end LocalStore

/-! ## Runs -/

/-- A fresh task keeps the parents settled. -/
theorem Session.Settled.addTask {u : Session} (h : u.Settled) {task : Task}
    (hnew : task.id ∉ u.knownIds) (now : Date) :
    Forest.NoNesting (view (u.store.addTask task now).1.tasks) ∧
      Forest.Consistent (view (u.store.addTask task now).1.tasks) := by
  refine LocalStore.settled_addTask h.idsOk.distinctIds h.noNesting h.consistent
    (notMem_of_notMem_knownIds hnew) (fun hsub => absurd hsub ?_) now
  simp only [LocalStore.hasSubtasks, List.any_eq_true, decide_eq_true_eq]
  rintro ⟨t, ht, hp⟩
  have hparent : task.id ∈ u.store.tasks.filterMap Task.parentTaskId :=
    List.mem_filterMap.mpr ⟨t, ht, hp⟩
  exact hnew (List.mem_append_left _ (List.mem_append_right _ hparent))

/-- A legal step on parents and subtasks that settles the parents it touches keeps the
invariant. -/
theorem settled_step {e : Date × Operation} {u u' : Session} (h : u.Settled)
    (hscope : e.2.isHierarchyOperation = true) (hl : Operation.Legal e u)
    (hk : Operation.SettlesParents e u) (hs : Session.step e u = some u') : u'.Settled := by
  have hids := idsOk_step h.idsOk (Operation.isLocal_of_isHierarchyOperation hscope) hl hs
  suffices hsettled : Forest.NoNesting (view u'.store.tasks) ∧
      Forest.Consistent (view u'.store.tasks) from ⟨hids, hsettled.1, hsettled.2⟩
  have hd := h.idsOk.distinctIds
  have hn := h.noNesting
  have hc := h.consistent
  obtain ⟨now, op⟩ := e
  cases op with
  | addTask task =>
    obtain rfl := Option.some_inj.mp hs
    exact h.addTask hl now
  | addSubtask parentId title priority id =>
    obtain rfl := Option.some_inj.mp hs
    rcases u.store.addSubtask_cases parentId title priority id now with hsame | ⟨task, rfl, hadd⟩
    · rw [hsame]
      exact ⟨hn, hc⟩
    · rw [hadd]
      exact h.addTask hl now
  | setParent taskId parentId =>
    obtain rfl := Option.some_inj.mp hs
    exact LocalStore.settled_setParent hd hn hc taskId parentId now
  | completeTask id =>
    obtain rfl := Option.some_inj.mp hs
    have hview := LocalStore.view_completeTask hd id now
    exact ⟨hview ▸ (Forest.sameLinks_complete _ id).symm.noNesting hn,
      hview ▸ hc.complete (LocalStore.allComplete_of_topLevel hd hk)⟩
  | restoreTask id =>
    obtain rfl := Option.some_inj.mp hs
    have hview := LocalStore.view_restoreTask hd id now
    exact ⟨hview ▸ (Forest.sameLinks_reopen _ id).symm.noNesting hn,
      hview ▸ hc.reopen (LocalStore.allComplete_of_topLevel hd hk)⟩
  | deleteTask id =>
    obtain rfl := Option.some_inj.mp hs
    have hview := LocalStore.view_deleteTask hd id now
    exact ⟨hview ▸ hn.drop id, hview ▸ hc.drop id⟩
  | deleteTaskUndoably id =>
    obtain rfl := Option.some_inj.mp hs
    unfold Session.deleteTaskUndoably
    split
    · exact ⟨hn, hc⟩
    · have hview := LocalStore.view_deleteTask hd id now
      exact ⟨hview ▸ hn.drop id, hview ▸ hc.drop id⟩
  | undo =>
    obtain rfl := Option.some_inj.mp hs
    unfold Session.undo
    split
    · exact ⟨hn, hc⟩
    · rename_i task undoStack hstack
      exact LocalStore.settled_addTask hd hn hc (h.idsOk.notMem_of_undoStack hstack)
        (hk task (by simp [hstack])) now
  | deleteParentTask id strategy =>
    obtain rfl := Option.some_inj.mp hs
    exact LocalStore.settled_deleteParentTask hd hn hc id strategy now
  | _ => cases hscope

/-- From settled parents, a run of operations on parents and subtasks in which every step
settles the parents it touches ends with settled parents. -/
theorem parentsSettled_run {u : Session} (h : HierarchyOk u.store.tasks)
    (hp : ParentsSettled u.store.tasks)
    (hids : u.IdsOk) {ops : List (Date × Operation)}
    (hg : Runs.Guarded Session.step (fun e u => e.2.isHierarchyOperation = true ∧
      Operation.Legal e u ∧ Operation.SettlesParents e u) ops u) :
    ∃ u', Runs.run Session.step ops u = some u' ∧ ParentsSettled u'.store.tasks := by
  obtain ⟨hd, ho⟩ := hierarchyOk_iff.mp h
  have hsettled : u.Settled := ⟨hids, ho.noNesting, (parentsSettled_iff hd).mp hp⟩
  have hstep : ∀ e u u', Session.Settled u → e.2.isHierarchyOperation = true ∧
      Operation.Legal e u ∧ Operation.SettlesParents e u → Session.step e u = some u' →
      u'.Settled :=
    fun e u u' h hg hs => settled_step h hg.1 hg.2.1 hg.2.2 hs
  obtain ⟨u', hr⟩ := Runs.exists_run_of_guarded hstep
    (fun e u h hg => exists_step h.idsOk (Operation.isLocal_of_isHierarchyOperation hg.1) hg.2.1)
    hsettled hg
  have hsettled' := Runs.invariant_of_guarded hstep hsettled hg hr
  exact ⟨u', hr, (parentsSettled_iff hsettled'.idsOk.distinctIds).mpr hsettled'.consistent⟩

/-- Completing the subtask, which completes its parent, and reopening the parent. -/
theorem parentsSettled_run_sample : ∃ u', Runs.run Session.step
    [(.seconds 1, .completeTask "subtask"), (.seconds 2, .restoreTask "parent")]
    Session.sample = some u' ∧ ParentsSettled u'.store.tasks := by
  refine parentsSettled_run hierarchyOk_sample (by decide) idsOk_sample
    ⟨⟨rfl, trivial, fun h => ?_⟩, fun u' hu' => ⟨⟨rfl, trivial, fun _ => ?_⟩, fun _ _ => trivial⟩⟩
  · exact absurd (by decide) h
  · obtain rfl := Option.some_inj.mp hu'
    change SubtasksComplete (Session.sample.store.completeTask "subtask" (.seconds 1)).tasks
      "parent"
    decide

/-- Completing a parent by hand while its subtask is open. -/
theorem not_parentsSettled_run : ¬∀ (u : Session) (ops : List (Date × Operation)),
    HierarchyOk u.store.tasks → ParentsSettled u.store.tasks →
    u.IdsOk → Runs.Guarded Session.step
      (fun e u => e.2.isHierarchyOperation = true ∧ Operation.Legal e u) ops u →
    ∃ u', Runs.run Session.step ops u = some u' ∧ ParentsSettled u'.store.tasks := by
  intro h
  obtain ⟨u', hr, hsettled⟩ := h Session.sample [(.seconds 1, .completeTask "parent")]
    hierarchyOk_sample (by decide) idsOk_sample ⟨⟨rfl, trivial⟩, fun _ _ => trivial⟩
  obtain rfl := Option.some_inj.mp hr
  revert hsettled
  change ¬ParentsSettled (Session.sample.store.completeTask "parent" (.seconds 1)).tasks
  decide

end Notelayer
