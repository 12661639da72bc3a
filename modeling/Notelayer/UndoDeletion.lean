import Notelayer.ParentCompletion
import Notelayer.WriteThrough

/-!
# Undoing a deletion

The undo of a deletion adds the deleted task again, with the rules for a new task, and both the
deletion and the addition reconcile the parent. `LocalStore.RestoresExactly` says when nothing of
this shows : the task has an order, and its parent, if there is one, is not reopened by hand and
has no categories to give. Then an undo, followed by any number of redos and undos, leaves the
tasks as they were up to their sequence and `updatedAt` (`Session.sameTasks_undo_iff`).
-/

namespace Notelayer

open KeyedList

/-! ## Tasks up to `updatedAt` -/

namespace Task

/-- The task but for its last change. -/
def untimed (t : Task) : Task :=
  { t with updatedAt := AppDateBounds.metadataBaseline }

/-- The fields other than `updatedAt`. -/
theorem of_untimed_eq {A : Type} {f : Task → A} (hf : ∀ t, f t.untimed = f t) {t t' : Task}
    (h : t.untimed = t'.untimed) : f t = f t' := by
  rw [← hf t, h, hf t']

/-- The task without override, complete at a given time or open. -/
def withCompletion (t : Task) (completedAt : Option Date) : Task :=
  { t with parentManualReopenAt := none, completedAt := completedAt }

theorem untimed_withCompletion (t : Task) (c : Option Date) :
    (t.withCompletion c).untimed = t.untimed.withCompletion c :=
  rfl

theorem withCompletion_withCompletion (t : Task) (c c' : Option Date) :
    (t.withCompletion c).withCompletion c' = t.withCompletion c' :=
  rfl

theorem withCompletion_self {t : Task} (h : t.parentManualReopenAt = none) :
    t.withCompletion t.completedAt = t := by
  rw [withCompletion, ← h]

/-- The children branch of a reconcile that resets the override. -/
theorem untimed_reconciled (t : Task) (allSubtasksCompleted : Bool) (now : Date) :
    (t.reconciled allSubtasksCompleted true now).1.untimed =
      (t.withCompletion (if allSubtasksCompleted then some (t.completedAt.getD now)
        else none)).untimed := by
  cases t with
  | mk id title categories priority dueDate completedAt taskNotes createdAt updatedAt orderIndex
      reminderDate reminderNotificationId parentTaskId parentManualReopenAt =>
    cases allSubtasksCompleted <;> cases completedAt <;> cases parentManualReopenAt <;> rfl

end Task

/-- The same tasks in any sequence, up to `updatedAt`. -/
def SameTasks (tasks tasks' : List Task) : Prop :=
  (tasks.map Task.untimed).Perm (tasks'.map Task.untimed)

instance (tasks tasks' : List Task) : Decidable (SameTasks tasks tasks') :=
  inferInstanceAs (Decidable (List.Perm _ _))

/-- The task with an id, up to `updatedAt`. -/
def untimedTaskWithId (tasks : List Task) (id : String) : Option Task :=
  (taskWithId tasks id).map Task.untimed

theorem lookup_map_untimed (tasks : List Task) (x : String) :
    lookup Task.id (tasks.map Task.untimed) x = untimedTaskWithId tasks x :=
  lookup_map (f := Task.untimed) (fun _ => rfl) tasks x

theorem distinctIds_map_untimed {tasks : List Task} (hd : DistinctIds tasks) :
    DistinctIds (tasks.map Task.untimed) :=
  hd.map fun _ => rfl

theorem sameTasks_iff {tasks tasks' : List Task} (hd : DistinctIds tasks)
    (hd' : DistinctIds tasks') :
    SameTasks tasks tasks' ↔ ∀ x, untimedTaskWithId tasks' x = untimedTaskWithId tasks x := by
  refine ⟨fun h x => ?_, fun h => ?_⟩
  · rw [← lookup_map_untimed, ← lookup_map_untimed, lookup_perm (distinctIds_map_untimed hd) h]
  · refine perm_of_lookup_eq (distinctIds_map_untimed hd) (distinctIds_map_untimed hd') fun x => ?_
    rw [lookup_map_untimed, lookup_map_untimed, h]

theorem subtasksComplete_iff {tasks : List Task} (hd : DistinctIds tasks) {p : String} :
    SubtasksComplete tasks p ↔ ∀ x, ∀ t ∈ untimedTaskWithId tasks x,
      t.parentTaskId = some p → t.completedAt ≠ none := by
  refine ⟨fun h x t ht hp => ?_, fun h t ht hp => ?_⟩
  · obtain ⟨t, hlookup, rfl⟩ := Option.map_eq_some_iff.mp ht
    exact h t (mem_of_lookup hlookup) hp
  · exact h t.id t.untimed (congrArg (Option.map _) (lookup_of_mem hd ht)) hp

namespace LocalStore

variable {s s' : LocalStore}

/-! ## The parent after a reconcile -/

/-- The completion that a reconcile with `resetManualOverride` gives a parent. -/
def settledCompletion (tasks : List Task) (parent : Task) (now : Date) : Option Date :=
  if tasks.any fun t => t.parentTaskId = some parent.id then
    if SubtasksComplete tasks parent.id then some (parent.completedAt.getD now) else none
  else parent.completedAt

/-- A reconciliation sets the completion of the parent. -/
theorem untimed_reconcileParentCompletion (hd : DistinctIds s.tasks) {p : String} {parent : Task}
    (hp : taskWithId s.tasks p = some parent) (hroot : parent.parentTaskId = none) (now : Date) :
    untimedTaskWithId (s.reconcileParentCompletion p true now).tasks p =
      some (parent.withCompletion (settledCompletion s.tasks parent now)).untimed := by
  obtain rfl := key_of_lookup hp
  have hmem := mem_of_lookup hp
  unfold untimedTaskWithId reconcileParentCompletion
  split
  · rename_i hnone
    simpa [hroot] using firstEntry_eq_none hnone parent hmem
  · rename_i i old hentry
    obtain ⟨hi, hold⟩ := firstEntry_eq_some hentry
    simp only [decide_eq_true_eq] at hold
    obtain rfl : old = parent :=
      List.inj_on_of_nodup_map hd (List.mem_of_getElem? hi) hmem hold.1
    have hset : ∀ new : Task, new.id = old.id →
        taskWithId (s.setTask i new).tasks old.id = some new := by
      intro new hid
      rw [taskWithId_set hd hi hid, if_pos hid.symm]
    have hchildren : (s.tasks.filter fun t => t.parentTaskId = some old.id).isEmpty = true ↔
        ¬s.hasSubtasks old.id = true := by
      rw [List.isEmpty_iff, List.filter_eq_nil_iff]
      simp [hasSubtasks]
    have hall : ((s.tasks.filter fun t => t.parentTaskId = some old.id).all
        fun t => t.completedAt ≠ none) = decide (SubtasksComplete s.tasks old.id) := by
      rw [Bool.eq_iff_iff, decide_eq_true_iff]
      simp [SubtasksComplete, imp_iff_not_or]
    dsimp only
    rw [hall]
    unfold settledCompletion
    rw [← hasSubtasks]
    by_cases hsub : s.hasSubtasks old.id = true
    · rw [if_neg (mt hchildren.mp (not_not.mpr hsub)), if_pos hsub]
      have hreconciled := old.untimed_reconciled (decide (SubtasksComplete s.tasks old.id)) now
      simp only [decide_eq_true_eq] at hreconciled
      rw [← hreconciled]
      split_ifs with hchange
      · rw [tasks_spawnSync, tasks_saveTasks, hset _ (Task.reconciled_id ..)]
        rfl
      · rw [Task.reconciled_eq_self (Bool.eq_false_of_not_eq_true hchange), hp]
        rfl
    · rw [if_pos (hchildren.mpr hsub), if_neg hsub]
      split_ifs with hover
      · rw [tasks_spawnSync, tasks_saveTasks, hset (old.withoutOverride now) rfl]
        rfl
      · rw [hp, Task.withCompletion_self (not_not.mp hover)]
        rfl

/-! ## Deleting and adding again -/

theorem taskWithId_deleteTask (hd : DistinctIds s.tasks) (id : String) {x : String}
    (hx : (taskWithId s.tasks id).bind Task.parentTaskId ≠ some x) (now : Date) :
    taskWithId (s.deleteTask id now).tasks x =
      if x = id then none else taskWithId s.tasks x := by
  unfold deleteTask
  dsimp only
  rw [taskWithId_reconcileParent (by simpa using hd.remove id) hx]
  simpa [taskWithId] using lookup_remove s.tasks id x

/-- The parent of a deleted task. -/
theorem untimed_deleteTask_parent (hd : DistinctIds s.tasks) {task parent : Task}
    (ht : taskWithId s.tasks task.id = some task) (hp : task.parentTaskId = some parent.id)
    (hparent : taskWithId s.tasks parent.id = some parent) (hroot : parent.parentTaskId = none)
    (hne : parent.id ≠ task.id) (now : Date) :
    untimedTaskWithId (s.deleteTask task.id now).tasks parent.id =
      some (parent.withCompletion
        (settledCompletion (remove Task.id s.tasks task.id) parent now)).untimed := by
  have hlink : (some task).bind Task.parentTaskId = some parent.id := hp
  unfold deleteTask
  dsimp only
  rw [ht, hlink]
  have hd' := hd.remove task.id
  have hkept : taskWithId (remove Task.id s.tasks task.id) parent.id = some parent := by
    rw [taskWithId, lookup_remove, if_neg hne]
    exact hparent
  refine (untimed_reconcileParentCompletion (by simpa using hd') (by simpa using hkept) hroot
    now).trans ?_
  simp

/-- The task that `addTask` appends. -/
def addedTask (s : LocalStore) (task : Task) (now : Date) : Task :=
  (task.ordered now.milliseconds).attached s.tasks

theorem addedTask_id (task : Task) (now : Date) : (s.addedTask task now).id = task.id := by
  simp [addedTask]

/-- A new task is found, and the others are as they were. -/
theorem taskWithId_addTask (hd : DistinctIds s.tasks) {task : Task}
    (hnew : task.id ∉ s.tasks.map Task.id) {now : Date} {x : String}
    (hx : (s.addedTask task now).parentTaskId ≠ some x) :
    taskWithId (s.addTask task now).1.tasks x =
      if x = task.id then some (s.addedTask task now) else taskWithId s.tasks x := by
  have hid := s.addedTask_id task now
  have hnew' : (s.addedTask task now).id ∉ s.tasks.map Task.id := hid ▸ hnew
  have hlookup : taskWithId (s.tasks ++ [s.addedTask task now]) x =
      if x = (s.addedTask task now).id then some (s.addedTask task now)
        else taskWithId s.tasks x := lookup_append_singleton hnew' x
  unfold addTask
  rw [← addedTask]
  rw [tasks_spawnSync, tasks_logTaskCreatedAnalytics, tasks_saveTasks,
    taskWithId_reconcileParent (hd.append_singleton hnew') hx, tasks_withTasks, hlookup, hid]

/-- A new subtask settles its parent. -/
theorem untimed_addTask_parent (hd : DistinctIds s.tasks) {task parent : Task}
    (hnew : task.id ∉ s.tasks.map Task.id) {now : Date}
    (hp : (s.addedTask task now).parentTaskId = some parent.id)
    (hparent : taskWithId s.tasks parent.id = some parent) (hroot : parent.parentTaskId = none) :
    untimedTaskWithId (s.addTask task now).1.tasks parent.id =
      some (parent.withCompletion
        (settledCompletion (s.tasks ++ [s.addedTask task now]) parent now)).untimed := by
  have hnew' : (s.addedTask task now).id ∉ s.tasks.map Task.id := by
    rwa [addedTask_id]
  have hne : parent.id ≠ (s.addedTask task now).id := by
    intro heq
    exact hnew' (heq ▸ List.mem_map_of_mem (mem_of_lookup hparent))
  unfold addTask
  rw [← addedTask]
  dsimp only
  rw [hp, tasks_spawnSync, tasks_logTaskCreatedAnalytics, tasks_saveTasks]
  refine untimed_reconcileParentCompletion (hd.append_singleton hnew') ?_ hroot now
  rw [tasks_withTasks, taskWithId, lookup_append_singleton hnew', if_neg hne]
  exact hparent

/-- A task without a parent is found among the top-level tasks. -/
theorem topLevelTaskWithId_of_root {tasks : List Task} (hd : DistinctIds tasks) {p : String}
    {parent : Task} (hparent : taskWithId tasks p = some parent)
    (hroot : parent.parentTaskId = none) : topLevelTaskWithId tasks p = some parent := by
  cases htop : topLevelTaskWithId tasks p with
  | none =>
    refine absurd ?_ ((topLevelTaskWithId_eq_none_iff hd).mp htop)
    exact (isRoot_view_iff hd).mpr ⟨parent, mem_of_lookup hparent, key_of_lookup hparent, hroot⟩
  | some other =>
    obtain ⟨hmem, hid, -⟩ := topLevelTaskWithId_eq_some htop
    have hother := lookup_of_mem hd hmem
    rw [hid] at hother
    exact congrArg some (Option.some_inj.mp (hother.symm.trans hparent))

theorem addedTask_of_root {task : Task} (h : task.parentTaskId = none) (now : Date) :
    s.addedTask task now =
      { task.ordered now.milliseconds with parentManualReopenAt := none } := by
  have hordered : (task.ordered now.milliseconds).parentTaskId = none := h
  unfold addedTask Task.attached
  split
  · rename_i parentId hlink
    exact absurd (hlink.symm.trans hordered) (Option.some_ne_none parentId)
  · rfl

/-- A subtask without categories has those of its parent. -/
theorem addedTask_of_parent {task parent : Task} {p : String} (h : task.parentTaskId = some p)
    (hparent : topLevelTaskWithId s.tasks p = some parent) (now : Date) :
    s.addedTask task now = if task.categories.isEmpty then
      { task.ordered now.milliseconds with categories := parent.categories }
      else task.ordered now.milliseconds := by
  have hordered : (task.ordered now.milliseconds).parentTaskId = some p := h
  unfold addedTask Task.attached
  split
  · rename_i parentId hlink
    obtain rfl := Option.some_inj.mp (hlink.symm.trans hordered)
    split
    · rename_i other hother
      obtain rfl := Option.some_inj.mp (hother.symm.trans hparent)
      rfl
    · rename_i hnone
      exact absurd (hparent.symm.trans hnone) (Option.some_ne_none parent)
  · rename_i hlink
    exact absurd (hordered.symm.trans hlink) (Option.some_ne_none p)

/-- What is left of the parent of a deleted task. -/
theorem exists_parent_deleteTask (hd : DistinctIds s.tasks) {task parent : Task} {p : String}
    (ht : taskWithId s.tasks task.id = some task) (hp : task.parentTaskId = some p)
    (hparent : taskWithId s.tasks p = some parent) (hroot : parent.parentTaskId = none)
    (now : Date) : ∃ parent₁, taskWithId (s.deleteTask task.id now).tasks p = some parent₁ ∧
      parent₁.untimed = (parent.withCompletion
        (settledCompletion (remove Task.id s.tasks task.id) parent now)).untimed := by
  obtain rfl := key_of_lookup hparent
  have hne : parent.id ≠ task.id := by
    intro heq
    rw [heq, ht] at hparent
    rw [← Option.some_inj.mp hparent, hp] at hroot
    cases hroot
  obtain ⟨parent₁, hparent₁, huntimed⟩ := Option.map_eq_some_iff.mp
    (untimed_deleteTask_parent hd ht hp hparent hroot hne now)
  exact ⟨parent₁, hparent₁, huntimed⟩

/-! ## When nothing shows -/

/-- The task has an order, a top-level task has no override, and the parent of a subtask has none
either and no categories that the subtask lacks. -/
def RestoresExactly (s : LocalStore) (task : Task) : Prop :=
  task.orderIndex ≠ none ∧
  (task.parentTaskId = none → task.parentManualReopenAt = none) ∧
  ∀ p ∈ task.parentTaskId, ∀ parent ∈ taskWithId s.tasks p,
    parent.parentManualReopenAt = none ∧ (task.categories = [] → parent.categories = [])

instance (s : LocalStore) (task : Task) : Decidable (s.RestoresExactly task) :=
  inferInstanceAs (Decidable (_ ∧ _ ∧ _))

/-- The task is in the store, up to `updatedAt`, and its parent is settled. -/
structure Restorable (s : LocalStore) (task : Task) : Prop where
  distinct : DistinctIds s.tasks
  stored : untimedTaskWithId s.tasks task.id = some task.untimed
  orderIndex : task.orderIndex ≠ none
  root : task.parentTaskId = none → task.parentManualReopenAt = none
  parent : ∀ p, task.parentTaskId = some p → ∃ parent, untimedTaskWithId s.tasks p = some parent ∧
    parent.parentTaskId = none ∧ parent.parentManualReopenAt = none ∧
    (parent.completedAt ≠ none ↔ SubtasksComplete s.tasks p) ∧
    (task.categories = [] → parent.categories = [])

/-- Whether a task is restorable depends on the tasks up to the time of their last change. -/
theorem Restorable.of_same {task : Task} (h : s.Restorable task) (hd : DistinctIds s'.tasks)
    (hsame : ∀ x, untimedTaskWithId s'.tasks x = untimedTaskWithId s.tasks x) :
    s'.Restorable task := by
  have hcomplete : ∀ p, SubtasksComplete s'.tasks p ↔ SubtasksComplete s.tasks p := by
    intro p
    rw [subtasksComplete_iff hd, subtasksComplete_iff h.distinct]
    simp only [hsame]
  refine ⟨hd, (hsame task.id).trans h.stored, h.orderIndex, h.root, fun p hp => ?_⟩
  obtain ⟨parent, hparent, hroot, hover, hsettled, hcategories⟩ := h.parent p hp
  exact ⟨parent, (hsame p).trans hparent, hroot, hover, hsettled.trans (hcomplete p).symm,
    hcategories⟩

theorem notMem_ids_deleteTask (id : String) (now : Date) :
    id ∉ (s.deleteTask id now).tasks.map Task.id := by
  rw [ids_deleteTask, map_key_remove]
  simp

theorem ordered_eq_self {t : Task} (h : t.orderIndex ≠ none) (i : ℤ) :
    t.ordered i = t := by
  obtain ⟨order, horder⟩ := Option.ne_none_iff_exists'.mp h
  rw [Task.ordered, horder, Option.getD_some, ← horder]

/-- A task without parent is deleted and added again. -/
theorem Restorable.restored_of_root {task : Task} (h : s.Restorable task)
    (hp : task.parentTaskId = none) (now now' : Date) (x : String) :
    untimedTaskWithId ((s.deleteTask task.id now).addTask task now').1.tasks x =
      untimedTaskWithId s.tasks x := by
  obtain ⟨stored, hstored, huntimed⟩ := Option.map_eq_some_iff.mp h.stored
  have hlink : ∀ y, (taskWithId s.tasks task.id).bind Task.parentTaskId ≠ some y := by
    intro y
    have hsame := Task.of_untimed_eq (f := Task.parentTaskId) (fun _ => rfl) huntimed
    rw [hstored, Option.bind_some, hsame, hp]
    exact nofun
  have hadded : (s.deleteTask task.id now).addedTask task now' = task := by
    rw [addedTask_of_root hp, ordered_eq_self h.orderIndex, ← h.root hp]
  have hlink' : ((s.deleteTask task.id now).addedTask task now').parentTaskId ≠ some x := by
    rw [hadded, hp]
    exact nofun
  unfold untimedTaskWithId
  rw [taskWithId_addTask (distinctIds_deleteTask h.distinct task.id now)
    (notMem_ids_deleteTask task.id now) hlink', hadded,
    taskWithId_deleteTask h.distinct task.id (hlink x)]
  by_cases hx : x = task.id
  · rw [if_pos hx, hx, hstored]
    exact congrArg some huntimed.symm
  · rw [if_neg hx, if_neg hx]

/-- A completed set of subtasks stays one without the deleted task. -/
theorem settledCompletion_remove {parent : Task}
    (hsettled : parent.completedAt ≠ none ↔ SubtasksComplete s.tasks parent.id)
    (hcomplete : SubtasksComplete s.tasks parent.id) (id : String) (now : Date) :
    settledCompletion (remove Task.id s.tasks id) parent now = parent.completedAt := by
  obtain ⟨completedAt, hcompletedAt⟩ := Option.ne_none_iff_exists'.mp (hsettled.mpr hcomplete)
  have hothers : SubtasksComplete (remove Task.id s.tasks id) parent.id :=
    fun t ht => hcomplete t (List.mem_of_mem_filter ht)
  unfold settledCompletion
  rw [if_pos hothers, hcompletedAt]
  split_ifs <;> rfl

/-- The subtasks after a deletion and an addition are those there were before. -/
theorem subtasksComplete_restored {s₁ : LocalStore} (hd : DistinctIds s.tasks)
    (hd₁ : DistinctIds s₁.tasks) {task parent parent₁ : Task} {p : String}
    (hstored : untimedTaskWithId s.tasks task.id = some task.untimed)
    (hparent : taskWithId s.tasks p = some parent) (hroot : parent.parentTaskId = none)
    (hparent₁ : taskWithId s₁.tasks p = some parent₁) (hroot₁ : parent₁.parentTaskId = none)
    (hnew : task.id ∉ s₁.tasks.map Task.id)
    (hothers : ∀ x, x ≠ p → taskWithId s₁.tasks x =
      if x = task.id then none else taskWithId s.tasks x) :
    SubtasksComplete (s₁.tasks ++ [task]) p ↔ SubtasksComplete s.tasks p := by
  rw [subtasksComplete_iff (hd₁.append_singleton hnew), subtasksComplete_iff hd]
  refine forall_congr' fun x => ?_
  have hlookup : taskWithId (s₁.tasks ++ [task]) x =
      if x = task.id then some task else taskWithId s₁.tasks x := lookup_append_singleton hnew x
  unfold untimedTaskWithId at hstored ⊢
  rw [hlookup]
  by_cases hx : x = task.id
  · rw [if_pos hx, hx, hstored]
    rfl
  · rw [if_neg hx]
    by_cases hxp : x = p
    · rw [hxp, hparent, hparent₁]
      refine iff_of_true (fun t ht hp => ?_) fun t ht hp => ?_
      · obtain rfl := Option.some_inj.mp ht
        exact absurd (hroot₁.symm.trans hp) nofun
      · obtain rfl := Option.some_inj.mp ht
        exact absurd (hroot.symm.trans hp) nofun
    · rw [hothers x hxp, if_neg hx]

/-- A subtask is deleted and added again. -/
theorem Restorable.restored_of_parent {task : Task} (h : s.Restorable task) {p : String}
    (hp : task.parentTaskId = some p) (now now' : Date) (x : String) :
    untimedTaskWithId ((s.deleteTask task.id now).addTask task now').1.tasks x =
      untimedTaskWithId s.tasks x := by
  obtain ⟨stored, hstored, huntimed⟩ := Option.map_eq_some_iff.mp h.stored
  have hid : stored.id = task.id := key_of_lookup hstored
  have hlink : stored.parentTaskId = some p :=
    (Task.of_untimed_eq (f := Task.parentTaskId) (fun _ => rfl) huntimed).trans hp
  obtain ⟨_, hfound, hroot, hover, hsettled, hcategories⟩ := h.parent p hp
  obtain ⟨parent, hparent, rfl⟩ := Option.map_eq_some_iff.mp hfound
  have hd₁ := distinctIds_deleteTask h.distinct task.id now
  have hnew := notMem_ids_deleteTask (s := s) task.id now
  obtain ⟨parent₁, hparent₁, huntimed₁⟩ : ∃ parent₁,
      taskWithId (s.deleteTask task.id now).tasks p = some parent₁ ∧ parent₁.untimed =
        (parent.withCompletion (settledCompletion (remove Task.id s.tasks task.id) parent
          now)).untimed := by
    have hstored' : taskWithId s.tasks stored.id = some stored := hid ▸ hstored
    rw [← hid]
    exact exists_parent_deleteTask h.distinct hstored' hlink hparent hroot now
  have hroot₁ : parent₁.parentTaskId = none :=
    (Task.of_untimed_eq (f := Task.parentTaskId) (fun _ => rfl) huntimed₁).trans hroot
  have hadded : (s.deleteTask task.id now).addedTask task now' = task := by
    rw [addedTask_of_parent hp (topLevelTaskWithId_of_root hd₁ hparent₁ hroot₁),
      ordered_eq_self h.orderIndex]
    split_ifs with hempty
    · have hsame : parent₁.categories = (parent.withCompletion _).categories :=
        Task.of_untimed_eq (f := Task.categories) (fun _ => rfl) huntimed₁
      have hnil := List.isEmpty_iff.mp hempty
      have hnone : parent.categories = [] := hcategories hnil
      rw [hsame, Task.withCompletion, hnone, ← hnil]
    · rfl
  have hothers : ∀ y, y ≠ p → taskWithId (s.deleteTask task.id now).tasks y =
      if y = task.id then none else taskWithId s.tasks y := by
    intro y hy
    refine taskWithId_deleteTask h.distinct task.id ?_ now
    rw [hstored, Option.bind_some, hlink]
    exact fun heq => hy (Option.some_inj.mp heq).symm
  by_cases hx : x = p
  · subst hx
    obtain rfl := key_of_lookup hparent₁
    have hlink' : ((s.deleteTask task.id now).addedTask task now').parentTaskId =
        some parent₁.id := by
      rw [hadded, hp]
    have hadded' := untimed_addTask_parent hd₁ hnew hlink' hparent₁ hroot₁
    have hcompletion : settledCompletion ((s.deleteTask task.id now).tasks ++ [task]) parent₁ now' =
        parent.completedAt := by
      have hany : ((s.deleteTask task.id now).tasks ++ [task]).any
          (fun t => t.parentTaskId = some parent₁.id) = true := by
        simp [hp]
      have hcomplete := subtasksComplete_restored h.distinct hd₁ h.stored hparent hroot hparent₁
        hroot₁ hnew hothers
      unfold settledCompletion
      rw [if_pos hany]
      by_cases hall : SubtasksComplete s.tasks parent₁.id
      · have hkept : parent₁.completedAt = (parent.withCompletion _).completedAt :=
          Task.of_untimed_eq (f := Task.completedAt) (fun _ => rfl) huntimed₁
        have hid₁ : parent.id = parent₁.id := key_of_lookup hparent
        have hsettled' : parent.completedAt ≠ none ↔ SubtasksComplete s.tasks parent.id :=
          hid₁ ▸ hsettled
        obtain ⟨completedAt, hcompletedAt⟩ := Option.ne_none_iff_exists'.mp (hsettled.mpr hall)
        rw [if_pos (hcomplete.mpr hall), hkept, Task.withCompletion,
          settledCompletion_remove hsettled' (hid₁ ▸ hall)]
        exact (congrArg (fun o => some (Option.getD o now')) hcompletedAt).trans hcompletedAt.symm
      · rw [if_neg (mt hcomplete.mp hall)]
        exact (not_not.mp (mt hsettled.mp hall)).symm
    rw [hadded', hadded, hcompletion, Task.untimed_withCompletion, huntimed₁,
      Task.untimed_withCompletion, Task.withCompletion_withCompletion, hfound]
    exact congrArg some (Task.withCompletion_self hover)
  · have hlink' : ((s.deleteTask task.id now).addedTask task now').parentTaskId ≠ some x := by
      rw [hadded, hp]
      exact fun heq => hx (Option.some_inj.mp heq).symm
    unfold untimedTaskWithId
    rw [taskWithId_addTask hd₁ hnew hlink', hadded, hothers x hx]
    by_cases hxid : x = task.id
    · rw [if_pos hxid, hxid, hstored]
      exact congrArg some huntimed.symm
    · rw [if_neg hxid, if_neg hxid]

/-- Deleting and adding a restorable task changes no task but for the times. -/
theorem Restorable.restored {task : Task} (h : s.Restorable task) (now now' : Date) :
    ((s.deleteTask task.id now).addTask task now').1.Restorable task ∧ ∀ x,
      untimedTaskWithId ((s.deleteTask task.id now).addTask task now').1.tasks x =
        untimedTaskWithId s.tasks x := by
  have hsame : ∀ x, untimedTaskWithId ((s.deleteTask task.id now).addTask task now').1.tasks x =
      untimedTaskWithId s.tasks x := by
    intro x
    cases hp : task.parentTaskId with
    | none => exact h.restored_of_root hp now now' x
    | some p => exact h.restored_of_parent hp now now' x
  have hd := distinctIds_addTask (distinctIds_deleteTask h.distinct task.id now)
    (notMem_ids_deleteTask task.id now) now'
  exact ⟨h.of_same hd hsame, hsame⟩

/-- Where the task restores exactly, it is restorable. -/
theorem restorable (h : HierarchyOk s.tasks) (hs : ParentsSettled s.tasks) {task : Task}
    (ht : task ∈ s.tasks) (hr : s.RestoresExactly task) : s.Restorable task := by
  obtain ⟨horder, hroot, hparent⟩ := hr
  refine ⟨h.1, congrArg (Option.map _) (lookup_of_mem h.1 ht), horder, hroot, fun p hp => ?_⟩
  obtain ⟨parent, hmem, rfl, -, htop⟩ := h.2 task ht p hp
  have hfound := lookup_of_mem h.1 hmem
  obtain ⟨hover, hcategories⟩ := hparent parent.id hp parent hfound
  obtain ⟨hcomplete, hopen⟩ := hs parent hmem htop ⟨task, ht, hp⟩
  refine ⟨parent.untimed, congrArg (Option.map _) hfound, htop, hover, ⟨fun hcompleted => ?_,
    fun hall => (hcomplete hall).resolve_right (not_not.mpr hover)⟩, hcategories⟩
  by_contra hall
  exact hcompleted (hopen hall).1

/-! ## When something shows -/

/-- An undo that leaves the tasks as they were had nothing to show. -/
theorem restoresExactly_of_same (h : HierarchyOk s.tasks) {task : Task} (ht : task ∈ s.tasks)
    {now now' : Date} (hsame : ∀ x,
      untimedTaskWithId ((s.deleteTask task.id now).addTask task now').1.tasks x =
        untimedTaskWithId s.tasks x) : s.RestoresExactly task := by
  have hfound := lookup_of_mem h.1 ht
  have hd₁ := distinctIds_deleteTask h.1 task.id now
  have hnew := notMem_ids_deleteTask (s := s) task.id now
  have hadded : ((s.deleteTask task.id now).addedTask task now').parentTaskId ≠ some task.id →
      ((s.deleteTask task.id now).addedTask task now').untimed = task.untimed := by
    intro hlink
    have htask := hsame task.id
    unfold untimedTaskWithId at htask
    rw [taskWithId_addTask hd₁ hnew hlink, if_pos rfl] at htask
    exact Option.some_inj.mp (htask.trans (congrArg (Option.map _) hfound))
  have horder : ∀ {t : Task}, t.untimed = task.untimed → t.orderIndex ≠ none →
      task.orderIndex ≠ none := by
    intro t huntimed hsome
    rwa [← Task.of_untimed_eq (f := Task.orderIndex) (fun _ => rfl) huntimed]
  cases hp : task.parentTaskId with
  | none =>
    rw [addedTask_of_root hp] at hadded
    have huntimed := hadded (fun hlink => absurd (hp.symm.trans hlink) nofun)
    refine ⟨horder huntimed nofun, fun _ => ?_, fun p hp' => ?_⟩
    · exact (Task.of_untimed_eq (f := Task.parentManualReopenAt) (fun _ => rfl) huntimed).symm
    · exact absurd (hp.symm.trans hp') nofun
  | some p =>
    obtain ⟨parent, hmem, rfl, hne, hroot⟩ := h.2 task ht p hp
    have hparent := lookup_of_mem h.1 hmem
    obtain ⟨parent₁, hparent₁, huntimed₁⟩ :=
      exists_parent_deleteTask h.1 hfound hp hparent hroot now
    have hroot₁ : parent₁.parentTaskId = none :=
      (Task.of_untimed_eq (f := Task.parentTaskId) (fun _ => rfl) huntimed₁).trans hroot
    have heq := addedTask_of_parent hp (topLevelTaskWithId_of_root hd₁ hparent₁ hroot₁) now'
    have hlink : ((s.deleteTask task.id now).addedTask task now').parentTaskId =
        some parent.id := by
      rw [heq]
      split_ifs <;> exact hp
    have huntimed := hadded (fun hself => hne (Option.some_inj.mp (hlink.symm.trans hself)))
    refine ⟨horder huntimed ?_, fun hnone => absurd (hp.symm.trans hnone) nofun, ?_⟩
    · rw [heq]
      split_ifs <;> exact nofun
    · rintro _ hp' other hother
      obtain rfl := Option.some_inj.mp (hp.symm.trans hp')
      obtain rfl := Option.some_inj.mp (hparent.symm.trans hother)
      have hid₁ : parent₁.id = parent.id := key_of_lookup hparent₁
      refine ⟨?_, fun hnil => ?_⟩
      · have hreconciled := untimed_addTask_parent hd₁ hnew (hlink.trans (congrArg some hid₁.symm))
          (hid₁.symm ▸ hparent₁) hroot₁
        rw [hid₁, hsame parent.id] at hreconciled
        have hover := Option.some_inj.mp
          ((congrArg (Option.map Task.untimed) hparent).symm.trans hreconciled)
        exact Task.of_untimed_eq (f := Task.parentManualReopenAt) (fun _ => rfl) hover
      · rw [heq, if_pos (List.isEmpty_iff.mpr hnil)] at huntimed
        have hcategories : Task.categories { task.ordered now'.milliseconds with
          categories := parent₁.categories } = task.categories :=
          Task.of_untimed_eq (f := Task.categories) (fun _ => rfl) huntimed
        have hkept : parent₁.categories = (parent.withCompletion _).categories :=
          Task.of_untimed_eq (f := Task.categories) (fun _ => rfl) huntimed₁
        exact hkept.symm.trans (hcategories.trans hnil)

end LocalStore

/-! ## Alternating -/

namespace Session

/-- A redo and an undo, again and again. -/
def redoUndo (u : Session) (times : List (Date × Date)) : Session :=
  times.foldl (fun u e => (u.redo e.1).undo e.2) u

/-- Undo and redo, any number of times, change no task but for the times. -/
theorem same_redoUndo {task : Task} : ∀ (times : List (Date × Date)) {u : Session}
    {redoStack : List Task}, u.redoStack = task :: redoStack → u.store.Restorable task →
      (u.redoUndo times).store.Restorable task ∧ ∀ x,
        untimedTaskWithId (u.redoUndo times).store.tasks x = untimedTaskWithId u.store.tasks x
  | [], _, _, _, h => ⟨h, fun _ => rfl⟩
  | (now, now') :: times, u, redoStack, hredo, h => by
    obtain ⟨hrestorable, hsame⟩ := h.restored now now'
    have hpair : (u.redo now).undo now' =
        { u with store := ((u.store.deleteTask task.id now).addTask task now').1 } := by
      obtain ⟨store, undoStack, _⟩ := u
      subst hredo
      rfl
    have hredo' : ((u.redo now).undo now').redoStack = task :: redoStack := by
      rw [hpair]
      exact hredo
    have hrestorable' : ((u.redo now).undo now').store.Restorable task := by
      rw [hpair]
      exact hrestorable
    have htail := same_redoUndo times hredo' hrestorable'
    refine ⟨htail.1, fun x => (htail.2 x).trans ?_⟩
    rw [hpair]
    exact hsame x

/-- The undo of a deletion, and any number of redos and undos after it, leave the tasks as they
were if and only if the task has an order, a top-level task no override, and the parent of a
subtask neither an override nor categories that the subtask lacks. -/
theorem sameTasks_undo_iff {u : Session} (h : HierarchyOk u.store.tasks)
    (hs : ParentsSettled u.store.tasks) {task : Task} (ht : task ∈ u.store.tasks) :
    (∀ now now' times, SameTasks u.store.tasks
      (((u.deleteTaskUndoably task.id now).undo now').redoUndo times).store.tasks) ↔
        u.store.RestoresExactly task := by
  have hundo : ∀ now now', (u.deleteTaskUndoably task.id now).undo now' =
      ⟨((u.store.deleteTask task.id now).addTask task now').1, u.undoStack, [task]⟩ := by
    intro now now'
    unfold deleteTaskUndoably
    rw [taskWithId, lookup_of_mem h.1 ht]
    rfl
  refine ⟨fun hall => ?_, fun hr now now' times => ?_⟩
  · have hsame := hall (.seconds 0) (.seconds 0) []
    rw [redoUndo, List.foldl_nil, hundo] at hsame
    have hd := LocalStore.distinctIds_addTask
      (LocalStore.distinctIds_deleteTask h.1 task.id (.seconds 0))
      (LocalStore.notMem_ids_deleteTask task.id _) (.seconds 0)
    exact LocalStore.restoresExactly_of_same h ht ((sameTasks_iff h.1 hd).mp hsame)
  · obtain ⟨hrestorable, hsame⟩ := (LocalStore.restorable h hs ht hr).restored now now'
    have hredo : ((u.deleteTaskUndoably task.id now).undo now').redoStack = task :: [] := by
      rw [hundo]
    have hrestorable' : ((u.deleteTaskUndoably task.id now).undo now').store.Restorable task := by
      rw [hundo]
      exact hrestorable
    have halternate := same_redoUndo times hredo hrestorable'
    refine (sameTasks_iff h.1 halternate.1.distinct).mpr fun x => (halternate.2 x).trans ?_
    rw [hundo]
    exact hsame x

/-- A parent with two subtasks, one of them open. -/
def sampleUndo : Session where
  store := { tasks := [.sampleParent, { Task.sampleSubtask with orderIndex := some 1 },
    { Task.sampleSubtask with id := "done", completedAt := some (.seconds 5) }] }

theorem hierarchyOk_sampleUndo : HierarchyOk sampleUndo.store.tasks := by
  refine ⟨by decide, ?_⟩
  simp [sampleUndo, Task.sampleParent, Task.sampleSubtask]

theorem sameTasks_undo_iff_sample : SameTasks sampleUndo.store.tasks
    (((sampleUndo.deleteTaskUndoably "subtask" (.seconds 7)).undo (.seconds 8)).redoUndo
      [(.seconds 9, .seconds 10)]).store.tasks :=
  (@sameTasks_undo_iff sampleUndo hierarchyOk_sampleUndo (by decide)
    { Task.sampleSubtask with orderIndex := some 1 } (by decide)).mpr (by decide) _ _ _

/-- The parent was reopened by hand. Deleting one of its subtasks completes it, and the undo
leaves it complete. -/
def sampleReopened : Session where
  store := { tasks := [{ Task.sampleParent with parentManualReopenAt := some (.seconds 6) },
    { Task.sampleSubtask with orderIndex := some 1, completedAt := some (.seconds 5) },
    { Task.sampleSubtask with id := "done", completedAt := some (.seconds 5) }] }

theorem not_sameTasks_undo : HierarchyOk sampleReopened.store.tasks ∧
    ParentsSettled sampleReopened.store.tasks ∧
    ¬SameTasks sampleReopened.store.tasks ((sampleReopened.deleteTaskUndoably "subtask"
      (.seconds 7)).undo (.seconds 8)).store.tasks ∧
    (taskWithId sampleReopened.store.tasks "parent").map Task.completedAt = some none ∧
    (taskWithId ((sampleReopened.deleteTaskUndoably "subtask" (.seconds 7)).undo
      (.seconds 8)).store.tasks "parent").map Task.completedAt = some (some (.seconds 7)) := by
  refine ⟨⟨by decide, ?_⟩, by decide, by decide, by decide, by decide⟩
  simp [sampleReopened, Task.sampleParent, Task.sampleSubtask]

end Session

end Notelayer
