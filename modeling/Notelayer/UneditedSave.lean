import Notelayer.HierarchyRepair
import Notelayer.ParentCompletion

/-!
# Saving a task without an edit

The editor writes the fields it was opened with and then moves the task under the parent it has.
The move is not a move, but `setParent` treats it as one : it resets the override of the parent
and gives an uncategorized subtask the parent's categories. So a save without an edit changes
nothing that is seen exactly for a top-level task and for a subtask whose parent has no override,
and no categories that the subtask lacks altogether (`saveTask_harmless_iff`).
-/

namespace Notelayer

open KeyedList

/-! ## The editor -/

/-- The fields of the editor. -/
structure TaskEditView where
  title : String
  selectedCategories : List String
  priority : Priority
  dueDate : Option Date
  taskNotes : String
  selectedParentTaskId : Option String

namespace TaskEditView

/-- The editor of a task. A set of categories becomes an array in some order. -/
def init (task : Task) (selectedCategories : List String) : TaskEditView where
  title := task.title
  selectedCategories := selectedCategories
  priority := task.priority
  dueDate := task.dueDate
  taskNotes := task.taskNotes.getD ""
  selectedParentTaskId := task.parentTaskId

/-- `Array(Set(categories))`. -/
def IsArrayOfSet (categories selectedCategories : List String) : Prop :=
  selectedCategories.Nodup ∧ ∀ c, c ∈ selectedCategories ↔ c ∈ categories

variable (view : TaskEditView)

/-- What the sheet writes. -/
def updates : TaskUpdate where
  apply task := { task with
    title := view.title
    categories := view.selectedCategories
    priority := view.priority
    dueDate := view.dueDate
    taskNotes := if view.taskNotes.isEmpty then none else some view.taskNotes }
  id_apply _ := rfl

/-- A save : the update, then the parent. -/
def saveTask (store : LocalStore) (taskId : String) (now : Date) : LocalStore :=
  (store.updateTask taskId view.updates now).setParent taskId view.selectedParentTaskId now

end TaskEditView

/-! ## What a save may change -/

/-- The tasks differ in the time of the last edit at most, with the categories as a set and empty
notes as none. -/
def Task.SameContent (t t' : Task) : Prop :=
  { t' with categories := t.categories, taskNotes := t.taskNotes, updatedAt := t.updatedAt } = t ∧
    (∀ c, c ∈ t'.categories ↔ c ∈ t.categories) ∧
    t'.taskNotes.getD "" = t.taskNotes.getD ""

/-- The same tasks in the same order, where only the task `t` may have been edited, and its
content is the same. -/
def LocalStore.HarmlessFor (s : LocalStore) (t : Task) (s' : LocalStore) : Prop :=
  s'.tasks.map Task.id = s.tasks.map Task.id ∧ (∀ u ∈ s.tasks, u.id ≠ t.id → u ∈ s'.tasks) ∧
    ∃ t' ∈ s'.tasks, t'.id = t.id ∧ t.SameContent t'

/-- The task that the editor writes back. -/
def Task.unedited (t : Task) (selectedCategories : List String) (now : Date) : Task :=
  (TaskEditView.init t selectedCategories).updates.applied t now

theorem Task.sameContent_unedited {t : Task} {selectedCategories : List String}
    (h : TaskEditView.IsArrayOfSet t.categories selectedCategories) (now : Date) :
    t.SameContent (t.unedited selectedCategories now) := by
  refine ⟨rfl, h.2, ?_⟩
  change (if (t.taskNotes.getD "").isEmpty then none else some (t.taskNotes.getD "")).getD "" = _
  split_ifs with hempty
  · exact (String.isEmpty_iff.mp hempty).symm
  · rfl

namespace LocalStore

variable {s : LocalStore}

/-! ## Reconciling a settled parent -/

end LocalStore

/-- A parent without override whose completion is that of its subtasks needs no change. -/
theorem Task.reconciled_of_settled {parent : Task} (hoverride : parent.parentManualReopenAt = none)
    {allSubtasksCompleted : Bool}
    (hcomplete : allSubtasksCompleted = true ↔ parent.completedAt ≠ none) (r : Bool) (now : Date) :
    (parent.reconciled allSubtasksCompleted r now).2 = false := by
  unfold reconciled
  cases allSubtasksCompleted with
  | true =>
    have hsome : parent.completedAt ≠ none := hcomplete.mp rfl
    simp [editIf, hoverride, hsome]
  | false =>
    have hnone : parent.completedAt = none := by simpa using hcomplete
    simp [editIf, hoverride, hnone]

namespace LocalStore

variable {s : LocalStore}

/-- A settled parent is left as it is. -/
theorem reconcileParent_eq_self (hd : DistinctIds s.tasks) {parent : Task}
    (hp : parent ∈ s.tasks) (hoverride : parent.parentManualReopenAt = none)
    (hcomplete : (∃ t ∈ s.tasks, t.parentTaskId = some parent.id) →
      (SubtasksComplete s.tasks parent.id ↔ parent.completedAt ≠ none)) (r : Bool) (now : Date) :
    s.reconcileParent (some parent.id) r now = s := by
  unfold reconcileParent reconcileParentCompletion
  dsimp only
  split
  · rfl
  · rename_i i old hentry
    obtain ⟨hi, hold⟩ := firstEntry_eq_some hentry
    simp only [decide_eq_true_eq] at hold
    obtain rfl := List.inj_on_of_nodup_map hd (List.mem_of_getElem? hi) hp hold.1
    split_ifs with hempty hset hchange
    · exact absurd hoverride hset
    · rfl
    · -- With subtasks and without override nothing is changed.
      have hchild : ∃ t ∈ s.tasks, t.parentTaskId = some old.id := by
        simpa using hempty
      have hall : ((s.tasks.filter fun t => t.parentTaskId = some old.id).all
          fun t => t.completedAt ≠ none) = true ↔ old.completedAt ≠ none := by
        rw [← hcomplete hchild, SubtasksComplete]
        simp [imp_iff_not_or]
      rw [Task.reconciled_of_settled hoverride hall] at hchange
      cases hchange
    · rfl

/-- A reconcile that drops the override leaves none. -/
theorem override_reconcileParent (hd : DistinctIds s.tasks) {parent : Task} {now : Date}
    (hp : parent ∈ (s.reconcileParent (some parent.id) true now).tasks)
    (hroot : parent.parentTaskId = none) : parent.parentManualReopenAt = none := by
  have hnode := view_of_mem (distinctIds_reconcileParent hd (some parent.id) true now) hp
  rw [view_reconcileParent hd] at hnode
  have hreopened := Forest.reopened_of_reconcile hnode hroot
  simpa [Task.node] using hreopened

/-! ## The two writes of a save -/

theorem firstEntry_of_mem {t : Task} (hd : DistinctIds s.tasks) (ht : t ∈ s.tasks) :
    ∃ i, firstEntry s.tasks (fun u => u.id = t.id) = some (i, t) ∧ s.tasks[i]? = some t := by
  cases hentry : firstEntry s.tasks fun u => u.id = t.id with
  | none => simpa using firstEntry_eq_none hentry t ht
  | some entry =>
    obtain ⟨i, u⟩ := entry
    obtain ⟨hi, hid⟩ := firstEntry_eq_some hentry
    obtain rfl := List.inj_on_of_nodup_map hd (List.mem_of_getElem? hi) ht (of_decide_eq_true hid)
    exact ⟨i, rfl, hi⟩

end LocalStore

/-- The task `new` in place of the task with its id. -/
def Task.replacedBy (t new : Task) : Task :=
  if t.id = new.id then new else t

theorem Task.replacedBy_id (t new : Task) : (t.replacedBy new).id = t.id :=
  key_replace new t

theorem ids_map_replacedBy (tasks : List Task) (new : Task) :
    (tasks.map (Task.replacedBy · new)).map Task.id = tasks.map Task.id := by
  rw [List.map_map]
  exact List.map_congr_left fun t _ => t.replacedBy_id new

theorem map_replacedBy_replacedBy (tasks : List Task) {new new' : Task} (hid : new'.id = new.id) :
    (tasks.map (Task.replacedBy · new)).map (Task.replacedBy · new') =
      tasks.map (Task.replacedBy · new') := by
  rw [List.map_map]
  refine List.map_congr_left fun t _ => ?_
  by_cases ht : t.id = new.id <;> simp [Task.replacedBy, ht, hid]

/-- A list in which one task has been replaced. -/
theorem mem_map_replacedBy {tasks : List Task} {new u : Task} (hnew : new.id ∈ tasks.map Task.id) :
    u ∈ tasks.map (Task.replacedBy · new) ↔ u = new ∨ u ∈ tasks ∧ u.id ≠ new.id := by
  rw [List.mem_map]
  constructor
  · rintro ⟨t, ht, rfl⟩
    by_cases hid : t.id = new.id
    · exact Or.inl (if_pos hid)
    · rw [Task.replacedBy, if_neg hid]
      exact Or.inr ⟨ht, hid⟩
  · rintro (rfl | ⟨hu, hid⟩)
    · obtain ⟨t, ht, hid⟩ := List.mem_map.mp hnew
      exact ⟨t, ht, if_pos hid⟩
    · exact ⟨u, hu, if_neg hid⟩

namespace LocalStore

variable {s : LocalStore}

theorem tasks_setTask_eq {i : ℕ} {t new : Task} (hd : DistinctIds s.tasks)
    (hi : s.tasks[i]? = some t) (hid : new.id = t.id) :
    (s.setTask i new).tasks = s.tasks.map (Task.replacedBy · new) := by
  rw [tasks_setTask, set_eq_map hd hi fun _ => new]
  simp only [Task.replacedBy, hid]

theorem tasks_updateTask_eq {t : Task} (hd : DistinctIds s.tasks) (ht : t ∈ s.tasks)
    (updates : TaskUpdate) (now : Date) : (s.updateTask t.id updates now).tasks =
      s.tasks.map (Task.replacedBy · (updates.applied t now)) := by
  obtain ⟨i, hentry, hi⟩ := firstEntry_of_mem hd ht
  unfold updateTask
  rw [hentry]
  simp only [tasks_spawnSync, tasks_logTaskEditedAnalytics, tasks_saveTasks]
  exact tasks_setTask_eq hd hi (updates.applied_id t now)

/-- A move that is not refused replaces the task and reconciles the old and the new parent. -/
theorem tasks_setParent_eq {t : Task} (hd : DistinctIds s.tasks) (ht : t ∈ s.tasks)
    {parentId : Option String} (hr : s.refusesParent t.id parentId = false) (now : Date) :
    ∃ s₂ : LocalStore, s₂.tasks = s.tasks.map (Task.replacedBy · (s.movedTask t parentId now)) ∧
      (s.setParent t.id parentId now).tasks =
        ((s₂.reconcileParent t.parentTaskId true now).reconcileParent parentId true now).tasks := by
  obtain ⟨i, hentry, hi⟩ := firstEntry_of_mem hd ht
  refine ⟨(s.setTask i (s.movedTask t parentId now)).saveTasks, ?_, ?_⟩
  · rw [tasks_saveTasks, tasks_setTask_eq hd hi (s.id_movedTask t parentId now)]
  · unfold setParent
    rw [hentry]
    dsimp only
    rw [if_neg (Bool.not_eq_true _ ▸ hr), tasks_spawnSync]

/-- In a good hierarchy no task is refused the parent it has. -/
theorem refusesParent_parentTaskId (h : HierarchyOk s.tasks) {t : Task} (ht : t ∈ s.tasks) :
    s.refusesParent t.id t.parentTaskId = false := by
  obtain ⟨hd, ho⟩ := hierarchyOk_iff.mp h
  cases hlink : t.parentTaskId with
  | none => rfl
  | some p =>
    have hchild : Forest.IsChild (view s.tasks) t.id p :=
      (isChild_view_iff hd).mpr ⟨t, ht, rfl, hlink⟩
    have hsub : s.hasSubtasks t.id = false := by
      rw [← Bool.not_eq_true, hasSubtasks_iff hd]
      exact ho.noNesting.not_hasChild hchild
    obtain ⟨parent, -, rfl, hne, -⟩ := h.2 t ht p hlink
    have hroot : topLevelTaskWithId s.tasks parent.id ≠ none := by
      rw [Ne, topLevelTaskWithId_eq_none_iff hd, not_not]
      exact ho _ _ hchild
    simp [refusesParent, hne, hsub, hroot]

end LocalStore

/-- The task after both writes : a subtask has no override, and the categories of its parent if
it had none. -/
def Task.resaved (t : Task) (selectedCategories : List String) (parent : Option Task)
    (now : Date) : Task :=
  let unedited := t.unedited selectedCategories now
  match parent with
  | none => unedited
  | some parent => { unedited with
      parentManualReopenAt := none
      categories := if selectedCategories.isEmpty then parent.categories else selectedCategories }

theorem Task.resaved_id (t : Task) (selectedCategories : List String) (parent : Option Task)
    (now : Date) : (t.resaved selectedCategories parent now).id = t.id := by
  cases parent <;> rfl

/-- A task is saved with the content that it had. -/
theorem Task.sameContent_resaved {t parent : Task} {selectedCategories : List String} {now : Date}
    (h : TaskEditView.IsArrayOfSet t.categories selectedCategories)
    (hoverride : t.parentManualReopenAt = none)
    (hcategories : t.categories = [] → parent.categories = []) :
    t.SameContent (t.resaved selectedCategories (some parent) now) := by
  obtain ⟨-, -, hnotes⟩ := t.sameContent_unedited h now
  refine ⟨?_, fun c => ?_, hnotes⟩
  · exact congrArg (fun override => { t with parentManualReopenAt := override }) hoverride.symm
  · change c ∈ (if selectedCategories.isEmpty then parent.categories else selectedCategories) ↔ _
    split_ifs with hempty
    · have hnone : t.categories = [] := by
        refine List.eq_nil_iff_forall_not_mem.mpr fun x hx => ?_
        simpa [List.isEmpty_iff.mp hempty] using (h.2 x).mpr hx
      rw [hcategories hnone, hnone]
    · exact h.2 c

namespace LocalStore

variable {s : LocalStore} {t : Task}

/-- A save replaces one task. -/
theorem tasks_saveTask (h : HierarchyOk s.tasks) (ht : t ∈ s.tasks)
    (selectedCategories : List String) (now : Date) :
    ∃ s₂ : LocalStore, s₂.tasks = s.tasks.map (Task.replacedBy ·
        (t.resaved selectedCategories (t.parentTaskId.bind (taskWithId s.tasks)) now)) ∧
      ((TaskEditView.init t selectedCategories).saveTask s t.id now).tasks =
        ((s₂.reconcileParent t.parentTaskId true now).reconcileParent t.parentTaskId true
          now).tasks := by
  have hupdated : (s.updateTask t.id (TaskEditView.init t selectedCategories).updates now).tasks =
      s.tasks.map (Task.replacedBy · (t.unedited selectedCategories now)) :=
    tasks_updateTask_eq h.1 ht _ now
  have hid : (t.unedited selectedCategories now).id ∈ s.tasks.map Task.id :=
    List.mem_map.mpr ⟨t, ht, rfl⟩
  have hok := @hierarchyOk_updateTask s h t.id
    (TaskEditView.init t selectedCategories).updates (fun _ => rfl) now
  rw [TaskEditView.saveTask]
  generalize s.updateTask t.id (TaskEditView.init t selectedCategories).updates now = s₁ at *
  have hmem : t.unedited selectedCategories now ∈ s₁.tasks := by
    rw [hupdated, mem_map_replacedBy hid]
    exact Or.inl rfl
  obtain ⟨s₂, htasks, hset⟩ := tasks_setParent_eq hok.1 hmem
    (refusesParent_parentTaskId hok hmem) now
  refine ⟨s₂, ?_, hset⟩
  have hmoved : s₁.movedTask (t.unedited selectedCategories now) t.parentTaskId now =
      t.resaved selectedCategories (t.parentTaskId.bind (taskWithId s.tasks)) now := by
    cases hlink : t.parentTaskId with
    | none =>
      exact congrArg (fun link => { t.unedited selectedCategories now with parentTaskId := link })
        hlink.symm
    | some p =>
      obtain ⟨parent, hparent, rfl, hne, -⟩ := h.2 t ht p hlink
      have hparent₁ : parent ∈ s₁.tasks := by
        rw [hupdated, mem_map_replacedBy hid]
        exact Or.inr ⟨hparent, hne⟩
      have hlookup : taskWithId s.tasks parent.id = some parent := lookup_of_mem h.1 hparent
      have hlookup₁ : taskWithId s₁.tasks parent.id = some parent := lookup_of_mem hok.1 hparent₁
      rw [Option.bind_some, hlookup]
      have hlink' : some parent.id = (t.unedited selectedCategories now).parentTaskId := hlink.symm
      unfold movedTask Task.resaved
      simp only [hlookup₁]
      rw [hlink', show (t.unedited selectedCategories now).categories = selectedCategories from rfl]
      split_ifs <;> rfl
  have hsame : s₁.movedTask (t.unedited selectedCategories now)
      (t.unedited selectedCategories now).parentTaskId now = _ := hmoved
  rw [htasks, hupdated, hsame]
  exact map_replacedBy_replacedBy _ (t.resaved_id _ _ _)

/-- What the editor changed is the task, before its parent is reconciled. -/
theorem harmlessFor_of_tasks {s' : LocalStore} {new : Task} (ht : t ∈ s.tasks)
    (hid : new.id = t.id) (hsame : t.SameContent new)
    (htasks : s'.tasks = s.tasks.map (Task.replacedBy · new)) : s.HarmlessFor t s' := by
  have hmem := @mem_map_replacedBy s.tasks new
  rw [← htasks, hid] at hmem
  refine ⟨by rw [htasks, ids_map_replacedBy], fun u hu hne => ?_, new, ?_, hid, hsame⟩
  · exact (hmem (List.mem_map_of_mem ht)).mpr (Or.inr ⟨hu, hne⟩)
  · exact (hmem (List.mem_map_of_mem ht)).mpr (Or.inl rfl)

/-- A parent without override, all or some of whose subtasks are as complete as it is, stays as
it is when a subtask is replaced by one as complete. -/
theorem subtasksComplete_map_replacedBy {new : Task} (hd : DistinctIds s.tasks) (ht : t ∈ s.tasks)
    (hid : new.id = t.id) (hlink : new.parentTaskId = t.parentTaskId)
    (hcomplete : new.completedAt = t.completedAt) (p : String) :
    SubtasksComplete (s.tasks.map (Task.replacedBy · new)) p ↔ SubtasksComplete s.tasks p := by
  have hreplaced : ∀ u ∈ s.tasks, (u.replacedBy new).parentTaskId = u.parentTaskId ∧
      (u.replacedBy new).completedAt = u.completedAt := by
    intro u hu
    unfold Task.replacedBy
    split_ifs with h
    · obtain rfl := List.inj_on_of_nodup_map hd hu ht (h.trans hid)
      exact ⟨hlink, hcomplete⟩
    · exact ⟨rfl, rfl⟩
  unfold SubtasksComplete
  rw [List.forall_mem_map]
  refine forall₂_congr fun u hu => ?_
  rw [(hreplaced u hu).1, (hreplaced u hu).2]

end LocalStore

/-- In a good hierarchy with settled parents, saving a task without an edit changes nothing but
the time of its last edit if and only if its parent, where it has one, has no override, and has
no categories where the task has none. -/
theorem saveTask_harmless_iff {s : LocalStore} (h : HierarchyRepaired s.tasks)
    (hsettled : ParentsSettled s.tasks) {t : Task} (ht : t ∈ s.tasks)
    {selectedCategories : List String}
    (hselected : TaskEditView.IsArrayOfSet t.categories selectedCategories) (now : Date) :
    s.HarmlessFor t ((TaskEditView.init t selectedCategories).saveTask s t.id now) ↔
      ∀ parent ∈ s.tasks, t.parentTaskId = some parent.id →
        parent.parentManualReopenAt = none ∧ (t.categories = [] → parent.categories = []) := by
  obtain ⟨s₂, htasks, hsaved⟩ := LocalStore.tasks_saveTask h.1 ht selectedCategories now
  generalize (TaskEditView.init t selectedCategories).saveTask s t.id now = s' at *
  cases hlink : t.parentTaskId with
  | none =>
    rw [hlink] at htasks hsaved
    refine ⟨fun _ parent _ hparent => (by cases hparent), fun _ => ?_⟩
    exact @LocalStore.harmlessFor_of_tasks s t s' (t.unedited selectedCategories now) ht rfl
      (t.sameContent_unedited hselected now) (hsaved.trans htasks)
  | some p =>
    obtain ⟨parent, hparent, rfl, hne, hroot⟩ := h.1.2 t ht p hlink
    have hd := h.1.1
    rw [hlink, Option.bind_some, show taskWithId s.tasks parent.id = some parent from
      lookup_of_mem hd hparent] at htasks
    rw [hlink] at hsaved
    have hd₂ : DistinctIds s₂.tasks := by
      rw [htasks]
      exact distinctIds_congr (ids_map_replacedBy _ _) hd
    have hid : (t.resaved selectedCategories (some parent) now).id ∈ s.tasks.map Task.id :=
      List.mem_map.mpr ⟨t, ht, rfl⟩
    have hparent₂ : parent ∈ s₂.tasks := by
      rw [htasks, mem_map_replacedBy hid]
      exact Or.inr ⟨hparent, hne⟩
    have hunique : ∀ parent' ∈ s.tasks, some parent.id = some parent'.id → parent' = parent :=
      fun parent' hparent' heq =>
        (List.inj_on_of_nodup_map hd hparent hparent' (Option.some_inj.mp heq)).symm
    constructor
    · rintro ⟨-, hothers, t', ht', hid', -, hcategories, -⟩ parent' hparent' heq
      obtain rfl := hunique parent' hparent' heq
      refine ⟨?_, fun hnone => ?_⟩
      · have hkept := hothers parent' hparent hne
        rw [hsaved] at hkept
        exact LocalStore.override_reconcileParent
          (LocalStore.distinctIds_reconcileParent hd₂ (some parent'.id) true now) hkept hroot
      · -- The reconciles leave the task with the categories it was given.
        have hx : some parent'.id ≠ some t.id := fun heq => hne (Option.some_inj.mp heq)
        have hd₃ := LocalStore.distinctIds_reconcileParent hd₂ (some parent'.id) true now
        have hd' : DistinctIds s'.tasks := by
          rw [hsaved]
          exact LocalStore.distinctIds_reconcileParent hd₃ _ true now
        have hnew : t.resaved selectedCategories (some parent') now ∈ s₂.tasks := by
          rw [htasks, mem_map_replacedBy hid]
          exact Or.inl rfl
        have hlookup : taskWithId s'.tasks t.id =
            some (t.resaved selectedCategories (some parent') now) := by
          rw [hsaved, LocalStore.taskWithId_reconcileParent hd₃ hx,
            LocalStore.taskWithId_reconcileParent hd₂ hx]
          exact lookup_of_mem hd₂ hnew
        have ht'' : taskWithId s'.tasks t.id = some t' := hid' ▸ lookup_of_mem hd' ht'
        obtain rfl := Option.some_inj.mp (ht''.symm.trans hlookup)
        have hempty : selectedCategories = [] := by
          refine List.eq_nil_iff_forall_not_mem.mpr fun c hc => ?_
          simpa [hnone] using (hselected.2 c).mp hc
        subst hempty
        refine List.eq_nil_iff_forall_not_mem.mpr fun c hc => ?_
        simpa [hnone] using (hcategories c).mp hc
    · intro hall
      obtain ⟨hoverride, hcategories⟩ := hall parent hparent rfl
      have hcomplete : SubtasksComplete s₂.tasks parent.id ↔ parent.completedAt ≠ none := by
        rw [htasks, LocalStore.subtasksComplete_map_replacedBy hd ht (t.resaved_id _ _ _) rfl rfl]
        obtain ⟨hall, hopen⟩ := hsettled parent hparent hroot ⟨t, ht, hlink⟩
        refine ⟨fun hsub => (hall hsub).resolve_right (not_not.mpr hoverride), fun hdone => ?_⟩
        exact not_not.mp fun hsub => hdone (hopen hsub).1
      have hself := LocalStore.reconcileParent_eq_self hd₂ hparent₂ hoverride (fun _ => hcomplete)
        true now
      rw [hself, hself] at hsaved
      refine LocalStore.harmlessFor_of_tasks ht (t.resaved_id _ _ _) ?_ (hsaved.trans htasks)
      refine Task.sameContent_resaved hselected ?_ hcategories
      exact h.2 t ht (by rw [hlink]; exact Option.some_ne_none _)

/-- A parent that was reopened by hand, over a completed subtask. -/
def reopenedParent : Task where
  id := "parent"
  title := ""
  createdAt := .seconds 0
  updatedAt := .seconds 0
  parentManualReopenAt := some (.seconds 2)

/-- A completed subtask. -/
def completedSubtask : Task where
  id := "subtask"
  title := ""
  createdAt := .seconds 0
  updatedAt := .seconds 0
  completedAt := some (.seconds 1)
  parentTaskId := some "parent"

/-- A parent that was reopened by hand, with a completed subtask. -/
def reopenedStore : LocalStore where
  tasks := [reopenedParent, completedSubtask]

theorem hierarchyRepaired_reopenedStore :
    HierarchyRepaired reopenedStore.tasks ∧ ParentsSettled reopenedStore.tasks := by
  refine ⟨⟨⟨by decide, ?_⟩, ?_⟩, ?_⟩ <;>
    simp [reopenedStore, reopenedParent, completedSubtask, ParentsSettled, SubtasksComplete]

theorem saveTask_harmless_reopened :
    reopenedStore.HarmlessFor completedSubtask
        ((TaskEditView.init completedSubtask []).saveTask reopenedStore "subtask" (.seconds 5)) ↔
      ∀ parent ∈ reopenedStore.tasks, completedSubtask.parentTaskId = some parent.id →
        parent.parentManualReopenAt = none ∧
          (completedSubtask.categories = [] → parent.categories = []) := by
  obtain ⟨hrepaired, hsettled⟩ := hierarchyRepaired_reopenedStore
  refine saveTask_harmless_iff hrepaired hsettled (by simp [reopenedStore]) ⟨.nil, ?_⟩ (.seconds 5)
  simp [completedSubtask]

/-- Saving the subtask without an edit completes the reopened parent. -/
theorem not_harmlessFor_reopened :
    HierarchyRepaired reopenedStore.tasks ∧ ParentsSettled reopenedStore.tasks ∧
      ((TaskEditView.init completedSubtask []).saveTask reopenedStore "subtask"
        (.seconds 5)).tasks.map (fun t => (t.completedAt, t.parentManualReopenAt)) =
          [(some (.seconds 5), none), (some (.seconds 1), none)] ∧
      ¬reopenedStore.HarmlessFor completedSubtask
        ((TaskEditView.init completedSubtask []).saveTask reopenedStore "subtask"
          (.seconds 5)) := by
  have hfields : ((TaskEditView.init completedSubtask []).saveTask reopenedStore "subtask"
      (.seconds 5)).tasks.map (fun t => (t.completedAt, t.parentManualReopenAt)) =
        [(some (.seconds 5), none), (some (.seconds 1), none)] := by
    decide
  refine ⟨hierarchyRepaired_reopenedStore.1, hierarchyRepaired_reopenedStore.2, hfields, ?_⟩
  rintro ⟨-, hothers, -⟩
  have hkept := List.mem_map_of_mem (f := fun t : Task => (t.completedAt, t.parentManualReopenAt))
    (hothers reopenedParent List.mem_cons_self (by decide))
  rw [hfields] at hkept
  exact absurd hkept (by decide)

end Notelayer
