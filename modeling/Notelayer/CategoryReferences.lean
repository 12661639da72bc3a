import Notelayer.InsightsAggregator
import Notelayer.LocalOperations
import Notelayer.TodosView

/-!
# References to categories

A task refers to its categories by their ids. `LocalStore.RefersTo` says that every id on a
task is the id of one of the given categories. The operations on tasks keep it, but for those
that bring a task from outside : an added, edited or imported task, and the task that an undo
puts back.
-/

namespace Notelayer

open KeyedList

/-- Every category id on the task is the id of one of the categories. -/
def Task.RefersTo (categories : List Category) (task : Task) : Prop :=
  ∀ id ∈ task.categories, id ∈ categories.map Category.id

instance (categories : List Category) (task : Task) : Decidable (task.RefersTo categories) :=
  inferInstanceAs (Decidable (∀ _ ∈ _, _))

/-- The store has these categories, and its tasks refer to them. -/
structure LocalStore.RefersTo (cs : List Category) (s : LocalStore) : Prop where
  categories : s.categories = cs
  tasks : ∀ task ∈ s.tasks, task.RefersTo cs

/-- Every category id on a task is the id of a category in the store. -/
def LocalStore.HasValidReferences (s : LocalStore) : Prop :=
  ∀ task ∈ s.tasks, task.RefersTo s.categories

instance (s : LocalStore) : Decidable s.HasValidReferences :=
  inferInstanceAs (Decidable (∀ _ ∈ _, _))

theorem LocalStore.HasValidReferences.refersTo {s : LocalStore} (h : s.HasValidReferences) :
    s.RefersTo s.categories :=
  ⟨rfl, h⟩

/-! ## Tasks -/

section Tasks

variable {cs : List Category} {task : Task} {tasks : List Task}

@[simp] theorem Task.reconciled_categories (t : Task) (a r : Bool) (now : Date) :
    (t.reconciled a r now).1.categories = t.categories := by
  unfold reconciled
  split_ifs <;> simp [editIf_fst (f := categories)]

/-- A task that inherits its categories from a task of the list refers to the same categories. -/
theorem Task.RefersTo.attached (h : task.RefersTo cs) (htasks : ∀ t ∈ tasks, t.RefersTo cs) :
    (task.attached tasks).RefersTo cs := by
  unfold Task.attached
  split
  · split
    · rename_i parent hparent
      split_ifs
      · exact htasks parent (List.mem_of_find?_eq_some hparent)
      · exact h
    · exact h
  · exact h

end Tasks

/-- The first entry with an id is of the task with the id. -/
theorem taskWithId_of_firstEntry {tasks : List Task} {id : String} {index : ℕ} {task : Task}
    (h : firstEntry tasks (fun t => t.id = id) = some (index, task)) :
    taskWithId tasks id = some task := by
  unfold firstEntry at h
  obtain ⟨j, hj, h⟩ := Option.bind_eq_some_iff.mp h
  obtain ⟨t, ht, h⟩ := Option.map_eq_some_iff.mp h
  obtain ⟨rfl, rfl⟩ := Prod.mk.inj h
  obtain ⟨hlt, hp, hfirst⟩ := List.findIdx?_eq_some_iff_getElem.mp hj
  obtain ⟨-, rfl⟩ := List.getElem?_eq_some_iff.mp ht
  exact List.find?_eq_some_iff_getElem.mpr ⟨hp, j, hlt, rfl, by simpa using hfirst⟩

namespace LocalStore

variable {s s' : LocalStore} {cs : List Category}

/-- Saving, logging and spawning. -/
theorem RefersTo.eq (h : s.RefersTo cs) (ht : s'.tasks = s.tasks)
    (hc : s'.categories = s.categories) : s'.RefersTo cs :=
  ⟨hc.trans h.categories, fun task htask => h.tasks task (ht ▸ htask)⟩

theorem RefersTo.saveTasks (h : s.RefersTo cs) : s.saveTasks.RefersTo cs :=
  h.eq rfl rfl

theorem RefersTo.spawnSync (h : s.RefersTo cs) (f : FirestoreBackend → Closure) :
    (s.spawnSync f).RefersTo cs :=
  h.eq (tasks_spawnSync ..) (categories_spawnSync ..)

theorem RefersTo.setTask (h : s.RefersTo cs) (index : ℕ) {task : Task}
    (htask : task.RefersTo cs) : (s.setTask index task).RefersTo cs := by
  refine ⟨h.categories, fun t ht => ?_⟩
  rcases List.mem_or_eq_of_mem_set ht with ht | rfl
  · exact h.tasks t ht
  · exact htask

theorem RefersTo.of_firstEntry (h : s.RefersTo cs) {p : Task → Bool} {index : ℕ} {task : Task}
    (hentry : firstEntry s.tasks p = some (index, task)) : task.RefersTo cs :=
  h.tasks task (List.mem_of_getElem? (firstEntry_eq_some hentry).1)

/-- A reconciliation changes no category of a task. -/
theorem RefersTo.reconcileParent (h : s.RefersTo cs) (parentId : Option String) (r : Bool)
    (now : Date) : (s.reconcileParent parentId r now).RefersTo cs := by
  cases parentId with
  | none => exact h
  | some parentId =>
    change (s.reconcileParentCompletion parentId r now).RefersTo cs
    unfold reconcileParentCompletion
    split
    · exact h
    · rename_i index parent hentry
      have hparent := h.of_firstEntry hentry
      dsimp only
      split_ifs
      · have hkept : (parent.withoutOverride now).RefersTo cs := hparent
        exact (h.setTask index hkept).saveTasks.spawnSync _
      · exact h
      · have hreconciled : (parent.reconciled ((s.tasks.filter fun t =>
            t.parentTaskId = some parentId).all fun t => t.completedAt ≠ none) r now).1.RefersTo
              cs := by
          unfold Task.RefersTo
          rwa [Task.reconciled_categories]
        exact (h.setTask index hreconciled).saveTasks.spawnSync _
      · exact h

/-! ## Operations on tasks -/

theorem RefersTo.logTaskCreatedAnalytics (h : s.RefersTo cs) (task : Task) :
    (s.logTaskCreatedAnalytics task).RefersTo cs := by
  refine h.eq (tasks_logTaskCreatedAnalytics ..) ?_
  unfold LocalStore.logTaskCreatedAnalytics
  split_ifs <;> rfl

/-- The added task may inherit, which brings no new category. -/
theorem RefersTo.addTask (h : s.RefersTo cs) {task : Task} (htask : task.RefersTo cs)
    (now : Date) : (s.addTask task now).1.RefersTo cs := by
  unfold LocalStore.addTask
  dsimp only
  have hnew : ((task.ordered now.milliseconds).attached s.tasks).RefersTo cs :=
    Task.RefersTo.attached htask h.tasks
  generalize (task.ordered now.milliseconds).attached s.tasks = newTask at hnew
  have hadded : (s.withTasks (s.tasks ++ [newTask])).RefersTo cs := by
    refine ⟨h.categories, fun t ht => ?_⟩
    rcases List.mem_append.mp ht with ht | ht
    · exact h.tasks t ht
    · rwa [List.mem_singleton.mp ht]
  have hsaved := (hadded.reconcileParent newTask.parentTaskId true now).saveTasks
  exact (hsaved.logTaskCreatedAnalytics newTask).spawnSync _

/-- A subtask has the categories of its parent. -/
theorem RefersTo.addSubtask (h : s.RefersTo cs) (parentId title : String) (priority : Priority)
    (id : String) (now : Date) : (s.addSubtask parentId title priority id now).1.RefersTo cs := by
  unfold LocalStore.addSubtask
  split
  · exact h
  · rename_i parent hparent
    dsimp only
    split_ifs
    · exact h
    · refine h.addTask ?_ now
      exact h.tasks parent (List.mem_of_find?_eq_some hparent)

/-- A moved task may inherit, which brings no new category. -/
theorem RefersTo.movedTask (h : s.RefersTo cs) {task : Task} (htask : task.RefersTo cs)
    (parentId : Option String) (now : Date) : (s.movedTask task parentId now).RefersTo cs := by
  unfold LocalStore.movedTask
  dsimp only
  split
  · exact htask
  · split_ifs
    · split
      · rename_i parent hparent
        exact h.tasks parent (mem_of_lookup hparent)
      · exact htask
    · exact htask

/-- A new parent brings no category that the list does not have. -/
theorem RefersTo.setParent (h : s.RefersTo cs) (taskId : String) (parentId : Option String)
    (now : Date) : (s.setParent taskId parentId now).RefersTo cs := by
  unfold LocalStore.setParent
  split
  · exact h
  · rename_i index task hentry
    split_ifs
    · exact h
    · have hmoved := (h.setTask index (h.movedTask (h.of_firstEntry hentry) parentId now)).saveTasks
      exact ((hmoved.reconcileParent task.parentTaskId true now).reconcileParent parentId true
        now).spawnSync _

/-- A deletion brings no category. -/
theorem RefersTo.deleteTask (h : s.RefersTo cs) (id : String) (now : Date) :
    (s.deleteTask id now).RefersTo cs := by
  unfold LocalStore.deleteTask
  dsimp only
  have hremoved : (s.withTasks (KeyedList.remove Task.id s.tasks id)).saveTasks.RefersTo cs :=
    ⟨h.categories, fun t ht => h.tasks t (List.mem_of_mem_filter ht)⟩
  generalize (s.withTasks (KeyedList.remove Task.id s.tasks id)).saveTasks = s₁ at hremoved
  have hlogged : (s₁.logTaskDeleted (taskWithId s.tasks id)).RefersTo cs := by
    refine hremoved.eq (tasks_logTaskDeleted ..) ?_
    cases taskWithId s.tasks id <;> rfl
  generalize s₁.logTaskDeleted (taskWithId s.tasks id) = s₂ at hlogged
  have hcancelled : (s₂.spawnCancelReminder
      ((taskWithId s.tasks id).bind Task.reminderNotificationId)).RefersTo cs := by
    refine hlogged.eq (tasks_spawnCancelReminder ..) ?_
    cases (taskWithId s.tasks id).bind Task.reminderNotificationId <;> rfl
  exact (hcancelled.spawnSync _).reconcileParent _ true now

/-- What one step keeps, a list of them keeps. -/
theorem RefersTo.foldl {A : Type} {f : LocalStore → A → LocalStore}
    (hf : ∀ (s : LocalStore) a, s.RefersTo cs → (f s a).RefersTo cs) (as : List A)
    (h : s.RefersTo cs) : (as.foldl f s).RefersTo cs := by
  induction as generalizing s with
  | nil => exact h
  | cons a as ih => exact ih (hf s a h)

/-- Neither strategy brings a category. -/
theorem RefersTo.deleteParentTask (h : s.RefersTo cs) (id : String)
    (strategy : ParentTaskDeletionStrategy) (now : Date) :
    (s.deleteParentTask id strategy now).RefersTo cs := by
  unfold LocalStore.deleteParentTask
  split_ifs
  · cases strategy with
    | deleteSubtasks =>
      exact (h.foldl (fun s₁ childId h₁ => h₁.deleteTask childId now) _).deleteTask id now
    | detachSubtasks =>
      exact (h.foldl (fun s₁ childId h₁ => h₁.setParent childId none now) _).deleteTask id now
  · exact h.deleteTask id now

/-- An update brings the categories that it sets. -/
theorem RefersTo.updateTask (h : s.RefersTo cs) (id : String) {updates : TaskUpdate}
    (hupdates : ∀ task ∈ taskWithId s.tasks id, (updates.apply task).RefersTo cs) (now : Date) :
    (s.updateTask id updates now).RefersTo cs := by
  unfold LocalStore.updateTask
  split
  · exact h
  · rename_i index oldTask hentry
    have hnew : (updates.applied oldTask now).RefersTo cs :=
      hupdates oldTask (taskWithId_of_firstEntry hentry)
    refine RefersTo.spawnSync ?_ _
    refine (h.setTask index hnew).eq (tasks_logTaskEditedAnalytics ..) ?_
    unfold logTaskEditedAnalytics
    dsimp only
    split_ifs <;> rfl

/-- A completion brings no category. -/
theorem RefersTo.completeTask (h : s.RefersTo cs) (id : String) (now : Date) :
    (s.completeTask id now).RefersTo cs := by
  unfold LocalStore.completeTask
  split
  · exact h
  · rename_i index oldTask hentry
    dsimp only
    have hold := h.of_firstEntry hentry
    have hcompleted : (oldTask.completed now).RefersTo cs := hold
    refine RefersTo.reconcileParent (RefersTo.spawnSync ?_ _) _ false now
    refine (h.setTask index hcompleted).eq (tasks_spawnCancelReminder ..) ?_
    cases oldTask.reminderNotificationId <;> rfl

/-- A restoration brings no category. -/
theorem RefersTo.restoreTask (h : s.RefersTo cs) (id : String) (now : Date) :
    (s.restoreTask id now).RefersTo cs := by
  unfold LocalStore.restoreTask
  split
  · exact h
  · rename_i index oldTask hentry
    dsimp only
    have hold := h.of_firstEntry hentry
    have hreopened : (oldTask.reopened (s.subtaskCount oldTask.id) now).RefersTo cs := by
      unfold Task.reopened
      dsimp only
      split_ifs
      · exact hold
      · exact hold
    refine RefersTo.reconcileParent (RefersTo.spawnSync ?_ _) _ true now
    rcases s.restoreReminder_cases oldTask (oldTask.reopened (s.subtaskCount oldTask.id) now) now
      with ⟨closure, date, cs', n, -, hr⟩ | ⟨date, n, hr⟩
    · rw [hr]
      exact (RefersTo.eq h rfl rfl).setTask index hreopened |>.eq rfl rfl
    · rw [hr]
      have hkept : { oldTask.reopened (s.subtaskCount oldTask.id) now with
          reminderDate := date, reminderNotificationId := n }.RefersTo cs := hreopened
      exact (h.setTask index hkept).eq rfl rfl

/-- A reordering brings no category. -/
theorem RefersTo.reorderTasks (h : s.RefersTo cs) {orderedIds : List String} {now : Date}
    (hs : s.reorderTasks orderedIds now = some s') : s'.RefersTo cs := by
  unfold LocalStore.reorderTasks uniqueKeysWithValues at hs
  obtain ⟨taskMap, hmap, rfl⟩ := Option.map_eq_some_iff.mp hs
  split_ifs at hmap
  obtain rfl := Option.some_inj.mp hmap
  have hreordered : (s.withTasks ((orderedIds.filterMap (lookup Task.id s.tasks)).mapIdx
      (fun index task => task.reordered (now.milliseconds - index) now) ++
        s.tasks.filter fun t => t.id ∉ orderedIds)).RefersTo cs := by
    refine ⟨h.categories, fun t ht => ?_⟩
    rcases List.mem_append.mp ht with ht | ht
    · obtain ⟨index, hindex, rfl⟩ := List.mem_mapIdx.mp ht
      obtain ⟨id, -, hlookup⟩ := List.mem_filterMap.mp (List.getElem_mem hindex)
      have hold := h.tasks _ (mem_of_lookup hlookup)
      exact hold
    · exact h.tasks t (List.mem_of_mem_filter ht)
  refine RefersTo.spawnSync ?_ _
  exact hreordered.eq rfl rfl

/-- The imported tasks bring the categories that they have. -/
theorem RefersTo.applySharedImports (h : s.RefersTo cs) (notes : List Note) {tasks : List Task}
    (htasks : ∀ task ∈ tasks, task.RefersTo cs) (now : Date) :
    (s.applySharedImports notes tasks now).RefersTo cs := by
  have hnotes : (if notes.isEmpty then s else s.importNotes notes).RefersTo cs := by
    split_ifs
    · exact h
    · unfold LocalStore.importNotes
      refine RefersTo.spawnSync ?_ _
      exact h.eq rfl rfl
  unfold LocalStore.applySharedImports
  dsimp only
  generalize (if notes.isEmpty then s else s.importNotes notes) = s₁ at hnotes
  split_ifs
  · exact hnotes
  · have hprepared : (s₁.withTasks (s₁.tasks ++ s₁.preparedTasks tasks now)).saveTasks.RefersTo
        cs := by
      refine ⟨hnotes.categories, fun t ht => ?_⟩
      rcases List.mem_append.mp ht with ht | ht
      · exact hnotes.tasks t ht
      · obtain ⟨index, hindex, rfl⟩ := List.mem_mapIdx.mp ht
        have hordered : (tasks[index].ordered (now.milliseconds + index)).RefersTo cs :=
          htasks tasks[index] (List.getElem_mem hindex)
        exact hordered.attached hnotes.tasks
    exact RefersTo.spawnSync (hprepared.foldl (fun s₂ t h₂ => h₂.logTaskCreatedAnalytics t) _) _

/-! ## Operations on categories -/

theorem HasValidReferences.of_ids (h : s.HasValidReferences) (ht : s'.tasks = s.tasks)
    (hids : ∀ id ∈ s.categories.map Category.id, id ∈ s'.categories.map Category.id) :
    s'.HasValidReferences :=
  fun task htask id hid => hids id (h task (ht ▸ htask) id hid)

theorem RefersTo.hasValidReferences (h : s.RefersTo cs) : s.HasValidReferences := by
  unfold HasValidReferences
  rw [h.categories]
  exact h.tasks

theorem HasValidReferences.addCategory (h : s.HasValidReferences) (category : Category) :
    (s.addCategory category).HasValidReferences := by
  refine h.of_ids (tasks_addCategory ..) fun id hid => ?_
  obtain ⟨c, hc, rfl⟩ := List.mem_map.mp hid
  rw [categories_addCategory]
  refine List.mem_map.mpr ⟨{ c with order := c.order + 1 }, ?_, rfl⟩
  exact mem_sortedByCategorySort.mpr (List.mem_append_left _ (List.mem_map_of_mem hc))

/-- An update of a category keeps its id. -/
theorem HasValidReferences.updateCategory (h : s.HasValidReferences) (id : String)
    (updates : CategoryUpdate) : (s.updateCategory id updates).HasValidReferences := by
  refine h.of_ids (tasks_updateCategory ..) fun id' hid' => ?_
  unfold LocalStore.updateCategory
  split
  · exact hid'
  · rename_i index hindex
    split
    · exact hid'
    · rename_i oldCategory hold
      dsimp only
      have hids : (s.categories.set index (updates.apply oldCategory)).map Category.id =
          s.categories.map Category.id := map_key_set hold (updates.id_apply oldCategory)
      have hcategories : id' ∈ (sortedByCategorySort
          (s.categories.set index (updates.apply oldCategory))).map Category.id := by
        rw [((perm_sortedByCategorySort _).map _).mem_iff, hids]
        exact hid'
      rw [categories_spawnSync]
      split_ifs
      · exact hcategories
      · exact hcategories

/-- A reordering keeps the ids of the categories. -/
theorem HasValidReferences.reorderCategories (h : s.HasValidReferences) {ids : List String}
    (hs : s.reorderCategories ids = some s') : s'.HasValidReferences := by
  have hd : DistinctKeys Category.id s.categories := by
    unfold LocalStore.reorderCategories uniqueKeysWithValues at hs
    obtain ⟨categoryMap, hmap, -⟩ := Option.map_eq_some_iff.mp hs
    split_ifs at hmap with hd
    exact hd
  refine h.of_ids (tasks_reorderCategories hs) fun id hid => ?_
  obtain ⟨c, hc, rfl⟩ := List.mem_map.mp hid
  rw [categories_reorderCategories hs, ((perm_sortedByCategorySort _).map _).mem_iff,
    reorderedCategories, List.map_append, List.mem_append]
  by_cases hmem : c.id ∈ ids
  · obtain ⟨index, hindex, hget⟩ := List.mem_iff_getElem.mp hmem
    refine Or.inl (List.mem_map.mpr ⟨{ c with order := index }, ?_, rfl⟩)
    refine List.mem_filterMap.mpr ⟨_, List.mem_mapIdx.mpr ⟨index, hindex, rfl⟩, ?_⟩
    rw [hget, lookup_of_mem hd hc]
    rfl
  · have hrest : c ∈ s.categories.filter fun c => c.id ∉ ids :=
      List.mem_filter.mpr ⟨hc, decide_eq_true hmem⟩
    obtain ⟨offset, hoffset, hget⟩ := List.mem_iff_getElem.mp hrest
    refine Or.inr (List.mem_map.mpr ⟨_, List.mem_mapIdx.mpr ⟨offset, hoffset, rfl⟩, ?_⟩)
    rw [hget]

theorem HasValidReferences.applyOnboardingPresetCategories {presetCategories : List Category}
    (h : ∀ task ∈ s.tasks, task.RefersTo presetCategories) :
    (s.applyOnboardingPresetCategories presetCategories).HasValidReferences := by
  intro task htask id hid
  rw [tasks_applyOnboardingPresetCategories] at htask
  rw [categories_applyOnboardingPresetCategories, ids_mapIdx_order]
  exact h task htask id hid

/-- A deleted category is taken off every task, and the replacement is one of the others. -/
theorem HasValidReferences.deleteCategory (h : s.HasValidReferences) (id : String)
    (replacementId : Option String) (now : Date) :
    (s.deleteCategory id replacementId now).HasValidReferences := by
  have hcategories : ∀ id', id' ∈ s.categories.map Category.id → id' ≠ id →
      id' ∈ (s.deleteCategory id replacementId now).categories.map Category.id := by
    intro id' hid' hne
    obtain ⟨c, hc, rfl⟩ := List.mem_map.mp hid'
    rw [categories_deleteCategory, ids_mapIdx_order, ((perm_sortedByCategorySort _).map _).mem_iff]
    exact List.mem_map_of_mem (List.mem_filter.mpr ⟨hc, decide_eq_true hne⟩)
  intro task htask id' hid'
  rw [tasks_deleteCategory] at htask
  obtain ⟨task, hmem, rfl⟩ := List.mem_map.mp htask
  unfold withoutCategoryIf at hid'
  split_ifs at hid' with hhas
  · have hothers : ∀ id' ∈ task.categories.filter (· ≠ id),
        id' ∈ (s.deleteCategory id replacementId now).categories.map Category.id := by
      intro id' hid'
      obtain ⟨hid', hne⟩ := List.mem_filter.mp hid'
      exact hcategories id' (h task hmem id' hid') (of_decide_eq_true hne)
    unfold withoutCategory at hid'
    dsimp only at hid'
    split at hid'
    · rename_i replacement hresolved
      split_ifs at hid'
      · exact hothers id' hid'
      · rcases List.mem_append.mp hid' with hid' | hid'
        · exact hothers id' hid'
        · obtain rfl := List.mem_singleton.mp hid'
          obtain ⟨-, hreplacement⟩ := Option.filter_eq_some_iff.mp hresolved
          obtain ⟨hne, hany⟩ := of_decide_eq_true hreplacement
          obtain ⟨c, hc, hcid⟩ := List.any_eq_true.mp hany
          exact hcategories id' (List.mem_map.mpr ⟨c, hc, of_decide_eq_true hcid⟩) hne
    · exact hothers id' hid'
  · refine hcategories id' (h task hmem id' hid') fun heq => hhas ?_
    rwa [← heq]

end LocalStore

/-! ## Steps -/

/-- A local operation, or a drop of a task on a group of the category mode. -/
inductive CategoryModeStep where
  | localOperation (operation : LocalOperation)
  | categoryDrop (payload : TodoDragPayload) (destinationCategoryId : String)
      (beforeTaskId : Option String) (showingDone : Bool)

namespace CategoryModeStep

/-- Take a step at the instant `e.1`. -/
def step (e : Date × CategoryModeStep) (u : Session) : Option Session :=
  match e.2 with
  | localOperation operation => LocalOperation.step (e.1, operation) u
  | categoryDrop payload destinationCategoryId beforeTaskId showingDone =>
    (TodoCategoryModeView.applyCategoryDrop u.store payload destinationCategoryId beforeTaskId
      showingDone e.1).map u.withStore

/-- What a step brings into the store refers to its categories : the tasks that are added,
edited, imported or put back, the displayed group that a task is dropped on. New categories
keep those that the tasks refer to. -/
def BringsReferences (e : Date × CategoryModeStep) (u : Session) : Prop :=
  match e.2 with
  | localOperation (.task (.addTask task) _) => task.RefersTo u.store.categories
  | localOperation (.task (.updateTask id updates) _) =>
    ∀ task ∈ taskWithId u.store.tasks id, (updates.apply task).RefersTo u.store.categories
  | localOperation (.task .undo _) => ∀ task ∈ u.undoStack.head?, task.RefersTo u.store.categories
  | localOperation (.task (.applySharedImports _ tasks) _) =>
    ∀ task ∈ tasks, task.RefersTo u.store.categories
  | localOperation (.applyOnboardingPresetCategories presetCategories) =>
    ∀ task ∈ u.store.tasks, task.RefersTo presetCategories
  | categoryDrop _ destinationCategoryId _ _ => destinationCategoryId = "Uncategorized" ∨
      destinationCategoryId ∈ u.store.categories.map Category.id
  | _ => True

end CategoryModeStep

open LocalStore

/-- A drop on a displayed group keeps the references. -/
theorem LocalStore.RefersTo.applyCategoryDrop {s s' : LocalStore} {cs : List Category}
    (h : s.RefersTo cs) {payload : TodoDragPayload} {destinationCategoryId : String}
    (hdisplayed : destinationCategoryId = "Uncategorized" ∨
      destinationCategoryId ∈ cs.map Category.id)
    {beforeTaskId : Option String} {showingDone : Bool} {now : Date}
    (hs : TodoCategoryModeView.applyCategoryDrop s payload destinationCategoryId beforeTaskId
      showingDone now = some s') : s'.RefersTo cs := by
  refine RefersTo.reorderTasks (h.updateTask payload.taskId (fun task htask => ?_) now) hs
  have hold := h.tasks task (mem_of_lookup htask)
  have hkept : ∀ id ∈ (if payload.sourceGroupId ≠ "Uncategorized" then
      task.categories.filter (· ≠ payload.sourceGroupId) else task.categories),
        id ∈ cs.map Category.id := by
    intro id hid
    split_ifs at hid
    · exact hold id (List.mem_of_mem_filter hid)
    · exact hold id hid
  intro id hid
  unfold TodoCategoryModeView.dropUpdate at hid
  dsimp only at hid
  generalize (if payload.sourceGroupId ≠ "Uncategorized" then
    task.categories.filter (· ≠ payload.sourceGroupId) else task.categories) = cats at hkept hid
  split_ifs at hid with hcond
  · rcases List.mem_append.mp hid with hid | hid
    · exact hkept id hid
    · rw [List.mem_singleton.mp hid]
      exact hdisplayed.resolve_left hcond.1
  · exact hkept id hid

/-- A task operation keeps the references. -/
theorem refersTo_sessionStep {now : Date} {operation : Operation}
    (hlocal : operation.isLocal = true) {u u' : Session} (h : u.store.HasValidReferences)
    (hbrings : CategoryModeStep.BringsReferences (now, .localOperation (.task operation hlocal)) u)
    (hu : Session.step (now, operation) u = some u') : u'.store.HasValidReferences := by
  have hrefers := h.refersTo
  cases operation with
  | addTask task =>
    obtain rfl := Option.some_inj.mp hu
    exact (hrefers.addTask hbrings now).hasValidReferences
  | addSubtask parentId title priority id =>
    obtain rfl := Option.some_inj.mp hu
    exact (hrefers.addSubtask parentId title priority id now).hasValidReferences
  | setParent taskId parentId =>
    obtain rfl := Option.some_inj.mp hu
    exact (hrefers.setParent taskId parentId now).hasValidReferences
  | updateTask id updates =>
    obtain rfl := Option.some_inj.mp hu
    exact (hrefers.updateTask id hbrings now).hasValidReferences
  | completeTask id =>
    obtain rfl := Option.some_inj.mp hu
    exact (hrefers.completeTask id now).hasValidReferences
  | restoreTask id =>
    obtain rfl := Option.some_inj.mp hu
    exact (hrefers.restoreTask id now).hasValidReferences
  | deleteTask id =>
    obtain rfl := Option.some_inj.mp hu
    exact (hrefers.deleteTask id now).hasValidReferences
  | deleteTaskUndoably id =>
    obtain rfl := Option.some_inj.mp hu
    unfold Session.deleteTaskUndoably
    split
    · exact h
    · exact (hrefers.deleteTask id now).hasValidReferences
  | undo =>
    obtain rfl := Option.some_inj.mp hu
    unfold Session.undo
    split
    · exact h
    · rename_i task undoStack hstack
      have htask : task.RefersTo u.store.categories := hbrings task (by rw [hstack]; rfl)
      exact (hrefers.addTask htask now).hasValidReferences
  | redo =>
    obtain rfl := Option.some_inj.mp hu
    unfold Session.redo
    split
    · exact h
    · exact (hrefers.deleteTask _ now).hasValidReferences
  | deleteParentTask id strategy =>
    obtain rfl := Option.some_inj.mp hu
    exact (hrefers.deleteParentTask id strategy now).hasValidReferences
  | reorderTasks orderedIds =>
    obtain ⟨s', hs', rfl⟩ := Option.map_eq_some_iff.mp hu
    exact (hrefers.reorderTasks hs').hasValidReferences
  | deleteCategory id replacementId =>
    obtain rfl := Option.some_inj.mp hu
    exact h.deleteCategory id replacementId now
  | applySharedImports notes tasks =>
    obtain rfl := Option.some_inj.mp hu
    exact (hrefers.applySharedImports notes hbrings now).hasValidReferences
  | applyRemoteTasks tasks => cases hlocal
  | applyRemoteSnapshot notes tasks categories => cases hlocal

namespace CategoryModeStep

/-- A step that brings only valid references keeps them valid. -/
theorem hasValidReferences_step {e : Date × CategoryModeStep} {u u' : Session}
    (h : u.store.HasValidReferences) (hbrings : BringsReferences e u) (hu : step e u = some u') :
    u'.store.HasValidReferences := by
  obtain ⟨now, step⟩ := e
  have hrefers := h.refersTo
  cases step with
  | categoryDrop payload destinationCategoryId beforeTaskId showingDone =>
    obtain ⟨s', hs', rfl⟩ := Option.map_eq_some_iff.mp hu
    exact (hrefers.applyCategoryDrop hbrings hs').hasValidReferences
  | localOperation operation =>
    cases operation with
    | task operation hlocal => exact refersTo_sessionStep hlocal h hbrings hu
    | addNote note =>
      obtain rfl := Option.some_inj.mp hu
      have hadded : { u.store with notes := u.store.notes ++ [note] }.saveNotes.RefersTo
          u.store.categories := hrefers.eq rfl rfl
      exact (hadded.spawnSync _).hasValidReferences
    | deleteNotes offsets =>
      obtain ⟨s', hs', rfl⟩ := Option.map_eq_some_iff.mp hu
      obtain ⟨deletedNotes, -, rfl⟩ := Option.map_eq_some_iff.mp hs'
      have hremoved : ∀ notes, { u.store with notes := notes }.saveNotes.RefersTo
          u.store.categories := fun _ => hrefers.eq rfl rfl
      exact ((hremoved _).foldl (fun s₁ note h₁ => h₁.spawnSync _)
        deletedNotes).hasValidReferences
    | addCategory category =>
      obtain rfl := Option.some_inj.mp hu
      exact h.addCategory category
    | updateCategory id updates =>
      obtain rfl := Option.some_inj.mp hu
      exact h.updateCategory id updates
    | reorderCategories orderedIds =>
      obtain ⟨s', hs', rfl⟩ := Option.map_eq_some_iff.mp hu
      exact h.reorderCategories hs'
    | applyOnboardingPresetCategories presetCategories =>
      obtain rfl := Option.some_inj.mp hu
      exact HasValidReferences.applyOnboardingPresetCategories hbrings
    | setUncategorizedPosition position =>
      obtain rfl := Option.some_inj.mp hu
      exact h
    | setExperimentalFeaturesEnabled enabled =>
      obtain rfl := Option.some_inj.mp hu
      change (u.store.setExperimentalFeaturesEnabled enabled now).HasValidReferences
      unfold LocalStore.setExperimentalFeaturesEnabled
      split_ifs
      · exact h
      · exact h
    | markInsightsHintShown =>
      obtain rfl := Option.some_inj.mp hu
      exact h
    | dismissInsightsHint =>
      obtain rfl := Option.some_inj.mp hu
      exact h
    | recordInsightsInteraction =>
      obtain rfl := Option.some_inj.mp hu
      change (u.store.recordInsightsInteraction now).HasValidReferences
      unfold LocalStore.recordInsightsInteraction
      split_ifs
      · exact h
      · exact h

end CategoryModeStep

/-! ## What the views show -/

namespace LocalStore

variable {s : LocalStore}

/-- Every task that the category mode is given is in one of its groups. -/
def ShowsEveryTask (s : LocalStore) : Prop :=
  ∀ showingDone, ∃ groups,
    TodoCategoryModeView.groups s (TodosView.filteredTasks s showingDone) = some groups ∧
      ∀ task ∈ TodosView.filteredTasks s showingDone, ∃ group ∈ groups, task ∈ group.tasks

/-- Every open top-level task is counted in one of the category rows of Insights. -/
def CountsEveryOpenTask (s : LocalStore) : Prop :=
  ∀ telemetryRecords windowStart now, ∀ task ∈ InsightsAggregator.topLevelTasks s.tasks,
    task.completedAt = none → ∃ stat ∈ InsightsAggregator.buildCategoryStats
      (InsightsAggregator.topLevelTasks s.tasks) s.sortedCategories telemetryRecords windowStart
        now,
        0 < InsightsAggregator.categoryCount task.categories stat.categoryId

/-- Every task is shown in the group of one of its categories, or among those without one. -/
theorem HasValidReferences.showsEveryTask (h : s.HasValidReferences)
    (hd : DistinctKeys Category.id s.categories) : s.ShowsEveryTask := by
  intro showingDone
  obtain ⟨groups, hgroups, hshown⟩ := @TodoCategoryModeView.exists_group s hd
    (TodosView.filteredTasks s showingDone)
  refine ⟨groups, hgroups, fun task htask => hshown task htask ?_⟩
  have hmem := TodosView.mem_of_mem_filteredTasks htask
  cases hids : task.categories with
  | nil => exact Or.inl rfl
  | cons id ids =>
    have hid : id ∈ task.categories := hids ▸ List.mem_cons_self
    exact Or.inr ⟨id, List.mem_cons_self, h task hmem id hid⟩

/-- Every open task counts in one of its categories, or among those without one. -/
theorem HasValidReferences.countsEveryOpenTask (h : s.HasValidReferences) :
    s.CountsEveryOpenTask := by
  intro telemetryRecords windowStart now task htask _
  have hrow : ∀ categoryId ∈ InsightsAggregator.sortedIds s.sortedCategories,
      ∃ stat ∈ InsightsAggregator.buildCategoryStats (InsightsAggregator.topLevelTasks s.tasks)
        s.sortedCategories telemetryRecords windowStart now, stat.categoryId = categoryId :=
    fun categoryId hid => ⟨_, List.mem_map_of_mem hid, rfl⟩
  have hids : ∀ categoryId, categoryId ∈ s.categories.map Category.id ∨
      categoryId = InsightsAggregator.uncategorizedCategoryId →
        categoryId ∈ InsightsAggregator.sortedIds s.sortedCategories := by
    intro categoryId hid
    have hsorted : categoryId ∈ s.sortedCategories.map Category.id ↔
        categoryId ∈ s.categories.map Category.id :=
      ((perm_sortedByCategorySort s.categories).map Category.id).mem_iff
    unfold InsightsAggregator.sortedIds
    rw [List.mem_insertionSort, List.mem_dedup, List.mem_append, List.mem_singleton, hsorted]
    exact hid
  cases hcategories : task.categories with
  | nil =>
    obtain ⟨stat, hstat, hid⟩ := hrow _ (hids _ (Or.inr rfl))
    exact ⟨stat, hstat, InsightsAggregator.categoryCount_pos (Or.inl ⟨rfl, hid⟩)⟩
  | cons id ids =>
    have hmem : task ∈ s.tasks := List.mem_of_mem_filter htask
    have hvalid := h task hmem id (hcategories ▸ List.mem_cons_self)
    obtain ⟨stat, hstat, rfl⟩ := hrow id (hids id (Or.inl hvalid))
    exact ⟨stat, hstat, InsightsAggregator.categoryCount_pos (Or.inr List.mem_cons_self)⟩

end LocalStore

namespace CategoryModeStep

/-- In every run that brings only valid references, they stay valid, and the views show and
count every task. The category mode traps if two categories have the same id. -/
theorem hasValidReferences_run {ls : List (Date × CategoryModeStep)} {u u' : Session}
    (h : u.store.HasValidReferences) (hbrings : Runs.Guarded step BringsReferences ls u)
    (hu : Runs.run step ls u = some u') : u'.store.HasValidReferences ∧
      (DistinctKeys Category.id u'.store.categories → u'.store.ShowsEveryTask) ∧
      u'.store.CountsEveryOpenTask := by
  have hvalid : u'.store.HasValidReferences := Runs.invariant_of_guarded
    (I := fun v : Session => v.store.HasValidReferences)
    (fun e v v' hv hg hs => hasValidReferences_step hv hg hs) h hbrings hu
  exact ⟨hvalid, hvalid.showsEveryTask, hvalid.countsEveryOpenTask⟩

/-- A task in a category. -/
def sampleSession : Session where
  store := {
    tasks := [{ Task.sampleParent with categories := ["work"] }]
    categories := [⟨"work", "Work", "", "", 0⟩] }

/-- The task is deleted and put back. -/
def sampleSteps : List (Date × CategoryModeStep) :=
  [(.seconds 1, .localOperation (.task (.deleteTaskUndoably "parent") rfl)),
    (.seconds 2, .localOperation (.task .undo rfl))]

theorem hasValidReferences_run_sample : ∃ u', Runs.run step sampleSteps sampleSession = some u' ∧
    u'.store.HasValidReferences := by
  have hbrings : Runs.Guarded step BringsReferences sampleSteps sampleSession := by
    refine ⟨trivial, fun v hv => ⟨?_, fun _ _ => trivial⟩⟩
    obtain rfl := Option.some_inj.mp hv
    intro task htask
    obtain rfl := Option.some_inj.mp htask
    decide
  exact ⟨_, rfl, (hasValidReferences_run (by decide) hbrings rfl).1⟩

/-- Between the delete and the undo the category is deleted, or new categories are chosen while
the task is there. -/
def sampleDangling : List (List (Date × CategoryModeStep)) :=
  [[(.seconds 1, .localOperation (.task (.deleteTaskUndoably "parent") rfl)),
    (.seconds 2, .localOperation (.task (.deleteCategory "work" none) rfl)),
    (.seconds 3, .localOperation (.task .undo rfl))],
  [(.seconds 1, .localOperation (.applyOnboardingPresetCategories
    [⟨"home", "Home", "", "", 0⟩]))]]

/-- The task then has a category id that is not in the store. The category mode does not show
it, and Insights does not count it. -/
theorem not_hasValidReferences_run : sampleSession.store.HasValidReferences ∧
    ∀ ls ∈ sampleDangling, ∃ u', Runs.run step ls sampleSession = some u' ∧
      DistinctKeys Category.id u'.store.categories ∧ ¬u'.store.HasValidReferences ∧
      ¬u'.store.ShowsEveryTask ∧ ¬u'.store.CountsEveryOpenTask := by
  refine ⟨by decide, List.forall_mem_cons.mpr ⟨⟨_, rfl, by decide, by decide, ?_, ?_⟩,
    List.forall_mem_singleton.mpr ⟨_, rfl, by decide, by decide, ?_, ?_⟩⟩⟩
  · intro h
    obtain ⟨groups, hgroups, hshown⟩ := h false
    obtain rfl := Option.some_inj.mp hgroups
    exact absurd hshown (by decide)
  · intro h
    exact absurd (h [] (.seconds 0) (.seconds 0)) (by decide)
  · intro h
    obtain ⟨groups, hgroups, hshown⟩ := h false
    obtain rfl := Option.some_inj.mp hgroups
    exact absurd hshown (by decide)
  · intro h
    exact absurd (h [] (.seconds 0) (.seconds 0)) (by decide)

end CategoryModeStep

end Notelayer
