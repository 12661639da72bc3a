import Notelayer.Hierarchy

/-!
# The rows of the to-do list

`TodosView.listRows` are the rows of the list mode, for the open tasks or for the completed
ones, with the subtasks of the expanded rows under them. A subtask has a row if it is complete
exactly if its parent is, so every task has one row in the two lists together if and only if
this holds of every subtask (`TodosView.occursOnce_iff`).
-/

namespace Notelayer

open KeyedList

/-! ## The view -/

/-- The tasks with the largest order first. -/
def sortedByOrderIndexDesc (tasks : List Task) : List Task :=
  tasks.insertionSort fun lhs rhs => rhs.orderIndex.getD 0 ≤ lhs.orderIndex.getD 0

/-- The open and the completed tasks. -/
def splitTasksByCompletion (tasks : List Task) : List Task × List Task :=
  tasks.foldl (fun (doing, done) task =>
    if task.completedAt = none then (doing ++ [task], done) else (doing, done ++ [task])) ([], [])

/-- The tasks that have no parent. -/
def LocalStore.topLevelTasks (s : LocalStore) : List Task :=
  s.tasks.filter fun task => task.parentTaskId = none

/-- The experimental features are on. -/
def LocalStore.experimentalFeaturesEnabled (s : LocalStore) : Bool :=
  s.experimentalFeaturesPreference.isEnabled

/-- A row of the list. -/
structure TodoRow where
  task : Task
  isSubtask : Bool
  deriving DecidableEq

/-- The rows of a group, with the subtasks of the expanded rows under them. -/
def TodoGroupTaskList.rows (store : LocalStore) (tasks : List Task)
    (showingDone hierarchyEnabled : Bool) (expandedParentTaskIds : List String) : List TodoRow :=
  tasks.flatMap fun task => ⟨task, false⟩ ::
    if hierarchyEnabled ∧ task.id ∈ expandedParentTaskIds then
      (store.subtasks task.id (some showingDone)).map fun subtask => ⟨subtask, true⟩
    else []

namespace TodosView

/-- The tasks that the modes are given. -/
def filteredTasks (store : LocalStore) (showingDone : Bool) : List Task :=
  let tasks := if store.experimentalFeaturesEnabled then store.topLevelTasks else store.tasks
  let partitioned := splitTasksByCompletion tasks
  if showingDone then partitioned.2 else partitioned.1

/-- The rows of the list mode. -/
def listRows (store : LocalStore) (showingDone : Bool) (expandedParentTaskIds : List String) :
    List TodoRow :=
  TodoGroupTaskList.rows store (sortedByOrderIndexDesc (filteredTasks store showingDone))
    showingDone store.experimentalFeaturesEnabled expandedParentTaskIds

/-- The tasks of the rows of both lists, with every row expanded. -/
def reachable (store : LocalStore) : List Task :=
  (listRows store false (store.tasks.map Task.id) ++
    listRows store true (store.tasks.map Task.id)).map TodoRow.task

end TodosView

/-! ## The category mode -/

/-- `byCategory[categoryId, default: []].append(task)`. -/
def addToCategory (task : Task) (byCategory : String → List Task) (categoryId : String) :
    String → List Task :=
  Function.update byCategory categoryId (byCategory categoryId ++ [task])

/-- The tasks without categories, and the tasks of each category. -/
def groupTasksByCategory (tasks : List Task) : List Task × (String → List Task) :=
  tasks.foldl (fun (uncategorized, byCategory) task =>
    if task.categories.isEmpty then (uncategorized ++ [task], byCategory)
    else (uncategorized, task.categories.foldl (addToCategory task) byCategory)) ([], fun _ => [])

/-- It traps on a repeated id. -/
def makeCategoryLookup (categories : List Category) : Option (String → Option Category) :=
  uniqueKeysWithValues Category.id categories

/-- A group of the list. -/
structure TodoGroup where
  groupId : String
  title : String
  tasks : List Task
  deriving DecidableEq

/-- What a dragged row carries. -/
structure TodoDragPayload where
  taskId : String
  sourceGroupId : String

/-- The id that stands for the end of a group. -/
def endDropTaskId : String :=
  "__end__"

namespace TodoCategoryModeView

/-- The group of a category. -/
def categoryGroup (byCategory : String → List Task) (category : Category) : TodoGroup where
  groupId := "category:" ++ category.id
  title := category.icon ++ " " ++ category.name
  tasks := sortedByOrderIndexDesc (byCategory category.id)

/-- The group of the tasks without a category. -/
def uncategorizedGroup (uncategorized : List Task) : TodoGroup where
  groupId := "category:Uncategorized"
  title := "Uncategorized"
  tasks := sortedByOrderIndexDesc uncategorized

/-- The groups of `body`, over the tasks that the mode is given. -/
def groups (store : LocalStore) (tasks : List Task) : Option (List TodoGroup) :=
  let categories := store.sortedCategories
  let grouped := groupTasksByCategory tasks
  (makeCategoryLookup categories).map fun _ =>
    let uncategorizedIndex := (min (max store.uncategorizedPosition 0) categories.length).toNat
    let beforeCategories := categories.take uncategorizedIndex
    let afterCategories := categories.drop uncategorizedIndex
    beforeCategories.map (categoryGroup grouped.2) ++ uncategorizedGroup grouped.1 ::
      afterCategories.map (categoryGroup grouped.2)

/-- The edit of a drop : out of the group it came from and into the other. -/
def dropUpdate (sourceCategoryId destinationCategoryId : String) : TaskUpdate where
  apply task :=
    let cats := if sourceCategoryId ≠ "Uncategorized" then
      task.categories.filter (· ≠ sourceCategoryId) else task.categories
    let cats := if destinationCategoryId ≠ "Uncategorized" ∧ destinationCategoryId ∉ cats then
      cats ++ [destinationCategoryId] else cats
    { task with categories := cats }
  id_apply _ := rfl

/-- A drop on a group of the category mode : an update, then a reordering. -/
def applyCategoryDrop (store : LocalStore) (payload : TodoDragPayload)
    (destinationCategoryId : String) (beforeTaskId : Option String) (showingDone : Bool)
    (now : Date) : Option LocalStore :=
  let draggedId := payload.taskId
  let store := store.updateTask draggedId
    (dropUpdate payload.sourceGroupId destinationCategoryId) now
  let visible := store.tasks.filter fun task => task.completedAt.isSome = showingDone
  let groupTasks := if destinationCategoryId = "Uncategorized" then
      visible.filter fun task => task.categories.isEmpty
    else visible.filter fun task => destinationCategoryId ∈ task.categories
  let ordered := ((sortedByOrderIndexDesc groupTasks).map Task.id).filter (· ≠ draggedId)
  let ordered :=
    if beforeTaskId = some endDropTaskId then ordered ++ [draggedId]
    else match beforeTaskId.bind (ordered.idxOf? ·) with
      | some index => ordered.insertIdx index draggedId
      | none => draggedId :: ordered
  store.reorderTasks ordered now

end TodoCategoryModeView

/-! ## Where a task is shown -/

/-- The split is a filter and its opposite. -/
theorem splitTasksByCompletion_eq (tasks : List Task) : splitTasksByCompletion tasks =
    (tasks.filter (fun task => task.completedAt = none),
      tasks.filter fun task => task.completedAt ≠ none) := by
  have hloop : ∀ doing done : List Task, tasks.foldl (fun (doing, done) task =>
      if task.completedAt = none then (doing ++ [task], done) else (doing, done ++ [task]))
        (doing, done) = (doing ++ tasks.filter (fun task => task.completedAt = none),
          done ++ tasks.filter fun task => task.completedAt ≠ none) := by
    induction tasks with
    | nil => simp
    | cons task tasks ih =>
      intro doing done
      rw [List.foldl_cons]
      dsimp only
      by_cases h : task.completedAt = none
      · rw [if_pos h, ih]
        simp [h]
      · rw [if_neg h, ih]
        simp [h]
  exact (hloop [] []).trans (by simp)

namespace TodosView

variable {store : LocalStore}

theorem mem_filteredTasks (hx : store.experimentalFeaturesEnabled = true) (showingDone : Bool)
    {task : Task} : task ∈ filteredTasks store showingDone ↔
      task ∈ store.tasks ∧ task.parentTaskId = none ∧ task.completedAt.isSome = showingDone := by
  simp only [filteredTasks, hx, if_true, splitTasksByCompletion_eq, LocalStore.topLevelTasks]
  cases showingDone
  · simpa using fun _ => and_comm
  · simpa [Option.isSome_iff_ne_none] using fun _ => and_comm

theorem mem_of_mem_filteredTasks {showingDone : Bool} {task : Task}
    (h : task ∈ filteredTasks store showingDone) : task ∈ store.tasks := by
  unfold filteredTasks at h
  simp only [splitTasksByCompletion_eq, LocalStore.topLevelTasks] at h
  split_ifs at h
  · exact List.mem_of_mem_filter (List.mem_of_mem_filter h)
  · exact List.mem_of_mem_filter h
  · exact List.mem_of_mem_filter (List.mem_of_mem_filter h)
  · exact List.mem_of_mem_filter h

theorem mem_subtasks {parentId : String} {showingDone : Bool} {task : Task} :
    task ∈ store.subtasks parentId (some showingDone) ↔ task ∈ store.tasks ∧
      task.parentTaskId = some parentId ∧ task.completedAt.isSome = showingDone := by
  simp only [LocalStore.subtasks, List.mem_insertionSort, List.mem_filter, Option.all_some,
    decide_eq_true_eq, @eq_comm _ showingDone]

/-- The tasks of the rows of one list. -/
theorem map_task_listRows (hx : store.experimentalFeaturesEnabled = true) (showingDone : Bool) :
    (listRows store showingDone (store.tasks.map Task.id)).map TodoRow.task =
      (sortedByOrderIndexDesc (filteredTasks store showingDone)).flatMap fun task =>
        task :: store.subtasks task.id (some showingDone) := by
  unfold listRows TodoGroupTaskList.rows
  rw [List.map_flatMap]
  refine List.flatMap_congr fun task htask => ?_
  have hmem := ((mem_filteredTasks hx showingDone).mp ((List.mem_insertionSort _).mp htask)).1
  rw [if_pos ⟨hx, List.mem_map_of_mem hmem⟩, List.map_cons, List.map_map]
  exact congrArg _ (List.map_id _)

/-! ## Every task exactly once -/

/-- A task is shown in one of the lists if it is top-level or complete exactly if its parent
is. -/
theorem mem_reachable (hx : store.experimentalFeaturesEnabled = true) {task : Task} :
    task ∈ reachable store ↔ task ∈ store.tasks ∧ (task.parentTaskId = none ∨
      ∃ parent ∈ store.tasks, parent.parentTaskId = none ∧ task.parentTaskId = some parent.id ∧
        task.completedAt.isSome = parent.completedAt.isSome) := by
  have hlist : ∀ showingDone, task ∈ (sortedByOrderIndexDesc
      (filteredTasks store showingDone)).flatMap (fun parent =>
        parent :: store.subtasks parent.id (some showingDone)) ↔
      task ∈ store.tasks ∧ task.completedAt.isSome = showingDone ∧ (task.parentTaskId = none ∨
        ∃ parent ∈ store.tasks, parent.parentTaskId = none ∧
          task.parentTaskId = some parent.id ∧ parent.completedAt.isSome = showingDone) := by
    intro showingDone
    simp only [List.mem_flatMap, List.mem_cons, mem_subtasks, sortedByOrderIndexDesc,
      List.mem_insertionSort, mem_filteredTasks hx]
    constructor
    · rintro ⟨parent, ⟨hparent, hroot, hdone⟩, rfl | ⟨htask, hlink, hdone'⟩⟩
      · exact ⟨hparent, hdone, Or.inl hroot⟩
      · exact ⟨htask, hdone', Or.inr ⟨parent, hparent, hroot, hlink, hdone⟩⟩
    · rintro ⟨htask, hdone, hroot | ⟨parent, hparent, hroot, hlink, hdone'⟩⟩
      · exact ⟨task, ⟨htask, hroot, hdone⟩, Or.inl rfl⟩
      · exact ⟨parent, ⟨hparent, hroot, hdone'⟩, Or.inr ⟨htask, hlink, hdone⟩⟩
  rw [reachable, List.map_append, map_task_listRows hx, map_task_listRows hx, List.mem_append,
    hlist, hlist]
  constructor
  · rintro (⟨htask, hdone, h⟩ | ⟨htask, hdone, h⟩)
    · exact ⟨htask, h.imp_right fun ⟨parent, hparent, hroot, hlink, hdone'⟩ =>
        ⟨parent, hparent, hroot, hlink, hdone.trans hdone'.symm⟩⟩
    · exact ⟨htask, h.imp_right fun ⟨parent, hparent, hroot, hlink, hdone'⟩ =>
        ⟨parent, hparent, hroot, hlink, hdone.trans hdone'.symm⟩⟩
  · rintro ⟨htask, h⟩
    have hshown : task ∈ store.tasks ∧ task.completedAt.isSome = task.completedAt.isSome ∧
        (task.parentTaskId = none ∨ ∃ parent ∈ store.tasks, parent.parentTaskId = none ∧
          task.parentTaskId = some parent.id ∧
            parent.completedAt.isSome = task.completedAt.isSome) :=
      ⟨htask, rfl, h.imp_right fun ⟨parent, hparent, hroot, hlink, hdone⟩ =>
        ⟨parent, hparent, hroot, hlink, hdone.symm⟩⟩
    cases hdone : task.completedAt.isSome
    · exact Or.inl (hdone ▸ hshown)
    · exact Or.inr (hdone ▸ hshown)

/-- No task is shown twice. -/
theorem nodup_reachable (hd : DistinctIds store.tasks)
    (hx : store.experimentalFeaturesEnabled = true) : (reachable store).Nodup := by
  have htasks : store.tasks.Nodup := List.Nodup.of_map _ hd
  have hdone : ∀ {showingDone task}, task ∈ (listRows store showingDone
      (store.tasks.map Task.id)).map TodoRow.task → task.completedAt.isSome = showingDone := by
    intro showingDone task htask
    rw [map_task_listRows hx] at htask
    obtain ⟨parent, hparent, htask⟩ := List.mem_flatMap.mp htask
    rcases List.mem_cons.mp htask with rfl | htask
    · exact ((mem_filteredTasks hx showingDone).mp ((List.mem_insertionSort _).mp hparent)).2.2
    · exact (mem_subtasks.mp htask).2.2
  have hnodup : ∀ showingDone, ((listRows store showingDone
      (store.tasks.map Task.id)).map TodoRow.task).Nodup := by
    intro showingDone
    rw [map_task_listRows hx, List.nodup_flatMap]
    have hfiltered : (sortedByOrderIndexDesc (filteredTasks store showingDone)).Nodup := by
      refine (List.perm_insertionSort _ _).nodup_iff.mpr ?_
      simp only [filteredTasks, hx, if_true, splitTasksByCompletion_eq, LocalStore.topLevelTasks]
      split_ifs
      · exact (htasks.filter _).filter _
      · exact (htasks.filter _).filter _
    have hroot : ∀ parent ∈ sortedByOrderIndexDesc (filteredTasks store showingDone),
        parent ∈ store.tasks ∧ parent.parentTaskId = none := by
      intro parent hparent
      obtain ⟨hmem, hroot, -⟩ :=
        (mem_filteredTasks hx showingDone).mp ((List.mem_insertionSort _).mp hparent)
      exact ⟨hmem, hroot⟩
    refine ⟨fun parent hparent => ?_, hfiltered.imp_of_mem fun {p q} hp hq hne => ?_⟩
    · refine List.nodup_cons.mpr ⟨fun hself => ?_, ?_⟩
      · exact absurd ((hroot parent hparent).2.symm.trans (mem_subtasks.mp hself).2.1) nofun
      · exact (List.perm_insertionSort _ _).nodup_iff.mpr (htasks.filter _)
    · -- a row of both would be a subtask of two parents, or a parent and a subtask
      refine List.disjoint_left.mpr fun task htask htask' => ?_
      rcases List.mem_cons.mp htask with rfl | htask
      · rcases List.mem_cons.mp htask' with rfl | htask'
        · exact hne rfl
        · exact absurd ((hroot task hp).2.symm.trans (mem_subtasks.mp htask').2.1) nofun
      · rcases List.mem_cons.mp htask' with rfl | htask'
        · exact absurd ((hroot task hq).2.symm.trans (mem_subtasks.mp htask).2.1) nofun
        · have hid : p.id = q.id := Option.some_inj.mp
            ((mem_subtasks.mp htask).2.1.symm.trans (mem_subtasks.mp htask').2.1)
          exact hne (List.inj_on_of_nodup_map hd (hroot p hp).1 (hroot q hq).1 hid)
  rw [reachable, List.map_append]
  refine List.Nodup.append (hnodup false) (hnodup true) (List.disjoint_left.mpr fun task h h' => ?_)
  exact absurd ((hdone h).symm.trans (hdone h')) Bool.false_ne_true

/-- Every task is shown exactly once if and only if every subtask is complete exactly if its
parent is. -/
theorem occursOnce_iff (h : HierarchyOk store.tasks)
    (hx : store.experimentalFeaturesEnabled = true) :
    (∀ task ∈ store.tasks, (reachable store).count task = 1) ↔
      ∀ task ∈ store.tasks, ∀ parent ∈ store.tasks, task.parentTaskId = some parent.id →
        task.completedAt.isSome = parent.completedAt.isSome := by
  have hnodup := nodup_reachable h.1 hx
  have honce : ∀ task, (reachable store).count task = 1 ↔ task ∈ reachable store := by
    intro task
    refine ⟨fun hcount => List.count_pos_iff.mp (hcount ▸ Nat.one_pos), fun hmem => ?_⟩
    exact List.count_eq_one_of_mem hnodup hmem
  refine forall₂_congr fun task htask => ?_
  rw [honce, mem_reachable hx, and_iff_right htask]
  constructor
  · rintro (hroot | ⟨parent, hparent, -, hlink, hdone⟩) parent' hparent' hlink'
    · exact absurd (hroot.symm.trans hlink') nofun
    · have hid : parent.id = parent'.id := Option.some_inj.mp (hlink.symm.trans hlink')
      rw [hdone, List.inj_on_of_nodup_map h.1 hparent hparent' hid]
  · intro hdone
    cases hlink : task.parentTaskId with
    | none => exact Or.inl rfl
    | some p =>
      obtain ⟨parent, hparent, rfl, -, hroot⟩ := h.2 task htask p hlink
      exact Or.inr ⟨parent, hparent, hroot, rfl, hdone parent hparent hlink⟩

/-- A parent and its subtask. -/
def sample (parentCompletedAt subtaskCompletedAt : Option Date) : LocalStore where
  tasks := [{ Task.sampleParent with completedAt := parentCompletedAt },
    { Task.sampleSubtask with completedAt := subtaskCompletedAt }]
  experimentalFeaturesPreference := ⟨true, .seconds 0, .on⟩

theorem hierarchyOk_tasks_sample (parentCompletedAt subtaskCompletedAt : Option Date) :
    HierarchyOk (sample parentCompletedAt subtaskCompletedAt).tasks := by
  simp [HierarchyOk, sample, Task.sampleParent, Task.sampleSubtask]

theorem occursOnce_iff_sample : HierarchyOk (sample none none).tasks ∧
    ∀ task ∈ (sample none none).tasks, (reachable (sample none none)).count task = 1 :=
  ⟨hierarchyOk_tasks_sample none none,
    (occursOnce_iff (hierarchyOk_tasks_sample none none) rfl).mpr (by decide)⟩

/-- A completed subtask of an open parent is not shown, and neither is an open subtask of a
completed parent. -/
theorem not_occursOnce :
    (HierarchyOk (sample none (some (.seconds 1))).tasks ∧
      ¬∀ task ∈ (sample none (some (.seconds 1))).tasks,
        (reachable (sample none (some (.seconds 1)))).count task = 1) ∧
    (HierarchyOk (sample (some (.seconds 1)) none).tasks ∧
      ¬∀ task ∈ (sample (some (.seconds 1)) none).tasks,
        (reachable (sample (some (.seconds 1)) none)).count task = 1) :=
  ⟨⟨hierarchyOk_tasks_sample _ _, by decide⟩, ⟨hierarchyOk_tasks_sample _ _, by decide⟩⟩

end TodosView

/-! ## The groups of a task -/

/-- A category shows a task once for each time that the task lists it. -/
theorem groupTasksByCategory_eq_flatMap (tasks : List Task) :
    (groupTasksByCategory tasks).1 =
        tasks.flatMap (fun t => List.replicate (if t.categories = [] then 1 else 0) t) ∧
      ∀ id, (groupTasksByCategory tasks).2 id =
        tasks.flatMap fun t => List.replicate (t.categories.count id) t := by
  have hadd : ∀ (task : Task) (ids : List String) (byCategory : String → List Task) (id : String),
      ids.foldl (addToCategory task) byCategory id =
        byCategory id ++ List.replicate (ids.count id) task := by
    intro task ids
    induction ids with
    | nil => simp
    | cons first ids ih =>
      intro byCategory id
      rw [List.foldl_cons, ih, addToCategory]
      by_cases heq : id = first
      · subst heq
        rw [Function.update_self, List.count_cons_self, List.replicate_succ, List.append_assoc,
          List.singleton_append]
      · rw [Function.update_of_ne heq, List.count_cons_of_ne (Ne.symm heq)]
  have hloop : ∀ (uncategorized : List Task) (byCategory : String → List Task),
      let p := tasks.foldl (fun (p : List Task × (String → List Task)) task =>
        if task.categories.isEmpty then (p.1 ++ [task], p.2)
        else (p.1, task.categories.foldl (addToCategory task) p.2)) (uncategorized, byCategory)
      p.1 = uncategorized ++
          tasks.flatMap (fun t => List.replicate (if t.categories = [] then 1 else 0) t) ∧
        ∀ id, p.2 id =
          byCategory id ++ tasks.flatMap fun t => List.replicate (t.categories.count id) t := by
    induction tasks with
    | nil => simp
    | cons task tasks ih =>
      intro uncategorized byCategory
      dsimp only [List.foldl_cons]
      by_cases hempty : task.categories = []
      · rw [if_pos (List.isEmpty_iff.mpr hempty)]
        obtain ⟨hnone, hsome⟩ := ih (uncategorized ++ [task]) byCategory
        refine ⟨hnone.trans ?_, fun id => (hsome id).trans ?_⟩
        · simp [hempty]
        · simp [hempty]
      · rw [if_neg fun h => hempty (List.isEmpty_iff.mp h)]
        obtain ⟨hnone, hsome⟩ := ih uncategorized (task.categories.foldl (addToCategory task)
          byCategory)
        refine ⟨hnone.trans ?_, fun id => (hsome id).trans ?_⟩
        · simp [hempty]
        · rw [hadd, List.append_assoc, List.flatMap_cons]
  obtain ⟨hnone, hsome⟩ := hloop [] fun _ => []
  exact ⟨hnone.trans (List.nil_append _), fun id => (hsome id).trans (List.nil_append _)⟩

/-- A task is listed under each of its categories, or as uncategorized. -/
theorem mem_groupTasksByCategory {tasks : List Task} {t : Task} :
    (t ∈ (groupTasksByCategory tasks).1 ↔ t ∈ tasks ∧ t.categories = []) ∧
      ∀ id, t ∈ (groupTasksByCategory tasks).2 id ↔ t ∈ tasks ∧ id ∈ t.categories := by
  obtain ⟨hnone, hsome⟩ := groupTasksByCategory_eq_flatMap tasks
  rw [hnone]
  refine ⟨?_, fun id => ?_⟩
  · rw [List.mem_flatMap]
    constructor
    · rintro ⟨u, hu, ht⟩
      split_ifs at ht with hempty
      · obtain rfl := List.mem_singleton.mp ht
        exact ⟨hu, hempty⟩
      · cases ht
    · rintro ⟨ht, hempty⟩
      exact ⟨t, ht, by simp [hempty]⟩
  · rw [hsome id]
    simp only [List.mem_flatMap, List.mem_replicate]
    constructor
    · rintro ⟨u, hu, hcount, rfl⟩
      exact ⟨hu, List.count_pos_iff.mp (Nat.pos_of_ne_zero hcount)⟩
    · rintro ⟨ht, hid⟩
      exact ⟨t, ht, (List.count_pos_iff.mpr hid).ne', rfl⟩

namespace TodoCategoryModeView

/-- The mode shows every task that is uncategorized or in a category of the store. -/
theorem exists_group {store : LocalStore} (hd : DistinctKeys Category.id store.categories)
    {tasks : List Task} : ∃ gs, groups store tasks = some gs ∧ ∀ task ∈ tasks,
      (task.categories = [] ∨ ∃ id ∈ task.categories, id ∈ store.categories.map Category.id) →
        ∃ group ∈ gs, task ∈ group.tasks := by
  have hsorted : DistinctKeys Category.id store.sortedCategories :=
    hd.perm (List.perm_insertionSort _ _).symm
  unfold groups makeCategoryLookup uniqueKeysWithValues
  dsimp only
  rw [if_pos hsorted]
  refine ⟨_, rfl, fun task htask h => ?_⟩
  rcases h with hempty | ⟨id, hid, hcategory⟩
  · refine ⟨uncategorizedGroup (groupTasksByCategory tasks).1,
      List.mem_append_right _ List.mem_cons_self, (List.mem_insertionSort _).mpr ?_⟩
    exact mem_groupTasksByCategory.1.mpr ⟨htask, hempty⟩
  · obtain ⟨category, hmem, rfl⟩ := List.mem_map.mp hcategory
    refine ⟨categoryGroup (groupTasksByCategory tasks).2 category, ?_,
      (List.mem_insertionSort _).mpr ((mem_groupTasksByCategory.2 _).mpr ⟨htask, hid⟩)⟩
    have hsplit := List.take_append_drop
      (min (max store.uncategorizedPosition 0) store.sortedCategories.length).toNat
        store.sortedCategories
    have hsorted' : category ∈ store.sortedCategories := (List.mem_insertionSort _).mpr hmem
    rw [← hsplit] at hsorted'
    rcases List.mem_append.mp hsorted' with hbefore | hafter
    · exact List.mem_append_left _ (List.mem_map_of_mem hbefore)
    · exact List.mem_append_right _ (List.mem_cons_of_mem _ (List.mem_map_of_mem hafter))

end TodoCategoryModeView

end Notelayer
