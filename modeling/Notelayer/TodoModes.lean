import Mathlib.Algebra.BigOperators.Ring.List
import Mathlib.Data.Finset.Basic
import Notelayer.CategoryDrops

/-!
# The four modes of the to-do list

Each mode shows the tasks of one of the two filters in cards, which can be collapsed in all modes
but the list. `TodosScreen.rows_cards` : the list, the priority and the date mode list every such
task in one card, and the category mode lists it once for each of its categories that the store
has, or once as uncategorized. So a task all of whose categories are gone is in no card of the
category mode, and only the list mode has rows of subtasks under their parents. The ids of the
categories have to be distinct, since the lookup of categories traps otherwise.
-/

namespace Notelayer

open KeyedList

/-- The modes of the list. -/
inductive TodoViewMode where
  | list
  | priority
  | category
  | date
  deriving DecidableEq

/-- The title of a mode. -/
def TodoViewMode.rawValue : TodoViewMode → String
  | list => "List"
  | priority => "Priority"
  | category => "Category"
  | date => "Date"

/-- The title of a priority. -/
def Priority.label : Priority → String
  | high => "High"
  | medium => "Medium"
  | low => "Low"
  | deferred => "Deferred"

namespace TodoDateBucket

/-- The title of a bucket. -/
def rawValue : TodoDateBucket → String
  | overdue => "Overdue"
  | today => "Today"
  | tomorrow => "Tomorrow"
  | thisWeek => "This Week"
  | later => "Later"
  | noDate => "No Due Date"

/-- The buckets, in the order of the groups. -/
def allCases : List TodoDateBucket :=
  [overdue, today, tomorrow, thisWeek, later, noDate]

end TodoDateBucket

/-! ## Collapsed groups -/

/-- The groups that are collapsed. -/
structure GroupCollapseStore where
  collapsed : Finset String := ∅

namespace GroupCollapseStore

/-- The key of a group within a mode. -/
def key (mode : TodoViewMode) (groupId : String) : String :=
  mode.rawValue ++ "|" ++ groupId

variable (g : GroupCollapseStore)

/-- The group is collapsed in the mode. -/
def isCollapsed (mode : TodoViewMode) (groupId : String) : Bool :=
  key mode groupId ∈ g.collapsed

end GroupCollapseStore

/-! ## The groups of a mode -/

namespace TodoListModeView

/-- The one group of all tasks. -/
def groups (store : LocalStore) (tasks : List Task) : Option (List TodoGroup) :=
  (makeCategoryLookup store.sortedCategories).map fun _ =>
    [{ groupId := "all", title := "All", tasks := sortedByOrderIndexDesc tasks }]

end TodoListModeView

namespace TodoPriorityModeView

/-- The group of a priority. -/
def priorityGroup (tasks : List Task) (priority : Priority) : TodoGroup where
  groupId := "priority:" ++ priority.rawValue
  title := priority.label
  tasks := sortedByOrderIndexDesc (tasks.filter fun task => task.priority = priority)

/-- The groups of the priority mode, where two equal category ids trap. -/
def groups (store : LocalStore) (tasks : List Task) : Option (List TodoGroup) :=
  (makeCategoryLookup store.sortedCategories).map fun _ =>
    Priority.allCases.map (priorityGroup tasks)

end TodoPriorityModeView

namespace TodoDateModeView

/-- The group of a bucket. -/
def dateGroup (tasksByBucket : TodoDateBucket → List Task) (bucket : TodoDateBucket) :
    TodoGroup where
  groupId := "date:" ++ bucket.rawValue
  title := bucket.rawValue
  tasks := sortedByOrderIndexDesc (tasksByBucket bucket)

/-- The groups of the date mode, where two equal category ids trap. -/
def groups (c : TodoCalendar) (store : LocalStore) (tasks : List Task) :
    Option (List TodoGroup) :=
  let tasksByBucket := c.groupTasksByDateBucket tasks
  (makeCategoryLookup store.sortedCategories).map fun _ =>
    TodoDateBucket.allCases.map (dateGroup tasksByBucket)

end TodoDateModeView

/-! ## The cards -/

/-- A card with the rows that it shows. -/
structure TodoGroupCard where
  group : TodoGroup
  isCollapsed : Bool
  rows : List TodoRow

/-- The number on the card. -/
def TodoGroupCard.count (card : TodoGroupCard) : ℕ :=
  card.group.tasks.length

/-- The tasks that it does not show. -/
def TodoGroupCard.hidden (card : TodoGroupCard) : List Task :=
  if card.isCollapsed then card.group.tasks else []

/-- What the cards are drawn from. The rows with subtasks under them are a state of the list. -/
structure TodosScreen where
  calendar : TodoCalendar
  store : LocalStore
  collapse : GroupCollapseStore
  showingDone : Bool
  expandedParentTaskIds : List String

namespace TodosScreen

variable (x : TodosScreen)

/-- The tasks that the modes are given. -/
def tasks : List Task :=
  TodosView.filteredTasks x.store x.showingDone

/-- The groups of a mode. -/
def groups : TodoViewMode → Option (List TodoGroup)
  | .list => TodoListModeView.groups x.store x.tasks
  | .priority => TodoPriorityModeView.groups x.store x.tasks
  | .category => TodoCategoryModeView.groups x.store x.tasks
  | .date => TodoDateModeView.groups x.calendar x.store x.tasks

/-- Only the list mode cannot collapse its card, and shows subtasks. -/
def card (mode : TodoViewMode) (group : TodoGroup) : TodoGroupCard :=
  let canCollapse : Bool := mode ≠ .list
  let hierarchyEnabled : Bool := mode = .list && x.store.experimentalFeaturesEnabled
  let isCollapsed := if canCollapse then x.collapse.isCollapsed mode group.groupId else false
  let rows := if isCollapsed then [] else
    TodoGroupTaskList.rows x.store group.tasks x.showingDone hierarchyEnabled
      x.expandedParentTaskIds
  { group, isCollapsed, rows }

/-- The cards of the mode, from above. It traps if two categories have one id. -/
def cards (mode : TodoViewMode) : Option (List TodoGroupCard) :=
  (x.groups mode).map fun groups => groups.map (x.card mode)

end TodosScreen

/-! ## The groups of a task -/

namespace TodoViewMode

/-- The groups of the mode, from above. -/
def taskGroups (store : LocalStore) : TodoViewMode → List TaskGroup
  | list => [.list]
  | priority => Priority.allCases.map .priority
  | category =>
    let ids := store.sortedCategories.map Category.id
    let uncategorizedIndex := (min (max store.uncategorizedPosition 0) ids.length).toNat
    (ids.take uncategorizedIndex).map .category ++ .uncategorized ::
      (ids.drop uncategorizedIndex).map .category
  | date => TodoDateBucket.allCases.map .date

/-- In how many places the mode lists a task that it is given. -/
def places (store : LocalStore) (task : Task) : TodoViewMode → ℕ
  | category =>
    if task.categories = [] then 1
    else task.categories.countP fun id => id ∈ store.categories.map Category.id
  | _ => 1

theorem sum_ite_eq_count (ids : List String) (a : String) :
    (ids.map fun id => if a = id then 1 else 0).sum = ids.count a := by
  induction ids with
  | nil => rfl
  | cons id ids ih =>
    rw [List.map_cons, List.sum_cons, ih, List.count_cons, add_comm]
    simp only [beq_iff_eq, @eq_comm _ a id]

/-- The elements of a list are counted one value after another. -/
theorem sum_count_of_nodup {ids : List String} (hnodup : ids.Nodup) (l : List String) :
    (ids.map fun id => l.count id).sum = l.countP fun id => id ∈ ids := by
  induction l with
  | nil => simp
  | cons a l ih =>
    have hcons : (ids.map fun id => (a :: l).count id) =
        ids.map fun id => l.count id + if a = id then 1 else 0 := by
      simp only [List.count_cons, beq_iff_eq]
    rw [hcons, List.sum_map_add, ih, sum_ite_eq_count, hnodup.count, List.countP_cons]
    simp only [decide_eq_true_eq]

/-- A task is shown in each of its places. -/
theorem sum_shows_category (c : TodoCalendar) {store : LocalStore}
    (hd : DistinctKeys Category.id store.categories) (task : Task) :
    ((category.taskGroups store).map (TaskGroup.shows c task)).sum =
      category.places store task := by
  have hperm : (store.sortedCategories.map Category.id).Perm (store.categories.map Category.id) :=
    (List.perm_insertionSort _ _).map _
  have hall := sum_count_of_nodup (hperm.nodup_iff.mpr hd) task.categories
  unfold taskGroups places
  dsimp only
  rw [List.map_append, List.map_cons, List.map_map, List.map_map, List.sum_append, List.sum_cons,
    add_left_comm, ← List.sum_append, ← List.map_append, List.take_append_drop]
  change TaskGroup.uncategorized.shows c task +
    ((store.sortedCategories.map Category.id).map fun id => task.categories.count id).sum = _
  rw [hall]
  unfold TaskGroup.shows
  dsimp only
  split_ifs with hempty
  · simp [hempty]
  · simp [hperm.mem_iff]

/-- The groups of a mode show a task in as many places as the mode has for it. -/
theorem sum_shows (c : TodoCalendar) {store : LocalStore}
    (hd : DistinctKeys Category.id store.categories) (task : Task) (mode : TodoViewMode) :
    ((mode.taskGroups store).map (TaskGroup.shows c task)).sum = mode.places store task := by
  cases mode with
  | list => rfl
  | priority =>
    cases hpriority : task.priority <;>
      simp [taskGroups, places, TaskGroup.shows, hpriority, Priority.allCases]
  | category => exact sum_shows_category c hd task
  | date =>
    cases hbucket : c.bucketForDueDate task.dueDate <;>
      simp [taskGroups, places, TaskGroup.shows, hbucket, TodoDateBucket.allCases]

end TodoViewMode

/-! ## The rows of a task -/

theorem count_shownTasks (n : Task → ℕ) (tasks : List Task) (t : Task) :
    (shownTasks n tasks).count t = tasks.count t * n t := by
  induction tasks with
  | nil => simp [shownTasks]
  | cons u tasks ih =>
    unfold shownTasks at ih ⊢
    rw [List.flatMap_cons, List.count_append, ih, List.count_replicate, List.count_cons, add_mul,
      add_comm]
    by_cases heq : u = t <;> simp [heq]

theorem length_shownTasks (n : Task → ℕ) (tasks : List Task) :
    (shownTasks n tasks).length = (tasks.map n).sum := by
  simp [shownTasks, List.length_flatMap]

/-- Rows summed by columns. -/
theorem sum_map_sum_map {A B : Type} (f : A → B → ℕ) (l : List A) (m : List B) :
    (l.map fun a => (m.map (f a)).sum).sum = (m.map fun b => (l.map fun a => f a b).sum).sum := by
  induction l with
  | nil => simp
  | cons a l ih => simp only [List.map_cons, List.sum_cons, ih, List.sum_map_add]

/-- A task has one row of its own for each time it is in a group. -/
theorem TodoGroupTaskList.count_rows (store : LocalStore) (tasks : List Task)
    (showingDone hierarchyEnabled : Bool) (expandedParentTaskIds : List String) (t : Task) :
    (rows store tasks showingDone hierarchyEnabled expandedParentTaskIds).count ⟨t, false⟩ =
      tasks.count t := by
  induction tasks with
  | nil => rfl
  | cons task tasks ih =>
    have hsubtasks : (if hierarchyEnabled ∧ task.id ∈ expandedParentTaskIds then
        (store.subtasks task.id (some showingDone)).map fun subtask => (⟨subtask, true⟩ : TodoRow)
        else []).count ⟨t, false⟩ = 0 := by
      refine List.count_eq_zero_of_not_mem fun hmem => ?_
      split_ifs at hmem
      · simp at hmem
      · cases hmem
    unfold rows at ih ⊢
    rw [List.flatMap_cons, List.count_append, ih, List.count_cons, hsubtasks, List.count_cons,
      zero_add, add_comm]
    simp

/-- Without the hierarchy no row is a subtask's. -/
theorem TodoGroupTaskList.isSubtask_of_mem_rows {store : LocalStore} {tasks : List Task}
    {showingDone : Bool} {expandedParentTaskIds : List String} {row : TodoRow}
    (h : row ∈ rows store tasks showingDone false expandedParentTaskIds) :
    row.isSubtask = false := by
  obtain ⟨task, -, hrow⟩ := List.mem_flatMap.mp h
  rw [if_neg fun hand => absurd hand.1 Bool.false_ne_true] at hrow
  rw [List.mem_singleton.mp hrow]

namespace TodosScreen

variable {x : TodosScreen} {mode : TodoViewMode}

/-- The groups of a mode are sorted groups of tasks. -/
theorem exists_groups (hd : DistinctKeys Category.id x.store.categories) (mode : TodoViewMode) :
    ∃ groups, x.groups mode = some groups ∧
      groups.map TodoGroup.tasks = (mode.taskGroups x.store).map fun group =>
        sortedByOrderIndexDesc (group.tasks x.calendar x.tasks) := by
  have hsorted : DistinctKeys Category.id x.store.sortedCategories :=
    hd.perm (List.perm_insertionSort _ _).symm
  obtain ⟨lookup, hlookup⟩ : ∃ lookup, makeCategoryLookup x.store.sortedCategories = some lookup :=
    ⟨_, if_pos hsorted⟩
  cases mode with
  | list => exact ⟨_, by rw [groups, TodoListModeView.groups, hlookup]; rfl, rfl⟩
  | priority => exact ⟨_, by rw [groups, TodoPriorityModeView.groups, hlookup]; rfl, rfl⟩
  | category =>
    refine ⟨_, by rw [groups, TodoCategoryModeView.groups, hlookup]; rfl, ?_⟩
    unfold TodoViewMode.taskGroups
    dsimp only
    rw [List.length_map, ← List.map_take, ← List.map_drop]
    simp only [List.map_append, List.map_cons, List.map_map]
    rfl
  | date => exact ⟨_, by rw [groups, TodoDateModeView.groups, hlookup]; rfl, rfl⟩

theorem count_card (x : TodosScreen) (mode : TodoViewMode) (group : TodoGroup) (t : Task) :
    (x.card mode group).rows.count ⟨t, false⟩ + (x.card mode group).hidden.count t =
      group.tasks.count t := by
  unfold card TodoGroupCard.hidden
  dsimp only
  split_ifs <;> simp [TodoGroupTaskList.count_rows]

theorem isSubtask_rows_card (hmode : mode ≠ .list) {group : TodoGroup} {row : TodoRow}
    (h : row ∈ (x.card mode group).rows) : row.isSubtask = false := by
  unfold card at h
  dsimp only at h
  rw [decide_eq_false hmode, Bool.false_and] at h
  generalize (if decide (mode ≠ .list) = true then x.collapse.isCollapsed mode group.groupId
    else false) = isCollapsed at h
  split_ifs at h
  · cases h
  · exact TodoGroupTaskList.isSubtask_of_mem_rows h

/-- A task is in the groups as often as it has places. -/
theorem count_groups (hd : DistinctKeys Category.id x.store.categories)
    {groups : List TodoGroup}
    (htasks : groups.map TodoGroup.tasks = (mode.taskGroups x.store).map fun group =>
      sortedByOrderIndexDesc (group.tasks x.calendar x.tasks)) (t : Task) :
    (groups.map fun group => group.tasks.count t).sum =
      x.tasks.count t * mode.places x.store t := by
  have hmap := congrArg (List.map (List.count t)) htasks
  rw [List.map_map, List.map_map] at hmap
  have hcount : ∀ group : TaskGroup,
      (sortedByOrderIndexDesc (group.tasks x.calendar x.tasks)).count t =
        x.tasks.count t * group.shows x.calendar t := by
    intro group
    refine ((List.perm_insertionSort _ _).count_eq t).trans ?_
    rw [TaskGroup.tasks_eq, count_shownTasks]
  calc (groups.map fun group => group.tasks.count t).sum
      = ((mode.taskGroups x.store).map fun group =>
          x.tasks.count t * group.shows x.calendar t).sum := by
        rw [← funext hcount]
        exact congrArg List.sum hmap
    _ = _ := by rw [List.sum_map_mul_left, TodoViewMode.sum_shows x.calendar hd]

/-- The groups hold as many tasks as the tasks have places. -/
theorem sum_count_groups (hd : DistinctKeys Category.id x.store.categories)
    {groups : List TodoGroup}
    (htasks : groups.map TodoGroup.tasks = (mode.taskGroups x.store).map fun group =>
      sortedByOrderIndexDesc (group.tasks x.calendar x.tasks)) :
    (groups.map fun group => group.tasks.length).sum =
      (x.tasks.map fun t => mode.places x.store t).sum := by
  have hmap := congrArg (List.map List.length) htasks
  rw [List.map_map, List.map_map] at hmap
  have hlength : ∀ group : TaskGroup,
      (sortedByOrderIndexDesc (group.tasks x.calendar x.tasks)).length =
        (x.tasks.map (group.shows x.calendar)).sum := by
    intro group
    refine (List.perm_insertionSort _ _).length_eq.trans ?_
    rw [TaskGroup.tasks_eq, length_shownTasks]
  calc (groups.map fun group => group.tasks.length).sum
      = ((mode.taskGroups x.store).map fun group =>
          (x.tasks.map (group.shows x.calendar)).sum).sum := by
        rw [← funext hlength]
        exact congrArg List.sum hmap
    _ = (x.tasks.map fun t =>
          ((mode.taskGroups x.store).map (TaskGroup.shows x.calendar t)).sum).sum :=
        sum_map_sum_map (fun group t => TaskGroup.shows x.calendar t group) _ _
    _ = _ := by simp only [TodoViewMode.sum_shows x.calendar hd]

/-- The rows of a task and its places in collapsed cards are together its places in the mode, and
the numbers on the cards add up to the places of all tasks. Only the list mode shows subtasks under
their parents. -/
theorem rows_cards (hd : DistinctKeys Category.id x.store.categories) (mode : TodoViewMode) :
    ∃ cards, x.cards mode = some cards ∧
      (∀ t, (cards.flatMap TodoGroupCard.rows).count ⟨t, false⟩ +
        (cards.flatMap TodoGroupCard.hidden).count t = x.tasks.count t * mode.places x.store t) ∧
      (cards.map TodoGroupCard.count).sum = (x.tasks.map fun t => mode.places x.store t).sum ∧
      (mode ≠ .list → ∀ card ∈ cards, ∀ row ∈ card.rows, row.isSubtask = false) := by
  obtain ⟨groups, hgroups, htasks⟩ := exists_groups hd mode
  refine ⟨groups.map (x.card mode), by rw [cards, hgroups]; rfl, fun t => ?_, ?_, ?_⟩
  · rw [← count_groups hd htasks, List.count_flatMap, List.count_flatMap, ← List.sum_map_add,
      List.map_map]
    exact congrArg List.sum (List.map_congr_left fun group _ => count_card x mode group t)
  · rw [← sum_count_groups hd htasks, List.map_map]
    rfl
  · intro hmode card hcard row hrow
    obtain ⟨group, -, rfl⟩ := List.mem_map.mp hcard
    exact isSubtask_rows_card hmode hrow

/-- A task all of whose categories are gone. -/
def lostTask : Task :=
  { openTask "lost" 0 with categories := ["gone"] }

/-- A store with it, and a task that has another category as well. -/
def sample : TodosScreen where
  calendar := thursday
  store := { categories := [⟨"work", "Work", "💼", "#FF0000", 0⟩],
             tasks := [{ openTask "kept" 1 with categories := ["work", "gone"] }, lostTask] }
  collapse := {}
  showingDone := false
  expandedParentTaskIds := []

theorem rows_cards_sample : ∃ cards, sample.cards .category = some cards ∧
    (cards.flatMap TodoGroupCard.rows).count ⟨lostTask, false⟩ = 0 ∧
    (cards.map TodoGroupCard.count).sum = 1 := by
  obtain ⟨cards, hcards, hrows, hcount, -⟩ := @rows_cards sample (by decide) .category
  have hplaces : sample.tasks.count lostTask * TodoViewMode.places sample.store lostTask .category =
      0 := by
    decide
  refine ⟨cards, hcards, ?_, hcount.trans (by decide)⟩
  exact (Nat.add_eq_zero_iff.mp ((hrows lostTask).trans hplaces)).1

end TodosScreen

end Notelayer
