import Mathlib.Data.List.TakeWhile
import Notelayer.Library.Copies
import Notelayer.LocalOperations
import Notelayer.Reordering
import Notelayer.TodosView
import Notelayer.UneditedSave

/-!
# Dropping tasks and groups

A task is dropped on a row of a group, on the zone under its rows, or on its card. Each mode edits
the task, lists the tasks of the group without it, puts it back and reorders. The group then shows
the task before the row, at the end or at the front exactly if the edit puts it into the group once
and the row is not its own, unless it stands first there already (`drop_lawful_iff`).
-/

namespace Notelayer

open KeyedList MarkedList Sorting

/-! ## The date mode -/

/-- The groups of the date mode. -/
inductive TodoDateBucket where
  | overdue
  | today
  | tomorrow
  | thisWeek
  | later
  | noDate
  deriving DecidableEq

/-- The current instant, and what `Calendar.current` says of dates then. -/
structure TodoCalendar where
  now : Date
  /-- `date(byAdding: .day, value:, to:)`. -/
  dateByAddingDays : ℤ → Date → Option Date
  isDateInToday : Date → Bool
  isDateInTomorrow : Date → Bool
  /-- `isDate(_:equalTo: now, toGranularity: .weekOfYear)`. -/
  isInWeekOfNow : Date → Bool

namespace TodoCalendar

variable (c : TodoCalendar)

/-- The due date that a drop on a bucket sets. -/
def dueDateForBucket : TodoDateBucket → Option Date
  | .overdue => some ((c.dateByAddingDays (-1) c.now).getD c.now)
  | .today => some c.now
  | .tomorrow => some ((c.dateByAddingDays 1 c.now).getD c.now)
  | .thisWeek => some ((c.dateByAddingDays 3 c.now).getD c.now)
  | .later => some ((c.dateByAddingDays 14 c.now).getD c.now)
  | .noDate => none

/-- The bucket that shows a due date. -/
def bucketForDueDate : Option Date → TodoDateBucket
  | none => .noDate
  | some dueDate =>
    if c.isDateInToday dueDate then .today
    else if c.isDateInTomorrow dueDate then .tomorrow
    else if dueDate < c.now then .overdue
    else if c.isInWeekOfNow dueDate then .thisWeek
    else .later

/-- The tasks of each bucket, in the order of the list. -/
def groupTasksByDateBucket (tasks : List Task) : TodoDateBucket → List Task :=
  tasks.foldl (fun grouped task =>
    let bucket := c.bucketForDueDate task.dueDate
    Function.update grouped bucket (grouped bucket ++ [task])) fun _ => []

end TodoCalendar

/-! ## Drops -/

/-- What a task or a group is dropped on : a row, the zone at the end, or the card. -/
inductive DropTarget where
  | item (id : String)
  | endZone
  | container
  deriving DecidableEq

/-- The `beforeTaskId` of a drop. -/
def DropTarget.beforeTaskId : DropTarget → Option String
  | item id => some id
  | endZone => some endDropTaskId
  | container => none

/-- The dragged id is put back into the others. Every mode does it so. -/
def putBack (ordered : List String) (draggedId : String) (beforeTaskId : Option String) :
    List String :=
  if beforeTaskId = some endDropTaskId then ordered ++ [draggedId]
  else match beforeTaskId.bind (ordered.idxOf? ·) with
    | some index => ordered.insertIdx index draggedId
    | none => draggedId :: ordered

/-- The order that a drop requests. -/
def droppedOrder (groupTasks : List Task) (draggedId : String) (beforeTaskId : Option String) :
    List String :=
  putBack (((sortedByOrderIndexDesc groupTasks).map Task.id).filter (· ≠ draggedId)) draggedId
    beforeTaskId

/-- The open or the completed tasks of the store. -/
def LocalStore.visible (s : LocalStore) (showingDone : Bool) : List Task :=
  s.tasks.filter fun task => task.completedAt.isSome = showingDone

/-- A drop within the group of the list mode. -/
def TodoListModeView.reorderWithinSameGroup (store : LocalStore) (tasks : List Task)
    (draggedId : String) (beforeTaskId : Option String) (now : Date) : Option LocalStore :=
  store.reorderTasks (droppedOrder tasks draggedId beforeTaskId) now

namespace TodoPriorityModeView

/-- Sets the priority. -/
def dropUpdate (destination : Priority) : TaskUpdate where
  apply task := { task with priority := destination }
  id_apply _ := rfl

/-- A drop on a group of the priority mode : an update, then a reordering. -/
def applyPriorityDrop (store : LocalStore) (payload : TodoDragPayload) (destination : Priority)
    (beforeTaskId : Option String) (showingDone : Bool) (now : Date) : Option LocalStore :=
  let store := store.updateTask payload.taskId (dropUpdate destination) now
  let groupTasks := (store.visible showingDone).filter fun task => task.priority = destination
  store.reorderTasks (droppedOrder groupTasks payload.taskId beforeTaskId) now

end TodoPriorityModeView

namespace TodoDateModeView

/-- Sets the due date. -/
def dropUpdate (newDueDate : Option Date) : TaskUpdate where
  apply task := { task with dueDate := newDueDate }
  id_apply _ := rfl

/-- A drop on a group of the date mode : an update, then a reordering. -/
def applyDateDrop (c : TodoCalendar) (store : LocalStore) (payload : TodoDragPayload)
    (destinationBucket : TodoDateBucket) (beforeTaskId : Option String) (showingDone : Bool) :
    Option LocalStore :=
  let newDueDate := c.dueDateForBucket destinationBucket
  let store := store.updateTask payload.taskId (dropUpdate newDueDate) c.now
  let groupTasks := (store.visible showingDone).filter fun task =>
    c.bucketForDueDate task.dueDate = destinationBucket
  store.reorderTasks (droppedOrder groupTasks payload.taskId beforeTaskId) c.now

end TodoDateModeView

/-! ### The groups -/

/-- A group of one of the modes. -/
inductive TaskGroup where
  | list
  | priority (p : Priority)
  | category (id : String)
  | uncategorized
  | date (bucket : TodoDateBucket)
  deriving DecidableEq

namespace TaskGroup

/-- The tasks of the group, of those that the modes are given. -/
def tasks (c : TodoCalendar) (tasks : List Task) : TaskGroup → List Task
  | list => tasks
  | priority p => tasks.filter fun task => task.priority = p
  | category id => (groupTasksByCategory tasks).2 id
  | uncategorized => (groupTasksByCategory tasks).1
  | date bucket => c.groupTasksByDateBucket tasks bucket

/-- The displayed sequence of the group. -/
def display (group : TaskGroup) (c : TodoCalendar) (store : LocalStore) (showingDone : Bool) :
    List String :=
  (sortedByOrderIndexDesc (group.tasks c (TodosView.filteredTasks store showingDone))).map Task.id

/-- The edit that a drop on the group makes. -/
def dropUpdate (c : TodoCalendar) (sourceGroupId : String) : TaskGroup → TaskUpdate
  | list => ⟨id, fun _ => rfl⟩
  | priority p => TodoPriorityModeView.dropUpdate p
  | category id => TodoCategoryModeView.dropUpdate sourceGroupId id
  | uncategorized => TodoCategoryModeView.dropUpdate sourceGroupId "Uncategorized"
  | date bucket => TodoDateModeView.dropUpdate (c.dueDateForBucket bucket)

/-- A drop on the group, by the handler of its mode. -/
def drop (c : TodoCalendar) (store : LocalStore) (payload : TodoDragPayload)
    (target : DropTarget) (showingDone : Bool) : TaskGroup → Option LocalStore
  | list => TodoListModeView.reorderWithinSameGroup store
      (TodosView.filteredTasks store showingDone) payload.taskId target.beforeTaskId c.now
  | priority p => TodoPriorityModeView.applyPriorityDrop store payload p
      target.beforeTaskId showingDone c.now
  | category id => TodoCategoryModeView.applyCategoryDrop store payload id target.beforeTaskId
      showingDone c.now
  | uncategorized => TodoCategoryModeView.applyCategoryDrop store payload "Uncategorized"
      target.beforeTaskId showingDone c.now
  | date bucket => TodoDateModeView.applyDateDrop c store payload bucket target.beforeTaskId
      showingDone

/-- How often the group shows a task. -/
def shows (c : TodoCalendar) (task : Task) : TaskGroup → ℕ
  | list => 1
  | priority p => if task.priority = p then 1 else 0
  | category id => task.categories.count id
  | uncategorized => if task.categories = [] then 1 else 0
  | date bucket => if c.bucketForDueDate task.dueDate = bucket then 1 else 0

end TaskGroup

/-! ## The law -/

/-- The dragged item is put before the item that it is dropped on, at the end, or at the front, and
stays where it is if it is dropped on itself. -/
def DropLaw (before : List String) (d : String) (after : List String) : DropTarget → Prop
  | .item t => if t = d then after = before else after = moveBefore d (some t) before
  | .endZone => after = moveBefore d none before
  | .container => after = d :: before.filter (· ≠ d)

/-- The group shows the dragged task `n` times after the edit. It is to show it once, and a task
that is dropped on itself is to stand first there already. A row with the id of the end zone is
taken for the end zone. -/
def DropIsPlain (before : List String) (d : String) (n : ℕ) : DropTarget → Prop
  | .item t =>
    if t = d then n = before.count d ∧
      (if d = endDropTaskId then before.getLast? else before.head?) = some d
    else n = 1 ∧ t ≠ endDropTaskId
  | .endZone => n = 1
  | .container => n = 1

/-! ### Putting back -/

theorem putBack_endDropTaskId (ordered : List String) (d : String) :
    putBack ordered d (some endDropTaskId) = ordered ++ [d] :=
  if_pos rfl

theorem putBack_of_mem {ordered : List String} {t : String} (ht : t ∈ ordered)
    (hend : t ≠ endDropTaskId) (d : String) : putBack ordered d (some t) =
      ordered.takeWhile (· ≠ t) ++ d :: ordered.dropWhile (· ≠ t) := by
  unfold putBack
  rw [if_neg fun h => hend (Option.some_inj.mp h), Option.bind_some, idxOf?_of_mem ht]
  exact insertIdx_idxOf_eq d t ordered

theorem putBack_of_notMem {ordered : List String} {beforeTaskId : Option String}
    (h : ∀ t ∈ beforeTaskId, t ∉ ordered) (hend : beforeTaskId ≠ some endDropTaskId)
    (d : String) : putBack ordered d beforeTaskId = d :: ordered := by
  unfold putBack
  rw [if_neg hend]
  cases beforeTaskId with
  | none => rfl
  | some t => rw [Option.bind_some, List.idxOf?_eq_none_iff.mpr (h t rfl)]

/-- The dragged task is put back once. -/
theorem perm_putBack (ordered : List String) (d : String) (beforeTaskId : Option String) :
    (putBack ordered d beforeTaskId).Perm (d :: ordered) := by
  by_cases hend : beforeTaskId = some endDropTaskId
  · rw [hend, putBack_endDropTaskId]
    exact List.perm_append_singleton d ordered
  by_cases hmem : ∃ t ∈ beforeTaskId, t ∈ ordered
  · obtain ⟨t, rfl, ht⟩ := hmem
    rw [putBack_of_mem ht fun h => hend (congrArg some h)]
    refine List.perm_middle.trans ?_
    rw [List.takeWhile_append_dropWhile]
  · rw [putBack_of_notMem (fun t ht ht' => hmem ⟨t, ht, ht'⟩) hend]

/-- A drop edits the dragged task and gives it a key, and it does not trap. -/
theorem LocalStore.exists_droppedTask {s : LocalStore} (hd : DistinctIds s.tasks) {t : Task}
    (ht : t ∈ s.tasks) (updates : TaskUpdate) (now : Date) {groupTasks : List Task}
    (hgroup : groupTasks.Sublist (s.updateTask t.id updates now).tasks)
    (beforeTaskId : Option String) :
    ∃ s' key, (s.updateTask t.id updates now).reorderTasks
        (droppedOrder groupTasks t.id beforeTaskId) now = some s' ∧
      ∀ u, u ∈ s'.tasks ∧ u.id = t.id ↔ u = (updates.applied t now).reordered key now := by
  have htasks := tasks_updateTask_eq hd ht updates now
  have hd₁ : DistinctIds (s.updateTask t.id updates now).tasks := by
    rw [htasks]
    exact distinctIds_congr (ids_map_replacedBy _ _) hd
  have hedited : updates.applied t now ∈ (s.updateTask t.id updates now).tasks := by
    have hid : t.id ∈ s.tasks.map Task.id := List.mem_map_of_mem ht
    rw [htasks]
    refine (mem_map_replacedBy ?_).mpr (Or.inl rfl)
    rwa [updates.applied_id]
  have hn : (droppedOrder groupTasks t.id beforeTaskId).Nodup := by
    refine (perm_putBack _ _ _).symm.nodup (List.nodup_cons.mpr ⟨by simp, List.Nodup.filter _ ?_⟩)
    exact ((List.perm_insertionSort _ _).map _).symm.nodup (hd₁.sublist hgroup)
  have hid : (updates.applied t now).id ∈ droppedOrder groupTasks t.id beforeTaskId := by
    rw [updates.applied_id]
    exact (perm_putBack _ _ _).symm.subset List.mem_cons_self
  obtain ⟨s', hs', hids, -⟩ := exists_reorderTasks hd₁ hn now
  obtain ⟨key, hkey⟩ := exists_mem_rekeyedTasks hd₁ hedited hid now
  have hmem : (updates.applied t now).reordered key now ∈ s'.tasks := by
    rw [tasks_reorderTasks hs']
    exact List.mem_append_left _ hkey
  refine ⟨s', key, hs', fun u => ⟨fun ⟨hu, hid⟩ => ?_, ?_⟩⟩
  · exact List.inj_on_of_nodup_map (hids.symm.nodup hd₁) hu hmem
      (hid.trans (updates.applied_id t now).symm)
  · rintro rfl
    exact ⟨hmem, updates.applied_id t now⟩

/-- A row before which the dragged item goes is not the end. -/
theorem ne_append_of_mem {d t : String} {n : ℕ} {rest : List String} (ht : t ∈ rest)
    (hd : d ∉ rest) : rest ++ List.replicate n d ≠
      rest.takeWhile (· ≠ t) ++ d :: rest.dropWhile (· ≠ t) := by
  intro h
  have hsplit := List.takeWhile_append_dropWhile (p := (· ≠ t)) (l := rest)
  have hlength := congrArg List.length h
  have hsum := congrArg List.length hsplit
  simp only [List.length_append, List.length_replicate, List.length_cons] at hlength hsum
  obtain rfl : n = 1 := by omega
  obtain ⟨a, hlast⟩ : ∃ a, (rest.dropWhile (· ≠ t)).getLast? = some a := by
    refine Option.ne_none_iff_exists'.mp fun hnil => ?_
    rw [List.getLast?_eq_none_iff.mp hnil, List.append_nil] at hsplit
    exact absurd (List.takeWhile_eq_self_iff.mp hsplit t ht) (by simp)
  have hmem : a ∈ rest := (List.dropWhile_sublist _).subset (List.mem_of_getLast? hlast)
  have heq := congrArg List.getLast? h
  rw [List.replicate_one, List.getLast?_concat, List.getLast?_append, List.getLast?_cons,
    hlast] at heq
  exact hd (Option.some_inj.mp heq ▸ hmem)

/-- A drop that puts the dragged item back into the others acts as the law says exactly if it is
plain. -/
theorem dropLaw_iff {before after ordered l l' : List String} {d : String} {m m' : String → ℕ}
    {k : ℕ} {target : DropTarget} (hbefore : before = l ++ (List.replicate k d ++ l'))
    (hl : d ∉ l) (hl' : d ∉ l') (hrest : before.filter (· ≠ d) = copies m ordered)
    (hd : d ∉ ordered) (hm : ∀ x ≠ d, m' x = m x)
    (htarget : ∀ t, target = .item t → t ∈ before)
    (hafter : after = copies m' (putBack ordered d target.beforeTaskId)) :
    DropLaw before d after target ↔ DropIsPlain before d (m' d) target := by
  have hne : ∀ {l : List String}, d ∉ l → l.filter (· ≠ d) = l := fun hl =>
    List.filter_eq_self.mpr fun x hx => decide_eq_true fun heq => hl (heq ▸ hx)
  have hsplit : copies m ordered = l ++ l' := by
    rw [← hrest, hbefore, List.filter_append, List.filter_append, hne hl, hne hl',
      List.filter_replicate]
    simp
  have hcount : before.count d = k := by
    rw [hbefore, List.count_append, List.count_append, List.count_eq_zero_of_not_mem hl,
      List.count_eq_zero_of_not_mem hl', List.count_replicate_self]
    omega
  have hfront : copies m' (d :: ordered) = List.replicate (m' d) d ++ copies m ordered :=
    copies_insert List.not_mem_nil hd hm
  have hend : copies m' (ordered ++ [d]) = copies m ordered ++ List.replicate (m' d) d := by
    have hinsert : copies m' (ordered ++ [d]) =
        copies m ordered ++ (List.replicate (m' d) d ++ copies m []) :=
      copies_insert hd List.not_mem_nil hm
    rwa [copies_nil, List.append_nil] at hinsert
  cases target with
  | endZone =>
    have hafter' : after = copies m ordered ++ (List.replicate (m' d) d ++ []) := by
      rw [hafter, List.append_nil, ← hend]
      exact congrArg _ (putBack_endDropTaskId ordered d)
    change after = before.filter (· ≠ d) ++ [d] ↔ m' d = 1
    rw [hafter', hrest]
    exact append_replicate_iff d (m' d) _ []
  | container =>
    have hafter' : after = [] ++ (List.replicate (m' d) d ++ copies m ordered) := by
      rw [hafter, List.nil_append, ← hfront]
      exact congrArg _ (@putBack_of_notMem ordered none nofun nofun d)
    change after = [] ++ d :: before.filter (· ≠ d) ↔ m' d = 1
    rw [hafter', hrest]
    exact append_replicate_iff d (m' d) [] _
  | item t =>
    have ht := htarget t rfl
    dsimp only [DropLaw, DropIsPlain]
    by_cases hself : t = d
    · subst hself
      have hk : 0 < k := hcount ▸ List.count_pos_iff.mpr ht
      rw [if_pos rfl, if_pos rfl, hcount]
      by_cases hreserved : t = endDropTaskId
      · have hafter' : after = l ++ l' ++ List.replicate (m' t) t := by
          rw [hafter, ← hsplit, ← hend]
          exact congrArg _ (hreserved ▸ putBack_endDropTaskId ordered t)
        rw [if_pos hreserved, hafter', hbefore]
        exact append_replicate_filter_iff hk hl'
      · have hafter' : after = List.replicate (m' t) t ++ (l ++ l') := by
          rw [hafter, ← hsplit, ← hfront]
          refine congrArg _ (putBack_of_notMem ?_ ?_ t)
          · rintro _ ⟨⟩
            exact hd
          · exact fun h => hreserved (Option.some_inj.mp h)
        rw [if_neg hreserved, hafter', hbefore]
        exact replicate_append_filter_iff hk hl
    · have hcopies : t ∈ copies m ordered := by
        rw [← hrest]
        exact List.mem_filter.mpr ⟨ht, decide_eq_true hself⟩
      obtain ⟨hmem, hpos⟩ := mem_copies.mp hcopies
      rw [if_neg hself, if_neg hself]
      by_cases hreserved : t = endDropTaskId
      · have hafter' : after = copies m ordered ++ List.replicate (m' d) d := by
          rw [hafter, ← hend]
          exact congrArg _ (hreserved ▸ putBack_endDropTaskId ordered d)
        refine iff_of_false ?_ fun h => h.2 hreserved
        rw [hafter', ← hrest]
        exact ne_append_of_mem (hrest ▸ hcopies) (by simp)
      · rw [and_iff_left hreserved, moveBefore_of_filter_eq_copies hrest hpos, hafter]
        change copies m' (putBack ordered d (some t)) = _ ↔ _
        rw [putBack_of_mem hmem hreserved, copies_insert
          (fun h => hd ((List.takeWhile_sublist _).subset h))
          (fun h => hd ((List.dropWhile_sublist _).subset h)) hm]
        exact append_replicate_iff d (m' d) _ _

/-! ## The displayed sequence -/

/-- Each task as often as `n` says. -/
def shownTasks (n : Task → ℕ) (tasks : List Task) : List Task :=
  tasks.flatMap fun t => List.replicate (n t) t

theorem shownTasks_ite (p : Task → Prop) [DecidablePred p] (n : Task → ℕ) (tasks : List Task) :
    shownTasks n (tasks.filter fun t => p t) =
      shownTasks (fun t => if p t then n t else 0) tasks := by
  induction tasks with
  | nil => rfl
  | cons t tasks ih =>
    unfold shownTasks at ih ⊢
    by_cases h : p t <;> simp [h, ih]

theorem shownTasks_one (tasks : List Task) : shownTasks (fun _ => 1) tasks = tasks := by
  simp [shownTasks]

theorem filter_eq_shownTasks (p : Task → Prop) [DecidablePred p] (tasks : List Task) :
    (tasks.filter fun t => p t) = shownTasks (fun t => if p t then 1 else 0) tasks := by
  rw [← shownTasks_ite, shownTasks_one]

/-- The tasks of a bucket are those that it shows. -/
theorem TodoCalendar.groupTasksByDateBucket_eq (c : TodoCalendar) (tasks : List Task)
    (bucket : TodoDateBucket) : c.groupTasksByDateBucket tasks bucket =
      shownTasks (fun t => if c.bucketForDueDate t.dueDate = bucket then 1 else 0) tasks := by
  have hloop : ∀ grouped : TodoDateBucket → List Task, tasks.foldl (fun grouped task =>
      let bucket := c.bucketForDueDate task.dueDate
      Function.update grouped bucket (grouped bucket ++ [task])) grouped bucket =
        grouped bucket ++
          shownTasks (fun t => if c.bucketForDueDate t.dueDate = bucket then 1 else 0) tasks := by
    induction tasks with
    | nil => simp [shownTasks]
    | cons task tasks ih =>
      intro grouped
      rw [List.foldl_cons, ih]
      by_cases heq : c.bucketForDueDate task.dueDate = bucket
      · subst heq
        simp [shownTasks]
      · rw [Function.update_of_ne (Ne.symm heq)]
        simp [shownTasks, heq]
  exact (hloop fun _ => []).trans (List.nil_append _)

theorem TaskGroup.tasks_eq (group : TaskGroup) (c : TodoCalendar) (tasks : List Task) :
    group.tasks c tasks = shownTasks (group.shows c) tasks := by
  cases group with
  | list => exact (shownTasks_one tasks).symm
  | priority p => exact filter_eq_shownTasks (fun t => t.priority = p) tasks
  | category id => exact (groupTasksByCategory_eq_flatMap tasks).2 id
  | uncategorized => exact (groupTasksByCategory_eq_flatMap tasks).1
  | date bucket => exact c.groupTasksByDateBucket_eq tasks bucket

/-- The task is listed in the modes. -/
def LocalStore.IsListed (s : LocalStore) (showingDone : Bool) (t : Task) : Prop :=
  (s.experimentalFeaturesEnabled = true → t.parentTaskId = none) ∧
    t.completedAt.isSome = showingDone

instance (s : LocalStore) (showingDone : Bool) : DecidablePred (s.IsListed showingDone) :=
  fun _ => inferInstanceAs (Decidable (_ ∧ _))

/-- The tasks of the list are those that are listed. -/
theorem TodosView.filteredTasks_eq (store : LocalStore) (showingDone : Bool) :
    filteredTasks store showingDone = store.tasks.filter fun t => store.IsListed showingDone t := by
  have hsplit : ∀ tasks : List Task, (if showingDone = true then (splitTasksByCompletion tasks).2
      else (splitTasksByCompletion tasks).1) =
        tasks.filter fun t => t.completedAt.isSome = showingDone := by
    intro tasks
    rw [splitTasksByCompletion_eq]
    refine (apply_ite id ..).symm.trans ?_
    cases showingDone
    · exact List.filter_congr fun t _ => by cases t.completedAt <;> simp
    · exact List.filter_congr fun t _ => by cases t.completedAt <;> simp
  unfold filteredTasks
  dsimp only
  rw [hsplit]
  cases hx : store.experimentalFeaturesEnabled
  · exact List.filter_congr fun t _ => by simp [LocalStore.IsListed, hx]
  · rw [if_pos rfl, LocalStore.topLevelTasks, List.filter_filter]
    refine List.filter_congr fun t _ => ?_
    rw [← Bool.decide_and, decide_eq_decide]
    simp only [LocalStore.IsListed, hx, forall_const]
    exact and_comm

/-- How often the group shows a task of the store. -/
def TaskGroup.times (group : TaskGroup) (c : TodoCalendar) (s : LocalStore) (showingDone : Bool)
    (t : Task) : ℕ :=
  if s.IsListed showingDone t then group.shows c t else 0

theorem TaskGroup.display_eq (group : TaskGroup) (c : TodoCalendar) (s : LocalStore)
    (showingDone : Bool) : group.display c s showingDone =
      (sortedByOrderIndexDesc (shownTasks (group.times c s showingDone) s.tasks)).map Task.id := by
  unfold display times
  rw [tasks_eq, TodosView.filteredTasks_eq, shownTasks_ite]

/-! ### Sorting -/

/-- The tasks have different keys. -/
def DistinctOrderKeys (tasks : List Task) : Prop :=
  ∀ t ∈ tasks, ∀ u ∈ tasks, taskSortKey t = taskSortKey u → t = u

instance (tasks : List Task) : Decidable (DistinctOrderKeys tasks) :=
  inferInstanceAs (Decidable (∀ t ∈ tasks, ∀ u ∈ tasks, _ → _))

theorem mem_sortedByOrderIndexDesc {tasks : List Task} {t : Task} :
    t ∈ sortedByOrderIndexDesc tasks ↔ t ∈ tasks :=
  List.mem_insertionSort _

theorem sortedByOrderIndexDesc_eq {tasks l : List Task} (hk : DistinctOrderKeys tasks)
    (hperm : l.Perm tasks) (hl : l.Pairwise fun t u => taskSortKey u ≤ taskSortKey t) :
    sortedByOrderIndexDesc tasks = l := by
  refine List.Perm.eq_of_pairwise (fun t u ht hu htu hut => ?_)
    (pairwise_insertionSort_taskSortKey tasks) hl
    ((List.perm_insertionSort _ tasks).trans hperm.symm)
  exact hk t (mem_sortedByOrderIndexDesc.mp ht) u (hperm.subset hu) (le_antisymm hut htu)

theorem mem_shownTasks {n : Task → ℕ} {tasks : List Task} {t : Task} :
    t ∈ shownTasks n tasks ↔ t ∈ tasks ∧ 0 < n t :=
  mem_copies

/-- Sorting moves a task with its copies. -/
theorem sortedByOrderIndexDesc_shownTasks {tasks : List Task} (hk : DistinctOrderKeys tasks)
    (n : Task → ℕ) : sortedByOrderIndexDesc (shownTasks n tasks) =
      shownTasks n (sortedByOrderIndexDesc tasks) := by
  refine sortedByOrderIndexDesc_eq ?_ ((List.perm_insertionSort _ tasks).flatMap_right _) ?_
  · exact fun t ht u hu => hk t (mem_shownTasks.mp ht).1 u (mem_shownTasks.mp hu).1
  · refine List.pairwise_flatMap.mpr ⟨fun t _ => ?_, ?_⟩
    · exact List.pairwise_replicate.mpr (Or.inr le_rfl)
    · refine (pairwise_insertionSort_taskSortKey tasks).imp fun {t u} htu t' ht' u' hu' => ?_
      rw [List.eq_of_mem_replicate ht', List.eq_of_mem_replicate hu']
      exact htu

theorem sortedByOrderIndexDesc_filter {tasks : List Task} (hk : DistinctOrderKeys tasks)
    (q : Task → Bool) :
    sortedByOrderIndexDesc (tasks.filter q) = (sortedByOrderIndexDesc tasks).filter q := by
  refine sortedByOrderIndexDesc_eq ?_ ((List.perm_insertionSort _ tasks).filter q)
    ((pairwise_insertionSort_taskSortKey tasks).sublist List.filter_sublist)
  exact fun t ht u hu => hk t (List.mem_of_mem_filter ht) u (List.mem_of_mem_filter hu)

theorem ids_shownTasks {tasks : List Task} {n : Task → ℕ} {m : String → ℕ}
    (h : ∀ t ∈ tasks, m t.id = n t) :
    (shownTasks n tasks).map Task.id = copies m (tasks.map Task.id) := by
  unfold shownTasks copies
  rw [List.map_flatMap, List.flatMap_map]
  refine List.flatMap_congr fun t ht => ?_
  rw [List.map_replicate, h t ht]

/-- How often the group shows the task with an id. -/
def shownCount (n : Task → ℕ) (tasks : List Task) (id : String) : ℕ :=
  ((taskWithId tasks id).map n).getD 0

theorem shownCount_of_mem {tasks : List Task} (hd : DistinctIds tasks) (n : Task → ℕ) {t : Task}
    (ht : t ∈ tasks) : shownCount n tasks t.id = n t := by
  rw [shownCount, taskWithId, lookup_of_mem hd ht]
  rfl

theorem ids_sorted_shownTasks {tasks : List Task} (hd : DistinctIds tasks)
    (hk : DistinctOrderKeys tasks) (n : Task → ℕ) :
    (sortedByOrderIndexDesc (shownTasks n tasks)).map Task.id =
      copies (shownCount n tasks) ((sortedByOrderIndexDesc tasks).map Task.id) := by
  rw [sortedByOrderIndexDesc_shownTasks hk]
  exact ids_shownTasks fun t ht =>
    shownCount_of_mem hd n (mem_sortedByOrderIndexDesc.mp ht)

/-! ### After a reorder -/

theorem Task.times_reordered (group : TaskGroup) (c : TodoCalendar) (s : LocalStore)
    (showingDone : Bool) (t : Task) (key : ℤ) (now : Date) :
    group.times c s showingDone (t.reordered key now) = group.times c s showingDone t := by
  cases group <;> rfl

/-- Requested tasks that are all shown stand in the requested order. -/
theorem ids_shownTasks_reorderTasks {s s' : LocalStore} {orderedIds : List String} {now : Date}
    (hd : DistinctIds s.tasks) (h : s.reorderTasks orderedIds now = some s')
    (hknown : ∀ id ∈ orderedIds, id ∈ s.tasks.map Task.id) {n : Task → ℕ}
    (hn : ∀ t key, n (t.reordered key now) = n t)
    (hshown : ∀ t ∈ s.tasks, 0 < n t → t.id ∈ orderedIds) :
    (sortedByOrderIndexDesc (shownTasks n s'.tasks)).map Task.id =
      copies (shownCount n s.tasks) orderedIds := by
  have hpairwise := pairwise_rekeyedTasks s.tasks orderedIds now
  have hkeys : DistinctOrderKeys (rekeyedTasks s.tasks orderedIds now) := fun t ht u hu hkey =>
    eq_of_mem_of_pairwise hpairwise ht hu hkey.ge hkey.le
  have hsorted : sortedByOrderIndexDesc (rekeyedTasks s.tasks orderedIds now) =
      rekeyedTasks s.tasks orderedIds now :=
    sortedByOrderIndexDesc_eq hkeys (List.Perm.refl _) (hpairwise.imp And.left)
  have hrest : shownTasks n (s.tasks.filter fun t => t.id ∉ orderedIds) = [] := by
    refine List.eq_nil_iff_forall_not_mem.mpr fun t ht => ?_
    obtain ⟨hmem, hpos⟩ := mem_shownTasks.mp ht
    obtain ⟨hmem, hnot⟩ := List.mem_filter.mp hmem
    exact of_decide_eq_true hnot (hshown t hmem hpos)
  have htasks : shownTasks n s'.tasks = shownTasks n (rekeyedTasks s.tasks orderedIds now) := by
    rw [LocalStore.tasks_reorderTasks h]
    unfold shownTasks at hrest ⊢
    rw [List.flatMap_append, hrest, List.append_nil]
  have hids : (rekeyedTasks s.tasks orderedIds now).map Task.id = orderedIds := by
    rw [ids_rekeyedTasks]
    exact List.filter_eq_self.mpr fun id hid => decide_eq_true (hknown id hid)
  have hcount : ∀ t' ∈ rekeyedTasks s.tasks orderedIds now,
      shownCount n s.tasks t'.id = n t' := by
    intro t' ht'
    obtain ⟨t, ht, -, key, rfl⟩ := mem_rekeyedTasks ht'
    rw [hn]
    exact shownCount_of_mem hd n ht
  rw [htasks, sortedByOrderIndexDesc_shownTasks hkeys, hsorted, ids_shownTasks hcount, hids]

theorem LocalStore.Edits.experimentalFeaturesEnabled {s s' : LocalStore} (h : s.Edits s') :
    s'.experimentalFeaturesEnabled = s.experimentalFeaturesEnabled := by
  induction h with
  | refl => rfl
  | spawnSync _ _ ih =>
    rw [← ih]
    unfold LocalStore.spawnSync
    split <;> rfl
  | _ => assumption

/-! ## The law for the tasks -/

section Drop

variable {s s₁ s' : LocalStore} {task edited : Task} {n : Task → ℕ}

theorem orderIndex_replacedBy (hd : DistinctIds s.tasks) (ht : task ∈ s.tasks)
    (hid : edited.id = task.id) (hkey : edited.orderIndex = task.orderIndex) {t : Task}
    (htmem : t ∈ s.tasks) : (t.replacedBy edited).orderIndex = t.orderIndex := by
  unfold Task.replacedBy
  split_ifs with heq
  · rw [hkey, List.inj_on_of_nodup_map hd htmem ht (heq.trans hid)]
  · rfl

theorem distinctOrderKeys_map_replacedBy (hd : DistinctIds s.tasks)
    (hk : DistinctOrderKeys s.tasks) (ht : task ∈ s.tasks) (hid : edited.id = task.id)
    (hkey : edited.orderIndex = task.orderIndex) :
    DistinctOrderKeys (s.tasks.map (Task.replacedBy · edited)) := by
  intro t' ht' u' hu' heq
  obtain ⟨t, ht₁, rfl⟩ := List.mem_map.mp ht'
  obtain ⟨u, hu₁, rfl⟩ := List.mem_map.mp hu'
  unfold taskSortKey at heq
  rw [orderIndex_replacedBy hd ht hid hkey ht₁, orderIndex_replacedBy hd ht hid hkey hu₁] at heq
  rw [hk t ht₁ u hu₁ heq]

/-- The edit leaves the sequence of the ids. -/
theorem ids_sorted_map_replacedBy (hd : DistinctIds s.tasks) (ht : task ∈ s.tasks)
    (hid : edited.id = task.id) (hkey : edited.orderIndex = task.orderIndex) :
    (sortedByOrderIndexDesc (s.tasks.map (Task.replacedBy · edited))).map Task.id =
      (sortedByOrderIndexDesc s.tasks).map Task.id := by
  have hsorted : (sortedByOrderIndexDesc s.tasks).map (Task.replacedBy · edited) =
      sortedByOrderIndexDesc (s.tasks.map (Task.replacedBy · edited)) := by
    refine List.map_insertionSort _ _ _ _ fun t ht₁ u hu₁ => ?_
    rw [orderIndex_replacedBy hd ht hid hkey ht₁, orderIndex_replacedBy hd ht hid hkey hu₁]
  rw [← hsorted, List.map_map]
  exact List.map_congr_left fun t _ => t.replacedBy_id edited

/-- The edit changes what is shown of the dragged task only. -/
theorem shownCount_map_replacedBy (hd : DistinctIds s.tasks) (hid : edited.id ∈ s.tasks.map Task.id)
    {id : String} (hne : id ≠ edited.id) :
    shownCount n (s.tasks.map (Task.replacedBy · edited)) id = shownCount n s.tasks id := by
  have hd₁ : DistinctIds (s.tasks.map (Task.replacedBy · edited)) :=
    distinctIds_congr (ids_map_replacedBy _ _) hd
  by_cases hmem : id ∈ s.tasks.map Task.id
  · obtain ⟨t, ht, rfl⟩ := List.mem_map.mp hmem
    rw [shownCount_of_mem hd n ht,
      shownCount_of_mem hd₁ n ((mem_map_replacedBy hid).mpr (Or.inr ⟨ht, hne⟩))]
  · have hmem₁ : id ∉ (s.tasks.map (Task.replacedBy · edited)).map Task.id := by
      rwa [ids_map_replacedBy]
    rw [shownCount, shownCount, taskWithId, taskWithId, lookup_eq_none_iff_notMem.mpr hmem,
      lookup_eq_none_iff_notMem.mpr hmem₁]

/-- The ids of some of the tasks, in the sequence of all. -/
theorem ids_sorted_filter {tasks : List Task} (hd : DistinctIds tasks)
    (hk : DistinctOrderKeys tasks) (q : Task → Bool) :
    (sortedByOrderIndexDesc (tasks.filter q)).map Task.id =
      ((sortedByOrderIndexDesc tasks).map Task.id).filter
        fun id => id ∈ (tasks.filter q).map Task.id := by
  rw [sortedByOrderIndexDesc_filter hk, List.filter_map]
  refine congrArg (List.map Task.id) (List.filter_congr fun t ht => ?_)
  rw [mem_sortedByOrderIndexDesc] at ht
  refine Bool.eq_iff_iff.mpr ⟨fun hqt => ?_, fun hqt => ?_⟩
  · exact decide_eq_true (List.mem_map_of_mem (List.mem_filter.mpr ⟨ht, hqt⟩))
  · obtain ⟨u, hu, heq⟩ := List.mem_map.mp (of_decide_eq_true hqt)
    obtain ⟨hu, hqu⟩ := List.mem_filter.mp hu
    rwa [List.inj_on_of_nodup_map hd hu ht heq] at hqu

/-- A list that has all the other ids that the group shows has their rows. -/
theorem filter_copies_shownCount {tasks : List Task} (hd : DistinctIds tasks) {d : String}
    {ids listed : List String} (hids : ∀ id ∈ ids, id ∈ tasks.map Task.id)
    (hlisted : ∀ t ∈ tasks, t.id ≠ d → 0 < n t → t.id ∈ listed) :
    (copies (shownCount n tasks) ids).filter (· ≠ d) =
      copies (shownCount n tasks) ((ids.filter (· ∈ listed)).filter (· ≠ d)) := by
  rw [filter_copies, List.filter_comm]
  refine (copies_filter fun id hmem hpos => ?_).symm
  obtain ⟨hmem, hne⟩ := List.mem_filter.mp hmem
  obtain ⟨t, ht, rfl⟩ := List.mem_map.mp (hids id hmem)
  rw [shownCount_of_mem hd n ht] at hpos
  exact decide_eq_true (hlisted t ht (of_decide_eq_true hne) hpos)

/-- A list that has all the other tasks that the group shows is shown in the order of the drop. -/
theorem ids_shownTasks_droppedOrder {q : Task → Bool} {d : String} {beforeTaskId : Option String}
    {now : Date} (hd : DistinctIds s.tasks) (hmem : d ∈ s.tasks.map Task.id)
    (hs' : s.reorderTasks (droppedOrder (s.tasks.filter q) d beforeTaskId) now = some s')
    (hn : ∀ t key, n (t.reordered key now) = n t)
    (hq : ∀ t ∈ s.tasks, t.id ≠ d → 0 < n t → q t) :
    (sortedByOrderIndexDesc (shownTasks n s'.tasks)).map Task.id =
      copies (shownCount n s.tasks) (droppedOrder (s.tasks.filter q) d beforeTaskId) := by
  have hlisted : ∀ {id}, id ∈ (sortedByOrderIndexDesc (s.tasks.filter q)).map Task.id ↔
      id ∈ (s.tasks.filter q).map Task.id :=
    ((List.perm_insertionSort _ _).map Task.id).mem_iff
  refine ids_shownTasks_reorderTasks hd hs' (fun id hdropped => ?_) hn fun t ht hpos => ?_
  · rcases List.mem_cons.mp ((perm_putBack _ _ _).subset hdropped) with rfl | hid
    · exact hmem
    · exact (List.filter_sublist.map Task.id).subset (hlisted.mp (List.mem_of_mem_filter hid))
  · refine (perm_putBack _ _ _).symm.subset ?_
    by_cases hself : t.id = d
    · rw [hself]
      exact List.mem_cons_self
    · refine List.mem_cons_of_mem _ (List.mem_filter.mpr ⟨hlisted.mpr ?_, decide_eq_true hself⟩)
      exact List.mem_map_of_mem (List.mem_filter.mpr ⟨ht, hq t ht hself hpos⟩)

/-- A drop edits the dragged task and reorders the tasks of a list that has all the others that the
group shows. -/
theorem dropLaw_reorderTasks_iff {q : Task → Bool} {target : DropTarget} {now : Date}
    (hd : DistinctIds s.tasks) (hk : DistinctOrderKeys s.tasks) (ht : task ∈ s.tasks)
    (hid : edited.id = task.id) (hkey : edited.orderIndex = task.orderIndex)
    (htasks : s₁.tasks = s.tasks.map (Task.replacedBy · edited))
    (hn : ∀ t key, n (t.reordered key now) = n t)
    (hq : ∀ t ∈ s.tasks, 0 < n t → q t)
    (hs' : s₁.reorderTasks (droppedOrder (s₁.tasks.filter q) task.id target.beforeTaskId) now =
      some s')
    (htarget : ∀ t, target = .item t →
      t ∈ (sortedByOrderIndexDesc (shownTasks n s.tasks)).map Task.id) :
    DropLaw ((sortedByOrderIndexDesc (shownTasks n s.tasks)).map Task.id) task.id
        ((sortedByOrderIndexDesc (shownTasks n s'.tasks)).map Task.id) target ↔
      DropIsPlain ((sortedByOrderIndexDesc (shownTasks n s.tasks)).map Task.id) task.id (n edited)
        target := by
  have hknown : edited.id ∈ s.tasks.map Task.id := List.mem_map.mpr ⟨task, ht, hid.symm⟩
  have hmem : ∀ t, t ∈ s₁.tasks ↔ t = edited ∨ t ∈ s.tasks ∧ t.id ≠ edited.id := by
    intro t
    rw [htasks]
    exact mem_map_replacedBy hknown
  have hids₁ : s₁.tasks.map Task.id = s.tasks.map Task.id := by
    rw [htasks, ids_map_replacedBy]
  have hd₁ : DistinctIds s₁.tasks := distinctIds_congr hids₁ hd
  have hk₁ : DistinctOrderKeys s₁.tasks := by
    rw [htasks]
    exact distinctOrderKeys_map_replacedBy hd hk ht hid hkey
  -- The dragged task has no row in the list that is reordered but the one that it is put back to.
  obtain ⟨full, hfull⟩ : ∃ full, full = (sortedByOrderIndexDesc s.tasks).map Task.id := ⟨_, rfl⟩
  have hperm : full.Perm (s.tasks.map Task.id) := by
    rw [hfull]
    exact (List.perm_insertionSort _ s.tasks).map Task.id
  have hlisted : (sortedByOrderIndexDesc (s₁.tasks.filter q)).map Task.id =
      full.filter fun id => id ∈ (s₁.tasks.filter q).map Task.id := by
    rw [ids_sorted_filter hd₁ hk₁, hfull, ← ids_sorted_map_replacedBy hd ht hid hkey, ← htasks]
  have hordered : ∀ t ∈ s.tasks, t.id ≠ task.id → 0 < n t →
      t.id ∈ (s₁.tasks.filter q).map Task.id := by
    intro t ht₁ hne hpos
    refine List.mem_map_of_mem (List.mem_filter.mpr ⟨(hmem t).mpr (Or.inr ⟨ht₁, ?_⟩), ?_⟩)
    · rwa [hid]
    · exact hq t ht₁ hpos
  have hbefore := ids_sorted_shownTasks hd hk n
  rw [← hfull] at hbefore
  have hrest : (copies (shownCount n s.tasks) full).filter (· ≠ task.id) =
      copies (shownCount n s.tasks)
        (((sortedByOrderIndexDesc (s₁.tasks.filter q)).map Task.id).filter (· ≠ task.id)) := by
    rw [hlisted]
    exact filter_copies_shownCount hd (fun id => hperm.mem_iff.mp) hordered
  have hafter : (sortedByOrderIndexDesc (shownTasks n s'.tasks)).map Task.id =
      copies (shownCount n s₁.tasks)
        (droppedOrder (s₁.tasks.filter q) task.id target.beforeTaskId) := by
    refine ids_shownTasks_droppedOrder hd₁ ?_ hs' hn fun t ht₁ hne hpos => ?_
    · exact hids₁ ▸ List.mem_map_of_mem ht
    · rcases (hmem t).mp ht₁ with rfl | ⟨ht₁, -⟩
      · exact absurd hid hne
      · exact hq t ht₁ hpos
  have hcount : shownCount n s₁.tasks task.id = n edited := by
    rw [← hid]
    exact shownCount_of_mem hd₁ n ((hmem _).mpr (Or.inl rfl))
  obtain ⟨l, l', hsplit⟩ := List.append_of_mem (hperm.mem_iff.mpr (List.mem_map_of_mem ht))
  have hnot := (List.nodup_cons.mp (List.nodup_middle.mp (hsplit ▸ hperm.nodup_iff.mpr hd))).1
  rw [hbefore, ← hcount]
  refine @dropLaw_iff _ _ _ (copies (shownCount n s.tasks) l) (copies (shownCount n s.tasks) l') _
    (shownCount n s.tasks) _ (shownCount n s.tasks task.id) target ?_ ?_ ?_ hrest (by simp)
    (fun id hne => ?_) (hbefore ▸ htarget) hafter
  · rw [hsplit, copies_append, copies_cons]
  · exact fun hmem => hnot (List.mem_append_left _ (mem_copies.mp hmem).1)
  · exact fun hmem => hnot (List.mem_append_right _ (mem_copies.mp hmem).1)
  · rw [htasks]
    exact shownCount_map_replacedBy hd hknown (hid.symm ▸ hne)

end Drop

/-! ### The handlers -/

namespace TaskGroup

variable {c : TodoCalendar} {s s' : LocalStore} {showingDone : Bool}

/-- The handler takes the category for the uncategorized group. -/
def IsReserved (group : TaskGroup) : Prop :=
  group = .category "Uncategorized"

theorem times_congr (group : TaskGroup) (c : TodoCalendar) (showingDone : Bool)
    (h : s'.experimentalFeaturesEnabled = s.experimentalFeaturesEnabled) :
    group.times c s' showingDone = group.times c s showingDone := by
  funext t
  have hiff : s'.IsListed showingDone t ↔ s.IsListed showingDone t := by
    unfold LocalStore.IsListed
    rw [h]
  exact if_congr hiff rfl rfl

theorem isListed_of_times_pos {group : TaskGroup} {t : Task}
    (h : 0 < group.times c s showingDone t) :
    s.IsListed showingDone t ∧ 0 < group.shows c t := by
  by_cases hlisted : s.IsListed showingDone t
  · rw [times, if_pos hlisted] at h
    exact ⟨hlisted, h⟩
  · rw [times, if_neg hlisted] at h
    exact absurd h (Nat.lt_irrefl 0)

/-- Every handler edits the task and reorders a list that has what the group shows. -/
theorem drop_eq {group : TaskGroup} (hr : ¬group.IsReserved) (c : TodoCalendar)
    (showingDone : Bool) (hd : DistinctIds s.tasks) {task : Task} (ht : task ∈ s.tasks)
    (sourceGroupId : String) (target : DropTarget) :
    ∃ (s₁ : LocalStore) (q : Task → Bool) (edited : Task),
      s₁.tasks = s.tasks.map (Task.replacedBy · edited) ∧ s.Edits s₁ ∧
      edited.id = task.id ∧ edited.orderIndex = task.orderIndex ∧
      group.times c s showingDone edited =
        (if s.IsListed showingDone task
          then group.shows c ((group.dropUpdate c sourceGroupId).apply task) else 0) ∧
      (∀ t, 0 < group.times c s showingDone t → q t) ∧
      group.drop c s ⟨task.id, sourceGroupId⟩ target showingDone =
        s₁.reorderTasks (droppedOrder (s₁.tasks.filter q) task.id target.beforeTaskId) c.now := by
  have hupdated : ∀ updates : TaskUpdate, (s.updateTask task.id updates c.now).tasks =
      s.tasks.map (Task.replacedBy · (updates.applied task c.now)) := fun updates =>
    LocalStore.tasks_updateTask_eq hd ht updates c.now
  have hedits : ∀ updates : TaskUpdate, s.Edits (s.updateTask task.id updates c.now) :=
    fun updates => LocalStore.Edits.updateTask .refl task.id updates c.now
  cases group with
  | list =>
    refine ⟨s, fun t => s.IsListed showingDone t, task, ?_, .refl, rfl, rfl, rfl, fun t h => ?_, ?_⟩
    · have hself : ∀ t ∈ s.tasks, t.replacedBy task = t := by
        intro t htmem
        unfold Task.replacedBy
        split_ifs with heq
        · exact List.inj_on_of_nodup_map hd ht htmem heq.symm
        · rfl
      exact ((List.map_congr_left hself).trans (List.map_id' _)).symm
    · exact decide_eq_true (isListed_of_times_pos h).1
    · unfold drop TodoListModeView.reorderWithinSameGroup
      rw [TodosView.filteredTasks_eq]
  | priority p =>
    refine ⟨s.updateTask task.id (TodoPriorityModeView.dropUpdate p) c.now,
      fun t => decide (t.priority = p) && decide (t.completedAt.isSome = showingDone), _,
      hupdated _, hedits _, rfl, rfl, rfl, fun t h => ?_, ?_⟩
    · obtain ⟨⟨-, hdone⟩, hshows⟩ := isListed_of_times_pos h
      simpa [hdone, shows, Nat.pos_iff_ne_zero] using hshows
    · unfold drop TodoPriorityModeView.applyPriorityDrop LocalStore.visible
      dsimp only
      rw [List.filter_filter]
  | category id =>
    have hne : id ≠ "Uncategorized" := fun heq => hr (congrArg TaskGroup.category heq)
    refine ⟨s.updateTask task.id (TodoCategoryModeView.dropUpdate sourceGroupId id) c.now,
      fun t => decide (id ∈ t.categories) && decide (t.completedAt.isSome = showingDone), _,
      hupdated _, hedits _, rfl, rfl, rfl, fun t h => ?_, ?_⟩
    · obtain ⟨⟨-, hdone⟩, hshows⟩ := isListed_of_times_pos h
      simpa [hdone, shows] using hshows
    · unfold drop TodoCategoryModeView.applyCategoryDrop
      dsimp only
      rw [if_neg hne, List.filter_filter]
      rfl
  | uncategorized =>
    refine ⟨s.updateTask task.id (TodoCategoryModeView.dropUpdate sourceGroupId "Uncategorized")
      c.now, fun t => t.categories.isEmpty && decide (t.completedAt.isSome = showingDone), _,
      hupdated _, hedits _, rfl, rfl, rfl, fun t h => ?_, ?_⟩
    · obtain ⟨⟨-, hdone⟩, hshows⟩ := isListed_of_times_pos h
      simpa [hdone, shows, Nat.pos_iff_ne_zero] using hshows
    · unfold drop TodoCategoryModeView.applyCategoryDrop
      dsimp only
      rw [if_pos rfl, List.filter_filter]
      rfl
  | date bucket =>
    refine ⟨s.updateTask task.id (TodoDateModeView.dropUpdate (c.dueDateForBucket bucket)) c.now,
      fun t => decide (c.bucketForDueDate t.dueDate = bucket) &&
        decide (t.completedAt.isSome = showingDone), _,
      hupdated _, hedits _, rfl, rfl, rfl, fun t h => ?_, ?_⟩
    · obtain ⟨⟨-, hdone⟩, hshows⟩ := isListed_of_times_pos h
      simpa [hdone, shows, Nat.pos_iff_ne_zero] using hshows
    · unfold drop TodoDateModeView.applyDateDrop LocalStore.visible
      dsimp only
      rw [List.filter_filter]

/-- The edit of the drop makes the group show the task once, and the task is not dropped on its own
row, unless it stands first there. -/
def IsPlainDrop (group : TaskGroup) (c : TodoCalendar) (s : LocalStore) (showingDone : Bool)
    (task : Task) (sourceGroupId : String) (target : DropTarget) : Prop :=
  ¬group.IsReserved ∧ DropIsPlain (group.display c s showingDone) task.id
    (group.shows c ((group.dropUpdate c sourceGroupId).apply task)) target

/-- No drop traps. -/
theorem exists_drop (group : TaskGroup) (c : TodoCalendar) (showingDone : Bool)
    (hd : DistinctIds s.tasks) {task : Task} (ht : task ∈ s.tasks) (sourceGroupId : String)
    (target : DropTarget) :
    ∃ s', group.drop c s ⟨task.id, sourceGroupId⟩ target showingDone = some s' := by
  have hplain : ∀ {group : TaskGroup}, ¬group.IsReserved →
      ∃ s', group.drop c s ⟨task.id, sourceGroupId⟩ target showingDone = some s' := by
    intro group hr
    obtain ⟨s₁, q, edited, htasks, -, -, -, -, -, hdrop⟩ :=
      drop_eq hr c showingDone hd ht sourceGroupId target
    have hd₁ : DistinctIds s₁.tasks := by
      rw [htasks]
      exact distinctIds_congr (ids_map_replacedBy _ _) hd
    rw [hdrop]
    exact ⟨_, congrArg _ (if_pos hd₁)⟩
  by_cases hr : group.IsReserved
  · rw [hr]
    exact @hplain uncategorized nofun
  · exact hplain hr

/-- When a drop of a task follows the law. -/
theorem dropLaw_drop_iff {group : TaskGroup} (hr : ¬group.IsReserved) (hd : DistinctIds s.tasks)
    (hk : DistinctOrderKeys s.tasks) {task : Task}
    (ht : task ∈ TodosView.filteredTasks s showingDone) {sourceGroupId : String}
    {target : DropTarget} (htarget : ∀ t, target = .item t → t ∈ group.display c s showingDone)
    (hs' : group.drop c s ⟨task.id, sourceGroupId⟩ target showingDone = some s') :
    DropLaw (group.display c s showingDone) task.id (group.display c s' showingDone) target ↔
      group.IsPlainDrop c s showingDone task sourceGroupId target := by
  rw [TodosView.filteredTasks_eq] at ht
  obtain ⟨ht, hlisted⟩ := List.mem_filter.mp ht
  obtain ⟨s₁, q, edited, htasks, hedits, hid, hkey, htimes, hq, hdrop⟩ :=
    drop_eq hr c showingDone hd ht sourceGroupId target
  rw [hdrop] at hs'
  have henabled : s'.experimentalFeaturesEnabled = s.experimentalFeaturesEnabled :=
    (hedits.reorderTasks hs').experimentalFeaturesEnabled
  rw [if_pos (of_decide_eq_true hlisted)] at htimes
  rw [IsPlainDrop, and_iff_right hr, ← htimes]
  rw [display_eq] at htarget ⊢
  rw [display_eq, times_congr group c showingDone henabled]
  exact dropLaw_reorderTasks_iff hd hk ht hid hkey htasks
    (fun t key => t.times_reordered group c s showingDone key c.now) (fun t _ => hq t) hs' htarget

end TaskGroup

/-! ## The law for the groups -/

/-- The key of the group that a slot is before. The slots have no container. -/
def DropTarget.beforeGroupKey : DropTarget → Option String
  | item key => some key
  | endZone => none
  | container => none

namespace TodoCategoryModeView

variable {s s' : LocalStore}

/-- The keys of the groups of `body`. -/
def groupKeys (store : LocalStore) : List String :=
  let ids := store.sortedCategories.map Category.id
  let uncategorizedIndex := (min (max store.uncategorizedPosition 0) ids.length).toNat
  ids.take uncategorizedIndex ++ "uncategorized" :: ids.drop uncategorizedIndex

/-- The group is not dropped on its own slot, unless it is the last one. -/
def IsPlainDrop (store : LocalStore) (groupId : String) (target : DropTarget) : Prop :=
  "uncategorized" ∉ store.categories.map Category.id ∧
    (target = .item groupId → (groupKeys store).getLast? = some groupId)

/-- The store with the position that the mode shows. -/
def clamped (store : LocalStore) : LocalStore :=
  let position := min (max store.uncategorizedPosition 0) store.categories.length
  { store with uncategorizedPosition := position }

theorem hasGroups_clamped (hd : DistinctKeys Category.id s.categories)
    (hr : "uncategorized" ∉ s.categories.map Category.id) : (clamped s).HasGroups := by
  refine ⟨hd, hr, ?_, ?_⟩
  · unfold clamped
    dsimp only
    omega
  · unfold clamped
    dsimp only
    omega

theorem groupKeys_eq_display (h : s.HasGroups) : groupKeys s = s.display := by
  have hposition := h.clamped_position
  unfold groupKeys LocalStore.display
  dsimp only
  rw [hposition, insertIdx_eq_append _ h.toNat_le]

/-- Clamping does not change the order of the groups. -/
theorem groupKeys_clamped (s : LocalStore) : groupKeys (clamped s) = groupKeys s := by
  have hposition : min (max (clamped s).uncategorizedPosition 0)
      ((clamped s).sortedCategories.map Category.id).length =
        min (max s.uncategorizedPosition 0) (s.sortedCategories.map Category.id).length := by
    rw [List.length_map, List.length_map, LocalStore.length_sortedCategories,
      LocalStore.length_sortedCategories]
    unfold clamped
    dsimp only
    omega
  unfold groupKeys
  dsimp only
  rw [hposition]
  rfl

theorem insertIdx_eq_groupKeys (s : LocalStore) :
    (s.sortedCategories.map Category.id).insertIdx (min (max s.uncategorizedPosition 0)
      (s.sortedCategories.map Category.id).length).toNat "uncategorized" = groupKeys s := by
  refine insertIdx_eq_append _ ?_
  omega

/-- The handler clamps the position as the mode does. -/
theorem applyCategoryGroupReorder_clamped {groupId : String} (hgroup : groupId ∈ groupKeys s)
    (beforeGroupKey : Option String) :
    applyCategoryGroupReorder (clamped s) ⟨groupId⟩ beforeGroupKey =
      applyCategoryGroupReorder s ⟨groupId⟩ beforeGroupKey := by
  unfold applyCategoryGroupReorder
  dsimp only
  rw [insertIdx_eq_groupKeys, insertIdx_eq_groupKeys, groupKeys_clamped, idxOf?_of_mem hgroup]
  rfl

theorem exists_applyCategoryGroupReorder (hd : DistinctKeys Category.id s.categories)
    (groupId : String) (beforeGroupKey : Option String) :
    ∃ s', applyCategoryGroupReorder s ⟨groupId⟩ beforeGroupKey = some s' := by
  unfold applyCategoryGroupReorder
  dsimp only
  split
  · exact ⟨s, rfl⟩
  · exact ⟨_, congrArg _ (if_pos hd)⟩

/-- When a drop of a group follows the law. -/
theorem dropLaw_applyCategoryGroupReorder_iff (hd : DistinctKeys Category.id s.categories)
    (hr : "uncategorized" ∉ s.categories.map Category.id) {groupId : String}
    (hgroup : groupId ∈ groupKeys s) {target : DropTarget} (hcontainer : target ≠ .container)
    (htarget : ∀ t, target = .item t → t ∈ groupKeys s)
    (hs' : applyCategoryGroupReorder s ⟨groupId⟩ target.beforeGroupKey = some s') :
    DropLaw (groupKeys s) groupId (groupKeys s') target ↔ IsPlainDrop s groupId target := by
  have hkeys := hasGroups_clamped hd hr
  have hdisplay : (clamped s).display = groupKeys s := by
    rw [← groupKeys_eq_display hkeys, groupKeys_clamped]
  have hnodup : (groupKeys s).Nodup := hdisplay ▸ hkeys.nodup_display
  obtain ⟨s'', hs'', hmoved, hok⟩ :=
    hkeys.applyCategoryGroupReorder (hdisplay.symm ▸ hgroup) target.beforeGroupKey
  rw [applyCategoryGroupReorder_clamped hgroup] at hs''
  obtain rfl := Option.some_inj.mp (hs'.symm.trans hs'')
  rw [IsPlainDrop, and_iff_right hr, groupKeys_eq_display hok.hasGroups, hmoved, hdisplay]
  cases target with
  | endZone => exact iff_of_true rfl nofun
  | container => exact absurd rfl hcontainer
  | item t =>
    dsimp only [DropLaw, DropTarget.beforeGroupKey]
    rw [Option.filter_some]
    by_cases hself : t = groupId
    · subst hself
      rw [if_pos rfl, if_neg (by simp)]
      obtain ⟨l, l', hsplit⟩ := List.append_of_mem hgroup
      rw [hsplit] at hnodup ⊢
      have hnot := (List.nodup_cons.mp (List.nodup_middle.mp hnodup)).1
      have hne : ∀ {k : List String}, t ∉ k → k.filter (· ≠ t) = k := fun hk =>
        List.filter_eq_self.mpr fun x hx => decide_eq_true fun heq => hk (heq ▸ hx)
      have hrest : (l ++ t :: l').filter (· ≠ t) = l ++ l' := by
        rw [List.filter_append, List.filter_cons_of_neg (by simp),
          hne fun hmem => hnot (List.mem_append_left _ hmem),
          hne fun hmem => hnot (List.mem_append_right _ hmem)]
      have hlast := append_replicate_filter_iff (n := 1) (k := 1) (l := l) Nat.one_pos
        fun hmem => hnot (List.mem_append_right l hmem)
      rw [and_iff_right rfl] at hlast
      simp only [moveBefore, hrest, forall_const]
      exact hlast
    · have hmem : t ∈ (groupKeys s).filter (· ≠ groupId) :=
        List.mem_filter.mpr ⟨htarget t rfl, decide_eq_true hself⟩
      rw [if_neg hself, if_pos (decide_eq_true hmem)]
      exact iff_of_true rfl fun heq => absurd (DropTarget.item.inj heq) hself

end TodoCategoryModeView

/-! ## Every drop -/

/-- Every handler of a drop, of a task on a group or of a group on a slot, acts as the law says
where the drop is plain, and only there. (A category whose id is the name that the code has for the
uncategorized group is left out of the second half.) -/
theorem drop_lawful_iff {s : LocalStore} (hd : DistinctIds s.tasks)
    (hk : DistinctOrderKeys s.tasks) (hshown : (makeCategoryLookup s.sortedCategories).isSome)
    (c : TodoCalendar) (showingDone : Bool) :
    (∀ (group : TaskGroup), ∀ task ∈ TodosView.filteredTasks s showingDone,
      ∀ (sourceGroupId : String) (target : DropTarget),
      (∀ t, target = .item t → t ∈ group.display c s showingDone) →
      ∃ s', group.drop c s ⟨task.id, sourceGroupId⟩ target showingDone = some s' ∧
        (group.IsPlainDrop c s showingDone task sourceGroupId target →
          DropLaw (group.display c s showingDone) task.id (group.display c s' showingDone)
            target) ∧
        (¬group.IsReserved →
          DropLaw (group.display c s showingDone) task.id (group.display c s' showingDone)
            target → group.IsPlainDrop c s showingDone task sourceGroupId target)) ∧
    ∀ groupId ∈ TodoCategoryModeView.groupKeys s, ∀ target ≠ DropTarget.container,
      (∀ t, target = .item t → t ∈ TodoCategoryModeView.groupKeys s) →
      ∃ s', TodoCategoryModeView.applyCategoryGroupReorder s ⟨groupId⟩ target.beforeGroupKey =
          some s' ∧
        (TodoCategoryModeView.IsPlainDrop s groupId target →
          DropLaw (TodoCategoryModeView.groupKeys s) groupId (TodoCategoryModeView.groupKeys s')
            target) ∧
        ("uncategorized" ∉ s.categories.map Category.id →
          DropLaw (TodoCategoryModeView.groupKeys s) groupId (TodoCategoryModeView.groupKeys s')
            target → TodoCategoryModeView.IsPlainDrop s groupId target) := by
  have hcategories : DistinctKeys Category.id s.categories := by
    unfold makeCategoryLookup uniqueKeysWithValues at hshown
    split_ifs at hshown with hdistinct
    · exact hdistinct.perm (LocalStore.perm_sortedByCategorySort s.categories)
    · exact absurd hshown Bool.false_ne_true
  refine ⟨fun group task ht sourceGroupId target htarget => ?_,
    fun groupId hgroup target hcontainer htarget => ?_⟩
  · obtain ⟨s', hs'⟩ := group.exists_drop c showingDone hd (TodosView.mem_of_mem_filteredTasks ht)
      sourceGroupId target
    refine ⟨s', hs', fun hplain => ?_, fun hr hlaw => ?_⟩
    · exact (TaskGroup.dropLaw_drop_iff hplain.1 hd hk ht htarget hs').mpr hplain
    · exact (TaskGroup.dropLaw_drop_iff hr hd hk ht htarget hs').mp hlaw
  · obtain ⟨s', hs'⟩ := TodoCategoryModeView.exists_applyCategoryGroupReorder hcategories groupId
      target.beforeGroupKey
    refine ⟨s', hs', fun hplain => ?_, fun hr hlaw => ?_⟩
    · exact (TodoCategoryModeView.dropLaw_applyCategoryGroupReorder_iff hcategories hplain.1 hgroup
        hcontainer htarget hs').mpr hplain
    · exact (TodoCategoryModeView.dropLaw_applyCategoryGroupReorder_iff hcategories hr hgroup
        hcontainer htarget hs').mp hlaw

/-- A calendar of a Thursday, on which the week has two days left. -/
def thursday : TodoCalendar where
  now := .seconds 0
  dateByAddingDays value _ := some (.seconds (86400 * value))
  isDateInToday date := date = .seconds 0
  isDateInTomorrow date := date = .seconds 86400
  isInWeekOfNow date := date < .seconds 259200

/-- An open task with an order, for the samples below. -/
def openTask (id : String) (orderIndex : ℤ) : Task where
  id := id
  title := ""
  createdAt := .seconds 0
  updatedAt := .seconds 0
  orderIndex := some orderIndex

/-- Two open tasks. -/
def twoTasks : LocalStore where
  tasks := [openTask "a" 2, openTask "b" 1]

theorem drop_lawful_iff_twoTasks :
    ∃ s', TaskGroup.list.drop thursday twoTasks ⟨"b", "all"⟩ (.item "a") false = some s' ∧
      DropLaw (TaskGroup.list.display thursday twoTasks false) "b"
        (TaskGroup.list.display thursday s' false) (.item "a") := by
  have hk : DistinctOrderKeys twoTasks.tasks := by decide
  have hmem : openTask "b" 1 ∈ TodosView.filteredTasks twoTasks false := by decide
  have htarget : ∀ t, DropTarget.item "a" = .item t →
      t ∈ TaskGroup.list.display thursday twoTasks false := by
    rintro t ⟨⟩
    decide
  obtain ⟨s', hs', hlaw, -⟩ := (drop_lawful_iff (by decide) hk (by decide) thursday false).1 .list
    _ hmem "all" (.item "a") htarget
  exact ⟨s', hs', hlaw ⟨nofun, rfl, by decide⟩⟩

/-- A task that is dropped on its own row moves to the front. -/
theorem not_dropLaw_twoTasks : ¬ ∀ s : LocalStore, DistinctIds s.tasks →
    DistinctOrderKeys s.tasks → (makeCategoryLookup s.sortedCategories).isSome → ∀ s' c,
    TaskGroup.list.drop c s ⟨"b", "all"⟩ (.item "b") false = some s' →
    "b" ∈ TaskGroup.list.display c s false →
    DropLaw (TaskGroup.list.display c s false) "b" (TaskGroup.list.display c s' false)
      (.item "b") := by
  intro h
  have hlaw := h twoTasks (by decide) (by decide) (by decide) _ thursday rfl (by decide)
  rw [DropLaw, if_pos rfl] at hlaw
  exact absurd hlaw (by decide +kernel)

end Notelayer
