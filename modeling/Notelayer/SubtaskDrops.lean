import Notelayer.TaskDrops

/-!
# Dropping a task among subtasks

The drop moves the task under the parent and then reorders the subtasks that are shown, with the
task put among them. `setParent` refuses some moves, and the reordering goes on without it : the
tasks are left as they were only if they stand in the requested order, in front of all others and
with the keys of the same instant (`applySubtaskDrop_refused_iff`). Once the clock has moved on,
that is so only if none of the requested tasks exist (`inPlace_iff_of_ne`).
-/

namespace Notelayer

open KeyedList

/-! ## The drop -/

/-- The order that a drop among the subtasks requests. -/
def subtaskDropOrder (store : LocalStore) (draggedId parentTaskId : String)
    (beforeTaskId : Option String) (showingDone : Bool) : List String :=
  let ordered := (store.subtasks parentTaskId (some showingDone)).map Task.id
  putBack (ordered.filter (· ≠ draggedId)) draggedId beforeTaskId

/-- A drop among the subtasks of a parent : a new parent, then a reordering. -/
def TodoGroupTaskList.applySubtaskDrop (store : LocalStore) (payload : TodoDragPayload)
    (parentTaskId : String) (beforeTaskId : Option String) (showingDone : Bool) (now : Date) :
    Option LocalStore :=
  if payload.taskId = parentTaskId then some store
  else
    let store := store.setParent payload.taskId (some parentTaskId) now
    store.reorderTasks
      (subtaskDropOrder store payload.taskId parentTaskId beforeTaskId showingDone) now

/-- The task does not exist, it has subtasks, or the parent is no top-level task. -/
def LocalStore.RefusesMove (s : LocalStore) (taskId parentId : String) : Prop :=
  taskId ∉ s.tasks.map Task.id ∨ s.hasSubtasks taskId = true ∨
    topLevelTaskWithId s.tasks parentId = none

/-- The requested tasks that exist stand in front in the requested order, with the keys and the
time of a reordering at `now`. -/
def InPlace (tasks : List Task) (orderedIds : List String) (now : Date) : Prop :=
  ∀ (i : ℕ) (id : String), (orderedIds.filter (· ∈ tasks.map Task.id))[i]? = some id →
    ∃ t, tasks[i]? = some t ∧ t.id = id ∧ t.orderIndex = some (now.milliseconds - i) ∧
      t.updatedAt = now

namespace LocalStore

variable {s s' : LocalStore} {now : Date}

/-- A refused move changes nothing. -/
theorem setParent_of_refusesMove {taskId parentId : String} (h : s.RefusesMove taskId parentId) :
    s.setParent taskId (some parentId) now = s := by
  unfold setParent
  split
  · rfl
  · rename_i index task hentry
    have hexists : taskId ∈ s.tasks.map Task.id := by
      obtain ⟨hi, hid⟩ := firstEntry_eq_some hentry
      exact List.mem_map.mpr ⟨task, List.mem_of_getElem? hi, of_decide_eq_true hid⟩
    have hrefused : s.refusesParent taskId (some parentId) = true := by
      rcases h with hmissing | hsub | hroot
      · exact absurd hexists hmissing
      · simp [refusesParent, hsub]
      · simp [refusesParent, hroot]
    exact if_pos hrefused

/-! ## What a reordering leaves alone -/

theorem getElem?_rekeyedTasks (tasks : List Task) (orderedIds : List String) (i : ℕ) :
    (rekeyedTasks tasks orderedIds now)[i]? =
      (orderedIds.filterMap (taskWithId tasks))[i]?.map
        (Task.reordered · (now.milliseconds - i) now) := by
  unfold rekeyedTasks
  rw [List.getElem?_mapIdx]

/-- The new orders are those of the list if and only if every task is in its place. -/
theorem rekeyedTasks_isPrefix_iff {tasks : List Task} (hd : DistinctIds tasks)
    (orderedIds : List String) :
    rekeyedTasks tasks orderedIds now <+: tasks ↔ InPlace tasks orderedIds now := by
  have hids : ∀ i : ℕ, (orderedIds.filter (· ∈ tasks.map Task.id))[i]? =
      (orderedIds.filterMap (taskWithId tasks))[i]?.map Task.id := by
    intro i
    rw [← ids_filterMap_taskWithId, List.getElem?_map]
  constructor
  · intro hprefix i id hid
    rw [hids] at hid
    obtain ⟨u, hu, rfl⟩ := Option.map_eq_some_iff.mp hid
    have hrekeyed : (rekeyedTasks tasks orderedIds now)[i]? =
        some (u.reordered (now.milliseconds - i) now) := by
      rw [getElem?_rekeyedTasks, hu, Option.map_some]
    obtain ⟨hi, hget⟩ := List.getElem?_eq_some_iff.mp hrekeyed
    exact ⟨_, (List.prefix_iff_getElem?.mp hprefix i hi).trans (congrArg some hget), rfl, rfl,
      rfl⟩
  · intro h
    refine List.prefix_iff_getElem?.mpr fun i hi => ?_
    have hrekeyed : (rekeyedTasks tasks orderedIds now)[i]? = _ :=
      getElem?_rekeyedTasks tasks orderedIds i
    rw [List.getElem?_eq_getElem hi] at hrekeyed
    obtain ⟨u, hu, heq⟩ := Option.map_eq_some_iff.mp hrekeyed.symm
    obtain ⟨t, ht, hid, hkey, htime⟩ := h i u.id (by rw [hids, hu, Option.map_some])
    obtain ⟨x, -, hlookup⟩ := List.mem_filterMap.mp (List.mem_of_getElem? hu)
    obtain rfl : t = u :=
      List.inj_on_of_nodup_map hd (List.mem_of_getElem? ht) (mem_of_lookup hlookup) hid
    have hsame : t.reordered (now.milliseconds - i) now = t := by
      unfold Task.reordered
      rw [← htime] at hkey ⊢
      rw [← hkey]
    rw [ht, ← heq, hsame]

/-- A reordering leaves the list as it is if and only if every task is in its place. -/
theorem tasks_reorderTasks_eq_iff {orderedIds : List String} (hd : DistinctIds s.tasks)
    (h : s.reorderTasks orderedIds now = some s') :
    s'.tasks = s.tasks ↔ InPlace s.tasks orderedIds now := by
  rw [tasks_reorderTasks h, ← rekeyedTasks_isPrefix_iff hd]
  constructor
  · intro heq
    exact ⟨_, heq⟩
  · rintro ⟨rest, hrest⟩
    have hids := ids_rekeyedTasks s.tasks orderedIds now
    have hnodup : DistinctIds (rekeyedTasks s.tasks orderedIds now ++ rest) := by
      rwa [hrest]
    rw [DistinctIds, DistinctKeys, List.map_append] at hnodup
    have hfront : (rekeyedTasks s.tasks orderedIds now).filter (fun t => t.id ∉ orderedIds) =
        [] := by
      refine List.filter_eq_nil_iff.mpr fun t ht => ?_
      obtain ⟨u, -, hu, key, rfl⟩ := mem_rekeyedTasks ht
      exact fun hout => of_decide_eq_true hout hu
    have hback : rest.filter (fun t => t.id ∉ orderedIds) = rest := by
      refine List.filter_eq_self.mpr fun t ht => decide_eq_true fun hid => ?_
      have htasks : t ∈ s.tasks := hrest ▸ List.mem_append_right _ ht
      have hfirst : t.id ∈ (rekeyedTasks s.tasks orderedIds now).map Task.id := by
        rw [hids]
        exact List.mem_filter.mpr ⟨hid, decide_eq_true (List.mem_map_of_mem htasks)⟩
      exact List.disjoint_of_nodup_append hnodup hfirst (List.mem_map_of_mem ht)
    calc rekeyedTasks s.tasks orderedIds now ++ s.tasks.filter (fun t => t.id ∉ orderedIds)
        = rekeyedTasks s.tasks orderedIds now ++
            (rekeyedTasks s.tasks orderedIds now ++ rest).filter (fun t => t.id ∉ orderedIds) := by
          rw [hrest]
      _ = rekeyedTasks s.tasks orderedIds now ++ rest := by
          rw [List.filter_append, hfront, hback, List.nil_append]
      _ = s.tasks := hrest

end LocalStore

/-- If no task was written at the instant, only a request for tasks that do not exist is in
place. -/
theorem inPlace_iff_of_ne {tasks : List Task} {now : Date} (h : ∀ t ∈ tasks, t.updatedAt ≠ now)
    (orderedIds : List String) :
    InPlace tasks orderedIds now ↔ ∀ id ∈ orderedIds, id ∉ tasks.map Task.id := by
  constructor
  · intro hplace id hid hmem
    have hlisted : id ∈ orderedIds.filter (· ∈ tasks.map Task.id) :=
      List.mem_filter.mpr ⟨hid, decide_eq_true hmem⟩
    obtain ⟨i, hi⟩ := List.mem_iff_getElem?.mp hlisted
    obtain ⟨t, ht, -, -, htime⟩ := hplace i id hi
    exact h t (List.mem_of_getElem? ht) htime
  · intro hnone i id hi
    obtain ⟨hid, hmem⟩ := List.mem_filter.mp (List.mem_of_getElem? hi)
    exact absurd (of_decide_eq_true hmem) (hnone id hid)

/-- A drop whose move is refused leaves the tasks if and only if the task is dropped on itself or
the requested tasks are in place. -/
theorem applySubtaskDrop_refused_iff {s : LocalStore} {payload : TodoDragPayload}
    {parentTaskId : String} (hr : s.RefusesMove payload.taskId parentTaskId)
    (beforeTaskId : Option String) (showingDone : Bool) (now : Date) :
    (∃ s', TodoGroupTaskList.applySubtaskDrop s payload parentTaskId beforeTaskId showingDone now =
        some s' ∧ s'.tasks = s.tasks) ↔
      payload.taskId = parentTaskId ∨ DistinctIds s.tasks ∧ InPlace s.tasks
        (subtaskDropOrder s payload.taskId parentTaskId beforeTaskId showingDone) now := by
  unfold TodoGroupTaskList.applySubtaskDrop
  by_cases hself : payload.taskId = parentTaskId
  · rw [if_pos hself]
    exact iff_of_true ⟨s, rfl, rfl⟩ (Or.inl hself)
  · rw [if_neg hself, or_iff_right hself, LocalStore.setParent_of_refusesMove hr]
    constructor
    · rintro ⟨s', hs', htasks⟩
      have hd : DistinctIds s.tasks := by
        by_contra hd
        simp [LocalStore.reorderTasks, uniqueKeysWithValues, hd] at hs'
      exact ⟨hd, (LocalStore.tasks_reorderTasks_eq_iff hd hs').mp htasks⟩
    · rintro ⟨hd, hplace⟩
      obtain ⟨s', hs'⟩ : ∃ s', s.reorderTasks (subtaskDropOrder s payload.taskId parentTaskId
          beforeTaskId showingDone) now = some s' :=
        ⟨_, congrArg _ (if_pos hd)⟩
      exact ⟨s', hs', (LocalStore.tasks_reorderTasks_eq_iff hd hs').mpr hplace⟩

/-- A parent with a subtask, after another task. -/
def sampleFamily : LocalStore where
  tasks := [{ Task.sampleParent with id := "other" }, .sampleParent, .sampleSubtask]

theorem hierarchyOk_sampleFamily : HierarchyOk sampleFamily.tasks := by
  refine ⟨by decide, fun t ht p hp => ⟨.sampleParent, by decide, ?_⟩⟩
  simp only [sampleFamily, List.mem_cons, List.not_mem_nil, or_false] at ht
  rcases ht with rfl | rfl | rfl
  · exact absurd hp nofun
  · exact absurd hp nofun
  · exact ⟨Option.some_inj.mp hp, by decide, rfl⟩

/-- Nothing is requested if the dragged task is gone and the parent has no subtasks. -/
theorem applySubtaskDrop_refused_iff_gone :
    (∃ s', TodoGroupTaskList.applySubtaskDrop sampleFamily ⟨"gone", "all"⟩ "other" none false
        (.seconds 9) = some s' ∧ s'.tasks = sampleFamily.tasks) ↔
      "gone" = "other" ∨ DistinctIds sampleFamily.tasks ∧ InPlace sampleFamily.tasks
        (subtaskDropOrder sampleFamily "gone" "other" none false) (.seconds 9) := by
  have hr : sampleFamily.RefusesMove "gone" "other" := Or.inl (by decide)
  exact applySubtaskDrop_refused_iff hr none false (.seconds 9)

/-- A parent that is dropped among the subtasks of another task gets a new key and moves to the
front of the list. -/
theorem not_applySubtaskDrop_unchanged :
    HierarchyOk sampleFamily.tasks ∧ sampleFamily.RefusesMove "parent" "other" ∧
      ∃ s', TodoGroupTaskList.applySubtaskDrop sampleFamily ⟨"parent", "all"⟩ "other" none false
          (.seconds 9) = some s' ∧
        s'.tasks = [Task.sampleParent.reordered 9000 (.seconds 9),
          { Task.sampleParent with id := "other" }, .sampleSubtask] ∧
        s'.tasks ≠ sampleFamily.tasks := by
  refine ⟨hierarchyOk_sampleFamily, Or.inr (Or.inl (by decide)), ?_⟩
  have hrun : (TodoGroupTaskList.applySubtaskDrop sampleFamily ⟨"parent", "all"⟩ "other" none false
      (.seconds 9)).map LocalStore.tasks = some [Task.sampleParent.reordered 9000 (.seconds 9),
        { Task.sampleParent with id := "other" }, .sampleSubtask] := by decide +kernel
  obtain ⟨s', hs', htasks⟩ := Option.map_eq_some_iff.mp hrun
  refine ⟨s', hs', htasks, ?_⟩
  rw [htasks]
  decide

end Notelayer
