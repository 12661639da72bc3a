import Notelayer.Hierarchy

/-!
# Deleting a parent

`deleteParentTask` goes through the subtasks, and each round writes to the list and reconciles
the parent, which may complete or reopen it. All of this happens to the parent, which is deleted
at the end : what a round does to the list without the parent is to take the subtask out of it,
or to detach it (`remove_deleteTask_child`, `remove_setParent_child`). So the result is the list
without the parent and with its subtasks gone or detached (`tasks_deleteParentTask`).
-/

namespace Notelayer

open KeyedList

/-- A subtask that was detached. -/
def Task.detached (t : Task) (now : Date) : Task :=
  { t with parentTaskId := none, updatedAt := now }

/-- Detach the tasks with these ids. -/
def Task.detachedIn (ids : List String) (now : Date) (t : Task) : Task :=
  if t.id ∈ ids then t.detached now else t

theorem Task.detachedIn_of_notMem {ids : List String} {t : Task} (h : t.id ∉ ids) (now : Date) :
    t.detachedIn ids now = t :=
  if_neg h

theorem Task.detachedIn_id (ids : List String) (now : Date) (t : Task) :
    (t.detachedIn ids now).id = t.id := by
  unfold detachedIn
  split_ifs <;> rfl

/-- Detaching one task and then others is detaching them all. -/
theorem Task.detachedIn_cons (k : String) (ks : List String) (now : Date) (t : Task) :
    (t.detachedIn [k] now).detachedIn ks now = t.detachedIn (k :: ks) now := by
  unfold detachedIn
  by_cases hk : t.id = k
  · simp [hk, detached]
  · simp [hk]

namespace LocalStore

variable {s : LocalStore} {p : String} (now : Date)

/-! ## One round -/

/-- The task `p` is top-level, and the tasks with the ids `ks` are its subtasks. -/
def IsFamily (s : LocalStore) (p : String) (ks : List String) : Prop :=
  (∀ t ∈ s.tasks, t.id = p → t.parentTaskId = none) ∧
    ∀ t ∈ s.tasks, t.id ∈ ks → t.parentTaskId = some p

/-- Reconciling a task is not seen without it. -/
theorem remove_reconcileParent (s : LocalStore) (p : String) (r : Bool) :
    remove Task.id (s.reconcileParent (some p) r now).tasks p = remove Task.id s.tasks p := by
  rcases s.reconcileParentCompletion_cases p r now with
    hs | ⟨i, old, new, c, hi, rfl, -, hid, -, -, hs⟩
  · rw [reconcileParent, hs]
  · rw [reconcileParent, hs, tasks_spawnSync, tasks_saveTasks, tasks_setTask]
    exact remove_set hi hid

variable {now} in
/-- A reconciliation writes no task but the parent. -/
theorem mem_reconcileParent {r : Bool} {t : Task}
    (ht : t ∈ (s.reconcileParent (some p) r now).tasks) :
    t ∈ s.tasks ∨ t.id = p ∧ t.parentTaskId = none := by
  rcases s.reconcileParentCompletion_cases p r now with
    hs | ⟨i, old, new, c, hi, -, -, hid, hroot, -, hs⟩
  · rw [reconcileParent, hs] at ht
    exact Or.inl ht
  · rw [reconcileParent, hs, tasks_spawnSync, tasks_saveTasks, tasks_setTask] at ht
    rcases List.mem_or_eq_of_mem_set ht with h | rfl
    · exact Or.inl h
    · exact Or.inr ⟨hid, hroot⟩

theorem IsFamily.reconcileParent {ks : List String} (h : s.IsFamily p ks) (hp : p ∉ ks)
    (r : Bool) : (s.reconcileParent (some p) r now).IsFamily p ks := by
  refine ⟨fun t ht hid => ?_, fun t ht hk => ?_⟩
  · rcases mem_reconcileParent ht with ht | ⟨-, hroot⟩
    · exact h.1 t ht hid
    · exact hroot
  · rcases mem_reconcileParent ht with ht | ⟨rfl, -⟩
    · exact h.2 t ht hk
    · exact absurd hk hp

theorem IsFamily.congr {s' : LocalStore} {ks : List String} (h : s.IsFamily p ks)
    (hs : ∀ t ∈ s'.tasks, t ∈ s.tasks ∨ t.id ≠ p ∧ t.id ∉ ks) : s'.IsFamily p ks := by
  refine ⟨fun t ht hid => ?_, fun t ht hk => ?_⟩
  · exact h.1 t ((hs t ht).resolve_right fun hne => hne.1 hid) hid
  · exact h.2 t ((hs t ht).resolve_right fun hne => hne.2 hk) hk

theorem IsFamily.tail {k : String} {ks : List String} (h : s.IsFamily p (k :: ks)) :
    s.IsFamily p ks :=
  ⟨h.1, fun t ht hk => h.2 t ht (List.mem_cons_of_mem k hk)⟩

/-- The link of a subtask, if it is there. -/
theorem IsFamily.parent_eq {k : String} {ks : List String} (h : s.IsFamily p (k :: ks)) :
    (taskWithId s.tasks k).bind Task.parentTaskId = none ∨
      (taskWithId s.tasks k).bind Task.parentTaskId = some p := by
  cases hk : taskWithId s.tasks k with
  | none => exact Or.inl rfl
  | some t =>
    refine Or.inr (h.2 t (mem_of_lookup hk) ?_)
    rw [key_of_lookup hk]
    exact List.mem_cons_self

/-- A round reconciles at most the parent, after it took the subtask out. -/
theorem deleteTask_eq_reconcileParent (s : LocalStore) (k : String) (now : Date) :
    ∃ s₁ : LocalStore, s₁.tasks = remove Task.id s.tasks k ∧ s.deleteTask k now =
      s₁.reconcileParent ((taskWithId s.tasks k).bind Task.parentTaskId) true now :=
  ⟨_, by simp, rfl⟩

/-- Deleting a subtask takes it out of the list without its parent. -/
theorem IsFamily.deleteTask {k : String} {ks : List String} (h : s.IsFamily p (k :: ks))
    (hp : p ∉ ks) : (s.deleteTask k now).IsFamily p ks ∧
      remove Task.id (s.deleteTask k now).tasks p =
        (remove Task.id s.tasks p).filter fun t => t.id ≠ k := by
  obtain ⟨s₁, htasks, hs₁⟩ := s.deleteTask_eq_reconcileParent k now
  have h₁ : s₁.IsFamily p ks :=
    h.tail.congr fun t ht => Or.inl (List.mem_of_mem_filter (htasks ▸ ht))
  have hremove : remove Task.id s₁.tasks p =
      (remove Task.id s.tasks p).filter fun t => t.id ≠ k := by
    rw [htasks, remove, remove, remove, List.filter_filter, List.filter_filter]
    exact List.filter_congr fun t _ => Bool.and_comm _ _
  rcases h.parent_eq with hlink | hlink
  · rw [hs₁, hlink]
    exact ⟨h₁, hremove⟩
  · rw [hs₁, hlink, remove_reconcileParent]
    exact ⟨h₁.reconcileParent now hp true, hremove⟩

/-- Detaching a subtask is not refused, and reconciles its old parent. -/
theorem setParent_none_eq (hd : DistinctIds s.tasks) (k : String) (now : Date) :
    ∃ s₁ : LocalStore, s₁.tasks = s.tasks.map (Task.detachedIn [k] now) ∧
      (s.setParent k none now).tasks =
        (s₁.reconcileParent ((taskWithId s.tasks k).bind Task.parentTaskId) true now).tasks := by
  unfold setParent
  split
  · rename_i hentry
    have hne : ∀ t ∈ s.tasks, t.id ≠ k :=
      fun t ht => by simpa using firstEntry_eq_none hentry t ht
    have hkept : s.tasks.map (Task.detachedIn [k] now) = s.tasks := by
      refine (List.map_congr_left fun t ht => ?_).trans (List.map_id s.tasks)
      simp [Task.detachedIn, hne t ht]
    refine ⟨s, hkept.symm, ?_⟩
    rw [taskWithId, lookup_eq_none_iff.mpr hne]
    rfl
  · rename_i i task hentry
    obtain ⟨hi, hid⟩ := firstEntry_eq_some hentry
    obtain rfl : task.id = k := by simpa using hid
    refine ⟨(s.setTask i (task.detached now)).saveTasks, ?_, ?_⟩
    · rw [tasks_saveTasks, tasks_setTask, set_eq_map hd hi fun t => t.detached now]
      exact List.map_congr_left fun t _ => by simp [Task.detachedIn]
    · have hnot : ¬s.refusesParent task.id none = true := Bool.false_ne_true
      rw [if_neg hnot, taskWithId, lookup_of_mem hd (List.mem_of_getElem? hi), tasks_spawnSync]
      rfl

/-- Detaching a subtask detaches it in the list without its parent. -/
theorem IsFamily.setParent {k : String} {ks : List String} (hd : DistinctIds s.tasks)
    (h : s.IsFamily p (k :: ks)) (hp : p ∉ k :: ks) (hk : k ∉ ks) :
    (s.setParent k none now).IsFamily p ks ∧
      remove Task.id (s.setParent k none now).tasks p =
        (remove Task.id s.tasks p).map (Task.detachedIn [k] now) := by
  obtain ⟨s₁, htasks, hs₁⟩ := setParent_none_eq hd k now
  have hne : p ≠ k := fun heq => hp (heq ▸ List.mem_cons_self)
  have h₁ : s₁.IsFamily p ks := by
    refine h.tail.congr fun t' ht' => ?_
    rw [htasks] at ht'
    obtain ⟨t, ht, rfl⟩ := List.mem_map.mp ht'
    by_cases hid : t.id = k
    · rw [Task.detachedIn_id, hid]
      exact Or.inr ⟨hne.symm, hk⟩
    · rw [Task.detachedIn_of_notMem (by simpa using hid)]
      exact Or.inl ht
  have hremove : remove Task.id s₁.tasks p =
      (remove Task.id s.tasks p).map (Task.detachedIn [k] now) := by
    rw [htasks, remove, remove, List.filter_map]
    refine congrArg _ (List.filter_congr fun t _ => ?_)
    rw [Function.comp_apply, Task.detachedIn_id]
  have hfamily : (s₁.reconcileParent ((taskWithId s.tasks k).bind Task.parentTaskId) true
      now).IsFamily p ks ∧ remove Task.id (s₁.reconcileParent
        ((taskWithId s.tasks k).bind Task.parentTaskId) true now).tasks p =
          (remove Task.id s.tasks p).map (Task.detachedIn [k] now) := by
    rcases h.parent_eq with hlink | hlink
    · rw [hlink]
      exact ⟨h₁, hremove⟩
    · rw [hlink, remove_reconcileParent]
      exact ⟨h₁.reconcileParent now (fun hmem => hp (List.mem_cons_of_mem k hmem)) true, hremove⟩
  refine ⟨hfamily.1.congr fun t ht => Or.inl (hs₁ ▸ ht), ?_⟩
  rw [hs₁]
  exact hfamily.2

/-! ## The loops -/

/-- The subtasks are deleted one after another. -/
theorem IsFamily.foldl_deleteTask {ks : List String} (h : s.IsFamily p ks) (hp : p ∉ ks) :
    (ks.foldl (fun s k => s.deleteTask k now) s).IsFamily p [] ∧
      remove Task.id (ks.foldl (fun s k => s.deleteTask k now) s).tasks p =
        (remove Task.id s.tasks p).filter fun t => t.id ∉ ks := by
  induction ks generalizing s with
  | nil => simpa using h
  | cons k ks ih =>
    obtain ⟨hstep, hremove⟩ := h.deleteTask now fun hmem => hp (List.mem_cons_of_mem k hmem)
    obtain ⟨hloop, hlist⟩ := ih hstep fun hmem => hp (List.mem_cons_of_mem k hmem)
    refine ⟨hloop, hlist.trans ?_⟩
    rw [hremove, List.filter_filter]
    refine List.filter_congr fun t _ => ?_
    simp [Bool.and_comm]

/-- The subtasks are detached one after another. -/
theorem IsFamily.foldl_setParent {ks : List String} (hd : DistinctIds s.tasks)
    (h : s.IsFamily p ks) (hp : p ∉ ks) (hn : ks.Nodup) :
    (ks.foldl (fun s k => s.setParent k none now) s).IsFamily p [] ∧
      remove Task.id (ks.foldl (fun s k => s.setParent k none now) s).tasks p =
        (remove Task.id s.tasks p).map (Task.detachedIn ks now) := by
  induction ks generalizing s with
  | nil =>
    refine ⟨h, ?_⟩
    exact ((List.map_congr_left fun t _ => by simp [Task.detachedIn]).trans (List.map_id _)).symm
  | cons k ks ih =>
    obtain ⟨hk, hn⟩ := List.nodup_cons.mp hn
    obtain ⟨hstep, hremove⟩ := h.setParent now hd hp hk
    obtain ⟨hloop, hlist⟩ := ih (distinctIds_congr (ids_setParent k none now) hd) hstep
      (fun hmem => hp (List.mem_cons_of_mem k hmem)) hn
    refine ⟨hloop, hlist.trans ?_⟩
    rw [hremove, List.map_map]
    exact List.map_congr_left fun t _ => t.detachedIn_cons k ks now

/-- Without subtasks left, only the parent is deleted. -/
theorem IsFamily.deleteTask_parent (h : s.IsFamily p []) :
    (s.deleteTask p now).tasks = remove Task.id s.tasks p := by
  obtain ⟨s₁, htasks, hs₁⟩ := s.deleteTask_eq_reconcileParent p now
  have hlink : (taskWithId s.tasks p).bind Task.parentTaskId = none := by
    cases hp : taskWithId s.tasks p with
    | none => rfl
    | some t => exact h.1 t (mem_of_lookup hp) (key_of_lookup hp)
  rw [hs₁, hlink]
  exact htasks

/-- With distinct ids, the ids of the subtasks are those of the tasks that link to the parent. -/
theorem mem_childIds_iff (hd : DistinctIds s.tasks) {t : Task} (ht : t ∈ s.tasks) :
    t.id ∈ s.childIds p ↔ t.parentTaskId = some p := by
  rw [mem_childIds hd, isChild_view_iff hd]
  constructor
  · rintro ⟨u, hu, hid, hlink⟩
    exact List.inj_on_of_nodup_map hd hu ht hid ▸ hlink
  · exact fun hlink => ⟨t, ht, rfl, hlink⟩

theorem isFamily_childIds (hd : DistinctIds s.tasks) {t : Task} (ht : t ∈ s.tasks)
    (hroot : t.parentTaskId = none) : s.IsFamily t.id (s.childIds t.id) := by
  refine ⟨fun u hu hid => ?_, fun u hu hmem => (mem_childIds_iff hd hu).mp hmem⟩
  rw [List.inj_on_of_nodup_map hd hu ht hid, hroot]

end LocalStore

/-- For any completion and override states : with `deleteSubtasks` the result is the list without
the parent and its subtasks, and with `detachSubtasks` it is the list without the parent, in which
its subtasks are top-level and edited now. All other tasks are as they were and where they were. -/
theorem tasks_deleteParentTask {s : LocalStore} (h : HierarchyOk s.tasks) {p : Task}
    (hp : p ∈ s.tasks) (hroot : p.parentTaskId = none) (now : Date) :
    (s.deleteParentTask p.id .deleteSubtasks now).tasks =
        s.tasks.filter (fun t => t.id ≠ p.id ∧ t.parentTaskId ≠ some p.id) ∧
      (s.deleteParentTask p.id .detachSubtasks now).tasks =
        (s.tasks.filter fun t => t.id ≠ p.id).map fun t =>
          if t.parentTaskId = some p.id then { t with parentTaskId := none, updatedAt := now }
          else t := by
  have hd := h.1
  have hfamily := LocalStore.isFamily_childIds hd hp hroot
  have hself : p.id ∉ s.childIds p.id := by
    rw [LocalStore.mem_childIds_iff hd hp, hroot]
    exact (Option.some_ne_none p.id).symm
  refine ⟨?_, ?_⟩
  · obtain ⟨hloop, hlist⟩ := hfamily.foldl_deleteTask now hself
    rw [LocalStore.deleteParentTask_eq hd]
    refine (hloop.deleteTask_parent now).trans (hlist.trans ?_)
    rw [remove, List.filter_filter]
    refine List.filter_congr fun t ht => ?_
    rw [Bool.and_comm, ← Bool.decide_and]
    simp only [LocalStore.mem_childIds_iff hd ht, ne_eq]
  · obtain ⟨hloop, hlist⟩ := hfamily.foldl_setParent now hd hself
      (LocalStore.nodup_childIds hd p.id)
    rw [LocalStore.deleteParentTask_eq hd]
    refine (hloop.deleteTask_parent now).trans (hlist.trans ?_)
    refine List.map_congr_left fun t ht => ?_
    simp only [Task.detachedIn, Task.detached,
      LocalStore.mem_childIds_iff hd (List.mem_of_mem_filter ht)]

/-- A completed parent with an open subtask and a completed one, and a task of its own. -/
def familyStore : LocalStore where
  tasks :=
    [{ id := "parent", title := "", createdAt := .seconds 0, updatedAt := .seconds 0,
       completedAt := some (.seconds 1) },
     { id := "open", title := "", createdAt := .seconds 0, updatedAt := .seconds 0,
       parentTaskId := some "parent" },
     { id := "done", title := "", createdAt := .seconds 0, updatedAt := .seconds 0,
       completedAt := some (.seconds 1), parentTaskId := some "parent" },
     { id := "other", title := "", createdAt := .seconds 0, updatedAt := .seconds 0 }]

theorem tasks_deleteParentTask_family :
    (familyStore.deleteParentTask "parent" .deleteSubtasks (.seconds 2)).tasks =
        familyStore.tasks.filter
          (fun t => t.id ≠ "parent" ∧ t.parentTaskId ≠ some "parent") ∧
      (familyStore.deleteParentTask "parent" .detachSubtasks (.seconds 2)).tasks =
        (familyStore.tasks.filter fun t => t.id ≠ "parent").map fun t =>
          if t.parentTaskId = some "parent" then
            { t with parentTaskId := none, updatedAt := .seconds 2 }
          else t := by
  have hok : HierarchyOk familyStore.tasks := by
    refine ⟨by decide, ?_⟩
    simp [familyStore]
  exact tasks_deleteParentTask hok List.mem_cons_self rfl (.seconds 2)

end Notelayer
