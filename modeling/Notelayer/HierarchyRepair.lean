import Notelayer.DeferredWrites
import Notelayer.Hierarchy

/-!
# The two repairs of the hierarchy

`sanitizeHierarchy` maps over the tasks. The task pass of `migrateIfNeeded` writes to the array
it reads from, one index at a time, and asks a lookup that was taken before the first write
(`migrateTasks`). A loop that at each index replaces the element by an image of itself is a map
(`foldl_inPlace`), so both passes yield the same list (`repairs_agree`), in which every link
names a top-level task and no subtask has an override, and in which no other task was touched.
-/

namespace Notelayer

open KeyedList

/-! ## Loops that write in place -/

section InPlace

variable {A : Type*} [DecidableEq A]

/-- A loop over the indices of a list that replaces each element by its image under `f`, and
notes whether one differs. The part of the list before the index is the loop's result so far. -/
theorem foldl_inPlace {f : A → A} {step : List A × Bool → ℕ → List A × Bool}
    (hstep : ∀ done a rest changed, step (done ++ a :: rest, changed) done.length =
      (done ++ f a :: rest, changed || decide (f a ≠ a)))
    (rest done : List A) (changed : Bool) :
    (List.range' done.length rest.length).foldl step (done ++ rest, changed) =
      (done ++ rest.map f, changed || decide (rest.map f ≠ rest)) := by
  induction rest generalizing done changed with
  | nil => simp
  | cons a rest ih =>
    have hnext := ih (done ++ [f a]) (changed || decide (f a ≠ a))
    rw [List.length_append, List.length_singleton, List.append_assoc, List.append_assoc,
      List.singleton_append] at hnext
    rw [List.length_cons, List.range'_succ, List.foldl_cons, hstep, hnext]
    refine Prod.ext rfl ?_
    simp [List.cons.injEq, Bool.or_assoc]

end InPlace

/-! ## The task pass of the migration -/

namespace LocalStore

/-- The first half of a round : the link at the index is cleared unless it names another task,
which is top-level. -/
def clearParentAt (taskLookup : String → Option Task) (state : List Task × Bool) (idx : ℕ) :
    List Task × Bool :=
  match state.1[idx]? with
  | none => state
  | some task =>
    match task.parentTaskId with
    | none => state
    | some parentId =>
      let parent := taskLookup parentId
      let parentIsTopLevel := parent.bind Task.parentTaskId = none
      if parent = none ∨ ¬parentIsTopLevel ∨ parentId = task.id then
        (state.1.set idx { task with parentTaskId := none }, true)
      else state

/-- The second half : a task that is still a subtask loses its override. -/
def clearOverrideAt (state : List Task × Bool) (idx : ℕ) : List Task × Bool :=
  match state.1[idx]? with
  | none => state
  | some task =>
    if task.parentTaskId.isSome && task.parentManualReopenAt.isSome then
      (state.1.set idx { task with parentManualReopenAt := none }, true)
    else state

/-- The task loop of `migrateIfNeeded` : the tasks and the flag `tasksChanged` after it. -/
def migrateTasks (tasks : List Task) : Option (List Task × Bool) :=
  (uniqueKeysWithValues Task.id tasks).map fun taskLookup =>
    (List.range tasks.length).foldl
      (fun state idx => clearOverrideAt (clearParentAt taskLookup state idx) idx) (tasks, false)

/-- One round replaces the task at its index by its repair. -/
theorem migrateTasks_round (taskLookup : String → Option Task) (done : List Task) (t : Task)
    (rest : List Task) (changed : Bool) :
    clearOverrideAt (clearParentAt taskLookup (done ++ t :: rest, changed) done.length)
        done.length =
      (done ++ t.migrated taskLookup :: rest, changed || decide (t.migrated taskLookup ≠ t)) := by
  have hread : ∀ u : Task, (done ++ u :: rest)[done.length]? = some u := fun u => by simp
  have hwrite : ∀ u v : Task, (done ++ u :: rest).set done.length v = done ++ v :: rest :=
    fun u v => by simp
  unfold clearOverrideAt clearParentAt Task.migrated
  cases hlink : t.parentTaskId with
  | none => simp [hlink]
  | some p =>
    simp only [hread, hlink]
    by_cases hbad : taskLookup p = none ∨ ¬(taskLookup p).bind Task.parentTaskId = none ∨ p = t.id
    · have hne : { t with parentTaskId := none } ≠ t := by
        intro h
        have hnone := congrArg Task.parentTaskId h
        simp [hlink] at hnone
      simp only [if_pos hbad, hread, hwrite]
      simp [hne]
    · simp only [if_neg hbad, hread, hwrite, hlink]
      cases hoverride : t.parentManualReopenAt with
      | none => simp
      | some date =>
        have hne : { t with parentManualReopenAt := none } ≠ t := by
          intro h
          have hnone := congrArg Task.parentManualReopenAt h
          simp [hoverride] at hnone
        rw [hlink] at hne
        simp [hne]

/-- The loop is a map, and its flag is set exactly when the list differs. -/
theorem migrateTasks_eq (tasks : List Task) :
    migrateTasks tasks = (uniqueKeysWithValues Task.id tasks).map fun taskLookup =>
      (tasks.map (Task.migrated taskLookup),
        decide (tasks.map (Task.migrated taskLookup) ≠ tasks)) := by
  refine congrArg (fun f => Option.map f _) (funext fun taskLookup => ?_)
  rw [List.range_eq_range']
  exact foldl_inPlace (migrateTasks_round taskLookup) tasks [] false

end LocalStore

/-! ## What the repair changes -/

/-- The task has a link that names no top-level task, or an override while it has a link. -/
def Task.Offends (tasks : List Task) (t : Task) : Prop :=
  (∃ p, t.parentTaskId = some p ∧
    ∀ parent ∈ tasks, parent.id = p → parent.parentTaskId ≠ none) ∨
  t.parentTaskId ≠ none ∧ t.parentManualReopenAt ≠ none

/-- The hierarchy is one level deep, and no subtask has an override. -/
def HierarchyRepaired (tasks : List Task) : Prop :=
  HierarchyOk tasks ∧ ∀ t ∈ tasks, t.parentTaskId ≠ none → t.parentManualReopenAt = none

theorem not_offends_iff {tasks : List Task} {t : Task} : ¬t.Offends tasks ↔
    (∀ p, t.parentTaskId = some p → ∃ parent ∈ tasks, parent.id = p ∧
      parent.parentTaskId = none) ∧
    (t.parentTaskId ≠ none → t.parentManualReopenAt = none) := by
  simp only [Task.Offends, not_or, not_exists, not_and, not_forall, not_not, exists_prop]

theorem HierarchyRepaired.not_offends {tasks : List Task} (h : HierarchyRepaired tasks) {t : Task}
    (ht : t ∈ tasks) : ¬t.Offends tasks := by
  refine not_offends_iff.mpr ⟨fun p hp => ?_, h.2 t ht⟩
  obtain ⟨parent, hparent, hid, -, hroot⟩ := h.1.2 t ht p hp
  exact ⟨parent, hparent, hid, hroot⟩

/-- The repair keeps a task exactly when it does not offend. -/
theorem sanitized_eq_self_iff {tasks : List Task} (hd : DistinctIds tasks) {t : Task}
    (ht : t ∈ tasks) : t.sanitized (lookup Task.id tasks) = t ↔ ¬t.Offends tasks := by
  rw [not_offends_iff]
  constructor
  · intro h
    refine ⟨fun p hp => ?_, fun hlink => ?_⟩
    · obtain ⟨parent, hparent, hroot⟩ := Task.parent_of_sanitized (h.symm ▸ hp)
      exact ⟨parent, mem_of_lookup hparent, key_of_lookup hparent, hroot⟩
    · have hkept := override_sanitized (lookup Task.id tasks) t
      rw [h] at hkept
      exact hkept (Option.isSome_iff_ne_none.mpr hlink)
  · rintro ⟨hlink, hoverride⟩
    rw [sanitized_of_linked hd ht hlink]
    split_ifs with hsome
    · rw [← hoverride (Option.isSome_iff_ne_none.mp hsome)]
    · rfl

theorem hierarchyRepaired_sanitizedTasks {tasks : List Task} (hd : DistinctIds tasks) :
    HierarchyRepaired (sanitizedTasks tasks) := by
  refine ⟨hierarchyOk_iff.mpr ⟨distinctIds_sanitizedTasks hd, oneLevel_sanitized hd⟩, ?_⟩
  intro t' ht' hlink
  obtain ⟨t, -, rfl⟩ := List.mem_map.mp ht'
  exact override_sanitized _ t (Option.isSome_iff_ne_none.mpr hlink)

/-- On distinct ids both repairs yield one list, in the store as well as alone. It has links to
top-level tasks only and no override on a subtask, it is the list itself where that has these
properties, and a task in it differs from the one in its place exactly when that one offends, and
then in its link and its override only. -/
theorem repairs_agree {tasks : List Task} (hd : (tasks.map Task.id).Nodup) :
    ∃ repaired, LocalStore.sanitizeHierarchy tasks = some repaired ∧
      LocalStore.migrateTasks tasks = some (repaired, decide (repaired ≠ tasks)) ∧
      (∀ s : LocalStore, s.tasks = tasks →
        ∃ s', s.migrateIfNeeded = some s' ∧ s'.tasks = repaired) ∧
      HierarchyRepaired repaired ∧
      (HierarchyRepaired tasks → repaired = tasks) ∧
      List.Forall₂ (fun t t' : Task => (t' = t ↔ ¬t.Offends tasks) ∧
        ∃ parentTaskId parentManualReopenAt, t' = { t with
          parentTaskId := parentTaskId
          parentManualReopenAt := parentManualReopenAt }) tasks repaired := by
  have hlookup : uniqueKeysWithValues Task.id tasks = some (lookup Task.id tasks) := if_pos hd
  have hmigrated : tasks.map (Task.migrated (lookup Task.id tasks)) = sanitizedTasks tasks :=
    List.map_congr_left fun t _ => t.migrated_eq_sanitized _
  refine ⟨sanitizedTasks tasks, ?_, ?_, fun s hs => ?_, hierarchyRepaired_sanitizedTasks hd,
    fun hrepaired => ?_, ?_⟩
  · rw [LocalStore.sanitizeHierarchy, hlookup]
    rfl
  · rw [LocalStore.migrateTasks_eq, hlookup, Option.map_some, hmigrated]
  · subst hs
    obtain ⟨s', hs', -, htasks⟩ := LocalStore.migrateIfNeeded_of_distinctIds hd
    exact ⟨s', hs', htasks⟩
  · refine (List.map_congr_left fun t ht => ?_).trans (List.map_id tasks)
    exact (sanitized_eq_self_iff hd ht).mpr (hrepaired.not_offends ht)
  · rw [sanitizedTasks, List.forall₂_map_right_iff, List.forall₂_same]
    exact fun t ht => ⟨sanitized_eq_self_iff hd ht, t.exists_sanitized_eq _⟩

/-- A task that names itself, and two that name each other, one of them with an override. -/
def tangledTasks : List Task :=
  [{ id := "a", title := "", createdAt := .seconds 0, updatedAt := .seconds 0,
     parentTaskId := some "a" },
   { id := "b", title := "", createdAt := .seconds 0, updatedAt := .seconds 0,
     parentTaskId := some "c" },
   { id := "c", title := "", createdAt := .seconds 0, updatedAt := .seconds 0,
     parentTaskId := some "b", parentManualReopenAt := some (.seconds 1) }]

theorem repairs_agree_tangled : ∃ repaired,
    LocalStore.sanitizeHierarchy tangledTasks = some repaired ∧
      LocalStore.migrateTasks tangledTasks = some (repaired, decide (repaired ≠ tangledTasks)) ∧
      HierarchyRepaired repaired := by
  obtain ⟨repaired, hsanitized, hmigrated, -, hrepaired, -⟩ :=
    @repairs_agree tangledTasks (by decide)
  exact ⟨repaired, hsanitized, hmigrated, hrepaired⟩

end Notelayer
