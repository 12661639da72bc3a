import Notelayer.Notifications
import Notelayer.ParentCompletion

/-!
# What operations do to the reminders of open tasks

`LocalStore.KeepsReminders` says what an operation does for the notification of an open task : it
keeps the task open with its identifier, or spawns the closure that cancels the notification. A
reconcile that completes a parent does neither, and so do a snapshot and the restoration of a task
whose reminder has passed. `Operation.EndsSilently` names the tasks that an operation ends so, and
`endsOnly_step` says that there are no others.
-/

set_option linter.unusedSectionVars false

namespace Notelayer

open KeyedList

/-! ## What operations keep -/

theorem Task.reconciled_reminderDate (t : Task) (a r : Bool) (now : Date) :
    (t.reconciled a r now).1.reminderDate = t.reminderDate := by
  unfold reconciled
  split_ifs <;> simp [editIf_fst (f := reminderDate)]

theorem Task.reconciled_reminderNotificationId (t : Task) (a r : Bool) (now : Date) :
    (t.reconciled a r now).1.reminderNotificationId = t.reminderNotificationId := by
  unfold reconciled
  split_ifs <;> simp [editIf_fst (f := reminderNotificationId)]

/-- An open parent stays open, or all its subtasks are complete and nothing holds it open. -/
theorem Task.reconciled_completedAt {t : Task} (h : t.completedAt = none) (a r : Bool)
    (now : Date) : (t.reconciled a r now).1.completedAt = none ∨
      a = true ∧ (r = false → t.parentManualReopenAt = none) := by
  cases t with
  | mk id title categories priority dueDate completedAt taskNotes createdAt updatedAt orderIndex
      reminderDate reminderNotificationId parentTaskId parentManualReopenAt =>
    obtain rfl : completedAt = none := h
    cases a <;> cases r <;> cases parentManualReopenAt <;> simp [reconciled, editIf]

/-- The subtasks of `p` other than `id` are complete. -/
def OthersComplete (tasks : List Task) (id p : String) : Prop :=
  ∀ c ∈ tasks, c.parentTaskId = some p → c.id ≠ id → c.completedAt ≠ none

/-- `id` is a subtask of `p`, and there are others and they are complete. -/
def LastOpen (tasks : List Task) (id p : String) : Prop :=
  (∃ t ∈ tasks, t.id = id ∧ t.parentTaskId = some p) ∧
    (∃ c ∈ tasks, c.parentTaskId = some p ∧ c.id ≠ id) ∧ OthersComplete tasks id p

namespace LocalStore

variable {s s' s'' : LocalStore} {D C D' C' : Task → Prop}

/-- Every task of `s` outside `D` is still there with its identifier, and still open unless it is
in `C`, or a new closure cancels its notification. -/
def KeepsReminders (D C : Task → Prop) (s s' : LocalStore) : Prop :=
  ∃ new, s'.spawned = s.spawned ++ new ∧ ∀ t ∈ s.tasks, D t ∨
    (∀ n ∈ t.reminderNotificationId, .cancelReminder n ∈ new) ∨
    ∃ t' ∈ s'.tasks, t'.id = t.id ∧ t'.reminderNotificationId = t.reminderNotificationId ∧
      (t.completedAt = none → t'.completedAt = none ∨ C t)

theorem KeepsReminders.refl (s : LocalStore) : s.KeepsReminders D C s :=
  ⟨[], (List.append_nil _).symm, fun t ht => Or.inr (Or.inr ⟨t, ht, rfl, rfl, Or.inl⟩)⟩

theorem KeepsReminders.mono (h : s.KeepsReminders D C s') (hD : ∀ t ∈ s.tasks, D t → D' t)
    (hC : ∀ t ∈ s.tasks, C t → C' t) : s.KeepsReminders D' C' s' := by
  obtain ⟨new, hnew, hkeep⟩ := h
  refine ⟨new, hnew, fun t ht => (hkeep t ht).imp (hD t ht) (Or.imp_right ?_)⟩
  rintro ⟨t', ht', hid, hn, hopen⟩
  exact ⟨t', ht', hid, hn, fun h => (hopen h).imp_right (hC t ht)⟩

/-- What is kept in two steps is kept. The second step is about tasks of the first with the same
ids. -/
theorem KeepsReminders.trans (h : s.KeepsReminders D C s') (h' : s'.KeepsReminders D' C' s'')
    (hD : ∀ t ∈ s.tasks, ∀ t' ∈ s'.tasks, t'.id = t.id → D' t' → D t)
    (hC : ∀ t ∈ s.tasks, ∀ t' ∈ s'.tasks, t'.id = t.id → C' t' → C t) :
    s.KeepsReminders D C s'' := by
  obtain ⟨new, hnew, hkeep⟩ := h
  obtain ⟨new', hnew', hkeep'⟩ := h'
  refine ⟨new ++ new', by rw [hnew', hnew, List.append_assoc], fun t ht => ?_⟩
  rcases hkeep t ht with hd | hcancel | ⟨t', ht', hid', hn', hopen'⟩
  · exact Or.inl hd
  · exact Or.inr (Or.inl fun n hn => List.mem_append_left _ (hcancel n hn))
  · rcases hkeep' t' ht' with hd | hcancel | ⟨t'', ht'', hid'', hn'', hopen''⟩
    · exact Or.inl (hD t ht t' ht' hid' hd)
    · exact Or.inr (Or.inl fun n hn => List.mem_append_right _ (hcancel n (hn' ▸ hn)))
    · refine Or.inr (Or.inr ⟨t'', ht'', hid''.trans hid', hn''.trans hn', fun hopen => ?_⟩)
      rcases hopen' hopen with hopen | hc
      · exact (hopen'' hopen).imp_right (hC t ht t' ht' hid')
      · exact Or.inr hc

/-- Nothing the relation reads changes afterwards, but for more closures. -/
theorem KeepsReminders.spawned (h : s.KeepsReminders D C s') (htasks : s''.tasks = s'.tasks)
    (hspawned : ∃ new, s''.spawned = s'.spawned ++ new) : s.KeepsReminders D C s'' := by
  obtain ⟨new, hspawned⟩ := hspawned
  have hsame : s'.KeepsReminders (fun _ => False) (fun _ => False) s'' :=
    ⟨new, hspawned, fun t ht => Or.inr (Or.inr ⟨t, htasks ▸ ht, rfl, rfl, Or.inl⟩)⟩
  exact h.trans hsame (fun _ _ _ _ _ => False.elim) fun _ _ _ _ _ => False.elim

/-- The parent that a reconcile completes. -/
def Completes (s : LocalStore) (p : Option String) (r : Bool) (t : Task) : Prop :=
  p = some t.id ∧ t.parentTaskId = none ∧ s.hasSubtasks t.id = true ∧
    SubtasksComplete s.tasks t.id ∧ (r = false → t.parentManualReopenAt = none)

/-- Replacing a task keeps the others. -/
theorem keepsReminders_set {i : ℕ} {old : Task} (hi : s.tasks[i]? = some old) (new : Task)
    (spawned : List Closure) (htasks : s'.tasks = s.tasks.set i new)
    (hspawned : s'.spawned = s.spawned ++ spawned)
    (hold : D old ∨ (∀ n ∈ old.reminderNotificationId, .cancelReminder n ∈ spawned) ∨
      new.id = old.id ∧ new.reminderNotificationId = old.reminderNotificationId ∧
        (old.completedAt = none → new.completedAt = none ∨ C old)) :
    s.KeepsReminders D C s' := by
  obtain ⟨hlt, -⟩ := List.getElem?_eq_some_iff.mp hi
  refine ⟨spawned, hspawned, fun t ht => ?_⟩
  by_cases hne : t = old
  · subst hne
    refine hold.imp_right (Or.imp_right fun hnew => ⟨new, ?_, hnew⟩)
    rw [htasks]
    exact List.mem_set hlt new
  · refine Or.inr (Or.inr ⟨t, ?_, rfl, rfl, Or.inl⟩)
    rw [htasks]
    exact mem_set_of_ne hi ht hne new

/-- A reconciliation drops the reminder of no task but the parent that it completes. -/
theorem keepsReminders_reconcileParent (p : Option String) (r : Bool) (now : Date) :
    s.KeepsReminders (fun _ => False) (s.Completes p r) (s.reconcileParent p r now) := by
  cases p with
  | none => exact .refl s
  | some p =>
    change s.KeepsReminders _ _ (s.reconcileParentCompletion p r now)
    unfold reconcileParentCompletion
    split
    · exact .refl s
    · rename_i i parent hentry
      obtain ⟨hi, hparent⟩ := firstEntry_eq_some hentry
      simp only [decide_eq_true_eq] at hparent
      obtain ⟨rfl, hroot⟩ := hparent
      dsimp only
      split_ifs with hempty hover hchange
      · exact keepsReminders_set hi _ _ (tasks_spawnSync _ _) (spawned_spawnSync _ _)
          (Or.inr (Or.inr ⟨rfl, rfl, Or.inl⟩))
      · exact .refl s
      · refine keepsReminders_set hi _ _ (tasks_spawnSync _ _) (spawned_spawnSync _ _)
          (Or.inr (Or.inr ⟨Task.reconciled_id .., Task.reconciled_reminderNotificationId ..,
            fun hopen => ?_⟩))
        refine (Task.reconciled_completedAt hopen _ r now).imp_right fun ⟨hall, hr⟩ => ?_
        refine ⟨rfl, hroot, ?_, fun c hc hp => ?_, hr⟩
        · rw [List.isEmpty_iff, List.filter_eq_nil_iff] at hempty
          simpa [hasSubtasks] using hempty
        · simpa using List.all_eq_true.mp hall c (List.mem_filter.mpr ⟨hc, by simpa using hp⟩)
      · exact .refl s

/-- An operation, and the reconcile after it. -/
theorem KeepsReminders.reconcileParent (h : s.KeepsReminders D C s') (p : Option String)
    (r : Bool) (now : Date)
    (hC : ∀ t ∈ s.tasks, ∀ t' ∈ s'.tasks, t'.id = t.id → s'.Completes p r t' → C t) :
    s.KeepsReminders D C (s'.reconcileParent p r now) :=
  h.trans (keepsReminders_reconcileParent p r now) (fun _ _ _ _ _ => False.elim) hC

/-! ### One operation -/

theorem mem_set_of_id_ne {tasks : List Task} {i : ℕ} {old c : Task} (hi : tasks[i]? = some old)
    (hc : c ∈ tasks) (hne : c.id ≠ old.id) (new : Task) : c ∈ tasks.set i new :=
  mem_set_of_ne hi hc (fun heq => hne (congrArg Task.id heq)) new

/-- A task of the list and the one with its id after a replacement. -/
theorem eq_of_mem_set {tasks : List Task} (hd : DistinctIds tasks) {i : ℕ} {old new t t' : Task}
    (hi : tasks[i]? = some old) (ht : t ∈ tasks) (ht' : t' ∈ tasks.set i new)
    (hnew : new.id = old.id) (hid : t'.id = t.id) : t' = new ∧ t = old ∨ t' = t := by
  rcases List.mem_or_eq_of_mem_set ht' with hmem | rfl
  · exact Or.inr (List.inj_on_of_nodup_map hd hmem ht hid)
  · exact Or.inl ⟨rfl, List.inj_on_of_nodup_map hd ht (List.mem_of_getElem? hi)
      (hid.symm.trans hnew)⟩

/-- A reconcile leaves the subtasks alone. -/
theorem mem_reconcileParent_of_child {c : Task} (hc : c ∈ s.tasks) (hlink : c.parentTaskId ≠ none)
    (p : Option String) (r : Bool) (now : Date) : c ∈ (s.reconcileParent p r now).tasks := by
  cases p with
  | none => exact hc
  | some p =>
    change c ∈ (s.reconcileParentCompletion p r now).tasks
    rcases s.reconcileParentCompletion_cases p r now with
      hs | ⟨i, old, new, closure, hi, -, hroot, -, -, -, hs⟩
    · rwa [hs]
    · rw [hs, tasks_spawnSync, tasks_saveTasks, tasks_setTask]
      refine mem_set_of_ne hi hc ?_ new
      rintro rfl
      exact hlink hroot

theorem mem_cancellation {n : String} {m : Option String} (hn : n ∈ m) :
    Closure.cancelReminder n ∈ (m.map Closure.cancelReminder).toList := by
  obtain rfl := Option.mem_def.mp hn
  exact List.mem_singleton_self _

/-- The completed task has its notification cancelled. Its parent is completed with it if the
other subtasks are complete and the parent was not reopened by hand. -/
theorem keepsReminders_completeTask (hd : DistinctIds s.tasks) (id : String) (now : Date) :
    s.KeepsReminders (fun _ => False) (fun t => t.parentManualReopenAt = none ∧
      (∃ c ∈ s.tasks, c.id = id ∧ c.parentTaskId = some t.id) ∧
        OthersComplete s.tasks id t.id) (s.completeTask id now) := by
  unfold completeTask
  split
  · exact .refl s
  · rename_i i old hentry
    obtain ⟨hi, hid⟩ := firstEntry_eq_some hentry
    obtain rfl : old.id = id := by simpa using hid
    dsimp only
    refine KeepsReminders.reconcileParent (keepsReminders_set hi (old.completed now)
      ((old.reminderNotificationId.map Closure.cancelReminder).toList ++
        (s.syncingBackend.map (Closure.upsertTask · (old.completed now))).toList) ?_ ?_
      (Or.inr (Or.inl fun n hn => List.mem_append_left _ (mem_cancellation hn)))) _ _ _ ?_
    · simp
    · simp
    · rintro t ht t' ht' hid ⟨hp, hroot, -, hall, hover⟩
      simp only [tasks_spawnSync, tasks_spawnCancelReminder, tasks_logEvent, tasks_saveTasks,
        tasks_setTask] at ht' hall
      have hlink : old.parentTaskId = some t.id := hid ▸ hp
      rcases eq_of_mem_set hd hi ht ht' (old.completed_id now) hid with ⟨rfl, rfl⟩ | rfl
      · exact absurd (hlink.symm.trans hroot) nofun
      · refine ⟨hover rfl, ⟨old, List.mem_of_getElem? hi, rfl, hlink⟩, fun c hc hcp hne => ?_⟩
        exact hall c (mem_set_of_id_ne hi hc hne _) hcp

/-- The restored task keeps its reminder unless that has passed. -/
theorem keepsReminders_restoreTask (id : String) (now : Date) :
    s.KeepsReminders (fun t => t.id = id ∧ ∃ date ∈ t.reminderDate, ¬now < date)
      (fun _ => False) (s.restoreTask id now) := by
  unfold restoreTask
  split
  · exact .refl s
  · rename_i i old hentry
    obtain ⟨hi, hid⟩ := firstEntry_eq_some hentry
    obtain rfl : old.id = id := by simpa using hid
    have hreopened : (old.reopened (s.subtaskCount old.id) now).completedAt = none ∧
        (old.reopened (s.subtaskCount old.id) now).reminderNotificationId =
          old.reminderNotificationId ∧
        (old.reopened (s.subtaskCount old.id) now).parentTaskId = old.parentTaskId := by
      unfold Task.reopened
      dsimp only
      split_ifs <;> exact ⟨rfl, rfl, rfl⟩
    obtain ⟨s₁, new, spawned, hr, htasks, hspawned, hnid, hopen, hlink, hkeep⟩ :
        ∃ s₁ new spawned, s.restoreReminder old (old.reopened (s.subtaskCount old.id) now) now =
          (s₁, new) ∧ s₁.tasks = s.tasks ∧ s₁.spawned = s.spawned ++ spawned ∧
          new.id = old.id ∧ new.completedAt = none ∧ new.parentTaskId = old.parentTaskId ∧
          ((∃ date ∈ old.reminderDate, ¬now < date) ∨
            new.reminderNotificationId = old.reminderNotificationId) := by
      obtain ⟨hopen, hn, hlink⟩ := hreopened
      have hnid := old.reopened_id (s.subtaskCount old.id) now
      unfold restoreReminder
      split
      · rename_i date n hdate hid
        split_ifs with hfuture
        · exact ⟨_, _, _, rfl, rfl, rfl, hnid, hopen, hlink, Or.inr hn⟩
        · exact ⟨_, _, [], rfl, rfl, (List.append_nil _).symm, hnid, hopen, hlink,
            Or.inl ⟨date, hdate, hfuture⟩⟩
      · exact ⟨_, _, [], rfl, rfl, (List.append_nil _).symm, hnid, hopen, hlink, Or.inr hn⟩
    dsimp only
    rw [hr]
    refine KeepsReminders.reconcileParent (keepsReminders_set hi new
      (spawned ++ (s₁.syncingBackend.map (Closure.upsertTask · new)).toList) ?_ ?_ ?_) _ _ _ ?_
    · simp [htasks]
    · simp [hspawned]
    · rcases hkeep with hpast | hn
      · exact Or.inl ⟨rfl, hpast⟩
      · exact Or.inr (Or.inr ⟨hnid, hn, fun _ => Or.inl hopen⟩)
    · rintro t ht t' ht' hid ⟨hp, hroot, -, hall, -⟩
      simp only [tasks_spawnSync, tasks_logEvent, tasks_saveTasks, tasks_setTask, htasks]
        at ht' hall
      -- the restored task is an open subtask of the parent
      obtain ⟨hlt, -⟩ := List.getElem?_eq_some_iff.mp hi
      exact hall new (List.mem_set hlt new) hp hopen

/-- The deleted task has its notification cancelled. Its parent is completed if it leaves only
complete subtasks. -/
theorem keepsReminders_deleteTask (hd : DistinctIds s.tasks) (id : String) (now : Date) :
    s.KeepsReminders (fun _ => False) (fun t => LastOpen s.tasks id t.id)
      (s.deleteTask id now) := by
  unfold deleteTask
  dsimp only
  refine KeepsReminders.reconcileParent ⟨((taskWithId s.tasks id).bind
      Task.reminderNotificationId |>.map Closure.cancelReminder).toList ++
      (s.syncingBackend.map (Closure.deleteTask · id)).toList, by simp, fun t ht => ?_⟩ _ _ _ ?_
  · by_cases hid : t.id = id
    · refine Or.inr (Or.inl fun n hn => List.mem_append_left _ (mem_cancellation ?_))
      rw [← hid, taskWithId, lookup_of_mem hd ht]
      exact hn
    · refine Or.inr (Or.inr ⟨t, ?_, rfl, rfl, Or.inl⟩)
      simpa [remove, hid] using ht
  · rintro t ht t' ht' hid ⟨hp, -, hsub, hall, -⟩
    obtain ⟨deleted, hdeleted, hlink⟩ := Option.bind_eq_some_iff.mp hp
    rw [hid] at hlink hsub hall
    have hkept : ∀ c : Task, c ∈ remove Task.id s.tasks id ↔ c ∈ s.tasks ∧ c.id ≠ id := by
      intro c
      simp [remove]
    refine ⟨⟨deleted, mem_of_lookup hdeleted, key_of_lookup hdeleted, hlink⟩, ?_,
      fun c hc hcp hne => hall c ?_ hcp⟩
    · obtain ⟨c, hc, hcp⟩ := List.any_eq_true.mp hsub
      obtain ⟨hc, hne⟩ := (hkept c).mp (by simpa using hc)
      exact ⟨c, hc, by simpa using hcp, hne⟩
    · simpa using (hkept c).mpr ⟨hc, hne⟩

/-- The moved task keeps its reminder. A parent that it leaves is completed if it leaves only
complete subtasks, and a parent that it joins if all are complete then. -/
theorem keepsReminders_setParent (hd : DistinctIds s.tasks) (taskId : String)
    (parentId : Option String) (now : Date) :
    s.KeepsReminders (fun _ => False) (fun t => s.refusesParent taskId parentId = false ∧
      if parentId = some t.id then OthersComplete s.tasks taskId t.id ∧
        ∃ c ∈ s.tasks, c.id = taskId ∧ c.completedAt ≠ none
      else LastOpen s.tasks taskId t.id) (s.setParent taskId parentId now) := by
  unfold setParent
  split
  · exact .refl s
  · rename_i i task hentry
    obtain ⟨hi, hid⟩ := firstEntry_eq_some hentry
    obtain rfl : task.id = taskId := by simpa using hid
    have hmem := List.mem_of_getElem? hi
    obtain ⟨hlt, -⟩ := List.getElem?_eq_some_iff.mp hi
    split_ifs with hrefuses
    · exact .refl s
    · rw [Bool.not_eq_true] at hrefuses
      obtain ⟨hmid, hmn, hmc, hmlink⟩ : (s.movedTask task parentId now).id = task.id ∧
          (s.movedTask task parentId now).reminderNotificationId = task.reminderNotificationId ∧
          (s.movedTask task parentId now).completedAt = task.completedAt ∧
          (s.movedTask task parentId now).parentTaskId = parentId := by
        refine ⟨s.id_movedTask task parentId now, ?_⟩
        unfold movedTask
        dsimp only
        split
        · exact ⟨rfl, rfl, rfl⟩
        · split_ifs
          · split <;> exact ⟨rfl, rfl, rfl⟩
          · exact ⟨rfl, rfl, rfl⟩
      generalize s.movedTask task parentId now = moved at hmid hmn hmc hmlink
      have hothers : ∀ {c : Task}, c ∈ s.tasks → c.id ≠ task.id →
          c ∈ (s.setTask i moved).saveTasks.tasks := by
        intro c hc hne
        exact mem_set_of_id_ne hi hc hne moved
      have hset : ∀ C, s.KeepsReminders (fun _ => False) C (s.setTask i moved).saveTasks :=
        fun C => keepsReminders_set hi moved [] rfl (List.append_nil _).symm
          (Or.inr (Or.inr ⟨hmid, hmn, fun h => Or.inl (hmc ▸ h)⟩))
      refine KeepsReminders.spawned (((hset _).reconcileParent task.parentTaskId true now
        ?_).reconcileParent parentId true now ?_) (tasks_spawnSync _ _) ⟨_, spawned_spawnSync _ _⟩
      · rintro t ht t' - hid ⟨hp, -, hsub, hall, -⟩
        rw [hid] at hp hsub hall
        refine ⟨hrefuses, ?_⟩
        split_ifs with hsame
        · refine ⟨fun c hc hcp hne => hall c (hothers hc hne) hcp, task, hmem, rfl, ?_⟩
          rw [← hmc]
          exact hall moved (List.mem_set hlt moved) (hmlink.trans hsame)
        · obtain ⟨c, hc, hcp⟩ := List.any_eq_true.mp hsub
          have hlink : c.parentTaskId = some t.id := by simpa using hcp
          have hne : c ≠ moved := by
            rintro rfl
            exact hsame (hmlink.symm.trans hlink)
          have hold : c ∈ s.tasks := (List.mem_or_eq_of_mem_set hc).resolve_right hne
          refine ⟨⟨task, hmem, rfl, hp⟩, ⟨c, hold, hlink, fun hcid => ?_⟩,
            fun c hc hcp hne => hall c (hothers hc hne) hcp⟩
          -- the moved task was replaced, and is the only one with its id
          have hd' : DistinctIds (s.tasks.set i moved) := distinctIds_set hd hi hmid
          exact hne (List.inj_on_of_nodup_map hd' hc (List.mem_set hlt moved)
            (hcid.trans hmid.symm))
      · rintro t ht t' - hid ⟨hp, -, -, hall, -⟩
        rw [hid] at hp hall
        refine ⟨hrefuses, ?_⟩
        rw [if_pos hp]
        refine ⟨fun c hc hcp hne => hall c ?_ hcp, task, hmem, rfl, ?_⟩
        · exact mem_reconcileParent_of_child (hothers hc hne) (by rw [hcp]; exact nofun) _ _ _
        · rw [← hmc]
          refine hall moved ?_ (hmlink.trans hp)
          refine mem_reconcileParent_of_child (List.mem_set hlt moved) ?_ _ _ _
          rw [hmlink, hp]
          exact nofun

/-- Saving and uploading an added task spawn only. -/
theorem exists_spawned_added (s : LocalStore) (task : Task) : ∃ new,
    ((s.saveTasks.logTaskCreatedAnalytics task).spawnSync (.upsertTask · task)).spawned =
      s.spawned ++ new := by
  have hspawned := spawned_spawnSync (s.saveTasks.logTaskCreatedAnalytics task)
    (.upsertTask · task)
  rw [spawned_logTaskCreatedAnalytics, spawned_saveTasks] at hspawned
  exact ⟨_, hspawned⟩

/-- The parent of an added task is completed if all its subtasks are complete then. -/
theorem keepsReminders_addTask (task : Task) (now : Date) :
    s.KeepsReminders (fun _ => False) (fun t => task.parentTaskId = some t.id ∧
      task.completedAt ≠ none ∧ OthersComplete s.tasks task.id t.id) (s.addTask task now).1 := by
  have hadded : ((task.ordered now.milliseconds).attached s.tasks).completedAt =
      task.completedAt ∧ ∀ p, ((task.ordered now.milliseconds).attached s.tasks).parentTaskId =
        some p → task.parentTaskId = some p := by
    unfold Task.attached
    split
    · split
      · split_ifs <;> exact ⟨rfl, fun _ hp => hp⟩
      · exact ⟨rfl, nofun⟩
    · exact ⟨rfl, fun _ hp => hp⟩
  unfold addTask
  generalize (task.ordered now.milliseconds).attached s.tasks = new at hadded
  have happend : s.KeepsReminders (fun _ => False) (fun t => task.parentTaskId = some t.id ∧
      task.completedAt ≠ none ∧ OthersComplete s.tasks task.id t.id)
      (s.withTasks (s.tasks ++ [new])) :=
    ⟨[], (List.append_nil _).symm, fun t ht =>
      Or.inr (Or.inr ⟨t, List.mem_append_left _ ht, rfl, rfl, Or.inl⟩)⟩
  refine KeepsReminders.spawned (happend.reconcileParent new.parentTaskId true now ?_) ?_ ?_
  · rintro t ht t' - hid ⟨hp, -, -, hall, -⟩
    rw [hid] at hp hall
    refine ⟨hadded.2 t.id hp, ?_, fun c hc hcp _ => hall c (List.mem_append_left _ hc) hcp⟩
    rw [← hadded.1]
    exact hall new (List.mem_append_right _ (List.mem_singleton_self new)) hp
  · simp
  · exact exists_spawned_added _ new

/-- A loop over subtasks of `id` completes no other parent. -/
theorem keepsReminders_foldl {g : LocalStore → String → LocalStore}
    (hg : ∀ (s : LocalStore) k, DistinctIds s.tasks → DistinctIds (g s k).tasks ∧
      (∀ c p, Forest.IsChild (view (g s k).tasks) c p → Forest.IsChild (view s.tasks) c p) ∧
      s.KeepsReminders (fun _ => False)
        (fun t => ∃ c ∈ s.tasks, c.id = k ∧ c.parentTaskId = some t.id) (g s k))
    {id : String} {ks : List String} (hd : DistinctIds s.tasks)
    (hks : ∀ k ∈ ks, ∀ p, Forest.IsChild (view s.tasks) k p → p = id) :
    s.KeepsReminders (fun _ => False) (fun t => t.id = id) (ks.foldl g s) ∧
      ∀ c p, Forest.IsChild (view (ks.foldl g s).tasks) c p →
        Forest.IsChild (view s.tasks) c p := by
  induction ks generalizing s with
  | nil => exact ⟨.refl s, fun _ _ h => h⟩
  | cons k ks ih =>
    obtain ⟨hd', hlinks, hkeep⟩ := hg s k hd
    obtain ⟨hrest, hlinks'⟩ := ih hd' fun j hj p hp =>
      hks j (List.mem_cons_of_mem k hj) p (hlinks j p hp)
    refine ⟨KeepsReminders.trans (hkeep.mono (fun _ _ => False.elim) ?_) hrest
      (fun _ _ _ _ _ => False.elim) ?_,
      fun c p hc => hlinks c p (hlinks' c p hc)⟩
    · rintro t - ⟨c, hc, rfl, hp⟩
      exact hks c.id List.mem_cons_self t.id ((isChild_view_iff hd).mpr ⟨c, hc, rfl, hp⟩)
    · intro t ht t' ht' hid h
      exact hid.symm.trans h

/-- The deleted parent and the deleted subtasks have their notifications cancelled. -/
theorem keepsReminders_deleteParentTask (hd : DistinctIds s.tasks) (id : String)
    (strategy : ParentTaskDeletionStrategy) (now : Date) :
    s.KeepsReminders (fun _ => False) (fun t =>
      (∃ c ∈ s.tasks, c.id = id ∧ c.parentTaskId = some t.id) ∧
        (s.hasSubtasks id = true ∨ LastOpen s.tasks id t.id))
      (s.deleteParentTask id strategy now) := by
  have hloop : ∀ {s₁ : LocalStore}, s.hasSubtasks id = true → DistinctIds s₁.tasks →
      s.KeepsReminders (fun _ => False) (fun t => t.id = id) s₁ →
      (∀ c p, Forest.IsChild (view s₁.tasks) c p → Forest.IsChild (view s.tasks) c p) →
      s.KeepsReminders (fun _ => False) (fun t =>
        (∃ c ∈ s.tasks, c.id = id ∧ c.parentTaskId = some t.id) ∧
          (s.hasSubtasks id = true ∨ LastOpen s.tasks id t.id)) (s₁.deleteTask id now) := by
    intro s₁ hsub hd₁ hkeep hlinks
    have hboth : s.KeepsReminders (fun _ => False) (fun t => t.id = id ∨
        (∃ c ∈ s.tasks, c.id = id ∧ c.parentTaskId = some t.id) ∧
          (s.hasSubtasks id = true ∨ LastOpen s.tasks id t.id)) (s₁.deleteTask id now) := by
      refine KeepsReminders.trans (hkeep.mono (fun _ _ => False.elim) fun _ _ => Or.inl)
        (keepsReminders_deleteTask hd₁ id now) (fun _ _ _ _ _ => False.elim) ?_
      rintro t - t' - hid ⟨⟨c, hc, rfl, hp⟩, -⟩
      have hchild := hlinks c.id t'.id ((isChild_view_iff hd₁).mpr ⟨c, hc, rfl, hp⟩)
      rw [hid] at hchild
      exact Or.inr ⟨(isChild_view_iff hd).mp hchild, Or.inl hsub⟩
    obtain ⟨new, hnew, hboth⟩ := hboth
    refine ⟨new, hnew, fun t ht => (hboth t ht).imp_right (Or.imp_right ?_)⟩
    rintro ⟨t', ht', hid, hn, hopen⟩
    refine ⟨t', ht', hid, hn, fun h => (hopen h).imp_right fun hc => ?_⟩
    -- no task with this id is left
    refine hc.resolve_left fun heq => ?_
    have hmem := List.mem_map_of_mem (f := Task.id) ht'
    rw [hid, heq, ids_deleteTask, map_key_remove] at hmem
    simp at hmem
  have hchildren : ∀ k ∈ s.childIds id, ∀ p, Forest.IsChild (view s.tasks) k p → p = id := by
    intro k hk p ⟨n, hn, hp⟩
    obtain ⟨n', hn', hp'⟩ := (mem_childIds hd).mp hk
    obtain rfl := Option.some_inj.mp (hn.symm.trans hn')
    exact Option.some_inj.mp (hp.symm.trans hp')
  unfold deleteParentTask
  split_ifs with hsub
  · cases strategy with
    | deleteSubtasks =>
      have hround : ∀ (s : LocalStore) k, DistinctIds s.tasks →
          DistinctIds (s.deleteTask k now).tasks ∧
          (∀ c p, Forest.IsChild (view (s.deleteTask k now).tasks) c p →
            Forest.IsChild (view s.tasks) c p) ∧
          s.KeepsReminders (fun _ => False)
            (fun t => ∃ c ∈ s.tasks, c.id = k ∧ c.parentTaskId = some t.id)
            (s.deleteTask k now) := by
        refine fun s k hd => ⟨distinctIds_deleteTask hd k now, fun c p hc => ?_, ?_⟩
        · rw [view_deleteTask hd] at hc
          exact (Forest.isChild_drop.mp hc).2
        · exact (keepsReminders_deleteTask hd k now).mono (fun _ _ => False.elim) fun t _ h => h.1
      obtain ⟨hkeep, hlinks⟩ := keepsReminders_foldl hround hd hchildren
      exact hloop hsub (distinctIds_of_sublist (ids_foldl_deleteTask _ now) hd) hkeep hlinks
    | detachSubtasks =>
      have hround : ∀ (s : LocalStore) k, DistinctIds s.tasks →
          DistinctIds (s.setParent k none now).tasks ∧
          (∀ c p, Forest.IsChild (view (s.setParent k none now).tasks) c p →
            Forest.IsChild (view s.tasks) c p) ∧
          s.KeepsReminders (fun _ => False)
            (fun t => ∃ c ∈ s.tasks, c.id = k ∧ c.parentTaskId = some t.id)
            (s.setParent k none now) := by
        refine fun s k hd => ⟨distinctIds_congr (ids_setParent k none now) hd,
          fun c p hc => ?_, ?_⟩
        · have hview := view_foldl_setParent hd [k] now
          rw [List.foldl_cons, List.foldl_nil] at hview
          rw [hview] at hc
          exact hc.of_detachAll.2
        · refine (keepsReminders_setParent hd k none now).mono (fun _ _ => False.elim) ?_
          rintro t - ⟨-, h⟩
          exact h.1
      obtain ⟨hkeep, hlinks⟩ := keepsReminders_foldl hround hd hchildren
      exact hloop hsub (distinctIds_congr (ids_foldl_setParent _ now) hd) hkeep hlinks
  · exact (keepsReminders_deleteTask hd id now).mono (fun _ _ => False.elim)
      fun t _ h => ⟨h.1, Or.inr h⟩

end LocalStore

/-! ## What operations end without a cancellation -/

namespace Operation

/-- The operations that change tasks or their reminders, imports and edits apart. -/
def endsReminders : Operation → Bool
  | setParent _ _ => true
  | completeTask _ => true
  | restoreTask _ => true
  | deleteTask _ => true
  | deleteTaskUndoably _ => true
  | undo => true
  | redo => true
  | deleteParentTask _ _ => true
  | applyRemoteTasks _ => true
  | applyRemoteSnapshot _ _ _ => true
  | _ => false

/-- The operation completes the parent `t`, drops its passed reminder, or replaces the list by one
that has no open task with its identifier. -/
def EndsSilently (e : Date × Operation) (u : Session) (t : Task) : Prop :=
  match e.2 with
  | setParent taskId parentId => u.store.refusesParent taskId parentId = false ∧
      if parentId = some t.id then OthersComplete u.store.tasks taskId t.id ∧
        ∃ c ∈ u.store.tasks, c.id = taskId ∧ c.completedAt ≠ none
      else LastOpen u.store.tasks taskId t.id
  | completeTask id => t.parentManualReopenAt = none ∧
      (∃ c ∈ u.store.tasks, c.id = id ∧ c.parentTaskId = some t.id) ∧
        OthersComplete u.store.tasks id t.id
  | restoreTask id => t.id = id ∧ ∃ date ∈ t.reminderDate, ¬e.1 < date
  | deleteTask id => LastOpen u.store.tasks id t.id
  | deleteTaskUndoably id => LastOpen u.store.tasks id t.id
  | undo => ∃ task ∈ u.undoStack.head?, task.parentTaskId = some t.id ∧
      task.completedAt ≠ none ∧ OthersComplete u.store.tasks task.id t.id
  | redo => ∃ task ∈ u.redoStack.head?, LastOpen u.store.tasks task.id t.id
  | deleteParentTask id _ => (∃ c ∈ u.store.tasks, c.id = id ∧ c.parentTaskId = some t.id) ∧
      (u.store.hasSubtasks id = true ∨ LastOpen u.store.tasks id t.id)
  | applyRemoteTasks tasks => ∀ t' ∈ tasks, t'.reminderNotificationId = t.reminderNotificationId →
      t'.completedAt ≠ none
  | applyRemoteSnapshot _ tasks _ => ∀ t' ∈ tasks,
      t'.reminderNotificationId = t.reminderNotificationId → t'.completedAt ≠ none
  | _ => False

end Operation

namespace LocalStore

variable {s s' : LocalStore} {D C E : Task → Prop}

/-- Every open task of `s` outside `E` has its notification cancelled by a new closure, or an open
task of `s'` has its identifier. -/
def EndsOnly (E : Task → Prop) (s s' : LocalStore) : Prop :=
  ∃ new, s'.spawned = s.spawned ++ new ∧ ∀ t ∈ s.tasks, t.completedAt = none → E t ∨
    (∀ n ∈ t.reminderNotificationId, .cancelReminder n ∈ new) ∨
    ∃ t' ∈ s'.tasks, t'.reminderNotificationId = t.reminderNotificationId ∧ t'.completedAt = none

theorem KeepsReminders.endsOnly (h : s.KeepsReminders D C s') (hD : ∀ t ∈ s.tasks, D t → E t)
    (hC : ∀ t ∈ s.tasks, C t → E t) : s.EndsOnly E s' := by
  obtain ⟨new, hnew, hkeep⟩ := h
  refine ⟨new, hnew, fun t ht hopen => ?_⟩
  rcases hkeep t ht with hd | hcancel | ⟨t', ht', -, hn, hopen'⟩
  · exact Or.inl (hD t ht hd)
  · exact Or.inr (Or.inl hcancel)
  · rcases hopen' hopen with hopen' | hc
    · exact Or.inr (Or.inr ⟨t', ht', hn, hopen'⟩)
    · exact Or.inl (hC t ht hc)

/-- The tasks of a delivery, repaired, replace those of the store. -/
theorem endsOnly_of_remote {tasks : List Task} (hspawned : s.SpawnsReminders s')
    (hkept : ∀ t ∈ tasks, ∃ t' ∈ s'.tasks,
      t'.reminderNotificationId = t.reminderNotificationId ∧ t'.completedAt = t.completedAt) :
    s.EndsOnly (fun t => ∀ t' ∈ tasks, t'.reminderNotificationId = t.reminderNotificationId →
      t'.completedAt ≠ none) s' := by
  obtain ⟨new, hnew, -⟩ := hspawned
  refine ⟨new, hnew, fun t _ _ => ?_⟩
  by_cases h : ∀ t' ∈ tasks, t'.reminderNotificationId = t.reminderNotificationId →
      t'.completedAt ≠ none
  · exact Or.inl h
  · simp only [not_forall, not_not] at h
    obtain ⟨t', ht', hn, hopen⟩ := h
    obtain ⟨t'', ht'', hn', hc'⟩ := hkept t' ht'
    exact Or.inr (Or.inr ⟨t'', ht'', hn'.trans hn, hc'.trans hopen⟩)

theorem exists_mem_sanitized {tasks : List Task} {t : Task} (ht : t ∈ tasks)
    (lookup : String → Option Task) : ∃ t' ∈ tasks.map (Task.sanitized lookup),
      t'.reminderNotificationId = t.reminderNotificationId ∧ t'.completedAt = t.completedAt := by
  refine ⟨_, List.mem_map_of_mem ht, ?_⟩
  obtain ⟨_, _, h⟩ := t.exists_sanitized_eq lookup
  rw [h]
  exact ⟨rfl, rfl⟩

end LocalStore

/-- An operation ends no other task without a cancellation. -/
theorem endsOnly_step {e : Date × Operation} {u u' : Session} (hd : DistinctIds u.store.tasks)
    (hop : e.2.endsReminders = true) (hl : Operation.FreshIds e u)
    (hs : Session.step e u = some u') :
    u.store.EndsOnly (Operation.EndsSilently e u) u'.store := by
  obtain ⟨now, op⟩ := e
  have hself : u.store.EndsOnly (Operation.EndsSilently (now, op) u) u.store :=
    ⟨[], (List.append_nil _).symm, fun t ht hopen => Or.inr (Or.inr ⟨t, ht, rfl, hopen⟩)⟩
  cases op with
  | setParent taskId parentId =>
    obtain rfl := Option.some_inj.mp hs
    exact (LocalStore.keepsReminders_setParent hd taskId parentId now).endsOnly
      (fun _ _ => False.elim) fun _ _ h => h
  | completeTask id =>
    obtain rfl := Option.some_inj.mp hs
    exact (LocalStore.keepsReminders_completeTask hd id now).endsOnly
      (fun _ _ => False.elim) fun _ _ h => h
  | restoreTask id =>
    obtain rfl := Option.some_inj.mp hs
    exact (LocalStore.keepsReminders_restoreTask id now).endsOnly
      (fun _ _ h => h) fun _ _ => False.elim
  | deleteTask id =>
    obtain rfl := Option.some_inj.mp hs
    exact (LocalStore.keepsReminders_deleteTask hd id now).endsOnly
      (fun _ _ => False.elim) fun _ _ h => h
  | deleteTaskUndoably id =>
    obtain rfl := Option.some_inj.mp hs
    unfold Session.deleteTaskUndoably
    split
    · exact hself
    · exact (LocalStore.keepsReminders_deleteTask hd id now).endsOnly
        (fun _ _ => False.elim) fun _ _ h => h
  | undo =>
    obtain rfl := Option.some_inj.mp hs
    unfold Session.undo
    split
    · exact hself
    · rename_i task undoStack hstack
      exact (LocalStore.keepsReminders_addTask task now).endsOnly (fun _ _ => False.elim)
        fun _ _ h => ⟨task, by simp [hstack], h⟩
  | redo =>
    obtain rfl := Option.some_inj.mp hs
    unfold Session.redo
    split
    · exact hself
    · rename_i task redoStack hstack
      exact (LocalStore.keepsReminders_deleteTask hd task.id now).endsOnly
        (fun _ _ => False.elim) fun _ _ h => ⟨task, by simp [hstack], h⟩
  | deleteParentTask id strategy =>
    obtain rfl := Option.some_inj.mp hs
    exact (LocalStore.keepsReminders_deleteParentTask hd id strategy now).endsOnly
      (fun _ _ => False.elim) fun _ _ h => h
  | applyRemoteTasks tasks =>
    obtain ⟨s', hs', htasks⟩ := LocalStore.applyRemoteTasks_of_distinctIds (s := u.store) hl
    obtain rfl := Option.some_inj.mp ((congrArg (Option.map u.withStore) hs').symm.trans hs)
    refine LocalStore.endsOnly_of_remote
      (LocalStore.keepsMetadata_applyRemoteTasks hs').spawned fun t ht => ?_
    change ∃ t' ∈ s'.tasks, _
    rw [htasks]
    exact LocalStore.exists_mem_sanitized ht _
  | applyRemoteSnapshot notes tasks categories =>
    obtain ⟨s', hs', -, htasks⟩ :=
      LocalStore.exists_applyRemoteSnapshot (s := u.store) notes hl categories
    obtain rfl := Option.some_inj.mp ((congrArg (Option.map u.withStore) hs').symm.trans hs)
    refine LocalStore.endsOnly_of_remote
      (LocalStore.keepsMetadata_applyRemoteSnapshot hs').spawned fun t ht => ?_
    change ∃ t' ∈ s'.tasks, _
    rw [htasks]
    obtain ⟨t₁, ht₁, hn₁, hc₁⟩ := LocalStore.exists_mem_sanitized ht _
    obtain ⟨t₂, ht₂, hn₂, hc₂⟩ := LocalStore.exists_mem_sanitized ht₁ _
    exact ⟨t₂, ht₂, hn₂.trans hn₁, hc₂.trans hc₁⟩
  | _ => cases hop

end Notelayer
