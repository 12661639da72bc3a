import Notelayer.KeptReminders
import Notelayer.LocalOperations

/-!
# Reminders that operations bring into the list

An open task whose reminder lies after an instant `T` should have a notification by then.
`LocalStore.BringsReminders` says where the reminder of such a task comes from : the operation
spawns the closure that schedules it, or the task was open in the list before, or the operation
opens or adds it without a schedule. `Operation.BringsUnscheduled` names the last, and
`bringsReminders_step` says that there are no others.
-/

namespace Notelayer

open KeyedList

/-! ## Reminders after an instant -/

/-- An open task whose reminder lies after `T`. -/
def Task.Awaits (T : Date) (t : Task) : Prop :=
  t.completedAt = none ∧ ∃ date ∈ t.reminderDate, T < date

/-- The two tasks have the same reminder. -/
def Task.SameReminder (t t' : Task) : Prop :=
  t.reminderDate = t'.reminderDate ∧ t.reminderNotificationId = t'.reminderNotificationId

/-- Once it has run by `T`, the closure has scheduled the identifier for a date after `T`. -/
def Closure.Schedules (T : Date) (n : String) : Closure → Prop
  | scheduleReminder _ date _ notificationId => T < date ∧ notificationId = n
  | rescheduleReminders tasks => ∃ task ∈ tasks, task.rescheduled T = some n
  | _ => False

theorem Task.rescheduled_of_awaits {T : Date} {t : Task} (h : t.Awaits T) :
    t.rescheduled T = t.reminderNotificationId := by
  obtain ⟨hopen, date, hdate, hT⟩ := h
  obtain hdate : t.reminderDate = some date := hdate
  simp [rescheduled, hdate, hT, hopen]

/-- `t` is complete and `id` one of its subtasks, and the others are not all complete. -/
def LeavesOpen (tasks : List Task) (id : String) (t : Task) : Prop :=
  t ∈ tasks ∧ t.completedAt ≠ none ∧ (∃ c ∈ tasks, c.id = id ∧ c.parentTaskId = some t.id) ∧
    ¬OthersComplete tasks id t.id

/-- A task that is added keeps its reminder, and whether it is complete. It may lose its parent. -/
theorem Task.sameReminder_attached (t : Task) (tasks : List Task) (i : ℤ) :
    t.SameReminder ((t.ordered i).attached tasks) ∧
      ((t.ordered i).attached tasks).completedAt = t.completedAt ∧
      ∀ p, ((t.ordered i).attached tasks).parentTaskId = some p → t.parentTaskId = some p := by
  unfold Task.attached
  split
  · split
    · split_ifs <;> exact ⟨⟨rfl, rfl⟩, rfl, fun _ hp => hp⟩
    · exact ⟨⟨rfl, rfl⟩, rfl, nofun⟩
  · exact ⟨⟨rfl, rfl⟩, rfl, fun _ hp => hp⟩

namespace LocalStore

variable {s s' s'' : LocalStore} {E E' : Task → Prop} {T : Date}

/-- Every task of `s'` that awaits a reminder has it scheduled by a new closure, or has that of a
task in `E`, or that of the open task with its id in `s`. -/
def BringsReminders (T : Date) (E : Task → Prop) (s s' : LocalStore) : Prop :=
  ∃ new, s'.spawned = s.spawned ++ new ∧ ∀ t' ∈ s'.tasks, t'.Awaits T →
    (∃ n ∈ t'.reminderNotificationId, ∃ closure ∈ new, closure.Schedules T n) ∨
    (∃ t, E t ∧ t.SameReminder t') ∨
    ∃ t ∈ s.tasks, t.completedAt = none ∧ t.id = t'.id ∧ t.SameReminder t'

theorem BringsReminders.refl (s : LocalStore) : s.BringsReminders T E s :=
  ⟨[], (List.append_nil _).symm, fun t ht h => Or.inr (Or.inr ⟨t, ht, h.1, rfl, rfl, rfl⟩)⟩

theorem BringsReminders.mono (h : s.BringsReminders T E s') (hE : ∀ t, E t → E' t) :
    s.BringsReminders T E' s' := by
  obtain ⟨new, hnew, hbring⟩ := h
  refine ⟨new, hnew, fun t' ht' hawaits => (hbring t' ht' hawaits).imp_right (Or.imp_left ?_)⟩
  rintro ⟨t, ht, hsame⟩
  exact ⟨t, hE t ht, hsame⟩

/-- What two steps bring is brought by the first, or by the second of what `E` has. -/
theorem BringsReminders.trans (h : s.BringsReminders T E s') (h' : s'.BringsReminders T E' s'')
    (hE : ∀ t, E' t → E t) : s.BringsReminders T E s'' := by
  obtain ⟨new, hnew, hbring⟩ := h
  obtain ⟨new', hnew', hbring'⟩ := h'
  refine ⟨new ++ new', by rw [hnew', hnew, List.append_assoc], fun t'' ht'' hawaits => ?_⟩
  rcases hbring' t'' ht'' hawaits with ⟨n, hn, closure, hc, hs⟩ | ⟨t', he, hsame⟩ |
    ⟨t', ht', hopen, hid, hsame⟩
  · exact Or.inl ⟨n, hn, closure, List.mem_append_right _ hc, hs⟩
  · exact Or.inr (Or.inl ⟨t', hE t' he, hsame⟩)
  · have hawaits' : t'.Awaits T := ⟨hopen, hsame.1 ▸ hawaits.2⟩
    rcases hbring t' ht' hawaits' with ⟨n, hn, closure, hc, hs⟩ | ⟨t, he, hsame'⟩ |
      ⟨t, ht, hopen', hid', hsame'⟩
    · exact Or.inl ⟨n, hsame.2 ▸ hn, closure, List.mem_append_left _ hc, hs⟩
    · exact Or.inr (Or.inl ⟨t, he, hsame'.1.trans hsame.1, hsame'.2.trans hsame.2⟩)
    · exact Or.inr (Or.inr ⟨t, ht, hopen', hid'.trans hid, hsame'.1.trans hsame.1,
        hsame'.2.trans hsame.2⟩)

/-- Nothing the relation reads changes afterwards, but for more closures. -/
theorem BringsReminders.spawned (h : s.BringsReminders T E s') (htasks : s''.tasks = s'.tasks)
    (hspawned : ∃ new, s''.spawned = s'.spawned ++ new) : s.BringsReminders T E s'' := by
  obtain ⟨new, hspawned⟩ := hspawned
  have hsame : s'.BringsReminders T (fun _ => False) s'' :=
    ⟨new, hspawned, fun t ht h =>
      Or.inr (Or.inr ⟨t, htasks ▸ ht, h.1, rfl, rfl, rfl⟩)⟩
  exact h.trans hsame fun _ => False.elim

/-- Replacing a task brings its reminder at most. -/
theorem bringsReminders_set {i : ℕ} {old : Task} (hi : s.tasks[i]? = some old) (new : Task)
    (spawned : List Closure) (htasks : s'.tasks = s.tasks.set i new)
    (hspawned : s'.spawned = s.spawned ++ spawned)
    (hnew : new.Awaits T →
      (∃ n ∈ new.reminderNotificationId, ∃ closure ∈ spawned, closure.Schedules T n) ∨
      (E old ∨ old.completedAt = none ∧ old.id = new.id) ∧ old.SameReminder new) :
    s.BringsReminders T E s' := by
  refine ⟨spawned, hspawned, fun t' ht' hawaits => ?_⟩
  rw [htasks] at ht'
  rcases List.mem_or_eq_of_mem_set ht' with hmem | rfl
  · exact Or.inr (Or.inr ⟨t', hmem, hawaits.1, rfl, rfl, rfl⟩)
  · rcases hnew hawaits with hs | ⟨he | ⟨hopen, hid⟩, hsame⟩
    · exact Or.inl hs
    · exact Or.inr (Or.inl ⟨old, he, hsame⟩)
    · exact Or.inr (Or.inr ⟨old, List.mem_of_getElem? hi, hopen, hid, hsame⟩)

/-- The complete parent that a reconcile opens. -/
def Reopens (s : LocalStore) (p : Option String) (t : Task) : Prop :=
  t ∈ s.tasks ∧ t.completedAt ≠ none ∧ p = some t.id ∧ t.parentTaskId = none ∧
    ¬SubtasksComplete s.tasks t.id

/-- A reconcile never opens a complete parent whose subtasks are complete. -/
theorem completedAt_reconciled {t : Task} (h : t.completedAt ≠ none) (r : Bool) (now : Date) :
    (t.reconciled true r now).1.completedAt ≠ none := by
  cases t with
  | mk id title categories priority dueDate completedAt taskNotes createdAt updatedAt orderIndex
      reminderDate reminderNotificationId parentTaskId parentManualReopenAt =>
    cases completedAt with
    | none => exact absurd rfl h
    | some date =>
      cases r <;> cases parentManualReopenAt <;> simp [Task.reconciled, Task.editIf]

/-- A reconciliation brings the reminders of a parent that it opens, and no other. -/
theorem bringsReminders_reconcileParent (p : Option String) (r : Bool) (now : Date) :
    s.BringsReminders T (s.Reopens p) (s.reconcileParent p r now) := by
  cases p with
  | none => exact .refl s
  | some p =>
    change s.BringsReminders T _ (s.reconcileParentCompletion p r now)
    unfold reconcileParentCompletion
    split
    · exact .refl s
    · rename_i i parent hentry
      obtain ⟨hi, hparent⟩ := firstEntry_eq_some hentry
      simp only [decide_eq_true_eq] at hparent
      obtain ⟨rfl, hroot⟩ := hparent
      dsimp only
      split_ifs with hempty hover hchange
      · exact bringsReminders_set hi _ _ (tasks_spawnSync _ _) (spawned_spawnSync _ _)
          fun h => Or.inr ⟨Or.inr ⟨h.1, rfl⟩, rfl, rfl⟩
      · exact .refl s
      · refine bringsReminders_set hi _ _ (tasks_spawnSync _ _) (spawned_spawnSync _ _) fun h =>
          Or.inr ⟨?_, (Task.reconciled_reminderDate ..).symm,
            (Task.reconciled_reminderNotificationId ..).symm⟩
        by_cases hopen : parent.completedAt = none
        · exact Or.inr ⟨hopen, (Task.reconciled_id ..).symm⟩
        · refine Or.inl ⟨List.mem_of_getElem? hi, hopen, rfl, hroot, fun hall => ?_⟩
          have hcomplete : ((s.tasks.filter fun t => t.parentTaskId = some parent.id).all
              fun t => t.completedAt ≠ none) = true := by
            refine List.all_eq_true.mpr fun c hc => ?_
            obtain ⟨hc, hp⟩ := List.mem_filter.mp hc
            simpa using hall c hc (by simpa using hp)
          rw [hcomplete] at h
          exact completedAt_reconciled hopen r now h.1
      · exact .refl s

/-- An operation, and the reconcile after it. -/
theorem BringsReminders.reconcileParent (h : s.BringsReminders T E s') (p : Option String)
    (r : Bool) (now : Date) (hE : ∀ t, s'.Reopens p t → E t) :
    s.BringsReminders T E (s'.reconcileParent p r now) :=
  h.trans (bringsReminders_reconcileParent p r now) hE

/-! ### One operation -/

/-- A completion brings no reminder but those of the tasks that it leaves open. -/
theorem bringsReminders_completeTask (hd : DistinctIds s.tasks) (id : String) (now : Date) :
    s.BringsReminders T (LeavesOpen s.tasks id) (s.completeTask id now) := by
  unfold completeTask
  split
  · exact .refl s
  · rename_i i old hentry
    obtain ⟨hi, hid⟩ := firstEntry_eq_some hentry
    obtain rfl : old.id = id := by simpa using hid
    obtain ⟨hlt, -⟩ := List.getElem?_eq_some_iff.mp hi
    have hd' : DistinctIds (s.tasks.set i (old.completed now)) := distinctIds_set hd hi rfl
    dsimp only
    refine BringsReminders.reconcileParent (bringsReminders_set hi (old.completed now)
      ((old.reminderNotificationId.map Closure.cancelReminder).toList ++
        (s.syncingBackend.map (Closure.upsertTask · (old.completed now))).toList) ?_ ?_
      fun h => absurd h.1 nofun) _ _ _ ?_
    · simp
    · simp
    · rintro t ⟨ht, hcomplete, hp, hroot, hall⟩
      simp only [tasks_spawnSync, tasks_spawnCancelReminder, tasks_logEvent, tasks_saveTasks,
        tasks_setTask] at ht hall
      have hlink : old.parentTaskId = some t.id := hp
      have hne : t ≠ old.completed now := by
        rintro rfl
        exact absurd (hlink.symm.trans hroot) nofun
      refine ⟨(List.mem_or_eq_of_mem_set ht).resolve_right hne, hcomplete,
        ⟨old, List.mem_of_getElem? hi, rfl, hlink⟩, fun hothers => hall fun c hc hcp => ?_⟩
      by_cases hid : c.id = old.id
      · obtain rfl := List.inj_on_of_nodup_map hd' hc (List.mem_set hlt _) hid
        exact nofun
      · refine hothers c ((List.mem_or_eq_of_mem_set hc).resolve_right fun heq => hid ?_) hcp hid
        rw [heq, Task.completed_id]

/-- The reminder of a restored task is scheduled if it has an identifier. Its parent is opened with
it. -/
theorem bringsReminders_restoreTask (id : String) (now : Date) :
    s.BringsReminders T (fun t => t ∈ s.tasks ∧ (t.id = id ∧ t.reminderNotificationId = none ∨
      t.completedAt ≠ none ∧ ∃ c ∈ s.tasks, c.id = id ∧ c.parentTaskId = some t.id))
      (s.restoreTask id now) := by
  unfold restoreTask
  split
  · exact .refl s
  · rename_i i old hentry
    obtain ⟨hi, hid⟩ := firstEntry_eq_some hentry
    obtain rfl : old.id = id := by simpa using hid
    have hmem := List.mem_of_getElem? hi
    obtain ⟨hsame, hlink, hnid⟩ : old.SameReminder (old.reopened (s.subtaskCount old.id) now) ∧
        (old.reopened (s.subtaskCount old.id) now).parentTaskId = old.parentTaskId ∧
        (old.reopened (s.subtaskCount old.id) now).completedAt = none := by
      unfold Task.reopened
      dsimp only
      split_ifs <;> exact ⟨⟨rfl, rfl⟩, rfl, rfl⟩
    generalize old.reopened (s.subtaskCount old.id) now = reopened at hsame hlink hnid
    obtain ⟨s₁, new, spawned, hr, htasks, hspawned, hopen, hlink', hnew⟩ :
        ∃ s₁ new spawned, s.restoreReminder old reopened now = (s₁, new) ∧
          s₁.tasks = s.tasks ∧ s₁.spawned = s.spawned ++ spawned ∧ new.completedAt = none ∧
          new.parentTaskId = old.parentTaskId ∧ (new.Awaits T →
            (∃ n ∈ new.reminderNotificationId, ∃ closure ∈ spawned, closure.Schedules T n) ∨
            old.reminderNotificationId = none ∧ old.SameReminder new) := by
      have hdated : reopened.Awaits T → ∃ date, old.reminderDate = some date ∧ T < date :=
        fun ⟨_, date, hdate, hT⟩ => ⟨date, hsame.1.trans hdate, hT⟩
      unfold restoreReminder
      split
      · rename_i date n hdate hn
        split_ifs with hfuture
        · refine ⟨_, _, [_], rfl, rfl, rfl, hnid, hlink, fun h => Or.inl ⟨n, ?_, _,
            List.mem_singleton_self _, ?_⟩⟩
          · exact hsame.2.symm.trans hn
          · obtain ⟨date', hdate', hT⟩ := hdated h
            obtain rfl := Option.some_inj.mp (hdate.symm.trans hdate')
            exact ⟨hT, rfl⟩
        · exact ⟨_, _, [], rfl, rfl, (List.append_nil _).symm, hnid, hlink,
            fun h => absurd h.2 nofun⟩
      · rename_i hboth
        refine ⟨_, _, [], rfl, rfl, (List.append_nil _).symm, hnid, hlink, fun h =>
          Or.inr ⟨?_, hsame⟩⟩
        obtain ⟨date, hdate, -⟩ := hdated h
        exact Option.eq_none_iff_forall_ne_some.mpr fun n hn => hboth date n hdate hn
    dsimp only
    rw [hr]
    refine BringsReminders.reconcileParent (bringsReminders_set hi new
      (spawned ++ (s₁.syncingBackend.map (Closure.upsertTask · new)).toList) ?_ ?_ fun h => ?_)
      _ _ _ ?_
    · simp [htasks]
    · simp [hspawned]
    · rcases hnew h with ⟨n, hn, closure, hc, hschedules⟩ | ⟨hnone, hsame'⟩
      · exact Or.inl ⟨n, hn, closure, List.mem_append_left _ hc, hschedules⟩
      · exact Or.inr ⟨Or.inl ⟨hmem, Or.inl ⟨rfl, hnone⟩⟩, hsame'⟩
    · rintro t ⟨ht, hcomplete, hp, -, -⟩
      simp only [tasks_spawnSync, tasks_logEvent, tasks_saveTasks, tasks_setTask, htasks] at ht
      have hne : t ≠ new := by
        rintro rfl
        exact hcomplete hopen
      exact ⟨(List.mem_or_eq_of_mem_set ht).resolve_right hne,
        Or.inr ⟨hcomplete, old, hmem, rfl, hlink'.symm.trans hp⟩⟩

/-- A deletion brings no reminder but those of the tasks that it leaves open. -/
theorem bringsReminders_deleteTask (id : String) (now : Date) :
    s.BringsReminders T (LeavesOpen s.tasks id) (s.deleteTask id now) := by
  unfold deleteTask
  dsimp only
  have hkept : ∀ c : Task, c ∈ remove Task.id s.tasks id ↔ c ∈ s.tasks ∧ c.id ≠ id := by
    intro c
    simp [remove]
  refine BringsReminders.reconcileParent ⟨((taskWithId s.tasks id).bind
      Task.reminderNotificationId |>.map Closure.cancelReminder).toList ++
      (s.syncingBackend.map (Closure.deleteTask · id)).toList, by simp, fun t ht h => ?_⟩ _ _ _ ?_
  · have hold : t ∈ s.tasks := ((hkept t).mp (by simpa using ht)).1
    exact Or.inr (Or.inr ⟨t, hold, h.1, rfl, rfl, rfl⟩)
  · rintro t ⟨ht, hcomplete, hp, -, hall⟩
    simp only [tasks_spawnSync, tasks_spawnCancelReminder, tasks_logTaskDeleted, tasks_saveTasks,
      tasks_withTasks] at ht hall
    obtain ⟨deleted, hdeleted, hlink⟩ := Option.bind_eq_some_iff.mp hp
    refine ⟨((hkept t).mp ht).1, hcomplete,
      ⟨deleted, mem_of_lookup hdeleted, key_of_lookup hdeleted, hlink⟩, fun hothers => ?_⟩
    refine hall fun c hc hcp => ?_
    obtain ⟨hc, hne⟩ := (hkept c).mp hc
    exact hothers c hc hcp hne

/-- An added task has no notification scheduled. -/
theorem bringsReminders_addTask (task : Task) (now : Date) :
    s.BringsReminders T (fun t => t = task ∧ task.completedAt = none ∨
      t ∈ s.tasks ∧ t.completedAt ≠ none ∧ task.parentTaskId = some t.id)
      (s.addTask task now).1 := by
  have hadded := task.sameReminder_attached s.tasks now.milliseconds
  unfold addTask
  generalize (task.ordered now.milliseconds).attached s.tasks = new at hadded
  obtain ⟨hsame, hc, hlink⟩ := hadded
  have happend : s.BringsReminders T (fun t => t = task ∧ task.completedAt = none ∨
      t ∈ s.tasks ∧ t.completedAt ≠ none ∧ task.parentTaskId = some t.id)
      (s.withTasks (s.tasks ++ [new])) := by
    refine ⟨[], (List.append_nil _).symm, fun t ht h => Or.inr ?_⟩
    rcases List.mem_append.mp ht with ht | ht
    · exact Or.inr ⟨t, ht, h.1, rfl, rfl, rfl⟩
    · obtain rfl := List.mem_singleton.mp ht
      exact Or.inl ⟨task, Or.inl ⟨rfl, hc.symm.trans h.1⟩, hsame⟩
  refine BringsReminders.spawned (happend.reconcileParent new.parentTaskId true now ?_) ?_ ?_
  · rintro t ⟨ht, hcomplete, hp, hroot, -⟩
    have hp' := hlink t.id hp
    rcases List.mem_append.mp ht with ht | ht
    · exact Or.inr ⟨ht, hcomplete, hp'⟩
    · obtain rfl := List.mem_singleton.mp ht
      rw [hroot] at hp
      cases hp
  · simp
  · exact exists_spawned_added _ new

/-- Imported tasks have no notification scheduled. -/
theorem bringsReminders_applySharedImports (notes : List Note) (tasks : List Task) (now : Date) :
    s.BringsReminders T (fun t => t ∈ tasks ∧ t.completedAt = none)
      (s.applySharedImports notes tasks now) := by
  obtain ⟨new, hnew, -⟩ := (Edits.refl.applySharedImports notes tasks now).keepsAccount.spawned
  refine ⟨new, hnew, fun t ht h => Or.inr ?_⟩
  rw [tasks_applySharedImports] at ht
  rcases List.mem_append.mp ht with ht | ht
  · exact Or.inr ⟨t, ht, h.1, rfl, rfl, rfl⟩
  · obtain ⟨i, hi, rfl⟩ := List.mem_mapIdx.mp ht
    obtain ⟨hsame, hc, -⟩ := (tasks[i]).sameReminder_attached s.tasks (now.milliseconds + i)
    exact Or.inl ⟨tasks[i], ⟨List.getElem_mem hi, hc.symm.trans h.1⟩, hsame⟩

/-- Delivered tasks have their notifications scheduled if they have identifiers. -/
theorem bringsReminders_applyRemoteTasks {tasks : List Task} (hd : DistinctIds tasks) :
    ∃ s', s.applyRemoteTasks tasks = some s' ∧ s.BringsReminders T
      (fun t => t ∈ tasks ∧ t.completedAt = none ∧ t.reminderNotificationId = none) s' := by
  have hs : s.applyRemoteTasks tasks = some
      (({ s with tasks := tasks.map (Task.sanitized (lookup Task.id tasks)) }.saveTasks
        |>.rescheduleRemindersAfterSync (tasks.map (Task.sanitized (lookup Task.id tasks))))) := by
    unfold applyRemoteTasks applyRemoteUpdate sanitizeHierarchy uniqueKeysWithValues
    rw [if_pos hd]
    rfl
  refine ⟨_, hs, [.rescheduleReminders _], rfl, fun t ht h => ?_⟩
  cases hn : t.reminderNotificationId with
  | some n =>
    refine Or.inl ⟨n, rfl, _, List.mem_singleton_self _, t, ht, ?_⟩
    rw [Task.rescheduled_of_awaits h, hn]
  | none =>
    obtain ⟨t₀, ht₀, rfl⟩ := List.mem_map.mp ht
    obtain ⟨_, _, heq⟩ := t₀.exists_sanitized_eq (lookup Task.id tasks)
    rw [heq] at h hn ⊢
    exact Or.inr (Or.inl ⟨t₀, ⟨ht₀, h.1, hn⟩, rfl, rfl⟩)

end LocalStore

/-! ## What operations bring without a schedule -/

namespace Operation

/-- The operations that this is about. -/
def bringsReminders : Operation → Bool
  | completeTask _ => true
  | restoreTask _ => true
  | deleteTask _ => true
  | deleteTaskUndoably _ => true
  | undo => true
  | redo => true
  | applySharedImports _ _ => true
  | applyRemoteTasks _ => true
  | _ => false

/-- The operation opens the task `t`, or adds it, and schedules no notification. -/
def BringsUnscheduled (e : Date × Operation) (u : Session) (t : Task) : Prop :=
  match e.2 with
  | completeTask id => LeavesOpen u.store.tasks id t
  | restoreTask id => t ∈ u.store.tasks ∧ (t.id = id ∧ t.reminderNotificationId = none ∨
      t.completedAt ≠ none ∧ ∃ c ∈ u.store.tasks, c.id = id ∧ c.parentTaskId = some t.id)
  | deleteTask id => LeavesOpen u.store.tasks id t
  | deleteTaskUndoably id => LeavesOpen u.store.tasks id t
  | undo => ∃ task ∈ u.undoStack.head?, t = task ∧ task.completedAt = none ∨
      t ∈ u.store.tasks ∧ t.completedAt ≠ none ∧ task.parentTaskId = some t.id
  | redo => ∃ task ∈ u.redoStack.head?, LeavesOpen u.store.tasks task.id t
  | applySharedImports _ tasks => t ∈ tasks ∧ t.completedAt = none
  | applyRemoteTasks tasks =>
    t ∈ tasks ∧ t.completedAt = none ∧ t.reminderNotificationId = none
  | _ => False

end Operation

/-- An operation brings no other reminder without a schedule. -/
theorem bringsReminders_step {e : Date × Operation} {u u' : Session} {T : Date}
    (hd : DistinctIds u.store.tasks) (hop : e.2.bringsReminders = true)
    (hl : Operation.FreshIds e u) (hs : Session.step e u = some u') :
    u.store.BringsReminders T (Operation.BringsUnscheduled e u) u'.store := by
  obtain ⟨now, op⟩ := e
  cases op with
  | completeTask id =>
    obtain rfl := Option.some_inj.mp hs
    exact LocalStore.bringsReminders_completeTask hd id now
  | restoreTask id =>
    obtain rfl := Option.some_inj.mp hs
    exact LocalStore.bringsReminders_restoreTask id now
  | deleteTask id =>
    obtain rfl := Option.some_inj.mp hs
    exact LocalStore.bringsReminders_deleteTask id now
  | deleteTaskUndoably id =>
    obtain rfl := Option.some_inj.mp hs
    unfold Session.deleteTaskUndoably
    split
    · exact .refl u.store
    · exact LocalStore.bringsReminders_deleteTask id now
  | undo =>
    obtain rfl := Option.some_inj.mp hs
    unfold Session.undo
    split
    · exact .refl u.store
    · rename_i task undoStack hstack
      exact (LocalStore.bringsReminders_addTask task now).mono
        fun t ht => ⟨task, by simp [hstack], ht⟩
  | redo =>
    obtain rfl := Option.some_inj.mp hs
    unfold Session.redo
    split
    · exact .refl u.store
    · rename_i task redoStack hstack
      exact (LocalStore.bringsReminders_deleteTask task.id now).mono
        fun t ht => ⟨task, by simp [hstack], ht⟩
  | applySharedImports notes tasks =>
    obtain rfl := Option.some_inj.mp hs
    exact LocalStore.bringsReminders_applySharedImports notes tasks now
  | applyRemoteTasks tasks =>
    obtain ⟨s', hs', hbring⟩ :=
      LocalStore.bringsReminders_applyRemoteTasks (s := u.store) (T := T) hl
    obtain rfl := Option.some_inj.mp ((congrArg (Option.map u.withStore) hs').symm.trans hs)
    exact hbring
  | _ => cases hop

end Notelayer
