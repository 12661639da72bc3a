import Notelayer.FailedReminders
import Notelayer.KeptReminders
import Notelayer.UneditedSave

/-!
# Completing and restoring a task

`completeTask` clears the reminder of the task, and `restoreTask` schedules the reminder that it
finds. So nothing is left to schedule when a completed task is restored : the task is open again
without a reminder, which is right only for a reminder that has passed
(`restoreTask_completeTask_iff`).
-/

namespace Notelayer

open KeyedList

/-! ## The task in the store -/

namespace LocalStore

variable {s : LocalStore} {t : Task}

/-- A reconcile of its parent leaves a task alone. -/
theorem mem_reconcileParent_parentTaskId (ht : t ∈ s.tasks) (r : Bool) (now : Date) :
    t ∈ (s.reconcileParent t.parentTaskId r now).tasks := by
  cases hlink : t.parentTaskId with
  | none => exact ht
  | some p => exact mem_reconcileParent_of_child ht (by simp [hlink]) _ r now

theorem completed_mem_completeTask (hd : DistinctIds s.tasks) (ht : t ∈ s.tasks) (now : Date) :
    t.completed now ∈ (s.completeTask t.id now).tasks := by
  obtain ⟨i, hentry, hi⟩ := firstEntry_of_mem hd ht
  obtain ⟨hlt, -⟩ := List.getElem?_eq_some_iff.mp hi
  unfold completeTask
  rw [hentry]
  refine mem_reconcileParent_parentTaskId ?_ false now
  simpa using List.mem_set hlt (t.completed now)

/-- Without a reminder there is none to restore. -/
theorem reopened_mem_restoreTask (hd : DistinctIds s.tasks) (ht : t ∈ s.tasks)
    (hdate : t.reminderDate = none) (now : Date) :
    t.reopened (s.subtaskCount t.id) now ∈ (s.restoreTask t.id now).tasks := by
  obtain ⟨i, hentry, hi⟩ := firstEntry_of_mem hd ht
  obtain ⟨hlt, -⟩ := List.getElem?_eq_some_iff.mp hi
  have hnone : s.restoreReminder t (t.reopened (s.subtaskCount t.id) now) now =
      (s, t.reopened (s.subtaskCount t.id) now) := by
    unfold restoreReminder
    rw [hdate]
  unfold restoreTask
  rw [hentry]
  dsimp only
  rw [hnone]
  refine mem_reconcileParent_parentTaskId ?_ true now
  simpa using List.mem_set hlt (t.reopened (s.subtaskCount t.id) now)

end LocalStore

theorem Task.reminder_reopened_completed (t : Task) (childCount : ℕ) (completedAt now : Date) :
    ((t.completed completedAt).reopened childCount now).reminderDate = none ∧
      ((t.completed completedAt).reopened childCount now).reminderNotificationId = none := by
  unfold reopened
  dsimp only
  split_ifs <;> exact ⟨rfl, rfl⟩

/-! ## The run -/

namespace NotificationSession

/-- The steps run closures only. -/
def OnlyClosures (steps : List (Date × NotificationStep)) : Prop :=
  ∀ e ∈ steps, ∃ k rejecting, e.2 = .runClosure k rejecting

variable {s s' : NotificationSession}

/-- Closures leave the reminder operations alone. -/
theorem OnlyClosures.reminders_run {steps : List (Date × NotificationStep)}
    (h : OnlyClosures steps) (hs : Runs.run step steps s = some s') :
    s'.reminders = s.reminders := by
  induction steps generalizing s with
  | nil =>
    obtain rfl := Option.some_inj.mp hs
    rfl
  | cons e steps ih =>
    obtain ⟨s₁, hs₁, hs⟩ := Runs.run_cons_eq_some.mp hs
    obtain ⟨k, rejecting, he⟩ := h e List.mem_cons_self
    have hstep : s₁.reminders = s.reminders := by
      unfold step at hs₁
      rw [he] at hs₁
      dsimp only at hs₁
      split at hs₁
      · obtain rfl := Option.some_inj.mp hs₁
        rfl
      · obtain rfl := Option.some_inj.mp hs₁
        rfl
    exact (ih (fun e he => h e (List.mem_cons_of_mem _ he)) hs).trans hstep

/-- Completing the task, closures, restoring it, and closures again. -/
def completeAndRestore (id : String) (completedAt restoredAt : Date)
    (between after : List (Date × NotificationStep)) : List (Date × NotificationStep) :=
  (completedAt, .reminder (.operation (.completeTask id))) :: (between ++
    (restoredAt, .reminder (.operation (.restoreTask id))) :: after)

/-- A reminder in the future is on the task and pending, and one that has passed is cleared. -/
def RestoresReminder (date restoredAt : Date) (s : NotificationSession) (t : Task) : Prop :=
  if restoredAt < date then
    t.reminderDate = some date ∧ ∃ n ∈ t.reminderNotificationId, n ∈ s.scheduled
  else t.reminderDate = none ∧ t.reminderNotificationId = none

/-- The store after the two operations. -/
theorem store_completeAndRestore {id : String} {completedAt restoredAt : Date}
    {between after : List (Date × NotificationStep)} (hbetween : OnlyClosures between)
    (hafter : OnlyClosures after)
    (h : Runs.run step (completeAndRestore id completedAt restoredAt between after) s = some s') :
    s'.store = (s.store.completeTask id completedAt).restoreTask id restoredAt := by
  obtain ⟨s₁, hs₁, h⟩ := Runs.run_cons_eq_some.mp h
  rw [Runs.run_append] at h
  obtain ⟨s₂, hs₂, h⟩ := Option.bind_eq_some_iff.mp h
  obtain ⟨s₃, hs₃, h⟩ := Runs.run_cons_eq_some.mp h
  have hcompleted : s₁.store = s.store.completeTask id completedAt := by
    obtain rfl := Option.some_inj.mp hs₁
    rfl
  have hstore₂ : s₂.store = s₁.store :=
    congrArg (fun r : ReminderSession => r.session.store) (hbetween.reminders_run hs₂)
  have hrestored : s₃.store = s₂.store.restoreTask id restoredAt := by
    obtain rfl := Option.some_inj.mp hs₃
    rfl
  have hstore₃ : s'.store = s₃.store :=
    congrArg (fun r : ReminderSession => r.session.store) (hafter.reminders_run h)
  rw [hstore₃, hrestored, hstore₂, hcompleted]

end NotificationSession

open NotificationSession

/-- A reminder comes through completing and restoring as it should if and only if it has passed
when the task is restored. -/
theorem restoreTask_completeTask_iff {s s' : NotificationSession} (hd : DistinctIds s.tasks)
    {t : Task} (ht : t ∈ s.tasks) {completedAt restoredAt : Date}
    {between after : List (Date × NotificationStep)} (hbetween : OnlyClosures between)
    (hafter : OnlyClosures after)
    (h : Runs.run step (completeAndRestore t.id completedAt restoredAt between after) s =
      some s') :
    ∃ t', (∀ u, u ∈ s'.tasks ∧ u.id = t.id ↔ u = t') ∧ ∀ date ∈ t.reminderDate,
      (RestoresReminder date restoredAt s' t' ↔ ¬restoredAt < date) := by
  have hstore := store_completeAndRestore hbetween hafter h
  have hids : s'.tasks.map Task.id = s.tasks.map Task.id := by
    change s'.store.tasks.map Task.id = _
    rw [hstore, LocalStore.ids_restoreTask, LocalStore.ids_completeTask]
    rfl
  have hd' : DistinctIds s'.tasks := distinctIds_congr hids hd
  have hd₁ : DistinctIds (s.store.completeTask t.id completedAt).tasks :=
    distinctIds_congr (LocalStore.ids_completeTask t.id completedAt) hd
  have hmem := LocalStore.reopened_mem_restoreTask hd₁
    (LocalStore.completed_mem_completeTask hd ht completedAt) rfl restoredAt
  rw [Task.completed_id, ← hstore] at hmem
  obtain ⟨hdate, hn⟩ := t.reminder_reopened_completed
    ((s.store.completeTask t.id completedAt).subtaskCount t.id) completedAt restoredAt
  refine ⟨(t.completed completedAt).reopened
      ((s.store.completeTask t.id completedAt).subtaskCount t.id) restoredAt,
    fun u => ⟨fun ⟨hu, hid⟩ => ?_, ?_⟩, fun date _ => ?_⟩
  · exact List.inj_on_of_nodup_map hd' hu hmem (hid.trans (by simp))
  · rintro rfl
    exact ⟨hmem, by simp⟩
  · unfold RestoresReminder
    rw [hdate, hn]
    by_cases hfuture : restoredAt < date <;> simp [hfuture]

/-- The reminder of the sample is later than its restoration. -/
theorem restoreTask_completeTask_iff_sample : ∃ s',
    Runs.run step (completeAndRestore "parent" (.seconds 1) (.seconds 2)
      [(.seconds 1, .runClosure 0 false)] []) sampleReminded = some s' ∧
    ∃ t', (∀ u, u ∈ s'.tasks ∧ u.id = "parent" ↔ u = t') ∧
      ∀ date ∈ (some (.seconds 9) : Option Date),
        (RestoresReminder date (.seconds 2) s' t' ↔ ¬Date.seconds 2 < date) := by
  have hbetween : OnlyClosures [(.seconds 1, .runClosure 0 false)] := by
    intro e he
    obtain rfl := List.mem_singleton.mp he
    exact ⟨0, false, rfl⟩
  obtain ⟨s', hs'⟩ : ∃ s', Runs.run step (completeAndRestore "parent" (.seconds 1) (.seconds 2)
      [(.seconds 1, .runClosure 0 false)] []) sampleReminded = some s' := ⟨_, rfl⟩
  have hd : DistinctIds sampleReminded.tasks := by decide
  exact ⟨s', hs', restoreTask_completeTask_iff hd List.mem_cons_self hbetween
    (fun e he => absurd he List.not_mem_nil) hs'⟩

/-- The reminder is in the future, all closures have run, and it is gone. -/
theorem not_restoresReminder_sample : ∃ s',
    Runs.run step (completeAndRestore "parent" (.seconds 1) (.seconds 2)
      [(.seconds 1, .runClosure 0 false)] []) sampleReminded = some s' ∧
    s'.waiting = [] ∧ s'.scheduled = ∅ ∧ Date.seconds 2 < .seconds 9 ∧
    ∃ t' ∈ s'.tasks, t'.id = "parent" ∧ t'.completedAt = none ∧ t'.reminderDate = none ∧
      ¬RestoresReminder (.seconds 9) (.seconds 2) s' t' := by
  refine ⟨_, rfl, rfl, by decide, by decide, _, List.mem_cons_self, rfl, rfl, rfl, ?_⟩
  unfold RestoresReminder
  rw [if_pos (by decide)]
  exact fun h => absurd h.1 nofun

end Notelayer
