import Notelayer.Notifications

/-!
# A reminder that cannot be scheduled

A `SetReminderCall` is a call of `setReminder` that no other step interrupts. It cancels the
notification of the reminder before it schedules the new one, and if that throws it returns with
nothing written. So the task stays as it was, and the pending notifications do if and only if the
old one was not among them (`setReminder_atomic_iff`).
-/

namespace Notelayer

/-! ## A call -/

/-- A call of `setReminder`, with the instants of its parts and what it draws. -/
structure SetReminderCall where
  taskId : String
  date : Date
  notificationId : String
  startedAt : Date
  cancelledAt : Date
  /-- The instant of the check in `scheduleReminder`. -/
  checkedAt : Date
  returnedAt : Date
  /-- Whether the notification centre rejects the request. -/
  rejecting : Bool

namespace SetReminderCall

variable (call : SetReminderCall)

/-- `scheduleReminder` throws. -/
def throws : Bool :=
  !decide (call.checkedAt < call.date) || call.rejecting

/-- The task that the call finds. -/
def found (s : NotificationSession) : Option Task :=
  (firstEntry s.tasks fun t => t.id = call.taskId).map Prod.snd

/-- The steps of the call. It is the last of the suspended operations. -/
def steps (s : NotificationSession) : List (Date × NotificationStep) :=
  let k := s.pending.length
  let start := (call.startedAt, .reminder (.setReminder call.taskId call.date call.notificationId))
  let cancelled := (call.cancelledAt, .reminder (.resume k call.notificationId false))
  let returned := (call.returnedAt, .reminder (.resume k call.notificationId call.throws))
  match call.found s with
  | none => [start]
  | some task =>
    if task.reminderNotificationId.isSome then [start, cancelled, returned] else [start, returned]

end SetReminderCall

/-! ## The parts of a call -/

namespace NotificationSession

variable {s : NotificationSession} {date : Date}

/-- Nothing but the suspended operations and the pending notifications differs. -/
structure SameStore (s s' : NotificationSession) : Prop where
  session : s'.reminders.session = s.reminders.session
  waiting : s'.waiting = s.waiting

theorem SameStore.trans {s s' s'' : NotificationSession} (h : s.SameStore s')
    (h' : s'.SameStore s'') : s.SameStore s'' :=
  ⟨h'.session.trans h.session, h'.waiting.trans h.waiting⟩

theorem sameStore_withReminders {r : ReminderSession} {scheduled : Finset String}
    (h : r.session = s.reminders.session) : s.SameStore (s.withReminders r scheduled) :=
  ⟨h, waiting_withReminders_self (congrArg (fun u : Session => u.store.spawned) h)⟩

/-- The start of a call that finds a task. -/
theorem exists_step_setReminder {taskId : String} {index : ℕ} {task : Task}
    (hentry : firstEntry s.tasks (fun t => t.id = taskId) = some (index, task)) (now date : Date)
    (notificationId : String) :
    ∃ s', step (now, .reminder (.setReminder taskId date notificationId)) s = some s' ∧
      s'.pending = s.pending ++ [⟨taskId, index, task,
        if task.reminderNotificationId.isSome then .cancelling date
        else .scheduling date notificationId⟩] ∧
      s.SameStore s' ∧ s'.scheduled = s.scheduled := by
  have hs : ReminderSession.step (now, .setReminder taskId date notificationId) s.reminders =
      some (s.reminders.suspend ⟨taskId, index, task,
        if task.reminderNotificationId.isSome then .cancelling date
        else .scheduling date notificationId⟩) := by
    change some (s.reminders.setReminder taskId date notificationId) = _
    unfold ReminderSession.setReminder
    have hentry' : firstEntry s.reminders.tasks (fun t => t.id = taskId) = some (index, task) :=
      hentry
    rw [hentry']
    dsimp only
    split_ifs <;> rfl
  exact ⟨_, step_reminder hs, rfl, sameStore_withReminders rfl, rfl⟩

/-- The old notification is cancelled. -/
theorem exists_step_cancelled {k : ℕ} {operation : ReminderOperation}
    (hop : s.pending[k]? = some operation) (hstage : operation.stage = .cancelling date)
    (now : Date) (notificationId : String) (throwing : Bool) :
    ∃ s', step (now, .reminder (.resume k notificationId throwing)) s = some s' ∧
      s'.pending = s.pending.set k { operation with stage := .scheduling date notificationId } ∧
      s.SameStore s' ∧
      s'.scheduled = s.scheduled \ operation.task.reminderNotificationId.toFinset := by
  have hop' : s.reminders.pending[k]? = some operation := hop
  have hs : ReminderSession.step (now, .resume k notificationId throwing) s.reminders =
      some (s.reminders.advance k { operation with stage := .scheduling date notificationId }) := by
    change s.reminders.resume k notificationId throwing now = _
    unfold ReminderSession.resume
    rw [hop']
    dsimp only
    rw [hstage]
  refine ⟨_, step_reminder hs, rfl, sameStore_withReminders rfl, ?_⟩
  change s.reminders.notify s.scheduled (.resume k notificationId throwing) = _
  unfold ReminderSession.notify
  dsimp only
  rw [hop']
  dsimp only
  rw [hstage]

/-- The new notification is not scheduled, and the call returns. -/
theorem exists_step_thrown {k : ℕ} {operation : ReminderOperation} {n : String}
    (hop : s.pending[k]? = some operation) (hstage : operation.stage = .scheduling date n)
    (now : Date) (notificationId : String) :
    ∃ s', step (now, .reminder (.resume k notificationId true)) s = some s' ∧
      s'.pending = s.pending.eraseIdx k ∧ s.SameStore s' ∧ s'.scheduled = s.scheduled := by
  have hop' : s.reminders.pending[k]? = some operation := hop
  have hs : ReminderSession.step (now, .resume k notificationId true) s.reminders =
      some (s.reminders.finish k) := by
    change s.reminders.resume k notificationId true now = _
    unfold ReminderSession.resume
    rw [hop']
    dsimp only
    rw [hstage]
    rfl
  refine ⟨_, step_reminder hs, rfl, sameStore_withReminders rfl, ?_⟩
  change s.reminders.notify s.scheduled (.resume k notificationId true) = _
  unfold ReminderSession.notify
  dsimp only
  rw [hop']
  dsimp only
  rw [hstage]
  rfl

end NotificationSession

/-! ## The call as a whole -/

open NotificationSession

namespace SetReminderCall

/-- What a call that throws leaves : the store as it was, and the pending notifications without
the old one. -/
theorem exists_run_of_throws (call : SetReminderCall) (hthrows : call.throws = true)
    (s : NotificationSession) :
    ∃ s', Runs.run step (call.steps s) s = some s' ∧ s'.pending = s.pending ∧ s.SameStore s' ∧
      s'.scheduled =
        s.scheduled \ ((call.found s).bind Task.reminderNotificationId).toFinset := by
  have hfound : call.found s = (firstEntry s.tasks fun t => t.id = call.taskId).map Prod.snd := rfl
  unfold steps
  dsimp only
  cases hentry : firstEntry s.tasks fun t => t.id = call.taskId with
  | none =>
    rw [hfound, hentry]
    have hs : ReminderSession.step (call.startedAt,
        .setReminder call.taskId call.date call.notificationId) s.reminders =
          some s.reminders := by
      change some (s.reminders.setReminder call.taskId call.date call.notificationId) = _
      unfold ReminderSession.setReminder
      have hentry' : firstEntry s.reminders.tasks (fun t => t.id = call.taskId) = none := hentry
      rw [hentry']
    refine ⟨_, Runs.run_cons_eq_some.mpr ⟨_, step_reminder hs, rfl⟩, rfl,
      sameStore_withReminders rfl, ?_⟩
    exact Finset.sdiff_empty.symm
  | some entry =>
    obtain ⟨index, task⟩ := entry
    rw [hfound, hentry, Option.map_some, Option.bind_some]
    dsimp only
    obtain ⟨s₁, hs₁, hpending₁, hsame₁, hscheduled₁⟩ :=
      exists_step_setReminder hentry call.startedAt call.date call.notificationId
    have hlast : ∀ operation : ReminderOperation,
        (s.pending ++ [operation])[s.pending.length]? = some operation := by
      intro operation
      simp
    split_ifs at hpending₁ ⊢ with hold
    · obtain ⟨s₂, hs₂, hpending₂, hsame₂, hscheduled₂⟩ := exists_step_cancelled
        (hpending₁ ▸ hlast _) rfl call.cancelledAt call.notificationId false
      rw [hpending₁, List.set_append_right _ _ le_rfl, Nat.sub_self] at hpending₂
      obtain ⟨s₃, hs₃, hpending₃, hsame₃, hscheduled₃⟩ := exists_step_thrown
        (hpending₂ ▸ hlast _) rfl call.returnedAt call.notificationId
      rw [← hthrows] at hs₃
      refine ⟨s₃, ?_, ?_, hsame₁.trans (hsame₂.trans hsame₃), ?_⟩
      · simp only [Runs.run_cons_eq_some, Runs.run_nil]
        exact ⟨s₁, hs₁, s₂, hs₂, s₃, hs₃, rfl⟩
      · rw [hpending₃, hpending₂]
        simp [List.eraseIdx_append_of_length_le]
      · rw [hscheduled₃, hscheduled₂, hscheduled₁]
    · obtain ⟨s₂, hs₂, hpending₂, hsame₂, hscheduled₂⟩ := exists_step_thrown
        (hpending₁ ▸ hlast _) rfl call.returnedAt call.notificationId
      rw [← hthrows] at hs₂
      refine ⟨s₂, ?_, ?_, hsame₁.trans hsame₂, ?_⟩
      · simp only [Runs.run_cons_eq_some, Runs.run_nil]
        exact ⟨s₁, hs₁, s₂, hs₂, rfl⟩
      · rw [hpending₂, hpending₁]
        simp [List.eraseIdx_append_of_length_le]
      · rw [hscheduled₂, hscheduled₁, Option.not_isSome_iff_eq_none.mp hold]
        exact Finset.sdiff_empty.symm

end SetReminderCall

/-- A call whose schedule throws returns and leaves the store. It leaves the pending notifications
if and only if the task has no old notification among them. -/
theorem setReminder_atomic_iff {call : SetReminderCall} (hthrows : call.throws = true)
    (s : NotificationSession) :
    ∃ s', Runs.run step (call.steps s) s = some s' ∧ s'.pending = s.pending ∧
      (s'.store = s.store ∧ s'.scheduled = s.scheduled ↔
        ∀ task ∈ call.found s, ∀ n ∈ task.reminderNotificationId, n ∉ s.scheduled) := by
  obtain ⟨s', hs', hpending, hsame, hscheduled⟩ := call.exists_run_of_throws hthrows s
  have hstore : s'.store = s.store := congrArg Session.store hsame.session
  refine ⟨s', hs', hpending, ?_⟩
  rw [and_iff_right hstore, hscheduled, Finset.sdiff_eq_self_iff_disjoint, Finset.disjoint_right]
  simp only [Option.mem_toFinset, Option.mem_def, Option.bind_eq_some_iff]
  constructor
  · rintro h task htask n hn
    exact h ⟨task, htask, hn⟩
  · rintro h n ⟨task, htask, hn⟩
    exact h task htask n hn

/-- An open task with the reminder that is pending for it. -/
def sampleReminded : NotificationSession where
  reminders := ⟨⟨{ tasks := [Task.sampleParent.reminding (some (.seconds 9)) (some "reminder")
    (.seconds 0), { Task.sampleSubtask with parentTaskId := none }] }, [], []⟩, []⟩
  scheduled := {"reminder"}

/-- A call for a date that has passed before it is checked. -/
def sampleLateCall (taskId : String) : SetReminderCall where
  taskId := taskId
  date := .seconds 5
  notificationId := "new"
  startedAt := .seconds 4
  cancelledAt := .seconds 6
  checkedAt := .seconds 6
  returnedAt := .seconds 6
  rejecting := false

/-- A task without a reminder. -/
theorem setReminder_atomic_iff_subtask :
    ∃ s', Runs.run step ((sampleLateCall "subtask").steps sampleReminded) sampleReminded =
        some s' ∧ s'.pending = sampleReminded.pending ∧
      (s'.store = sampleReminded.store ∧ s'.scheduled = sampleReminded.scheduled ↔
        ∀ task ∈ (sampleLateCall "subtask").found sampleReminded,
          ∀ n ∈ task.reminderNotificationId, n ∉ sampleReminded.scheduled) :=
  setReminder_atomic_iff (by decide) sampleReminded

/-- The old reminder is not pending any more, and the task still has it. -/
theorem not_setReminder_atomic :
    (sampleLateCall "parent").throws = true ∧
      ∃ s', Runs.run step ((sampleLateCall "parent").steps sampleReminded) sampleReminded =
          some s' ∧
        s'.tasks = sampleReminded.tasks ∧ s'.scheduled = ∅ ∧
        s'.scheduled ≠ sampleReminded.scheduled := by
  refine ⟨by decide, ?_⟩
  obtain ⟨s', hs', -, hsame, hscheduled⟩ :=
    (sampleLateCall "parent").exists_run_of_throws (by decide) sampleReminded
  have hempty : s'.scheduled = ∅ := hscheduled.trans (by decide)
  refine ⟨s', hs', congrArg (fun u : Session => u.store.tasks) hsame.session, hempty, ?_⟩
  rw [hempty]
  decide

end Notelayer
