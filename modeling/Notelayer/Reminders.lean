import Notelayer.Operations
import Notelayer.TaskView

/-!
# Reminder operations between other operations

`setReminder` and `removeReminder` find the task of an id, suspend while the notification
centre works, and then write the whole task back at the index found before. A step of
`ReminderSession` is an operation of the store, the start of a reminder operation, or the
completion of the await one of them is suspended at.

`TouchesOnlyItsTask` says that a step of a reminder operation does not trap and changes at
most the reminder and `updatedAt` of its task. The write back does so exactly when the
task at that index is still the one captured, the reminder and `updatedAt` apart
(`touchesOnlyItsTask_iff`). Nothing the other operations do is assumed.
-/

namespace Notelayer

open LocalStore

/-! ## The two operations -/

/-- The await a reminder operation is suspended at. -/
inductive ReminderStage where
  /-- `setReminder` at `cancelReminder`. -/
  | cancelling (date : Date)
  /-- `setReminder` at `scheduleReminder`. -/
  | scheduling (date : Date) (notificationId : String)
  /-- `removeReminder` at `cancelReminder`. -/
  | removing

/-- A suspended `setReminder` or `removeReminder`, with the index and the task it found. -/
structure ReminderOperation where
  taskId : String
  index : ℕ
  task : Task
  stage : ReminderStage

/-- The task with another reminder, or with none. -/
def Task.reminding (task : Task) (date : Option Date) (notificationId : Option String)
    (now : Date) : Task :=
  { task with reminderDate := date, reminderNotificationId := notificationId, updatedAt := now }

namespace LocalStore

variable (s : LocalStore)

/-- `tasks[index] = task`, which traps if there is no such index. -/
def assignTask (index : ℕ) (task : Task) : Option LocalStore :=
  if index < s.tasks.length then some (s.setTask index task) else none

/-- What `setReminder` does once the notification is scheduled. -/
def finishSetReminder (index : ℕ) (task : Task) (date : Date) (notificationId : String)
    (now : Date) : Option LocalStore :=
  let task := task.reminding (some date) (some notificationId) now
  (s.assignTask index task).map fun s =>
    let leadMinutes := max 0 (date.minutesSince now)
    let s := s.saveTasks.logEvent "task_reminder_set" [
      ("lead_time_minutes", .int leadMinutes),
      ("has_due_date", .bool task.dueDate.isSome),
      ("category_count", .int task.categories.length),
      ("category_ids_csv", .string (joinedByComma task.categories))]
    let s := s.logEvent "reminder_scheduled" [
      ("lead_time_minutes", .int leadMinutes),
      ("category_ids_csv", .string (joinedByComma task.categories))]
    s.spawnSync (.upsertTask · task)

/-- What `removeReminder` does once the notification is cancelled. -/
def finishRemoveReminder (index : ℕ) (task : Task) (now : Date) : Option LocalStore :=
  let task := task.reminding none none now
  (s.assignTask index task).map fun s =>
    let s := s.saveTasks.logEvent "task_reminder_cleared" [
      ("category_count", .int task.categories.length),
      ("has_due_date", .bool task.dueDate.isSome),
      ("category_ids_csv", .string (joinedByComma task.categories))]
    let s := s.logEvent "reminder_cleared" [
      ("category_ids_csv", .string (joinedByComma task.categories))]
    s.spawnSync (.upsertTask · task)

end LocalStore

/-! ## Steps -/

/-- A session with the reminder operations that are suspended in it. -/
structure ReminderSession where
  session : Session
  pending : List ReminderOperation := []

/-- A step of the session. -/
inductive ReminderStep where
  | operation (operation : Operation)
  | resetForNewUser
  /-- `notificationId` is the fresh identifier drawn if there is nothing to cancel. -/
  | setReminder (taskId : String) (date : Date) (notificationId : String)
  | removeReminder (taskId : String)
  /-- The await of the `k`-th suspended operation completes. `throwing` is whether
  `scheduleReminder` throws, `notificationId` the identifier drawn after a cancellation. -/
  | resume (k : ℕ) (notificationId : String) (throwing : Bool)

/-- The step is a piece of a reminder operation. -/
def ReminderStep.isReminder : ReminderStep → Bool
  | operation _ => false
  | resetForNewUser => false
  | setReminder _ _ _ => true
  | removeReminder _ => true
  | resume _ _ _ => true

namespace ReminderSession

variable (r : ReminderSession)

/-- The tasks of the store. -/
def tasks : List Task :=
  r.session.store.tasks

/-- With another store. -/
def withStore (store : LocalStore) : ReminderSession :=
  { r with session := r.session.withStore store }

/-- An operation waits at its await. -/
def suspend (operation : ReminderOperation) : ReminderSession :=
  { r with pending := r.pending ++ [operation] }

/-- The `k`-th suspended operation is at its next await. -/
def advance (k : ℕ) (operation : ReminderOperation) : ReminderSession :=
  { r with pending := r.pending.set k operation }

/-- The `k`-th suspended operation has returned. -/
def finish (k : ℕ) : ReminderSession :=
  { r with pending := r.pending.eraseIdx k }

/-- The start of `setReminder`, up to its first await. -/
def setReminder (taskId : String) (date : Date) (notificationId : String) : ReminderSession :=
  match firstEntry r.tasks fun t => t.id = taskId with
  | none => r
  | some (index, task) =>
    if task.reminderNotificationId.isSome then r.suspend ⟨taskId, index, task, .cancelling date⟩
    else r.suspend ⟨taskId, index, task, .scheduling date notificationId⟩

/-- The start of `removeReminder`, up to its await if it has one. -/
def removeReminder (taskId : String) (now : Date) : Option ReminderSession :=
  match firstEntry r.tasks fun t => t.id = taskId with
  | none => some r
  | some (index, task) =>
    if task.reminderNotificationId.isSome then some (r.suspend ⟨taskId, index, task, .removing⟩)
    else (r.session.store.finishRemoveReminder index task now).map r.withStore

/-- The await of the `k`-th suspended operation completes, and it runs to the next one or to
its end. -/
def resume (k : ℕ) (notificationId : String) (throwing : Bool) (now : Date) :
    Option ReminderSession :=
  match r.pending[k]? with
  | none => some r
  | some operation =>
    match operation.stage with
    | .cancelling date =>
      some (r.advance k { operation with stage := .scheduling date notificationId })
    | .scheduling date notificationId =>
      if throwing then some (r.finish k)
      else (r.session.store.finishSetReminder operation.index operation.task date notificationId
        now).map (r.finish k).withStore
    | .removing => (r.session.store.finishRemoveReminder operation.index operation.task now).map
        (r.finish k).withStore

/-- One step. `none` : a trap, or nothing waits there. -/
def step (e : Date × ReminderStep) (r : ReminderSession) : Option ReminderSession :=
  let now := e.1
  match e.2 with
  | .operation operation => (Session.step (now, operation) r.session).map fun session =>
      { r with session := session }
  | .resetForNewUser => r.session.store.resetForNewUser.map r.withStore
  | .setReminder taskId date notificationId => some (r.setReminder taskId date notificationId)
  | .removeReminder taskId => r.removeReminder taskId now
  | .resume k notificationId throwing => r.resume k notificationId throwing now

end ReminderSession

/-! ## What a reminder operation may change -/

/-- The task without its reminder and `updatedAt`. -/
def Task.exceptReminder (task : Task) : Task :=
  { task with
    reminderDate := none
    reminderNotificationId := none
    updatedAt := AppDateBounds.metadataBaseline }

/-- The two lists differ at most in the reminder and `updatedAt` of the task `taskId`. -/
def OnlyReminderOf (taskId : String) (before after : List Task) : Prop :=
  after.length = before.length ∧ ∀ (i : ℕ) (t t' : Task), before[i]? = some t →
    after[i]? = some t' →
    t' = t ∨ t.id = taskId ∧ t'.exceptReminder = t.exceptReminder

/-- The step does not trap, and changes at most the reminder of `taskId`. -/
def TouchesOnly (taskId : String) (e : Date × ReminderStep) (r : ReminderSession) : Prop :=
  ∃ r', ReminderSession.step e r = some r' ∧ OnlyReminderOf taskId r.tasks r'.tasks

/-- A step of a reminder operation touches only its task. -/
def TouchesOnlyItsTask (e : Date × ReminderStep) (r : ReminderSession) : Prop :=
  match e.2 with
  | .operation _ => True
  | .resetForNewUser => True
  | .setReminder taskId _ _ => TouchesOnly taskId e r
  | .removeReminder taskId => TouchesOnly taskId e r
  | .resume k _ _ => ∀ operation, r.pending[k]? = some operation → TouchesOnly operation.taskId e r

/-- Whether the completion of its await makes the operation write its task back. -/
def ReminderOperation.writesBack (operation : ReminderOperation) (throwing : Bool) : Bool :=
  match operation.stage with
  | .cancelling _ => false
  | .scheduling _ _ => !throwing
  | .removing => true

/-- Where a suspended operation writes back, the task at its index is the one it captured, the
reminder and `updatedAt` apart. -/
def Undisturbed (e : Date × ReminderStep) (r : ReminderSession) : Prop :=
  match e.2 with
  | .resume k _ throwing => ∀ operation, r.pending[k]? = some operation →
      operation.writesBack throwing = true → ∃ current, r.tasks[operation.index]? = some current ∧
        current.exceptReminder = operation.task.exceptReminder
  | _ => True

theorem OnlyReminderOf.refl (taskId : String) (tasks : List Task) :
    OnlyReminderOf taskId tasks tasks := by
  refine ⟨rfl, fun i t t' ht ht' => Or.inl ?_⟩
  rw [ht] at ht'
  exact (Option.some_inj.mp ht').symm

/-- Writing a task at an index touches only its task exactly when it is that task's index and
the task is up to its reminder the one written. -/
theorem onlyReminderOf_set_iff {tasks : List Task} {index : ℕ} {new : Task}
    (hlt : index < tasks.length) : OnlyReminderOf new.id tasks (tasks.set index new) ↔
      tasks[index].exceptReminder = new.exceptReminder := by
  refine ⟨?_, fun h => ⟨by simp, fun i t t' ht ht' => ?_⟩⟩
  · rintro ⟨-, h⟩
    rcases h index tasks[index] new (by simp [hlt]) (by simp [hlt]) with heq | ⟨-, heq⟩
    · rw [heq]
    · exact heq.symm
  · rcases eq_or_ne index i with rfl | hne
    · rw [List.getElem?_set_self hlt, Option.some_inj] at ht'
      rw [List.getElem?_eq_getElem hlt, Option.some_inj] at ht
      subst ht ht'
      have hid : tasks[index].exceptReminder.id = new.exceptReminder.id := by rw [h]
      exact Or.inr ⟨hid, h.symm⟩
    · rw [List.getElem?_set_ne hne, ht, Option.some_inj] at ht'
      exact Or.inl ht'.symm

namespace LocalStore

variable {s : LocalStore}

/-- Writing a task back does not trap and touches only its task exactly when the task at the
index is up to its reminder the one written. -/
theorem assignTask_iff (index : ℕ) (new : Task) {f : LocalStore → LocalStore}
    (hf : ∀ s, (f s).tasks = s.tasks) :
    (∃ s', (s.assignTask index new).map f = some s' ∧ OnlyReminderOf new.id s.tasks s'.tasks) ↔
      ∃ current, s.tasks[index]? = some current ∧
        current.exceptReminder = new.exceptReminder := by
  unfold assignTask
  split_ifs with hlt
  · simp only [Option.map_some, Option.some_inj, exists_eq_left', List.getElem?_eq_getElem hlt,
      hf, tasks_setTask]
    exact onlyReminderOf_set_iff hlt
  · simp [List.getElem?_eq_none_iff.mpr (not_lt.mp hlt)]

theorem finishSetReminder_iff (index : ℕ) (task : Task) (date : Date) (notificationId : String)
    (now : Date) : (∃ s', s.finishSetReminder index task date notificationId now = some s' ∧
        OnlyReminderOf task.id s.tasks s'.tasks) ↔
      ∃ current, s.tasks[index]? = some current ∧
        current.exceptReminder = task.exceptReminder :=
  assignTask_iff index (task.reminding (some date) (some notificationId) now) (by simp)

theorem finishRemoveReminder_iff (index : ℕ) (task : Task) (now : Date) :
    (∃ s', s.finishRemoveReminder index task now = some s' ∧
        OnlyReminderOf task.id s.tasks s'.tasks) ↔
      ∃ current, s.tasks[index]? = some current ∧
        current.exceptReminder = task.exceptReminder :=
  assignTask_iff index (task.reminding none none now) (by simp)

end LocalStore

/-! ## Runs -/

namespace ReminderSession

/-- Every suspended operation captured the task it is about. -/
def Captures (r : ReminderSession) : Prop :=
  ∀ operation ∈ r.pending, operation.task.id = operation.taskId

variable {r : ReminderSession}

theorem Captures.suspend (h : r.Captures) {taskId : String} {index : ℕ} {task : Task}
    (htask : firstEntry r.tasks (fun t => t.id = taskId) = some (index, task))
    (stage : ReminderStage) : (r.suspend ⟨taskId, index, task, stage⟩).Captures := by
  intro operation hop
  rcases List.mem_append.mp hop with hop | hop
  · exact h operation hop
  · obtain rfl := List.mem_singleton.mp hop
    simpa using (firstEntry_eq_some htask).2

theorem Captures.eraseIdx (h : r.Captures) (k : ℕ) (session : Session) :
    Captures ⟨session, r.pending.eraseIdx k⟩ :=
  fun operation hop => h operation (List.mem_of_mem_eraseIdx hop)

/-- Every step keeps the captured tasks those that were asked for. -/
theorem captures_step {e : Date × ReminderStep} {r' : ReminderSession} (h : r.Captures)
    (hs : step e r = some r') : r'.Captures := by
  obtain ⟨now, step⟩ := e
  cases step with
  | operation operation =>
    obtain ⟨session, -, rfl⟩ := Option.map_eq_some_iff.mp hs
    exact h
  | resetForNewUser =>
    dsimp only [ReminderSession.step] at hs
    obtain ⟨store, -, rfl⟩ := Option.map_eq_some_iff.mp hs
    exact h
  | setReminder taskId date notificationId =>
    obtain rfl := Option.some_inj.mp hs
    unfold setReminder
    split
    · exact h
    · rename_i index task hentry
      split_ifs
      · exact h.suspend hentry _
      · exact h.suspend hentry _
  | removeReminder taskId =>
    dsimp only [ReminderSession.step] at hs
    unfold removeReminder at hs
    split at hs
    · obtain rfl := Option.some_inj.mp hs
      exact h
    · rename_i index task hentry
      split_ifs at hs
      · obtain rfl := Option.some_inj.mp hs
        exact h.suspend hentry _
      · obtain ⟨store, -, rfl⟩ := Option.map_eq_some_iff.mp hs
        exact h
  | resume k notificationId throwing =>
    dsimp only [ReminderSession.step] at hs
    unfold resume at hs
    split at hs
    · obtain rfl := Option.some_inj.mp hs
      exact h
    · rename_i operation hop
      split at hs
      · obtain rfl := Option.some_inj.mp hs
        intro operation' hop'
        rcases List.mem_or_eq_of_mem_set hop' with hop' | rfl
        · exact h operation' hop'
        · exact h operation (List.mem_of_getElem? hop)
      · split_ifs at hs
        · obtain rfl := Option.some_inj.mp hs
          exact h.eraseIdx k _
        · obtain ⟨store, -, rfl⟩ := Option.map_eq_some_iff.mp hs
          exact h.eraseIdx k _
      · obtain ⟨store, -, rfl⟩ := Option.map_eq_some_iff.mp hs
        exact h.eraseIdx k _

end ReminderSession

/-- A step that leaves the tasks alone touches no task. -/
theorem touchesOnly_of_tasks_eq {taskId : String} {e : Date × ReminderStep}
    {r : ReminderSession} (r' : ReminderSession) (hs : ReminderSession.step e r = some r')
    (htasks : r'.tasks = r.tasks) : TouchesOnly taskId e r :=
  ⟨r', hs, htasks ▸ OnlyReminderOf.refl taskId r.tasks⟩

/-- A step that is a write back touches only what the write back does. -/
theorem touchesOnly_iff_of_map {taskId : String} {e : Date × ReminderStep} {r : ReminderSession}
    (write : Option LocalStore) (f : LocalStore → ReminderSession)
    (hs : ReminderSession.step e r = write.map f) (hf : ∀ s, (f s).tasks = s.tasks) :
    TouchesOnly taskId e r ↔
      ∃ s', write = some s' ∧ OnlyReminderOf taskId r.session.store.tasks s'.tasks := by
  unfold TouchesOnly
  rw [hs]
  cases write with
  | none => simp
  | some s =>
    simp only [Option.map_some, Option.some_inj, exists_eq_left', hf]
    rfl

/-- A step of a reminder operation touches only its task if and only if, where it writes back,
the task at its index is undisturbed. -/
theorem touchesOnlyItsTask_iff {e : Date × ReminderStep} {r : ReminderSession}
    (h : r.Captures) : TouchesOnlyItsTask e r ↔ Undisturbed e r := by
  obtain ⟨now, step⟩ := e
  cases step with
  | operation operation => exact Iff.rfl
  | resetForNewUser => exact Iff.rfl
  | setReminder taskId date notificationId =>
    refine iff_of_true (touchesOnly_of_tasks_eq _ rfl ?_) trivial
    unfold ReminderSession.setReminder
    split
    · rfl
    · split_ifs <;> rfl
  | removeReminder taskId =>
    refine iff_of_true ?_ trivial
    cases hentry : firstEntry r.tasks fun t => t.id = taskId with
    | none =>
      refine touchesOnly_of_tasks_eq r ?_ rfl
      simp [ReminderSession.step, ReminderSession.removeReminder, hentry]
    | some p =>
      obtain ⟨index, task⟩ := p
      obtain ⟨hindex, hid⟩ := firstEntry_eq_some hentry
      obtain rfl : task.id = taskId := by simpa using hid
      rcases Bool.eq_false_or_eq_true task.reminderNotificationId.isSome with hn | hn
      · refine touchesOnly_of_tasks_eq (r.suspend ⟨task.id, index, task, .removing⟩) ?_ rfl
        simp [ReminderSession.step, ReminderSession.removeReminder, hentry, hn]
      · refine (touchesOnly_iff_of_map (r.session.store.finishRemoveReminder index task now)
          r.withStore ?_ fun _ => rfl).mpr ?_
        · simp [ReminderSession.step, ReminderSession.removeReminder, hentry, hn]
        · exact (finishRemoveReminder_iff index task now).mpr ⟨task, hindex, rfl⟩
  | resume k notificationId throwing =>
    refine forall₂_congr fun operation hop => ?_
    have hid := h operation (List.mem_of_getElem? hop)
    cases hstage : operation.stage with
    | cancelling date =>
      refine iff_of_true (touchesOnly_of_tasks_eq
        (r.advance k { operation with stage := .scheduling date notificationId }) ?_ rfl) ?_
      · simp [ReminderSession.step, ReminderSession.resume, hop, hstage]
      · simp [ReminderOperation.writesBack, hstage]
    | scheduling date id =>
      cases throwing with
      | true =>
        refine iff_of_true (touchesOnly_of_tasks_eq (r.finish k) ?_ rfl) ?_
        · simp [ReminderSession.step, ReminderSession.resume, hop, hstage]
        · simp [ReminderOperation.writesBack, hstage]
      | false =>
        rw [← hid, touchesOnly_iff_of_map (r.session.store.finishSetReminder operation.index
          operation.task date id now) (r.finish k).withStore ?_ fun _ => rfl, finishSetReminder_iff]
        · simp [ReminderOperation.writesBack, hstage, ReminderSession.tasks]
        · simp [ReminderSession.step, ReminderSession.resume, hop, hstage]
    | removing =>
      rw [← hid, touchesOnly_iff_of_map (r.session.store.finishRemoveReminder operation.index
        operation.task now) (r.finish k).withStore ?_ fun _ => rfl, finishRemoveReminder_iff]
      · simp [ReminderOperation.writesBack, hstage, ReminderSession.tasks]
      · simp [ReminderSession.step, ReminderSession.resume, hop, hstage]

/-- In every interleaving, every step of a reminder operation touches only its task if and
only if every write back finds its task undisturbed. -/
theorem touchesOnlyItsTask_run_iff {r : ReminderSession} (h : r.pending = [])
    (steps : List (Date × ReminderStep)) :
    Runs.Guarded ReminderSession.step TouchesOnlyItsTask steps r ↔
      Runs.Guarded ReminderSession.step Undisturbed steps r := by
  have hcaptures : r.Captures := by simp [ReminderSession.Captures, h]
  exact Runs.guarded_congr (fun _ _ _ h hs => ReminderSession.captures_step h hs)
    (fun _ _ h => touchesOnlyItsTask_iff h) hcaptures

/-- Setting a reminder on the second of two tasks, undisturbed. -/
theorem touchesOnlyItsTask_run_iff_sample :
    Runs.Guarded ReminderSession.step TouchesOnlyItsTask
      [(.seconds 1, .setReminder "subtask" (.seconds 600) "notification"),
        (.seconds 2, .operation (.completeTask "parent")), (.seconds 3, .resume 0 "" false)]
      ⟨Session.sample, []⟩ := by
  refine (touchesOnlyItsTask_run_iff rfl _).mpr
    ⟨trivial, fun r₁ h₁ => ⟨trivial, fun r₂ h₂ => ⟨fun operation hop _ => ?_, fun _ _ => trivial⟩⟩⟩
  obtain rfl := Option.some_inj.mp h₁
  obtain rfl := Option.some_inj.mp h₂
  obtain rfl := Option.some_inj.mp hop
  exact ⟨_, rfl, rfl⟩

/-- A task before the one with the reminder is deleted during the await : there is no task at
the index any more. -/
theorem not_touchesOnlyItsTask_run : ¬∀ (r : ReminderSession) (steps : List (Date × ReminderStep)),
    r.pending = [] → Runs.Guarded ReminderSession.step TouchesOnlyItsTask steps r := by
  intro h
  obtain ⟨-, h⟩ := h ⟨Session.sample, []⟩
    [(.seconds 1, .setReminder "subtask" (.seconds 600) "notification"),
      (.seconds 2, .operation (.deleteParentTask "parent" .detachSubtasks)),
      (.seconds 3, .resume 0 "" false)] rfl
  obtain ⟨-, h⟩ := h _ rfl
  obtain ⟨h, -⟩ := h _ rfl
  obtain ⟨r', hr', -⟩ := h _ rfl
  cases hr'

end Notelayer
