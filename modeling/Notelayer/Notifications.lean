import Mathlib.Data.Finset.Option
import Notelayer.AccountDeletion
import Notelayer.Reminders
import Notelayer.SessionIds

/-!
# The notification centre

A `NotificationSession` is a session with its suspended reminder operations, the closures that
wait, and the identifiers of the notifications that are pending in the centre. `scheduleReminder`
adds one if its date is in the future and the centre does not reject it, and `cancelReminder`
takes one away. The closures run in any order, and the one that reschedules after a delivery goes
through its tasks one at a time. What a suspended operation awaits takes effect when it returns.
-/

set_option linter.unusedSectionVars false

namespace Notelayer

open KeyedList

/-! ## What a closure asks of the centre -/

/-- What `rescheduleRemindersAfterSync` schedules for a task. -/
def Task.rescheduled (now : Date) (task : Task) : Option String :=
  match task.reminderDate with
  | some reminderDate =>
    if now < reminderDate ∧ task.completedAt = none then task.reminderNotificationId else none
  | none => none

namespace Closure

/-- The identifier that the next call of `scheduleReminder` in a closure adds. -/
def request (now : Date) : Closure → Option String
  | scheduleReminder _ date _ notificationId => if now < date then some notificationId else none
  | rescheduleReminders (task :: _) => task.rescheduled now
  | _ => none

/-- The pending identifiers after the next call of a closure. -/
def notify (now : Date) (rejecting : Bool) (scheduled : Finset String) (closure : Closure) :
    Finset String :=
  match closure with
  | cancelReminder notificationId => scheduled.erase notificationId
  | closure => if rejecting then scheduled else scheduled ∪ (closure.request now).toFinset

/-- What is left of a closure after its next call. -/
def remaining : Closure → Option Closure
  | rescheduleReminders (_ :: tasks) => some (.rescheduleReminders tasks)
  | _ => none

/-- Where a scheduled notification comes from. -/
theorem mem_notify {now : Date} {rejecting : Bool} {scheduled : Finset String}
    {closure : Closure} {n : String} (h : n ∈ closure.notify now rejecting scheduled) :
    n ∈ scheduled ∧ closure ≠ cancelReminder n ∨
      rejecting = false ∧ closure.request now = some n := by
  have hrequest : ∀ closure : Closure, closure ≠ cancelReminder n →
      n ∈ (if rejecting then scheduled else scheduled ∪ (closure.request now).toFinset) →
      n ∈ scheduled ∧ closure ≠ cancelReminder n ∨
        rejecting = false ∧ closure.request now = some n := by
    intro closure hne hmem
    split_ifs at hmem with hr
    · exact Or.inl ⟨hmem, hne⟩
    · rcases Finset.mem_union.mp hmem with hmem | hmem
      · exact Or.inl ⟨hmem, hne⟩
      · exact Or.inr ⟨Bool.eq_false_of_not_eq_true hr, by simpa using hmem⟩
  cases closure with
  | cancelReminder m =>
    obtain ⟨hne, hmem⟩ := Finset.mem_erase.mp h
    exact Or.inl ⟨hmem, fun heq => hne (cancelReminder.inj heq).symm⟩
  | _ => exact hrequest _ nofun h

end Closure

/-! ## The session and the centre -/

/-- A session with its reminders, the closures about them, and what the centre has scheduled. -/
structure NotificationSession where
  reminders : ReminderSession
  waiting : List Closure := []
  scheduled : Finset String := ∅

/-- A step of the reminders, or a closure that makes a call to the centre. -/
inductive NotificationStep where
  | reminder (step : ReminderStep)
  /-- The `k`-th closure that waits makes its next call. `rejecting` is whether the centre rejects
  the request. -/
  | runClosure (k : ℕ) (rejecting : Bool)

/-- The pending identifiers after the call that a step completes. -/
def ReminderSession.notify (r : ReminderSession) (scheduled : Finset String) :
    ReminderStep → Finset String
  | .resume k _ throwing =>
    match r.pending[k]? with
    | some operation =>
      match operation.stage with
      | .cancelling _ => scheduled \ operation.task.reminderNotificationId.toFinset
      | .scheduling _ notificationId =>
        if throwing then scheduled else insert notificationId scheduled
      | .removing => scheduled \ operation.task.reminderNotificationId.toFinset
    | none => scheduled
  | _ => scheduled

namespace NotificationSession

variable (s : NotificationSession)

/-- The store of the session. -/
def store : LocalStore :=
  s.reminders.session.store

/-- The tasks of the session. -/
def tasks : List Task :=
  s.store.tasks

/-- After a step of the session the closures it has spawned wait. -/
def withReminders (r : ReminderSession) (scheduled : Finset String) : NotificationSession where
  reminders := r
  waiting := s.waiting ++ r.session.store.spawned.drop s.store.spawned.length
  scheduled := scheduled

/-- The step function of the session and the centre. -/
def step (e : Date × NotificationStep) (s : NotificationSession) : Option NotificationSession :=
  let now := e.1
  match e.2 with
  | .reminder step => (ReminderSession.step (now, step) s.reminders).map fun r =>
      s.withReminders r (s.reminders.notify s.scheduled step)
  | .runClosure k rejecting =>
    match s.waiting[k]? with
    | some closure => some { s with
        waiting := match closure.remaining with
          | some rest => s.waiting.set k rest
          | none => s.waiting.eraseIdx k
        scheduled := closure.notify now rejecting s.scheduled }
    | none => some s

/-- New tasks have fresh ids, lists of ids repeat none, and `scheduleReminder` throws if the date
is not in the future. -/
def Legal (e : Date × NotificationStep) (s : NotificationSession) : Prop :=
  match e.2 with
  | .reminder (.operation operation) => Operation.FreshIds (e.1, operation) s.reminders.session
  | .reminder (.resume k _ false) => ∀ operation ∈ s.reminders.pending[k]?, ∀ date id,
      operation.stage = .scheduling date id → e.1 < date
  | _ => True

/-- An undo adds a task that is not in the list, and a write back finds its task undisturbed. -/
def KeepsIds (e : Date × NotificationStep) (s : NotificationSession) : Prop :=
  match e.2 with
  | .reminder (.operation operation) =>
    Operation.RestoresAbsent (e.1, operation) s.reminders.session
  | .reminder step => Undisturbed (e.1, step) s.reminders
  | .runClosure _ _ => True

variable {s}

theorem waiting_withReminders {r : ReminderSession} {scheduled : Finset String}
    {new : List Closure} (h : r.session.store.spawned = s.store.spawned ++ new) :
    (s.withReminders r scheduled).waiting = s.waiting ++ new := by
  simp [withReminders, h]

/-- A closure other than the one that runs waits on. -/
theorem mem_waiting_of_ne {closure other : Closure} {k : ℕ} (hk : s.waiting[k]? = some closure)
    (hmem : other ∈ s.waiting) (hne : closure ≠ other) :
    other ∈ (match closure.remaining with
      | some rest => s.waiting.set k rest
      | none => s.waiting.eraseIdx k) := by
  split
  · exact mem_set_of_ne hk hmem hne.symm _
  · exact mem_eraseIdx_of_ne hk hmem hne.symm

end NotificationSession

/-! ## Write backs -/

theorem Task.id_of_exceptReminder {t t' : Task} (h : t.exceptReminder = t'.exceptReminder) :
    t.id = t'.id :=
  (congrArg Task.id h : t.exceptReminder.id = t'.exceptReminder.id)

theorem Task.completedAt_of_exceptReminder {t t' : Task}
    (h : t.exceptReminder = t'.exceptReminder) : t.completedAt = t'.completedAt :=
  (congrArg Task.completedAt h : t.exceptReminder.completedAt = t'.exceptReminder.completedAt)

namespace LocalStore

variable {s : LocalStore}

/-- A write back that finds its task replaces it, and spawns a write at most. -/
theorem exists_assignTask {index : ℕ} {current new : Task}
    (hi : s.tasks[index]? = some current) (f : LocalStore → LocalStore) :
    (s.assignTask index new).map f = some (f (s.setTask index new)) := by
  obtain ⟨hlt, -⟩ := List.getElem?_eq_some_iff.mp hi
  rw [assignTask, if_pos hlt, Option.map_some]

theorem exists_finishSetReminder {index : ℕ} {current : Task}
    (hi : s.tasks[index]? = some current) (task : Task) (date : Date) (id : String) (now : Date) :
    ∃ s', s.finishSetReminder index task date id now = some s' ∧
      s'.tasks = s.tasks.set index (task.reminding (some date) (some id) now) ∧
      s'.spawned = s.spawned ++ (s.syncingBackend.map
        (Closure.upsertTask · (task.reminding (some date) (some id) now))).toList := by
  refine ⟨_, exists_assignTask hi _, ?_, ?_⟩
  · simp
  · simp

theorem exists_finishRemoveReminder {index : ℕ} {current : Task}
    (hi : s.tasks[index]? = some current) (task : Task) (now : Date) :
    ∃ s', s.finishRemoveReminder index task now = some s' ∧
      s'.tasks = s.tasks.set index (task.reminding none none now) ∧
      s'.spawned = s.spawned ++ (s.syncingBackend.map
        (Closure.upsertTask · (task.reminding none none now))).toList := by
  refine ⟨_, exists_assignTask hi _, ?_, ?_⟩
  · simp
  · simp

end LocalStore

/-! ## What a step does -/

namespace NotificationSession

variable {s s' : NotificationSession} {e : Date × NotificationStep}

/-- The reminder operations that are suspended. -/
def pending (s : NotificationSession) : List ReminderOperation :=
  s.reminders.pending

/-- The cases of a step : what it does to the tasks, the suspended operations, the closures that
wait and the pending notifications. -/
inductive Change (s : NotificationSession) (e : Date × NotificationStep)
    (s' : NotificationSession) : Prop
  | same (h : s' = s)
  | operation (operation : Operation) (he : e.2 = .reminder (.operation operation))
    (h : Session.step (e.1, operation) s.reminders.session = some s'.reminders.session)
    (hpending : s'.pending = s.pending)
    (hwaiting : ∀ new, s'.store.spawned = s.store.spawned ++ new → s'.waiting = s.waiting ++ new)
    (hscheduled : s'.scheduled = s.scheduled)
  | reset (he : e.2 = .reminder .resetForNewUser) (htasks : s'.tasks = [])
    (hpending : s'.pending = s.pending) (hwaiting : ∃ new, s'.waiting = s.waiting ++ new)
    (hscheduled : s'.scheduled = s.scheduled)
  | suspended (operation : ReminderOperation)
    (hi : s.tasks[operation.index]? = some operation.task)
    (hstage : ∀ date id, operation.stage = .scheduling date id →
      operation.task.reminderNotificationId = none)
    (htasks : s'.tasks = s.tasks) (hpending : s'.pending = s.pending ++ [operation])
    (hwaiting : s'.waiting = s.waiting) (hscheduled : s'.scheduled = s.scheduled)
  | cleared (index : ℕ) (task : Task) (hi : s.tasks[index]? = some task)
    (hn : task.reminderNotificationId = none)
    (htasks : s'.tasks = s.tasks.set index (task.reminding none none e.1))
    (hpending : s'.pending = s.pending) (hwaiting : ∃ new, s'.waiting = s.waiting ++ new)
    (hscheduled : s'.scheduled = s.scheduled)
  | cancelled (k : ℕ) (id : String) (throwing : Bool)
    (he : e.2 = .reminder (.resume k id throwing)) (operation : ReminderOperation)
    (hop : s.pending[k]? = some operation) (date : Date)
    (hstage : operation.stage = .cancelling date) (htasks : s'.tasks = s.tasks)
    (hpending : s'.pending = s.pending.set k { operation with stage := .scheduling date id })
    (hwaiting : s'.waiting = s.waiting)
    (hscheduled : s'.scheduled = s.scheduled \ operation.task.reminderNotificationId.toFinset)
  | thrown (k : ℕ) (id : String) (he : e.2 = .reminder (.resume k id true))
    (operation : ReminderOperation) (hop : s.pending[k]? = some operation) (date : Date)
    (n : String) (hstage : operation.stage = .scheduling date n) (htasks : s'.tasks = s.tasks)
    (hpending : s'.pending = s.pending.eraseIdx k) (hwaiting : s'.waiting = s.waiting)
    (hscheduled : s'.scheduled = s.scheduled)
  | reminded (k : ℕ) (id : String) (he : e.2 = .reminder (.resume k id false))
    (operation : ReminderOperation) (hop : s.pending[k]? = some operation) (date : Date)
    (n : String) (hstage : operation.stage = .scheduling date n) (hdate : e.1 < date)
    (current : Task) (hi : s.tasks[operation.index]? = some current)
    (hcurrent : current.exceptReminder = operation.task.exceptReminder)
    (htasks : s'.tasks =
      s.tasks.set operation.index (operation.task.reminding (some date) (some n) e.1))
    (hpending : s'.pending = s.pending.eraseIdx k)
    (hwaiting : ∃ new, s'.waiting = s.waiting ++ new)
    (hscheduled : s'.scheduled = insert n s.scheduled)
  | removed (k : ℕ) (id : String) (throwing : Bool)
    (he : e.2 = .reminder (.resume k id throwing)) (operation : ReminderOperation)
    (hop : s.pending[k]? = some operation) (hstage : operation.stage = .removing)
    (current : Task) (hi : s.tasks[operation.index]? = some current)
    (hcurrent : current.exceptReminder = operation.task.exceptReminder)
    (htasks : s'.tasks = s.tasks.set operation.index (operation.task.reminding none none e.1))
    (hpending : s'.pending = s.pending.eraseIdx k)
    (hwaiting : ∃ new, s'.waiting = s.waiting ++ new)
    (hscheduled : s'.scheduled = s.scheduled \ operation.task.reminderNotificationId.toFinset)
  | ran (k : ℕ) (rejecting : Bool) (he : e.2 = .runClosure k rejecting) (closure : Closure)
    (hk : s.waiting[k]? = some closure) (hreminders : s'.reminders = s.reminders)
    (hwaiting : s'.waiting = match closure.remaining with
      | some rest => s.waiting.set k rest
      | none => s.waiting.eraseIdx k)
    (hscheduled : s'.scheduled = closure.notify e.1 rejecting s.scheduled)

theorem step_reminder {now : Date} {step : ReminderStep} {r : ReminderSession}
    (h : ReminderSession.step (now, step) s.reminders = some r) :
    NotificationSession.step (now, .reminder step) s =
      some (s.withReminders r (s.reminders.notify s.scheduled step)) :=
  congrArg (Option.map _) h

theorem waiting_withReminders_self {r : ReminderSession} {scheduled : Finset String}
    (h : r.session.store.spawned = s.store.spawned) :
    (s.withReminders r scheduled).waiting = s.waiting := by
  have hnew : r.session.store.spawned = s.store.spawned ++ [] := h.trans (List.append_nil _).symm
  rw [waiting_withReminders hnew, List.append_nil]

/-- The start of a reminder operation. -/
theorem exists_change_suspend {now : Date} {step : ReminderStep} {index : ℕ} {task : Task}
    (hi : s.tasks[index]? = some task) (taskId : String) (stage : ReminderStage)
    (hstage : ∀ date id, stage = .scheduling date id → task.reminderNotificationId = none)
    (hs : ReminderSession.step (now, step) s.reminders =
      some (s.reminders.suspend ⟨taskId, index, task, stage⟩))
    (hn : s.reminders.notify s.scheduled step = s.scheduled) :
    ∃ s', NotificationSession.step (now, .reminder step) s = some s' ∧
      Change s (now, .reminder step) s' := by
  refine ⟨_, step_reminder hs, .suspended ⟨taskId, index, task, stage⟩ hi hstage rfl rfl ?_ hn⟩
  exact waiting_withReminders_self rfl

theorem withReminders_self : s.withReminders s.reminders s.scheduled = s := by
  have hwaiting : (s.withReminders s.reminders s.scheduled).waiting = s.waiting :=
    waiting_withReminders_self rfl
  exact congrArg (fun waiting => { s with waiting := waiting }) hwaiting

/-- Setting a reminder is a change of its own kind. -/
theorem exists_change_setReminder (now : Date) (taskId : String) (date : Date) (id : String) :
    ∃ s', NotificationSession.step (now, .reminder (.setReminder taskId date id)) s = some s' ∧
      Change s (now, .reminder (.setReminder taskId date id)) s' := by
  have hs : ReminderSession.step (now, .setReminder taskId date id) s.reminders =
      some (s.reminders.setReminder taskId date id) := rfl
  unfold ReminderSession.setReminder at hs
  split at hs
  · exact ⟨_, step_reminder hs, .same withReminders_self⟩
  · rename_i index task hentry
    have hi := (firstEntry_eq_some hentry).1
    split_ifs at hs with hn
    · exact exists_change_suspend hi taskId (.cancelling date) nofun hs rfl
    · exact exists_change_suspend hi taskId (.scheduling date id)
        (fun _ _ _ => Option.not_isSome_iff_eq_none.mp hn) hs rfl

/-- Removing a reminder is a change of its own kind. -/
theorem exists_change_removeReminder (now : Date) (taskId : String) :
    ∃ s', NotificationSession.step (now, .reminder (.removeReminder taskId)) s = some s' ∧
      Change s (now, .reminder (.removeReminder taskId)) s' := by
  have hs : ReminderSession.step (now, .removeReminder taskId) s.reminders =
      s.reminders.removeReminder taskId now := rfl
  unfold ReminderSession.removeReminder at hs
  split at hs
  · exact ⟨_, step_reminder hs, .same withReminders_self⟩
  · rename_i index task hentry
    have hi := (firstEntry_eq_some hentry).1
    split_ifs at hs with hn
    · exact exists_change_suspend hi taskId .removing nofun hs rfl
    · obtain ⟨store, hstore, htasks, hspawned⟩ :=
        LocalStore.exists_finishRemoveReminder hi task now
      rw [hstore] at hs
      exact ⟨_, step_reminder hs, .cleared index task hi (Option.not_isSome_iff_eq_none.mp hn)
        htasks rfl ⟨_, waiting_withReminders hspawned⟩ rfl⟩

/-- Resuming a reminder operation is a change of its own kind. -/
theorem exists_change_resume {now : Date} {k : ℕ} {id : String} {throwing : Bool}
    (hl : Legal (now, .reminder (.resume k id throwing)) s)
    (hg : KeepsIds (now, .reminder (.resume k id throwing)) s) :
    ∃ s', NotificationSession.step (now, .reminder (.resume k id throwing)) s = some s' ∧
      Change s (now, .reminder (.resume k id throwing)) s' := by
  have hs : ReminderSession.step (now, .resume k id throwing) s.reminders =
      s.reminders.resume k id throwing now := rfl
  unfold ReminderSession.resume at hs
  split at hs
  · rename_i hop
    have hn : s.reminders.notify s.scheduled (.resume k id throwing) = s.scheduled := by
      simp only [ReminderSession.notify, hop]
    refine ⟨_, step_reminder hs, .same ?_⟩
    rw [hn, withReminders_self]
  · rename_i operation hop
    split at hs
    · rename_i date hstage
      have hn : s.reminders.notify s.scheduled (.resume k id throwing) =
          s.scheduled \ operation.task.reminderNotificationId.toFinset := by
        simp only [ReminderSession.notify, hop, hstage]
      exact ⟨_, step_reminder hs, .cancelled k id throwing rfl operation hop date hstage rfl rfl
        (waiting_withReminders_self rfl) hn⟩
    · rename_i date n hstage
      cases throwing with
      | true =>
        have hn : s.reminders.notify s.scheduled (.resume k id true) = s.scheduled := by
          simp only [ReminderSession.notify, hop, hstage, if_true]
        exact ⟨_, step_reminder hs, .thrown k id rfl operation hop date n hstage rfl rfl
          (waiting_withReminders_self rfl) hn⟩
      | false =>
        obtain ⟨current, hi, hcurrent⟩ :=
          hg operation hop (by simp [ReminderOperation.writesBack, hstage])
        obtain ⟨store, hstore, htasks, hspawned⟩ :=
          LocalStore.exists_finishSetReminder hi operation.task date n now
        have hn : s.reminders.notify s.scheduled (.resume k id false) =
            insert n s.scheduled := by
          simp only [ReminderSession.notify, hop, hstage]
          rfl
        rw [if_neg Bool.false_ne_true, hstore] at hs
        exact ⟨_, step_reminder hs, .reminded k id rfl operation hop date n hstage
          (hl operation hop date n hstage) current hi hcurrent htasks rfl
          ⟨_, waiting_withReminders hspawned⟩ hn⟩
    · rename_i hstage
      obtain ⟨current, hi, hcurrent⟩ :=
        hg operation hop (by simp [ReminderOperation.writesBack, hstage])
      obtain ⟨store, hstore, htasks, hspawned⟩ :=
        LocalStore.exists_finishRemoveReminder hi operation.task now
      have hn : s.reminders.notify s.scheduled (.resume k id throwing) =
          s.scheduled \ operation.task.reminderNotificationId.toFinset := by
        simp only [ReminderSession.notify, hop, hstage]
      rw [hstore] at hs
      exact ⟨_, step_reminder hs, .removed k id throwing rfl operation hop hstage current hi
        hcurrent htasks rfl ⟨_, waiting_withReminders hspawned⟩ hn⟩

/-- A legal step that keeps the ids has a result, and is one of the cases. -/
theorem exists_change (hd : DistinctIds s.tasks) (hl : Legal e s) (hg : KeepsIds e s) :
    ∃ s', NotificationSession.step e s = some s' ∧ Change s e s' := by
  obtain ⟨now, step⟩ := e
  cases step with
  | runClosure k rejecting =>
    cases hk : s.waiting[k]? with
    | none => exact ⟨s, by simp only [NotificationSession.step, hk], .same rfl⟩
    | some closure =>
      have hs : NotificationSession.step (now, .runClosure k rejecting) s = some { s with
          waiting := match closure.remaining with
            | some rest => s.waiting.set k rest
            | none => s.waiting.eraseIdx k
          scheduled := closure.notify now rejecting s.scheduled } := by
        simp only [NotificationSession.step, hk]
      exact ⟨_, hs, .ran k rejecting rfl closure hk rfl rfl rfl⟩
  | reminder step =>
    cases step with
    | operation operation =>
      obtain ⟨session, hs, -⟩ := distinctIds_step hd hl hg
      have hs' : ReminderSession.step (now, .operation operation) s.reminders =
          some { s.reminders with session := session } := congrArg (Option.map _) hs
      exact ⟨_, step_reminder hs', .operation operation rfl hs rfl
        (fun new hnew => waiting_withReminders hnew) rfl⟩
    | resetForNewUser =>
      obtain ⟨store, hstore, -, htasks⟩ := LocalStore.exists_resetForNewUser s.store
      obtain ⟨new, hnew, -⟩ := LocalStore.spawnsReminders_resetForNewUser hstore
      have hs : ReminderSession.step (now, .resetForNewUser) s.reminders =
          some (s.reminders.withStore store) := congrArg (Option.map _) hstore
      exact ⟨_, step_reminder hs, .reset rfl htasks rfl ⟨new, waiting_withReminders hnew⟩ rfl⟩
    | setReminder taskId date id => exact exists_change_setReminder now taskId date id
    | removeReminder taskId => exact exists_change_removeReminder now taskId
    | resume k id throwing => exact exists_change_resume hl hg

/-- Every step keeps ids distinct. -/
theorem Change.distinctIds (h : Change s e s') (hd : DistinctIds s.tasks) (hl : Legal e s)
    (hg : KeepsIds e s) : DistinctIds s'.tasks := by
  cases h with
  | same h => exact h ▸ hd
  | operation operation he h =>
    obtain ⟨now, step⟩ := e
    obtain rfl := he
    obtain ⟨session, hs, hd'⟩ := distinctIds_step hd hl hg
    obtain rfl := Option.some_inj.mp (hs.symm.trans h)
    exact hd'
  | reset _ htasks =>
    rw [htasks]
    exact List.nodup_nil
  | suspended _ _ _ htasks => exact htasks ▸ hd
  | cleared index task hi _ htasks => exact htasks ▸ distinctIds_set hd hi rfl
  | cancelled _ _ _ _ _ _ _ _ htasks => exact htasks ▸ hd
  | thrown _ _ _ _ _ _ _ _ htasks => exact htasks ▸ hd
  | reminded _ _ _ operation _ date n _ _ current hi hcurrent htasks =>
    exact htasks ▸ distinctIds_set hd hi (Task.id_of_exceptReminder hcurrent).symm
  | removed _ _ _ _ operation _ _ current hi hcurrent htasks =>
    exact htasks ▸ distinctIds_set hd hi (Task.id_of_exceptReminder hcurrent).symm
  | ran _ _ _ _ _ hreminders =>
    have htasks : s'.tasks = s.tasks := congrArg ReminderSession.tasks hreminders
    exact htasks ▸ hd

end NotificationSession

end Notelayer
