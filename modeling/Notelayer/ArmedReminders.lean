import Notelayer.BroughtReminders

/-!
# Every open reminder is armed

The reminder of an open task should have its notification pending as long as it lies in the future.
`NotificationSession.StaysArmed` is what a step has to meet : what it opens or adds without a
schedule is armed, and what it cancels no task awaits. Then every reminder after the instant `T` at
which the run is looked at is armed once nothing is suspended and no closure waits
(`NotificationSession.allArmed_run`).
-/

namespace Notelayer

open KeyedList

/-! ## Closures -/

/-- What is scheduled at `T` is scheduled at any instant until then. -/
theorem Task.rescheduled_of_le {T now : Date} {n : String} {task : Task}
    (hnow : ∀ date, T < date → now < date) (h : task.rescheduled T = some n) :
    task.rescheduled now = some n := by
  unfold rescheduled at h ⊢
  split
  · rename_i date hdate
    rw [hdate] at h
    dsimp only at h
    split_ifs at h with hT
    rw [if_pos ⟨hnow date hT.1, hT.2⟩, h]
  · rename_i hdate
    rw [hdate] at h
    cases h

namespace Closure

variable {T now : Date} {n : String} {closure : Closure}

/-- Only its own cancellation takes a pending notification away. -/
theorem mem_notify_of_ne {rejecting : Bool} {scheduled : Finset String} (hn : n ∈ scheduled)
    (hne : closure ≠ cancelReminder n) : n ∈ closure.notify now rejecting scheduled := by
  have hkept : n ∈ if rejecting then scheduled else scheduled ∪ (closure.request now).toFinset := by
    split_ifs
    · exact hn
    · exact Finset.mem_union_left _ hn
  cases closure with
  | cancelReminder m =>
    refine Finset.mem_erase.mpr ⟨?_, hn⟩
    rintro rfl
    exact hne rfl
  | _ => exact hkept

theorem mem_notify_of_request {scheduled : Finset String} (h : closure.request now = some n) :
    n ∈ closure.notify now false scheduled := by
  have hmem : n ∈ scheduled ∪ (closure.request now).toFinset :=
    Finset.mem_union_right _ (by simp [h])
  cases closure with
  | cancelReminder m => cases h
  | _ => exact hmem

/-- A closure that is to schedule an identifier does so, or leaves it to the rest. -/
theorem Schedules.notify (h : closure.Schedules T n) (hnow : ∀ date, T < date → now < date)
    (scheduled : Finset String) : n ∈ closure.notify now false scheduled ∨
      ∃ rest, closure.remaining = some rest ∧ rest.Schedules T n := by
  cases closure with
  | scheduleReminder task date categories m =>
    obtain ⟨hT, rfl⟩ := h
    exact Or.inl (mem_notify_of_request (if_pos (hnow date hT)))
  | rescheduleReminders tasks =>
    obtain ⟨task, htask, hn⟩ := h
    cases tasks with
    | nil => cases htask
    | cons head tasks =>
      rcases List.mem_cons.mp htask with rfl | htask
      · exact Or.inl (mem_notify_of_request (Task.rescheduled_of_le hnow hn))
      · exact Or.inr ⟨_, rfl, task, htask, hn⟩
  | _ => exact h.elim

end Closure

/-! ## Armed reminders -/

namespace NotificationSession

variable {s s' : NotificationSession} {e : Date × NotificationStep} {T : Date}

/-- Every open task with a reminder after `T` has a pending notification. -/
def AllArmed (T : Date) (s : NotificationSession) : Prop :=
  ∀ t ∈ s.tasks, t.Awaits T → ∃ n ∈ t.reminderNotificationId, n ∈ s.scheduled

/-- A closure that waits schedules the identifier. -/
def SchedulesLater (T : Date) (s : NotificationSession) (n : String) : Prop :=
  ∃ closure ∈ s.waiting, closure.Schedules T n

/-- The notification of the task is pending, or a closure that waits schedules it. -/
def Armed (T : Date) (s : NotificationSession) (t : Task) : Prop :=
  ∃ n ∈ t.reminderNotificationId, n ∈ s.scheduled ∨ s.SchedulesLater T n

/-- A `setReminder` of the task is about to schedule a notification. -/
def Rearming (s : NotificationSession) (t : Task) : Prop :=
  ∃ operation ∈ s.pending, operation.task.id = t.id ∧
    ∃ date n, operation.stage = .scheduling date n

/-- The step is an operation of those in question, comes no later than `T`, and schedules its
notification if its date is in the future. -/
structure Permitted (T : Date) (e : Date × NotificationStep) (s : NotificationSession) : Prop where
  time : e.1 = T ∨ e.1 < T
  legal : Legal e s
  operation : ∀ operation, e.2 = .reminder (.operation operation) →
    operation.bringsReminders = true
  accepts : ∀ k rejecting, e.2 = .runClosure k rejecting → rejecting = false
  throws : ∀ k id, e.2 = .reminder (.resume k id true) → ∀ operation ∈ s.pending[k]?,
    ∀ date n, operation.stage = .scheduling date n → ¬e.1 < date

/-- No open task but those of `allowed` awaits the notification, unless it is scheduled again. -/
def Unneeded (T : Date) (s : NotificationSession) (n : String) (allowed : Task → Prop) : Prop :=
  ∀ t ∈ s.tasks, t.Awaits T → t.reminderNotificationId = some n →
    allowed t ∨ s.Rearming t ∨ s.SchedulesLater T n

/-- What the step brings without a schedule is armed, and what it cancels is not needed. -/
def StaysArmed (T : Date) (e : Date × NotificationStep) (s : NotificationSession) : Prop :=
  match e.2 with
  | .reminder (.operation operation) => ∀ t, Operation.BringsUnscheduled (e.1, operation)
      s.reminders.session t → (∃ date ∈ t.reminderDate, T < date) → s.Armed T t
  | .reminder (.resume k _ throwing) => ∀ operation ∈ s.pending[k]?,
      match operation.stage with
      | .cancelling _ => ∀ n ∈ operation.task.reminderNotificationId,
          s.Unneeded T n fun t => t.id = operation.task.id
      | .scheduling _ _ => throwing = true →
          ∀ t ∈ s.tasks, t.id = operation.task.id → t.Awaits T → s.Armed T t
      | .removing => ∀ n ∈ operation.task.reminderNotificationId,
          s.Unneeded T n fun t => t.id = operation.task.id
  | .reminder _ => True
  | .runClosure k _ => ∀ n, s.waiting[k]? = some (.cancelReminder n) →
      s.Unneeded T n fun _ => False

/-- Nothing is suspended, no closure waits, and every reminder is armed. -/
structure ArmedStart (T : Date) (s : NotificationSession) : Prop where
  distinct : DistinctIds s.tasks
  pending : s.pending = []
  waiting : s.waiting = []
  armed : s.AllArmed T

/-- No id is repeated, and every reminder after `T` is armed or about to be. -/
structure StayingArmed (T : Date) (s : NotificationSession) : Prop where
  distinct : DistinctIds s.tasks
  armed : ∀ t ∈ s.tasks, t.Awaits T → s.Armed T t ∨ s.Rearming t

theorem ArmedStart.stayingArmed (h : s.ArmedStart T) : s.StayingArmed T := by
  refine ⟨h.distinct, fun t ht hawaits => Or.inl ?_⟩
  obtain ⟨n, hn, hscheduled⟩ := h.armed t ht hawaits
  exact ⟨n, hn, Or.inl hscheduled⟩

theorem StayingArmed.allArmed (h : s.StayingArmed T) (hpending : s.pending = [])
    (hwaiting : s.waiting = []) : s.AllArmed T := by
  intro t ht hawaits
  rcases h.armed t ht hawaits with ⟨n, hn, hscheduled | ⟨closure, hc, -⟩⟩ | ⟨operation, hop, -⟩
  · exact ⟨n, hn, hscheduled⟩
  · rw [hwaiting] at hc
    cases hc
  · rw [hpending] at hop
    cases hop

theorem Permitted.lt (h : Permitted T e s) (date : Date) (hT : T < date) : e.1 < date := by
  rcases h.time with heq | hlt
  · rwa [heq]
  · exact Date.lt_trans hlt hT

theorem SchedulesLater.append {n : String} (h : s.SchedulesLater T n)
    (hwaiting : ∃ new, s'.waiting = s.waiting ++ new) : s'.SchedulesLater T n := by
  obtain ⟨closure, hc, hschedules⟩ := h
  obtain ⟨new, hwaiting⟩ := hwaiting
  exact ⟨closure, hwaiting ▸ List.mem_append_left _ hc, hschedules⟩

theorem Armed.append {t : Task} (h : s.Armed T t) (hscheduled : s.scheduled ⊆ s'.scheduled)
    (hwaiting : ∃ new, s'.waiting = s.waiting ++ new) : s'.Armed T t := by
  obtain ⟨n, hn, h⟩ := h
  exact ⟨n, hn, h.imp (fun h => hscheduled h) fun h => h.append hwaiting⟩

/-- A task with the same reminder is armed with it. -/
theorem Armed.of_sameReminder {t t' : Task} (h : s.Armed T t) (hsame : t.SameReminder t') :
    s.Armed T t' := by
  obtain ⟨n, hn, h⟩ := h
  exact ⟨n, hsame.2 ▸ hn, h⟩

/-- A task stays armed if its pending notification, the closure that schedules it and the
`setReminder` that is about to each stay or are followed by another. -/
theorem armed_or_rearming {t : Task} (h : s.Armed T t ∨ s.Rearming t)
    (hscheduled : ∀ n, t.reminderNotificationId = some n → n ∈ s.scheduled →
      n ∈ s'.scheduled ∨ s'.Rearming t ∨ s'.SchedulesLater T n)
    (hlater : ∀ n, s.SchedulesLater T n → n ∈ s'.scheduled ∨ s'.SchedulesLater T n)
    (hrearming : s.Rearming t → s'.Armed T t ∨ s'.Rearming t) : s'.Armed T t ∨ s'.Rearming t := by
  rcases h with ⟨n, hn, h | h⟩ | h
  · rcases hscheduled n hn h with h | h | h
    · exact Or.inl ⟨n, hn, Or.inl h⟩
    · exact Or.inr h
    · exact Or.inl ⟨n, hn, Or.inr h⟩
  · exact Or.inl ⟨n, hn, hlater n h⟩
  · exact hrearming h

theorem Rearming.of_mem {t : Task} (h : s.Rearming t)
    (hmem : ∀ operation ∈ s.pending, operation.task.id = t.id →
      (∃ date n, operation.stage = .scheduling date n) → operation ∈ s'.pending) :
    s'.Rearming t := by
  obtain ⟨operation, hop, hid, hstage⟩ := h
  exact ⟨operation, hmem operation hop hid hstage, hid, hstage⟩

/-- An operation that returns leaves those of other tasks suspended. -/
theorem Rearming.eraseIdx {t : Task} (h : s.Rearming t) {k : ℕ} {operation : ReminderOperation}
    (hop : s.pending[k]? = some operation) (hpending : s'.pending = s.pending.eraseIdx k)
    (hid : t.id ≠ operation.task.id) : s'.Rearming t := by
  refine h.of_mem fun other hother hoid _ => ?_
  rw [hpending]
  refine mem_eraseIdx_of_ne hop hother ?_
  rintro rfl
  exact hid hoid.symm

/-- The closure that runs schedules the identifier, or one that waits still does. -/
theorem SchedulesLater.of_ran {n : String} (h : s.SchedulesLater T n)
    {now : Date} (hnow : ∀ date, T < date → now < date) {k : ℕ} {closure : Closure}
    (hk : s.waiting[k]? = some closure)
    (hwaiting : s'.waiting = match closure.remaining with
      | some rest => s.waiting.set k rest
      | none => s.waiting.eraseIdx k)
    (hscheduled : s'.scheduled = closure.notify now false s.scheduled) :
    n ∈ s'.scheduled ∨ s'.SchedulesLater T n := by
  obtain ⟨other, hother, hschedules⟩ := h
  by_cases heq : closure = other
  · subst heq
    rcases hschedules.notify hnow s.scheduled with hn | ⟨rest, hrest, hschedules⟩
    · exact Or.inl (hscheduled ▸ hn)
    · refine Or.inr ⟨rest, ?_, hschedules⟩
      obtain ⟨hlt, -⟩ := List.getElem?_eq_some_iff.mp hk
      rw [hwaiting, hrest]
      exact List.mem_set hlt rest
  · refine Or.inr ⟨other, ?_, hschedules⟩
    rw [hwaiting]
    exact mem_waiting_of_ne hk hother heq

/-- What is cancelled for a suspended operation is not needed by the other tasks. -/
theorem mem_sdiff_or {t : Task} {operation : ReminderOperation} {n : String}
    (hg : ∀ n ∈ operation.task.reminderNotificationId,
      s.Unneeded T n fun t => t.id = operation.task.id)
    (ht : t ∈ s.tasks) (hawaits : t.Awaits T) (hid : t.id ≠ operation.task.id)
    (hn : t.reminderNotificationId = some n) (hscheduled : n ∈ s.scheduled) :
    n ∈ s.scheduled \ operation.task.reminderNotificationId.toFinset ∨
      s.Rearming t ∨ s.SchedulesLater T n := by
  by_cases hcancelled : operation.task.reminderNotificationId = some n
  · exact Or.inr ((hg n hcancelled t ht hawaits hn).resolve_left hid)
  · left
    simpa [hscheduled] using hcancelled

/-- What an operation brings is armed, and what it leaves or replaces stays so. -/
theorem StayingArmed.armed_operation {operation : Operation} {now : Date}
    (hs : s.StayingArmed T) (hbrings : operation.bringsReminders = true)
    (hlegal : Legal (now, .reminder (.operation operation)) s)
    (hg : StaysArmed T (now, .reminder (.operation operation)) s)
    (h : Session.step (now, operation) s.reminders.session = some s'.reminders.session)
    (hpending : s'.pending = s.pending)
    (hwaiting : ∀ new, s'.store.spawned = s.store.spawned ++ new → s'.waiting = s.waiting ++ new)
    (hscheduled : s'.scheduled = s.scheduled) {t : Task} (ht : t ∈ s'.tasks)
    (hawaits : t.Awaits T) : s'.Armed T t ∨ s'.Rearming t := by
  obtain ⟨new, hnew, hbring⟩ := bringsReminders_step (e := (now, operation)) (T := T)
    hs.distinct hbrings hlegal h
  have happend : ∀ {t₀ : Task}, s.Armed T t₀ → t₀.SameReminder t → s'.Armed T t :=
    fun ha hsame => (ha.append hscheduled.superset ⟨new, hwaiting new hnew⟩).of_sameReminder hsame
  rcases hbring t ht hawaits with ⟨n, hn, closure, hc, hschedules⟩ | ⟨t₀, hbrings, hsame⟩ |
    ⟨t₀, ht₀, hopen, hid, hsame⟩
  · refine Or.inl ⟨n, hn, Or.inr ⟨closure, ?_, hschedules⟩⟩
    rw [hwaiting new hnew]
    exact List.mem_append_right _ hc
  · have hdate : ∃ date ∈ t₀.reminderDate, T < date := hsame.1 ▸ hawaits.2
    exact Or.inl (happend (hg t₀ hbrings hdate) hsame)
  · have hawaits₀ : t₀.Awaits T := ⟨hopen, hsame.1 ▸ hawaits.2⟩
    rcases hs.armed t₀ ht₀ hawaits₀ with ha | ⟨reminder, hr, hrid, hstage⟩
    · exact Or.inl (happend ha hsame)
    · exact Or.inr ⟨reminder, hpending ▸ hr, hrid.trans hid, hstage⟩

/-- A closure that runs schedules what it is to schedule, and cancels only what is not needed. -/
theorem StayingArmed.armed_ran {now : Date} {k : ℕ} {closure : Closure} (hs : s.StayingArmed T)
    (hnow : ∀ date, T < date → now < date) (hk : s.waiting[k]? = some closure)
    (hg : ∀ n, s.waiting[k]? = some (.cancelReminder n) → s.Unneeded T n fun _ => False)
    (hreminders : s'.reminders = s.reminders)
    (hwaiting : s'.waiting = match closure.remaining with
      | some rest => s.waiting.set k rest
      | none => s.waiting.eraseIdx k)
    (hscheduled : s'.scheduled = closure.notify now false s.scheduled) {t : Task}
    (ht : t ∈ s.tasks) (hawaits : t.Awaits T) : s'.Armed T t ∨ s'.Rearming t := by
  have hpending : s'.pending = s.pending := congrArg ReminderSession.pending hreminders
  have hrearming : s.Rearming t → s'.Rearming t :=
    fun h => h.of_mem fun operation hop _ _ => hpending ▸ hop
  have hlater : ∀ n, s.SchedulesLater T n → n ∈ s'.scheduled ∨ s'.SchedulesLater T n :=
    fun n h => h.of_ran hnow hk hwaiting hscheduled
  refine armed_or_rearming (hs.armed t ht hawaits) (fun n hn hin => ?_) hlater
    fun h => Or.inr (hrearming h)
  by_cases hcancel : closure = .cancelReminder n
  · subst hcancel
    rcases hg n hk t ht hawaits hn with h | h | h
    · exact h.elim
    · exact Or.inr (Or.inl (hrearming h))
    · exact (hlater n h).imp_right Or.inr
  · left
    rw [hscheduled]
    exact Closure.mem_notify_of_ne hin hcancel

/-- A step that keeps reminders armed leaves each armed or about to be. -/
theorem Change.armed (h : Change s e s') (hs : s.StayingArmed T) (hp : Permitted T e s)
    (hk : KeepsIds e s) (hg : StaysArmed T e s) :
    ∀ t ∈ s'.tasks, t.Awaits T → s'.Armed T t ∨ s'.Rearming t := by
  have hd' := h.distinctIds hs.distinct hp.legal hk
  obtain ⟨now, step⟩ := e
  intro t ht hawaits
  cases h with
  | same h =>
    subst h
    exact hs.armed t ht hawaits
  | operation operation he h hpending hwaiting hscheduled =>
    obtain rfl := he
    exact hs.armed_operation (hp.operation operation rfl) hp.legal hg h hpending hwaiting
      hscheduled ht hawaits
  | reset _ htasks =>
    rw [htasks] at ht
    cases ht
  | suspended operation _ _ htasks hpending hwaiting hscheduled =>
    rw [htasks] at ht
    have hnew : ∃ new, s'.waiting = s.waiting ++ new := ⟨[], by rw [hwaiting, List.append_nil]⟩
    refine (hs.armed t ht hawaits).imp (fun h => h.append hscheduled.superset hnew) fun h => ?_
    refine h.of_mem fun operation hop _ _ => ?_
    rw [hpending]
    exact List.mem_append_left _ hop
  | cleared index task hi _ htasks hpending hwaiting hscheduled =>
    rw [htasks] at ht
    have hold : t ∈ s.tasks := by
      refine (List.mem_or_eq_of_mem_set ht).resolve_right ?_
      rintro rfl
      exact absurd hawaits.2 nofun
    refine (hs.armed t hold hawaits).imp (fun h => h.append hscheduled.superset hwaiting) ?_
    exact fun h => h.of_mem fun operation hop _ _ => hpending ▸ hop
  | cancelled k id throwing he operation hop date hstage htasks hpending hwaiting hscheduled =>
    obtain rfl := he
    have hgc := hg operation hop
    rw [hstage] at hgc
    rw [htasks] at ht
    obtain ⟨hlt, -⟩ := List.getElem?_eq_some_iff.mp hop
    have hrearming : s.Rearming t → s'.Rearming t := by
      refine fun h => h.of_mem fun other hother _ hscheduling => ?_
      rw [hpending]
      refine mem_set_of_ne hop hother ?_ _
      rintro rfl
      obtain ⟨_, _, hscheduling⟩ := hscheduling
      rw [hstage] at hscheduling
      cases hscheduling
    have hlater : ∀ n, s.SchedulesLater T n → s'.SchedulesLater T n :=
      fun n h => h.append ⟨[], by rw [hwaiting, List.append_nil]⟩
    by_cases hid : t.id = operation.task.id
    · refine Or.inr ⟨{ operation with stage := .scheduling date id }, ?_, hid.symm, date, id, rfl⟩
      rw [hpending]
      exact List.mem_set hlt _
    · refine armed_or_rearming (hs.armed t ht hawaits) (fun n hn hin => ?_)
        (fun n h => Or.inr (hlater n h)) fun h => Or.inr (hrearming h)
      rw [hscheduled]
      exact (mem_sdiff_or hgc ht hawaits hid hn hin).imp_right (Or.imp hrearming (hlater n))
  | thrown k id he operation hop date m hstage htasks hpending hwaiting hscheduled =>
    obtain rfl := he
    have hgc := hg operation hop
    rw [hstage] at hgc
    rw [htasks] at ht
    have hnew : ∃ new, s'.waiting = s.waiting ++ new := ⟨[], by rw [hwaiting, List.append_nil]⟩
    by_cases hid : t.id = operation.task.id
    · exact Or.inl ((hgc rfl t ht hid hawaits).append hscheduled.superset hnew)
    · exact (hs.armed t ht hawaits).imp (fun h => h.append hscheduled.superset hnew)
        fun h => h.eraseIdx hop hpending hid
  | reminded k id he operation hop date m hstage hdate current hi hcurrent htasks hpending
      hwaiting hscheduled =>
    obtain ⟨hlt, -⟩ := List.getElem?_eq_some_iff.mp hi
    by_cases hid : t.id = operation.task.id
    · have hnew : operation.task.reminding (some date) (some m) now ∈ s'.tasks := by
        rw [htasks]
        exact List.mem_set hlt _
      obtain rfl := List.inj_on_of_nodup_map hd' ht hnew hid
      refine Or.inl ⟨m, rfl, Or.inl ?_⟩
      rw [hscheduled]
      exact Finset.mem_insert_self _ _
    · rw [htasks] at ht
      have hold : t ∈ s.tasks :=
        (List.mem_or_eq_of_mem_set ht).resolve_right fun heq => hid (heq ▸ rfl)
      have hsub : s.scheduled ⊆ s'.scheduled := by
        rw [hscheduled]
        exact Finset.subset_insert _ _
      exact (hs.armed t hold hawaits).imp (fun h => h.append hsub hwaiting)
        fun h => h.eraseIdx hop hpending hid
  | removed k id throwing he operation hop hstage current hi _ htasks hpending hwaiting
      hscheduled =>
    obtain rfl := he
    have hgc := hg operation hop
    rw [hstage] at hgc
    obtain ⟨hlt, -⟩ := List.getElem?_eq_some_iff.mp hi
    have hnew : operation.task.reminding none none now ∈ s'.tasks := by
      rw [htasks]
      exact List.mem_set hlt _
    have hid : t.id ≠ operation.task.id := by
      intro hid
      obtain rfl := List.inj_on_of_nodup_map hd' ht hnew hid
      exact absurd hawaits.2 nofun
    rw [htasks] at ht
    have hold : t ∈ s.tasks :=
      (List.mem_or_eq_of_mem_set ht).resolve_right fun heq => hid (heq ▸ rfl)
    have hrearming : s.Rearming t → s'.Rearming t := fun h => h.eraseIdx hop hpending hid
    refine armed_or_rearming (hs.armed t hold hawaits) (fun n hn hin => ?_)
      (fun n h => Or.inr (h.append hwaiting)) fun h => Or.inr (hrearming h)
    rw [hscheduled]
    exact (mem_sdiff_or hgc hold hawaits hid hn hin).imp_right
      (Or.imp hrearming fun h => h.append hwaiting)
  | ran k rejecting he closure hk' hreminders hwaiting hscheduled =>
    obtain rfl := he
    obtain rfl := hp.accepts k rejecting rfl
    have htasks : s'.tasks = s.tasks := congrArg ReminderSession.tasks hreminders
    exact hs.armed_ran hp.lt hk' hg hreminders hwaiting hscheduled (htasks ▸ ht) hawaits

theorem StayingArmed.exists_step (h : s.StayingArmed T) (hp : Permitted T e s)
    (hk : KeepsIds e s) (hg : StaysArmed T e s) :
    ∃ s', step e s = some s' ∧ s'.StayingArmed T := by
  obtain ⟨s', hs, hchange⟩ := exists_change h.distinct hp.legal hk
  exact ⟨s', hs, hchange.distinctIds h.distinct hp.legal hk, hchange.armed h hp hk hg⟩

/-- In every run whose steps keep reminders armed, each is once all closures have run. -/
theorem allArmed_run (h : s.ArmedStart T) {steps : List (Date × NotificationStep)}
    (hg : Runs.Guarded step (fun e s => Permitted T e s ∧ KeepsIds e s ∧ StaysArmed T e s)
      steps s) :
    ∃ t, Runs.run step steps s = some t ∧ (t.pending = [] → t.waiting = [] → t.AllArmed T) := by
  have hstep : ∀ e s s', StayingArmed T s → Permitted T e s ∧ KeepsIds e s ∧ StaysArmed T e s →
      step e s = some s' → StayingArmed T s' := by
    rintro e s s' hs ⟨hp, hk, hg⟩ hstep
    obtain ⟨s₁, hs₁, harmed⟩ := hs.exists_step hp hk hg
    obtain rfl := Option.some_inj.mp (hstep.symm.trans hs₁)
    exact harmed
  obtain ⟨t, ht⟩ := Runs.exists_run_of_guarded hstep
    (fun e s hs ⟨hp, hk, hg⟩ => (hs.exists_step hp hk hg).imp fun _ => And.left)
    h.stayingArmed hg
  exact ⟨t, ht, (Runs.invariant_of_guarded hstep h.stayingArmed hg ht).allArmed⟩

theorem permitted_operation {now : Date} (htime : now = T ∨ now < T) {operation : Operation}
    (hl : Operation.FreshIds (now, operation) s.reminders.session)
    (hop : operation.bringsReminders = true) :
    Permitted T (now, .reminder (.operation operation)) s where
  time := htime
  legal := hl
  operation := by
    rintro _ ⟨⟩
    exact hop
  accepts := nofun
  throws := nofun

theorem permitted_runClosure {now : Date} (htime : now = T ∨ now < T) (k : ℕ) :
    Permitted T (now, .runClosure k false) s where
  time := htime
  legal := trivial
  operation := by
    rintro _ ⟨⟩
  accepts := by
    rintro _ _ ⟨⟩
    rfl
  throws := nofun

/-- An open task with a reminder that another device has set. -/
def remindedTask : Task :=
  Task.sampleParent.reminding (some (.seconds 9)) (some "reminder") (.seconds 0)

/-- A session without tasks. -/
def emptySample : NotificationSession where
  reminders := ⟨⟨{}, [], []⟩, []⟩

theorem armedStart_emptySample : emptySample.ArmedStart (.seconds 3) :=
  ⟨by decide, rfl, rfl, fun _ ht => absurd ht List.not_mem_nil⟩

/-- The task is delivered, and its notification scheduled. -/
theorem allArmed_run_sample : ∃ t, Runs.run step
    [(.seconds 1, .reminder (.operation (.applyRemoteTasks [remindedTask]))),
      (.seconds 2, .runClosure 0 false), (.seconds 3, .runClosure 0 false)] emptySample = some t ∧
    (t.pending = [] → t.waiting = [] → t.AllArmed (.seconds 3)) := by
  refine allArmed_run armedStart_emptySample ?_
  refine ⟨⟨permitted_operation (Or.inr (by decide)) (List.nodup_singleton _) rfl, nofun, ?_⟩,
    fun s₁ h₁ => ?_⟩
  · rintro t ⟨ht, -, hn⟩ -
    obtain rfl := List.mem_singleton.mp ht
    cases hn
  obtain rfl := Option.some_inj.mp h₁
  refine ⟨⟨permitted_runClosure (Or.inr (by decide)) 0, trivial, ?_⟩, fun s₂ h₂ => ?_⟩
  · intro n hn
    cases Option.some_inj.mp hn
  obtain rfl := Option.some_inj.mp h₂
  refine ⟨⟨permitted_runClosure (Or.inl rfl) 0, trivial, ?_⟩, fun _ _ => trivial⟩
  intro n hn
  cases Option.some_inj.mp hn

/-- A task imported with a reminder date never has a notification scheduled. -/
theorem not_allArmed_run : ¬∀ (T : Date) (s t : NotificationSession)
    (steps : List (Date × NotificationStep)), s.ArmedStart T →
    Runs.Guarded step (Permitted T) steps s → Runs.run step steps s = some t →
    t.pending = [] → t.waiting = [] → t.AllArmed T := by
  intro h
  have hrun := h (.seconds 3) emptySample _
    [(.seconds 1, .reminder (.operation (.applySharedImports []
      [{ Task.sampleParent with reminderDate := some (.seconds 9) }])))]
    armedStart_emptySample ?_ rfl rfl rfl
  · obtain ⟨n, hn, -⟩ := hrun _ (List.mem_singleton_self _) ⟨rfl, _, rfl, by decide⟩
    cases hn
  · exact ⟨permitted_operation (Or.inr (by decide))
      ⟨List.nodup_singleton _, fun _ _ => List.not_mem_nil⟩ rfl, fun _ _ => trivial⟩

end NotificationSession

end Notelayer
