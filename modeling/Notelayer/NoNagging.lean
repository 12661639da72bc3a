import Notelayer.KeptReminders

/-!
# No completed or removed task nags

A notification should be pending for an open task of the store only.
`NotificationSession.EndsQuietly` is what a step has to meet : where it ends a task or a reminder
without a cancellation, no notification of it is pending, or its cancellation waits. Then nothing
nags once all closures have run (`NotificationSession.noNagging_run`).
-/

namespace Notelayer

open KeyedList

namespace NotificationSession

variable {s s' : NotificationSession} {e : Date × NotificationStep}

/-- Every pending notification is the reminder of an open task. -/
def NoNagging (s : NotificationSession) : Prop :=
  ∀ n ∈ s.scheduled, ∃ t ∈ s.tasks, t.reminderNotificationId = some n ∧ t.completedAt = none

/-- The identifier is that of an open task, or its cancellation waits. -/
def Covered (s : NotificationSession) (n : String) : Prop :=
  (∃ t ∈ s.tasks, t.reminderNotificationId = some n ∧ t.completedAt = none) ∨
    .cancelReminder n ∈ s.waiting

/-- No notification of the task is pending, or its cancellation waits. -/
def Idle (s : NotificationSession) (t : Task) : Prop :=
  ∀ n ∈ t.reminderNotificationId, n ∉ s.scheduled ∨ .cancelReminder n ∈ s.waiting

/-- The step is none of an import, an edit or the addition of a new task. -/
def EndsReminders (e : Date × NotificationStep) : Prop :=
  match e.2 with
  | .reminder (.operation operation) => operation.endsReminders = true
  | _ => True

/-- Where the step ends an open task or its reminder without a cancellation, the task is idle, and
what it schedules is for an open task. -/
def EndsQuietly (e : Date × NotificationStep) (s : NotificationSession) : Prop :=
  match e.2 with
  | .reminder (.operation operation) => ∀ t ∈ s.tasks, t.completedAt = none →
      Operation.EndsSilently (e.1, operation) s.reminders.session t → s.Idle t
  | .reminder .resetForNewUser => ∀ t ∈ s.tasks, t.completedAt = none → s.Idle t
  | .reminder (.resume k _ throwing) => ∀ operation ∈ s.pending[k]?,
      ∀ current ∈ s.tasks[operation.index]?,
        match operation.stage with
        | .cancelling _ => True
        | .scheduling _ _ => throwing = false → current.completedAt = none ∧ s.Idle current
        | .removing => current.completedAt = none →
            current.reminderNotificationId = operation.task.reminderNotificationId ∨ s.Idle current
  | .reminder _ => True
  | .runClosure k _ => ∀ closure ∈ s.waiting[k]?, ∀ n ∈ closure.request e.1, s.Covered n

/-- Nothing is suspended and no closure waits. -/
structure Start (s : NotificationSession) : Prop where
  distinct : DistinctIds s.tasks
  pending : s.pending = []
  waiting : s.waiting = []
  quiet : s.NoNagging

/-- No id is repeated, and every pending notification is covered. -/
structure Quiet (s : NotificationSession) : Prop where
  distinct : DistinctIds s.tasks
  covered : ∀ n ∈ s.scheduled, s.Covered n

theorem Start.toQuiet (h : s.Start) : s.Quiet :=
  ⟨h.distinct, fun n hn => Or.inl (h.quiet n hn)⟩

theorem Quiet.noNagging (h : s.Quiet) (hwaiting : s.waiting = []) : s.NoNagging := by
  intro n hn
  refine (h.covered n hn).resolve_right fun hcancel => ?_
  rw [hwaiting] at hcancel
  cases hcancel

/-- A pending notification stays covered if the open task it is for is idle, has its cancellation
spawned, or is kept with its identifier. -/
theorem Covered.of_kept {n : String} (h : s.Covered n) (hn : n ∈ s.scheduled)
    (hwaiting : ∃ new, s'.waiting = s.waiting ++ new)
    (hkeep : ∀ t ∈ s.tasks, t.completedAt = none → t.reminderNotificationId = some n →
      s.Idle t ∨ .cancelReminder n ∈ s'.waiting ∨
        ∃ t' ∈ s'.tasks, t'.reminderNotificationId = some n ∧ t'.completedAt = none) :
    s'.Covered n := by
  obtain ⟨new, hwaiting⟩ := hwaiting
  have hmem : .cancelReminder n ∈ s.waiting → s'.Covered n := by
    intro h
    right
    rw [hwaiting]
    exact List.mem_append_left _ h
  rcases h with ⟨t, ht, hid, hopen⟩ | h
  · rcases hkeep t ht hopen hid with hidle | hcancel | hkept
    · exact hmem ((hidle n hid).resolve_left fun h => h hn)
    · exact Or.inr hcancel
    · exact Or.inl hkept
  · exact hmem h

/-- Writing a task back keeps the others with their identifiers. -/
theorem Covered.of_set {n : String} (h : s.Covered n) (hn : n ∈ s.scheduled)
    (hwaiting : ∃ new, s'.waiting = s.waiting ++ new) {i : ℕ} {current new : Task}
    (hi : s.tasks[i]? = some current) (htasks : s'.tasks = s.tasks.set i new)
    (hcurrent : current.completedAt = none → current.reminderNotificationId = some n →
      s.Idle current) : s'.Covered n := by
  refine h.of_kept hn hwaiting fun t ht hopen hid => ?_
  by_cases hne : t = current
  · subst hne
    exact Or.inl (hcurrent hopen hid)
  · refine Or.inr (Or.inr ⟨t, ?_, hid, hopen⟩)
    rw [htasks]
    exact mem_set_of_ne hi ht hne new

theorem Covered.congr {n : String} (h : s.Covered n) (htasks : s'.tasks = s.tasks)
    (hwaiting : s'.waiting = s.waiting) : s'.Covered n := by
  unfold Covered
  rwa [htasks, hwaiting]

/-- A step that ends tasks quietly leaves every pending notification covered. -/
theorem Change.covered (h : Change s e s') (hd : DistinctIds s.tasks) (hl : Legal e s)
    (hop : EndsReminders e) (hg : EndsQuietly e s) (hc : ∀ n ∈ s.scheduled, s.Covered n) :
    ∀ n ∈ s'.scheduled, s'.Covered n := by
  obtain ⟨now, step⟩ := e
  intro n hn
  cases h with
  | same h => exact h ▸ hc n (h ▸ hn)
  | operation operation he h _ hwaiting hscheduled =>
    obtain rfl := he
    rw [hscheduled] at hn
    obtain ⟨new, hnew, hends⟩ := endsOnly_step (e := (now, operation)) hd hop hl h
    refine (hc n hn).of_kept hn ⟨new, hwaiting new hnew⟩ fun t ht hopen hid => ?_
    rcases hends t ht hopen with hsilent | hcancel | ⟨t', ht', hid', hopen'⟩
    · exact Or.inl (hg t ht hopen hsilent)
    · right; left
      rw [hwaiting new hnew]
      exact List.mem_append_right _ (hcancel n hid)
    · exact Or.inr (Or.inr ⟨t', ht', hid'.trans hid, hopen'⟩)
  | reset he _ _ hwaiting hscheduled =>
    obtain rfl := he
    rw [hscheduled] at hn
    exact (hc n hn).of_kept hn hwaiting fun t ht hopen _ => Or.inl (hg t ht hopen)
  | suspended _ _ _ htasks _ hwaiting hscheduled =>
    rw [hscheduled] at hn
    exact (hc n hn).congr htasks hwaiting
  | cleared index task hi hnone htasks _ hwaiting hscheduled =>
    rw [hscheduled] at hn
    refine (hc n hn).of_set hn hwaiting hi htasks fun _ hid => ?_
    rw [hnone] at hid
    cases hid
  | cancelled _ _ _ _ _ _ _ _ htasks _ hwaiting hscheduled =>
    rw [hscheduled] at hn
    exact (hc n (Finset.sdiff_subset hn)).congr htasks hwaiting
  | thrown _ _ _ _ _ _ _ _ htasks _ hwaiting hscheduled =>
    rw [hscheduled] at hn
    exact (hc n hn).congr htasks hwaiting
  | reminded k id he operation hop' date m hstage _ current hi hcurrent htasks _ hwaiting
      hscheduled =>
    obtain rfl := he
    have hgc := hg operation hop' current hi
    rw [hstage] at hgc
    obtain ⟨hopen, hidle⟩ := hgc rfl
    rw [hscheduled] at hn
    rcases Finset.mem_insert.mp hn with rfl | hn
    · obtain ⟨hlt, -⟩ := List.getElem?_eq_some_iff.mp hi
      refine Or.inl ⟨operation.task.reminding (some date) (some n) now, ?_, rfl, ?_⟩
      · rw [htasks]
        exact List.mem_set hlt _
      · exact (Task.completedAt_of_exceptReminder hcurrent).symm.trans hopen
    · exact (hc n hn).of_set hn hwaiting hi htasks fun _ _ => hidle
  | removed k id throwing he operation hop' hstage current hi _ htasks _ hwaiting hscheduled =>
    obtain rfl := he
    have hgc := hg operation hop' current hi
    rw [hstage] at hgc
    rw [hscheduled, Finset.mem_sdiff, Option.mem_toFinset] at hn
    obtain ⟨hn, hne⟩ := hn
    refine (hc n hn).of_set hn hwaiting hi htasks fun hopen hid => ?_
    refine (hgc hopen).resolve_left fun heq => hne ?_
    rwa [← heq]
  | ran k rejecting he closure hk hreminders hwaiting hscheduled =>
    obtain rfl := he
    have htasks : s'.tasks = s.tasks := congrArg ReminderSession.tasks hreminders
    have hrequest : closure.request now = some n → closure ≠ .cancelReminder n := by
      rintro h rfl
      cases h
    rw [hscheduled] at hn
    obtain ⟨hcovered, hne⟩ : s.Covered n ∧ closure ≠ .cancelReminder n := by
      rcases Closure.mem_notify hn with ⟨hn, hne⟩ | ⟨-, hreq⟩
      · exact ⟨hc n hn, hne⟩
      · exact ⟨hg closure hk n hreq, hrequest hreq⟩
    rcases hcovered with hopen | hcancel
    · left
      rwa [htasks]
    · right
      rw [hwaiting]
      exact mem_waiting_of_ne hk hcancel hne

/-- A step that ends tasks quietly has a result and keeps the invariant. -/
theorem Quiet.exists_step (h : s.Quiet) (hl : Legal e s) (hop : EndsReminders e)
    (hk : KeepsIds e s) (hg : EndsQuietly e s) : ∃ s', step e s = some s' ∧ s'.Quiet := by
  obtain ⟨s', hs, hchange⟩ := exists_change h.distinct hl hk
  exact ⟨s', hs, hchange.distinctIds h.distinct hl hk,
    hchange.covered h.distinct hl hop hg h.covered⟩

/-- In every run whose steps all end tasks quietly, nothing nags once all closures have run. -/
theorem noNagging_run (h : s.Start) {steps : List (Date × NotificationStep)}
    (hg : Runs.Guarded step (fun e s => Legal e s ∧ EndsReminders e ∧ KeepsIds e s ∧
      EndsQuietly e s) steps s) :
    ∃ t, Runs.run step steps s = some t ∧ (t.waiting = [] → t.NoNagging) := by
  have hstep : ∀ e s s', Quiet s → Legal e s ∧ EndsReminders e ∧ KeepsIds e s ∧
      EndsQuietly e s → step e s = some s' → Quiet s' := by
    rintro e s s' hq ⟨hl, hop, hk, hg⟩ hs
    obtain ⟨s₁, hs₁, hq₁⟩ := hq.exists_step hl hop hk hg
    obtain rfl := Option.some_inj.mp (hs.symm.trans hs₁)
    exact hq₁
  obtain ⟨t, ht⟩ := Runs.exists_run_of_guarded hstep
    (fun e s hq ⟨hl, hop, hk, hg⟩ => (hq.exists_step hl hop hk hg).imp fun _ => And.left)
    h.toQuiet hg
  exact ⟨t, ht, (Runs.invariant_of_guarded hstep h.toQuiet hg ht).noNagging⟩

/-- A parent and its subtask without reminders. -/
def sample : NotificationSession where
  reminders := ⟨.sample, []⟩

theorem start_sample : sample.Start :=
  ⟨by decide, rfl, rfl, fun _ hn => absurd hn (Finset.notMem_empty _)⟩

/-- The subtask is completed with its reminder pending. -/
theorem noNagging_run_sample : ∃ t, Runs.run step
    [(.seconds 1, .reminder (.setReminder "subtask" (.seconds 9) "reminder")),
      (.seconds 1, .reminder (.resume 0 "unused" false)),
      (.seconds 2, .reminder (.operation (.completeTask "subtask"))),
      (.seconds 3, .runClosure 0 false)] sample = some t ∧ (t.waiting = [] → t.NoNagging) := by
  refine noNagging_run start_sample ?_
  refine ⟨⟨trivial, trivial, trivial, trivial⟩, fun s₁ h₁ => ?_⟩
  obtain rfl := Option.some_inj.mp h₁
  refine ⟨⟨?_, trivial, ?_, ?_⟩, fun s₂ h₂ => ?_⟩
  · intro operation hop date id hstage
    obtain rfl := Option.some_inj.mp hop
    obtain ⟨rfl, -⟩ := ReminderStage.scheduling.inj hstage
    decide
  · intro operation hop _
    obtain rfl := Option.some_inj.mp hop
    exact ⟨_, rfl, rfl⟩
  · intro operation hop current hi
    obtain rfl := Option.some_inj.mp hop
    obtain rfl := Option.some_inj.mp hi
    exact fun _ => ⟨rfl, nofun⟩
  obtain rfl := Option.some_inj.mp h₂
  refine ⟨⟨trivial, rfl, nofun, ?_⟩, fun s₃ h₃ => ?_⟩
  · -- the parent is completed too, and has no reminder
    have hparent : ∀ t ∈ ([.sampleParent, Task.sampleSubtask.reminding (some (.seconds 9))
        (some "reminder") (.seconds 1)] : List Task), ∀ c ∈ ([.sampleParent,
        Task.sampleSubtask.reminding (some (.seconds 9)) (some "reminder") (.seconds 1)] :
          List Task), c.parentTaskId = some t.id → t.reminderNotificationId = none := by decide
    rintro t ht - ⟨-, ⟨c, hc, -, hp⟩, -⟩ n hn
    rw [hparent t ht c hc hp] at hn
    cases hn
  obtain rfl := Option.some_inj.mp h₃
  refine ⟨⟨trivial, trivial, trivial, ?_⟩, fun _ _ => trivial⟩
  intro closure hk n hn
  obtain rfl := Option.some_inj.mp hk
  cases hn

/-- Completing the last subtask completes the parent, whose reminder stays pending. -/
theorem not_noNagging_run : ¬∀ (s t : NotificationSession)
    (steps : List (Date × NotificationStep)), s.Start →
    Runs.Guarded step (fun e s => Legal e s ∧ EndsReminders e) steps s →
    Runs.run step steps s = some t → t.waiting = [] → t.NoNagging := by
  intro h
  have hrun := h sample _
    [(.seconds 1, .reminder (.setReminder "parent" (.seconds 9) "reminder")),
      (.seconds 1, .reminder (.resume 0 "unused" false)),
      (.seconds 2, .reminder (.operation (.completeTask "subtask")))] start_sample ?_ rfl rfl
  · exact absurd (hrun "reminder" (by decide)) (by decide)
  · refine ⟨⟨trivial, trivial⟩, fun s₁ h₁ => ?_⟩
    obtain rfl := Option.some_inj.mp h₁
    refine ⟨⟨?_, trivial⟩, fun _ _ => ⟨⟨trivial, rfl⟩, fun _ _ => trivial⟩⟩
    intro operation hop date id hstage
    obtain rfl := Option.some_inj.mp hop
    obtain ⟨rfl, -⟩ := ReminderStage.scheduling.inj hstage
    decide

end NotificationSession

end Notelayer
