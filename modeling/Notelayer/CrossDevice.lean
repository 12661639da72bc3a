import Notelayer.DeferredWrites
import Notelayer.LocalOperations

/-!
# Completing the subtasks of a project on several devices

`Devices` are stores of one user with the tasks they share. Each device completes subtasks from
its own list, the writes run in any order, and a listener may show any state the shared tasks have
had, with writes of its own device on top. `applyRemoteTasks` reconciles no parent. So if no device
sees all the subtasks complete, none completes the parent.

`Devices.ReachesParent` is what a step has to meet : a completion after which every subtask has
been completed somewhere sees that in its list, and no write of the open parent runs after it
unless one of the complete parent still waits. Then the parent ends complete everywhere
(`Devices.parentComplete_run`).
-/

set_option linter.unusedSectionVars false

namespace Notelayer

open KeyedList

/-! ## A project in a list -/

/-- The ids of a parent and of its subtasks. -/
structure Project where
  parent : String
  subtasks : List String

/-- A project with two subtasks, for examples. -/
def Project.sample : Project :=
  ⟨"parent", ["first", "second"]⟩

namespace Project

variable (p : Project)

/-- What a list has at `id`. `completed` are the subtasks that some device has completed : the
others are open, and the parent is if there are others. -/
structure NodeOk (completed : List String) (id : String) (n : Forest.Node String) : Prop where
  root : id = p.parent → n.parent = none
  linked : n.parent = some p.parent ↔ id ∈ p.subtasks
  subtask : id ∈ p.subtasks → n.complete = true → id ∈ completed
  parent : id = p.parent → n.complete = true → p.subtasks ⊆ completed

/-- The list has the parent and the subtasks. -/
structure In (completed : List String) (tasks : List Task) : Prop where
  distinct : DistinctIds tasks
  parent_mem : p.parent ∈ tasks.map Task.id
  subtasks_mem : p.subtasks ⊆ tasks.map Task.id
  nodeOk : ∀ t ∈ tasks, p.NodeOk completed t.id t.node

/-- The parent is complete in the list. -/
def IsComplete (tasks : List Task) : Prop :=
  ∃ t, taskWithId tasks p.parent = some t ∧ t.completedAt ≠ none

/-- The list shows the subtasks other than `id` complete, and the parent not reopened by hand. -/
def OthersComplete (id : String) (tasks : List Task) : Prop :=
  (∀ t ∈ tasks, t.parentTaskId = some p.parent → t.id ≠ id → t.completedAt ≠ none) ∧
    ∀ t ∈ tasks, t.id = p.parent → t.parentManualReopenAt = none

instance (id : String) (tasks : List Task) : Decidable (p.OthersComplete id tasks) :=
  inferInstanceAs (Decidable (_ ∧ _))

variable {p} {completed completed' : List String} {tasks tasks' : List Task}

theorem NodeOk.mono {id : String} {n : Forest.Node String} (h : p.NodeOk completed id n)
    (hc : completed ⊆ completed') : p.NodeOk completed' id n :=
  ⟨h.root, h.linked, fun hid hn => hc (h.subtask hid hn),
    fun hid hn _ hx => hc (h.parent hid hn hx)⟩

theorem In.mono (h : p.In completed tasks) (hc : completed ⊆ completed') :
    p.In completed' tasks :=
  ⟨h.distinct, h.parent_mem, h.subtasks_mem, fun t ht => (h.nodeOk t ht).mono hc⟩

theorem In.view (h : p.In completed tasks) {x : String} {n : Forest.Node String}
    (hn : Notelayer.view tasks x = some n) : p.NodeOk completed x n := by
  obtain ⟨t, ht, rfl, rfl⟩ := (view_eq_some_iff h.distinct).mp hn
  exact h.nodeOk t ht

/-- The same ids, and good nodes. -/
theorem In.of_view (h : p.In completed tasks) (hids : tasks'.map Task.id = tasks.map Task.id)
    (hn : ∀ x n, Notelayer.view tasks' x = some n → p.NodeOk completed' x n) :
    p.In completed' tasks' := by
  have hd := distinctIds_congr hids h.distinct
  exact ⟨hd, hids ▸ h.parent_mem, hids ▸ h.subtasks_mem,
    fun t ht => hn t.id t.node (view_of_mem hd ht)⟩

/-- A batch of tasks about the project leaves the project in the list. -/
theorem In.upsert (h : p.In completed tasks) {batch : List Task}
    (hb : ∀ t ∈ batch, p.NodeOk completed t.id t.node) :
    p.In completed (batch.foldl (KeyedList.upsert Task.id) tasks) := by
  induction batch generalizing tasks with
  | nil => exact h
  | cons t batch ih =>
    have hid : ∀ {x : String}, x ∈ tasks.map Task.id →
        x ∈ (KeyedList.upsert Task.id tasks t).map Task.id :=
      fun hx => mem_map_key_upsert.mpr (Or.inr hx)
    refine ih ⟨h.distinct.upsert t, hid h.parent_mem, fun x hx => hid (h.subtasks_mem hx), ?_⟩
      fun u hu => hb u (List.mem_cons_of_mem t hu)
    exact forall_mem_upsert h.nodeOk (hb t List.mem_cons_self)

/-- The parent, and the node it has in the list. -/
theorem In.exists_parent (h : p.In completed tasks) :
    ∃ n, Notelayer.view tasks p.parent = some n ∧ n.parent = none := by
  obtain ⟨t, ht, hid⟩ := List.mem_map.mp h.parent_mem
  have hview := view_of_mem h.distinct ht
  rw [hid] at hview
  exact ⟨t.node, hview, (h.nodeOk t ht).root hid⟩

theorem In.exists_subtask (h : p.In completed tasks) {x : String} (hx : x ∈ p.subtasks) :
    ∃ n, Notelayer.view tasks x = some n ∧ n.parent = some p.parent := by
  obtain ⟨t, ht, rfl⟩ := List.mem_map.mp (h.subtasks_mem hx)
  exact ⟨t.node, view_of_mem h.distinct ht, (h.nodeOk t ht).linked.mpr hx⟩

theorem In.ne_parent (h : p.In completed tasks) {x : String} (hx : x ∈ p.subtasks) :
    x ≠ p.parent := by
  rintro rfl
  obtain ⟨n, hn, hroot⟩ := h.exists_parent
  obtain ⟨n', hn', hlink⟩ := h.exists_subtask hx
  rw [hn, Option.some_inj] at hn'
  rw [← hn', hroot] at hlink
  cases hlink

/-- The repair of a snapshot keeps the project. -/
theorem In.sanitizedTasks (h : p.In completed tasks) :
    p.In completed (sanitizedTasks tasks) := by
  have hids := ids_sanitized tasks (lookup Task.id tasks)
  refine ⟨distinctIds_congr hids h.distinct, hids ▸ h.parent_mem, hids ▸ h.subtasks_mem, ?_⟩
  intro t' ht'
  obtain ⟨t, ht, rfl⟩ := List.mem_map.mp ht'
  obtain ⟨parent, hparent, hpid⟩ := List.mem_map.mp h.parent_mem
  have hok := h.nodeOk t ht
  have hcomplete := Task.completedAt_sanitized (lookup Task.id tasks) t
  rw [Task.sanitized_id]
  refine ⟨fun hid => Task.sanitized_root (hok.root hid), ⟨fun hlink => ?_, fun hid => ?_⟩,
    fun hid hn => hok.subtask hid ?_, fun hid hn => hok.parent hid ?_⟩
  · exact hok.linked.mp (Task.parentTaskId_of_sanitized hlink)
  · have hlink := hok.linked.mpr hid
    have hkept := sanitized_of_linked h.distinct ht fun q hq => by
      rw [Task.node_parent] at hlink
      rw [hlink, Option.mem_some_iff] at hq
      exact ⟨parent, hparent, hpid.trans hq, (h.nodeOk parent hparent).root hpid⟩
    rw [Task.node_parent, hkept]
    split_ifs <;> exact hlink
  · simpa [Task.node, hcomplete] using hn
  · simpa [Task.node, hcomplete] using hn

/-- A subtask is completed in the list. -/
theorem In.complete (h : p.In completed tasks) {id : String} (hid : id ∈ p.subtasks)
    (hids : tasks'.map Task.id = tasks.map Task.id)
    (hview : Notelayer.view tasks' = Forest.complete (Notelayer.view tasks) id) :
    p.In (id :: completed) tasks' := by
  classical
  obtain ⟨m, hm, hroot⟩ := h.exists_parent
  obtain ⟨n, hn, hlink⟩ := h.exists_subtask hid
  have hmOk := h.view hm
  have hnOk := h.view hn
  refine h.of_view hids fun x nx hx => ?_
  rw [hview, Forest.complete_child hn hlink hm hroot, Function.update_apply,
    Function.update_apply] at hx
  split_ifs at hx with hxp hxk
  · obtain rfl := hxp
    obtain rfl := Option.some_inj.mp hx
    refine ⟨fun _ => ?_, ?_, fun hx => absurd rfl (h.ne_parent hx), fun _ hc y hy => ?_⟩
    · rw [Forest.Node.settled_parent, hroot]
    · rw [Forest.Node.settled_parent]
      exact hmOk.linked
    · by_cases hyid : y = id
      · exact hyid ▸ List.mem_cons_self
      · obtain ⟨ny, hny, hylink⟩ := h.exists_subtask hy
        have hall : Forest.OthersComplete (Notelayer.view tasks) id p.parent := by
          by_contra hnot
          simp [hnot, Forest.Node.settled] at hc
        exact List.mem_cons_of_mem id ((h.view hny).subtask hy (hall y ny hyid hny hylink))
  · obtain rfl := hxk
    obtain rfl := Option.some_inj.mp hx
    exact ⟨hnOk.root, hnOk.linked, fun _ _ => List.mem_cons_self,
      fun hxp' => absurd hxp' hxp⟩
  · exact (h.view hx).mono (List.subset_cons_self id completed)

/-- The parent is reopened by hand in the list. -/
theorem In.reopen (h : p.In completed tasks) (hids : tasks'.map Task.id = tasks.map Task.id)
    (hview : Notelayer.view tasks' = Forest.reopen (Notelayer.view tasks) p.parent) :
    p.In completed tasks' := by
  classical
  obtain ⟨m, hm, hroot⟩ := h.exists_parent
  have hmOk := h.view hm
  refine h.of_view hids fun x nx hx => ?_
  rw [hview, Forest.reopen_root hm hroot] at hx
  split_ifs at hx with hxp
  · obtain rfl := hxp
    obtain rfl := Option.some_inj.mp hx
    exact ⟨fun _ => hroot, hmOk.linked, fun hx => absurd rfl (h.ne_parent hx), nofun⟩
  · exact h.view hx

/-- The completion of a subtask in a list that shows the others complete completes the parent. -/
theorem In.isComplete_complete (h : p.In completed tasks) {id : String} (hid : id ∈ p.subtasks)
    (hids : tasks'.map Task.id = tasks.map Task.id)
    (hview : Notelayer.view tasks' = Forest.complete (Notelayer.view tasks) id)
    (hothers : p.OthersComplete id tasks) : p.IsComplete tasks' := by
  classical
  obtain ⟨m, hm, hroot⟩ := h.exists_parent
  obtain ⟨n, hn, hlink⟩ := h.exists_subtask hid
  have hall : Forest.OthersComplete (Notelayer.view tasks) id p.parent := by
    intro c nc hc hnc hclink
    obtain ⟨t, ht, rfl, rfl⟩ := (view_eq_some_iff h.distinct).mp hnc
    exact Option.isSome_iff_ne_none.mpr (hothers.1 t ht hclink hc)
  have hopen : m.reopened = false := by
    obtain ⟨t, ht, htid, rfl⟩ := (view_eq_some_iff h.distinct).mp hm
    simp [Task.node, hothers.2 t ht htid]
  have hparent : Notelayer.view tasks' p.parent =
      some (m.settled false true true) := by
    rw [hview, Forest.complete_child hn hlink hm hroot, Function.update_self, decide_eq_true hall]
  obtain ⟨t, ht, htid, hnode⟩ :=
    (view_eq_some_iff (distinctIds_congr hids h.distinct)).mp hparent
  refine ⟨t, ?_, ?_⟩
  · rw [← htid]
    exact lookup_of_mem (distinctIds_congr hids h.distinct) ht
  · have hcomplete : t.node.complete = true := by
      rw [hnode]
      simp [Forest.Node.settled, hopen]
    exact Option.isSome_iff_ne_none.mp hcomplete

end Project

/-! ## What an operation writes -/

namespace LocalStore

/-- A closure that uploads no task. -/
def UploadsNoTask (closure : Closure) : Prop :=
  ∀ s, (closure.upload s).tasks = []

/-- The new closures carry tasks as they are in `s'`, and carry every task that `s` does not have
like this. -/
def WritesChanges (s s' : LocalStore) : Prop :=
  ∃ new, s'.spawned = s.spawned ++ new ∧
    (∀ closure ∈ new, UploadsNoTask closure ∨ ∃ b, ∃ t ∈ s'.tasks, closure = .upsertTask b t) ∧
    ∀ t ∈ s'.tasks, t ∉ s.tasks → ∃ b, .upsertTask b t ∈ new

variable {s s₁ s' : LocalStore}

/-- One task is replaced and written, and then its parent is reconciled. -/
theorem writesChanges_set {b : FirestoreBackend} (hd : DistinctIds s.tasks) {i : ℕ}
    {old new : Task} (hi : s.tasks[i]? = some old) (hid : new.id = old.id)
    (htasks : s₁.tasks = s.tasks.set i new) (hb : s₁.syncingBackend = some b)
    {others : List Closure} (hothers : ∀ closure ∈ others, UploadsNoTask closure)
    (hspawned : s₁.spawned = s.spawned ++ (others ++ [.upsertTask b new])) (r : Bool)
    (now : Date) : s.WritesChanges (s₁.reconcileParent new.parentTaskId r now) := by
  have hd₁ : DistinctIds s₁.tasks := htasks ▸ distinctIds_set hd hi hid
  obtain ⟨hlt, -⟩ := List.getElem?_eq_some_iff.mp hi
  have hnew : new ∈ s₁.tasks := htasks ▸ List.mem_set hlt new
  have hset : s.WritesChanges s₁ := by
    refine ⟨_, hspawned, fun closure hc => ?_, fun t ht hold => ⟨b, ?_⟩⟩
    · rcases List.mem_append.mp hc with hc | hc
      · exact Or.inl (hothers closure hc)
      · exact Or.inr ⟨b, new, hnew, List.mem_singleton.mp hc⟩
    · rw [htasks] at ht
      rcases List.mem_or_eq_of_mem_set ht with hmem | rfl
      · exact absurd hmem hold
      · simp
  cases hp : new.parentTaskId with
  | none => exact hset
  | some p =>
    change s.WritesChanges (s₁.reconcileParentCompletion p r now)
    rcases s₁.reconcileParentCompletion_cases p r now with
      hs | ⟨j, parent, parent', closure, hj, hjid, hroot, hid', -, hclosure, hs⟩
    · rwa [hs]
    · have hsub : s₁.hasSubtasks p = true := List.any_eq_true.mpr ⟨new, hnew, by simpa using hp⟩
      obtain rfl : closure = (Closure.upsertTask · parent') := by
        rcases hclosure with hclosure | ⟨-, -, hno⟩
        · exact hclosure
        · exact absurd hsub hno
      have hne : new ≠ parent := by
        rintro rfl
        rw [hroot] at hp
        cases hp
      -- the task written first is still there
      have hkept : new ∈ s₁.tasks.set j parent' := mem_set_of_ne hj hnew hne parent'
      obtain ⟨hltj, -⟩ := List.getElem?_eq_some_iff.mp hj
      refine ⟨others ++ [.upsertTask b new] ++ [.upsertTask b parent'], ?_, fun c hc => ?_,
        fun t ht hold => ⟨b, ?_⟩⟩
      · rw [hs, spawned_spawnSync, syncingBackend_saveTasks, syncingBackend_setTask, hb,
          spawned_saveTasks, spawned_setTask, hspawned, List.append_assoc]
        rfl
      · rw [hs, tasks_spawnSync, tasks_saveTasks, tasks_setTask]
        rcases List.mem_append.mp hc with hc | hc
        · rcases List.mem_append.mp hc with hc | hc
          · exact Or.inl (hothers c hc)
          · exact Or.inr ⟨b, new, hkept, List.mem_singleton.mp hc⟩
        · exact Or.inr ⟨b, parent', List.mem_set hltj parent', List.mem_singleton.mp hc⟩
      · rw [hs, tasks_spawnSync, tasks_saveTasks, tasks_setTask] at ht
        rcases List.mem_or_eq_of_mem_set ht with hmem | rfl
        · rw [htasks] at hmem
          rcases List.mem_or_eq_of_mem_set hmem with hmem | rfl
          · exact absurd hmem hold
          · simp
        · simp

theorem uploadsNoTask_cancelReminder (n : Option String) :
    ∀ closure ∈ (n.map Closure.cancelReminder).toList, UploadsNoTask closure := by
  intro closure hc
  obtain ⟨id, -, rfl⟩ := Option.map_eq_some_iff.mp (Option.mem_toList.mp hc)
  exact fun _ => rfl

/-- A completion spawns an upload of every task that it changes. -/
theorem writesChanges_completeTask (hd : DistinctIds s.tasks) (hb : s.syncingBackend.isSome)
    (id : String) (now : Date) : s.WritesChanges (s.completeTask id now) := by
  obtain ⟨b, hb⟩ := Option.isSome_iff_exists.mp hb
  unfold completeTask
  split
  · exact ⟨[], (List.append_nil _).symm, by simp, fun t ht hold => absurd ht hold⟩
  · rename_i i old hentry
    refine writesChanges_set (b := b) hd (firstEntry_eq_some hentry).1 (old.completed_id now) ?_ ?_
      (uploadsNoTask_cancelReminder old.reminderNotificationId) ?_ false now
    · simp
    · simpa using hb
    · simp [hb]

/-- A restoration spawns an upload of every task that it changes. -/
theorem writesChanges_restoreTask (hd : DistinctIds s.tasks) (hb : s.syncingBackend.isSome)
    (id : String) (now : Date) : s.WritesChanges (s.restoreTask id now) := by
  obtain ⟨b, hb⟩ := Option.isSome_iff_exists.mp hb
  unfold restoreTask
  split
  · exact ⟨[], (List.append_nil _).symm, by simp, fun t ht hold => absurd ht hold⟩
  · rename_i i old hentry
    have hreminder := s.restoreReminder_cases old (old.reopened (s.subtaskCount old.id) now) now
    dsimp only
    revert hreminder
    generalize s.restoreReminder old (old.reopened (s.subtaskCount old.id) now) now = r
    obtain ⟨s₁, new⟩ := r
    intro hreminder
    obtain ⟨hid, htasks, hb₁, others, hspawned, hothers⟩ : new.id = old.id ∧ s₁.tasks = s.tasks ∧
        s₁.syncingBackend = some b ∧ ∃ others, s₁.spawned = s.spawned ++ others ∧
          ∀ closure ∈ others, UploadsNoTask closure := by
      rcases hreminder with ⟨c, date, cs, n, rfl, hr⟩ | ⟨date, n, hr⟩
      · obtain ⟨rfl, rfl⟩ := Prod.mk.inj hr
        refine ⟨old.reopened_id _ now, rfl, hb, _, rfl, fun closure hc => ?_⟩
        obtain rfl := List.mem_singleton.mp hc
        exact fun _ => rfl
      · obtain ⟨rfl, rfl⟩ := Prod.mk.inj hr
        exact ⟨old.reopened_id _ now, rfl, hb, [], (List.append_nil _).symm, by simp⟩
    refine writesChanges_set hd (firstEntry_eq_some hentry).1 hid ?_ (b := b) ?_ hothers ?_ true now
    · simp [htasks]
    · simpa using hb₁
    · simp [hspawned, hb₁]

end LocalStore

/-! ## The devices -/

/-- A write of the complete parent. -/
def Closure.writesComplete (p : Project) : Closure → Bool
  | upsertTask _ task => task.id = p.parent ∧ task.completedAt ≠ none
  | _ => false

/-- A write of the open parent. -/
def Closure.writesOpen (p : Project) : Closure → Bool
  | upsertTask _ task => task.id = p.parent ∧ task.completedAt = none
  | _ => false

/-- The devices of one user, the remote data they share with the states it has had, and the
closures that wait with the devices they are on. `completed` are the subtasks that a device has
completed, and `reopened` says that one has reopened the parent after the last of them. -/
structure Devices (D : Type) where
  stores : D → LocalStore
  remote : Remote
  history : List Remote
  waiting : List (D × Closure)
  completed : List String
  reopened : Bool

/-- What a device does with the project, and what reaches it. -/
inductive ProjectStep (D : Type) where
  | completeSubtask (device : D) (id : String)
  | reopenParent (device : D)
  /-- The listener of a device shows the `k`-th state of the remote data, with the waiting writes
  at the indices `shown` on top where they are the device's own. -/
  | deliver (device : D) (k : ℕ) (shown : List ℕ)
  /-- The `k`-th of the closures that wait runs. -/
  | runClosure (k : ℕ)

namespace Devices

variable {D : Type} [DecidableEq D] (p : Project) (s : Devices D)

/-- The store of a device after an operation or a delivery, and the closures it has spawned. -/
def withStore (device : D) (store : LocalStore) : Devices D :=
  { s with
    stores := Function.update s.stores device store
    waiting := s.waiting ++
      (store.spawned.drop (s.stores device).spawned.length).map (device, ·) }

/-- The remote data with a waiting write of the device on top. -/
def withOwnWrite (device : D) (r : Remote) (k : ℕ) : Remote :=
  match s.waiting[k]? with
  | some (owner, closure) =>
    if owner = device then r.upsert (closure.upload (s.stores device)) else r
  | none => r

/-- The step function of the devices. -/
def step (e : Date × ProjectStep D) (s : Devices D) : Option (Devices D) :=
  let now := e.1
  match e.2 with
  | .completeSubtask device id =>
    some { s.withStore device ((s.stores device).completeTask id now) with
      completed := id :: s.completed }
  | .reopenParent device =>
    some { s.withStore device ((s.stores device).restoreTask p.parent now) with
      reopened := s.reopened || p.subtasks ⊆ s.completed }
  | .deliver device k shown =>
    match s.history[k]? with
    | some r => ((s.stores device).applyRemoteTasks
        (shown.foldl (s.withOwnWrite device) r).tasks.records).map (s.withStore device)
    | none => some s
  | .runClosure k =>
    match s.waiting[k]? with
    | some (device, closure) =>
      let remote := s.remote.upsert (closure.upload (s.stores device))
      some { s with
        remote := remote
        history := s.history ++ [remote]
        waiting := s.waiting.eraseIdx k }
    | none => some s

/-- The subtasks are those of the project. -/
def Legal (e : Date × ProjectStep D) : Prop :=
  match e.2 with
  | .completeSubtask _ id => id ∈ p.subtasks
  | _ => True

/-- A completion after which every subtask has been completed on some device is on a device whose
list shows that, and no write of the open parent runs after it unless one of the complete parent
waits behind. -/
def ReachesParent (e : Date × ProjectStep D) (s : Devices D) : Prop :=
  match e.2 with
  | .completeSubtask device id =>
    p.subtasks ⊆ id :: s.completed → p.OthersComplete id (s.stores device).tasks
  | .runClosure k => p.subtasks ⊆ s.completed → s.reopened = false →
    ∀ entry ∈ s.waiting[k]?, entry.2.writesOpen p = true →
      ∃ later ∈ s.waiting.eraseIdx k, later.2.writesComplete p = true
  | _ => True

/-- The devices and the remote data have the project, a subtask of it has not been completed on
any device, and nothing waits. -/
structure Start : Prop where
  stores : ∀ device, p.In s.completed (s.stores device).tasks
  backend : ∀ device, (s.stores device).syncingBackend.isSome
  remote : p.In s.completed s.remote.tasks.records
  history : ∀ r ∈ s.history, p.In s.completed r.tasks.records
  waiting : s.waiting = []
  left : ¬p.subtasks ⊆ s.completed

/-- When every subtask has been completed, every write has run and the parent was not reopened
since, the parent is complete in the remote data and on every device that applies them. -/
def ParentComplete : Prop :=
  p.subtasks ⊆ s.completed → s.waiting = [] → s.reopened = false →
    p.IsComplete s.remote.tasks.records ∧
    ∀ device, ∃ store, (s.stores device).applyRemoteTasks s.remote.tasks.records = some store ∧
      p.IsComplete store.tasks

/-! ### The invariant -/

/-- A closure writes no task, or one with a good node. -/
def ClosureOk (completed : List String) (closure : Closure) : Prop :=
  LocalStore.UploadsNoTask closure ∨
    ∃ b t, p.NodeOk completed t.id t.node ∧ closure = .upsertTask b t

/-- Every list has the project, every waiting closure keeps it, and the parent is complete in the
remote data or about to be once every subtask has been completed. -/
structure Ok : Prop where
  stores : ∀ device, p.In s.completed (s.stores device).tasks
  backend : ∀ device, (s.stores device).syncingBackend.isSome
  remote : p.In s.completed s.remote.tasks.records
  history : ∀ r ∈ s.history, p.In s.completed r.tasks.records
  waiting : ∀ entry ∈ s.waiting, ClosureOk p s.completed entry.2
  settled : p.subtasks ⊆ s.completed → s.reopened = false →
    p.IsComplete s.remote.tasks.records ∨ ∃ entry ∈ s.waiting, entry.2.writesComplete p = true

variable {p s}

theorem Start.ok (h : s.Start p) : s.Ok p :=
  ⟨h.stores, h.backend, h.remote, h.history, by simp [h.waiting], fun hall => absurd hall h.left⟩

theorem ClosureOk.mono {completed completed' : List String} {closure : Closure}
    (h : ClosureOk p completed closure) (hc : completed ⊆ completed') :
    ClosureOk p completed' closure := by
  rcases h with h | ⟨b, t, hok, rfl⟩
  · exact Or.inl h
  · exact Or.inr ⟨b, t, hok.mono hc, rfl⟩

theorem ClosureOk.upload {completed : List String} {closure : Closure}
    (h : ClosureOk p completed closure) (store : LocalStore) :
    ∀ t ∈ (closure.upload store).tasks, p.NodeOk completed t.id t.node := by
  rcases h with h | ⟨b, t, hok, rfl⟩
  · rw [h store]
    exact fun t ht => absurd ht List.not_mem_nil
  · intro u hu
    obtain rfl := List.mem_singleton.mp hu
    exact hok

/-- What a listener shows has the project. -/
theorem Ok.foldl_withOwnWrite (h : s.Ok p) (device : D) (shown : List ℕ) {r : Remote}
    (hr : p.In s.completed r.tasks.records) :
    p.In s.completed (shown.foldl (s.withOwnWrite device) r).tasks.records := by
  induction shown generalizing r with
  | nil => exact hr
  | cons k shown ih =>
    refine ih ?_
    unfold withOwnWrite
    split
    · rename_i owner closure hk
      split_ifs
      · exact hr.upsert ((h.waiting _ (List.mem_of_getElem? hk)).upload _)
      · exact hr
    · exact hr

/-- The parent is complete after an upload that completes it, and after one that does not open
it. -/
theorem ClosureOk.isComplete_upload {completed : List String} {closure : Closure}
    (h : ClosureOk p completed closure) {r : Remote} (store : LocalStore)
    (hw : closure.writesComplete p = true ∨
      p.IsComplete r.tasks.records ∧ closure.writesOpen p = false) :
    p.IsComplete (r.upsert (closure.upload store)).tasks.records := by
  rcases h with h | ⟨b, t, -, rfl⟩
  · have hsame : (r.upsert (closure.upload store)).tasks.records = r.tasks.records := by
      simp [Remote.upsert, Collection.upsertBatch, h store]
    rw [hsame]
    rcases hw with hw | hw
    · cases closure with
      | upsertTask b t => exact absurd (h store) (List.cons_ne_nil t [])
      | _ => cases hw
    · exact hw.1
  · have hlookup : taskWithId (r.upsert (Closure.upload store (.upsertTask b t))).tasks.records
        p.parent = if p.parent = t.id then some t else taskWithId r.tasks.records p.parent :=
      lookup_upsert r.tasks.records t p.parent
    unfold Project.IsComplete
    rw [hlookup]
    split_ifs with hid
    · refine ⟨t, rfl, ?_⟩
      rcases hw with hw | ⟨-, hw⟩
      · simpa [Closure.writesComplete, hid] using hw
      · simpa [Closure.writesOpen, hid] using hw
    · rcases hw with hw | ⟨hw, -⟩
      · exact absurd hw (by simp [Closure.writesComplete, Ne.symm hid])
      · exact hw

/-! ### Steps -/

/-- An operation or a delivery on one device. -/
theorem Ok.withStore (h : s.Ok p) (device : D) {store : LocalStore} {completed : List String}
    (reopened : Bool) (hc : s.completed ⊆ completed) (hin : p.In completed store.tasks)
    (hb : store.syncingBackend.isSome) {new : List Closure}
    (hspawned : store.spawned = (s.stores device).spawned ++ new)
    (hnew : ∀ closure ∈ new, ClosureOk p completed closure)
    (hsettled : p.subtasks ⊆ completed → reopened = false →
      p.subtasks ⊆ s.completed ∧ s.reopened = false ∨
        ∃ closure ∈ new, closure.writesComplete p = true) :
    Ok p { s.withStore device store with completed := completed, reopened := reopened } := by
  have hwaiting : (s.withStore device store).waiting = s.waiting ++ new.map (device, ·) := by
    simp [Devices.withStore, hspawned]
  refine ⟨fun d => ?_, fun d => ?_, h.remote.mono hc, fun r hr => (h.history r hr).mono hc,
    fun entry he => ?_, fun hall hre => ?_⟩
  · rcases eq_or_ne d device with rfl | hd
    · simpa [Devices.withStore] using hin
    · simpa [Devices.withStore, hd] using (h.stores d).mono hc
  · rcases eq_or_ne d device with rfl | hd
    · simpa [Devices.withStore] using hb
    · simpa [Devices.withStore, hd] using h.backend d
  · dsimp only at he
    rw [hwaiting] at he
    rcases List.mem_append.mp he with he | he
    · exact (h.waiting entry he).mono hc
    · obtain ⟨closure, hclosure, rfl⟩ := List.mem_map.mp he
      exact hnew closure hclosure
  · dsimp only
    rw [hwaiting]
    rcases hsettled hall hre with ⟨hall, hre⟩ | ⟨closure, hclosure, hwrites⟩
    · rcases h.settled hall hre with hremote | ⟨entry, he, hwrites⟩
      · exact Or.inl hremote
      · exact Or.inr ⟨entry, List.mem_append_left _ he, hwrites⟩
    · exact Or.inr ⟨(device, closure),
        List.mem_append_right _ (List.mem_map_of_mem hclosure), hwrites⟩

theorem closureOk_of_writes {completed : List String} {store : LocalStore}
    (hin : p.In completed store.tasks) {closure : Closure}
    (h : LocalStore.UploadsNoTask closure ∨ ∃ b, ∃ t ∈ store.tasks, closure = .upsertTask b t) :
    ClosureOk p completed closure := by
  rcases h with h | ⟨b, t, ht, rfl⟩
  · exact Or.inl h
  · exact Or.inr ⟨b, t, hin.nodeOk t ht, rfl⟩

/-- A device completes a subtask. -/
theorem ok_completeSubtask (h : s.Ok p) (now : Date) {device : D} {id : String}
    (hid : id ∈ p.subtasks)
    (hsees : p.subtasks ⊆ id :: s.completed → p.OthersComplete id (s.stores device).tasks) :
    Ok p { s.withStore device ((s.stores device).completeTask id now) with
      completed := id :: s.completed } := by
  have hin := h.stores device
  have hids := LocalStore.ids_completeTask (s := s.stores device) id now
  have hview := LocalStore.view_completeTask hin.distinct id now
  have hin' := hin.complete hid hids hview
  have hedits := (LocalStore.Edits.refl (s := s.stores device)).completeTask id now
  obtain ⟨new, hspawned, hnew, hchanged⟩ :=
    LocalStore.writesChanges_completeTask hin.distinct (h.backend device) id now
  refine h.withStore device s.reopened (List.subset_cons_self id s.completed) hin' ?_ hspawned
    (fun closure hc => closureOk_of_writes hin' (hnew closure hc)) fun hall hre => ?_
  · rw [hedits.keepsAccount.syncingBackend]
    exact h.backend device
  · by_cases hbefore : p.subtasks ⊆ s.completed
    · exact Or.inl ⟨hbefore, hre⟩
    · -- the parent was open in the list, so its completion is a change, and is written
      obtain ⟨t, ht, hcomplete⟩ := hin.isComplete_complete hid hids hview (hsees hall)
      have htid : t.id = p.parent := key_of_lookup ht
      have hold : t ∉ (s.stores device).tasks := by
        intro hmem
        exact hbefore ((hin.nodeOk t hmem).parent htid
          (Option.isSome_iff_ne_none.mpr hcomplete))
      obtain ⟨b, hb⟩ := hchanged t (mem_of_lookup ht) hold
      exact Or.inr ⟨_, hb, by simp [Closure.writesComplete, htid, hcomplete]⟩

/-- A device reopens the parent by hand. -/
theorem ok_reopenParent (h : s.Ok p) (now : Date) (device : D) :
    Ok p { s.withStore device ((s.stores device).restoreTask p.parent now) with
      reopened := s.reopened || p.subtasks ⊆ s.completed } := by
  have hin := h.stores device
  have hin' := hin.reopen (LocalStore.ids_restoreTask p.parent now)
    (LocalStore.view_restoreTask hin.distinct p.parent now)
  have hedits := (LocalStore.Edits.refl (s := s.stores device)).restoreTask p.parent now
  obtain ⟨new, hspawned, hnew, -⟩ :=
    LocalStore.writesChanges_restoreTask hin.distinct (h.backend device) p.parent now
  refine h.withStore device _ (List.Subset.refl s.completed) hin' ?_ hspawned
    (fun closure hc => closureOk_of_writes hin' (hnew closure hc)) fun hall hre => ?_
  · rw [hedits.keepsAccount.syncingBackend]
    exact h.backend device
  · have hnot : s.reopened = false ∧ ¬p.subtasks ⊆ s.completed := by simpa using hre
    exact absurd hall hnot.2

/-- A delivery never traps. -/
theorem exists_ok_deliver (h : s.Ok p) (device : D) {tasks : List Task}
    (htasks : p.In s.completed tasks) :
    ∃ s', ((s.stores device).applyRemoteTasks tasks).map (s.withStore device) = some s' ∧
      s'.Ok p := by
  obtain ⟨store, hstore, htasks'⟩ :=
    LocalStore.applyRemoteTasks_of_distinctIds (s := s.stores device) htasks.distinct
  have haccount := (LocalStore.keepsMetadata_applyRemoteTasks hstore).toSameAccount
  obtain ⟨new, hspawned, hnew⟩ := haccount.spawned
  refine ⟨s.withStore device store, by rw [hstore, Option.map_some], ?_⟩
  refine h.withStore device s.reopened (List.Subset.refl s.completed)
    (htasks' ▸ htasks.sanitizedTasks) ?_ hspawned (fun closure hc => Or.inl ?_)
    fun hall hre => Or.inl ⟨hall, hre⟩
  · obtain ⟨s₁, -, rfl⟩ := Option.map_eq_some_iff.mp hstore
    have hbackend := haccount.backend
    have hs := h.backend device
    unfold LocalStore.syncingBackend at hs ⊢
    rw [hbackend]
    exact hs
  · obtain ⟨tasks, rfl⟩ := hnew closure hc
    exact fun _ => rfl

/-- A closure uploads its tasks. -/
theorem ok_runClosure (h : s.Ok p) {k : ℕ} {device : D} {closure : Closure}
    (hk : s.waiting[k]? = some (device, closure))
    (hlast : p.subtasks ⊆ s.completed → s.reopened = false → closure.writesOpen p = true →
      ∃ later ∈ s.waiting.eraseIdx k, later.2.writesComplete p = true) :
    Ok p { s with
      remote := s.remote.upsert (closure.upload (s.stores device))
      history := s.history ++ [s.remote.upsert (closure.upload (s.stores device))]
      waiting := s.waiting.eraseIdx k } := by
  have hclosure := h.waiting _ (List.mem_of_getElem? hk)
  have hremote := h.remote.upsert (hclosure.upload (s.stores device))
  refine ⟨h.stores, h.backend, hremote, fun r hr => ?_,
    fun entry he => h.waiting entry (List.mem_of_mem_eraseIdx he), fun hall hre => ?_⟩
  · rcases List.mem_append.mp hr with hr | hr
    · exact h.history r hr
    · obtain rfl := List.mem_singleton.mp hr
      exact hremote
  · by_cases hopen : closure.writesOpen p = true
    · exact Or.inr (hlast hall hre hopen)
    · rw [Bool.not_eq_true] at hopen
      rcases h.settled hall hre with hcomplete | ⟨entry, he, hwrites⟩
      · exact Or.inl (hclosure.isComplete_upload _ (Or.inr ⟨hcomplete, hopen⟩))
      · obtain ⟨j, hj⟩ := List.getElem?_of_mem he
        rcases eq_or_ne j k with rfl | hjk
        · obtain rfl := Option.some_inj.mp (hk.symm.trans hj)
          exact Or.inl (hclosure.isComplete_upload _ (Or.inl hwrites))
        · exact Or.inr ⟨entry, List.mem_eraseIdx_iff_getElem?.mpr ⟨j, hjk, hj⟩, hwrites⟩

/-- A step that reaches the parent has a result and keeps the invariant. -/
theorem exists_step_ok {e : Date × ProjectStep D} (h : s.Ok p) (hl : Legal p e)
    (hg : ReachesParent p e s) : ∃ s', step p e s = some s' ∧ s'.Ok p := by
  obtain ⟨now, step⟩ := e
  cases step with
  | completeSubtask device id => exact ⟨_, rfl, ok_completeSubtask h now hl hg⟩
  | reopenParent device => exact ⟨_, rfl, ok_reopenParent h now device⟩
  | deliver device k shown =>
    unfold Devices.step
    dsimp only
    split
    · rename_i r hr
      exact exists_ok_deliver h device
        (h.foldl_withOwnWrite device shown (h.history r (List.mem_of_getElem? hr)))
    · exact ⟨s, rfl, h⟩
  | runClosure k =>
    unfold Devices.step
    dsimp only
    split
    · rename_i device closure hk
      exact ⟨_, rfl, ok_runClosure h hk fun hall hre => hg hall hre _ hk⟩
    · exact ⟨s, rfl, h⟩

/-- Once no write is on its way, the parent is complete. -/
theorem Ok.parentComplete (h : s.Ok p) : s.ParentComplete p := by
  intro hall hwaiting hre
  have hremote : p.IsComplete s.remote.tasks.records := by
    rcases h.settled hall hre with hremote | ⟨entry, he, -⟩
    · exact hremote
    · rw [hwaiting] at he
      cases he
  refine ⟨hremote, fun device => ?_⟩
  obtain ⟨store, hstore, htasks⟩ :=
    LocalStore.applyRemoteTasks_of_distinctIds (s := s.stores device) h.remote.distinct
  obtain ⟨t, ht, hcomplete⟩ := hremote
  refine ⟨store, hstore, t.sanitized (lookup Task.id s.remote.tasks.records), ?_, ?_⟩
  · rw [htasks, taskWithId, lookup_map (Task.sanitized_id _), ← taskWithId, ht, Option.map_some]
  · rwa [Task.completedAt_sanitized]

/-- In every run whose steps all reach the parent, the parent ends complete everywhere. -/
theorem parentComplete_run (h : s.Start p) {steps : List (Date × ProjectStep D)}
    (hg : Runs.Guarded (step p) (fun e s => Legal p e ∧ ReachesParent p e s) steps s) :
    ∃ t, Runs.run (step p) steps s = some t ∧ t.ParentComplete p := by
  have hstep : ∀ e (s s' : Devices D), s.Ok p → Legal p e ∧ ReachesParent p e s →
      step p e s = some s' → s'.Ok p := by
    intro e s s' h hg hs
    obtain ⟨s₁, hs₁, hok⟩ := exists_step_ok h hg.1 hg.2
    rw [hs, Option.some_inj] at hs₁
    exact hs₁ ▸ hok
  obtain ⟨t, ht⟩ := Runs.exists_run_of_guarded hstep
    (fun e s h hg => (exists_step_ok h hg.1 hg.2).imp fun _ => And.left) h.ok hg
  exact ⟨t, ht, (Runs.invariant_of_guarded hstep h.ok hg ht).parentComplete⟩

/-- A store with the sample project. -/
def sampleStore : LocalStore :=
  { backend := some ⟨"user"⟩
    tasks := [.sampleParent, { Task.sampleSubtask with id := "first" },
      { Task.sampleSubtask with id := "second" }] }

/-- Two devices with the sample project. -/
def sample : Devices Bool :=
  let remote : Remote := { tasks := { records := sampleStore.tasks } }
  { stores := fun _ => sampleStore
    remote := remote
    history := [remote]
    waiting := []
    completed := []
    reopened := false }

/-- Two devices with the same project. -/
theorem start_sample : sample.Start .sample := by
  have hin : Project.sample.In [] sampleStore.tasks := by
    refine ⟨by decide, by decide, by decide, ?_⟩
    have hall : ∀ t ∈ sampleStore.tasks, (t.id = "parent" → t.parentTaskId = none) ∧
        (t.parentTaskId = some "parent" ↔ t.id ∈ ["first", "second"]) ∧
        t.completedAt = none := by decide
    intro t ht
    obtain ⟨hroot, hlinked, hopen⟩ := hall t ht
    exact ⟨hroot, hlinked, by simp [Task.node, hopen], by simp [Task.node, hopen]⟩
  refine ⟨fun _ => hin, fun _ => rfl, hin, fun r hr => ?_, rfl, by decide⟩
  obtain rfl := List.mem_singleton.mp hr
  exact hin

/-- The second device is shown the first subtask complete, and completes the other. -/
theorem parentComplete_run_sample : ∃ t, Runs.run (step .sample)
    [(.seconds 1, .completeSubtask true "first"), (.seconds 2, .runClosure 0),
      (.seconds 3, .deliver false 1 []), (.seconds 4, .completeSubtask false "second")]
    sample = some t ∧ t.ParentComplete .sample := by
  have hfirst : "first" ∈ Project.sample.subtasks := by decide
  have hsecond : "second" ∈ Project.sample.subtasks := by decide
  refine parentComplete_run start_sample ?_
  refine ⟨⟨hfirst, fun hall => absurd hall (by decide)⟩, fun s₁ h₁ => ?_⟩
  obtain rfl := Option.some_inj.mp h₁
  refine ⟨⟨trivial, fun hall => absurd hall (by decide)⟩, fun s₂ h₂ => ?_⟩
  obtain rfl := Option.some_inj.mp h₂
  refine ⟨⟨trivial, trivial⟩, fun s₃ h₃ => ?_⟩
  obtain rfl := Option.some_inj.mp h₃
  refine ⟨⟨hsecond, fun _ => ?_⟩, fun _ _ => trivial⟩
  decide

/-- Each of two devices completes one of the subtasks and has not seen the other completed. -/
theorem not_parentComplete_run : ¬∀ (p : Project) (s : Devices Bool)
    (steps : List (Date × ProjectStep Bool)), s.Start p →
    Runs.Guarded (step p) (fun e _ => Legal p e) steps s →
    ∃ t, Runs.run (step p) steps s = some t ∧ t.ParentComplete p := by
  intro h
  have hfirst : "first" ∈ Project.sample.subtasks := by decide
  have hsecond : "second" ∈ Project.sample.subtasks := by decide
  obtain ⟨t, ht, hcomplete⟩ := h .sample sample
    [(.seconds 1, .completeSubtask true "first"), (.seconds 1, .completeSubtask false "second"),
      (.seconds 2, .runClosure 0), (.seconds 2, .runClosure 0)] start_sample
    ⟨hfirst, fun _ _ => ⟨hsecond, fun _ _ => ⟨trivial, fun _ _ => ⟨trivial,
      fun _ _ => trivial⟩⟩⟩⟩
  obtain rfl := Option.some_inj.mp ht
  obtain ⟨⟨parent, hparent, hdone⟩, -⟩ := hcomplete (by decide) rfl rfl
  obtain rfl := Option.some_inj.mp hparent
  exact hdone rfl

end Devices

end Notelayer
