import Notelayer.Library.MergeDocument
import Notelayer.Hierarchy
import Notelayer.SessionIds

/-!
# Closures that run after an operation

An operation spawns closures, which start in the order they were created and write to the
backend. `SyncedSession` is a session with the stored version of every task. Its steps
are an operation, the start of the oldest closure, and the second write of a category
deletion, which comes once the first has returned.

The closure `upsertTaskAt` reads the list at an index computed when it was created.
`UploadsOk` says that every such closure still waiting has the index of its parent.
Operations that write tasks in place or append keep this. Deletions and `reorderTasks`
move tasks, and `deleteParentTask` deletes the parent itself after it has cleared the
override. `Operation.KeepsUploads` excludes that, and with it every closure finds its
parent (`runsOnItsParent_run`).
-/

namespace Notelayer

open KeyedList MergeDocument

/-! ## Steps -/

/-- A batch of writes, the last one for an id first. -/
def putAll (tasks : List Task) : Data String Task :=
  fun id => (taskWithId tasks.reverse id).map .set

/-- The writes a closure starts with, of the tasks collection. `tasks` is the list of the
store when it runs. -/
def Closure.data (tasks : List Task) : Closure → Data String Task
  | upsertTask _ task => putAll [task]
  | upsertTasks _ tasks => putAll tasks
  | upsertStoreTasks _ => putAll tasks
  | upsertTaskAt _ parentIndex _ => putAll tasks[parentIndex]?.toList
  | deleteTask _ id => fun x => if x = id then some .delete else none
  | _ => fun _ => none

/-- Whether the array access of a closure is within the list. -/
def Closure.inRange (tasks : List Task) : Closure → Bool
  | upsertTaskAt _ parentIndex _ => parentIndex < tasks.length
  | _ => true

/-- The tasks a closure writes once its first write has returned. -/
def Closure.secondWrite : Closure → Option (List Task)
  | deleteCategory _ _ updatedTasks => if updatedTasks.isEmpty then none else some updatedTasks
  | _ => none

/-- A session, the stored versions of its tasks, and the second writes that are due. -/
structure SyncedSession where
  session : Session
  remote : Document String Task
  secondWrites : List (List Task) := []

/-- A step of the store with its closures. -/
inductive SyncStep where
  | operation (e : Date × Operation)
  /-- The oldest closure runs. -/
  | runClosure
  /-- The first write of a closure has returned, and the `k`-th second write runs. -/
  | secondWrite (k : ℕ)

namespace SyncedSession

variable (u : SyncedSession)

/-- The tasks of the store. -/
def tasks : List Task :=
  u.session.store.tasks

/-- The closures that have not run, oldest first. -/
def waiting : List Closure :=
  u.session.store.spawned

/-- With another session. -/
def withSession (session : Session) : SyncedSession :=
  { u with session := session }

/-- With other closures waiting. -/
def withWaiting (closures : List Closure) : SyncedSession :=
  u.withSession (u.session.withStore { u.session.store with spawned := closures })

/-- Run the oldest closure. -/
def runClosure : Option SyncedSession :=
  match u.waiting with
  | [] => some u
  | closure :: waiting =>
    if closure.inRange u.tasks then
      some { u.withWaiting waiting with
        remote := merge u.remote (closure.data u.tasks)
        secondWrites := u.secondWrites ++ closure.secondWrite.toList }
    else none

/-- Run the `k`-th of the second writes that are due. -/
def runSecondWrite (k : ℕ) : SyncedSession :=
  match u.secondWrites[k]? with
  | none => u
  | some tasks => { u with
      remote := merge u.remote (putAll tasks)
      secondWrites := u.secondWrites.eraseIdx k }

/-- One step. `none` : a trap, or nothing is there to run. -/
def step (l : SyncStep) (u : SyncedSession) : Option SyncedSession :=
  match l with
  | .operation e => (Session.step e u.session).map u.withSession
  | .runClosure => u.runClosure
  | .secondWrite k => some (u.runSecondWrite k)

/-- Nothing waits, or the oldest closure runs if its array access is within the list. -/
theorem runClosure_cases : (u.waiting = [] ∧ u.runClosure = some u) ∨
    ∃ closure waiting, u.waiting = closure :: waiting ∧ u.runClosure =
      if closure.inRange u.tasks then
        some { u.withWaiting waiting with
          remote := merge u.remote (closure.data u.tasks)
          secondWrites := u.secondWrites ++ closure.secondWrite.toList }
      else none := by
  unfold runClosure
  split
  · rename_i hnil
    exact Or.inl ⟨hnil, rfl⟩
  · rename_i closure waiting hcons
    exact Or.inr ⟨closure, waiting, hcons, rfl⟩

@[simp] theorem session_runSecondWrite (k : ℕ) : (u.runSecondWrite k).session = u.session := by
  unfold runSecondWrite
  split <;> rfl

end SyncedSession

/-! ## Indices of waiting uploads -/

/-- Every upload of a reopened parent that waits has the parent's index. -/
def LocalStore.UploadsOk (s : LocalStore) : Prop :=
  ∀ backend index parentId, Closure.upsertTaskAt backend index parentId ∈ s.spawned →
    (s.tasks.map Task.id)[index]? = some parentId

/-- The step runs no upload of a reopened parent, or one that finds its parent. -/
def RunsOnItsParent (l : SyncStep) (u : SyncedSession) : Prop :=
  match l with
  | .runClosure => ∀ backend index parentId,
      u.waiting.head? = some (.upsertTaskAt backend index parentId) →
      ∃ parent, u.tasks[index]? = some parent ∧ parent.id = parentId
  | _ => True

namespace Operation

/-- The operation deletes no task at or before the index, and does not reorder the parent away
from it. -/
def LeavesInPlace (op : Operation) (u : Session) (index : ℕ) (parentId : String) : Prop :=
  let upTo := (u.store.tasks.map Task.id).take (index + 1)
  match op with
  | deleteTask id => id ∉ upTo
  | deleteTaskUndoably id => id ∉ upTo
  | redo => ∀ task ∈ u.redoStack.head?, task.id ∉ upTo
  | deleteParentTask id strategy => id ∉ upTo ∧ (strategy = .deleteSubtasks →
      ∀ task ∈ u.store.tasks, task.parentTaskId = some id → task.id ∉ upTo)
  | reorderTasks orderedIds =>
      (LocalStore.reorderedIds (u.store.tasks.map Task.id) orderedIds)[index]? = some parentId
  | _ => True

/-- `deleteParentTask` is not called on a reopened parent with one subtask, and no operation
moves the parent of an upload that waits. -/
def KeepsUploads (e : Date × Operation) (u : Session) : Prop :=
  (∀ id strategy, e.2 = deleteParentTask id strategy → u.store.subtaskCount id = 1 →
    ∀ parent ∈ topLevelTaskWithId u.store.tasks id, parent.parentManualReopenAt = none) ∧
  ∀ backend index parentId, Closure.upsertTaskAt backend index parentId ∈ u.store.spawned →
    e.2.LeavesInPlace u index parentId

end Operation

namespace LocalStore

variable {s s' : LocalStore}

/-! ### Steps within an operation -/

theorem mem_spawned_spawnSync {c : Closure} {f : FirestoreBackend → Closure} :
    c ∈ (s.spawnSync f).spawned ↔ c ∈ s.spawned ∨ ∃ b, s.syncingBackend = some b ∧ f b = c := by
  rw [spawned_spawnSync, List.mem_append, Option.mem_toList, Option.map_eq_some_iff]

/-- Stores whose uploads were there before, at the same ids. -/
theorem UploadsOk.of_ids_eq (h : s.UploadsOk) (hids : s'.tasks.map Task.id = s.tasks.map Task.id)
    (hspawned : ∀ b i p, Closure.upsertTaskAt b i p ∈ s'.spawned →
      Closure.upsertTaskAt b i p ∈ s.spawned) : s'.UploadsOk :=
  fun b i p hmem => hids ▸ h b i p (hspawned b i p hmem)

/-- Saving and logging are not seen. -/
theorem uploadsOk_congr (htasks : s'.tasks = s.tasks) (hspawned : s'.spawned = s.spawned) :
    s'.UploadsOk ↔ s.UploadsOk := by
  unfold UploadsOk
  rw [htasks, hspawned]

@[simp] theorem uploadsOk_saveTasks : s.saveTasks.UploadsOk ↔ s.UploadsOk :=
  Iff.rfl

@[simp] theorem uploadsOk_logEvent (n : String) (ps : List (String × AnalyticsValue)) :
    (s.logEvent n ps).UploadsOk ↔ s.UploadsOk :=
  Iff.rfl

@[simp] theorem uploadsOk_logTaskCreatedAnalytics (t : Task) :
    (s.logTaskCreatedAnalytics t).UploadsOk ↔ s.UploadsOk :=
  uploadsOk_congr (by simp) (by simp)

@[simp] theorem uploadsOk_logTaskEditedAnalytics (t t' : Task) :
    (s.logTaskEditedAnalytics t t').UploadsOk ↔ s.UploadsOk :=
  uploadsOk_congr (by simp) (by simp)

@[simp] theorem uploadsOk_logTaskDeleted (t : Option Task) :
    (s.logTaskDeleted t).UploadsOk ↔ s.UploadsOk :=
  uploadsOk_congr (by simp) (by simp)

/-- A reconciliation spawns an upload of the parent at its index. -/
theorem UploadsOk.reconcileParentCompletion (h : s.UploadsOk) (parentId : String) (r : Bool)
    (now : Date) : (s.reconcileParentCompletion parentId r now).UploadsOk := by
  rcases s.reconcileParentCompletion_cases parentId r now with
    hs | ⟨index, old, new, c, hi, hid, -, hid', -, hc, hs⟩
  · rwa [hs]
  · have hids : ((s.setTask index new).saveTasks.spawnSync c).tasks.map Task.id =
        s.tasks.map Task.id := by
      rw [tasks_spawnSync, tasks_saveTasks, tasks_setTask]
      exact map_key_set hi (hid'.trans hid.symm)
    rw [hs]
    intro b i p hmem
    rw [hids]
    rcases mem_spawned_spawnSync.mp hmem with hmem | ⟨b', -, hb⟩
    · exact h b i p hmem
    · rcases hc with rfl | ⟨rfl, -⟩
      · cases hb
      · obtain ⟨-, rfl, rfl⟩ := Closure.upsertTaskAt.inj hb
        rw [List.getElem?_map, hi, Option.map_some, hid]

theorem UploadsOk.reconcileParent (h : s.UploadsOk) (p : Option String) (r : Bool) (now : Date) :
    (s.reconcileParent p r now).UploadsOk := by
  cases p with
  | none => exact h
  | some p => exact h.reconcileParentCompletion p r now

theorem UploadsOk.spawnSync (h : s.UploadsOk) {f : FirestoreBackend → Closure}
    (hf : ∀ b b' i p, f b ≠ .upsertTaskAt b' i p) : (s.spawnSync f).UploadsOk := by
  refine h.of_ids_eq (by simp) fun b i p hmem => ?_
  rcases mem_spawned_spawnSync.mp hmem with hmem | ⟨b', -, hb⟩
  · exact hmem
  · exact absurd hb (hf b' b i p)

theorem upload_spawnCancelReminder {n : Option String} {b : FirestoreBackend} {i : ℕ}
    {p : String} : Closure.upsertTaskAt b i p ∈ (s.spawnCancelReminder n).spawned ↔
      Closure.upsertTaskAt b i p ∈ s.spawned := by
  rw [spawned_spawnCancelReminder]
  cases n <;> simp

theorem UploadsOk.spawnCancelReminder (h : s.UploadsOk) (notificationId : Option String) :
    (s.spawnCancelReminder notificationId).UploadsOk := by
  exact h.of_ids_eq (by simp) fun b i p hmem => upload_spawnCancelReminder.mp hmem

theorem UploadsOk.setTask (h : s.UploadsOk) {index : ℕ} {old new : Task}
    (hi : s.tasks[index]? = some old) (hid : new.id = old.id) : (s.setTask index new).UploadsOk :=
  h.of_ids_eq (map_key_set hi hid) fun _ _ _ hmem => hmem

/-- Appended tasks leave every index as it was. -/
theorem UploadsOk.append (h : s.UploadsOk) (new : List Task) :
    (s.withTasks (s.tasks ++ new)).UploadsOk := by
  intro b i p hmem
  have hi := h b i p hmem
  rw [tasks_withTasks, List.map_append,
    List.getElem?_append_left (List.getElem?_eq_some_iff.mp hi).1]
  exact hi

/-! ### Operations that leave every task in place -/

theorem UploadsOk.addTask (h : s.UploadsOk) (task : Task) (now : Date) :
    (s.addTask task now).1.UploadsOk := by
  unfold LocalStore.addTask
  refine UploadsOk.spawnSync ?_ (by rintro _ _ _ _ ⟨⟩)
  rw [uploadsOk_logTaskCreatedAnalytics, uploadsOk_saveTasks]
  exact (h.append _).reconcileParent _ true now

theorem UploadsOk.addSubtask (h : s.UploadsOk) (parentId title : String) (priority : Priority)
    (id : String) (now : Date) : (s.addSubtask parentId title priority id now).1.UploadsOk := by
  rcases s.addSubtask_cases parentId title priority id now with hs | ⟨task, -, hs⟩
  · rwa [hs]
  · rw [hs]
    exact h.addTask task now

/-- A new parent spawns uploads of tasks at their index. -/
theorem UploadsOk.setParent (h : s.UploadsOk) (taskId : String) (parentId : Option String)
    (now : Date) : (s.setParent taskId parentId now).UploadsOk := by
  unfold LocalStore.setParent
  split
  · exact h
  · rename_i index task hentry
    split_ifs
    · exact h
    · have hset := h.setTask (firstEntry_eq_some hentry).1 (id_movedTask s task parentId now)
      refine UploadsOk.spawnSync ?_ (by rintro _ _ _ _ ⟨⟩)
      exact ((uploadsOk_saveTasks.mpr hset).reconcileParent _ true now).reconcileParent _ true now

theorem UploadsOk.updateTask (h : s.UploadsOk) (id : String) (updates : TaskUpdate) (now : Date) :
    (s.updateTask id updates now).UploadsOk := by
  unfold LocalStore.updateTask
  split
  · exact h
  · rename_i index oldTask hentry
    refine UploadsOk.spawnSync ?_ (by rintro _ _ _ _ ⟨⟩)
    rw [uploadsOk_logTaskEditedAnalytics, uploadsOk_saveTasks]
    exact h.setTask (firstEntry_eq_some hentry).1 (updates.applied_id oldTask now)

theorem UploadsOk.completeTask (h : s.UploadsOk) (id : String) (now : Date) :
    (s.completeTask id now).UploadsOk := by
  unfold LocalStore.completeTask
  split
  · exact h
  · rename_i index oldTask hentry
    have hset := h.setTask (firstEntry_eq_some hentry).1 (oldTask.completed_id now)
    refine UploadsOk.reconcileParent (UploadsOk.spawnSync ?_ (by rintro _ _ _ _ ⟨⟩)) _ false now
    refine UploadsOk.spawnCancelReminder ?_ oldTask.reminderNotificationId
    rwa [uploadsOk_logEvent, uploadsOk_saveTasks]

/-- A restoration spawns an upload of a task at its index. -/
theorem UploadsOk.restoreTask (h : s.UploadsOk) (id : String) (now : Date) :
    (s.restoreTask id now).UploadsOk := by
  unfold LocalStore.restoreTask
  split
  · exact h
  · rename_i index oldTask hentry
    have hi := (firstEntry_eq_some hentry).1
    dsimp only
    have hcases :=
      s.restoreReminder_cases oldTask (oldTask.reopened (s.subtaskCount oldTask.id) now) now
    rcases hcases with
      ⟨c, date, cs, n, rfl, hr⟩ | ⟨date, n, hr⟩
    · rw [hr]
      have hspawn : (s.spawn (.scheduleReminder
          (oldTask.reopened (s.subtaskCount oldTask.id) now) date cs n)).UploadsOk := by
        refine h.of_ids_eq rfl fun b i p hmem => ?_
        simpa using hmem
      refine UploadsOk.reconcileParent (UploadsOk.spawnSync ?_ (by rintro _ _ _ _ ⟨⟩)) _ true now
      rw [uploadsOk_logEvent, uploadsOk_saveTasks]
      exact hspawn.setTask hi (oldTask.reopened_id _ now)
    · rw [hr]
      refine UploadsOk.reconcileParent (UploadsOk.spawnSync ?_ (by rintro _ _ _ _ ⟨⟩)) _ true now
      rw [uploadsOk_logEvent, uploadsOk_saveTasks]
      exact h.setTask hi (oldTask.reopened_id _ now)

theorem UploadsOk.deleteCategory (h : s.UploadsOk) (id : String) (replacementId : Option String)
    (now : Date) : (s.deleteCategory id replacementId now).UploadsOk := by
  refine h.of_ids_eq (ids_deleteCategory id replacementId now) fun b i p hmem => ?_
  rw [spawned_deleteCategory, List.mem_append, Option.mem_toList, Option.map_eq_some_iff] at hmem
  rcases hmem with hmem | ⟨b', -, ⟨⟩⟩
  exact hmem

/-- An import spawns uploads of the imported tasks. -/
theorem UploadsOk.applySharedImports (h : s.UploadsOk) (ns : List Note) (ts : List Task)
    (now : Date) : (s.applySharedImports ns ts now).UploadsOk := by
  unfold LocalStore.applySharedImports
  have hnotes : (if ns.isEmpty then s else s.importNotes ns).UploadsOk := by
    split_ifs
    · exact h
    · unfold LocalStore.importNotes
      refine UploadsOk.spawnSync ?_ (by rintro _ _ _ _ ⟨⟩)
      exact h
  dsimp only
  generalize (if ns.isEmpty then s else s.importNotes ns) = s₁ at hnotes
  split_ifs
  · exact hnotes
  · unfold LocalStore.importTasks
    refine UploadsOk.spawnSync ?_ (by rintro _ _ _ _ ⟨⟩)
    rw [foldl_logTaskCreatedAnalytics _ fun s t => propext (uploadsOk_logTaskCreatedAnalytics t),
      uploadsOk_saveTasks]
    exact hnotes.append _

/-! ### Operations that move tasks -/

theorem filter_take {A : Type} {l : List A} {p : A → Bool} {i : ℕ} (hi : i < l.length)
    (hp : ∀ x ∈ l.take (i + 1), p x = true) : (l.filter p).take (i + 1) = l.take (i + 1) := by
  have hlen : (l.take (i + 1)).length = i + 1 := by simp; omega
  conv_lhs => rw [← List.take_append_drop (i + 1) l, List.filter_append, List.filter_eq_self.mpr hp]
  rw [List.take_append_of_le_length (by omega), List.take_of_length_le (by omega)]

/-- What stands before everything a filter removes keeps its index. -/
theorem getElem?_filter {A : Type} {l : List A} {p : A → Bool} {i : ℕ} {a : A}
    (hi : l[i]? = some a) (hp : ∀ x ∈ l.take (i + 1), p x = true) : (l.filter p)[i]? = some a := by
  have hlt := (List.getElem?_eq_some_iff.mp hi).1
  rw [← List.getElem?_take_of_lt (show i < i + 1 by omega), filter_take hlt hp,
    List.getElem?_take_of_lt (by omega), hi]

/-- Stores with the same uploads, from whose list only tasks after them are gone. -/
theorem UploadsOk.of_filter (h : s.UploadsOk) {keep : String → Bool}
    (hids : s'.tasks.map Task.id = (s.tasks.map Task.id).filter keep)
    (hspawned : ∀ b i p, Closure.upsertTaskAt b i p ∈ s'.spawned →
      Closure.upsertTaskAt b i p ∈ s.spawned)
    (hkeep : ∀ b i p, Closure.upsertTaskAt b i p ∈ s.spawned →
      ∀ x ∈ (s.tasks.map Task.id).take (i + 1), keep x = true) : s'.UploadsOk := by
  intro b i p hmem
  rw [hids]
  exact getElem?_filter (h b i p (hspawned b i p hmem)) (hkeep b i p (hspawned b i p hmem))

/-- A delete leaves what waits alone if the task deleted comes after it. -/
theorem UploadsOk.deleteTask (h : s.UploadsOk) {id : String}
    (hid : ∀ b i p, Closure.upsertTaskAt b i p ∈ s.spawned →
      id ∉ (s.tasks.map Task.id).take (i + 1))
    (now : Date) : (s.deleteTask id now).UploadsOk := by
  unfold LocalStore.deleteTask
  refine UploadsOk.reconcileParent (UploadsOk.spawnSync (UploadsOk.spawnCancelReminder ?_ _)
    (by rintro _ _ _ _ ⟨⟩)) _ true now
  rw [uploadsOk_logTaskDeleted, uploadsOk_saveTasks]
  refine h.of_filter (map_key_remove _ _) (fun _ _ _ hmem => hmem) fun b i p hmem x hx => ?_
  rw [decide_eq_true_iff]
  rintro rfl
  exact hid b i p hmem hx

/-- An upload that a reconcile adds is of a parent with an override and without subtasks. -/
theorem upload_of_reconcileParent (hd : DistinctIds s.tasks) {q : Option String} {r : Bool}
    {now : Date} {b : FirestoreBackend} {i : ℕ} {p : String}
    (hmem : Closure.upsertTaskAt b i p ∈ (s.reconcileParent q r now).spawned) :
    Closure.upsertTaskAt b i p ∈ s.spawned ∨ ∃ parentId, q = some parentId ∧
      (∃ n, view s.tasks parentId = some n ∧ n.parent = none ∧ n.reopened = true) ∧
        ¬Forest.HasChild (view s.tasks) parentId := by
  cases q with
  | none => exact Or.inl hmem
  | some parentId =>
    rcases s.reconcileParentCompletion_cases parentId r now with
      hs | ⟨index, old, new, c, hi, rfl, hroot, -, -, hc, hs⟩
    · exact Or.inl (by rwa [LocalStore.reconcileParent, hs] at hmem)
    · rw [LocalStore.reconcileParent, hs] at hmem
      rcases mem_spawned_spawnSync.mp hmem with hmem | ⟨b', -, hb⟩
      · exact Or.inl hmem
      · rcases hc with rfl | ⟨rfl, hopen, hsub⟩
        · cases hb
        · refine Or.inr ⟨old.id, rfl, ⟨old.node, view_of_mem hd (List.mem_of_getElem? hi), hroot,
            Option.isSome_iff_ne_none.mpr hopen⟩, ?_⟩
          rwa [← hasSubtasks_iff hd]

/-! ### Deleting a parent -/

/-- `s'` is `s` after `k`, a child of `p`, is deleted or detached : `p` has no override any
more, and an upload is added only if it had one and `k` was its last child. -/
structure LosesChild (s : LocalStore) (k p : String) (s' : LocalStore) : Prop where
  distinctIds : DistinctIds s'.tasks
  isChild : ∀ c, Forest.IsChild (view s'.tasks) c p ↔ c ≠ k ∧ Forest.IsChild (view s.tasks) c p
  closed : ∀ n, view s'.tasks p = some n → n.parent = none → n.reopened = false
  upload : ∀ b i q, Closure.upsertTaskAt b i q ∈ s'.spawned →
    Closure.upsertTaskAt b i q ∈ s.spawned ∨
    (∃ n, view s.tasks p = some n ∧ n.parent = none ∧ n.reopened = true) ∧
      ∀ c, Forest.IsChild (view s.tasks) c p → c = k

/-- A deletion takes a subtask from its parent. -/
theorem losesChild_deleteTask (hd : DistinctIds s.tasks) {k p : String}
    (hk : Forest.IsChild (view s.tasks) k p) (hkp : k ≠ p) (now : Date) :
    LosesChild s k p (s.deleteTask k now) := by
  have hview := view_deleteTask hd k now
  have hparent := Forest.parentOf_eq_some_iff.mpr hk
  refine ⟨distinctIds_deleteTask hd k now, fun c => ?_, fun n hn hroot => ?_, ?_⟩
  · rw [hview, Forest.isChild_drop]
  · rw [hview, Forest.drop, hparent] at hn
    exact Forest.reopened_of_reconcile hn hroot
  · intro b i q hmem
    unfold LocalStore.deleteTask at hmem
    dsimp only at hmem
    rw [← parentOf_view, hparent] at hmem
    have hremoved : DistinctIds (remove Task.id s.tasks k) := hd.remove k
    rcases upload_of_reconcileParent (by simpa using hremoved) hmem with
      hmem | ⟨p', hp, hopen, hchild⟩
    · left
      rcases mem_spawned_spawnSync.mp hmem with hmem | ⟨b', -, ⟨⟩⟩
      simpa using upload_spawnCancelReminder.mp hmem
    · right
      obtain rfl := Option.some_inj.mp hp
      simp only [tasks_spawnSync, tasks_spawnCancelReminder, tasks_logTaskDeleted, tasks_saveTasks,
        tasks_withTasks, view_remove] at hopen hchild
      rw [Function.update_of_ne hkp.symm] at hopen
      refine ⟨hopen, fun c hc => ?_⟩
      by_contra hck
      exact hchild ⟨c, Forest.isChild_update.mpr (Or.inr ⟨hck, hc⟩)⟩

/-- A subtask without a parent is one that its parent has lost. -/
theorem losesChild_setParent (hd : DistinctIds s.tasks) {k p : String}
    (hk : Forest.IsChild (view s.tasks) k p) (hkp : k ≠ p) (now : Date) :
    LosesChild s k p (s.setParent k none now) := by
  have hview := view_setParent hd k none now
  rw [if_neg (show ¬s.refusesParent k none = true from Bool.false_ne_true)] at hview
  obtain ⟨n, hn, hnp⟩ := hk
  refine ⟨distinctIds_congr (ids_setParent k none now) hd, fun c => ?_, fun m hm hroot => ?_, ?_⟩
  · rw [hview, Forest.isChild_reparent hn]
    simp
  · rw [hview, Forest.reparent] at hm
    simp only [hn, hnp] at hm
    exact Forest.reopened_of_reconcile hm hroot
  · intro b i q hmem
    unfold LocalStore.setParent at hmem
    split at hmem
    · exact Or.inl hmem
    · rename_i index task hentry
      obtain ⟨hi, rfl, htask⟩ := view_of_firstEntry hd hentry
      obtain rfl : task.node = n := by rw [htask] at hn; exact Option.some_inj.mp hn
      rw [if_neg (show ¬s.refusesParent task.id none = true from Bool.false_ne_true)] at hmem
      have hid := id_movedTask s task none now
      rcases mem_spawned_spawnSync.mp hmem with hmem | ⟨b', -, hb⟩
      · rcases upload_of_reconcileParent
            (s := (s.setTask index (s.movedTask task none now)).saveTasks)
            (distinctIds_set hd hi hid) hmem with hmem | ⟨p', hp, hopen, hchild⟩
        · exact Or.inl hmem
        · right
          obtain rfl : p' = p := Option.some_inj.mp (hp.symm.trans hnp)
          rw [tasks_saveTasks, tasks_setTask, view_set hd hi hid] at hopen hchild
          rw [Function.update_of_ne hkp.symm] at hopen
          refine ⟨hopen, fun c hc => ?_⟩
          by_contra hck
          exact hchild ⟨c, Forest.isChild_update.mpr (Or.inr ⟨hck, hc⟩)⟩
      · cases hb

/-- Once the parent has no override, losing more children adds no upload. -/
theorem upload_of_foldl {g : LocalStore → String → LocalStore} {p : String}
    (hg : ∀ s k, DistinctIds s.tasks → Forest.IsChild (view s.tasks) k p → k ≠ p →
      LosesChild s k p (g s k))
    {b : FirestoreBackend} {i : ℕ} {q : String} {ks : List String} (hd : DistinctIds s.tasks)
    (hks : ks.Nodup) (hchild : ∀ k ∈ ks, Forest.IsChild (view s.tasks) k p) (hp : p ∉ ks)
    (hopen : ∀ n, view s.tasks p = some n → n.parent = none → n.reopened = true →
      ∀ k, ∃ c, c ≠ k ∧ Forest.IsChild (view s.tasks) c p)
    (hmem : Closure.upsertTaskAt b i q ∈ (ks.foldl g s).spawned) :
    Closure.upsertTaskAt b i q ∈ s.spawned := by
  induction ks generalizing s with
  | nil => exact hmem
  | cons k ks ih =>
    rw [List.mem_cons, not_or] at hp
    have hloses := hg s k hd (hchild k List.mem_cons_self) (Ne.symm hp.1)
    obtain ⟨hk, hks⟩ := List.nodup_cons.mp hks
    have hmem' := ih hloses.distinctIds hks ?_ hp.2 ?_ hmem
    · rcases hloses.upload b i q hmem' with hmem' | ⟨⟨n, hn, hroot, hreopened⟩, hlast⟩
      · exact hmem'
      · obtain ⟨c, hck, hc⟩ := hopen n hn hroot hreopened k
        exact absurd (hlast c hc) hck
    · intro j hj
      refine (hloses.isChild j).mpr ⟨?_, hchild j (List.mem_cons_of_mem k hj)⟩
      rintro rfl
      exact hk hj
    · intro n hn hroot hreopened
      rw [hloses.closed n hn hroot] at hreopened
      cases hreopened

/-- A parent whose subtasks are not one has another subtask besides each. -/
theorem exists_ne_isChild (hd : DistinctIds s.tasks) {id : String}
    (hsub : s.hasSubtasks id = true) (hcount : s.subtaskCount id ≠ 1) (k : String) :
    ∃ c, c ≠ k ∧ Forest.IsChild (view s.tasks) c id := by
  by_contra hnot
  have hall : ∀ c ∈ s.childIds id, c = k := by
    intro c hc
    by_contra hck
    exact hnot ⟨c, hck, (mem_childIds hd).mp hc⟩
  have hreplicate := List.eq_replicate_of_mem hall
  have hnodup := nodup_childIds hd id
  rw [hreplicate, List.nodup_replicate] at hnodup
  have hlength : (s.childIds id).length = s.subtaskCount id := by
    rw [(s.perm_childIds id).length_eq, List.length_map, subtaskCount, List.countP_eq_length_filter]
  obtain ⟨c, hc⟩ := (hasSubtasks_iff hd).mp hsub
  have hpos := List.length_pos_of_mem ((mem_childIds hd).mpr hc)
  omega

/-- Deleting a parent leaves what waits alone if it and the subtasks deleted with it come
after, and if it is not a reopened parent with one subtask. -/
theorem UploadsOk.deleteParentTask (h : s.UploadsOk) (hd : DistinctIds s.tasks)
    (hloop : Forest.NoLoop (view s.tasks)) {id : String} {strategy : ParentTaskDeletionStrategy}
    (hopen : s.subtaskCount id = 1 →
      ∀ parent ∈ topLevelTaskWithId s.tasks id, parent.parentManualReopenAt = none)
    (hleaves : ∀ b i p, Closure.upsertTaskAt b i p ∈ s.spawned →
      id ∉ (s.tasks.map Task.id).take (i + 1) ∧ (strategy = .deleteSubtasks →
        ∀ task ∈ s.tasks, task.parentTaskId = some id →
          task.id ∉ (s.tasks.map Task.id).take (i + 1))) (now : Date) :
    (s.deleteParentTask id strategy now).UploadsOk := by
  unfold LocalStore.deleteParentTask
  split_ifs with hsub
  · have hchild : ∀ k ∈ s.childIds id, Forest.IsChild (view s.tasks) k id :=
      fun k hk => (mem_childIds hd).mp hk
    have hid : id ∉ s.childIds id := fun hmem => hloop id (hchild id hmem)
    have hothers : ∀ n, view s.tasks id = some n → n.parent = none → n.reopened = true →
        ∀ k, ∃ c, c ≠ k ∧ Forest.IsChild (view s.tasks) c id := by
      intro n hn hroot hreopened
      refine exists_ne_isChild hd hsub fun hone => ?_
      obtain ⟨t, ht, rfl, rfl⟩ := (view_eq_some_iff hd).mp hn
      cases htop : topLevelTaskWithId s.tasks t.id with
      | none => exact (topLevelTaskWithId_eq_none_iff hd).mp htop ⟨t.node, hn, hroot⟩
      | some parent =>
        obtain ⟨hmem, hpid, -⟩ := topLevelTaskWithId_eq_some htop
        obtain rfl : parent = t := List.inj_on_of_nodup_map hd hmem ht hpid
        simp [Task.node, hopen hone parent htop] at hreopened
    cases strategy with
    | deleteSubtasks =>
      have hmem : ∀ b i p, Closure.upsertTaskAt b i p ∈
          ((s.childIds id).foldl (fun s k => s.deleteTask k now) s).spawned →
          Closure.upsertTaskAt b i p ∈ s.spawned := fun b i p =>
        upload_of_foldl (fun s k hd hk hkp => losesChild_deleteTask hd hk hkp now) hd
          (nodup_childIds hd id) hchild hid hothers
      have hafter : ∀ b i p, Closure.upsertTaskAt b i p ∈ s.spawned →
          ∀ x ∈ (s.tasks.map Task.id).take (i + 1), decide (x ∉ s.childIds id) = true := by
        intro b i p hp x hx
        rw [decide_eq_true_iff]
        intro hxc
        obtain ⟨t, ht, rfl, hparent⟩ := (isChild_view_iff hd).mp (hchild x hxc)
        exact (hleaves b i p hp).2 rfl t ht hparent hx
      have hids := ids_foldl_deleteTask_eq (s := s) (s.childIds id) now
      refine UploadsOk.deleteTask (h.of_filter hids hmem hafter) (fun b i p hp => ?_) now
      have hold := hmem b i p hp
      have hlt := (List.getElem?_eq_some_iff.mp (h b i p hold)).1
      have htake := (congrArg (List.take (i + 1)) hids).trans (filter_take hlt (hafter b i p hold))
      have hnot := (hleaves b i p hold).1
      rw [← htake] at hnot
      exact hnot
    | detachSubtasks =>
      have hmem : ∀ b i p, Closure.upsertTaskAt b i p ∈
          ((s.childIds id).foldl (fun s k => s.setParent k none now) s).spawned →
          Closure.upsertTaskAt b i p ∈ s.spawned := fun b i p =>
        upload_of_foldl (fun s k hd hk hkp => losesChild_setParent hd hk hkp now) hd
          (nodup_childIds hd id) hchild hid hothers
      have hids := ids_foldl_setParent (s := s) (s.childIds id) now
      refine UploadsOk.deleteTask (h.of_ids_eq hids hmem) (fun b i p hp => ?_) now
      have hnot := (hleaves b i p (hmem b i p hp)).1
      rw [← hids] at hnot
      exact hnot
  · exact h.deleteTask (fun b i p hp => (hleaves b i p hp).1) now

theorem uploadsOk_reorderTasks {orderedIds : List String} {now : Date}
    (hs : s.reorderTasks orderedIds now = some s')
    (hleaves : ∀ b i p, Closure.upsertTaskAt b i p ∈ s.spawned →
      (reorderedIds (s.tasks.map Task.id) orderedIds)[i]? = some p) : s'.UploadsOk := by
  obtain ⟨hids, hspawned, -⟩ := reorderTasks_eq_some hs
  intro b i p hmem
  rw [hspawned, List.mem_append, Option.mem_toList, Option.map_eq_some_iff] at hmem
  rw [hids]
  rcases hmem with hmem | ⟨b', -, ⟨⟩⟩
  exact hleaves b i p hmem

end LocalStore

/-! ## Runs -/

/-- What holds between the steps : identifiers are kept apart, no task is its own parent, and
the waiting uploads have their parents' indices. -/
structure Session.Waiting (u : Session) : Prop where
  idsOk : u.IdsOk
  noLoop : Forest.NoLoop (view u.store.tasks)
  uploadsOk : u.store.UploadsOk

namespace LocalStore

variable {s : LocalStore}

theorem noLoop_addTask (hd : DistinctIds s.tasks) (hloop : Forest.NoLoop (view s.tasks))
    {task : Task} (hnew : task.id ∉ s.tasks.map Task.id) (now : Date) :
    Forest.NoLoop (view (s.addTask task now).1.tasks) := by
  rw [view_addTask hd hnew]
  refine hloop.put (fun hp => hnew ?_) true
  exact mem_ids_of_isRoot (isRoot_of_attached hd hp)

theorem noLoop_deleteTask (hd : DistinctIds s.tasks) (hloop : Forest.NoLoop (view s.tasks))
    (id : String) (now : Date) : Forest.NoLoop (view (s.deleteTask id now).tasks) := by
  rw [view_deleteTask hd]
  exact hloop.drop id

theorem noLoop_deleteParentTask (hd : DistinctIds s.tasks) (hloop : Forest.NoLoop (view s.tasks))
    (id : String) (strategy : ParentTaskDeletionStrategy) (now : Date) :
    Forest.NoLoop (view (s.deleteParentTask id strategy now).tasks) := by
  rw [view_deleteParentTask hd]
  cases strategy with
  | deleteSubtasks => exact (hloop.dropAll _).drop id
  | detachSubtasks => exact (hloop.detachAll _).drop id

/-- New tasks at the end of the list close no loop of parents. -/
theorem noLoop_applySharedImports (hd : DistinctIds s.tasks)
    (hloop : Forest.NoLoop (view s.tasks)) (ns : List Note) {ts : List Task}
    (hts : (ts.map Task.id).Nodup) (hnew : ∀ t ∈ ts, t.id ∉ s.tasks.map Task.id) (now : Date) :
    Forest.NoLoop (view (s.applySharedImports ns ts now).tasks) := by
  intro c hc
  obtain ⟨t, ht, rfl, hp⟩ :=
    (isChild_view_iff (distinctIds_applySharedImports hd ns hts hnew now)).mp hc
  rw [tasks_applySharedImports] at ht
  rcases List.mem_append.mp ht with ht | ht
  · exact hloop t.id ((isChild_view_iff hd).mpr ⟨t, ht, rfl, hp⟩)
  · have hid : t.id ∈ (s.preparedTasks ts now).map Task.id := List.mem_map_of_mem ht
    rw [ids_preparedTasks] at hid
    obtain ⟨imported, himported, hsame⟩ := List.mem_map.mp hid
    obtain ⟨i, hi, rfl⟩ := List.mem_mapIdx.mp ht
    refine hnew imported himported ?_
    rw [hsame]
    exact mem_ids_of_isRoot (isRoot_of_attached hd hp)

end LocalStore

/-- No operation makes a task its own parent. -/
theorem noLoop_step {e : Date × Operation} {u u' : Session} (h : u.IdsOk)
    (hloop : Forest.NoLoop (view u.store.tasks)) (hlocal : e.2.isLocal = true)
    (hl : Operation.Legal e u) (hs : Session.step e u = some u') :
    Forest.NoLoop (view u'.store.tasks) := by
  have hd := h.distinctIds
  obtain ⟨now, op⟩ := e
  cases op with
  | addTask task =>
    obtain rfl := Option.some_inj.mp hs
    exact LocalStore.noLoop_addTask hd hloop (Session.notMem_of_notMem_knownIds hl) now
  | addSubtask parentId title priority id =>
    obtain rfl := Option.some_inj.mp hs
    rcases u.store.addSubtask_cases parentId title priority id now with hsame | ⟨task, rfl, hadd⟩
    · rwa [hsame]
    · rw [hadd]
      exact LocalStore.noLoop_addTask hd hloop (Session.notMem_of_notMem_knownIds hl) now
  | setParent taskId parentId =>
    obtain rfl := Option.some_inj.mp hs
    dsimp only [Session.withStore]
    rw [LocalStore.view_setParent hd]
    split_ifs with hr
    · exact hloop
    · exact hloop.reparent fun hq => (LocalStore.of_not_refusesParent hd hr taskId hq).1 rfl
  | updateTask id updates =>
    obtain rfl := Option.some_inj.mp hs
    exact (LocalStore.sameLinks_updateTask hd id hl now).symm.noLoop hloop
  | completeTask id =>
    obtain rfl := Option.some_inj.mp hs
    dsimp only [Session.withStore]
    rw [LocalStore.view_completeTask hd]
    exact (Forest.sameLinks_complete _ id).symm.noLoop hloop
  | restoreTask id =>
    obtain rfl := Option.some_inj.mp hs
    dsimp only [Session.withStore]
    rw [LocalStore.view_restoreTask hd]
    exact (Forest.sameLinks_reopen _ id).symm.noLoop hloop
  | deleteTask id =>
    obtain rfl := Option.some_inj.mp hs
    exact LocalStore.noLoop_deleteTask hd hloop id now
  | deleteTaskUndoably id =>
    obtain rfl := Option.some_inj.mp hs
    unfold Session.deleteTaskUndoably
    split
    · exact hloop
    · exact LocalStore.noLoop_deleteTask hd hloop id now
  | undo =>
    obtain rfl := Option.some_inj.mp hs
    unfold Session.undo
    split
    · exact hloop
    · rename_i task undoStack hstack
      exact LocalStore.noLoop_addTask hd hloop (h.notMem_of_undoStack hstack) now
  | redo =>
    obtain rfl := Option.some_inj.mp hs
    unfold Session.redo
    split
    · exact hloop
    · rename_i task redoStack hstack
      exact LocalStore.noLoop_deleteTask hd hloop task.id now
  | deleteParentTask id strategy =>
    obtain rfl := Option.some_inj.mp hs
    exact LocalStore.noLoop_deleteParentTask hd hloop id strategy now
  | reorderTasks orderedIds =>
    obtain ⟨s', hs', -, hview⟩ := LocalStore.exists_reorderTasks hd hl now
    have hsome : Session.step (now, .reorderTasks orderedIds) u = some (u.withStore s') :=
      congrArg (Option.map u.withStore) hs'
    obtain rfl := Option.some_inj.mp (hsome.symm.trans hs)
    dsimp only [Session.withStore]
    rwa [hview]
  | deleteCategory id replacementId =>
    obtain rfl := Option.some_inj.mp hs
    dsimp only [Session.withStore]
    rwa [LocalStore.view_deleteCategory]
  | applySharedImports notes tasks =>
    obtain rfl := Option.some_inj.mp hs
    exact LocalStore.noLoop_applySharedImports hd hloop notes hl.1
      (fun t ht => Session.notMem_of_notMem_knownIds (hl.2 t ht)) now
  | applyRemoteTasks tasks => cases hlocal
  | applyRemoteSnapshot notes tasks categories => cases hlocal

/-- A legal local operation that keeps uploads keeps what holds between the steps. -/
theorem uploadsOk_step {e : Date × Operation} {u u' : Session} (h : u.Waiting)
    (hlocal : e.2.isLocal = true) (hl : Operation.Legal e u) (hk : Operation.KeepsUploads e u)
    (hs : Session.step e u = some u') : u'.store.UploadsOk := by
  obtain ⟨hids, hloop, huploads⟩ := h
  have hd := hids.distinctIds
  obtain ⟨now, op⟩ := e
  obtain ⟨hopen, hleaves⟩ := hk
  cases op with
  | addTask task =>
    obtain rfl := Option.some_inj.mp hs
    exact huploads.addTask task now
  | addSubtask parentId title priority id =>
    obtain rfl := Option.some_inj.mp hs
    exact huploads.addSubtask parentId title priority id now
  | setParent taskId parentId =>
    obtain rfl := Option.some_inj.mp hs
    exact huploads.setParent taskId parentId now
  | updateTask id updates =>
    obtain rfl := Option.some_inj.mp hs
    exact huploads.updateTask id updates now
  | completeTask id =>
    obtain rfl := Option.some_inj.mp hs
    exact huploads.completeTask id now
  | restoreTask id =>
    obtain rfl := Option.some_inj.mp hs
    exact huploads.restoreTask id now
  | deleteTask id =>
    obtain rfl := Option.some_inj.mp hs
    exact huploads.deleteTask (fun b i p hmem => hleaves b i p hmem) now
  | deleteTaskUndoably id =>
    obtain rfl := Option.some_inj.mp hs
    unfold Session.deleteTaskUndoably
    split
    · exact huploads
    · exact huploads.deleteTask (fun b i p hmem => hleaves b i p hmem) now
  | undo =>
    obtain rfl := Option.some_inj.mp hs
    unfold Session.undo
    split
    · exact huploads
    · exact huploads.addTask _ now
  | redo =>
    obtain rfl := Option.some_inj.mp hs
    unfold Session.redo
    split
    · exact huploads
    · rename_i task redoStack hstack
      exact huploads.deleteTask
        (fun b i p hmem => hleaves b i p hmem task (by simp [hstack])) now
  | deleteParentTask id strategy =>
    obtain rfl := Option.some_inj.mp hs
    exact huploads.deleteParentTask hd hloop (hopen id strategy rfl)
      (fun b i p hmem => hleaves b i p hmem) now
  | reorderTasks orderedIds =>
    obtain ⟨s', hs', rfl⟩ := Option.map_eq_some_iff.mp hs
    exact LocalStore.uploadsOk_reorderTasks hs' fun b i p hmem => hleaves b i p hmem
  | deleteCategory id replacementId =>
    obtain rfl := Option.some_inj.mp hs
    exact huploads.deleteCategory id replacementId now
  | applySharedImports notes tasks =>
    obtain rfl := Option.some_inj.mp hs
    exact huploads.applySharedImports notes tasks now
  | applyRemoteTasks tasks => cases hlocal
  | applyRemoteSnapshot notes tasks categories => cases hlocal

namespace SyncStep

/-- What the callers provide, for an operation of this device. -/
def Legal (l : SyncStep) (u : SyncedSession) : Prop :=
  match l with
  | operation e => e.2.isLocal = true ∧ Operation.Legal e u.session
  | _ => True

/-- The operation keeps the uploads of the tasks in step with the store. -/
def KeepsUploads (l : SyncStep) (u : SyncedSession) : Prop :=
  match l with
  | operation e => Operation.KeepsUploads e u.session
  | _ => True

end SyncStep

/-- The oldest closure is gone once it has run. -/
theorem Session.Waiting.withWaiting {u : SyncedSession} (h : u.session.Waiting)
    {closure : Closure} {waiting : List Closure} (hwaiting : u.waiting = closure :: waiting) :
    (u.withWaiting waiting).session.Waiting := by
  refine ⟨⟨h.idsOk.nodup, h.idsOk.nodupStacks⟩, h.noLoop, fun b i p hmem => ?_⟩
  refine h.uploadsOk b i p ?_
  rw [show u.session.store.spawned = closure :: waiting from hwaiting]
  exact List.mem_cons_of_mem closure hmem

/-- Every step leaves closures with an index that is in the list. -/
theorem waiting_syncStep {l : SyncStep} {u u' : SyncedSession} (h : u.session.Waiting)
    (hg : l.Legal u ∧ l.KeepsUploads u) (hs : SyncedSession.step l u = some u') :
    u'.session.Waiting := by
  obtain ⟨hl, hk⟩ := hg
  cases l with
  | operation e =>
    obtain ⟨session, hsession, rfl⟩ := Option.map_eq_some_iff.mp hs
    exact ⟨idsOk_step h.idsOk hl.1 hl.2 hsession,
      noLoop_step h.idsOk h.noLoop hl.1 hl.2 hsession, uploadsOk_step h hl.1 hl.2 hk hsession⟩
  | runClosure =>
    rcases u.runClosure_cases with ⟨-, hrun⟩ | ⟨closure, waiting, hwaiting, hrun⟩
    · obtain rfl := Option.some_inj.mp (hrun.symm.trans hs)
      exact h
    · have hs' := hrun.symm.trans hs
      split_ifs at hs'
      obtain rfl := Option.some_inj.mp hs'
      exact h.withWaiting hwaiting
  | secondWrite k =>
    obtain rfl := Option.some_inj.mp hs
    rwa [SyncedSession.session_runSecondWrite]

/-- An upload that waits at its parent's index finds the parent. -/
theorem Session.Waiting.runsOnItsParent {u : SyncedSession} (h : u.session.Waiting)
    (l : SyncStep) : RunsOnItsParent l u := by
  cases l with
  | runClosure =>
    intro backend index parentId hhead
    have hid := h.uploadsOk backend index parentId (List.mem_of_mem_head? hhead)
    rw [List.getElem?_map, Option.map_eq_some_iff] at hid
    exact hid
  | _ => trivial

/-- No step traps while every closure has an index that is in the list. -/
theorem exists_syncStep {l : SyncStep} {u : SyncedSession} (h : u.session.Waiting)
    (hl : l.Legal u) : ∃ u', SyncedSession.step l u = some u' := by
  cases l with
  | operation e =>
    obtain ⟨session, hsession⟩ := exists_step h.idsOk hl.1 hl.2
    exact ⟨_, Option.map_eq_some_iff.mpr ⟨session, hsession, rfl⟩⟩
  | runClosure =>
    rcases u.runClosure_cases with ⟨-, hrun⟩ | ⟨closure, waiting, hwaiting, hrun⟩
    · exact ⟨u, hrun⟩
    · have hin : closure.inRange u.tasks = true := by
        cases closure with
        | upsertTaskAt backend index parentId =>
          obtain ⟨parent, hparent, -⟩ :=
            h.runsOnItsParent .runClosure backend index parentId (by rw [hwaiting]; rfl)
          exact decide_eq_true (List.getElem?_eq_some_iff.mp hparent).1
        | _ => rfl
      rw [if_pos hin] at hrun
      exact ⟨_, hrun⟩
  | secondWrite k => exact ⟨_, rfl⟩

/-- Along a run of local operations that keep uploads nothing traps, and every upload of a
reopened parent finds its parent. -/
theorem runsOnItsParent_run {u : SyncedSession} (hids : u.session.IdsOk)
    (h : HierarchyOk u.tasks) (huploads : u.session.store.UploadsOk) {ls : List SyncStep}
    (hl : Runs.Guarded SyncedSession.step SyncStep.Legal ls u)
    (hk : Runs.Guarded SyncedSession.step SyncStep.KeepsUploads ls u) :
    (∃ t, Runs.run SyncedSession.step ls u = some t) ∧
      Runs.Guarded SyncedSession.step RunsOnItsParent ls u := by
  have hwaiting : u.session.Waiting :=
    ⟨hids, (hierarchyOk_iff.mp h).2.noNesting.noLoop, huploads⟩
  have hstep : ∀ l u u', u.session.Waiting → SyncStep.Legal l u ∧ l.KeepsUploads u →
      SyncedSession.step l u = some u' → u'.session.Waiting :=
    fun l u u' hi hg hs => waiting_syncStep hi hg hs
  exact ⟨Runs.exists_run_of_guarded hstep (fun l u hi hg => exists_syncStep hi hg.1) hwaiting
    (hl.and hk), (hl.and hk).of_invariant hstep (fun l u hi _ => hi.runsOnItsParent l) hwaiting⟩

/-- A signed-in session with a reopened parent, its completed subtask, and both stored. -/
def SyncedSession.sample : SyncedSession :=
  let tasks := [{ Task.sampleParent with parentManualReopenAt := some (.seconds 6) },
    { Task.sampleSubtask with completedAt := some (.seconds 5) }]
  ⟨⟨{ tasks := tasks, backend := some ⟨"user"⟩ }, [], []⟩, taskWithId tasks, []⟩

theorem hierarchyOk_sampleReopened : HierarchyOk SyncedSession.sample.tasks := by
  refine ⟨by decide, ?_⟩
  simp [SyncedSession.tasks, SyncedSession.sample, Task.sampleParent, Task.sampleSubtask]

/-- Deleting the subtask. Its removal runs, then the upload of the parent. -/
theorem runsOnItsParent_run_sample :
    (∃ t, Runs.run SyncedSession.step
      [.operation (.seconds 7, .deleteTask "subtask"), .runClosure, .runClosure]
      SyncedSession.sample = some t) ∧
    Runs.Guarded SyncedSession.step RunsOnItsParent
      [.operation (.seconds 7, .deleteTask "subtask"), .runClosure, .runClosure]
      SyncedSession.sample := by
  refine runsOnItsParent_run ⟨by decide, by decide⟩ hierarchyOk_sampleReopened ?_ ?_ ?_
  · rintro b i p ⟨⟩
  · exact ⟨⟨rfl, trivial⟩, fun _ _ => ⟨trivial, fun _ _ => ⟨trivial, fun _ _ => trivial⟩⟩⟩
  · refine ⟨⟨?_, ?_⟩, fun _ _ => ⟨trivial, fun _ _ => ⟨trivial, fun _ _ => trivial⟩⟩⟩
    · rintro id strategy ⟨⟩
    · rintro b i p ⟨⟩

/-- Deleting the reopened parent with its subtask. The upload runs when the list is empty. -/
theorem not_runsOnItsParent_run : ¬∀ (u : SyncedSession) (ls : List SyncStep),
    u.session.IdsOk → HierarchyOk u.tasks → u.waiting = [] → u.session.store.backend ≠ none →
      Runs.Guarded SyncedSession.step SyncStep.Legal ls u →
        (∃ t, Runs.run SyncedSession.step ls u = some t) ∧
          Runs.Guarded SyncedSession.step RunsOnItsParent ls u := by
  intro h
  obtain ⟨⟨t, ht⟩, -⟩ := h SyncedSession.sample
    [.operation (.seconds 7, .deleteParentTask "parent" .deleteSubtasks), .runClosure, .runClosure]
    ⟨by decide, by decide⟩ hierarchyOk_sampleReopened rfl (by decide)
    ⟨⟨rfl, trivial⟩, fun _ _ => ⟨trivial, fun _ _ => ⟨trivial, fun _ _ => trivial⟩⟩⟩
  cases ht

end Notelayer
