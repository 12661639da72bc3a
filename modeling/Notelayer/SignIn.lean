import Notelayer.InitialSync
import Notelayer.Library.Runs

/-!
# What a sign-in does to local notes and tasks

`KeepsLocal s s' r'` : every note and every task of the store `s` is in the store `s'` or among
the documents `r'`. An initial sync without errors keeps local data exactly if each collection
is uploaded or was there already (`keepsLocal_syncInitialData_iff`). With errors, on a user
whose collections are empty, the listeners take over after the sync, and the first delivery
of an empty collection drops what was not uploaded (`keepsLocal_signIn_iff`).
-/

namespace Notelayer

open KeyedList

/-- Every note and task of the first store is in the second or in the remote state. -/
structure KeepsLocal (s s' : LocalStore) (r' : Remote) : Prop where
  notes : ∀ id ∈ s.notes.map Note.id, id ∈ s'.notes.map Note.id ∨ id ∈ r'.notes.ids Note.id
  tasks : ∀ id ∈ s.tasks.map Task.id, id ∈ s'.tasks.map Task.id ∨ id ∈ r'.tasks.ids Task.id

/-- What the snapshot consists of : the fetched records, or the local ones if there are none. -/
def fetchedOrLocal {A : Type} (fetched localRecords : List A) : List A :=
  if fetched.isEmpty then localRecords else fetched

theorem fetchedOrLocal_of_upload {A : Type} {fetched localRecords : List A}
    (h : fetched.isEmpty = true ∧ ¬localRecords.isEmpty = true) :
    fetchedOrLocal fetched localRecords = localRecords :=
  if_pos h.1

/-- Without an upload there are fetched records, or no local ones either. -/
theorem eq_nil_of_not_upload {A : Type} {fetched localRecords : List A}
    (h : ¬(fetched.isEmpty = true ∧ ¬localRecords.isEmpty = true)) (hfetched : fetched = []) :
    localRecords = [] := by
  by_contra hne
  exact h ⟨by rw [hfetched, List.isEmpty_nil], by simpa using hne⟩

theorem fetchedOrLocal_of_not_upload {A : Type} {fetched localRecords : List A}
    (h : ¬(fetched.isEmpty = true ∧ ¬localRecords.isEmpty = true)) :
    fetchedOrLocal fetched localRecords = fetched := by
  unfold fetchedOrLocal
  split_ifs with hfetched
  · rw [List.isEmpty_iff.mp hfetched]
    exact eq_nil_of_not_upload h (List.isEmpty_iff.mp hfetched)
  · rfl

/-! ## Without errors -/

section

variable {s : LocalStore} {r : Remote}

/-- From the upload of the tasks on, without errors. -/
theorem proceed_uploadTasks_of_not_throws (remote : Fetched) (notes : List Note) :
    (¬DistinctIds (fetchedOrLocal remote.tasks s.tasks) ∧
      proceed (fun _ => false) r (uploadTasks remote notes s) = none) ∨
    (DistinctIds (fetchedOrLocal remote.tasks s.tasks) ∧ ∃ s' r',
      proceed (fun _ => false) r (uploadTasks remote notes s) = some (s', r') ∧
        s'.notes = notes ∧
        s'.tasks.map Task.id = (fetchedOrLocal remote.tasks s.tasks).map Task.id ∧
        r'.notes = r.notes ∧ ∀ id, id ∈ r'.tasks.ids Task.id ↔
          id ∈ r.tasks.ids Task.id ∨ remote.tasks = [] ∧ id ∈ s.tasks.map Task.id) := by
  rw [proceed_uploadTasks]
  simp only [Bool.false_eq_true, if_false]
  split_ifs with hupload
  · rw [fetchedOrLocal_of_upload hupload]
    rcases proceed_uploadCategories (fun _ => false) (s := s)
      (r := { r with tasks := r.tasks.upsertBatch Task.id s.tasks }) remote notes s.tasks with
      ⟨⟨⟩, -⟩ | htrap | ⟨hd, s', r', h, hn, hids, hnotes, htasks⟩
    · exact Or.inl htrap
    · refine Or.inr ⟨hd, s', r', h, hn, hids, hnotes, fun id => ?_⟩
      rw [htasks, Collection.mem_ids_upsertBatch, or_comm]
      simp [List.isEmpty_iff.mp hupload.1]
  · rw [fetchedOrLocal_of_not_upload hupload]
    rcases proceed_uploadCategories (fun _ => false) (s := s) (r := r) remote notes
      remote.tasks with ⟨⟨⟩, -⟩ | htrap | ⟨hd, s', r', h, hn, hids, hnotes, htasks⟩
    · exact Or.inl htrap
    · refine Or.inr ⟨hd, s', r', h, hn, hids, hnotes, fun id => ?_⟩
      rw [htasks]
      refine (or_iff_left ?_).symm
      rintro ⟨hempty, hid⟩
      rw [eq_nil_of_not_upload hupload hempty] at hid
      cases hid

/-- An initial sync without errors : a trap if the tasks of the snapshot repeat an id, and the
snapshot if not. -/
theorem syncInitialData_of_not_throws :
    (¬DistinctIds (fetchedOrLocal r.tasks.records s.tasks) ∧
      syncInitialData (fun _ => false) s r = none) ∨
    (DistinctIds (fetchedOrLocal r.tasks.records s.tasks) ∧ ∃ s' r',
      syncInitialData (fun _ => false) s r = some (s', r') ∧
        s'.notes = fetchedOrLocal r.notes.records s.notes ∧
        s'.tasks.map Task.id = (fetchedOrLocal r.tasks.records s.tasks).map Task.id ∧
        (∀ id, id ∈ r'.notes.ids Note.id ↔
          id ∈ r.notes.ids Note.id ∨ r.notes.records = [] ∧ id ∈ s.notes.map Note.id) ∧
        ∀ id, id ∈ r'.tasks.ids Task.id ↔
          id ∈ r.tasks.ids Task.id ∨ r.tasks.records = [] ∧ id ∈ s.tasks.map Task.id) := by
  have hfetch : syncInitialData (fun _ => false) s r =
      proceed (fun _ => false) r (uploadNotes r.fetchAll s) := by
    unfold syncInitialData
    rw [syncFrom_eq]
    rfl
  rw [hfetch, proceed_uploadNotes]
  simp only [Bool.false_eq_true, if_false]
  split_ifs with hupload
  · refine (proceed_uploadTasks_of_not_throws (s := s)
      (r := { r with notes := r.notes.upsertBatch Note.id s.notes }) r.fetchAll
      s.notes).imp_right ?_
    rintro ⟨hd, s', r', h, hn, hids, hnotes, htasks⟩
    refine ⟨hd, s', r', h, hn.trans (fetchedOrLocal_of_upload hupload).symm, hids, fun id => ?_,
      htasks⟩
    have hempty : r.notes.records = [] := List.isEmpty_iff.mp hupload.1
    rw [hnotes, Collection.mem_ids_upsertBatch, or_comm]
    simp [hempty]
  · refine (proceed_uploadTasks_of_not_throws (s := s) (r := r) r.fetchAll
      r.fetchAll.notes).imp_right ?_
    rintro ⟨hd, s', r', h, hn, hids, hnotes, htasks⟩
    refine ⟨hd, s', r', h, hn.trans (fetchedOrLocal_of_not_upload hupload).symm, hids, fun id => ?_,
      htasks⟩
    rw [hnotes]
    refine (or_iff_left ?_).symm
    rintro ⟨hempty, hid⟩
    rw [eq_nil_of_not_upload hupload hempty] at hid
    cases hid

/-- An initial sync without errors keeps local notes and tasks exactly if each collection has
no documents to read or already has every local one, and no task of the snapshot repeats an
id. -/
theorem keepsLocal_syncInitialData_iff (s : LocalStore) (r : Remote) :
    (∃ s' r', syncInitialData (fun _ => false) s r = some (s', r') ∧ KeepsLocal s s' r') ↔
      (r.notes.records ≠ [] → ∀ id ∈ s.notes.map Note.id, id ∈ r.notes.ids Note.id) ∧
      (r.tasks.records ≠ [] → ∀ id ∈ s.tasks.map Task.id, id ∈ r.tasks.ids Task.id) ∧
      DistinctIds (fetchedOrLocal r.tasks.records s.tasks) := by
  rcases syncInitialData_of_not_throws (s := s) (r := r) with
    ⟨hd, hnone⟩ | ⟨hd, s', r', hsome, hnotes, htasks, hrnotes, hrtasks⟩
  · rw [hnone]
    refine ⟨?_, fun h => absurd h.2.2 hd⟩
    rintro ⟨s', r', ⟨⟩, -⟩
  · rw [hsome]
    refine ⟨?_, ?_⟩
    · rintro ⟨s'', r'', h, hk⟩
      obtain ⟨rfl, rfl⟩ := Prod.mk.inj (Option.some_inj.mp h)
      refine ⟨fun hne id hid => ?_, fun hne id hid => ?_, hd⟩
      · rcases hk.notes id hid with hlocal | hdoc
        · rw [hnotes, fetchedOrLocal, if_neg (by simpa using hne)] at hlocal
          exact List.mem_append_left _ hlocal
        · exact ((hrnotes id).mp hdoc).resolve_right fun h => hne h.1
      · rcases hk.tasks id hid with hlocal | hdoc
        · rw [htasks, fetchedOrLocal, if_neg (by simpa using hne)] at hlocal
          exact List.mem_append_left _ hlocal
        · exact ((hrtasks id).mp hdoc).resolve_right fun h => hne h.1
    · rintro ⟨hn, ht, -⟩
      refine ⟨s', r', rfl, fun id hid => Or.inr ((hrnotes id).mpr ?_),
        fun id hid => Or.inr ((hrtasks id).mpr ?_)⟩
      · rcases Classical.em (r.notes.records = []) with hempty | hne
        · exact Or.inr ⟨hempty, hid⟩
        · exact Or.inl (hn hne id hid)
      · rcases Classical.em (r.tasks.records = []) with hempty | hne
        · exact Or.inr ⟨hempty, hid⟩
        · exact Or.inl (ht hne id hid)

/-- A task made offline by a user who has another task in the account. -/
theorem not_keepsLocal_syncInitialData : ¬∀ (s : LocalStore) (r : Remote),
    DistinctIds s.tasks → DistinctIds r.tasks.records →
      ∃ s' r', syncInitialData (fun _ => false) s r = some (s', r') ∧ KeepsLocal s s' r' := by
  intro h
  obtain ⟨s', r', hsync, hk⟩ := h { tasks := [.sampleParent] }
    { tasks := { records := [{ Task.sampleParent with id := "other" }] } } (by decide) (by decide)
  rcases syncInitialData_of_not_throws (s := { tasks := [.sampleParent] })
    (r := { tasks := { records := [{ Task.sampleParent with id := "other" }] } }) with
    ⟨hd, -⟩ | ⟨-, s'', r'', hsome, -, htasks, -, hdocs⟩
  · exact hd (by decide)
  · obtain ⟨rfl, rfl⟩ := Prod.mk.inj (Option.some_inj.mp (hsome.symm.trans hsync))
    rcases hk.tasks "parent" (by decide) with hlocal | hdoc
    · rw [htasks] at hlocal
      revert hlocal
      decide
    · have hdoc' := (hdocs "parent").mp hdoc
      revert hdoc'
      decide

end

/-! ## With errors, on empty collections -/

/-- The store and the remote data of the signed-in user. -/
structure Account where
  store : LocalStore
  remote : Remote

namespace Account

/-- A listener delivers what is stored, and its push to the user document succeeds. -/
def deliver (l : Listener) (a : Account) : Option Account :=
  ((l.snapshot a.remote).handle a.store).map fun (store, push) =>
    ⟨store, push.elim a.remote a.remote.upsertMetadata⟩

/-- No delivery writes notes or tasks to the backend. -/
theorem remote_deliver {l : Listener} {a a' : Account} (h : deliver l a = some a') :
    a'.remote.notes = a.remote.notes ∧ a'.remote.tasks = a.remote.tasks := by
  obtain ⟨⟨store, push⟩, -, rfl⟩ := Option.map_eq_some_iff.mp h
  cases push with
  | none => exact ⟨rfl, rfl⟩
  | some push => exact ⟨rfl, rfl⟩

end Account

section

variable {s : LocalStore} {r : Remote} (throws : SyncCall → Bool)

/-- The categories go up after the notes and tasks, which stay as they are. -/
theorem remote_uploadCategories {remote : Fetched} {notes : List Note} {tasks : List Task}
    {s' : LocalStore} {r' : Remote}
    (h : proceed throws r (uploadCategories remote notes tasks s) = some (s', r')) :
    r'.notes = r.notes ∧ r'.tasks = r.tasks := by
  rcases proceed_uploadCategories throws (s := s) (r := r) remote notes tasks with
    ⟨-, hr⟩ | ⟨-, hr⟩ | ⟨-, s₁, r₁, hr, -, -, hn, ht⟩
  · obtain ⟨rfl, rfl⟩ := Prod.mk.inj (Option.some_inj.mp (hr.symm.trans h))
    exact ⟨rfl, rfl⟩
  · cases hr.symm.trans h
  · obtain ⟨rfl, rfl⟩ := Prod.mk.inj (Option.some_inj.mp (hr.symm.trans h))
    exact ⟨hn, ht⟩

/-- From the upload of the tasks on, with no remote tasks. If the upload throws nothing else
happens, and if not the tasks are stored. -/
theorem proceed_uploadTasks_of_empty {remote : Fetched} (hempty : remote.tasks = [])
    (htasks : r.tasks = {}) (notes : List Note) :
    (s.tasks ≠ [] → throws .upsertTasks = true →
      proceed throws r (uploadTasks remote notes s) = some (s, r)) ∧
    ((s.tasks ≠ [] → throws .upsertTasks = false) → ∀ s' r',
      proceed throws r (uploadTasks remote notes s) = some (s', r') →
        r'.notes = r.notes ∧ r'.tasks = Collection.upsertBatch Task.id {} s.tasks) := by
  rw [proceed_uploadTasks throws, hempty]
  refine ⟨fun hne hthrows => ?_, fun hok s' r' h => ?_⟩
  · rw [if_pos ⟨rfl, by simpa using hne⟩, if_pos hthrows]
  · split_ifs at h with hupload hthrows
    · rw [hok (by simpa using hupload.2)] at hthrows
      cases hthrows
    · obtain ⟨hn, ht⟩ := remote_uploadCategories throws h
      exact ⟨hn, by rw [ht, htasks]⟩
    · have hlocal := eq_nil_of_not_upload hupload rfl
      obtain ⟨hn, ht⟩ := remote_uploadCategories throws h
      exact ⟨hn, by rw [ht, htasks, hlocal]; rfl⟩

/-- From the upload of the notes on, with no remote notes or tasks. -/
theorem proceed_uploadNotes_of_empty (remote : Fetched) (hnotes : remote.notes = [])
    (htasks : remote.tasks = []) (hr : r.notes = {}) (hr' : r.tasks = {}) :
    (¬((s.notes ≠ [] → throws .upsertNotes = false) ∧
        (s.tasks ≠ [] → throws .upsertTasks = false)) → ∃ r',
      proceed throws r (uploadNotes remote s) = some (s, r') ∧ r'.tasks = {} ∧
        (s.tasks ≠ [] ∨ s.notes ≠ [] ∧ r'.notes = {})) ∧
    ((s.notes ≠ [] → throws .upsertNotes = false) → (s.tasks ≠ [] → throws .upsertTasks = false) →
      ∀ s' r', proceed throws r (uploadNotes remote s) = some (s', r') →
        r'.notes = Collection.upsertBatch Note.id {} s.notes ∧
          r'.tasks = Collection.upsertBatch Task.id {} s.tasks) := by
  rw [proceed_uploadNotes, hnotes]
  split_ifs with hupload hthrows
  · have hne : s.notes ≠ [] := by simpa using hupload.2
    refine ⟨fun _ => ⟨r, rfl, hr', Or.inr ⟨hne, hr⟩⟩, fun hn => ?_⟩
    rw [hn hne] at hthrows
    cases hthrows
  · obtain ⟨hfail, hok⟩ := proceed_uploadTasks_of_empty throws (s := s)
      (r := { r with notes := r.notes.upsertBatch Note.id s.notes }) htasks hr' s.notes
    refine ⟨fun hnot => ?_, fun _ ht s' r' h => ?_⟩
    · obtain ⟨hne, hthrows'⟩ := Classical.not_imp.mp
        (not_and.mp hnot fun _ => Bool.eq_false_of_not_eq_true hthrows)
      exact ⟨_, hfail hne (Bool.eq_true_of_not_eq_false hthrows'), hr', Or.inl hne⟩
    · obtain ⟨hn, ht⟩ := hok ht s' r' h
      exact ⟨by rw [hn, hr], ht⟩
  · have hlocal := eq_nil_of_not_upload hupload rfl
    obtain ⟨hfail, hok⟩ := proceed_uploadTasks_of_empty throws (s := s) (r := r) htasks
      hr' []
    refine ⟨fun hnot => ?_, fun _ ht s' r' h => ?_⟩
    · obtain ⟨hne, hthrows⟩ := Classical.not_imp.mp
        (not_and.mp hnot fun hne => absurd hlocal hne)
      exact ⟨r, hfail hne (Bool.eq_true_of_not_eq_false hthrows), hr', Or.inl hne⟩
    · obtain ⟨hn, ht⟩ := hok ht s' r' h
      exact ⟨by rw [hn, hr, hlocal]; rfl, ht⟩

/-! ### Nothing traps on distinct ids -/

theorem exists_uploadCategories (hd : DistinctIds s.tasks) {tasks : List Task}
    (htasks : DistinctIds tasks) (remote : Fetched) (notes : List Note) : ∃ s' r',
      proceed throws r (uploadCategories remote notes tasks s) = some (s', r') ∧
        DistinctIds s'.tasks ∧ r'.tasks = r.tasks := by
  rcases proceed_uploadCategories throws (s := s) (r := r) remote notes tasks with
    ⟨-, hr⟩ | ⟨hnot, -⟩ | ⟨-, s', r', hr, -, hids, -, ht⟩
  · exact ⟨s, r, hr, hd, rfl⟩
  · exact absurd htasks hnot
  · exact ⟨s', r', hr, distinctIds_congr hids htasks, ht⟩

/-- From the upload of the tasks on, the sync does not trap. -/
theorem exists_uploadTasks (hd : DistinctIds s.tasks) (remote : Fetched)
    (hremote : DistinctIds remote.tasks) (hr : DistinctIds r.tasks.records) (notes : List Note) :
    ∃ s' r', proceed throws r (uploadTasks remote notes s) = some (s', r') ∧
      DistinctIds s'.tasks ∧ DistinctIds r'.tasks.records := by
  rw [proceed_uploadTasks]
  split_ifs
  · exact ⟨s, r, rfl, hd, hr⟩
  · obtain ⟨s', r', h, hd', ht⟩ := exists_uploadCategories throws
      (r := { r with tasks := r.tasks.upsertBatch Task.id s.tasks }) hd hd remote notes
    refine ⟨s', r', h, hd', ?_⟩
    rw [ht]
    exact DistinctKeys.foldl_upsert s.tasks hr
  · obtain ⟨s', r', h, hd', ht⟩ := exists_uploadCategories throws (r := r) hd hremote
      remote notes
    exact ⟨s', r', h, hd', by rwa [ht]⟩

/-- On distinct ids on both sides the initial sync returns, whichever calls throw. -/
theorem exists_syncInitialData (hd : DistinctIds s.tasks) (hr : DistinctIds r.tasks.records) :
    ∃ s' r', syncInitialData throws s r = some (s', r') ∧ DistinctIds s'.tasks ∧
      DistinctIds r'.tasks.records := by
  unfold syncInitialData
  rw [syncFrom_eq, SyncPoint.outcome]
  split_ifs
  · exact ⟨s, r, rfl, hd, hr⟩
  · change ∃ s' r', proceed throws r (uploadNotes r.fetchAll s) = some (s', r') ∧ _
    rw [proceed_uploadNotes]
    split_ifs
    · exact ⟨s, r, rfl, hd, hr⟩
    · exact exists_uploadTasks throws
        (r := { r with notes := r.notes.upsertBatch Note.id s.notes }) hd r.fetchAll hr hr s.notes
    · exact exists_uploadTasks throws hd r.fetchAll hr hr r.fetchAll.notes

/-- With no remote notes or tasks, the sync stores the local ones if the fetch does not throw,
nor an upload that is made. -/
theorem syncInitialData_of_empty (hr : r.notes = {}) (hr' : r.tasks = {}) :
    (¬((throws .fetchAll = true → s.notes = [] ∧ s.tasks = []) ∧
        (s.notes ≠ [] → throws .upsertNotes = false) ∧
        (s.tasks ≠ [] → throws .upsertTasks = false)) → ∃ r',
      syncInitialData throws s r = some (s, r') ∧ r'.tasks = {} ∧
        (s.tasks ≠ [] ∨ s.notes ≠ [] ∧ r'.notes = {})) ∧
    ((throws .fetchAll = true → s.notes = [] ∧ s.tasks = []) ∧
        (s.notes ≠ [] → throws .upsertNotes = false) ∧
        (s.tasks ≠ [] → throws .upsertTasks = false) → ∀ s' r',
      syncInitialData throws s r = some (s', r') →
        r'.notes = Collection.upsertBatch Note.id {} s.notes ∧
          r'.tasks = Collection.upsertBatch Task.id {} s.tasks) := by
  unfold syncInitialData
  rw [syncFrom_eq, SyncPoint.outcome]
  split_ifs with hfetch
  · refine ⟨fun hnot => ⟨r, rfl, hr', ?_⟩, ?_⟩
    · by_contra hlocal
      rw [not_or, not_not, not_and'] at hlocal
      have hnotes : s.notes = [] := not_not.mp (hlocal.2 hr)
      exact hnot ⟨fun _ => ⟨hnotes, hlocal.1⟩, fun hne => absurd hnotes hne,
        fun hne => absurd hlocal.1 hne⟩
    · rintro ⟨hlocal, -⟩ s' r' h
      obtain ⟨rfl, rfl⟩ := Prod.mk.inj (Option.some_inj.mp h)
      obtain ⟨hnotes, htasks⟩ := hlocal hfetch
      rw [hr, hr', hnotes, htasks]
      exact ⟨rfl, rfl⟩
  · obtain ⟨hfail, hok⟩ := proceed_uploadNotes_of_empty throws (s := s) (r := r)
      r.fetchAll (by rw [Remote.fetchAll, hr]) (by rw [Remote.fetchAll, hr']) hr hr'
    refine ⟨fun hnot => hfail fun h => hnot ⟨fun h' => absurd h' hfetch, h⟩, ?_⟩
    exact fun h => hok h.2.1 h.2.2

end

namespace Account

/-- No task id is repeated on either side. -/
def Distinct (a : Account) : Prop :=
  DistinctIds a.store.tasks ∧ DistinctIds a.remote.tasks.records

/-- On distinct ids every listener delivers. -/
theorem exists_deliver (l : Listener) {a : Account} (h : a.Distinct) :
    ∃ a', deliver l a = some a' ∧ a'.Distinct := by
  obtain ⟨hd, hr⟩ := h
  obtain ⟨store, push, hhandle, hd'⟩ := Snapshot.exists_handle hd (l.snapshot a.remote)
    (by cases l <;> rintro ts ⟨⟩; exact hr)
  refine ⟨_, congrArg (Option.map _) hhandle, hd', ?_⟩
  cases push with
  | none => exact hr
  | some push => exact hr

end Account

/-- Without remote tasks a delivery of the notes and the tasks leaves the remote notes and no
tasks. -/
theorem Account.run_deliver_notes_tasks {a : Account} (h : a.remote.tasks = {}) :
    ∃ t, Runs.run Account.deliver [.notes, .tasks] a = some t ∧
      t.store.notes = a.remote.notes.records ∧ t.store.tasks = [] ∧ t.remote = a.remote := by
  obtain ⟨store, notes, tasks, categories, userDocument⟩ := a
  obtain rfl : tasks = {} := h
  exact ⟨_, rfl, rfl, rfl, rfl⟩

/-- `handleUserChange` for a user, and what the listeners deliver afterwards. -/
def signIn (throws : SyncCall → Bool) (userId : String) (deliveries : List Listener)
    (s : LocalStore) (r : Remote) : Option Account :=
  (s.changeUser userId).bind fun s => (syncInitialData throws s r).bind fun p =>
    Runs.run Account.deliver deliveries ⟨p.1, p.2⟩

/-- The same user keeps the notes and tasks. -/
theorem LocalStore.changeUser_of_same {s : LocalStore} (userId : String)
    (hlast : s.lastBackendUserId = none ∨ s.lastBackendUserId = some userId) :
    ∃ s', s.changeUser userId = some s' ∧ s'.notes = s.notes ∧ s'.tasks = s.tasks := by
  have hresets : ¬(s.attachBackend none).resetsFor userId = true := by
    unfold resetsFor lastBackendUserId attachBackend
    rcases hlast with hlast | hlast
    · simp [show s.userDefaults.backendUserId = none from hlast]
    · simp [show s.userDefaults.backendUserId = some userId from hlast]
  unfold changeUser
  dsimp only
  rw [if_neg hresets]
  exact ⟨_, rfl, rfl, rfl⟩

theorem signIn_eq_some {throws : SyncCall → Bool} {userId : String} {deliveries : List Listener}
    {s : LocalStore} {r : Remote} {t : Account} :
    signIn throws userId deliveries s r = some t ↔ ∃ s₁ s' r', s.changeUser userId = some s₁ ∧
      syncInitialData throws s₁ r = some (s', r') ∧
        Runs.run Account.deliver deliveries ⟨s', r'⟩ = some t := by
  unfold signIn
  simp only [Option.bind_eq_some_iff, Prod.exists]
  grind

/-- A sign-in with empty remote collections keeps local notes and tasks, whatever the listeners
deliver, exactly if the fetch does not throw, nor the upload of a collection that is not empty.
On distinct ids it does not trap. -/
theorem keepsLocal_signIn_iff {s : LocalStore} {r : Remote} {userId : String}
    {throws : SyncCall → Bool}
    (hlast : s.lastBackendUserId = none ∨ s.lastBackendUserId = some userId)
    (hr : r.notes = {}) (hr' : r.tasks = {}) :
    ((∀ deliveries t, signIn throws userId deliveries s r = some t →
        KeepsLocal s t.store t.remote) ↔
      (throws .fetchAll = true → s.notes = [] ∧ s.tasks = []) ∧
        (s.notes ≠ [] → throws .upsertNotes = false) ∧
        (s.tasks ≠ [] → throws .upsertTasks = false)) ∧
    (DistinctIds s.tasks → ∀ deliveries, ∃ t, signIn throws userId deliveries s r = some t) := by
  obtain ⟨s₁, hs₁, hnotes, htasks⟩ := LocalStore.changeUser_of_same userId hlast
  obtain ⟨hfail, hok⟩ := syncInitialData_of_empty throws (s := s₁) hr hr'
  rw [hnotes, htasks] at hfail hok
  refine ⟨⟨fun hkeeps => ?_, fun hcond deliveries t ht => ?_⟩, fun hd deliveries => ?_⟩
  · by_contra hnot
    obtain ⟨r', hsync, hempty, hlost⟩ := hfail hnot
    obtain ⟨t, hrun, htnotes, httasks, htremote⟩ :=
      Account.run_deliver_notes_tasks (a := ⟨s₁, r'⟩) hempty
    have hk := hkeeps _ t (signIn_eq_some.mpr ⟨s₁, s₁, r', hs₁, hsync, hrun⟩)
    rcases hlost with hne | ⟨hne, hlost⟩
    · obtain ⟨task, htask⟩ := List.exists_mem_of_ne_nil _ hne
      rcases hk.tasks task.id (List.mem_map_of_mem htask) with hlocal | hdoc
      · rw [httasks] at hlocal
        cases hlocal
      · rw [htremote, show Account.remote ⟨s₁, r'⟩ = r' from rfl, hempty] at hdoc
        cases hdoc
    · obtain ⟨note, hnote⟩ := List.exists_mem_of_ne_nil _ hne
      rcases hk.notes note.id (List.mem_map_of_mem hnote) with hlocal | hdoc
      · rw [htnotes, show Account.remote ⟨s₁, r'⟩ = r' from rfl, hlost] at hlocal
        cases hlocal
      · rw [htremote, show Account.remote ⟨s₁, r'⟩ = r' from rfl, hlost] at hdoc
        cases hdoc
  · obtain ⟨s₂, s', r', hs₂, hsync, hrun⟩ := signIn_eq_some.mp ht
    obtain rfl := Option.some_inj.mp (hs₁.symm.trans hs₂)
    obtain ⟨hn, ht⟩ := hok hcond s' r' hsync
    obtain ⟨hn', ht'⟩ := Runs.invariant_of_run
      (I := fun a => a.remote.notes = r'.notes ∧ a.remote.tasks = r'.tasks)
      (fun l a a' hi h => by
        obtain ⟨hnotes, htasks⟩ := Account.remote_deliver h
        exact ⟨hnotes.trans hi.1, htasks.trans hi.2⟩) ⟨rfl, rfl⟩ hrun
    refine ⟨fun id hid => Or.inr ?_, fun id hid => Or.inr ?_⟩
    · rw [hn', hn, Collection.mem_ids_upsertBatch]
      exact Or.inl hid
    · rw [ht', ht, Collection.mem_ids_upsertBatch]
      exact Or.inl hid
  · have hd₁ : DistinctIds s₁.tasks := by rwa [htasks]
    have hdr : DistinctIds r.tasks.records := by
      rw [hr']
      exact List.nodup_nil
    obtain ⟨s', r', hsync, hdistinct⟩ := exists_syncInitialData throws hd₁ hdr
    obtain ⟨t, ht⟩ := Runs.exists_run (I := Account.Distinct)
      (fun l a hi => Account.exists_deliver l hi) deliveries (s := ⟨s', r'⟩) hdistinct
    exact ⟨t, signIn_eq_some.mpr ⟨s₁, s', r', hs₁, hsync, ht⟩⟩

/-- A first sign-in with one task, where a metadata call throws. -/
theorem keepsLocal_signIn_iff_sample :
    (∀ deliveries t, signIn (fun call => call = .fetchExperimentalFeatureMetadata) "user" deliveries
      { tasks := [.sampleParent] } {} = some t →
        KeepsLocal { tasks := [.sampleParent] } t.store t.remote) ∧
    ∀ deliveries, ∃ t, signIn (fun call => call = .fetchExperimentalFeatureMetadata) "user"
      deliveries { tasks := [.sampleParent] } {} = some t := by
  obtain ⟨hiff, hreturns⟩ := keepsLocal_signIn_iff (s := { tasks := [.sampleParent] }) (r := {})
    (Or.inl rfl) rfl rfl
  refine ⟨hiff.mpr ⟨?_, ?_, ?_⟩, hreturns (by decide)⟩
  · rintro ⟨⟩
  · exact fun _ => rfl
  · exact fun _ => rfl

/-- A first sign-in with one task, where the fetch throws. The first delivery of the tasks
empties the store. -/
theorem not_keepsLocal_signIn : ¬∀ (s : LocalStore) (r : Remote) (userId : String)
    (throws : SyncCall → Bool) (deliveries : List Listener) (t : Account),
    s.lastBackendUserId = none ∨ s.lastBackendUserId = some userId → r.notes = {} → r.tasks = {} →
      signIn throws userId deliveries s r = some t → KeepsLocal s t.store t.remote := by
  intro h
  have hsync : ∀ s r, syncInitialData (fun call => call = .fetchAll) s r = some (s, r) := by
    intro s r
    unfold syncInitialData
    rw [syncFrom_eq]
    rfl
  obtain ⟨s₁, hs₁, -, -⟩ := LocalStore.changeUser_of_same (s := { tasks := [.sampleParent] })
    "user" (Or.inl rfl)
  obtain ⟨t, hrun, -, htasks, hremote⟩ :=
    Account.run_deliver_notes_tasks (a := ⟨s₁, {}⟩) rfl
  rcases (h _ _ _ _ _ t (Or.inl rfl) rfl rfl (signIn_eq_some.mpr
    ⟨s₁, s₁, {}, hs₁, hsync s₁ {}, hrun⟩)).tasks "parent" (by decide) with hlocal | hdoc
  · rw [htasks] at hlocal
    cases hlocal
  · rw [hremote] at hdoc
    cases hdoc

end Notelayer
