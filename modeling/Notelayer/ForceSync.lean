import Notelayer.Isolation
import Notelayer.SignIn

/-!
# The forced sync

`forceSync` uploads the notes, the tasks and the categories of the store and then runs the initial
sync again. `ForcePoint` is the call it is suspended at, as `SyncPoint` is for the initial sync.

The initial sync alone drops a local record that the account does not have. After the uploads it
cannot : whichever calls throw, a forced sync keeps every id on both sides, and if none throws the
two sides have the same ids afterwards (`forceSync_spec`). A forced sync keeps its backend and reads
the store again after each upload. If the store is reset for another user only while nothing is in
flight, it writes nothing to another user (`ForcingLog.owner_forced_run`). The code has no such
guard (`ForcingLog.not_owner_forced_run`).
-/

namespace Notelayer

open KeyedList

/-! ## Awaited calls -/

/-- The calls `forceSync` awaits, those of the initial sync included. -/
inductive ForceCall where
  | upsertNotes
  | upsertTasks
  | upsertCategories
  | sync (call : SyncCall)
  deriving DecidableEq

/-- The call `forceSync` is suspended at. -/
inductive ForcePoint where
  | upsertNotes (sent : List Note)
  | upsertTasks (sent : List Task)
  | upsertCategories (sent : List Category)
  | sync (point : SyncPoint)
  deriving DecidableEq

/-- From the test of the categories on. -/
def forceCategories (s : LocalStore) : ForcePoint :=
  if s.categories.isEmpty then .sync .fetchAll else .upsertCategories s.categories

/-- From the test of the tasks on. -/
def forceTasks (s : LocalStore) : ForcePoint :=
  if s.tasks.isEmpty then forceCategories s else .upsertTasks s.tasks

/-- From the test of the notes on. -/
def forceNotes (s : LocalStore) : ForcePoint :=
  if s.notes.isEmpty then forceTasks s else .upsertNotes s.notes

namespace ForcePoint

/-- The call that is awaited at a point. -/
def awaited : ForcePoint → ForceCall
  | upsertNotes _ => .upsertNotes
  | upsertTasks _ => .upsertTasks
  | upsertCategories _ => .upsertCategories
  | sync point => .sync point.awaited

/-- The piece that follows the response. An upload that throws ends the function. -/
def resume (p : ForcePoint) (response : Response) (s : LocalStore) :
    Option (LocalStore × Option ForcePoint) :=
  match p, response with
  | sync point, response =>
    (point.resume response s).map fun (s, next) => (s, next.map sync)
  | _, .thrown => some (s, none)
  | upsertNotes _, .written => some (s, some (forceTasks s))
  | upsertTasks _, .written => some (s, some (forceCategories s))
  | upsertCategories _, .written => some (s, some (sync .fetchAll))
  | p, _ => some (s, some p)

/-- The remote data after the call, and the response. -/
def answer (p : ForcePoint) (r : Remote) : Remote × Response :=
  match p with
  | upsertNotes sent => ({ r with notes := r.notes.upsertBatch Note.id sent }, .written)
  | upsertTasks sent => ({ r with tasks := r.tasks.upsertBatch Task.id sent }, .written)
  | upsertCategories sent =>
    ({ r with categories := r.categories.upsertBatch Category.id sent }, .written)
  | sync point => point.answer r

/-- A call that throws writes nothing. -/
def outcome (throws : ForceCall → Bool) (p : ForcePoint) (r : Remote) : Remote × Response :=
  if throws p.awaited then (r, .thrown) else p.answer r

/-- How many calls can follow. -/
def rank : ForcePoint → ℕ
  | upsertNotes _ => 12
  | upsertTasks _ => 11
  | upsertCategories _ => 10
  | sync point => point.rank

theorem rank_forceCategories (s : LocalStore) : (forceCategories s).rank ≤ 10 := by
  unfold forceCategories
  split_ifs <;> simp [rank, SyncPoint.rank]

theorem rank_forceTasks (s : LocalStore) : (forceTasks s).rank ≤ 11 := by
  unfold forceTasks
  split_ifs
  · exact (rank_forceCategories s).trans (by omega)
  · exact le_rfl

/-- Every piece leads to a later call or returns. -/
theorem rank_lt {throws : ForceCall → Bool} {p q : ForcePoint} {r : Remote} {s s' : LocalStore}
    (h : p.resume (p.outcome throws r).2 s = some (s', some q)) : q.rank < p.rank := by
  cases p with
  | sync point =>
    obtain ⟨⟨s₁, next⟩, hnext, heq⟩ := Option.map_eq_some_iff.mp h
    obtain ⟨q', hq', rfl⟩ := Option.map_eq_some_iff.mp (Prod.mk.inj heq).2
    have hsync : point.resume (point.outcome (fun call => throws (.sync call)) r).2 s =
        some (s₁, some q') := by
      rw [← hq']
      exact hnext
    exact SyncPoint.rank_lt hsync
  | upsertNotes sent =>
    unfold outcome at h
    split_ifs at h
    · cases h
    · obtain ⟨-, heq⟩ := Prod.mk.inj (Option.some_inj.mp h)
      rw [← Option.some_inj.mp heq]
      exact Nat.lt_succ_of_le (rank_forceTasks s)
  | upsertTasks sent =>
    unfold outcome at h
    split_ifs at h
    · cases h
    · obtain ⟨-, heq⟩ := Prod.mk.inj (Option.some_inj.mp h)
      rw [← Option.some_inj.mp heq]
      exact Nat.lt_succ_of_le (rank_forceCategories s)
  | upsertCategories sent =>
    unfold outcome at h
    split_ifs at h
    · cases h
    · obtain ⟨-, heq⟩ := Prod.mk.inj (Option.some_inj.mp h)
      rw [← Option.some_inj.mp heq]
      exact Nat.lt_succ_self 9

end ForcePoint

/-! ## Running to the end -/

/-- The store and the remote data when `forceSync` has returned, from the call on, if nothing else
happens. -/
def forceFrom (throws : ForceCall → Bool) (p : ForcePoint) (s : LocalStore) (r : Remote) :
    Option (LocalStore × Remote) :=
  match h : p.resume (p.outcome throws r).2 s with
  | none => none
  | some (s', none) => some (s', (p.outcome throws r).1)
  | some (s', some q) =>
    have : q.rank < p.rank := ForcePoint.rank_lt h
    forceFrom throws q s' (p.outcome throws r).1
termination_by p.rank

/-- `forceSync` behind its guards. -/
def forceSync (throws : ForceCall → Bool) (s : LocalStore) (r : Remote) :
    Option (LocalStore × Remote) :=
  forceFrom throws (forceNotes s) s r

section Run

variable (throws : ForceCall → Bool) {s : LocalStore} {r : Remote}

/-- What follows a piece. -/
def proceedForced (r : Remote) :
    Option (LocalStore × Option ForcePoint) → Option (LocalStore × Remote)
  | none => none
  | some (s, none) => some (s, r)
  | some (s, some q) => forceFrom throws q s r

/-- A forced sync from a point : the call, its response, and the rest. -/
theorem forceFrom_eq (p : ForcePoint) (s : LocalStore) (r : Remote) :
    forceFrom throws p s r =
      proceedForced throws (p.outcome throws r).1 (p.resume (p.outcome throws r).2 s) := by
  rw [forceFrom]
  split
  · rename_i h
    rw [h]
    rfl
  · rename_i h
    rw [h]
    rfl
  · rename_i h
    dsimp only
    rw [h]
    rfl

/-- What the calls of the initial sync throw. -/
def syncThrows (call : SyncCall) : Bool :=
  throws (.sync call)

/-- After the uploads the initial sync runs as it is. -/
theorem forceFrom_sync (p : SyncPoint) (s : LocalStore) (r : Remote) :
    forceFrom throws (.sync p) s r = syncFrom (syncThrows throws) p s r := by
  induction hn : p.rank using Nat.strong_induction_on generalizing p s r with
  | _ n ih =>
    have houtcome : (ForcePoint.sync p).outcome throws r = p.outcome (syncThrows throws) r := rfl
    rw [forceFrom_eq, syncFrom_eq, houtcome]
    change proceedForced throws _
      ((p.resume (p.outcome (syncThrows throws) r).2 s).map fun (s, next) =>
        (s, next.map .sync)) = _
    cases hq : p.resume (p.outcome (syncThrows throws) r).2 s with
    | none => rfl
    | some next =>
      obtain ⟨s', next⟩ := next
      cases next with
      | none => rfl
      | some q => exact ih q.rank (hn ▸ SyncPoint.rank_lt hq) q s' _ rfl

/-! ### The uploads -/

theorem Collection.upsertBatch_nil {A : Type} (key : A → String) (c : Collection A) :
    c.upsertBatch key [] = c := by
  unfold Collection.upsertBatch
  simp

/-- The categories go up, then the sync of a sign-in begins. -/
theorem forceFrom_forceCategories (s : LocalStore) (r : Remote) :
    forceFrom throws (forceCategories s) s r =
      if s.categories ≠ [] ∧ throws .upsertCategories = true then some (s, r)
      else syncInitialData (syncThrows throws) s
        { r with categories := r.categories.upsertBatch Category.id s.categories } := by
  unfold forceCategories syncInitialData
  split_ifs with hempty hthrows hthrows
  · exact absurd (List.isEmpty_iff.mp hempty) hthrows.1
  · rw [forceFrom_sync, List.isEmpty_iff.mp hempty, Collection.upsertBatch_nil]
  · rw [forceFrom_eq, ForcePoint.outcome, ForcePoint.awaited, if_pos hthrows.2]
    rfl
  · have hne : s.categories ≠ [] := mt List.isEmpty_iff.mpr hempty
    rw [forceFrom_eq, ForcePoint.outcome, ForcePoint.awaited,
      if_neg fun h => hthrows ⟨hne, h⟩]
    exact forceFrom_sync throws _ _ _

/-- The tasks go up, then the categories. -/
theorem forceFrom_forceTasks (s : LocalStore) (r : Remote) :
    forceFrom throws (forceTasks s) s r =
      if s.tasks ≠ [] ∧ throws .upsertTasks = true then some (s, r)
      else forceFrom throws (forceCategories s) s
        { r with tasks := r.tasks.upsertBatch Task.id s.tasks } := by
  unfold forceTasks
  split_ifs with hempty hthrows hthrows
  · exact absurd (List.isEmpty_iff.mp hempty) hthrows.1
  · rw [List.isEmpty_iff.mp hempty, Collection.upsertBatch_nil]
  · rw [forceFrom_eq, ForcePoint.outcome, ForcePoint.awaited, if_pos hthrows.2]
    rfl
  · have hne : s.tasks ≠ [] := mt List.isEmpty_iff.mpr hempty
    rw [forceFrom_eq, ForcePoint.outcome, ForcePoint.awaited,
      if_neg fun h => hthrows ⟨hne, h⟩]
    rfl

/-- The notes go up, then the tasks. -/
theorem forceFrom_forceNotes (s : LocalStore) (r : Remote) :
    forceFrom throws (forceNotes s) s r =
      if s.notes ≠ [] ∧ throws .upsertNotes = true then some (s, r)
      else forceFrom throws (forceTasks s) s
        { r with notes := r.notes.upsertBatch Note.id s.notes } := by
  unfold forceNotes
  split_ifs with hempty hthrows hthrows
  · exact absurd (List.isEmpty_iff.mp hempty) hthrows.1
  · rw [List.isEmpty_iff.mp hempty, Collection.upsertBatch_nil]
  · rw [forceFrom_eq, ForcePoint.outcome, ForcePoint.awaited, if_pos hthrows.2]
    rfl
  · have hne : s.notes ≠ [] := mt List.isEmpty_iff.mpr hempty
    rw [forceFrom_eq, ForcePoint.outcome, ForcePoint.awaited,
      if_neg fun h => hthrows ⟨hne, h⟩]
    rfl

/-- The remote data when the whole store has been uploaded. -/
def Remote.pushed (r : Remote) (s : LocalStore) : Remote :=
  { r with
    notes := r.notes.upsertBatch Note.id s.notes
    tasks := r.tasks.upsertBatch Task.id s.tasks
    categories := r.categories.upsertBatch Category.id s.categories }

/-- The second account has the documents of the first. -/
structure Remote.Grows (r r' : Remote) : Prop where
  notes : ∀ id ∈ r.notes.ids Note.id, id ∈ r'.notes.ids Note.id
  tasks : ∀ id ∈ r.tasks.ids Task.id, id ∈ r'.tasks.ids Task.id

theorem Remote.Grows.refl (r : Remote) : r.Grows r :=
  ⟨fun _ => id, fun _ => id⟩

/-- An upload throws and the store stays as it is, or the initial sync runs on all that is there
together. -/
theorem forceSync_cases (s : LocalStore) (r : Remote) :
    (∃ r', forceSync throws s r = some (s, r') ∧ r.Grows r' ∧ ∃ call, throws call = true) ∨
      forceSync throws s r = syncInitialData (syncThrows throws) s (r.pushed s) := by
  unfold forceSync
  rw [forceFrom_forceNotes, forceFrom_forceTasks, forceFrom_forceCategories]
  have hnotes : ∀ id ∈ r.notes.ids Note.id,
      id ∈ (r.notes.upsertBatch Note.id s.notes).ids Note.id :=
    fun id hid => Collection.mem_ids_upsertBatch.mpr (.inr hid)
  have htasks : ∀ id ∈ r.tasks.ids Task.id,
      id ∈ (r.tasks.upsertBatch Task.id s.tasks).ids Task.id :=
    fun id hid => Collection.mem_ids_upsertBatch.mpr (.inr hid)
  split_ifs with hn ht hc
  · exact .inl ⟨r, rfl, .refl r, _, hn.2⟩
  · exact .inl ⟨_, rfl, ⟨hnotes, fun _ => id⟩, _, ht.2⟩
  · exact .inl ⟨_, rfl, ⟨hnotes, htasks⟩, _, hc.2⟩
  · exact .inr rfl

end Run

/-! ### The initial sync on an account that has everything -/

section Covered

variable {throws : SyncCall → Bool} {s : LocalStore} {r : Remote}

/-- No collection that is empty to the reader has local records. -/
structure Remote.Covers (r : Remote) (s : LocalStore) : Prop where
  notes : r.notes.records = [] → s.notes = []
  tasks : r.tasks.records = [] → s.tasks = []
  categories : r.categories.records = [] → s.categories = []

theorem eq_nil_of_upsertBatch {A : Type} {key : A → String} {c : Collection A} {batch : List A}
    (h : (c.upsertBatch key batch).records = []) : batch = [] := by
  by_contra hne
  obtain ⟨a, ha⟩ := List.exists_mem_of_ne_nil batch hne
  have hid : key a ∈ (c.upsertBatch key batch).records.map key :=
    Collection.mem_ids_foldl_upsert.mpr (.inl (List.mem_map_of_mem ha))
  rw [h] at hid
  cases hid

theorem covers_pushed (r : Remote) (s : LocalStore) : (r.pushed s).Covers s :=
  ⟨eq_nil_of_upsertBatch, eq_nil_of_upsertBatch, eq_nil_of_upsertBatch⟩

/-- Then nothing is uploaded, and the snapshot is what was fetched. -/
theorem syncInitialData_of_covers (h : r.Covers s) :
    syncInitialData throws s r =
      if throws .fetchAll then some (s, r)
      else proceed throws r
        (applySnapshot r.notes.records r.tasks.records r.categories.records s) := by
  have hnot : ∀ {A : Type} {fetched localRecords : List A}, (fetched = [] → localRecords = []) →
      ¬(fetched.isEmpty = true ∧ ¬localRecords.isEmpty = true) := by
    rintro A fetched localRecords himp ⟨hfetched, hlocal⟩
    exact hlocal (List.isEmpty_iff.mpr (himp (List.isEmpty_iff.mp hfetched)))
  unfold syncInitialData
  rw [syncFrom_eq, SyncPoint.outcome, SyncPoint.awaited]
  split_ifs
  · rfl
  · change proceed throws r (uploadNotes r.fetchAll s) = _
    have hn : ¬(r.fetchAll.notes.isEmpty = true ∧ ¬s.notes.isEmpty = true) := hnot h.notes
    have ht : ¬(r.fetchAll.tasks.isEmpty = true ∧ ¬s.tasks.isEmpty = true) := hnot h.tasks
    have hc : ¬(r.fetchAll.categories.isEmpty = true ∧ ¬s.categories.isEmpty = true) :=
      hnot h.categories
    unfold uploadNotes uploadTasks uploadCategories
    rw [if_neg hn, if_neg ht, if_neg hc]
    rfl

end Covered

/-- Nothing is lost on either side. -/
structure KeepsBoth (s : LocalStore) (r : Remote) (s' : LocalStore) (r' : Remote) : Prop where
  notes : ∀ id ∈ s.notes.map Note.id, id ∈ s'.notes.map Note.id
  tasks : ∀ id ∈ s.tasks.map Task.id, id ∈ s'.tasks.map Task.id
  grows : r.Grows r'

/-- The store and the account have the same notes and tasks, those that either had. -/
structure Merges (s : LocalStore) (r : Remote) (s' : LocalStore) (r' : Remote) : Prop where
  notes : s'.notes.map Note.id = r'.notes.records.map Note.id
  tasks : s'.tasks.map Task.id = r'.tasks.records.map Task.id
  mem_notes : ∀ id, id ∈ s'.notes.map Note.id ↔
    id ∈ s.notes.map Note.id ∨ id ∈ r.notes.records.map Note.id
  mem_tasks : ∀ id, id ∈ s'.tasks.map Task.id ↔
    id ∈ s.tasks.map Task.id ∨ id ∈ r.tasks.records.map Task.id

theorem KeepsBoth.of_merges {s s' : LocalStore} {r r' : Remote} (h : Merges s r s' r')
    (hgrows : r.Grows r') : KeepsBoth s r s' r' :=
  ⟨fun id hid => (h.mem_notes id).mpr (.inl hid), fun id hid => (h.mem_tasks id).mpr (.inl hid),
    hgrows⟩

theorem Remote.grows_pushed (r : Remote) (s : LocalStore) : r.Grows (r.pushed s) :=
  ⟨fun _ hid => Collection.mem_ids_upsertBatch.mpr (.inr hid),
    fun _ hid => Collection.mem_ids_upsertBatch.mpr (.inr hid)⟩

/-- Whichever calls throw, a forced sync returns and loses no note and no task on either side. If
none throws, both sides end with the notes and tasks that either had. -/
theorem forceSync_spec (throws : ForceCall → Bool) {s : LocalStore} {r : Remote}
    (hr : DistinctIds r.tasks.records) :
    ∃ s' r', forceSync throws s r = some (s', r') ∧ KeepsBoth s r s' r' ∧
      ((∀ call, throws call = false) → Merges s r s' r') := by
  rcases forceSync_cases throws s r with ⟨r', h, hgrows, call, hcall⟩ | h
  · refine ⟨s, r', h, ⟨fun _ => id, fun _ => id, hgrows⟩, fun hnone => ?_⟩
    exact absurd (hcall.symm.trans (hnone call)) Bool.noConfusion
  have hd : DistinctIds (r.pushed s).tasks.records := DistinctKeys.foldl_upsert s.tasks hr
  rw [h, syncInitialData_of_covers (covers_pushed r s)]
  split_ifs with hfetch
  · refine ⟨s, r.pushed s, rfl, ⟨fun _ => id, fun _ => id, r.grows_pushed s⟩, fun hnone => ?_⟩
    exact absurd (hfetch.symm.trans (hnone _)) Bool.noConfusion
  · rcases proceed_applySnapshot (syncThrows throws) (s := s) (r := r.pushed s)
      (r.pushed s).notes.records (r.pushed s).categories.records with ⟨hnot, -⟩ | hsnapshot
    · exact absurd hd hnot
    · obtain ⟨-, s', r', hsome, hnotes, htasks, hrnotes, hrtasks⟩ := hsnapshot
      have hgrows : r.Grows r' := by
        obtain ⟨hgn, hgt⟩ := r.grows_pushed s
        refine ⟨?_, ?_⟩
        · rw [hrnotes]
          exact hgn
        · rw [hrtasks]
          exact hgt
      have hmerges : Merges s r s' r' := by
        refine ⟨by rw [hnotes, hrnotes], by rw [htasks, hrtasks], fun id => ?_, fun id => ?_⟩
        · rw [hnotes]
          exact Collection.mem_ids_foldl_upsert
        · rw [htasks]
          exact Collection.mem_ids_foldl_upsert
      exact ⟨s', r', hsome, .of_merges hmerges hgrows, fun _ => hmerges⟩

/-- One task on each side, and the commit of the categories throws. -/
theorem forceSync_spec_sample :
    let s : LocalStore :=
      { tasks := [.sampleParent], categories := [⟨"work", "Work", "", "#0A84FF", 0⟩] }
    let r : Remote := { tasks := { records := [{ Task.sampleParent with id := "other" }] } }
    ∃ r', forceSync (fun call => call = .upsertCategories) s r = some (s, r') ∧
      r'.categories.records = [] ∧ KeepsBoth s r s r' := by
  intro s r
  obtain ⟨r', h, hcategories⟩ : ∃ r',
      forceSync (fun call => call = .upsertCategories) s r = some (s, r') ∧
        r'.categories.records = [] := by
    unfold forceSync
    rw [forceFrom_forceNotes, if_neg (by decide), forceFrom_forceTasks, if_neg (by decide),
      forceFrom_forceCategories, if_pos (by decide)]
    exact ⟨_, rfl, rfl⟩
  obtain ⟨s₁, r₁, h₁, hkeeps, -⟩ := forceSync_spec (fun call => call = .upsertCategories) (s := s)
    (r := r) (by decide)
  obtain ⟨rfl, rfl⟩ := Prod.mk.inj (Option.some_inj.mp (h₁.symm.trans h))
  exact ⟨_, h, hcategories, hkeeps⟩

/-! ## In flight -/

/-- The write of the call. -/
def ForcePoint.document : ForcePoint → Option DocumentWrite
  | upsertNotes sent => some (.upsertNotes sent)
  | upsertTasks sent => some (.upsertTasks sent)
  | upsertCategories sent => some (.upsertCategories sent)
  | sync point => point.document

/-- The piece that follows changes the store with `suppressMetadataWrites` set. -/
def ForcePoint.suppressesMetadata : ForcePoint → Bool
  | sync point => point.suppressesMetadata
  | _ => false

/-- A suspended call of `forceSync`. -/
structure ForceSync where
  backend : FirestoreBackend
  point : ForcePoint

/-- A device with the forced syncs in flight. -/
structure ForcingDevice where
  device : Device
  forceSyncs : List ForceSync := []
  isForceSyncInProgress : Bool := false

/-- A step of the device, or of a forced sync. -/
inductive ForcingStep where
  | device (l : DeviceStep)
  /-- A refresh by hand, with what Firebase says about itself and its user. -/
  | forceSync (isConfigured : Bool) (currentUser : Option String)
  /-- A forced sync in flight gets the response it awaits. -/
  | resume (k : ℕ) (response : Response)

namespace ForcingDevice

variable (x : ForcingDevice)

/-- `forceSync` up to its first await. `backendUserId` is of the backend, with which it is set. -/
def forceSync (isConfigured : Bool) (currentUser : Option String) :
    ForcingDevice × List BackendWrite :=
  if x.isForceSyncInProgress then (x, [])
  else match x.device.service.backend with
    | none => (x, [])
    | some backend =>
      if ¬isConfigured then (x, [])
      else match currentUser with
        | none => (x, [])
        | some currentUserId =>
          if currentUserId ≠ backend.userId then (x, [])
          else
            let point := forceNotes x.device.store
            ({ x with
              forceSyncs := x.forceSyncs ++ [⟨backend, point⟩]
              isForceSyncInProgress := true }, backendWrite backend point.document)

/-- What the piece after the response writes through the backend of the forced sync. -/
def forcedWrites (force : ForceSync) (next : Option ForcePoint) : List BackendWrite :=
  match next with
  | some point =>
    if point = force.point then [] else backendWrite force.backend point.document
  | none => []

/-- `forceSync` from an await to the next one, or to its end. -/
def resume (k : ℕ) (response : Response) : Option (ForcingDevice × List BackendWrite) :=
  match x.forceSyncs[k]? with
  | none => some (x, [])
  | some force =>
    (force.point.resume response x.device.store).map fun (store, next) =>
      let writes := forcedWrites force next ++
        if force.point.suppressesMetadata then [] else x.device.sinkWrites store
      let x := { x with device := x.device.settle { x.device.service with store := store } }
      match next with
      | some point => ({ x with forceSyncs := x.forceSyncs.set k { force with point := point } },
          writes)
      | none => ({ x with
          forceSyncs := x.forceSyncs.eraseIdx k
          isForceSyncInProgress := false }, writes)

end ForcingDevice

/-- A device and what its forced syncs have written, each time with the user whose data the store
held. -/
structure ForcingLog where
  state : ForcingDevice
  forced : List (Option String × BackendWrite) := []

namespace ForcingLog

/-- The writes of a forced sync, under the user of the moment. -/
def log (x : ForcingLog) (r : ForcingDevice × List BackendWrite) : ForcingLog :=
  ⟨r.1, x.forced ++ r.2.map fun write => (x.state.device.owner, write)⟩

/-- The step function of the device with its forced syncs. -/
def step (l : ForcingStep) (x : ForcingLog) : Option ForcingLog :=
  match l with
  | .device l => (x.state.device.act l).map fun r =>
    { x with state := { x.state with device := r.1 } }
  | .forceSync isConfigured currentUser =>
    some (x.log (x.state.forceSync isConfigured currentUser))
  | .resume k response => (x.state.resume k response).map x.log

end ForcingLog

/-- An auth event resets the store for another user only while nothing is in flight. -/
def ForcingStep.SwitchesIdle (l : ForcingStep) (x : ForcingLog) : Prop :=
  ∀ userId, l = device (.service (.authEvent (some userId))) →
    x.state.device.store.resetsFor userId = true →
      x.state.device.Idle ∧ x.state.forceSyncs = []

/-! ### What is in flight is of the user -/

/-- A response switches no account. -/
theorem ForcePoint.sameAccount_resume {p : ForcePoint} {response : Response} {s s' : LocalStore}
    {next : Option ForcePoint} (h : p.resume response s = some (s', next)) :
    s.SameAccount s' ∧ s'.suppressBackendWrites = s.suppressBackendWrites := by
  have hsame : ∀ {next' : Option ForcePoint}, some (s, next') = some (s', next) →
      s.SameAccount s' ∧ s'.suppressBackendWrites = s.suppressBackendWrites := by
    intro next' heq
    obtain ⟨rfl, -⟩ := Prod.mk.inj (Option.some_inj.mp heq)
    exact ⟨LocalStore.sameAccount_of_eq rfl rfl rfl, rfl⟩
  unfold resume at h
  split at h
  · obtain ⟨⟨s₁, next₁⟩, hs, heq⟩ := Option.map_eq_some_iff.mp h
    obtain ⟨rfl, -⟩ := Prod.mk.inj heq
    exact ⟨SyncPoint.sameAccount_resume hs, SyncPoint.suppress_resume hs⟩
  · exact hsame h
  · exact hsame h
  · exact hsame h
  · exact hsame h
  · exact hsame h

namespace Device

variable {d d' : Device} {w : List BackendWrite}

/-- The backend of the service is of the user whose data the store holds. -/
def ServesOwnBackend (d : Device) : Prop :=
  ∀ backend ∈ d.service.backend, d.owner = some backend.userId

/-- Only an auth event changes the backend. -/
theorem ServesOwnBackend.act (h : d.ServesOwnBackend) {l : DeviceStep}
    (hd : d.act l = some (d', w)) : d'.ServesOwnBackend := by
  rcases owner_act hd with ⟨userId, rfl, howner⟩ | ⟨hnot, howner⟩
  · obtain ⟨service, hs, hd⟩ := Option.map_eq_some_iff.mp hd
    obtain ⟨rfl, -⟩ := Prod.mk.inj hd
    obtain ⟨store, -, rfl⟩ := Option.map_eq_some_iff.mp hs
    intro backend hb
    obtain rfl := Option.some_inj.mp hb
    exact howner
  · intro backend hb
    rw [howner]
    cases l with
    | service l =>
      obtain ⟨service, hs, hd⟩ := Option.map_eq_some_iff.mp hd
      obtain ⟨rfl, -⟩ := Prod.mk.inj hd
      cases l with
      | authEvent user =>
        cases user with
        | none =>
          obtain rfl := Option.some_inj.mp hs
          cases hb
        | some userId => exact absurd rfl (hnot userId)
      | fire k snapshot =>
        obtain rfl := Option.some_inj.mp hs
        refine h backend ?_
        change (d.service.fire k snapshot).backend = some backend at hb
        unfold Service.fire at hb
        split at hb <;> exact hb
      | resume k response =>
        refine h backend ?_
        change d.service.resume k response = some service at hs
        unfold Service.resume at hs
        split at hs
        · obtain rfl := Option.some_inj.mp hs
          exact hb
        · obtain ⟨⟨s, next⟩, -, rfl⟩ := Option.map_eq_some_iff.mp hs
          cases next <;> exact hb
      | runHandler k =>
        refine h backend ?_
        change d.service.runHandler k = some service at hs
        unfold Service.runHandler at hs
        split at hs
        · obtain rfl := Option.some_inj.mp hs
          exact hb
        · obtain ⟨⟨s, push⟩, -, rfl⟩ := Option.map_eq_some_iff.mp hs
          exact hb
    | operation e =>
      obtain ⟨u, -, hd⟩ := Option.map_eq_some_iff.mp hd
      obtain ⟨rfl, -⟩ := Prod.mk.inj hd
      exact h backend hb
    | reminder e he =>
      obtain ⟨r, -, hd⟩ := Option.map_eq_some_iff.mp hd
      obtain ⟨rfl, -⟩ := Prod.mk.inj hd
      exact h backend hb
    | runClosure =>
      refine h backend ?_
      change d.runClosure = some (d', w) at hd
      unfold Device.runClosure at hd
      split at hd
      · obtain ⟨rfl, -⟩ := Prod.mk.inj (Option.some_inj.mp hd)
        exact hb
      · split_ifs at hd
        obtain ⟨rfl, -⟩ := Prod.mk.inj (Option.some_inj.mp hd)
        exact hb
    | secondWrite userId k =>
      refine h backend ?_
      have hd' : (d.runSecondWrite userId k).1 = d' := congrArg Prod.fst (Option.some_inj.mp hd)
      subst hd'
      unfold runSecondWrite at hb
      split at hb <;> exact hb

end Device

/-- What is in flight is of the user whose data the store holds, and at most one forced sync is. -/
structure ForcingDevice.Owned (x : ForcingDevice) : Prop where
  device : x.device.Owned
  backend : x.device.ServesOwnBackend
  forceSyncs : ∀ force ∈ x.forceSyncs, x.device.owner = some force.backend.userId
  inProgress : x.forceSyncs.length = x.isForceSyncInProgress.toNat

/-- Every write of a forced sync went to the user whose data the store held. -/
structure ForcingLog.Owned (x : ForcingLog) : Prop where
  state : x.state.Owned
  forced : ∀ entry ∈ x.forced, entry.1 = some entry.2.1.userId

namespace ForcingLog

variable {x y : ForcingLog}

theorem Owned.log (h : x.Owned) {r : ForcingDevice × List BackendWrite} (hr : r.1.Owned)
    (hwrites : ∀ write ∈ r.2, x.state.device.owner = some write.1.userId) : (x.log r).Owned := by
  refine ⟨hr, fun entry hentry => ?_⟩
  rcases List.mem_append.mp hentry with hentry | hentry
  · exact h.forced entry hentry
  · obtain ⟨write, hwrite, rfl⟩ := List.mem_map.mp hentry
    exact hwrites write hwrite

/-- A step of the device keeps every forced write with its owner. -/
theorem Owned.device (h : x.Owned) {l : DeviceStep}
    (hg : (ForcingStep.device l).SwitchesIdle x) (hy : step (.device l) x = some y) :
    y.Owned := by
  obtain ⟨⟨d, w⟩, hd, rfl⟩ := Option.map_eq_some_iff.mp hy
  refine ⟨⟨h.state.device.act (fun userId hl hreset => ?_) hd, h.state.backend.act hd,
    fun force hforce => ?_, h.state.inProgress⟩, h.forced⟩
  · exact (hg userId (congrArg ForcingStep.device hl) hreset).1
  · have hbefore := h.state.forceSyncs force hforce
    rcases Device.owner_act hd with ⟨userId, hl, howner⟩ | ⟨-, howner⟩
    · change d.owner = _
      rw [howner]
      by_cases hreset : x.state.device.store.resetsFor userId = true
      · have hnil := (hg userId (congrArg ForcingStep.device hl) hreset).2
        rw [hnil] at hforce
        cases hforce
      · exact congrArg some (LocalStore.eq_of_not_resetsFor hreset hbefore).symm
    · exact howner.trans hbefore

/-- A refresh writes for the user of the moment. -/
theorem Owned.forceSync (h : x.Owned) (isConfigured : Bool) (currentUser : Option String) :
    (x.log (x.state.forceSync isConfigured currentUser)).Owned := by
  have hnone : (x.log (x.state, [])).Owned := h.log h.state fun _ hw => absurd hw List.not_mem_nil
  unfold ForcingDevice.forceSync
  by_cases hrunning : x.state.isForceSyncInProgress = true
  · rw [if_pos hrunning]
    exact hnone
  rw [if_neg hrunning]
  cases hbackend : x.state.device.service.backend with
  | none => exact hnone
  | some backend =>
    have howner := h.state.backend backend hbackend
    have hnil : x.state.forceSyncs = [] := by
      have hlength := h.state.inProgress
      rw [Bool.eq_false_iff.mpr hrunning] at hlength
      exact List.length_eq_zero_iff.mp hlength
    cases currentUser with
    | none =>
      dsimp only
      split_ifs <;> exact hnone
    | some currentUserId =>
      dsimp only
      split_ifs
      · exact hnone
      · refine h.log ⟨h.state.device, h.state.backend, fun force hforce => ?_, ?_⟩
          fun write hw => ?_
        · rcases List.mem_append.mp hforce with hforce | hforce
          · exact h.state.forceSyncs force hforce
          · obtain rfl := List.mem_singleton.mp hforce
            exact howner
        · simp [hnil]
        · rw [← Option.some_inj.mp (Device.mem_backendWrite hw)]
          exact howner
      · exact hnone

/-- A response continues a forced sync of the same owner. -/
theorem Owned.resume (h : x.Owned) {k : ℕ} {response : Response}
    (hy : step (.resume k response) x = some y) : y.Owned := by
  obtain ⟨r, hr, rfl⟩ := Option.map_eq_some_iff.mp hy
  unfold ForcingDevice.resume at hr
  split at hr
  · obtain rfl := Option.some_inj.mp hr
    exact h.log h.state fun _ hw => absurd hw List.not_mem_nil
  · rename_i force hforce
    have howner := h.state.forceSyncs force (List.mem_of_getElem? hforce)
    have hk : k < x.state.forceSyncs.length := (List.getElem?_eq_some_iff.mp hforce).1
    obtain ⟨⟨store, next⟩, hstore, rfl⟩ := Option.map_eq_some_iff.mp hr
    obtain ⟨hsame, hsuppress⟩ := ForcePoint.sameAccount_resume hstore
    have hdevice : (x.state.device.settle { x.state.device.service with store := store }).Owned :=
      @Device.Owned.settle_of_sameAccount x.state.device h.state.device
        { x.state.device.service with store := store } hsame hsuppress h.state.device.sinks
        h.state.device.invocations h.state.device.active h.state.device.handlers
    have hbackend : Device.ServesOwnBackend
        (x.state.device.settle { x.state.device.service with store := store }) :=
      fun b hb => hsame.lastUser.trans (h.state.backend b hb)
    have hlength := h.state.inProgress
    have hone : x.state.isForceSyncInProgress = true := by
      by_contra hfalse
      rw [Bool.eq_false_iff.mpr hfalse] at hlength
      simp only [Bool.toNat_false] at hlength
      omega
    have hwrites : ∀ write ∈ ForcingDevice.forcedWrites force next ++
        (if force.point.suppressesMetadata then [] else x.state.device.sinkWrites store),
        x.state.device.owner = some write.1.userId := by
      intro write hw
      rcases List.mem_append.mp hw with hw | hw
      · unfold ForcingDevice.forcedWrites at hw
        split at hw
        · split_ifs at hw
          · cases hw
          · rw [← Option.some_inj.mp (Device.mem_backendWrite hw)]
            exact howner
        · cases hw
      · split_ifs at hw
        · cases hw
        · exact h.state.device.owner_of_mem_sinkWrites hw
    cases next with
    | some point =>
      refine h.log ⟨hdevice, hbackend, fun f hf => ?_, ?_⟩ hwrites
      · rcases List.mem_or_eq_of_mem_set hf with hf | rfl
        · exact hsame.lastUser.trans (h.state.forceSyncs f hf)
        · exact hsame.lastUser.trans howner
      · exact List.length_set.trans hlength
    | none =>
      refine h.log ⟨hdevice, hbackend, fun f hf => ?_, ?_⟩ hwrites
      · exact hsame.lastUser.trans (h.state.forceSyncs f (List.mem_of_mem_eraseIdx hf))
      · rw [hone] at hlength
        change (x.state.forceSyncs.eraseIdx k).length = 0
        rw [List.length_eraseIdx_of_lt hk, hlength]
        rfl

theorem owned_forcingStep (l : ForcingStep) (x y : ForcingLog) (h : x.Owned)
    (hg : l.SwitchesIdle x) (hy : step l x = some y) : y.Owned := by
  cases l with
  | device l => exact h.device hg hy
  | forceSync isConfigured currentUser =>
    obtain rfl := Option.some_inj.mp hy
    exact h.forceSync isConfigured currentUser
  | resume k response => exact h.resume hy

/-- A device that starts with a store. -/
def start (s : LocalStore) : ForcingLog :=
  ⟨{ device := Device.start s }, []⟩

theorem owned_start (s : LocalStore) : (start s).Owned :=
  ⟨⟨Device.owned_start s, fun _ hb => absurd hb (Option.not_mem_none _),
    fun _ hf => absurd hf List.not_mem_nil, rfl⟩, fun _ he => absurd he List.not_mem_nil⟩

/-- Over every run whose auth events reset the store for another user only while nothing is in
flight, at most one forced sync is in flight, and whatever forced syncs write goes to the user whose
data the store held. -/
theorem owner_forced_run {s : LocalStore} {ls : List ForcingStep} {x : ForcingLog}
    (hg : Runs.Guarded step ForcingStep.SwitchesIdle ls (start s))
    (hx : Runs.run step ls (start s) = some x) :
    x.state.forceSyncs.length ≤ 1 ∧ ∀ entry ∈ x.forced, entry.1 = some entry.2.1.userId := by
  have h := Runs.invariant_of_guarded owned_forcingStep (owned_start s) hg hx
  refine ⟨?_, h.forced⟩
  rw [h.state.inProgress]
  exact Bool.toNat_le _

/-- A refresh after the initial sync of one user, and the sign-in of the next one after it. -/
def sampleRefresh : List ForcingStep :=
  [.device (.service (.authEvent (some "a"))), .device (.service (.resume 0 .thrown)),
    .forceSync true (some "a"), .resume 0 .written, .resume 0 .thrown,
    .device (.service (.authEvent (some "b")))]

theorem owner_forced_run_sample : ∃ x, Runs.run step sampleRefresh (start .sampleNotes) = some x ∧
    x.forced.length = 1 ∧ ∀ entry ∈ x.forced, entry.1 = some entry.2.1.userId := by
  have hg : Runs.Guarded step ForcingStep.SwitchesIdle sampleRefresh (start .sampleNotes) := by
    refine .cons ?_ rfl <| .cons nofun rfl <| .cons nofun rfl <| .cons nofun rfl <|
      .cons nofun rfl <| .cons ?_ rfl trivial
    · rintro userId - hr
      cases hr
    · intro _ _ _
      exact ⟨⟨rfl, by decide, rfl, rfl, rfl, rfl, by decide⟩, rfl⟩
  exact ⟨_, rfl, rfl, (owner_forced_run hg rfl).2⟩

/-- Another user signs in while the notes of the first are uploaded, and the forced sync goes on
with the categories of the second. -/
theorem not_owner_forced_run : ¬∀ (s : LocalStore) (ls : List ForcingStep) (x : ForcingLog),
    Runs.run step ls (start s) = some x → ∀ entry ∈ x.forced, entry.1 = some entry.2.1.userId := by
  intro h
  have hforced := h .sampleNotes [.device (.service (.authEvent (some "a"))),
    .device (.service (.resume 0 .thrown)), .forceSync true (some "a"),
    .device (.service (.authEvent (some "b"))), .resume 0 .written] _ rfl
  revert hforced
  decide

end ForcingLog

end Notelayer
