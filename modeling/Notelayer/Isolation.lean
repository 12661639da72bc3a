import Notelayer.AccountDeletion
import Notelayer.Closures
import Notelayer.Library.Noninterference
import Notelayer.LocalOperations
import Notelayer.UserSwitch

/-!
# Isolation of accounts

A `Device` is the service with its store, the stacks of the undo manager, the reminder
operations that are suspended, and the closures that wait. Its steps are the steps of the
service, every local operation, the pieces of the reminder operations, and the closures. Each
step also says what it writes, and through the backend of which user.

A closure that uploads a list of the store, and an initial sync after an upload, read the
store again, which may hold the data of another user by then. A reminder operation writes the
task it has captured through the backend that is attached when it goes on. The writes through
the backend of a user are then no function of that user's data. They are if the store is
reset for another user only while nothing is in flight (`DeviceStep.SwitchesIdle`) : two runs
in which the user does and sees the same write the same documents, whatever the other users
do (`writtenThrough_eq`).
-/

namespace Notelayer

open LocalStore

/-! ## Writes -/

/-- What is written to the backend. -/
inductive DocumentWrite where
  | upsertNotes (notes : List Note)
  | upsertTasks (tasks : List Task)
  | upsertCategories (categories : List Category)
  | deleteNote (id : String)
  | deleteTask (id : String)
  | deleteCategory (id : String)
  | metadata (write : MetadataWrite)
  deriving DecidableEq

/-- A write and the backend object it goes through. -/
abbrev BackendWrite := FirestoreBackend × DocumentWrite

/-- The write a closure starts with in the store `s`. -/
def Closure.document (s : LocalStore) : Closure → Option DocumentWrite
  | upsertNote _ note => some (.upsertNotes [note])
  | deleteNote _ id => some (.deleteNote id)
  | upsertNotes _ notes => some (.upsertNotes notes)
  | upsertTask _ task => some (.upsertTasks [task])
  | upsertTasks _ tasks => some (.upsertTasks tasks)
  | upsertStoreTasks _ => some (.upsertTasks s.tasks)
  | upsertTaskAt _ parentIndex _ => some (.upsertTasks s.tasks[parentIndex]?.toList)
  | deleteTask _ id => some (.deleteTask id)
  | deleteCategory _ id _ => some (.deleteCategory id)
  | upsertCategory _ category => some (.upsertCategories [category])
  | upsertStoreCategories _ => some (.upsertCategories s.categories)
  | cancelReminder _ => none
  | scheduleReminder _ _ _ _ => none
  | rescheduleReminders _ => none

/-- The closure has captured no value, it reads the store when it runs. -/
def Closure.readsStore : Closure → Bool
  | upsertStoreTasks _ => true
  | upsertTaskAt _ _ _ => true
  | upsertStoreCategories _ => true
  | _ => false

/-- Pairs of a backend and a write, if there are both. -/
def backendWrite (backend : Option FirestoreBackend) (write : Option DocumentWrite) :
    List BackendWrite :=
  (backend.bind fun backend => write.map fun write => (backend, write)).toList

/-- The write of the call the initial sync awaits. -/
def SyncPoint.document : SyncPoint → Option DocumentWrite
  | upsertNotes sent _ => some (.upsertNotes sent)
  | upsertTasks sent _ _ => some (.upsertTasks sent)
  | upsertCategories sent _ _ => some (.upsertCategories sent)
  | upsertCategoryGroupMetadata sent => some (.metadata (.categoryGroup sent))
  | upsertExperimentalFeatureMetadata sent _ => some (.metadata (.experimentalFeature sent))
  | upsertInsightsHintMetadata sent => some (.metadata (.insightsHint sent))
  | _ => none

/-- The piece that follows changes the store with `suppressMetadataWrites` set. -/
def SyncPoint.suppressesMetadata : SyncPoint → Bool
  | fetchCategoryGroupMetadata => true
  | fetchInsightsHintMetadata _ => true
  | _ => false

/-! ## The device -/

/-- The app on a device, with all that waits in it. -/
structure Device where
  service : Service
  undoStack : List Task := []
  redoStack : List Task := []
  /-- The reminder operations that are suspended. -/
  reminders : List ReminderOperation := []
  /-- The closures that have not run, oldest first. -/
  closures : List Closure := []
  /-- The tasks that are due to be written after a category has been deleted. -/
  secondWrites : List (FirestoreBackend × List Task) := []

/-- A step of the app, from one await to the next. -/
inductive DeviceStep where
  | service (l : ServiceStep)
  | operation (e : Date × LocalOperation)
  /-- A reminder operation starts, or goes on after its await. -/
  | reminder (e : Date × ReminderStep) (isReminder : e.2.isReminder = true)
  /-- The oldest closure runs. -/
  | runClosure
  /-- The `k`-th second write that is due through the backend of the user runs. -/
  | secondWrite (userId : String) (k : ℕ)

namespace Device

variable (d : Device)

/-- The store of the device. -/
def store : LocalStore :=
  d.service.store

/-- The user whose data the store holds. -/
def owner : Option String :=
  d.store.lastBackendUserId

/-- The store with the undo manager and the suspended reminder operations. -/
def reminderSession : ReminderSession where
  session := ⟨d.store, d.undoStack, d.redoStack⟩
  pending := d.reminders

/-- The outputs of the store are taken over. -/
def settle (service : Service) : Device :=
  { d with
    service := { service with store := { service.store with spawned := [], analytics := [] } }
    closures := d.closures ++ service.store.spawned }

/-- What the sinks write when the store changes to `store`. -/
def sinkWrites (store : LocalStore) : List BackendWrite :=
  d.service.sinks.toList.flatMap fun backend =>
    (d.store.metadataSinks store).map fun write => (backend, .metadata write)

/-- What the piece of the initial sync after the response writes. -/
def syncWrites (invocation : Invocation) (response : Response) : List BackendWrite :=
  match invocation.point.resume response d.store with
  | some (_, some next) =>
    if next = invocation.point then [] else backendWrite invocation.backend next.document
  | _ => []

/-- What a step of the service writes. -/
def serviceWrites (l : ServiceStep) (store : LocalStore) : List BackendWrite :=
  match l with
  | .authEvent _ => []
  | .resume k response =>
    match d.service.invocations[k]? with
    | none => []
    | some invocation => d.syncWrites invocation response ++
        if invocation.point.suppressesMetadata then [] else d.sinkWrites store
  | .fire _ _ => []
  | .runHandler k =>
    match d.service.handlers[k]? with
    | none => []
    | some (backend, snapshot) =>
      (if snapshot.isCollection then d.sinkWrites store else []) ++
        backendWrite backend ((snapshot.handle d.store).bind fun r => r.2.map .metadata)

/-- The oldest closure runs, and writes through the backend that it has captured. -/
def runClosure : Option (Device × List BackendWrite) :=
  match d.closures with
  | [] => some (d, [])
  | closure :: closures =>
    if closure.inRange d.store.tasks then
      some ({ d with
        closures := closures
        secondWrites := d.secondWrites ++ (closure.backend.bind fun backend =>
          closure.secondWrite.map fun tasks => (backend, tasks)).toList },
        backendWrite closure.backend (closure.document d.store))
    else none

/-- The closures that write through the backend of the user. -/
def closuresOf (userId : String) : List Closure :=
  d.closures.filter fun closure => closure.backend = some ⟨userId⟩

/-- The second writes that are due through the backend of the user. -/
def dueWrites (userId : String) : List (FirestoreBackend × List Task) :=
  d.secondWrites.filter fun write => write.1 = ⟨userId⟩

/-- A second write of an operation that is due. -/
def runSecondWrite (userId : String) (k : ℕ) : Device × List BackendWrite :=
  match (d.dueWrites userId)[k]? with
  | none => (d, [])
  | some write =>
    ({ d with secondWrites := d.secondWrites.erase write }, [(write.1, .upsertTasks write.2)])

/-- The device after the step, and what the step writes. -/
def act (l : DeviceStep) (d : Device) : Option (Device × List BackendWrite) :=
  match l with
  | .service l => (d.service.step l).map fun service =>
    (d.settle service, d.serviceWrites l service.store)
  | .operation e => (LocalOperation.step e ⟨d.store, d.undoStack, d.redoStack⟩).map fun u =>
    ({ d.settle { d.service with store := u.store } with
      undoStack := u.undoStack
      redoStack := u.redoStack }, d.sinkWrites u.store)
  | .reminder e _ => (ReminderSession.step e d.reminderSession).map fun r =>
    ({ d.settle { d.service with store := r.session.store } with reminders := r.pending },
      d.sinkWrites r.session.store)
  | .runClosure => d.runClosure
  | .secondWrite userId k => some (d.runSecondWrite userId k)

/-- Nothing that waits reads the store again, or changes it. In particular no reminder operation
is suspended. -/
structure Idle (d : Device) : Prop where
  invocations : d.service.invocations = []
  active : ∀ registration ∈ d.service.active, registration ∈ d.service.listeners
  handlers : d.service.handlers = []
  undoStack : d.undoStack = []
  redoStack : d.redoStack = []
  reminders : d.reminders = []
  closures : ∀ closure ∈ d.closures, closure.readsStore = false

/-- A start with the store as it was loaded. -/
def start (s : LocalStore) : Device :=
  { service := { store := { s with
      backend := none
      suppressBackendWrites := false
      spawned := []
      analytics := [] } } }

end Device

/-- A device and everything it has written. -/
structure DeviceLog where
  device : Device
  written : List BackendWrite := []

namespace DeviceLog

variable (x : DeviceLog)

/-- The step function of the device, which keeps a log of its writes. -/
def step (l : DeviceStep) (x : DeviceLog) : Option DeviceLog :=
  (x.device.act l).map fun r => ⟨r.1, x.written ++ r.2⟩

/-- The documents written through the backend of the user. -/
def writtenThrough (userId : String) : List DocumentWrite :=
  (x.written.filter fun write => write.1 = ⟨userId⟩).map Prod.snd

end DeviceLog

/-- The store holds data of the user, or of nobody yet. -/
def Device.HoldsDataOf (d : Device) (userId : String) : Prop :=
  ∀ owner ∈ d.owner, owner = userId

instance (d : Device) (userId : String) : Decidable (d.HoldsDataOf userId) :=
  inferInstanceAs (Decidable (∀ owner ∈ d.owner, owner = userId))

/-- The step brings the user's sign-in. -/
def DeviceStep.signsIn (userId : String) : DeviceStep → Bool
  | service (.authEvent user) => user = some userId
  | _ => false

/-- The step runs a closure or a second write of the user, or it is taken while the store holds
the user's data, or it signs the user in. -/
def seenBy (userId : String) (l : DeviceStep) (x : DeviceLog) : Bool :=
  match l with
  | .runClosure => x.device.closures.head?.bind Closure.backend = some ⟨userId⟩
  | .secondWrite user _ => user = userId
  | l => x.device.HoldsDataOf userId || l.signsIn userId

/-- An auth event resets the store for another user only while nothing waits that reads the
store again, or changes it. -/
def DeviceStep.SwitchesIdle (l : DeviceStep) (x : DeviceLog) : Prop :=
  ∀ userId, l = service (.authEvent (some userId)) → x.device.store.resetsFor userId = true →
    x.device.Idle

/-! ## The flag that suppresses writes -/

namespace LocalStore

variable {s s' : LocalStore}

theorem suppress_applyRemoteUpdate {updates : LocalStore → Option LocalStore}
    (h : s.applyRemoteUpdate updates = some s') :
    s'.suppressBackendWrites = s.suppressBackendWrites := by
  obtain ⟨s₁, -, rfl⟩ := Option.map_eq_some_iff.mp h
  rfl

theorem suppress_changeUser {userId : String} (h : s.changeUser userId = some s') :
    s'.suppressBackendWrites = s.suppressBackendWrites := by
  obtain ⟨s₁, h₁, rfl⟩ := Option.map_eq_some_iff.mp h
  split_ifs at h₁
  · unfold resetForNewUser at h₁
    have hreset := suppress_applyRemoteUpdate h₁
    exact hreset
  · obtain rfl := Option.some_inj.mp h₁
    rfl

theorem spawnsReminders_changeUser {userId : String} (h : s.changeUser userId = some s') :
    s.SpawnsReminders s' := by
  obtain ⟨s₁, h₁, rfl⟩ := Option.map_eq_some_iff.mp h
  split_ifs at h₁
  · have hreset := spawnsReminders_resetForNewUser h₁
    exact hreset
  · obtain rfl := Option.some_inj.mp h₁
    exact SpawnsReminders.refl s

end LocalStore

/-- A handler leaves the suppression as it was. -/
theorem suppress_handle {snapshot : Snapshot} {s s' : LocalStore} {push : Option MetadataWrite}
    (h : snapshot.handle s = some (s', push)) :
    s'.suppressBackendWrites = s.suppressBackendWrites := by
  have hmap : ∀ {updates : LocalStore → Option LocalStore},
      (s.applyRemoteUpdate updates).map (·, none) = some (s', push) →
      s'.suppressBackendWrites = s.suppressBackendWrites := by
    intro updates h
    obtain ⟨s₁, h₁, h⟩ := Option.map_eq_some_iff.mp h
    obtain ⟨rfl, -⟩ := Prod.mk.inj h
    exact suppress_applyRemoteUpdate h₁
  cases snapshot with
  | notes ns =>
    unfold Snapshot.handle applyRemoteNotes at h
    exact hmap h
  | tasks ts =>
    unfold Snapshot.handle applyRemoteTasks at h
    exact hmap h
  | categories cs =>
    unfold Snapshot.handle applyRemoteCategories at h
    exact hmap h
  | categoryGroupMetadata position =>
    cases position with
    | none =>
      obtain ⟨rfl, -⟩ := Prod.mk.inj (Option.some_inj.mp h)
      rfl
    | some position =>
      unfold Snapshot.handle applyRemoteUncategorizedPosition at h
      exact hmap h
  | experimentalFeatureMetadata remoteEnabled remoteUpdatedAt =>
    obtain ⟨rfl, -⟩ := Prod.mk.inj (Option.some_inj.mp h)
    rfl
  | insightsHintMetadata remoteState =>
    obtain ⟨rfl, -⟩ := Prod.mk.inj (Option.some_inj.mp h)
    rfl

section Pieces

variable {remote : Fetched} {notes : List Note} {tasks : List Task} {categories : List Category}
  {s s' : LocalStore} {next : Option SyncPoint}

theorem suppress_applySnapshot (h : applySnapshot notes tasks categories s = some (s', next)) :
    s'.suppressBackendWrites = s.suppressBackendWrites := by
  obtain ⟨s₁, h₁, h⟩ := Option.map_eq_some_iff.mp h
  obtain ⟨rfl, -⟩ := Prod.mk.inj h
  exact suppress_applyRemoteUpdate h₁

theorem suppress_uploadCategories (h : uploadCategories remote notes tasks s = some (s', next)) :
    s'.suppressBackendWrites = s.suppressBackendWrites := by
  unfold uploadCategories at h
  split_ifs at h
  · obtain ⟨rfl, -⟩ := Prod.mk.inj (Option.some_inj.mp h)
    rfl
  · exact suppress_applySnapshot h

theorem suppress_uploadTasks (h : uploadTasks remote notes s = some (s', next)) :
    s'.suppressBackendWrites = s.suppressBackendWrites := by
  unfold uploadTasks at h
  split_ifs at h
  · obtain ⟨rfl, -⟩ := Prod.mk.inj (Option.some_inj.mp h)
    rfl
  · exact suppress_uploadCategories h

theorem suppress_uploadNotes (h : uploadNotes remote s = some (s', next)) :
    s'.suppressBackendWrites = s.suppressBackendWrites := by
  unfold uploadNotes at h
  split_ifs at h
  · obtain ⟨rfl, -⟩ := Prod.mk.inj (Option.some_inj.mp h)
    rfl
  · exact suppress_uploadTasks h

end Pieces

/-- A response leaves the suppression as it was. -/
theorem SyncPoint.suppress_resume {p : SyncPoint} {response : Response} {s s' : LocalStore}
    {next : Option SyncPoint} (h : p.resume response s = some (s', next)) :
    s'.suppressBackendWrites = s.suppressBackendWrites := by
  have hsome : ∀ {q : Option SyncPoint}, some (s, q) = some (s', next) →
      s'.suppressBackendWrites = s.suppressBackendWrites := by
    intro q h
    obtain ⟨rfl, -⟩ := Prod.mk.inj (Option.some_inj.mp h)
    rfl
  unfold resume at h
  split at h
  · exact hsome h
  · exact suppress_uploadNotes h
  · exact suppress_uploadTasks h
  · exact suppress_uploadCategories h
  · exact suppress_applySnapshot h
  · obtain ⟨s₁, h₁, h⟩ := Option.map_eq_some_iff.mp h
    obtain ⟨rfl, -⟩ := Prod.mk.inj h
    exact suppress_applyRemoteUpdate h₁
  · split_ifs at h <;> exact hsome h
  · exact hsome h
  · exact hsome h
  · rename_i remoteExperimental remoteInsightsHint
    have hs' : (reconcileMetadata remoteExperimental remoteInsightsHint s).1 = s' :=
      congrArg Prod.fst (Option.some_inj.mp h)
    rw [← hs']
    unfold reconcileMetadata pushInsightsHint
    dsimp only
    split_ifs <;> rfl
  · unfold pushInsightsHint at h
    split_ifs at h <;> exact hsome h
  · exact hsome h
  · exact hsome h

/-! ## The reset -/

namespace LocalStore

variable {s s' : LocalStore}

/-- A migration does not look at the user. -/
theorem migrateIfNeeded_updateBackendUserId (s : LocalStore) (userId : Option String) :
    (s.updateBackendUserId userId).migrateIfNeeded =
      s.migrateIfNeeded.map fun s' => s'.updateBackendUserId userId := by
  have hempty : (s.updateBackendUserId userId).migrateEmptyCategories =
      s.migrateEmptyCategories.updateBackendUserId userId := by
    unfold migrateEmptyCategories
    split_ifs <;> first | rfl | contradiction
  have hposition : ∀ s : LocalStore,
      (s.updateBackendUserId userId).migrateUncategorizedPosition =
        s.migrateUncategorizedPosition.updateBackendUserId userId := by
    intro s
    unfold migrateUncategorizedPosition
    dsimp only
    split_ifs <;> first | rfl | contradiction
  unfold migrateIfNeeded
  dsimp only
  rw [hempty]
  generalize s.migrateEmptyCategories = s₁
  have hwith : { s₁.updateBackendUserId userId with
      categories := migratedCategories (s₁.updateBackendUserId userId).categories } =
        updateBackendUserId { s₁ with categories := migratedCategories s₁.categories } userId :=
    rfl
  rw [hwith, hposition, Option.map_map]
  generalize migrateUncategorizedPosition _ = s₂
  congr 1
  funext lookup
  simp only [Function.comp_apply]
  split_ifs <;> first | rfl | contradiction

/-- A reset does not look at the user. -/
theorem resetForNewUser_updateBackendUserId (s : LocalStore) (userId : Option String) :
    (s.updateBackendUserId userId).resetForNewUser =
      s.resetForNewUser.map fun s' => s'.updateBackendUserId userId := by
  unfold resetForNewUser applyRemoteUpdate
  rw [Option.map_map]
  dsimp only
  have hmap := congrArg (Option.map fun s' : LocalStore =>
    { s' with suppressBackendWrites := s.suppressBackendWrites })
    (migrateIfNeeded_updateBackendUserId (saveVoiceStaging (saveInsightsHintState
      (saveExperimentalFeaturesPreference (saveUncategorizedPosition (saveCategories
        (saveTasks (saveNotes { s with
          suppressBackendWrites := true
          notes := []
          tasks := []
          categories := []
          uncategorizedPosition := 0
          experimentalFeaturesPreference := .default
          insightsHintState := .default
          voiceStagingDrafts := []
          voiceSourceTranscript := ""
          isVoiceStagingPresented := false
          pendingSharedImportCount := 0
          lastSharedImportError := none
          lastSharedImportProcessedAt := none
          hasStoredExperimentalPreference := false
          hasStoredInsightsHintState := false }))))))) userId)
  rw [Option.map_map] at hmap
  exact hmap

/-- The reset keeps the backend, the flag and the outputs, and forgets the rest. -/
theorem resetForNewUser_congr (hb : s.backend = s'.backend)
    (hlast : s.userDefaults.backendUserId = s'.userDefaults.backendUserId)
    (hsuppress : s.suppressBackendWrites = s'.suppressBackendWrites)
    (hspawned : s.spawned = s'.spawned) (hanalytics : s.analytics = s'.analytics) :
    s.resetForNewUser = s'.resetForNewUser := by
  unfold resetForNewUser applyRemoteUpdate
  simp only [saveNotes, saveTasks, saveCategories, saveUncategorizedPosition,
    saveExperimentalFeaturesPreference, saveInsightsHintState, saveVoiceStaging, hb, hlast,
    hsuppress, hspawned, hanalytics, List.isEmpty_nil, if_true]

/-- A sign-in that resets the store forgets what it held. -/
theorem changeUser_congr {userId : String} (hr : s.resetsFor userId = true)
    (hr' : s'.resetsFor userId = true)
    (hsuppress : s.suppressBackendWrites = s'.suppressBackendWrites)
    (hspawned : s.spawned = s'.spawned) (hanalytics : s.analytics = s'.analytics) :
    s.changeUser userId = s'.changeUser userId := by
  have hreset : ∀ s : LocalStore, s.resetsFor userId = true → s.changeUser userId =
      (((s.attachBackend none).updateBackendUserId (some userId)).resetForNewUser).map
        fun s => s.attachBackend (some ⟨userId⟩) := by
    intro s hr
    have hr : (s.attachBackend none).resetsFor userId = true := hr
    unfold changeUser
    dsimp only
    rw [if_pos hr, resetForNewUser_updateBackendUserId, Option.map_map]
    rfl
  rw [hreset s hr, hreset s' hr']
  congr 1
  exact resetForNewUser_congr rfl rfl hsuppress hspawned hanalytics

end LocalStore

/-! ## Ownership -/

/-- What waits and reads the store again is of the user whose data the store holds. -/
structure Device.Owned (d : Device) : Prop where
  backend : ∀ backend ∈ d.store.backend, d.owner = some backend.userId
  sinks : ∀ backend ∈ d.service.sinks, d.owner = some backend.userId
  invocations : ∀ invocation ∈ d.service.invocations, d.owner = some invocation.backend.userId
  active : ∀ registration ∈ d.service.active, d.owner = some registration.backend.userId
  handlers : ∀ handler ∈ d.service.handlers, d.owner = some handler.1.userId
  closures : ∀ closure ∈ d.closures, closure.readsStore = true → ∀ backend ∈ closure.backend,
    d.owner = some backend.userId
  suppress : d.store.suppressBackendWrites = false
  spawned : d.store.spawned = []
  analytics : d.store.analytics = []

namespace Device

variable {d d' : Device} {w : List BackendWrite}

theorem owned_start (s : LocalStore) : (start s).Owned where
  backend _ h := absurd h (Option.not_mem_none _)
  sinks _ h := absurd h (Option.not_mem_none _)
  invocations _ h := absurd h List.not_mem_nil
  active _ h := absurd h List.not_mem_nil
  handlers _ h := absurd h List.not_mem_nil
  closures _ h := absurd h List.not_mem_nil
  suppress := rfl
  spawned := rfl
  analytics := rfl

/-- The data stays with its user, and so does the backend. -/
theorem Owned.settle (h : d.Owned) {service : Service}
    (hlast : service.store.lastBackendUserId = d.owner)
    (hbackend : ∀ b ∈ service.store.backend, d.store.backend = some b)
    (hsinks : ∀ b ∈ service.sinks, d.owner = some b.userId)
    (hinvocations : ∀ i ∈ service.invocations, d.owner = some i.backend.userId)
    (hactive : ∀ r ∈ service.active, d.owner = some r.backend.userId)
    (hhandlers : ∀ x ∈ service.handlers, d.owner = some x.1.userId)
    (hsuppress : service.store.suppressBackendWrites = false)
    (hspawned : ∀ c ∈ service.store.spawned, ∀ b ∈ c.backend, d.owner = some b.userId) :
    (d.settle service).Owned where
  backend b hb := hlast.trans (h.backend b (hbackend b hb))
  sinks b hb := hlast.trans (hsinks b hb)
  invocations i hi := hlast.trans (hinvocations i hi)
  active r hr := hlast.trans (hactive r hr)
  handlers x hx := hlast.trans (hhandlers x hx)
  closures c hc hr b hb := by
    rcases List.mem_append.mp hc with hc | hc
    · exact hlast.trans (h.closures c hc hr b hb)
    · exact hlast.trans (hspawned c hc b hb)
  suppress := hsuppress
  spawned := rfl
  analytics := rfl

/-- Closures that reschedule reminders write through no backend. -/
theorem backend_of_spawnsReminders {s s' : LocalStore} (hs : s.spawned = [])
    (h : s.SpawnsReminders s') : ∀ c ∈ s'.spawned, ∀ b : FirestoreBackend, b ∉ c.backend := by
  obtain ⟨closures, hspawned, hc⟩ := h
  rw [hs, List.nil_append] at hspawned
  intro c hmem b hb
  obtain ⟨tasks, rfl⟩ := hc c (hspawned ▸ hmem)
  cases hb

/-- A piece or a handler. -/
theorem Owned.settle_of_sameAccount (h : d.Owned) {service : Service}
    (hs : d.store.SameAccount service.store)
    (hsuppress : service.store.suppressBackendWrites = d.store.suppressBackendWrites)
    (hsinks : ∀ b ∈ service.sinks, d.owner = some b.userId)
    (hinvocations : ∀ i ∈ service.invocations, d.owner = some i.backend.userId)
    (hactive : ∀ r ∈ service.active, d.owner = some r.backend.userId)
    (hhandlers : ∀ x ∈ service.handlers, d.owner = some x.1.userId) :
    (d.settle service).Owned :=
  h.settle hs.lastUser (fun _ hb => hs.backend ▸ hb) hsinks hinvocations hactive hhandlers
    (hsuppress.trans h.suppress)
    fun c hc b hb => absurd hb (backend_of_spawnsReminders h.spawned hs.spawned c hc b)

/-- A response keeps every closure with its owner. -/
theorem Owned.resume (h : d.Owned) {k : ℕ} {response : Response} {service : Service}
    (hu : d.service.resume k response = some service) : (d.settle service).Owned := by
  unfold Service.resume at hu
  cases hk : d.service.invocations[k]? with
  | none =>
    rw [hk] at hu
    obtain rfl := Option.some_inj.mp hu
    exact h.settle_of_sameAccount (sameAccount_of_eq rfl rfl rfl) rfl h.sinks h.invocations
      h.active h.handlers
  | some invocation =>
    have huser := h.invocations invocation (List.mem_of_getElem? hk)
    rw [hk] at hu
    obtain ⟨⟨s, next⟩, hs, rfl⟩ := Option.map_eq_some_iff.mp hu
    have hsame := SyncPoint.sameAccount_resume hs
    have hsuppress := SyncPoint.suppress_resume hs
    cases next with
    | none =>
      refine h.settle_of_sameAccount hsame hsuppress ?_ ?_ ?_ h.handlers
      · intro b hb
        obtain rfl := Option.some_inj.mp hb
        exact huser
      · exact fun i hi => h.invocations i (List.mem_of_mem_eraseIdx hi)
      · intro r hr
        rcases List.mem_append.mp hr with hr | hr
        · exact h.active r hr
        · obtain rfl := List.mem_singleton.mp hr
          exact huser
    | some point =>
      refine h.settle_of_sameAccount hsame hsuppress h.sinks ?_ h.active h.handlers
      intro i hi
      rcases List.mem_or_eq_of_mem_set hi with hi | rfl
      · exact h.invocations i hi
      · exact huser

/-- A snapshot keeps every closure with its owner. -/
theorem Owned.fire (h : d.Owned) (k : ℕ) (snapshot : Snapshot) :
    (d.settle (d.service.fire k snapshot)).Owned := by
  unfold Service.fire
  cases hk : d.service.active[k]? with
  | none =>
    exact h.settle_of_sameAccount (sameAccount_of_eq rfl rfl rfl) rfl h.sinks h.invocations
      h.active h.handlers
  | some registration =>
    refine h.settle_of_sameAccount (sameAccount_of_eq rfl rfl rfl) rfl h.sinks h.invocations
      h.active fun x hx => ?_
    rcases List.mem_append.mp hx with hx | hx
    · exact h.handlers x hx
    · obtain rfl := List.mem_singleton.mp hx
      exact h.active registration (List.mem_of_getElem? hk)

/-- A handler keeps every closure with its owner. -/
theorem Owned.runHandler (h : d.Owned) {k : ℕ} {service : Service}
    (hu : d.service.runHandler k = some service) : (d.settle service).Owned := by
  unfold Service.runHandler at hu
  cases hk : d.service.handlers[k]? with
  | none =>
    rw [hk] at hu
    obtain rfl := Option.some_inj.mp hu
    exact h.settle_of_sameAccount (sameAccount_of_eq rfl rfl rfl) rfl h.sinks h.invocations
      h.active h.handlers
  | some handler =>
    obtain ⟨backend, snapshot⟩ := handler
    rw [hk] at hu
    obtain ⟨⟨s, push⟩, hs, rfl⟩ := Option.map_eq_some_iff.mp hu
    exact h.settle_of_sameAccount (Snapshot.sameAccount_handle hs) (suppress_handle hs) h.sinks
      h.invocations h.active fun x hx => h.handlers x (List.mem_of_mem_eraseIdx hx)

/-- An operation keeps the account, so what it spawns is of the same user. -/
theorem Owned.settle_of_keepsAccount (h : d.Owned) {store : LocalStore}
    (hkeep : d.store.KeepsAccount store) :
    (d.settle { d.service with store := store }).Owned := by
  obtain ⟨closures, hspawned, hc⟩ := hkeep.spawned
  refine @Owned.settle d h { d.service with store := store } hkeep.lastUser
    (fun _ hb => hkeep.backend ▸ hb) h.sinks h.invocations h.active h.handlers
    (hkeep.suppress.trans h.suppress) fun c hmem b hb => ?_
  have hmem' : c ∈ closures := by
    have heq : store.spawned = closures := hspawned.trans (by rw [h.spawned]; rfl)
    exact heq ▸ hmem
  exact h.backend b (hc c hmem' b hb)

theorem Owned.operation (h : d.Owned) {e : Date × LocalOperation} {u : Session}
    (hu : LocalOperation.step e ⟨d.store, d.undoStack, d.redoStack⟩ = some u) :
    Owned { d.settle { d.service with store := u.store } with
      undoStack := u.undoStack
      redoStack := u.redoStack } :=
  { h.settle_of_keepsAccount (LocalOperation.keepsAccount_step hu) with }

theorem Owned.reminder (h : d.Owned) {e : Date × ReminderStep} (he : e.2.isReminder = true)
    {r : ReminderSession} (hr : ReminderSession.step e d.reminderSession = some r) :
    Owned { d.settle { d.service with store := r.session.store } with
      reminders := r.pending } :=
  { h.settle_of_keepsAccount (ReminderStep.edits_step he hr).keepsAccount with }

/-- A closure that runs keeps the others with their owners. -/
theorem Owned.runClosure (h : d.Owned) (hd : d.runClosure = some (d', w)) : d'.Owned := by
  unfold Device.runClosure at hd
  split at hd
  · obtain ⟨rfl, -⟩ := Prod.mk.inj (Option.some_inj.mp hd)
    exact h
  · rename_i closure closures hclosures
    split_ifs at hd
    obtain ⟨rfl, -⟩ := Prod.mk.inj (Option.some_inj.mp hd)
    have hmem : ∀ c, c = closure ∨ c ∈ closures → c ∈ d.closures := by
      intro c hc
      rw [hclosures]
      exact List.mem_cons.mpr hc
    exact { h with closures := fun c hc => h.closures c (hmem c (Or.inr hc)) }

theorem Owned.runSecondWrite (h : d.Owned) (userId : String) (k : ℕ) :
    (d.runSecondWrite userId k).1.Owned := by
  unfold Device.runSecondWrite
  split
  · exact h
  · exact { h with }

/-- An auth event that resets the store finds nothing in flight. -/
theorem Owned.handleUserChange (h : d.Owned) {user : Option String}
    (hg : ∀ userId ∈ user, d.store.resetsFor userId = true → d.Idle) {service : Service}
    (hu : d.service.handleUserChange user = some service) : (d.settle service).Owned := by
  cases user with
  | none =>
    obtain rfl := Option.some_inj.mp hu
    refine h.settle rfl ?_ ?_ h.invocations ?_ h.handlers h.suppress ?_
    · exact fun b hb => absurd hb (Option.not_mem_none b)
    · exact fun b hb => absurd hb (Option.not_mem_none b)
    · exact fun r hr => h.active r (List.mem_of_mem_filter hr)
    · intro c hc
      have hmem : c ∈ d.store.spawned := hc
      rw [h.spawned] at hmem
      exact absurd hmem List.not_mem_nil
  | some userId =>
    obtain ⟨store, hstore, rfl⟩ := Option.map_eq_some_iff.mp hu
    obtain ⟨hb, hlast⟩ := account_changeUser hstore
    have hspawned := spawnsReminders_changeUser hstore
    -- what was in flight before is of the user who signs in, or there was nothing
    have hold : ∀ b : FirestoreBackend, ¬d.Idle → d.owner = some b.userId →
        some userId = some b.userId := by
      intro b hidle ho
      have hr := mt (hg userId rfl) hidle
      exact congrArg some (eq_of_not_resetsFor hr ho).symm
    have hidle : ∀ {A : Type} {l : List A} {a : A}, (d.Idle → l = []) → a ∈ l → ¬d.Idle := by
      intro A l a hnil ha hidle
      rw [hnil hidle] at ha
      cases ha
    have howner : ∀ b : FirestoreBackend, some userId = some b.userId →
        Device.owner (d.settle { d.service.stopListeners with
          store := store, backend := some ⟨userId⟩, sinks := none, user := some userId,
          invocations := d.service.invocations ++ [⟨⟨userId⟩, .fetchAll⟩],
          applied := if d.store.resetsFor userId then [] else d.service.applied }) =
            some b.userId := fun b hb => hlast.trans hb
    refine ⟨?_, ?_, ?_, ?_, ?_, ?_, ?_, rfl, rfl⟩
    · intro b hmem
      obtain rfl := Option.some_inj.mp (hb.symm.trans hmem)
      exact howner _ rfl
    · exact fun b hmem => absurd hmem (Option.not_mem_none b)
    · intro i hi
      rcases List.mem_append.mp hi with hi | hi
      · exact howner _ (hold _ (hidle Idle.invocations hi) (h.invocations i hi))
      · obtain rfl := List.mem_singleton.mp hi
        exact howner _ rfl
    · intro r hr
      obtain ⟨hr, hlost⟩ := List.mem_filter.mp hr
      have hbusy : ¬d.Idle := fun hidle => by simp [hidle.active r hr] at hlost
      exact howner _ (hold _ hbusy (h.active r hr))
    · exact fun x hx => howner _ (hold _ (hidle Idle.handlers hx) (h.handlers x hx))
    · intro c hc hreads b hcb
      rcases List.mem_append.mp hc with hc | hc
      · have hbusy : ¬d.Idle := fun hidle => by simp [hidle.closures c hc] at hreads
        exact howner _ (hold _ hbusy (h.closures c hc hreads b hcb))
      · exact absurd hcb (backend_of_spawnsReminders h.spawned hspawned c hc b)
    · exact (suppress_changeUser hstore).trans h.suppress

/-- A step that switches accounts only while nothing is in flight keeps ownership. -/
theorem Owned.act (h : d.Owned) {l : DeviceStep}
    (hg : ∀ userId, l = .service (.authEvent (some userId)) → d.store.resetsFor userId = true →
      d.Idle) (hd : d.act l = some (d', w)) : d'.Owned := by
  cases l with
  | service l =>
    obtain ⟨service, hs, hd⟩ := Option.map_eq_some_iff.mp hd
    obtain ⟨rfl, -⟩ := Prod.mk.inj hd
    cases l with
    | authEvent user =>
      refine h.handleUserChange (fun userId hu => ?_) hs
      exact hg userId (congrArg (DeviceStep.service ∘ ServiceStep.authEvent) hu)
    | resume k response => exact h.resume hs
    | fire k snapshot =>
      obtain rfl := Option.some_inj.mp hs
      exact h.fire k snapshot
    | runHandler k => exact h.runHandler hs
  | operation e =>
    obtain ⟨u, hu, hd⟩ := Option.map_eq_some_iff.mp hd
    obtain ⟨rfl, -⟩ := Prod.mk.inj hd
    exact h.operation hu
  | reminder e he =>
    obtain ⟨r, hr, hd⟩ := Option.map_eq_some_iff.mp hd
    obtain ⟨rfl, -⟩ := Prod.mk.inj hd
    exact h.reminder he hr
  | runClosure => exact h.runClosure hd
  | secondWrite userId k =>
    obtain rfl := congrArg Prod.fst (Option.some_inj.mp hd)
    exact h.runSecondWrite userId k

/-! ## What a step writes, and for whom -/

theorem mem_backendWrite {b : Option FirestoreBackend} {o : Option DocumentWrite}
    {x : BackendWrite} (h : x ∈ backendWrite b o) : b = some x.1 := by
  obtain ⟨backend, hb, hx⟩ := Option.bind_eq_some_iff.mp (Option.mem_toList.mp h)
  obtain ⟨write, -, rfl⟩ := Option.map_eq_some_iff.mp hx
  exact hb

theorem Owned.owner_of_mem_sinkWrites (h : d.Owned) {s : LocalStore} {x : BackendWrite}
    (hx : x ∈ d.sinkWrites s) : d.owner = some x.1.userId := by
  obtain ⟨backend, hb, hx⟩ := List.mem_flatMap.mp hx
  obtain ⟨write, -, rfl⟩ := List.mem_map.mp hx
  exact h.sinks backend (Option.mem_toList.mp hb)

/-- The service writes for the owner of the device. -/
theorem Owned.owner_of_mem_serviceWrites (h : d.Owned) {l : ServiceStep} {s : LocalStore}
    {x : BackendWrite} (hx : x ∈ d.serviceWrites l s) : d.owner = some x.1.userId := by
  cases l with
  | authEvent user => cases hx
  | fire k snapshot => cases hx
  | resume k response =>
    simp only [serviceWrites] at hx
    split at hx
    · cases hx
    · rename_i invocation hk
      have huser := h.invocations invocation (List.mem_of_getElem? hk)
      rcases List.mem_append.mp hx with hx | hx
      · unfold syncWrites at hx
        split at hx
        · split_ifs at hx
          · cases hx
          · rw [← Option.some_inj.mp (mem_backendWrite hx)]
            exact huser
        · cases hx
      · split_ifs at hx
        · cases hx
        · exact h.owner_of_mem_sinkWrites hx
  | runHandler k =>
    simp only [serviceWrites] at hx
    split at hx
    · cases hx
    · rename_i backend snapshot hk
      rcases List.mem_append.mp hx with hx | hx
      · split_ifs at hx
        · exact h.owner_of_mem_sinkWrites hx
        · cases hx
      · rw [← Option.some_inj.mp (mem_backendWrite hx)]
        exact h.handlers _ (List.mem_of_getElem? hk)

/-- No piece, handler or auth event spawns a closure that writes. -/
theorem spawnsReminders_service {l : ServiceStep} {service : Service}
    (hs : d.service.step l = some service) : d.store.SpawnsReminders service.store := by
  cases l with
  | authEvent user =>
    cases user with
    | none =>
      obtain rfl := Option.some_inj.mp hs
      exact ⟨[], (List.append_nil _).symm, by simp⟩
    | some userId =>
      obtain ⟨store, hstore, rfl⟩ := Option.map_eq_some_iff.mp hs
      exact spawnsReminders_changeUser hstore
  | fire k snapshot =>
    obtain rfl := Option.some_inj.mp hs
    unfold Service.fire
    split <;> exact SpawnsReminders.refl _
  | resume k response =>
    change d.service.resume k response = some service at hs
    unfold Service.resume at hs
    split at hs
    · obtain rfl := Option.some_inj.mp hs
      exact SpawnsReminders.refl _
    · obtain ⟨⟨s, next⟩, hr, rfl⟩ := Option.map_eq_some_iff.mp hs
      have hspawned := (SyncPoint.sameAccount_resume hr).spawned
      cases next <;> exact hspawned
  | runHandler k =>
    change d.service.runHandler k = some service at hs
    unfold Service.runHandler at hs
    split at hs
    · obtain rfl := Option.some_inj.mp hs
      exact SpawnsReminders.refl _
    · obtain ⟨⟨s, push⟩, hr, rfl⟩ := Option.map_eq_some_iff.mp hs
      exact (Snapshot.sameAccount_handle hr).spawned

/-- The step writes to the user whose data the store holds, now and in the closures it
spawns. -/
structure ServesOwner (d d' : Device) (w : List BackendWrite) : Prop where
  closures : ∃ spawned, d'.closures = d.closures ++ spawned ∧
    ∀ closure ∈ spawned, ∀ backend ∈ closure.backend, d.owner = some backend.userId
  secondWrites : d'.secondWrites = d.secondWrites
  writes : ∀ x ∈ w, d.owner = some x.1.userId

theorem Owned.servesOwner_service (h : d.Owned) {l : ServiceStep}
    (hd : d.act (.service l) = some (d', w)) : d.ServesOwner d' w := by
  obtain ⟨service, hs, hd⟩ := Option.map_eq_some_iff.mp hd
  obtain ⟨rfl, rfl⟩ := Prod.mk.inj hd
  refine ⟨⟨service.store.spawned, rfl, ?_⟩, rfl, fun x hx => h.owner_of_mem_serviceWrites hx⟩
  intro c hc b hb
  exact absurd hb (backend_of_spawnsReminders h.spawned (spawnsReminders_service hs) c hc b)

theorem Owned.servesOwner_of_keepsAccount (h : d.Owned) {store : LocalStore}
    (hkeep : d.store.KeepsAccount store)
    (hclosures : d'.closures = d.closures ++ store.spawned)
    (hsecond : d'.secondWrites = d.secondWrites) : d.ServesOwner d' (d.sinkWrites store) := by
  obtain ⟨closures, hspawned, hc⟩ := hkeep.spawned
  refine ⟨⟨store.spawned, hclosures, fun c hmem b hb => ?_⟩, hsecond,
    fun x hx => h.owner_of_mem_sinkWrites hx⟩
  rw [hspawned, h.spawned] at hmem
  exact h.backend b (hc c hmem b hb)

theorem Owned.servesOwner_operation (h : d.Owned) {e : Date × LocalOperation}
    (hd : d.act (.operation e) = some (d', w)) : d.ServesOwner d' w := by
  obtain ⟨u, hu, hd⟩ := Option.map_eq_some_iff.mp hd
  obtain ⟨rfl, rfl⟩ := Prod.mk.inj hd
  exact h.servesOwner_of_keepsAccount (LocalOperation.keepsAccount_step hu) rfl rfl

theorem Owned.servesOwner_reminder (h : d.Owned) {e : Date × ReminderStep}
    (he : e.2.isReminder = true) (hd : d.act (.reminder e he) = some (d', w)) :
    d.ServesOwner d' w := by
  obtain ⟨r, hr, hd⟩ := Option.map_eq_some_iff.mp hd
  obtain ⟨rfl, rfl⟩ := Prod.mk.inj hd
  exact h.servesOwner_of_keepsAccount (ReminderStep.edits_step he hr).keepsAccount rfl rfl

/-- Only a sign-in changes whose data the store holds. -/
theorem owner_act {l : DeviceStep} (hd : d.act l = some (d', w)) :
    (∃ userId, l = .service (.authEvent (some userId)) ∧ d'.owner = some userId) ∨
      (∀ userId, l ≠ .service (.authEvent (some userId))) ∧ d'.owner = d.owner := by
  cases l with
  | service l =>
    obtain ⟨service, hs, hd⟩ := Option.map_eq_some_iff.mp hd
    obtain ⟨rfl, -⟩ := Prod.mk.inj hd
    cases l with
    | authEvent user =>
      cases user with
      | none =>
        obtain rfl := Option.some_inj.mp hs
        exact Or.inr ⟨by simp, rfl⟩
      | some userId =>
        obtain ⟨store, hstore, rfl⟩ := Option.map_eq_some_iff.mp hs
        exact Or.inl ⟨userId, rfl, (account_changeUser hstore).2⟩
    | fire k snapshot =>
      obtain rfl := Option.some_inj.mp hs
      refine Or.inr ⟨by simp, ?_⟩
      change (d.service.fire k snapshot).store.lastBackendUserId = d.owner
      unfold Service.fire
      split <;> rfl
    | resume k response =>
      refine Or.inr ⟨by simp, ?_⟩
      change service.store.lastBackendUserId = d.owner
      change d.service.resume k response = some service at hs
      unfold Service.resume at hs
      split at hs
      · obtain rfl := Option.some_inj.mp hs
        rfl
      · obtain ⟨⟨s, next⟩, hr, rfl⟩ := Option.map_eq_some_iff.mp hs
        have hlast := (SyncPoint.sameAccount_resume hr).lastUser
        cases next <;> exact hlast
    | runHandler k =>
      refine Or.inr ⟨by simp, ?_⟩
      change service.store.lastBackendUserId = d.owner
      change d.service.runHandler k = some service at hs
      unfold Service.runHandler at hs
      split at hs
      · obtain rfl := Option.some_inj.mp hs
        rfl
      · obtain ⟨⟨s, push⟩, hr, rfl⟩ := Option.map_eq_some_iff.mp hs
        exact (Snapshot.sameAccount_handle hr).lastUser
  | operation e =>
    obtain ⟨u, hu, hd⟩ := Option.map_eq_some_iff.mp hd
    obtain ⟨rfl, -⟩ := Prod.mk.inj hd
    exact Or.inr ⟨by simp, (LocalOperation.keepsAccount_step hu).lastUser⟩
  | reminder e he =>
    obtain ⟨r, hr, hd⟩ := Option.map_eq_some_iff.mp hd
    obtain ⟨rfl, -⟩ := Prod.mk.inj hd
    exact Or.inr ⟨by simp, (ReminderStep.edits_step he hr).keepsAccount.lastUser⟩
  | runClosure =>
    refine Or.inr ⟨by simp, ?_⟩
    change d.runClosure = some (d', w) at hd
    unfold Device.runClosure at hd
    split at hd
    · obtain ⟨rfl, -⟩ := Prod.mk.inj (Option.some_inj.mp hd)
      rfl
    · split_ifs at hd
      obtain ⟨rfl, -⟩ := Prod.mk.inj (Option.some_inj.mp hd)
      rfl
  | secondWrite userId k =>
    refine Or.inr ⟨by simp, ?_⟩
    have hd' : (d.runSecondWrite userId k).1 = d' := congrArg Prod.fst (Option.some_inj.mp hd)
    subst hd'
    unfold runSecondWrite
    split <;> rfl

end Device

/-! ## Serial numbers -/

/-- Registrations numbered from another start. -/
def Registration.shift (k : ℕ) (registration : Registration) : Registration :=
  { registration with serial := registration.serial + k }

theorem Registration.shift_injective (k : ℕ) : Function.Injective (Registration.shift k) := by
  rintro ⟨m, b⟩ ⟨n, c⟩ h
  obtain ⟨hs, rfl⟩ := Registration.mk.inj h
  obtain rfl : m = n := Nat.add_right_cancel hs
  rfl

namespace Service

/-- The registrations are numbered from another start. -/
def shift (k : ℕ) (u : Service) : Service :=
  { u with
    listeners := u.listeners.map (Registration.shift k)
    active := u.active.map (Registration.shift k)
    registrationCount := u.registrationCount + k }

variable (k : ℕ) (u : Service)

theorem shift_shift (j : ℕ) : (u.shift j).shift k = u.shift (j + k) := by
  have hcomp : Registration.shift k ∘ Registration.shift j = Registration.shift (j + k) := by
    funext registration
    simp only [Function.comp_apply, Registration.shift, Nat.add_assoc]
  simp only [shift, List.map_map, hcomp, Nat.add_assoc]

/-- Stopping the listeners commutes with a shift of the serials. -/
theorem shift_stopListeners : (u.shift k).stopListeners = u.stopListeners.shift k := by
  have hfilter : (u.active.map (Registration.shift k)).filter
      (· ∉ u.listeners.map (Registration.shift k)) =
        (u.active.filter (· ∉ u.listeners)).map (Registration.shift k) := by
    rw [List.filter_map]
    congr 1
    refine List.filter_congr fun registration _ => ?_
    have hmem := List.mem_map_of_injective (Registration.shift_injective k)
      (a := registration) (l := u.listeners)
    simp only [Function.comp_apply, hmem]
  exact congrArg (fun active => { u with
    active := active
    listeners := []
    registrationCount := u.registrationCount + k }) hfilter

theorem shift_startListeners (backend : FirestoreBackend) :
    (u.shift k).startListeners backend = (u.startListeners backend).shift k := by
  simp only [startListeners, shift, List.map_append, List.map_singleton, Registration.shift,
    Nat.add_right_comm]

/-- Numbering the registrations from another start does not change what a step does. -/
theorem shift_step (l : ServiceStep) : (u.shift k).step l = (u.step l).map (shift k) := by
  cases l with
  | authEvent user =>
    cases user with
    | none =>
      simp only [step, handleUserChange, shift_stopListeners]
      rfl
    | some userId =>
      simp only [step, handleUserChange, shift_stopListeners, Option.map_map]
      rfl
  | resume j response =>
    simp only [step, resume]
    change (match u.invocations[j]? with
      | none => _
      | some invocation => _) = _
    cases u.invocations[j]? with
    | none => rfl
    | some invocation =>
      simp only [Option.map_map]
      congr 1
      funext ⟨s, next⟩
      cases next with
      | none =>
        have hstart := shift_startListeners k { u with
          store := s
          applied := if appliedSnapshot invocation.point none then
            u.applied ++ [invocation.backend.userId] else u.applied
          invocations := u.invocations.eraseIdx j } invocation.backend
        exact congrArg (startMetadataSync · invocation.backend) hstart
      | some point => rfl
  | fire j snapshot =>
    simp only [step, fire, shift, List.getElem?_map]
    cases u.active[j]? <;> rfl
  | runHandler j =>
    simp only [step, runHandler]
    change (match u.handlers[j]? with
      | none => _
      | some (backend, snapshot) => _) = _
    cases u.handlers[j]? with
    | none => rfl
    | some handler =>
      simp only [Option.map_map]
      rfl

/-- The same service up to the serial numbers. -/
def SameButSerials (u u' : Service) : Prop :=
  ∃ k k', u.shift k = u'.shift k'

variable {u} {u' v v' : Service}

theorem SameButSerials.refl (u : Service) : u.SameButSerials u :=
  ⟨0, 0, rfl⟩

theorem SameButSerials.symm (h : u.SameButSerials u') : u'.SameButSerials u := by
  obtain ⟨k, k', hk⟩ := h
  exact ⟨k', k, hk.symm⟩

theorem SameButSerials.trans (h : u.SameButSerials u') (h' : u'.SameButSerials v) :
    u.SameButSerials v := by
  obtain ⟨k, k', hk⟩ := h
  obtain ⟨j, j', hj⟩ := h'
  refine ⟨k + j, j' + k', ?_⟩
  calc u.shift (k + j) = (u'.shift k').shift j := by rw [← shift_shift, hk]
    _ = (u'.shift j).shift k' := by rw [shift_shift, shift_shift, Nat.add_comm]
    _ = v.shift (j' + k') := by rw [hj, shift_shift]

theorem SameButSerials.step (h : u.SameButSerials u') {l : ServiceStep}
    (hv : u.step l = some v) (hv' : u'.step l = some v') : v.SameButSerials v' := by
  obtain ⟨k, k', hk⟩ := h
  refine ⟨k, k', Option.some_inj.mp ?_⟩
  have hu := shift_step k u l
  have hu' := shift_step k' u' l
  rw [hv] at hu
  rw [hv', ← hk, hu] at hu'
  exact hu'

theorem SameButSerials.store (h : u.SameButSerials u') : u.store = u'.store := by
  obtain ⟨k, k', hk⟩ := h
  have hstore := congrArg Service.store hk
  exact hstore

theorem SameButSerials.sinks (h : u.SameButSerials u') : u.sinks = u'.sinks := by
  obtain ⟨k, k', hk⟩ := h
  have hsinks := congrArg Service.sinks hk
  exact hsinks

theorem SameButSerials.invocations (h : u.SameButSerials u') :
    u.invocations = u'.invocations := by
  obtain ⟨k, k', hk⟩ := h
  have hinvocations := congrArg Service.invocations hk
  exact hinvocations

theorem SameButSerials.handlers (h : u.SameButSerials u') : u.handlers = u'.handlers := by
  obtain ⟨k, k', hk⟩ := h
  have hhandlers := congrArg Service.handlers hk
  exact hhandlers

theorem SameButSerials.withStore (h : u.SameButSerials u') (s : LocalStore) :
    SameButSerials { u with store := s } { u' with store := s } := by
  obtain ⟨k, k', hk⟩ := h
  exact ⟨k, k', congrArg (fun v : Service => { v with store := s }) hk⟩

end Service

/-! ## Agreement on the data of a user -/

theorem Closure.document_eq {c : Closure} (hc : c.readsStore = false) (s s' : LocalStore) :
    c.document s = c.document s' := by
  cases c <;> first | rfl | cases hc

namespace Device

/-- The same device up to serial numbers and to what waits for the backend. -/
structure SameData (d d' : Device) : Prop where
  service : d.service.SameButSerials d'.service
  undoStack : d.undoStack = d'.undoStack
  redoStack : d.redoStack = d'.redoStack
  reminders : d.reminders = d'.reminders

/-- The same waits for the backend of the user, and the data is the same if it is theirs. -/
structure AgreesFor (userId : String) (d d' : Device) : Prop where
  closures : d.closuresOf userId = d'.closuresOf userId
  dueWrites : d.dueWrites userId = d'.dueWrites userId
  data : d.HoldsDataOf userId ∧ d'.HoldsDataOf userId ∧ d.SameData d' ∨
    ¬d.HoldsDataOf userId ∧ ¬d'.HoldsDataOf userId

variable {userId : String} {d d' d'' e e' : Device} {w w' : List BackendWrite}

theorem SameData.refl (d : Device) : d.SameData d :=
  ⟨.refl _, rfl, rfl, rfl⟩

theorem SameData.symm (h : d.SameData d') : d'.SameData d :=
  ⟨h.service.symm, h.undoStack.symm, h.redoStack.symm, h.reminders.symm⟩

theorem SameData.trans (h : d.SameData d') (h' : d'.SameData d'') : d.SameData d'' :=
  ⟨h.service.trans h'.service, h.undoStack.trans h'.undoStack, h.redoStack.trans h'.redoStack,
    h.reminders.trans h'.reminders⟩

theorem SameData.store (h : d.SameData d') : d.store = d'.store :=
  h.service.store

theorem SameData.holdsDataOf_iff (h : d.SameData d') :
    d.HoldsDataOf userId ↔ d'.HoldsDataOf userId := by
  unfold HoldsDataOf owner
  rw [h.store]

theorem SameData.data (h : d.SameData d') : d.HoldsDataOf userId ∧ d'.HoldsDataOf userId ∧
    d.SameData d' ∨ ¬d.HoldsDataOf userId ∧ ¬d'.HoldsDataOf userId := by
  by_cases hholds : d.HoldsDataOf userId
  · exact Or.inl ⟨hholds, h.holdsDataOf_iff.mp hholds, h⟩
  · exact Or.inr ⟨hholds, mt h.holdsDataOf_iff.mpr hholds⟩

theorem AgreesFor.refl (d : Device) : AgreesFor userId d d :=
  ⟨rfl, rfl, (SameData.refl d).data⟩

theorem AgreesFor.symm (h : AgreesFor userId d d') : AgreesFor userId d' d := by
  refine ⟨h.closures.symm, h.dueWrites.symm, ?_⟩
  rcases h.data with ⟨hd, hd', hsame⟩ | ⟨hd, hd'⟩
  · exact Or.inl ⟨hd', hd, hsame.symm⟩
  · exact Or.inr ⟨hd', hd⟩

theorem AgreesFor.trans (h : AgreesFor userId d d') (h' : AgreesFor userId d' d'') :
    AgreesFor userId d d'' := by
  refine ⟨h.closures.trans h'.closures, h.dueWrites.trans h'.dueWrites, ?_⟩
  rcases h.data with ⟨hd, hd', hsame⟩ | ⟨hd, hd'⟩
  · rcases h'.data with ⟨-, hd'', hsame'⟩ | ⟨hno, -⟩
    · exact Or.inl ⟨hd, hd'', hsame.trans hsame'⟩
    · exact absurd hd' hno
  · rcases h'.data with ⟨hyes, -, -⟩ | ⟨-, hd''⟩
    · exact absurd hyes hd'
    · exact Or.inr ⟨hd, hd''⟩

/-! ### Steps the user does not see -/

theorem owner_ne_of_not_holdsDataOf (h : ¬d.HoldsDataOf userId) {backend : FirestoreBackend}
    (ho : d.owner = some backend.userId) : backend ≠ ⟨userId⟩ := by
  rintro rfl
  refine h fun owner howner => ?_
  exact Option.some_inj.mp (howner.symm.trans ho)

/-- A step that serves another owner leaves what waits for the user's backend, and writes
nothing through it. -/
theorem ServesOwner.frame (h : d.ServesOwner d' w) (hd : ¬d.HoldsDataOf userId) :
    d.closuresOf userId = d'.closuresOf userId ∧ d.dueWrites userId = d'.dueWrites userId ∧
      w.filter (fun write => write.1 = ⟨userId⟩) = [] := by
  obtain ⟨spawned, hclosures, hspawned⟩ := h.closures
  have hnone : spawned.filter (fun closure => closure.backend = some ⟨userId⟩) = [] := by
    refine List.filter_eq_nil_iff.mpr fun c hc hb => ?_
    have hb := of_decide_eq_true hb
    exact owner_ne_of_not_holdsDataOf hd (hspawned c hc _ hb) rfl
  refine ⟨?_, ?_, ?_⟩
  · rw [closuresOf, closuresOf, hclosures, List.filter_append, hnone, List.append_nil]
  · rw [dueWrites, dueWrites, h.secondWrites]
  · refine List.filter_eq_nil_iff.mpr fun x hx hb => ?_
    exact owner_ne_of_not_holdsDataOf hd (h.writes x hx) (of_decide_eq_true hb)

/-- A step that does not sign the user in does not bring the user's data. -/
theorem not_holdsDataOf_act {l : DeviceStep} (hact : d.act l = some (d', w))
    (hl : l.signsIn userId = false) (hd : ¬d.HoldsDataOf userId) : ¬d'.HoldsDataOf userId := by
  rcases owner_act hact with ⟨user, rfl, howner⟩ | ⟨-, howner⟩
  · intro h
    have huser : user = userId := h user howner
    simp [DeviceStep.signsIn, huser] at hl
  · unfold HoldsDataOf
    rw [howner]
    exact hd

theorem mem_filter_backendWrite {b : Option FirestoreBackend} {o : Option DocumentWrite}
    (hb : b ≠ some ⟨userId⟩) :
    (backendWrite b o).filter (fun write => write.1 = ⟨userId⟩) = [] := by
  refine List.filter_eq_nil_iff.mpr fun x hx hu => hb ?_
  rw [mem_backendWrite hx, of_decide_eq_true hu]

/-- A second write of another user is not due for this one. -/
theorem dueWrites_append_secondWrite {l : List (FirestoreBackend × List Task)} {c : Closure}
    (hc : c.backend ≠ some ⟨userId⟩) :
    (l ++ (c.backend.bind fun backend =>
      c.secondWrite.map fun tasks => (backend, tasks)).toList).filter
        (fun write => write.1 = ⟨userId⟩) = l.filter fun write => write.1 = ⟨userId⟩ := by
  rw [List.filter_append]
  refine List.append_right_eq_self.mpr (List.filter_eq_nil_iff.mpr fun x hx hu => hc ?_)
  obtain ⟨b, hb, hx⟩ := Option.bind_eq_some_iff.mp (Option.mem_toList.mp hx)
  obtain ⟨tasks, -, rfl⟩ := Option.map_eq_some_iff.mp hx
  rw [hb]
  exact congrArg some (of_decide_eq_true hu)

/-- A closure of another user changes nothing that this one sees. -/
theorem agreesFor_of_hidden_closure (hhead : d.closures.head?.bind Closure.backend ≠ some ⟨userId⟩)
    (hact : d.runClosure = some (d', w)) :
    AgreesFor userId d d' ∧ w.filter (fun write => write.1 = ⟨userId⟩) = [] := by
  unfold runClosure at hact
  split at hact
  · obtain ⟨rfl, rfl⟩ := Prod.mk.inj (Option.some_inj.mp hact)
    exact ⟨.refl _, rfl⟩
  · rename_i closure closures hclosures
    split_ifs at hact
    obtain ⟨rfl, rfl⟩ := Prod.mk.inj (Option.some_inj.mp hact)
    have hb : closure.backend ≠ some ⟨userId⟩ := by
      simpa only [hclosures, List.head?_cons, Option.bind_some] using hhead
    refine ⟨⟨?_, ?_, SameData.data ⟨.refl _, rfl, rfl, rfl⟩⟩, mem_filter_backendWrite hb⟩
    · rw [closuresOf, hclosures, List.filter_cons_of_neg (by simp [hb])]
      rfl
    · exact (dueWrites_append_secondWrite hb).symm

/-- A second write of another user changes nothing that this one sees. -/
theorem agreesFor_of_hidden_secondWrite {user : String} {k : ℕ} (huser : user ≠ userId)
    (hact : d.runSecondWrite user k = (d', w)) :
    AgreesFor userId d d' ∧ w.filter (fun write => write.1 = ⟨userId⟩) = [] := by
  unfold runSecondWrite at hact
  split at hact
  · obtain ⟨rfl, rfl⟩ := Prod.mk.inj hact
    exact ⟨.refl _, rfl⟩
  · rename_i write hk
    obtain ⟨rfl, rfl⟩ := Prod.mk.inj hact
    have hwrite : write.1 = ⟨user⟩ :=
      of_decide_eq_true (List.mem_filter.mp (List.mem_of_getElem? hk)).2
    have hne : ¬write.1 = ⟨userId⟩ := by
      rw [hwrite]
      exact fun h => huser (congrArg FirestoreBackend.userId h)
    refine ⟨⟨rfl, ?_, SameData.data ⟨.refl _, rfl, rfl, rfl⟩⟩, by simp [hne]⟩
    rw [dueWrites, dueWrites, ← List.erase_filter, List.erase_of_not_mem]
    simp [hne]

/-- A step the user does not see. -/
theorem Owned.agreesFor_of_hidden (h : d.Owned) {l : DeviceStep} {written : List BackendWrite}
    (hl : seenBy userId l ⟨d, written⟩ = false) (hact : d.act l = some (d', w)) :
    AgreesFor userId d d' ∧ w.filter (fun write => write.1 = ⟨userId⟩) = [] := by
  have hserves : ∀ {l : DeviceStep},
      ((decide (d.HoldsDataOf userId) || l.signsIn userId) = false) → d.act l = some (d', w) →
      d.ServesOwner d' w →
      AgreesFor userId d d' ∧ w.filter (fun write => write.1 = ⟨userId⟩) = [] := by
    intro l hl hact hs
    obtain ⟨hd, hsigns⟩ := Bool.or_eq_false_iff.mp hl
    have hd := of_decide_eq_false hd
    obtain ⟨hclosures, hdue, hw⟩ := hs.frame hd
    exact ⟨⟨hclosures, hdue, Or.inr ⟨hd, not_holdsDataOf_act hact hsigns hd⟩⟩, hw⟩
  cases l with
  | service l => exact hserves hl hact (h.servesOwner_service hact)
  | operation e => exact hserves hl hact (h.servesOwner_operation hact)
  | reminder e he => exact hserves hl hact (h.servesOwner_reminder he hact)
  | runClosure => exact agreesFor_of_hidden_closure (of_decide_eq_false hl) hact
  | secondWrite user k =>
    exact agreesFor_of_hidden_secondWrite (of_decide_eq_false hl) (Option.some_inj.mp hact)

/-! ### Steps the user sees -/

/-- Devices that agree for a user run the same closures for this user. -/
theorem AgreesFor.runClosure (h : AgreesFor userId d d') (ho : d.Owned)
    (hhead : d.closures.head?.bind Closure.backend = some ⟨userId⟩)
    (hhead' : d'.closures.head?.bind Closure.backend = some ⟨userId⟩)
    (he : d.runClosure = some (e, w)) (he' : d'.runClosure = some (e', w')) :
    AgreesFor userId e e' ∧ w = w' := by
  obtain ⟨c, hc, hb⟩ := Option.bind_eq_some_iff.mp hhead
  obtain ⟨c', hc', hb'⟩ := Option.bind_eq_some_iff.mp hhead'
  obtain ⟨cs, hcs⟩ := List.head?_eq_some_iff.mp hc
  obtain ⟨cs', hcs'⟩ := List.head?_eq_some_iff.mp hc'
  have hclosures := h.closures
  rw [closuresOf, closuresOf, hcs, hcs', List.filter_cons_of_pos (by simp [hb]),
    List.filter_cons_of_pos (by simp [hb'])] at hclosures
  obtain ⟨rfl, hrest⟩ := List.cons.inj hclosures
  simp only [Device.runClosure, hcs, hcs'] at he he'
  split_ifs at he he'
  obtain ⟨rfl, rfl⟩ := Prod.mk.inj (Option.some_inj.mp he)
  obtain ⟨rfl, rfl⟩ := Prod.mk.inj (Option.some_inj.mp he')
  refine ⟨⟨hrest, ?_, ?_⟩, ?_⟩
  · have hdue := h.dueWrites
    simp only [Device.dueWrites, List.filter_append] at hdue ⊢
    rw [hdue]
  · rcases h.data with ⟨hd, hd', hsame⟩ | ⟨hd, hd'⟩
    · exact Or.inl ⟨hd, hd', ⟨hsame.service, hsame.undoStack, hsame.redoStack, hsame.reminders⟩⟩
    · exact Or.inr ⟨hd, hd'⟩
  · rcases Bool.eq_false_or_eq_true c.readsStore with hr | hr
    · -- the closure reads the store, which holds the user's data
      have howner := ho.closures c (by rw [hcs]; exact List.mem_cons_self) hr _ hb
      have hd : d.HoldsDataOf userId := fun owner hmem =>
        Option.some_inj.mp (hmem.symm.trans howner)
      rcases h.data with ⟨-, -, hsame⟩ | ⟨hno, -⟩
      · rw [hsame.store]
      · exact absurd hd hno
    · rw [Closure.document_eq hr d.store d'.store]

/-- Devices that agree for a user run the same second writes for this user. -/
theorem AgreesFor.runSecondWrite (h : AgreesFor userId d d') {k : ℕ}
    (he : d.runSecondWrite userId k = (e, w)) (he' : d'.runSecondWrite userId k = (e', w')) :
    AgreesFor userId e e' ∧ w = w' := by
  have hdue := h.dueWrites
  unfold Device.runSecondWrite at he he'
  rw [← hdue] at he'
  split at he
  · rename_i hk
    rw [hk] at he'
    obtain ⟨rfl, rfl⟩ := Prod.mk.inj he
    obtain ⟨rfl, rfl⟩ := Prod.mk.inj he'
    exact ⟨h, rfl⟩
  · rename_i write hk
    rw [hk] at he'
    obtain ⟨rfl, rfl⟩ := Prod.mk.inj he
    obtain ⟨rfl, rfl⟩ := Prod.mk.inj he'
    refine ⟨⟨h.closures, ?_, ?_⟩, rfl⟩
    · simp only [Device.dueWrites] at hdue ⊢
      rw [← List.erase_filter, ← List.erase_filter, hdue]
    · rcases h.data with ⟨hd, hd', hsame⟩ | ⟨hd, hd'⟩
      · exact Or.inl ⟨hd, hd', ⟨hsame.service, hsame.undoStack, hsame.redoStack, hsame.reminders⟩⟩
      · exact Or.inr ⟨hd, hd'⟩

theorem SameData.sinkWrites (h : d.SameData d') (s : LocalStore) :
    d.sinkWrites s = d'.sinkWrites s := by
  unfold Device.sinkWrites
  rw [h.service.sinks, h.store]

theorem SameData.syncWrites (h : d.SameData d') (invocation : Invocation) (response : Response) :
    d.syncWrites invocation response = d'.syncWrites invocation response := by
  unfold Device.syncWrites
  rw [h.store]

theorem SameData.serviceWrites (h : d.SameData d') (l : ServiceStep) (s : LocalStore) :
    d.serviceWrites l s = d'.serviceWrites l s := by
  cases l with
  | authEvent user => rfl
  | resume k response =>
    simp only [Device.serviceWrites, h.service.invocations, h.syncWrites, h.sinkWrites]
  | fire k snapshot => rfl
  | runHandler k =>
    simp only [Device.serviceWrites, h.service.handlers, h.store, h.sinkWrites]

/-- Devices that agree for a user settle in the same way. -/
theorem AgreesFor.settle (h : AgreesFor userId d d') {v v' : Service}
    (hv : v.SameButSerials v') :
    (d.settle v).closuresOf userId = (d'.settle v').closuresOf userId ∧
      (d.settle v).service.SameButSerials (d'.settle v').service := by
  refine ⟨?_, ?_⟩
  · have hclosures := h.closures
    simp only [closuresOf, Device.settle, List.filter_append] at hclosures ⊢
    rw [hclosures, hv.store]
  · have hstore := hv.withStore { v.store with spawned := [], analytics := [] }
    simp only [Device.settle, ← hv.store]
    exact hstore

/-- Devices that agree for a user take the same steps of the service. -/
theorem AgreesFor.service (h : AgreesFor userId d d') (hsame : d.SameData d') {l : ServiceStep}
    (he : d.act (.service l) = some (e, w)) (he' : d'.act (.service l) = some (e', w')) :
    AgreesFor userId e e' ∧ w = w' := by
  obtain ⟨v, hv, he⟩ := Option.map_eq_some_iff.mp he
  obtain ⟨rfl, rfl⟩ := Prod.mk.inj he
  obtain ⟨v', hv', he'⟩ := Option.map_eq_some_iff.mp he'
  obtain ⟨rfl, rfl⟩ := Prod.mk.inj he'
  have hserials := hsame.service.step hv hv'
  obtain ⟨hclosures, hservice⟩ := h.settle hserials
  refine ⟨⟨hclosures, h.dueWrites, ?_⟩, ?_⟩
  · exact SameData.data ⟨hservice, hsame.undoStack, hsame.redoStack, hsame.reminders⟩
  · rw [hsame.serviceWrites, hserials.store]

/-- Devices that agree for a user take the same operations. -/
theorem AgreesFor.operation (h : AgreesFor userId d d') (hsame : d.SameData d')
    {o : Date × LocalOperation}
    (he : d.act (.operation o) = some (e, w)) (he' : d'.act (.operation o) = some (e', w')) :
    AgreesFor userId e e' ∧ w = w' := by
  obtain ⟨u, hu, he⟩ := Option.map_eq_some_iff.mp he
  obtain ⟨rfl, rfl⟩ := Prod.mk.inj he
  obtain ⟨u', hu', he'⟩ := Option.map_eq_some_iff.mp he'
  obtain ⟨rfl, rfl⟩ := Prod.mk.inj he'
  rw [← hsame.store, ← hsame.undoStack, ← hsame.redoStack, hu] at hu'
  obtain rfl := Option.some_inj.mp hu'
  obtain ⟨hclosures, hservice⟩ := h.settle (hsame.service.withStore u.store)
  exact ⟨⟨hclosures, h.dueWrites, SameData.data ⟨hservice, rfl, rfl, hsame.reminders⟩⟩,
    hsame.sinkWrites _⟩

theorem SameData.reminderSession (h : d.SameData d') : d.reminderSession = d'.reminderSession := by
  unfold Device.reminderSession
  rw [h.store, h.undoStack, h.redoStack, h.reminders]

/-- Devices that agree for a user take the same reminder steps. -/
theorem AgreesFor.reminder (h : AgreesFor userId d d') (hsame : d.SameData d')
    {o : Date × ReminderStep} {ho : o.2.isReminder = true}
    (he : d.act (.reminder o ho) = some (e, w)) (he' : d'.act (.reminder o ho) = some (e', w')) :
    AgreesFor userId e e' ∧ w = w' := by
  obtain ⟨r, hr, he⟩ := Option.map_eq_some_iff.mp he
  obtain ⟨rfl, rfl⟩ := Prod.mk.inj he
  obtain ⟨r', hr', he'⟩ := Option.map_eq_some_iff.mp he'
  obtain ⟨rfl, rfl⟩ := Prod.mk.inj he'
  rw [← hsame.reminderSession, hr] at hr'
  obtain rfl := Option.some_inj.mp hr'
  obtain ⟨hclosures, hservice⟩ := h.settle (hsame.service.withStore r.session.store)
  exact ⟨⟨hclosures, h.dueWrites, SameData.data ⟨hservice, hsame.undoStack, hsame.redoStack, rfl⟩⟩,
    hsame.sinkWrites _⟩

/-- Two sign-ins that find another user's data. -/
theorem agreesFor_of_entering (ho : d.Owned) (ho' : d'.Owned) (h : AgreesFor userId d d')
    (hd : ¬d.HoldsDataOf userId) (hd' : ¬d'.HoldsDataOf userId)
    (hidle : d.store.resetsFor userId = true → d.Idle)
    (hidle' : d'.store.resetsFor userId = true → d'.Idle)
    (he : d.act (.service (.authEvent (some userId))) = some (e, w))
    (he' : d'.act (.service (.authEvent (some userId))) = some (e', w')) :
    AgreesFor userId e e' ∧ w = w' := by
  have hresets : ∀ {d : Device}, ¬d.HoldsDataOf userId → d.store.resetsFor userId = true := by
    intro d hd
    by_contra hr
    exact hd fun owner howner => eq_of_not_resetsFor hr howner
  have hidle := hidle (hresets hd)
  have hidle' := hidle' (hresets hd')
  obtain ⟨v, hv, he⟩ := Option.map_eq_some_iff.mp he
  obtain ⟨rfl, rfl⟩ := Prod.mk.inj he
  obtain ⟨v', hv', he'⟩ := Option.map_eq_some_iff.mp he'
  obtain ⟨rfl, rfl⟩ := Prod.mk.inj he'
  obtain ⟨store, hstore, rfl⟩ := Option.map_eq_some_iff.mp hv
  obtain ⟨store', hstore', rfl⟩ := Option.map_eq_some_iff.mp hv'
  have hchange := changeUser_congr (hresets hd) (hresets hd')
    (ho.suppress.trans ho'.suppress.symm) (ho.spawned.trans ho'.spawned.symm)
    (ho.analytics.trans ho'.analytics.symm)
  obtain rfl : store = store' := Option.some_inj.mp (hstore.symm.trans (hchange.trans hstore'))
  have hactive : ∀ {d : Device}, d.Idle →
      d.service.active.filter (· ∉ d.service.listeners) = [] := by
    intro d hidle
    refine List.filter_eq_nil_iff.mpr fun r hr => ?_
    simp [hidle.active r hr]
  have hserials : Service.SameButSerials { d.service.stopListeners with
      store := store, backend := some ⟨userId⟩, sinks := none, user := some userId,
      invocations := d.service.invocations ++ [⟨⟨userId⟩, .fetchAll⟩],
      applied := if d.store.resetsFor userId then [] else d.service.applied }
      { d'.service.stopListeners with
        store := store, backend := some ⟨userId⟩, sinks := none, user := some userId,
        invocations := d'.service.invocations ++ [⟨⟨userId⟩, .fetchAll⟩],
        applied := if d'.store.resetsFor userId then [] else d'.service.applied } := by
    refine ⟨d'.service.registrationCount, d.service.registrationCount, ?_⟩
    simp only [Service.shift, Service.stopListeners, hactive hidle, hactive hidle',
      hidle.invocations, hidle'.invocations, hidle.handlers, hidle'.handlers, hresets hd,
      hresets hd', if_true, List.map_nil, Nat.add_comm]
  obtain ⟨hclosures, hservice⟩ := h.settle hserials
  refine ⟨⟨hclosures, h.dueWrites, SameData.data ⟨hservice, ?_, ?_, ?_⟩⟩, rfl⟩
  · exact hidle.undoStack.trans hidle'.undoStack.symm
  · exact hidle.redoStack.trans hidle'.redoStack.symm
  · exact hidle.reminders.trans hidle'.reminders.symm

/-- A step the user sees on both sides. -/
theorem AgreesFor.act (h : AgreesFor userId d d') (ho : d.Owned) (ho' : d'.Owned)
    {l : DeviceStep} {written written' : List BackendWrite}
    (hg : l.SwitchesIdle ⟨d, written⟩) (hg' : l.SwitchesIdle ⟨d', written'⟩)
    (hl : seenBy userId l ⟨d, written⟩ = true) (hl' : seenBy userId l ⟨d', written'⟩ = true)
    (he : d.act l = some (e, w)) (he' : d'.act l = some (e', w')) :
    AgreesFor userId e e' ∧ w = w' := by
  cases l with
  | runClosure =>
    exact h.runClosure ho (of_decide_eq_true hl) (of_decide_eq_true hl') he he'
  | secondWrite user k =>
    obtain rfl : user = userId := of_decide_eq_true hl
    exact h.runSecondWrite (Option.some_inj.mp he) (Option.some_inj.mp he')
  | operation o =>
    rcases h.data with ⟨-, -, hsame⟩ | ⟨hd, -⟩
    · exact h.operation hsame he he'
    · simp [seenBy, DeviceStep.signsIn, hd] at hl
  | reminder o ho =>
    rcases h.data with ⟨-, -, hsame⟩ | ⟨hd, -⟩
    · exact h.reminder hsame he he'
    · simp [seenBy, DeviceStep.signsIn, hd] at hl
  | service l =>
    rcases h.data with ⟨-, -, hsame⟩ | ⟨hd, hd'⟩
    · exact h.service hsame he he'
    · have hsigns : (DeviceStep.service l).signsIn userId = true := by
        simpa [seenBy, hd] using hl
      cases l with
      | authEvent user =>
        obtain rfl : user = some userId := of_decide_eq_true hsigns
        exact agreesFor_of_entering ho ho' h hd hd' (hg userId rfl) (hg' userId rfl) he he'
      | resume k response => cases hsigns
      | fire k snapshot => cases hsigns
      | runHandler k => cases hsigns

end Device

/-! ## Two runs -/

namespace DeviceLog

variable {userId : String} {x x' t : DeviceLog}

/-- Two logs that agree on the data of the user and on what was written for them. -/
structure Agrees (userId : String) (x x' : DeviceLog) : Prop where
  owned : x.device.Owned
  owned' : x'.device.Owned
  devices : Device.AgreesFor userId x.device x'.device
  written : x.writtenThrough userId = x'.writtenThrough userId

theorem writtenThrough_append (d : Device) (w w' : List BackendWrite) :
    writtenThrough ⟨d, w ++ w'⟩ userId =
      writtenThrough ⟨d, w⟩ userId ++ writtenThrough ⟨d, w'⟩ userId := by
  simp only [writtenThrough, List.filter_append, List.map_append]

theorem owned_step (hx : x.device.Owned) {l : DeviceStep} (hg : l.SwitchesIdle x)
    (ht : x.step l = some t) : t.device.Owned := by
  obtain ⟨⟨d', w⟩, hact, rfl⟩ := Option.map_eq_some_iff.mp ht
  exact hx.act hg hact

theorem agrees_of_hidden (hx : x.device.Owned) {l : DeviceStep} (hg : l.SwitchesIdle x)
    (hl : seenBy userId l x = false) (ht : x.step l = some t) : Agrees userId x t := by
  have howned := owned_step hx hg ht
  obtain ⟨⟨d', w⟩, hact, rfl⟩ := Option.map_eq_some_iff.mp ht
  obtain ⟨hdevices, hw⟩ := hx.agreesFor_of_hidden hl hact
  refine ⟨hx, howned, hdevices, ?_⟩
  rw [writtenThrough_append]
  simp only [writtenThrough, hw, List.map_nil, List.append_nil]

theorem Agrees.symm (h : Agrees userId x x') : Agrees userId x' x :=
  ⟨h.owned', h.owned, h.devices.symm, h.written.symm⟩

theorem Agrees.trans (h : Agrees userId x x') (h' : Agrees userId x' t) : Agrees userId x t :=
  ⟨h.owned, h'.owned', h.devices.trans h'.devices, h.written.trans h'.written⟩

/-- The conditions of noninterference, for a user. -/
theorem unwinding (userId : String) : Runs.Unwinding DeviceLog.step (seenBy userId)
    DeviceStep.SwitchesIdle (Agrees userId) where
  left h hg hl ht := (agrees_of_hidden h.owned hg hl ht).symm.trans h
  right h hg hl ht := h.trans (agrees_of_hidden h.owned' hg hl ht)
  both {x x' t t' l} h hg hg' hl hl' ht ht' := by
    have howned := owned_step h.owned hg ht
    have howned' := owned_step h.owned' hg' ht'
    obtain ⟨⟨d, w⟩, hact, rfl⟩ := Option.map_eq_some_iff.mp ht
    obtain ⟨⟨d', w'⟩, hact', rfl⟩ := Option.map_eq_some_iff.mp ht'
    obtain ⟨hdevices, rfl⟩ := h.devices.act h.owned h.owned' hg hg' hl hl' hact hact'
    refine ⟨howned, howned', hdevices, ?_⟩
    rw [writtenThrough_append, writtenThrough_append]
    exact congrArg (· ++ _) h.written

end DeviceLog

/-- If accounts are switched only while nothing waits that reads the store again or changes it,
then what is written through the backend of a user depends only on the steps they see. The
loaded stores may differ if they hold the data of others. -/
theorem writtenThrough_eq {userId : String} {s s' : LocalStore} {ls ls' : List DeviceStep}
    {t t' : DeviceLog}
    (hs : (Device.start s).HoldsDataOf userId ∨ (Device.start s').HoldsDataOf userId → s = s')
    (hg : Runs.Guarded DeviceLog.step DeviceStep.SwitchesIdle ls ⟨Device.start s, []⟩)
    (hg' : Runs.Guarded DeviceLog.step DeviceStep.SwitchesIdle ls' ⟨Device.start s', []⟩)
    (ht : Runs.run DeviceLog.step ls ⟨Device.start s, []⟩ = some t)
    (ht' : Runs.run DeviceLog.step ls' ⟨Device.start s', []⟩ = some t')
    (hview : Runs.view DeviceLog.step (seenBy userId) ls ⟨Device.start s, []⟩ =
      Runs.view DeviceLog.step (seenBy userId) ls' ⟨Device.start s', []⟩) :
    t.writtenThrough userId = t'.writtenThrough userId := by
  have hdevices : Device.AgreesFor userId (Device.start s) (Device.start s') := by
    by_cases hholds : (Device.start s).HoldsDataOf userId ∨ (Device.start s').HoldsDataOf userId
    · obtain rfl := hs hholds
      exact .refl _
    · exact ⟨rfl, rfl, Or.inr (not_or.mp hholds)⟩
  have hstart : DeviceLog.Agrees userId ⟨Device.start s, []⟩ ⟨Device.start s', []⟩ :=
    ⟨Device.owned_start s, Device.owned_start s', hdevices, rfl⟩
  exact ((DeviceLog.unwinding userId).agree_of_view_eq hstart hg hg' ht ht' hview).written

/-- A store with one note, for the samples below. -/
def LocalStore.sampleNotes : LocalStore :=
  { notes := [⟨"note", "Call", .seconds 0⟩] }

/-- A user enters a task and sets a reminder, then another user signs in and enters a task. -/
def DeviceStep.sampleIdleSwitch (title : String) : List DeviceStep :=
  [.service (.authEvent (some "a")), .operation (.seconds 1, .task (.addTask .sampleParent) rfl),
    .reminder (.seconds 2, .setReminder "parent" (.seconds 9) "n") rfl,
    .reminder (.seconds 3, .resume 0 "n" false) rfl, .runClosure, .runClosure,
    .service (.resume 0 .thrown), .service (.authEvent (some "b")),
    .operation (.seconds 4, .task (.addTask { Task.sampleParent with title := title }) rfl)]

/-- The sample switches only while nothing is in flight. -/
theorem guarded_sampleIdleSwitch (title : String) :
    Runs.Guarded DeviceLog.step DeviceStep.SwitchesIdle (DeviceStep.sampleIdleSwitch title)
      ⟨Device.start .sampleNotes, []⟩ := by
  refine .cons ?_ rfl <| .cons nofun rfl <| .cons nofun rfl <| .cons nofun rfl <|
    .cons nofun rfl <| .cons nofun rfl <| .cons nofun rfl <| .cons ?_ rfl <|
    .cons nofun rfl trivial
  · rintro userId - hr
    cases hr
  · intro _ _ _
    exact ⟨rfl, by decide, rfl, rfl, rfl, rfl, by decide⟩

/-- The task of the second user is hidden from the first. -/
theorem view_sampleIdleSwitch (title : String) :
    Runs.view DeviceLog.step (seenBy "a") (DeviceStep.sampleIdleSwitch title)
        ⟨Device.start .sampleNotes, []⟩ =
      Runs.view DeviceLog.step (seenBy "a") (DeviceStep.sampleIdleSwitch title).dropLast
        ⟨Device.start .sampleNotes, []⟩ := by
  obtain ⟨t, ht⟩ := Option.isSome_iff_exists.mp (rfl : (Runs.run DeviceLog.step
    (DeviceStep.sampleIdleSwitch title).dropLast ⟨Device.start .sampleNotes, []⟩).isSome)
  refine Runs.view_concat_hidden ht ?_
  obtain rfl := Option.some_inj.mp ht
  rfl

theorem writtenThrough_eq_sample : ∃ t t',
    Runs.run DeviceLog.step (DeviceStep.sampleIdleSwitch "Plan") ⟨Device.start .sampleNotes, []⟩ =
      some t ∧
    Runs.run DeviceLog.step (DeviceStep.sampleIdleSwitch "Pack") ⟨Device.start .sampleNotes, []⟩ =
      some t' ∧
    t.writtenThrough "a" = t'.writtenThrough "a" := by
  have hruns : ∀ title, (Runs.run DeviceLog.step (DeviceStep.sampleIdleSwitch title)
      ⟨Device.start .sampleNotes, []⟩).isSome := fun _ => rfl
  obtain ⟨t, ht⟩ := Option.isSome_iff_exists.mp (hruns "Plan")
  obtain ⟨t', ht'⟩ := Option.isSome_iff_exists.mp (hruns "Pack")
  exact ⟨t, t', ht, ht', writtenThrough_eq (fun _ => rfl) (guarded_sampleIdleSwitch "Plan")
    (guarded_sampleIdleSwitch "Pack") ht ht'
    ((view_sampleIdleSwitch "Plan").trans (view_sampleIdleSwitch "Pack").symm)⟩

/-- Another user signs in while the notes of the first are uploaded, and enters a task. -/
def DeviceStep.sampleSwitch (title : String) : List DeviceStep :=
  [.service (.authEvent (some "a")), .service (.resume 0 (.fetched ⟨[], [], []⟩)),
    .service (.authEvent (some "b")),
    .operation (.seconds 1, .task (.addTask { Task.sampleParent with title := title }) rfl),
    .service (.resume 0 .written)]

/-- The sync of the first user goes on with the tasks of the second. -/
theorem not_writtenThrough_eq : ¬∀ (userId : String) (s : LocalStore)
    (ls ls' : List DeviceStep) (t t' : DeviceLog),
    Runs.run DeviceLog.step ls ⟨Device.start s, []⟩ = some t →
    Runs.run DeviceLog.step ls' ⟨Device.start s, []⟩ = some t' →
    Runs.view DeviceLog.step (seenBy userId) ls ⟨Device.start s, []⟩ =
      Runs.view DeviceLog.step (seenBy userId) ls' ⟨Device.start s, []⟩ →
    t.writtenThrough userId = t'.writtenThrough userId := by
  intro h
  have hwritten := h "a" .sampleNotes (DeviceStep.sampleSwitch "Plan")
    (DeviceStep.sampleSwitch "Pack") _ _ rfl rfl rfl
  revert hwritten
  decide

/-- A reminder operation that is suspended over the switch writes the task of the first user
through the backend of the second. -/
example : (Runs.run DeviceLog.step [.service (.authEvent (some "a")),
    .operation (.seconds 1, .task (.addTask .sampleParent) rfl), .service (.resume 0 .thrown),
    .reminder (.seconds 2, .setReminder "parent" (.seconds 9) "n") rfl,
    .service (.authEvent (some "b")),
    .operation (.seconds 3, .task (.addTask { Task.sampleParent with title := "Pack" }) rfl),
    .reminder (.seconds 4, .resume 0 "n" false) rfl, .runClosure, .runClosure, .runClosure]
      ⟨Device.start .sampleNotes, []⟩).map (·.writtenThrough "b") =
    some [.upsertTasks [{ Task.sampleParent with title := "Pack", orderIndex := some 3000 }],
      .upsertTasks [{ Task.sampleParent with orderIndex := some 1000 }.reminding
        (some (.seconds 9)) (some "n") (.seconds 4)]] := by
  decide +kernel

end Notelayer
