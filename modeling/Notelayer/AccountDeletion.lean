import Notelayer.Library.Runs
import Notelayer.Listeners

/-!
# Deleting the account data

`deleteAllUserData` deletes the documents of the three collections one by one, then the user
document, and then resets the store. The listeners and the metadata sinks stay active. A change
of the remote data makes its listeners report it, a reset or repaired store makes the sinks write
what changed, and a reconciliation may push. Handlers and writes run at any time after, so also
after the user document is gone.

The collections are empty in the end, whatever the order (`Deletion.documents_of_completed`), for
the closures of the store only reschedule reminders (`Deletion.spawnsReminders_run`). The user
document stays deleted in every order exactly if there was none and the metadata in the store
were the defaults (`deletesEverything_iff`).
-/

namespace Notelayer

/-! ## The remote documents -/

/-- The collections, in the order in which they are deleted. -/
inductive RemoteCollection where
  | notes
  | tasks
  | categories
  deriving DecidableEq

namespace RemoteCollection

/-- The position in the order of the deletions. -/
def index : RemoteCollection → ℕ
  | notes => 0
  | tasks => 1
  | categories => 2

/-- The listener of a collection. -/
def listener : RemoteCollection → Listener
  | notes => .notes
  | tasks => .tasks
  | categories => .categories

end RemoteCollection

/-- A collection without the document of an id. -/
def Collection.delete {A : Type} (key : A → String) (c : Collection A) (id : String) :
    Collection A :=
  { records := c.records.filter (key · ≠ id)
    unreadable := c.unreadable.filter (· ≠ id) }

namespace Remote

variable (r : Remote)

/-- The ids of the documents. -/
def documents : RemoteCollection → List String
  | .notes => r.notes.ids Note.id
  | .tasks => r.tasks.ids Task.id
  | .categories => r.categories.ids Category.id

/-- Deletes one document of a collection. -/
def deleteDocument (collection : RemoteCollection) (id : String) : Remote :=
  match collection with
  | .notes => { r with notes := r.notes.delete Note.id id }
  | .tasks => { r with tasks := r.tasks.delete Task.id id }
  | .categories => { r with categories := r.categories.delete Category.id id }

/-- Deletes the user document, but not its collections. -/
def deleteUserDocument : Remote :=
  { r with userDocument := none }

/-- The listeners that report the change to `r'`. -/
def changed (r' : Remote) : List Listener :=
  (if r'.notes ≠ r.notes then [.notes] else []) ++
    (if r'.tasks ≠ r.tasks then [.tasks] else []) ++
    (if r'.categories ≠ r.categories then [.categories] else []) ++
    if r'.userDocument ≠ r.userDocument then
      [.categoryGroupMetadata, .experimentalFeatureMetadata, .insightsHintMetadata] else []

end Remote

/-! ## The deletion -/

/-- The writes that the metadata sinks spawn when the store changes from `s` to `s'` while
`suppressMetadataWrites` is not set. -/
def LocalStore.metadataSinks (s s' : LocalStore) : List MetadataWrite :=
  (if s'.uncategorizedPosition ≠ s.uncategorizedPosition then
    [.categoryGroup s'.uncategorizedPosition] else []) ++
  (if s'.experimentalFeaturesPreference ≠ s.experimentalFeaturesPreference then
    [.experimentalFeature s'.experimentalFeaturesPreference] else []) ++
  if s'.insightsHintState ≠ s.insightsHintState then [.insightsHint s'.insightsHintState] else []

/-- What `deleteAllUserData` does next. -/
inductive DeletionPoint where
  | getDocuments (collection : RemoteCollection)
  | deleteDocuments (collection : RemoteCollection) (documents : List String)
  | deleteUserDocument
  | resetForNewUser
  | completed
  deriving DecidableEq

/-- Where the deletion goes on after the documents of a collection. -/
def RemoteCollection.nextPoint : RemoteCollection → DeletionPoint
  | notes => .getDocuments .tasks
  | tasks => .getDocuments .categories
  | categories => .deleteUserDocument

/-- A device during `deleteAllUserData`, and the remote state. -/
structure Deletion where
  store : LocalStore
  remote : Remote
  point : DeletionPoint := .getDocuments .notes
  /-- The listeners that have a change to report. -/
  changed : List Listener := []
  /-- The handlers that have not run. -/
  handlers : List Snapshot := []
  /-- The spawned writes that have not run. -/
  writes : List MetadataWrite := []

/-- What happens during the deletion, in any order. -/
inductive DeletionStep where
  | advance
  /-- A listener that has a change to report passes what it reads to its handler. -/
  | fire (listener : Listener)
  | runHandler (k : ℕ)
  | runWrite (k : ℕ)

namespace Deletion

variable (d : Deletion)

/-- The remote state changes, which the listeners have yet to report. -/
def setRemote (remote : Remote) : Deletion :=
  { d with remote := remote, changed := d.changed ++ d.remote.changed remote }

/-- `deleteAllUserData` from one await to the next. -/
def advance : Option Deletion :=
  match d.point with
  | .getDocuments collection =>
    some { d with point := .deleteDocuments collection (d.remote.documents collection) }
  | .deleteDocuments collection (id :: documents) =>
    some { d.setRemote (d.remote.deleteDocument collection id) with
      point := .deleteDocuments collection documents }
  | .deleteDocuments collection [] => some { d with point := collection.nextPoint }
  | .deleteUserDocument =>
    some { d.setRemote d.remote.deleteUserDocument with point := .resetForNewUser }
  | .resetForNewUser => d.store.resetForNewUser.map fun store =>
    { d with
      store := store
      writes := d.writes ++ d.store.metadataSinks store
      point := .completed }
  | .completed => some d

/-- A listener reports the remote state as it is. -/
def fire (listener : Listener) : Deletion :=
  if listener ∈ d.changed then
    { d with
      changed := d.changed.filter (· ≠ listener)
      handlers := d.handlers ++ [listener.snapshot d.remote] }
  else d

/-- The handlers of the metadata set `suppressMetadataWrites` while they change the store. -/
def runHandler (k : ℕ) : Option Deletion :=
  match d.handlers[k]? with
  | none => some d
  | some snapshot => (snapshot.handle d.store).map fun (store, push) =>
    { d with
      store := store
      handlers := d.handlers.eraseIdx k
      writes := d.writes ++
        ((if snapshot.isCollection then d.store.metadataSinks store else []) ++ push.toList) }

/-- A spawned write arrives. -/
def runWrite (k : ℕ) : Deletion :=
  match d.writes[k]? with
  | none => d
  | some write =>
    { d.setRemote (d.remote.upsertMetadata write) with writes := d.writes.eraseIdx k }

/-- The step function of the deletion. -/
def step (l : DeletionStep) (d : Deletion) : Option Deletion :=
  match l with
  | .advance => d.advance
  | .fire listener => some (d.fire listener)
  | .runHandler k => d.runHandler k
  | .runWrite k => some (d.runWrite k)

/-- `deleteAllUserData` has returned, and everything it triggered has run. -/
def Finished : Prop :=
  d.point = .completed ∧ d.changed = [] ∧ d.handlers = [] ∧ d.writes = []

end Deletion

/-- No document of the user is left. -/
def Remote.IsEmpty (r : Remote) : Prop :=
  (∀ collection, r.documents collection = []) ∧ r.userDocument = none

/-! ## The collections -/

theorem Collection.mem_ids_delete {A : Type} {key : A → String} {c : Collection A}
    {id x : String} : x ∈ (c.delete key id).ids key ↔ x ∈ c.ids key ∧ x ≠ id := by
  unfold ids delete
  simp only [List.mem_append, List.mem_map, List.mem_filter, decide_eq_true_eq]
  grind

theorem Remote.mem_documents_deleteDocument {r : Remote} {c c' : RemoteCollection}
    {id x : String} : x ∈ (r.deleteDocument c id).documents c' ↔
      x ∈ r.documents c' ∧ ¬(c' = c ∧ x = id) := by
  cases c <;> cases c' <;> simp [deleteDocument, documents, Collection.mem_ids_delete]

/-- The document is deleted from the point on. -/
def DeletionPoint.Deletes (c : RemoteCollection) (id : String) : DeletionPoint → Prop
  | getDocuments collection => collection.index ≤ c.index
  | deleteDocuments collection documents =>
    collection.index < c.index ∨ collection = c ∧ id ∈ documents
  | _ => False

/-- Every document that is left is deleted from here on. -/
def Deletion.Covers (d : Deletion) : Prop :=
  ∀ c, ∀ id ∈ d.remote.documents c, d.point.Deletes c id

namespace Deletion

variable {d d' : Deletion}

/-- A handler step runs a waiting handler, or does nothing. -/
theorem runHandler_cases {k : ℕ} (hd : d.runHandler k = some d') :
    d' = d ∨ ∃ snapshot ∈ d.handlers, ∃ store push,
      snapshot.handle d.store = some (store, push) ∧ d' = { d with
        store := store
        handlers := d.handlers.eraseIdx k
        writes := d.writes ++
          ((if snapshot.isCollection then d.store.metadataSinks store else []) ++
            push.toList) } := by
  unfold runHandler at hd
  cases hk : d.handlers[k]? with
  | none =>
    rw [hk] at hd
    exact Or.inl (Option.some_inj.mp hd).symm
  | some snapshot =>
    rw [hk] at hd
    obtain ⟨⟨store, push⟩, hs, rfl⟩ := Option.map_eq_some_iff.mp hd
    exact Or.inr ⟨snapshot, List.mem_of_getElem? hk, store, push, hs, rfl⟩

/-- Where the deletion itself goes on, no change escapes the listeners. -/
theorem Covers.advance (h : d.Covers) (hd : d.advance = some d') : d'.Covers := by
  unfold Deletion.advance at hd
  intro c id hid
  have hdeletes := h c id
  cases hp : d.point with
  | getDocuments collection =>
    rw [hp] at hd
    obtain rfl := Option.some_inj.mp hd
    rw [hp] at hdeletes
    rcases Nat.lt_or_eq_of_le (hdeletes hid) with hlt | heq
    · exact Or.inl hlt
    · obtain rfl : collection = c := by cases collection <;> cases c <;> cases heq <;> rfl
      exact Or.inr ⟨rfl, hid⟩
  | deleteDocuments collection documents =>
    rw [hp] at hd
    cases documents with
    | nil =>
      obtain rfl := Option.some_inj.mp hd
      rw [hp] at hdeletes
      rcases hdeletes hid with hlt | ⟨-, hmem⟩
      · cases collection <;> cases c <;> simp [RemoteCollection.index] at hlt <;>
          simp [DeletionPoint.Deletes, RemoteCollection.nextPoint, RemoteCollection.index]
      · cases hmem
    | cons document documents =>
      obtain rfl := Option.some_inj.mp hd
      obtain ⟨hid, hne⟩ := Remote.mem_documents_deleteDocument.mp hid
      rw [hp] at hdeletes
      rcases hdeletes hid with hlt | ⟨rfl, hmem⟩
      · exact Or.inl hlt
      · rcases List.mem_cons.mp hmem with rfl | hmem
        · exact absurd ⟨rfl, rfl⟩ hne
        · exact Or.inr ⟨rfl, hmem⟩
  | deleteUserDocument =>
    rw [hp] at hd
    obtain rfl := Option.some_inj.mp hd
    rw [hp] at hdeletes
    exact (hdeletes hid).elim
  | resetForNewUser =>
    rw [hp] at hd
    obtain ⟨store, -, rfl⟩ := Option.map_eq_some_iff.mp hd
    rw [hp] at hdeletes
    exact (hdeletes hid).elim
  | completed =>
    rw [hp] at hd
    obtain rfl := Option.some_inj.mp hd
    exact h c id hid

/-- Handlers and metadata writes add no document. -/
theorem covers_step (l : DeletionStep) (d d' : Deletion) (h : d.Covers)
    (hd : d.step l = some d') : d'.Covers := by
  cases l with
  | advance => exact h.advance hd
  | fire listener =>
    obtain rfl := Option.some_inj.mp hd
    unfold fire
    split_ifs <;> exact h
  | runHandler k =>
    rcases runHandler_cases hd with rfl | ⟨snapshot, -, store, push, -, rfl⟩
    · exact h
    · exact h
  | runWrite k =>
    obtain rfl := Option.some_inj.mp hd
    unfold runWrite
    cases d.writes[k]? <;> exact h

/-- Whatever the order, no note, task or category is left when the deletion has completed. -/
theorem documents_of_completed {s : LocalStore} {r : Remote} {ls : List DeletionStep}
    (hd : Runs.run step ls { store := s, remote := r } = some d) (hp : d.point = .completed)
    (collection : RemoteCollection) : d.remote.documents collection = [] := by
  have hstart : Covers { store := s, remote := r } := fun c _ _ => Nat.zero_le c.index
  have hcovers := Runs.invariant_of_run covers_step hstart hd
  refine List.eq_nil_iff_forall_not_mem.mpr fun id hid => ?_
  have hfalse := hcovers collection id hid
  rw [hp] at hfalse
  exact hfalse

end Deletion

/-! ## The store after the reset -/

namespace LocalStore

variable {s s' : LocalStore}

/-- The metadata are the defaults, and count as stored. -/
structure HasDefaults (s : LocalStore) : Prop where
  position : s.uncategorizedPosition = 0
  preference : s.experimentalFeaturesPreference = .default
  hint : s.insightsHintState = .default
  storedPreference : s.hasStoredExperimentalPreference = true
  storedHint : s.hasStoredInsightsHintState = true

theorem KeepsMetadata.hasDefaults (h : s.KeepsMetadata s') (hs : s.HasDefaults) :
    s'.HasDefaults where
  position := h.position hs.position
  preference := h.preference.trans hs.preference
  hint := h.hint.trans hs.hint
  storedPreference := h.storedPreference.trans hs.storedPreference
  storedHint := h.storedHint.trans hs.storedHint

/-- A reset never traps. It leaves the defaults and no task. -/
theorem exists_resetForNewUser (s : LocalStore) :
    ∃ s', s.resetForNewUser = some s' ∧ s'.HasDefaults ∧ s'.tasks = [] := by
  have hreset : ∃ s₀ : LocalStore, s.resetForNewUser = s₀.migrateIfNeeded.map (fun s' =>
      { s' with suppressBackendWrites := s.suppressBackendWrites }) ∧ s₀.tasks = [] ∧
        s₀.HasDefaults := by
    unfold resetForNewUser applyRemoteUpdate
    dsimp only
    refine ⟨_, rfl, ?_⟩
    exact ⟨rfl, rfl, rfl, rfl, rfl, rfl⟩
  obtain ⟨s₀, hs, htasks, hdefaults⟩ := hreset
  obtain ⟨s₁, hs₁, -, htasks₁⟩ :=
    migrateIfNeeded_of_distinctIds (s := s₀) (by rw [htasks]; exact .nil)
  rw [hs, hs₁]
  rw [htasks] at htasks₁
  exact ⟨_, rfl, { (keepsMetadata_migrateIfNeeded hs₁).hasDefaults hdefaults with }, htasks₁⟩

theorem spawnsReminders_resetForNewUser (h : s.resetForNewUser = some s') :
    s.SpawnsReminders s' := by
  unfold resetForNewUser applyRemoteUpdate at h
  obtain ⟨s₁, hs₁, rfl⟩ := Option.map_eq_some_iff.mp h
  exact (keepsMetadata_migrateIfNeeded hs₁).spawned

theorem metadataSinks_eq_nil : s.metadataSinks s' = [] ↔
    s'.uncategorizedPosition = s.uncategorizedPosition ∧
      s'.experimentalFeaturesPreference = s.experimentalFeaturesPreference ∧
        s'.insightsHintState = s.insightsHintState := by
  unfold metadataSinks
  split_ifs <;> simp_all

end LocalStore

/-! ## Without a user document -/

namespace Remote

variable {r r' : Remote}

theorem userDocument_deleteDocument (collection : RemoteCollection) (id : String) :
    (r.deleteDocument collection id).userDocument = r.userDocument := by
  cases collection <;> rfl

/-- With the same user document only the listeners of collections have a change to report. -/
theorem exists_listener_of_mem_changed (h : r'.userDocument = r.userDocument) {l : Listener}
    (hl : l ∈ r.changed r') : ∃ collection, l = RemoteCollection.listener collection := by
  unfold changed at hl
  rw [if_neg (not_not_intro h), List.append_nil] at hl
  rcases List.mem_append.mp hl with hl | hl
  · rcases List.mem_append.mp hl with hl | hl
    · split_ifs at hl
      · exact ⟨.notes, List.mem_singleton.mp hl⟩
      · cases hl
    · split_ifs at hl
      · exact ⟨.tasks, List.mem_singleton.mp hl⟩
      · cases hl
  · split_ifs at hl
    · exact ⟨.categories, List.mem_singleton.mp hl⟩
    · cases hl

end Remote

theorem Listener.isCollection_snapshot (collection : RemoteCollection) (r : Remote) :
    (collection.listener.snapshot r).isCollection = true := by
  cases collection <;> rfl

namespace Deletion

variable {d d' : Deletion}

/-- There is no user document, no cause to write one, and the metadata are the defaults. -/
structure NoMetadata (d : Deletion) : Prop where
  userDocument : d.remote.userDocument = none
  changed : ∀ l ∈ d.changed, ∃ collection, l = RemoteCollection.listener collection
  handlers : ∀ snapshot ∈ d.handlers, snapshot.isCollection = true
  writes : d.writes = []
  position : d.store.uncategorizedPosition = 0
  preference : d.store.experimentalFeaturesPreference = .default
  hint : d.store.insightsHintState = .default

theorem NoMetadata.setRemote (h : d.NoMetadata) {remote : Remote}
    (hr : remote.userDocument = d.remote.userDocument) : (d.setRemote remote).NoMetadata := by
  refine { h with userDocument := hr.trans h.userDocument, changed := fun l hl => ?_ }
  rcases List.mem_append.mp hl with hl | hl
  · exact h.changed l hl
  · exact Remote.exists_listener_of_mem_changed hr hl

/-- Where the deletion itself goes on, no metadata comes about. -/
theorem NoMetadata.advance (h : d.NoMetadata) (hd : d.advance = some d') : d'.NoMetadata := by
  unfold Deletion.advance at hd
  split at hd
  · obtain rfl := Option.some_inj.mp hd
    exact { h with }
  · obtain rfl := Option.some_inj.mp hd
    exact { h.setRemote (Remote.userDocument_deleteDocument _ _) with }
  · obtain rfl := Option.some_inj.mp hd
    exact { h with }
  · obtain rfl := Option.some_inj.mp hd
    have hset : (d.setRemote d.remote.deleteUserDocument).NoMetadata :=
      h.setRemote h.userDocument.symm
    exact { hset with }
  · obtain ⟨store, hs, rfl⟩ := Option.map_eq_some_iff.mp hd
    obtain ⟨s', hs', hdefaults, -⟩ := d.store.exists_resetForNewUser
    obtain rfl := Option.some_inj.mp (hs'.symm.trans hs)
    refine { h with
      writes := ?_
      position := hdefaults.position
      preference := hdefaults.preference
      hint := hdefaults.hint }
    rw [h.writes, List.nil_append]
    exact LocalStore.metadataSinks_eq_nil.mpr ⟨hdefaults.position.trans h.position.symm,
      hdefaults.preference.trans h.preference.symm, hdefaults.hint.trans h.hint.symm⟩
  · obtain rfl := Option.some_inj.mp hd
    exact h

/-- A listener that reports a state without metadata brings none. -/
theorem NoMetadata.fire (h : d.NoMetadata) (listener : Listener) :
    (d.fire listener).NoMetadata := by
  unfold Deletion.fire
  split_ifs with hl
  · refine { h with
      changed := fun l hl => h.changed l (List.mem_of_mem_filter hl)
      handlers := fun snapshot hs => ?_ }
    rcases List.mem_append.mp hs with hs | hs
    · exact h.handlers snapshot hs
    · obtain rfl := List.mem_singleton.mp hs
      obtain ⟨collection, rfl⟩ := h.changed listener hl
      exact Listener.isCollection_snapshot collection d.remote
  · exact h

/-- A handler that runs on a state without metadata brings none. -/
theorem NoMetadata.runHandler (h : d.NoMetadata) {k : ℕ} (hd : d.runHandler k = some d') :
    d'.NoMetadata := by
  rcases runHandler_cases hd with rfl | ⟨snapshot, hmem, store, push, hs, rfl⟩
  · exact h
  · obtain ⟨rfl, hkeeps⟩ := Snapshot.keepsMetadata_handle (h.handlers snapshot hmem) hs
    have hposition := hkeeps.position h.position
    refine { h with
      handlers := fun snapshot hs => h.handlers snapshot (List.mem_of_mem_eraseIdx hs)
      writes := ?_
      position := hposition
      preference := hkeeps.preference.trans h.preference
      hint := hkeeps.hint.trans h.hint }
    have hsinks : d.store.metadataSinks store = [] := LocalStore.metadataSinks_eq_nil.mpr
      ⟨hposition.trans h.position.symm, hkeeps.preference, hkeeps.hint⟩
    simp [h.writes, hsinks]

/-- No step brings metadata that was not there. -/
theorem noMetadata_step (l : DeletionStep) (d d' : Deletion) (h : d.NoMetadata)
    (hd : d.step l = some d') : d'.NoMetadata := by
  cases l with
  | advance => exact h.advance hd
  | fire listener =>
    obtain rfl := Option.some_inj.mp hd
    exact h.fire listener
  | runHandler k => exact h.runHandler hd
  | runWrite k =>
    obtain rfl := Option.some_inj.mp hd
    unfold runWrite
    rw [h.writes]
    exact h

end Deletion

/-! ## The closures of the store -/

namespace Deletion

variable {d d' : Deletion}

/-- The deletion leaves the store alone but for closures about reminders. -/
theorem spawnsReminders_advance (hd : d.advance = some d') :
    d.store.SpawnsReminders d'.store := by
  unfold advance at hd
  split at hd
  · obtain rfl := Option.some_inj.mp hd
    exact .refl _
  · obtain rfl := Option.some_inj.mp hd
    exact .refl _
  · obtain rfl := Option.some_inj.mp hd
    exact .refl _
  · obtain rfl := Option.some_inj.mp hd
    exact .refl _
  · obtain ⟨store, hs, rfl⟩ := Option.map_eq_some_iff.mp hd
    exact LocalStore.spawnsReminders_resetForNewUser hs
  · obtain rfl := Option.some_inj.mp hd
    exact .refl _

/-- Every step leaves the store alone but for closures about reminders. -/
theorem spawnsReminders_step (l : DeletionStep) (d d' : Deletion) (hd : d.step l = some d') :
    d.store.SpawnsReminders d'.store := by
  cases l with
  | advance => exact spawnsReminders_advance hd
  | fire listener =>
    obtain rfl := Option.some_inj.mp hd
    unfold fire
    split_ifs <;> exact .refl _
  | runHandler k =>
    rcases runHandler_cases hd with rfl | ⟨snapshot, -, store, push, hs, rfl⟩
    · exact .refl _
    · exact (Snapshot.sameAccount_handle hs).spawned
  | runWrite k =>
    obtain rfl := Option.some_inj.mp hd
    unfold runWrite
    cases d.writes[k]? <;> exact .refl _

/-- In every order the closures that the store spawns only reschedule reminders, so they write
no document. -/
theorem spawnsReminders_run {ls : List DeletionStep} (hd : Runs.run step ls d = some d') :
    d.store.SpawnsReminders d'.store :=
  Runs.invariant_of_run (I := fun d' => d.store.SpawnsReminders d'.store)
    (fun l d₁ d₂ h hd => h.trans (spawnsReminders_step l d₁ d₂ hd)) (.refl _) hd

end Deletion

/-! ## A user document comes back -/

namespace UserDocument

/-- A user document with some of the default metadata. -/
def ofDefaults (position experimental hint : Bool) : UserDocument where
  uncategorizedPosition := if position then some 0 else none
  experimentalFeaturesEnabled := if experimental then some false else none
  experimentalFeaturesUpdatedAt :=
    if experimental then some AppDateBounds.metadataBaseline else none
  insightsHint := if hint then some .default else none

/-- How many of the metadata the document lacks. -/
def lacks (d : UserDocument) : ℕ :=
  (if d.uncategorizedPosition = none then 1 else 0) +
    (if d.experimentalFeaturesEnabled = none then 1 else 0) +
    if d.insightsHint = none then 1 else 0

theorem lacks_le (d : UserDocument) : d.lacks ≤ 3 := by
  unfold lacks
  split_ifs <;> decide

end UserDocument

theorem AppDateBounds.clampedForFirestore_metadataBaseline :
    clampedForFirestore metadataBaseline = metadataBaseline := by
  decide +kernel

theorem InsightsHintState.safe_default : InsightsHintState.default.safe = .default := by
  unfold safe default
  rw [AppDateBounds.clampedForFirestore_metadataBaseline]
  rfl

/-- The writes of default metadata. -/
def MetadataWrite.defaults : List MetadataWrite :=
  [.categoryGroup 0, .experimentalFeature .default, .insightsHint .default]

/-- A default write changes nothing or adds what was missing. -/
theorem MetadataWrite.apply_ofDefaults {write : MetadataWrite} (hw : write ∈ defaults)
    (position experimental hint : Bool) : ∃ position' experimental' hint',
      write.apply (.ofDefaults position experimental hint) =
        .ofDefaults position' experimental' hint' ∧
      (write.apply (.ofDefaults position experimental hint) =
          .ofDefaults position experimental hint ∨
        (write.apply (.ofDefaults position experimental hint)).lacks <
          (UserDocument.ofDefaults position experimental hint).lacks) := by
  simp only [defaults, List.mem_cons, List.not_mem_nil, or_false] at hw
  rcases hw with rfl | rfl | rfl
  · refine ⟨true, experimental, hint, rfl, ?_⟩
    cases position
    · exact Or.inr (by simp [apply, UserDocument.upsertCategoryGroupMetadata, UserDocument.lacks,
        UserDocument.ofDefaults])
    · exact Or.inl rfl
  · have happly : apply (.ofDefaults position experimental hint)
        (.experimentalFeature .default) = .ofDefaults position true hint := by
      simp [apply, UserDocument.upsertExperimentalFeatureMetadata, UserDocument.ofDefaults,
        ExperimentalFeaturePreference.default, AppDateBounds.clampedForFirestore_metadataBaseline]
    refine ⟨position, true, hint, happly, ?_⟩
    rw [happly]
    cases experimental
    · exact Or.inr (by simp [UserDocument.lacks, UserDocument.ofDefaults])
    · exact Or.inl rfl
  · have happly : apply (.ofDefaults position experimental hint)
        (.insightsHint .default) = .ofDefaults position experimental true := by
      simp [apply, UserDocument.upsertInsightsHintMetadata, UserDocument.ofDefaults,
        InsightsHintState.safe_default]
    refine ⟨position, experimental, true, happly, ?_⟩
    rw [happly]
    cases hint
    · exact Or.inr (by simp [UserDocument.lacks, UserDocument.ofDefaults])
    · exact Or.inl rfl

namespace Remote

variable {r : Remote}

/-- There is no user document, or one with default metadata only. -/
def HasDefaults (r : Remote) : Prop :=
  ∀ d ∈ r.userDocument, ∃ position experimental hint, d = .ofDefaults position experimental hint

/-- How much of a user document with metadata is missing. -/
def missing (r : Remote) : ℕ :=
  match r.userDocument with
  | none => 4
  | some d => d.lacks

theorem missing_congr {r' : Remote} (h : r'.userDocument = r.userDocument) :
    r'.missing = r.missing := by
  unfold missing
  rw [h]

theorem changed_upsertMetadata (write : MetadataWrite) : r.changed (r.upsertMetadata write) =
    if (r.upsertMetadata write).userDocument ≠ r.userDocument then
      [.categoryGroupMetadata, .experimentalFeatureMetadata, .insightsHintMetadata] else [] := by
  simp [changed, upsertMetadata]

/-- A write of the defaults keeps the document or fills one of its fields. -/
theorem upsertMetadata_of_hasDefaults (h : r.HasDefaults) {write : MetadataWrite}
    (hw : write ∈ MetadataWrite.defaults) : (r.upsertMetadata write).HasDefaults ∧
      ((r.upsertMetadata write).userDocument = r.userDocument ∨
        (r.upsertMetadata write).missing < r.missing) := by
  unfold HasDefaults missing upsertMetadata
  cases hr : r.userDocument with
  | none =>
    obtain ⟨p, e, t, happly, -⟩ := MetadataWrite.apply_ofDefaults hw false false false
    refine ⟨fun d hd => ⟨p, e, t, ?_⟩, Or.inr (Nat.lt_succ_of_le (UserDocument.lacks_le _))⟩
    obtain rfl := Option.some_inj.mp hd
    exact happly
  | some d =>
    obtain ⟨p, e, t, rfl⟩ := h d hr
    obtain ⟨p', e', t', happly, hlacks⟩ := MetadataWrite.apply_ofDefaults hw p e t
    refine ⟨fun d hd => ⟨p', e', t', ?_⟩, hlacks.imp (congrArg some) id⟩
    obtain rfl := Option.some_inj.mp hd
    exact happly

theorem uncategorizedPosition_of_hasDefaults (h : r.HasDefaults) :
    ∀ position ∈ r.uncategorizedPosition, position = 0 := by
  intro position hposition
  obtain ⟨d, hd, hp⟩ := Option.bind_eq_some_iff.mp hposition
  obtain ⟨p, e, t, rfl⟩ := h d hd
  unfold UserDocument.ofDefaults at hp
  dsimp only at hp
  split_ifs at hp
  exact (Option.some_inj.mp hp).symm

/-- A document of the defaults has no later date than the baseline. -/
theorem experimentalFeaturesUpdatedAt_of_hasDefaults (h : r.HasDefaults) :
    ∀ date ∈ r.experimentalFeaturesUpdatedAt, date = AppDateBounds.metadataBaseline := by
  intro date hdate
  obtain ⟨updatedAt, hu, rfl⟩ := Option.map_eq_some_iff.mp hdate
  obtain ⟨d, hd, hp⟩ := Option.bind_eq_some_iff.mp hu
  obtain ⟨p, e, t, rfl⟩ := h d hd
  unfold UserDocument.ofDefaults at hp
  dsimp only at hp
  split_ifs at hp
  rw [← Option.some_inj.mp hp]
  exact AppDateBounds.clampedForFirestore_metadataBaseline

/-- A document of the defaults has no other hint state than the default one. -/
theorem insightsHint_of_hasDefaults (h : r.HasDefaults) :
    ∀ hint ∈ r.insightsHint, hint = .default := by
  intro hint hhint
  obtain ⟨state, hs, rfl⟩ := Option.map_eq_some_iff.mp hhint
  obtain ⟨d, hd, hp⟩ := Option.bind_eq_some_iff.mp hs
  obtain ⟨p, e, t, rfl⟩ := h d hd
  unfold UserDocument.ofDefaults at hp
  dsimp only at hp
  split_ifs at hp
  rw [← Option.some_inj.mp hp]
  exact InsightsHintState.safe_default

end Remote

namespace LocalStore

variable {s : LocalStore}

/-- Against default metadata the position stays 0. -/
theorem applyRemoteUncategorizedPosition_zero (h : s.HasDefaults) :
    ∃ s', s.applyRemoteUncategorizedPosition 0 = some s' ∧ s'.HasDefaults := by
  refine ⟨_, rfl, { h with position := ?_ }⟩
  simp [setUncategorizedPosition, saveUncategorizedPosition, clampUncategorizedPosition]

/-- Without an experimental preference that is newer, the default is kept and pushed. -/
theorem reconcileExperimentalPreference_of_hasDefaults (h : s.HasDefaults)
    (remoteEnabled : Option Bool) {remoteUpdatedAt : Option Date}
    (hr : ∀ date ∈ remoteUpdatedAt, date = AppDateBounds.metadataBaseline) :
    (s.reconcileExperimentalPreference remoteEnabled remoteUpdatedAt).1.HasDefaults ∧
      (s.reconcileExperimentalPreference remoteEnabled remoteUpdatedAt).2 = true := by
  unfold reconcileExperimentalPreference
  rw [h.preference, h.storedPreference]
  cases remoteEnabled with
  | none => exact ⟨{ h with preference := rfl, storedPreference := rfl }, rfl⟩
  | some enabled =>
    cases remoteUpdatedAt with
    | none => exact ⟨{ h with preference := rfl, storedPreference := rfl }, rfl⟩
    | some updatedAt =>
      obtain rfl := hr updatedAt rfl
      have hold : ¬ExperimentalFeaturePreference.default.updatedAt <
        AppDateBounds.metadataBaseline := by decide
      simp only [Bool.true_eq_false, if_false, if_neg hold]
      exact ⟨{ h with preference := rfl, storedPreference := rfl }, trivial⟩

/-- The default hint state, met with a default one, stays and is pushed again. -/
theorem reconcileInsightsHintState_of_hasDefaults (h : s.HasDefaults)
    {remote : Option InsightsHintState} (hr : ∀ hint ∈ remote, hint = .default) :
    (s.reconcileInsightsHintState remote).1.HasDefaults ∧
      (s.reconcileInsightsHintState remote).2 = true := by
  unfold reconcileInsightsHintState
  rw [h.hint, h.storedHint]
  cases remote with
  | none => exact ⟨{ h with hint := rfl, storedHint := rfl }, rfl⟩
  | some hint =>
    obtain rfl := hr hint rfl
    have hold : ¬InsightsHintState.default.updatedAt < InsightsHintState.default.updatedAt := by
      decide
    simp only [Bool.true_eq_false, if_false, if_neg hold]
    exact ⟨{ h with hint := rfl, storedHint := rfl }, trivial⟩

end LocalStore

theorem LocalStore.HasDefaults.metadataSinks {s s' : LocalStore} (h : s.HasDefaults)
    (h' : s'.HasDefaults) : s.metadataSinks s' = [] :=
  LocalStore.metadataSinks_eq_nil.mpr ⟨h'.position.trans h.position.symm,
    h'.preference.trans h.preference.symm, h'.hint.trans h.hint.symm⟩

/-- The sinks of a store with the defaults write nothing else. -/
theorem LocalStore.HasDefaults.mem_metadataSinks {s s' : LocalStore} (h : s'.HasDefaults)
    {write : MetadataWrite} (hw : write ∈ s.metadataSinks s') :
    write ∈ MetadataWrite.defaults := by
  unfold LocalStore.metadataSinks at hw
  rw [h.position, h.preference, h.hint] at hw
  have hmem : ∀ {p : Prop} [Decidable p] {write' : MetadataWrite},
      write ∈ (if p then [write'] else []) → write = write' := by
    intro p _ write' hw
    split_ifs at hw
    · exact List.mem_singleton.mp hw
    · cases hw
  rcases List.mem_append.mp hw with hw | hw
  · rcases List.mem_append.mp hw with hw | hw
    · rw [hmem hw]
      exact .head _
    · rw [hmem hw]
      exact .tail _ (.head _)
  · rw [hmem hw]
    exact .tail _ (.tail _ (.head _))

/-- A handler keeps the default metadata, and pushes defaults only. That of the experimental
preference always pushes. -/
theorem Listener.exists_handle_snapshot (l : Listener) {r : Remote} {s : LocalStore}
    (hr : r.HasDefaults) (htasks : r.tasks.records = []) (hs : s.HasDefaults)
    (hd : DistinctIds s.tasks) : ∃ s' push, (l.snapshot r).handle s = some (s', push) ∧
      s'.HasDefaults ∧ DistinctIds s'.tasks ∧ (∀ write ∈ push, write ∈ MetadataWrite.defaults) ∧
        (l = .experimentalFeatureMetadata → push ≠ none) := by
  have hlist : ∀ ts, l.snapshot r = .tasks ts → DistinctIds ts := by
    intro ts hts
    cases l <;> cases hts
    rw [htasks]
    exact List.nodup_nil
  obtain ⟨s', push, hhandle, hd'⟩ := Snapshot.exists_handle hd (l.snapshot r) hlist
  rcases Bool.eq_false_or_eq_true (l.snapshot r).isCollection with hc | hc
  · obtain ⟨rfl, hkeeps⟩ := Snapshot.keepsMetadata_handle hc hhandle
    refine ⟨s', none, hhandle, hkeeps.hasDefaults hs, hd', fun _ hw =>
      absurd hw (Option.not_mem_none _), ?_⟩
    rintro rfl
    cases hc
  · refine ⟨s', push, hhandle, ?_⟩
    cases l with
    | categoryGroupMetadata =>
      simp only [Listener.snapshot] at hhandle
      cases hp : r.uncategorizedPosition with
      | none =>
        rw [hp] at hhandle
        obtain ⟨rfl, rfl⟩ := Prod.mk.inj (Option.some_inj.mp hhandle)
        exact ⟨hs, hd', fun _ hw => absurd hw (Option.not_mem_none _), nofun⟩
      | some position =>
        obtain rfl := Remote.uncategorizedPosition_of_hasDefaults hr position hp
        obtain ⟨s₁, hs₁, hdefaults⟩ := LocalStore.applyRemoteUncategorizedPosition_zero hs
        rw [hp] at hhandle
        simp only [Snapshot.handle, hs₁, Option.map_some] at hhandle
        obtain ⟨rfl, rfl⟩ := Prod.mk.inj (Option.some_inj.mp hhandle)
        exact ⟨hdefaults, hd', fun _ hw => absurd hw (Option.not_mem_none _), nofun⟩
    | experimentalFeatureMetadata =>
      obtain ⟨hdefaults, hpush⟩ := LocalStore.reconcileExperimentalPreference_of_hasDefaults hs
        r.experimentalFeaturesEnabled (Remote.experimentalFeaturesUpdatedAt_of_hasDefaults hr)
      simp only [Listener.snapshot, Snapshot.handle, hpush, if_true] at hhandle
      obtain ⟨rfl, rfl⟩ := Prod.mk.inj (Option.some_inj.mp hhandle)
      refine ⟨hdefaults, hd', fun write hw => ?_, nofun⟩
      obtain rfl := Option.some_inj.mp hw
      rw [hdefaults.preference]
      exact .tail _ (.head _)
    | insightsHintMetadata =>
      obtain ⟨hdefaults, hpush⟩ := LocalStore.reconcileInsightsHintState_of_hasDefaults hs
        (Remote.insightsHint_of_hasDefaults hr)
      simp only [Listener.snapshot, Snapshot.handle, hpush, if_true] at hhandle
      obtain ⟨rfl, rfl⟩ := Prod.mk.inj (Option.some_inj.mp hhandle)
      refine ⟨hdefaults, hd', fun write hw => ?_, nofun⟩
      obtain rfl := Option.some_inj.mp hw
      rw [hdefaults.hint]
      exact .tail _ (.tail _ (.head _))
    | notes => cases hc
    | tasks => cases hc
    | categories => cases hc

/-! ## Draining -/

namespace Deletion

variable {d d' : Deletion}

/-- The deletion has completed, no handler waits, and all metadata in sight are defaults. -/
structure Draining (d : Deletion) : Prop where
  point : d.point = .completed
  handlers : d.handlers = []
  documents : d.remote.tasks.records = []
  remote : d.remote.HasDefaults
  writes : ∀ write ∈ d.writes, write ∈ MetadataWrite.defaults
  store : d.store.HasDefaults
  tasks : DistinctIds d.store.tasks

/-- A user document is there, or will be. -/
def KeepsUserDocument (d : Deletion) : Prop :=
  d.remote.userDocument ≠ none ∨ d.writes ≠ [] ∨ .experimentalFeatureMetadata ∈ d.changed

/-- A report is worth 2 and lets at most one write follow; a write that adds metadata lets 3
reports follow. -/
def work (d : Deletion) : ℕ :=
  8 * d.remote.missing + 2 * d.changed.length + d.writes.length

/-- A listener reports, and its handler runs. -/
theorem Draining.exists_report (h : d.Draining) {l : Listener} (hl : l ∈ d.changed) :
    ∃ d', Runs.Reaches step d d' ∧ d'.Draining ∧ d'.work < d.work ∧
      (d.KeepsUserDocument → d'.KeepsUserDocument) := by
  obtain ⟨s', push, hhandle, hdefaults, hd, hpush, hexperimental⟩ :=
    l.exists_handle_snapshot h.remote h.documents h.store h.tasks
  have hsinks : (if (l.snapshot d.remote).isCollection then d.store.metadataSinks s' else []) =
      [] := by
    rw [h.store.metadataSinks hdefaults, ite_self]
  have hrun : Runs.run step [.fire l, .runHandler 0] d = some { d with
      store := s'
      changed := d.changed.filter (· ≠ l)
      handlers := []
      writes := d.writes ++ push.toList } := by
    simp only [Runs.run, step, fire, if_pos hl, h.handlers, List.nil_append, runHandler,
      List.getElem?_cons_zero, hhandle, Option.map_some, Option.bind_some, hsinks]
    rfl
  refine ⟨_, ⟨_, hrun⟩, ?_, ?_, ?_⟩
  · refine { h with handlers := rfl, writes := fun write hw => ?_, store := hdefaults, tasks := hd }
    rcases List.mem_append.mp hw with hw | hw
    · exact h.writes write hw
    · exact hpush write (Option.mem_toList.mp hw)
  · have hlt : (d.changed.filter (· ≠ l)).length < d.changed.length :=
      List.length_filter_lt_length_iff_exists.mpr ⟨l, hl, by simp⟩
    have hle : push.toList.length ≤ 1 := by cases push <;> simp
    unfold work Remote.missing
    simp only [List.length_append]
    omega
  · rintro (hdoc | hwrites | hchanged)
    · exact Or.inl hdoc
    · exact Or.inr (Or.inl (List.append_ne_nil_of_left_ne_nil hwrites _))
    · rcases eq_or_ne l .experimentalFeatureMetadata with hexp | hne
      · refine Or.inr (Or.inl (List.append_ne_nil_of_right_ne_nil _ ?_))
        obtain ⟨write, rfl⟩ := Option.ne_none_iff_exists'.mp (hexperimental hexp)
        exact List.cons_ne_nil _ _
      · exact Or.inr (Or.inr (List.mem_filter.mpr ⟨hchanged, by simpa using hne.symm⟩))

/-- The first spawned write runs. -/
theorem Draining.exists_write (h : d.Draining) (hw : d.writes ≠ []) :
    ∃ d', Runs.Reaches step d d' ∧ d'.Draining ∧ d'.work < d.work ∧ d'.KeepsUserDocument := by
  obtain ⟨write, writes, hwrites⟩ := List.exists_cons_of_ne_nil hw
  have hmem : write ∈ d.writes := by rw [hwrites]; exact .head _
  obtain ⟨hdefaults, hmissing⟩ := Remote.upsertMetadata_of_hasDefaults h.remote
    (h.writes write hmem)
  have hstep : d.step (.runWrite 0) =
      some { d.setRemote (d.remote.upsertMetadata write) with writes := writes } := by
    simp [step, runWrite, hwrites]
  refine ⟨_, .single hstep, ?_, ?_, Or.inl (Option.some_ne_none _)⟩
  · refine { h with remote := hdefaults, writes := fun write' hw' => h.writes write' ?_ }
    rw [hwrites]
    exact .tail _ hw'
  · simp only [work, setRemote, List.length_append, Remote.changed_upsertMetadata, hwrites,
      List.length_cons]
    rcases hmissing with hsame | hlt
    · rw [if_neg (not_not_intro hsame), Remote.missing_congr hsame, List.length_nil]
      omega
    · split_ifs <;> simp only [List.length_cons, List.length_nil] <;> omega

/-- All that waits can run, and a user document that is there, or will be, is there then. -/
theorem Draining.exists_finished (h : d.Draining) (hk : d.KeepsUserDocument) :
    ∃ d', Runs.Reaches step d d' ∧ d'.Finished ∧ d'.remote.userDocument ≠ none := by
  induction hn : d.work using Nat.strong_induction_on generalizing d with
  | _ n ih =>
    subst hn
    rcases eq_or_ne d.writes [] with hwrites | hwrites
    · rcases List.eq_nil_or_concat d.changed with hchanged | ⟨_, l, hchanged⟩
      · refine ⟨d, .refl d, ⟨h.point, hchanged, h.handlers, hwrites⟩, ?_⟩
        rcases hk with hdoc | hk | hk
        · exact hdoc
        · exact absurd hwrites hk
        · rw [hchanged] at hk
          cases hk
      · have hl : l ∈ d.changed := by rw [hchanged]; simp
        obtain ⟨d₁, hreach, hdraining, hlt, hkeeps⟩ := h.exists_report hl
        obtain ⟨d₂, hreach', hfinished⟩ := ih d₁.work hlt hdraining (hkeeps hk) rfl
        exact ⟨d₂, hreach.trans hreach', hfinished⟩
    · obtain ⟨d₁, hreach, hdraining, hlt, hkeeps⟩ := h.exists_write hwrites
      obtain ⟨d₂, hreach', hfinished⟩ := ih d₁.work hlt hdraining hkeeps rfl
      exact ⟨d₂, hreach.trans hreach', hfinished⟩

/-! ## Deleting without an interruption -/

/-- The store, the user document and what waits did not change. -/
structure SameMetadata (d d' : Deletion) : Prop where
  store : d'.store = d.store
  userDocument : d'.remote.userDocument = d.remote.userDocument
  handlers : d'.handlers = d.handlers
  writes : d'.writes = d.writes

theorem SameMetadata.trans {d'' : Deletion} (h : d.SameMetadata d') (h' : d'.SameMetadata d'') :
    d.SameMetadata d'' where
  store := h'.store.trans h.store
  userDocument := h'.userDocument.trans h.userDocument
  handlers := h'.handlers.trans h.handlers
  writes := h'.writes.trans h.writes

/-- The documents of a collection are deleted, one after another. -/
theorem exists_deleteDocuments {collection : RemoteCollection} {documents : List String}
    (hp : d.point = .deleteDocuments collection documents) :
    ∃ d', Runs.Reaches step d d' ∧ d'.point = collection.nextPoint ∧ d.SameMetadata d' := by
  induction documents generalizing d with
  | nil =>
    have hstep : d.step .advance = some { d with point := collection.nextPoint } := by
      simp [step, advance, hp]
    exact ⟨_, .single hstep, rfl, rfl, rfl, rfl, rfl⟩
  | cons id documents ih =>
    have hstep : d.step .advance = some { d.setRemote (d.remote.deleteDocument collection id) with
        point := .deleteDocuments collection documents } := by
      simp [step, advance, hp]
    obtain ⟨d', hreach, hp', hsame⟩ := ih (d := { d.setRemote
      (d.remote.deleteDocument collection id) with
        point := .deleteDocuments collection documents }) rfl
    refine ⟨d', (Runs.Reaches.single hstep).trans hreach, hp', SameMetadata.trans ?_ hsame⟩
    exact ⟨rfl, Remote.userDocument_deleteDocument _ _, rfl, rfl⟩

theorem exists_getDocuments {collection : RemoteCollection}
    (hp : d.point = .getDocuments collection) :
    ∃ d', Runs.Reaches step d d' ∧ d'.point = collection.nextPoint ∧ d.SameMetadata d' := by
  have hstep : d.step .advance = some { d with
      point := .deleteDocuments collection (d.remote.documents collection) } := by
    simp [step, advance, hp]
  obtain ⟨d', hreach, hp', hsame⟩ := exists_deleteDocuments (d := { d with
    point := .deleteDocuments collection (d.remote.documents collection) }) rfl
  refine ⟨d', (Runs.Reaches.single hstep).trans hreach, hp', SameMetadata.trans ?_ hsame⟩
  exact ⟨rfl, rfl, rfl, rfl⟩

/-- The collections are deleted one after another. -/
theorem exists_deleteCollections (hp : d.point = .getDocuments .notes) :
    ∃ d', Runs.Reaches step d d' ∧ d'.point = .deleteUserDocument ∧ d.SameMetadata d' := by
  obtain ⟨d₁, hreach₁, hp₁, hsame₁⟩ := exists_getDocuments hp
  obtain ⟨d₂, hreach₂, hp₂, hsame₂⟩ := exists_getDocuments hp₁
  obtain ⟨d₃, hreach₃, hp₃, hsame₃⟩ := exists_getDocuments hp₂
  exact ⟨d₃, (hreach₁.trans hreach₂).trans hreach₃, hp₃, (hsame₁.trans hsame₂).trans hsame₃⟩

/-- The deletion runs to its end while nothing else does. Then everything is a default, and a
user document comes back if there was one or the metadata were no defaults. -/
theorem exists_draining (s : LocalStore) (r : Remote) :
    ∃ d, Runs.Reaches step { store := s, remote := r } d ∧ d.Draining ∧
      (d.KeepsUserDocument ∨ r.userDocument = none ∧ s.uncategorizedPosition = 0 ∧
        s.experimentalFeaturesPreference = .default ∧ s.insightsHintState = .default) := by
  obtain ⟨d₁, hreach, hp, hsame⟩ := exists_deleteCollections (d := { store := s, remote := r }) rfl
  have hhandlers : d₁.handlers = [] := hsame.handlers
  have hwrites : d₁.writes = [] := hsame.writes
  have hdocument : d₁.remote.userDocument = r.userDocument := hsame.userDocument
  obtain ⟨s', hs', hdefaults, htasks⟩ := d₁.store.exists_resetForNewUser
  have hstep : Runs.run step [.advance, .advance] d₁ = some { d₁.setRemote
      d₁.remote.deleteUserDocument with
        store := s'
        writes := d₁.store.metadataSinks s'
        point := .completed } := by
    simp [Runs.run, step, advance, hp, setRemote, hs', hwrites]
  obtain ⟨ls, hrun⟩ := hreach.trans ⟨_, hstep⟩
  have hdocuments := documents_of_completed hrun rfl .tasks
  refine ⟨_, ⟨ls, hrun⟩, ⟨rfl, hhandlers, ?_, ?_, fun _ hw => hdefaults.mem_metadataSinks hw,
    hdefaults, ?_⟩, ?_⟩
  · exact List.map_eq_nil_iff.mp (List.append_eq_nil_iff.mp hdocuments).1
  · exact fun _ hd => absurd hd (Option.not_mem_none _)
  · rw [htasks]
    exact List.nodup_nil
  · rw [← hdocument]
    rcases eq_or_ne d₁.remote.userDocument none with hnone | hsome
    · rcases eq_or_ne (d₁.store.metadataSinks s') [] with hsinks | hsinks
      · obtain ⟨hposition, hpreference, hhint⟩ := LocalStore.metadataSinks_eq_nil.mp hsinks
        rw [hsame.store] at hposition hpreference hhint
        exact Or.inr ⟨hnone, hposition.symm.trans hdefaults.position,
          hpreference.symm.trans hdefaults.preference, hhint.symm.trans hdefaults.hint⟩
      · exact Or.inl (Or.inr (Or.inl hsinks))
    · refine Or.inl (Or.inr (Or.inr (List.mem_append_right _ ?_)))
      simp [Remote.changed, Remote.deleteUserDocument, hsome.symm]

end Deletion

/-- In every order nothing is left of the user exactly if there is no user document and the
metadata in the store are the defaults. -/
theorem deletesEverything_iff (s : LocalStore) (r : Remote) :
    (∀ ls d, Runs.run Deletion.step ls { store := s, remote := r } = some d → d.Finished →
        d.remote.IsEmpty) ↔
      r.userDocument = none ∧ s.uncategorizedPosition = 0 ∧
        s.experimentalFeaturesPreference = .default ∧ s.insightsHintState = .default := by
  refine ⟨fun hall => ?_, ?_⟩
  · obtain ⟨d₁, hreach, hdraining, hdocument | hdefaults⟩ := Deletion.exists_draining s r
    · obtain ⟨d, hreach', hfinished, hsome⟩ := hdraining.exists_finished hdocument
      obtain ⟨ls, hrun⟩ := hreach.trans hreach'
      exact absurd (hall ls d hrun hfinished).2 hsome
    · exact hdefaults
  · rintro ⟨hdocument, hposition, hpreference, hhint⟩ ls d hrun ⟨hp, -⟩
    have hstart : Deletion.NoMetadata { store := s, remote := r } :=
      ⟨hdocument, by simp, by simp, rfl, hposition, hpreference, hhint⟩
    exact ⟨Deletion.documents_of_completed hrun hp,
      (Runs.invariant_of_run Deletion.noMetadata_step hstart hrun).userDocument⟩

/-- The user document has the default metadata. Its deletion is reported after the reset, and the
reconciliations write the metadata again. -/
theorem not_deletesEverything : ¬∀ (s : LocalStore) (r : Remote) (ls : List DeletionStep)
    (d : Deletion), Runs.run Deletion.step ls { store := s, remote := r } = some d →
      d.Finished → d.remote.IsEmpty := by
  intro h
  have hempty := h { hasStoredExperimentalPreference := true, hasStoredInsightsHintState := true }
    { userDocument := some (.ofDefaults true true true) }
    [.advance, .advance, .advance, .advance, .advance, .advance, .advance, .advance,
      .fire .categoryGroupMetadata, .runHandler 0,
      .fire .experimentalFeatureMetadata, .runHandler 0, .runWrite 0,
      .fire .insightsHintMetadata, .runHandler 0, .runWrite 0,
      .fire .categoryGroupMetadata, .runHandler 0,
      .fire .experimentalFeatureMetadata, .runHandler 0, .runWrite 0,
      .fire .insightsHintMetadata, .runHandler 0, .runWrite 0] _ rfl ⟨rfl, rfl, rfl, rfl⟩
  exact absurd hempty.2 (Option.some_ne_none _)

end Notelayer
