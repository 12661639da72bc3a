import Notelayer.InitialSync
import Notelayer.Library.Runs

/-!
# Switching users

Every auth event starts an invocation of `handleUserChange`. Its first piece stops the
listeners, detaches the backend and, for a user, attaches a new one. The initial sync follows,
piece by piece, and the last piece installs listeners and metadata sinks. `Service` is the
state the invocations share, with the invocations in flight, the listener registrations that
are active and the handlers that wait to run.

Nothing is checked again after an await. An invocation that an auth event has overtaken still
installs the listeners of its user, registrations that a later `startListeners` overwrites in
`listeners` are never removed, and a handler spawned before a reset still applies its snapshot
after it. `ServiceStep.LeavesNothingBehind` excludes these, and with it everything belongs to
the user of the last event (`belongsToUser_run`).
-/

namespace Notelayer

/-! ## The service -/

/-- The registrations of one call of `startListeners`. -/
structure Registration where
  serial : ℕ
  backend : FirestoreBackend
  deriving DecidableEq

/-- A suspended invocation of `handleUserChange`. -/
structure Invocation where
  backend : FirestoreBackend
  point : SyncPoint

/-- The service with its store, backend and listeners, and what is in flight. -/
structure Service where
  store : LocalStore
  backend : Option FirestoreBackend := none
  listeners : List Registration := []
  /-- The user whose metadata the sinks write. -/
  sinks : Option FirestoreBackend := none
  invocations : List Invocation := []
  /-- The registrations that have not been removed. -/
  active : List Registration := []
  /-- The handlers that have not run, with the user of their registration. -/
  handlers : List (FirestoreBackend × Snapshot) := []
  registrationCount : ℕ := 0
  /-- The user of the last auth event. -/
  user : Option String := none
  /-- The users whose notes, tasks or categories were applied since the store was reset. -/
  applied : List String := []

/-- A step of Firebase, of a listener or of a handler. -/
inductive ServiceStep where
  | authEvent (user : Option String)
  /-- An invocation in flight gets the response it awaits. -/
  | resume (k : ℕ) (response : Response)
  /-- An active registration passes a snapshot to its handler. -/
  | fire (k : ℕ) (snapshot : Snapshot)
  | runHandler (k : ℕ)

namespace Service

variable (u : Service)

/-- The active registrations are removed. -/
def stopListeners : Service :=
  { u with active := u.active.filter (· ∉ u.listeners), listeners := [] }

/-- The assignment drops the registrations in `listeners` without removing them. -/
def startListeners (backend : FirestoreBackend) : Service :=
  let registration := ⟨u.registrationCount, backend⟩
  { u with
    listeners := [registration]
    active := u.active ++ [registration]
    registrationCount := u.registrationCount + 1 }

/-- The sinks write the metadata of this user. -/
def startMetadataSync (backend : FirestoreBackend) : Service :=
  { u with sinks := some backend }

/-- `handleUserChange` up to its first await. -/
def handleUserChange (user : Option String) : Option Service :=
  let u := { u.stopListeners with backend := none, sinks := none, user := user }
  match user with
  | none => some { u with store := u.store.attachBackend none }
  | some userId => (u.store.changeUser userId).map fun store =>
    { u with
      store := store
      backend := some ⟨userId⟩
      invocations := u.invocations ++ [⟨⟨userId⟩, .fetchAll⟩]
      applied := if u.store.resetsFor userId then [] else u.applied }

/-- The piece of the initial sync that ended so has applied a snapshot. -/
def appliedSnapshot (p : SyncPoint) (next : Option SyncPoint) : Bool :=
  next = some .fetchCategoryGroupMetadata ∧ p ≠ .fetchCategoryGroupMetadata

/-- `handleUserChange` from an await to the next one, or to its end. -/
def resume (k : ℕ) (response : Response) : Option Service :=
  match u.invocations[k]? with
  | none => some u
  | some invocation =>
    (invocation.point.resume response u.store).map fun (store, next) =>
      let u := { u with
        store := store
        applied := if appliedSnapshot invocation.point next then
          u.applied ++ [invocation.backend.userId] else u.applied }
      match next with
      | some point =>
        { u with invocations := u.invocations.set k { invocation with point := point } }
      | none =>
        let u := { u with invocations := u.invocations.eraseIdx k }
        (u.startListeners invocation.backend).startMetadataSync invocation.backend

/-- A snapshot goes to the handler of a registration. -/
def fire (k : ℕ) (snapshot : Snapshot) : Service :=
  match u.active[k]? with
  | none => u
  | some registration =>
    { u with handlers := u.handlers ++ [(registration.backend, snapshot)] }

/-- A handler runs on the main queue. -/
def runHandler (k : ℕ) : Option Service :=
  match u.handlers[k]? with
  | none => some u
  | some (backend, snapshot) => (snapshot.handle u.store).map fun (store, _) =>
    { u with
      store := store
      handlers := u.handlers.eraseIdx k
      applied := if snapshot.isCollection then u.applied ++ [backend.userId] else u.applied }

/-- The step function of the service. -/
def step (l : ServiceStep) (u : Service) : Option Service :=
  match l with
  | .authEvent user => u.handleUserChange user
  | .resume k response => u.resume k response
  | .fire k snapshot => some (u.fire k snapshot)
  | .runHandler k => u.runHandler k

end Service

/-! ## What belongs to whom -/

/-- With a user signed in, the backend, the listeners and the sinks are theirs, and only their
data was applied. With nobody signed in there is no backend and no listener. -/
def Service.BelongsToUser (u : Service) : Prop :=
  match u.user with
  | some userId => u.backend = some ⟨userId⟩ ∧ u.store.backend = some ⟨userId⟩ ∧
      (∀ registration ∈ u.active, registration.backend = ⟨userId⟩) ∧
      (∀ backend ∈ u.sinks, backend = ⟨userId⟩) ∧ ∀ owner ∈ u.applied, owner = userId
  | none => u.backend = none ∧ u.store.backend = none ∧ u.active = []

/-- An auth event starts when every invocation in flight and every active registration that is
not in `listeners` any more is of the user it signs in, and so is, if it signs one in, every
collection that waits to be applied. -/
def ServiceStep.LeavesNothingBehind (l : ServiceStep) (u : Service) : Prop :=
  match l with
  | authEvent user =>
    (∀ invocation ∈ u.invocations, user = some invocation.backend.userId) ∧
      (∀ registration ∈ u.active, registration ∉ u.listeners →
        user = some registration.backend.userId) ∧
      ∀ userId ∈ user, ∀ handler ∈ u.handlers, handler.2.isCollection → handler.1.userId = userId
  | _ => True

/-! ## The account of the store -/

namespace LocalStore

variable {s s' : LocalStore}

/-- Without a reset the data in the store is of the user who signs in. -/
theorem eq_of_not_resetsFor {userId lastUserId : String} (h : ¬s.resetsFor userId = true)
    (hlast : s.lastBackendUserId = some lastUserId) : lastUserId = userId := by
  unfold resetsFor at h
  rw [hlast] at h
  simpa using h

theorem account_changeUser {userId : String} (h : s.changeUser userId = some s') :
    s'.backend = some ⟨userId⟩ ∧ s'.lastBackendUserId = some userId := by
  obtain ⟨s₁, -, rfl⟩ := Option.map_eq_some_iff.mp h
  exact ⟨rfl, rfl⟩

end LocalStore

open LocalStore

/-! ## The pieces of the initial sync -/

section Pieces

variable {remote : Fetched} {notes : List Note} {tasks : List Task} {categories : List Category}
  {s s' : LocalStore} {next : Option SyncPoint}

theorem sameAccount_of_some {p : Option SyncPoint} (h : some (s, p) = some (s', next)) :
    s.SameAccount s' := by
  obtain ⟨rfl, -⟩ := Prod.mk.inj (Option.some_inj.mp h)
  exact sameAccount_of_eq rfl rfl rfl

theorem sameAccount_applySnapshot (h : applySnapshot notes tasks categories s = some (s', next)) :
    s.SameAccount s' := by
  obtain ⟨s₁, h₁, h⟩ := Option.map_eq_some_iff.mp h
  obtain ⟨rfl, -⟩ := Prod.mk.inj h
  exact (keepsMetadata_applyRemoteSnapshot h₁).toSameAccount

theorem sameAccount_uploadCategories
    (h : uploadCategories remote notes tasks s = some (s', next)) : s.SameAccount s' := by
  unfold uploadCategories at h
  split_ifs at h
  · exact sameAccount_of_some h
  · exact sameAccount_applySnapshot h

theorem sameAccount_uploadTasks (h : uploadTasks remote notes s = some (s', next)) :
    s.SameAccount s' := by
  unfold uploadTasks at h
  split_ifs at h
  · exact sameAccount_of_some h
  · exact sameAccount_uploadCategories h

theorem sameAccount_uploadNotes (h : uploadNotes remote s = some (s', next)) :
    s.SameAccount s' := by
  unfold uploadNotes at h
  split_ifs at h
  · exact sameAccount_of_some h
  · exact sameAccount_uploadTasks h

theorem sameAccount_reconcileMetadata (remoteExperimental : Option (Bool × Date))
    (remoteInsightsHint : Option InsightsHintState) :
    s.SameAccount (reconcileMetadata remoteExperimental remoteInsightsHint s).1 := by
  unfold reconcileMetadata pushInsightsHint
  dsimp only
  split_ifs <;> exact sameAccount_of_eq rfl rfl rfl

end Pieces

/-- A response switches no account. -/
theorem SyncPoint.sameAccount_resume {p : SyncPoint} {response : Response} {s s' : LocalStore}
    {next : Option SyncPoint} (h : p.resume response s = some (s', next)) : s.SameAccount s' := by
  unfold resume at h
  split at h
  · exact sameAccount_of_some h
  · exact sameAccount_uploadNotes h
  · exact sameAccount_uploadTasks h
  · exact sameAccount_uploadCategories h
  · exact sameAccount_applySnapshot h
  · obtain ⟨s₁, h₁, h⟩ := Option.map_eq_some_iff.mp h
    obtain ⟨rfl, -⟩ := Prod.mk.inj h
    obtain rfl := Option.some_inj.mp h₁
    exact sameAccount_of_eq rfl rfl rfl
  · split_ifs at h <;> exact sameAccount_of_some h
  · exact sameAccount_of_some h
  · exact sameAccount_of_some h
  · obtain ⟨rfl, -⟩ := Prod.mk.inj (Option.some_inj.mp h)
    exact sameAccount_reconcileMetadata _ _
  · unfold pushInsightsHint at h
    split_ifs at h <;> exact sameAccount_of_some h
  · exact sameAccount_of_some h
  · exact sameAccount_of_some h

/-! ## Ownership -/

namespace Service

/-- Everything the service holds is of the user of the last event, and what was applied or
waits to be applied is of the user the store was reset for. -/
structure Owned (u : Service) : Prop where
  backend : u.backend = u.user.map FirestoreBackend.mk
  storeBackend : u.store.backend = u.user.map FirestoreBackend.mk
  lastUser : ∀ userId ∈ u.user, u.store.lastBackendUserId = some userId
  sinks : ∀ backend ∈ u.sinks, u.user = some backend.userId
  invocations : ∀ invocation ∈ u.invocations, u.user = some invocation.backend.userId
  active : ∀ registration ∈ u.active, u.user = some registration.backend.userId
  handlers : ∀ handler ∈ u.handlers, handler.2.isCollection →
    u.store.lastBackendUserId = some handler.1.userId
  applied : ∀ owner ∈ u.applied, u.store.lastBackendUserId = some owner

variable {u : Service}

theorem owned_fresh {s : LocalStore} (hs : s.backend = none) : Owned { store := s } where
  backend := rfl
  storeBackend := hs
  lastUser _ hu := absurd hu (Option.not_mem_none _)
  sinks _ hb := absurd hb (Option.not_mem_none _)
  invocations _ hi := absurd hi List.not_mem_nil
  active _ hr := absurd hr List.not_mem_nil
  handlers _ hh := absurd hh List.not_mem_nil
  applied _ ho := absurd ho List.not_mem_nil

/-- What is owned belongs to the user. -/
theorem Owned.belongsToUser (h : u.Owned) : u.BelongsToUser := by
  have hbackend := h.backend
  have hstore := h.storeBackend
  unfold BelongsToUser
  cases hu : u.user with
  | none =>
    rw [hu] at hbackend hstore
    refine ⟨hbackend, hstore, List.eq_nil_iff_forall_not_mem.mpr fun r hr => ?_⟩
    cases hu.symm.trans (h.active r hr)
  | some userId =>
    rw [hu] at hbackend hstore
    have hlast := h.lastUser userId hu
    refine ⟨hbackend, hstore, fun r hr => ?_, fun b hb => ?_, fun owner ho => ?_⟩
    · have hr := hu.symm.trans (h.active r hr)
      exact congrArg FirestoreBackend.mk (Option.some_inj.mp hr).symm
    · have hb := hu.symm.trans (h.sinks b hb)
      exact congrArg FirestoreBackend.mk (Option.some_inj.mp hb).symm
    · exact (Option.some_inj.mp (hlast.symm.trans (h.applied owner ho))).symm

/-- A piece or a handler keeps ownership if it applies data of the store's user only. -/
theorem Owned.withStore (h : u.Owned) {s : LocalStore} (hs : u.store.SameAccount s)
    {applied : List String}
    (happlied : ∀ owner ∈ applied, u.store.lastBackendUserId = some owner) :
    Owned { u with store := s, applied := applied } where
  backend := h.backend
  storeBackend := hs.backend.trans h.storeBackend
  lastUser userId hu := hs.lastUser.trans (h.lastUser userId hu)
  sinks := h.sinks
  invocations := h.invocations
  active := h.active
  handlers handler hh hc := hs.lastUser.trans (h.handlers handler hh hc)
  applied owner ho := hs.lastUser.trans (happlied owner ho)

theorem Owned.startListeners (h : u.Owned) {backend : FirestoreBackend}
    (hb : u.user = some backend.userId) : (u.startListeners backend).Owned := by
  refine { h with active := fun registration hr => ?_ }
  rcases List.mem_append.mp hr with hr | hr
  · exact h.active registration hr
  · obtain rfl := List.mem_singleton.mp hr
    exact hb

theorem Owned.startMetadataSync (h : u.Owned) {backend : FirestoreBackend}
    (hb : u.user = some backend.userId) : (u.startMetadataSync backend).Owned := by
  refine { h with sinks := fun backend' hb' => ?_ }
  obtain rfl := Option.some_inj.mp hb'
  exact hb

variable {u' : Service}

/-- A change of the user that leaves nothing behind keeps everything owned. -/
theorem Owned.handleUserChange (h : u.Owned) {user : Option String}
    (hg : (ServiceStep.authEvent user).LeavesNothingBehind u)
    (hu : u.handleUserChange user = some u') : u'.Owned := by
  obtain ⟨hinvocations, hactive, hhandlers⟩ := hg
  have hstopped : ∀ registration ∈ u.stopListeners.active,
      user = some registration.backend.userId := fun registration hr => by
    obtain ⟨hr, hlost⟩ := List.mem_filter.mp hr
    exact hactive registration hr (of_decide_eq_true hlost)
  cases user with
  | none =>
    obtain rfl := Option.some_inj.mp hu
    exact {
      backend := rfl
      storeBackend := rfl
      lastUser := fun _ hu => absurd hu (Option.not_mem_none _)
      sinks := fun _ hb => absurd hb (Option.not_mem_none _)
      invocations := hinvocations
      active := hstopped
      handlers := h.handlers
      applied := h.applied }
  | some userId =>
    obtain ⟨s, hs, rfl⟩ := Option.map_eq_some_iff.mp hu
    obtain ⟨hbackend, hlast⟩ := account_changeUser hs
    exact {
      backend := rfl
      storeBackend := hbackend
      lastUser := fun _ hu => hlast.trans hu
      sinks := fun _ hb => absurd hb (Option.not_mem_none _)
      invocations := fun invocation hi => by
        rcases List.mem_append.mp hi with hi | hi
        · exact hinvocations invocation hi
        · obtain rfl := List.mem_singleton.mp hi
          rfl
      active := hstopped
      handlers := fun handler hh hc => by
        rw [hhandlers userId rfl handler hh hc]
        exact hlast
      applied := fun owner ho => by
        dsimp only at ho
        split_ifs at ho with hresets
        · cases ho
        · rw [eq_of_not_resetsFor hresets (h.applied owner ho)]
          exact hlast }

/-- A response keeps everything owned. -/
theorem Owned.resume (h : u.Owned) {k : ℕ} {response : Response}
    (hu : u.resume k response = some u') : u'.Owned := by
  unfold Service.resume at hu
  cases hk : u.invocations[k]? with
  | none =>
    rw [hk] at hu
    obtain rfl := Option.some_inj.mp hu
    exact h
  | some invocation =>
    have huser := h.invocations invocation (List.mem_of_getElem? hk)
    rw [hk] at hu
    obtain ⟨⟨s, next⟩, hs, rfl⟩ := Option.map_eq_some_iff.mp hu
    have happlied : ∀ owner ∈ (if appliedSnapshot invocation.point next then
        u.applied ++ [invocation.backend.userId] else u.applied),
        u.store.lastBackendUserId = some owner := by
      intro owner ho
      split_ifs at ho
      · rcases List.mem_append.mp ho with ho | ho
        · exact h.applied owner ho
        · obtain rfl := List.mem_singleton.mp ho
          exact h.lastUser _ huser
      · exact h.applied owner ho
    have hstore := h.withStore (SyncPoint.sameAccount_resume hs) happlied
    cases next with
    | none =>
      have herased := { hstore with
        invocations := fun i (hi : i ∈ u.invocations.eraseIdx k) =>
          h.invocations i (List.mem_of_mem_eraseIdx hi) : Owned { u with
            store := s
            applied := _
            invocations := u.invocations.eraseIdx k } }
      exact (herased.startListeners huser).startMetadataSync huser
    | some point =>
      refine { hstore with invocations := fun i hi => ?_ }
      rcases List.mem_or_eq_of_mem_set hi with hi | rfl
      · exact h.invocations i hi
      · exact huser

/-- An active registration is of the user the store was reset for. -/
theorem Owned.fire (h : u.Owned) (k : ℕ) (snapshot : Snapshot) : (u.fire k snapshot).Owned := by
  unfold Service.fire
  cases hk : u.active[k]? with
  | none => exact h
  | some registration =>
    have huser := h.active registration (List.mem_of_getElem? hk)
    refine { h with handlers := fun handler hh hc => ?_ }
    rcases List.mem_append.mp hh with hh | hh
    · exact h.handlers handler hh hc
    · obtain rfl := List.mem_singleton.mp hh
      exact h.lastUser _ huser

/-- A handler keeps everything owned. -/
theorem Owned.runHandler (h : u.Owned) {k : ℕ} (hu : u.runHandler k = some u') : u'.Owned := by
  unfold Service.runHandler at hu
  cases hk : u.handlers[k]? with
  | none =>
    rw [hk] at hu
    obtain rfl := Option.some_inj.mp hu
    exact h
  | some handler =>
    obtain ⟨backend, snapshot⟩ := handler
    have howner := h.handlers _ (List.mem_of_getElem? hk)
    rw [hk] at hu
    obtain ⟨⟨s, push⟩, hs, rfl⟩ := Option.map_eq_some_iff.mp hu
    have hframe := Snapshot.sameAccount_handle hs
    have happlied : ∀ owner ∈ (if snapshot.isCollection then
        u.applied ++ [backend.userId] else u.applied),
        u.store.lastBackendUserId = some owner := by
      intro owner ho
      split_ifs at ho with hcollection
      · rcases List.mem_append.mp ho with ho | ho
        · exact h.applied owner ho
        · obtain rfl := List.mem_singleton.mp ho
          exact howner hcollection
      · exact h.applied owner ho
    exact { h.withStore hframe happlied with
      handlers := fun handler hh hc =>
        hframe.lastUser.trans (h.handlers handler (List.mem_of_mem_eraseIdx hh) hc) }

/-- A step that leaves nothing behind keeps ownership. -/
theorem owned_step (l : ServiceStep) (u u' : Service) (h : u.Owned) (hg : l.LeavesNothingBehind u)
    (hu : u.step l = some u') : u'.Owned := by
  cases l with
  | authEvent user => exact h.handleUserChange hg hu
  | resume k response => exact h.resume hu
  | fire k snapshot =>
    obtain rfl := Option.some_inj.mp hu
    exact h.fire k snapshot
  | runHandler k => exact h.runHandler hu

end Service

/-! ## The run -/

/-- After every run from a start with no backend attached whose auth events leave nothing behind,
everything belongs to the user of the last event. -/
theorem belongsToUser_run {s : LocalStore} {ls : List ServiceStep} {u : Service}
    (hs : s.backend = none)
    (hg : Runs.Guarded Service.step ServiceStep.LeavesNothingBehind ls { store := s })
    (hu : Runs.run Service.step ls { store := s } = some u) : u.BelongsToUser :=
  (Runs.invariant_of_guarded Service.owned_step (Service.owned_fresh hs) hg hu).belongsToUser

/-- A switch after the sync of the first user has ended. -/
theorem belongsToUser_run_sample : ∃ u : Service,
    Runs.run Service.step [.authEvent (some "a"), .resume 0 .thrown, .authEvent (some "b"),
      .resume 0 .thrown] { store := {} } = some u ∧ u.BelongsToUser := by
  have hg : Runs.Guarded Service.step ServiceStep.LeavesNothingBehind [.authEvent (some "a"),
      .resume 0 .thrown, .authEvent (some "b"), .resume 0 .thrown] { store := {} } := by
    refine ⟨⟨?_, ?_, ?_⟩, fun u₁ h₁ => ⟨trivial, fun u₂ h₂ => ⟨?_, fun u₃ h₃ => ⟨trivial,
      fun _ _ => trivial⟩⟩⟩⟩
    · exact fun _ hi => absurd hi List.not_mem_nil
    · exact fun _ hr => absurd hr List.not_mem_nil
    · exact fun _ _ _ hh => absurd hh List.not_mem_nil
    · obtain rfl := Option.some_inj.mp h₁
      obtain rfl := Option.some_inj.mp h₂
      refine ⟨fun _ hi => absurd hi List.not_mem_nil, fun _ hr hlost => absurd hr hlost, ?_⟩
      exact fun _ _ _ hh => absurd hh List.not_mem_nil
  exact ⟨_, rfl, belongsToUser_run rfl hg rfl⟩

/-- A sign-out while the fetch is pending : the fetch throws, and the listeners are installed
with nobody signed in. -/
theorem not_belongsToUser_run : ¬∀ (s : LocalStore) (ls : List ServiceStep) (u : Service),
    s.backend = none → Runs.run Service.step ls { store := s } = some u → u.invocations = [] →
      u.BelongsToUser := by
  intro h
  obtain ⟨-, -, hactive⟩ :=
    h {} [.authEvent (some "a"), .authEvent none, .resume 0 .thrown] _ rfl rfl rfl
  cases hactive

end Notelayer
