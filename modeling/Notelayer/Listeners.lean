import Notelayer.OperationViews
import Notelayer.Remote

/-!
# The snapshot listeners

`startListeners` installs six listeners. Each hands what it reads to a handler that runs on
the main actor. The handlers of the collections replace a list of the store. Those of the
metadata reconcile, and the last two then push the local value if it is the newer one.
-/

namespace Notelayer

open KeyedList

/-- The listeners of a signed-in user. -/
inductive Listener where
  | notes
  | tasks
  | categories
  | categoryGroupMetadata
  | experimentalFeatureMetadata
  | insightsHintMetadata
  deriving DecidableEq

/-- What a listener passes to its handler. -/
inductive Snapshot where
  | notes (remote : List Note)
  | tasks (remote : List Task)
  | categories (remote : List Category)
  | categoryGroupMetadata (position : Option ℤ)
  | experimentalFeatureMetadata (remoteEnabled : Option Bool) (remoteUpdatedAt : Option Date)
  | insightsHintMetadata (remoteState : Option InsightsHintState)
  deriving DecidableEq

/-- What the listener reads. -/
def Listener.snapshot (r : Remote) : Listener → Snapshot
  | notes => .notes r.notes.records
  | tasks => .tasks r.tasks.records
  | categories => .categories r.categories.records
  | categoryGroupMetadata => .categoryGroupMetadata r.uncategorizedPosition
  | experimentalFeatureMetadata =>
    .experimentalFeatureMetadata r.experimentalFeaturesEnabled r.experimentalFeaturesUpdatedAt
  | insightsHintMetadata => .insightsHintMetadata r.insightsHint

namespace Snapshot

/-- The snapshot replaces notes, tasks or categories. -/
def isCollection : Snapshot → Bool
  | notes _ => true
  | tasks _ => true
  | categories _ => true
  | _ => false

/-- The handler : the store after it, and its push. -/
def handle (s : LocalStore) : Snapshot → Option (LocalStore × Option MetadataWrite)
  | .notes remote => (s.applyRemoteNotes remote).map (·, none)
  | .tasks remote => (s.applyRemoteTasks remote).map (·, none)
  | .categories remote => (s.applyRemoteCategories remote).map (·, none)
  | categoryGroupMetadata (some position) =>
    (s.applyRemoteUncategorizedPosition position).map (·, none)
  | categoryGroupMetadata none => some (s, none)
  | experimentalFeatureMetadata remoteEnabled remoteUpdatedAt =>
    let (s, shouldPushLocal) := s.reconcileExperimentalPreference remoteEnabled remoteUpdatedAt
    some (s, if shouldPushLocal then some (.experimentalFeature s.experimentalFeaturesPreference)
      else none)
  | insightsHintMetadata remoteState =>
    let (s, shouldPushLocal) := s.reconcileInsightsHintState remoteState
    some (s, if shouldPushLocal then some (.insightsHint s.insightsHintState) else none)

/-- A snapshot that repeats no task id is handled without a trap, and repeats none in the
store. -/
theorem exists_handle {s : LocalStore} (hd : DistinctIds s.tasks) (snapshot : Snapshot)
    (h : ∀ ts, snapshot = tasks ts → DistinctIds ts) :
    ∃ s' push, snapshot.handle s = some (s', push) ∧ DistinctIds s'.tasks := by
  cases snapshot with
  | notes ns => exact ⟨_, _, rfl, hd⟩
  | tasks ts =>
    obtain ⟨s', hs', htasks⟩ := LocalStore.applyRemoteTasks_of_distinctIds (s := s) (h ts rfl)
    refine ⟨s', none, congrArg (Option.map (·, none)) hs', ?_⟩
    rw [htasks]
    exact distinctIds_congr (ids_sanitized _ _) (h ts rfl)
  | categories cs =>
    obtain ⟨s', hs', hd'⟩ := LocalStore.applyRemoteCategories_of_distinctIds cs hd
    exact ⟨s', none, congrArg (Option.map (·, none)) hs', hd'⟩
  | categoryGroupMetadata position =>
    cases position with
    | none => exact ⟨s, none, rfl, hd⟩
    | some position => exact ⟨_, _, rfl, hd⟩
  | experimentalFeatureMetadata remoteEnabled remoteUpdatedAt => exact ⟨_, _, rfl, hd⟩
  | insightsHintMetadata remoteState => exact ⟨_, _, rfl, hd⟩

end Snapshot

/-! ## What a collection leaves alone -/

namespace LocalStore

/-- Only closures that reschedule reminders are new. -/
def SpawnsReminders (s s' : LocalStore) : Prop :=
  ∃ closures, s'.spawned = s.spawned ++ closures ∧
    ∀ closure ∈ closures, ∃ tasks, closure = .rescheduleReminders tasks

/-- The backend and the last user did not change. -/
structure SameAccount (s s' : LocalStore) : Prop where
  backend : s'.backend = s.backend
  lastUser : s'.lastBackendUserId = s.lastBackendUserId
  spawned : s.SpawnsReminders s'

/-- `s'` has the metadata of `s`, up to the position of the uncategorized group, which stays 0. -/
structure KeepsMetadata (s s' : LocalStore) : Prop extends SameAccount s s' where
  preference : s'.experimentalFeaturesPreference = s.experimentalFeaturesPreference
  hint : s'.insightsHintState = s.insightsHintState
  storedPreference : s'.hasStoredExperimentalPreference = s.hasStoredExperimentalPreference
  storedHint : s'.hasStoredInsightsHintState = s.hasStoredInsightsHintState
  position : s.uncategorizedPosition = 0 → s'.uncategorizedPosition = 0

variable {s s' : LocalStore}

theorem SpawnsReminders.refl (s : LocalStore) : s.SpawnsReminders s :=
  ⟨[], (List.append_nil _).symm, by simp⟩

theorem SpawnsReminders.trans {s'' : LocalStore} (h : s.SpawnsReminders s')
    (h' : s'.SpawnsReminders s'') : s.SpawnsReminders s'' := by
  obtain ⟨closures, hs, hc⟩ := h
  obtain ⟨closures', hs', hc'⟩ := h'
  refine ⟨closures ++ closures', by rw [hs', hs, List.append_assoc], fun closure hmem => ?_⟩
  rcases List.mem_append.mp hmem with hmem | hmem
  · exact hc closure hmem
  · exact hc' closure hmem

theorem sameAccount_of_eq (hb : s'.backend = s.backend)
    (hl : s'.lastBackendUserId = s.lastBackendUserId) (hs : s'.spawned = s.spawned) :
    s.SameAccount s' :=
  ⟨hb, hl, [], by rw [hs, List.append_nil], by simp⟩

theorem KeepsMetadata.refl (s : LocalStore) : s.KeepsMetadata s :=
  ⟨sameAccount_of_eq rfl rfl rfl, rfl, rfl, rfl, rfl, id⟩

theorem KeepsMetadata.trans {s'' : LocalStore} (h : s.KeepsMetadata s')
    (h' : s'.KeepsMetadata s'') : s.KeepsMetadata s'' where
  backend := h'.backend.trans h.backend
  lastUser := h'.lastUser.trans h.lastUser
  preference := h'.preference.trans h.preference
  hint := h'.hint.trans h.hint
  storedPreference := h'.storedPreference.trans h.storedPreference
  storedHint := h'.storedHint.trans h.storedHint
  position := h'.position ∘ h.position
  spawned := h.spawned.trans h'.spawned

theorem keepsMetadata_migrateEmptyCategories : s.KeepsMetadata s.migrateEmptyCategories := by
  unfold migrateEmptyCategories
  split_ifs
  · exact { KeepsMetadata.refl s with }
  · exact .refl s

/-- The position is clamped to the categories, so 0 stays. -/
theorem keepsMetadata_migrateUncategorizedPosition :
    s.KeepsMetadata s.migrateUncategorizedPosition := by
  unfold migrateUncategorizedPosition
  dsimp only
  split_ifs
  · refine { KeepsMetadata.refl s with position := fun h => ?_ }
    simp [saveUncategorizedPosition, clampUncategorizedPosition, h]
  · exact .refl s

theorem keepsMetadata_migrateIfNeeded (h : s.migrateIfNeeded = some s') : s.KeepsMetadata s' := by
  obtain ⟨lookup, -, rfl⟩ := Option.map_eq_some_iff.mp h
  have hposition := keepsMetadata_migrateUncategorizedPosition (s := { s.migrateEmptyCategories with
    categories := migratedCategories s.migrateEmptyCategories.categories })
  have hall := keepsMetadata_migrateEmptyCategories.trans { hposition with }
  dsimp only
  split_ifs <;> exact { hall with }

theorem keepsMetadata_applyRemoteUpdate {updates : LocalStore → Option LocalStore}
    (hu : ∀ {s₁ s₂}, updates s₁ = some s₂ → s₁.KeepsMetadata s₂)
    (h : s.applyRemoteUpdate updates = some s') : s.KeepsMetadata s' := by
  obtain ⟨s₂, hs₂, rfl⟩ := Option.map_eq_some_iff.mp h
  exact { hu hs₂ with }

theorem keepsMetadata_applyRemoteSnapshot {notes : List Note} {tasks : List Task}
    {categories : List Category} (h : s.applyRemoteSnapshot notes tasks categories = some s') :
    s.KeepsMetadata s' := by
  refine keepsMetadata_applyRemoteUpdate (fun {s₁ s₂} h₂ => ?_) h
  obtain ⟨tasks', -, h₂⟩ := Option.bind_eq_some_iff.mp h₂
  exact { keepsMetadata_migrateIfNeeded h₂ with }

theorem keepsMetadata_applyRemoteTasks {tasks : List Task}
    (h : s.applyRemoteTasks tasks = some s') : s.KeepsMetadata s' := by
  refine keepsMetadata_applyRemoteUpdate (fun {s₁ s₂} h₂ => ?_) h
  obtain ⟨tasks', -, rfl⟩ := Option.map_eq_some_iff.mp h₂
  refine { KeepsMetadata.refl s₁ with spawned := ⟨[.rescheduleReminders tasks'], rfl, ?_⟩ }
  rintro closure hmem
  exact ⟨tasks', List.mem_singleton.mp hmem⟩

theorem keepsMetadata_applyRemoteCategories {categories : List Category}
    (h : s.applyRemoteCategories categories = some s') : s.KeepsMetadata s' := by
  refine keepsMetadata_applyRemoteUpdate (fun {s₁ s₂} h₂ => ?_) h
  exact { keepsMetadata_migrateIfNeeded h₂ with }

end LocalStore

/-- The handler of a collection pushes nothing. -/
theorem Snapshot.keepsMetadata_handle {snapshot : Snapshot} (hc : snapshot.isCollection = true)
    {s s' : LocalStore} {push : Option MetadataWrite} (h : snapshot.handle s = some (s', push)) :
    push = none ∧ s.KeepsMetadata s' := by
  cases snapshot with
  | notes ns =>
    obtain ⟨rfl, rfl⟩ := Prod.mk.inj (Option.some_inj.mp h)
    exact ⟨rfl, { LocalStore.KeepsMetadata.refl s with }⟩
  | tasks ts =>
    obtain ⟨s₁, h₁, h⟩ := Option.map_eq_some_iff.mp h
    obtain ⟨rfl, rfl⟩ := Prod.mk.inj h
    exact ⟨rfl, LocalStore.keepsMetadata_applyRemoteTasks h₁⟩
  | categories cs =>
    obtain ⟨s₁, h₁, h⟩ := Option.map_eq_some_iff.mp h
    obtain ⟨rfl, rfl⟩ := Prod.mk.inj h
    exact ⟨rfl, LocalStore.keepsMetadata_applyRemoteCategories h₁⟩
  | categoryGroupMetadata position => cases hc
  | experimentalFeatureMetadata remoteEnabled remoteUpdatedAt => cases hc
  | insightsHintMetadata remoteState => cases hc

/-- A handler switches no account. -/
theorem Snapshot.sameAccount_handle {snapshot : Snapshot} {s s' : LocalStore}
    {push : Option MetadataWrite} (h : snapshot.handle s = some (s', push)) :
    s.SameAccount s' := by
  rcases Bool.eq_false_or_eq_true snapshot.isCollection with hc | hc
  · exact (Snapshot.keepsMetadata_handle hc h).2.toSameAccount
  · cases snapshot with
    | categoryGroupMetadata position =>
      cases position <;> obtain ⟨rfl, -⟩ := Prod.mk.inj (Option.some_inj.mp h) <;>
        exact LocalStore.sameAccount_of_eq rfl rfl rfl
    | experimentalFeatureMetadata remoteEnabled remoteUpdatedAt =>
      obtain ⟨rfl, -⟩ := Prod.mk.inj (Option.some_inj.mp h)
      exact LocalStore.sameAccount_of_eq rfl rfl rfl
    | insightsHintMetadata remoteState =>
      obtain ⟨rfl, -⟩ := Prod.mk.inj (Option.some_inj.mp h)
      exact LocalStore.sameAccount_of_eq rfl rfl rfl
    | notes ns => cases hc
    | tasks ts => cases hc
    | categories cs => cases hc

end Notelayer
