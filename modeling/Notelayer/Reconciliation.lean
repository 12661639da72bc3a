import Notelayer.AccountDeletion

/-!
# What a reconcile leaves to do

The listeners of the preference and of the hint state reconcile the record of the store with that
of the document, and write it to the document if the reconcile says so. A reconcile marks the
record as stored, and a record that is stored and not older than the remote one is pushed again. So
the second reconcile with an unchanged document never comes to rest
(`reconcile_never_rests`). For the same reason a store that was reset for a new user does not
reconcile as one that has nothing stored, unless the remote record is later than the default
(`reconcile_resetForNewUser_iff`).
-/

namespace Notelayer

theorem Date.not_lt_self (d : Date) : ¬d < d := by
  obtain ⟨t⟩ := d
  change ¬t.lt t = true
  cases t <;> simp [TimeInterval.lt]

/-! ## One reconcile -/

namespace LocalStore

variable {s : LocalStore}

/-- A stored preference is pushed, or the remote one is later and replaces it. -/
theorem reconcileExperimentalPreference_of_stored (h : s.hasStoredExperimentalPreference = true)
    (remoteEnabled : Option Bool) (remoteUpdatedAt : Option Date) :
    (s.reconcileExperimentalPreference remoteEnabled remoteUpdatedAt).2 = true ∧
        ¬(remoteEnabled ≠ none ∧ ∃ updatedAt ∈ remoteUpdatedAt,
          s.experimentalFeaturesPreference.updatedAt < updatedAt) ∨
      ∃ enabled updatedAt, remoteEnabled = some enabled ∧ remoteUpdatedAt = some updatedAt ∧
        s.experimentalFeaturesPreference.updatedAt < updatedAt ∧
        (s.reconcileExperimentalPreference remoteEnabled remoteUpdatedAt).2 = false ∧
        (s.reconcileExperimentalPreference remoteEnabled
          remoteUpdatedAt).1.experimentalFeaturesPreference =
            ⟨enabled, updatedAt, .ofEnabled enabled⟩ := by
  unfold reconcileExperimentalPreference
  rcases remoteEnabled with _ | enabled <;> rcases remoteUpdatedAt with _ | updatedAt
  case some.some =>
    by_cases hlt : s.experimentalFeaturesPreference.updatedAt < updatedAt
    · exact Or.inr ⟨enabled, updatedAt, rfl, rfl, hlt, by simp [h, hlt],
        by simp [h, hlt, saveExperimentalFeaturesPreference]⟩
    · exact Or.inl (by simp [h, hlt])
  all_goals exact Or.inl ⟨h, by simp⟩

/-- A stored hint state is pushed, or the remote one is later and replaces it. -/
theorem reconcileInsightsHintState_of_stored (h : s.hasStoredInsightsHintState = true)
    (remote : Option InsightsHintState) :
    (s.reconcileInsightsHintState remote).2 = true ∧
        ¬(∃ state ∈ remote, s.insightsHintState.updatedAt < state.updatedAt) ∨
      ∃ state, remote = some state ∧ s.insightsHintState.updatedAt < state.updatedAt ∧
        (s.reconcileInsightsHintState remote).2 = false ∧
        (s.reconcileInsightsHintState remote).1.insightsHintState = state := by
  unfold reconcileInsightsHintState
  cases remote with
  | none => exact Or.inl ⟨h, by simp⟩
  | some state =>
    by_cases hlt : s.insightsHintState.updatedAt < state.updatedAt
    · exact Or.inr ⟨state, rfl, hlt, by simp [h, hlt],
        by simp [h, hlt, saveInsightsHintState]⟩
    · exact Or.inl (by simp [h, hlt])

end LocalStore

/-! ## Reconciling again -/

/-- A device and the document of its user. -/
structure SyncedRecords where
  store : LocalStore
  remote : Remote

namespace SyncedRecords

/-- The device reconciles with what the listener reads, and writes its record to the document if
the result is true. -/
def reconcile (listener : Listener) (x : SyncedRecords) : Option (SyncedRecords × Bool) :=
  ((listener.snapshot x.remote).handle x.store).map fun p =>
    (⟨p.1, p.2.elim x.remote x.remote.upsertMetadata⟩, p.2.isSome)

/-- A reconcile returns false and leaves the records and the document. -/
def Rests (listener : Listener) (x : SyncedRecords) : Prop :=
  ∃ x', x.reconcile listener = some (x', false) ∧ x'.remote = x.remote ∧
    x'.store.experimentalFeaturesPreference = x.store.experimentalFeaturesPreference ∧
    x'.store.insightsHintState = x.store.insightsHintState

variable {x : SyncedRecords}

theorem isSome_ite_none {α : Type} (push : Bool) (a : α) :
    (if push = true then some a else none).isSome = push := by
  cases push <;> rfl

theorem reconcile_experimentalFeatureMetadata (x : SyncedRecords) : ∃ remote,
    x.reconcile .experimentalFeatureMetadata = some
      (⟨(x.store.reconcileExperimentalPreference x.remote.experimentalFeaturesEnabled
          x.remote.experimentalFeaturesUpdatedAt).1, remote⟩,
        (x.store.reconcileExperimentalPreference x.remote.experimentalFeaturesEnabled
          x.remote.experimentalFeaturesUpdatedAt).2) := by
  refine ⟨_, congrArg some (Prod.ext rfl ?_)⟩
  exact isSome_ite_none _ _

theorem reconcile_insightsHintMetadata (x : SyncedRecords) : ∃ remote,
    x.reconcile .insightsHintMetadata = some
      (⟨(x.store.reconcileInsightsHintState x.remote.insightsHint).1, remote⟩,
        (x.store.reconcileInsightsHintState x.remote.insightsHint).2) := by
  refine ⟨_, congrArg some (Prod.ext rfl ?_)⟩
  exact isSome_ite_none _ _

/-- A stored preference is pushed again whenever the document is read. -/
theorem not_rests_experimentalFeatureMetadata
    (h : x.store.hasStoredExperimentalPreference = true) :
    ¬x.Rests .experimentalFeatureMetadata := by
  rintro ⟨x', hx', -, hpreference, -⟩
  obtain ⟨remote, hx⟩ := x.reconcile_experimentalFeatureMetadata
  obtain ⟨rfl, hpush⟩ := Prod.mk.inj (Option.some_inj.mp (hx.symm.trans hx'))
  rcases LocalStore.reconcileExperimentalPreference_of_stored h _ _ with
    ⟨htrue, -⟩ | ⟨enabled, updatedAt, -, -, hlt, -, heq⟩
  · exact Bool.false_ne_true (hpush.symm.trans htrue)
  · rw [← hpreference, heq] at hlt
    exact Date.not_lt_self updatedAt hlt

theorem not_rests_insightsHintMetadata (h : x.store.hasStoredInsightsHintState = true) :
    ¬x.Rests .insightsHintMetadata := by
  rintro ⟨x', hx', -, -, hhint⟩
  obtain ⟨remote, hx⟩ := x.reconcile_insightsHintMetadata
  obtain ⟨rfl, hpush⟩ := Prod.mk.inj (Option.some_inj.mp (hx.symm.trans hx'))
  rcases LocalStore.reconcileInsightsHintState_of_stored h _ with
    ⟨htrue, -⟩ | ⟨state, -, hlt, -, heq⟩
  · exact Bool.false_ne_true (hpush.symm.trans htrue)
  · rw [← hhint, heq] at hlt
    exact Date.not_lt_self state.updatedAt hlt

end SyncedRecords

/-- The first reconcile of a record marks it as stored, so the second one does not rest. -/
theorem reconcile_never_rests (x : SyncedRecords) :
    (∃ x' push, x.reconcile .experimentalFeatureMetadata = some (x', push) ∧
      ¬x'.Rests .experimentalFeatureMetadata) ∧
    ∃ x' push, x.reconcile .insightsHintMetadata = some (x', push) ∧
      ¬x'.Rests .insightsHintMetadata := by
  obtain ⟨remote, hx⟩ := x.reconcile_experimentalFeatureMetadata
  obtain ⟨remote', hx'⟩ := x.reconcile_insightsHintMetadata
  exact ⟨⟨_, _, hx, SyncedRecords.not_rests_experimentalFeatureMetadata rfl⟩,
    _, _, hx', SyncedRecords.not_rests_insightsHintMetadata rfl⟩

/-- A document with a preference and a hint state. -/
def sampleRecords : Remote :=
  (({} : Remote).upsertMetadata (.experimentalFeature ⟨true, .seconds 5, .on⟩)).upsertMetadata
    (.insightsHint { InsightsHintState.default with updatedAt := .seconds 5 })

/-- A new device adopts the record of the document, and writes it back when it reads the same
document again. -/
theorem not_rests_sampleRecords :
    (∃ s : LocalStore, SyncedRecords.reconcile .experimentalFeatureMetadata ⟨{}, sampleRecords⟩ =
        some (⟨s, sampleRecords⟩, false) ∧
      ∃ x, SyncedRecords.reconcile .experimentalFeatureMetadata ⟨s, sampleRecords⟩ =
        some (x, true)) ∧
    ∃ s : LocalStore, SyncedRecords.reconcile .insightsHintMetadata ⟨{}, sampleRecords⟩ =
        some (⟨s, sampleRecords⟩, false) ∧
      ∃ x, SyncedRecords.reconcile .insightsHintMetadata ⟨s, sampleRecords⟩ = some (x, true) :=
  ⟨⟨_, rfl, _, rfl⟩, _, rfl, _, rfl⟩

/-! ## Reconciling after a reset -/

namespace LocalStore

/-- The remote preference is adopted if there is one, and nothing is pushed. -/
def AdoptsPreference (s : LocalStore) (remoteEnabled : Option Bool)
    (remoteUpdatedAt : Option Date) : Prop :=
  (s.reconcileExperimentalPreference remoteEnabled remoteUpdatedAt).2 = false ∧
    ∀ enabled ∈ remoteEnabled, ∀ updatedAt ∈ remoteUpdatedAt,
      (s.reconcileExperimentalPreference remoteEnabled
        remoteUpdatedAt).1.experimentalFeaturesPreference =
          ⟨enabled, updatedAt, .ofEnabled enabled⟩

/-- The remote hint state is adopted if there is one, and nothing is pushed. -/
def AdoptsHintState (s : LocalStore) (remote : Option InsightsHintState) : Prop :=
  (s.reconcileInsightsHintState remote).2 = false ∧
    ∀ state ∈ remote, (s.reconcileInsightsHintState remote).1.insightsHintState = state

variable {s : LocalStore}

/-- A device that never stored a record adopts whatever there is. -/
theorem adopts_of_not_stored (hp : s.hasStoredExperimentalPreference = false)
    (hh : s.hasStoredInsightsHintState = false) :
    (∀ remoteEnabled remoteUpdatedAt, s.AdoptsPreference remoteEnabled remoteUpdatedAt) ∧
      ∀ remote, s.AdoptsHintState remote := by
  constructor
  · rintro (_ | enabled) (_ | updatedAt)
    all_goals
      simp [AdoptsPreference, reconcileExperimentalPreference, hp,
        saveExperimentalFeaturesPreference]
  · rintro (_ | state)
    all_goals simp [AdoptsHintState, reconcileInsightsHintState, hh, saveInsightsHintState]

/-- A device with a stored preference adopts a later one only. -/
theorem adoptsPreference_iff_of_stored (h : s.hasStoredExperimentalPreference = true)
    (remoteEnabled : Option Bool) (remoteUpdatedAt : Option Date) :
    s.AdoptsPreference remoteEnabled remoteUpdatedAt ↔
      remoteEnabled ≠ none ∧
        ∃ updatedAt ∈ remoteUpdatedAt, s.experimentalFeaturesPreference.updatedAt < updatedAt := by
  rcases reconcileExperimentalPreference_of_stored h remoteEnabled remoteUpdatedAt with
    ⟨htrue, hnot⟩ | ⟨enabled, updatedAt, rfl, rfl, hlt, hfalse, heq⟩
  · refine iff_of_false (fun hadopts => ?_) hnot
    exact Bool.false_ne_true (hadopts.1.symm.trans htrue)
  · refine iff_of_true ⟨hfalse, ?_⟩ ⟨Option.some_ne_none _, updatedAt, rfl, hlt⟩
    rintro _ ⟨⟩ _ ⟨⟩
    exact heq

/-- A stored hint state gives way to a later one only. -/
theorem adoptsHintState_iff_of_stored (h : s.hasStoredInsightsHintState = true)
    (remote : Option InsightsHintState) :
    s.AdoptsHintState remote ↔
      ∃ state ∈ remote, s.insightsHintState.updatedAt < state.updatedAt := by
  rcases reconcileInsightsHintState_of_stored h remote with
    ⟨htrue, hnot⟩ | ⟨state, rfl, hlt, hfalse, heq⟩
  · refine iff_of_false (fun hadopts => ?_) hnot
    exact Bool.false_ne_true (hadopts.1.symm.trans htrue)
  · refine iff_of_true ⟨hfalse, ?_⟩ ⟨state, rfl, hlt⟩
    rintro _ ⟨⟩
    exact heq

end LocalStore

/-- A store that was reset adopts a remote record if and only if it is later than the default. -/
theorem reconcile_resetForNewUser_iff (s : LocalStore) :
    ∃ s', s.resetForNewUser = some s' ∧
      (∀ remoteEnabled remoteUpdatedAt, s'.AdoptsPreference remoteEnabled remoteUpdatedAt ↔
        remoteEnabled ≠ none ∧
          ∃ updatedAt ∈ remoteUpdatedAt, AppDateBounds.metadataBaseline < updatedAt) ∧
      ∀ remote, s'.AdoptsHintState remote ↔
        ∃ state ∈ remote, AppDateBounds.metadataBaseline < state.updatedAt := by
  obtain ⟨s', hs', hdefaults, -⟩ := s.exists_resetForNewUser
  refine ⟨s', hs', fun remoteEnabled remoteUpdatedAt => ?_, fun remote => ?_⟩
  · rw [LocalStore.adoptsPreference_iff_of_stored hdefaults.storedPreference,
      hdefaults.preference]
    rfl
  · rw [LocalStore.adoptsHintState_iff_of_stored hdefaults.storedHint, hdefaults.hint]
    rfl

/-- After a reset the default preference is pushed to an account that has none, and a remote one
without a timestamp is not adopted. -/
theorem not_adopts_resetForNewUser : ∃ s', ({} : LocalStore).resetForNewUser = some s' ∧
    (s'.reconcileExperimentalPreference none none).2 = true ∧
    (s'.reconcileInsightsHintState none).2 = true ∧
    (s'.reconcileExperimentalPreference (some true)
      (some AppDateBounds.metadataBaseline)).1.experimentalFeaturesPreference.isEnabled = false := by
  obtain ⟨s', hs', hdefaults, -⟩ := ({} : LocalStore).exists_resetForNewUser
  refine ⟨s', hs', hdefaults.storedPreference, hdefaults.storedHint, ?_⟩
  have hbaseline := Date.not_lt_self AppDateBounds.metadataBaseline
  simp [LocalStore.reconcileExperimentalPreference, hdefaults.storedPreference,
    hdefaults.preference, ExperimentalFeaturePreference.default, hbaseline,
    LocalStore.saveExperimentalFeaturesPreference]

end Notelayer
