import Notelayer.LocalOperations
import Notelayer.PreferenceSync
import Notelayer.Reminders
import Notelayer.TaskFormat

/-!
# Loading again

`load` is called at launch and every time the notes appear. `LocalStore.reload` is `load` of a
store that is running : it reads every persisted value again, with the defaults of those that
are missing. Every operation saves what it changes (`LocalStore.Edits.saved`), so the store and
what it has persisted agree in every run (`StoreStep.saved_run`). Loading then changes nothing,
unless the store has no categories : `load` takes an empty list for a missing one
(`StoreStep.sameData_reload_run_iff`).
-/

namespace Notelayer

/-! ## Loading -/

/-- The preference that `load` reads. -/
def UserDefaults.experimentalFeaturesPreference (u : UserDefaults) :
    ExperimentalFeaturePreference :=
  match u.experimentalFeaturesEnabled with
  | some enabled => ⟨enabled, AppDateBounds.clampedForFirestore
      (u.experimentalFeaturesUpdatedAt.getD AppDateBounds.metadataBaseline), .ofEnabled enabled⟩
  | none => .default

/-- The hint state that `load` reads. -/
def UserDefaults.loadedHintState (u : UserDefaults) : InsightsHintState :=
  match u.insightsHintState with
  | some hint => { hint with updatedAt := AppDateBounds.clampedForFirestore hint.updatedAt }
  | none => .default

/-- `if categories.isEmpty { categories = Category.defaultCategories }`. -/
def orDefaultCategories (categories : List Category) : List Category :=
  if categories.isEmpty then Category.defaultCategories else categories

namespace LocalStore

variable (s : LocalStore)

/-- `load` of a store that is running. -/
def reload : LocalStore :=
  let drafts := s.userDefaults.voiceStagingDrafts.getD []
  { s with
    notes := s.userDefaults.notes.getD s.notes
    tasks := s.userDefaults.tasks.getD s.tasks
    categories := orDefaultCategories (s.userDefaults.categories.getD s.categories)
    uncategorizedPosition := s.userDefaults.uncategorizedPosition.getD s.uncategorizedPosition
    experimentalFeaturesPreference := s.userDefaults.experimentalFeaturesPreference
    insightsHintState := s.userDefaults.loadedHintState
    voiceStagingDrafts := drafts
    voiceSourceTranscript := s.userDefaults.voiceSourceTranscript.getD ""
    isVoiceStagingPresented := ¬drafts.isEmpty
    hasStoredExperimentalPreference := s.userDefaults.experimentalFeaturesEnabled.isSome
    hasStoredInsightsHintState := s.userDefaults.insightsHintState.isSome }

/-- At launch nothing but the persisted values is there. -/
theorem load_eq_reload (u : UserDefaults) : load u = reload { userDefaults := u } :=
  rfl

/-- The notes, tasks, categories, the position, the value and the timestamp of the preference and
the hint state are the same. -/
structure SameData (s s' : LocalStore) : Prop where
  notes : s'.notes = s.notes
  tasks : s'.tasks = s.tasks
  categories : s'.categories = s.categories
  uncategorizedPosition : s'.uncategorizedPosition = s.uncategorizedPosition
  preference : s'.experimentalFeaturesPreference.fields = s.experimentalFeaturesPreference.fields
  hint : s'.insightsHintState = s.insightsHintState

/-- The store agrees with what it has persisted. -/
structure Saved : Prop where
  notes : ∀ notes ∈ s.userDefaults.notes, notes = s.notes
  tasks : ∀ tasks ∈ s.userDefaults.tasks, tasks = s.tasks
  categories : ∀ categories ∈ s.userDefaults.categories,
    orDefaultCategories categories = orDefaultCategories s.categories
  uncategorizedPosition : ∀ position ∈ s.userDefaults.uncategorizedPosition,
    position = s.uncategorizedPosition
  preference : s.experimentalFeaturesPreference.fields =
    s.userDefaults.experimentalFeaturesPreference.fields
  hint : s.insightsHintState = s.userDefaults.loadedHintState

variable {s} {s' : LocalStore}

theorem getD_of_forall_mem {A : Type} {o : Option A} {a : A} (h : ∀ b ∈ o, b = a) :
    o.getD a = a := by
  cases o with
  | none => rfl
  | some b => exact h b rfl

/-- An empty list of categories does not survive. -/
theorem orDefaultCategories_eq_self_iff {categories : List Category} :
    orDefaultCategories categories = categories ↔ categories ≠ [] := by
  cases categories with
  | nil => exact iff_of_false (fun h => absurd (congrArg List.length h) nofun) (absurd rfl)
  | cons c cs => exact iff_of_true rfl (List.cons_ne_nil c cs)

theorem Saved.sameData_reload_iff (h : s.Saved) : s.SameData s.reload ↔ s.categories ≠ [] := by
  have hcategories : s.reload.categories = orDefaultCategories s.categories := by
    change orDefaultCategories (s.userDefaults.categories.getD s.categories) = _
    cases hsaved : s.userDefaults.categories with
    | none => rfl
    | some categories => exact h.categories categories hsaved
  rw [← orDefaultCategories_eq_self_iff, ← hcategories]
  refine ⟨SameData.categories, fun hsame => ?_⟩
  exact ⟨getD_of_forall_mem h.notes, getD_of_forall_mem h.tasks, hsame,
    getD_of_forall_mem h.uncategorizedPosition, h.preference.symm, h.hint.symm⟩

/-! ## Every operation saves what it changes -/

theorem orDefaultCategories_idem (categories : List Category) :
    orDefaultCategories (orDefaultCategories categories) = orDefaultCategories categories := by
  cases categories <;> rfl

/-- What is loaded is saved. -/
theorem saved_reload (s : LocalStore) : s.reload.Saved := by
  refine ⟨fun notes hnotes => ?_, fun tasks htasks => ?_, fun categories hcategories => ?_,
    fun position hposition => ?_, rfl, rfl⟩
  · have hget := Option.mem_def.mp hnotes
    exact (congrArg (Option.getD · s.notes) hget).symm
  · have hget := Option.mem_def.mp htasks
    exact (congrArg (Option.getD · s.tasks) hget).symm
  · have hget := Option.mem_def.mp hcategories
    have hloaded : s.reload.categories = orDefaultCategories categories :=
      congrArg (fun o => orDefaultCategories (Option.getD o s.categories)) hget
    rw [hloaded, orDefaultCategories_idem]
  · have hget := Option.mem_def.mp hposition
    exact (congrArg (Option.getD · s.uncategorizedPosition) hget).symm

/-- Spawning and logging. -/
theorem Saved.spawnSync (h : s.Saved) (f : FirestoreBackend → Closure) : (s.spawnSync f).Saved := by
  unfold LocalStore.spawnSync
  split
  · exact { h with }
  · exact h

/-- An edit saves what it changes. -/
theorem Edits.saved (h : s.Edits s') (hs : s.Saved) : s'.Saved := by
  induction h with
  | refl => exact hs
  | notes _ _ ih => exact { ih with notes := fun _ hmem => (Option.some_inj.mp hmem).symm }
  | tasks _ _ ih => exact { ih with tasks := fun _ hmem => (Option.some_inj.mp hmem).symm }
  | categories _ _ ih =>
    exact { ih with
      categories := fun _ hmem => congrArg orDefaultCategories (Option.some_inj.mp hmem).symm }
  | position _ _ ih =>
    exact { ih with uncategorizedPosition := fun _ hmem => (Option.some_inj.mp hmem).symm }
  | logEvent _ _ _ ih => exact { ih with }
  | spawn _ _ ih => exact { ih with }
  | spawnSync _ _ ih => exact ih.spawnSync _

/-- The migration edits the lists and the position. -/
theorem Edits.migrateIfNeeded {s'' : LocalStore} (h : s.Edits s')
    (hs : s'.migrateIfNeeded = some s'') : s.Edits s'' := by
  obtain ⟨taskLookup, -, rfl⟩ := Option.map_eq_some_iff.mp hs
  have hempty : s.Edits s'.migrateEmptyCategories := by
    unfold migrateEmptyCategories
    split_ifs
    · exact h.categories _
    · exact h
  generalize s'.migrateEmptyCategories = s₁ at hempty
  have hposition : ∀ {s₂ : LocalStore}, s.Edits s₂ → s.Edits s₂.migrateUncategorizedPosition := by
    intro s₂ h₂
    unfold migrateUncategorizedPosition
    dsimp only
    split_ifs
    · exact h₂.position _
    · exact h₂
  have hchanged : ∀ categories, s.Edits
      ({ s₁ with categories := categories }.migrateUncategorizedPosition).saveCategories := by
    intro categories
    unfold migrateUncategorizedPosition
    dsimp only
    split_ifs
    · exact (hempty.position
        (clampUncategorizedPosition s₁.uncategorizedPosition categories.length)).categories
          categories
    · exact hempty.categories categories
  have hsame : ∀ {categories}, ¬categories ≠ s₁.categories →
      s.Edits { s₁ with categories := categories }.migrateUncategorizedPosition := by
    intro categories heq
    rw [not_not.mp heq]
    exact hposition hempty
  generalize migratedCategories s₁.categories = categories
  have hchanged := hchanged categories
  have hsame := @hsame categories
  generalize { s₁ with categories := categories }.migrateUncategorizedPosition = s₂
    at hchanged hsame ⊢
  generalize s₂.tasks.map (Task.migrated taskLookup) = tasks
  dsimp only
  split_ifs with htasks hcategories hcategories
  · exact hchanged.tasks tasks
  · exact (hsame hcategories).tasks tasks
  · rw [not_not.mp htasks]
    exact hchanged
  · rw [not_not.mp htasks]
    exact hsame hcategories

/-- Edits under `suppressBackendWrites`. -/
theorem Saved.applyRemoteUpdate (h : s.Saved) {updates : LocalStore → Option LocalStore}
    (hupdates : ∀ s₁ s₂, updates s₁ = some s₂ → s₁.Edits s₂)
    (hs : s.applyRemoteUpdate updates = some s') : s'.Saved := by
  obtain ⟨s₂, hs₂, rfl⟩ := Option.map_eq_some_iff.mp hs
  have hsuppressed : { s with suppressBackendWrites := true }.Saved := { h with }
  have hedited : s₂.Saved := (hupdates _ _ hs₂).saved hsuppressed
  exact { hedited with }

theorem Saved.applyRemoteSnapshot (h : s.Saved) {notes : List Note} {tasks : List Task}
    {categories : List Category}
    (hs : s.applyRemoteSnapshot notes tasks categories = some s') : s'.Saved := by
  refine h.applyRemoteUpdate (fun s₁ s₂ hs₂ => ?_) hs
  obtain ⟨sanitizedTasks, -, hs₂⟩ := Option.bind_eq_some_iff.mp hs₂
  exact (((Edits.refl.notes notes).tasks sanitizedTasks).categories
    (sortedByCategorySort categories)).migrateIfNeeded hs₂

/-- A new user starts with the defaults, all of them saved. -/
theorem saved_resetForNewUser (hs : s.resetForNewUser = some s') : s'.Saved := by
  unfold resetForNewUser LocalStore.applyRemoteUpdate at hs
  obtain ⟨s₂, hs₂, rfl⟩ := Option.map_eq_some_iff.mp hs
  have hedited : s₂.Saved := by
    refine (Edits.refl.migrateIfNeeded hs₂).saved ⟨?_, ?_, ?_, ?_, ?_, rfl⟩
    · exact fun notes hnotes => (Option.some_inj.mp hnotes).symm
    · exact fun tasks htasks => (Option.some_inj.mp htasks).symm
    · exact fun categories hmem => congrArg orDefaultCategories (Option.some_inj.mp hmem).symm
    · exact fun position hmem => (Option.some_inj.mp hmem).symm
    · rfl
  exact { hedited with }

/-! ### Metadata -/

/-- The preference is saved with its timestamp clamped. -/
theorem Saved.savePreference (h : s.Saved) {preference : ExperimentalFeaturePreference}
    (hp : AppDateBounds.clampedForFirestore preference.updatedAt = preference.updatedAt) :
    { s with experimentalFeaturesPreference :=
      preference }.saveExperimentalFeaturesPreference.Saved := by
  have hloaded : preference.fields = (preference.isEnabled, AppDateBounds.clampedForFirestore
      (AppDateBounds.clampedForFirestore preference.updatedAt)) := by
    rw [hp, hp]
    rfl
  exact { h with preference := hloaded }

theorem Saved.saveHintState (h : s.Saved) {hint : InsightsHintState}
    (hhint : AppDateBounds.clampedForFirestore hint.updatedAt = hint.updatedAt) :
    (s.withInsightsHintState hint).Saved := by
  have hloaded : hint =
      { hint with updatedAt := AppDateBounds.clampedForFirestore hint.updatedAt } := by
    rw [hhint]
  exact { h with hint := hloaded }

/-- The timestamps that are loaded are clamped. -/
theorem Saved.clamped_preference (h : s.Saved) :
    AppDateBounds.clampedForFirestore s.experimentalFeaturesPreference.updatedAt =
      s.experimentalFeaturesPreference.updatedAt := by
  obtain ⟨-, hupdated⟩ := Prod.mk.inj h.preference
  rw [hupdated]
  unfold UserDefaults.experimentalFeaturesPreference
  split
  · exact firestoreSafeDate_idem _
  · exact AppDateBounds.clampedForFirestore_metadataBaseline

theorem Saved.clamped_hint (h : s.Saved) :
    AppDateBounds.clampedForFirestore s.insightsHintState.updatedAt =
      s.insightsHintState.updatedAt := by
  rw [h.hint]
  unfold UserDefaults.loadedHintState
  split
  · exact firestoreSafeDate_idem _
  · exact AppDateBounds.clampedForFirestore_metadataBaseline

/-- An adopted preference is saved. -/
theorem Saved.reconcileExperimentalPreference (h : s.Saved) (remoteEnabled : Option Bool)
    {remoteUpdatedAt : Option Date} (hremote : ∀ d ∈ remoteUpdatedAt, d.IsExact) :
    (s.reconcileExperimentalPreference remoteEnabled remoteUpdatedAt).1.Saved := by
  unfold LocalStore.reconcileExperimentalPreference
  dsimp only
  refine h.savePreference ?_
  split
  · rename_i updatedAt
    split_ifs
    · exact (hremote updatedAt rfl).2
    · exact (hremote updatedAt rfl).2
    · exact h.clamped_preference
  · exact h.clamped_preference

/-- An adopted hint state is saved. -/
theorem Saved.reconcileInsightsHintState (h : s.Saved) {remote : Option InsightsHintState}
    (hremote : ∀ hint ∈ remote, hint.updatedAt.IsExact) :
    (s.reconcileInsightsHintState remote).1.Saved := by
  unfold LocalStore.reconcileInsightsHintState
  dsimp only
  refine h.saveHintState ?_
  split
  · rename_i hint
    split_ifs
    · exact (hremote hint rfl).2
    · exact (hremote hint rfl).2
    · exact h.clamped_hint
  · exact h.clamped_hint

/-- The handler of a listener saves what it changes. -/
theorem Saved.handle (h : s.Saved) {snapshot : Snapshot}
    (hpreference : ∀ remoteEnabled, ∀ d : Date,
      snapshot = .experimentalFeatureMetadata remoteEnabled (some d) → d.IsExact)
    (hhint : ∀ hint : InsightsHintState, snapshot = .insightsHintMetadata (some hint) →
      hint.updatedAt.IsExact)
    {push : Option MetadataWrite} (hs : snapshot.handle s = some (s', push)) : s'.Saved := by
  cases snapshot with
  | notes notes =>
    obtain ⟨rfl, -⟩ := Prod.mk.inj (Option.some_inj.mp hs)
    have hupdate : s.applyRemoteUpdate (fun s₁ => some { s₁ with notes := notes }.saveNotes) =
      some _ := rfl
    refine h.applyRemoteUpdate (fun s₁ s₂ hs₂ => ?_) hupdate
    obtain rfl := Option.some_inj.mp hs₂
    exact Edits.refl.notes notes
  | tasks tasks =>
    obtain ⟨s₁, hs₁, heq⟩ := Option.map_eq_some_iff.mp hs
    obtain ⟨rfl, -⟩ := Prod.mk.inj heq
    refine h.applyRemoteUpdate (fun s₂ s₃ hs₃ => ?_) hs₁
    obtain ⟨sanitizedTasks, -, rfl⟩ := Option.map_eq_some_iff.mp hs₃
    exact (Edits.refl.tasks sanitizedTasks).spawn rfl
  | categories categories =>
    obtain ⟨s₁, hs₁, heq⟩ := Option.map_eq_some_iff.mp hs
    obtain ⟨rfl, -⟩ := Prod.mk.inj heq
    refine h.applyRemoteUpdate (fun s₂ s₃ hs₃ => ?_) hs₁
    exact (Edits.refl.categories (sortedByCategorySort categories)).migrateIfNeeded hs₃
  | categoryGroupMetadata position =>
    cases position with
    | none =>
      obtain ⟨rfl, -⟩ := Prod.mk.inj (Option.some_inj.mp hs)
      exact h
    | some position =>
      obtain ⟨rfl, -⟩ := Prod.mk.inj (Option.some_inj.mp hs)
      have hupdate : s.applyRemoteUpdate (fun s₁ => some (s₁.setUncategorizedPosition position)) =
        some _ := rfl
      refine h.applyRemoteUpdate (fun s₁ s₂ hs₂ => ?_) hupdate
      obtain rfl := Option.some_inj.mp hs₂
      exact Edits.refl.position _
  | experimentalFeatureMetadata remoteEnabled remoteUpdatedAt =>
    obtain ⟨rfl, -⟩ := Prod.mk.inj (Option.some_inj.mp hs)
    refine h.reconcileExperimentalPreference remoteEnabled fun d hd => ?_
    exact hpreference remoteEnabled d (congrArg _ hd)
  | insightsHintMetadata remoteState =>
    obtain ⟨rfl, -⟩ := Prod.mk.inj (Option.some_inj.mp hs)
    exact h.reconcileInsightsHintState fun hint hmem => hhint hint (congrArg _ hmem)

end LocalStore

/-! ## Runs -/

/-- What changes the store : the operations of the views, the completions of reminder
operations, the listeners, the initial sync, a reset, the backend of an account, the migration at
launch, and `load`. -/
inductive StoreStep where
  | localOperation (operation : LocalOperation)
  | finishSetReminder (index : ℕ) (task : Task) (date : Date) (notificationId : String)
  | finishRemoveReminder (index : ℕ) (task : Task)
  | deliver (snapshot : Snapshot)
  | applyRemoteSnapshot (notes : List Note) (tasks : List Task) (categories : List Category)
  | beginExperimentalReconciliation
  | resetForNewUser
  | attachBackend (backend : Option FirestoreBackend)
  | updateBackendUserId (userId : Option String)
  | migrateIfNeeded
  | load

namespace StoreStep

/-- Take a step at the instant `e.1`. -/
def step (e : Date × StoreStep) (u : Session) : Option Session :=
  match e.2 with
  | localOperation operation => LocalOperation.step (e.1, operation) u
  | finishSetReminder index task date notificationId =>
    (u.store.finishSetReminder index task date notificationId e.1).map u.withStore
  | finishRemoveReminder index task =>
    (u.store.finishRemoveReminder index task e.1).map u.withStore
  | deliver snapshot => (snapshot.handle u.store).map fun r => u.withStore r.1
  | applyRemoteSnapshot notes tasks categories =>
    (u.store.applyRemoteSnapshot notes tasks categories).map u.withStore
  | beginExperimentalReconciliation => some (u.withStore u.store.beginExperimentalReconciliation)
  | resetForNewUser => u.store.resetForNewUser.map u.withStore
  | attachBackend backend => some (u.withStore (u.store.attachBackend backend))
  | updateBackendUserId userId => some (u.withStore (u.store.updateBackendUserId userId))
  | migrateIfNeeded => u.store.migrateIfNeeded.map u.withStore
  | load => some (u.withStore u.store.reload)

/-- The clock and the account give timestamps that Firestore keeps. -/
def Legal (e : Date × StoreStep) (_ : Session) : Prop :=
  match e.2 with
  | localOperation operation => operation.isMetadata = true → e.1.IsExact
  | deliver (.experimentalFeatureMetadata _ (some updatedAt)) => updatedAt.IsExact
  | deliver (.insightsHintMetadata (some hint)) => hint.updatedAt.IsExact
  | _ => True

/-- A launch. -/
def start (u : UserDefaults) : Session where
  store := LocalStore.load u

open LocalStore

/-- Every operation of the views saves what it changes. -/
theorem saved_localOperation {e : Date × LocalOperation} {u u' : Session} (h : u.store.Saved)
    (hl : e.2.isMetadata = true → e.1.IsExact) (hu : LocalOperation.step e u = some u') :
    u'.store.Saved := by
  rcases Bool.eq_false_or_eq_true e.2.isMetadata with hm | hm
  · have hnow := (hl hm).2
    obtain ⟨now, op⟩ := e
    cases op with
    | setExperimentalFeaturesEnabled enabled =>
      obtain rfl := Option.some_inj.mp hu
      change (u.store.setExperimentalFeaturesEnabled enabled now).Saved
      unfold LocalStore.setExperimentalFeaturesEnabled
      split_ifs
      · exact h
      · exact h.savePreference hnow
    | markInsightsHintShown =>
      obtain rfl := Option.some_inj.mp hu
      exact h.saveHintState hnow
    | dismissInsightsHint =>
      obtain rfl := Option.some_inj.mp hu
      exact h.saveHintState hnow
    | recordInsightsInteraction =>
      obtain rfl := Option.some_inj.mp hu
      change (u.store.recordInsightsInteraction now).Saved
      unfold LocalStore.recordInsightsInteraction
      split_ifs
      · exact h
      · exact h.saveHintState hnow
    | _ => cases hm
  · exact (LocalOperation.edits_step hm hu).saved h

/-- A task that is assigned is saved next. -/
theorem edits_assignTask {s s₁ : LocalStore} {index : ℕ} {task : Task}
    (h : s.assignTask index task = some s₁) : s.Edits s₁.saveTasks := by
  unfold assignTask at h
  split_ifs at h
  obtain rfl := Option.some_inj.mp h
  exact Edits.refl.tasks _

/-- A step saves what it changes. -/
theorem saved_step {e : Date × StoreStep} {u u' : Session} (h : u.store.Saved) (hl : Legal e u)
    (hu : step e u = some u') : u'.store.Saved := by
  obtain ⟨now, l⟩ := e
  cases l with
  | localOperation operation => exact saved_localOperation (e := (now, operation)) h hl hu
  | finishSetReminder index task date notificationId =>
    obtain ⟨s', hs', rfl⟩ := Option.map_eq_some_iff.mp hu
    obtain ⟨s₁, hs₁, rfl⟩ := Option.map_eq_some_iff.mp hs'
    exact ((((edits_assignTask hs₁).logEvent _ _).logEvent _ _).spawnSync fun _ => rfl).saved h
  | finishRemoveReminder index task =>
    obtain ⟨s', hs', rfl⟩ := Option.map_eq_some_iff.mp hu
    obtain ⟨s₁, hs₁, rfl⟩ := Option.map_eq_some_iff.mp hs'
    exact ((((edits_assignTask hs₁).logEvent _ _).logEvent _ _).spawnSync fun _ => rfl).saved h
  | deliver snapshot =>
    obtain ⟨⟨s', push⟩, hs', rfl⟩ := Option.map_eq_some_iff.mp hu
    refine h.handle (fun remoteEnabled d heq => ?_) (fun hint heq => ?_) hs'
    · subst heq
      exact hl
    · subst heq
      exact hl
  | applyRemoteSnapshot notes tasks categories =>
    obtain ⟨s', hs', rfl⟩ := Option.map_eq_some_iff.mp hu
    exact h.applyRemoteSnapshot hs'
  | beginExperimentalReconciliation =>
    obtain rfl := Option.some_inj.mp hu
    exact { h with }
  | resetForNewUser =>
    change u.store.resetForNewUser.map u.withStore = some u' at hu
    obtain ⟨s', hs', rfl⟩ := Option.map_eq_some_iff.mp hu
    exact saved_resetForNewUser hs'
  | attachBackend backend =>
    obtain rfl := Option.some_inj.mp hu
    exact { h with }
  | updateBackendUserId userId =>
    obtain rfl := Option.some_inj.mp hu
    exact { h with }
  | migrateIfNeeded =>
    obtain ⟨s', hs', rfl⟩ := Option.map_eq_some_iff.mp hu
    exact (Edits.refl.migrateIfNeeded hs').saved h
  | load =>
    obtain rfl := Option.some_inj.mp hu
    exact saved_reload u.store

theorem saved_run {u : UserDefaults} {ls : List (Date × StoreStep)} {x : Session}
    (hl : Runs.Guarded step Legal ls (start u)) (hx : Runs.run step ls (start u) = some x) :
    x.store.Saved := by
  have hstart : (start u).store.Saved := by
    change (LocalStore.load u).Saved
    rw [load_eq_reload]
    exact saved_reload _
  exact Runs.invariant_of_guarded (I := fun v : Session => v.store.Saved)
    (fun e v v' hv hlegal hs => saved_step hv hlegal hs) hstart hl hx

/-- In every state that a run reaches from a launch, loading again changes nothing if and only
if the store has a category. -/
theorem sameData_reload_run_iff {u : UserDefaults} {ls : List (Date × StoreStep)} {x : Session}
    (hl : Runs.Guarded step Legal ls (start u)) (hx : Runs.run step ls (start u) = some x) :
    x.store.SameData x.store.reload ↔ x.store.categories ≠ [] :=
  (saved_run hl hx).sameData_reload_iff

/-- One category was persisted. -/
def samplePersisted : UserDefaults where
  categories := some [⟨"work", "Work", "", "", 0⟩]

theorem sameData_reload_run_iff_sample : ∃ x, Runs.run step
    [(.seconds 1, .localOperation (.task (.addTask .sampleParent) rfl))] (start samplePersisted) =
      some x ∧ x.store.SameData x.store.reload := by
  have hlegal : Runs.Guarded step Legal
      [(.seconds 1, .localOperation (.task (.addTask .sampleParent) rfl))]
        (start samplePersisted) :=
    ⟨fun h => absurd h Bool.false_ne_true, fun _ _ => trivial⟩
  exact ⟨_, rfl, (sameData_reload_run_iff hlegal rfl).mpr (by decide)⟩

/-- The last category is deleted. Loading again brings back the default ones. -/
theorem not_sameData_reload_run : ∃ x, Runs.run step
    [(.seconds 1, .localOperation (.task (.deleteCategory "work" none) rfl))]
      (start samplePersisted) = some x ∧ x.store.categories = [] ∧
        x.store.reload.categories = Category.defaultCategories :=
  ⟨_, rfl, by decide, by decide⟩

end StoreStep

end Notelayer
