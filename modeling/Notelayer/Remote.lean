import Notelayer.LocalStore

/-!
# The remote data of one user

`Remote` is what Firestore holds for a user : three collections and the user document,
decoded. A document that does not decode is skipped by every read and is there all the
same. A batch write replaces or adds the documents of its records.
-/

namespace Notelayer

open KeyedList

/-! ## Collections -/

/-- The documents of a collection, by whether they decode. -/
structure Collection (A : Type) where
  records : List A := []
  unreadable : List String := []
  deriving DecidableEq

namespace Collection

variable {A : Type} (key : A → String) (c : Collection A)

/-- The ids of all documents. -/
def ids : List String :=
  c.records.map key ++ c.unreadable

/-- `upsertBatch` of the records. -/
def upsertBatch (batch : List A) : Collection A :=
  { records := batch.foldl (upsert key) c.records
    unreadable := c.unreadable.filter (· ∉ batch.map key) }

variable {key c}

theorem mem_ids_foldl_upsert {batch l : List A} {id : String} :
    id ∈ (batch.foldl (upsert key) l).map key ↔ id ∈ batch.map key ∨ id ∈ l.map key := by
  induction batch generalizing l with
  | nil => simp
  | cons a batch ih => rw [List.foldl_cons, ih, mem_map_key_upsert, List.map_cons, List.mem_cons,
      or_left_comm, or_assoc]

theorem mem_ids_upsertBatch {batch : List A} {id : String} :
    id ∈ (c.upsertBatch key batch).ids key ↔ id ∈ batch.map key ∨ id ∈ c.ids key := by
  unfold ids upsertBatch
  rw [List.mem_append, List.mem_append, mem_ids_foldl_upsert, List.mem_filter]
  rcases Classical.em (id ∈ batch.map key) with h | h <;> simp [h]

end Collection

/-! ## The user document -/

/-- The hint state as it is stored and read. -/
def InsightsHintState.safe (state : InsightsHintState) : InsightsHintState :=
  { state with
    lastShownAt := state.lastShownAt.map AppDateBounds.clampedForFirestore
    lastDismissedAt := state.lastDismissedAt.map AppDateBounds.clampedForFirestore
    interactedAt := state.interactedAt.map AppDateBounds.clampedForFirestore
    updatedAt := AppDateBounds.clampedForFirestore state.updatedAt }

/-- The fields of the user document. The hint fields are there if `insightsHintUpdatedAt`
is. -/
structure UserDocument where
  uncategorizedPosition : Option ℤ := none
  experimentalFeaturesEnabled : Option Bool := none
  experimentalFeaturesUpdatedAt : Option Date := none
  insightsHint : Option InsightsHintState := none
  deriving DecidableEq

namespace UserDocument

variable (d : UserDocument)

/-- `upsertCategoryGroupMetadata(uncategorizedPosition:)`. -/
def upsertCategoryGroupMetadata (uncategorizedPosition : ℤ) : UserDocument :=
  { d with uncategorizedPosition := some uncategorizedPosition }

/-- `upsertExperimentalFeatureMetadata(preference:)`. -/
def upsertExperimentalFeatureMetadata (preference : ExperimentalFeaturePreference) :
    UserDocument :=
  { d with
    experimentalFeaturesEnabled := some preference.isEnabled
    experimentalFeaturesUpdatedAt := some (AppDateBounds.clampedForFirestore preference.updatedAt) }

/-- `upsertInsightsHintMetadata(_:)`. -/
def upsertInsightsHintMetadata (state : InsightsHintState) : UserDocument :=
  { d with insightsHint := some state.safe }

end UserDocument

/-- A write to the user document. -/
inductive MetadataWrite where
  | categoryGroup (uncategorizedPosition : ℤ)
  | experimentalFeature (preference : ExperimentalFeaturePreference)
  | insightsHint (state : InsightsHintState)
  deriving DecidableEq

/-- The document after a write. -/
def MetadataWrite.apply (d : UserDocument) : MetadataWrite → UserDocument
  | categoryGroup position => d.upsertCategoryGroupMetadata position
  | experimentalFeature preference => d.upsertExperimentalFeatureMetadata preference
  | insightsHint state => d.upsertInsightsHintMetadata state

/-- The data of one account. -/
structure Remote where
  notes : Collection Note := {}
  tasks : Collection Task := {}
  categories : Collection Category := {}
  userDocument : Option UserDocument := none
  deriving DecidableEq

namespace Remote

variable (r : Remote)

/-- `setData(on: userDocument, data:)`, which creates the document. -/
def upsertMetadata (write : MetadataWrite) : Remote :=
  { r with userDocument := some (write.apply (r.userDocument.getD {})) }

/-- `fetchCategoryGroupMetadata`, the place. -/
def uncategorizedPosition : Option ℤ :=
  r.userDocument.bind UserDocument.uncategorizedPosition

/-- `fetchExperimentalFeatureMetadata`, the value. -/
def experimentalFeaturesEnabled : Option Bool :=
  r.userDocument.bind UserDocument.experimentalFeaturesEnabled

/-- `fetchExperimentalFeatureMetadata`, the timestamp. -/
def experimentalFeaturesUpdatedAt : Option Date :=
  (r.userDocument.bind UserDocument.experimentalFeaturesUpdatedAt).map
    AppDateBounds.clampedForFirestore

/-- `fetchExperimentalFeatureMetadata`. -/
def experimentalFeatureMetadata : Option (Bool × Date) :=
  r.experimentalFeaturesEnabled.map fun isEnabled =>
    (isEnabled, r.experimentalFeaturesUpdatedAt.getD AppDateBounds.metadataBaseline)

/-- `fetchInsightsHintMetadata`. -/
def insightsHint : Option InsightsHintState :=
  (r.userDocument.bind UserDocument.insightsHint).map InsightsHintState.safe

end Remote

end Notelayer
