import Notelayer.Foundation

/-!
# The data model

The value types the store holds and the backend stores. Identifiers are the strings
Swift's `UUID().uuidString` yields. `Date()` and fresh identifiers are arguments of
the functions that draw them.
-/

namespace Notelayer

/-! ## Date bounds -/

namespace AppDateBounds

/-- The first second of the year 1. -/
def firestoreMinTimestampSeconds : ℚ := -62135596800

/-- The last second of the year 9999. -/
def firestoreMaxTimestampSeconds : ℚ := 253402300799

/-- The date of a preference that was never set. -/
def metadataBaseline : Date := .seconds 0

/-- Firestore timestamps cover the years 1 to 9999. -/
def clampedForFirestore (date : Date) : Date :=
  match date.timeIntervalSince1970 with
  | .finite seconds =>
    ⟨.finite (min (max seconds firestoreMinTimestampSeconds) firestoreMaxTimestampSeconds)⟩
  | _ => metadataBaseline

end AppDateBounds

/-! ## Tasks, categories and notes -/

/-- How urgent a task is. -/
inductive Priority where
  | high
  | medium
  | low
  | deferred
  deriving DecidableEq

namespace Priority

/-- What is stored of a priority. -/
def rawValue : Priority → String
  | high => "high"
  | medium => "medium"
  | low => "low"
  | deferred => "deferred"

/-- From above. -/
def allCases : List Priority :=
  [high, medium, low, deferred]

/-- `Priority(rawValue:)`. -/
def ofRawValue (raw : String) : Option Priority :=
  allCases.find? fun p => p.rawValue = raw

theorem ofRawValue_rawValue (p : Priority) : ofRawValue p.rawValue = some p := by
  cases p <;> decide

end Priority

/-- A category of tasks. -/
structure Category where
  id : String
  name : String
  icon : String
  color : String
  /-- Lower values appear earlier. -/
  order : ℤ := 0
  deriving DecidableEq

/-- A note. -/
structure Note where
  id : String
  text : String
  createdAt : Date
  deriving DecidableEq

/-- A task. A subtask has the id of its parent. -/
structure Task where
  id : String
  title : String
  categories : List String := []
  priority : Priority := .medium
  dueDate : Option Date := none
  completedAt : Option Date := none
  taskNotes : Option String := none
  createdAt : Date
  updatedAt : Date
  orderIndex : Option ℤ := none
  reminderDate : Option Date := none
  reminderNotificationId : Option String := none
  /-- One level only : a subtask names its parent. -/
  parentTaskId : Option String := none
  /-- Set when a parent is reopened by hand after all its subtasks were complete. -/
  parentManualReopenAt : Option Date := none
  deriving DecidableEq

/-- `Task.init` : the given fields, with `orderIndex` read off `createdAt` if absent. -/
def Task.init (fields : Task) : Task :=
  { fields with orderIndex := some (fields.orderIndex.getD fields.createdAt.milliseconds) }

/-- A parent and its subtask, for examples. -/
def Task.sampleParent : Task :=
  { id := "parent", title := "Plan", createdAt := .seconds 0, updatedAt := .seconds 0 }

/-- A subtask of it. -/
def Task.sampleSubtask : Task :=
  { sampleParent with id := "subtask", parentTaskId := some "parent" }

/-! ## Metadata of an account -/

/-- What is known of the preference. -/
inductive ExperimentalFeatureState where
  | off
  | on
  | pendingSyncReconcile
  deriving DecidableEq

/-- Whether the experimental features are on, and since when. -/
structure ExperimentalFeaturePreference where
  isEnabled : Bool
  updatedAt : Date
  state : ExperimentalFeatureState
  deriving DecidableEq

/-- Off, and older than what anyone sets. -/
def ExperimentalFeaturePreference.default : ExperimentalFeaturePreference :=
  ⟨false, AppDateBounds.metadataBaseline, .off⟩

/-- `enabled ? .on : .off`. -/
def ExperimentalFeatureState.ofEnabled (enabled : Bool) : ExperimentalFeatureState :=
  if enabled then .on else .off

/-- How often the hint for Insights was shown and dismissed, and whether Insights was opened. -/
structure InsightsHintState where
  showCount : ℤ
  dismissCount : ℤ
  lastShownAt : Option Date
  lastDismissedAt : Option Date
  interactedAt : Option Date
  updatedAt : Date
  deriving DecidableEq

/-- Never shown. -/
def InsightsHintState.default : InsightsHintState :=
  ⟨0, 0, none, none, none, AppDateBounds.metadataBaseline⟩

/-- `shouldShowHint(now:)`. The second time it waits a day. -/
def InsightsHintState.shouldShowHint (state : InsightsHintState) (now : Date) : Bool :=
  if state.interactedAt ≠ none then false
  else if state.showCount = 0 then true
  else match state.lastDismissedAt with
    | some lastDismissedAt => state.showCount = 1 ∧ 1 ≤ state.dismissCount ∧
        (now.timeIntervalSince lastDismissedAt).ge (.finite (24 * 60 * 60))
    | none => false

/-- A task as it was parsed of a transcript, before it is confirmed. -/
structure VoiceParsedTaskDraft where
  id : String
  title : String
  notes : String
  categories : List String
  priority : Priority
  dueDate : Option Date
  confidenceScore : ℚ
  needsReview : Bool
  deriving DecidableEq

end Notelayer
