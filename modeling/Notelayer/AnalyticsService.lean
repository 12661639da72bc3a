import Notelayer.LocalStore
import Notelayer.InsightsTelemetryStore

/-!
# Analytics events

`AnalyticsService.logEvent` turns the name and the parameters of an event into the arguments of
`InsightsTelemetryStore.record` on the thread that calls it. The instant of the event is not
among them : it is read by the block that calls `record`.
-/

namespace Notelayer

open KeyedList

/-! ## Parameters -/

/-- `value as? String`. -/
def AnalyticsValue.asString : AnalyticsValue → Option String
  | string value => some value
  | int _ => none
  | bool _ => none

/-- The text of a value in the metadata. -/
def AnalyticsValue.stringValue : AnalyticsValue → String
  | string value => value
  | int value => toString value
  | bool value => if value then "true" else "false"

namespace AnalyticsService

variable (params : List (String × AnalyticsValue))

/-- `params[key] as? String`. -/
def stringParam (key : String) : Option String :=
  (lookup Prod.fst params key).bind fun entry => entry.2.asString

/-- The parameters as texts. -/
def metadataStringMap : List (String × String) :=
  params.map fun entry => (entry.1, entry.2.stringValue)

/-- No value is a list, so `category_ids` has none. -/
def categoryIdsFromParams : List String :=
  match stringParam params "category_ids_csv", stringParam params "category_id" with
  | some csv, _ =>
    let parts := (csv.toList.splitOn ',').filter (· ≠ [])
    ((parts.map fun part => trimmed (String.ofList part)).filter fun id =>
      ¬id.isEmpty).insertionSort (· ≤ ·)
  | none, some categoryId => if categoryId.isEmpty then [] else [categoryId]
  | none, none => []

/-- The feature that an event counts for. -/
def featureKey (eventName : String) (viewName : Option String) : String :=
  match eventName with
  | "tab_selected" => "tab_select"
  | "view_open" =>
    if viewName = some "Notes" then "notes_usage"
    else if viewName = some "Profile & Settings" then "profile_settings_open"
    else "view_open"
  | "view_duration" => "view_duration"
  | "todos_filter_changed" => "todos_filter_change"
  | "task_created" => "task_create"
  | "task_edited" => "task_edit"
  | "task_completed" => "task_complete"
  | "task_restored" => "task_restore"
  | "task_deleted" => "task_delete"
  | "task_reordered" => "task_reorder"
  | "task_due_date_set" => "due_date_set"
  | "task_due_date_cleared" => "due_date_cleared"
  | "task_reminder_set" => "reminder_set"
  | "task_reminder_cleared" => "reminder_cleared"
  | "category_created" => "category_create"
  | "category_renamed" => "category_rename"
  | "category_reordered" => "category_reorder"
  | "category_deleted" => "category_delete"
  | "category_assigned_to_task" => "category_assign"
  | "reminder_permission_prompted" => "reminder_permission_prompted"
  | "reminder_permission_denied" => "reminder_permission_denied"
  | "reminder_scheduled" => "reminder_set"
  | "reminder_cleared" => "reminder_cleared"
  | "calendar_export_initiated" => "calendar_export_initiated"
  | "calendar_export_permission_denied" => "calendar_export_permission_denied"
  | "calendar_export_presented" => "calendar_export_presented"
  | "theme_changed" => "theme_change"
  | "insights_drilldown_opened" => "insights_drilldown_open"
  | _ => eventName

/-- The call of `record` that `logEvent` hands to its queue, run at an instant. -/
def recordCall (e : AnalyticsEvent) (timestampUTC : Date) : RecordCall :=
  let viewName := stringParam e.params "view_name"
  { eventName := e.name
    featureKey := featureKey e.name viewName
    tabName := stringParam e.params "tab_name"
    viewName := viewName
    categoryIds := categoryIdsFromParams e.params
    taskIdPolicyField := (stringParam e.params "task_id").or (stringParam e.params "taskId")
    metadata := metadataStringMap e.params
    timestampUTC := timestampUTC }

@[simp] theorem timestampUTC_recordCall (e : AnalyticsEvent) (timestampUTC : Date) :
    (recordCall e timestampUTC).timestampUTC = timestampUTC :=
  rfl

end AnalyticsService

end Notelayer
