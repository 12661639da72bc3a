import Notelayer.Library.MergeDocument
import Notelayer.Models

/-!
# The format of task documents

`taskData` is the data of the merge write that stores a task, and `task` decodes a
document. A date is stored as a timestamp, clamped to the years Firestore has. The data
always says what becomes of `completedAt`, the reminder and the hierarchy fields. For
`dueDate` and `taskNotes` it is silent if the task has none, and the value of an earlier
version stays.

`task_merge_taskData_iff` : the document decodes to the task just written exactly when
each of these two fields is present or was absent from all earlier versions.
-/

namespace Notelayer

open MergeDocument

/-! ## Values -/

/-- The kinds of values the decoder reads. -/
inductive FirestoreValue where
  | null
  | string (value : String)
  | strings (values : List String)
  | integer (value : ℤ)
  | double (value : TimeInterval)
  | timestamp (date : Date)
  deriving DecidableEq

namespace FirestoreValue

/-- `value as? String`. -/
def asString : Option FirestoreValue → Option String
  | some (string value) => some value
  | _ => none

/-- `value as? [String]`. -/
def asStrings : Option FirestoreValue → Option (List String)
  | some (strings values) => some values
  | _ => none

@[simp] theorem asString_string (s : String) : asString (some (string s)) = some s :=
  rfl

@[simp] theorem asStrings_strings (l : List String) : asStrings (some (strings l)) = some l :=
  rfl

end FirestoreValue

/-- The date within the bounds of Firestore. -/
def firestoreSafeDate (date : Date) : Date :=
  AppDateBounds.clampedForFirestore date

/-- The date of a timestamp, or of a number of seconds. -/
def dateValue : Option FirestoreValue → Option Date
  | some (.timestamp date) => some (firestoreSafeDate date)
  | some (.double interval) => some (firestoreSafeDate ⟨interval⟩)
  | some (.integer interval) => some (firestoreSafeDate (.seconds interval))
  | _ => none

/-- The number ASCII digits stand for. -/
def intOfDigits (digits : List Char) : Option ℤ :=
  if digits ≠ [] ∧ digits.all Char.isDigit then
    some (digits.foldl (fun n c => 10 * n + (c.toNat - '0'.toNat)) (0 : ℕ))
  else none

/-- `Int(_: String)` : an optional sign and digits, within 64 bits. -/
def intOfString (s : String) : Option ℤ :=
  let value := match s.toList with
    | '-' :: digits => (intOfDigits digits).map (- ·)
    | '+' :: digits => intOfDigits digits
    | digits => intOfDigits digits
  value.filter fun n => -2 ^ 63 ≤ n ∧ n < 2 ^ 63

/-- An integer, a double without its fraction, or a numeral. `Int(_: Double)` traps on a
value that is not finite; here it is 0. -/
def intValue : Option FirestoreValue → Option ℤ
  | some (.integer value) => some value
  | some (.double (.finite q)) => some (Date.truncated q)
  | some (.double _) => some 0
  | some (.string value) => intOfString value
  | _ => none

/-! ## Coding -/

/-- A dictionary literal. An entry without a write stands for a key that is left out. -/
def dictionary (fields : List (String × Option (Write FirestoreValue))) :
    Data String FirestoreValue :=
  fun key => (fields.find? fun f => f.1 = key).bind Prod.snd

/-- `if let value { data[key] = … }`. -/
def ifPresent {A : Type} (toValue : A → FirestoreValue) (value : Option A) :
    Option (Write FirestoreValue) :=
  value.map fun value => .set (toValue value)

/-- `if let value { data[key] = … } else { data[key] = FieldValue.delete() }`. -/
def orDelete {A : Type} (toValue : A → FirestoreValue) (value : Option A) :
    Option (Write FirestoreValue) :=
  match value with
  | some value => some (.set (toValue value))
  | none => some .delete

/-- The field of a date. -/
def safeTimestamp (date : Date) : FirestoreValue :=
  .timestamp (firestoreSafeDate date)

/-- The document of a task : a missing value deletes its field, in five of seven fields. -/
def taskData (task : Task) : Data String FirestoreValue :=
  dictionary [
    ("id", some (.set (.string task.id))),
    ("title", some (.set (.string task.title))),
    ("categories", some (.set (.strings task.categories))),
    ("priority", some (.set (.string task.priority.rawValue))),
    ("createdAt", some (.set (safeTimestamp task.createdAt))),
    ("updatedAt", some (.set (safeTimestamp task.updatedAt))),
    ("orderIndex", some (.set (task.orderIndex.elim .null .integer))),
    ("dueDate", ifPresent safeTimestamp task.dueDate),
    ("completedAt", orDelete safeTimestamp task.completedAt),
    ("taskNotes", ifPresent .string task.taskNotes),
    ("reminderDate", orDelete safeTimestamp task.reminderDate),
    ("reminderNotificationId", orDelete .string task.reminderNotificationId),
    ("parentTaskId", orDelete .string task.parentTaskId),
    ("parentManualReopenAt", orDelete safeTimestamp task.parentManualReopenAt)]

/-- `task(from:)`. `now` is what `Date()` yields if there is no creation date. -/
def task (now : Date) (documentID : String) (data : Document String FirestoreValue) :
    Option Task :=
  (FirestoreValue.asString (data "title")).map fun title =>
    let createdAt := (dateValue (data "createdAt")).getD now
    let priorityRaw := (FirestoreValue.asString (data "priority")).getD Priority.medium.rawValue
    Task.init {
      id := (FirestoreValue.asString (data "id")).getD documentID
      title := title
      categories := (FirestoreValue.asStrings (data "categories")).getD []
      priority := (Priority.ofRawValue priorityRaw).getD .medium
      dueDate := dateValue (data "dueDate")
      completedAt := dateValue (data "completedAt")
      taskNotes := FirestoreValue.asString (data "taskNotes")
      createdAt := createdAt
      updatedAt := (dateValue (data "updatedAt")).getD createdAt
      orderIndex := intValue (data "orderIndex")
      reminderDate := dateValue (data "reminderDate")
      reminderNotificationId := FirestoreValue.asString (data "reminderNotificationId")
      parentTaskId := FirestoreValue.asString (data "parentTaskId")
      parentManualReopenAt := dateValue (data "parentManualReopenAt") }

/-- The task with every date clamped. -/
def Task.clamped (task : Task) : Task :=
  { task with
    dueDate := task.dueDate.map firestoreSafeDate
    completedAt := task.completedAt.map firestoreSafeDate
    createdAt := firestoreSafeDate task.createdAt
    updatedAt := firestoreSafeDate task.updatedAt
    reminderDate := task.reminderDate.map firestoreSafeDate
    parentManualReopenAt := task.parentManualReopenAt.map firestoreSafeDate }

/-! ## Round trip -/

/-- A finite time is clamped into the bounds. -/
theorem clampedForFirestore_finite (q : ℚ) :
    ∃ r, AppDateBounds.firestoreMinTimestampSeconds ≤ r ∧
      r ≤ AppDateBounds.firestoreMaxTimestampSeconds ∧
      AppDateBounds.clampedForFirestore ⟨.finite q⟩ = ⟨.finite r⟩ := by
  have hle : AppDateBounds.firestoreMinTimestampSeconds ≤
      AppDateBounds.firestoreMaxTimestampSeconds := by decide
  exact ⟨_, le_min (le_max_right _ _) hle, min_le_right _ _, rfl⟩

theorem clampedForFirestore_of_mem {r : ℚ} (hmin : AppDateBounds.firestoreMinTimestampSeconds ≤ r)
    (hmax : r ≤ AppDateBounds.firestoreMaxTimestampSeconds) :
    AppDateBounds.clampedForFirestore ⟨.finite r⟩ = ⟨.finite r⟩ := by
  simp only [AppDateBounds.clampedForFirestore]
  rw [max_eq_left hmin, min_eq_left hmax]

/-- Clamping twice is clamping once. -/
@[simp] theorem firestoreSafeDate_idem (d : Date) :
    firestoreSafeDate (firestoreSafeDate d) = firestoreSafeDate d := by
  unfold firestoreSafeDate
  have hbaseline : AppDateBounds.clampedForFirestore AppDateBounds.metadataBaseline =
      AppDateBounds.metadataBaseline :=
    clampedForFirestore_of_mem (by decide) (by decide)
  obtain ⟨t⟩ := d
  cases t with
  | finite q =>
    obtain ⟨r, hmin, hmax, hr⟩ := clampedForFirestore_finite q
    rw [hr, clampedForFirestore_of_mem hmin hmax]
  | infinity => exact hbaseline
  | negInfinity => exact hbaseline
  | nan => exact hbaseline

@[simp] theorem dateValue_safeTimestamp (d : Date) :
    dateValue (some (safeTimestamp d)) = some (firestoreSafeDate d) := by
  simp [safeTimestamp, dateValue]

@[simp] theorem dateValue_map_safeTimestamp (d : Option Date) :
    dateValue (d.map safeTimestamp) = d.map firestoreSafeDate := by
  cases d with
  | none => rfl
  | some d => exact dateValue_safeTimestamp d

@[simp] theorem asString_map_string (s : Option String) :
    FirestoreValue.asString (s.map .string) = s := by
  cases s <;> rfl

theorem merge_ifPresent_some {doc : Document String FirestoreValue}
    {data : Data String FirestoreValue} {key : String} {A : Type} {f : A → FirestoreValue} {a : A}
    (h : data key = ifPresent f (some a)) : merge doc data key = some (f a) :=
  merge_of_some h

theorem merge_orDelete {doc : Document String FirestoreValue} {data : Data String FirestoreValue}
    {key : String} {A : Type} {f : A → FirestoreValue} {a : Option A}
    (h : data key = orDelete f a) : merge doc data key = a.map f := by
  cases a with
  | none => exact merge_of_some h
  | some a => exact merge_of_some h

/-- After the merge every field but two is the one of the task. -/
theorem task_merge_taskData (now : Date) (doc : Document String FirestoreValue) (t : Task)
    (horder : t.orderIndex ≠ none) : task now t.id (merge doc (taskData t)) =
      some { t.clamped with
        dueDate := dateValue (merge doc (taskData t) "dueDate")
        taskNotes := FirestoreValue.asString (merge doc (taskData t) "taskNotes") } := by
  have hset : ∀ key w, taskData t key = some w → merge doc (taskData t) key = w.value :=
    fun key w h => merge_of_some h
  have hcompleted : merge doc (taskData t) "completedAt" = t.completedAt.map safeTimestamp :=
    merge_orDelete rfl
  have hreminder : merge doc (taskData t) "reminderDate" = t.reminderDate.map safeTimestamp :=
    merge_orDelete rfl
  have hnotification : merge doc (taskData t) "reminderNotificationId" =
      t.reminderNotificationId.map .string := merge_orDelete rfl
  have hparent : merge doc (taskData t) "parentTaskId" = t.parentTaskId.map .string :=
    merge_orDelete rfl
  have hreopen : merge doc (taskData t) "parentManualReopenAt" =
      t.parentManualReopenAt.map safeTimestamp := merge_orDelete rfl
  obtain ⟨order, horder⟩ := Option.ne_none_iff_exists'.mp horder
  unfold task
  rw [hset "title" _ rfl, hset "id" _ rfl, hset "categories" _ rfl, hset "priority" _ rfl,
    hset "createdAt" _ rfl, hset "updatedAt" _ rfl, hset "orderIndex" _ rfl, hcompleted,
    hreminder, hnotification, hparent, hreopen]
  simp [Write.value, horder, intValue, Priority.ofRawValue_rawValue, Task.init, Task.clamped]

/-- A field that is only written if present decodes to the task's value exactly when the
task has one or no earlier version had. -/
theorem merge_ifPresent_iff {A : Type} (field : Task → Option A) (key : String)
    {f : A → FirestoreValue} {decode : Option FirestoreValue → Option A}
    (hkey : ∀ t, taskData t key = ifPresent f (field t)) {stored : A → A}
    (hdecode : ∀ a, decode (some (f a)) = some (stored a)) (hnone : decode none = none)
    (versions : List Task) (t : Task) :
    decode (merge (mergeAll (fun _ => none) (versions.map taskData)) (taskData t) key) =
        (field t).map stored ↔
      field t ≠ none ∨ ∀ v ∈ versions, field v = none := by
  have hsilent : ∀ v, taskData v key = none ↔ field v = none := by
    intro v
    rw [hkey, ifPresent, Option.map_eq_none_iff]
  cases ht : field t with
  | some a =>
    rw [merge_ifPresent_some ((hkey t).trans (by rw [ht])), hdecode]
    simp
  | none =>
    have hdelete : ∀ data ∈ versions.map taskData, data key ≠ some .delete := by
      intro data hdata
      obtain ⟨v, -, rfl⟩ := List.mem_map.mp hdata
      rw [hkey]
      cases field v <;> simp [ifPresent]
    have habsent : mergeAll (fun _ => none) (versions.map taskData) key = none ↔ _ :=
      mergeAll_eq_none_iff hdelete
    simp only [List.forall_mem_map, hsilent, true_and] at habsent
    rw [merge_of_none ((hsilent t).mpr ht), Option.map_none]
    refine ⟨fun h => Or.inr (habsent.mp ?_), fun h => ?_⟩
    · -- a residue would decode to a value
      by_contra hsome
      obtain ⟨w, hw⟩ := Option.ne_none_iff_exists'.mp hsome
      rcases exists_of_mergeAll hw with hempty | ⟨data, hdata, hset⟩
      · cases hempty
      · obtain ⟨v, -, rfl⟩ := List.mem_map.mp hdata
        rw [hkey] at hset
        obtain ⟨a, -, ha⟩ := Option.map_eq_some_iff.mp hset
        obtain rfl : f a = w := Write.set.inj ha
        rw [hw, hdecode] at h
        cases h
    · rw [habsent.mpr (h.resolve_left (not_not.mpr rfl)), hnone]

/-- After any history of a task's document, the document decodes to the version just written
if and only if its due date and its notes are present or were absent from every version
before. -/
theorem task_merge_taskData_iff (now : Date) (versions : List Task) (t : Task)
    (horder : t.orderIndex ≠ none) :
    task now t.id (merge (mergeAll (fun _ => none) (versions.map taskData)) (taskData t)) =
        some t.clamped ↔
      (t.dueDate ≠ none ∨ ∀ v ∈ versions, v.dueDate = none) ∧
        (t.taskNotes ≠ none ∨ ∀ v ∈ versions, v.taskNotes = none) := by
  have hdue := merge_ifPresent_iff Task.dueDate "dueDate" (fun _ => rfl) dateValue_safeTimestamp
    rfl versions t
  have hnotes := merge_ifPresent_iff Task.taskNotes "taskNotes" (fun _ => rfl)
    FirestoreValue.asString_string rfl versions t
  rw [task_merge_taskData now _ t horder, ← hdue, ← hnotes, Option.map_id', Option.some_inj]
  refine ⟨fun h => ⟨congrArg Task.dueDate h, congrArg Task.taskNotes h⟩, ?_⟩
  rintro ⟨hd, hn⟩
  rw [hd, hn]
  rfl

/-- A version with a due date, then one with notes besides. -/
theorem task_merge_taskData_iff_sample :
    let dated : Task :=
      { Task.sampleParent with orderIndex := some 0, dueDate := some (.seconds 9) }
    let noted : Task := { dated with taskNotes := some "bring maps" }
    task (.seconds 3) noted.id
      (merge (mergeAll (fun _ => none) [taskData dated]) (taskData noted)) =
      some noted.clamped :=
  (task_merge_taskData_iff (.seconds 3) [_] _ (by decide)).mpr
    ⟨Or.inl (by decide), Or.inl (by decide)⟩

/-- A due date that is cleared comes back. -/
theorem not_task_merge_taskData : ¬∀ (now : Date) (versions : List Task) (t : Task),
    (∀ v ∈ versions, v.id = t.id) → t.orderIndex ≠ none →
    task now t.id (merge (mergeAll (fun _ => none) (versions.map taskData)) (taskData t)) =
      some t.clamped := by
  intro h
  have hsample := h (.seconds 3) [{ Task.sampleParent with dueDate := some (.seconds 9) }]
    { Task.sampleParent with orderIndex := some 0 } (by decide) (by decide)
  have hdue := congrArg (Option.bind · Task.dueDate) hsample
  revert hdue
  decide

end Notelayer
