import Notelayer.Library.JSON
import Notelayer.SharedItems

/-!
# The coding of shared items

A `SharedItem` is written with a field for each of its values and read with a default for each
missing one. An item is read back as it was, and without some of its keys it is read as the item
that has the defaults in their place (`SharedItem.decode_removing`).
-/

namespace Notelayer

/-! ## The values -/

instance : JSONCodable Priority :=
  .ofRawValue Priority.rawValue Priority.ofRawValue Priority.ofRawValue_rawValue

/-- The text under which a destination is stored. -/
def SharedImportDestination.rawValue : SharedImportDestination → String
  | task => "task"
  | note => "note"
  | taskBatch => "taskBatch"

/-- `SharedImportDestination(rawValue:)`. -/
def SharedImportDestination.ofRawValue (raw : String) : Option SharedImportDestination :=
  [task, note, taskBatch].find? fun destination => destination.rawValue = raw

instance : JSONCodable SharedImportDestination :=
  .ofRawValue SharedImportDestination.rawValue SharedImportDestination.ofRawValue
    fun destination => by cases destination <;> decide

/-- The text under which a status is stored. -/
def SharedImportStatus.rawValue : SharedImportStatus → String
  | pending => "pending"
  | failed => "failed"

/-- `SharedImportStatus(rawValue:)`. -/
def SharedImportStatus.ofRawValue (raw : String) : Option SharedImportStatus :=
  [pending, failed].find? fun status => status.rawValue = raw

instance : JSONCodable SharedImportStatus :=
  .ofRawValue SharedImportStatus.rawValue SharedImportStatus.ofRawValue
    fun status => by cases status <;> decide

/-- The seconds from 1970 to the reference date of Foundation. -/
def timeIntervalBetween1970AndReferenceDate : ℚ :=
  978307200

/-- Seconds since the reference date. A number that is not finite cannot be written. -/
instance : JSONCodable Date where
  encode d :=
    match d.timeIntervalSince1970 with
    | .finite q => some (.number (q - timeIntervalBetween1970AndReferenceDate))
    | _ => none
  decode
    | .number x => some ⟨.finite (x + timeIntervalBetween1970AndReferenceDate)⟩
    | _ => none
  decode_of_encode := by
    rintro ⟨q | _ | _ | _⟩ v hv
    · obtain rfl := Option.some_inj.mp hv
      simp
    all_goals cases hv
  encode_ne_null := by
    rintro ⟨q | _ | _ | _⟩ hv
    · simp at hv
    all_goals cases hv

@[simp] theorem isSome_encode_date (d : Date) :
    (JSONCodable.encode d).isSome = d.timeIntervalSince1970.isFinite := by
  obtain ⟨q | _ | _ | _⟩ := d <;> rfl

open JSONValue

/-! ## Drafts and items -/

namespace SharedTaskDraft

/-- The fields that a draft encodes. -/
def fields (draft : SharedTaskDraft) : List Field :=
  [written "id" draft.id, written "title" draft.title, writtenIfPresent "notes" draft.notes,
    written "isChecklistItem" draft.isChecklistItem]

/-- The coding the compiler derives. -/
instance : JSONCodable SharedTaskDraft where
  encode draft := keyed draft.fields
  decode v := do
    some {
      id := ← v.decodeKey String "id"
      title := ← v.decodeKey String "title"
      notes := ← v.decodeIfPresent String "notes"
      isChecklistItem := ← v.decodeKey Bool "isChecklistItem" }
  decode_of_encode := by
    intro draft v hv
    have hhas := has_of_keyed (by simp [fields, written, writtenIfPresent]) hv
    simp only [fields, List.forall_mem_cons] at hhas
    obtain ⟨hid, htitle, hnotes, hitem, -⟩ := hhas
    simp [hid.decodeKey, htitle.decodeKey, hnotes.decodeIfPresent, hitem.decodeKey]
  encode_ne_null draft := keyed_ne_null _

theorem isSome_encode (draft : SharedTaskDraft) : (JSONCodable.encode draft).isSome := by
  refine isSome_keyed.mpr ?_
  simp only [fields, List.forall_mem_cons, isSome_written, isSome_writtenIfPresent]
  simp [JSONCodable.encode]

end SharedTaskDraft

namespace SharedItem

/-- The fields that an item encodes. -/
def fields (item : SharedItem) : List Field :=
  [written "id" item.id, written "title" item.title, writtenIfPresent "url" item.url,
    writtenIfPresent "text" item.text, writtenIfPresent "sourceApp" item.sourceApp,
    written "createdAt" item.createdAt, written "categories" item.categories,
    written "priority" item.priority, writtenIfPresent "dueDate" item.dueDate,
    writtenIfPresent "reminderDate" item.reminderDate,
    written "destination" item.destination, written "taskDrafts" item.taskDrafts,
    written "status" item.status, writtenIfPresent "lastError" item.lastError,
    written "retryCount" item.retryCount, written "importTimestamp" item.importTimestamp,
    written "wasTruncated" item.wasTruncated,
    writtenIfPresent "preparationDurationMs" item.preparationDurationMs]

/-- `encode(to:)`. -/
def encode (item : SharedItem) : Option JSONValue :=
  keyed item.fields

/-- `init(from:)`. `uuid` and `now` are for what is missing. -/
def decode (uuid : String) (now : Date) (v : JSONValue) : Option SharedItem := do
  let id := (← v.decodeIfPresent String "id").getD uuid
  let title := (← v.decodeIfPresent String "title").getD ""
  let url ← v.decodeIfPresent String "url"
  let text ← v.decodeIfPresent String "text"
  let sourceApp ← v.decodeIfPresent String "sourceApp"
  let createdAt := (← v.decodeIfPresent Date "createdAt").getD now
  let categories := (← v.decodeIfPresent (List String) "categories").getD []
  let priority := (← v.decodeIfPresent Priority "priority").getD .medium
  let dueDate ← v.decodeIfPresent Date "dueDate"
  let reminderDate ← v.decodeIfPresent Date "reminderDate"
  let destination := (← v.decodeIfPresent SharedImportDestination "destination").getD .task
  let taskDrafts := (← v.decodeIfPresent (List SharedTaskDraft) "taskDrafts").getD []
  let status := (← v.decodeIfPresent SharedImportStatus "status").getD .pending
  let lastError ← v.decodeIfPresent String "lastError"
  let retryCount := (← v.decodeIfPresent ℤ "retryCount").getD 0
  let importTimestamp := (← v.decodeIfPresent Date "importTimestamp").getD createdAt
  let wasTruncated := (← v.decodeIfPresent Bool "wasTruncated").getD false
  let preparationDurationMs ← v.decodeIfPresent ℤ "preparationDurationMs"
  some {
    id, title, url, text, sourceApp, createdAt, categories, priority, dueDate, reminderDate,
    destination, taskDrafts, status, lastError, retryCount, importTimestamp, wasTruncated,
    preparationDurationMs }

/-- The item that has its defaults under the keys that were removed. -/
def removing (removed : String → Bool) (uuid : String) (now : Date) (item : SharedItem) :
    SharedItem where
  id := if removed "id" then uuid else item.id
  title := if removed "title" then "" else item.title
  url := if removed "url" then none else item.url
  text := if removed "text" then none else item.text
  sourceApp := if removed "sourceApp" then none else item.sourceApp
  createdAt := if removed "createdAt" then now else item.createdAt
  categories := if removed "categories" then [] else item.categories
  priority := if removed "priority" then .medium else item.priority
  dueDate := if removed "dueDate" then none else item.dueDate
  reminderDate := if removed "reminderDate" then none else item.reminderDate
  destination := if removed "destination" then .task else item.destination
  taskDrafts := if removed "taskDrafts" then [] else item.taskDrafts
  status := if removed "status" then .pending else item.status
  lastError := if removed "lastError" then none else item.lastError
  retryCount := if removed "retryCount" then 0 else item.retryCount
  importTimestamp :=
    if removed "importTimestamp" then if removed "createdAt" then now else item.createdAt
    else item.importTimestamp
  wasTruncated := if removed "wasTruncated" then false else item.wasTruncated
  preparationDurationMs :=
    if removed "preparationDurationMs" then none else item.preparationDurationMs

/-- The defaults are those of the initialiser. -/
example (uuid : String) (now : Date) (item : SharedItem) :
    item.removing (fun _ => true) uuid now =
      { id := uuid, title := "", createdAt := now, importTimestamp := now } :=
  rfl

/-- What is written of an item is read as that item, with the defaults for what was removed. -/
theorem decode_removing {item : SharedItem} {v : JSONValue} (h : item.encode = some v)
    (removed : String → Bool) (uuid : String) (now : Date) :
    decode uuid now (v.removing removed) = some (item.removing removed uuid now) := by
  have hhas := has_of_keyed (by simp [fields, written, writtenIfPresent]) h
  simp only [fields, List.forall_mem_cons] at hhas
  obtain ⟨hid, htitle, hurl, htext, hsource, hcreated, hcategories, hpriority, hdue, hreminder,
    hdestination, hdrafts, hstatus, herror, hretry, htimestamp, htruncated, hduration, -⟩ := hhas
  unfold decode
  rw [hid.decodeIfPresent_removing_written, htitle.decodeIfPresent_removing_written,
    hurl.decodeIfPresent_removing, htext.decodeIfPresent_removing,
    hsource.decodeIfPresent_removing, hcreated.decodeIfPresent_removing_written,
    hcategories.decodeIfPresent_removing_written, hpriority.decodeIfPresent_removing_written,
    hdue.decodeIfPresent_removing, hreminder.decodeIfPresent_removing,
    hdestination.decodeIfPresent_removing_written, hdrafts.decodeIfPresent_removing_written,
    hstatus.decodeIfPresent_removing_written, herror.decodeIfPresent_removing,
    hretry.decodeIfPresent_removing_written, htimestamp.decodeIfPresent_removing_written,
    htruncated.decodeIfPresent_removing_written, hduration.decodeIfPresent_removing]
  simp only [Option.bind_eq_bind, Option.bind_some, getD_ite_none]
  rfl

/-- What is written of an item is read as that item, whatever is drawn. -/
theorem decode_of_encode {item : SharedItem} {v : JSONValue} (h : item.encode = some v)
    (uuid : String) (now : Date) : decode uuid now v = some item := by
  have hread := decode_removing h (fun _ => false) uuid now
  have hv : v.removing (fun _ => false) = v := by
    cases v <;> simp [JSONValue.removing]
  rwa [hv] at hread

/-- Only its dates can keep an item from being written. -/
theorem isSome_encode (item : SharedItem) : item.encode.isSome = item.isEncodable := by
  have hcategories := isSome_encode_list (A := String) (fun s => rfl) item.categories
  have hdrafts := isSome_encode_list SharedTaskDraft.isSome_encode item.taskDrafts
  rw [Bool.eq_iff_iff, encode, isSome_keyed]
  simp only [fields, List.forall_mem_cons, isSome_written, isSome_writtenIfPresent, hcategories,
    hdrafts, isSome_encode_date]
  simp [JSONCodable.encode, isEncodable, and_assoc]

/-- An item with finite dates is written, what is written is read as the item, and without some of
its keys as the item that has the defaults there. -/
theorem encode_spec (item : SharedItem) :
    item.encode.isSome = item.isEncodable ∧
      ∀ v, item.encode = some v → ∀ (uuid : String) (now : Date),
        decode uuid now v = some item ∧
          ∀ removed, decode uuid now (v.removing removed) = some (item.removing removed uuid now) :=
  ⟨item.isSome_encode, fun _ hv uuid now =>
    ⟨decode_of_encode hv uuid now, fun removed => decode_removing hv removed uuid now⟩⟩

/-- A list of two drafts. -/
def sampleList : SharedItem where
  id := "item"
  title := "List"
  createdAt := .seconds 5
  destination := .taskBatch
  taskDrafts := [{ id := "a", title := "Step 1" }, { id := "b", title := "Step 2" }]
  retryCount := -1
  importTimestamp := .seconds 7
  wasTruncated := true

theorem encode_spec_sample :
    ∃ v, sampleList.encode = some v ∧
      decode "new" (.seconds 9) (v.removing fun key => key ∈ ["id", "importTimestamp", "url"]) =
        some { sampleList with id := "new", importTimestamp := .seconds 5 } := by
  obtain ⟨v, hv⟩ := Option.isSome_iff_exists.mp (sampleList.encode_spec.1.trans rfl)
  exact ⟨v, hv, (sampleList.encode_spec.2 v hv "new" (.seconds 9)).2 _⟩

end SharedItem

/-! ## The queue -/

/-- `try? JSONEncoder().encode(items)`, up to the bytes. -/
def encodeItems (items : List SharedItem) : Option JSONValue :=
  encodeArray SharedItem.encode items

/-- `try? JSONDecoder().decode([SharedItem].self, from: data)`. Each item draws its own id and
time. -/
def decodeItems (uuid : ℕ → String) (now : ℕ → Date) (v : JSONValue) : Option (List SharedItem) :=
  decodeArray (fun index => SharedItem.decode (uuid index) (now index)) v

/-- The queue holds an array of items exactly if there is one. -/
theorem isSome_encodeItems (items : List SharedItem) :
    (encodeItems items).isSome = (encodeSharedItems items).isSome := by
  rw [Bool.eq_iff_iff, encodeItems, isSome_encodeArray, encodeSharedItems]
  simp only [SharedItem.isSome_encode]
  split_ifs with h <;> simpa using h

/-- What is written to the queue is what is read from it. -/
theorem decodeItems_of_encodeItems {items : List SharedItem} {v : JSONValue}
    (h : encodeItems items = some v) (uuid : ℕ → String) (now : ℕ → Date) :
    decodeItems uuid now v = some items :=
  decodeArray_of_encodeArray
    (fun _ _ hv index => SharedItem.decode_of_encode hv (uuid index) (now index)) h

end Notelayer
