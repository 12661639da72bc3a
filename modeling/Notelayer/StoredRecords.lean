import Notelayer.LegacyCategories
import Notelayer.SharedItemCoding

/-!
# What the store keeps in `userDefaults`, as JSON

Notes, tasks, categories, the hint state and the drafts are kept as JSON of the codings that the
compiler derives. `UserDefaults.decoded_stored` : what is written with finite dates is read as it
was, and what an earlier version wrote without some of the optional keys is read with nothing in
their place. A key that is not optional cannot be missing from one task without losing them all
(`Task.decode_list_eq_none`).
-/

namespace Notelayer

open JSONValue JSONCodable

/-! ## Notes -/

namespace Note

/-- The fields that a note encodes. -/
def fields (note : Note) : List Field :=
  [written "id" note.id, written "text" note.text, written "createdAt" note.createdAt]

/-- A `UUID` is written as its text. -/
instance : JSONCodable Note where
  encode note := keyed note.fields
  decode v := do
    some {
      id := ← v.decodeKey String "id"
      text := ← v.decodeKey String "text"
      createdAt := ← v.decodeKey Date "createdAt" }
  decode_of_encode := by
    intro note v hv
    have hhas := has_of_keyed (by simp [fields, written]) hv
    simp only [fields, List.forall_mem_cons] at hhas
    obtain ⟨hid, htext, hcreated, -⟩ := hhas
    simp [hid.decodeKey, htext.decodeKey, hcreated.decodeKey]
  encode_ne_null note := keyed_ne_null _

/-- The dates of the note are finite. -/
def isEncodable (note : Note) : Bool :=
  note.createdAt.timeIntervalSince1970.isFinite

theorem isSome_encode (note : Note) : (encode note).isSome = note.isEncodable := by
  rw [Bool.eq_iff_iff]
  refine isSome_keyed.trans ?_
  simp only [fields, List.forall_mem_cons, isSome_written, isSome_encode_date]
  simp [encode, isEncodable]

end Note

/-! ## Tasks -/

namespace Task

/-- The fields that a task encodes. -/
def fields (task : Task) : List Field :=
  [written "id" task.id, written "title" task.title, written "categories" task.categories,
    written "priority" task.priority, writtenIfPresent "dueDate" task.dueDate,
    writtenIfPresent "completedAt" task.completedAt, writtenIfPresent "taskNotes" task.taskNotes,
    written "createdAt" task.createdAt, written "updatedAt" task.updatedAt,
    writtenIfPresent "orderIndex" task.orderIndex,
    writtenIfPresent "reminderDate" task.reminderDate,
    writtenIfPresent "reminderNotificationId" task.reminderNotificationId,
    writtenIfPresent "parentTaskId" task.parentTaskId,
    writtenIfPresent "parentManualReopenAt" task.parentManualReopenAt]

/-- The keys that have no default. -/
def requiredKeys : List String :=
  ["id", "title", "categories", "priority", "createdAt", "updatedAt"]

/-- `init(from:)`. -/
def decode (v : JSONValue) : Option Task := do
  some {
    id := ← v.decodeKey String "id"
    title := ← v.decodeKey String "title"
    categories := ← v.decodeKey (List String) "categories"
    priority := ← v.decodeKey Priority "priority"
    dueDate := ← v.decodeIfPresent Date "dueDate"
    completedAt := ← v.decodeIfPresent Date "completedAt"
    taskNotes := ← v.decodeIfPresent String "taskNotes"
    createdAt := ← v.decodeKey Date "createdAt"
    updatedAt := ← v.decodeKey Date "updatedAt"
    orderIndex := ← v.decodeIfPresent ℤ "orderIndex"
    reminderDate := ← v.decodeIfPresent Date "reminderDate"
    reminderNotificationId := ← v.decodeIfPresent String "reminderNotificationId"
    parentTaskId := ← v.decodeIfPresent String "parentTaskId"
    parentManualReopenAt := ← v.decodeIfPresent Date "parentManualReopenAt" }

/-- The task without what is under the optional keys that were removed. -/
def removing (removed : String → Bool) (task : Task) : Task :=
  { task with
    dueDate := if removed "dueDate" then none else task.dueDate
    completedAt := if removed "completedAt" then none else task.completedAt
    taskNotes := if removed "taskNotes" then none else task.taskNotes
    orderIndex := if removed "orderIndex" then none else task.orderIndex
    reminderDate := if removed "reminderDate" then none else task.reminderDate
    reminderNotificationId :=
      if removed "reminderNotificationId" then none else task.reminderNotificationId
    parentTaskId := if removed "parentTaskId" then none else task.parentTaskId
    parentManualReopenAt :=
      if removed "parentManualReopenAt" then none else task.parentManualReopenAt }

@[simp] theorem removing_false (task : Task) : task.removing (fun _ => false) = task :=
  rfl

variable {task : Task} {v : JSONValue} {removed : String → Bool}

/-- A task is decoded where optional keys are missing. -/
theorem decode_removing (hv : keyed task.fields = some v)
    (hremoved : ∀ key ∈ requiredKeys, removed key = false) :
    decode (v.removing removed) = some (task.removing removed) := by
  have hhas := has_of_keyed (by simp [fields, written, writtenIfPresent]) hv
  simp only [fields, List.forall_mem_cons] at hhas
  obtain ⟨hid, htitle, hcategories, hpriority, hdue, hcompleted, hnotes, hcreated, hupdated, horder,
    hreminder, hnotification, hparent, hreopen, -⟩ := hhas
  have hkept : ∀ {A : Type} [JSONCodable A] {key : String} {a : A}, v.Has (written key a) →
      key ∈ requiredKeys → (v.removing removed).decodeKey A key = some a := fun h hkey =>
    decodeKey_removing_of_kept h.decodeKey (hremoved _ hkey)
  unfold decode
  rw [hkept hid (by simp [requiredKeys]), hkept htitle (by simp [requiredKeys]),
    hkept hcategories (by simp [requiredKeys]), hkept hpriority (by simp [requiredKeys]),
    hdue.decodeIfPresent_removing, hcompleted.decodeIfPresent_removing,
    hnotes.decodeIfPresent_removing, hkept hcreated (by simp [requiredKeys]),
    hkept hupdated (by simp [requiredKeys]), horder.decodeIfPresent_removing,
    hreminder.decodeIfPresent_removing, hnotification.decodeIfPresent_removing,
    hparent.decodeIfPresent_removing, hreopen.decodeIfPresent_removing]
  rfl

/-- `keyNotFound`. -/
theorem decode_removing_eq_none {key : String} (hkey : key ∈ requiredKeys)
    (hremoved : removed key = true) : decode (v.removing removed) = none := by
  have hnone : ∀ (A : Type) [JSONCodable A], (v.removing removed).decodeKey A key = none := by
    intro A _
    rw [decodeKey_removing, if_pos hremoved]
  by_contra hne
  obtain ⟨task, htask⟩ := Option.ne_none_iff_exists'.mp hne
  -- One key after another is read.
  obtain ⟨id, hid, htask⟩ := Option.bind_eq_some_iff.mp htask
  obtain ⟨title, htitle, htask⟩ := Option.bind_eq_some_iff.mp htask
  obtain ⟨categories, hcategories, htask⟩ := Option.bind_eq_some_iff.mp htask
  obtain ⟨priority, hpriority, htask⟩ := Option.bind_eq_some_iff.mp htask
  obtain ⟨_, -, htask⟩ := Option.bind_eq_some_iff.mp htask
  obtain ⟨_, -, htask⟩ := Option.bind_eq_some_iff.mp htask
  obtain ⟨_, -, htask⟩ := Option.bind_eq_some_iff.mp htask
  obtain ⟨createdAt, hcreatedAt, htask⟩ := Option.bind_eq_some_iff.mp htask
  obtain ⟨updatedAt, hupdatedAt, -⟩ := Option.bind_eq_some_iff.mp htask
  simp only [requiredKeys, List.mem_cons, List.not_mem_nil, or_false] at hkey
  rcases hkey with rfl | rfl | rfl | rfl | rfl | rfl
  · exact absurd (hid.symm.trans (hnone _)) nofun
  · exact absurd (htitle.symm.trans (hnone _)) nofun
  · exact absurd (hcategories.symm.trans (hnone _)) nofun
  · exact absurd (hpriority.symm.trans (hnone _)) nofun
  · exact absurd (hcreatedAt.symm.trans (hnone _)) nofun
  · exact absurd (hupdatedAt.symm.trans (hnone _)) nofun

instance : JSONCodable Task where
  encode task := keyed task.fields
  decode := decode
  decode_of_encode := by
    intro task v hv
    have hread : decode (v.removing fun _ => false) = some (task.removing fun _ => false) :=
      decode_removing hv fun _ _ => rfl
    rwa [JSONValue.removing_false, Task.removing_false] at hread
  encode_ne_null _ := keyed_ne_null _

/-- Without a key that is not optional there are no tasks at all. -/
theorem decode_list_eq_none {tasks : List Task} (hne : tasks ≠ []) (hv : encode tasks = some v)
    {key : String} (hkey : key ∈ requiredKeys) (hremoved : removed key = true) :
    (JSONCodable.decode (v.removingEach removed) : Option (List Task)) = none := by
  obtain ⟨task, tasks, rfl⟩ := List.exists_cons_of_ne_nil hne
  obtain ⟨elements, helements, rfl⟩ := Option.map_eq_some_iff.mp hv
  obtain ⟨first, rest, -, -, rfl⟩ := allSome_cons_eq_some.mp helements
  change allSome (((first :: rest).map (JSONValue.removing removed)).mapIdx fun _ => decode) = none
  rw [List.map_cons, List.mapIdx_cons, decode_removing_eq_none hkey hremoved]
  rfl

/-- The dates of the task are finite. -/
def isEncodable (task : Task) : Bool :=
  task.dueDate.all (fun date => date.timeIntervalSince1970.isFinite) &&
    task.completedAt.all (fun date => date.timeIntervalSince1970.isFinite) &&
    task.createdAt.timeIntervalSince1970.isFinite &&
    task.updatedAt.timeIntervalSince1970.isFinite &&
    task.reminderDate.all (fun date => date.timeIntervalSince1970.isFinite) &&
    task.parentManualReopenAt.all fun date => date.timeIntervalSince1970.isFinite

/-- Only its dates can keep a task from being written. -/
theorem isSome_encode (task : Task) : (encode task).isSome = task.isEncodable := by
  have hcategories := isSome_encode_list (A := String) (fun s => rfl) task.categories
  rw [Bool.eq_iff_iff]
  refine isSome_keyed.trans ?_
  simp only [fields, List.forall_mem_cons, isSome_written, isSome_writtenIfPresent, hcategories,
    isSome_encode_date]
  simp [encode, isEncodable, and_assoc]

end Task

/-! ## Drafts -/

namespace VoiceParsedTaskDraft

/-- The fields that a draft encodes. -/
def fields (draft : VoiceParsedTaskDraft) : List Field :=
  [written "id" draft.id, written "title" draft.title, written "notes" draft.notes,
    written "categories" draft.categories, written "priority" draft.priority,
    writtenIfPresent "dueDate" draft.dueDate, written "confidenceScore" draft.confidenceScore,
    written "needsReview" draft.needsReview]

instance : JSONCodable VoiceParsedTaskDraft where
  encode draft := keyed draft.fields
  decode v := do
    some {
      id := ← v.decodeKey String "id"
      title := ← v.decodeKey String "title"
      notes := ← v.decodeKey String "notes"
      categories := ← v.decodeKey (List String) "categories"
      priority := ← v.decodeKey Priority "priority"
      dueDate := ← v.decodeIfPresent Date "dueDate"
      confidenceScore := ← v.decodeKey ℚ "confidenceScore"
      needsReview := ← v.decodeKey Bool "needsReview" }
  decode_of_encode := by
    intro draft v hv
    have hhas := has_of_keyed (by simp [fields, written, writtenIfPresent]) hv
    simp only [fields, List.forall_mem_cons] at hhas
    obtain ⟨hid, htitle, hnotes, hcategories, hpriority, hdue, hscore, hreview, -⟩ := hhas
    simp [hid.decodeKey, htitle.decodeKey, hnotes.decodeKey, hcategories.decodeKey,
      hpriority.decodeKey, hdue.decodeIfPresent, hscore.decodeKey, hreview.decodeKey]
  encode_ne_null _ := keyed_ne_null _

/-- The date of the draft is finite. -/
def isEncodable (draft : VoiceParsedTaskDraft) : Bool :=
  draft.dueDate.all fun date => date.timeIntervalSince1970.isFinite

theorem isSome_encode (draft : VoiceParsedTaskDraft) :
    (encode draft).isSome = draft.isEncodable := by
  have hcategories := isSome_encode_list (A := String) (fun s => rfl) draft.categories
  rw [Bool.eq_iff_iff]
  refine isSome_keyed.trans ?_
  simp only [fields, List.forall_mem_cons, isSome_written, isSome_writtenIfPresent, hcategories,
    isSome_encode_date]
  simp [encode, isEncodable]

end VoiceParsedTaskDraft

/-! ## The hint state -/

namespace InsightsHintState

/-- The fields that a hint state encodes. -/
def keyedFields (state : InsightsHintState) : List Field :=
  [written "showCount" state.showCount, written "dismissCount" state.dismissCount,
    writtenIfPresent "lastShownAt" state.lastShownAt,
    writtenIfPresent "lastDismissedAt" state.lastDismissedAt,
    writtenIfPresent "interactedAt" state.interactedAt, written "updatedAt" state.updatedAt]

instance : JSONCodable InsightsHintState where
  encode state := keyed state.keyedFields
  decode v := do
    some {
      showCount := ← v.decodeKey ℤ "showCount"
      dismissCount := ← v.decodeKey ℤ "dismissCount"
      lastShownAt := ← v.decodeIfPresent Date "lastShownAt"
      lastDismissedAt := ← v.decodeIfPresent Date "lastDismissedAt"
      interactedAt := ← v.decodeIfPresent Date "interactedAt"
      updatedAt := ← v.decodeKey Date "updatedAt" }
  decode_of_encode := by
    intro state v hv
    have hhas := has_of_keyed (by simp [keyedFields, written, writtenIfPresent]) hv
    simp only [keyedFields, List.forall_mem_cons] at hhas
    obtain ⟨hshow, hdismiss, hshown, hdismissed, hinteracted, hupdated, -⟩ := hhas
    simp [hshow.decodeKey, hdismiss.decodeKey, hshown.decodeIfPresent,
      hdismissed.decodeIfPresent, hinteracted.decodeIfPresent, hupdated.decodeKey]
  encode_ne_null _ := keyed_ne_null _

/-- The dates of the hint state are finite. -/
def isEncodable (state : InsightsHintState) : Bool :=
  state.lastShownAt.all (fun date => date.timeIntervalSince1970.isFinite) &&
    state.lastDismissedAt.all (fun date => date.timeIntervalSince1970.isFinite) &&
    state.interactedAt.all (fun date => date.timeIntervalSince1970.isFinite) &&
    state.updatedAt.timeIntervalSince1970.isFinite

theorem isSome_encode (state : InsightsHintState) : (encode state).isSome = state.isEncodable := by
  rw [Bool.eq_iff_iff]
  refine isSome_keyed.trans ?_
  simp only [keyedFields, List.forall_mem_cons, isSome_written, isSome_writtenIfPresent,
    isSome_encode_date]
  simp [encode, isEncodable, and_assoc]

end InsightsHintState

theorem Category.isSome_encode (c : Category) : (encode c).isSome := by
  refine isSome_keyed.mpr ?_
  simp [Category.fields, encode]

/-! ## The defaults -/

/-- What `userDefaults` has : data under some of the keys. -/
structure StoredDefaults where
  notes : Option JSONValue
  tasks : Option JSONValue
  categories : Option JSONValue
  uncategorizedPosition : Option ℤ
  experimentalFeaturesEnabled : Option Bool
  experimentalFeaturesUpdatedAt : Option Date
  insightsHintState : Option JSONValue
  voiceStagingDrafts : Option JSONValue
  voiceSourceTranscript : Option String
  backendUserId : Option String

namespace StoredDefaults

variable (d : StoredDefaults)

/-- What `load` reads. An error of the decoder leaves nothing. -/
def decoded : UserDefaults where
  notes := d.notes.bind decode
  tasks := d.tasks.bind decode
  categories := d.categories.bind decode
  uncategorizedPosition := d.uncategorizedPosition
  experimentalFeaturesEnabled := d.experimentalFeaturesEnabled
  experimentalFeaturesUpdatedAt := d.experimentalFeaturesUpdatedAt
  insightsHintState := d.insightsHintState.bind decode
  voiceStagingDrafts := d.voiceStagingDrafts.bind decode
  voiceSourceTranscript := d.voiceSourceTranscript
  backendUserId := d.backendUserId

/-- Without some of the keys of each task. -/
def removing (removed : String → Bool) : StoredDefaults :=
  { d with tasks := d.tasks.map (removingEach removed) }

end StoredDefaults

namespace UserDefaults

variable (u : UserDefaults)

/-- What is written. A value that cannot be written is not. -/
def stored : StoredDefaults where
  notes := u.notes.bind encode
  tasks := u.tasks.bind encode
  categories := u.categories.bind encode
  uncategorizedPosition := u.uncategorizedPosition
  experimentalFeaturesEnabled := u.experimentalFeaturesEnabled
  experimentalFeaturesUpdatedAt := u.experimentalFeaturesUpdatedAt
  insightsHintState := u.insightsHintState.bind encode
  voiceStagingDrafts := u.voiceStagingDrafts.bind encode
  voiceSourceTranscript := u.voiceSourceTranscript
  backendUserId := u.backendUserId

/-- All the dates in data are finite. -/
def isEncodable : Bool :=
  u.notes.all (fun notes => notes.all Note.isEncodable) &&
    u.tasks.all (fun tasks => tasks.all Task.isEncodable) &&
    u.insightsHintState.all InsightsHintState.isEncodable &&
    u.voiceStagingDrafts.all fun drafts => drafts.all VoiceParsedTaskDraft.isEncodable

/-- What is read without some of the keys of each task. -/
def removing (removed : String → Bool) : UserDefaults :=
  { u with
    tasks := u.tasks.bind fun tasks =>
      if Task.requiredKeys.any removed ∧ tasks ≠ [] then none
      else some (tasks.map (Task.removing removed)) }

variable {u}

theorem bind_decode_bind_encode {A : Type} [JSONCodable A] {a : Option A}
    (h : a.all fun a => (encode a).isSome) : (a.bind encode).bind decode = a := by
  cases a with
  | none => rfl
  | some a =>
    obtain ⟨v, hv⟩ := Option.isSome_iff_exists.mp h
    rw [Option.bind_some, hv, Option.bind_some, decode_of_encode hv]

theorem all_isSome_encode_list {A : Type} [JSONCodable A] {isEncodable : A → Bool}
    (hencode : ∀ a, (encode a).isSome = isEncodable a) {l : Option (List A)}
    (h : l.all fun l => l.all isEncodable) : l.all fun l => (encode l).isSome := by
  cases l with
  | none => rfl
  | some l =>
    refine isSome_encodeArray.mpr fun a ha => ?_
    rw [hencode a]
    exact List.all_eq_true.mp h a ha

/-- Tasks that are written without some keys are read without them, if all of these are optional,
and if there are tasks none are read otherwise. -/
theorem decode_tasks_removing {tasks : Option (List Task)}
    (h : tasks.all fun tasks => (encode tasks).isSome) (removed : String → Bool) :
    ((tasks.bind encode).map (removingEach removed)).bind decode = tasks.bind fun tasks =>
      if Task.requiredKeys.any removed ∧ tasks ≠ [] then none
      else some (tasks.map (Task.removing removed)) := by
  cases tasks with
  | none => rfl
  | some tasks =>
    obtain ⟨v, hv⟩ := Option.isSome_iff_exists.mp h
    rw [Option.bind_some, hv, Option.map_some, Option.bind_some, Option.bind_some]
    split_ifs with hlost
    · obtain ⟨key, hkey, hremoved⟩ := List.any_eq_true.mp hlost.1
      exact Task.decode_list_eq_none hlost.2 hv hkey hremoved
    · by_cases hempty : tasks = []
      · subst hempty
        obtain rfl := Option.some_inj.mp hv
        rfl
      · have hkept : ∀ key ∈ Task.requiredKeys, removed key = false := by
          simpa [hempty] using hlost
        exact decode_removingEach (fun task v hv => Task.decode_removing hv hkept) hv

/-- What is written with finite dates is read as it was, and what is written without some of the
keys of each task as the defaults without them. -/
theorem decoded_stored (h : u.isEncodable) :
    u.stored.decoded = u ∧
      ∀ removed, (u.stored.removing removed).decoded = u.removing removed := by
  unfold isEncodable at h
  simp only [Bool.and_eq_true, and_assoc] at h
  obtain ⟨hnotes, htasks, hhint, hdrafts⟩ := h
  have hn := bind_decode_bind_encode (all_isSome_encode_list Note.isSome_encode hnotes)
  have ht := all_isSome_encode_list Task.isSome_encode htasks
  have hd := bind_decode_bind_encode
    (all_isSome_encode_list VoiceParsedTaskDraft.isSome_encode hdrafts)
  have hh : (u.insightsHintState.bind encode).bind decode = u.insightsHintState := by
    refine bind_decode_bind_encode ?_
    simpa only [InsightsHintState.isSome_encode] using hhint
  have hc : (u.categories.bind encode).bind decode = u.categories := by
    refine bind_decode_bind_encode ?_
    cases u.categories with
    | none => rfl
    | some categories => exact isSome_encode_list Category.isSome_encode categories
  refine ⟨?_, fun removed => ?_⟩
  · unfold StoredDefaults.decoded stored
    dsimp only
    rw [hn, bind_decode_bind_encode ht, hc, hh, hd]
  · unfold StoredDefaults.decoded StoredDefaults.removing stored removing
    dsimp only
    rw [hn, decode_tasks_removing ht, hc, hh, hd]

/-- A note, and a task with a reminder. -/
def sampleStored : UserDefaults where
  notes := some [⟨"note", "Text", .seconds 3⟩]
  tasks := some [{ Task.sampleParent with reminderDate := some (.seconds 9) }]

theorem decoded_stored_sample :
    (sampleStored.stored.removing fun key => key = "reminderDate").decoded =
        { sampleStored with tasks := some [Task.sampleParent] } ∧
      (sampleStored.stored.removing fun key => key = "updatedAt").decoded.tasks = none := by
  have hread := (@decoded_stored sampleStored (by decide)).2
  rw [hread, hread]
  exact ⟨by decide, by decide⟩

end UserDefaults

end Notelayer
