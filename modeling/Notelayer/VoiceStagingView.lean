import Notelayer.Library.Ledger
import Notelayer.Reload
import Notelayer.VoiceTaskParser

/-!
# The voice preview

Parsed drafts are staged in the store until they are confirmed. `VoiceStagingView` edits a copy
of them and hands every change back to the store, which persists it. A confirmed draft becomes a
task, and leaves the copy.

`VoiceStagingEvent.moves` is what an event of the view takes in and lets out.
`VoiceStagingView.InStep` is kept by every event : the copy is what the store has staged, and that
is what was persisted.
-/

namespace Notelayer

open Ledger

/-! ## The store -/

namespace LocalStore

variable (s : LocalStore)

/-- Stages the drafts of a transcript. -/
def stageVoiceDrafts (drafts : List VoiceParsedTaskDraft) (transcript : String) : LocalStore :=
  { s with
    voiceStagingDrafts := drafts
    voiceSourceTranscript := transcript
    isVoiceStagingPresented := !drafts.isEmpty }.saveVoiceStaging

/-- Replaces the staged drafts. -/
def updateVoiceStagingDrafts (drafts : List VoiceParsedTaskDraft) : LocalStore :=
  { s with
    voiceStagingDrafts := drafts
    isVoiceStagingPresented := !drafts.isEmpty }.saveVoiceStaging

/-- Stages nothing. -/
def clearVoiceStaging : LocalStore :=
  { s with
    voiceStagingDrafts := []
    voiceSourceTranscript := ""
    isVoiceStagingPresented := false }.saveVoiceStaging

/-- What is staged is persisted, with its transcript, and presented. -/
structure Staged : Prop where
  drafts : s.userDefaults.voiceStagingDrafts.getD [] = s.voiceStagingDrafts
  transcript : s.voiceStagingDrafts ≠ [] →
    s.userDefaults.voiceSourceTranscript.getD "" = s.voiceSourceTranscript
  presented : s.isVoiceStagingPresented = !s.voiceStagingDrafts.isEmpty

variable {s} {s' : LocalStore}

theorem staged_saveVoiceStaging
    (h : s.isVoiceStagingPresented = !s.voiceStagingDrafts.isEmpty) :
    s.saveVoiceStaging.Staged := by
  unfold saveVoiceStaging
  split_ifs with hempty
  · rw [List.isEmpty_iff] at hempty
    exact ⟨hempty.symm, fun hne => absurd hempty hne, h⟩
  · exact ⟨rfl, fun _ => rfl, h⟩

@[simp] theorem voiceStagingDrafts_saveVoiceStaging :
    s.saveVoiceStaging.voiceStagingDrafts = s.voiceStagingDrafts := by
  unfold saveVoiceStaging
  split <;> rfl

@[simp] theorem tasks_saveVoiceStaging : s.saveVoiceStaging.tasks = s.tasks := by
  unfold saveVoiceStaging
  split <;> rfl

@[simp] theorem spawned_saveVoiceStaging : s.saveVoiceStaging.spawned = s.spawned := by
  unfold saveVoiceStaging
  split <;> rfl

@[simp] theorem syncingBackend_saveVoiceStaging :
    s.saveVoiceStaging.syncingBackend = s.syncingBackend := by
  unfold saveVoiceStaging
  split <;> rfl

@[simp] theorem preference_saveVoiceStaging :
    s.saveVoiceStaging.experimentalFeaturesPreference = s.experimentalFeaturesPreference := by
  unfold saveVoiceStaging
  split <;> rfl

theorem staged_stageVoiceDrafts (drafts : List VoiceParsedTaskDraft) (transcript : String) :
    (s.stageVoiceDrafts drafts transcript).Staged :=
  staged_saveVoiceStaging rfl

theorem staged_updateVoiceStagingDrafts (drafts : List VoiceParsedTaskDraft) :
    (s.updateVoiceStagingDrafts drafts).Staged :=
  staged_saveVoiceStaging rfl

theorem staged_clearVoiceStaging : s.clearVoiceStaging.Staged :=
  staged_saveVoiceStaging rfl

/-- A launch finds what was staged. -/
theorem Staged.load (h : s.Staged) :
    (load s.userDefaults).voiceStagingDrafts = s.voiceStagingDrafts ∧
      (s.voiceStagingDrafts ≠ [] →
        (load s.userDefaults).voiceSourceTranscript = s.voiceSourceTranscript) :=
  ⟨h.drafts, h.transcript⟩

end LocalStore

/-! ## Drafts -/

/-- `drafts.remove(atOffsets:)`. -/
def removedAtOffsets {A : Type} (l : List A) (offsets : List ℕ) : Option (List A) :=
  if offsets.all (· < l.length) then
    some ((l.zipIdx.filter fun entry => entry.2 ∉ offsets).map Prod.fst)
  else none

/-- `drafts.move(fromOffsets:toOffset:)`. -/
def movedFromOffsets {A : Type} (l : List A) (source : List ℕ) (destination : ℕ) :
    Option (List A) :=
  if source.all (· < l.length) ∧ destination ≤ l.length then
    let moved := l.zipIdx.filter fun entry => entry.2 ∈ source
    let others := l.zipIdx.filter fun entry => entry.2 ∉ source
    some ((others.filter (fun entry => entry.2 < destination) ++ moved ++
      others.filter fun entry => ¬entry.2 < destination).map Prod.fst)
  else none

/-- What the controls of one draft set. -/
inductive DraftEdit where
  | title (newValue : String)
  | notes (newValue : String)
  | priority (newValue : Priority)
  | hasDate (hasDate : Bool)
  | dueDate (newDate : Date)
  /-- A tap on the chip of a category. -/
  | categoryChip (id : String)

/-- The draft after an edit. -/
def DraftEdit.apply (calendar : Calendar) (now : Date) (draft : VoiceParsedTaskDraft) :
    DraftEdit → VoiceParsedTaskDraft
  | title newValue => { draft with title := newValue }
  | notes newValue => { draft with notes := newValue }
  | priority newValue => { draft with priority := newValue }
  | hasDate true =>
    { draft with dueDate := some (draft.dueDate.getD (calendar.startOfDay now)) }
  | hasDate false => { draft with dueDate := none }
  | dueDate newDate => { draft with dueDate := some newDate }
  | categoryChip id =>
    let categories :=
      if id ∈ draft.categories then draft.categories.filter (· ≠ id) else draft.categories ++ [id]
    { draft with categories := categories.insertionSort (· ≤ ·) }

@[simp] theorem DraftEdit.id_apply (calendar : Calendar) (now : Date)
    (draft : VoiceParsedTaskDraft) (edit : DraftEdit) :
    (edit.apply calendar now draft).id = draft.id := by
  unfold DraftEdit.apply
  split <;> rfl

/-- The title is not blank. -/
def VoiceParsedTaskDraft.isTitled (draft : VoiceParsedTaskDraft) : Bool :=
  ¬(trimmed draft.title).isEmpty

/-- The task that `persistDraft` makes. -/
def VoiceParsedTaskDraft.task (draft : VoiceParsedTaskDraft) (id : String) (now : Date) : Task :=
  let notes := trimmed draft.notes
  Task.init {
    id := id
    title := trimmed draft.title
    categories := draft.categories
    priority := draft.priority
    dueDate := draft.dueDate
    taskNotes := if notes.isEmpty then none else some notes
    createdAt := now
    updatedAt := now }

/-- Makes a task of the draft. -/
def LocalStore.persistDraft (s : LocalStore) (draft : VoiceParsedTaskDraft) (id : String)
    (now : Date) : LocalStore :=
  (s.addTask (draft.task id now) now).1

/-- `drafts.forEach(persistDraft(_:))`, with the id and the instant of each new task. -/
def LocalStore.persistDrafts (s : LocalStore) (drafts : List VoiceParsedTaskDraft)
    (stamps : ℕ → String × Date) : LocalStore :=
  drafts.zipIdx.foldl (fun s entry =>
    s.persistDraft entry.1 (stamps entry.2).1 (stamps entry.2).2) s

/-! ## The view -/

/-- What the view holds. -/
structure StagingSheet where
  drafts : List VoiceParsedTaskDraft
  showDiscardPrompt : Bool := false
  showValidationAlert : Bool := false
  deriving DecidableEq

/-- The view with the store. -/
structure VoiceStagingView extends StagingSheet where
  store : LocalStore

namespace VoiceStagingView

variable (v : VoiceStagingView)

/-- Every draft has a title. -/
def validate (drafts : List VoiceParsedTaskDraft) : Bool :=
  drafts.all VoiceParsedTaskDraft.isTitled

/-- The store gets the drafts of the view. -/
def syncDraftsToStore : VoiceStagingView :=
  { v with store := v.store.updateVoiceStagingDrafts v.drafts }

/-- The drafts are replaced and synced. -/
def withDrafts (drafts : List VoiceParsedTaskDraft) : VoiceStagingView :=
  { v with drafts := drafts }.syncDraftsToStore

/-- `dismiss()`, which sets the binding of the sheet. -/
def dismiss : VoiceStagingView :=
  { v with store := { v.store with isVoiceStagingPresented := false } }

/-- Clears the store and closes the sheet. -/
def clearAndDismiss : VoiceStagingView :=
  { v with store := v.store.clearVoiceStaging }.dismiss

/-- Appends an empty draft. -/
def addDraft (id : String) : VoiceStagingView :=
  v.withDrafts (v.drafts ++ [⟨id, "", "", [], .medium, none, 1, false⟩])

/-- Makes a task of one draft, unless it has no title. -/
def saveSingleDraft (index : ℕ) (id : String) (now : Date) : VoiceStagingView :=
  match v.drafts[index]? with
  | none => v
  | some draft =>
    if ¬validate [draft] then { v with showValidationAlert := true }
    else
      let v := { v with store := v.store.persistDraft draft id now }
      let v := v.withDrafts (v.drafts.eraseIdx index)
      if v.drafts.isEmpty then v.clearAndDismiss else v

/-- Makes tasks of all drafts, unless one has no title. -/
def saveAllDrafts (stamps : ℕ → String × Date) : VoiceStagingView :=
  if ¬validate v.drafts then { v with showValidationAlert := true }
  else { v with store := v.store.persistDrafts v.drafts stamps, drafts := [] }.clearAndDismiss

end VoiceStagingView

/-- What the user does on the sheet. -/
inductive VoiceStagingEvent where
  | onDelete (offsets : List ℕ)
  | onMove (source : List ℕ) (destination : ℕ)
  | edit (index : ℕ) (change : DraftEdit)
  | addDraft (id : String)
  | saveSingleDraft (index : ℕ) (id : String)
  | saveAllDrafts (stamps : ℕ → String × Date)
  | cancel
  | continueEditing
  | discard
  | dismissAlert

namespace VoiceStagingEvent

open VoiceStagingView

/-- Whether the control of the event is there and enabled. An alert covers the list. -/
def IsAvailable (v : VoiceStagingView) : VoiceStagingEvent → Prop
  | continueEditing => v.showDiscardPrompt = true
  | discard => v.showDiscardPrompt = true
  | dismissAlert => v.showValidationAlert = true
  | event => v.showDiscardPrompt = false ∧ v.showValidationAlert = false ∧
    match event with
    | saveSingleDraft index _ => ∀ draft ∈ v.drafts[index]?, draft.isTitled = true
    | saveAllDrafts _ => v.drafts ≠ []
    | _ => True

instance (v : VoiceStagingView) (event : VoiceStagingEvent) : Decidable (event.IsAvailable v) := by
  unfold IsAvailable
  cases event <;> infer_instance

/-- Handle an event at the instant `e.1`. `none` is a trap, on an index that is not there. -/
def step (calendar : Calendar) (e : Date × VoiceStagingEvent) (v : VoiceStagingView) :
    Option VoiceStagingView :=
  match e.2 with
  | onDelete offsets => (removedAtOffsets v.drafts offsets).map v.withDrafts
  | onMove source destination =>
    (movedFromOffsets v.drafts source destination).map v.withDrafts
  | edit index change => v.drafts[index]?.map fun draft =>
      v.withDrafts (v.drafts.set index (change.apply calendar e.1 draft))
  | addDraft id => some (v.addDraft id)
  | saveSingleDraft index id => some (v.saveSingleDraft index id e.1)
  | saveAllDrafts stamps => some (v.saveAllDrafts stamps)
  | cancel =>
    if v.drafts.isEmpty then some v.clearAndDismiss else some { v with showDiscardPrompt := true }
  | continueEditing => some { v with showDiscardPrompt := false }
  | discard => some { v.clearAndDismiss with showDiscardPrompt := false }
  | dismissAlert => some { v with showValidationAlert := false }

/-- The drafts that an event takes in and lets out. -/
def moves (e : Date × VoiceStagingEvent) (v : VoiceStagingView) : Moves VoiceParsedTaskDraft :=
  match e.2 with
  | onDelete offsets =>
    { dropped := (v.drafts.zipIdx.filter fun entry => entry.2 ∈ offsets).map Prod.fst }
  | addDraft id => { entered := [⟨id, "", "", [], .medium, none, 1, false⟩] }
  | saveSingleDraft index _ => { delivered := v.drafts[index]?.toList }
  | saveAllDrafts _ => if validate v.drafts then { delivered := v.drafts } else {}
  | discard => { dropped := v.drafts }
  | _ => {}

/-- The tasks that an event makes. -/
def madeTasks (e : Date × VoiceStagingEvent) (v : VoiceStagingView) : List Task :=
  match e.2 with
  | saveSingleDraft index id => v.drafts[index]?.toList.map fun draft => draft.task id e.1
  | saveAllDrafts stamps =>
    if validate v.drafts then
      v.drafts.zipIdx.map fun entry => entry.1.task (stamps entry.2).1 (stamps entry.2).2
    else []
  | _ => []

end VoiceStagingEvent

/-! ## Adding tasks -/

/-- Tasks are added and uploaded, and nothing else changes but what is staged, saved and logged. -/
structure LocalStore.Adds (s s' : LocalStore) (added : List Task) : Prop where
  tasks : s'.tasks = s.tasks ++ added
  spawned : s'.spawned = s.spawned ++
    added.flatMap fun t => (s.syncingBackend.map (.upsertTask · t)).toList
  syncingBackend : s'.syncingBackend = s.syncingBackend
  notes : s'.notes = s.notes
  categories : s'.categories = s.categories
  preference : s'.experimentalFeaturesPreference = s.experimentalFeaturesPreference

namespace LocalStore

variable {s s' s'' : LocalStore} {added added' : List Task}

theorem Adds.refl (s : LocalStore) : s.Adds s [] :=
  ⟨(List.append_nil _).symm, (List.append_nil _).symm, rfl, rfl, rfl, rfl⟩

theorem Adds.trans (h : s.Adds s' added) (h' : s'.Adds s'' added') :
    s.Adds s'' (added ++ added') := by
  refine ⟨?_, ?_, h'.syncingBackend.trans h.syncingBackend, h'.notes.trans h.notes,
    h'.categories.trans h.categories, h'.preference.trans h.preference⟩
  · rw [h'.tasks, h.tasks, List.append_assoc]
  · rw [h'.spawned, h.spawned, h.syncingBackend, List.flatMap_append, List.append_assoc]

theorem Adds.foldl {A : Type} {f : LocalStore → A → LocalStore} {task : A → Task}
    (hf : ∀ (s : LocalStore) a, s.Adds (f s a) [task a]) (l : List A) :
    s.Adds (l.foldl f s) (l.map task) := by
  induction l generalizing s with
  | nil => exact .refl s
  | cons a l ih => exact (hf s a).trans ih

theorem adds_saveVoiceStaging (s : LocalStore) : s.Adds s.saveVoiceStaging [] := by
  unfold saveVoiceStaging
  split
  · exact { Adds.refl s with }
  · exact { Adds.refl s with }

theorem adds_updateVoiceStagingDrafts (s : LocalStore) (drafts : List VoiceParsedTaskDraft) :
    s.Adds (s.updateVoiceStagingDrafts drafts) [] :=
  { adds_saveVoiceStaging { s with
      voiceStagingDrafts := drafts
      isVoiceStagingPresented := !drafts.isEmpty } with }

theorem adds_stageVoiceDrafts (s : LocalStore) (drafts : List VoiceParsedTaskDraft)
    (transcript : String) : s.Adds (s.stageVoiceDrafts drafts transcript) [] :=
  { adds_saveVoiceStaging { s with
      voiceStagingDrafts := drafts
      voiceSourceTranscript := transcript
      isVoiceStagingPresented := !drafts.isEmpty } with }

theorem adds_clearVoiceStaging (s : LocalStore) : s.Adds s.clearVoiceStaging [] :=
  { adds_saveVoiceStaging { s with
      voiceStagingDrafts := []
      voiceSourceTranscript := ""
      isVoiceStagingPresented := false } with }

/-- A new top-level task. -/
theorem adds_addTask (s : LocalStore) {task : Task} (horder : task.orderIndex.isSome)
    (hparent : task.parentTaskId = none) (hreopen : task.parentManualReopenAt = none)
    (now : Date) : s.Adds (s.addTask task now).1 [task] := by
  obtain ⟨order, horder⟩ := Option.isSome_iff_exists.mp horder
  have hnew : (task.ordered now.milliseconds).attached s.tasks = task := by
    obtain ⟨⟩ := task
    simp_all [Task.ordered, Task.attached]
  unfold addTask
  dsimp only
  rw [hnew, hparent, reconcileParent]
  refine ⟨by simp, by simp, ?_, ?_, ?_, ?_⟩
  · simp
  · unfold spawnSync logTaskCreatedAnalytics
    split <;> split <;> rfl
  · unfold spawnSync logTaskCreatedAnalytics
    split <;> split <;> rfl
  · unfold spawnSync logTaskCreatedAnalytics
    split <;> split <;> rfl

theorem adds_persistDraft (s : LocalStore) (draft : VoiceParsedTaskDraft) (id : String)
    (now : Date) : s.Adds (s.persistDraft draft id now) [draft.task id now] :=
  s.adds_addTask rfl rfl rfl now

theorem adds_persistDrafts (s : LocalStore) (drafts : List VoiceParsedTaskDraft)
    (stamps : ℕ → String × Date) :
    s.Adds (s.persistDrafts drafts stamps)
      (drafts.zipIdx.map fun entry => entry.1.task (stamps entry.2).1 (stamps entry.2).2) :=
  Adds.foldl (fun s entry => s.adds_persistDraft entry.1 _ _) _

/-! ### What is staged stays -/

/-- What is staged and persisted as staged, and the preference. -/
def staging (s : LocalStore) : (List VoiceParsedTaskDraft × String × Bool) ×
    (Option (List VoiceParsedTaskDraft) × Option String) × ExperimentalFeaturePreference :=
  ((s.voiceStagingDrafts, s.voiceSourceTranscript, s.isVoiceStagingPresented),
    (s.userDefaults.voiceStagingDrafts, s.userDefaults.voiceSourceTranscript),
    s.experimentalFeaturesPreference)

/-- An edit of the store touches nothing that is staged. -/
theorem Edits.staging (h : s.Edits s') : s'.staging = s.staging := by
  induction h with
  | refl => rfl
  | notes _ _ ih => exact ih
  | tasks _ _ ih => exact ih
  | categories _ _ ih => exact ih
  | position _ _ ih => exact ih
  | logEvent _ _ _ ih => exact ih
  | spawn _ _ ih => exact ih
  | spawnSync _ _ ih =>
    refine Eq.trans ?_ ih
    unfold LocalStore.spawnSync
    split <;> rfl

theorem drafts_of_staging (h : s'.staging = s.staging) :
    s'.voiceStagingDrafts = s.voiceStagingDrafts :=
  congrArg (fun t => t.1.1) h

theorem Staged.of_staging (hs : s.Staged) (h : s'.staging = s.staging) : s'.Staged := by
  simp only [LocalStore.staging, Prod.mk.injEq] at h
  obtain ⟨⟨hdrafts, htranscript, hpresented⟩, ⟨hsaved, hsaved'⟩, -⟩ := h
  exact ⟨by rw [hsaved, hdrafts, hs.drafts],
    by rw [hsaved', hdrafts, htranscript]; exact hs.transcript,
    by rw [hpresented, hdrafts, hs.presented]⟩

theorem edits_persistDraft (draft : VoiceParsedTaskDraft) (id : String) (now : Date) :
    s.Edits (s.persistDraft draft id now) :=
  Edits.refl.addTask _ now

theorem edits_persistDrafts (drafts : List VoiceParsedTaskDraft) (stamps : ℕ → String × Date) :
    s.Edits (s.persistDrafts drafts stamps) :=
  Edits.foldl (fun _ _ h => h.addTask _ _) _ .refl

end LocalStore

/-! ## Lists of drafts -/

section Lists

variable {A B : Type} {l l' : List A}

theorem perm_removedAtOffsets {offsets : List ℕ} (h : removedAtOffsets l offsets = some l') :
    l.Perm (l' ++ (l.zipIdx.filter fun entry => entry.2 ∈ offsets).map Prod.fst) := by
  unfold removedAtOffsets at h
  split_ifs at h
  obtain rfl := Option.some_inj.mp h
  rw [← List.map_append]
  have hperm := List.filter_append_perm (fun entry : A × ℕ => decide (entry.2 ∉ offsets)) l.zipIdx
  simp only [← decide_not, not_not] at hperm
  have hmap := (hperm.map Prod.fst).symm
  rwa [List.zipIdx_map_fst] at hmap

/-- A move permutes the drafts. -/
theorem perm_movedFromOffsets {source : List ℕ} {destination : ℕ}
    (h : movedFromOffsets l source destination = some l') : l'.Perm l := by
  unfold movedFromOffsets at h
  split_ifs at h
  obtain rfl := Option.some_inj.mp h
  have hothers := List.filter_append_perm (fun entry : A × ℕ => decide (entry.2 < destination))
    (l.zipIdx.filter fun entry => entry.2 ∉ source)
  have hall := List.filter_append_perm (fun entry : A × ℕ => decide (entry.2 ∈ source)) l.zipIdx
  have hzip := hall.map Prod.fst
  rw [List.zipIdx_map_fst] at hzip
  refine List.Perm.trans (List.Perm.map Prod.fst ?_) hzip
  simp only [decide_not] at hothers ⊢
  rw [List.append_assoc]
  refine (List.perm_append_comm_assoc _ _ _).trans ?_
  exact hothers.append_left _

end Lists

/-! ## Events -/

namespace VoiceStagingView

variable {v v₁ v' : VoiceStagingView} {m : Moves VoiceParsedTaskDraft} {added : List Task}

/-- The view shows what the store has staged and persisted. -/
structure InStep (v : VoiceStagingView) : Prop where
  staged : v.store.Staged
  drafts : v.drafts = v.store.voiceStagingDrafts

/-- The drafts move as told, the tasks are added, and the view stays in step as long as something
is staged. -/
structure Leads (v : VoiceStagingView) (m : Moves VoiceParsedTaskDraft) (added : List Task)
    (v' : VoiceStagingView) : Prop where
  staged : v'.store.Staged
  drafts : v'.store.voiceStagingDrafts ≠ [] → v'.drafts = v'.store.voiceStagingDrafts
  balanced : Ledger.Balanced VoiceParsedTaskDraft.id v.drafts m v'.store.voiceStagingDrafts
  adds : v.store.Adds v'.store added

/-- New drafts for the view and the store. -/
theorem leads_withDrafts (h : v.store.Adds v₁.store added) {drafts : List VoiceParsedTaskDraft}
    (hm : Ledger.Balanced VoiceParsedTaskDraft.id v.drafts m drafts) :
    v.Leads m added (v₁.withDrafts drafts) := by
  have hstore : (v₁.withDrafts drafts).store = v₁.store.updateVoiceStagingDrafts drafts := rfl
  have hstaged : (v₁.withDrafts drafts).store.voiceStagingDrafts = drafts := by
    rw [hstore, LocalStore.updateVoiceStagingDrafts, LocalStore.voiceStagingDrafts_saveVoiceStaging]
  refine ⟨?_, fun _ => hstaged.symm, by rwa [hstaged], ?_⟩
  · rw [hstore]
    exact LocalStore.staged_updateVoiceStagingDrafts drafts
  · rw [hstore, ← List.append_nil added]
    exact h.trans (v₁.store.adds_updateVoiceStagingDrafts drafts)

/-- Nothing is staged any more. -/
theorem leads_clearAndDismiss (h : v.store.Adds v₁.store added)
    (hm : Ledger.Balanced VoiceParsedTaskDraft.id v.drafts m []) :
    v.Leads m added v₁.clearAndDismiss := by
  have hdrafts : v₁.clearAndDismiss.store.voiceStagingDrafts = [] := by
    change v₁.store.clearVoiceStaging.voiceStagingDrafts = []
    rw [LocalStore.clearVoiceStaging, LocalStore.voiceStagingDrafts_saveVoiceStaging]
  have hstaged : v₁.store.clearVoiceStaging.Staged := LocalStore.staged_clearVoiceStaging
  have hadds := h.trans v₁.store.adds_clearVoiceStaging
  rw [List.append_nil] at hadds
  refine ⟨⟨hstaged.drafts, hstaged.transcript, ?_⟩, fun hne => absurd hdrafts hne,
    by rwa [hdrafts], { hadds with }⟩
  rw [hdrafts]
  rfl

/-- Only the flags change. -/
theorem InStep.leads_of_eq (h : v.InStep) (hstore : v'.store = v.store)
    (hdrafts : v'.drafts = v.drafts) : v.Leads {} [] v' := by
  refine ⟨hstore ▸ h.staged, fun _ => by rw [hdrafts, hstore, h.drafts], ?_, ?_⟩
  · rw [hstore, ← h.drafts]
    exact .refl _
  · rw [hstore]
    exact .refl _

/-- One draft becomes a task. -/
theorem InStep.leads_saveSingleDraft (h : v.InStep) {index : ℕ}
    (htitled : ∀ draft ∈ v.drafts[index]?, draft.isTitled = true) (id : String) (now : Date) :
    v.Leads { delivered := v.drafts[index]?.toList }
      (v.drafts[index]?.toList.map fun draft => draft.task id now)
      (v.saveSingleDraft index id now) := by
  unfold saveSingleDraft
  cases hget : v.drafts[index]? with
  | none => exact h.leads_of_eq rfl rfl
  | some draft =>
    obtain ⟨hlt, hdraft⟩ := List.getElem?_eq_some_iff.mp hget
    have hvalid : validate [draft] = true := by
      simpa [validate] using htitled draft hget
    have hadds := v.store.adds_persistDraft draft id now
    have hperm : v.drafts.Perm (draft :: v.drafts.eraseIdx index) := by
      rw [← hdraft]
      exact (List.getElem_cons_eraseIdx_perm hlt).symm
    have hmoves : Ledger.Balanced VoiceParsedTaskDraft.id v.drafts { delivered := [draft] }
        (v.drafts.eraseIdx index) :=
      Ledger.Balanced.deliver hperm
    dsimp only
    rw [if_neg (by simp [hvalid])]
    split_ifs with hempty
    · have hnil : v.drafts.eraseIdx index = [] := List.isEmpty_iff.mp hempty
      rw [hnil] at hmoves
      have hupdated :=
        hadds.trans (LocalStore.adds_updateVoiceStagingDrafts _ (v.drafts.eraseIdx index))
      rw [List.append_nil] at hupdated
      exact leads_clearAndDismiss hupdated hmoves
    · exact @leads_withDrafts v { v with store := v.store.persistDraft draft id now } _ _
        hadds _ hmoves

/-- All drafts become tasks. -/
theorem InStep.leads_saveAllDrafts (h : v.InStep) (stamps : ℕ → String × Date) :
    v.Leads (if validate v.drafts then { delivered := v.drafts } else {})
      (if validate v.drafts then
        v.drafts.zipIdx.map fun entry => entry.1.task (stamps entry.2).1 (stamps entry.2).2
      else []) (v.saveAllDrafts stamps) := by
  unfold saveAllDrafts
  by_cases hvalid : validate v.drafts = true
  · rw [if_pos hvalid, if_pos hvalid, if_neg (not_not.mpr hvalid)]
    exact leads_clearAndDismiss (v.store.adds_persistDrafts v.drafts stamps) (.deliver_all _)
  · rw [if_neg hvalid, if_neg hvalid, if_pos hvalid]
    exact h.leads_of_eq rfl rfl

end VoiceStagingView

open VoiceStagingView

/-- What an event does. -/
theorem VoiceStagingEvent.leads_step {calendar : Calendar} {e : Date × VoiceStagingEvent}
    {v v' : VoiceStagingView} (h : v.InStep) (ha : e.2.IsAvailable v)
    (hv : step calendar e v = some v') : v.Leads (moves e v) (madeTasks e v) v' := by
  obtain ⟨now, event⟩ := e
  have hrefl := LocalStore.Adds.refl v.store
  cases event with
  | onDelete offsets =>
    obtain ⟨drafts, hdrafts, rfl⟩ := Option.map_eq_some_iff.mp hv
    exact leads_withDrafts hrefl (.drop (perm_removedAtOffsets hdrafts))
  | onMove source destination =>
    obtain ⟨drafts, hdrafts, rfl⟩ := Option.map_eq_some_iff.mp hv
    refine leads_withDrafts hrefl ?_
    simpa [Ledger.Balanced, VoiceStagingEvent.moves] using
      ((perm_movedFromOffsets hdrafts).symm.map VoiceParsedTaskDraft.id)
  | edit index change =>
    obtain ⟨draft, hdraft, rfl⟩ := Option.map_eq_some_iff.mp hv
    obtain ⟨hlt, hget⟩ := List.getElem?_eq_some_iff.mp hdraft
    refine leads_withDrafts hrefl (.of_map_eq ?_)
    rw [List.map_set, DraftEdit.id_apply, ← hget]
    exact (congrArg _ (List.getElem_map _).symm).trans (List.set_getElem_self (by simpa using hlt))
  | addDraft id =>
    obtain rfl := Option.some_inj.mp hv
    exact leads_withDrafts hrefl (.enter _ _)
  | saveSingleDraft index id =>
    obtain rfl := Option.some_inj.mp hv
    exact h.leads_saveSingleDraft ha.2.2 id now
  | saveAllDrafts stamps =>
    obtain rfl := Option.some_inj.mp hv
    exact h.leads_saveAllDrafts stamps
  | cancel =>
    change (if v.drafts.isEmpty then some v.clearAndDismiss else _) = some v' at hv
    split_ifs at hv with hempty
    · obtain rfl := Option.some_inj.mp hv
      refine leads_clearAndDismiss hrefl ?_
      rw [List.isEmpty_iff.mp hempty]
      exact .refl _
    · obtain rfl := Option.some_inj.mp hv
      exact h.leads_of_eq rfl rfl
  | continueEditing =>
    obtain rfl := Option.some_inj.mp hv
    exact h.leads_of_eq rfl rfl
  | discard =>
    obtain rfl := Option.some_inj.mp hv
    have hl := leads_clearAndDismiss (v := v) hrefl (.drop_all _)
    exact ⟨hl.staged, hl.drafts, hl.balanced, hl.adds⟩
  | dismissAlert =>
    obtain rfl := Option.some_inj.mp hv
    exact h.leads_of_eq rfl rfl

end Notelayer
