import Mathlib.Data.List.Induction
import Mathlib.Data.List.Perm.Basic
import Mathlib.Data.List.SplitOn
import Notelayer.Library.Characters
import Notelayer.TaskOperations

/-!
# Shared items

The share extension queues a `SharedItem` under a key of the app group. The app turns each
item of the queue into a note or into tasks, or rejects it and queues it again with the
reason. `processItems` is the loop over the queue. Each item is imported
once or queued again once, never both (`ProcessedItems.accounts_processItems`).
-/

namespace Notelayer

/-! ## The format -/

/-- What a shared item is to become. -/
inductive SharedImportDestination where
  | task
  | note
  | taskBatch
  deriving DecidableEq

/-- Whether a shared item waits for its first import or for another try. -/
inductive SharedImportStatus where
  | pending
  | failed
  deriving DecidableEq

/-- One line of a shared list. -/
structure SharedTaskDraft where
  id : String
  title : String
  notes : Option String := none
  isChecklistItem : Bool := false
  deriving DecidableEq

/-- What the share sheet writes into the queue. -/
structure SharedItem where
  id : String
  title : String
  url : Option String := none
  text : Option String := none
  sourceApp : Option String := none
  createdAt : Date
  categories : List String := []
  priority : Priority := .medium
  dueDate : Option Date := none
  reminderDate : Option Date := none
  destination : SharedImportDestination := .task
  taskDrafts : List SharedTaskDraft := []
  status : SharedImportStatus := .pending
  lastError : Option String := none
  retryCount : ℤ := 0
  importTimestamp : Date
  wasTruncated : Bool := false
  preparationDurationMs : Option ℤ := none
  deriving DecidableEq

namespace SharedItem

variable (item : SharedItem)

/-- The item as the next pass finds it. -/
def markedPending : SharedItem :=
  { item with status := .pending, lastError := none }

/-- The item after an import that failed, with the reason. -/
def markedFailed (reason : String) : SharedItem :=
  { item with status := .failed, lastError := some reason, retryCount := item.retryCount + 1 }

/-- The item without the marks of its retries. -/
def unmarked : SharedItem :=
  { item with status := .pending, lastError := none, retryCount := 0 }

@[simp] theorem unmarked_markedFailed (reason : String) :
    (item.markedFailed reason).unmarked = item.unmarked :=
  rfl

/-- `JSONEncoder` throws on a date that is not finite. -/
def isEncodable : Bool :=
  item.createdAt.timeIntervalSince1970.isFinite &&
    item.dueDate.all (fun date => date.timeIntervalSince1970.isFinite) &&
    item.reminderDate.all (fun date => date.timeIntervalSince1970.isFinite) &&
    item.importTimestamp.timeIntervalSince1970.isFinite

@[simp] theorem isEncodable_markedFailed (reason : String) :
    (item.markedFailed reason).isEncodable = item.isEncodable :=
  rfl

end SharedItem

/-- The data under the key of the queue. Items are there only if they could be encoded. -/
inductive QueueData where
  | items (items : List SharedItem) (encodable : ∀ item ∈ items, item.isEncodable = true)
  | undecodable

/-- `try? JSONEncoder().encode(items)`. -/
def encodeSharedItems (items : List SharedItem) : Option QueueData :=
  if h : ∀ item ∈ items, item.isEncodable = true then some (.items items h) else none

/-- No data, and data that is no list of items, is an empty queue. -/
def decodeSharedItems : Option QueueData → List SharedItem
  | some (.items items _) => items
  | some .undecodable => []
  | none => []

theorem isEncodable_of_mem_decodeSharedItems {queue : Option QueueData} {item : SharedItem}
    (h : item ∈ decodeSharedItems queue) : item.isEncodable = true := by
  unfold decodeSharedItems at h
  split at h
  · rename_i encodable
    exact encodable item h
  · cases h
  · cases h

theorem decode_encodeSharedItems {items : List SharedItem} {data : QueueData}
    (h : encodeSharedItems items = some data) : decodeSharedItems (some data) = items := by
  unfold encodeSharedItems at h
  split_ifs at h
  obtain rfl := Option.some_inj.mp h
  rfl

/-! ## The share extension -/

/-- What the extension read from the shared content. -/
structure ShareContentModel where
  destination : SharedImportDestination
  taskDrafts : List SharedTaskDraft
  sourceApp : Option String
  importTimestamp : Date
  wasTruncated : Bool
  preparationDurationMs : Option ℤ
  deriving DecidableEq

/-- What `saveTask` is called with, with the id and the date it draws. -/
structure ShareForm where
  title : String
  model : ShareContentModel
  url : Option String
  notes : Option String
  categories : List String
  priority : Priority
  dueDate : Option Date
  reminderDate : Option Date
  id : String
  now : Date
  deriving DecidableEq

/-- The item `saveTask` queues. `none` : it asks for a title. -/
def ShareForm.sharedItem (form : ShareForm) : Option SharedItem :=
  let trimmedTitle := trimmed form.title
  if trimmedTitle.isEmpty then none
  else
    let trimmedNotes := form.notes.map trimmed
    let trimmedURL := form.url.map trimmed
    let drafts := form.model.taskDrafts.map fun draft =>
      match trimmedNotes with
      | some trimmedNotes =>
        if ¬trimmedNotes.isEmpty ∧ (draft.notes.getD "").isEmpty then
          { draft with notes := some trimmedNotes }
        else draft
      | none => draft
    some {
      id := form.id
      title := trimmedTitle
      url := trimmedURL.filter fun url => ¬url.isEmpty
      text := trimmedNotes.filter fun text => ¬text.isEmpty
      sourceApp := form.model.sourceApp
      createdAt := form.now
      categories := form.categories
      priority := form.priority
      dueDate := form.dueDate
      reminderDate := form.reminderDate
      destination := form.model.destination
      taskDrafts := drafts
      importTimestamp := form.model.importTimestamp
      wasTruncated := form.model.wasTruncated
      preparationDurationMs := form.model.preparationDurationMs }

/-! ## From an item to notes and tasks -/

/-- What one shared item becomes. -/
structure SharedImportPayload where
  notes : List Note
  tasks : List Task
  deriving DecidableEq

/-- Why a shared item is rejected. -/
inductive SharedImportProcessingError where
  | emptyPayload
  | missingTaskTitle
  | noTaskDrafts
  deriving DecidableEq

/-- The text of an error, as it is stored in the item. -/
def SharedImportProcessingError.errorDescription : SharedImportProcessingError → String
  | emptyPayload => "Shared content was empty."
  | missingTaskTitle => "Unable to determine a task title."
  | noTaskDrafts => "No valid task items were found in the shared list."

/-- What an import draws or asks of Foundation : identifiers, the date, how dates are written, and
where a text is cut into characters. -/
structure ImportContext where
  uuid : ℕ → String
  now : Date
  formatDate : Date → String
  isBoundary : List Char → List Char → Bool

/-- `Character.isWhitespace || isNewline`, which look at the first scalar. Unlike the character set,
not the zero width space. -/
def isWhitespaceCharacter (character : List Char) : Bool :=
  character.head?.any fun c => isWhitespaceOrNewline c && c.toNat != 0x200B

namespace SharedItem

open Characters

variable (context : ImportContext) (item : SharedItem)

/-- The destination, where several drafts make a batch. -/
def resolvedDestination : SharedImportDestination :=
  if item.taskDrafts.length > 1 then .taskBatch else item.destination

/-- The title of the imported task : that of the item, or the first six words of its text. -/
def resolvedTaskTitle : String :=
  let trimmedTitle := trimmed item.title
  if ¬trimmedTitle.isEmpty then trimmedTitle
  else
    let text := trimmed (item.text.getD "")
    if text.isEmpty then ""
    else
      let words := ((characters context.isBoundary [] text.toList).splitOnP
        isWhitespaceCharacter).filter fun word => ¬word.isEmpty
      String.intercalate " " ((words.take 6).map fun word => String.ofList word.flatten)

/-- The line that says where the content came from. -/
def sharedImportAttributionLine : String :=
  let source := trimmed (item.sourceApp.getD "")
  let sourceLabel := if source.isEmpty then "Share Sheet" else source
  "Imported from " ++ sourceLabel ++ " on " ++ context.formatDate item.importTimestamp

/-- The trimmed text, if there is any. -/
def trimmedSection (text : Option String) : List String :=
  ((text.map trimmed).filter fun text => ¬text.isEmpty).toList

/-- The last sections, `joined(separator: "\n\n")` and trimmed. -/
def joinedSections (sections : List String) : String :=
  let sections := sections ++ [item.sharedImportAttributionLine context] ++
    if item.wasTruncated then ["Import truncated to 10,000 characters."] else []
  trimmed (String.intercalate "\n\n" sections)

/-- The notes of an imported task. -/
def buildImportedTaskNotes (overrideBody : Option String) : String :=
  item.joinedSections context
    (trimmedSection item.url ++ trimmedSection (overrideBody <|> item.text))

/-- The text of an imported note. -/
def buildImportedNoteText : String :=
  let trimmedTitle := trimmed item.title
  item.joinedSections context ((if ¬trimmedTitle.isEmpty then ["# " ++ trimmedTitle] else []) ++
    trimmedSection item.text ++ trimmedSection item.url)

/-- The `index`-th task of the item. -/
def importedTask (title : String) (overrideBody : Option String) (index : ℕ) : Task :=
  let notes := item.buildImportedTaskNotes context overrideBody
  Task.init {
    id := context.uuid index
    title := title
    categories := item.categories
    priority := item.priority
    dueDate := item.dueDate
    taskNotes := if notes.isEmpty then none else some notes
    createdAt := context.now
    updatedAt := context.now
    reminderDate := item.reminderDate }

/-- The drafts with a title, trimmed. -/
def titledDrafts : List SharedTaskDraft :=
  (item.taskDrafts.map fun draft => { draft with title := trimmed draft.title }).filter
    fun draft => ¬draft.title.isEmpty

/-- What the item becomes, or why it is rejected. -/
def buildSharedImportPayload : Except SharedImportProcessingError SharedImportPayload :=
  match item.resolvedDestination with
  | .note =>
    let noteText := item.buildImportedNoteText context
    if noteText.isEmpty then .error .emptyPayload
    else .ok ⟨[⟨context.uuid 0, noteText, context.now⟩], []⟩
  | .task =>
    let title := item.resolvedTaskTitle context
    if title.isEmpty then .error .missingTaskTitle
    else .ok ⟨[], [item.importedTask context title none 0]⟩
  | .taskBatch =>
    let drafts := item.titledDrafts
    if drafts.isEmpty then .error .noTaskDrafts
    else .ok ⟨[], drafts.mapIdx fun index draft =>
      item.importedTask context draft.title draft.notes index⟩

/-! ## What an item becomes -/

/-- A text with a letter in it is not empty after trimming. -/
theorem isEmpty_trimmed_eq_false {s : String} {c : Char} (hc : c ∈ s.toList)
    (h : isWhitespaceOrNewline c = false) : (trimmed s).isEmpty = false := by
  refine Bool.eq_false_iff.mpr fun hempty => ?_
  have hblank := trimmed_eq_empty_iff.mp (String.isEmpty_iff.mp hempty) c hc
  rw [h] at hblank
  cases hblank

/-- The characters of a section are characters of the joined text. -/
theorem mem_toList_intercalate {separator section_ : String} {sections : List String} {c : Char}
    (hs : section_ ∈ sections) (hc : c ∈ section_.toList) :
    c ∈ (String.intercalate separator sections).toList := by
  induction sections with
  | nil => cases hs
  | cons first sections ih =>
    cases sections with
    | nil =>
      obtain rfl := List.mem_singleton.mp hs
      rwa [String.intercalate_singleton]
    | cons second sections =>
      rw [String.intercalate_cons_cons, String.toList_append, List.mem_append]
      rcases List.mem_cons.mp hs with rfl | hs
      · exact Or.inl (by rw [String.toList_append]; exact List.mem_append_left _ hc)
      · exact Or.inr (ih hs)

theorem isEmpty_intercalate_cons {separator first : String} {c : Char} (hc : c ∈ first.toList)
    (sections : List String) :
    (String.intercalate separator (first :: sections)).isEmpty = false := by
  refine Bool.eq_false_iff.mpr fun hempty => ?_
  have hmem : c ∈ (String.intercalate separator (first :: sections)).toList :=
    mem_toList_intercalate List.mem_cons_self hc
  rw [String.isEmpty_iff.mp hempty] at hmem
  cases hmem

/-- The title or the text is not blank. -/
def hasTaskTitle : Bool :=
  ¬(trimmed item.title).isEmpty ∨ ¬(trimmed (item.text.getD "")).isEmpty

/-- A text that is not blank begins with a word. -/
theorem isEmpty_resolvedTaskTitle :
    (item.resolvedTaskTitle context).isEmpty = !item.hasTaskTitle := by
  unfold resolvedTaskTitle hasTaskTitle
  dsimp only
  split_ifs with htitle htext
  · simp [htitle, htext]
  · obtain ⟨c, l, hl⟩ : ∃ c l, (trimmed (item.text.getD "")).toList = c :: l :=
      List.exists_cons_of_ne_nil (by simpa using htext)
    have hblank : isWhitespaceOrNewline c = false :=
      (isTrimmed_toList_trimmed _).1 c (by rw [hl]; rfl)
    have hfirst : ∀ first, isWhitespaceCharacter (c :: first) = false := by
      simp [isWhitespaceCharacter, hblank]
    obtain ⟨first, others, hcharacters⟩ := exists_characters_cons context.isBoundary [] c l
    obtain ⟨word, words, hwords⟩ :=
      List.exists_cons_of_ne_nil (List.splitOnP_ne_nil isWhitespaceCharacter others)
    rw [hl, hcharacters, List.splitOnP_cons_eq_if_modifyHead, hfirst, if_neg Bool.false_ne_true,
      hwords, List.modifyHead_cons, List.filter_cons_of_pos (by simp), List.take_succ_cons,
      List.map_cons]
    have hword : c ∈ (String.ofList ((c :: first) :: word).flatten).toList := by simp
    rw [isEmpty_intercalate_cons hword]
    simp [htext]
  · simp [htitle]

/-- The item is imported as a note. -/
def importsNote : Bool :=
  item.resolvedDestination = .note

/-- The item becomes at least one task. -/
def importsTasks : Bool :=
  match item.resolvedDestination with
  | .note => false
  | .task => item.hasTaskTitle
  | .taskBatch => ¬item.titledDrafts.isEmpty

/-- The attribution is never empty, so neither is a text with it. -/
theorem isEmpty_joinedSections (sections : List String) :
    (item.joinedSections context sections).isEmpty = false := by
  have hline : 'I' ∈ (item.sharedImportAttributionLine context).toList := by
    unfold sharedImportAttributionLine
    simp only [String.toList_append, List.append_assoc]
    exact List.mem_append_left _ (by decide)
  refine isEmpty_trimmed_eq_false (mem_toList_intercalate ?_ hline) (by decide)
  simp

/-- A note is never rejected, tasks are if there is no title. -/
theorem buildSharedImportPayload_cases :
    (∃ note, item.buildSharedImportPayload context = .ok ⟨[note], []⟩ ∧
      note.id = context.uuid 0 ∧ item.importsNote = true ∧ item.importsTasks = false) ∨
    (∃ tasks, item.buildSharedImportPayload context = .ok ⟨[], tasks⟩ ∧ tasks ≠ [] ∧
      (∀ task ∈ tasks, ∃ index, task.id = context.uuid index) ∧
      item.importsNote = false ∧ item.importsTasks = true) ∨
    (∃ error, item.buildSharedImportPayload context = .error error ∧
      item.importsNote = false ∧ item.importsTasks = false) := by
  have hnote := item.isEmpty_joinedSections context
  unfold buildSharedImportPayload importsNote importsTasks
  cases item.resolvedDestination with
  | note =>
    refine Or.inl ⟨⟨context.uuid 0, item.buildImportedNoteText context, context.now⟩, ?_, rfl,
      rfl, rfl⟩
    exact if_neg (Bool.eq_false_iff.mp (hnote _))
  | task =>
    dsimp only
    split_ifs with htitle
    · rw [isEmpty_resolvedTaskTitle] at htitle
      exact Or.inr (Or.inr ⟨_, rfl, rfl, by simpa using htitle⟩)
    · rw [isEmpty_resolvedTaskTitle] at htitle
      refine Or.inr (Or.inl ⟨_, rfl, List.cons_ne_nil _ _, ?_, rfl, by simpa using htitle⟩)
      intro task ht
      obtain rfl := List.mem_singleton.mp ht
      exact ⟨0, rfl⟩
  | taskBatch =>
    dsimp only
    split_ifs with hdrafts
    · exact Or.inr (Or.inr ⟨_, rfl, rfl, by simp [hdrafts]⟩)
    · refine Or.inr (Or.inl ⟨_, rfl, ?_, ?_, rfl, by simp [hdrafts]⟩)
      · simpa using hdrafts
      · intro task ht
        obtain ⟨index, hindex, rfl⟩ := List.mem_mapIdx.mp ht
        exact ⟨index, rfl⟩

end SharedItem

/-! ## The loop over the queue -/

/-- What a pass has gathered from the items before the current one. -/
structure ProcessedItems where
  failedItems : List SharedItem := []
  importedNotes : List Note := []
  importedTasks : List Task := []
  /-- The items that became notes and tasks, with what they became. For the proofs only. -/
  imports : List (SharedItem × SharedImportPayload) := []

/-- One round of the loop. -/
def ProcessedItems.process (p : ProcessedItems) (item : ImportContext × SharedItem) :
    ProcessedItems :=
  match item.2.markedPending.buildSharedImportPayload item.1 with
  | .ok payload => { p with
      importedNotes := p.importedNotes ++ payload.notes
      importedTasks := p.importedTasks ++ payload.tasks
      imports := p.imports ++ [(item.2, payload)] }
  | .error error => { p with
      failedItems := p.failedItems ++ [item.2.markedFailed error.errorDescription] }

/-- The loop. `contexts` has what each round draws. -/
def processItems (contexts : ℕ → ImportContext) (items : List SharedItem) : ProcessedItems :=
  (items.mapIdx fun index item => (contexts index, item)).foldl ProcessedItems.process {}

namespace ProcessedItems

/-- What the loop has done with the items so far. -/
structure Accounts (contexts : ℕ → ImportContext) (items : List SharedItem)
    (p : ProcessedItems) : Prop where
  notes : p.importedNotes = p.imports.flatMap fun entry => entry.2.notes
  tasks : p.importedTasks = p.imports.flatMap fun entry => entry.2.tasks
  mem_imports : ∀ entry, entry ∈ p.imports ↔ ∃ index, items[index]? = some entry.1 ∧
    entry.1.markedPending.buildSharedImportPayload (contexts index) = .ok entry.2
  mem_failedItems : ∀ failed, failed ∈ p.failedItems ↔ ∃ (index : ℕ) (item : SharedItem)
    (error : SharedImportProcessingError), items[index]? = some item ∧
    item.markedPending.buildSharedImportPayload (contexts index) = .error error ∧
    failed = item.markedFailed error.errorDescription
  perm : ((p.imports.map Prod.fst ++ p.failedItems).map SharedItem.unmarked).Perm
    (items.map SharedItem.unmarked)

variable {contexts : ℕ → ImportContext} {items : List SharedItem} {p : ProcessedItems}

/-- What is at an index of a list with one more item. -/
theorem getElem?_concat_eq_some {A : Type} {l : List A} {a x : A} {index : ℕ} :
    (l ++ [a])[index]? = some x ↔ l[index]? = some x ∨ index = l.length ∧ a = x := by
  rcases lt_trichotomy index l.length with h | rfl | h
  · simp [List.getElem?_append_left h, h.ne]
  · simp
  · have h' : l[index]? = none := List.getElem?_eq_none h.le
    have hconcat : (l ++ [a])[index]? = none := by
      rw [List.getElem?_eq_none_iff, List.length_append, List.length_singleton]
      omega
    simp [h', hconcat, h.ne']

/-- One more item is accounted for. -/
theorem Accounts.process (h : p.Accounts contexts items) (item : SharedItem) :
    (p.process (contexts items.length, item)).Accounts contexts (items ++ [item]) := by
  unfold ProcessedItems.process
  cases hbuild : item.markedPending.buildSharedImportPayload (contexts items.length) with
  | ok payload =>
    refine ⟨by simp [h.notes], by simp [h.tasks], ?_, ?_, ?_⟩
    · rintro ⟨original, built⟩
      simp only [List.mem_append, List.mem_singleton, Prod.mk.injEq, h.mem_imports,
        getElem?_concat_eq_some]
      grind
    · intro failed
      simp only [h.mem_failedItems, getElem?_concat_eq_some]
      grind
    · have hcomm : ([item.unmarked] ++ p.failedItems.map SharedItem.unmarked).Perm
          (p.failedItems.map SharedItem.unmarked ++ [item.unmarked]) := List.perm_append_comm
      have hperm := h.perm
      simp only [List.map_append, List.map_cons, List.map_nil, List.append_assoc] at hperm ⊢
      refine (hcomm.append_left _).trans ?_
      rw [← List.append_assoc]
      exact hperm.append_right _
  | error error =>
    refine ⟨h.notes, h.tasks, ?_, ?_, ?_⟩
    · rintro ⟨original, built⟩
      simp only [h.mem_imports, getElem?_concat_eq_some]
      grind
    · intro failed
      simp only [List.mem_append, List.mem_singleton, h.mem_failedItems, getElem?_concat_eq_some]
      grind
    · have hperm := h.perm
      simp only [List.map_append, List.map_cons, List.map_nil,
        SharedItem.unmarked_markedFailed] at hperm ⊢
      rw [← List.append_assoc]
      exact hperm.append_right _

/-- The loop over the whole queue. -/
theorem accounts_processItems (contexts : ℕ → ImportContext) (items : List SharedItem) :
    (processItems contexts items).Accounts contexts items := by
  induction items using List.reverseRecOn with
  | nil =>
    refine ⟨rfl, rfl, ?_, ?_, List.Perm.nil⟩
    · simp [processItems]
    · simp [processItems]
  | append_singleton items item ih =>
    have hrun : processItems contexts (items ++ [item]) =
        (processItems contexts items).process (contexts items.length, item) := by
      simp [processItems, List.mapIdx_append]
    rw [hrun]
    exact ih.process item

end ProcessedItems

end Notelayer
