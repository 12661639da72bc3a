import Notelayer.Patterns
import Notelayer.SharedImport
import Notelayer.SharedItemCoding

/-!
# From a shared text to the store

The extension reads a destination and drafts of tasks off the lines of a shared text
(`prepareSharedText`), `saveTask` makes an item of them, the item is written to the queue as
JSON, and the app makes a note or tasks of what it reads from there.

The two agree on every text : what a draft has for a title is trimmed and not empty, so the app
drops none of them, and there is more than one draft exactly if the destination is a list.
No item of a shared text is turned down, in any run of the two (`sharedText_imported`).
-/

namespace Notelayer

/-! ## The extension -/

/-- The parts of Foundation that read a text by its characters and their properties. -/
structure TextFoundation where
  count : String → ℕ
  /-- A user-perceived character ends where the first part does. -/
  isBoundary : List Char → List Char → Bool
  /-- `String(text.prefix(n))`. -/
  firstCharacters : ℕ → String → String
  hasPrefix : String → String → Bool
  /-- `replacingOccurrences(of:with:)`. -/
  replacingOccurrences : String → String → String → String
  /-- `\s` of a pattern. -/
  isWhiteSpace : Char → Bool
  /-- `\d` of a pattern. -/
  isDecimalDigit : Char → Bool

/-- `CharacterSet.whitespaces`. -/
def isWhitespace (c : Char) : Bool :=
  isWhitespaceOrNewline c && !isNewline c

/-- `trimmingCharacters(in: .whitespaces)`. -/
def trimmedSpaces (s : String) : String :=
  String.ofList ((s.toList.dropWhile isWhitespace).reverse.dropWhile isWhitespace).reverse

/-- `components(separatedBy: .newlines)`. -/
def lines (text : String) : List String :=
  (text.toList.splitOnP isNewline).map String.ofList

/-- What the extension makes of a shared text. -/
structure PreparedShareText where
  text : String
  title : String
  destination : SharedImportDestination
  taskDrafts : List SharedTaskDraft
  warnings : List String
  wasTruncated : Bool
  preparationDurationMs : ℤ

namespace ShareViewController

/-- The number of characters that are kept. -/
def maxShareCharacters : ℕ :=
  10000

variable (foundation : TextFoundation)

/-- `^\s*\d+[.)]\s+(.+)$`, at the start of a line. -/
def numberedRegex : List RegexPiece :=
  [.many foundation.isWhiteSpace, .some foundation.isDecimalDigit, .one (fun c => c ∈ ['.', ')']),
    .some foundation.isWhiteSpace, .group (.some RegexPiece.anyCharacter), .lineEnd]

/-- `^\s*[-*+]\s+(.+)$`. -/
def bulletRegex : List RegexPiece :=
  [.many foundation.isWhiteSpace, .one (fun c => c ∈ ['-', '*', '+']),
    .some foundation.isWhiteSpace, .group (.some RegexPiece.anyCharacter), .lineEnd]

/-- `^\s*[-*+]\s+\[(x|X| )\]\s+(.+)$`. -/
def checklistRegex : List RegexPiece :=
  [.many foundation.isWhiteSpace, .one (fun c => c ∈ ['-', '*', '+']),
    .some foundation.isWhiteSpace, .one (fun c => c = '['),
    .group (.one (fun c => c ∈ ['x', 'X', ' '])), .one (fun c => c = ']'),
    .some foundation.isWhiteSpace, .group (.some RegexPiece.anyCharacter), .lineEnd]

/-- `\[([^\]]+)\]\(([^)]+)\)`. -/
def linkPattern : List RegexPiece :=
  [.one (fun c => c = '['), .group (.some (fun c => c ≠ ']')), .one (fun c => c = ']'),
    .one (fun c => c = '('), .group (.some (fun c => c ≠ ')')), .one (fun c => c = ')')]

/-- `$1 ($2)`. -/
def linkTemplate (groups : List (List Char)) : List Char :=
  groups.getD 0 [] ++ " (".toList ++ groups.getD 1 [] ++ ")".toList

/-- The text without code marks, and with links as text and url. -/
def normalizeMarkdownForImport (text : String) : String :=
  let normalized := foundation.replacingOccurrences "```" "" text
  let normalized := foundation.replacingOccurrences "`" "" normalized
  trimmed (String.ofList (Pattern.replacingMatches linkPattern linkTemplate normalized.toList 0))

/-- One round of the loop : the draft of a line, if it has one. `id` is drawn. -/
def parseLine (id : String) (rawLine : String) : Option SharedTaskDraft :=
  let line := trimmed rawLine
  if line.isEmpty then none
  else
    let titled (isChecklistItem : Bool) (captured : String) : Option SharedTaskDraft :=
      let title := trimmed captured
      if title.isEmpty then none
      else some { id := id, title := title, isChecklistItem := isChecklistItem }
    match Pattern.capture foundation.isBoundary (checklistRegex foundation) 2 line with
    | some captured => titled true captured
    | none =>
      match Pattern.capture foundation.isBoundary (numberedRegex foundation) 1 line with
      | some captured => titled false captured
      | none =>
        (Pattern.capture foundation.isBoundary (bulletRegex foundation) 1 line).bind (titled false)

/-- The drafts of the lines that are list items. -/
def parseTaskDrafts (uuid : ℕ → String) (text : String) : List SharedTaskDraft :=
  ((lines text).mapIdx fun index rawLine => parseLine foundation (uuid index) rawLine).filterMap id

/-- The destination that the number of drafts suggests. -/
def inferredDestination (drafts : List SharedTaskDraft) : SharedImportDestination :=
  if drafts.length > 1 then .taskBatch
  else if drafts.length = 1 then .task
  else .note

/-- The first line, cut at 50 characters. -/
def generateTitleFromText (text : String) : String :=
  foundation.firstCharacters 50 ((lines text).headD text)

/-- The title that the destination suggests. -/
def inferredTitle (text : String) (destination : SharedImportDestination)
    (drafts : List SharedTaskDraft) : String :=
  match destination with
  | .taskBatch => "Imported task list"
  | .task =>
    match drafts.head? with
    | some first =>
      if ¬first.title.isEmpty then first.title else generateTitleFromText foundation text
    | none => generateTitleFromText foundation text
  | .note =>
    let headingLine := (lines text).find? fun line =>
      foundation.hasPrefix "#" (trimmedSpaces line)
    let firstHeading := headingLine.map fun line =>
      trimmed (foundation.replacingOccurrences "#" "" line)
    match firstHeading with
    | some heading =>
      if ¬heading.isEmpty then heading else generateTitleFromText foundation text
    | none => generateTitleFromText foundation text

/-- `Int(end.timeIntervalSince(start) * 1000.0)`. -/
def millisecondsBetween (start finish : Date) : ℤ :=
  match start.timeIntervalSince1970, finish.timeIntervalSince1970 with
  | .finite p, .finite q => Date.truncated ((q - p) * 1000)
  | _, _ => 0

/-- What the share sheet shows of a text. -/
def prepareSharedText (uuid : ℕ → String) (start finish : Date) (rawText : String) :
    PreparedShareText :=
  let normalizedNewlines := foundation.replacingOccurrences "\r\n" "\n" rawText
  let wasTruncated := foundation.count normalizedNewlines > maxShareCharacters
  let workingText :=
    if wasTruncated then foundation.firstCharacters maxShareCharacters normalizedNewlines
    else normalizedNewlines
  let normalizedText := normalizeMarkdownForImport foundation workingText
  let drafts := parseTaskDrafts foundation uuid normalizedText
  let destination := inferredDestination drafts
  { text := normalizedText
    title := inferredTitle foundation normalizedText destination drafts
    destination := destination
    taskDrafts := drafts
    warnings :=
      if wasTruncated then ["Long share text was truncated to 10,000 characters."] else []
    wasTruncated := wasTruncated
    preparationDurationMs := millisecondsBetween start finish }

/-- The part of `extractText` after the text is prepared. -/
def extractText (prepared : PreparedShareText) (sourceApp : Option String)
    (importTimestamp : Date) : ShareContentModel :=
  { destination := prepared.destination
    taskDrafts := prepared.taskDrafts
    sourceApp := some (sourceApp.getD "Unknown")
    importTimestamp := importTimestamp
    wasTruncated := prepared.wasTruncated
    preparationDurationMs := some prepared.preparationDurationMs }

end ShareViewController

/-! ## What the drafts of a text are -/

/-- The app keeps the draft as it is. -/
def SharedTaskDraft.IsTitled (draft : SharedTaskDraft) : Prop :=
  trimmed draft.title = draft.title ∧ draft.title.isEmpty = false

namespace ShareViewController

variable {foundation : TextFoundation}

/-- The draft of a line has a title. -/
theorem isTitled_of_parseLine {id : String} {rawLine : String} {draft : SharedTaskDraft}
    (h : parseLine foundation id rawLine = some draft) : draft.IsTitled := by
  have htitled : ∀ {isChecklistItem : Bool} {captured : String},
      (if (trimmed captured).isEmpty then none
        else some { id := id, title := trimmed captured, isChecklistItem := isChecklistItem }) =
          some draft → draft.IsTitled := by
    intro isChecklistItem captured hdraft
    split_ifs at hdraft with hempty
    obtain rfl := Option.some_inj.mp hdraft
    exact ⟨trimmed_trimmed captured, Bool.eq_false_iff.mpr hempty⟩
  unfold parseLine at h
  dsimp only at h
  split_ifs at h
  split at h
  · exact htitled h
  · split at h
    · exact htitled h
    · obtain ⟨captured, -, hdraft⟩ := Option.bind_eq_some_iff.mp h
      exact htitled hdraft

theorem isTitled_of_mem_parseTaskDrafts {uuid : ℕ → String} {text : String}
    {draft : SharedTaskDraft} (h : draft ∈ parseTaskDrafts foundation uuid text) :
    draft.IsTitled := by
  obtain ⟨parsed, hparsed, hdraft⟩ := List.mem_filterMap.mp h
  obtain ⟨index, hindex, hline⟩ := List.mem_mapIdx.mp hparsed
  rw [id_eq, ← hline] at hdraft
  exact isTitled_of_parseLine hdraft

theorem taskDrafts_extractText (prepared : PreparedShareText) (sourceApp : Option String)
    (importTimestamp : Date) :
    (extractText prepared sourceApp importTimestamp).taskDrafts = prepared.taskDrafts :=
  rfl

theorem destination_extractText (prepared : PreparedShareText) (sourceApp : Option String)
    (importTimestamp : Date) :
    (extractText prepared sourceApp importTimestamp).destination = prepared.destination :=
  rfl

variable (foundation) (uuid : ℕ → String) (start finish : Date) (rawText : String)

theorem isTitled_prepareSharedText :
    ∀ draft ∈ (prepareSharedText foundation uuid start finish rawText).taskDrafts,
      draft.IsTitled := by
  intro draft hdraft
  unfold prepareSharedText at hdraft
  dsimp only at hdraft
  exact isTitled_of_mem_parseTaskDrafts hdraft

theorem destination_prepareSharedText :
    (prepareSharedText foundation uuid start finish rawText).destination =
      inferredDestination (prepareSharedText foundation uuid start finish rawText).taskDrafts := by
  unfold prepareSharedText
  dsimp only

end ShareViewController

/-! ## What the app makes of an item -/

namespace SharedItem

theorem titledDrafts_eq {item : SharedItem} (h : ∀ draft ∈ item.taskDrafts, draft.IsTitled) :
    item.titledDrafts = item.taskDrafts := by
  have hmap : (item.taskDrafts.map fun draft => { draft with title := trimmed draft.title }) =
      item.taskDrafts := by
    refine (List.map_congr_left fun draft hdraft => ?_).trans (List.map_id _)
    rw [(h draft hdraft).1]
    rfl
  rw [titledDrafts, hmap, List.filter_eq_self]
  intro draft hdraft
  simp [(h draft hdraft).2]

/-- An item of the extension : it has a title, its drafts have titles, and its destination goes
by their number. -/
structure IsPrepared (item : SharedItem) : Prop where
  title : (trimmed item.title).isEmpty = false
  drafts : ∀ draft ∈ item.taskDrafts, draft.IsTitled
  destination : item.destination = ShareViewController.inferredDestination item.taskDrafts

/-- What an item with a destination, a title and drafts should become. -/
def Becomes (destination : SharedImportDestination) (title : String)
    (drafts : List SharedTaskDraft) (payload : SharedImportPayload) : Prop :=
  match destination with
  | .note => payload.notes.length = 1 ∧ payload.tasks = []
  | .task => payload.notes = [] ∧ payload.tasks.map Task.title = [trimmed title]
  | .taskBatch => payload.notes = [] ∧
    payload.tasks.map Task.title = drafts.map SharedTaskDraft.title

variable {item : SharedItem}

theorem isPrepared_unmarked : item.unmarked.IsPrepared ↔ item.IsPrepared :=
  ⟨fun h => ⟨h.title, h.drafts, h.destination⟩, fun h => ⟨h.title, h.drafts, h.destination⟩⟩

theorem IsPrepared.markedPending (h : item.IsPrepared) : item.markedPending.IsPrepared :=
  ⟨h.title, h.drafts, h.destination⟩

/-- The destination is not overridden. -/
theorem IsPrepared.resolvedDestination (h : item.IsPrepared) :
    item.resolvedDestination = item.destination := by
  unfold SharedItem.resolvedDestination
  split_ifs with hlength
  · rw [h.destination, ShareViewController.inferredDestination, if_pos hlength]
  · rfl

theorem IsPrepared.taskDrafts_ne_nil (h : item.IsPrepared)
    (hdestination : item.destination = .taskBatch) : item.taskDrafts ≠ [] := by
  intro hnil
  rw [h.destination, hnil] at hdestination
  cases hdestination

/-- None of the three checks turns the item down. -/
theorem IsPrepared.exists_becomes (h : item.IsPrepared) (context : ImportContext) :
    ∃ payload, item.buildSharedImportPayload context = .ok payload ∧
      Becomes item.destination item.title item.taskDrafts payload := by
  unfold buildSharedImportPayload
  rw [h.resolvedDestination]
  cases hdestination : item.destination with
  | note =>
    have hnote : (item.buildImportedNoteText context).isEmpty = false :=
      item.isEmpty_joinedSections context _
    exact ⟨_, if_neg (Bool.eq_false_iff.mp hnote), rfl, rfl⟩
  | task =>
    have htitle : item.resolvedTaskTitle context = trimmed item.title := by
      simp [resolvedTaskTitle, h.title]
    refine ⟨_, if_neg ?_, rfl, ?_⟩
    · rw [htitle, h.title]
      exact Bool.false_ne_true
    · rw [List.map_singleton, htitle]
      rfl
  | taskBatch =>
    have hdrafts := titledDrafts_eq h.drafts
    refine ⟨_, if_neg ?_, rfl, ?_⟩
    · rw [hdrafts, List.isEmpty_iff]
      exact h.taskDrafts_ne_nil hdestination
    · rw [hdrafts]
      refine List.ext_getElem (by simp) fun index _ _ => ?_
      simp [importedTask, Task.init]

end SharedItem

/-! ## Runs of the two -/

namespace SharedImport

/-- The queue has the item, marked as failed. -/
def RetainsAsFailed (item : SharedItem) (x : SharedImport) : Prop :=
  ∃ kept ∈ decodeSharedItems x.queue, kept.unmarked = item.unmarked ∧ kept.status = .failed

/-- Nowhere is the item marked as failed. -/
structure Unfailed (item : SharedItem) (x : SharedImport) : Prop where
  queue : ∀ kept ∈ decodeSharedItems x.queue, kept.unmarked = item.unmarked → kept.status ≠ .failed
  saves : ∀ entry ∈ x.saves, entry.1.status = .pending ∧
    ∀ kept ∈ entry.2, kept.unmarked = item.unmarked → kept.status ≠ .failed
  pass : ∀ processedAt items processed, x.pass = .built processedAt items processed →
    ∀ failed ∈ processed.failedItems, failed.unmarked ≠ item.unmarked

variable {item : SharedItem} {x x' : SharedImport}

theorem Unfailed.not_retainsAsFailed (h : x.Unfailed item) : ¬x.RetainsAsFailed item := by
  rintro ⟨kept, hkept, hunmarked, hstatus⟩
  exact h.queue kept hkept hunmarked hstatus

/-- Between passes and saves, that is all. -/
theorem unfailed_of_idle (hpass : x.pass = .idle) (hsaves : x.saves = [])
    (h : ¬x.RetainsAsFailed item) : x.Unfailed item where
  queue kept hkept hunmarked hstatus := h ⟨kept, hkept, hunmarked, hstatus⟩
  saves entry hentry := by
    rw [hsaves] at hentry
    cases hentry
  pass processedAt items processed hbuilt := by
    rw [hpass] at hbuilt
    cases hbuilt

/-- No round of the loop turns down an item that is prepared. -/
theorem unmarked_ne_of_mem_failedItems (h : item.IsPrepared) (contexts : ℕ → ImportContext)
    (items : List SharedItem) :
    ∀ failed ∈ (processItems contexts items).failedItems, failed.unmarked ≠ item.unmarked := by
  intro failed hfailed hunmarked
  obtain ⟨index, original, error, -, hbuild, rfl⟩ :=
    ((ProcessedItems.accounts_processItems contexts items).mem_failedItems failed).mp hfailed
  rw [SharedItem.unmarked_markedFailed] at hunmarked
  have horiginal : original.IsPrepared := by
    rw [← SharedItem.isPrepared_unmarked, hunmarked, SharedItem.isPrepared_unmarked]
    exact h
  obtain ⟨payload, hpayload, -⟩ := horiginal.markedPending.exists_becomes (contexts index)
  rw [hpayload] at hbuild
  cases hbuild

/-- A pass that has built nothing yet, or no longer writes. -/
theorem Unfailed.withPass (h : x.Unfailed item) {pass : ImportPass}
    (hpass : ∀ processedAt items processed, pass = .built processedAt items processed →
      ∀ failed ∈ processed.failedItems, failed.unmarked ≠ item.unmarked) :
    Unfailed item { x with pass := pass } :=
  ⟨h.queue, h.saves, hpass⟩

theorem status_of_sharedItem {form : ShareForm} {saved : SharedItem}
    (h : form.sharedItem = some saved) : saved.status = .pending := by
  unfold ShareForm.sharedItem at h
  dsimp only at h
  split_ifs at h
  obtain rfl := Option.some_inj.mp h
  rfl

/-- The beginning of a save makes no import fail. -/
theorem Unfailed.beginSave (h : x.Unfailed item) (form : ShareForm) :
    (x.beginSave form).Unfailed item := by
  unfold SharedImport.beginSave
  split
  · exact h
  · rename_i saved hsaved
    refine ⟨h.queue, fun entry hentry => ?_, h.pass⟩
    rcases List.mem_append.mp hentry with hentry | hentry
    · exact h.saves entry hentry
    · obtain rfl := List.mem_singleton.mp hentry
      exact ⟨status_of_sharedItem hsaved, h.queue⟩

/-- The end of a save makes no import fail. -/
theorem Unfailed.finishSave (h : x.Unfailed item) (k : ℕ) : (x.finishSave k).Unfailed item := by
  have hsaves : ∀ entry ∈ x.saves.eraseIdx k, entry ∈ x.saves := fun entry hentry =>
    List.mem_of_mem_eraseIdx hentry
  unfold SharedImport.finishSave
  split
  · exact h
  · rename_i saved items hentry
    obtain ⟨hpending, hitems⟩ := h.saves _ (List.mem_of_getElem? hentry)
    dsimp only
    split
    · rename_i data hdata
      refine ⟨?_, fun entry he => h.saves entry (hsaves entry he), h.pass⟩
      dsimp only
      rw [decode_encodeSharedItems hdata]
      intro kept hkept hunmarked
      rcases List.mem_append.mp hkept with hkept | hkept
      · exact hitems kept hkept hunmarked
      · obtain rfl := List.mem_singleton.mp hkept
        rw [hpending]
        exact nofun
    · exact ⟨h.queue, fun entry he => h.saves entry (hsaves entry he), h.pass⟩

/-- The write of a pass makes no import fail. -/
theorem Unfailed.persistSharedItems (h : x.Unfailed item) :
    x.persistSharedItems.Unfailed item := by
  unfold SharedImport.persistSharedItems
  split
  · rename_i processedAt items processed hbuilt
    have hfailed := h.pass processedAt items processed hbuilt
    refine ⟨?_, h.saves, nofun⟩
    dsimp only [persistSharedItemsForBackground]
    split_ifs with hempty
    · intro kept hkept
      cases hkept
    · split
      · exact h.queue
      · rename_i data hdata
        dsimp only
        rw [decode_encodeSharedItems hdata]
        exact fun kept hkept hunmarked => absurd hunmarked (hfailed kept hkept)
  · exact h

/-- A step of any kind. -/
theorem Unfailed.step (hitem : item.IsPrepared) (h : x.Unfailed item) {l : ImportStep}
    (hx : x.step l = some x') : x'.Unfailed item := by
  obtain rfl := Option.some_inj.mp hx
  cases l with
  | beginSave form => exact h.beginSave form
  | finishSave k => exact h.finishSave k
  | scheduleSharedImportProcessing =>
    dsimp only [scheduleSharedImportProcessing]
    split
    · exact h.withPass nofun
    · exact h
  | readQueue processedAt available =>
    dsimp only [readQueue]
    split
    · split_ifs <;> exact h.withPass nofun
    · exact h
  | buildPayloads contexts =>
    dsimp only [buildPayloads]
    split
    · rename_i processedAt items hread
      refine h.withPass fun _ _ processed hbuilt => ?_
      obtain ⟨rfl, rfl, rfl⟩ := ImportPass.built.inj hbuilt
      exact unmarked_ne_of_mem_failedItems hitem contexts items
    · exact h
  | persistSharedItems => exact h.persistSharedItems
  | applyNotes =>
    dsimp only [applyNotes]
    split
    · exact ⟨h.queue, h.saves, nofun⟩
    · exact ⟨h.queue, h.saves, nofun⟩
    · exact ⟨h.queue, h.saves, nofun⟩
    · exact h
  | applyTasks now =>
    dsimp only [applyTasks]
    split
    · exact ⟨h.queue, h.saves, nofun⟩
    · exact h

/-- The run of a prepared item. -/
theorem Unfailed.run (hitem : item.IsPrepared) (h : x.Unfailed item) {steps : List ImportStep}
    (hrun : Runs.run SharedImport.step steps x = some x') : x'.Unfailed item :=
  Runs.invariant_of_run (fun _ _ _ h hstep => Unfailed.step hitem h hstep) h hrun

end SharedImport

/-- The item of a form with titled drafts. -/
theorem ShareForm.exists_isPrepared {form : ShareForm}
    (hdrafts : ∀ draft ∈ form.model.taskDrafts, draft.IsTitled)
    (hdestination : form.model.destination =
      ShareViewController.inferredDestination form.model.taskDrafts)
    (htitle : (trimmed form.title).isEmpty = false) :
    ∃ item, form.sharedItem = some item ∧ item.IsPrepared ∧
      item.title = trimmed form.title ∧ item.destination = form.model.destination ∧
      item.taskDrafts.map SharedTaskDraft.title =
        form.model.taskDrafts.map SharedTaskDraft.title := by
  unfold ShareForm.sharedItem
  dsimp only
  rw [if_neg (Bool.eq_false_iff.mp htitle)]
  refine ⟨_, rfl, ⟨?_, ?_, ?_⟩, rfl, rfl, ?_⟩
  · rw [trimmed_trimmed]
    exact htitle
  · intro draft hdraft
    obtain ⟨prepared, hprepared, rfl⟩ := List.mem_map.mp hdraft
    obtain ⟨htrimmed, hempty⟩ := hdrafts prepared hprepared
    split
    · split_ifs <;> exact ⟨htrimmed, hempty⟩
    · exact ⟨htrimmed, hempty⟩
  · dsimp only
    rw [hdestination, ShareViewController.inferredDestination,
      ShareViewController.inferredDestination, List.length_map]
  · rw [List.map_map]
    refine List.map_congr_left fun draft _ => ?_
    dsimp only [Function.comp_apply]
    split
    · split_ifs <;> rfl
    · rfl

/-- The form of a shared text is prepared for an import. -/
theorem ShareViewController.exists_isPrepared {foundation : TextFoundation} {uuid : ℕ → String}
    {start finish importTimestamp : Date} {rawText : String} {sourceApp : Option String}
    {form : ShareForm}
    (hmodel : form.model = extractText (prepareSharedText foundation uuid start finish rawText)
      sourceApp importTimestamp)
    (htitle : (trimmed form.title).isEmpty = false) :
    ∃ item, form.sharedItem = some item ∧ item.IsPrepared ∧
      item.title = trimmed form.title ∧ item.destination = form.model.destination ∧
      item.taskDrafts.map SharedTaskDraft.title =
        form.model.taskDrafts.map SharedTaskDraft.title := by
  refine ShareForm.exists_isPrepared ?_ ?_ htitle
  · rw [hmodel, taskDrafts_extractText]
    exact isTitled_prepareSharedText foundation uuid start finish rawText
  · rw [hmodel, taskDrafts_extractText, destination_extractText]
    exact destination_prepareSharedText foundation uuid start finish rawText

open ShareViewController in
/-- For every shared text and every form with a title : what `saveTask` queues is written and
read back as JSON, becomes one note, one task, or one task for each draft, as the destination
says, and is never kept in the queue as failed. -/
theorem sharedText_imported (foundation : TextFoundation) (uuid : ℕ → String)
    (start finish importTimestamp : Date) (rawText : String) (sourceApp : Option String)
    (form : ShareForm)
    (hmodel : form.model = extractText (prepareSharedText foundation uuid start finish rawText)
      sourceApp importTimestamp)
    (htitle : (trimmed form.title).isEmpty = false) :
    ∃ item, form.sharedItem = some item ∧
      ∀ (queued : List SharedItem) (data : JSONValue), encodeItems (queued ++ [item]) = some data →
        ∀ (drawn : ℕ → String) (now : ℕ → Date), ∃ decoded,
          decodeItems drawn now data = some (queued ++ [decoded]) ∧
          (∀ context, ∃ payload,
            decoded.markedPending.buildSharedImportPayload context = .ok payload ∧
            SharedItem.Becomes form.model.destination form.title form.model.taskDrafts payload) ∧
          ∀ (steps : List ImportStep) (x x' : SharedImport), x.pass = .idle → x.saves = [] →
            ¬x.RetainsAsFailed decoded → Runs.run SharedImport.step steps x = some x' →
            ¬x'.RetainsAsFailed decoded := by
  obtain ⟨item, hitem, hprepared, htrimmed, hdestination, hdrafts⟩ :=
    exists_isPrepared hmodel htitle
  refine ⟨item, hitem, fun queued data hdata drawn now =>
    ⟨item, decodeItems_of_encodeItems hdata drawn now, fun context => ?_, ?_⟩⟩
  · obtain ⟨payload, hpayload, hbecomes⟩ := hprepared.markedPending.exists_becomes context
    refine ⟨payload, hpayload, ?_⟩
    change SharedItem.Becomes item.destination item.title item.taskDrafts payload at hbecomes
    rw [hdestination, htrimmed] at hbecomes
    unfold SharedItem.Becomes at hbecomes ⊢
    rwa [trimmed_trimmed, hdrafts] at hbecomes
  · intro steps x x' hpass hsaves hretains hrun
    have hunfailed := SharedImport.unfailed_of_idle hpass hsaves hretains
    exact (hunfailed.run hprepared hrun).not_retainsAsFailed

/-- Foundation on texts in ASCII without control characters but the end of a line. -/
def asciiFoundation : TextFoundation where
  count s := s.length
  isBoundary before l := !(before.getLast? == some '\r' && l.head? == some '\n')
  firstCharacters n s := String.ofList (s.toList.take n)
  hasPrefix start s := start.toList.isPrefixOf s.toList
  replacingOccurrences target replacement s :=
    String.ofList (Pattern.replacingMatches (target.toList.map fun c => .one fun d => d = c)
      (fun _ => replacement.toList) s.toList 0)
  isWhiteSpace c := c ∈ [' ', '\t', '\n', '\r']
  isDecimalDigit := Char.isDigit

open ShareViewController in
/-- A checklist item and a numbered line. -/
def listForm : ShareForm where
  title := " Groceries"
  model := extractText
    (prepareSharedText asciiFoundation (fun index => (index.repr)) (.seconds 0) (.seconds 1)
      "To buy:\r\n- [x] Milk\n2. `Eggs`") none (.seconds 2)
  url := none
  notes := some "From the kitchen"
  categories := ["home"]
  priority := .high
  dueDate := some (.seconds 3)
  reminderDate := none
  id := "item"
  now := .seconds 2

theorem sharedText_imported_list : ∃ item data decoded,
    listForm.sharedItem = some item ∧ encodeItems [item] = some data ∧
    decodeItems (fun _ => "drawn") (fun _ => .seconds 4) data = some [decoded] ∧
    ∀ context, ∃ payload,
      decoded.markedPending.buildSharedImportPayload context = .ok payload ∧
      payload.notes = [] ∧ payload.tasks.map Task.title = ["Milk", "Eggs"] := by
  have hencodable : listForm.sharedItem.all SharedItem.isEncodable = true := by decide +kernel
  have hdestination : listForm.model.destination = .taskBatch := by decide +kernel
  have hdrafts : listForm.model.taskDrafts.map SharedTaskDraft.title = ["Milk", "Eggs"] := by
    decide +kernel
  obtain ⟨item, hitem, himported⟩ := sharedText_imported asciiFoundation _ _ _ _ _ _ listForm rfl
    (by decide +kernel)
  rw [hitem] at hencodable
  have hdata : (encodeItems [item]).isSome := by
    rw [isSome_encodeItems, encodeSharedItems, dif_pos (by simpa using hencodable)]
    rfl
  obtain ⟨data, hdata⟩ := Option.isSome_iff_exists.mp hdata
  obtain ⟨decoded, hdecoded, hbecomes, -⟩ := himported [] data hdata (fun _ => "drawn")
    fun _ => .seconds 4
  refine ⟨item, data, decoded, hitem, hdata, hdecoded, fun context => ?_⟩
  obtain ⟨payload, hpayload, hpayload'⟩ := hbecomes context
  rw [hdestination] at hpayload'
  unfold SharedItem.Becomes at hpayload'
  rw [hdrafts] at hpayload'
  exact ⟨payload, hpayload, hpayload'⟩

end Notelayer
