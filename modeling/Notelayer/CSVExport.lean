import Notelayer.Library.CSV
import Notelayer.Library.Replacing
import Notelayer.Models

/-!
# The export

`ManageAccountView.generateCSV` writes a line for each task. Only the title, the categories and the
notes are put between quotes. So the export is read back exactly if no id and no formatted date has
a quote, a comma or a line end, which the dates of many places have, and if each quote of the others
is a character of its own (`parse_generateCSV_iff`).
-/

namespace Notelayer

namespace ManageAccountView

open Replacing

-- where a user-perceived character begins, and `Date.formatted()` of the locale
variable (isBoundary : List Char → List Char → Bool) (formatted : Date → String)

/-! ## The code -/

/-- The text between quotes, with every quote twice. -/
def escapeCSV (text : String) : String :=
  let escaped := String.ofList
    (replacing (· == ·) isBoundary "\"".toList "\"\"".toList 0 [] text.toList)
  s!"\"{escaped}\""

/-- The line of a task. -/
def csvLine (task : Task) : String :=
  let type := "Task"
  let id := task.id
  let title := escapeCSV isBoundary task.title
  let categories := escapeCSV isBoundary ("; ".intercalate task.categories)
  let priority := task.priority.rawValue
  let dueDate := (task.dueDate.map formatted).getD ""
  let nagDate := (task.reminderDate.map formatted).getD ""
  let completedAt := (task.completedAt.map formatted).getD ""
  let createdAt := formatted task.createdAt
  let taskNotes := escapeCSV isBoundary (task.taskNotes.getD "")
  s!"{type},{id},{title},{categories},{priority},{dueDate},{nagDate},{completedAt}," ++
    s!"{createdAt},{taskNotes}\n"

/-- The header, and a line for each task. -/
def generateCSV (tasks : List Task) : String :=
  tasks.foldl (fun csv task => csv ++ csvLine isBoundary formatted task)
    "Type,ID,Title,Categories,Priority,Due Date,Nag Date,Completed At,Created At,Notes\n"

/-! ## Reading it back -/

/-- The first record. -/
def csvHeader : List String :=
  ["Type", "ID", "Title", "Categories", "Priority", "Due Date", "Nag Date", "Completed At",
    "Created At", "Notes"]

/-- The record of a task. -/
def csvRecord (task : Task) : List String :=
  ["Task", task.id, task.title, "; ".intercalate task.categories, task.priority.rawValue,
    (task.dueDate.map formatted).getD "", (task.reminderDate.map formatted).getD "",
    (task.completedAt.map formatted).getD "", formatted task.createdAt, task.taskNotes.getD ""]

/-- The text has no quote, comma or line end. -/
def IsPlain (text : String) : Prop :=
  text.toList.all CSV.isTextData

/-- Every quote of the text is a character of its own. -/
def QuotesStandAlone (text : String) : Prop :=
  StandsAlone isBoundary '"' [] text.toList

/-- The fields of the task are written so that they are read back. -/
structure ReadsBack (task : Task) : Prop where
  id : IsPlain task.id
  dates : ∀ date ∈ task.dueDate.toList ++ task.reminderDate.toList ++ task.completedAt.toList ++
    [task.createdAt], IsPlain (formatted date)
  title : QuotesStandAlone isBoundary task.title
  categories : QuotesStandAlone isBoundary ("; ".intercalate task.categories)
  taskNotes : QuotesStandAlone isBoundary (task.taskNotes.getD "")

variable {isBoundary formatted}

/-- Where the replacement takes place, it doubles quotes. -/
theorem doublesSome_replacing (before l : List Char) :
    CSV.DoublesSome l (replacing (· == ·) isBoundary ['"'] ['"', '"'] 0 before l) := by
  induction l generalizing before with
  | nil => exact .nil
  | cons c l ih =>
    rw [replacing_singleton_cons]
    simp only [beq_iff_eq]
    split_ifs with h
    · rw [← h.1]
      exact .quote (ih _)
    · exact .keep c (ih _)

/-- The replacement doubles every quote if and only if no quote is part of a longer character. -/
theorem replacing_eq_doubled_iff (before l : List Char) :
    replacing (· == ·) isBoundary ['"'] ['"', '"'] 0 before l = CSV.doubled l ↔
      StandsAlone isBoundary '"' before l := by
  induction l generalizing before with
  | nil => simp [replacing, StandsAlone]
  | cons c l ih =>
    rw [replacing_singleton_cons, standsAlone_cons, ← ih]
    simp only [beq_iff_eq]
    by_cases hc : '"' = c
    · subst hc
      simp only [true_and, forall_const, CSV.doubled_cons_quote]
      split_ifs with h
      · simp [h]
      · -- a quote that is kept is not followed by the doubled rest
        simp only [h, false_and, iff_false, List.singleton_append, List.cons.injEq, true_and]
        intro heq
        have hdoubles : CSV.DoublesSome l
            (replacing (· == ·) isBoundary ['"'] ['"', '"'] 0 (before ++ ['"']) l) :=
          doublesSome_replacing _ l
        have hends : replacing (· == ·) isBoundary ['"'] ['"', '"'] 0 (before ++ ['"']) l ++
            '"' :: [] = CSV.afterQuotes 0 l [] := by
          rw [heq]
          simp [CSV.afterQuotes]
        exact hdoubles.ne_afterQuotes (by simp) 0 hends
    · rw [if_neg fun h => hc h.1, CSV.doubled_cons_of_ne fun h => hc h.symm]
      simp [hc]

/-! ## The lines as cells -/

/-- A text that is written between quotes. -/
def escapedCell (isBoundary : List Char → List Char → Bool) (text : String) : CSV.Cell :=
  .escaped text.toList (replacing (· == ·) isBoundary ['"'] ['"', '"'] 0 [] text.toList)

/-- A cell that is written as it is. -/
def bareCell (text : String) : CSV.Cell :=
  .bare text.toList

theorem written_bareCell (text : String) : (bareCell text).written = text.toList :=
  rfl

theorem toString_self (s : String) : toString s = s :=
  rfl

theorem toList_escapeCSV (text : String) :
    (escapeCSV isBoundary text).toList = (escapedCell isBoundary text).written := by
  simp [escapeCSV, escapedCell, CSV.Cell.written, toString_self]

/-- The cells of a task. -/
def csvCells (isBoundary : List Char → List Char → Bool) (formatted : Date → String)
    (task : Task) : List CSV.Cell :=
  [bareCell "Task", bareCell task.id, escapedCell isBoundary task.title,
    escapedCell isBoundary ("; ".intercalate task.categories), bareCell task.priority.rawValue,
    bareCell ((task.dueDate.map formatted).getD ""),
    bareCell ((task.reminderDate.map formatted).getD ""),
    bareCell ((task.completedAt.map formatted).getD ""), bareCell (formatted task.createdAt),
    escapedCell isBoundary (task.taskNotes.getD "")]

theorem toList_csvLine (task : Task) :
    (csvLine isBoundary formatted task).toList = CSV.line (csvCells isBoundary formatted task) := by
  unfold csvLine
  have hcomma : ",".toList = [','] := rfl
  have hnewline : "\n".toList = ['\n'] := rfl
  simp only [toString_self, String.toList_append, toList_escapeCSV, hcomma, hnewline, csvCells,
    CSV.line, written_bareCell, List.append_assoc, List.cons_append, List.nil_append]

theorem values_csvCells (task : Task) :
    CSV.values (csvCells isBoundary formatted task) =
      (csvRecord formatted task).map String.toList := by
  rfl

/-- The exported text as lines of cells. -/
theorem toList_generateCSV (tasks : List Task) :
    (generateCSV isBoundary formatted tasks).toList =
      (csvHeader.map bareCell :: tasks.map (csvCells isBoundary formatted)).flatMap CSV.line := by
  have hfold : ∀ csv : String, (tasks.foldl (fun csv task =>
      csv ++ csvLine isBoundary formatted task) csv).toList =
        csv.toList ++ (tasks.map (csvCells isBoundary formatted)).flatMap CSV.line := by
    induction tasks with
    | nil => simp
    | cons task tasks ih =>
      intro csv
      rw [List.foldl_cons, ih, String.toList_append, toList_csvLine, List.append_assoc]
      rfl
  rw [generateCSV, hfold]
  rfl

theorem reads_bareCell_iff {text : String} : (bareCell text).Reads ↔ IsPlain text :=
  Iff.rfl

theorem reads_escapedCell_iff {text : String} :
    (escapedCell isBoundary text).Reads ↔ QuotesStandAlone isBoundary text :=
  replacing_eq_doubled_iff [] text.toList

theorem isPlain_getD_iff {date : Option Date} :
    IsPlain ((date.map formatted).getD "") ↔ ∀ d ∈ date.toList, IsPlain (formatted d) := by
  cases date with
  | none => simp [IsPlain]
  | some d => simp

theorem isPlain_rawValue (priority : Priority) : IsPlain priority.rawValue := by
  cases priority <;> (unfold IsPlain; decide)

/-- The cells of a task are read back if and only if the task reads back. -/
theorem readsBack_iff {task : Task} :
    (∀ cell ∈ csvCells isBoundary formatted task, cell.Reads) ↔
      ReadsBack isBoundary formatted task := by
  have htype : IsPlain "Task" := by
    unfold IsPlain
    decide
  simp only [csvCells, List.forall_mem_cons, reads_bareCell_iff, reads_escapedCell_iff,
    isPlain_getD_iff, isPlain_rawValue, htype, true_and]
  constructor
  · rintro ⟨hid, htitle, hcategories, hdue, hnag, hcompleted, hcreated, hnotes, -⟩
    refine ⟨hid, ?_, htitle, hcategories, hnotes⟩
    simp only [List.forall_mem_append]
    exact ⟨⟨⟨hdue, hnag⟩, hcompleted⟩, fun d hd => List.mem_singleton.mp hd ▸ hcreated⟩
  · rintro ⟨hid, hdates, htitle, hcategories, hnotes⟩
    simp only [List.forall_mem_append] at hdates
    obtain ⟨⟨⟨hdue, hnag⟩, hcompleted⟩, hcreated⟩ := hdates
    exact ⟨hid, htitle, hcategories, hdue, hnag, hcompleted,
      hcreated _ List.mem_cons_self, hnotes, by simp⟩

theorem isWritten_csvCells {task : Task} {cell : CSV.Cell}
    (h : cell ∈ csvCells isBoundary formatted task) : cell.IsWritten := by
  have hbare : ∀ text, (bareCell text).IsWritten := fun _ => trivial
  have hescaped : ∀ text, (escapedCell isBoundary text).IsWritten := fun _ =>
    doublesSome_replacing [] _
  revert cell
  simp only [csvCells, List.forall_mem_cons, hbare, hescaped, true_and]
  simp

/-- The export is read back exactly if the fields of all tasks are. -/
theorem parse_generateCSV_iff (isBoundary : List Char → List Char → Bool)
    (formatted : Date → String) (tasks : List Task) :
    CSV.parse (generateCSV isBoundary formatted tasks).toList =
        some ((csvHeader :: tasks.map (csvRecord formatted)).map fun record =>
          record.map String.toList) ↔
      ∀ task ∈ tasks, ReadsBack isBoundary formatted task := by
  have hvalues : (csvHeader :: tasks.map (csvRecord formatted)).map
      (fun record => record.map String.toList) =
        (csvHeader.map bareCell :: tasks.map (csvCells isBoundary formatted)).map CSV.values := by
    simp only [List.map_cons, List.map_map, Function.comp_def, values_csvCells]
    rfl
  have hheader : ∀ text ∈ csvHeader, IsPlain text := by
    unfold IsPlain
    decide
  rw [toList_generateCSV, hvalues, CSV.parse_lines_iff]
  · simp only [List.forall_mem_cons, List.forall_mem_map, reads_bareCell_iff, readsBack_iff]
    exact and_iff_right hheader
  · simp [csvHeader, csvCells]
  · simp only [List.forall_mem_cons, List.forall_mem_map]
    exact ⟨fun _ _ => trivial, fun _ _ _ hcell => isWritten_csvCells hcell⟩

/-- In the United States a date has a comma, and the record of a task has a field too many. -/
theorem not_parse_generateCSV :
    (CSV.parse (generateCSV (fun _ _ => true) (fun _ => "2/9/2026, 9:00 AM")
        [.sampleParent]).toList).map (List.map List.length) = some [10, 11] ∧
      CSV.parse (generateCSV (fun _ _ => true) (fun _ => "2/9/2026, 9:00 AM")
          [.sampleParent]).toList ≠
        some ((csvHeader :: [Task.sampleParent].map (csvRecord fun _ => "2/9/2026, 9:00 AM")).map
          fun record => record.map String.toList) := by
  decide +kernel

end ManageAccountView

end Notelayer
