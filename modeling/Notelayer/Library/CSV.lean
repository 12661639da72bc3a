import Mathlib.Data.List.Basic
import Mathlib.Tactic.Cases

/-!
# Comma separated values

The grammar of RFC 4180 with LF line ends : a field is written as it stands, without quotes, commas
and line ends, or between quotes with every quote in it doubled. `parse` reads a text by the grammar
(`parse_eq_some_iff`).

A writer that puts some cells between quotes and writes the others as they stand is read back
exactly if the others are free of quotes, commas and line ends, and all quotes between quotes are
doubled (`parse_lines_iff`).
-/

namespace CSV

/-- The characters of a field. -/
abbrev Value : Type :=
  List Char

/-! ## The grammar -/

/-- `TEXTDATA`. -/
def isTextData (c : Char) : Bool :=
  c ≠ '"' && c ≠ ',' && c ≠ '\r' && c ≠ '\n'

/-- Every quote twice. -/
def doubled (value : Value) : List Char :=
  value.flatMap fun c => if c = '"' then ['"', '"'] else [c]

/-- The value between quotes. -/
def quoted (value : Value) : List Char :=
  '"' :: doubled value ++ ['"']

/-- The text is a field with the value. -/
def IsField (text : List Char) (value : Value) : Prop :=
  (text = value ∧ value.all isTextData) ∨ text = quoted value

/-- Fields that are each followed by a comma, by a line end or by the end of the text. -/
inductive IsRecords : List Char → List (List Value) → Prop
  | last {text : List Char} {value : Value} : IsField text value → IsRecords text [[value]]
  | lastLine {text : List Char} {value : Value} : IsField text value →
      IsRecords (text ++ ['\n']) [[value]]
  | field {text rest : List Char} {value : Value} {values : List Value}
      {records : List (List Value)} : IsField text value → IsRecords rest (values :: records) →
      IsRecords (text ++ ',' :: rest) ((value :: values) :: records)
  | line {text rest : List Char} {value : Value} {records : List (List Value)} :
      IsField text value → rest ≠ [] → IsRecords rest records →
      IsRecords (text ++ '\n' :: rest) ([value] :: records)

/-- The text is a file with the records. -/
def IsFile (text : List Char) (records : List (List Value)) : Prop :=
  (text = [] ∧ records = []) ∨ (text ≠ [] ∧ IsRecords text records)

@[simp] theorem doubled_nil : doubled [] = [] := rfl

@[simp] theorem doubled_cons_quote (value : Value) :
    doubled ('"' :: value) = '"' :: '"' :: doubled value := rfl

theorem doubled_cons_of_ne {c : Char} (h : c ≠ '"') (value : Value) :
    doubled (c :: value) = c :: doubled value := by
  simp [doubled, h]

theorem ne_of_isTextData {c : Char} (h : isTextData c) :
    c ≠ '"' ∧ c ≠ ',' ∧ c ≠ '\r' ∧ c ≠ '\n' := by
  simpa [isTextData, and_assoc] using h

/-! ## The parser -/

/-- The rest of a field after its first quote, and of the text. -/
def readQuoted : List Char → Option (Value × List Char)
  | [] => none
  | '"' :: '"' :: text => (readQuoted text).map fun read => ('"' :: read.1, read.2)
  | '"' :: text => some ([], text)
  | c :: text => (readQuoted text).map fun read => (c :: read.1, read.2)

/-- One field and the rest of the text. -/
def readField : List Char → Option (Value × List Char)
  | '"' :: text => readQuoted text
  | text => some (text.takeWhile isTextData, text.dropWhile isTextData)

/-- The records from a field on, by what follows it. -/
def continueRecords (read : List Char → Option (List (List Value))) (value : Value) :
    List Char → Option (List (List Value))
  | [] => some [[value]]
  | ['\n'] => some [[value]]
  | '\n' :: rest => (read rest).map fun records => [value] :: records
  | ',' :: rest => (read rest).bind fun
    | values :: records => some ((value :: values) :: records)
    | [] => none
  | _ => none

/-- The records of a text, with a bound on the number of fields. -/
def readRecords : ℕ → List Char → Option (List (List Value))
  | 0, _ => none
  | bound + 1, text =>
    (readField text).bind fun read => continueRecords (readRecords bound) read.1 read.2

/-- The records of a file. -/
def parse (text : List Char) : Option (List (List Value)) :=
  if text = [] then some [] else readRecords (text.length + 1) text

/-- What follows a field : a comma, a line end, or the end of the text. -/
def IsEnd (rest : List Char) : Prop :=
  rest = [] ∨ ∃ c tail, rest = c :: tail ∧ (c = ',' ∨ c = '\n')

/-- The rest of a quoted field reads back. -/
theorem readQuoted_append (value : Value) {rest : List Char} (h : rest.head? ≠ some '"') :
    readQuoted (doubled value ++ '"' :: rest) = some (value, rest) := by
  induction value with
  | nil =>
    rcases rest with _ | ⟨c, rest⟩
    · rfl
    · have hc : c ≠ '"' := fun hc => h (by rw [hc]; rfl)
      rw [doubled_nil, List.nil_append, readQuoted]
      intro text htext
      exact hc (List.cons.inj htext).1
  | cons c value ih =>
    by_cases hc : c = '"'
    · subst hc
      rw [doubled_cons_quote, List.cons_append, List.cons_append, readQuoted, ih]
      rfl
    · rw [doubled_cons_of_ne hc, List.cons_append, readQuoted, ih]
      · rfl
      · exact fun _ hc' _ => hc hc'
      · exact fun hc' => hc hc'

/-- What is read as the rest of a quoted field was written so. -/
theorem readQuoted_sound {text rest : List Char} {value : Value}
    (h : readQuoted text = some (value, rest)) :
    text = doubled value ++ '"' :: rest ∧ rest.head? ≠ some '"' := by
  induction text using readQuoted.induct generalizing value with
  | case1 => simp [readQuoted] at h
  | case2 text ih =>
    rw [readQuoted] at h
    obtain ⟨⟨value, tail⟩, hread, heq⟩ := Option.map_eq_some_iff.mp h
    obtain ⟨rfl, rfl⟩ := Prod.mk.inj heq
    obtain ⟨rfl, hrest⟩ := ih hread
    exact ⟨rfl, hrest⟩
  | case3 text hnext =>
    rw [readQuoted.eq_3 _ hnext] at h
    obtain ⟨rfl, rfl⟩ := Prod.mk.inj (Option.some.inj h)
    refine ⟨rfl, fun hhead => ?_⟩
    obtain ⟨tail, rfl⟩ := List.head?_eq_some_iff.mp hhead
    exact hnext tail rfl
  | case4 c text hnext hquote ih =>
    rw [readQuoted.eq_4 _ _ hnext hquote] at h
    obtain ⟨⟨value, tail⟩, hread, heq⟩ := Option.map_eq_some_iff.mp h
    obtain ⟨rfl, rfl⟩ := Prod.mk.inj heq
    obtain ⟨rfl, hrest⟩ := ih hread
    exact ⟨by rw [doubled_cons_of_ne hquote]; rfl, hrest⟩

theorem IsEnd.head?_ne {rest : List Char} (h : IsEnd rest) : rest.head? ≠ some '"' := by
  rcases h with rfl | ⟨c, tail, rfl, rfl | rfl⟩ <;> simp

theorem readField_of_head?_ne {text : List Char} (h : text.head? ≠ some '"') :
    readField text = some (text.takeWhile isTextData, text.dropWhile isTextData) :=
  readField.eq_2 text fun tail htail => h (by rw [htail, List.head?_cons])

/-- A field reads back. -/
theorem readField_append {text : List Char} {value : Value} (h : IsField text value)
    {rest : List Char} (hrest : IsEnd rest) : readField (text ++ rest) = some (value, rest) := by
  rcases h with ⟨rfl, hdata⟩ | rfl
  · have hall : ∀ c ∈ text, isTextData c := List.all_eq_true.mp hdata
    have hend : rest.takeWhile isTextData = [] ∧ rest.dropWhile isTextData = rest := by
      rcases hrest with rfl | ⟨c, tail, rfl, rfl | rfl⟩ <;> simp [isTextData]
    rw [readField_of_head?_ne, List.takeWhile_append_of_pos hall, List.dropWhile_append_of_pos hall,
      hend.1, hend.2, List.append_nil]
    rcases text with _ | ⟨c, text⟩
    · exact hrest.head?_ne
    · simpa using (ne_of_isTextData (hall c List.mem_cons_self)).1
  · rw [quoted, List.append_assoc, List.cons_append, readField]
    exact readQuoted_append value hrest.head?_ne

/-- What is read as a field was written so. -/
theorem readField_sound {text rest : List Char} {value : Value}
    (h : readField text = some (value, rest)) :
    ∃ field, text = field ++ rest ∧ IsField field value := by
  by_cases hhead : text.head? = some '"'
  · obtain ⟨tail, rfl⟩ := List.head?_eq_some_iff.mp hhead
    rw [readField] at h
    obtain ⟨rfl, -⟩ := readQuoted_sound h
    exact ⟨quoted value, by simp [quoted], Or.inr rfl⟩
  · rw [readField_of_head?_ne hhead] at h
    obtain ⟨rfl, rfl⟩ := Prod.mk.inj (Option.some.inj h)
    exact ⟨_, List.takeWhile_append_dropWhile.symm, Or.inl ⟨rfl, List.all_takeWhile⟩⟩

/-! ## The parser reads the grammar -/

/-- The parser reads every text of records. -/
theorem readRecords_complete {text : List Char} {records : List (List Value)}
    (h : IsRecords text records) {bound : ℕ} (hbound : text.length < bound) :
    readRecords bound text = some records := by
  obtain ⟨bound, rfl⟩ : ∃ k, bound = k + 1 := ⟨bound - 1, by omega⟩
  rw [readRecords]
  induction h generalizing bound with
  | last hfield =>
    have hread := readField_append hfield (Or.inl rfl : IsEnd [])
    rw [List.append_nil] at hread
    rw [hread]
    rfl
  | lastLine hfield =>
    rw [readField_append hfield (Or.inr ⟨'\n', [], rfl, Or.inr rfl⟩)]
    rfl
  | @field text rest value values records hfield _ ih =>
    rw [List.length_append, List.length_cons] at hbound
    obtain ⟨bound, rfl⟩ : ∃ k, bound = k + 1 := ⟨bound - 1, by omega⟩
    rw [readField_append hfield (Or.inr ⟨',', rest, rfl, Or.inl rfl⟩), Option.bind_some,
      continueRecords, readRecords, ih bound (by omega), Option.bind_some]
  | @line text rest value records hfield hne _ ih =>
    rw [List.length_append, List.length_cons] at hbound
    obtain ⟨bound, rfl⟩ : ∃ k, bound = k + 1 := ⟨bound - 1, by omega⟩
    rw [readField_append hfield (Or.inr ⟨'\n', rest, rfl, Or.inr rfl⟩), Option.bind_some,
      continueRecords.eq_3 _ _ _ hne, readRecords, ih bound (by omega), Option.map_some]

/-- The parser reads nothing else. -/
theorem readRecords_sound {bound : ℕ} {text : List Char} {records : List (List Value)}
    (h : readRecords bound text = some records) : IsRecords text records := by
  induction bound generalizing text records with
  | zero => simp [readRecords] at h
  | succ bound ih =>
    obtain ⟨⟨value, rest⟩, hread, hcontinue⟩ := Option.bind_eq_some_iff.mp h
    obtain ⟨field, rfl, hfield⟩ := readField_sound hread
    dsimp only at hcontinue
    unfold continueRecords at hcontinue
    split at hcontinue
    · obtain rfl := Option.some.inj hcontinue
      rw [List.append_nil]
      exact .last hfield
    · obtain rfl := Option.some.inj hcontinue
      exact .lastLine hfield
    · rename_i rest hne
      obtain ⟨records, hrecords, rfl⟩ := Option.map_eq_some_iff.mp hcontinue
      exact .line hfield hne (ih hrecords)
    · obtain ⟨records, hrecords, heq⟩ := Option.bind_eq_some_iff.mp hcontinue
      rcases records with _ | ⟨values, records⟩
      · simp at heq
      · obtain rfl := Option.some.inj heq
        exact .field hfield (ih hrecords)
    · simp at hcontinue

theorem parse_eq_some_iff {text : List Char} {records : List (List Value)} :
    parse text = some records ↔ IsFile text records := by
  unfold parse IsFile
  by_cases h : text = []
  · simp [h, eq_comm]
  · rw [if_neg h]
    simp only [h, false_and, false_or, ne_eq, not_false_eq_true, true_and]
    exact ⟨readRecords_sound, fun hrecords => readRecords_complete hrecords (by omega)⟩

/-! ## Writing -/

/-- The text has every character of the value, and some of its quotes twice. -/
inductive DoublesSome : List Char → List Char → Prop
  | nil : DoublesSome [] []
  | quote {value text : List Char} : DoublesSome value text →
      DoublesSome ('"' :: value) ('"' :: '"' :: text)
  | keep {value text : List Char} (c : Char) : DoublesSome value text →
      DoublesSome (c :: value) (c :: text)

/-- What a writer puts for a value : the value, or a text between quotes. -/
inductive Cell
  | bare (value : Value)
  | escaped (value : Value) (text : List Char)

namespace Cell

/-- The value that a cell stands for. -/
def value : Cell → Value
  | bare value => value
  | escaped value _ => value

/-- The text of a cell. -/
def written : Cell → List Char
  | bare value => value
  | escaped _ text => '"' :: text ++ ['"']

/-- The quotes between quotes are kept. -/
def IsWritten : Cell → Prop
  | bare _ => True
  | escaped value text => DoublesSome value text

/-- The parser reads the value back from the text. -/
def Reads : Cell → Prop
  | bare value => value.all isTextData
  | escaped value text => text = doubled value

theorem isField_of_reads {cell : Cell} (h : cell.Reads) : IsField cell.written cell.value := by
  cases cell with
  | bare value => exact Or.inl ⟨rfl, h⟩
  | escaped value text => exact Or.inr (by rw [written, (h : text = doubled value)]; rfl)

end Cell

/-- So many quotes, and then a value between quotes without the first of them. -/
def afterQuotes (k : ℕ) (value : Value) (tail : List Char) : List Char :=
  List.replicate (k + 1) '"' ++ (doubled value ++ '"' :: tail)

@[simp] theorem afterQuotes_cons_quote (k : ℕ) (value : Value) (tail : List Char) :
    afterQuotes k ('"' :: value) tail = '"' :: '"' :: afterQuotes k value tail := by
  have hswap : ∀ l : List Char, List.replicate (k + 1) '"' ++ '"' :: l =
      '"' :: (List.replicate (k + 1) '"' ++ l) := by
    intro l
    rw [List.append_cons, ← List.replicate_succ', List.replicate_succ, List.cons_append]
  rw [afterQuotes, doubled_cons_quote, List.cons_append, List.cons_append, hswap, hswap]
  rfl

theorem afterQuotes_succ (k : ℕ) (value : Value) (tail : List Char) :
    afterQuotes (k + 1) value tail = '"' :: afterQuotes k value tail :=
  rfl

theorem afterQuotes_nil (k : ℕ) (tail : List Char) :
    ∃ l, afterQuotes k [] tail = '"' :: '"' :: l := by
  induction k with
  | zero => exact ⟨tail, rfl⟩
  | succ k ih => exact ⟨_, by rw [afterQuotes_succ, ih.choose_spec]⟩

theorem DoublesSome.ne_afterQuotes {value text : List Char} (h : DoublesSome value text)
    {rest tail : List Char} (hrest : rest.head? ≠ some '"') (k : ℕ) :
    text ++ '"' :: rest ≠ afterQuotes k value tail := by
  induction h generalizing k with
  | nil =>
    intro heq
    obtain ⟨l, hl⟩ := afterQuotes_nil k tail
    rw [hl] at heq
    exact hrest (by rw [(List.cons.inj heq).2, List.head?_cons])
  | quote _ ih =>
    rw [afterQuotes_cons_quote]
    exact fun heq => ih k (List.cons.inj (List.cons.inj heq).2).2
  | @keep value text c _ ih =>
    intro heq
    obtain rfl : c = '"' := (List.cons.inj heq).1
    rw [afterQuotes_cons_quote, ← afterQuotes_succ] at heq
    exact ih (k + 1) (List.cons.inj heq).2

theorem ne_afterQuotes {value rest tail : List Char} (hrest : rest.head? ≠ some '"') (k : ℕ) :
    value ++ rest ≠ afterQuotes k value tail := by
  induction value generalizing k with
  | nil =>
    intro heq
    obtain ⟨l, hl⟩ := afterQuotes_nil k tail
    exact hrest (by rw [List.nil_append] at heq; rw [heq, hl, List.head?_cons])
  | cons c value ih =>
    intro heq
    obtain rfl : c = '"' := (List.cons.inj heq).1
    rw [afterQuotes_cons_quote, ← afterQuotes_succ] at heq
    exact ih (k + 1) (List.cons.inj heq).2

/-- A text between quotes is read back only if all its quotes are doubled. -/
theorem DoublesSome.eq_doubled {value text : List Char} (h : DoublesSome value text)
    {rest tail : List Char} (hrest : rest.head? ≠ some '"')
    (heq : text ++ '"' :: rest = doubled value ++ '"' :: tail) : text = doubled value := by
  induction h with
  | nil => rfl
  | quote _ ih =>
    rw [doubled_cons_quote, ih (List.cons.inj (List.cons.inj heq).2).2]
  | @keep value text c h ih =>
    by_cases hc : c = '"'
    · subst hc
      exact absurd (List.cons.inj heq).2 (h.ne_afterQuotes hrest 0)
    · rw [doubled_cons_of_ne hc] at heq ⊢
      rw [ih (List.cons.inj heq).2]

/-- A field with the value of a cell that begins like the cell is the cell. -/
theorem Cell.eq_of_append_eq {cell : Cell} (hwritten : cell.IsWritten) {text rest tail : List Char}
    (hfield : IsField text cell.value) (hrest : IsEnd rest) (htail : IsEnd tail)
    (heq : cell.written ++ rest = text ++ tail) : text = cell.written ∧ cell.Reads := by
  rcases hfield with ⟨htext, hdata⟩ | htext
  · cases cell with
    | bare value => exact ⟨htext, hdata⟩
    | escaped value written =>
      -- text without quotes does not begin with one
      exfalso
      rcases text with _ | ⟨c, text⟩
      · exact htail.head?_ne (by rw [List.nil_append] at heq; rw [← heq]; rfl)
      · have hc := (ne_of_isTextData (List.all_eq_true.mp hdata c (htext ▸ List.mem_cons_self))).1
        exact hc (List.cons.inj heq).1.symm
  · subst htext
    cases cell with
    | bare value =>
      have heq' : value ++ rest = afterQuotes 0 value tail := by
        simpa [Cell.written, quoted, Cell.value, afterQuotes] using heq
      exact absurd heq' (ne_afterQuotes hrest.head?_ne 0)
    | escaped value written =>
      have heq' : written ++ '"' :: rest = doubled value ++ '"' :: tail := by
        simpa [Cell.written, quoted, Cell.value] using heq
      have hdoubled := DoublesSome.eq_doubled hwritten hrest.head?_ne heq'
      exact ⟨by rw [Cell.written, hdoubled]; rfl, hdoubled⟩

/-- Cells with commas between them, and a line end. -/
def line : List Cell → List Char
  | [] => ['\n']
  | [cell] => cell.written ++ ['\n']
  | cell :: cells => cell.written ++ ',' :: line cells

/-- The values of the cells. -/
def values (cells : List Cell) : List Value :=
  cells.map Cell.value

theorem line_ne_nil (cells : List Cell) : line cells ≠ [] := by
  unfold line
  split <;> simp

/-- A line of cells that are read back is a record. -/
theorem isRecords_line {cells : List Cell} (hne : cells ≠ []) (hreads : ∀ cell ∈ cells, cell.Reads)
    {rest : List Char} {records : List (List Value)}
    (hrest : rest = [] ∧ records = [] ∨ rest ≠ [] ∧ IsRecords rest records) :
    IsRecords (line cells ++ rest) (values cells :: records) := by
  induction cells using line.induct with
  | case1 => exact absurd rfl hne
  | case2 cell =>
    have hfield := Cell.isField_of_reads (hreads cell List.mem_cons_self)
    rcases hrest with ⟨rfl, rfl⟩ | ⟨hrest, hrecords⟩
    · rw [List.append_nil]
      exact .lastLine hfield
    · rw [line, List.append_assoc]
      exact .line hfield hrest hrecords
  | case3 cell cells hcells ih =>
    rw [line.eq_3 _ _ hcells, List.append_assoc, List.cons_append]
    exact .field (Cell.isField_of_reads (hreads cell List.mem_cons_self))
      (ih (fun hnil => hcells hnil) fun c hc => hreads c (List.mem_cons_of_mem _ hc))

theorem isEnd_cons {c : Char} (h : c = ',' ∨ c = '\n') (rest : List Char) : IsEnd (c :: rest) :=
  Or.inr ⟨c, rest, rfl, h⟩

/-- The text after a field is a comma and more fields, or a line end and more records. -/
def Follows (tail : List Char) (values : List Value) (records : List (List Value)) : Prop :=
  (tail = [] ∧ values = [] ∧ records = []) ∨
    (∃ rest, tail = ',' :: rest ∧ IsRecords rest (values :: records)) ∨
    ∃ rest, tail = '\n' :: rest ∧ values = [] ∧
      (rest = [] ∧ records = [] ∨ rest ≠ [] ∧ IsRecords rest records)

theorem Follows.isEnd {tail : List Char} {values : List Value} {records : List (List Value)}
    (h : Follows tail values records) : IsEnd tail := by
  rcases h with ⟨rfl, -⟩ | ⟨rest, rfl, -⟩ | ⟨rest, rfl, -⟩
  · exact Or.inl rfl
  · exact isEnd_cons (Or.inl rfl) rest
  · exact isEnd_cons (Or.inr rfl) rest

theorem IsRecords.exists_cons {text : List Char} {records : List (List Value)}
    (h : IsRecords text records) : ∃ value values rest, records = (value :: values) :: rest := by
  cases h <;> exact ⟨_, _, _, rfl⟩

/-- The first field of some records. -/
theorem IsRecords.exists_field {text : List Char} {value : Value} {values : List Value}
    {records : List (List Value)} (h : IsRecords text ((value :: values) :: records)) :
    ∃ field tail, text = field ++ tail ∧ IsField field value ∧ Follows tail values records := by
  cases h with
  | last hfield => exact ⟨_, [], (List.append_nil _).symm, hfield, Or.inl ⟨rfl, rfl, rfl⟩⟩
  | lastLine hfield =>
    exact ⟨_, _, rfl, hfield, Or.inr (Or.inr ⟨[], rfl, rfl, Or.inl ⟨rfl, rfl⟩⟩)⟩
  | field hfield hrest => exact ⟨_, _, rfl, hfield, Or.inr (Or.inl ⟨_, rfl, hrest⟩)⟩
  | line hfield hne hrest =>
    exact ⟨_, _, rfl, hfield, Or.inr (Or.inr ⟨_, rfl, rfl, Or.inr ⟨hne, hrest⟩⟩)⟩

/-- Conversely, by the first field of the records. -/
theorem reads_of_isRecords_line {cells : List Cell} (hwritten : ∀ cell ∈ cells, cell.IsWritten)
    {rest : List Char} {records : List (List Value)}
    (h : IsRecords (line cells ++ rest) (values cells :: records)) :
    (∀ cell ∈ cells, cell.Reads) ∧
      (rest = [] ∧ records = [] ∨ rest ≠ [] ∧ IsRecords rest records) := by
  induction cells using line.induct with
  | case1 =>
    obtain ⟨_, _, _, heq⟩ := h.exists_cons
    exact absurd heq (by simp [values])
  | case2 cell =>
    obtain ⟨field, tail, htext, hfield, hfollows⟩ := h.exists_field
    rw [line, List.append_assoc, List.singleton_append] at htext
    obtain ⟨rfl, hreads⟩ := Cell.eq_of_append_eq (hwritten cell List.mem_cons_self) hfield
      (isEnd_cons (Or.inr rfl) rest) hfollows.isEnd htext
    obtain rfl := List.append_cancel_left htext
    refine ⟨fun c hc => List.mem_singleton.mp hc ▸ hreads, ?_⟩
    rcases hfollows with ⟨hnil, -⟩ | ⟨_, hcons, -⟩ | ⟨_, hcons, -, hrest⟩
    · simp at hnil
    · simp at hcons
    · exact (List.cons.inj hcons).2 ▸ hrest
  | case3 cell cells hcells ih =>
    obtain ⟨field, tail, htext, hfield, hfollows⟩ := h.exists_field
    rw [line.eq_3 _ _ hcells, List.append_assoc, List.cons_append] at htext
    obtain ⟨rfl, hreads⟩ := Cell.eq_of_append_eq (hwritten cell List.mem_cons_self) hfield
      (isEnd_cons (Or.inl rfl) _) hfollows.isEnd htext
    obtain rfl := List.append_cancel_left htext
    rcases hfollows with ⟨hnil, -⟩ | ⟨_, hcons, hrecords⟩ | ⟨_, hcons, -⟩
    · simp at hnil
    · rw [← (List.cons.inj hcons).2] at hrecords
      obtain ⟨hall, hrest⟩ := ih (fun c hc => hwritten c (List.mem_cons_of_mem _ hc)) hrecords
      exact ⟨List.forall_mem_cons.mpr ⟨hreads, hall⟩, hrest⟩
    · simp at hcons

/-- The lines are read back exactly if all cells are. -/
theorem parse_lines_iff {rows : List (List Cell)} (hne : ∀ cells ∈ rows, cells ≠ [])
    (hwritten : ∀ cells ∈ rows, ∀ cell ∈ cells, cell.IsWritten) :
    parse (rows.flatMap line) = some (rows.map values) ↔
      ∀ cells ∈ rows, ∀ cell ∈ cells, cell.Reads := by
  rw [parse_eq_some_iff]
  induction rows with
  | nil => simp [IsFile]
  | cons cells rows ih =>
    obtain ⟨hcells, hrows⟩ := List.forall_mem_cons.mp hne
    obtain ⟨hwritten, hwritten'⟩ := List.forall_mem_cons.mp hwritten
    have ih := ih hrows hwritten'
    rw [List.forall_mem_cons, ← ih, List.flatMap_cons, List.map_cons]
    have htext : line cells ++ rows.flatMap line ≠ [] := by simp [line_ne_nil]
    unfold IsFile
    constructor
    · rintro (⟨hnil, -⟩ | ⟨-, hrecords⟩)
      · exact absurd hnil htext
      · exact reads_of_isRecords_line hwritten hrecords
    · rintro ⟨hreads, hrest⟩
      exact Or.inr ⟨htext, isRecords_line hcells hreads hrest⟩

example : parse "a,\"b\"\"\n\",\nc".toList =
    some [["a".toList, "b\"\n".toList, []], ["c".toList]] := by decide

end CSV
