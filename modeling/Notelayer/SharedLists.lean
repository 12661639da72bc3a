import Notelayer.Library.Lines
import Notelayer.MarkdownLinks

/-!
# Shared lists

A list that is written as text, an item on each line with a number, a bullet or a checkbox before
its title, is read back by `prepareSharedText` exactly if each title begins with a user-perceived
character (`ShareViewController.recoversList_iff`). A title that begins with a combining mark is
one with the space before it, `Range(_:in:)` is nil for it, and the loop goes on without a draft,
or with one that has the checkbox for a part of its title.
-/

namespace Notelayer

/-! ## Trimmed texts -/

theorem rdropWhile_append_of_ne_nil {p : Char → Bool} (x : List Char) {y : List Char}
    (h : y.rdropWhile p ≠ []) : (x ++ y).rdropWhile p = x ++ y.rdropWhile p := by
  unfold List.rdropWhile at h ⊢
  rw [List.reverse_append, List.dropWhile_append, if_neg (by simpa using h), List.reverse_append,
    List.reverse_reverse]

/-- A text can be trimmed on the right first. -/
theorem dropWhile_rdropWhile (p : Char → Bool) (l : List Char) :
    (l.rdropWhile p).dropWhile p = (l.dropWhile p).rdropWhile p := by
  induction l using List.reverseRecOn with
  | nil => rfl
  | append_singleton l c ih =>
    by_cases hc : p c
    · rw [List.rdropWhile_concat_pos _ _ _ hc, ih, List.dropWhile_append]
      split_ifs with hempty
      · simp [List.isEmpty_iff.mp hempty, hc]
      · rw [List.rdropWhile_concat_pos _ _ _ hc]
    · have hdrop := ShareViewController.dropWhile_append_cons (Bool.eq_false_iff.mpr hc) l []
      rw [List.rdropWhile_concat_neg _ _ _ hc, hdrop, List.rdropWhile_concat_neg _ _ _ hc]

theorem dropWhile_dropWhile_of_imp {p q : Char → Bool} (h : ∀ c, p c → q c) (l : List Char) :
    (l.dropWhile p).dropWhile q = l.dropWhile q := by
  induction l with
  | nil => rfl
  | cons c l ih =>
    by_cases hc : p c
    · rw [List.dropWhile_cons_of_pos hc, ih, List.dropWhile_cons_of_pos (h c hc)]
    · rw [List.dropWhile_cons_of_neg hc]

/-- A reader of trimmed lines. -/
theorem ignoresBlanks_of_trimmed {A : Type} {read : List Char → Option A} (hnil : read [] = none)
    (h : ∀ l, read l = read (trimmed (String.ofList l)).toList) :
    Lines.IgnoresBlanks isWhitespaceOrNewline read where
  nil := hnil
  cons c l hc := by
    rw [h (c :: l), h l, toList_trimmed, toList_trimmed, String.toList_ofList,
      String.toList_ofList, List.dropWhile_cons_of_pos hc]
  concat l c hc := by
    rw [h (l ++ [c]), h l, toList_trimmed, toList_trimmed, String.toList_ofList,
      String.toList_ofList, ← dropWhile_rdropWhile, ← dropWhile_rdropWhile,
      List.rdropWhile_concat_pos _ _ _ hc]

namespace ShareViewController

open Replacing

/-! ## Lists as texts -/

/-- What stands before the title of an item. -/
inductive Marker where
  | number (digits : List Char) (close : Char)
  | bullet (mark : Char)
  /-- A bullet, and after a gap a box with its state. -/
  | checkbox (mark : Char) (gap : List Char) (state : Char)

namespace Marker

/-- The characters of a marker. -/
def written : Marker → List Char
  | number digits close => digits ++ [close]
  | bullet mark => [mark]
  | checkbox mark gap state => mark :: (gap ++ ['[', state, ']'])

/-- The marker is a checkbox. -/
def isCheckbox : Marker → Bool
  | checkbox .. => true
  | _ => false

/-- A marker of the grammar of numbers, bullets or checkboxes. -/
def IsValid (foundation : TextFoundation) : Marker → Prop
  | number digits close =>
    digits ≠ [] ∧ (∀ c ∈ digits, foundation.isDecimalDigit c) ∧ close ∈ ['.', ')']
  | bullet mark => mark ∈ ['-', '*', '+']
  | checkbox mark gap state => mark ∈ ['-', '*', '+'] ∧ gap ≠ [] ∧
    (∀ c ∈ gap, foundation.isWhiteSpace c) ∧ state ∈ ['x', 'X', ' ']

end Marker

/-- A line of a list, by its parts. -/
structure ListItem where
  indentation : List Char
  marker : Marker
  spaces : List Char
  title : String

/-- A line of a text with a list : an item, or something that is none. -/
inductive ListLine where
  | entry (item : ListItem)
  | other (line : String)

variable (foundation : TextFoundation)

/-- A checkbox, and white space after it. -/
def StartsWithCheckbox (title : String) : Prop :=
  ∃ state space rest, (trimmed title).toList = '[' :: state :: ']' :: space :: rest ∧
    state ∈ ['x', 'X', ' '] ∧ foundation.isWhiteSpace space

namespace ListItem

/-- The text of a list item. -/
def written (item : ListItem) : String :=
  String.ofList
    (item.indentation ++ (item.marker.written ++ (item.spaces ++ item.title.toList)))

/-- The parts are such as the pattern of a list item asks for. -/
structure IsValid (item : ListItem) : Prop where
  indentation : ∀ c ∈ item.indentation, isWhitespace c
  marker : item.marker.IsValid foundation
  spaces_ne_nil : item.spaces ≠ []
  spaces : ∀ c ∈ item.spaces, foundation.isWhiteSpace c
  title : (trimmed item.title).isEmpty = false
  notCheckbox : ¬StartsWithCheckbox foundation item.title

/-- The title, without the spaces after it. -/
def titleText (item : ListItem) : List Char :=
  item.title.toList.rdropWhile isWhitespaceOrNewline

/-- In the trimmed line the first character of the title is not one with the space before it. -/
def TitleBegins (item : ListItem) : Prop :=
  foundation.isBoundary
    (item.marker.written ++ (item.spaces ++ item.titleText.takeWhile foundation.isWhiteSpace))
    (item.titleText.dropWhile foundation.isWhiteSpace)

instance (item : ListItem) : Decidable (item.TitleBegins foundation) :=
  inferInstanceAs (Decidable (_ = true))

end ListItem

namespace ListLine

/-- The text of a line. -/
def written : ListLine → String
  | entry item => item.written
  | other line => line

/-- The items are, and the other lines are blank or not in one of the three grammars. -/
def IsValid : ListLine → Prop
  | entry item => item.IsValid foundation
  | other line => (trimmed line).isEmpty ∨
    ∀ regex ∈ [checklistRegex foundation, numberedRegex foundation, bulletRegex foundation],
      Pattern.firstMatch regex (trimmed line).toList = none

/-- The list item of a line, if it is one. -/
def item? : ListLine → Option ListItem
  | entry item => some item
  | other _ => none

end ListLine

/-- The drafts are the items, and there is a task for each. -/
structure RecoversList (prepared : PreparedShareText) (items : List ListItem) : Prop where
  drafts : prepared.taskDrafts.map (fun draft => (draft.title, draft.isChecklistItem)) =
    items.map fun item => (trimmed item.title, item.marker.isCheckbox)
  destination : prepared.destination = .taskBatch

/-- What is used of Foundation beside the backticks. -/
structure ReadsLists (joins : Char → Char → Bool) : Prop where
  findsBackticks : FindsBackticks foundation joins
  newlines : ∀ text, foundation.replacingOccurrences "\r\n" "\n" text =
    String.ofList (replacing isEquivalent foundation.isBoundary "\r\n".toList "\n".toList 0 []
      text.toList)
  /-- Both ends of a line are one character. -/
  count_newlines : ∀ text,
    foundation.count (foundation.replacingOccurrences "\r\n" "\n" text) ≤ foundation.count text
  whiteSpace : ∀ c, foundation.isWhiteSpace c → isWhitespaceOrNewline c
  decimalDigit : ∀ c, foundation.isDecimalDigit c →
    isWhitespaceOrNewline c = false ∧ c ∉ ['-', '*', '+'] ∧ c ∉ ['.', ')']
  boundary_end : ∀ l, foundation.isBoundary l []

variable {foundation} {joins : Char → Char → Bool}

/-! ## The line of an item -/

theorem ReadsLists.isWhiteSpace_eq_false (h : ReadsLists foundation joins) {c : Char}
    (hc : isWhitespaceOrNewline c = false) : foundation.isWhiteSpace c = false :=
  Bool.eq_false_iff.mpr fun hspace => by simp [h.whiteSpace c hspace] at hc

theorem ReadsLists.isDecimalDigit_bullet (h : ReadsLists foundation joins) {c : Char}
    (hc : c ∈ ['-', '*', '+']) : foundation.isDecimalDigit c = false :=
  Bool.eq_false_iff.mpr fun hdigit => (h.decimalDigit c hdigit).2.1 hc

theorem isWhitespaceOrNewline_bullet {c : Char} (hc : c ∈ ['-', '*', '+']) :
    isWhitespaceOrNewline c = false := by
  simp only [List.mem_cons, List.not_mem_nil, or_false] at hc
  rcases hc with rfl | rfl | rfl <;> rfl

/-- A marker does not begin with white space. -/
theorem Marker.IsValid.exists_cons {marker : Marker} (hmarker : marker.IsValid foundation)
    (h : ReadsLists foundation joins) :
    ∃ c rest, marker.written = c :: rest ∧ isWhitespaceOrNewline c = false := by
  rcases marker with ⟨digits, close⟩ | mark | ⟨mark, gap, state⟩
  · obtain ⟨hne, hdigits, -⟩ := hmarker
    obtain ⟨c, digits, rfl⟩ := List.exists_cons_of_ne_nil hne
    exact ⟨c, digits ++ [close], rfl, (h.decimalDigit c (hdigits c List.mem_cons_self)).1⟩
  · exact ⟨mark, [], rfl, isWhitespaceOrNewline_bullet hmarker⟩
  · exact ⟨mark, _, rfl, isWhitespaceOrNewline_bullet hmarker.1⟩

namespace ListItem

variable {item : ListItem}

/-- The white space that a pattern takes before the title is trimmed off the title. -/
theorem toList_trimmed_title (item : ListItem) (h : ReadsLists foundation joins) :
    (trimmed item.title).toList =
      (item.titleText.dropWhile foundation.isWhiteSpace).dropWhile isWhitespaceOrNewline := by
  rw [toList_trimmed, ← dropWhile_rdropWhile, dropWhile_dropWhile_of_imp h.whiteSpace]
  rfl

theorem dropWhile_titleText_ne_nil (h : ReadsLists foundation joins)
    (hitem : item.IsValid foundation) : item.titleText.dropWhile foundation.isWhiteSpace ≠ [] := by
  intro hnil
  have htitle := item.toList_trimmed_title h
  rw [hnil, List.dropWhile_nil, String.toList_eq_nil_iff] at htitle
  have hempty := hitem.title
  rw [htitle] at hempty
  cases hempty

/-- What follows the marker in the trimmed line. -/
def afterMarker (item : ListItem) : List Char :=
  item.spaces ++ item.titleText

theorem takeWhile_afterMarker (hitem : item.IsValid foundation) :
    item.afterMarker.takeWhile foundation.isWhiteSpace =
      item.spaces ++ item.titleText.takeWhile foundation.isWhiteSpace :=
  List.takeWhile_append_of_pos hitem.spaces

theorem dropWhile_afterMarker (hitem : item.IsValid foundation) :
    item.afterMarker.dropWhile foundation.isWhiteSpace =
      item.titleText.dropWhile foundation.isWhiteSpace :=
  List.dropWhile_append_of_pos hitem.spaces

/-- The line of an item without its indentation and the white space at its end. -/
theorem toList_trimmed_written (h : ReadsLists foundation joins)
    (hitem : item.IsValid foundation) :
    (trimmed item.written).toList = item.marker.written ++ item.afterMarker := by
  have hindentation : ∀ c ∈ item.indentation, isWhitespaceOrNewline c := fun c hc => by
    have hspace := hitem.indentation c hc
    rw [isWhitespace, Bool.and_eq_true] at hspace
    exact hspace.1
  have htitle : item.title.toList.rdropWhile isWhitespaceOrNewline ≠ [] := fun hnil =>
    dropWhile_titleText_ne_nil h hitem (by rw [titleText, hnil, List.dropWhile_nil])
  obtain ⟨c, rest, hmarker, hc⟩ := hitem.marker.exists_cons h
  rw [toList_trimmed, written, String.toList_ofList, List.dropWhile_append_of_pos hindentation,
    hmarker, List.cons_append, List.dropWhile_cons_of_neg (by simp [hc]), ← List.cons_append,
    ← List.append_assoc, rdropWhile_append_of_ne_nil _ htitle, List.append_assoc]
  rfl

end ListItem

/-! ## What the patterns find -/

section Regex

open Pattern RegexPiece

variable {c : Char} {l : List Char}

/-- The parts of the patterns after the marker. -/
theorem firstMatch_afterMarker (hspaces : l.takeWhile foundation.isWhiteSpace ≠ [])
    (htitle : l.dropWhile foundation.isWhiteSpace ≠ []) (hline : ∀ c ∈ l, isNewline c = false) :
    firstMatch [.some foundation.isWhiteSpace, .group (.some anyCharacter), .lineEnd] l =
      some ([(l.dropWhile foundation.isWhiteSpace, [])], []) := by
  have hany : ∀ c ∈ l.dropWhile foundation.isWhiteSpace, anyCharacter c := fun c hc => by
    simp [anyCharacter, hline c ((List.dropWhile_suffix _).mem hc)]
  have htake := List.takeWhile_eq_self_iff.mpr hany
  have hdrop := List.dropWhile_eq_nil_iff.mpr hany
  have hend : firstMatch [lineEnd] ((l.dropWhile foundation.isWhiteSpace).dropWhile anyCharacter) =
      some ([], []) := by
    rw [hdrop]
    rfl
  have hgroup := firstMatch_group_some (by rwa [htake]) hend
  rw [htake, hdrop] at hgroup
  exact firstMatch_some hspaces hgroup

theorem firstMatch_bulletRegex (hspace : foundation.isWhiteSpace c = false)
    (hc : c ∈ ['-', '*', '+']) {found : List (List Char × List Char) × List Char}
    (h : firstMatch [.some foundation.isWhiteSpace, .group (.some anyCharacter), .lineEnd] l =
      some found) :
    firstMatch (bulletRegex foundation) (c :: l) = some found := by
  refine firstMatch_many ?_
  rw [List.dropWhile_cons_of_neg (by simp [hspace])]
  exact firstMatch_one (decide_eq_true hc) h

/-- A numbered line is matched up to its title. -/
theorem firstMatch_numberedRegex {digits : List Char} (hne : digits ≠ [])
    (hspace : ∀ c ∈ digits, foundation.isWhiteSpace c = false)
    (hdigits : ∀ c ∈ digits, foundation.isDecimalDigit c) (hc : c ∈ ['.', ')'])
    (hclose : foundation.isDecimalDigit c = false)
    {found : List (List Char × List Char) × List Char}
    (h : firstMatch [.some foundation.isWhiteSpace, .group (.some anyCharacter), .lineEnd] l =
      some found) :
    firstMatch (numberedRegex foundation) (digits ++ c :: l) = some found := by
  have htake : (digits ++ c :: l).takeWhile foundation.isDecimalDigit = digits := by
    rw [List.takeWhile_append_of_pos hdigits, List.takeWhile_cons_of_neg (by simp [hclose]),
      List.append_nil]
  have hdrop : (digits ++ c :: l).dropWhile foundation.isDecimalDigit = c :: l := by
    rw [List.dropWhile_append_of_pos hdigits, List.dropWhile_cons_of_neg (by simp [hclose])]
  have hstart : (digits ++ c :: l).dropWhile foundation.isWhiteSpace = digits ++ c :: l := by
    obtain ⟨d, digits, rfl⟩ := List.exists_cons_of_ne_nil hne
    exact List.dropWhile_cons_of_neg (by simp [hspace])
  refine firstMatch_many ?_
  rw [hstart]
  refine firstMatch_some (by rwa [htake]) ?_
  rw [hdrop]
  exact firstMatch_one (decide_eq_true hc) h

/-- A line with a checkbox is matched up to its title. -/
theorem firstMatch_checklistRegex {gap : List Char} {state : Char}
    (hspace : foundation.isWhiteSpace c = false) (hc : c ∈ ['-', '*', '+']) (hne : gap ≠ [])
    (hgap : ∀ c ∈ gap, foundation.isWhiteSpace c) (hbox : foundation.isWhiteSpace '[' = false)
    (hstate : state ∈ ['x', 'X', ' ']) {found : List (List Char × List Char) × List Char}
    (h : firstMatch [.some foundation.isWhiteSpace, .group (.some anyCharacter), .lineEnd] l =
      some found) :
    firstMatch (checklistRegex foundation) (c :: (gap ++ '[' :: state :: ']' :: l)) =
      some (([state], ']' :: l) :: found.1, found.2) := by
  have htake : (gap ++ '[' :: state :: ']' :: l).takeWhile foundation.isWhiteSpace = gap := by
    rw [List.takeWhile_append_of_pos hgap, List.takeWhile_cons_of_neg (by simp [hbox]),
      List.append_nil]
  have hdrop : (gap ++ '[' :: state :: ']' :: l).dropWhile foundation.isWhiteSpace =
      '[' :: state :: ']' :: l := by
    rw [List.dropWhile_append_of_pos hgap, List.dropWhile_cons_of_neg (by simp [hbox])]
  refine firstMatch_many ?_
  rw [List.dropWhile_cons_of_neg (by simp [hspace])]
  refine firstMatch_one (decide_eq_true hc) (firstMatch_some (by rwa [htake]) ?_)
  rw [hdrop]
  exact firstMatch_one rfl (firstMatch_group_one (decide_eq_true hstate) (firstMatch_one rfl h))

/-- A line that does not begin with a bullet. -/
theorem firstMatch_bulleted_eq_none {pattern : List RegexPiece}
    (hspace : foundation.isWhiteSpace c = false) (hc : c ∉ ['-', '*', '+']) :
    firstMatch (.many foundation.isWhiteSpace :: .one (fun c => c ∈ ['-', '*', '+']) :: pattern)
      (c :: l) = none := by
  rw [firstMatch_eq_none_iff]
  intro groups rest hmatches
  rw [matches_many_cons_iff hspace, matches_one_iff] at hmatches
  obtain ⟨d, l', heq, hd, -⟩ := hmatches
  obtain ⟨rfl, rfl⟩ := List.cons.inj heq
  exact hc (of_decide_eq_true hd)

/-- A line that does not begin with a digit. -/
theorem firstMatch_numberedRegex_eq_none (hspace : foundation.isWhiteSpace c = false)
    (hc : foundation.isDecimalDigit c = false) :
    firstMatch (numberedRegex foundation) (c :: l) = none := by
  rw [firstMatch_eq_none_iff]
  intro groups rest hmatches
  rw [numberedRegex, matches_many_cons_iff hspace, matches_cons_iff] at hmatches
  obtain ⟨_ | ⟨d, a⟩, b, found, heq, ⟨hne, hdigits⟩, -⟩ := hmatches
  · exact hne rfl
  · have hd := List.all_eq_true.mp hdigits d List.mem_cons_self
    rw [← (List.cons.inj heq).1, hc] at hd
    cases hd

/-- A bullet before a title that begins with no checkbox. -/
theorem firstMatch_checklistRegex_eq_none (h : ReadsLists foundation joins) {item : ListItem}
    (hitem : item.IsValid foundation) (hspace : foundation.isWhiteSpace c = false) :
    firstMatch (checklistRegex foundation) (c :: item.afterMarker) = none := by
  rw [firstMatch_eq_none_iff]
  intro groups rest hmatches
  rw [checklistRegex, matches_many_cons_iff hspace, matches_one_iff] at hmatches
  obtain ⟨_, _, heq, -, hmatches⟩ := hmatches
  obtain ⟨rfl, rfl⟩ := List.cons.inj heq
  simp only [matches_some_iff, matches_one_iff, matches_group_iff,
    decide_eq_true_eq, Takes] at hmatches
  obtain ⟨gap, _, hafter, ⟨-, hgap⟩, ⟨_, _, rfl, rfl, _, _, _, rfl, ⟨state, rfl, hstate⟩,
    ⟨_, _, rfl, rfl, spaces, _, rfl, ⟨hne, hspaces⟩, -⟩, -⟩⟩ := hmatches
  obtain ⟨space, spaces, rfl⟩ := List.exists_cons_of_ne_nil hne
  have hbox : foundation.isWhiteSpace '[' = false := h.isWhiteSpace_eq_false (by decide)
  have htitle := item.toList_trimmed_title h
  rw [← item.dropWhile_afterMarker hitem, hafter, List.dropWhile_append_of_pos
    (fun c hc => List.all_eq_true.mp hgap c hc), List.cons_append,
    List.dropWhile_cons_of_neg (by simp [hbox]), List.dropWhile_cons_of_neg (by decide)] at htitle
  exact hitem.notCheckbox ⟨state, space, _, htitle, hstate,
    List.all_eq_true.mp hspaces space List.mem_cons_self⟩

end Regex

/-! ## What is read off a line -/

section Reading

open Pattern

variable {item : ListItem}

/-- A match that ends with the title. -/
theorem capture_title (h : ReadsLists foundation joins) (hitem : item.IsValid foundation)
    {pattern : List RegexPiece} {index : ℕ} {found : List (List Char × List Char) × List Char}
    (hfound : firstMatch pattern (item.marker.written ++ item.afterMarker) = some found)
    (hgroup : found.1[index - 1]? = some (item.afterMarker.dropWhile foundation.isWhiteSpace, [])) :
    capture foundation.isBoundary pattern index (trimmed item.written) =
      if item.TitleBegins foundation then
        some (String.ofList (item.titleText.dropWhile foundation.isWhiteSpace))
      else none := by
  have hline := item.toList_trimmed_written h hitem
  rw [item.dropWhile_afterMarker hitem] at hgroup
  rw [capture_of_firstMatch ?_ (by rw [hline, hfound]) hgroup, h.boundary_end, Bool.and_true]
  · rfl
  · rw [hline, ListItem.afterMarker, List.append_assoc, List.append_assoc,
      List.takeWhile_append_dropWhile]

/-- A pattern that does not match has no group. -/
theorem capture_of_none {isBoundary : List Char → List Char → Bool} {pattern : List RegexPiece}
    {index : ℕ} {line : String} (h : firstMatch pattern line.toList = none) :
    capture isBoundary pattern index line = none := by
  rw [capture, h, Option.bind_none]

theorem isEmpty_trimmed_written (h : ReadsLists foundation joins)
    (hitem : item.IsValid foundation) : (trimmed item.written).isEmpty = false := by
  obtain ⟨c, rest, hmarker, -⟩ := hitem.marker.exists_cons h
  have hline := item.toList_trimmed_written h hitem
  refine Bool.eq_false_iff.mpr fun hempty => ?_
  rw [String.isEmpty_iff.mp hempty, hmarker] at hline
  cases hline

theorem trimmed_ofList_title (h : ReadsLists foundation joins) (item : ListItem) :
    trimmed (String.ofList (item.titleText.dropWhile foundation.isWhiteSpace)) =
      trimmed item.title := by
  rw [← String.toList_inj, toList_trimmed, String.toList_ofList, ← item.toList_trimmed_title h,
    toList_trimmed, List.rdropWhile_idempotent]

/-- The parts of the patterns after the marker match what is there. -/
theorem firstMatch_title (h : ReadsLists foundation joins) (hitem : item.IsValid foundation)
    (hline : ∀ c ∈ item.afterMarker, isNewline c = false) :
    firstMatch [.some foundation.isWhiteSpace, .group (.some RegexPiece.anyCharacter), .lineEnd]
        item.afterMarker =
      some ([(item.afterMarker.dropWhile foundation.isWhiteSpace, [])], []) := by
  refine firstMatch_afterMarker ?_ ?_ hline
  · rw [item.takeWhile_afterMarker hitem]
    simp [hitem.spaces_ne_nil]
  · rw [item.dropWhile_afterMarker hitem]
    exact item.dropWhile_titleText_ne_nil h hitem

/-- What a numbered line is read as. -/
theorem parseLine_number (h : ReadsLists foundation joins) (hitem : item.IsValid foundation)
    (hline : ∀ c ∈ item.afterMarker, isNewline c = false) {digits : List Char} {close : Char}
    (hmarker : item.marker = .number digits close) (id : String) :
    parseLine foundation id item.written =
      if item.TitleBegins foundation then some { id := id, title := trimmed item.title }
      else none := by
  have hwritten : item.marker.written ++ item.afterMarker =
      digits ++ close :: item.afterMarker := by
    rw [hmarker, Marker.written, List.append_assoc, List.singleton_append]
  have hvalid := hitem.marker
  rw [hmarker] at hvalid
  obtain ⟨hne, hdigits, hclose⟩ := hvalid
  have hnotDigit : foundation.isDecimalDigit close = false := Bool.eq_false_iff.mpr fun hdigit =>
    (h.decimalDigit close hdigit).2.2 hclose
  have hspace : ∀ c ∈ digits, foundation.isWhiteSpace c = false := fun c hc =>
    h.isWhiteSpace_eq_false (h.decimalDigit c (hdigits c hc)).1
  have hfound : firstMatch (numberedRegex foundation) (item.marker.written ++ item.afterMarker) =
      some ([(item.afterMarker.dropWhile foundation.isWhiteSpace, [])], []) := by
    rw [hwritten]
    exact firstMatch_numberedRegex hne hspace hdigits hclose hnotDigit
      (firstMatch_title h hitem hline)
  -- the other two patterns begin with a bullet
  have hbulleted : ∀ pattern, firstMatch (.many foundation.isWhiteSpace ::
      .one (fun c => c ∈ ['-', '*', '+']) :: pattern) (trimmed item.written).toList = none := by
    intro pattern
    obtain ⟨d, others, rfl⟩ := List.exists_cons_of_ne_nil hne
    rw [item.toList_trimmed_written h hitem, hwritten]
    exact firstMatch_bulleted_eq_none (hspace d List.mem_cons_self)
      (h.decimalDigit d (hdigits d List.mem_cons_self)).2.1
  have hchecklist : capture foundation.isBoundary (checklistRegex foundation) 2
      (trimmed item.written) = none := capture_of_none (hbulleted _)
  have hbullet : capture foundation.isBoundary (bulletRegex foundation) 1
      (trimmed item.written) = none := capture_of_none (hbulleted _)
  unfold parseLine
  dsimp only
  rw [isEmpty_trimmed_written h hitem, if_neg Bool.false_ne_true, hchecklist, hbullet,
    capture_title h hitem hfound rfl]
  split_ifs with hbegins
  · dsimp only
    rw [trimmed_ofList_title h, hitem.title, if_neg Bool.false_ne_true]
  · rfl

/-- What a line with a bullet is read as. -/
theorem parseLine_bullet (h : ReadsLists foundation joins) (hitem : item.IsValid foundation)
    (hline : ∀ c ∈ item.afterMarker, isNewline c = false) {mark : Char}
    (hmarker : item.marker = .bullet mark) (id : String) :
    parseLine foundation id item.written =
      if item.TitleBegins foundation then some { id := id, title := trimmed item.title }
      else none := by
  have hwritten : item.marker.written ++ item.afterMarker = mark :: item.afterMarker := by
    rw [hmarker, Marker.written, List.singleton_append]
  have hmark := hitem.marker
  rw [hmarker] at hmark
  have hspace := h.isWhiteSpace_eq_false (isWhitespaceOrNewline_bullet hmark)
  have hfound : firstMatch (bulletRegex foundation) (item.marker.written ++ item.afterMarker) =
      some ([(item.afterMarker.dropWhile foundation.isWhiteSpace, [])], []) := by
    rw [hwritten]
    exact firstMatch_bulletRegex hspace hmark (firstMatch_title h hitem hline)
  have hchecklist : capture foundation.isBoundary (checklistRegex foundation) 2
      (trimmed item.written) = none := by
    refine capture_of_none ?_
    rw [item.toList_trimmed_written h hitem, hwritten]
    exact firstMatch_checklistRegex_eq_none h hitem hspace
  have hnumbered : capture foundation.isBoundary (numberedRegex foundation) 1
      (trimmed item.written) = none := by
    refine capture_of_none ?_
    rw [item.toList_trimmed_written h hitem, hwritten]
    exact firstMatch_numberedRegex_eq_none hspace (h.isDecimalDigit_bullet hmark)
  unfold parseLine
  dsimp only
  rw [isEmpty_trimmed_written h hitem, if_neg Bool.false_ne_true, hchecklist, hnumbered,
    capture_title h hitem hfound rfl]
  split_ifs with hbegins
  · dsimp only
    rw [Option.bind_some, trimmed_ofList_title h, hitem.title, if_neg Bool.false_ne_true]
  · rfl

/-- What a line with a checkbox is read as. -/
theorem parseLine_checkbox (h : ReadsLists foundation joins) (hitem : item.IsValid foundation)
    (hline : ∀ c ∈ item.afterMarker, isNewline c = false) {mark state : Char} {gap : List Char}
    (hmarker : item.marker = .checkbox mark gap state) (id : String) :
    if item.TitleBegins foundation then
      parseLine foundation id item.written =
        some { id := id, title := trimmed item.title, isChecklistItem := true }
    else
      ∀ draft, parseLine foundation id item.written = some draft →
        draft.isChecklistItem = false := by
  have hwritten : item.marker.written ++ item.afterMarker =
      mark :: (gap ++ '[' :: state :: ']' :: item.afterMarker) := by
    simp [hmarker, Marker.written]
  have hvalid := hitem.marker
  rw [hmarker] at hvalid
  obtain ⟨hmark, hne, hgap, hstate⟩ := hvalid
  have hspace := h.isWhiteSpace_eq_false (isWhitespaceOrNewline_bullet hmark)
  have hfound : firstMatch (checklistRegex foundation)
      (item.marker.written ++ item.afterMarker) = some ([([state], ']' :: item.afterMarker),
        (item.afterMarker.dropWhile foundation.isWhiteSpace, [])], []) := by
    rw [hwritten]
    exact firstMatch_checklistRegex hspace hmark hne hgap (h.isWhiteSpace_eq_false (by decide))
      hstate (firstMatch_title h hitem hline)
  unfold parseLine
  dsimp only
  rw [isEmpty_trimmed_written h hitem, if_neg Bool.false_ne_true,
    capture_title h hitem hfound rfl]
  split_ifs with hbegins
  · dsimp only
    rw [trimmed_ofList_title h, hitem.title, if_neg Bool.false_ne_true]
  · -- the pattern of bullets may still match, with the box in the title
    dsimp only
    intro draft hdraft
    have htitled : ∀ {captured : String}, (if (trimmed captured).isEmpty then none
        else some { id := id, title := trimmed captured, isChecklistItem := false }) =
          some draft → draft.isChecklistItem = false := by
      intro captured hcaptured
      split_ifs at hcaptured
      rw [← Option.some_inj.mp hcaptured]
    split at hdraft
    · exact htitled hdraft
    · obtain ⟨captured, -, hcaptured⟩ := Option.bind_eq_some_iff.mp hdraft
      exact htitled hcaptured

/-- The title and the kind of a line's draft, if it has one. -/
def readLine (foundation : TextFoundation) (line : List Char) : Option (String × Bool) :=
  (parseLine foundation "" (String.ofList line)).map fun draft =>
    (draft.title, draft.isChecklistItem)

/-- What is read off the line of an item. -/
theorem readLine_item_iff (h : ReadsLists foundation joins) (hitem : item.IsValid foundation)
    (hline : ∀ c ∈ item.written.toList, isNewline c = false) :
    readLine foundation item.written.toList =
        some (trimmed item.title, item.marker.isCheckbox) ↔
      item.TitleBegins foundation := by
  have hafter : ∀ c ∈ item.afterMarker, isNewline c = false := by
    intro c hc
    refine hline c ?_
    rw [ListItem.written, String.toList_ofList]
    rcases List.mem_append.mp hc with hc | hc
    · simp [hc]
    · simp [(List.rdropWhile_prefix _ _).mem hc]
  rw [readLine, String.ofList_toList]
  cases hmarker : item.marker with
  | number digits close =>
    rw [parseLine_number h hitem hafter hmarker]
    split_ifs with hbegins <;> simp [hbegins, Marker.isCheckbox]
  | bullet mark =>
    rw [parseLine_bullet h hitem hafter hmarker]
    split_ifs with hbegins <;> simp [hbegins, Marker.isCheckbox]
  | checkbox mark gap state =>
    have hread := parseLine_checkbox h hitem hafter hmarker ""
    split_ifs at hread with hbegins
    · rw [hread]
      simp [hbegins, Marker.isCheckbox]
    · refine iff_of_false (fun hsome => ?_) hbegins
      obtain ⟨draft, hdraft, heq⟩ := Option.map_eq_some_iff.mp hsome
      have hchecklist := (Prod.mk.inj heq).2
      rw [hread draft hdraft] at hchecklist
      cases hchecklist

/-- Nothing is read off the other lines. -/
theorem readLine_other {line : String} (hline : (ListLine.other line).IsValid foundation) :
    readLine foundation line.toList = none := by
  rw [readLine, String.ofList_toList, Option.map_eq_none_iff]
  unfold parseLine
  dsimp only
  rcases hline with hempty | hnone
  · rw [if_pos hempty]
  · simp only [List.forall_mem_cons] at hnone
    obtain ⟨hchecklist, hnumbered, hbullet, -⟩ := hnone
    rw [capture_of_none hchecklist, capture_of_none hnumbered, capture_of_none hbullet]
    split_ifs <;> rfl

theorem readLine_written {line : ListLine} (hline : line.IsValid foundation) :
    readLine foundation line.written.toList =
      line.item?.bind fun item => readLine foundation item.written.toList := by
  cases line with
  | entry item => rw [ListLine.item?, Option.bind_some, ListLine.written]
  | other line =>
    have hnone := readLine_other hline
    rw [ListLine.written, hnone, ListLine.item?, Option.bind_none]

end Reading

/-! ## What is read off a text -/

theorem ignoresBlanks_readLine (foundation : TextFoundation) :
    Lines.IgnoresBlanks isWhitespaceOrNewline (readLine foundation) := by
  refine ignoresBlanks_of_trimmed rfl fun l => ?_
  have hparse : ∀ rawLine, parseLine foundation "" (trimmed rawLine) =
      parseLine foundation "" rawLine := by
    intro rawLine
    unfold parseLine
    rw [trimmed_trimmed]
  rw [readLine, readLine, String.ofList_toList, hparse]

/-- The drawn id is all that depends on it. -/
theorem map_parseLine (foundation : TextFoundation) (id rawLine : String) :
    (parseLine foundation id rawLine).map (fun draft => (draft.title, draft.isChecklistItem)) =
      readLine foundation rawLine.toList := by
  rw [readLine, String.ofList_toList]
  unfold parseLine
  dsimp only
  split_ifs
  · rfl
  cases Pattern.capture foundation.isBoundary (checklistRegex foundation) 2 (trimmed rawLine) with
  | some captured => dsimp only; split_ifs <;> rfl
  | none =>
    cases Pattern.capture foundation.isBoundary (numberedRegex foundation) 1
      (trimmed rawLine) with
    | some captured => dsimp only; split_ifs <;> rfl
    | none =>
      cases Pattern.capture foundation.isBoundary (bulletRegex foundation) 1
        (trimmed rawLine) with
      | some captured => dsimp only [Option.bind_some]; split_ifs <;> rfl
      | none => rfl

/-- The drafts are read line by line. -/
theorem map_parseTaskDrafts (foundation : TextFoundation) (uuid : ℕ → String) (text : String) :
    (parseTaskDrafts foundation uuid text).map
        (fun draft => (draft.title, draft.isChecklistItem)) =
      Lines.readLines isNewline (readLine foundation) text.toList := by
  unfold parseTaskDrafts lines Lines.readLines
  induction text.toList.splitOnP isNewline generalizing uuid with
  | nil => rfl
  | cons line others ih =>
    have hothers := ih fun index => uuid (index + 1)
    have hline := map_parseLine foundation (uuid 0) (String.ofList line)
    rw [String.toList_ofList] at hline
    rw [List.map_cons, List.mapIdx_cons, List.filterMap_cons, List.filterMap_cons, ← hline]
    cases hdraft : parseLine foundation (uuid 0) (String.ofList line) with
    | none => simpa [hdraft] using hothers
    | some draft => simpa [hdraft] using hothers

/-- Another end of the lines makes no new link. -/
theorem hasLink_of_mergesEnds {l l' : List Char} (h : Lines.MergesEnds '\r' '\n' l l')
    (hlink : HasLink l') : HasLink l := by
  obtain ⟨before', text', url', rest', rfl, hlink⟩ := hlink
  obtain ⟨before, l, rfl, -, h⟩ := h.exists_split (by decide)
  obtain ⟨text, l, rfl, htext, h⟩ := h.exists_split (by decide)
  rw [← List.nil_append ('(' :: _)] at h
  obtain ⟨nothing, l, rfl, hnothing, h⟩ := h.exists_split (by decide)
  obtain ⟨url, rest, rfl, hurl, -⟩ := h.exists_split (by decide)
  obtain rfl : nothing = [] := by
    cases hnothing
    rfl
  refine ⟨before, text, url, rest, rfl, ?_, ?_, ?_, ?_⟩
  · exact htext.ne_nil hlink.text_ne_nil
  · exact fun hmem => hlink.notMem_text (htext.mem_of_ne (by decide) hmem)
  · exact hurl.ne_nil hlink.url_ne_nil
  · exact fun hmem => hlink.notMem_url (hurl.mem_of_ne (by decide) hmem)

theorem mergesEnds_newlines (isBoundary : List Char → List Char → Bool) (l : List Char) :
    Lines.MergesEnds '\r' '\n' l
      (replacing isEquivalent isBoundary "\r\n".toList "\n".toList 0 [] l) :=
  Lines.mergesEnds_replacing (fun _ => eq_of_isEquivalent (by decide))
    (fun _ => eq_of_isEquivalent (by decide)) isBoundary [] l

/-- The drafts of a short text without a backtick and a link are those of its lines. -/
theorem map_taskDrafts_prepareSharedText (h : ReadsLists foundation joins) (uuid : ℕ → String)
    (start finish : Date) {rawText : String}
    (hcount : foundation.count rawText ≤ maxShareCharacters)
    (hnone : ∀ c ∈ rawText.toList, isEquivalent '`' c = false)
    (hno : ∀ before rest, rawText.toList = before ++ rest →
      Pattern.firstMatch linkPattern rest = none) :
    (prepareSharedText foundation uuid start finish rawText).taskDrafts.map
        (fun draft => (draft.title, draft.isChecklistItem)) =
      Lines.readLines isNewline (readLine foundation) rawText.toList := by
  have hmerges : Lines.MergesEnds '\r' '\n' rawText.toList
      (foundation.replacingOccurrences "\r\n" "\n" rawText).toList := by
    have hnewlines := mergesEnds_newlines foundation.isBoundary rawText.toList
    rwa [h.newlines, String.toList_ofList]
  have hnone' : ∀ c ∈ (foundation.replacingOccurrences "\r\n" "\n" rawText).toList,
      isEquivalent '`' c = false := fun c hc => hnone c (hmerges.mem hc)
  have hno' := not_hasLink_iff.mp fun hlink =>
    not_hasLink_iff.mpr hno (hasLink_of_mergesEnds hmerges hlink)
  have hshort : ¬foundation.count (foundation.replacingOccurrences "\r\n" "\n" rawText) >
      maxShareCharacters := by
    have hle := h.count_newlines rawText
    omega
  unfold prepareSharedText
  dsimp only
  rw [map_parseTaskDrafts, if_neg hshort,
    normalizeMarkdownForImport_eq_trimmed h.findsBackticks hnone' hno', toList_trimmed,
    Lines.readLines_trim (ignoresBlanks_readLine foundation),
    Lines.readLines_of_mergesEnds (ignoresBlanks_readLine foundation) rfl rfl hmerges]

/-- For every text with a list of at least two items : the drafts are the items exactly if each
title begins with a character of its own. -/
theorem recoversList_iff (h : ReadsLists foundation joins) (uuid : ℕ → String)
    (start finish : Date) {rawText : String} {list : List ListLine}
    (hlines : lines rawText = list.map ListLine.written)
    (hvalid : ∀ line ∈ list, line.IsValid foundation)
    (htwo : 2 ≤ (list.filterMap ListLine.item?).length)
    (hcount : foundation.count rawText ≤ maxShareCharacters)
    (hnone : ∀ c ∈ rawText.toList, isEquivalent '`' c = false)
    (hno : ∀ before rest, rawText.toList = before ++ rest →
      Pattern.firstMatch linkPattern rest = none) :
    RecoversList (prepareSharedText foundation uuid start finish rawText)
        (list.filterMap ListLine.item?) ↔
      ∀ item ∈ list.filterMap ListLine.item?, item.TitleBegins foundation := by
  have hsplit : rawText.toList.splitOnP isNewline = list.map fun line => line.written.toList := by
    have hmap := congrArg (List.map String.toList) hlines
    simpa [lines, List.map_map, Function.comp_def] using hmap
  have hread : Lines.readLines isNewline (readLine foundation) rawText.toList =
      (list.filterMap ListLine.item?).filterMap fun item =>
        readLine foundation item.written.toList := by
    rw [Lines.readLines, hsplit, List.filterMap_map, List.filterMap_filterMap]
    refine List.filterMap_congr fun line hline => ?_
    rw [Function.comp_apply, readLine_written (hvalid line hline)]
  have hdrafts := map_taskDrafts_prepareSharedText h uuid start finish hcount hnone hno
  rw [hread] at hdrafts
  have hitem : ∀ item ∈ list.filterMap ListLine.item?,
      (readLine foundation item.written.toList =
        some (trimmed item.title, item.marker.isCheckbox) ↔ item.TitleBegins foundation) := by
    intro item hmem
    obtain ⟨line, hline, heq⟩ := List.mem_filterMap.mp hmem
    cases line with
    | other line => cases heq
    | entry item' =>
      obtain rfl := Option.some_inj.mp heq
      have hwritten : item'.written.toList ∈ rawText.toList.splitOnP isNewline := by
        rw [hsplit]
        exact List.mem_map.mpr ⟨_, hline, rfl⟩
      exact readLine_item_iff h (hvalid _ hline) (Lines.forall_not_of_mem_lines hwritten)
  constructor
  · rintro ⟨hrecovered, -⟩ item hmem
    rw [hdrafts, List.filterMap_eq_map_iff_forall_eq_some] at hrecovered
    exact (hitem item hmem).mp (hrecovered item hmem)
  · intro hbegins
    have hrecovered : ((list.filterMap ListLine.item?).filterMap fun item =>
        readLine foundation item.written.toList) = (list.filterMap ListLine.item?).map fun item =>
          (trimmed item.title, item.marker.isCheckbox) :=
      List.filterMap_eq_map_iff_forall_eq_some.mpr fun item hmem =>
        (hitem item hmem).mpr (hbegins item hmem)
    rw [← hdrafts] at hrecovered
    refine ⟨hrecovered, ?_⟩
    have hlength := congrArg List.length hrecovered
    rw [List.length_map, List.length_map] at hlength
    rw [destination_prepareSharedText, inferredDestination, if_pos (by omega)]

/-! ## Latin texts -/

/-- Where two ends of a line become one there is no character more. -/
theorem characterCount_of_mergesEnds {l l' : List Char} (h : Lines.MergesEnds '\r' '\n' l l')
    (last : Option Char) :
    characterCount latinJoins last l' ≤ characterCount latinJoins last l := by
  induction h generalizing last with
  | nil => exact le_rfl
  | keep c _ ih => exact Nat.add_le_add_left (ih _) _
  | @merge l l' _ ih =>
    have hnext := ih (some '\n')
    have hreturn : (last.any fun b => latinJoins b '\r') = false := by
      cases last <;> simp [latinJoins]
    have hend : ((some '\r').any fun b => latinJoins b '\n') = true := rfl
    rw [characterCount, characterCount, characterCount, hreturn, hend, if_neg Bool.false_ne_true,
      if_pos rfl]
    split_ifs <;> omega

/-- The lists of Latin text are read. -/
theorem readsLists_latinFoundation : ReadsLists latinFoundation latinJoins where
  findsBackticks := findsBackticks_latinFoundation
  newlines _ := rfl
  count_newlines text := by
    have hmerges := mergesEnds_newlines (pairBoundary latinJoins) text.toList
    have hle := characterCount_of_mergesEnds hmerges none
    rw [← String.toList_ofList (l := replacing _ _ _ _ _ _ _)] at hle
    exact hle
  whiteSpace c hc := by
    have hmem : c ∈ [' ', '\t', '\n', '\r'] := of_decide_eq_true hc
    simp only [List.mem_cons, List.not_mem_nil, or_false] at hmem
    rcases hmem with rfl | rfl | rfl | rfl <;> rfl
  decimalDigit c hc := by
    have hdigit : 48 ≤ c.toNat ∧ c.toNat ≤ 57 := Char.isDigit_iff_toNat.mp hc
    refine ⟨?_, ?_, ?_⟩
    · simp [isWhitespaceOrNewline]
      omega
    · simp only [List.mem_cons, List.not_mem_nil, or_false]
      rintro (rfl | rfl | rfl) <;> revert hdigit <;> decide
    · simp only [List.mem_cons, List.not_mem_nil, or_false]
      rintro (rfl | rfl) <;> revert hdigit <;> decide
  boundary_end l := by
    cases hlast : l.getLast? <;> simp [latinFoundation, pairBoundary, hlast]

/-- A link has a parenthesis. -/
theorem firstMatch_of_notMem {l : List Char} (h : '(' ∉ l) :
    ∀ before rest, l = before ++ rest → Pattern.firstMatch linkPattern rest = none := by
  refine not_hasLink_iff.mp ?_
  rintro ⟨before, text, url, rest, rfl, -⟩
  exact h (by simp [link])

theorem not_startsWithCheckbox {title : String} (h : (trimmed title).toList.head? ≠ some '[') :
    ¬StartsWithCheckbox foundation title := by
  rintro ⟨state, space, rest, heq, -⟩
  rw [heq] at h
  exact h rfl

theorem notEquivalent_of_all {l : List Char} (h : (l.all fun c => !isEquivalent '`' c) = true) :
    ∀ c ∈ l, isEquivalent '`' c = false := by
  simpa using h

/-- A numbered item whose title looks like a bullet, and a checkbox. -/
def shoppingList : List ListLine :=
  [.other "Buy:", .entry ⟨[' ', ' '], .number ['1'] ')', [' '], "- Milk"⟩, .other "",
    .entry ⟨[], .checkbox '*' [' '] 'x', [' '], "Eggs "⟩, .other "Thanks"]

theorem recoversList_shoppingList :
    RecoversList (prepareSharedText latinFoundation Nat.repr (.seconds 0) (.seconds 1)
      "Buy:\n  1) - Milk\n\n* [x] Eggs \nThanks") (shoppingList.filterMap ListLine.item?) := by
  refine (recoversList_iff readsLists_latinFoundation Nat.repr (.seconds 0) (.seconds 1)
    (by decide +kernel) ?_ (by decide) (by decide +kernel)
    (notEquivalent_of_all (by decide +kernel)) (firstMatch_of_notMem (by decide +kernel))).mpr ?_
  · simp only [shoppingList, List.forall_mem_cons]
    refine ⟨Or.inr (by decide +kernel), ?_, Or.inl (by decide +kernel), ?_,
      Or.inr (by decide +kernel), by simp⟩
    · exact ⟨List.all_eq_true.mp rfl, ⟨by simp, List.all_eq_true.mp rfl, by simp⟩, by simp,
        List.all_eq_true.mp rfl, by decide +kernel, not_startsWithCheckbox (by decide +kernel)⟩
    · exact ⟨by simp, ⟨by simp, by simp, List.all_eq_true.mp rfl, by simp⟩, by simp,
        List.all_eq_true.mp rfl, by decide +kernel, not_startsWithCheckbox (by decide +kernel)⟩
  · decide +kernel

/-- A title that begins with an accent, which is one character with the space before it. -/
def accentedList : List ListLine :=
  [.entry ⟨[], .bullet '-', [' '], "Milk"⟩, .entry ⟨[], .bullet '-', [' '], "\u0301Eggs"⟩]

/-- Its second item is lost. -/
theorem not_recoversList_accentedList :
    lines "- Milk\n- \u0301Eggs" = accentedList.map ListLine.written ∧
      (∀ line ∈ accentedList, line.IsValid latinFoundation) ∧
      (accentedList.filterMap ListLine.item?).length = 2 ∧
      latinFoundation.count "- Milk\n- \u0301Eggs" ≤ maxShareCharacters ∧
      (∀ c ∈ "- Milk\n- \u0301Eggs".toList, isEquivalent '`' c = false) ∧
      (∀ before rest, "- Milk\n- \u0301Eggs".toList = before ++ rest →
        Pattern.firstMatch linkPattern rest = none) ∧
      (prepareSharedText latinFoundation Nat.repr (.seconds 0) (.seconds 1)
        "- Milk\n- \u0301Eggs").taskDrafts.map SharedTaskDraft.title = ["Milk"] ∧
      ¬RecoversList (prepareSharedText latinFoundation Nat.repr (.seconds 0) (.seconds 1)
        "- Milk\n- \u0301Eggs") (accentedList.filterMap ListLine.item?) := by
  have hdrafts : (prepareSharedText latinFoundation Nat.repr (.seconds 0) (.seconds 1)
      "- Milk\n- \u0301Eggs").taskDrafts.map SharedTaskDraft.title = ["Milk"] := by
    decide +kernel
  refine ⟨by decide +kernel, ?_, by decide, by decide +kernel,
    notEquivalent_of_all (by decide +kernel), firstMatch_of_notMem (by decide +kernel), hdrafts,
    fun h => ?_⟩
  · simp only [accentedList, List.forall_mem_cons]
    refine ⟨?_, ?_, by simp⟩
    · exact ⟨by simp, List.mem_cons_self, by simp, List.all_eq_true.mp rfl, by decide +kernel,
        not_startsWithCheckbox (by decide +kernel)⟩
    · exact ⟨by simp, List.mem_cons_self, by simp, List.all_eq_true.mp rfl, by decide +kernel,
        not_startsWithCheckbox (by decide +kernel)⟩
  · have hlength := congrArg List.length hdrafts
    have hlength' := congrArg List.length h.drafts
    rw [List.length_map] at hlength hlength'
    rw [hlength] at hlength'
    revert hlength'
    decide

end ShareViewController

end Notelayer
