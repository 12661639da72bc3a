import Notelayer.Calendar
import Notelayer.Library.BinaryFormat
import Notelayer.Library.Characters
import Notelayer.Patterns

/-!
# Tasks from a voice transcript

`parse` cuts a transcript into segments and makes a draft of each. The separators are replaced by
`|` one pattern after the other, and the text is split there. A single long segment is split once
more, at ` and `.

Patterns work on Unicode scalars, the other operations on user-perceived characters. Foundation and
ICU decide what a character, a word and a letter is (`VoiceFoundation`).
-/

namespace Notelayer

open Replacing Rewriting Characters

/-- What the parser uses of the platform. -/
structure VoiceFoundation where
  /-- A user-perceived character ends where the first part does. -/
  isBoundary : List Char → List Char → Bool
  /-- `\s` of a pattern. -/
  isWhiteSpace : Char → Bool
  /-- `\w` of a pattern. -/
  isWordCharacter : Char → Bool
  /-- The marks and format characters that `\b` takes as part of the character before them. -/
  isIgnorable : Char → Bool
  isLetter : List Char → Bool
  isNumber : List Char → Bool
  lowercased : String → String
  localizedCaseInsensitiveContains : String → String → Bool
  /-- The date of the first match of `NSDataDetector`, at an instant. -/
  detectedDate : String → Date → Option Date

namespace VoiceFoundation

variable (foundation : VoiceFoundation)

/-- The last scalar that is not ignored is part of a word. -/
def endsInWord (before : List Char) : Bool :=
  (before.reverse.find? fun c => !foundation.isIgnorable c).any foundation.isWordCharacter

/-- `\b` of a pattern. -/
def isWordBoundary (before l : List Char) : Bool :=
  !l.head?.any foundation.isIgnorable &&
    (l.head?.any foundation.isWordCharacter != foundation.endsInWord before)

/-- `String.count`. -/
def count (text : String) : ℕ :=
  (characters foundation.isBoundary [] text.toList).length

/-- `String(text.prefix(n))`. -/
def firstCharacters (n : ℕ) (text : String) : String :=
  String.ofList ((characters foundation.isBoundary [] text.toList).take n).flatten

/-- A text without alternatives is found between user-perceived characters. -/
def textLength (target : String) : List Char → List Char → ℕ :=
  targetLength foundation.isBoundary (· == ·) target.toList

/-- `text.contains(keyword)`. -/
def contains (text keyword : String) : Bool :=
  (List.range (text.toList.length + 1)).any fun i =>
    IsAt (· == ·) foundation.isBoundary keyword.toList (text.toList.take i) (text.toList.drop i)

/-- `components(separatedBy:)`. -/
def componentsSeparatedBy (separator text : String) : List String :=
  (components (foundation.textLength separator) 0 [] text.toList).map String.ofList

/-- `split(separator:)` of one character, without the empty parts. -/
def split (separator : Char) (text : String) : List String :=
  (foundation.componentsSeparatedBy (String.singleton separator) text).filter fun part =>
    ¬part.isEmpty

end VoiceFoundation

namespace VoiceFoundation

/-! ## Latin text -/

/-- The scalar is a combining accent. -/
def isAccent (c : Char) : Bool :=
  0x300 ≤ c.toNat && c.toNat ≤ 0x36F

/-- The letters that are the same as an English letter in some case. -/
def isLatinLetter (c : Char) : Bool :=
  c.isAlpha || c == 'ſ' || c == '\u212A'

/-- The two scalars belong to one character. -/
def joinsAccent (a b : Char) : Bool :=
  isAccent b || (a == '\r' && b == '\n')

/-- A foundation for Latin text with combining accents. It detects no dates. -/
def latin : VoiceFoundation where
  isBoundary := pairBoundary joinsAccent
  isWhiteSpace c := isWhitespaceOrNewline c && c != '\u000B' && c != '\u0085' && c != '\u200B'
  isWordCharacter c := isLatinLetter c || c.isDigit || c == '_' || isAccent c
  isIgnorable := isAccent
  isLetter c := c.head?.any isLatinLetter
  isNumber c := c.head?.any Char.isDigit
  lowercased text := String.ofList (text.toList.map Char.toLower)
  localizedCaseInsensitiveContains text keyword :=
    (components (targetLength (pairBoundary joinsAccent) (· == ·)
      (keyword.toList.map Char.toLower)) 0 [] (text.toList.map Char.toLower)).length ≠ 1
  detectedDate _ _ := none

end VoiceFoundation

namespace VoiceTaskParser

variable (foundation : VoiceFoundation) (calendar : Calendar)

/-! ## Patterns -/

/-- `(?i)` : the other case of a small letter, and the letters that fold to `s` and `k`. -/
def sameIgnoringCase (a c : Char) : Bool :=
  c == a || c == a.toUpper || (a == 's' && c == 'ſ') || (a == 'k' && c == '\u212A')

/-- A word in a pattern, ignoring case. -/
def wordPattern (word : String) : List RegexPiece :=
  word.toList.map fun a => .one (sameIgnoringCase a)

/-- The length of a match. -/
def patternLength (pattern : List RegexPiece) (_before l : List Char) : ℕ :=
  ((Pattern.firstMatch pattern l).map fun found => l.length - found.2.length).getD 0

/-- The length of a match of a word in a pattern, between two `\b`. -/
def boundedLength (word : String) : List Char → List Char → ℕ :=
  targetLength foundation.isWordBoundary sameIgnoringCase word.toList

/-- `replacingOccurrences(of:with:options: .regularExpression)`. -/
def replacingMatches (matchLength : List Char → List Char → ℕ) (replacement text : String) :
    String :=
  String.ofList (rewriting matchLength replacement.toList 0 [] text.toList)

/-! ## Segments -/

/-- The transcript with every run of white space as one space. -/
def normalizeTranscript (transcript : String) : String :=
  trimmed (replacingMatches (patternLength [.some foundation.isWhiteSpace]) " " transcript)

/-- `regexSeparators`, and the pattern that comes after them. -/
def regexSeparators : List (List Char → List Char → ℕ) :=
  [boundedLength foundation "and then",
    boundedLength foundation "then",
    patternLength [.some (· == '\n')],
    patternLength [.one fun c => c == '.' || c == ';'],
    patternLength ([.one (· == ','), .some foundation.isWhiteSpace] ++ wordPattern "and" ++
      [.some foundation.isWhiteSpace])]

/-- The text with `|` for its separators. -/
def marked (transcript : String) : String :=
  (regexSeparators foundation).foldl
    (fun working separator => replacingMatches separator "|" working) transcript

/-- The parts without the whitespace around them, as far as something is left. -/
def trimmedParts (parts : List String) : List String :=
  (parts.map trimmed).filter fun part => ¬part.isEmpty

/-- The parts of the transcript, one for each task. -/
def splitIntoSegments (transcript : String) : List String :=
  let segments := trimmedParts (foundation.split '|' (marked foundation transcript))
  match segments with
  | [first] =>
    if 12 ≤ (foundation.split ' ' first).length ∧
        foundation.localizedCaseInsensitiveContains first " and " then
      trimmedParts (foundation.componentsSeparatedBy " and " first)
    else segments
  | _ => segments

/-- The words that are dropped at the start of a part. -/
def fillerWords : List String :=
  ["um", "uh", "please", "hey", "okay", "ok"]

/-- The part of a text behind the first match of a pattern that begins with `^`. -/
def removeLeadingFillerWords (text : String) : String :=
  let rest := fillerWords.findSome? fun filler =>
    (Pattern.firstMatch (wordPattern filler ++ [.some foundation.isWhiteSpace]) text.toList).map
      Prod.snd
  trimmed (String.ofList (rest.getD text.toList))

/-! ## What is read off a segment -/

/-- The words of the name and the id. They are a set in the source. -/
def categoryKeywords (category : Category) : List String :=
  let name := foundation.lowercased category.name
  let words := ((characters foundation.isBoundary [] name.toList).splitOnP fun c =>
    !foundation.isLetter c && !foundation.isNumber c).map fun word => String.ofList word.flatten
  words.filter (fun word => 3 ≤ foundation.count word) ++ [foundation.lowercased category.id]

/-- Terms of a text, and the terms in the name of a category that they stand for. -/
def synonymMap : List (List String × List String) :=
  [(["bank", "banking", "bill", "finance", "invest", "money"], ["finance", "bank", "invest"]),
    (["home", "house", "clean", "repair"], ["home", "house"]),
    (["work", "project", "meeting", "client"], ["work", "project"]),
    (["health", "doctor", "fitness"], ["health", "wellness"])]

/-- The ids of the categories that the text mentions. -/
def inferCategories (text : String) (existingCategories : List Category) : List String :=
  let lowercased := foundation.lowercased text
  let matching := (existingCategories.filter fun category =>
    (categoryKeywords foundation category).any (foundation.contains lowercased)).map Category.id
  if matching.isEmpty then
    (synonymMap.findSome? fun synonym =>
      if synonym.1.any (foundation.contains lowercased) then
        (existingCategories.find? fun category =>
          synonym.2.any (foundation.contains (foundation.lowercased category.name))).map Category.id
      else none).toList
  else matching.dedup.insertionSort (· ≤ ·)

/-- The words for high priority. -/
def highKeywords : List String :=
  ["urgent", "asap", "critical", "high priority"]

/-- The words for deferred priority. -/
def deferredKeywords : List String :=
  ["someday", "later", "defer", "not urgent"]

/-- The words for low priority. -/
def lowKeywords : List String :=
  ["low priority", "minor"]

/-- The priority of the text, where the first table that matches decides. -/
def inferPriority (text : String) : Priority :=
  let lowercased := foundation.lowercased text
  if highKeywords.any (foundation.contains lowercased) then .high
  else if deferredKeywords.any (foundation.contains lowercased) then .deferred
  else if lowKeywords.any (foundation.contains lowercased) then .low
  else .medium

/-- The words that count as a statement of the priority. -/
def signalKeywords : List String :=
  ["urgent", "asap", "high priority", "low priority", "someday", "defer", "later"]

/-- The text states a priority. -/
def hasExplicitPrioritySignal (text : String) : Bool :=
  signalKeywords.any (foundation.contains (foundation.lowercased text))

/-- The day that the text names. -/
def inferDate (text : String) (now : Date) : Option Date :=
  let lowercased := foundation.lowercased text
  if foundation.contains lowercased "today" then some (calendar.startOfDay now)
  else if foundation.contains lowercased "tomorrow" then
    calendar.dateByAddingDays 1 (calendar.startOfDay now)
  else if foundation.contains lowercased "next week" then
    calendar.dateByAddingDays 7 (calendar.startOfDay now)
  else foundation.detectedDate text now

/-- At most 55 characters, where a longer title ends in an ellipsis. -/
def truncatedTitle (title : String) : String :=
  let maxLength := 55
  if foundation.count title ≤ maxLength then title
  else foundation.firstCharacters (maxLength - 1) title ++ "…"

/-- The first six words, within the length of a title. -/
def inferTitle (text : String) : String :=
  let cleaned := trimmed text
  if cleaned.isEmpty then "New task"
  else
    let words := foundation.split ' ' cleaned
    truncatedTitle foundation (String.intercalate " " (words.take 6))

/-! ## Drafts -/

open BinaryFormat

/-- The double next to 0.65. -/
def confidenceThreshold : ℚ :=
  binary64.round (65 / 100)

/-- `confidence += weight` where a signal is there. A `Double` rounds. -/
def addConfidence (signal : Bool) (weight confidence : ℚ) : ℚ :=
  if signal then binary64.round (confidence + binary64.round weight) else confidence

/-- From what was recognized, one signal after the other. -/
def confidence (hasCategories hasDueDate hasPriority isLong : Bool) : ℚ :=
  let confidence := binary64.round (45 / 100)
  let confidence := addConfidence hasCategories (20 / 100) confidence
  let confidence := addConfidence hasDueDate (15 / 100) confidence
  let confidence := addConfidence hasPriority (10 / 100) confidence
  let confidence := addConfidence isLong (10 / 100) confidence
  min confidence (binary64.round (95 / 100))

/-- Rounding decides about no review : the weights may be added exactly. -/
theorem confidence_lt_confidenceThreshold_iff :
    ∀ hasCategories hasDueDate hasPriority isLong : Bool,
      confidence hasCategories hasDueDate hasPriority isLong < confidenceThreshold ↔
        20 * hasCategories.toNat + 15 * hasDueDate.toNat + 10 * hasPriority.toNat +
          10 * isLong.toNat < 20 := by
  decide +kernel

/-- The draft of one part. -/
def parseSegment (id segment : String) (existingCategories : List Category) (now : Date) :
    VoiceParsedTaskDraft :=
  let cleaned := removeLeadingFillerWords foundation segment
  let guessedCategories := inferCategories foundation cleaned existingCategories
  let dueDate := inferDate foundation calendar cleaned now
  let confidenceScore := confidence (!guessedCategories.isEmpty) dueDate.isSome
    (hasExplicitPrioritySignal foundation cleaned) (12 ≤ foundation.count cleaned)
  { id := id
    title := inferTitle foundation cleaned
    notes := cleaned
    categories := guessedCategories
    priority := inferPriority foundation cleaned
    dueDate := dueDate
    confidenceScore := confidenceScore
    needsReview := confidenceScore < confidenceThreshold }

/-- The segments of a transcript, or all of it. -/
def segments (transcript : String) : List String :=
  let normalized := normalizeTranscript foundation transcript
  if normalized.isEmpty then []
  else
    let segments := splitIntoSegments foundation normalized
    if segments.isEmpty then [normalized] else segments

/-- The drafts get the ids `newId` draws. -/
def parse (newId : ℕ → String) (transcript : String) (existingCategories : List Category)
    (now : Date) : List VoiceParsedTaskDraft :=
  (segments foundation transcript).mapIdx fun i segment =>
    parseSegment foundation calendar (newId i) segment existingCategories now

/-! ## What the patterns match -/

section Matches

open Pattern

variable {pattern : List RegexPiece} {before m l rest word : List Char}
  {groups : List (List Char × List Char)}

theorem fits_patternLength : Fits (patternLength pattern) := by
  intro before l
  unfold patternLength
  cases firstMatch pattern l <;> simp

/-- A length that is not 0 is that of a match. -/
theorem exists_matches_of_patternLength (hne : m ≠ [])
    (h : patternLength pattern before (m ++ l) = m.length) :
    ∃ groups, Matches pattern (m ++ l) groups l := by
  unfold patternLength at h
  cases hfound : firstMatch pattern (m ++ l) with
  | none =>
    rw [hfound] at h
    exact absurd (List.length_eq_zero_iff.mp h.symm) hne
  | some found =>
    obtain ⟨groups, rest⟩ := found
    have hmatches := matches_of_firstMatch hfound
    obtain ⟨m', hsplit⟩ := hmatches.exists_append
    have hlength : m'.length = m.length := by
      rw [hfound, Option.map_some, Option.getD_some, hsplit, List.length_append,
        Nat.add_sub_cancel] at h
      exact h
    obtain ⟨-, rfl⟩ := List.append_inj hsplit hlength.symm
    exact ⟨groups, hmatches⟩

theorem patternLength_eq_zero (h : ∀ groups rest, ¬Matches pattern l groups rest) :
    patternLength pattern before l = 0 := by
  rw [patternLength, firstMatch_eq_none_iff.mpr h]
  rfl

/-- A run of a class is matched as far as it goes. -/
theorem patternLength_some {p : Char → Bool} (before l : List Char) :
    patternLength [.some p] before l = (l.takeWhile p).length := by
  cases hl : l.takeWhile p with
  | nil =>
    refine patternLength_eq_zero fun groups rest hmatches => ?_
    simp only [matches_some_iff, matches_nil_iff] at hmatches
    obtain ⟨m, l', rfl, ⟨hne, hall⟩, -⟩ := hmatches
    obtain ⟨c, m, rfl⟩ := List.exists_cons_of_ne_nil hne
    have hc : p c := List.all_eq_true.mp hall c List.mem_cons_self
    simp [hc] at hl
  | cons c m =>
    obtain ⟨others, htakes⟩ := exists_takes_eq_cons p l
    have hlength := congrArg List.length (List.takeWhile_append_dropWhile (p := p) (l := l))
    rw [hl, List.length_append] at hlength
    simp [patternLength, firstMatch, RegexPiece.splits, htakes, hl, ← hlength]

/-- A word of the pattern is matched in any case. -/
theorem matches_word_append_iff :
    Matches ((word.map fun a => .one (sameIgnoringCase a)) ++ pattern) l groups rest ↔
      ∃ m l', l = m ++ l' ∧ List.Forall₂ (fun a c => sameIgnoringCase a c) word m ∧
        Matches pattern l' groups rest := by
  induction word generalizing l with
  | nil => simp
  | cons a word ih =>
    rw [List.map_cons, List.cons_append, matches_one_iff]
    simp only [ih]
    constructor
    · rintro ⟨c, -, rfl, hc, m, l', rfl, hm, h⟩
      exact ⟨c :: m, l', rfl, .cons hc hm, h⟩
    · rintro ⟨m, l', rfl, hm, h⟩
      obtain ⟨c, m, hc, hmatch, rfl⟩ := List.forall₂_cons_left_iff.mp hm
      exact ⟨c, m ++ l', rfl, hc, m, l', rfl, hmatch, h⟩

/-- The pattern of a comma and `and`. -/
abbrev commaPattern : List RegexPiece :=
  [.one (· == ','), .some foundation.isWhiteSpace] ++ wordPattern "and" ++
    [.some foundation.isWhiteSpace]

variable {foundation} in
/-- What a comma with `and` is. -/
theorem matches_commaPattern_iff : Matches (commaPattern foundation) l groups rest ↔
    groups = [] ∧ ∃ x m y, l = ',' :: (x ++ m ++ y) ++ rest ∧
      (x ≠ [] ∧ ∀ c ∈ x, foundation.isWhiteSpace c) ∧
      List.Forall₂ (fun a c => sameIgnoringCase a c) "and".toList m ∧
      y ≠ [] ∧ ∀ c ∈ y, foundation.isWhiteSpace c := by
  unfold commaPattern
  simp only [wordPattern, List.cons_append, List.nil_append, matches_one_iff, matches_some_iff,
    matches_word_append_iff, matches_nil_iff, List.all_eq_true]
  constructor
  · rintro ⟨c, _, rfl, hc, x, _, rfl, hx, m, _, rfl, hm, y, _, rfl, hy, rfl, rfl⟩
    obtain rfl : c = ',' := by simpa using hc
    exact ⟨rfl, x, m, y, by simp, hx, hm, hy⟩
  · rintro ⟨rfl, x, m, y, rfl, hx, hm, hy⟩
    exact ⟨',', x ++ m ++ y ++ rest, by simp, rfl, x, m ++ y ++ rest, by simp, hx, m, y ++ rest,
      by simp, hm, y, rest, rfl, hy, rfl, rfl⟩

variable {foundation} in
/-- The text stays, or it loses a filler word and the whitespace behind it. -/
theorem removeLeadingFillerWords_cases (text : String) :
    removeLeadingFillerWords foundation text = trimmed text ∨
      ∃ filler ∈ fillerWords, ∃ word spaces rest, text.toList = word ++ (spaces ++ rest) ∧
        List.Forall₂ (fun a c => sameIgnoringCase a c) filler.toList word ∧
        (spaces ≠ [] ∧ ∀ c ∈ spaces, foundation.isWhiteSpace c) ∧
        removeLeadingFillerWords foundation text = trimmed (String.ofList rest) := by
  unfold removeLeadingFillerWords
  dsimp only
  cases hfound : fillerWords.findSome? fun filler =>
      (firstMatch (wordPattern filler ++ [.some foundation.isWhiteSpace])
        text.toList).map Prod.snd with
  | none =>
    rw [Option.getD_none, String.ofList_toList]
    exact Or.inl rfl
  | some rest =>
    obtain ⟨filler, hmem, hmatch⟩ := List.exists_of_findSome?_eq_some hfound
    obtain ⟨⟨groups, rest⟩, hfirst, rfl⟩ := Option.map_eq_some_iff.mp hmatch
    have hmatches := matches_of_firstMatch hfirst
    simp only [wordPattern, matches_word_append_iff, matches_some_iff, matches_nil_iff,
      List.all_eq_true] at hmatches
    obtain ⟨word, _, hsplit, hword, spaces, _, rfl, hspaces, -, rfl⟩ := hmatches
    exact Or.inr ⟨filler, hmem, word, spaces, rest, hsplit, hword, hspaces, rfl⟩

end Matches

end VoiceTaskParser

end Notelayer
