import Notelayer.Library.Words
import Notelayer.VoiceTaskParser

/-!
# The drafts of a transcript

Every pass of the parser rewrites what is no letter or digit, or the separator words `and` and
`then`. So the words of the notes are the words of the transcript, in their order, except for some
separators and for a filler word in front of a segment. The titles are short because a title is cut
between two characters, and only ever loses words (`parsesWell_parse`).
-/

namespace Notelayer

open Replacing Rewriting Characters Words

namespace VoiceTaskParser

variable (foundation : VoiceFoundation)

/-! ## Letters and digits -/

/-- What is a letter or a digit of its own : one that extends the character before it, is a mark. -/
structure KnowsContent (isContent : Char → Bool) : Prop where
  isWordCharacter : ∀ c, isContent c → foundation.isWordCharacter c
  isIgnorable : ∀ c, isContent c → foundation.isIgnorable c = false
  letter : ∀ a c, a.isLower → sameIgnoringCase a c → isContent c
  blank : ∀ c, isWhitespaceOrNewline c → isContent c = false
  punctuation : ∀ c ∈ ['|', '.', ';', ','], isContent c = false
  whiteSpace : ∀ c, foundation.isWhiteSpace c → isWhitespaceOrNewline c

/-- The word is one of these, in any case. -/
def IsOneOf (words : List String) (word : List Char) : Prop :=
  ∃ w ∈ words, List.Forall₂ (fun a c => sameIgnoringCase a c) w.toList word

/-- The word separates two tasks. -/
def IsSeparator : List Char → Prop :=
  IsOneOf ["and", "then"]

/-- The word is dropped at the start. -/
def IsFiller : List Char → Prop :=
  IsOneOf fillerWords

variable {foundation} {isContent : Char → Bool} {before m l : List Char}

theorem forall_mem_of_forall₂ {A B : Type} {R : A → B → Prop} {P : B → Prop} {x : List A}
    {y : List B} (hx : ∀ a ∈ x, ∀ b, R a b → P b) (h : List.Forall₂ R x y) : ∀ b ∈ y, P b := by
  induction h with
  | nil => simp
  | @cons a b x y hab _ ih =>
    obtain ⟨ha, hx⟩ := List.forall_mem_cons.mp hx
    exact List.forall_mem_cons.mpr ⟨ha b hab, ih hx⟩

/-- A word in some case is a word. -/
theorem KnowsContent.words_of_forall₂ (h : KnowsContent foundation isContent)
    {word : List Char} (hne : word ≠ []) (hword : ∀ a ∈ word, a.isLower)
    (hm : List.Forall₂ (fun a c => sameIgnoringCase a c) word m) : words isContent m = [m] := by
  refine words_of_forall ?_ (forall_mem_of_forall₂ (fun a ha c => h.letter a c (hword a ha)) hm)
  rintro rfl
  cases hm
  exact hne rfl

/-! ## Word boundaries -/

theorem endsInWord_concat {c : Char} (hc : foundation.isIgnorable c = false) :
    foundation.endsInWord (before ++ [c]) = foundation.isWordCharacter c := by
  simp [VoiceFoundation.endsInWord, hc]

/-- Where a word begins, no word ends. -/
theorem KnowsContent.getLast?_of_isWordBoundary (h : KnowsContent foundation isContent)
    {c : Char} (hc : isContent c) (hboundary : foundation.isWordBoundary before (c :: l)) :
    ∀ d, before.getLast? = some d → isContent d = false := by
  intro d hd
  obtain ⟨before, rfl⟩ := List.getLast?_eq_some_iff.mp hd
  refine Bool.eq_false_iff.mpr fun hcontent => ?_
  have hends : foundation.endsInWord (before ++ [d]) = foundation.isWordCharacter d :=
    endsInWord_concat (h.isIgnorable d hcontent)
  simp [VoiceFoundation.isWordBoundary, h.isWordCharacter c hc, hends,
    h.isWordCharacter d hcontent] at hboundary

/-- Where a word ends, none begins. -/
theorem KnowsContent.head?_of_isWordBoundary (h : KnowsContent foundation isContent)
    {c : Char} (hc : isContent c) (hboundary : foundation.isWordBoundary (before ++ [c]) l) :
    ∀ d, l.head? = some d → isContent d = false := by
  intro d hd
  refine Bool.eq_false_iff.mpr fun hcontent => ?_
  simp [VoiceFoundation.isWordBoundary, hd, endsInWord_concat (h.isIgnorable c hc),
    h.isWordCharacter c hc, h.isWordCharacter d hcontent] at hboundary

/-! ## The passes -/

theorem exists_of_forall₂_append {A B : Type} {R : A → B → Prop} {x y : List A} {m : List B}
    (h : List.Forall₂ R (x ++ y) m) :
    ∃ m₁ m₂, m = m₁ ++ m₂ ∧ List.Forall₂ R x m₁ ∧ List.Forall₂ R y m₂ := by
  refine ⟨m.take x.length, m.drop x.length, (List.take_append_drop _ _).symm, ?_, ?_⟩
  · simpa using List.forall₂_take x.length h
  · simpa using List.forall₂_drop x.length h

/-- A word between two `\b` is cut off on both sides. -/
theorem KnowsContent.spec_of_boundedLength (h : KnowsContent foundation isContent) (word : String)
    {x y : List Char} {a b : Char} (ha : a.isLower) (hb : b.isLower) (hx : word.toList = a :: x)
    (hy : word.toList = y ++ [b]) (hne : m ≠ [])
    (hm : boundedLength foundation word before (m ++ l) = m.length) :
    (∀ c, before.getLast? = some c → isContent c = false) ∧
      (∀ c, l.head? = some c → isContent c = false) ∧
      List.Forall₂ (fun a c => sameIgnoringCase a c) word.toList m := by
  obtain ⟨hword, hbefore, hl⟩ := spec_of_targetLength hne hm
  refine ⟨?_, ?_, hword⟩
  · rw [hx] at hword
    obtain ⟨c, m, hc, -, rfl⟩ := List.forall₂_cons_left_iff.mp hword
    exact h.getLast?_of_isWordBoundary (h.letter a c ha hc) hbefore
  · rw [hy] at hword
    obtain ⟨m, last, rfl, -, hlast⟩ := exists_of_forall₂_append hword
    obtain ⟨c, _, hc, hnil, rfl⟩ := List.forall₂_cons_left_iff.mp hlast
    obtain rfl := List.forall₂_nil_left_iff.mp hnil
    rw [← List.append_assoc] at hl
    exact h.head?_of_isWordBoundary (h.letter b c hb hc) hl

theorem KnowsContent.matchesWords_then (h : KnowsContent foundation isContent) :
    MatchesWords isContent (boundedLength foundation "then") IsSeparator := by
  intro before m l hne hm
  obtain ⟨hbefore, hl, hword⟩ := h.spec_of_boundedLength "then" (x := ['h', 'e', 'n'])
    (y := ['t', 'h', 'e']) (a := 't') (b := 'n') rfl rfl rfl rfl hne hm
  refine ⟨Or.inl hbefore, Or.inr hl, ?_⟩
  rw [h.words_of_forall₂ (by simp) (by simp) hword, List.forall_mem_singleton]
  exact ⟨"then", by simp, hword⟩

/-- `and then` matches separators. -/
theorem KnowsContent.matchesWords_andThen (h : KnowsContent foundation isContent) :
    MatchesWords isContent (boundedLength foundation "and then") IsSeparator := by
  intro before m l hne hm
  obtain ⟨hbefore, hl, hword⟩ := h.spec_of_boundedLength "and then" (x := "nd then".toList)
    (y := "and the".toList) (a := 'a') (b := 'n') rfl rfl rfl rfl hne hm
  refine ⟨Or.inl hbefore, Or.inr hl, ?_⟩
  obtain ⟨first, rest, rfl, hfirst, hrest⟩ :=
    exists_of_forall₂_append (x := "and".toList) (y := ' ' :: "then".toList) hword
  obtain ⟨c, last, hc, hlast, rfl⟩ := List.forall₂_cons_left_iff.mp hrest
  obtain rfl : c = ' ' := by simpa [sameIgnoringCase] using hc
  rw [words_append_cons (h.blank ' ' rfl), h.words_of_forall₂ (by simp) (by simp) hfirst,
    h.words_of_forall₂ (by simp) (by simp) hlast]
  simp only [List.singleton_append, List.forall_mem_cons]
  exact ⟨⟨"and", by simp, hfirst⟩, ⟨"then", by simp, hlast⟩, by simp⟩

/-- What has no content, may be replaced. -/
theorem matchesWords_of_forall_not {matchLength : List Char → List Char → ℕ}
    {q : List Char → Prop} (h : ∀ before m l, m ≠ [] → matchLength before (m ++ l) = m.length →
      ∀ c ∈ m, isContent c = false) : MatchesWords isContent matchLength q := by
  intro before m l hne hm
  have hall := h before m l hne hm
  refine ⟨Or.inr fun c hc => hall c (List.mem_of_mem_head? hc),
    Or.inl fun c hc => hall c (List.mem_of_getLast? hc), ?_⟩
  simp [words_of_forall_not hall]

theorem forall_of_patternLength_some {p : Char → Bool} (hne : m ≠ [])
    (hm : patternLength [.some p] before (m ++ l) = m.length) : ∀ c ∈ m, p c := by
  obtain ⟨groups, hmatches⟩ := exists_matches_of_patternLength hne hm
  simp only [Pattern.matches_some_iff, Pattern.matches_nil_iff] at hmatches
  obtain ⟨m', _, hsplit, ⟨-, hall⟩, -, rfl⟩ := hmatches
  obtain rfl := List.append_cancel_right hsplit
  exact List.all_eq_true.mp hall

theorem matchesWords_some {p : Char → Bool} {q : List Char → Prop}
    (hp : ∀ c, p c → isContent c = false) :
    MatchesWords isContent (patternLength [.some p]) q :=
  matchesWords_of_forall_not fun _ _ _ hne hm c hc =>
    hp c (forall_of_patternLength_some hne hm c hc)

theorem matchesWords_one {p : Char → Bool} {q : List Char → Prop}
    (hp : ∀ c, p c → isContent c = false) :
    MatchesWords isContent (patternLength [.one p]) q := by
  refine matchesWords_of_forall_not fun before m l hne hm => ?_
  obtain ⟨groups, hmatches⟩ := exists_matches_of_patternLength hne hm
  simp only [Pattern.matches_one_iff, Pattern.matches_nil_iff] at hmatches
  obtain ⟨c, _, hsplit, hc, -, rfl⟩ := hmatches
  obtain rfl : m = [c] := List.append_cancel_right hsplit
  simpa using hp c hc

/-- A comma with `and` matches a separator. -/
theorem KnowsContent.matchesWords_comma (h : KnowsContent foundation isContent) :
    MatchesWords isContent (patternLength (commaPattern foundation)) IsSeparator := by
  intro before m l hne hm
  obtain ⟨groups, hmatches⟩ := exists_matches_of_patternLength hne hm
  obtain ⟨-, x, word, y, hsplit, ⟨-, hxall⟩, hword, hy, hyall⟩ :=
    matches_commaPattern_iff.mp hmatches
  obtain rfl := List.append_cancel_right hsplit
  have hblank : ∀ x : List Char, (∀ c ∈ x, foundation.isWhiteSpace c) →
      ∀ c ∈ x, isContent c = false := fun x hx c hc => h.blank c (h.whiteSpace c (hx c hc))
  have hcomma := h.punctuation ',' (by simp)
  refine ⟨Or.inr fun c hc => ?_, Or.inl fun c hc => ?_, ?_⟩
  · obtain rfl : ',' = c := by simpa using hc
    exact hcomma
  · rw [← List.cons_append, List.getLast?_append_of_ne_nil _ hy] at hc
    exact hblank y hyall c (List.mem_of_getLast? hc)
  · rw [words_cons hcomma,
      words_append (Or.inr fun c hc => hblank y hyall c (List.mem_of_mem_head? hc)),
      words_append (Or.inl fun c hc => hblank x hxall c (List.mem_of_getLast? hc)),
      words_of_forall_not (hblank x hxall), words_of_forall_not (hblank y hyall),
      h.words_of_forall₂ (by simp) (by simp) hword]
    simpa using ⟨"and", by simp, hword⟩

/-- Every separator matches separators. -/
theorem KnowsContent.matchesWords_separators (h : KnowsContent foundation isContent) :
    ∀ separator ∈ regexSeparators foundation,
      Fits separator ∧ MatchesWords isContent separator IsSeparator := by
  have hpunctuation : ∀ c : Char, (c == '.' || c == ';') → isContent c = false := fun c hc =>
    h.punctuation c (by rcases Bool.or_eq_true _ _ ▸ hc with hc | hc <;> simp_all)
  have hnewline : ∀ c : Char, (c == '\n') → isContent c = false := fun c hc =>
    h.blank c (by rw [eq_of_beq hc]; rfl)
  simp only [regexSeparators, List.forall_mem_cons]
  exact ⟨⟨fits_targetLength, h.matchesWords_andThen⟩, ⟨fits_targetLength, h.matchesWords_then⟩,
    ⟨fits_patternLength, matchesWords_some hnewline⟩,
    ⟨fits_patternLength, matchesWords_one hpunctuation⟩,
    ⟨fits_patternLength, h.matchesWords_comma⟩, by simp⟩

/-! ## The words of the segments -/

/-- The words of a text. -/
def textWords (isContent : Char → Bool) (text : String) : List (List Char) :=
  words isContent text.toList

theorem flatten_textWords (text : String) :
    (textWords isContent text).flatten = text.toList.filter isContent :=
  flatten_words text.toList

theorem removes_replacingMatches {matchLength : List Char → List Char → ℕ} {q : List Char → Prop}
    (hfits : Fits matchLength) (hmatches : MatchesWords isContent matchLength q) {c : Char}
    (hc : isContent c = false) (text : String) :
    Removes q (textWords isContent text)
      (textWords isContent (replacingMatches matchLength (String.singleton c) text)) := by
  unfold textWords replacingMatches
  rw [String.toList_ofList, String.toList_singleton]
  exact removes_words_of_rewrites hmatches hc (rewrites_rewriting hfits [] _)

/-- The separators are gone from the marked text, and no other word is. -/
theorem KnowsContent.removes_marked (h : KnowsContent foundation isContent) (text : String) :
    Removes IsSeparator (textWords isContent text)
      (textWords isContent (marked foundation text)) := by
  have hseparators := h.matchesWords_separators
  unfold marked
  generalize regexSeparators foundation = separators at hseparators
  induction separators generalizing text with
  | nil => exact .refl _
  | cons separator separators ih =>
    obtain ⟨⟨hfits, hmatches⟩, hseparators⟩ := List.forall_mem_cons.mp hseparators
    exact (removes_replacingMatches hfits hmatches (h.punctuation '|' (by simp)) text).trans
      (ih _ hseparators)

theorem KnowsContent.textWords_trimmed (h : KnowsContent foundation isContent) (text : String) :
    textWords isContent (trimmed text) = textWords isContent text := by
  unfold textWords
  rw [toList_trimmed, words_rdropWhile h.blank, words_dropWhile h.blank]

/-- Empty parts have no words. -/
theorem flatMap_textWords_filter (parts : List String) :
    (parts.filter fun part => ¬part.isEmpty).flatMap (textWords isContent) =
      parts.flatMap (textWords isContent) := by
  induction parts with
  | nil => rfl
  | cons part parts ih =>
    by_cases hempty : part.isEmpty
    · have hnil : textWords isContent part = [] := by
        simp [textWords, String.isEmpty_iff.mp hempty]
      rw [List.filter_cons_of_neg (by simpa using hempty), ih, List.flatMap_cons, hnil,
        List.nil_append]
    · rw [List.filter_cons_of_pos (by simpa using hempty), List.flatMap_cons, List.flatMap_cons, ih]

theorem KnowsContent.flatMap_trimmedParts (h : KnowsContent foundation isContent)
    (parts : List String) : (trimmedParts parts).flatMap (textWords isContent) =
      parts.flatMap (textWords isContent) := by
  unfold trimmedParts
  rw [flatMap_textWords_filter, List.flatMap_map]
  exact List.flatMap_congr fun part _ => h.textWords_trimmed part

/-- The parts of a text between the occurrences of a separator. -/
theorem removes_componentsSeparatedBy {separator : String} {q : List Char → Prop}
    (h : KnowsContent foundation isContent)
    (hmatches : MatchesWords isContent (foundation.textLength separator) q) (text : String) :
    Removes q (textWords isContent text)
      ((foundation.componentsSeparatedBy separator text).flatMap (textWords isContent)) := by
  have hmarker := h.punctuation '|' (by simp)
  have hremoves := removes_words_of_rewrites hmatches hmarker
    (rewrites_rewriting fits_targetLength [] text.toList)
  rw [← intercalate_components, words_intercalate hmarker] at hremoves
  have hparts :
      (foundation.componentsSeparatedBy separator text).flatMap (textWords isContent) =
      (components (foundation.textLength separator) 0 [] text.toList).flatMap
        (words isContent) := by
    simp [VoiceFoundation.componentsSeparatedBy, List.flatMap_map, textWords]
  rw [hparts]
  exact hremoves

theorem KnowsContent.matchesWords_bar (h : KnowsContent foundation isContent) :
    MatchesWords isContent (foundation.textLength (String.singleton '|')) IsSeparator := by
  refine matchesWords_of_forall_not fun before m l hne hm => ?_
  obtain rfl : m = ['|'] := eq_target_of_targetLength hne hm
  simpa using h.punctuation '|' (by simp)

/-- `and` matches a separator. -/
theorem KnowsContent.matchesWords_and (h : KnowsContent foundation isContent) :
    MatchesWords isContent (foundation.textLength " and ") IsSeparator := by
  intro before m l hne hm
  obtain rfl : m = " and ".toList := eq_target_of_targetLength hne hm
  have hspace := h.blank ' ' rfl
  have hword : List.Forall₂ (fun a c => sameIgnoringCase a c) "and".toList "and".toList :=
    List.forall₂_same.mpr (by simp [sameIgnoringCase])
  have hwords : words isContent (' ' :: ("and".toList ++ [' '])) = ["and".toList] := by
    rw [words_cons hspace, words_concat hspace, h.words_of_forall₂ (by simp) (by simp) hword]
  refine ⟨Or.inr fun c hc => ?_, Or.inl fun c hc => ?_, ?_⟩
  · obtain rfl : ' ' = c := by simpa using hc
    exact hspace
  · obtain rfl : ' ' = c := by simpa using hc
    exact hspace
  · intro word hmem
    obtain rfl : word = "and".toList := List.mem_singleton.mp (hwords ▸ hmem)
    exact ⟨"and", by simp, hword⟩

/-- The separators are gone from the segments, and no other word is. -/
theorem KnowsContent.removes_splitIntoSegments (h : KnowsContent foundation isContent)
    (text : String) : Removes IsSeparator (textWords isContent text)
      ((splitIntoSegments foundation text).flatMap (textWords isContent)) := by
  have hsplit : Removes IsSeparator (textWords isContent text)
      ((trimmedParts (foundation.split '|' (marked foundation text))).flatMap
        (textWords isContent)) := by
    rw [h.flatMap_trimmedParts, VoiceFoundation.split, flatMap_textWords_filter]
    exact (h.removes_marked text).trans
      (removes_componentsSeparatedBy h h.matchesWords_bar (marked foundation text))
  unfold splitIntoSegments
  dsimp only
  generalize trimmedParts (foundation.split '|' (marked foundation text)) = segments at hsplit ⊢
  split
  · rename_i first
    split_ifs
    · rw [h.flatMap_trimmedParts]
      rw [List.flatMap_singleton] at hsplit
      exact hsplit.trans (removes_componentsSeparatedBy h h.matchesWords_and first)
    · exact hsplit
  · exact hsplit

/-- The words of the segments are those of the transcript without some separators. -/
theorem KnowsContent.removes_segments (h : KnowsContent foundation isContent)
    (transcript : String) : Removes IsSeparator (textWords isContent transcript)
      ((segments foundation transcript).flatMap (textWords isContent)) := by
  have hspaces : ∀ c, foundation.isWhiteSpace c → isContent c = false := fun c hc =>
    h.blank c (h.whiteSpace c hc)
  have hnormalized : Removes IsSeparator (textWords isContent transcript)
      (textWords isContent (normalizeTranscript foundation transcript)) := by
    unfold normalizeTranscript
    rw [h.textWords_trimmed]
    exact removes_replacingMatches fits_patternLength (matchesWords_some hspaces)
      (h.blank ' ' rfl) transcript
  unfold segments
  dsimp only
  split_ifs with hempty hsegments
  · rw [String.isEmpty_iff.mp hempty] at hnormalized
    simpa [textWords] using hnormalized
  · simpa using hnormalized
  · exact hnormalized.trans (h.removes_splitIntoSegments _)

/-- At most a filler word is missing in the notes of a segment. -/
theorem KnowsContent.textWords_removeLeadingFillerWords (h : KnowsContent foundation isContent)
    (segment : String) :
    textWords isContent segment =
        textWords isContent (removeLeadingFillerWords foundation segment) ∨
      ∃ filler, IsFiller filler ∧ textWords isContent segment =
        filler :: textWords isContent (removeLeadingFillerWords foundation segment) := by
  have hfillers : ∀ filler ∈ fillerWords,
      filler.toList ≠ [] ∧ ∀ a ∈ filler.toList, a.isLower := by
    simp [fillerWords]
  rcases removeLeadingFillerWords_cases segment with
    hrest | ⟨filler, hmem, word, spaces, rest, hsplit, hword, ⟨hne, hspaces⟩, hrest⟩
  · rw [hrest, h.textWords_trimmed]
    exact Or.inl rfl
  · have hblank : ∀ c ∈ spaces, isContent c = false := fun c hc =>
      h.blank c (h.whiteSpace c (hspaces c hc))
    refine Or.inr ⟨word, ⟨filler, hmem, hword⟩, ?_⟩
    rw [hrest, h.textWords_trimmed]
    unfold textWords
    rw [String.toList_ofList, hsplit, words_append (Or.inr fun c hc => hblank c ?_),
      words_append (Or.inl fun c hc => hblank c (List.mem_of_getLast? hc)),
      words_of_forall_not hblank,
      h.words_of_forall₂ (hfillers filler hmem).1 (hfillers filler hmem).2 hword]
    · rfl
    · rw [List.head?_append_of_ne_nil _ hne] at hc
      exact List.mem_of_mem_head? hc

/-! ## Titles -/

variable (foundation) in
/-- A boundary is seen from the next scalar on, next to a space from the scalar on the other side,
and there is one between two spaces. -/
structure KnowsCharacters (joins : Char → Char → Bool) : Prop where
  next : SeesNext foundation.isBoundary
  space : PairwiseAt foundation.isBoundary joins ' '
  spaces : joins ' ' ' ' = false

variable (foundation) in
/-- The parts of a text between its spaces. -/
def spacedParts (text : String) : List (List Char) :=
  components (singleLength foundation.isBoundary ' ') 0 [] text.toList

theorem split_space (text : String) : foundation.split ' ' text =
    ((spacedParts foundation text).map String.ofList).filter fun part => ¬part.isEmpty := rfl

theorem length_split_le (text : String) :
    (foundation.split ' ' text).length ≤ (spacedParts foundation text).length := by
  rw [split_space]
  exact (List.length_filter_le _ _).trans (List.length_map _).le

variable {joins : Char → Char → Bool}

/-- Words that are joined by spaces. -/
theorem KnowsCharacters.length_spacedParts_joined_le (h : KnowsCharacters foundation joins)
    {text : String} {parts : List String} (hne : parts ≠ [])
    (hparts : ∀ part ∈ parts, part ∈ foundation.split ' ' text) :
    (spacedParts foundation (String.intercalate " " parts)).length ≤ parts.length := by
  have hsolid : ∀ part ∈ parts.map String.toList,
      NoMatch (singleLength (pairBoundary joins) ' ') [] part [] := by
    rw [List.forall_mem_map]
    intro part hpart
    have hmem := (List.mem_filter.mp (split_space text ▸ hparts part hpart)).1
    obtain ⟨component, hcomponent, rfl⟩ := List.mem_map.mp hmem
    rw [String.toList_ofList]
    unfold spacedParts at hcomponent
    rw [h.space.singleLength_eq] at hcomponent
    refine noMatch_of_mem_components (x := []) (p := []) (l := text.toList) h.spaces (by simp)
      (noMatch_nil _ _) ?_
    obtain ⟨first, others, hsplit⟩ := List.exists_cons_of_ne_nil
      (components_ne_nil (singleLength (pairBoundary joins) ' ') 0 [] text.toList)
    rw [List.append_nil, hsplit]
    rwa [hsplit] at hcomponent
  have hle := length_components_intercalate_le (x := []) h.spaces (by simpa using hne) hsolid
    (by simp)
  unfold spacedParts
  rw [String.toList_intercalate, h.space.singleLength_eq]
  simpa using hle

/-- A title is cut off behind 54 characters, where no part begins. -/
theorem KnowsCharacters.truncatedTitle_spec (h : KnowsCharacters foundation joins)
    {title : String} (hne : title ≠ "") :
    truncatedTitle foundation title ≠ "" ∧
      foundation.count (truncatedTitle foundation title) ≤ 55 ∧
      (spacedParts foundation (truncatedTitle foundation title)).length ≤
        (spacedParts foundation title).length := by
  unfold truncatedTitle
  dsimp only
  split_ifs with hcount
  · exact ⟨hne, hcount, le_rfl⟩
  · have hcut := flatten_take_append_drop foundation.isBoundary 54 [] title.toList
    have htake := characters_take h.next 54 [] title.toList
    unfold VoiceFoundation.count at hcount ⊢
    have hlong : 54 < (characters foundation.isBoundary [] title.toList).length := by omega
    have hboundary := isBoundary_take (Nat.succ_pos 53) [] _ hlong
    have hlength : ((characters foundation.isBoundary [] title.toList).take 54).length ≤ 54 :=
      List.length_take_le _ _
    have hone := length_characters_concat_le h.next []
      ((characters foundation.isBoundary [] title.toList).take 54).flatten '…'
    unfold VoiceFoundation.firstCharacters spacedParts
    rw [htake] at hone
    generalize ((characters foundation.isBoundary [] title.toList).take 54).flatten = p at *
    generalize ((characters foundation.isBoundary [] title.toList).drop 54).flatten = rest at *
    have hlist : (String.ofList p ++ "…").toList = p ++ ['…'] := by
      simp [String.toList_append]
    rw [hlist]
    refine ⟨fun hempty => ?_, hone.trans (Nat.succ_le_succ hlength), ?_⟩
    · have hnil := congrArg String.toList hempty
      rw [hlist] at hnil
      simp at hnil
    · rw [← hcut]
      exact length_components_concat_le h.next (by decide) hboundary

theorem ne_empty_intercalate {separator first : String} (h : first ≠ "") (parts : List String) :
    String.intercalate separator (first :: parts) ≠ "" := by
  cases parts with
  | nil => rwa [String.intercalate_singleton]
  | cons second parts =>
    rw [String.intercalate_cons_cons]
    simp [h]

theorem ne_nil_split {text : String} {c : Char} (hc : c ∈ text.toList) (hspace : c ≠ ' ') :
    foundation.split ' ' text ≠ [] := by
  obtain ⟨part, hpart, hmem⟩ : ∃ part ∈ spacedParts foundation text, c ∈ part :=
    exists_mem_components (fun h => hspace (List.mem_singleton.mp h)) [] hc
  refine List.ne_nil_of_mem (a := String.ofList part) ?_
  rw [split_space, List.mem_filter]
  refine ⟨List.mem_map_of_mem hpart, ?_⟩
  simpa using List.ne_nil_of_mem hmem

/-- A title is not empty, has at most 55 characters and at most six words. -/
theorem KnowsCharacters.inferTitle_spec (h : KnowsCharacters foundation joins) (text : String) :
    inferTitle foundation text ≠ "" ∧ foundation.count (inferTitle foundation text) ≤ 55 ∧
      (foundation.split ' ' (inferTitle foundation text)).length ≤ 6 := by
  unfold inferTitle
  dsimp only
  split_ifs with hempty
  · refine ⟨by simp, ?_, ?_⟩
    · exact (length_characters_le [] _).trans (by simp)
    · have hle := length_components_single_le foundation.isBoundary ' ' []
        "New task".toList
      exact (length_split_le _).trans (hle.trans (by simp))
  · have hnot : ¬∀ c ∈ (trimmed text).toList, isWhitespaceOrNewline c := by
      rw [← trimmed_eq_empty_iff, trimmed_trimmed]
      simpa using hempty
    push Not at hnot
    obtain ⟨c, hc, hspace⟩ := hnot
    have hwords : foundation.split ' ' (trimmed text) ≠ [] :=
      ne_nil_split hc (by rintro rfl; exact hspace rfl)
    have hmem : ∀ part ∈ (foundation.split ' ' (trimmed text)).take 6,
        part ∈ foundation.split ' ' (trimmed text) := fun part => List.mem_of_mem_take
    have hnonempty : ∀ part ∈ foundation.split ' ' (trimmed text), part ≠ "" := by
      intro part hpart
      simpa using (List.mem_filter.mp hpart).2
    obtain ⟨first, others, hsplit⟩ := List.exists_cons_of_ne_nil hwords
    have hjoined : String.intercalate " " ((foundation.split ' ' (trimmed text)).take 6) ≠ "" := by
      rw [hsplit, List.take_succ_cons]
      exact ne_empty_intercalate (hnonempty first (hsplit ▸ List.mem_cons_self)) _
    have hparts := h.length_spacedParts_joined_le (by simpa using hwords) hmem
    obtain ⟨hne, hcount, htitle⟩ := h.truncatedTitle_spec hjoined
    refine ⟨hne, hcount, (length_split_le _).trans (htitle.trans (hparts.trans ?_))⟩
    exact List.length_take_le _ _

/-! ## Blank transcripts -/

theorem normalizeTranscript_eq_empty_iff
    (h : ∀ c, foundation.isWhiteSpace c → isWhitespaceOrNewline c) (transcript : String) :
    normalizeTranscript foundation transcript = "" ↔
      ∀ c ∈ transcript.toList, isWhitespaceOrNewline c := by
  have hrewrites : Rewrites (patternLength [.some foundation.isWhiteSpace]) " ".toList [] _ _ :=
    rewrites_rewriting fits_patternLength [] transcript.toList
  unfold normalizeTranscript replacingMatches
  rw [trimmed_eq_empty_iff, String.toList_ofList]
  refine hrewrites.forall_iff (by simp [isWhitespaceOrNewline]) fun before m l hne hm c hc => ?_
  exact h c (forall_of_patternLength_some hne hm c hc)

theorem segments_eq_nil_iff (transcript : String) : segments foundation transcript = [] ↔
    normalizeTranscript foundation transcript = "" := by
  unfold segments
  dsimp only
  split_ifs with hempty hsegments
  · simpa using hempty
  · simpa using hempty
  · simp_all

/-! ## Categories -/

/-- An inferred category exists. -/
theorem mem_inferCategories {text id : String} {existingCategories : List Category}
    (hid : id ∈ inferCategories foundation text existingCategories) :
    ∃ category ∈ existingCategories, category.id = id := by
  unfold inferCategories at hid
  dsimp only at hid
  split_ifs at hid
  · obtain ⟨synonym, -, hfound⟩ := List.exists_of_findSome?_eq_some (Option.mem_toList.mp hid)
    split_ifs at hfound
    obtain ⟨category, hcategory, rfl⟩ := Option.map_eq_some_iff.mp hfound
    exact ⟨category, List.mem_of_find?_eq_some hcategory, rfl⟩
  · rw [List.mem_insertionSort, List.mem_dedup, List.mem_map] at hid
    obtain ⟨category, hcategory, rfl⟩ := hid
    exact ⟨category, List.mem_of_mem_filter hcategory, rfl⟩

/-- The categories are sorted and without duplicates. -/
theorem sorted_inferCategories (text : String) (existingCategories : List Category) :
    (inferCategories foundation text existingCategories).Pairwise (· ≤ ·) ∧
      (inferCategories foundation text existingCategories).Nodup := by
  unfold inferCategories
  dsimp only
  split_ifs
  · generalize synonymMap.findSome? _ = found
    cases found with
    | none => exact ⟨.nil, List.nodup_nil⟩
    | some id => exact ⟨List.pairwise_singleton _ id, List.nodup_singleton id⟩
  · generalize (existingCategories.filter _).map Category.id = ids
    exact ⟨List.pairwise_insertionSort (· ≤ ·) ids.dedup,
      (List.perm_insertionSort _ _).nodup_iff.mpr ids.nodup_dedup⟩

/-! ## Drafts -/

/-- At most a filler word is missing in front of the notes. -/
def KeepsWords (isContent : Char → Bool) (part : List (List Char)) (notes : String) : Prop :=
  part = textWords isContent notes ∨
    ∃ filler, IsFiller filler ∧ part = filler :: textWords isContent notes

variable (foundation isContent) in
/-- What the drafts of a transcript are, with the words of each part of it. -/
structure ParsesWell (transcript : String) (existingCategories : List Category)
    (drafts : List VoiceParsedTaskDraft) : Prop where
  blank : drafts = [] ↔ ∀ c ∈ transcript.toList, isWhitespaceOrNewline c
  titles : ∀ draft ∈ drafts, draft.title ≠ "" ∧ foundation.count draft.title ≤ 55 ∧
    (foundation.split ' ' draft.title).length ≤ 6
  categories : ∀ draft ∈ drafts,
    (∀ id ∈ draft.categories, ∃ category ∈ existingCategories, category.id = id) ∧
      draft.categories.Pairwise (· ≤ ·) ∧ draft.categories.Nodup
  content : ∃ parts, List.Forall₂ (fun part draft => KeepsWords isContent part draft.notes)
      parts drafts ∧
    Removes IsSeparator (textWords isContent transcript) parts.flatten

theorem forall₂_mapIdx {A B : Type} {R : A → B → Prop} {f : ℕ → A → B} {l : List A}
    (h : ∀ i, ∀ a ∈ l, R a (f i a)) : List.Forall₂ R l (l.mapIdx f) := by
  induction l generalizing f with
  | nil => exact .nil
  | cons a l ih =>
    rw [List.mapIdx_cons]
    exact .cons (h 0 a List.mem_cons_self)
      (ih fun i b hb => h (i + 1) b (List.mem_cons_of_mem a hb))

section Segment

variable {calendar : Calendar} {id segment : String} {existingCategories : List Category}
  {now : Date}

@[simp] theorem title_parseSegment :
    (parseSegment foundation calendar id segment existingCategories now).title =
      inferTitle foundation (removeLeadingFillerWords foundation segment) := by
  simp only [parseSegment]

@[simp] theorem notes_parseSegment :
    (parseSegment foundation calendar id segment existingCategories now).notes =
      removeLeadingFillerWords foundation segment := by
  simp only [parseSegment]

@[simp] theorem categories_parseSegment :
    (parseSegment foundation calendar id segment existingCategories now).categories =
      inferCategories foundation (removeLeadingFillerWords foundation segment)
        existingCategories := by
  simp only [parseSegment]

end Segment

theorem exists_of_mem_parse {calendar : Calendar} {newId : ℕ → String} {transcript : String}
    {existingCategories : List Category} {now : Date} {draft : VoiceParsedTaskDraft}
    (h : draft ∈ parse foundation calendar newId transcript existingCategories now) :
    ∃ i segment, draft =
      parseSegment foundation calendar (newId i) segment existingCategories now := by
  obtain ⟨i, hi, rfl⟩ := List.mem_mapIdx.mp h
  exact ⟨i, _, rfl⟩

/-- For every transcript : there are drafts unless it is blank, their titles are short, their
categories exist, and their notes have the words of the transcript. -/
theorem parsesWell_parse (hcontent : KnowsContent foundation isContent)
    (hcharacters : KnowsCharacters foundation joins) (calendar : Calendar) (newId : ℕ → String)
    (transcript : String) (existingCategories : List Category) (now : Date) :
    ParsesWell foundation isContent transcript existingCategories
      (parse foundation calendar newId transcript existingCategories now) where
  blank := by
    rw [← normalizeTranscript_eq_empty_iff hcontent.whiteSpace, ← segments_eq_nil_iff, parse,
      List.mapIdx_eq_nil_iff]
  titles := by
    intro draft hdraft
    obtain ⟨i, segment, rfl⟩ := exists_of_mem_parse hdraft
    rw [title_parseSegment]
    exact hcharacters.inferTitle_spec _
  categories := by
    intro draft hdraft
    obtain ⟨i, segment, rfl⟩ := exists_of_mem_parse hdraft
    rw [categories_parseSegment]
    exact ⟨fun id => mem_inferCategories, sorted_inferCategories _ _⟩
  content := by
    refine ⟨(segments foundation transcript).map (textWords isContent), ?_, ?_⟩
    · rw [List.forall₂_map_left_iff]
      refine forall₂_mapIdx fun i segment _ => ?_
      rw [notes_parseSegment]
      exact hcontent.textWords_removeLeadingFillerWords segment
    · exact hcontent.removes_segments transcript

/-! ## Latin letters and digits -/

theorem isUpper_iff {c : Char} : c.isUpper ↔ 65 ≤ c.toNat ∧ c.toNat ≤ 90 := by
  change decide (c.val ≥ 'A'.val ∧ c.val ≤ 'Z'.val) = true ↔ _
  rw [decide_eq_true_eq, ge_iff_le, UInt32.le_iff_toNat_le, UInt32.le_iff_toNat_le]
  rfl

theorem isLower_iff {c : Char} : c.isLower ↔ 97 ≤ c.toNat ∧ c.toNat ≤ 122 := by
  change (decide (c.val ≥ 'a'.val) && decide (c.val ≤ 'z'.val)) = true ↔ _
  rw [Bool.and_eq_true, decide_eq_true_eq, decide_eq_true_eq, ge_iff_le, UInt32.le_iff_toNat_le,
    UInt32.le_iff_toNat_le]
  rfl

theorem isAlpha_iff {c : Char} : c.isAlpha ↔ c.isUpper ∨ c.isLower := by
  change (c.isUpper || c.isLower) = true ↔ _
  rw [Bool.or_eq_true]

/-- A lower-case letter has an upper case. -/
theorem isUpper_toUpper {c : Char} (h : c.isLower) : c.toUpper.isUpper := by
  obtain ⟨ha, hz⟩ := isLower_iff.mp h
  have hcase : 'a'.val ≤ c.val ∧ c.val ≤ 'z'.val :=
    ⟨UInt32.le_iff_toNat_le.mpr ha, UInt32.le_iff_toNat_le.mpr hz⟩
  have hval : c.toUpper.val = c.val + ('A'.val - 'a'.val) := by
    delta Char.toUpper
    rw [dif_pos hcase]
  have hdifference : ('A'.val - 'a'.val).toNat = 2 ^ 32 - 32 := rfl
  have hcode : c.toUpper.toNat = c.toNat - 32 := by
    rw [← Char.toNat_val, hval, UInt32.toNat_add, hdifference, Char.toNat_val]
    omega
  rw [isUpper_iff, hcode]
  omega

open VoiceFoundation (isLatinLetter joinsAccent isAccent)

/-- The letters and digits of Latin text. -/
def isLatinContent (c : Char) : Bool :=
  isLatinLetter c || c.isDigit

/-- The scalars of Latin letters and digits. -/
theorem toNat_of_isLatinContent {c : Char} (h : isLatinContent c) :
    (48 ≤ c.toNat ∧ c.toNat ≤ 57) ∨ (65 ≤ c.toNat ∧ c.toNat ≤ 90) ∨
      (97 ≤ c.toNat ∧ c.toNat ≤ 122) ∨ c.toNat = 0x17F ∨ c.toNat = 0x212A := by
  simp only [isLatinContent, isLatinLetter, Bool.or_eq_true, isAlpha_iff, isUpper_iff, isLower_iff,
    Char.isDigit_iff_toNat, beq_iff_eq] at h
  rcases h with (((h | h) | rfl) | rfl) | ⟨h₀, h₉⟩
  · simp [h]
  · simp [h]
  · decide
  · decide
  · exact Or.inl ⟨h₀, h₉⟩

/-- The content of Latin text. -/
theorem knowsContent_latin : KnowsContent .latin isLatinContent where
  isWordCharacter c h := by
    have hletter : isLatinLetter c || c.isDigit := h
    simp [VoiceFoundation.latin, hletter]
  isIgnorable c h := by
    have hcode := toNat_of_isLatinContent h
    simp only [VoiceFoundation.latin, isAccent, Bool.and_eq_false_iff, decide_eq_false_iff_not]
    omega
  letter a c ha h := by
    have hlower : a.isAlpha := isAlpha_iff.mpr (Or.inr ha)
    have hupper : a.toUpper.isAlpha := isAlpha_iff.mpr (Or.inl (isUpper_toUpper ha))
    simp only [sameIgnoringCase, Bool.or_eq_true, Bool.and_eq_true, beq_iff_eq] at h
    rcases h with ((rfl | rfl) | ⟨-, rfl⟩) | ⟨-, rfl⟩
    · simp [isLatinContent, isLatinLetter, hlower]
    · simp [isLatinContent, isLatinLetter, hupper]
    · rfl
    · rfl
  blank c h := by
    refine Bool.eq_false_iff.mpr fun hcontent => ?_
    have hcode := toNat_of_isLatinContent hcontent
    simp only [isWhitespaceOrNewline, Bool.or_eq_true, decide_eq_true_eq, beq_iff_eq,
      Bool.and_eq_true] at h
    omega
  punctuation := by simp [isLatinContent]; decide
  whiteSpace c h := by
    simp only [VoiceFoundation.latin, Bool.and_eq_true] at h
    exact h.1.1.1

theorem knowsCharacters_latin : KnowsCharacters .latin joinsAccent where
  next _ _ _ := rfl
  space := ⟨fun _ _ => rfl, fun _ _ => rfl⟩
  spaces := rfl

theorem parsesWell_parse_latin :
    ParsesWell .latin isLatinContent "Um, call mom and then please buy milk" []
        (parse .latin (Calendar.gregorian .gmt) (fun _ => "draft")
          "Um, call mom and then please buy milk" [] (Date.seconds 0)) ∧
      (parse .latin (Calendar.gregorian .gmt) (fun _ => "draft")
        "Um, call mom and then please buy milk" [] (Date.seconds 0)).map
          VoiceParsedTaskDraft.notes = ["Um, call mom", "buy milk"] :=
  ⟨parsesWell_parse knowsContent_latin knowsCharacters_latin _ _ _ _ _, by decide +kernel⟩

end VoiceTaskParser

end Notelayer
