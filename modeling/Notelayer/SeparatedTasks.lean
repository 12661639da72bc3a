import Notelayer.VoiceSegments

/-!
# Transcripts of two tasks

`parsesApart_iff` : two texts with a separator between them are parsed as the drafts of the first
text and then those of the second, if the marker is a character of its own. It is not true of
newlines. Normalization makes a space of them before the splitter looks for them, so the texts get
into one segment, or the segments lack an `and` (`sum_countD_segments_newlines`).
-/

namespace Notelayer

open Replacing Rewriting Characters

namespace VoiceTaskParser

variable {foundation : VoiceFoundation} {joins : Char → Char → Bool}
  {a b w v before m l y z : List Char}

/-! ## Newlines -/

/-- The characters of a kind in a text. -/
def countOf (p : Char → Bool) (text : String) : ℕ :=
  text.toList.countP p

theorem countP_blank {p : Char → Bool} (hp : ∀ c, isWhitespaceOrNewline c → p c = false)
    (hw : ∀ c ∈ w, isWhitespaceOrNewline c) : w.countP p = 0 :=
  List.countP_eq_zero.mpr fun c hc => by simp [hp c (hw c hc)]

theorem countOf_trimmed {p : Char → Bool} (hp : ∀ c, isWhitespaceOrNewline c → p c = false)
    (text : String) : countOf p (trimmed text) = countOf p text := by
  obtain ⟨u, w, hsplit, hu, hw⟩ := exists_toList_eq_append_trimmed text
  have hcount : countOf p text = u.countP p + countOf p (trimmed text) + w.countP p := by
    rw [countOf, hsplit, List.countP_append, List.countP_append]
    rfl
  rw [hcount, countP_blank hp hu, countP_blank hp hw]
  omega

/-- A filler word has none of the characters. -/
theorem countOf_removeLeadingFillerWords {p : Char → Bool}
    (hp : ∀ c, isWhitespaceOrNewline c → p c = false)
    (hspace : ∀ c, foundation.isWhiteSpace c → isWhitespaceOrNewline c)
    (hfillers : ∀ filler ∈ fillerWords, ∀ a ∈ filler.toList, ∀ c, sameIgnoringCase a c → ¬p c)
    (text : String) : countOf p (removeLeadingFillerWords foundation text) = countOf p text := by
  rcases removeLeadingFillerWords_cases text with
    hrest | ⟨filler, hmem, word, spaces, rest, hsplit, hword, ⟨-, hspaces⟩, hrest⟩
  · rw [hrest, countOf_trimmed hp]
  · have hnone : word.countP p = 0 :=
      List.countP_eq_zero.mpr (forall_mem_of_forall₂ (hfillers filler hmem) hword)
    have hblank := countP_blank hp fun c hc => hspace c (hspaces c hc)
    rw [hrest, countOf_trimmed hp, countOf, countOf, hsplit, List.countP_append,
      List.countP_append, hnone, hblank, String.toList_ofList]
    omega

theorem IsSegment.countOf_bar {text : String} (h : IsSegment foundation text) :
    countOf (· == '|') (normalizeTranscript foundation text) = 0 :=
  List.countP_eq_zero.mpr fun _ hc hbar => h.bar_notMem (eq_of_beq hbar ▸ hc)

/-- The last letter of `and`, which no filler word has. -/
def isD (c : Char) : Bool :=
  c == 'd' || c == 'D'

/-- How often the last letter of `and` occurs. -/
abbrev countD : String → ℕ :=
  countOf isD

theorem isD_blank (c : Char) (hc : isWhitespaceOrNewline c) : isD c = false := by
  refine Bool.eq_false_iff.mpr fun hd => ?_
  rcases (by simpa [isD] using hd : c = 'd' ∨ c = 'D') with rfl | rfl <;> cases hc

/-- No `d` is lost with the filler words. -/
theorem countD_removeLeadingFillerWords
    (hspace : ∀ c, foundation.isWhiteSpace c → isWhitespaceOrNewline c) (text : String) :
    countD (removeLeadingFillerWords foundation text) = countD text := by
  have hletters : ∀ filler ∈ fillerWords, ∀ a ∈ filler.toList,
      sameIgnoringCase a 'd' = false ∧ sameIgnoringCase a 'D' = false := by
    simp [fillerWords, sameIgnoringCase]
  refine countOf_removeLeadingFillerWords isD_blank hspace (fun filler hmem a ha c hsame hd => ?_)
    text
  obtain ⟨hlower, hupper⟩ := hletters filler hmem a ha
  rcases (by simpa [isD] using hd : c = 'd' ∨ c = 'D') with rfl | rfl
  · rw [hlower] at hsame
    cases hsame
  · rw [hupper] at hsame
    cases hsame

/-- No bar is lost with the filler words. -/
theorem countBar_removeLeadingFillerWords
    (hspace : ∀ c, foundation.isWhiteSpace c → isWhitespaceOrNewline c) (text : String) :
    countOf (· == '|') (removeLeadingFillerWords foundation text) = countOf (· == '|') text := by
  have hletters : ∀ filler ∈ fillerWords, ∀ a ∈ filler.toList,
      sameIgnoringCase a '|' = false := by
    simp [fillerWords, sameIgnoringCase]
  refine countOf_removeLeadingFillerWords (fun c hc => ?_) hspace
    (fun filler hmem a ha c hsame hbar => ?_) text
  · refine Bool.eq_false_iff.mpr fun hbar => ?_
    rw [eq_of_beq hbar] at hc
    cases hc
  · rw [eq_of_beq hbar, hletters filler hmem a ha] at hsame
    cases hsame

/-- No `d` is lost with the empty parts. -/
theorem sum_countD_filter (parts : List String) :
    ((parts.filter fun part => ¬part.isEmpty).map countD).sum = (parts.map countD).sum := by
  induction parts with
  | nil => rfl
  | cons part parts ih =>
    by_cases hempty : part.isEmpty
    · have hzero : countD part = 0 := by simp [countOf, String.isEmpty_iff.mp hempty]
      rw [List.filter_cons_of_neg (by simpa using hempty), ih, List.map_cons, List.sum_cons, hzero,
        Nat.zero_add]
    · rw [List.filter_cons_of_pos (by simpa using hempty), List.map_cons, List.sum_cons, ih,
        List.map_cons, List.sum_cons]

theorem sum_countD_trimmedParts (parts : List String) :
    ((trimmedParts parts).map countD).sum = (parts.map countD).sum := by
  have hcount : ∀ part, countD (trimmed part) = countD part := countOf_trimmed isD_blank
  rw [trimmedParts, sum_countD_filter, List.map_map, Function.comp_def]
  simp only [hcount]

variable (foundation) in
/-- Splitting loses the separators. -/
theorem sum_countD_componentsSeparatedBy (separator text : String) :
    ((foundation.componentsSeparatedBy separator text).map countD).sum +
        countD separator * ((foundation.componentsSeparatedBy separator text).length - 1) =
      countD text := by
  have hcuts : Cuts (foundation.textLength separator) [] text.toList _ :=
    cuts_components fits_targetLength [] text.toList
  have hcount := hcuts.countP_flatten (p := isD) (k := countD separator) fun before m l hne hm => by
    rw [eq_target_of_targetLength hne hm]
    rfl
  rw [List.countP_flatten] at hcount
  unfold VoiceFoundation.componentsSeparatedBy
  rw [List.length_map, List.map_map]
  have hmap : countD ∘ String.ofList = List.countP isD := by
    funext l
    simp [countOf]
  rw [hmap]
  exact hcount

theorem sum_countD_split_bar (text : String) :
    ((foundation.split '|' text).map countD).sum = countD text := by
  have hcount := sum_countD_componentsSeparatedBy foundation (String.singleton '|')
    text
  have hbar : countD (String.singleton '|') = 0 := by simp [countOf, isD]
  rw [hbar, Nat.zero_mul, Nat.add_zero] at hcount
  rw [VoiceFoundation.split, sum_countD_filter, hcount]

/-- Each comma and `and` has one. -/
theorem KnowsSeparators.countP_comma (h : KnowsSeparators foundation joins) (hne : m ≠ [])
    (hm : patternLength (commaPattern foundation) before (m ++ l) = m.length) :
    m.countP isD = 1 := by
  obtain ⟨groups, hmatches⟩ := exists_matches_of_patternLength hne hm
  obtain ⟨-, x, word, y, hsplit, ⟨-, hx⟩, hword, -, hy⟩ := matches_commaPattern_iff.mp hmatches
  obtain rfl := List.append_cancel_right hsplit
  have hx := countP_blank isD_blank fun c hc => h.whiteSpace c (hx c hc)
  have hy := countP_blank isD_blank fun c hc => h.whiteSpace c (hy c hc)
  have hd : word.countP isD = 1 := by
    have hletters : List.Forall₂ (fun a c => sameIgnoringCase a c) ['a', 'n', 'd'] word := hword
    simp only [List.forall₂_cons_left_iff, List.forall₂_nil_left_iff] at hletters
    obtain ⟨a, _, ha, ⟨n, _, hn, ⟨d, _, hd, rfl, rfl⟩, rfl⟩, rfl⟩ := hletters
    rcases (by simpa [sameIgnoringCase] using ha : a = 'a' ∨ a = 'A') with rfl | rfl <;>
      rcases (by simpa [sameIgnoringCase] using hn : n = 'n' ∨ n = 'N') with rfl | rfl <;>
        rcases (by simpa [sameIgnoringCase] using hd : d = 'd' ∨ d = 'D') with rfl | rfl <;> rfl
  rw [List.countP_cons, List.countP_append, List.countP_append, hx, hy, hd]
  rfl

/-- The last pass loses a letter if it finds something. -/
theorem KnowsSeparators.rewriting_comma_cases (h : KnowsSeparators foundation joins)
    (l : List Char) :
    rewriting (patternLength (commaPattern foundation)) ['|'] 0 [] l = l ∨
      (rewriting (patternLength (commaPattern foundation)) ['|'] 0 [] l).countP isD <
        l.countP isD := by
  have hcuts : Cuts (patternLength (commaPattern foundation)) [] l _ :=
    cuts_components fits_patternLength [] l
  have hcount := hcuts.countP_flatten (p := isD) fun before m l hne hm => h.countP_comma hne hm
  rw [← intercalate_components, countP_intercalate (by simp [isD])]
  rcases hcuts.eq_singleton_or with heq | hle
  · rw [heq]
    exact Or.inl (by simp)
  · exact Or.inr (by omega)

/-- Line breaks become a bar. -/
theorem KnowsSeparators.marked_newlines (h : KnowsSeparators foundation joins)
    (hapart : Apart foundation a w v b) {u : List Char} (hw : w = u ++ [' ']) :
    marked foundation (String.ofList (a ++ w ++ (v ++ b))) = String.ofList
      (rewriting (patternLength (commaPattern foundation)) ['|'] 0 [] (a ++ w ++ (v ++ b))) := by
  have hends : foundation.endsInWord (a ++ w ++ v) = false := by
    rw [hw]
    simpa using h.endsInWord_mark (c := ' ') (by simp) hapart.blank_right (a ++ u)
  have hne : w ≠ [] := by simp [hw]
  have hright := h.noMatch_right hapart hends
  have hwords := h.noMatch_words_left (l := v ++ b ++ []) hapart hne
  have hclasses := h.noMatch_classes_left (l := v ++ b ++ []) hapart
  simp only [regexSeparators, List.forall_mem_cons] at hright
  have hearlier : ∀ separator ∈ [boundedLength foundation "and then",
      boundedLength foundation "then", patternLength [.some (· == '\n')],
      patternLength [.one fun c => c == '.' || c == ';']],
      rewriting separator ['|'] 0 [] (a ++ w ++ (v ++ b)) = a ++ w ++ (v ++ b) := by
    simp only [List.forall_mem_cons]
    exact ⟨rewriting_eq_self (noMatch_append_iff.mpr ⟨hwords.1, hright.1⟩),
      rewriting_eq_self (noMatch_append_iff.mpr ⟨hwords.2, hright.2.1⟩),
      rewriting_eq_self (noMatch_append_iff.mpr ⟨hclasses.1, hright.2.2.1⟩),
      rewriting_eq_self (noMatch_append_iff.mpr ⟨hclasses.2, hright.2.2.2.1⟩), by simp⟩
  have hsplit : regexSeparators foundation = [boundedLength foundation "and then",
      boundedLength foundation "then", patternLength [.some (· == '\n')],
      patternLength [.one fun c => c == '.' || c == ';']] ++
        [patternLength (commaPattern foundation)] := rfl
  rw [marked, hsplit, List.foldl_append, foldl_replacingMatches hearlier, List.foldl_cons,
    replacingMatches_ofList, List.foldl_nil]

section Newlines

variable {A B : String}

/-- Newlines are a space before the text is split. -/
theorem exists_marked_newlines (hknows : KnowsSeparators foundation joins)
    (hA : IsSegment foundation A) (hB : IsSegment foundation B) (hand : ¬EndsInAnd foundation A)
    {text : String} (hne : text ≠ "") (htext : ∀ c ∈ text.toList, foundation.isWhiteSpace c) :
    normalizeTranscript foundation (A ++ text ++ B) ≠ "" ∧
      countD (normalizeTranscript foundation (A ++ text ++ B)) =
        countD (normalizeTranscript foundation A) + countD (normalizeTranscript foundation B) ∧
      '|' ∉ (normalizeTranscript foundation (A ++ text ++ B)).toList ∧
      (marked foundation (normalizeTranscript foundation (A ++ text ++ B)) =
          normalizeTranscript foundation (A ++ text ++ B) ∨
        countD (marked foundation (normalizeTranscript foundation (A ++ text ++ B))) <
          countD (normalizeTranscript foundation (A ++ text ++ B))) := by
  have hneA := hA.normalizeTranscript_ne hknows
  have hx : text.toList ≠ [] := by simpa using hne
  obtain ⟨w, v, hjoint⟩ := exists_isJoint hneA (hB.normalizeTranscript_ne hknows) htext
  obtain ⟨u, hw⟩ := hjoint.exists_concat hx htext
  have hnormalized := hjoint.normalizeTranscript_blank hx htext
  have happend : A ++ text ++ B = String.ofList (A.toList ++ text.toList ++ B.toList) := by
    rw [← String.toList_inj]
    simp
  have hmarked := hknows.marked_newlines (hjoint.apart hknows hA hB hand) hw
  rw [← happend] at hnormalized
  rw [hnormalized]
  refine ⟨by simp [hneA], ?_, ?_, ?_⟩
  · simp only [countOf, String.toList_ofList, List.countP_append,
      countP_blank isD_blank hjoint.blank_left, countP_blank isD_blank hjoint.blank_right]
    omega
  · rw [String.toList_ofList]
    simp [hA.bar_notMem, hB.bar_notMem, bar_notMem_of_blank hjoint.blank_left,
      bar_notMem_of_blank hjoint.blank_right]
  · rw [hmarked]
    refine (hknows.rewriting_comma_cases _).imp (congrArg String.ofList) fun hlt => ?_
    simpa only [countD, countOf, String.toList_ofList] using hlt

/-- Two segments do not have all the letters of the texts. -/
theorem sum_countD_segments_newlines (hknows : KnowsSeparators foundation joins)
    (hA : IsSegment foundation A) (hB : IsSegment foundation B) (hand : ¬EndsInAnd foundation A)
    {text : String} (hne : text ≠ "") (htext : ∀ c ∈ text.toList, foundation.isWhiteSpace c)
    (hlength : (segments foundation (A ++ text ++ B)).length = 2) :
    ((segments foundation (A ++ text ++ B)).map countD).sum <
      countD (normalizeTranscript foundation A) + countD (normalizeTranscript foundation B) := by
  obtain ⟨hnonempty, hcount, hbar, hmarked⟩ :=
    exists_marked_newlines hknows hA hB hand hne htext
  have hsum := sum_countD_trimmedParts (foundation.split '|'
    (marked foundation (normalizeTranscript foundation (A ++ text ++ B))))
  rw [sum_countD_split_bar] at hsum
  rw [← hcount]
  rcases segments_cases hnonempty with hsegments | hsegments | ⟨first, hparts, hsegments⟩
  · rw [hsegments] at hlength
    cases hlength
  · rw [hsegments] at hlength ⊢
    rcases hmarked with heq | hlt
    · have hsplit := split_bar_eq_self foundation hbar (by simpa using hnonempty)
      rw [String.ofList_toList] at hsplit
      rw [heq, hsplit, trimmedParts] at hlength
      have hle := List.length_filter_le (fun part : String => decide ¬part.isEmpty)
        ([normalizeTranscript foundation (A ++ text ++ B)].map trimmed)
      simp at hlength hle
      omega
    · rwa [hsum]
  · have hfirst : countD first ≤ countD (normalizeTranscript foundation (A ++ text ++ B)) := by
      rw [hparts, List.map_singleton, List.sum_singleton] at hsum
      rw [hsum]
      rcases hmarked with heq | hlt
      · rw [heq]
      · exact hlt.le
    have hcomponents := sum_countD_componentsSeparatedBy foundation " and " first
    have hone : countD " and " = 1 := rfl
    have hle : 2 ≤ (foundation.componentsSeparatedBy " and " first).length := by
      rw [← hlength, hsegments, trimmedParts]
      exact (List.length_filter_le _ _).trans (List.length_map _).le
    rw [hone, Nat.one_mul] at hcomponents
    rw [hsegments, sum_countD_trimmedParts]
    omega

end Newlines

/-! ## Drafts of two texts -/

/-- A draft up to its id. -/
def withoutId (draft : VoiceParsedTaskDraft) : VoiceParsedTaskDraft :=
  { draft with id := "" }

theorem eq_of_mem_text_newlines {n : ℕ} {c : Char} (hc : c ∈ (Separator.newlines n).text.toList) :
    c = '\n' := by
  rw [Separator.text, String.toList_ofList] at hc
  exact List.eq_of_mem_replicate hc

theorem text_newlines_ne (n : ℕ) : (Separator.newlines n).text ≠ "" := by
  rw [Separator.text, Ne, ← String.toList_eq_nil_iff, String.toList_ofList]
  exact List.cons_ne_nil _ _

section Drafts

variable {A B : String} (calendar : Calendar) (newId newIdA newIdB : ℕ → String)
  (existingCategories : List Category) (now : Date)

/-- The drafts without their ids are those of the segments. -/
theorem map_withoutId_parse (text : String) :
    (parse foundation calendar newId text existingCategories now).map withoutId =
      (segments foundation text).map fun segment =>
        parseSegment foundation calendar "" segment existingCategories now := by
  unfold parse
  generalize segments foundation text = segments
  induction segments generalizing newId with
  | nil => rfl
  | cons segment segments ih =>
    rw [List.mapIdx_cons, List.map_cons, List.map_cons, ih fun i => newId (i + 1)]
    simp only [parseSegment, withoutId]

variable (foundation) in
/-- Up to their ids the drafts are those of the first text and then those of the second. -/
def ParsesApart (A : String) (separator : Separator) (B : String) : Prop :=
  (parse foundation calendar newId (A ++ separator.text ++ B) existingCategories now).map
      withoutId =
    (parse foundation calendar newIdA A existingCategories now).map withoutId ++
      (parse foundation calendar newIdB B existingCategories now).map withoutId

/-- The segments make the difference, and so do their notes. -/
theorem parsesApart_iff_segments (hknows : KnowsSeparators foundation joins)
    (hA : IsSegment foundation A) (hB : IsSegment foundation B) (separator : Separator) :
    ParsesApart foundation calendar newId newIdA newIdB existingCategories now A separator B ↔
      (segments foundation (A ++ separator.text ++ B)).map (fun segment =>
          parseSegment foundation calendar "" segment existingCategories now) =
        [normalizeTranscript foundation A, normalizeTranscript foundation B].map fun segment =>
          parseSegment foundation calendar "" segment existingCategories now := by
  unfold ParsesApart
  rw [map_withoutId_parse, map_withoutId_parse, map_withoutId_parse, hA.segments_eq hknows,
    hB.segments_eq hknows, ← List.map_append, List.singleton_append]

variable {calendar newId newIdA newIdB existingCategories now} in
theorem ParsesApart.notes_eq (hknows : KnowsSeparators foundation joins)
    (hA : IsSegment foundation A) (hB : IsSegment foundation B) {separator : Separator}
    (h : ParsesApart foundation calendar newId newIdA newIdB existingCategories now A separator B) :
    (segments foundation (A ++ separator.text ++ B)).map (removeLeadingFillerWords foundation) =
      [normalizeTranscript foundation A, normalizeTranscript foundation B].map
        (removeLeadingFillerWords foundation) := by
  have hdrafts := (parsesApart_iff_segments _ _ _ _ _ _ hknows hA hB separator).mp h
  have hnotes := congrArg (List.map VoiceParsedTaskDraft.notes) hdrafts
  simpa [Function.comp_def] using hnotes

/-- A marker that is left is in no draft of the texts alone. -/
theorem not_parsesApart_of_bar (hknows : KnowsSeparators foundation joins)
    (hA : IsSegment foundation A) (hB : IsSegment foundation B) {separator : Separator}
    {segment : String} (hmem : segment ∈ segments foundation (A ++ separator.text ++ B))
    (hbar : '|' ∈ segment.toList) :
    ¬ParsesApart foundation calendar newId newIdA newIdB existingCategories now A separator B := by
  intro h
  have hnote := List.mem_map_of_mem (f := removeLeadingFillerWords foundation) hmem
  rw [h.notes_eq hknows hA hB] at hnote
  obtain ⟨text, htext, hsame⟩ := List.mem_map.mp hnote
  have hzero : countOf (· == '|') text = 0 := by
    rcases List.mem_cons.mp htext with rfl | htext
    · exact hA.countOf_bar
    · rw [List.mem_singleton.mp htext, hB.countOf_bar]
  have hcount := congrArg (countOf (· == '|')) hsame
  rw [countBar_removeLeadingFillerWords hknows.whiteSpace,
    countBar_removeLeadingFillerWords hknows.whiteSpace, hzero] at hcount
  have hpos : countOf (· == '|') segment ≠ 0 := by simpa [countOf] using hbar
  exact hpos hcount.symm

/-- Two drafts of texts with newlines between them lack an `and`, or there is only one. -/
theorem not_parsesApart_newlines (hknows : KnowsSeparators foundation joins)
    (hA : IsSegment foundation A) (hB : IsSegment foundation B) (hand : ¬EndsInAnd foundation A)
    (n : ℕ) : ¬ParsesApart foundation calendar newId newIdA newIdB existingCategories now A
      (.newlines n) B := by
  intro h
  have hnotes := h.notes_eq hknows hA hB
  have hlength := congrArg List.length hnotes
  rw [List.length_map] at hlength
  have hspaces : ∀ c ∈ (Separator.newlines n).text.toList, foundation.isWhiteSpace c := by
    intro c hc
    rw [eq_of_mem_text_newlines hc]
    exact hknows.newline
  have hlt := sum_countD_segments_newlines hknows hA hB hand (text_newlines_ne n) hspaces hlength
  have hsum := congrArg (fun notes => (notes.map countD).sum) hnotes
  simp only [List.map_map, Function.comp_def,
    countD_removeLeadingFillerWords hknows.whiteSpace] at hsum
  rw [hsum] at hlt
  simp at hlt

/-- What two texts with a separator between them are parsed as. -/
theorem parsesApart_iff (hknows : KnowsSeparators foundation joins)
    (hA : IsSegment foundation A) (hB : IsSegment foundation B) (hand : ¬EndsInAnd foundation A)
    (separator : Separator) :
    ParsesApart foundation calendar newId newIdA newIdB existingCategories now A separator B ↔
      separator.Separates foundation A B := by
  by_cases hseparator : ∀ n, separator ≠ .newlines n
  · obtain ⟨w, v, hmarked, hmarker⟩ := exists_isMarked_separator hknows hA hB hand hseparator
    rw [← hmarker]
    constructor
    · intro h
      by_contra hnot
      obtain ⟨segment, hmem, hbar⟩ := exists_bar_of_not_isCharacter hknows hA hB hmarked hnot
      exact not_parsesApart_of_bar _ _ _ _ _ _ hknows hA hB hmem hbar h
    · intro hcharacter
      rw [parsesApart_iff_segments _ _ _ _ _ _ hknows hA hB,
        segments_of_isCharacter hknows hA hB hmarked hcharacter]
  · push Not at hseparator
    obtain ⟨n, rfl⟩ := hseparator
    exact iff_of_false (not_parsesApart_newlines _ _ _ _ _ _ hknows hA hB hand n) id

end Drafts

/-! ## Latin texts -/

open VoiceFoundation (isLatinLetter joinsAccent isAccent)

/-- The separators of Latin text. -/
theorem knowsSeparators_latin : KnowsSeparators .latin joinsAccent where
  whiteSpace := knowsContent_latin.whiteSpace
  space := rfl
  newline := rfl
  letter a ha c hc := by
    have hlower : a.isLower := by
      simp at ha
      rcases ha with rfl | rfl | rfl | rfl | rfl | rfl | rfl <;> rfl
    have hcontent := knowsContent_latin.letter a c hlower hc
    exact ⟨knowsContent_latin.isWordCharacter c hcontent,
      knowsContent_latin.isIgnorable c hcontent⟩
  blank c hc := by
    have hcontent : (isLatinLetter c || c.isDigit) = false := knowsContent_latin.blank c hc
    have hunderscore : c ≠ '_' := by
      rintro rfl
      cases hc
    have haccent : isAccent c = false := by
      simp only [isWhitespaceOrNewline, Bool.or_eq_true, decide_eq_true_eq, beq_iff_eq,
        Bool.and_eq_true] at hc
      simp only [isAccent, Bool.and_eq_false_iff, decide_eq_false_iff_not]
      omega
    simp [VoiceFoundation.latin, hcontent, hunderscore, haccent]
  mark c hc := by
    simp at hc
    rcases hc with rfl | rfl | rfl | rfl | rfl <;> exact ⟨rfl, rfl⟩
  bar := ⟨fun _ _ => rfl, fun _ _ => rfl⟩
  joins_bar c _ := by
    simp [joinsAccent]
    rfl
  bar_joins := rfl

theorem isSegment_milk : IsSegment .latin "Buy milk" where
  nonblank := ⟨'B', by simp, rfl⟩
  noSeparator := by
    simp only [noMatch_iff_forall_lt]
    decide +kernel
  noBar := by simp
  short := by decide +kernel

theorem isSegment_mom : IsSegment .latin "Call mom" where
  nonblank := ⟨'C', by simp, rfl⟩
  noSeparator := by
    simp only [noMatch_iff_forall_lt]
    decide +kernel
  noBar := by simp
  short := by decide +kernel

theorem not_endsInAnd_milk : ¬EndsInAnd .latin "Buy milk" := by
  rintro ⟨before, m, hsplit, hm, -⟩
  have hlist : (normalizeTranscript .latin "Buy milk").toList = "Buy m".toList ++ "ilk".toList := by
    decide +kernel
  rw [hlist] at hsplit
  obtain ⟨-, rfl⟩ := List.append_inj' hsplit hm.length_eq
  cases hm with
  | cons ha _ => cases ha

theorem parsesApart_milk : ParsesApart .latin (Calendar.gregorian .gmt) (fun _ => "a")
    (fun _ => "b") (fun _ => "c") [] (Date.seconds 0) "Buy milk" .period "Call mom" :=
  (parsesApart_iff _ _ _ _ _ _ knowsSeparators_latin isSegment_milk isSegment_mom
    not_endsInAnd_milk .period).mpr rfl

/-- A list of two tasks is one draft. -/
theorem not_parsesApart : IsSegment .latin "Buy milk" ∧ IsSegment .latin "Call mom" ∧
    ¬EndsInAnd .latin "Buy milk" ∧
    (parse .latin (Calendar.gregorian .gmt) (fun _ => "a") "Buy milk\nCall mom" []
      (Date.seconds 0)).map VoiceParsedTaskDraft.notes = ["Buy milk Call mom"] ∧
    ¬ParsesApart .latin (Calendar.gregorian .gmt) (fun _ => "a") (fun _ => "b") (fun _ => "c") []
      (Date.seconds 0) "Buy milk" (.newlines 0) "Call mom" := by
  refine ⟨isSegment_milk, isSegment_mom, not_endsInAnd_milk, by decide +kernel, fun h => ?_⟩
  have hlength := congrArg List.length h
  revert hlength
  simp only [List.length_append, List.length_map]
  decide +kernel

end VoiceTaskParser

end Notelayer
