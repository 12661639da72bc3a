import Notelayer.VoiceNormalization
import Notelayer.VoicePasses

/-!
# The segments of two texts

A text without a separator is its only segment (`IsSegment.segments_eq`). Two of them with a
separator between them are marked (`exists_isMarked_separator`). They are the two segments if the
marker is a character of its own (`segments_of_isCharacter`). If it is a part of a character, it is
left in a segment (`exists_bar_of_not_isCharacter`).
-/

namespace Notelayer

open Replacing Rewriting Characters Collapsing

namespace VoiceTaskParser

variable (foundation : VoiceFoundation)

/-! ## Two texts and what is between them -/

/-- The separators of the splitter. -/
inductive Separator where
  | andThen
  | then_
  /-- One or more newlines. -/
  | newlines (n : ℕ)
  | period
  | semicolon
  | commaAnd

/-- The text of a separator. -/
def Separator.text : Separator → String
  | andThen => " and then "
  | then_ => " then "
  | newlines n => String.ofList (List.replicate (n + 1) '\n')
  | period => ". "
  | semicolon => "; "
  | commaAnd => ", and "

/-- The texts are drafts of their own. The newlines are gone before the text is split, and elsewhere
the marker has to be a character of its own. -/
def Separator.Separates (A B : String) : Separator → Prop
  | andThen | then_ => True
  | newlines _ => False
  | period | semicolon => foundation.isBoundary A.toList ['|']
  | commaAnd => foundation.isBoundary A.toList ['|'] ∧
      foundation.isBoundary ['|'] (B.toList.dropWhile foundation.isWhiteSpace)

/-- A text that is a single segment : it is not blank, no separator is found in it, it has no `|`
and less than 12 words. -/
structure IsSegment (text : String) : Prop where
  nonblank : ∃ c ∈ text.toList, isWhitespaceOrNewline c = false
  noSeparator : ∀ separator ∈ regexSeparators foundation,
    NoMatch separator [] (normalizeTranscript foundation text).toList []
  noBar : '|' ∉ text.toList
  short : (foundation.split ' ' (normalizeTranscript foundation text)).length < 12

/-- The last word of the text is `and`. -/
def EndsInAnd (text : String) : Prop :=
  ∃ before m, (normalizeTranscript foundation text).toList = before ++ m ∧
    List.Forall₂ (fun a c => sameIgnoringCase a c) "and".toList m ∧
      foundation.isWordBoundary before m

variable {foundation} {joins : Char → Char → Bool} {a b w v before m l y z : List Char}

/-! ## The marker -/

theorem textLength_singleton (c : Char) :
    foundation.textLength (String.singleton c) = singleLength foundation.isBoundary c := by
  unfold VoiceFoundation.textLength
  rw [String.toList_singleton]

theorem noMatch_bar (hy : '|' ∉ y) :
    NoMatch (foundation.textLength (String.singleton '|')) before y l := by
  rw [textLength_singleton]
  refine noMatch_of_forall fun c hc before l => singleLength_eq_zero_iff.mpr ?_
  rintro rfl
  exact absurd hc hy

variable (foundation) in
theorem split_bar_eq_self (hy : '|' ∉ y) (hne : y ≠ []) :
    foundation.split '|' (String.ofList y) = [String.ofList y] := by
  rw [VoiceFoundation.split, VoiceFoundation.componentsSeparatedBy, String.toList_ofList,
    components_eq_singleton (noMatch_bar hy)]
  simpa using hne

/-- The marker is a character of its own. -/
def IsCharacter (foundation : VoiceFoundation) (y z : List Char) : Prop :=
  foundation.isBoundary y ('|' :: z) ∧ foundation.isBoundary (y ++ ['|']) z

/-- The text is split at the marker. -/
theorem split_bar (hy : '|' ∉ y) (hz : '|' ∉ z) (hne : y ≠ []) (hne' : z ≠ [])
    (hmarker : IsCharacter foundation y z) :
    foundation.split '|' (String.ofList (y ++ '|' :: z)) = [String.ofList y, String.ofList z] := by
  have hmatch : foundation.textLength (String.singleton '|') y (['|'] ++ z) = ['|'].length :=
    targetLength_of_forall₂ (List.forall₂_same.mpr (by simp)) hmarker.1 hmarker.2
  have hcomponents : components (foundation.textLength (String.singleton '|')) 0 []
      (y ++ (['|'] ++ z)) = [y, z] := by
    rw [components_append (noMatch_bar hy), List.nil_append, components_of_match (by simp) hmatch,
      components_eq_singleton (noMatch_bar hz)]
    simp
  rw [VoiceFoundation.split, VoiceFoundation.componentsSeparatedBy, String.toList_ofList]
  rw [List.singleton_append] at hcomponents
  rw [hcomponents]
  simp [hne, hne']

/-- The text is not split at a marker that is only a part of a character. -/
theorem split_bar_of_not (hy : '|' ∉ y) (hz : '|' ∉ z)
    (hmarker : ¬IsCharacter foundation y z) :
    foundation.split '|' (String.ofList (y ++ '|' :: z)) = [String.ofList (y ++ '|' :: z)] := by
  have hzero : foundation.textLength (String.singleton '|') y ('|' :: z) = 0 := by
    rw [textLength_singleton]
    refine singleLength_eq_zero_iff.mpr fun _ hbefore => Bool.eq_false_iff.mpr fun hafter => ?_
    exact hmarker ⟨hbefore, hafter⟩
  have hnone : NoMatch (foundation.textLength (String.singleton '|')) [] (y ++ '|' :: z) [] := by
    refine noMatch_append_iff.mpr ⟨noMatch_bar hy, noMatch_cons_iff.mpr ⟨?_, noMatch_bar hz⟩⟩
    rwa [List.append_nil]
  rw [VoiceFoundation.split, VoiceFoundation.componentsSeparatedBy, String.toList_ofList,
    components_eq_singleton hnone]
  simp

/-! ## Segments -/

section Segments

variable {text first second : String} {parts : List String}

/-- Several parts are the segments. -/
theorem segments_of_parts (hne : normalizeTranscript foundation text ≠ "")
    (hparts : trimmedParts (foundation.split '|'
      (marked foundation (normalizeTranscript foundation text))) = first :: second :: parts) :
    segments foundation text = first :: second :: parts := by
  unfold segments splitIntoSegments
  dsimp only
  rw [hparts, if_neg (by simpa using hne)]
  rfl

/-- A single part is a segment, or is split at ` and ` if it is long. -/
theorem segments_of_part (hne : normalizeTranscript foundation text ≠ "")
    (hparts : trimmedParts (foundation.split '|'
      (marked foundation (normalizeTranscript foundation text))) = [first]) :
    segments foundation text = [first] ∨
      (12 ≤ (foundation.split ' ' first).length ∧
        (segments foundation text = trimmedParts (foundation.componentsSeparatedBy " and " first) ∨
          (trimmedParts (foundation.componentsSeparatedBy " and " first) = [] ∧
            segments foundation text = [normalizeTranscript foundation text]))) := by
  unfold segments splitIntoSegments
  dsimp only
  rw [hparts, if_neg (by simpa using hne)]
  dsimp only
  split_ifs with hlong hempty hempty
  · exact Or.inr ⟨hlong.1, Or.inr ⟨by simpa using hempty, rfl⟩⟩
  · exact Or.inr ⟨hlong.1, Or.inl rfl⟩
  · simp at hempty
  · exact Or.inl rfl

/-- The segments are the parts at the markers, the parts of a long part, or the transcript. -/
theorem segments_cases (hne : normalizeTranscript foundation text ≠ "") :
    segments foundation text = [normalizeTranscript foundation text] ∨
      segments foundation text = trimmedParts (foundation.split '|'
        (marked foundation (normalizeTranscript foundation text))) ∨
      ∃ first, trimmedParts (foundation.split '|'
          (marked foundation (normalizeTranscript foundation text))) = [first] ∧
        segments foundation text =
          trimmedParts (foundation.componentsSeparatedBy " and " first) := by
  cases hparts : trimmedParts (foundation.split '|'
      (marked foundation (normalizeTranscript foundation text))) with
  | nil =>
    refine Or.inl ?_
    unfold segments splitIntoSegments
    dsimp only
    rw [hparts, if_neg (by simpa using hne)]
    rfl
  | cons first parts =>
    cases parts with
    | nil =>
      rcases segments_of_part hne hparts with hsegments | ⟨-, hsegments | ⟨-, hsegments⟩⟩
      · exact Or.inr (Or.inl hsegments)
      · exact Or.inr (Or.inr ⟨first, rfl, hsegments⟩)
      · exact Or.inl hsegments
    | cons second parts => exact Or.inr (Or.inl (segments_of_parts hne hparts))

theorem IsSegment.normalizeTranscript_ne (h : IsSegment foundation text)
    (hknows : KnowsSeparators foundation joins) : normalizeTranscript foundation text ≠ "" := by
  obtain ⟨c, hc, hblank⟩ := h.nonblank
  rw [Ne, normalizeTranscript_eq_empty_iff hknows.whiteSpace]
  intro hall
  rw [hall c hc] at hblank
  cases hblank

theorem IsSegment.bar_notMem (h : IsSegment foundation text) :
    '|' ∉ (normalizeTranscript foundation text).toList := by
  intro hmem
  rcases mem_normalizeTranscript hmem with hspace | ⟨hmem, -⟩
  · cases hspace
  · exact h.noBar hmem

/-- The text is its only segment. -/
theorem IsSegment.segments_eq (h : IsSegment foundation text)
    (hknows : KnowsSeparators foundation joins) :
    segments foundation text = [normalizeTranscript foundation text] := by
  have hne := h.normalizeTranscript_ne hknows
  have hmarked : marked foundation (normalizeTranscript foundation text) =
      normalizeTranscript foundation text := by
    have hfoldl := foldl_replacingMatches (l := (normalizeTranscript foundation text).toList)
      fun separator hmem => rewriting_eq_self (h.noSeparator separator hmem)
    rwa [String.ofList_toList] at hfoldl
  have hsplit := split_bar_eq_self foundation h.bar_notMem (by simpa using hne)
  rw [String.ofList_toList] at hsplit
  have hparts : trimmedParts (foundation.split '|'
      (marked foundation (normalizeTranscript foundation text))) =
        [normalizeTranscript foundation text] := by
    rw [hmarked, hsplit, trimmedParts, List.map_singleton, trimmed_normalizeTranscript]
    simpa using hne
  rcases segments_of_part hne hparts with hsegments | ⟨hlong, -⟩
  · exact hsegments
  · exact absurd h.short (by omega)

end Segments

/-! ## With the marker -/

section Marker

variable {A B text : String} {x : List Char}

/-- Segments with white space between them are apart. -/
theorem IsJoint.apart (hjoint : IsJoint foundation A x w v B)
    (hknows : KnowsSeparators foundation joins) (hA : IsSegment foundation A)
    (hB : IsSegment foundation B) (hand : ¬EndsInAnd foundation A) :
    Apart foundation (normalizeTranscript foundation A).toList w v
      (normalizeTranscript foundation B).toList where
  first := hA.noSeparator
  notAnd y z hsplit hz := Bool.eq_false_iff.mpr fun hboundary => hand ⟨y, z, hsplit, hz, hboundary⟩
  blank_left := hjoint.blank_left
  newline_left hmem := by
    rcases hjoint.space_left _ hmem with hc | hc
    · cases hc
    · simp [hknows.newline] at hc
  blank_right := hjoint.blank_right
  newline_right hmem := by
    rcases hjoint.space_right _ hmem with hc | hc
    · cases hc
    · simp [hknows.newline] at hc
  second := hB.noSeparator

theorem Apart.space (h : Apart foundation a w v b) : Apart foundation a w (' ' :: v) b where
  first := h.first
  notAnd := h.notAnd
  blank_left := h.blank_left
  newline_left := h.newline_left
  blank_right := List.forall_mem_cons.mpr ⟨rfl, h.blank_right⟩
  newline_right := by simpa using h.newline_right
  second := h.second

variable (foundation) in
/-- In a transcript of two texts the marker is what is left of the separator. -/
structure IsMarked (A B text : String) (w v : List Char) : Prop where
  blank_left : ∀ c ∈ w, isWhitespaceOrNewline c
  blank_right : ∀ c ∈ v, isWhitespaceOrNewline c
  nonempty : normalizeTranscript foundation text ≠ ""
  marked_eq : marked foundation (normalizeTranscript foundation text) =
    String.ofList ((normalizeTranscript foundation A).toList ++ w ++
      '|' :: (v ++ (normalizeTranscript foundation B).toList))

theorem bar_notMem_of_blank (hw : ∀ c ∈ w, isWhitespaceOrNewline c) : '|' ∉ w := by
  intro hmem
  have hblank := hw '|' hmem
  cases hblank

/-- The marker is a character of its own, and the texts are the segments. -/
theorem segments_of_isCharacter (hknows : KnowsSeparators foundation joins)
    (hA : IsSegment foundation A) (hB : IsSegment foundation B)
    (hmarked : IsMarked foundation A B text w v)
    (hmarker : IsCharacter foundation ((normalizeTranscript foundation A).toList ++ w)
      (v ++ (normalizeTranscript foundation B).toList)) :
    segments foundation text =
      [normalizeTranscript foundation A, normalizeTranscript foundation B] := by
  have hneA := hA.normalizeTranscript_ne hknows
  have hneB := hB.normalizeTranscript_ne hknows
  refine segments_of_parts hmarked.nonempty ?_
  rw [hmarked.marked_eq, split_bar ?_ ?_ ?_ ?_ hmarker]
  · have hfirst := trimmed_append_append (u := []) (by simp) hmarked.blank_left
      (normalizeTranscript foundation A).toList
    have hsecond := trimmed_append_append (w := []) hmarked.blank_right (by simp)
      (normalizeTranscript foundation B).toList
    rw [List.nil_append, String.ofList_toList, trimmed_normalizeTranscript] at hfirst
    rw [List.append_nil, String.ofList_toList, trimmed_normalizeTranscript] at hsecond
    rw [trimmedParts, List.map_cons, List.map_singleton, hfirst, hsecond]
    simp [hneA, hneB]
  · simp [hA.bar_notMem, bar_notMem_of_blank hmarked.blank_left]
  · simp [hB.bar_notMem, bar_notMem_of_blank hmarked.blank_right]
  · simp [hneA]
  · simp [hneB]

/-- Trimming and dropping the empty parts loses whitespace only. -/
theorem exists_mem_trimmedParts {parts : List String} {part : String} {c : Char}
    (hpart : part ∈ parts) (hc : c ∈ part.toList) (hblank : isWhitespaceOrNewline c = false) :
    ∃ segment ∈ trimmedParts parts, c ∈ segment.toList := by
  have hmem : c ∈ (trimmed part).toList := by
    obtain ⟨u, w, hsplit, hu, hw⟩ := exists_toList_eq_append_trimmed part
    rw [hsplit, List.mem_append, List.mem_append] at hc
    rcases hc with (hc | hc) | hc
    · rw [hu c hc] at hblank
      cases hblank
    · exact hc
    · rw [hw c hc] at hblank
      cases hblank
  refine ⟨trimmed part, List.mem_filter.mpr ⟨List.mem_map_of_mem hpart, ?_⟩, hmem⟩
  have hne := List.ne_nil_of_mem hmem
  simpa using hne

/-- The marker is a part of a character, and is left in a segment. -/
theorem exists_bar_of_not_isCharacter (hknows : KnowsSeparators foundation joins)
    (hA : IsSegment foundation A) (hB : IsSegment foundation B)
    (hmarked : IsMarked foundation A B text w v)
    (hmarker : ¬IsCharacter foundation ((normalizeTranscript foundation A).toList ++ w)
      (v ++ (normalizeTranscript foundation B).toList)) :
    ∃ segment ∈ segments foundation text, '|' ∈ segment.toList := by
  have hneA : (normalizeTranscript foundation A).toList ≠ [] := by
    simpa using hA.normalizeTranscript_ne hknows
  have hneB : (normalizeTranscript foundation B).toList ≠ [] := by
    simpa using hB.normalizeTranscript_ne hknows
  have htrimmed := ((isTrimmed_normalizeTranscript A).append (isTrimmed_normalizeTranscript B)
    hneA hneB (w ++ '|' :: v)).trimmed_eq
  have hsplit := split_bar_of_not (by simp [hA.bar_notMem, bar_notMem_of_blank hmarked.blank_left])
    (by simp [hB.bar_notMem, bar_notMem_of_blank hmarked.blank_right]) hmarker
  have hjoined : (normalizeTranscript foundation A).toList ++ (w ++ '|' :: v) ++
      (normalizeTranscript foundation B).toList = (normalizeTranscript foundation A).toList ++ w ++
        '|' :: (v ++ (normalizeTranscript foundation B).toList) := by simp
  rw [hjoined] at htrimmed
  have hmarked_eq := hmarked.marked_eq
  generalize htext : (normalizeTranscript foundation A).toList ++ w ++
    '|' :: (v ++ (normalizeTranscript foundation B).toList) = l at *
  have hbar : '|' ∈ l := by simp [← htext]
  have hparts : trimmedParts (foundation.split '|'
      (marked foundation (normalizeTranscript foundation text))) = [String.ofList l] := by
    rw [hmarked_eq, hsplit, trimmedParts, List.map_singleton, htrimmed]
    simpa using List.ne_nil_of_mem hbar
  have hexists : ∃ segment ∈ trimmedParts
      (foundation.componentsSeparatedBy " and " (String.ofList l)), '|' ∈ segment.toList := by
    obtain ⟨part, hpart, hmem⟩ : ∃ part ∈ components (foundation.textLength " and ") 0 [] l,
        '|' ∈ part := exists_mem_components (by simp) [] hbar
    have hcomponent : String.ofList part ∈
        foundation.componentsSeparatedBy " and " (String.ofList l) := by
      rw [VoiceFoundation.componentsSeparatedBy, String.toList_ofList]
      exact List.mem_map_of_mem hpart
    exact exists_mem_trimmedParts hcomponent (by simpa using hmem) rfl
  rcases segments_of_part hmarked.nonempty hparts with hsegments | ⟨-, hsegments | ⟨hnil, -⟩⟩
  · rw [hsegments]
    exact ⟨String.ofList l, List.mem_singleton_self _, by simpa using hbar⟩
  · rwa [hsegments]
  · rw [hnil] at hexists
    obtain ⟨segment, hmem, -⟩ := hexists
    cases hmem

/-- Whitespace between the texts leaves a space behind the first one. -/
theorem IsJoint.exists_concat (hjoint : IsJoint foundation A x w v B) (hne : x ≠ [])
    (hx : ∀ c ∈ x, foundation.isWhiteSpace c) : ∃ u, w = u ++ [' '] := by
  have hlast := hjoint.last
  obtain ⟨x, c, rfl⟩ := (List.eq_nil_or_concat' x).resolve_left hne
  rw [← List.append_assoc, List.getLast?_concat, Option.map_some, if_pos (hx c (by simp))] at hlast
  rcases List.eq_nil_or_concat' w with rfl | ⟨u, d, rfl⟩
  · rw [List.append_nil] at hlast
    have hfalse := (isTrimmed_normalizeTranscript A).2 ' ' hlast
    cases hfalse
  · rw [← List.append_assoc, List.getLast?_concat] at hlast
    exact ⟨u, by rw [Option.some.inj hlast]⟩

/-- A bar after the joint is a character of its own where it is one in the text. -/
theorem IsJoint.isBoundary_bar (hjoint : IsJoint foundation A x w v B)
    (hknows : KnowsSeparators foundation joins) (z : List Char) :
    foundation.isBoundary ((normalizeTranscript foundation A).toList ++ w) ('|' :: z) =
      foundation.isBoundary (A.toList ++ x) ['|'] := by
  rw [hknows.bar.before, hknows.bar.before, pairBoundary, pairBoundary, hjoint.last]
  cases (A.toList ++ x).getLast? with
  | none => rfl
  | some c =>
    by_cases hc : foundation.isWhiteSpace c
    · simp [hc, hknows.joins_bar ' ' rfl, hknows.joins_bar c (hknows.whiteSpace c hc)]
    · simp [hc]

theorem KnowsSeparators.isBoundary_bar_congr (h : KnowsSeparators foundation joins)
    (hhead : l.head? = m.head?) (y z : List Char) :
    foundation.isBoundary (y ++ ['|']) l = foundation.isBoundary (z ++ ['|']) m := by
  rw [h.bar.after, h.bar.after]
  simp [pairBoundary, hhead]

theorem KnowsSeparators.isBoundary_bar_space (h : KnowsSeparators foundation joins)
    (y l : List Char) : foundation.isBoundary (y ++ ['|']) (' ' :: l) := by
  rw [h.bar.after, pairBoundary_concat_cons, h.bar_joins]
  rfl

theorem KnowsSeparators.isWhiteSpace_eq_false (h : KnowsSeparators foundation joins) {c : Char}
    (hc : isWhitespaceOrNewline c = false) : foundation.isWhiteSpace c = false := by
  refine Bool.eq_false_iff.mpr fun hspace => ?_
  rw [h.whiteSpace c hspace] at hc
  cases hc

end Marker

section Separators

variable {A B : String}

theorem append_text (text : String) {x core : List Char} (h : text.toList = x ++ (core ++ [' '])) :
    A ++ text ++ B = String.ofList (A.toList ++ x ++ (core ++ ' ' :: B.toList)) := by
  rw [← String.toList_inj]
  simp [h]

/-- A separator is replaced, and the space behind it stays. -/
theorem exists_isMarked (hknows : KnowsSeparators foundation joins) (hA : IsSegment foundation A)
    (hB : IsSegment foundation B) (text : String) (x core : List Char)
    (htext : text.toList = x ++ (core ++ [' '])) (hx : ∀ c ∈ x, foundation.isWhiteSpace c)
    (hcore : ∀ inRun, collapsing foundation.isWhiteSpace ' ' inRun core = core ∧
      endsInRun foundation.isWhiteSpace inRun core = false)
    (hpass : ∀ w v, IsJoint foundation A x w v B →
      marked foundation (String.ofList ((normalizeTranscript foundation A).toList ++ w ++
          (core ++ (' ' :: v ++ (normalizeTranscript foundation B).toList)))) =
        String.ofList ((normalizeTranscript foundation A).toList ++ w ++
          '|' :: (' ' :: v ++ (normalizeTranscript foundation B).toList))) :
    ∃ w v, IsMarked foundation A B (A ++ text ++ B) w v ∧
      (IsCharacter foundation ((normalizeTranscript foundation A).toList ++ w)
          (v ++ (normalizeTranscript foundation B).toList) ↔
        foundation.isBoundary (A.toList ++ x) ['|']) := by
  have hneA := hA.normalizeTranscript_ne hknows
  obtain ⟨w, v, hjoint⟩ := exists_isJoint hneA (hB.normalizeTranscript_ne hknows) hx
  have hnormalized := hjoint.normalizeTranscript_eq hknows.space core hcore
  rw [← append_text text htext] at hnormalized
  refine ⟨w, ' ' :: v, ⟨hjoint.blank_left, List.forall_mem_cons.mpr ⟨rfl, hjoint.blank_right⟩, ?_,
    ?_⟩, ?_⟩
  · rw [hnormalized]
    simp [hneA]
  · rw [hnormalized, hpass w v hjoint]
  · rw [IsCharacter, hjoint.isBoundary_bar hknows, List.cons_append,
      hknows.isBoundary_bar_space]
    simp

/-- A comma with `and` is marked. -/
theorem exists_isMarked_commaAnd (hknows : KnowsSeparators foundation joins)
    (hA : IsSegment foundation A) (hB : IsSegment foundation B) (hand : ¬EndsInAnd foundation A) :
    ∃ w v, IsMarked foundation A B (A ++ ", and " ++ B) w v ∧
      (IsCharacter foundation ((normalizeTranscript foundation A).toList ++ w)
          (v ++ (normalizeTranscript foundation B).toList) ↔
        foundation.isBoundary A.toList ['|'] ∧
          foundation.isBoundary ['|'] (B.toList.dropWhile foundation.isWhiteSpace)) := by
  have hneA := hA.normalizeTranscript_ne hknows
  have hletter : ∀ c ∈ ",and".toList, foundation.isWhiteSpace c = false := by
    intro c hc
    refine hknows.isWhiteSpace_eq_false ?_
    simp at hc
    rcases hc with rfl | rfl | rfl | rfl <;> rfl
  simp at hletter
  obtain ⟨hcomma, ha, hn, hd⟩ := hletter
  obtain ⟨w, v, hjoint⟩ :=
    exists_isJoint (x := []) hneA (hB.normalizeTranscript_ne hknows) (by simp)
  have hnormalized := hjoint.normalizeTranscript_eq hknows.space ", and".toList
    fun inRun => by simp [collapsing, endsInRun, hcomma, ha, hn, hd, hknows.space]
  rw [← append_text ", and " rfl] at hnormalized
  have hjoined : ", and".toList ++ (' ' :: v ++ (normalizeTranscript foundation B).toList) =
      ", and ".toList ++ (v ++ (normalizeTranscript foundation B).toList) := by simp
  rw [hjoined] at hnormalized
  refine ⟨w, v, ⟨hjoint.blank_left, hjoint.blank_right, ?_, ?_⟩, ?_⟩
  · rw [hnormalized]
    simp [hneA]
  · rw [hnormalized]
    exact hknows.marked_commaAnd (hjoint.apart hknows hA hB hand) hjoint.head_eq_false
  · have hafter := hknows.isBoundary_bar_congr hjoint.head
      ((normalizeTranscript foundation A).toList ++ w) []
    rw [IsCharacter, hjoint.isBoundary_bar hknows, hafter, List.append_nil, List.nil_append]

/-- Every separator but the newlines is replaced by the marker. -/
theorem exists_isMarked_separator (hknows : KnowsSeparators foundation joins)
    (hA : IsSegment foundation A) (hB : IsSegment foundation B) (hand : ¬EndsInAnd foundation A)
    {separator : Separator} (hseparator : ∀ n, separator ≠ .newlines n) :
    ∃ w v, IsMarked foundation A B (A ++ separator.text ++ B) w v ∧
      (IsCharacter foundation ((normalizeTranscript foundation A).toList ++ w)
          (v ++ (normalizeTranscript foundation B).toList) ↔
        separator.Separates foundation A B) := by
  have hspaces : ∀ c ∈ [' '], foundation.isWhiteSpace c := by simpa using hknows.space
  have hletter : ∀ c ∈ "andthe.;".toList, foundation.isWhiteSpace c = false := by
    intro c hc
    refine hknows.isWhiteSpace_eq_false ?_
    simp at hc
    rcases hc with rfl | rfl | rfl | rfl | rfl | rfl | rfl | rfl <;> rfl
  simp at hletter
  obtain ⟨ha, hn, hd, ht, hh, he, hperiod, hsemicolon⟩ := hletter
  have hbefore : foundation.isBoundary (A.toList ++ [' ']) ['|'] := by
    rw [hknows.bar.before, pairBoundary_concat_cons, hknows.joins_bar ' ' rfl]
    rfl
  -- The whitespace before a separator word is left.
  have hword : ∀ {w v : List Char}, IsJoint foundation A [' '] w v B → w ≠ [] ∧
      foundation.endsInWord ((normalizeTranscript foundation A).toList ++ w) = false := by
    intro w v hjoint
    obtain ⟨u, rfl⟩ := hjoint.exists_concat (by simp) hspaces
    refine ⟨by simp, ?_⟩
    rw [← List.append_assoc]
    exact hknows.endsInWord_mark (w := []) (by simp) (by simp) _
  cases separator with
  | andThen =>
    obtain ⟨w, v, hmarked, hmarker⟩ := exists_isMarked hknows hA hB " and then " [' ']
      "and then".toList rfl hspaces
      (fun inRun => by simp [collapsing, endsInRun, ha, hn, hd, ht, hh, he, hknows.space])
      fun w v hjoint => hknows.marked_andThen (hjoint.apart hknows hA hB hand).space
        (hword hjoint).1 (hword hjoint).2
    exact ⟨w, v, hmarked, iff_of_true (hmarker.mpr hbefore) trivial⟩
  | then_ =>
    obtain ⟨w, v, hmarked, hmarker⟩ := exists_isMarked hknows hA hB " then " [' ']
      "then".toList rfl hspaces
      (fun inRun => by simp [collapsing, endsInRun, hn, ht, hh, he])
      fun w v hjoint => hknows.marked_then (hjoint.apart hknows hA hB hand).space
        (hword hjoint).1 (hword hjoint).2
    exact ⟨w, v, hmarked, iff_of_true (hmarker.mpr hbefore) trivial⟩
  | newlines n => exact absurd rfl (hseparator n)
  | period =>
    obtain ⟨w, v, hmarked, hmarker⟩ := exists_isMarked hknows hA hB ". " [] ['.'] rfl
      (by simp) (fun inRun => by simp [collapsing, endsInRun, hperiod])
      fun w v hjoint => hknows.marked_point (hjoint.apart hknows hA hB hand).space (Or.inl rfl)
    rw [List.append_nil] at hmarker
    exact ⟨w, v, hmarked, hmarker⟩
  | semicolon =>
    obtain ⟨w, v, hmarked, hmarker⟩ := exists_isMarked hknows hA hB "; " [] [';'] rfl
      (by simp) (fun inRun => by simp [collapsing, endsInRun, hsemicolon])
      fun w v hjoint => hknows.marked_point (hjoint.apart hknows hA hB hand).space (Or.inr rfl)
    rw [List.append_nil] at hmarker
    exact ⟨w, v, hmarked, hmarker⟩
  | commaAnd => exact exists_isMarked_commaAnd hknows hA hB hand

end Separators

end VoiceTaskParser

end Notelayer
