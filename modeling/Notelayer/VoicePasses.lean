import Notelayer.VoiceDrafts

/-!
# The passes over a transcript of two texts

No pass of the splitter reaches from a text into a character that is no part of a word, unless the
text ends in `and` (`KnowsSeparators.noMatch_left`), and behind such a character a text is searched
as on its own (`KnowsSeparators.noMatch_right`). So of two texts without separators, with one
between them, the passes leave the texts and the marker (`KnowsSeparators.marked_andThen`,
`KnowsSeparators.marked_then`, `KnowsSeparators.marked_point`, `KnowsSeparators.marked_commaAnd`).
-/

namespace Notelayer

open Replacing Rewriting Characters

namespace VoiceTaskParser

variable (foundation : VoiceFoundation)

/-- What the parser makes of the text, whitespace and the marks. -/
structure KnowsSeparators (joins : Char → Char → Bool) : Prop where
  whiteSpace : ∀ c, foundation.isWhiteSpace c → isWhitespaceOrNewline c
  space : foundation.isWhiteSpace ' '
  newline : foundation.isWhiteSpace '\n'
  letter : ∀ a ∈ "andthen".toList, ∀ c, sameIgnoringCase a c →
    foundation.isWordCharacter c ∧ foundation.isIgnorable c = false
  blank : ∀ c, isWhitespaceOrNewline c → foundation.isWordCharacter c = false
  mark : ∀ c ∈ " |.;,".toList,
    foundation.isWordCharacter c = false ∧ foundation.isIgnorable c = false
  bar : PairwiseAt foundation.isBoundary joins '|'
  joins_bar : ∀ c, isWhitespaceOrNewline c → joins c '|' = false
  bar_joins : joins '|' ' ' = false

variable {foundation}

/-! ## Where a pass finds nothing -/

variable {joins : Char → Char → Bool} {a b w v before m l y z : List Char} {word : String}

theorem isWordBoundary_append (hne : z ≠ []) (l : List Char) :
    foundation.isWordBoundary y (z ++ l) = foundation.isWordBoundary y z := by
  obtain ⟨c, z, rfl⟩ := List.exists_cons_of_ne_nil hne
  rfl

theorem endsInWord_append (h : foundation.endsInWord z = false) (y : List Char) :
    foundation.endsInWord (z ++ y) = foundation.endsInWord y := by
  unfold VoiceFoundation.endsInWord at h ⊢
  rw [List.reverse_append, List.find?_append]
  cases hfound : y.reverse.find? fun c => !foundation.isIgnorable c with
  | none => simpa using h
  | some c => rfl

/-- No character of a word is at the end. -/
theorem endsInWord_append_cons {c : Char} (hc : foundation.isWordCharacter c = false)
    (hignorable : foundation.isIgnorable c = false)
    (hw : ∀ d ∈ w, foundation.isWordCharacter d = false) (z : List Char) :
    foundation.endsInWord (z ++ c :: w) = false := by
  unfold VoiceFoundation.endsInWord
  rw [List.reverse_append, List.find?_append, List.reverse_cons, List.find?_append]
  cases hfound : w.reverse.find? fun d => !foundation.isIgnorable d with
  | none => simp [hignorable, hc]
  | some d =>
    have hd := hw d (by simpa using List.mem_of_find?_eq_some hfound)
    simp [hd]

/-- Behind what is not a word, a match is as at the start of the text. -/
theorem boundedLength_append_left (h : foundation.endsInWord z = false) (y l : List Char) :
    boundedLength foundation word (z ++ y) l = boundedLength foundation word y l := by
  have hboundary : ∀ x l', foundation.isWordBoundary (z ++ x) l' = foundation.isWordBoundary x l' :=
    fun x l' => by rw [VoiceFoundation.isWordBoundary, endsInWord_append h]; rfl
  unfold boundedLength targetLength IsAt
  rw [List.append_assoc, hboundary, hboundary]

theorem noMatch_bounded_right (h : foundation.endsInWord z = false)
    (hb : NoMatch (boundedLength foundation word) [] b l) :
    NoMatch (boundedLength foundation word) z b l := by
  intro x y hsplit hne
  rw [boundedLength_append_left h]
  exact hb x y hsplit hne

theorem exists_of_forall₂_append_right {A B : Type} {R : A → B → Prop} {x y : List B} {m : List A}
    (h : List.Forall₂ R m (x ++ y)) :
    ∃ m₁ m₂, m = m₁ ++ m₂ ∧ List.Forall₂ R m₁ x ∧ List.Forall₂ R m₂ y := by
  obtain ⟨m₁, m₂, hsplit, hx, hy⟩ := exists_of_forall₂_append h.flip
  exact ⟨m₁, m₂, hsplit, hx.flip, hy.flip⟩

/-- A match that ends in front of `l` is one at the end of the text. -/
theorem isWordBoundary_nil (hl : ∀ c ∈ l.head?, foundation.isWordCharacter c = false)
    (h : foundation.isWordBoundary z l) : foundation.isWordBoundary z [] := by
  cases l with
  | nil => exact h
  | cons c l =>
    have hc := hl c rfl
    simp [VoiceFoundation.isWordBoundary, hc] at h
    simp [VoiceFoundation.isWordBoundary, h]

/-- A match in the first part of a text is one in this part alone, or reaches into the rest. -/
theorem boundedLength_append_eq_zero (hz : z ≠ []) (h : boundedLength foundation word y z = 0)
    (hl : ∀ c ∈ l.head?, foundation.isWordCharacter c = false)
    (hcross : ∀ x d x', word.toList = x ++ d :: x' →
      List.Forall₂ (fun a c => sameIgnoringCase a c) x z → foundation.isWordBoundary y z →
        ∀ c ∈ l.head?, sameIgnoringCase d c = false) :
    boundedLength foundation word y (z ++ l) = 0 := by
  by_contra hlength
  obtain ⟨m, l', hsplit, hm, hmatch⟩ := fits_targetLength.exists_append hlength
  obtain ⟨hword, hbefore, hafter⟩ := spec_of_targetLength hm hmatch
  rw [isWordBoundary_append hm] at hbefore
  have halone : ∀ t, z = m ++ t → ¬foundation.isWordBoundary (y ++ m) t := by
    rintro t rfl hboundary
    have hmatch : boundedLength foundation word y (m ++ t) = m.length :=
      targetLength_of_forall₂ hword (by rwa [isWordBoundary_append hm]) hboundary
    exact hm (List.length_eq_zero_iff.mp (hmatch ▸ h))
  rcases List.append_eq_append_iff.mp hsplit with ⟨t, rfl, rfl⟩ | ⟨t, rfl, rfl⟩
  · cases t with
    | nil =>
      rw [List.append_nil] at hafter halone
      exact halone [] (List.append_nil z).symm (isWordBoundary_nil hl hafter)
    | cons c t =>
      obtain ⟨x, x', hx, hxz, hx'⟩ := exists_of_forall₂_append_right hword
      obtain ⟨d, x', hd, -, rfl⟩ := List.forall₂_cons_right_iff.mp hx'
      rw [isWordBoundary_append hz] at hbefore
      have hfalse := hcross x d x' hx hxz hbefore c rfl
      rw [hd] at hfalse
      cases hfalse
  · cases t with
    | nil => exact halone [] rfl (isWordBoundary_nil hl hafter)
    | cons c t =>
      exact halone (c :: t) rfl (by rwa [isWordBoundary_append (List.cons_ne_nil c t)] at hafter)

variable (foundation) in
/-- What a text begins with, so that it does not go on with a word behind whitespace. -/
def StartsApart (l : List Char) : Prop :=
  ∀ x c r, l = x ++ c :: r → (∀ d ∈ x, isWhitespaceOrNewline d) →
    foundation.isWordCharacter c = false

theorem StartsApart.head (h : StartsApart foundation l) :
    ∀ c ∈ l.head?, foundation.isWordCharacter c = false := by
  intro c hc
  obtain ⟨r, rfl⟩ := List.head?_eq_some_iff.mp hc
  exact h [] c r rfl (by simp)

/-- A text that begins with a sign starts apart. -/
theorem KnowsSeparators.startsApart (h : KnowsSeparators foundation joins) {c : Char}
    (hw : ∀ d ∈ w, isWhitespaceOrNewline d) (hc : foundation.isWordCharacter c = false)
    (hblank : isWhitespaceOrNewline c = false) (r : List Char) :
    StartsApart foundation (w ++ c :: r) := by
  intro x d r' hsplit hx
  rcases List.append_eq_append_iff.mp hsplit with ⟨t, rfl, ht⟩ | ⟨t, rfl, ht⟩
  · cases t with
    | nil =>
      obtain ⟨rfl, -⟩ := List.cons.inj ht
      exact hc
    | cons e t =>
      obtain ⟨rfl, -⟩ := List.cons.inj ht
      have hfalse := hx c (by simp)
      rw [hblank] at hfalse
      cases hfalse
  · cases t with
    | nil =>
      obtain ⟨rfl, -⟩ := List.cons.inj ht
      exact hc
    | cons e t =>
      obtain ⟨rfl, -⟩ := List.cons.inj ht
      exact h.blank d (hw d (by simp))

theorem noMatch_bounded_left (hl : ∀ c ∈ l.head?, foundation.isWordCharacter c = false)
    (hcross : ∀ y z x d x', a = y ++ z → word.toList = x ++ d :: x' →
      List.Forall₂ (fun a c => sameIgnoringCase a c) x z → foundation.isWordBoundary y z →
        ∀ c ∈ l.head?, sameIgnoringCase d c = false)
    (ha : NoMatch (boundedLength foundation word) [] a []) :
    NoMatch (boundedLength foundation word) [] a l := by
  intro y z hsplit hne
  have halone := ha y z hsplit hne
  rw [List.append_nil] at halone
  exact boundedLength_append_eq_zero hne halone hl fun x d x' => hcross y z x d x' hsplit

theorem KnowsSeparators.letter_eq_false (h : KnowsSeparators foundation joins) {c d : Char}
    (hd : d ∈ "andthen".toList) (hc : foundation.isWordCharacter c = false) :
    sameIgnoringCase d c = false := by
  refine Bool.eq_false_iff.mpr fun hsame => ?_
  rw [(h.letter d hd c hsame).1] at hc
  cases hc

theorem KnowsSeparators.noMatch_then_left (h : KnowsSeparators foundation joins)
    (hl : ∀ c ∈ l.head?, foundation.isWordCharacter c = false)
    (ha : NoMatch (boundedLength foundation "then") [] a []) :
    NoMatch (boundedLength foundation "then") [] a l := by
  refine noMatch_bounded_left hl (fun y z x d x' _ hword _ _ c hc => ?_) ha
  have hletters : ∀ d ∈ "then".toList, d ∈ "andthen".toList := by simp
  exact h.letter_eq_false (hletters d (by simp [hword])) (hl c hc)

/-- Where `and` ends no word, `and then` does not match across the joint. -/
theorem KnowsSeparators.noMatch_andThen_left (h : KnowsSeparators foundation joins)
    (hl : ∀ c ∈ l.head?, foundation.isWordCharacter c = false)
    (hand : ∀ y z, a = y ++ z → List.Forall₂ (fun a c => sameIgnoringCase a c) "and".toList z →
      foundation.isWordBoundary y z = false)
    (ha : NoMatch (boundedLength foundation "and then") [] a []) :
    NoMatch (boundedLength foundation "and then") [] a l := by
  refine noMatch_bounded_left hl (fun y z x d x' hsplit hword hx hboundary c hc => ?_) ha
  by_cases hspace : d = ' '
  · subst hspace
    have hspaced : "and".toList ++ ' ' :: "then".toList = x ++ ' ' :: x' := hword
    obtain ⟨rfl, -, -⟩ := (List.append_cons_inj_of_notMem (by simp) (by simp)).mp hspaced
    rw [hand y z hsplit hx] at hboundary
    cases hboundary
  · have hletters : ∀ d ∈ "and then".toList, d ≠ ' ' → d ∈ "andthen".toList := by simp
    exact h.letter_eq_false (hletters d (by simp [hword]) hspace) (hl c hc)

/-- A match is not empty. -/
theorem patternLength_one_ne_zero {p : Char → Bool} {pattern : List RegexPiece} {rest : List Char}
    {groups : List (List Char × List Char)}
    (h : Pattern.Matches (.one p :: pattern) l groups rest) (before : List Char) :
    patternLength (.one p :: pattern) before l ≠ 0 := by
  intro hzero
  obtain ⟨⟨groups', rest'⟩, hfound⟩ := Option.isSome_iff_exists.mp (Pattern.isSome_firstMatch h)
  obtain ⟨c, l', rfl, -, hmatches⟩ :=
    Pattern.matches_one_iff.mp (Pattern.matches_of_firstMatch hfound)
  obtain ⟨m, rfl⟩ := hmatches.exists_append
  simp [patternLength, hfound] at hzero
  omega

/-- Behind whitespace a word begins. -/
theorem KnowsSeparators.isWordBoundary_letter (h : KnowsSeparators foundation joins) {c d : Char}
    (hd : d ∈ "andthen".toList) (hc : sameIgnoringCase d c) (hy : foundation.endsInWord y = false) :
    foundation.isWordBoundary y (c :: l) := by
  obtain ⟨hword, hignorable⟩ := h.letter d hd c hc
  simp [VoiceFoundation.isWordBoundary, hword, hignorable, hy]

theorem KnowsSeparators.endsInWord_mark (h : KnowsSeparators foundation joins) {c : Char}
    (hc : c ∈ " |.;,".toList) (hw : ∀ d ∈ w, isWhitespaceOrNewline d) (z : List Char) :
    foundation.endsInWord (z ++ c :: w) = false :=
  endsInWord_append_cons (h.mark c hc).1 (h.mark c hc).2 (fun d hd => h.blank d (hw d hd)) z

/-- A comma and `and` in front of what is no word do not reach into it. -/
theorem KnowsSeparators.noMatch_comma_left (h : KnowsSeparators foundation joins)
    (hl : StartsApart foundation l)
    (hand : ∀ y z, a = y ++ z → List.Forall₂ (fun a c => sameIgnoringCase a c) "and".toList z →
      foundation.isWordBoundary y z = false)
    (ha : NoMatch (patternLength (commaPattern foundation)) [] a []) :
    NoMatch (patternLength (commaPattern foundation)) [] a l := by
  intro y z hsplit hne
  have halone := ha y z hsplit hne
  rw [List.append_nil] at halone
  by_contra hlength
  obtain ⟨found, rest, hz, hfound, hmatch⟩ := fits_patternLength.exists_append hlength
  obtain ⟨groups, hmatches⟩ := exists_matches_of_patternLength hfound hmatch
  obtain ⟨-, x, m, t, htext, ⟨hx, hxall⟩, hm, ht, htall⟩ := matches_commaPattern_iff.mp hmatches
  have hblank : ∀ c ∈ x, isWhitespaceOrNewline c := fun c hc => h.whiteSpace c (hxall c hc)
  obtain ⟨c, m', hc, -, hcm⟩ : ∃ c m', sameIgnoringCase 'a' c ∧ _ ∧ m = c :: m' :=
    List.forall₂_cons_left_iff.mp hm
  -- The match is not one of the first part alone, and this does not end in `and`.
  have hinside : ∀ t u, z = ',' :: x ++ m ++ t ++ u → t ≠ [] →
      (∀ c ∈ t, foundation.isWhiteSpace c) → False := fun t u hz ht htall =>
    patternLength_one_ne_zero (matches_commaPattern_iff.mpr
      ⟨rfl, x, m, t, by simpa using hz, ⟨hx, hxall⟩, hm, ht, htall⟩) y halone
  have hend : z ≠ ',' :: x ++ m := by
    rintro rfl
    have hfalse := hand (y ++ ',' :: x) m (by simp [hsplit]) hm
    rw [hcm, h.isWordBoundary_letter (by simp) hc (h.endsInWord_mark (by simp) hblank y)] at hfalse
    cases hfalse
  have hjoined : z ++ l = (',' :: x) ++ (m ++ (t ++ rest)) := by simp [hz, htext]
  rcases List.append_eq_append_iff.mp hjoined with ⟨s, hcut, hrest⟩ | ⟨s, rfl, hrest⟩
  · obtain ⟨d, z, rfl⟩ := List.exists_cons_of_ne_nil hne
    obtain ⟨-, rfl⟩ := List.cons.inj hcut
    have hword := hl s c (m' ++ (t ++ rest)) (by simp [hrest, hcm]) fun d hd =>
      hblank d (List.mem_append_right z hd)
    rw [(h.letter 'a' (by simp) c hc).1] at hword
    cases hword
  · rcases List.append_eq_append_iff.mp hrest with ⟨s', rfl, htail⟩ | ⟨s', hcut, htail⟩
    · rcases List.append_eq_append_iff.mp htail with ⟨s, rfl, -⟩ | ⟨s, hcut, -⟩
      · exact hinside t s (by simp) ht htall
      · cases s' with
        | nil => exact hend (by simp)
        | cons d s' =>
          refine hinside (d :: s') [] (by simp) (List.cons_ne_nil d s') fun e he => ?_
          exact htall e (by rw [hcut]; exact List.mem_append_left s he)
    · cases s' with
      | nil =>
        rw [List.append_nil] at hcut
        exact hend (by rw [hcut])
      | cons d s' =>
        rw [hcut] at hm
        obtain ⟨word, word', hword, -, hm⟩ := exists_of_forall₂_append_right hm
        obtain ⟨e, word', hd, -, rfl⟩ := List.forall₂_cons_right_iff.mp hm
        have hletters : ∀ d ∈ "and".toList, d ∈ "andthen".toList := by simp
        have he : e ∈ "and".toList := by simp [hword]
        have hfalse := h.letter_eq_false (hletters e he) (hl.head d (by simp [htail]))
        rw [hd] at hfalse
        cases hfalse

/-! ## Every pass -/

theorem patternLength_one_eq_zero {p : Char → Bool} {pattern : List RegexPiece} {c : Char}
    (hc : p c = false) (before l : List Char) :
    patternLength (.one p :: pattern) before (c :: l) = 0 := by
  refine patternLength_eq_zero fun groups rest hmatches => ?_
  obtain ⟨d, l', hsplit, hd, -⟩ := Pattern.matches_one_iff.mp hmatches
  rw [← (List.cons.inj hsplit).1, hc] at hd
  cases hd

theorem noMatch_one_iff {p : Char → Bool} :
    NoMatch (patternLength [.one p]) before y l ↔ ∀ c ∈ y, p c = false := by
  constructor
  · intro h c hc
    obtain ⟨y, z, rfl⟩ := List.append_of_mem hc
    refine Bool.eq_false_iff.mpr fun hp => ?_
    exact patternLength_one_ne_zero (Pattern.matches_one_iff.mpr
      ⟨c, z ++ l, rfl, hp, Pattern.matches_nil_iff.mpr ⟨rfl, rfl⟩⟩) (before ++ y)
        (h y (c :: z) rfl (List.cons_ne_nil c z))
  · exact fun h => noMatch_of_forall fun c hc => patternLength_one_eq_zero (h c hc)

/-- A class matches nothing where none of its characters is. -/
theorem noMatch_some_iff {p : Char → Bool} :
    NoMatch (patternLength [.some p]) before y l ↔ ∀ c ∈ y, p c = false := by
  constructor
  · intro h c hc
    obtain ⟨y, z, rfl⟩ := List.append_of_mem hc
    have hzero := h y (c :: z) rfl (List.cons_ne_nil c z)
    rw [patternLength_some, List.length_eq_zero_iff, List.cons_append, List.takeWhile_cons] at hzero
    split_ifs at hzero with hp
    simpa using hp
  · refine fun h => noMatch_of_forall fun c hc before l => ?_
    rw [patternLength_some, List.takeWhile_cons_of_neg (by simp [h c hc])]
    rfl

theorem boundedLength_eq_zero {c d : Char} {x : List Char} (hword : word.toList = d :: x)
    (hc : sameIgnoringCase d c = false) (before l : List Char) :
    boundedLength foundation word before (c :: l) = 0 := by
  refine if_neg fun hat => ?_
  simp [IsAt, hword, startsWith, hc] at hat

/-- A pass finds nothing at a character that is no letter and no mark of a separator. -/
theorem KnowsSeparators.separator_eq_zero (h : KnowsSeparators foundation joins) {c : Char}
    (hword : foundation.isWordCharacter c = false) (hc : c ∉ ['\n', '.', ';', ',']) :
    ∀ separator ∈ regexSeparators foundation, ∀ before l, separator before (c :: l) = 0 := by
  obtain ⟨hnewline, hperiod, hsemicolon, hcomma⟩ : c ≠ '\n' ∧ c ≠ '.' ∧ c ≠ ';' ∧ c ≠ ',' := by
    simpa using hc
  simp only [regexSeparators, List.forall_mem_cons]
  have ha : sameIgnoringCase 'a' c = false := h.letter_eq_false (by simp) hword
  have ht : sameIgnoringCase 't' c = false := h.letter_eq_false (by simp) hword
  refine ⟨boundedLength_eq_zero rfl ha, boundedLength_eq_zero rfl ht,
    fun before l => ?_, patternLength_one_eq_zero (by simp [hperiod, hsemicolon]),
    patternLength_one_eq_zero (by simp [hcomma]), by simp⟩
  rw [patternLength_some, List.takeWhile_cons_of_neg (by simp [hnewline])]
  rfl

/-- No separator is blank. -/
theorem KnowsSeparators.noMatch_blank (h : KnowsSeparators foundation joins)
    (hw : ∀ c ∈ w, isWhitespaceOrNewline c) (hnewline : '\n' ∉ w) :
    ∀ separator ∈ regexSeparators foundation, NoMatch separator y w l := by
  refine fun separator hseparator => noMatch_of_forall fun c hc => ?_
  refine h.separator_eq_zero (h.blank c (hw c hc)) ?_ separator hseparator
  have hblank := hw c hc
  simp only [List.mem_cons, List.not_mem_nil, or_false, not_or]
  refine ⟨?_, ?_, ?_, ?_⟩
  · rintro rfl
    exact hnewline hc
  · rintro rfl
    cases hblank
  · rintro rfl
    cases hblank
  · rintro rfl
    cases hblank

variable (foundation) in
/-- Two texts in which no pass finds something, with whitespace between them. -/
structure Apart (a w v b : List Char) : Prop where
  first : ∀ separator ∈ regexSeparators foundation, NoMatch separator [] a []
  notAnd : ∀ y z, a = y ++ z → List.Forall₂ (fun a c => sameIgnoringCase a c) "and".toList z →
    foundation.isWordBoundary y z = false
  blank_left : ∀ c ∈ w, isWhitespaceOrNewline c
  newline_left : '\n' ∉ w
  blank_right : ∀ c ∈ v, isWhitespaceOrNewline c
  newline_right : '\n' ∉ v
  second : ∀ separator ∈ regexSeparators foundation, NoMatch separator [] b []

/-- No pass finds something in the first text and the whitespace behind it. -/
theorem KnowsSeparators.noMatch_left (h : KnowsSeparators foundation joins)
    (hapart : Apart foundation a w v b) (hl : StartsApart foundation (w ++ l)) :
    ∀ separator ∈ regexSeparators foundation, NoMatch separator [] (a ++ w) l := by
  intro separator hseparator
  refine noMatch_append_iff.mpr
    ⟨?_, h.noMatch_blank hapart.blank_left hapart.newline_left separator hseparator⟩
  have ha := hapart.first
  revert separator
  simp only [regexSeparators, List.forall_mem_cons] at ha ⊢
  obtain ⟨handThen, hthen, hnewlines, hpoint, hcomma, -⟩ := ha
  exact ⟨h.noMatch_andThen_left hl.head hapart.notAnd handThen, h.noMatch_then_left hl.head hthen,
    noMatch_some_iff.mpr (noMatch_some_iff.mp hnewlines),
    noMatch_one_iff.mpr (noMatch_one_iff.mp hpoint),
    h.noMatch_comma_left hl hapart.notAnd hcomma, by simp⟩

/-- The first two passes do not if there is whitespace. -/
theorem KnowsSeparators.noMatch_words_left (h : KnowsSeparators foundation joins)
    (hapart : Apart foundation a w v b) (hne : w ≠ []) :
    NoMatch (boundedLength foundation "and then") [] (a ++ w) l ∧
      NoMatch (boundedLength foundation "then") [] (a ++ w) l := by
  have hl : ∀ c ∈ (w ++ l).head?, foundation.isWordCharacter c = false := by
    intro c hc
    rw [List.head?_append_of_ne_nil _ hne] at hc
    exact h.blank c (hapart.blank_left c (List.mem_of_mem_head? hc))
  have hblank := h.noMatch_blank (y := a) (l := l) hapart.blank_left hapart.newline_left
  have ha := hapart.first
  simp only [regexSeparators, List.forall_mem_cons] at ha hblank
  exact ⟨noMatch_append_iff.mpr ⟨h.noMatch_andThen_left hl hapart.notAnd ha.1, hblank.1⟩,
    noMatch_append_iff.mpr ⟨h.noMatch_then_left hl ha.2.1, hblank.2.1⟩⟩

/-- No separator of one kind of character matches on the left. -/
theorem KnowsSeparators.noMatch_classes_left (h : KnowsSeparators foundation joins)
    (hapart : Apart foundation a w v b) :
    NoMatch (patternLength [.some (· == '\n')]) [] (a ++ w) l ∧
      NoMatch (patternLength [.one fun c => c == '.' || c == ';']) [] (a ++ w) l := by
  have hblank := h.noMatch_blank (y := a) (l := l) hapart.blank_left hapart.newline_left
  have ha := hapart.first
  simp only [regexSeparators, List.forall_mem_cons] at ha hblank
  exact ⟨noMatch_append_iff.mpr ⟨noMatch_some_iff.mpr (noMatch_some_iff.mp ha.2.2.1),
      hblank.2.2.1⟩,
    noMatch_append_iff.mpr ⟨noMatch_one_iff.mpr (noMatch_one_iff.mp ha.2.2.2.1),
      hblank.2.2.2.1⟩⟩

/-- No pass finds something in the second text and the whitespace before it. -/
theorem KnowsSeparators.noMatch_right (h : KnowsSeparators foundation joins)
    (hapart : Apart foundation a w v b) (hz : foundation.endsInWord (z ++ v) = false) :
    ∀ separator ∈ regexSeparators foundation, NoMatch separator z (v ++ b) [] := by
  intro separator hseparator
  refine noMatch_append_iff.mpr
    ⟨h.noMatch_blank hapart.blank_right hapart.newline_right separator hseparator, ?_⟩
  have hb := hapart.second
  revert separator
  simp only [regexSeparators, List.forall_mem_cons] at hb ⊢
  obtain ⟨handThen, hthen, hnewlines, hpoint, hcomma, -⟩ := hb
  exact ⟨noMatch_bounded_right hz handThen, noMatch_bounded_right hz hthen, hnewlines, hpoint,
    hcomma, by simp⟩

/-- With the marker between the texts no pass finds something. -/
theorem KnowsSeparators.rewriting_marker (h : KnowsSeparators foundation joins)
    (hapart : Apart foundation a w v b) : ∀ separator ∈ regexSeparators foundation,
      rewriting separator ['|'] 0 [] (a ++ w ++ '|' :: (v ++ b)) = a ++ w ++ '|' :: (v ++ b) := by
  intro separator hseparator
  have hmark : foundation.isWordCharacter '|' = false := (h.mark '|' (by simp)).1
  have hstarts := h.startsApart hapart.blank_left hmark rfl (v ++ b)
  have hends : foundation.endsInWord (a ++ w ++ ['|'] ++ v) = false := by
    rw [List.append_assoc]
    exact h.endsInWord_mark (by simp) hapart.blank_right (a ++ w)
  refine rewriting_eq_self_of_append (m := ['|'])
    (h.noMatch_left hapart hstarts separator hseparator) (noMatch_of_forall ?_)
    (h.noMatch_right hapart hends separator hseparator)
  rw [List.forall_mem_singleton]
  exact h.separator_eq_zero hmark (by simp) separator hseparator

theorem replacingMatches_ofList (matchLength : List Char → List Char → ℕ) (l : List Char) :
    replacingMatches matchLength "|" (String.ofList l) =
      String.ofList (rewriting matchLength ['|'] 0 [] l) := by
  simp [replacingMatches]

theorem foldl_replacingMatches {separators : List (List Char → List Char → ℕ)}
    (h : ∀ separator ∈ separators, rewriting separator ['|'] 0 [] l = l) :
    separators.foldl (fun working separator => replacingMatches separator "|" working)
      (String.ofList l) = String.ofList l := by
  induction separators with
  | nil => rfl
  | cons separator separators ih =>
    obtain ⟨hseparator, hseparators⟩ := List.forall_mem_cons.mp h
    rw [List.foldl_cons, replacingMatches_ofList, hseparator, ih hseparators]

/-- One pass finds something. -/
theorem marked_ofList {separator : List Char → List Char → ℕ}
    {earlier others : List (List Char → List Char → ℕ)}
    (hsplit : regexSeparators foundation = earlier ++ separator :: others)
    (hearlier : ∀ separator ∈ earlier, rewriting separator ['|'] 0 [] l = l)
    (hpass : rewriting separator ['|'] 0 [] l = m)
    (hothers : ∀ separator ∈ regexSeparators foundation, rewriting separator ['|'] 0 [] m = m) :
    marked foundation (String.ofList l) = String.ofList m := by
  rw [marked, hsplit, List.foldl_append, foldl_replacingMatches hearlier, List.foldl_cons,
    replacingMatches_ofList, hpass]
  exact foldl_replacingMatches fun separator hmem => hothers separator (by simp [hsplit, hmem])

/-! ## Each separator -/

/-- Behind a letter and before a space a word ends. -/
theorem KnowsSeparators.isWordBoundary_space (h : KnowsSeparators foundation joins) {d : Char}
    (hd : d ∈ "andthen".toList) (y l : List Char) :
    foundation.isWordBoundary (y ++ [d]) (' ' :: l) := by
  obtain ⟨hspace, hignorable⟩ := h.mark ' ' (by simp)
  obtain ⟨hletter, hsolid⟩ := h.letter d hd d (by simp [sameIgnoringCase])
  simp [VoiceFoundation.isWordBoundary, hspace, hignorable, endsInWord_concat hsolid, hletter]

/-- A separator word is found between whitespace. -/
theorem KnowsSeparators.boundedLength_eq (h : KnowsSeparators foundation joins) (word : String)
    {x u : List Char} {c d : Char} (hc : word.toList = c :: x) (hd : word.toList = u ++ [d])
    (hletters : c ∈ "andthen".toList ∧ d ∈ "andthen".toList) (hy : foundation.endsInWord y = false)
    (l : List Char) :
    boundedLength foundation word y (word.toList ++ ' ' :: l) = word.toList.length := by
  refine targetLength_of_forall₂ (List.forall₂_same.mpr fun c _ => by simp [sameIgnoringCase]) ?_ ?_
  · rw [hc]
    exact h.isWordBoundary_letter hletters.1 (by simp [sameIgnoringCase]) hy
  · rw [hd, ← List.append_assoc]
    exact h.isWordBoundary_space hletters.2 (y ++ u) l

/-- `and then` becomes a bar. -/
theorem KnowsSeparators.marked_andThen (h : KnowsSeparators foundation joins)
    (hapart : Apart foundation a w (' ' :: v) b) (hne : w ≠ [])
    (hw : foundation.endsInWord (a ++ w) = false) :
    marked foundation (String.ofList (a ++ w ++ ("and then".toList ++ (' ' :: v ++ b)))) =
      String.ofList (a ++ w ++ '|' :: (' ' :: v ++ b)) := by
  have hright := h.noMatch_right hapart (z := a ++ w ++ "and then".toList)
    (h.endsInWord_mark (by simp) (List.forall_mem_cons.mp hapart.blank_right).2 _)
  have hmatch := h.boundedLength_eq "and then" (x := "nd then".toList)
    (u := "and the".toList) (c := 'a') (d := 'n') rfl rfl (by simp) hw (v ++ b)
  refine marked_ofList (List.nil_append _).symm (by simp) ?_ (h.rewriting_marker hapart)
  exact rewriting_between (by simp) (h.noMatch_words_left hapart hne).1 hmatch
    (hright _ (by simp [regexSeparators]))

/-- `then` becomes a bar. -/
theorem KnowsSeparators.marked_then (h : KnowsSeparators foundation joins)
    (hapart : Apart foundation a w (' ' :: v) b) (hne : w ≠ [])
    (hw : foundation.endsInWord (a ++ w) = false) :
    marked foundation (String.ofList (a ++ w ++ ("then".toList ++ (' ' :: v ++ b)))) =
      String.ofList (a ++ w ++ '|' :: (' ' :: v ++ b)) := by
  have hright := h.noMatch_right hapart (z := a ++ w ++ "then".toList)
    (h.endsInWord_mark (by simp) (List.forall_mem_cons.mp hapart.blank_right).2 _)
  have hearlier : ∀ separator ∈ [boundedLength foundation "and then"],
      rewriting separator ['|'] 0 [] (a ++ w ++ ("then".toList ++ (' ' :: v ++ b))) =
        a ++ w ++ ("then".toList ++ (' ' :: v ++ b)) := by
    rw [List.forall_mem_singleton]
    refine rewriting_eq_self_of_append (h.noMatch_words_left hapart hne).1
      (noMatch_of_forall fun c hc => ?_) (hright _ (by simp [regexSeparators]))
    refine boundedLength_eq_zero (d := 'a') rfl ?_
    simp at hc
    rcases hc with rfl | rfl | rfl | rfl <;> rfl
  have hmatch := h.boundedLength_eq "then" (x := "hen".toList) (u := "the".toList)
    (c := 't') (d := 'n') rfl rfl (by simp) hw (v ++ b)
  refine marked_ofList rfl hearlier ?_ (h.rewriting_marker hapart)
  exact rewriting_between (by simp) (h.noMatch_words_left hapart hne).2 hmatch
    (hright _ (by simp [regexSeparators]))

/-- A point or a semicolon becomes a bar. -/
theorem KnowsSeparators.marked_point (h : KnowsSeparators foundation joins)
    (hapart : Apart foundation a w (' ' :: v) b) {c : Char} (hc : c = '.' ∨ c = ';') :
    marked foundation (String.ofList (a ++ w ++ ([c] ++ (' ' :: v ++ b)))) =
      String.ofList (a ++ w ++ '|' :: (' ' :: v ++ b)) := by
  have hmem : c ∈ " |.;,".toList := by rcases hc with rfl | rfl <;> simp
  have hword := (h.mark c hmem).1
  have hblank : isWhitespaceOrNewline c = false := by rcases hc with rfl | rfl <;> rfl
  have hpoint : (c == '.' || c == ';') = true := by simpa using hc
  have hleft := h.noMatch_left hapart
    (h.startsApart hapart.blank_left hword hblank (' ' :: v ++ b))
  have hright := h.noMatch_right hapart (z := a ++ w ++ [c])
    (h.endsInWord_mark (by simp) (List.forall_mem_cons.mp hapart.blank_right).2 _)
  have hkeep : ∀ separator ∈ regexSeparators foundation,
      (∀ before l, separator before (c :: l) = 0) → rewriting separator ['|'] 0 []
        (a ++ w ++ ([c] ++ (' ' :: v ++ b))) = a ++ w ++ ([c] ++ (' ' :: v ++ b)) := by
    intro separator hseparator hzero
    refine rewriting_eq_self_of_append (hleft separator hseparator)
      (noMatch_of_forall fun d hd => ?_) (hright separator hseparator)
    rwa [List.mem_singleton.mp hd]
  have hearlier : ∀ separator ∈ [boundedLength foundation "and then",
      boundedLength foundation "then", patternLength [.some (· == '\n')]],
      rewriting separator ['|'] 0 [] (a ++ w ++ ([c] ++ (' ' :: v ++ b))) =
        a ++ w ++ ([c] ++ (' ' :: v ++ b)) := by
    simp only [List.forall_mem_cons]
    refine ⟨hkeep _ (by simp [regexSeparators]) (boundedLength_eq_zero (d := 'a') rfl
        (h.letter_eq_false (by simp) hword)),
      hkeep _ (by simp [regexSeparators]) (boundedLength_eq_zero (d := 't') rfl
        (h.letter_eq_false (by simp) hword)),
      hkeep _ (by simp [regexSeparators]) fun before l => ?_, by simp⟩
    rw [patternLength_some, List.takeWhile_cons_of_neg]
    · rfl
    · rcases hc with rfl | rfl <;> simp
  have hmatch : patternLength [.one fun c => c == '.' || c == ';'] (a ++ w)
      ([c] ++ (' ' :: v ++ b)) = [c].length := by
    simp [patternLength, Pattern.firstMatch, RegexPiece.splits, hpoint]
  refine marked_ofList rfl hearlier ?_ (h.rewriting_marker hapart)
  exact rewriting_between (List.cons_ne_nil c []) (hleft _ (by simp [regexSeparators])) hmatch
    (hright _ (by simp [regexSeparators]))

/-- The pattern of a comma and `and` takes no whitespace but its own. -/
theorem KnowsSeparators.patternLength_comma (h : KnowsSeparators foundation joins)
    (hl : ∀ c ∈ l.head?, foundation.isWhiteSpace c = false) (before : List Char) :
    patternLength (commaPattern foundation) before (", and ".toList ++ l) =
      ", and ".toList.length := by
  have hmatches : Pattern.Matches (commaPattern foundation) (", and ".toList ++ l) [] l :=
    matches_commaPattern_iff.mpr ⟨rfl, [' '], "and".toList, [' '], rfl,
      ⟨by simp, by simpa using h.space⟩, List.forall₂_same.mpr (by simp [sameIgnoringCase]),
      by simp, by simpa using h.space⟩
  obtain ⟨⟨groups, rest⟩, hfound⟩ :=
    Option.isSome_iff_exists.mp (Pattern.isSome_firstMatch hmatches)
  obtain ⟨-, x, m, y, hsplit, ⟨hx, hxall⟩, hm, hy, hyall⟩ :=
    matches_commaPattern_iff.mp (Pattern.matches_of_firstMatch hfound)
  have hrest : rest = l := by
    obtain ⟨c, x, rfl⟩ := List.exists_cons_of_ne_nil hx
    obtain ⟨d, y, rfl⟩ := List.exists_cons_of_ne_nil hy
    have hspaces : ' ' :: ("and".toList ++ ' ' :: l) = c :: (x ++ m ++ d :: y ++ rest) := by
      simpa using hsplit
    obtain ⟨rfl, hword⟩ := List.cons.inj hspaces
    cases x with
    | cons e x =>
      obtain ⟨rfl, -⟩ : 'a' = e ∧ _ := List.cons.inj hword
      have hfalse := h.whiteSpace 'a' (hxall 'a' (by simp))
      cases hfalse
    | nil =>
      have hmatch : "and".toList ++ (' ' :: l) = m ++ (d :: (y ++ rest)) := by
        simpa using hword
      obtain ⟨-, htail⟩ := List.append_inj hmatch hm.length_eq
      obtain ⟨rfl, hend⟩ := List.cons.inj htail
      cases y with
      | nil => exact hend.symm
      | cons e y =>
        have hfalse := hl e (by simp [hend])
        rw [hyall e (by simp)] at hfalse
        cases hfalse
  rw [patternLength, hfound, hrest, Option.map_some, Option.getD_some, List.length_append,
    Nat.add_sub_cancel]

/-- The second text does not begin with `then`. -/
theorem KnowsSeparators.boundedLength_andThen_comma (h : KnowsSeparators foundation joins)
    (hapart : Apart foundation a w v b) (hy : foundation.endsInWord (y ++ "and ".toList) = false) :
    boundedLength foundation "and then" y ("and ".toList ++ (v ++ b)) = 0 := by
  by_contra hlength
  obtain ⟨m, l', hsplit, hm, hmatch⟩ := fits_targetLength.exists_append hlength
  obtain ⟨hword, -, hafter⟩ := spec_of_targetLength hm hmatch
  obtain ⟨m, t, rfl, hand, hthen⟩ :=
    exists_of_forall₂_append (x := "and ".toList) (y := "then".toList) hword
  rw [List.append_assoc] at hsplit
  obtain ⟨rfl, hrest⟩ := List.append_inj hsplit hand.length_eq
  obtain ⟨c, t', hc, -, rfl⟩ : ∃ c t', sameIgnoringCase 't' c ∧ _ ∧ t = c :: t' :=
    List.forall₂_cons_left_iff.mp hthen
  cases v with
  | cons d v =>
    obtain ⟨rfl, -⟩ := List.cons.inj hrest
    have hfalse := h.blank d (hapart.blank_right d (by simp))
    rw [(h.letter 't' (by simp) d hc).1] at hfalse
    cases hfalse
  | nil =>
    have hb := hapart.second (boundedLength foundation "then") (by simp [regexSeparators]) [] b rfl
      (by rw [← List.nil_append b, hrest]; simp)
    have hboundary : foundation.isWordBoundary (c :: t') l' := by
      rw [← List.append_assoc] at hafter
      rwa [VoiceFoundation.isWordBoundary, endsInWord_append hy] at hafter
    rw [← List.nil_append b, hrest, List.nil_append, List.append_nil] at hb
    have hmatch : boundedLength foundation "then" [] (c :: t' ++ l') = (c :: t').length :=
      targetLength_of_forall₂ hthen (h.isWordBoundary_letter (by simp) hc rfl) hboundary
    rw [hb] at hmatch
    cases hmatch

/-- A comma with `and` becomes a bar. -/
theorem KnowsSeparators.marked_commaAnd (h : KnowsSeparators foundation joins)
    (hapart : Apart foundation a w v b)
    (hhead : ∀ c ∈ (v ++ b).head?, foundation.isWhiteSpace c = false) :
    marked foundation (String.ofList (a ++ w ++ (", and ".toList ++ (v ++ b)))) =
      String.ofList (a ++ w ++ '|' :: (v ++ b)) := by
  have hcomma : foundation.isWordCharacter ',' = false := (h.mark ',' (by simp)).1
  have hspace : foundation.isWordCharacter ' ' = false := (h.mark ' ' (by simp)).1
  have hleft := h.noMatch_left hapart
    (h.startsApart hapart.blank_left hcomma rfl (" and ".toList ++ (v ++ b)))
  have hright := h.noMatch_right hapart (z := a ++ w ++ ", and ".toList) (by
    have hends := h.endsInWord_mark (c := ' ') (by simp) hapart.blank_right
      (a ++ w ++ ", and".toList)
    simpa using hends)
  have ha : ∀ c, foundation.isWordCharacter c = false → sameIgnoringCase 'a' c = false :=
    fun c => h.letter_eq_false (by simp)
  have hcore : NoMatch (boundedLength foundation "and then") (a ++ w) ", and ".toList (v ++ b) := by
    have hlist : ", and ".toList = [',', ' ', 'a', 'n', 'd', ' '] := rfl
    have hends := h.endsInWord_mark (c := ' ') (w := []) (by simp) (by simp)
      (a ++ w ++ ", and".toList)
    rw [hlist]
    refine noMatch_cons_iff.mpr ⟨boundedLength_eq_zero rfl (ha ',' hcomma) _ _,
      noMatch_cons_iff.mpr ⟨boundedLength_eq_zero rfl (ha ' ' hspace) _ _,
        noMatch_cons_iff.mpr ⟨h.boundedLength_andThen_comma hapart (by simpa using hends),
          noMatch_of_forall fun c hc => boundedLength_eq_zero (d := 'a') rfl ?_⟩⟩⟩
    simp at hc
    rcases hc with rfl | rfl | rfl <;> rfl
  have hearlier : ∀ separator ∈ [boundedLength foundation "and then",
      boundedLength foundation "then", patternLength [.some (· == '\n')],
      patternLength [.one fun c => c == '.' || c == ';']], rewriting separator ['|'] 0 []
        (a ++ w ++ (", and ".toList ++ (v ++ b))) = a ++ w ++ (", and ".toList ++ (v ++ b)) := by
    simp only [List.forall_mem_cons]
    refine ⟨rewriting_eq_self_of_append (hleft _ (by simp [regexSeparators])) hcore
        (hright _ (by simp [regexSeparators])),
      rewriting_eq_self_of_append (hleft _ (by simp [regexSeparators]))
        (noMatch_of_forall fun c hc => boundedLength_eq_zero (d := 't') rfl ?_)
        (hright _ (by simp [regexSeparators])),
      rewriting_eq_self_of_append (hleft _ (by simp [regexSeparators]))
        (noMatch_some_iff.mpr (by simp)) (hright _ (by simp [regexSeparators])),
      rewriting_eq_self_of_append (hleft _ (by simp [regexSeparators]))
        (noMatch_one_iff.mpr (by simp)) (hright _ (by simp [regexSeparators])), by simp⟩
    simp at hc
    rcases hc with rfl | rfl | rfl | rfl | rfl | rfl <;> rfl
  refine marked_ofList rfl hearlier ?_ (h.rewriting_marker hapart)
  exact rewriting_between (by simp) (hleft _ (by simp [regexSeparators]))
    (h.patternLength_comma hhead (a ++ w)) (hright _ (by simp [regexSeparators]))

end VoiceTaskParser

end Notelayer
