import Notelayer.Library.Replacing
import Notelayer.ShareExtension

/-!
# Markdown made plain

`normalizeMarkdownForImport` takes the backticks out of a text and writes `text (url)` for each
link. The links are found in one pass from the left, and what is written for them is not read
again. So a link around an image leaves a link, and so do other brackets in and around links.

The output is plain exactly if each backtick is a character of its own and the brackets and
parentheses that are left over by the links of the text form no link
(`ShareViewController.isPlainText_normalizeMarkdownForImport_iff`).
-/

namespace Notelayer

namespace ShareViewController

open Replacing

/-! ## Links -/

/-- A list is split at the first place of an element in one way. -/
theorem split_unique {A : Type} {a : A} {x y z w : List A} (hx : a ∉ x) (hy : a ∉ y)
    (h : x ++ a :: z = y ++ a :: w) : x = y ∧ z = w := by
  induction x generalizing y with
  | nil =>
    cases y with
    | nil => exact ⟨rfl, (List.cons.inj h).2⟩
    | cons b y => exact absurd (by simp [(List.cons.inj h).1]) hy
  | cons b x ih =>
    cases y with
    | nil => exact absurd (by simp [(List.cons.inj h).1]) hx
    | cons c y =>
      obtain ⟨rfl, htail⟩ := List.cons.inj h
      obtain ⟨rfl, rfl⟩ := ih (List.not_mem_of_not_mem_cons hx) (List.not_mem_of_not_mem_cons hy)
        htail
      exact ⟨rfl, rfl⟩

/-- The parts of a link. -/
structure IsLink (text url : List Char) : Prop where
  text_ne_nil : text ≠ []
  notMem_text : ']' ∉ text
  url_ne_nil : url ≠ []
  notMem_url : ')' ∉ url

/-- A text that begins with a link. -/
def link (text url rest : List Char) : List Char :=
  '[' :: (text ++ ']' :: '(' :: (url ++ ')' :: rest))

theorem link_inj {text url rest text' url' rest' : List Char} (h : IsLink text url)
    (h' : IsLink text' url') (heq : link text url rest = link text' url' rest') :
    text = text' ∧ url = url' ∧ rest = rest' := by
  obtain ⟨rfl, hrest⟩ := split_unique h.notMem_text h'.notMem_text (List.cons.inj heq).2
  obtain ⟨rfl, rfl⟩ := split_unique h.notMem_url h'.notMem_url (List.cons.inj hrest).2
  exact ⟨rfl, rfl, rfl⟩

/-- The groups of a link. -/
def linkGroups (text url rest : List Char) : List (List Char × List Char) :=
  [(text, ']' :: '(' :: (url ++ ')' :: rest)), (url, ')' :: rest)]

/-- The pattern matches links and nothing else. -/
theorem matches_linkPattern_iff {l rest : List Char} {groups : List (List Char × List Char)} :
    Pattern.Matches linkPattern l groups rest ↔
      ∃ text url, IsLink text url ∧ l = link text url rest ∧ groups = linkGroups text url rest := by
  simp only [linkPattern, Pattern.matches_one_iff, Pattern.matches_group_iff,
    Pattern.matches_nil_iff, RegexPiece.Takes, decide_eq_true_eq]
  constructor
  · rintro ⟨_, _, rfl, rfl, text, _, _, rfl, ⟨hne, htext⟩, ⟨_, _, rfl, rfl, _, _, rfl, rfl,
      url, _, _, rfl, ⟨hne', hurl⟩, ⟨_, _, rfl, rfl, rfl, rfl⟩, rfl⟩, rfl⟩
    have hclosed : ']' ∉ text := fun h => by simpa using List.all_eq_true.mp htext _ h
    have hclosed' : ')' ∉ url := fun h => by simpa using List.all_eq_true.mp hurl _ h
    exact ⟨text, url, ⟨hne, hclosed, hne', hclosed'⟩, rfl, rfl⟩
  · rintro ⟨text, url, h, rfl, rfl⟩
    have htext : text.all fun c => c ≠ ']' := List.all_eq_true.mpr fun c hc =>
      decide_eq_true (ne_of_mem_of_not_mem hc h.notMem_text)
    have hurl : url.all fun c => c ≠ ')' := List.all_eq_true.mpr fun c hc =>
      decide_eq_true (ne_of_mem_of_not_mem hc h.notMem_url)
    exact ⟨_, _, rfl, rfl, text, _, _, rfl, ⟨h.text_ne_nil, htext⟩, ⟨_, _, rfl, rfl, _, _, rfl, rfl,
      url, _, _, rfl, ⟨h.url_ne_nil, hurl⟩, ⟨_, _, rfl, rfl, rfl, rfl⟩, rfl⟩, rfl⟩

/-- The first match is a link, and there is one if the text begins with a link. -/
theorem firstMatch_linkPattern_iff {l rest : List Char} {groups : List (List Char × List Char)} :
    Pattern.firstMatch linkPattern l = some (groups, rest) ↔
      ∃ text url, IsLink text url ∧ l = link text url rest ∧ groups = linkGroups text url rest := by
  refine ⟨fun h => matches_linkPattern_iff.mp (Pattern.matches_of_firstMatch h), ?_⟩
  rintro ⟨text, url, hlink, rfl, rfl⟩
  have hmatches : Pattern.Matches linkPattern (link text url rest)
      (linkGroups text url rest) rest :=
    matches_linkPattern_iff.mpr ⟨text, url, hlink, rfl, rfl⟩
  obtain ⟨⟨groups, rest'⟩, hfound⟩ :=
    Option.isSome_iff_exists.mp (Pattern.isSome_firstMatch hmatches)
  obtain ⟨text', url', hlink', heq, rfl⟩ :=
    matches_linkPattern_iff.mp (Pattern.matches_of_firstMatch hfound)
  obtain ⟨rfl, rfl, rfl⟩ := link_inj hlink hlink' heq
  exact hfound

/-- A link is somewhere in the text. -/
def HasLink (l : List Char) : Prop :=
  ∃ before text url rest, l = before ++ link text url rest ∧ IsLink text url

/-- A text has no link where the pattern finds none. -/
theorem not_hasLink_iff {l : List Char} : ¬HasLink l ↔
    ∀ before rest, l = before ++ rest → Pattern.firstMatch linkPattern rest = none := by
  constructor
  · intro h before rest hl
    by_contra hne
    obtain ⟨⟨groups, rest'⟩, hfound⟩ := Option.ne_none_iff_exists'.mp hne
    obtain ⟨text, url, hlink, rfl, -⟩ := firstMatch_linkPattern_iff.mp hfound
    exact h ⟨before, text, url, rest', hl, hlink⟩
  · rintro h ⟨before, text, url, rest, hl, hlink⟩
    have hfound : Pattern.firstMatch linkPattern (link text url rest) =
        some (linkGroups text url rest, rest) :=
      firstMatch_linkPattern_iff.mpr ⟨text, url, hlink, rfl, rfl⟩
    rw [h before _ hl] at hfound
    cases hfound

/-- A text is read link by link. -/
theorem linkInduction {P : List Char → Prop} (nil : P [])
    (plain : ∀ c l, Pattern.firstMatch linkPattern (c :: l) = none → P l → P (c :: l))
    (link : ∀ text url rest, IsLink text url → P rest → P (link text url rest)) (l : List Char) :
    P l := by
  induction hlength : l.length using Nat.strongRecOn generalizing l with
  | ind length ih =>
    cases l with
    | nil => exact nil
    | cons c l =>
      cases hfound : Pattern.firstMatch linkPattern (c :: l) with
      | none => exact plain c l hfound (ih l.length (by simp at hlength; omega) l rfl)
      | some found =>
        obtain ⟨text, url, hlink, hl, -⟩ := firstMatch_linkPattern_iff.mp hfound
        rw [hl] at hlength ⊢
        refine link text url found.2 hlink (ih _ ?_ found.2 rfl)
        simp [ShareViewController.link] at hlength
        omega

/-! ## What becomes of the characters -/

/-- A character of a text, with what the links of the text use it for. -/
inductive Mark where
  | plain (c : Char)
  /-- The `[` of a link. -/
  | opening
  /-- The `]` of a link. -/
  | closing
  deriving DecidableEq

namespace Mark

/-- The character of a mark. -/
def char : Mark → Char
  | plain c => c
  | opening => '['
  | closing => ']'

/-- What a mark becomes. -/
def rewritten : Mark → List Char
  | plain c => [c]
  | opening => []
  | closing => [' ']

end Mark

/-- The marks of a link. -/
def linkMarks (text url : List Char) : List Mark :=
  .opening :: (text.map .plain ++ .closing :: .plain '(' :: (url.map .plain ++ [.plain ')']))

/-- The characters of a text with their marks. `skipped` characters belong to the last link. -/
def marks : List Char → ℕ → List Mark
  | [], _ => []
  | _ :: l, skipped + 1 => marks l skipped
  | c :: l, 0 =>
    match Pattern.firstMatch linkPattern (c :: l) with
    | none => .plain c :: marks l 0
    | some (groups, rest) =>
      linkMarks ((groups.map Prod.fst).getD 0 []) ((groups.map Prod.fst).getD 1 []) ++
        marks l (l.length - rest.length)

theorem marks_skip (skipped l : List Char) : marks (skipped ++ l) skipped.length = marks l 0 := by
  induction skipped with
  | nil => rfl
  | cons c skipped ih => exact ih

theorem marks_of_none {c : Char} {l : List Char}
    (h : Pattern.firstMatch linkPattern (c :: l) = none) :
    marks (c :: l) 0 = .plain c :: marks l 0 := by
  rw [marks, h]

/-- The characters of a link but the first. -/
def linkTail (text url : List Char) : List Char :=
  text ++ ']' :: '(' :: (url ++ [')'])

theorem link_eq (text url rest : List Char) :
    link text url rest = '[' :: linkTail text url ++ rest := by
  simp [link, linkTail]

theorem firstMatch_link {text url : List Char} (h : IsLink text url) (rest : List Char) :
    Pattern.firstMatch linkPattern ('[' :: linkTail text url ++ rest) =
      some (linkGroups text url rest, rest) :=
  firstMatch_linkPattern_iff.mpr ⟨text, url, h, (link_eq text url rest).symm, rfl⟩

theorem marks_link {text url : List Char} (h : IsLink text url) (rest : List Char) :
    marks (link text url rest) 0 = linkMarks text url ++ marks rest 0 := by
  have hfound := firstMatch_link h rest
  rw [link_eq, List.cons_append] at *
  rw [marks, hfound]
  dsimp only
  rw [List.length_append, Nat.add_sub_cancel, marks_skip]
  rfl

theorem map_char_marks (l : List Char) : (marks l 0).map Mark.char = l := by
  induction l using linkInduction with
  | nil => rfl
  | plain c l hnone ih => rw [marks_of_none hnone, List.map_cons, ih, Mark.char]
  | link text url rest hlink ih =>
    have hplain : Mark.char ∘ Mark.plain = id := rfl
    rw [marks_link hlink, List.map_append, ih]
    simp [linkMarks, link, Mark.char, hplain]

/-- The replacement rewrites the marks. -/
theorem replacingMatches_linkPattern (l : List Char) :
    Pattern.replacingMatches linkPattern linkTemplate l 0 = (marks l 0).flatMap Mark.rewritten := by
  induction l using linkInduction with
  | nil => rfl
  | plain c l hnone ih =>
    rw [Pattern.replacingMatches_of_none hnone, marks_of_none hnone, ih]
    rfl
  | link text url rest hlink ih =>
    have hplain : ∀ l : List Char, (l.map Mark.plain).flatMap Mark.rewritten = l := by
      intro l
      simp [List.flatMap_map, Mark.rewritten]
    rw [marks_link hlink, link_eq, Pattern.replacingMatches_of_some (firstMatch_link hlink rest),
      ih, List.flatMap_append]
    simp [linkTemplate, linkGroups, linkMarks, hplain, Mark.rewritten]

/-- The brackets and parentheses of the text that no link uses form a link, once the links are
written without theirs. -/
def LeavesLink (m : List Mark) : Prop :=
  ∃ before text openings url after,
    m = before ++ .plain '[' :: (text ++ .plain ']' :: (openings ++ .plain '(' ::
      (url ++ .plain ')' :: after))) ∧
    Mark.plain ']' ∉ text ∧ (∃ x ∈ text, x ≠ .opening) ∧ (∀ x ∈ openings, x = .opening) ∧
    Mark.plain ')' ∉ url ∧ ∃ x ∈ url, x ≠ .opening

namespace Mark

theorem rewritten_eq_nil_iff {x : Mark} : x.rewritten = [] ↔ x = opening := by
  cases x <;> simp [rewritten]

theorem flatMap_rewritten_ne_nil_iff {m : List Mark} :
    m.flatMap rewritten ≠ [] ↔ ∃ x ∈ m, x ≠ opening := by
  simp [List.flatMap_eq_nil_iff, rewritten_eq_nil_iff]

theorem mem_flatMap_rewritten_iff {m : List Mark} {c : Char} (hc : c ≠ ' ') :
    c ∈ m.flatMap rewritten ↔ plain c ∈ m := by
  have hmem : ∀ x : Mark, c ∈ x.rewritten ↔ x = plain c := by
    intro x
    cases x <;> simp [rewritten, hc, eq_comm]
  simp [List.mem_flatMap, hmem]

/-- A character that no mark is written as stands where it stood. -/
theorem flatMap_rewritten_eq_iff {m : List Mark} {x y : List Char} {c : Char} (hc : c ≠ ' ') :
    m.flatMap rewritten = x ++ c :: y ↔
      ∃ before after, m = before ++ plain c :: after ∧ before.flatMap rewritten = x ∧
        after.flatMap rewritten = y := by
  constructor
  · intro h
    induction m generalizing x with
    | nil => simp at h
    | cons d m ih =>
      have hlater : ∀ {x'}, m.flatMap rewritten = x' ++ c :: y → d.rewritten ++ x' = x →
          ∃ before after, d :: m = before ++ plain c :: after ∧ before.flatMap rewritten = x ∧
            after.flatMap rewritten = y := by
        intro x' hm hx
        obtain ⟨before, after, rfl, rfl, rfl⟩ := ih hm
        exact ⟨d :: before, after, rfl, by rw [← hx, List.flatMap_cons], rfl⟩
      rw [List.flatMap_cons] at h
      cases d with
      | opening => exact hlater h rfl
      | closing =>
        rcases x with _ | ⟨e, x⟩
        · exact absurd (List.cons.inj h).1.symm hc
        · obtain ⟨rfl, htail⟩ := List.cons.inj h
          exact hlater htail rfl
      | plain d =>
        rcases x with _ | ⟨e, x⟩
        · obtain ⟨rfl, rfl⟩ := List.cons.inj h
          exact ⟨[], m, rfl, rfl, rfl⟩
        · obtain ⟨rfl, htail⟩ := List.cons.inj h
          exact hlater htail rfl
  · rintro ⟨before, after, rfl, rfl, rfl⟩
    rw [List.flatMap_append, List.flatMap_cons]
    rfl

end Mark

/-- Whether the rewritten text has a link. -/
theorem hasLink_rewritten_iff {m : List Mark} :
    HasLink (m.flatMap Mark.rewritten) ↔ LeavesLink m := by
  constructor
  · rintro ⟨_, text, url, _, h, hlink⟩
    obtain ⟨before, m, rfl, rfl, htext⟩ := (Mark.flatMap_rewritten_eq_iff (by decide)).mp h
    obtain ⟨text, m, rfl, rfl, hrest⟩ := (Mark.flatMap_rewritten_eq_iff (by decide)).mp htext
    obtain ⟨openings, m, rfl, hopenings, hurl⟩ :=
      (Mark.flatMap_rewritten_eq_iff (x := []) (by decide)).mp hrest
    obtain ⟨url, after, rfl, rfl, rfl⟩ := (Mark.flatMap_rewritten_eq_iff (by decide)).mp hurl
    refine ⟨before, text, openings, url, after, rfl, ?_, ?_, ?_, ?_, ?_⟩
    · exact fun h => hlink.notMem_text ((Mark.mem_flatMap_rewritten_iff (by decide)).mpr h)
    · exact Mark.flatMap_rewritten_ne_nil_iff.mp hlink.text_ne_nil
    · exact fun x hx => Mark.rewritten_eq_nil_iff.mp (List.flatMap_eq_nil_iff.mp hopenings x hx)
    · exact fun h => hlink.notMem_url ((Mark.mem_flatMap_rewritten_iff (by decide)).mpr h)
    · exact Mark.flatMap_rewritten_ne_nil_iff.mp hlink.url_ne_nil
  · rintro ⟨before, text, openings, url, after, rfl, htext, htext', hopenings, hurl, hurl'⟩
    have hnil : openings.flatMap Mark.rewritten = [] :=
      List.flatMap_eq_nil_iff.mpr fun x hx => Mark.rewritten_eq_nil_iff.mpr (hopenings x hx)
    refine ⟨before.flatMap Mark.rewritten, text.flatMap Mark.rewritten, url.flatMap Mark.rewritten,
      after.flatMap Mark.rewritten, ?_, ?_, ?_, ?_, ?_⟩
    · simp only [List.flatMap_append, List.flatMap_cons, Mark.rewritten, hnil, link]
      rfl
    · exact Mark.flatMap_rewritten_ne_nil_iff.mpr htext'
    · exact fun h => htext ((Mark.mem_flatMap_rewritten_iff (by decide)).mp h)
    · exact Mark.flatMap_rewritten_ne_nil_iff.mpr hurl'
    · exact fun h => hurl ((Mark.mem_flatMap_rewritten_iff (by decide)).mp h)

/-! ## Trimming -/

/-- What is trimmed goes on to the first character that stays. -/
theorem dropWhile_append_cons {p : Char → Bool} {c : Char} (hc : p c = false)
    (before l : List Char) :
    (before ++ c :: l).dropWhile p = before.dropWhile p ++ c :: l := by
  induction before with
  | nil => simp [hc]
  | cons d before ih =>
    by_cases hd : p d
    · simp [hd, ih]
    · simp [hd]

theorem mem_toList_trimmed_iff {s : String} {c : Char} (hc : isWhitespaceOrNewline c = false) :
    c ∈ (trimmed s).toList ↔ c ∈ s.toList := by
  have hdrop : ∀ l : List Char, c ∈ l.dropWhile isWhitespaceOrNewline ↔ c ∈ l := by
    intro l
    refine ⟨fun h => (List.dropWhile_suffix _).mem h, fun h => ?_⟩
    obtain ⟨before, after, rfl⟩ := List.append_of_mem h
    rw [dropWhile_append_cons hc]
    simp
  unfold trimmed
  rw [String.toList_ofList, List.mem_reverse, hdrop, List.mem_reverse, hdrop]

/-- Trimming neither makes nor removes a link. -/
theorem hasLink_trimmed_iff {s : String} : HasLink (trimmed s).toList ↔ HasLink s.toList := by
  unfold trimmed
  rw [String.toList_ofList]
  constructor
  · rintro ⟨before, text, url, rest, h, hlink⟩
    have hinfix : ((s.toList.dropWhile isWhitespaceOrNewline).reverse.dropWhile
        isWhitespaceOrNewline).reverse <:+: s.toList := by
      refine List.IsInfix.trans ?_ (List.dropWhile_suffix isWhitespaceOrNewline).isInfix
      rw [← List.reverse_infix, List.reverse_reverse]
      exact (List.dropWhile_suffix _).isInfix
    obtain ⟨spaces, spaces', hs⟩ := hinfix
    refine ⟨spaces ++ before, text, url, rest ++ spaces', ?_, hlink⟩
    rw [← hs, h]
    simp [link]
  · rintro ⟨before, text, url, rest, h, hlink⟩
    refine ⟨before.dropWhile isWhitespaceOrNewline, text, url,
      (rest.reverse.dropWhile isWhitespaceOrNewline).reverse, ?_, hlink⟩
    have hclosing : (link text url rest).reverse =
        rest.reverse ++ ')' :: ('[' :: text ++ ']' :: '(' :: url).reverse := by
      simp [link]
    rw [h, link, dropWhile_append_cons rfl, ← link, List.reverse_append, hclosing,
      List.append_assoc, List.cons_append, dropWhile_append_cons rfl]
    simp [link]

/-! ## Plain texts -/

/-- Canonical equivalence with an ASCII character. Beside the character itself only U+1FEF is
equivalent to one of those that are searched for. -/
def isEquivalent (a c : Char) : Bool :=
  a == c || (a == '`' && c == '\u1FEF')

variable (foundation : TextFoundation) (joins : Char → Char → Bool)

/-- Foundation finds a text between user-perceived characters. `joins` tells if there is no boundary
between two scalars, of which one is a backtick. -/
structure FindsBackticks : Prop where
  fence : ∀ text, foundation.replacingOccurrences "```" "" text =
    String.ofList (replacing isEquivalent (pairBoundary joins) "```".toList [] 0 [] text.toList)
  backtick : ∀ text, foundation.replacingOccurrences "`" "" text =
    String.ofList (replacing isEquivalent (pairBoundary joins) "`".toList [] 0 [] text.toList)
  joinsAlike : JoinsAlike isEquivalent joins '`'

/-- No backtick, no link, and nothing left to do. -/
structure IsPlainText (text : String) : Prop where
  noBacktick : ∀ c ∈ text.toList, isEquivalent '`' c = false
  noLink : ∀ before rest, text.toList = before ++ rest → Pattern.firstMatch linkPattern rest = none
  normalized : normalizeMarkdownForImport foundation text = text

/-- The text without the backticks that are characters of their own. -/
def withoutBackticks (text : String) : List Char :=
  replacing isEquivalent (pairBoundary joins) ['`'] [] 0 [] text.toList

variable {foundation joins}

theorem normalizeMarkdownForImport_eq (h : FindsBackticks foundation joins) (text : String) :
    normalizeMarkdownForImport foundation text =
      trimmed (String.ofList ((marks (withoutBackticks joins text) 0).flatMap Mark.rewritten)) := by
  have hfence : "```".toList = List.replicate (2 + 1) '`' := rfl
  have hbacktick : "`".toList = ['`'] := rfl
  unfold normalizeMarkdownForImport
  dsimp only
  rw [h.fence, h.backtick, hfence, hbacktick, String.toList_ofList, String.toList_ofList,
    replacing_replacing_run h.joinsAlike 2 fun _ _ => rfl, replacingMatches_linkPattern]
  rfl

theorem eq_of_isEquivalent {a c : Char} (ha : a ≠ '`') (h : isEquivalent a c) : c = a := by
  unfold isEquivalent at h
  rw [Bool.or_eq_true, Bool.and_eq_true, beq_iff_eq, beq_iff_eq] at h
  rcases h with rfl | ⟨rfl, -⟩
  · rfl
  · exact absurd rfl ha

/-- Without a backtick and a link only the trimming is left. -/
theorem normalizeMarkdownForImport_eq_trimmed (h : FindsBackticks foundation joins) {text : String}
    (hnone : ∀ c ∈ text.toList, isEquivalent '`' c = false)
    (hno : ∀ before rest, text.toList = before ++ rest →
      Pattern.firstMatch linkPattern rest = none) :
    normalizeMarkdownForImport foundation text = trimmed text := by
  have hkept : withoutBackticks joins text = text.toList := replacing_of_forall_not hnone []
  rw [normalizeMarkdownForImport_eq h, hkept, ← replacingMatches_linkPattern,
    Pattern.replacingMatches_eq_self hno, String.ofList_toList]

theorem isEquivalent_backtick_iff {c : Char} : isEquivalent '`' c ↔ c = '`' ∨ c = '\u1FEF' := by
  unfold isEquivalent
  rw [Bool.or_eq_true, Bool.and_eq_true, beq_iff_eq, beq_iff_eq, beq_iff_eq, @eq_comm _ '`' c]
  exact or_congr_right (and_iff_right rfl)

/-- The links and the trimming leave the backticks. -/
theorem mem_normalizeMarkdownForImport_iff (h : FindsBackticks foundation joins) (text : String)
    {c : Char} (hc : isEquivalent '`' c) :
    c ∈ (normalizeMarkdownForImport foundation text).toList ↔ c ∈ withoutBackticks joins text := by
  have hplain : c ≠ ' ' ∧ c ≠ '[' ∧ c ≠ ']' ∧ isWhitespaceOrNewline c = false := by
    rcases isEquivalent_backtick_iff.mp hc with rfl | rfl <;> decide
  obtain ⟨hspace, hopening, hclosing, hwhitespace⟩ := hplain
  have hchar : ∀ x : Mark, x = .plain c ↔ x.char = c := by
    intro x
    cases x <;> simp [Mark.char, hopening.symm, hclosing.symm]
  have hmem : c ∈ (marks (withoutBackticks joins text) 0).flatMap Mark.rewritten ↔
      c ∈ withoutBackticks joins text := by
    rw [Mark.mem_flatMap_rewritten_iff hspace]
    conv_rhs => rw [← map_char_marks (withoutBackticks joins text), List.mem_map]
    simp [← hchar]
  rw [normalizeMarkdownForImport_eq h, mem_toList_trimmed_iff hwhitespace, String.toList_ofList,
    hmem]

/-- The normalised text is plain exactly if all backticks stand alone and no link is left over. -/
theorem isPlainText_normalizeMarkdownForImport_iff (h : FindsBackticks foundation joins)
    (text : String) :
    IsPlainText foundation (normalizeMarkdownForImport foundation text) ↔
      (∀ c, isEquivalent '`' c → StandsAlone (pairBoundary joins) c [] text.toList) ∧
        ¬LeavesLink (marks (withoutBackticks joins text) 0) := by
  have hbacktick : (∀ c ∈ (normalizeMarkdownForImport foundation text).toList,
      isEquivalent '`' c = false) ↔
        ∀ c, isEquivalent '`' c → StandsAlone (pairBoundary joins) c [] text.toList := by
    refine ⟨fun hnone c hc => ?_, fun halone c hmem => Bool.eq_false_iff.mpr fun hc => ?_⟩
    · rw [← notMem_replacing_singleton_iff hc List.not_mem_nil, ← withoutBackticks,
        ← mem_normalizeMarkdownForImport_iff h text hc]
      exact fun hmem => absurd hc (by rw [hnone c hmem]; exact Bool.false_ne_true)
    · rw [mem_normalizeMarkdownForImport_iff h text hc] at hmem
      exact (notMem_replacing_singleton_iff hc List.not_mem_nil _ _).mpr (halone c hc) hmem
  have hlink : ¬HasLink (normalizeMarkdownForImport foundation text).toList ↔
      ¬LeavesLink (marks (withoutBackticks joins text) 0) := by
    rw [normalizeMarkdownForImport_eq h, hasLink_trimmed_iff, String.toList_ofList,
      hasLink_rewritten_iff]
  constructor
  · rintro ⟨hnone, hno, -⟩
    exact ⟨hbacktick.mp hnone, hlink.mp (not_hasLink_iff.mpr hno)⟩
  · rintro ⟨halone, hleaves⟩
    have hnone := hbacktick.mpr halone
    have hno := not_hasLink_iff.mp (hlink.mpr hleaves)
    refine ⟨hnone, hno, ?_⟩
    rw [normalizeMarkdownForImport_eq_trimmed h hnone hno, normalizeMarkdownForImport_eq h,
      trimmed_trimmed]

/-- A combining mark is one character with what it follows, and so are the two parts of `\r\n`. -/
def latinJoins (b c : Char) : Bool :=
  (0x300 ≤ c.toNat && c.toNat ≤ 0x36F && !isNewline b) || (b == '\r' && c == '\n')

/-- The user-perceived characters behind a scalar. -/
def characterCount (joins : Char → Char → Bool) : Option Char → List Char → ℕ
  | _, [] => 0
  | last, c :: l => (if last.any (fun b => joins b c) then 0 else 1) + characterCount joins c l

/-- Foundation on texts in Latin letters with combining marks. -/
def latinFoundation : TextFoundation :=
  { asciiFoundation with
    count := fun s => characterCount latinJoins none s.toList
    isBoundary := pairBoundary latinJoins
    replacingOccurrences := fun target replacement s => String.ofList (replacing isEquivalent
      (pairBoundary latinJoins) target.toList replacement.toList 0 [] s.toList) }

/-- The backticks of Latin text are found. -/
theorem findsBackticks_latinFoundation : FindsBackticks latinFoundation latinJoins := by
  have hnone : ∀ b c, isEquivalent '`' c → latinJoins b c = false := by
    intro b c hc
    rcases isEquivalent_backtick_iff.mp hc with rfl | rfl <;> simp [latinJoins]
  have hafter : ∀ b c, isEquivalent '`' c →
      latinJoins c b = (0x300 ≤ b.toNat && b.toNat ≤ 0x36F) := by
    intro b c hc
    rcases isEquivalent_backtick_iff.mp hc with rfl | rfl <;> simp [latinJoins, isNewline]
  refine ⟨fun _ => rfl, fun _ => rfl, fun c d _ hd => hnone c d hd, ?_, ?_⟩
  · intro c d b hc hd
    rw [hafter b c hc, hafter b d hd]
  · intro c d b hc hd
    rw [hnone b c hc, hnone b d hd]

theorem isPlainText_normalizeMarkdownForImport_sample :
    IsPlainText latinFoundation
      (normalizeMarkdownForImport latinFoundation "See [`docs`](url)") := by
  refine (isPlainText_normalizeMarkdownForImport_iff findsBackticks_latinFoundation _).mpr
    ⟨fun c hc => ?_, ?_⟩
  · rw [← notMem_replacing_singleton_iff hc List.not_mem_nil]
    rcases isEquivalent_backtick_iff.mp hc with rfl | rfl <;> decide +kernel
  · rintro ⟨before, text, openings, url, after, hmarks, -⟩
    have hopening : Mark.plain '[' ∈ before ++ Mark.plain '[' :: (text ++ .plain ']' ::
        (openings ++ .plain '(' :: (url ++ .plain ')' :: after))) := by
      simp
    rw [← hmarks] at hopening
    revert hopening
    decide +kernel

/-- A link around an image is made a link of the image's text. -/
theorem not_isPlainText_normalizeMarkdownForImport :
    normalizeMarkdownForImport latinFoundation "[![alt](img)](url)" = "![alt (img)](url)" ∧
      Pattern.firstMatch linkPattern "[alt (img)](url)".toList =
        some (linkGroups "alt (img)".toList "url".toList [], []) ∧
      normalizeMarkdownForImport latinFoundation "![alt (img)](url)" = "!alt (img) (url)" ∧
      ¬IsPlainText latinFoundation
        (normalizeMarkdownForImport latinFoundation "[![alt](img)](url)") := by
  have hfirst : normalizeMarkdownForImport latinFoundation "[![alt](img)](url)" =
      "![alt (img)](url)" := by
    decide +kernel
  have hagain : normalizeMarkdownForImport latinFoundation "![alt (img)](url)" =
      "!alt (img) (url)" := by
    decide +kernel
  refine ⟨hfirst, by decide +kernel, hagain, fun h => ?_⟩
  have hkept := h.normalized
  rw [hfirst, hagain] at hkept
  revert hkept
  decide +kernel

end ShareViewController

end Notelayer
