import Mathlib.Data.List.Basic

/-!
# Regular expressions

The patterns of the extension are sequences of pieces, matched with backtracking from the longest
choice of each piece on. A match that is found is one (`Pattern.matches_of_firstMatch`), and if
there is one, some match is found (`Pattern.isSome_firstMatch`).
-/

namespace Notelayer

/-! ## Pieces and patterns -/

/-- A part of a pattern. -/
inductive RegexPiece where
  | one (p : Char → Bool)
  /-- `+`, as many characters as the rest of the pattern allows. -/
  | some (p : Char → Bool)
  /-- `*`, likewise. -/
  | many (p : Char → Bool)
  | group (piece : RegexPiece)
  /-- `$`. -/
  | lineEnd

/-- Membership in `CharacterSet.newlines`, which are also the line terminators of patterns. -/
def isNewline (c : Char) : Bool :=
  let n := c.toNat
  (0x0A ≤ n && n ≤ 0x0D) || n == 0x85 || n == 0x2028 || n == 0x2029

namespace RegexPiece

/-- The ways to take characters of the class off the text, the longest first. -/
def takes (p : Char → Bool) : List Char → List (List Char × List Char)
  | [] => [([], [])]
  | c :: l =>
    if p c then (takes p l).map (fun split => (c :: split.1, split.2)) ++ [([], c :: l)]
    else [([], c :: l)]

/-- What the piece can match at the start of a text, with what is left, in order of preference. -/
def splits : RegexPiece → List Char → List (List Char × List Char)
  | one p, c :: l => if p c then [([c], l)] else []
  | one _, [] => []
  | some p, l => (takes p l).filter fun split => ¬split.1.isEmpty
  | many p, l => takes p l
  | group piece, l => piece.splits l
  | lineEnd, [] => [([], [])]
  | lineEnd, c :: l => if isNewline c ∧ l = [] then [([], c :: l)] else []

/-- The piece captures what it matches. -/
def isGroup : RegexPiece → Bool
  | group _ => true
  | _ => false

/-- `.`. -/
def anyCharacter (c : Char) : Bool :=
  ¬isNewline c

end RegexPiece

namespace Pattern

/-- The first match at the start of a text : the groups, each with what follows it, and what is
left of the text. -/
def firstMatch : List RegexPiece → List Char → Option (List (List Char × List Char) × List Char)
  | [], l => some ([], l)
  | piece :: pattern, l => (piece.splits l).findSome? fun split =>
    (firstMatch pattern split.2).map fun found =>
      (if piece.isGroup then split :: found.1 else found.1, found.2)

/-- `Range(match.range(at: index), in: line)` of the first match, with its text. There is none where
the group does not begin and end between user-perceived characters. -/
def capture (isBoundary : List Char → List Char → Bool) (pattern : List RegexPiece) (index : ℕ)
    (line : String) : Option String :=
  (firstMatch pattern line.toList).bind fun found => (found.1[index - 1]?).bind fun group =>
    let before := line.toList.take (line.toList.length - (group.1 ++ group.2).length)
    if isBoundary before (group.1 ++ group.2) && isBoundary (before ++ group.1) group.2 then
      some (String.ofList group.1)
    else none

/-- `stringByReplacingMatches`, for a pattern that does not match the empty text.
`skipped` characters belong to the last match. -/
def replacingMatches (pattern : List RegexPiece) (template : List (List Char) → List Char) :
    List Char → ℕ → List Char
  | [], _ => []
  | _ :: l, skipped + 1 => replacingMatches pattern template l skipped
  | c :: l, 0 =>
    match firstMatch pattern (c :: l) with
    | none => c :: replacingMatches pattern template l 0
    | some (groups, rest) =>
      template (groups.map Prod.fst) ++
        replacingMatches pattern template l (l.length - rest.length)

end Pattern

/-! ## What is matched -/

namespace RegexPiece

/-- A piece takes any prefix that it allows. -/
theorem mem_takes_iff {p : Char → Bool} {l a b : List Char} :
    (a, b) ∈ takes p l ↔ l = a ++ b ∧ a.all p := by
  induction l generalizing a with
  | nil =>
    simp only [takes, List.mem_singleton, Prod.mk.injEq, List.nil_eq, List.append_eq_nil_iff]
    constructor
    · rintro ⟨rfl, rfl⟩
      simp
    · exact fun h => h.1
  | cons c l ih =>
    have hsplit : (a, b) ∈ (takes p l).map (fun split => (c :: split.1, split.2)) ↔
        ∃ a', a = c :: a' ∧ l = a' ++ b ∧ a'.all p := by
      rw [List.mem_map]
      constructor
      · rintro ⟨⟨a', b'⟩, hmem, heq⟩
        obtain ⟨rfl, rfl⟩ := Prod.mk.inj heq
        exact ⟨a', rfl, ih.mp hmem⟩
      · rintro ⟨a', rfl, h⟩
        exact ⟨(a', b), ih.mpr h, rfl⟩
    rcases a with _ | ⟨d, a⟩
    · by_cases hc : p c
      · simp [takes, hc, eq_comm]
      · simp [takes, hc, eq_comm]
    · by_cases hc : p c
      · rw [takes, if_pos hc, List.mem_append, hsplit]
        simp only [List.cons.injEq, List.mem_singleton, Prod.mk.injEq, reduceCtorEq, false_and,
          or_false, List.cons_append, List.all_cons, Bool.and_eq_true]
        constructor
        · rintro ⟨a', ⟨rfl, rfl⟩, hl, ha⟩
          exact ⟨⟨rfl, hl⟩, hc, ha⟩
        · rintro ⟨⟨rfl, hl⟩, -, ha⟩
          exact ⟨a, ⟨rfl, rfl⟩, hl, ha⟩
      · rw [takes, if_neg hc]
        simp only [List.mem_singleton, Prod.mk.injEq, reduceCtorEq, false_and, List.cons_append,
          List.cons.injEq, List.all_cons, Bool.and_eq_true, false_iff]
        rintro ⟨⟨rfl, -⟩, hd, -⟩
        exact hc hd

/-- What a piece takes off a text. -/
def Takes : RegexPiece → List Char → List Char → Prop
  | one p, a, _ => ∃ c, a = [c] ∧ p c
  | some p, a, _ => a ≠ [] ∧ a.all p
  | many p, a, _ => a.all p
  | group piece, a, b => piece.Takes a b
  | lineEnd, a, b => a = [] ∧ (b = [] ∨ ∃ c, b = [c] ∧ isNewline c)

/-- The splits of a piece are those that it allows. -/
theorem mem_splits_iff {piece : RegexPiece} {l a b : List Char} :
    (a, b) ∈ piece.splits l ↔ l = a ++ b ∧ piece.Takes a b := by
  induction piece generalizing l with
  | one p =>
    cases l with
    | nil =>
      simp only [splits, List.not_mem_nil, false_iff]
      rintro ⟨hnil, c, rfl, -⟩
      simp at hnil
    | cons c l =>
      by_cases hc : p c
      · simp only [splits, hc, if_true, List.mem_singleton, Prod.mk.injEq]
        constructor
        · rintro ⟨rfl, rfl⟩
          exact ⟨rfl, c, rfl, hc⟩
        · rintro ⟨heq, d, rfl, -⟩
          obtain ⟨rfl, rfl⟩ := List.cons.inj heq
          exact ⟨rfl, rfl⟩
      · simp only [splits, hc, Bool.false_eq_true, if_false, List.not_mem_nil, false_iff]
        rintro ⟨heq, d, rfl, hd⟩
        exact hc ((List.cons.inj heq).1 ▸ hd)
  | some p => simp [splits, Takes, mem_takes_iff, and_comm, and_left_comm]
  | many p => exact mem_takes_iff
  | group piece ih => exact ih
  | lineEnd =>
    cases l with
    | nil =>
      simp only [splits, List.mem_singleton, Prod.mk.injEq, Takes, List.nil_eq,
        List.append_eq_nil_iff]
      constructor
      · rintro ⟨rfl, rfl⟩
        exact ⟨⟨rfl, rfl⟩, rfl, Or.inl rfl⟩
      · exact fun h => h.1
    | cons c l =>
      by_cases hc : isNewline c ∧ l = []
      · obtain ⟨hnewline, rfl⟩ := hc
        simp only [splits, hnewline, and_self, if_true, List.mem_singleton, Prod.mk.injEq]
        constructor
        · rintro ⟨rfl, rfl⟩
          exact ⟨rfl, rfl, Or.inr ⟨c, rfl, hnewline⟩⟩
        · rintro ⟨heq, rfl, -⟩
          exact ⟨rfl, heq.symm⟩
      · simp only [splits, hc, if_false, List.not_mem_nil, false_iff]
        rintro ⟨heq, rfl, hb | ⟨d, rfl, hd⟩⟩
        · rw [hb] at heq
          cases heq
        · obtain ⟨rfl, rfl⟩ := List.cons.inj heq
          exact hc ⟨hd, rfl⟩

end RegexPiece

namespace Pattern

/-- The text begins with a match, and has something left. -/
inductive Matches :
    List RegexPiece → List Char → List (List Char × List Char) → List Char → Prop
  | nil (l : List Char) : Matches [] l [] l
  | cons {piece : RegexPiece} {pattern : List RegexPiece} {a b rest : List Char}
      {groups : List (List Char × List Char)} : piece.Takes a b → Matches pattern b groups rest →
      Matches (piece :: pattern) (a ++ b) (if piece.isGroup then (a, b) :: groups else groups) rest

section Matches

open RegexPiece

variable {pattern : List RegexPiece} {p : Char → Bool} {l rest : List Char}
  {groups : List (List Char × List Char)}

theorem matches_nil_iff : Matches [] l groups rest ↔ groups = [] ∧ rest = l := by
  constructor
  · rintro ⟨⟩
    exact ⟨rfl, rfl⟩
  · rintro ⟨rfl, rfl⟩
    exact .nil _

theorem matches_cons_iff {piece : RegexPiece} :
    Matches (piece :: pattern) l groups rest ↔ ∃ a b found, l = a ++ b ∧ piece.Takes a b ∧
      Matches pattern b found rest ∧ groups = if piece.isGroup then (a, b) :: found else found := by
  constructor
  · rintro (_ | ⟨htakes, h⟩)
    exact ⟨_, _, _, rfl, htakes, h, rfl⟩
  · rintro ⟨a, b, found, rfl, htakes, h, rfl⟩
    exact .cons htakes h

theorem matches_one_iff : Matches (one p :: pattern) l groups rest ↔
    ∃ c l', l = c :: l' ∧ p c ∧ Matches pattern l' groups rest := by
  rw [matches_cons_iff]
  constructor
  · rintro ⟨-, b, found, rfl, ⟨c, rfl, hc⟩, h, rfl⟩
    exact ⟨c, b, rfl, hc, h⟩
  · rintro ⟨c, b, rfl, hc, h⟩
    exact ⟨[c], b, groups, rfl, ⟨c, rfl, hc⟩, h, rfl⟩

/-- White space that is not there is not taken. -/
theorem matches_many_cons_iff {c : Char} (hc : p c = false) :
    Matches (many p :: pattern) (c :: l) groups rest ↔ Matches pattern (c :: l) groups rest := by
  rw [matches_cons_iff]
  constructor
  · rintro ⟨_ | ⟨d, a⟩, b, found, hl, htakes, h, rfl⟩
    · rwa [hl]
    · have hd : p d := List.all_eq_true.mp htakes d List.mem_cons_self
      rw [← (List.cons.inj hl).1, hc] at hd
      cases hd
  · exact fun h => ⟨[], c :: l, groups, rfl, rfl, h, rfl⟩

theorem matches_some_iff : Matches (RegexPiece.some p :: pattern) l groups rest ↔
    ∃ a b, l = a ++ b ∧ (a ≠ [] ∧ a.all p) ∧ Matches pattern b groups rest := by
  rw [matches_cons_iff]
  constructor
  · rintro ⟨a, b, found, rfl, htakes, h, rfl⟩
    exact ⟨a, b, rfl, htakes, h⟩
  · rintro ⟨a, b, rfl, htakes, h⟩
    exact ⟨a, b, groups, rfl, htakes, h, rfl⟩

theorem matches_group_iff {piece : RegexPiece} : Matches (group piece :: pattern) l groups rest ↔
    ∃ a b found, l = a ++ b ∧ piece.Takes a b ∧ Matches pattern b found rest ∧
      groups = (a, b) :: found :=
  matches_cons_iff

end Matches

/-- The first match is a match. -/
theorem matches_of_firstMatch {pattern : List RegexPiece} {l rest : List Char}
    {groups : List (List Char × List Char)} (h : firstMatch pattern l = some (groups, rest)) :
    Matches pattern l groups rest := by
  induction pattern generalizing l groups with
  | nil =>
    obtain ⟨rfl, rfl⟩ := Prod.mk.inj (Option.some.inj h)
    exact .nil l
  | cons piece pattern ih =>
    obtain ⟨⟨a, b⟩, hsplit, hfound⟩ := List.exists_of_findSome?_eq_some h
    obtain ⟨⟨found, rest'⟩, hmatch, heq⟩ := Option.map_eq_some_iff.mp hfound
    obtain ⟨rfl, htakes⟩ := RegexPiece.mem_splits_iff.mp hsplit
    obtain ⟨rfl, rfl⟩ := Prod.mk.inj heq
    exact .cons htakes (ih hmatch)

theorem isSome_firstMatch {pattern : List RegexPiece} {l rest : List Char}
    {groups : List (List Char × List Char)} (h : Matches pattern l groups rest) :
    (firstMatch pattern l).isSome := by
  induction h with
  | nil => rfl
  | @cons piece pattern a b rest groups htakes _ ih =>
    rw [firstMatch, List.isSome_findSome?, List.any_eq_true]
    exact ⟨(a, b), RegexPiece.mem_splits_iff.mpr ⟨rfl, htakes⟩, by simpa using ih⟩

/-! ## Taking all there is -/

section Greedy

open RegexPiece

variable {pattern : List RegexPiece} {p : Char → Bool} {l : List Char}
  {found : List (List Char × List Char) × List Char}

/-- The longest prefix is tried first. -/
theorem exists_takes_eq_cons (p : Char → Bool) (l : List Char) :
    ∃ others, takes p l = (l.takeWhile p, l.dropWhile p) :: others := by
  induction l with
  | nil => exact ⟨[], rfl⟩
  | cons c l ih =>
    obtain ⟨others, htakes⟩ := ih
    by_cases hc : p c
    · refine ⟨others.map (fun split => (c :: split.1, split.2)) ++ [([], c :: l)], ?_⟩
      rw [takes, if_pos hc, htakes, List.takeWhile_cons_of_pos hc, List.dropWhile_cons_of_pos hc]
      rfl
    · refine ⟨[], ?_⟩
      rw [takes, if_neg hc, List.takeWhile_cons_of_neg hc, List.dropWhile_cons_of_neg hc]

/-- No match is found if there is none. -/
theorem firstMatch_eq_none_iff :
    firstMatch pattern l = none ↔ ∀ groups rest, ¬Matches pattern l groups rest := by
  constructor
  · intro h groups rest hmatches
    have hsome := isSome_firstMatch hmatches
    rw [h] at hsome
    cases hsome
  · intro h
    by_contra hne
    obtain ⟨⟨groups, rest⟩, hfound⟩ := Option.ne_none_iff_exists'.mp hne
    exact h groups rest (matches_of_firstMatch hfound)

/-- A piece takes all it can if the rest of the pattern matches what follows. -/
theorem firstMatch_many (h : firstMatch pattern (l.dropWhile p) = some found) :
    firstMatch (many p :: pattern) l = some found := by
  obtain ⟨others, htakes⟩ := exists_takes_eq_cons p l
  rw [firstMatch, splits, htakes, List.findSome?_cons, h]
  rfl

theorem splits_some (hne : l.takeWhile p ≠ []) :
    ∃ others, (RegexPiece.some p).splits l = (l.takeWhile p, l.dropWhile p) :: others := by
  obtain ⟨others, htakes⟩ := exists_takes_eq_cons p l
  refine ⟨others.filter fun split => ¬split.1.isEmpty, ?_⟩
  rw [splits, htakes, List.filter_cons, if_pos (by simpa using hne)]

theorem firstMatch_some (hne : l.takeWhile p ≠ [])
    (h : firstMatch pattern (l.dropWhile p) = some found) :
    firstMatch (RegexPiece.some p :: pattern) l = some found := by
  obtain ⟨others, hsplits⟩ := splits_some hne
  rw [firstMatch, hsplits, List.findSome?_cons, h]
  rfl

theorem firstMatch_group_some (hne : l.takeWhile p ≠ [])
    (h : firstMatch pattern (l.dropWhile p) = some found) :
    firstMatch (group (RegexPiece.some p) :: pattern) l =
      some ((l.takeWhile p, l.dropWhile p) :: found.1, found.2) := by
  obtain ⟨others, hsplits⟩ := splits_some hne
  rw [firstMatch, splits, hsplits, List.findSome?_cons, h]
  rfl

theorem firstMatch_one {c : Char} (hc : p c) (h : firstMatch pattern l = some found) :
    firstMatch (one p :: pattern) (c :: l) = some found := by
  rw [firstMatch, splits, if_pos hc, List.findSome?_cons, h]
  rfl

theorem firstMatch_group_one {c : Char} (hc : p c) (h : firstMatch pattern l = some found) :
    firstMatch (group (one p) :: pattern) (c :: l) = some (([c], l) :: found.1, found.2) := by
  rw [firstMatch, splits, splits, if_pos hc, List.findSome?_cons, h]
  rfl

/-- A group that the first match takes off the end of a line. -/
theorem capture_of_firstMatch {isBoundary : List Char → List Char → Bool} {index : ℕ}
    {line : String} {before text : List Char}
    (hline : line.toList = before ++ text) (hfound : firstMatch pattern line.toList = some found)
    (hgroup : found.1[index - 1]? = some (text, [])) :
    capture isBoundary pattern index line =
      if isBoundary before text && isBoundary line.toList [] then some (String.ofList text)
      else none := by
  have htake : line.toList.take (line.toList.length - text.length) = before := by
    simp [hline]
  rw [capture, hfound, Option.bind_some, hgroup, Option.bind_some]
  dsimp only
  rw [List.append_nil, htake, ← hline]

end Greedy

/-! ## Replacing matches -/

/-- What is matched is followed by what is left. -/
theorem Matches.exists_append {pattern : List RegexPiece} {l rest : List Char}
    {groups : List (List Char × List Char)} (h : Matches pattern l groups rest) :
    ∃ taken, l = taken ++ rest := by
  induction h with
  | nil l => exact ⟨[], rfl⟩
  | @cons _ _ a _ _ _ _ _ ih =>
    obtain ⟨taken, rfl⟩ := ih
    exact ⟨a ++ taken, by rw [List.append_assoc]⟩

variable {pattern : List RegexPiece} {template : List (List Char) → List Char}

theorem replacingMatches_skip (skipped l : List Char) :
    replacingMatches pattern template (skipped ++ l) skipped.length =
      replacingMatches pattern template l 0 := by
  induction skipped with
  | nil => rfl
  | cons c skipped ih => exact ih

theorem replacingMatches_of_some {c : Char} {taken rest : List Char}
    {groups : List (List Char × List Char)}
    (h : firstMatch pattern (c :: taken ++ rest) = some (groups, rest)) :
    replacingMatches pattern template (c :: taken ++ rest) 0 =
      template (groups.map Prod.fst) ++ replacingMatches pattern template rest 0 := by
  rw [List.cons_append] at h ⊢
  rw [replacingMatches, h]
  dsimp only
  rw [List.length_append, Nat.add_sub_cancel, replacingMatches_skip]

theorem replacingMatches_of_none {c : Char} {l : List Char}
    (h : firstMatch pattern (c :: l) = none) :
    replacingMatches pattern template (c :: l) 0 = c :: replacingMatches pattern template l 0 := by
  rw [replacingMatches, h]

/-- A text without a match stays as it is. -/
theorem replacingMatches_eq_self {l : List Char}
    (h : ∀ before rest, l = before ++ rest → firstMatch pattern rest = none) :
    replacingMatches pattern template l 0 = l := by
  induction l with
  | nil => rfl
  | cons c l ih =>
    rw [replacingMatches_of_none (h [] _ rfl), ih fun before rest hl => ?_]
    exact h (c :: before) rest (by rw [hl, List.cons_append])

end Pattern

end Notelayer
