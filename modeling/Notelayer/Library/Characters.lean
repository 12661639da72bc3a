import Mathlib.Data.List.Forall2
import Notelayer.Library.Replacing
import Notelayer.Library.Rewriting

/-!
# Characters of several elements

A list with boundaries is cut into its characters (`characters`), and a list is split at an element
where that is a character of its own (`standsAlone`).

Splitting a list and joining the parts does not give more parts than there were, even if the
boundaries depend on what is next to a place (`length_components_intercalate_le`).
-/

namespace Characters

open Replacing Rewriting

variable {α : Type*} (isBoundary : List α → List α → Bool)

/-- The parts of the rest of a list between its boundaries. -/
def characters : List α → List α → List (List α)
  | _, [] => []
  | before, c :: l =>
    if l.isEmpty || isBoundary (before ++ [c]) l then [c] :: characters (before ++ [c]) l
    else (characters (before ++ [c]) l).modifyHead (c :: ·)

/-- A target is matched between two boundaries. -/
def targetLength (same : α → α → Bool) (target before l : List α) : ℕ :=
  if IsAt same isBoundary target before l then target.length else 0

variable {isBoundary} {before l : List α}

variable (isBoundary) in
/-- The characters make up the list. -/
theorem flatten_characters (before l : List α) :
    (characters isBoundary before l).flatten = l := by
  induction l generalizing before with
  | nil => rfl
  | cons c l ih =>
    rw [characters]
    split_ifs with h
    · rw [List.flatten_cons, ih, List.singleton_append]
    · cases hrest : characters isBoundary (before ++ [c]) l with
      | nil =>
        have hl := ih (before ++ [c])
        rw [hrest, List.flatten_nil] at hl
        simp [← hl] at h
      | cons first others =>
        rw [List.modifyHead_cons, List.flatten_cons, List.cons_append, ← List.flatten_cons, ← hrest,
          ih]

/-! ## Targets -/

variable {same : α → α → Bool} {target m : List α}

theorem fits_targetLength : Fits (targetLength isBoundary same target) := by
  intro before l
  unfold targetLength
  split_ifs with hat
  · simp only [IsAt, Bool.and_eq_true] at hat
    exact length_le_of_startsWith hat.1.1
  · exact Nat.zero_le _

/-- A target that starts a list is element by element the same. -/
theorem forall₂_of_startsWith (h : startsWith same target (m ++ l))
    (hlength : target.length = m.length) : List.Forall₂ (fun a c => same a c) target m := by
  induction target generalizing m with
  | nil =>
    obtain rfl : m = [] := List.length_eq_zero_iff.mp hlength.symm
    exact .nil
  | cons a target ih =>
    cases m with
    | nil => simp at hlength
    | cons c m =>
      rw [List.cons_append, startsWith, Bool.and_eq_true] at h
      exact .cons h.1 (ih h.2 (by simpa using hlength))

theorem startsWith_of_forall₂ (h : List.Forall₂ (fun a c => same a c) target m) (l : List α) :
    startsWith same target (m ++ l) := by
  induction h with
  | nil => rfl
  | cons hc _ ih => rw [List.cons_append, startsWith, hc, ih, Bool.and_true]

/-- What is matched is the target, between two boundaries. -/
theorem spec_of_targetLength (hne : m ≠ [])
    (h : targetLength isBoundary same target before (m ++ l) = m.length) :
    List.Forall₂ (fun a c => same a c) target m ∧ isBoundary before (m ++ l) ∧
      isBoundary (before ++ m) l := by
  unfold targetLength at h
  split_ifs at h with hat
  · simp only [IsAt, Bool.and_eq_true, h, List.take_left, List.drop_left] at hat
    exact ⟨forall₂_of_startsWith hat.1.1 h, hat.1.2, hat.2⟩
  · exact absurd (List.length_eq_zero_iff.mp h.symm) hne

theorem targetLength_of_forall₂ (h : List.Forall₂ (fun a c => same a c) target m)
    (hbefore : isBoundary before (m ++ l)) (hl : isBoundary (before ++ m) l) :
    targetLength isBoundary same target before (m ++ l) = m.length := by
  have hat : IsAt same isBoundary target before (m ++ l) := by
    simp only [IsAt, Bool.and_eq_true, h.length_eq, List.take_left, List.drop_left]
    exact ⟨⟨startsWith_of_forall₂ h l, hbefore⟩, hl⟩
  rw [targetLength, if_pos hat, h.length_eq]

/-! ## The first characters -/

/-- No character is empty. -/
theorem ne_nil_of_mem_characters {c : List α} (h : c ∈ characters isBoundary before l) :
    c ≠ [] := by
  induction l generalizing before c with
  | nil => exact absurd h List.not_mem_nil
  | cons d l ih =>
    rw [characters] at h
    split_ifs at h
    · rcases List.mem_cons.mp h with rfl | h
      · exact List.cons_ne_nil d []
      · exact ih h
    · cases hrest : characters isBoundary (before ++ [d]) l with
      | nil =>
        rw [hrest] at h
        exact absurd h List.not_mem_nil
      | cons first others =>
        rw [hrest] at h
        rcases List.mem_cons.mp h with rfl | h
        · exact List.cons_ne_nil d first
        · exact ih (hrest ▸ List.mem_cons_of_mem first h)

variable (isBoundary) in
/-- The first character begins with the first element. -/
theorem exists_characters_cons (before : List α) (c : α) (l : List α) :
    ∃ first others, characters isBoundary before (c :: l) = (c :: first) :: others := by
  rw [characters]
  split_ifs with h
  · exact ⟨[], _, rfl⟩
  · cases hrest : characters isBoundary (before ++ [c]) l with
    | nil =>
      have hflatten := flatten_characters isBoundary (before ++ [c]) l
      rw [hrest, List.flatten_nil] at hflatten
      simp [← hflatten] at h
    | cons first others => exact ⟨first, others, rfl⟩

variable (isBoundary) in
theorem flatten_take_append_drop (n : ℕ) (before l : List α) :
    ((characters isBoundary before l).take n).flatten ++
      ((characters isBoundary before l).drop n).flatten = l := by
  rw [← List.flatten_append, List.take_append_drop, flatten_characters]

variable (isBoundary) in
/-- A boundary depends on the next element only of what comes. -/
def SeesNext : Prop :=
  ∀ before c l, isBoundary before (c :: l) = isBoundary before [c]

theorem SeesNext.congr (h : SeesNext isBoundary) {l : List α} (hne : l ≠ []) (l' : List α)
    (before : List α) : isBoundary before (l ++ l') = isBoundary before l := by
  obtain ⟨c, l, rfl⟩ := List.exists_cons_of_ne_nil hne
  rw [List.cons_append, h, h before c l]

/-- The first characters of a text are the characters of the text they make up. -/
theorem characters_take (h : SeesNext isBoundary) (n : ℕ) (before l : List α) :
    characters isBoundary before ((characters isBoundary before l).take n).flatten =
      (characters isBoundary before l).take n := by
  induction l generalizing n before with
  | nil => simp [characters]
  | cons c l ih =>
    cases n with
    | zero => simp [characters]
    | succ n =>
      by_cases hc : l.isEmpty || isBoundary (before ++ [c]) l
      · have hchars : characters isBoundary before (c :: l) =
            [c] :: characters isBoundary (before ++ [c]) l := by rw [characters, if_pos hc]
        have hsplit := flatten_take_append_drop isBoundary n (before ++ [c]) l
        have hihn := ih n (before ++ [c])
        rw [hchars, List.take_succ_cons, List.flatten_cons, List.singleton_append]
        generalize ((characters isBoundary (before ++ [c]) l).take n).flatten = p at hsplit hihn ⊢
        rw [characters, if_pos, hihn]
        cases p with
        | nil => rfl
        | cons d p =>
          rw [← hsplit, h.congr (List.cons_ne_nil d p)] at hc
          simpa using hc
      · have hne : l ≠ [] := by
          rintro rfl
          simp at hc
        have hchars : characters isBoundary before (c :: l) =
            (characters isBoundary (before ++ [c]) l).modifyHead (c :: ·) := by
          rw [characters, if_neg hc]
        have hsplit := flatten_take_append_drop isBoundary (n + 1) (before ++ [c]) l
        have hihn := ih (n + 1) (before ++ [c])
        rw [hchars]
        cases hrest : characters isBoundary (before ++ [c]) l with
        | nil =>
          have hl := flatten_characters isBoundary (before ++ [c]) l
          rw [hrest] at hl
          exact absurd hl.symm hne
        | cons first others =>
          have hmem : first ∈ characters isBoundary (before ++ [c]) l := by
            rw [hrest]
            exact List.mem_cons_self
          have hfirst : first ≠ [] := ne_nil_of_mem_characters hmem
          rw [hrest, List.take_succ_cons, List.flatten_cons] at hsplit hihn
          rw [List.modifyHead_cons, List.take_succ_cons, List.flatten_cons, List.cons_append,
            characters, if_neg, hihn]
          · rfl
          · have hp : first ++ (others.take n).flatten ≠ [] := by simp [hfirst]
            rw [← hsplit, h.congr hp] at hc
            simpa [hfirst] using hc

/-- Between the first characters and the others there is a boundary. -/
theorem isBoundary_take {n : ℕ} (hn : 0 < n) (before l : List α)
    (hlt : n < (characters isBoundary before l).length) :
    isBoundary (before ++ ((characters isBoundary before l).take n).flatten)
      ((characters isBoundary before l).drop n).flatten := by
  induction l generalizing n before with
  | nil => simp [characters] at hlt
  | cons c l ih =>
    obtain ⟨n, rfl⟩ : ∃ k, n = k + 1 := ⟨n - 1, by omega⟩
    by_cases hc : l.isEmpty || isBoundary (before ++ [c]) l
    · have hchars : characters isBoundary before (c :: l) =
          [c] :: characters isBoundary (before ++ [c]) l := by rw [characters, if_pos hc]
      rw [hchars, List.length_cons] at hlt
      rw [hchars, List.take_succ_cons, List.drop_succ_cons, List.flatten_cons]
      cases n with
      | zero =>
        have hne : l ≠ [] := by
          rintro rfl
          simp [characters] at hlt
        simpa [flatten_characters, hne] using hc
      | succ n => simpa using ih (Nat.succ_pos n) (before ++ [c]) (by omega)
    · have hchars : characters isBoundary before (c :: l) =
          (characters isBoundary (before ++ [c]) l).modifyHead (c :: ·) := by
        rw [characters, if_neg hc]
      rw [hchars, List.length_modifyHead] at hlt
      have hrest := ih (Nat.succ_pos n) (before ++ [c]) hlt
      rw [hchars]
      cases hsplit : characters isBoundary (before ++ [c]) l with
      | nil => simp [hsplit] at hlt
      | cons first others =>
        rw [hsplit] at hrest
        simpa using hrest

theorem length_characters_le (before l : List α) :
    (characters isBoundary before l).length ≤ l.length := by
  induction l generalizing before with
  | nil => exact Nat.le_refl 0
  | cons c l ih =>
    rw [characters]
    split_ifs
    · exact Nat.succ_le_succ (ih _)
    · rw [List.length_modifyHead]
      exact Nat.le_succ_of_le (ih _)

/-- One more element makes at most one more character. -/
theorem length_characters_concat_le (h : SeesNext isBoundary) (before l : List α) (e : α) :
    (characters isBoundary before (l ++ [e])).length ≤
      (characters isBoundary before l).length + 1 := by
  induction l generalizing before with
  | nil => simp [characters]
  | cons c l ih =>
    have hle := ih (before ++ [c])
    cases l with
    | nil =>
      rw [List.singleton_append, characters]
      split_ifs <;> simp [characters]
    | cons d l =>
      have hsame := h.congr (List.cons_ne_nil d l) [e] (before ++ [c])
      rw [List.cons_append, characters, characters.eq_2, hsame]
      split_ifs <;> simp_all

/-! ## Splitting at an element -/

section Single

variable [BEq α] [LawfulBEq α] {joins : α → α → Bool} {a e : α} {x p : List α}

variable (isBoundary) in
/-- The length of a character that is this element. -/
abbrev singleLength (a : α) : List α → List α → ℕ :=
  targetLength isBoundary (· == ·) [a]

/-- Nothing is found at an element that is no character of its own. -/
theorem singleLength_eq_zero_iff {c : α} : singleLength isBoundary a before (c :: l) = 0 ↔
    (a = c → isBoundary before (c :: l) → isBoundary (before ++ [c]) l = false) := by
  have hat : IsAt (· == ·) isBoundary [a] before (c :: l) ↔
      a = c ∧ isBoundary before (c :: l) ∧ isBoundary (before ++ [c]) l := by
    simp [IsAt, startsWith, and_assoc]
  unfold singleLength targetLength
  split_ifs with h
  · obtain ⟨hac, hbefore, hafter⟩ := hat.mp h
    simp [hac, hbefore, hafter]
  · rw [hat] at h
    simpa using h

/-- A part ends where the element is a character. -/
theorem components_single_of_ne_zero {c : α} (h : singleLength isBoundary a before (c :: l) ≠ 0) :
    a = c ∧ components (singleLength isBoundary a) 0 before (c :: l) =
      [] :: components (singleLength isBoundary a) 0 (before ++ [c]) l := by
  have hone : singleLength isBoundary a before ([c] ++ l) = [c].length := by
    have hat : IsAt (· == ·) isBoundary [a] before (c :: l) := by
      by_contra hat
      exact h (if_neg hat)
    exact if_pos hat
  refine ⟨?_, components_of_match (List.cons_ne_nil c []) hone⟩
  by_contra hne
  exact h (singleLength_eq_zero_iff.mpr fun heq => absurd heq hne)

theorem eq_target_of_targetLength (hne : m ≠ [])
    (h : targetLength isBoundary (· == ·) target before (m ++ l) = m.length) : m = target := by
  obtain ⟨hsame, -, -⟩ := spec_of_targetLength hne h
  exact (List.forall₂_eq_eq_eq ▸ hsame.imp fun _ _ hbeq => eq_of_beq hbeq).symm

/-- What is not in the target, is in some part. -/
theorem exists_mem_components {c : α} (htarget : c ∉ target) (before : List α) (hc : c ∈ l) :
    ∃ part ∈ components (targetLength isBoundary (· == ·) target) 0 before l, c ∈ part := by
  refine (cuts_components fits_targetLength before l).exists_mem (fun _ m _ hne hm hmem => ?_) hc
  obtain rfl := eq_target_of_targetLength hne hm
  exact htarget hmem

variable (isBoundary) in
/-- At most as many cuts as there are separators. -/
theorem length_components_single_le (a : α) (before l : List α) :
    (components (singleLength isBoundary a) 0 before l).length ≤ l.count a + 1 := by
  induction l generalizing before with
  | nil => simp [components]
  | cons d l ih =>
    have hrest := ih (before ++ [d])
    by_cases hd : singleLength isBoundary a before (d :: l) = 0
    · rw [components, if_pos hd, List.length_modifyHead]
      exact Nat.le_trans hrest (Nat.succ_le_succ List.count_le_count_cons)
    · obtain ⟨rfl, hcomponents⟩ := components_single_of_ne_zero hd
      rw [hcomponents, List.length_cons, List.count_cons_self]
      exact Nat.succ_le_succ hrest

variable (isBoundary joins) in
/-- Next to the element a boundary depends on what is on the other side. -/
structure PairwiseAt (a : α) : Prop where
  before : ∀ x l, isBoundary x (a :: l) = pairBoundary joins x (a :: l)
  after : ∀ x l, isBoundary (x ++ [a]) l = pairBoundary joins (x ++ [a]) l

/-- The search for one element looks at neighbours only. -/
theorem PairwiseAt.singleLength_eq (h : PairwiseAt isBoundary joins a) :
    singleLength isBoundary a = singleLength (pairBoundary joins) a := by
  funext before l
  have hat : IsAt (· == ·) isBoundary [a] before l =
      IsAt (· == ·) (pairBoundary joins) [a] before l := by
    cases l with
    | nil => rfl
    | cons c l =>
      by_cases hac : a = c
      · obtain rfl := hac
        simp [IsAt, h.before, h.after]
      · have hbeq : (a == c) = false := beq_eq_false_iff_ne.mpr hac
        simp [IsAt, startsWith, hbeq]
  rw [singleLength, singleLength, targetLength, targetLength, hat]

/-- What stands alone in a part, does so with the element on both sides of the part. -/
theorem noMatch_single_iff (ha : joins a a = false) (hx : ∀ c, x.getLast? = some c → c = a)
    (hl : ∀ c, l.head? = some c → c = a) :
    NoMatch (singleLength (pairBoundary joins) a) x p l ↔
      NoMatch (singleLength (pairBoundary joins) a) [] p [] := by
  refine forall_congr' fun y => forall_congr' fun z => forall_congr' fun hp =>
    forall_congr' fun hne => ?_
  obtain ⟨c, z, rfl⟩ := List.exists_cons_of_ne_nil hne
  rw [List.cons_append, List.cons_append, singleLength_eq_zero_iff, singleLength_eq_zero_iff,
    List.nil_append, List.append_nil]
  refine forall_congr' ?_
  rintro rfl
  have hbefore : pairBoundary joins (x ++ y) (a :: (z ++ l)) = pairBoundary joins y (a :: z) := by
    rcases List.eq_nil_or_concat' y with rfl | ⟨y, d, rfl⟩
    · cases hlast : x.getLast? with
      | none => simp [pairBoundary, hlast]
      | some d => simp [pairBoundary, hlast, hx d hlast, ha]
    · rw [← List.append_assoc, pairBoundary_concat_cons, pairBoundary_concat_cons]
  have hafter : pairBoundary joins (x ++ y ++ [a]) (z ++ l) = pairBoundary joins (y ++ [a]) z := by
    cases z with
    | nil =>
      cases hhead : l.head? with
      | none => simp [pairBoundary, hhead]
      | some d => simp [pairBoundary, hhead, hl d hhead, ha]
    | cons d z =>
      rw [List.cons_append, pairBoundary_concat_cons, pairBoundary_concat_cons]
  rw [hbefore, hafter]

/-- In no part does the element stand alone. -/
theorem noMatch_of_mem_components (ha : joins a a = false)
    (hx : ∀ c, x.getLast? = some c → c = a)
    (hp : NoMatch (singleLength (pairBoundary joins) a) x p l) {part : List α}
    (hpart : part ∈ (components (singleLength (pairBoundary joins) a) 0 (x ++ p) l).modifyHead
      (p ++ ·)) : NoMatch (singleLength (pairBoundary joins) a) [] part [] := by
  induction l generalizing x p with
  | nil =>
    obtain rfl : part = p := by simpa [components] using hpart
    exact (noMatch_single_iff ha hx (by simp)).mp hp
  | cons c l ih =>
    by_cases hc : singleLength (pairBoundary joins) a (x ++ p) (c :: l) = 0
    · have hnext : NoMatch (singleLength (pairBoundary joins) a) x (p ++ [c]) l :=
        noMatch_append_iff.mpr ⟨hp, noMatch_cons_iff.mpr ⟨hc, noMatch_nil _ _⟩⟩
      refine ih hx hnext ?_
      rw [components, if_pos hc, List.modifyHead_modifyHead] at hpart
      simpa [Function.comp_def] using hpart
    · obtain ⟨rfl, hcomponents⟩ := components_single_of_ne_zero hc
      rw [hcomponents, List.modifyHead_cons, List.mem_cons, List.append_nil] at hpart
      rcases hpart with rfl | hpart
      · exact (noMatch_single_iff ha hx (by simp)).mp hp
      · refine ih (x := x ++ p ++ [a]) (by simp) (noMatch_nil _ _) ?_
        obtain ⟨first, others, hrest⟩ := List.exists_cons_of_ne_nil
          (components_ne_nil (singleLength (pairBoundary joins) a) 0 (x ++ p ++ [a]) l)
        rw [List.append_nil, hrest]
        rwa [hrest] at hpart

/-- Parts in which the element does not stand alone, are as many as before or less if they are
joined by it. -/
theorem length_components_intercalate_le (ha : joins a a = false) {parts : List (List α)}
    (hne : parts ≠ [])
    (hparts : ∀ part ∈ parts, NoMatch (singleLength (pairBoundary joins) a) [] part [])
    (hx : ∀ c, x.getLast? = some c → c = a) :
    (components (singleLength (pairBoundary joins) a) 0 x ([a].intercalate parts)).length ≤
      parts.length := by
  induction parts generalizing x with
  | nil => exact absurd rfl hne
  | cons part parts ih =>
    obtain ⟨hpart, hparts⟩ := List.forall_mem_cons.mp hparts
    cases parts with
    | nil =>
      have hself : [a].intercalate [part] = part := by simp [List.intercalate]
      have hone := components_eq_singleton ((noMatch_single_iff ha hx (by simp)).mpr hpart)
      rw [hself]
      exact Nat.le_of_eq (congrArg List.length hone)
    | cons next parts =>
      have hjoined : [a].intercalate (part :: next :: parts) =
          part ++ a :: [a].intercalate (next :: parts) := by simp [List.intercalate]
      have hrest := ih (List.cons_ne_nil _ _) hparts (x := x ++ part ++ [a]) (by simp)
      rw [hjoined, components_append ((noMatch_single_iff ha hx (by simp)).mpr hpart),
        List.length_modifyHead]
      by_cases hat : singleLength (pairBoundary joins) a (x ++ part)
          (a :: [a].intercalate (next :: parts)) = 0
      · rw [components, if_pos hat, List.length_modifyHead, List.length_cons]
        exact Nat.le_succ_of_le hrest
      · rw [(components_single_of_ne_zero hat).2, List.length_cons, List.length_cons]
        exact Nat.succ_le_succ hrest

/-- Cutting a text off between two characters does not give more parts. -/
theorem length_components_concat_le (h : SeesNext isBoundary) (he : a ≠ e)
    (hboundary : isBoundary (x ++ p) l) :
    (components (singleLength isBoundary a) 0 x (p ++ [e])).length ≤
      (components (singleLength isBoundary a) 0 x (p ++ l)).length := by
  induction p generalizing x with
  | nil =>
    have hzero : singleLength isBoundary a x [e] = 0 :=
      singleLength_eq_zero_iff.mpr fun heq => absurd heq he
    rw [List.nil_append, components, if_pos hzero]
    exact Nat.succ_le_of_lt (List.length_pos_of_ne_nil (components_ne_nil _ _ _ _))
  | cons c p ih =>
    have hrest := ih (x := x ++ [c]) (by simpa using hboundary)
    have himp : singleLength isBoundary a x (c :: (p ++ l)) = 0 →
        singleLength isBoundary a x (c :: (p ++ [e])) = 0 := by
      rw [singleLength_eq_zero_iff, singleLength_eq_zero_iff]
      intro hzero heq hbefore
      rw [h] at hbefore
      have hafter := hzero heq (by rwa [h])
      cases p with
      | nil =>
        rw [List.nil_append] at hafter
        rw [hafter] at hboundary
        cases hboundary
      | cons d p => rwa [h.congr (List.cons_ne_nil d p)] at hafter ⊢
    rw [List.cons_append, List.cons_append]
    by_cases hl : singleLength isBoundary a x (c :: (p ++ l)) = 0
    · rw [components, if_pos (himp hl), components, if_pos hl, List.length_modifyHead,
        List.length_modifyHead]
      exact hrest
    · rw [(components_single_of_ne_zero hl).2, List.length_cons]
      by_cases hzero : singleLength isBoundary a x (c :: (p ++ [e])) = 0
      · rw [components, if_pos hzero, List.length_modifyHead]
        exact Nat.le_succ_of_le hrest
      · rw [(components_single_of_ne_zero hzero).2, List.length_cons]
        exact Nat.succ_le_succ hrest

end Single

end Characters
