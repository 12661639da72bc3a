import Mathlib.Data.List.Basic

/-!
# Rewriting the matches in a list

A pattern is given by the length of its match at a place, 0 where there is none. That may depend on
what is before the place. `rewriting` goes through a list from the left and writes a replacement
for each match, `components` cuts the list there. What `rewriting` does is also a relation,
`Rewrites`, by whose cases its properties are shown.
-/

namespace Rewriting

variable {α : Type*} (matchLength : List α → List α → ℕ) (replacement : List α)

/-- What becomes of the rest of a list. `skipped` elements of it belong to the last match. -/
def rewriting : ℕ → List α → List α → List α
  | _, _, [] => []
  | skipped + 1, before, c :: l => rewriting skipped (before ++ [c]) l
  | 0, before, c :: l =>
    if matchLength before (c :: l) = 0 then c :: rewriting 0 (before ++ [c]) l
    else replacement ++ rewriting (matchLength before (c :: l) - 1) (before ++ [c]) l

/-- The parts of the rest of a list between the matches. -/
def components : ℕ → List α → List α → List (List α)
  | _, _, [] => [[]]
  | skipped + 1, before, c :: l => components skipped (before ++ [c]) l
  | 0, before, c :: l =>
    if matchLength before (c :: l) = 0 then
      (components 0 (before ++ [c]) l).modifyHead (c :: ·)
    else [] :: components (matchLength before (c :: l) - 1) (before ++ [c]) l

/-- No match is longer than the list. -/
def Fits : Prop :=
  ∀ before l, matchLength before l ≤ l.length

/-- No match begins in the part `x` of a list. -/
def NoMatch (before x l : List α) : Prop :=
  ∀ y z, x = y ++ z → z ≠ [] → matchLength (before ++ y) (z ++ l) = 0

/-- The matches are replaced one after the other. -/
inductive Rewrites : List α → List α → List α → Prop
  | nil (before : List α) : Rewrites before [] []
  | keep {before l l' : List α} (c : α) : matchLength before (c :: l) = 0 →
      Rewrites (before ++ [c]) l l' → Rewrites before (c :: l) (c :: l')
  | write {before m l l' : List α} : m ≠ [] → matchLength before (m ++ l) = m.length →
      Rewrites (before ++ m) l l' → Rewrites before (m ++ l) (replacement ++ l')

/-- The list is cut at the matches, one after the other. -/
inductive Cuts : List α → List α → List (List α) → Prop
  | nil (before : List α) : Cuts before [] [[]]
  | keep {before l part : List α} {parts : List (List α)} (c : α) :
      matchLength before (c :: l) = 0 →
      Cuts (before ++ [c]) l (part :: parts) → Cuts before (c :: l) ((c :: part) :: parts)
  | cut {before m l : List α} {parts : List (List α)} : m ≠ [] →
      matchLength before (m ++ l) = m.length → Cuts (before ++ m) l parts →
      Cuts before (m ++ l) ([] :: parts)

variable {matchLength replacement} {before x m l l' : List α}

/-! ## One match after the other -/

variable (matchLength) in
/-- There is always a part. -/
theorem components_ne_nil (skipped : ℕ) (before l : List α) :
    components matchLength skipped before l ≠ [] := by
  induction l generalizing skipped before with
  | nil => simp [components]
  | cons c l ih =>
    cases skipped with
    | zero =>
      rw [components]
      split_ifs
      · simpa using ih 0 (before ++ [c])
      · simp
    | succ skipped => exact ih skipped (before ++ [c])

theorem intercalate_modifyHead {parts : List (List α)} (hparts : parts ≠ []) (x : List α) :
    replacement.intercalate (parts.modifyHead (x ++ ·)) = x ++ replacement.intercalate parts := by
  obtain ⟨first, others, rfl⟩ := List.exists_cons_of_ne_nil hparts
  cases others <;> simp [List.intercalate]

/-- With the replacement between them the parts are the rewritten list. -/
theorem intercalate_components (skipped : ℕ) (before l : List α) :
    replacement.intercalate (components matchLength skipped before l) =
      rewriting matchLength replacement skipped before l := by
  induction l generalizing skipped before with
  | nil => simp [components, rewriting]
  | cons c l ih =>
    cases skipped with
    | zero =>
      rw [components, rewriting]
      split_ifs
      · rw [← ih]
        exact intercalate_modifyHead (components_ne_nil matchLength 0 (before ++ [c]) l) [c]
      · rw [← ih, List.intercalate_cons_of_ne_nil (components_ne_nil matchLength _ _ l),
          List.nil_append]
    | succ skipped => exact ih skipped (before ++ [c])

theorem components_skip (skipped before l : List α) :
    components matchLength skipped.length before (skipped ++ l) =
      components matchLength 0 (before ++ skipped) l := by
  induction skipped generalizing before with
  | nil => simp
  | cons c skipped ih =>
    rw [List.length_cons, List.cons_append, components, ih, List.append_assoc,
      List.singleton_append]

theorem components_of_match (hne : m ≠ []) (h : matchLength before (m ++ l) = m.length) :
    components matchLength 0 before (m ++ l) =
      [] :: components matchLength 0 (before ++ m) l := by
  obtain ⟨c, m, rfl⟩ := List.exists_cons_of_ne_nil hne
  have hskip : components matchLength m.length (before ++ [c]) (m ++ l) =
      components matchLength 0 (before ++ c :: m) l := by
    rw [components_skip, List.append_assoc, List.singleton_append]
  rw [List.cons_append] at h ⊢
  rw [components, h, if_neg (by simp), List.length_cons, Nat.add_sub_cancel, hskip]

theorem rewriting_of_match (hne : m ≠ []) (h : matchLength before (m ++ l) = m.length) :
    rewriting matchLength replacement 0 before (m ++ l) =
      replacement ++ rewriting matchLength replacement 0 (before ++ m) l := by
  rw [← intercalate_components, ← intercalate_components, components_of_match hne h,
    List.intercalate_cons_of_ne_nil (components_ne_nil matchLength 0 (before ++ m) l),
    List.nil_append]

/-! ## Parts without a match -/

theorem noMatch_nil (before l : List α) : NoMatch matchLength before [] l := by
  rintro y z h hne
  exact absurd (List.append_eq_nil_iff.mp h.symm).2 hne

/-- One more element at the front. -/
theorem noMatch_cons_iff {c : α} : NoMatch matchLength before (c :: x) l ↔
    matchLength before (c :: (x ++ l)) = 0 ∧ NoMatch matchLength (before ++ [c]) x l := by
  constructor
  · intro h
    refine ⟨by simpa using h [] (c :: x) rfl (by simp), fun y z hx hne => ?_⟩
    simpa using h (c :: y) z (by rw [hx, List.cons_append]) hne
  · rintro ⟨hc, h⟩ y z hx hne
    rcases y with _ | ⟨d, y⟩
    · rw [List.nil_append] at hx
      rw [← hx, List.append_nil]
      exact hc
    · obtain ⟨rfl, rfl⟩ := List.cons.inj hx
      simpa using h y z rfl hne

theorem noMatch_append_iff {y : List α} : NoMatch matchLength before (x ++ y) l ↔
    NoMatch matchLength before x (y ++ l) ∧ NoMatch matchLength (before ++ x) y l := by
  induction x generalizing before with
  | nil => simp [noMatch_nil]
  | cons c x ih =>
    rw [List.cons_append, noMatch_cons_iff, noMatch_cons_iff, ih, List.append_assoc,
      List.append_assoc, List.singleton_append, and_assoc]

theorem noMatch_of_forall (h : ∀ c ∈ x, ∀ before l, matchLength before (c :: l) = 0) :
    NoMatch matchLength before x l := by
  rintro y z rfl hne
  obtain ⟨c, z, rfl⟩ := List.exists_cons_of_ne_nil hne
  exact h c (by simp) _ _

theorem noMatch_iff_forall_lt : NoMatch matchLength before x l ↔
    ∀ i < x.length, matchLength (before ++ x.take i) (x.drop i ++ l) = 0 := by
  constructor
  · intro h i hi
    exact h _ _ (List.take_append_drop i x).symm (by simpa using hi)
  · rintro h y z rfl hne
    have hlength := List.length_pos_of_ne_nil hne
    simpa using h y.length (by simpa using hlength)

theorem Fits.exists_append (hfits : Fits matchLength) (h : matchLength before l ≠ 0) :
    ∃ m l', l = m ++ l' ∧ m ≠ [] ∧ matchLength before (m ++ l') = m.length := by
  refine ⟨l.take (matchLength before l), l.drop (matchLength before l),
    (List.take_append_drop _ _).symm, fun hnil => ?_, ?_⟩
  · rcases List.take_eq_nil_iff.mp hnil with hzero | rfl
    · exact h hzero
    · exact h (Nat.le_zero.mp (hfits before []))
  · rw [List.take_append_drop, List.length_take_of_le (hfits before l)]

/-- The elements before the first match belong to the first part. -/
theorem components_append (h : NoMatch matchLength before x l) :
    components matchLength 0 before (x ++ l) =
      (components matchLength 0 (before ++ x) l).modifyHead (x ++ ·) := by
  induction x generalizing before with
  | nil =>
    obtain ⟨first, others, hsplit⟩ :=
      List.exists_cons_of_ne_nil (components_ne_nil matchLength 0 before l)
    simp [hsplit]
  | cons c x ih =>
    obtain ⟨hc, hx⟩ := noMatch_cons_iff.mp h
    rw [List.cons_append, components, if_pos hc, ih hx, List.append_assoc, List.singleton_append,
      List.modifyHead_modifyHead]
    rfl

theorem rewriting_append (h : NoMatch matchLength before x l) :
    rewriting matchLength replacement 0 before (x ++ l) =
      x ++ rewriting matchLength replacement 0 (before ++ x) l := by
  rw [← intercalate_components, ← intercalate_components, components_append h]
  exact intercalate_modifyHead (components_ne_nil matchLength 0 (before ++ x) l) x

theorem rewriting_eq_self (h : NoMatch matchLength before l []) :
    rewriting matchLength replacement 0 before l = l := by
  have happend : rewriting matchLength replacement 0 before (l ++ []) =
      l ++ rewriting matchLength replacement 0 (before ++ l) [] := rewriting_append h
  simpa [rewriting] using happend

theorem rewriting_eq_self_of_append (hx : NoMatch matchLength before x (m ++ l))
    (hm : NoMatch matchLength (before ++ x) m l)
    (hl : NoMatch matchLength (before ++ x ++ m) l []) :
    rewriting matchLength replacement 0 before (x ++ (m ++ l)) = x ++ (m ++ l) := by
  refine rewriting_eq_self (noMatch_append_iff.mpr ⟨?_, noMatch_append_iff.mpr ⟨?_, hl⟩⟩)
  · rwa [List.append_nil]
  · rwa [List.append_nil]

/-- There is one match, between two parts without. -/
theorem rewriting_between (hne : m ≠ []) (hx : NoMatch matchLength before x (m ++ l))
    (hm : matchLength (before ++ x) (m ++ l) = m.length)
    (hl : NoMatch matchLength (before ++ x ++ m) l []) :
    rewriting matchLength replacement 0 before (x ++ (m ++ l)) = x ++ (replacement ++ l) := by
  rw [rewriting_append hx, rewriting_of_match hne hm, rewriting_eq_self hl]

theorem components_eq_singleton (h : NoMatch matchLength before l []) :
    components matchLength 0 before l = [l] := by
  simpa [components] using components_append h

/-! ## The relations -/

/-- The components are cuts at the matches. -/
theorem cuts_components (hfits : Fits matchLength) (before l : List α) :
    Cuts matchLength before l (components matchLength 0 before l) := by
  induction hlength : l.length using Nat.strongRecOn generalizing before l with
  | ind length ih =>
    cases l with
    | nil => exact .nil before
    | cons c l =>
      by_cases h : matchLength before (c :: l) = 0
      · obtain ⟨part, parts, hsplit⟩ :=
          List.exists_cons_of_ne_nil (components_ne_nil matchLength 0 (before ++ [c]) l)
        rw [components, if_pos h, hsplit]
        refine .keep c h (hsplit ▸ ih l.length ?_ _ l rfl)
        simp at hlength
        omega
      · obtain ⟨m, y, hsplit, hne, hm⟩ := hfits.exists_append h
        rw [hsplit] at hlength ⊢
        rw [components_of_match hne hm]
        have hpos := List.length_pos_of_ne_nil hne
        refine .cut hne hm (ih y.length ?_ _ y rfl)
        rw [List.length_append] at hlength
        omega

/-- With the replacement between them the parts of a cut list are a rewriting of it. -/
theorem Cuts.rewrites {parts : List (List α)} (h : Cuts matchLength before l parts) :
    Rewrites matchLength replacement before l (replacement.intercalate parts) := by
  induction h with
  | nil => simpa [List.intercalate] using Rewrites.nil _
  | @keep _ _ part parts c hc _ ih =>
    have hcons : replacement.intercalate ((c :: part) :: parts) =
        c :: replacement.intercalate (part :: parts) :=
      intercalate_modifyHead (List.cons_ne_nil part parts) [c]
    rw [hcons]
    exact .keep c hc ih
  | @cut before m l parts hne hm hcuts ih =>
    have hparts : parts ≠ [] := by cases hcuts <;> simp
    rw [List.intercalate_cons_of_ne_nil hparts, List.nil_append]
    exact .write hne hm ih

theorem rewrites_rewriting (hfits : Fits matchLength) (before l : List α) :
    Rewrites matchLength replacement before l
      (rewriting matchLength replacement 0 before l) := by
  rw [← intercalate_components]
  exact (cuts_components hfits before l).rewrites

/-- There is one part or a cut. -/
theorem Cuts.eq_singleton_or {parts : List (List α)} (h : Cuts matchLength before l parts) :
    parts = [l] ∨ 2 ≤ parts.length := by
  induction h with
  | nil => exact Or.inl rfl
  | keep c _ _ ih =>
    refine ih.imp (fun heq => ?_) fun hle => hle
    obtain ⟨rfl, rfl⟩ := List.cons.inj heq
    rfl
  | cut _ _ hcuts _ =>
    refine Or.inr (Nat.succ_le_succ (List.length_pos_of_ne_nil ?_))
    cases hcuts <;> simp

/-- What is in no match, is in some part. -/
theorem Cuts.exists_mem {parts : List (List α)} (h : Cuts matchLength before l parts) {c : α}
    (hmatches : ∀ before m l, m ≠ [] → matchLength before (m ++ l) = m.length → c ∉ m)
    (hc : c ∈ l) : ∃ part ∈ parts, c ∈ part := by
  induction h with
  | nil => cases hc
  | keep d _ _ ih =>
    rcases List.mem_cons.mp hc with rfl | hc
    · exact ⟨_, List.mem_cons_self, List.mem_cons_self⟩
    · obtain ⟨part, hpart, hmem⟩ := ih hc
      rcases List.mem_cons.mp hpart with rfl | hpart
      · exact ⟨_, List.mem_cons_self, List.mem_cons_of_mem d hmem⟩
      · exact ⟨part, List.mem_cons_of_mem _ hpart, hmem⟩
  | cut hne hm _ ih =>
    obtain ⟨part, hpart, hmem⟩ := ih ((List.mem_append.mp hc).resolve_left (hmatches _ _ _ hne hm))
    exact ⟨part, List.mem_cons_of_mem [] hpart, hmem⟩

theorem countP_intercalate {p : α → Bool} (h : replacement.countP p = 0) (parts : List (List α)) :
    (replacement.intercalate parts).countP p = parts.flatten.countP p := by
  induction parts with
  | nil => rfl
  | cons part parts ih =>
    cases parts with
    | nil => simp
    | cons next parts =>
      rw [List.intercalate_cons_cons, List.countP_append, List.countP_append, ih, h,
        List.flatten_cons (l := part), List.countP_append, Nat.add_zero]

/-- Elements of a kind are lost with every cut if there are so many in each match. -/
theorem Cuts.countP_flatten {parts : List (List α)} (h : Cuts matchLength before l parts)
    {p : α → Bool} {k : ℕ}
    (hmatches : ∀ before m l, m ≠ [] → matchLength before (m ++ l) = m.length → m.countP p = k) :
    parts.flatten.countP p + k * (parts.length - 1) = l.countP p := by
  induction h with
  | nil => simp
  | keep c _ _ ih =>
    simp only [List.flatten_cons, List.length_cons, List.cons_append, List.countP_cons] at ih ⊢
    omega
  | @cut before m l parts hne hm hcuts ih =>
    have hpos : 0 < parts.length := List.length_pos_of_ne_nil (by cases hcuts <;> simp)
    obtain ⟨n, hn⟩ : ∃ n, parts.length = n + 1 := ⟨parts.length - 1, by omega⟩
    rw [hn, Nat.add_sub_cancel] at ih
    rw [List.flatten_cons, List.nil_append, List.length_cons, List.countP_append,
      hmatches _ _ _ hne hm, hn, Nat.add_sub_cancel, Nat.mul_succ, ← ih]
    omega

/-- If the matches and the replacement have a property, the list has it before and after or
never. -/
theorem Rewrites.forall_iff {P : α → Prop} (hreplacement : ∀ c ∈ replacement, P c)
    (hmatches : ∀ before m l, m ≠ [] → matchLength before (m ++ l) = m.length → ∀ c ∈ m, P c)
    (h : Rewrites matchLength replacement before l l') : (∀ c ∈ l', P c) ↔ ∀ c ∈ l, P c := by
  induction h with
  | nil => rfl
  | keep c _ _ ih => rw [List.forall_mem_cons, List.forall_mem_cons, ih]
  | write hne hm _ ih =>
    rw [List.forall_mem_append, List.forall_mem_append, ih]
    exact and_congr_left fun _ =>
      ⟨fun _ => hmatches _ _ _ hne hm, fun _ => hreplacement⟩

end Rewriting
