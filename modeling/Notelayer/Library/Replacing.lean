import Mathlib.Data.List.Basic

/-!
# Replacing a list in a list

`replacing` goes through a list from the left and replaces the places where a target stands between
two boundaries. What a boundary is depends on the two sides of a place : for a text it is a place
between two user-perceived characters, some of which have several elements. `same` says which
elements a target stands for.

Runs of an element need not be removed before the element is (`replacing_replacing_run`).
-/

namespace Replacing

variable {α : Type*} (same : α → α → Bool) (isBoundary : List α → List α → Bool)

/-! ## Elements that stand alone -/

/-- Every place of the element has boundaries on both sides. -/
def StandsAlone (a : α) (before l : List α) : Prop :=
  ∀ l₁ l₂, l = l₁ ++ a :: l₂ →
    isBoundary (before ++ l₁) (a :: l₂) ∧ isBoundary (before ++ l₁ ++ [a]) l₂

theorem standsAlone_nil {a : α} {before : List α} : StandsAlone isBoundary a before [] := by
  intro l₁ l₂ h
  simp at h

/-- One more element at the front. -/
theorem standsAlone_cons {a : α} {before l : List α} {c : α} :
    StandsAlone isBoundary a before (c :: l) ↔
      (a = c → isBoundary before (c :: l) ∧ isBoundary (before ++ [c]) l) ∧
        StandsAlone isBoundary a (before ++ [c]) l := by
  unfold StandsAlone
  constructor
  · intro h
    refine ⟨?_, fun l₁ l₂ hl => ?_⟩
    · rintro rfl
      simpa using h [] l rfl
    · simpa using h (c :: l₁) l₂ (by rw [hl, List.cons_append])
  · rintro ⟨hc, h⟩ l₁ l₂ hl
    rcases l₁ with _ | ⟨d, l₁⟩
    · obtain ⟨rfl, rfl⟩ := List.cons.inj hl
      simpa using hc rfl
    · obtain ⟨rfl, rfl⟩ := List.cons.inj hl
      simpa using h l₁ l₂ rfl

/-! ## Replacing -/

variable (target replacement : List α)

/-- The list starts with the target. -/
def startsWith : List α → List α → Bool
  | [], _ => true
  | _ :: _, [] => false
  | a :: target, c :: l => same a c && startsWith target l

/-- The target is here, and ends where it does. -/
def IsAt (before l : List α) : Bool :=
  startsWith same target l && isBoundary before l &&
    isBoundary (before ++ l.take target.length) (l.drop target.length)

/-- What becomes of the rest of a list. `skipped` elements of it belong to the last target. -/
def replacing : ℕ → List α → List α → List α
  | _, _, [] => []
  | skipped + 1, before, c :: l => replacing skipped (before ++ [c]) l
  | 0, before, c :: l =>
    if IsAt same isBoundary target before (c :: l) then
      replacement ++ replacing (target.length - 1) (before ++ [c]) l
    else c :: replacing 0 (before ++ [c]) l

variable {same isBoundary target replacement}

theorem length_le_of_startsWith {target l : List α} (h : startsWith same target l) :
    target.length ≤ l.length := by
  induction target generalizing l with
  | nil => simp
  | cons a target ih =>
    cases l with
    | nil => simp [startsWith] at h
    | cons c l =>
      rw [startsWith, Bool.and_eq_true] at h
      simpa using ih h.2

theorem startsWith_beq_iff [BEq α] [LawfulBEq α] {target l : List α} :
    startsWith (· == ·) target l ↔ target <+: l := by
  induction target generalizing l with
  | nil => simp [startsWith]
  | cons a target ih =>
    cases l with
    | nil => simp [startsWith]
    | cons c l => rw [startsWith, Bool.and_eq_true, beq_iff_eq, ih, List.cons_prefix_cons]

/-- A target that stands for itself. -/
theorem isAt_beq_iff [BEq α] [LawfulBEq α] {target before l : List α} :
    IsAt (· == ·) isBoundary target before l ↔ ∃ rest, l = target ++ rest ∧
      isBoundary before (target ++ rest) ∧ isBoundary (before ++ target) rest := by
  unfold IsAt
  rw [Bool.and_eq_true, Bool.and_eq_true, startsWith_beq_iff]
  constructor
  · rintro ⟨⟨⟨rest, rfl⟩, hbefore⟩, hend⟩
    rw [List.take_left, List.drop_left] at hend
    exact ⟨rest, rfl, hbefore, hend⟩
  · rintro ⟨rest, rfl, hbefore, hend⟩
    refine ⟨⟨List.prefix_append _ _, hbefore⟩, ?_⟩
    rwa [List.take_left, List.drop_left]

theorem replacing_skip (skipped before l : List α) :
    replacing same isBoundary target replacement skipped.length before (skipped ++ l) =
      replacing same isBoundary target replacement 0 (before ++ skipped) l := by
  induction skipped generalizing before with
  | nil => simp
  | cons c skipped ih =>
    rw [List.length_cons, List.cons_append, replacing, ih, List.append_assoc,
      List.singleton_append]

/-- A target that is here is replaced. -/
theorem replacing_of_isAt {before l : List α} (hne : target ≠ [])
    (h : IsAt same isBoundary target before l) :
    replacing same isBoundary target replacement 0 before l =
      replacement ++ replacing same isBoundary target replacement 0
        (before ++ l.take target.length) (l.drop target.length) := by
  have hstarts : startsWith same target l := by
    simp only [IsAt, Bool.and_eq_true] at h
    exact h.1.1
  have hlength := length_le_of_startsWith hstarts
  obtain ⟨a, target, rfl⟩ := List.exists_cons_of_ne_nil hne
  cases l with
  | nil => simp at hlength
  | cons c l =>
    have htake : (l.take target.length).length = target.length :=
      List.length_take_of_le (by simpa using hlength)
    have hskip : replacing same isBoundary (a :: target) replacement target.length
        (before ++ [c]) l = replacing same isBoundary (a :: target) replacement 0
          (before ++ [c] ++ l.take target.length) (l.drop target.length) := by
      conv_lhs => rw [← List.take_append_drop target.length l]
      rw [← replacing_skip, htake]
    rw [replacing, if_pos h, List.length_cons, Nat.add_sub_cancel, hskip, List.append_assoc]
    rfl

/-- Without an element that the target begins with nothing is replaced. -/
theorem replacing_of_forall_not {a : α} {rest l : List α} (h : ∀ c ∈ l, same a c = false)
    (before : List α) : replacing same isBoundary (a :: rest) replacement 0 before l = l := by
  induction l generalizing before with
  | nil => rfl
  | cons c l ih =>
    obtain ⟨hc, hl⟩ := List.forall_mem_cons.mp h
    have hat : IsAt same isBoundary (a :: rest) before (c :: l) = false := by
      simp [IsAt, startsWith, hc]
    rw [replacing, hat, if_neg Bool.false_ne_true, ih hl]

/-- An element is replaced if there are boundaries on both sides of it. -/
theorem replacing_singleton_cons (a : α) (before : List α) (c : α) (l : List α) :
    replacing same isBoundary [a] replacement 0 before (c :: l) =
      (if same a c ∧ isBoundary before (c :: l) ∧ isBoundary (before ++ [c]) l then replacement
        else [c]) ++ replacing same isBoundary [a] replacement 0 (before ++ [c]) l := by
  have hat : IsAt same isBoundary [a] before (c :: l) ↔
      same a c ∧ isBoundary before (c :: l) ∧ isBoundary (before ++ [c]) l := by
    simp [IsAt, startsWith, and_assoc]
  rw [replacing]
  by_cases h : IsAt same isBoundary [a] before (c :: l)
  · rw [if_pos h, if_pos (hat.mp h), List.length_singleton]
  · rw [if_neg h, if_neg fun h' => h (hat.mpr h'), List.singleton_append]

/-- An element that the target stands for is gone if it stood alone everywhere. -/
theorem notMem_replacing_singleton_iff {a b : α} (hsame : same a b) (hb : b ∉ replacement)
    (before l : List α) :
    b ∉ replacing same isBoundary [a] replacement 0 before l ↔
      StandsAlone isBoundary b before l := by
  induction l generalizing before with
  | nil => exact iff_of_true List.not_mem_nil (standsAlone_nil isBoundary)
  | cons c l ih =>
    rw [replacing_singleton_cons, standsAlone_cons, List.mem_append, not_or, ih]
    refine and_congr_left fun _ => ?_
    split_ifs with h
    · exact iff_of_true hb fun _ => h.2
    · rw [List.mem_singleton]
      refine ⟨fun hne heq => absurd heq hne, fun hboundary heq => ?_⟩
      exact h ⟨heq ▸ hsame, hboundary heq⟩

/-! ## Boundaries that depend on two elements -/

/-- There is none between two elements that join. -/
def pairBoundary (joins : α → α → Bool) (before l : List α) : Bool :=
  before.getLast?.all fun a => l.head?.all fun b => !joins a b

/-- What stands for the element joins the same elements, and not itself. -/
structure JoinsAlike (same joins : α → α → Bool) (a : α) : Prop where
  apart : ∀ c d, same a c → same a d → joins c d = false
  after : ∀ c d b, same a c → same a d → joins c b = joins d b
  before : ∀ c d b, same a c → same a d → joins b c = joins b d

variable {joins : α → α → Bool} {a : α}

theorem pairBoundary_concat_cons (before l : List α) (c d : α) :
    pairBoundary joins (before ++ [c]) (d :: l) = !joins c d := by
  simp [pairBoundary]

/-- What starts with copies has them in front. -/
theorem startsWith_replicate {n : ℕ} {l : List α}
    (h : startsWith same (List.replicate n a) l) :
    ∀ c ∈ l.take n, same a c := by
  induction n generalizing l with
  | zero => simp
  | succ n ih =>
    cases l with
    | nil => simp
    | cons c l =>
      rw [List.replicate_succ, startsWith, Bool.and_eq_true] at h
      rw [List.take_succ_cons, List.forall_mem_cons]
      exact ⟨h.1, ih h.2⟩

/-- A run of the element is removed by removing the element. -/
theorem replacing_singleton_run (h : JoinsAlike same joins a) {before run l : List α}
    (hrun : ∀ c ∈ run, same a c) (hbefore : pairBoundary joins before (run ++ l))
    (hl : pairBoundary joins (before ++ run) l) :
    replacing same (pairBoundary joins) [a] [] 0 before (run ++ l) =
      replacing same (pairBoundary joins) [a] [] 0 (before ++ run) l := by
  induction run generalizing before with
  | nil => simp
  | cons c run ih =>
    obtain ⟨hc, hrun⟩ := List.forall_mem_cons.mp hrun
    have hnext : pairBoundary joins (before ++ [c]) (run ++ l) := by
      cases run with
      | nil => simpa using hl
      | cons d run =>
        rw [List.cons_append, pairBoundary_concat_cons, h.apart c d hc (hrun d List.mem_cons_self)]
        rfl
    rw [List.cons_append, replacing_singleton_cons, if_pos ⟨hc, hbefore, hnext⟩,
      ih hrun hnext (by simpa using hl)]
    simp

theorem pairBoundary_run (h : JoinsAlike same joins a) {c : α} (hc : same a c)
    {before run l : List α} (hne : run ≠ []) (hrun : ∀ d ∈ run, same a d) :
    pairBoundary joins (before ++ run) l = l.head?.all fun b => !joins c b := by
  rcases List.eq_nil_or_concat' run with rfl | ⟨run, d, rfl⟩
  · exact absurd rfl hne
  · have hd : same a d := hrun d (by simp)
    have hjoins : ∀ b, joins d b = joins c b := fun b => h.after d c b hd hc
    rw [← List.append_assoc, pairBoundary]
    simp [hjoins]

theorem pairBoundary_cons (h : JoinsAlike same joins a) {c d : α} (hc : same a c) (hd : same a d)
    (before l : List α) :
    pairBoundary joins before (d :: l) = before.getLast?.all fun b => !joins b c := by
  have hjoins : ∀ b, joins b d = joins b c := fun b => h.before d c b hd hc
  simp [pairBoundary, hjoins]

theorem isAt_replicate {n : ℕ} {before l : List α}
    (h : IsAt same isBoundary (List.replicate n a) before l) :
    (∀ c ∈ l.take n, same a c) ∧ isBoundary before l ∧
      isBoundary (before ++ l.take n) (l.drop n) := by
  simp only [IsAt, Bool.and_eq_true, List.length_replicate] at h
  exact ⟨startsWith_replicate h.1.1, h.1.2, h.2⟩

/-- What is left of a list begins with something that the element joins, if the list does. -/
theorem head_replacing_run (h : JoinsAlike same joins a) (n : ℕ) {c : α} (hc : same a c)
    (before l : List α) :
    ((replacing same (pairBoundary joins) (List.replicate (n + 1) a) [] 0 before l).head?.all
        fun b => !joins c b) = l.head?.all fun b => !joins c b := by
  induction hlength : l.length using Nat.strongRecOn generalizing before l with
  | ind length ih =>
    cases l with
    | nil => rfl
    | cons d l =>
      by_cases hat : IsAt same (pairBoundary joins) (List.replicate (n + 1) a) before (d :: l)
      · obtain ⟨hrun, -, hend⟩ := isAt_replicate hat
        have hd : same a d := hrun d (by simp)
        have hdrop : ((d :: l).drop (n + 1)).length < length := by
          simp at hlength ⊢
          omega
        rw [replacing_of_isAt (by simp) hat, List.nil_append, List.length_replicate,
          ih _ hdrop _ _ rfl, ← pairBoundary_run h hc (by simp) hrun, hend]
        simp [h.apart c d hc hd]
      · rw [replacing, if_neg hat]
        rfl

/-- Removing the runs of a length first makes no difference. -/
theorem replacing_replacing_run (h : JoinsAlike same joins a) (n : ℕ) {before before' l : List α}
    (hlast : ∀ c, same a c → (before'.getLast?.all fun b => !joins b c) =
      before.getLast?.all fun b => !joins b c) :
    replacing same (pairBoundary joins) [a] [] 0 before'
        (replacing same (pairBoundary joins) (List.replicate (n + 1) a) [] 0 before l) =
      replacing same (pairBoundary joins) [a] [] 0 before l := by
  induction hlength : l.length using Nat.strongRecOn generalizing before before' l with
  | ind length ih =>
    cases l with
    | nil => rfl
    | cons c l =>
      by_cases hat : IsAt same (pairBoundary joins) (List.replicate (n + 1) a) before (c :: l)
      · obtain ⟨hrun, hbefore, hend⟩ := isAt_replicate hat
        have hc : same a c := hrun c (by simp)
        have hdrop : ((c :: l).drop (n + 1)).length < length := by
          simp at hlength ⊢
          omega
        have hsplit : replacing same (pairBoundary joins) [a] [] 0 before (c :: l) =
            replacing same (pairBoundary joins) [a] [] 0 (before ++ (c :: l).take (n + 1))
              ((c :: l).drop (n + 1)) := by
          conv_lhs => rw [← List.take_append_drop (n + 1) (c :: l)]
          exact replacing_singleton_run h hrun (by rwa [List.take_append_drop]) hend
        rw [replacing_of_isAt (by simp) hat, List.nil_append, List.length_replicate, hsplit]
        refine ih _ hdrop (fun d hd => ?_) rfl
        -- a run joins nothing of its kind, and before it there is a boundary
        rw [hlast d hd, ← pairBoundary_cons h hd hc before l, hbefore,
          ← pairBoundary_cons h hd hc _ l, pairBoundary_run h hc (by simp) hrun]
        simp [h.apart c c hc hc]
      · have hlt : l.length < length := by
          simp at hlength
          omega
        rw [replacing, if_neg hat, replacing_singleton_cons, replacing_singleton_cons,
          ih l.length hlt (by simp) rfl]
        congr 1
        by_cases hc : same a c
        · have hnext : pairBoundary joins (before' ++ [c]) (replacing same (pairBoundary joins)
              (List.replicate (n + 1) a) [] 0 (before ++ [c]) l) =
                pairBoundary joins (before ++ [c]) l := by
            rw [pairBoundary_run h hc (by simp) (by simpa using hc), head_replacing_run h n hc,
              pairBoundary_run h hc (by simp) (by simpa using hc)]
          rw [hnext, pairBoundary_cons h hc hc, pairBoundary_cons h hc hc, hlast c hc]
        · simp [hc]

end Replacing
