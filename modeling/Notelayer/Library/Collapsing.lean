import Mathlib.Data.List.Induction
import Notelayer.Library.Rewriting

/-!
# Collapsing runs

`collapsing` writes one element for each run of a class. It is what rewriting the runs comes to
(`rewriting_runs`), and it is compatible with appending but for a run on both sides of the place
(`collapsing_append`).
-/

namespace Collapsing

open Rewriting

variable {α : Type*} (p : α → Bool) (a : α)

/-- The rest of a list, behind a run or not. -/
@[grind =] def collapsing : Bool → List α → List α
  | _, [] => []
  | inRun, c :: l =>
    if p c then (if inRun then collapsing true l else a :: collapsing true l)
    else c :: collapsing false l

/-- A list ends in a run. -/
def endsInRun (inRun : Bool) (l : List α) : Bool :=
  l.foldl (fun _ c => p c) inRun

variable {p a} {inRun : Bool} {l : List α}

theorem collapsing_append (x y : List α) : collapsing p a inRun (x ++ y) =
    collapsing p a inRun x ++ collapsing p a (endsInRun p inRun x) y := by
  induction x generalizing inRun with
  | nil => rfl
  | cons c x ih =>
    have hends : endsInRun p inRun (c :: x) = endsInRun p (p c) x := rfl
    rw [hends, List.cons_append, collapsing, collapsing, ih, ih]
    cases hc : p c <;> cases inRun <;> simp

/-- A run is collapsed with the run before it. -/
theorem collapsing_true_append {x : List α} (hx : ∀ c ∈ x, p c) (y : List α) :
    collapsing p a true (x ++ y) = collapsing p a true y := by
  induction x with
  | nil => rfl
  | cons c x ih =>
    obtain ⟨hc, hx⟩ := List.forall_mem_cons.mp hx
    rw [List.cons_append, collapsing, if_pos hc, if_pos rfl, ih hx]

theorem head?_collapsing_true :
    (collapsing p a true l).head? = (l.dropWhile p).head? := by
  induction l with
  | nil => rfl
  | cons c l ih =>
    by_cases hc : p c
    · rw [collapsing, if_pos hc, if_pos rfl, List.dropWhile_cons_of_pos hc, ih]
    · rw [collapsing, if_neg hc, List.dropWhile_cons_of_neg hc, List.head?_cons, List.head?_cons]

/-- Behind a run the element of the first run is missing. -/
theorem collapsing_eq_or (inRun inRun' : Bool) (l : List α) :
    collapsing p a inRun l = collapsing p a inRun' l ∨
      collapsing p a inRun l = a :: collapsing p a inRun' l ∨
      a :: collapsing p a inRun l = collapsing p a inRun' l := by
  cases l with
  | nil => exact Or.inl rfl
  | cons c l => cases hc : p c <;> cases inRun <;> cases inRun' <;> simp [collapsing, hc]

theorem collapsing_of_forall (h : ∀ c ∈ l, p c) :
    collapsing p a inRun l = [] ∨ collapsing p a inRun l = [a] := by
  cases l with
  | nil => exact Or.inl rfl
  | cons c l =>
    obtain ⟨hc, hl⟩ := List.forall_mem_cons.mp h
    have hrest : collapsing p a true l = [] := by
      simpa [collapsing] using collapsing_true_append hl []
    cases inRun <;> simp [collapsing, hc, hrest]

/-- An element of the result is a kept one or the replacement. -/
theorem mem_collapsing {c : α} (h : c ∈ collapsing p a inRun l) :
    c = a ∨ (c ∈ l ∧ p c = false) := by
  induction l generalizing inRun with
  | nil => cases h
  | cons d l ih =>
    rw [collapsing] at h
    split_ifs at h with hd hrun
    · exact (ih h).imp_right fun hmem => ⟨List.mem_cons_of_mem d hmem.1, hmem.2⟩
    · rcases List.mem_cons.mp h with rfl | h
      · exact Or.inl rfl
      · exact (ih h).imp_right fun hmem => ⟨List.mem_cons_of_mem d hmem.1, hmem.2⟩
    · rcases List.mem_cons.mp h with rfl | h
      · exact Or.inr ⟨List.mem_cons_self, by simpa using hd⟩
      · exact (ih h).imp_right fun hmem => ⟨List.mem_cons_of_mem d hmem.1, hmem.2⟩

/-- The last run, if it is not behind another, ends with its element. -/
theorem getLast?_collapsing : (collapsing p a false l).getLast? =
    l.getLast?.map fun c => if p c then a else c := by
  induction l using List.reverseRecOn with
  | nil => rfl
  | append_singleton l c ih =>
    rw [collapsing_append, List.getLast?_concat, Option.map_some]
    by_cases hc : p c
    · cases hrun : endsInRun p false l with
      | false => simp [collapsing, hc]
      | true =>
        rcases List.eq_nil_or_concat' l with rfl | ⟨l, d, rfl⟩
        · cases hrun
        · have hd : p d := by simpa [endsInRun] using hrun
          simpa [collapsing, hc, hd] using ih
    · simp [collapsing, hc]

/-! ## Rewriting -/

variable {matchLength : List α → List α → ℕ}

/-- Replacing runs is collapsing them. -/
theorem rewriting_runs (hruns : ∀ before l, matchLength before l = (l.takeWhile p).length)
    (before l : List α) :
    rewriting matchLength [a] 0 before l = collapsing p a false l ∧
      rewriting matchLength [a] (l.takeWhile p).length before l = collapsing p a true l := by
  induction l generalizing before with
  | nil => simp [rewriting, collapsing]
  | cons c l ih =>
    obtain ⟨hzero, hrun⟩ := ih (before ++ [c])
    by_cases hc : p c
    · rw [List.takeWhile_cons_of_pos hc, List.length_cons, rewriting, rewriting, hruns,
        List.takeWhile_cons_of_pos hc, List.length_cons, if_neg (Nat.succ_ne_zero _),
        Nat.add_sub_cancel, hrun]
      simp [collapsing, hc]
    · rw [List.takeWhile_cons_of_neg hc, List.length_nil, rewriting, hruns,
        List.takeWhile_cons_of_neg hc, List.length_nil, if_pos rfl, hzero]
      simp [collapsing, hc]

end Collapsing
