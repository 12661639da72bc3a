import Mathlib.Data.List.DropRight
import Notelayer.Library.Rewriting

/-!
# The words of a text

A word is a longest part of a text that has content elements only. Rewriting what is not content
leaves the words, and rewriting words of a kind, with what is around them, removes these words
(`removes_words_of_rewrites`).
-/

namespace Words

variable {α β : Type*} (isContent : α → Bool)

/-- The runs of content in a list. -/
def words (l : List α) : List (List α) :=
  (l.splitOnP fun c => !isContent c).filter fun word => word ≠ []

/-- Some elements of a kind are gone. -/
inductive Removes (p : β → Prop) : List β → List β → Prop
  | nil : Removes p [] []
  | keep (b : β) {l l' : List β} : Removes p l l' → Removes p (b :: l) (b :: l')
  | remove (b : β) {l l' : List β} : p b → Removes p l l' → Removes p (b :: l) l'

/-! ## Removing -/

variable {p : β → Prop} {u u' v v' w : List β}

namespace Removes

theorem refl (u : List β) : Removes p u u := by
  induction u with
  | nil => exact .nil
  | cons b u ih => exact .keep b ih

theorem of_forall (h : ∀ b ∈ u, p b) : Removes p u [] := by
  induction u with
  | nil => exact .nil
  | cons b u ih =>
    obtain ⟨hb, hu⟩ := List.forall_mem_cons.mp h
    exact .remove b hb (ih hu)

theorem append (h : Removes p u u') (h' : Removes p v v') : Removes p (u ++ v) (u' ++ v') := by
  induction h with
  | nil => exact h'
  | keep b _ ih => exact .keep b ih
  | remove b hb _ ih => exact .remove b hb ih

theorem trans (h : Removes p u v) (h' : Removes p v w) : Removes p u w := by
  induction h generalizing w with
  | nil => exact h'
  | keep b _ ih =>
    cases h' with
    | keep _ h' => exact .keep b (ih h')
    | remove _ hb h' => exact .remove b hb (ih h')
  | remove b hb _ ih => exact .remove b hb (ih h')

end Removes

/-! ## Words -/

variable {isContent} {x y l l' : List α}

@[simp] theorem words_nil : words isContent [] = [] := by
  simp [words]

theorem words_append_cons {c : α} (hc : isContent c = false) (x y : List α) :
    words isContent (x ++ c :: y) = words isContent x ++ words isContent y := by
  unfold words
  rw [List.splitOnP_append_cons x y (by simp [hc]), List.filter_append]

theorem words_cons {c : α} (hc : isContent c = false) (l : List α) :
    words isContent (c :: l) = words isContent l := by
  simpa using words_append_cons hc [] l

theorem words_concat {c : α} (hc : isContent c = false) (l : List α) :
    words isContent (l ++ [c]) = words isContent l := by
  simpa using words_append_cons hc l []

/-- Two parts have words of their own if there is no content on one side of the place between. -/
theorem words_append (h : (∀ c, x.getLast? = some c → isContent c = false) ∨
    ∀ c, y.head? = some c → isContent c = false) :
    words isContent (x ++ y) = words isContent x ++ words isContent y := by
  rcases h with h | h
  · rcases List.eq_nil_or_concat' x with rfl | ⟨x, c, rfl⟩
    · simp
    · have hc : isContent c = false := h c (by simp)
      rw [List.append_assoc, List.singleton_append, words_append_cons hc, words_concat hc]
  · cases y with
    | nil => simp
    | cons c y =>
      have hc : isContent c = false := h c rfl
      rw [words_append_cons hc, words_cons hc]

theorem words_of_forall_not (h : ∀ c ∈ l, isContent c = false) : words isContent l = [] := by
  induction l with
  | nil => exact words_nil
  | cons c l ih =>
    obtain ⟨hc, hl⟩ := List.forall_mem_cons.mp h
    rw [words_cons hc, ih hl]

theorem words_of_forall (hne : l ≠ []) (h : ∀ c ∈ l, isContent c) : words isContent l = [l] := by
  unfold words
  rw [List.splitOnP_eq_singleton fun c hc => by simp [h c hc]]
  simp [hne]

/-- Dropping what is no content at the ends makes no difference. -/
theorem words_dropWhile {q : α → Bool} (h : ∀ c, q c → isContent c = false) (l : List α) :
    words isContent (l.dropWhile q) = words isContent l := by
  induction l with
  | nil => rfl
  | cons c l ih =>
    by_cases hc : q c
    · rw [List.dropWhile_cons_of_pos hc, ih, words_cons (h c hc)]
    · rw [List.dropWhile_cons_of_neg hc]

theorem words_rdropWhile {q : α → Bool} (h : ∀ c, q c → isContent c = false) (l : List α) :
    words isContent (l.rdropWhile q) = words isContent l := by
  induction l using List.reverseRecOn with
  | nil => rfl
  | append_singleton l c ih =>
    by_cases hc : q c
    · rw [List.rdropWhile_concat_pos _ _ _ hc, ih, words_concat (h c hc)]
    · rw [List.rdropWhile_concat_neg _ _ _ hc]

/-- The words of the parts, if there is no content between them. -/
theorem words_intercalate {c : α} (hc : isContent c = false) (parts : List (List α)) :
    words isContent ([c].intercalate parts) = parts.flatMap (words isContent) := by
  induction parts with
  | nil => simp [List.intercalate]
  | cons part parts ih =>
    cases parts with
    | nil => simp [List.intercalate]
    | cons next parts =>
      have hcons : [c].intercalate (part :: next :: parts) =
          part ++ c :: [c].intercalate (next :: parts) := by
        simp [List.intercalate]
      rw [hcons, words_append_cons hc, ih]
      rfl

/-- The words make up the content. -/
theorem flatten_words (l : List α) : (words isContent l).flatten = l.filter isContent := by
  have hempty : ∀ parts : List (List α),
      (parts.filter fun part => part ≠ []).flatten = parts.flatten := by
    intro parts
    induction parts with
    | nil => rfl
    | cons part parts ih => cases part <;> simp_all
  rw [words, hempty]
  induction l with
  | nil => rfl
  | cons c l ih =>
    rw [List.splitOnP_cons_eq_if_modifyHead]
    cases hc : isContent c with
    | false => simpa [hc] using ih
    | true =>
      obtain ⟨first, others, hsplit⟩ := List.exists_cons_of_ne_nil
        (List.splitOnP_ne_nil (fun c => !isContent c) l)
      rw [hsplit] at ih ⊢
      simpa [hc] using ih

/-! ## Rewriting -/

open Rewriting

variable (isContent) in
/-- A match is not cut off from a word, and its own words are of the kind. -/
def MatchesWords (matchLength : List α → List α → ℕ) (p : List α → Prop) : Prop :=
  ∀ before m l, m ≠ [] → matchLength before (m ++ l) = m.length →
    ((∀ c, before.getLast? = some c → isContent c = false) ∨
        ∀ c, m.head? = some c → isContent c = false) ∧
      ((∀ c, m.getLast? = some c → isContent c = false) ∨
        ∀ c, l.head? = some c → isContent c = false) ∧
      ∀ word ∈ words isContent m, p word

variable {matchLength : List α → List α → ℕ} {q : List α → Prop} {before : List α}

/-- Behind any end of what is before. -/
theorem removes_words_append {c : α} (hmatches : MatchesWords isContent matchLength q)
    (hc : isContent c = false) (h : Rewrites matchLength [c] before l l') (y x : List α)
    (hbefore : before = y ++ x) :
    Removes q (words isContent (x ++ l)) (words isContent (x ++ l')) := by
  induction h generalizing y x with
  | nil _ => exact .refl _
  | keep d _ _ ih => simpa using ih y (x ++ [d]) (by rw [hbefore, List.append_assoc])
  | @write before m l l' hne hm _ ih =>
    obtain ⟨hx, hl, hwords⟩ := hmatches before m l hne hm
    have hlast : (∀ d, x.getLast? = some d → isContent d = false) ∨
        ∀ d, (m ++ l).head? = some d → isContent d = false := by
      refine hx.imp (fun hx d hd => hx d ?_) fun hm d hd => hm d ?_
      · rw [hbefore, List.getLast?_append, hd, Option.some_or]
      · rwa [List.head?_append_of_ne_nil m hne] at hd
    have hrest : Removes q (words isContent l) (words isContent l') :=
      ih (before ++ m) [] (List.append_nil _).symm
    rw [words_append hlast, words_append hl, List.singleton_append, words_append_cons hc]
    exact (Removes.refl _).append ((Removes.of_forall hwords).append hrest)

theorem removes_words_of_rewrites {c : α} (hmatches : MatchesWords isContent matchLength q)
    (hc : isContent c = false) (h : Rewrites matchLength [c] before l l') :
    Removes q (words isContent l) (words isContent l') :=
  removes_words_append hmatches hc h before [] (List.append_nil _).symm

end Words
