import Mathlib.Data.List.InsertIdx
import Mathlib.Data.List.Nodup

/-!
# A list with a mark

The mark is an element `x` that is kept apart from the list `l`, with the index at which it
stands : the whole list is `l.insertIdx i x`. Taking `x` out of a list and putting it back at its
index gives the list (`insertIdx_idxOf`), and removing another element moves the mark
(`filter_ne_insertIdx`). `moveBefore` moves an element within a list.
-/

namespace MarkedList

variable {A : Type*}

theorem insertIdx_eq_append (x : A) {l : List A} {i : ℕ} (hi : i ≤ l.length) :
    l.insertIdx i x = l.take i ++ x :: l.drop i := by
  induction l generalizing i with
  | nil =>
    obtain rfl := Nat.le_zero.mp hi
    rfl
  | cons a l ih =>
    cases i with
    | zero => rfl
    | succ i => rw [List.insertIdx_succ_cons, ih (Nat.le_of_succ_le_succ hi)]; rfl

theorem nodup_insertIdx {x : A} {l : List A} (hl : l.Nodup) (hx : x ∉ l) {i : ℕ}
    (hi : i ≤ l.length) : (l.insertIdx i x).Nodup :=
  (List.perm_insertIdx x l hi).symm.nodup (List.nodup_cons.mpr ⟨hx, hl⟩)

variable [DecidableEq A]

/-- `l` with `g` removed and put back before `t`, or at the end. -/
def moveBefore (g : A) (t : Option A) (l : List A) : List A :=
  let rest := l.filter (· ≠ g)
  match t with
  | some t => rest.takeWhile (· ≠ t) ++ g :: rest.dropWhile (· ≠ t)
  | none => rest ++ [g]

theorem filter_ne_eq_erase {l : List A} (hl : l.Nodup) (x : A) :
    l.filter (· ≠ x) = l.erase x := by
  rw [hl.erase_eq_filter]
  exact List.filter_congr fun a _ => by by_cases h : a = x <;> simp [h]

theorem idxOf?_of_mem {x : A} {l : List A} (hx : x ∈ l) : l.idxOf? x = some (l.idxOf x) :=
  List.findIdx?_eq_some_iff_findIdx_eq.mpr ⟨List.idxOf_lt_length_of_mem hx, rfl⟩

theorem insertIdx_idxOf_eq (g t : A) (l : List A) :
    l.insertIdx (l.idxOf t) g = l.takeWhile (· ≠ t) ++ g :: l.dropWhile (· ≠ t) := by
  induction l with
  | nil => rfl
  | cons a l ih =>
    by_cases h : a = t
    · simp [h]
    · rw [List.idxOf_cons_ne l h, List.insertIdx_succ_cons, ih]
      simp [h]

/-- Removed and put back at its index. -/
theorem insertIdx_idxOf {x : A} {l : List A} (hl : l.Nodup) (hx : x ∈ l) :
    (l.filter (· ≠ x)).insertIdx (l.idxOf x) x = l := by
  have hlt := List.idxOf_lt_length_of_mem hx
  have hfilter : l.filter (· ≠ x) = l.eraseIdx (l.idxOf x) := by
    rw [List.eraseIdx_idxOf_eq_erase, filter_ne_eq_erase hl]
  have hput := List.insertIdx_eraseIdx_getElem hlt
  rwa [List.getElem_idxOf hlt, ← hfilter] at hput

/-- The elements other than `y` among the first `i`. -/
theorem length_filter_ne_take {y : A} {l : List A} (hl : l.Nodup) {i : ℕ} (hi : i ≤ l.length) :
    ((l.take i).filter (· ≠ y)).length = if l.idxOf y < i then i - 1 else i := by
  induction l generalizing i with
  | nil =>
    obtain rfl := Nat.le_zero.mp hi
    rfl
  | cons a l ih =>
    obtain ⟨ha, hl'⟩ := List.nodup_cons.mp hl
    cases i with
    | zero => rfl
    | succ i =>
      have hi' : i ≤ l.length := Nat.le_of_succ_le_succ hi
      by_cases h : a = y
      · subst h
        have hrest : (l.take i).filter (· ≠ a) = l.take i := by
          refine List.filter_eq_self.mpr fun b hb => decide_eq_true fun heq => ?_
          exact ha (heq ▸ List.mem_of_mem_take hb)
        rw [List.take_succ_cons, List.filter_cons_of_neg (by simp), hrest]
        simp [hi']
      · rw [List.take_succ_cons, List.filter_cons_of_pos (by simpa using h), List.length_cons,
          ih hl' hi', List.idxOf_cons_ne l h]
        split_ifs <;> omega

/-- Removing another element moves the mark down if the element stands before it. -/
theorem filter_ne_insertIdx {x y : A} {l : List A} (hl : l.Nodup) {i : ℕ} (hi : i ≤ l.length)
    (hxy : x ≠ y) : (l.insertIdx i x).filter (· ≠ y) =
      (l.filter (· ≠ y)).insertIdx (if l.idxOf y < i then i - 1 else i) x := by
  have hlength := length_filter_ne_take (y := y) hl hi
  have hsplit : l.filter (· ≠ y) =
      (l.take i).filter (· ≠ y) ++ (l.drop i).filter (· ≠ y) := by
    rw [← List.filter_append, List.take_append_drop]
  rw [insertIdx_eq_append x hi, List.filter_append, List.filter_cons_of_pos (by simpa using hxy),
    ← hlength, hsplit, insertIdx_eq_append x (by simp)]
  simp

theorem filter_insertIdx_self {x : A} {l : List A} (hx : x ∉ l) {i : ℕ} (hi : i ≤ l.length) :
    (l.insertIdx i x).filter (· ≠ x) = l := by
  have hrest : ∀ m : List A, m ⊆ l → m.filter (· ≠ x) = m := fun m hm =>
    List.filter_eq_self.mpr fun a ha => decide_eq_true fun heq => hx (heq ▸ hm ha)
  rw [insertIdx_eq_append x hi, List.filter_append, List.filter_cons_of_neg (by simp),
    hrest _ (List.take_subset i l), hrest _ (List.drop_subset i l), List.take_append_drop]

/-- A move gives the same elements. -/
theorem perm_moveBefore {g : A} {l : List A} (hl : l.Nodup) (hg : g ∈ l) (t : Option A) :
    (moveBefore g t l).Perm l := by
  have hcons : (g :: l.filter (· ≠ g)).Perm l := by
    rw [filter_ne_eq_erase hl]
    exact (List.perm_cons_erase hg).symm
  refine List.Perm.trans ?_ hcons
  unfold moveBefore
  dsimp only
  cases t with
  | none => exact List.perm_append_singleton g _
  | some t =>
    refine List.perm_middle.trans ?_
    rw [List.takeWhile_append_dropWhile]

end MarkedList
