import Mathlib.Data.List.Dedup
import Mathlib.Data.List.Induction
import Mathlib.Data.List.Nodup
import Mathlib.Data.List.Pairwise
import Mathlib.Data.List.Perm.Basic
import Mathlib.Data.List.Sort

/-!
# Sorted lists

A list that is sorted for a relation is determined by its elements where the relation tells any
two of them apart (`eq_filter_of_pairwise`), whatever sorts it. The elements with a property come
first in a list exactly if each stands at an index below their number
(`pairwise_imp_iff_lt_countP`, `getElem_iff_lt_countP`).

A `Sorter` sorts by a comparator. Which of its equals come first is left open, so two sorters
agree on lists of the same elements where the comparator compares distinct keys
(`Sorter.sorted_eq_sorted`), and all sorters put first what another order does exactly if the
comparator decides these cases alike (`Sorter.forall_take_sorted_iff`).
-/

namespace Sorting

variable {A : Type*} {r : A → A → Prop}

/-- Two elements of a strictly sorted list that precede each other are one. -/
theorem eq_of_mem_of_pairwise {l : List A} (hl : l.Pairwise fun a b => r a b ∧ ¬r b a) {a b : A}
    (ha : a ∈ l) (hb : b ∈ l) (hab : r a b) (hba : r b a) : a = b := by
  have hsymm : Std.Symm fun a b => ¬(r a b ∧ r b a) := ⟨fun _ _ h h' => h h'.symm⟩
  have hstrict : l.Pairwise fun a b => ¬(r a b ∧ r b a) := hl.imp fun h h' => h.2 h'.2
  by_contra hne
  exact hstrict.forall ha hb hne ⟨hab, hba⟩

/-- A sorted list of some elements of a strictly sorted list has them in the order of that. -/
theorem eq_filter_of_pairwise [DecidableEq A] {l m : List A}
    (hl : l.Pairwise fun a b => r a b ∧ ¬r b a) (hm : m.Pairwise r) (hn : m.Nodup)
    (hsub : m ⊆ l) : m = l.filter (· ∈ m) := by
  have hstrict : ∀ {a b : A}, r a b ∧ ¬r b a → a ≠ b := by
    rintro a b ⟨hab, hba⟩ rfl
    exact hba hab
  have hln : l.Nodup := hl.imp hstrict
  have hperm : m.Perm (l.filter (· ∈ m)) := by
    refine (List.perm_ext_iff_of_nodup hn (hln.filter _)).mpr fun a => ?_
    simpa using fun ha => hsub ha
  refine List.Perm.eq_of_pairwise (fun a b ha hb => ?_) hm
    ((hl.imp And.left).sublist List.filter_sublist) hperm
  exact eq_of_mem_of_pairwise hl (hsub ha) (List.mem_of_mem_filter hb)

/-- The elements with a property come first exactly if they stand at the indices below their
number. -/
theorem pairwise_imp_iff_lt_countP (p : A → Bool) (l : List A) :
    (l.Pairwise fun a b => p b → p a) ↔
      ∀ (j : ℕ) (hj : j < l.length), p l[j] → j < l.countP p := by
  constructor
  · intro h j hj hp
    have hall : ∀ a ∈ l.take (j + 1), p a := by
      intro a ha
      obtain ⟨i, hi, rfl⟩ := List.mem_take_iff_getElem.mp ha
      rcases Nat.lt_or_ge i j with hij | hij
      · exact List.pairwise_iff_getElem.mp h i j _ hj hij hp
      · obtain rfl : i = j := by omega
        exact hp
    have hcount : (l.take (j + 1)).countP p = j + 1 := by
      rw [List.countP_eq_length.mpr hall, List.length_take]
      omega
    have hle := (List.take_sublist (j + 1) l).countP_le (p := p)
    omega
  · -- From the end : if the last element has the property, all do.
    induction l using List.reverseRecOn with
    | nil => simp
    | append_singleton l b ih =>
      intro h
      have hlast := h l.length (by simp)
      rw [List.countP_append, List.getElem_concat_length rfl] at hlast
      cases hb : p b with
      | true =>
        have hle := List.countP_le_length (p := p) (l := l)
        have hlength : l.countP p = l.length := by
          have hlt := hlast hb
          simp only [List.countP_singleton, hb, if_true] at hlt
          omega
        have hall := List.countP_eq_length.mp hlength
        refine List.pairwise_append.mpr ⟨?_, List.pairwise_singleton _ _,
          fun a ha _ _ _ => hall a ha⟩
        exact List.pairwise_of_forall_mem_list fun a ha _ _ _ => hall a ha
      | false =>
        refine List.pairwise_append.mpr ⟨ih fun j hj hp => ?_, List.pairwise_singleton _ _, ?_⟩
        · have hlt := h j (by simp; omega)
          rw [List.getElem_append_left hj, List.countP_append] at hlt
          simpa [hb] using hlt hp
        · intro a _ b' hb' hp
          obtain rfl := List.mem_singleton.mp hb'
          simp [hb] at hp

/-- Where the elements with a property come first, they are those at the indices below their
number. -/
theorem getElem_iff_lt_countP {p : A → Bool} {l : List A} (h : l.Pairwise fun a b => p b → p a)
    {j : ℕ} (hj : j < l.length) : p l[j] ↔ j < l.countP p := by
  refine ⟨(pairwise_imp_iff_lt_countP p l).mp h j hj, fun hlt => ?_⟩
  by_contra hp
  have hnone : ∀ b ∈ l.drop j, ¬p b := by
    intro b hb hpb
    obtain ⟨i, hi, rfl⟩ := List.mem_iff_getElem.mp hb
    rw [List.getElem_drop] at hpb
    rcases Nat.eq_zero_or_pos i with rfl | hpos
    · exact hp hpb
    · exact hp (List.pairwise_iff_getElem.mp h j (j + i) hj _ (by omega) hpb)
  have hcount : l.countP p = (l.take j).countP p + (l.drop j).countP p := by
    rw [← List.countP_append, List.take_append_drop]
  rw [List.countP_eq_zero.mpr hnone] at hcount
  have hle := (l.take j).countP_le_length (p := p)
  have hlength := List.length_take_le j l
  omega

/-- How many elements of a list are at most `c` tells where they end in the sorted list. -/
theorem getElem_insertionSort_le_iff [LinearOrder A] {l : List A} {j : ℕ}
    (hj : j < (l.insertionSort (· ≤ ·)).length) (c : A) :
    (l.insertionSort (· ≤ ·))[j] ≤ c ↔ j < l.countP (· ≤ c) := by
  have hsorted := List.pairwise_insertionSort (· ≤ ·) l
  have hiff := getElem_iff_lt_countP (p := (· ≤ c))
    (hsorted.imp fun hab hb => decide_eq_true (hab.trans (of_decide_eq_true hb))) hj
  rwa [(List.perm_insertionSort (· ≤ ·) l).countP_eq, decide_eq_true_eq] at hiff

/-! ## Sorting by a comparator -/

/-- A comparator orders the elements of a list : some may be as good as others, but those are all
alike to the rest. -/
structure StrictWeak (lt : A → A → Bool) (l : List A) : Prop where
  irrefl : ∀ a ∈ l, ¬lt a a
  trans : ∀ a ∈ l, ∀ b ∈ l, ∀ c ∈ l, lt a b → lt b c → lt a c
  incomp : ∀ a ∈ l, ∀ b ∈ l, ∀ c ∈ l, ¬lt b a → ¬lt c b → ¬lt c a

/-- A comparison by key is a strict weak order. -/
theorem StrictWeak.of_key {K : Type*} [LinearOrder K] {key : A → K} {lt : A → A → Bool}
    {l : List A} (h : ∀ a ∈ l, ∀ b ∈ l, lt a b ↔ key a < key b) : StrictWeak lt l where
  irrefl a ha := by
    rw [h a ha a ha]
    exact lt_irrefl _
  trans a ha b hb c hc := by
    rw [h a ha b hb, h b hb c hc, h a ha c hc]
    exact lt_trans
  incomp a ha b hb c hc := by
    rw [h b hb a ha, h c hc b hb, h c hc a ha, not_lt, not_lt, not_lt]
    exact le_trans

theorem StrictWeak.of_subset {lt : A → A → Bool} {l m : List A} (h : StrictWeak lt l)
    (hsub : m ⊆ l) : StrictWeak lt m where
  irrefl a ha := h.irrefl a (hsub ha)
  trans a ha b hb c hc := h.trans a (hsub ha) b (hsub hb) c (hsub hc)
  incomp a ha b hb c hc := h.incomp a (hsub ha) b (hsub hb) c (hsub hc)

/-- A sort that is a function of its input. -/
structure Sorter where
  sorted : ∀ {A : Type}, (A → A → Bool) → List A → List A
  perm : ∀ {A : Type} {lt : A → A → Bool} {l : List A}, StrictWeak lt l → (sorted lt l).Perm l
  pairwise : ∀ {A : Type} {lt : A → A → Bool} {l : List A}, StrictWeak lt l →
    (sorted lt l).Pairwise fun a b => ¬lt b a

namespace Sorter

variable {A : Type} {lt : A → A → Bool} {l m : List A}

/-- The insertion sort leaves no pair in the wrong order. -/
theorem pairwise_insertionSort (h : StrictWeak lt l) :
    (l.insertionSort fun a b => ¬lt b a).Pairwise fun a b => ¬lt b a := by
  -- on the elements of the list the comparator is total and transitive
  let r : {a // a ∈ l} → {a // a ∈ l} → Prop := fun a b => ¬lt b.1 a.1
  have htotal : Std.Total r := by
    refine ⟨fun a b => ?_⟩
    by_cases hab : lt b.1 a.1
    · exact Or.inr fun hba => h.irrefl a.1 a.2 (h.trans a.1 a.2 b.1 b.2 a.1 a.2 hba hab)
    · exact Or.inl hab
  have htrans : IsTrans {a // a ∈ l} r :=
    ⟨fun a b c hab hbc => h.incomp a.1 a.2 b.1 b.2 c.1 c.2 hab hbc⟩
  have hattach := List.pairwise_insertionSort r l.attach
  have hmap := List.map_insertionSort (r := r) (s := fun a b => ¬lt b a) Subtype.val l.attach
    fun a _ b _ => Iff.rfl
  rw [List.attach_map_subtype_val] at hmap
  rw [← hmap, List.pairwise_map]
  exact hattach

/-- Insertion sort, which is stable. -/
def insertion : Sorter where
  sorted lt l := l.insertionSort fun a b => ¬lt b a
  perm _ := List.perm_insertionSort _ _
  pairwise := pairwise_insertionSort

/-- Where the keys tell the elements apart, every sort yields the same list. -/
theorem sorted_eq_sorted {K : Type*} [LinearOrder K] {key : A → K} (s s' : Sorter)
    (hlt : ∀ a ∈ l, ∀ b ∈ l, lt a b ↔ key a < key b)
    (hkey : ∀ a ∈ l, ∀ b ∈ l, key a = key b → a = b) (h : l.Perm m) :
    s.sorted lt l = s'.sorted lt m := by
  have hl := StrictWeak.of_key hlt
  have hm : StrictWeak lt m :=
    StrictWeak.of_key fun a ha b hb => hlt a (h.mem_iff.mpr ha) b (h.mem_iff.mpr hb)
  refine List.Perm.eq_of_pairwise (fun a b ha hb hab hba => ?_) (s.pairwise hl) (s'.pairwise hm)
    ((s.perm hl).trans (h.trans (s'.perm hm).symm))
  have ha' := (s.perm hl).mem_iff.mp ha
  have hb' := h.mem_iff.mpr ((s'.perm hm).mem_iff.mp hb)
  rw [hlt b hb' a ha', not_lt] at hab
  rw [hlt a ha' b hb', not_lt] at hba
  exact hkey a ha' b hb' (le_antisymm hab hba)

/-- Insertion sort of the reversed list, which has the last of equals first. -/
def insertionReversed : Sorter where
  sorted lt l := l.reverse.insertionSort fun a b => ¬lt b a
  perm _ := (List.perm_insertionSort _ _).trans (List.reverse_perm _)
  pairwise h := pairwise_insertionSort (h.of_subset fun _ => List.mem_reverse.mp)

/-- Of two elements of a list that a comparator leaves open, some sorter has the first one first. -/
theorem exists_sublist_sorted {a b : A} (ha : a ∈ l) (hb : b ∈ l) (hne : a ≠ b) (h : ¬lt b a) :
    ∃ s : Sorter, [a, b].Sublist (s.sorted lt l) := by
  have hpair : [a, b].Pairwise fun a b => ¬lt b a := List.pairwise_pair.mpr h
  have hor : [a, b].Sublist l ∨ [a, b].Sublist l.reverse := by
    obtain ⟨l₁, l₂, rfl⟩ := List.append_of_mem ha
    rcases List.mem_append.mp hb with hb | hb
    · have hsub : ([b] ++ [a]).Sublist (l₁ ++ a :: l₂) := List.Sublist.append
        (List.singleton_sublist.mpr hb) (List.singleton_sublist.mpr List.mem_cons_self)
      exact Or.inr hsub.reverse
    · have hb' := (List.mem_cons.mp hb).resolve_left hne.symm
      exact Or.inl (((List.singleton_sublist.mpr hb').cons_cons a).trans
        (List.sublist_append_right _ _))
  rcases hor with hsub | hsub
  · exact ⟨insertion, List.sublist_insertionSort hpair hsub⟩
  · exact ⟨insertionReversed, List.sublist_insertionSort hpair hsub⟩

section Take

variable {K : Type*} [LinearOrder K] {key : A → K}

/-- In a list that is sorted by distinct keys an element stands behind those with a smaller key. -/
theorem countP_key_lt (hl : l.Pairwise fun a b => key a < key b) {i : ℕ} (hi : i < l.length) :
    l.countP (fun a => key a < key l[i]) = i := by
  have hiff : ∀ j (hj : j < l.length), key l[j] < key l[i] ↔
      j < l.countP fun a => key a < key l[i] := by
    intro j hj
    rw [← getElem_iff_lt_countP (p := fun a => key a < key l[i]) (hl.imp fun hab hb =>
      decide_eq_true (hab.trans (of_decide_eq_true hb))) hj, decide_eq_true_eq]
  have hle : ¬i < l.countP fun a => key a < key l[i] := fun hlt =>
    lt_irrefl _ ((hiff i hi).mpr hlt)
  by_contra hne
  have hlt : l.countP (fun a => key a < key l[i]) < i := by omega
  exact lt_irrefl _ ((hiff _ (hlt.trans hi)).mp (List.pairwise_iff_getElem.mp hl _ i _ hi hlt))

/-- A sorted list begins with elements that precede all that come after them. -/
theorem take_eq_take_of_pairwise {n : ℕ} {c m : List A} (hperm : c.Perm m)
    (hc : c.Pairwise fun a b => ¬lt b a)
    (h : ∀ i (hi : i < m.length), i < n → ∀ b ∈ m.drop (i + 1), lt m[i] b) :
    c.take n = m.take n := by
  induction m generalizing c n with
  | nil => rw [hperm.eq_nil]
  | cons a m ih =>
    cases n with
    | zero => rfl
    | succ n =>
      obtain ⟨b, c, rfl⟩ := List.exists_cons_of_ne_nil fun hnil =>
        List.cons_ne_nil a m ((List.nil_perm.mp (hnil ▸ hperm)))
      obtain rfl : b = a := by
        by_contra hne
        have hb : b ∈ m := (List.mem_cons.mp (hperm.mem_iff.mp List.mem_cons_self)).resolve_left hne
        have ha : a ∈ c := (List.mem_cons.mp
          (hperm.mem_iff.mpr List.mem_cons_self)).resolve_left (Ne.symm hne)
        exact (List.pairwise_cons.mp hc).1 a ha (h 0 (by simp) (Nat.succ_pos n) b hb)
      rw [List.take_succ_cons, List.take_succ_cons,
        ih hperm.cons_inv (List.pairwise_cons.mp hc).2 fun i hi hin b hb =>
          h (i + 1) (Nat.succ_lt_succ hi) (Nat.succ_lt_succ hin) b hb]

/-- Whatever sorts a list by a comparator, its first elements are those of another order, exactly
if the comparator puts each of these before all that come later in that order. -/
theorem forall_take_sorted_iff (hweak : StrictWeak lt l) (hl : l.Nodup)
    (hkey : ∀ a ∈ l, ∀ b ∈ l, key a = key b → a = b) (n : ℕ) :
    (∀ s : Sorter, (s.sorted lt l).take n =
        (l.insertionSort fun a b => key a ≤ key b).take n) ↔
      ∀ a ∈ l, ∀ b ∈ l, key a < key b → l.countP (fun c => key c < key a) < n → lt a b := by
  obtain ⟨m, hm⟩ : ∃ m, m = l.insertionSort fun a b => key a ≤ key b := ⟨_, rfl⟩
  have hperm : m.Perm l := hm ▸ List.perm_insertionSort _ _
  have hsorted : m.Pairwise fun a b => key a < key b := by
    have htotal : Std.Total fun a b : A => key a ≤ key b := ⟨fun a b => le_total _ _⟩
    have htrans : IsTrans A fun a b => key a ≤ key b := ⟨fun _ _ _ => le_trans⟩
    have hle : m.Pairwise fun a b => key a ≤ key b := hm ▸ List.pairwise_insertionSort _ _
    refine (hle.and (hperm.nodup_iff.mpr hl)).imp_of_mem fun {a b} ha hb hab => ?_
    refine lt_of_le_of_ne hab.1 fun heq => hab.2 ?_
    exact hkey a (hperm.mem_iff.mp ha) b (hperm.mem_iff.mp hb) heq
  rw [← hm]
  constructor
  · intro h a ha b hb hab hn
    by_contra hlt
    obtain ⟨s, hs⟩ := exists_sublist_sorted hb ha (fun heq => hab.ne (congrArg key heq.symm)) hlt
    have hmem : a ∈ (s.sorted lt l).take n := by
      obtain ⟨i, hi, rfl⟩ := List.mem_iff_getElem.mp (hperm.mem_iff.mpr ha)
      rw [← hperm.countP_eq, countP_key_lt hsorted hi] at hn
      rw [h s]
      exact List.mem_take_iff_getElem.mpr ⟨i, by omega, rfl⟩
    -- `b` comes before `a` in what `s` sorts, so it does in `m`
    have hnodup := (s.perm hweak).nodup_iff.mpr hl
    rw [← List.take_append_drop n (s.sorted lt l)] at hs hnodup
    obtain ⟨l₁, l₂, heq, h₁, h₂⟩ := List.sublist_append_iff.mp hs
    have hnil : l₂ = [] := by
      by_contra hne
      have hlast := congrArg List.getLast? heq
      rw [List.getLast?_append_of_ne_nil _ hne] at hlast
      have ha₂ : a ∈ l₂ := List.mem_of_getLast? hlast.symm
      exact List.disjoint_of_nodup_append hnodup hmem (h₂.subset ha₂)
    rw [hnil, List.append_nil] at heq
    rw [← heq, h s] at h₁
    have hba := hsorted.sublist (h₁.trans (List.take_sublist n m))
    exact hab.not_gt ((List.pairwise_cons.mp hba).1 a List.mem_cons_self)
  · intro h s
    refine take_eq_take_of_pairwise ((s.perm hweak).trans hperm.symm) (s.pairwise hweak) ?_
    intro i hi hin b hb
    obtain ⟨j, hj, rfl⟩ := List.mem_iff_getElem.mp hb
    rw [List.getElem_drop]
    have hmem : ∀ {k} (hk : k < m.length), m[k] ∈ l := fun hk =>
      hperm.mem_iff.mp (List.getElem_mem hk)
    refine h _ (hmem hi) _ (hmem _) (List.pairwise_iff_getElem.mp hsorted i _ hi _ (by omega)) ?_
    rwa [← hperm.countP_eq, countP_key_lt hsorted hi]

end Take

end Sorter

/-- The order in which a set of the elements of a list is gone through. -/
structure SetOrder (A : Type*) where
  elements : List A → List A
  nodup : ∀ l, (elements l).Nodup
  mem : ∀ l a, a ∈ elements l ↔ a ∈ l

theorem SetOrder.perm (o o' : SetOrder A) {l m : List A} (h : ∀ a, a ∈ l ↔ a ∈ m) :
    (o.elements l).Perm (o'.elements m) := by
  refine (List.perm_ext_iff_of_nodup (o.nodup l) (o'.nodup m)).mpr fun a => ?_
  rw [o.mem, o'.mem, h]

/-- In the order of the last occurrences. -/
def SetOrder.dedup [DecidableEq A] : SetOrder A where
  elements := List.dedup
  nodup := List.nodup_dedup
  mem _ _ := List.mem_dedup

end Sorting
