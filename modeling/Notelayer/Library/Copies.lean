import Notelayer.Library.MarkedList

/-!
# Lists with copies

`copies m l` shows each element of `l` as often as `m` says. Moving an element of `l` that has one
copy moves it among the copies (`moveBefore_of_filter_eq_copies`), and with another number of
copies it does not (`append_replicate_iff`).
-/

namespace MarkedList

variable {A : Type*}

/-- Each element of the list, as often as `m` says. -/
def copies (m : A → ℕ) (l : List A) : List A :=
  l.flatMap fun x => List.replicate (m x) x

variable {m m' : A → ℕ}

@[simp] theorem copies_nil (m : A → ℕ) : copies m ([] : List A) = [] :=
  rfl

@[simp] theorem copies_cons (m : A → ℕ) (a : A) (l : List A) :
    copies m (a :: l) = List.replicate (m a) a ++ copies m l :=
  List.flatMap_cons

@[simp] theorem copies_append (m : A → ℕ) (l l' : List A) :
    copies m (l ++ l') = copies m l ++ copies m l' :=
  List.flatMap_append

theorem mem_copies {l : List A} {x : A} : x ∈ copies m l ↔ x ∈ l ∧ 0 < m x := by
  simp only [copies, List.mem_flatMap, List.mem_replicate, Nat.pos_iff_ne_zero]
  constructor
  · rintro ⟨a, ha, hm, rfl⟩
    exact ⟨ha, hm⟩
  · rintro ⟨hx, hm⟩
    exact ⟨x, hx, hm, rfl⟩

theorem copies_congr {l : List A} (h : ∀ x ∈ l, m x = m' x) : copies m l = copies m' l :=
  List.flatMap_congr fun x hx => by rw [h x hx]

theorem filter_copies (m : A → ℕ) (p : A → Bool) (l : List A) :
    (copies m l).filter p = copies m (l.filter p) := by
  induction l with
  | nil => rfl
  | cons a l ih =>
    rw [copies_cons, List.filter_append, ih, List.filter_replicate, List.filter_cons]
    split_ifs <;> simp

/-- Elements without a copy may be left out. -/
theorem copies_filter {l : List A} {p : A → Bool} (h : ∀ x ∈ l, 0 < m x → p x) :
    copies m (l.filter p) = copies m l := by
  rw [← filter_copies]
  refine List.filter_eq_self.mpr fun x hx => ?_
  obtain ⟨hmem, hpos⟩ := mem_copies.mp hx
  exact h x hmem hpos

/-- Copies of an element put between two lists of others. -/
theorem copies_insert {d : A} {l l' : List A} (hl : d ∉ l) (hl' : d ∉ l')
    (h : ∀ x ≠ d, m' x = m x) :
    copies m' (l ++ d :: l') = copies m l ++ (List.replicate (m' d) d ++ copies m l') := by
  have hcongr : ∀ {k : List A}, d ∉ k → copies m' k = copies m k := fun hk =>
    copies_congr fun x hx => h x fun heq => hk (heq ▸ hx)
  rw [copies_append, copies_cons, hcongr hl, hcongr hl']

/-- Copies of an element stand in for the element exactly if there is one. -/
theorem append_replicate_iff (d : A) (n : ℕ) (l l' : List A) :
    l ++ (List.replicate n d ++ l') = l ++ d :: l' ↔ n = 1 := by
  constructor
  · intro h
    have hlength := congrArg List.length h
    simp only [List.length_append, List.length_replicate, List.length_cons] at hlength
    omega
  · rintro rfl
    rfl

/-- Copies at the front are those of a list exactly if it begins with them. -/
theorem replicate_append_filter_iff {d : A} {n k : ℕ} {l l' : List A} (hk : 0 < k) (hl : d ∉ l) :
    List.replicate n d ++ (l ++ l') = l ++ (List.replicate k d ++ l') ↔
      n = k ∧ (l ++ (List.replicate k d ++ l')).head? = some d := by
  constructor
  · intro h
    have hlength := congrArg List.length h
    simp only [List.length_append, List.length_replicate] at hlength
    obtain rfl : n = k := by omega
    refine ⟨rfl, ?_⟩
    rw [← h]
    obtain ⟨j, rfl⟩ := Nat.exists_eq_succ_of_ne_zero (Nat.ne_of_gt hk)
    rfl
  · rintro ⟨rfl, hhead⟩
    cases l with
    | nil => rfl
    | cons a l => exact absurd (Option.some_inj.mp hhead ▸ List.mem_cons_self) hl

/-- The copies may go to the end only where nothing comes after them. -/
theorem append_replicate_filter_iff {d : A} {n k : ℕ} {l l' : List A} (hk : 0 < k) (hl' : d ∉ l') :
    l ++ l' ++ List.replicate n d = l ++ (List.replicate k d ++ l') ↔
      n = k ∧ (l ++ (List.replicate k d ++ l')).getLast? = some d := by
  obtain ⟨j, rfl⟩ := Nat.exists_eq_succ_of_ne_zero (Nat.ne_of_gt hk)
  constructor
  · intro h
    have hlength := congrArg List.length h
    simp only [List.length_append, List.length_replicate] at hlength
    obtain rfl : n = j + 1 := by omega
    refine ⟨rfl, ?_⟩
    rw [← h, List.replicate_succ', ← List.append_assoc, List.getLast?_concat]
  · rintro ⟨rfl, hlast⟩
    rcases List.eq_nil_or_concat l' with rfl | ⟨l'', a, rfl⟩
    · simp
    · rw [List.concat_eq_append] at hlast hl'
      rw [← List.append_assoc, ← List.append_assoc, List.getLast?_concat] at hlast
      have hmem := List.mem_append_right l'' (List.mem_singleton_self a)
      exact absurd (Option.some_inj.mp hlast ▸ hmem) hl'

variable [DecidableEq A]

/-- The elements before `t`, each with its copies. -/
theorem takeWhile_copies {t : A} {l : List A} (ht : 0 < m t) :
    (copies m l).takeWhile (· ≠ t) = copies m (l.takeWhile (· ≠ t)) := by
  induction l with
  | nil => rfl
  | cons a l ih =>
    rw [copies_cons]
    by_cases h : a = t
    · subst h
      obtain ⟨k, hk⟩ := Nat.exists_eq_succ_of_ne_zero (Nat.ne_of_gt ht)
      simp [hk, List.replicate_succ]
    · rw [List.takeWhile_append_of_pos (by simp [h]), ih, List.takeWhile_cons_of_pos (by simpa),
        copies_cons]

/-- The elements from `t` on, each with its copies. -/
theorem dropWhile_copies {t : A} {l : List A} (ht : 0 < m t) :
    (copies m l).dropWhile (· ≠ t) = copies m (l.dropWhile (· ≠ t)) := by
  induction l with
  | nil => rfl
  | cons a l ih =>
    rw [copies_cons]
    by_cases h : a = t
    · subst h
      obtain ⟨k, hk⟩ := Nat.exists_eq_succ_of_ne_zero (Nat.ne_of_gt ht)
      simp [hk, List.replicate_succ]
    · rw [List.dropWhile_append_of_pos (by simp [h]), ih, List.dropWhile_cons_of_pos (by simpa)]

/-- Moving an element before another one that has copies. -/
theorem moveBefore_of_filter_eq_copies {d t : A} {l r : List A}
    (h : l.filter (· ≠ d) = copies m r) (ht : 0 < m t) : moveBefore d (some t) l =
      copies m (r.takeWhile (· ≠ t)) ++ d :: copies m (r.dropWhile (· ≠ t)) := by
  unfold moveBefore
  dsimp only
  rw [h, takeWhile_copies ht, dropWhile_copies ht]

end MarkedList
