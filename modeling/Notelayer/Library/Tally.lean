import Mathlib.Algebra.BigOperators.Group.List.Basic
import Mathlib.Algebra.Order.BigOperators.Group.List
import Mathlib.Tactic.Abel
import Notelayer.Library.KeyedList

/-!
# Tallies

A tally stands for a list of events : records with distinct keys, where an event bumps the
record with its key or starts one (`Tally.add`). A weight that a bump raises by the weight of
the event has the same total over the tally as over the events (`Tally.sum_foldl_add`).

A dictionary of sums is filled in a loop and read at one key (`Tally.foldl_apply`). The order of
the loop is of no account (`Tally.Adds.foldl_eq`), nor for whether sums that only grow stay in
range (`Tally.isSome_foldlM_checkedAdd_iff`).
-/

namespace Tally

open KeyedList

variable {K A E M : Type*} [DecidableEq K] {key : A → K} {l : List A}

/-! ## Sums over keyed lists -/

/-- Replacing a record changes a sum by the new weight minus the old one. -/
theorem sum_upsert [AddCommMonoid M] (f : A → M) (hl : DistinctKeys key l) {a b : A}
    (hb : lookup key l (key a) = some b) :
    ((upsert key l a).map f).sum + f b = (l.map f).sum + f a := by
  have hkey : key b = key a := key_of_lookup hb
  have hany : l.any (fun c => key c = key a) = true :=
    List.any_eq_true.mpr ⟨b, mem_of_lookup hb, by simpa using hkey⟩
  obtain ⟨l₁, l₂, rfl⟩ := List.append_of_mem (mem_of_lookup hb)
  have hd : (l₁.map key ++ key b :: l₂.map key).Nodup := by
    simpa [DistinctKeys] using hl
  obtain ⟨-, hd₂, hdisjoint⟩ := List.nodup_append.mp hd
  have hkeep : ∀ m : List A, (∀ c ∈ m, key c ≠ key a) →
      m.map (fun c => if key c = key a then a else c) = m :=
    fun m hm => (List.map_congr_left fun c hc => if_neg (hm c hc)).trans (List.map_id m)
  have h₁ : ∀ c ∈ l₁, key c ≠ key a := fun c hc => hkey ▸
    hdisjoint _ (List.mem_map_of_mem hc) _ List.mem_cons_self
  have h₂ : ∀ c ∈ l₂, key c ≠ key a := fun c hc heq =>
    (List.nodup_cons.mp hd₂).1 (hkey ▸ heq ▸ List.mem_map_of_mem hc)
  have hupsert : upsert key (l₁ ++ b :: l₂) a = l₁ ++ a :: l₂ := by
    rw [upsert, if_pos hany, List.map_append, List.map_cons, hkeep l₁ h₁, hkeep l₂ h₂, if_pos hkey]
  rw [hupsert]
  simp only [List.map_append, List.map_cons, List.sum_append, List.sum_cons]
  abel

/-- A record with a new key is appended. -/
theorem upsert_of_lookup_eq_none {a : A} (h : lookup key l (key a) = none) :
    upsert key l a = l ++ [a] := by
  refine if_neg fun hany => ?_
  obtain ⟨b, hb, hkey⟩ := List.any_eq_true.mp hany
  exact lookup_eq_none_iff.mp h b hb (by simpa using hkey)

/-- Records with distinct keys are a tally as they are. -/
theorem foldl_upsert_nil (hl : DistinctKeys key l) : l.foldl (upsert key) [] = l := by
  have hfold : ∀ m : List A, DistinctKeys key (m ++ l) → l.foldl (upsert key) m = m ++ l := by
    clear hl
    induction l with
    | nil => simp
    | cons a l ih =>
      intro m hm
      have hmem : key a ∉ m.map key := by
        intro hmem
        rw [DistinctKeys, List.map_append, List.map_cons] at hm
        exact (List.nodup_append.mp hm).2.2 _ hmem _ List.mem_cons_self rfl
      rw [List.foldl_cons, upsert_of_lookup_eq_none (lookup_eq_none_iff_notMem.mpr hmem),
        ih (m ++ [a]) (by simpa using hm)]
      simp
  exact hfold [] hl

/-! ## Adding events -/

section Add

variable (key) (bump : A → A) (single : E → A)

/-- Bump the record with the key of the event, or start one. -/
def add (l : List A) (e : E) : List A :=
  match lookup key l (key (single e)) with
  | some a => upsert key l (bump a)
  | none => upsert key l (single e)

end Add

variable {bump : A → A} {single : E → A}

theorem distinctKeys_add (hl : DistinctKeys key l) (e : E) :
    DistinctKeys key (add key bump single l e) := by
  unfold add
  split
  · exact hl.upsert _
  · exact hl.upsert _

/-- What every new record has and a bump keeps, every record has. -/
theorem forall_mem_add {P : A → Prop} (hbump : ∀ a, P a → P (bump a)) {e : E}
    (he : P (single e)) (hl : ∀ a ∈ l, P a) : ∀ a ∈ add key bump single l e, P a := by
  unfold add
  split
  · rename_i b hb
    exact forall_mem_upsert hl (hbump b (hl b (mem_of_lookup hb)))
  · exact forall_mem_upsert hl he

/-- An addition adds its amount to the sum. -/
theorem sum_add [AddCancelCommMonoid M] (f : A → M) (hkey : ∀ a, key (bump a) = key a)
    (hl : DistinctKeys key l) {e : E}
    (hf : ∀ a ∈ l, key a = key (single e) → f (bump a) = f a + f (single e)) :
    ((add key bump single l e).map f).sum = (l.map f).sum + f (single e) := by
  unfold add
  split
  · rename_i a ha
    have hmem := mem_of_lookup ha
    have hsum := sum_upsert f hl (a := bump a) (b := a)
      (by rw [hkey]; exact lookup_of_mem hl hmem)
    rw [hf a hmem (key_of_lookup ha), ← add_assoc, add_right_comm] at hsum
    exact add_right_cancel hsum
  · rename_i hnone
    rw [upsert_of_lookup_eq_none hnone, List.map_append, List.sum_append, List.map_singleton,
      List.sum_singleton]

/-- The tally weighs as much as the events that were added to it. -/
theorem sum_foldl_add [AddCancelCommMonoid M] {P : A → Prop} (f : A → M)
    (hkey : ∀ a, key (bump a) = key a) (hbump : ∀ a, P a → P (bump a)) {es : List E}
    (hes : ∀ e ∈ es, P (single e))
    (hf : ∀ e ∈ es, ∀ a, P a → key a = key (single e) → f (bump a) = f a + f (single e))
    (hl : DistinctKeys key l) (hP : ∀ a ∈ l, P a) :
    DistinctKeys key (es.foldl (add key bump single) l) ∧
      (∀ a ∈ es.foldl (add key bump single) l, P a) ∧
      ((es.foldl (add key bump single) l).map f).sum =
        (l.map f).sum + (es.map fun e => f (single e)).sum := by
  induction es generalizing l with
  | nil => exact ⟨hl, hP, by simp⟩
  | cons e es ih =>
    have hsum := sum_add f hkey hl fun a ha => hf e List.mem_cons_self a (hP a ha)
    obtain ⟨hd, hall, htotal⟩ := ih (fun e' he' => hes e' (List.mem_cons_of_mem e he'))
      (fun e' he' => hf e' (List.mem_cons_of_mem e he')) (distinctKeys_add hl e)
      (forall_mem_add hbump (hes e List.mem_cons_self) hP)
    refine ⟨hd, hall, htotal.trans ?_⟩
    rw [hsum, List.map_cons, List.sum_cons, add_assoc]

/-! ## Dictionaries of sums -/

omit [DecidableEq K] in
/-- A loop that adds to the entries of a dictionary, read at one key. -/
theorem foldl_apply [AddMonoid M] {f : (K → M) → A → K → M} {g : A → K → M}
    (h : ∀ d a k, f d a k = d k + g a k) (l : List A) (d : K → M) (k : K) :
    l.foldl f d k = d k + (l.map fun a => g a k).sum := by
  induction l generalizing d with
  | nil => simp
  | cons a l ih => rw [List.foldl_cons, ih, h, List.map_cons, List.sum_cons, add_assoc]

omit [DecidableEq K] in
theorem sum_map_ite_one [AddCommMonoidWithOne M] (p : A → Prop) [DecidablePred p] (l : List A) :
    (l.map fun a => if p a then (1 : M) else 0).sum = (l.countP fun a => p a : ℕ) := by
  induction l with
  | nil => simp
  | cons a l ih =>
    by_cases ha : p a
    · simp [ih, ha, add_comm]
    · simp [ih, ha]

omit [DecidableEq K] in
/-- Pairs are counted by their first or by their second parts. -/
theorem sum_map_countP_comm (R : A → E → Bool) (l : List A) (m : List E) :
    (l.map fun a => m.countP (R a)).sum = (m.map fun e => l.countP fun a => R a e).sum := by
  induction m with
  | nil => simp
  | cons e m ih =>
    simp only [List.countP_cons, List.map_cons, List.sum_cons, List.sum_map_add, ih,
      sum_map_ite_one, Nat.cast_id, Bool.decide_eq_true]
    exact add_comm _ _

/-! ## Loops in any order -/

/-- A loop body that adds to every entry an amount that depends on the element. -/
def Adds [Add M] (f : (K → M) → A → K → M) : Prop :=
  ∃ g : A → K → M, ∀ d a k, f d a k = d k + g a k

omit [DecidableEq K] in
theorem Adds.foldl_eq [AddCommMonoid M] {f : (K → M) → A → K → M} (h : Adds f) {m : List A}
    (hp : l.Perm m) (d : K → M) : l.foldl f d = m.foldl f d := by
  obtain ⟨g, hg⟩ := h
  ext k
  rw [foldl_apply hg, foldl_apply hg, (hp.map fun a => g a k).sum_eq]

omit [DecidableEq K] in
theorem Adds.ite [AddZeroClass M] {f : (K → M) → A → K → M} (h : Adds f) (p : A → Prop)
    [DecidablePred p] : Adds fun d a => if p a then f d a else d := by
  obtain ⟨g, hg⟩ := h
  refine ⟨fun a k => if p a then g a k else 0, fun d a k => ?_⟩
  by_cases hp : p a <;> simp [hp, hg]

omit [DecidableEq K] in
theorem Adds.ite_not [AddZeroClass M] {f : (K → M) → A → K → M} (h : Adds f) (p : A → Prop)
    [DecidablePred p] : Adds fun d a => if p a then d else f d a := by
  obtain ⟨g, hg⟩ := h
  refine ⟨fun a k => if p a then 0 else g a k, fun d a k => ?_⟩
  by_cases hp : p a <;> simp [hp, hg]

omit [DecidableEq K] in
theorem Adds.comp [Add M] {f : (K → M) → A → K → M} (h : Adds f) (g : E → A) :
    Adds fun d e => f d (g e) := by
  obtain ⟨g', hg'⟩ := h
  exact ⟨fun e => g' (g e), fun d e => hg' d (g e)⟩

/-! ## Sums in a range -/

/-- Add to an entry, within a range. -/
def checkedAdd [Add M] (inRange : M → Prop) [DecidablePred inRange] (d : K → M) (a : K × M) :
    Option (K → M) :=
  if inRange (d a.1 + a.2) then some (Function.update d a.1 (d a.1 + a.2)) else none

/-- What a list adds to an entry. -/
def total [AddZeroClass M] (l : List (K × M)) (k : K) : M :=
  (l.map fun a => if k = a.1 then a.2 else 0).sum

theorem total_perm [AddCommMonoid M] {l m : List (K × M)} (h : l.Perm m) (k : K) :
    total l k = total m k :=
  (h.map _).sum_eq

/-- Entries that only grow stay in range exactly if they end in range. -/
theorem isSome_foldlM_checkedAdd_iff [AddCommMonoid M] [PartialOrder M] [IsOrderedAddMonoid M]
    {inRange : M → Prop} [DecidablePred inRange]
    (hrange : ∀ x y : M, 0 ≤ x → x ≤ y → inRange y → inRange x) {l : List (K × M)} {d : K → M}
    (hd : ∀ k, 0 ≤ d k) (hl : ∀ a ∈ l, 0 ≤ a.2) :
    (l.foldlM (checkedAdd inRange) d).isSome ↔ ∀ a ∈ l, inRange (d a.1 + total l a.1) := by
  induction l generalizing d with
  | nil => simp
  | cons a l ih =>
    have hla : ∀ b ∈ l, 0 ≤ b.2 := fun b hb => hl b (List.mem_cons_of_mem a hb)
    have htotal : ∀ k, 0 ≤ total l k := by
      intro k
      refine List.sum_nonneg fun x hx => ?_
      obtain ⟨b, hb, rfl⟩ := List.mem_map.mp hx
      split_ifs
      · exact hla b hb
      · exact le_rfl
    have ha : 0 ≤ d a.1 + a.2 := add_nonneg (hd a.1) (hl a List.mem_cons_self)
    have hself : total (a :: l) a.1 = a.2 + total l a.1 := by simp [total]
    have hle : d a.1 + a.2 ≤ d a.1 + total (a :: l) a.1 := by
      rw [hself, ← add_assoc]
      exact le_add_of_nonneg_right (htotal a.1)
    rw [List.foldlM_cons]
    by_cases hin : inRange (d a.1 + a.2)
    · have hupdate : ∀ k, 0 ≤ Function.update d a.1 (d a.1 + a.2) k := by
        intro k
        by_cases hk : k = a.1
        · rwa [hk, Function.update_self]
        · rw [Function.update_of_ne hk]
          exact hd k
      have hentry : ∀ k, Function.update d a.1 (d a.1 + a.2) k + total l k =
          d k + total (a :: l) k := by
        intro k
        by_cases hk : k = a.1
        · rw [hk, Function.update_self, hself, add_assoc]
        · rw [Function.update_of_ne hk]
          simp [total, hk]
      rw [checkedAdd, if_pos hin, Option.bind_eq_bind, Option.bind_some, ih hupdate hla]
      simp only [hentry]
      rw [List.forall_mem_cons]
      refine ⟨fun h => ⟨?_, h⟩, And.right⟩
      -- the first entry is in range as it is, or is added to again
      by_cases hmem : ∃ b ∈ l, b.1 = a.1
      · obtain ⟨b, hb, hba⟩ := hmem
        rw [← hba]
        exact h b hb
      · have hzero : total l a.1 = 0 := by
          refine List.sum_eq_zero fun x hx => ?_
          obtain ⟨b, hb, rfl⟩ := List.mem_map.mp hx
          exact if_neg fun heq => hmem ⟨b, hb, heq.symm⟩
        rwa [hself, hzero, add_zero]
    · rw [checkedAdd, if_neg hin]
      refine iff_of_false Bool.false_ne_true fun h => hin ?_
      exact hrange _ _ ha hle (h a List.mem_cons_self)

end Tally
