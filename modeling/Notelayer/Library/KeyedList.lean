import Mathlib.Data.List.Nodup
import Mathlib.Data.List.Basic
import Mathlib.Data.List.Lookmap

/-!
# Lists of records with a key

A list of records stands for a finite map from keys to records : `lookup key l k` is
the first record with key `k`. With distinct keys (`DistinctKeys`) it is the only one,
and replacing an element at its index, appending, removing by key, mapping and
permuting are updates of the map (`lookup_set`, `lookup_append`, `lookup_remove`,
`lookup_map`, `lookup_perm`). `upsert` replaces the record with the same key or
appends.
-/

set_option linter.unusedSectionVars false

namespace KeyedList

variable {K A : Type*} [DecidableEq K] (key : A → K)

/-- The first record with key `k`. -/
def lookup (l : List A) (k : K) : Option A :=
  l.find? fun a => key a = k

/-- No two records of the list have the same key. -/
def DistinctKeys (l : List A) : Prop :=
  (l.map key).Nodup

instance (l : List A) : Decidable (DistinctKeys key l) :=
  inferInstanceAs (Decidable (l.map key).Nodup)

/-- The records with a key other than `k`. -/
def remove (l : List A) (k : K) : List A :=
  l.filter fun a => key a ≠ k

/-- Replace the record with the key of `a`, or append `a`. -/
def upsert (l : List A) (a : A) : List A :=
  if l.any fun b => key b = key a then l.map fun b => if key b = key a then a else b
  else l ++ [a]

variable {key}

theorem key_of_lookup {l : List A} {k : K} {a : A} (h : lookup key l k = some a) : key a = k := by
  simpa using List.find?_some h

theorem mem_of_lookup {l : List A} {k : K} {a : A} (h : lookup key l k = some a) : a ∈ l :=
  List.mem_of_find?_eq_some h

theorem lookup_eq_none_iff {l : List A} {k : K} : lookup key l k = none ↔ ∀ a ∈ l, key a ≠ k := by
  simp [lookup]

theorem lookup_eq_none_iff_notMem {l : List A} {k : K} :
    lookup key l k = none ↔ k ∉ l.map key := by
  simp [lookup_eq_none_iff]

/-- With distinct keys the lookup finds every record of the list. -/
theorem lookup_eq_some_iff {l : List A} (hl : DistinctKeys key l) {k : K} {a : A} :
    lookup key l k = some a ↔ a ∈ l ∧ key a = k := by
  constructor
  · exact fun h => ⟨mem_of_lookup h, key_of_lookup h⟩
  · rintro ⟨ha, rfl⟩
    cases hb : lookup key l (key a) with
    | none => exact absurd rfl (lookup_eq_none_iff.mp hb a ha)
    | some b =>
      exact congrArg some (List.inj_on_of_nodup_map hl (mem_of_lookup hb) ha (key_of_lookup hb))

theorem lookup_of_mem {l : List A} (hl : DistinctKeys key l) {a : A} (ha : a ∈ l) :
    lookup key l (key a) = some a :=
  (lookup_eq_some_iff hl).mpr ⟨ha, rfl⟩

/-! ## Appending and removing -/

theorem lookup_append (l m : List A) (k : K) :
    lookup key (l ++ m) k = (lookup key l k).or (lookup key m k) :=
  List.find?_append

/-- Appending a record with a new key adds it to the map. -/
theorem lookup_append_singleton {l : List A} {a : A} (ha : key a ∉ l.map key) (k : K) :
    lookup key (l ++ [a]) k = if k = key a then some a else lookup key l k := by
  rw [lookup_append]
  split_ifs with hk
  · subst hk
    rw [lookup_eq_none_iff_notMem.mpr ha]
    simp [lookup]
  · have : lookup key [a] k = none := lookup_eq_none_iff.mpr (by simpa using Ne.symm hk)
    rw [this, Option.or_none]

theorem DistinctKeys.append_singleton {l : List A} (hl : DistinctKeys key l) {a : A}
    (ha : key a ∉ l.map key) : DistinctKeys key (l ++ [a]) := by
  unfold DistinctKeys at *
  rw [List.map_append, List.nodup_append]
  refine ⟨hl, by simp, ?_⟩
  rintro x hx y hy rfl
  obtain rfl : x = key a := by simpa using hy
  exact ha hx

/-- A lookup after a removal. -/
theorem lookup_remove (l : List A) (x k : K) :
    lookup key (remove key l x) k = if k = x then none else lookup key l k := by
  split_ifs with hk
  · subst hk
    exact lookup_eq_none_iff.mpr fun a ha => by simpa [remove] using (List.mem_filter.mp ha).2
  · unfold lookup remove
    rw [List.find?_filter]
    congr 1
    funext a
    by_cases ha : key a = k
    · simp [ha, hk]
    · simp [ha]

theorem map_key_remove (l : List A) (k : K) :
    (remove key l k).map key = (l.map key).filter (· ≠ k) := by
  rw [List.filter_map]
  rfl

theorem DistinctKeys.sublist {l m : List A} (hl : DistinctKeys key l) (h : m.Sublist l) :
    DistinctKeys key m :=
  List.Nodup.sublist (h.map key) hl

theorem DistinctKeys.remove {l : List A} (hl : DistinctKeys key l) (k : K) :
    DistinctKeys key (remove key l k) :=
  hl.sublist List.filter_sublist

/-! ## Replacing in place -/

/-- Replacing a record leaves the others in the list. -/
theorem mem_set_of_ne {l : List A} {i : ℕ} {a b : A} (hi : l[i]? = some a) (hb : b ∈ l)
    (hne : b ≠ a) (v : A) : b ∈ l.set i v := by
  obtain ⟨j, hj⟩ := List.mem_iff_getElem?.mp hb
  have hij : i ≠ j := by
    rintro rfl
    exact hne (Option.some_inj.mp (hj.symm.trans hi))
  exact List.mem_iff_getElem?.mpr ⟨j, by rw [List.getElem?_set_ne hij, hj]⟩

theorem mem_eraseIdx_of_ne {l : List A} {i : ℕ} {a b : A} (hi : l[i]? = some a) (hb : b ∈ l)
    (hne : b ≠ a) : b ∈ l.eraseIdx i := by
  obtain ⟨j, hj⟩ := List.mem_iff_getElem?.mp hb
  refine List.mem_eraseIdx_iff_getElem?.mpr ⟨j, ?_, hj⟩
  rintro rfl
  exact hne (Option.some_inj.mp (hj.symm.trans hi))

/-- What the place of a record does not decide. -/
theorem map_mapIdx_eq_map {B : Type*} {g : A → B} {f : ℕ → A → A} (hf : ∀ i a, g (f i a) = g a)
    (l : List A) : (l.mapIdx f).map g = l.map g := by
  refine List.ext_getElem? fun i => ?_
  simp [Function.comp_def, hf]

/-- Setting an element of the same key keeps the keys. -/
theorem map_key_set {l : List A} {i : ℕ} {a v : A} (hi : l[i]? = some a) (hv : key v = key a) :
    (l.set i v).map key = l.map key := by
  rw [List.map_set, hv]
  apply List.ext_getElem? fun j => ?_
  rw [List.getElem?_set]
  split_ifs with hij hlen
  · subst hij
    simp [hi]
  · subst hij
    have := (List.getElem?_eq_some_iff.mp hi).1
    simp [this] at hlen
  · rfl

/-- A record that is replaced by one with its key is not seen without that key. -/
theorem remove_set {l : List A} {i : ℕ} {a v : A} (hi : l[i]? = some a) (hv : key v = key a) :
    remove key (l.set i v) (key a) = remove key l (key a) := by
  unfold remove
  induction l generalizing i with
  | nil => rfl
  | cons b l ih =>
    cases i with
    | zero =>
      obtain rfl : b = a := Option.some_inj.mp hi
      simp [hv]
    | succ i =>
      have htail := ih (List.getElem?_cons_succ.symm.trans hi)
      rw [List.set_cons_succ, List.filter_cons, List.filter_cons, htail]

/-- Replacing a record by an image of itself maps the records with its key. -/
theorem set_eq_map {l : List A} (hl : DistinctKeys key l) {i : ℕ} {a : A} (hi : l[i]? = some a)
    (f : A → A) : l.set i (f a) = l.map fun b => if key b = key a then f b else b := by
  refine List.ext_getElem? fun j => ?_
  rw [List.getElem?_map]
  by_cases hij : i = j
  · subst hij
    rw [List.getElem?_set_self (List.getElem?_eq_some_iff.mp hi).1, hi]
    simp
  · rw [List.getElem?_set_ne hij]
    cases hb : l[j]? with
    | none => rfl
    | some b =>
      have hkey : key b ≠ key a := by
        intro heq
        have hlen : i < (l.map key).length := by
          rw [List.length_map]
          exact (List.getElem?_eq_some_iff.mp hi).1
        refine hij ((List.getElem?_inj hlen hl).mp ?_)
        rw [List.getElem?_map, List.getElem?_map, hi, hb, Option.map_some, Option.map_some, heq]
      simp [hkey]

/-- Replacing a record by one with the same key is an update of the map. -/
theorem lookup_set {l : List A} (hl : DistinctKeys key l) {i : ℕ} {a v : A}
    (hi : l[i]? = some a) (hv : key v = key a) (k : K) :
    lookup key (l.set i v) k = if k = key a then some v else lookup key l k := by
  have hd : DistinctKeys key (l.set i v) := by
    unfold DistinctKeys
    rw [map_key_set hi hv]
    exact hl
  have hlen := (List.getElem?_eq_some_iff.mp hi).1
  split_ifs with hk
  · exact (lookup_eq_some_iff hd).mpr ⟨List.mem_set hlen v, by rw [hv, hk]⟩
  · apply Option.ext fun b => ?_
    rw [lookup_eq_some_iff hd, lookup_eq_some_iff hl]
    refine and_congr_left fun hb => ?_
    constructor
    · intro hm
      rcases List.mem_or_eq_of_mem_set hm with h | rfl
      · exact h
      · exact absurd (hb.symm.trans hv) hk
    · intro hm
      refine mem_set_of_ne hi hm ?_ v
      rintro rfl
      exact hk hb.symm

/-- Mapping a function that keeps the keys maps the looked up records. -/
theorem lookup_map {f : A → A} (hf : ∀ a, key (f a) = key a) (l : List A) (k : K) :
    lookup key (l.map f) k = (lookup key l k).map f := by
  unfold lookup
  rw [List.find?_map]
  congr 2
  funext a
  simp [hf a]

theorem DistinctKeys.map {l : List A} (hl : DistinctKeys key l) {f : A → A}
    (hf : ∀ a, key (f a) = key a) : DistinctKeys key (l.map f) := by
  unfold DistinctKeys at *
  rw [List.map_map, show key ∘ f = key from funext hf]
  exact hl

/-! ## Permuting -/

theorem DistinctKeys.perm {l m : List A} (hl : DistinctKeys key l) (h : l.Perm m) :
    DistinctKeys key m :=
  (h.map key).nodup_iff.mp hl

theorem lookup_perm {l m : List A} (hl : DistinctKeys key l) (h : l.Perm m) (k : K) :
    lookup key m k = lookup key l k := by
  apply Option.ext fun a => ?_
  rw [lookup_eq_some_iff hl, lookup_eq_some_iff (hl.perm h), h.mem_iff]

/-- Lists that stand for the same map have the same records. -/
theorem perm_of_lookup_eq {l m : List A} (hl : DistinctKeys key l) (hm : DistinctKeys key m)
    (h : ∀ k, lookup key l k = lookup key m k) : l.Perm m := by
  refine (List.perm_ext_iff_of_nodup (List.Nodup.of_map key hl) (List.Nodup.of_map key hm)).mpr
    fun a => ?_
  have hmem := lookup_eq_some_iff hl (k := key a) (a := a)
  rw [h, lookup_eq_some_iff hm] at hmem
  simpa using hmem.symm

/-! ## Picking by key -/

/-- The records that are picked by a list of keys have the keys of it that are there. -/
theorem keys_filterMap_lookup (l : List A) (ks : List K) :
    (ks.filterMap (lookup key l)).map key = ks.filter (· ∈ l.map key) := by
  induction ks with
  | nil => rfl
  | cons k ks ih =>
    cases h : lookup key l k with
    | none =>
      have hnot : k ∉ l.map key := lookup_eq_none_iff_notMem.mp h
      rw [List.filterMap_cons_none h, ih, List.filter_cons_of_neg (by simpa using hnot)]
    | some a =>
      obtain rfl : key a = k := key_of_lookup h
      have hmem : key a ∈ l.map key := List.mem_map_of_mem (mem_of_lookup h)
      rw [List.filterMap_cons_some h, List.map_cons, ih,
        List.filter_cons_of_pos (by simpa using hmem)]

/-- The picked records followed by the others are the records, in another order. -/
theorem perm_filterMap_lookup {l : List A} (hl : DistinctKeys key l) {ks : List K}
    (hk : ks.Nodup) :
    (ks.filterMap (lookup key l) ++ l.filter fun a => key a ∉ ks).Perm l := by
  have hpicked : (ks.filterMap (lookup key l)).Nodup := by
    refine List.Nodup.filterMap ?_ hk
    intro k k' a ha ha'
    rw [Option.mem_def] at ha ha'
    rw [← key_of_lookup ha, key_of_lookup ha']
  have hln : l.Nodup := List.Nodup.of_map key hl
  rw [List.perm_ext_iff_of_nodup _ hln]
  · intro a
    simp only [List.mem_append, List.mem_filterMap, List.mem_filter, decide_eq_true_eq]
    refine ⟨?_, fun ha => ?_⟩
    · rintro (⟨k, -, hk⟩ | ⟨ha, -⟩)
      · exact mem_of_lookup hk
      · exact ha
    · rcases Classical.em (key a ∈ ks) with hka | hka
      · exact Or.inl ⟨key a, hka, lookup_of_mem hl ha⟩
      · exact Or.inr ⟨ha, hka⟩
  · refine List.nodup_append.mpr ⟨hpicked, hln.filter _, ?_⟩
    rintro a ha b hb rfl
    obtain ⟨k, hks, hak⟩ := List.mem_filterMap.mp ha
    have hb' := (List.mem_filter.mp hb).2
    rw [decide_eq_true_eq, key_of_lookup hak] at hb'
    exact hb' hks

/-! ## Upserting -/

theorem key_replace (a b : A) : key (if key b = key a then a else b) = key b := by
  split_ifs with hb
  · exact hb.symm
  · rfl

/-- A lookup after an insertion. -/
theorem lookup_upsert (l : List A) (a : A) (k : K) :
    lookup key (upsert key l a) k = if k = key a then some a else lookup key l k := by
  unfold upsert
  split_ifs with hm hk hk
  · rw [lookup_map (key_replace a)]
    cases hb : lookup key l k with
    | none =>
      obtain ⟨b, hbl, hba⟩ := List.any_eq_true.mp hm
      exact absurd ((by simpa using hba : key b = key a).trans hk.symm)
        (lookup_eq_none_iff.mp hb b hbl)
    | some b => simp [key_of_lookup hb, hk]
  · rw [lookup_map (key_replace a)]
    cases hb : lookup key l k with
    | none => rfl
    | some b => simp [key_of_lookup hb, hk]
  · exact (lookup_append_singleton (by simpa using hm) _).trans (if_pos hk)
  · exact (lookup_append_singleton (by simpa using hm) _).trans (if_neg hk)

theorem mem_map_key_upsert {l : List A} {a : A} {k : K} :
    k ∈ (upsert key l a).map key ↔ k = key a ∨ k ∈ l.map key := by
  rw [← not_iff_not, not_or, ← lookup_eq_none_iff_notMem, ← lookup_eq_none_iff_notMem,
    lookup_upsert]
  split_ifs with hk <;> simp [hk]

theorem DistinctKeys.upsert {l : List A} (hl : DistinctKeys key l) (a : A) :
    DistinctKeys key (upsert key l a) := by
  unfold KeyedList.upsert
  split_ifs with hm
  · exact hl.map (key_replace a)
  · exact hl.append_singleton (by simpa using hm)

/-- An insertion keeps what holds of every element. -/
theorem forall_mem_upsert {P : A → Prop} {l : List A} (hl : ∀ b ∈ l, P b) {a : A} (ha : P a) :
    ∀ b ∈ upsert key l a, P b := by
  intro b hb
  unfold upsert at hb
  split_ifs at hb
  · obtain ⟨c, hc, rfl⟩ := List.mem_map.mp hb
    split_ifs
    · exact ha
    · exact hl c hc
  · rcases List.mem_append.mp hb with hmem | hmem
    · exact hl b hmem
    · rwa [List.mem_singleton.mp hmem]

/-! ## Upserting a batch -/

theorem DistinctKeys.foldl_upsert (batch : List A) {l : List A} (hl : DistinctKeys key l) :
    DistinctKeys key (batch.foldl (KeyedList.upsert key) l) := by
  induction batch generalizing l with
  | nil => exact hl
  | cons a batch ih => exact ih (hl.upsert a)

/-- A batch without repetition overwrites the records it has. -/
theorem lookup_foldl_upsert {batch : List A} (hb : DistinctKeys key batch) (l : List A) (k : K) :
    lookup key (batch.foldl (upsert key) l) k = (lookup key batch k).or (lookup key l k) := by
  induction batch generalizing l with
  | nil => rfl
  | cons a batch ih =>
    obtain ⟨ha, hb'⟩ := List.nodup_cons.mp hb
    rw [List.foldl_cons, ih hb', lookup_upsert, ← List.singleton_append, lookup_append]
    split_ifs with hk
    · subst hk
      rw [lookup_eq_none_iff_notMem.mpr ha]
      simp [lookup]
    · have hne : lookup key [a] k = none := lookup_eq_none_iff.mpr (by simpa using Ne.symm hk)
      rw [hne, Option.none_or]

/-- Every record of the batch is there afterwards. -/
theorem subset_foldl_upsert {batch : List A} (hb : DistinctKeys key batch) (l : List A) :
    batch ⊆ batch.foldl (upsert key) l := by
  intro a ha
  have ha' : lookup key (batch.foldl (upsert key) l) (key a) = some a := by
    rw [lookup_foldl_upsert hb, lookup_of_mem hb ha, Option.some_or]
  exact mem_of_lookup ha'

end KeyedList
