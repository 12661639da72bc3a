import Mathlib.Data.Option.Basic
import Mathlib.Data.List.Basic

/-!
# Documents under merge writes

A document is a partial map from keys to values. A merge write overwrites or deletes the
keys of its data and keeps every other key. After a sequence of writes the value of a key
comes from one of them (`exists_of_mergeAll`), and a key that no write ever deletes is
absent if and only if no write has set it (`mergeAll_eq_none_iff`). The last write of a key
decides its value, and without one the key is as before (`mergeAll_of_lastWrite`).

A queue of writes may read its data from a state when it runs. It `Settles` the document if it
would leave the view of the state there is. New writes keep that if they write every key whose
value they change (`Settles.append`).
-/

namespace MergeDocument

/-- A document : a partial map from keys to values. -/
abbrev Document (K V : Type*) := K → Option V

/-- What a merge write does to a key of its data. -/
inductive Write (V : Type*) where
  | set (value : V)
  | delete
  deriving DecidableEq

/-- The data of a merge write. -/
abbrev Data (K V : Type*) := K → Option (Write V)

variable {K V : Type*}

/-- The value a write leaves. -/
def Write.value : Write V → Option V
  | set value => some value
  | delete => none

/-- The write that leaves a value. -/
def Write.ofValue : Option V → Write V
  | some value => .set value
  | none => .delete

@[simp] theorem Write.value_ofValue (v : Option V) : (ofValue v).value = v := by
  cases v <;> rfl

/-- The document after a merge : keys that are not written stay. -/
def merge (doc : Document K V) (data : Data K V) : Document K V :=
  fun key => match data key with
    | some write => write.value
    | none => doc key

/-- Merge one after another. -/
def mergeAll (doc : Document K V) (writes : List (Data K V)) : Document K V :=
  writes.foldl merge doc

theorem merge_of_some {doc : Document K V} {data : Data K V} {key : K} {w : Write V}
    (h : data key = some w) : merge doc data key = w.value := by
  simp [merge, h]

theorem merge_of_none {doc : Document K V} {data : Data K V} {key : K} (h : data key = none) :
    merge doc data key = doc key := by
  simp [merge, h]

/-- A value is from the document, or one of the writes set it. -/
theorem exists_of_mergeAll {doc : Document K V} {writes : List (Data K V)} {key : K} {v : V}
    (h : mergeAll doc writes key = some v) :
    doc key = some v ∨ ∃ data ∈ writes, data key = some (.set v) := by
  unfold mergeAll at h
  induction writes generalizing doc with
  | nil => exact Or.inl h
  | cons data writes ih =>
    rcases ih h with hd | ⟨d, hd, hdv⟩
    · cases hk : data key with
      | none => exact Or.inl (by rwa [merge_of_none hk] at hd)
      | some w =>
        rw [merge_of_some hk] at hd
        cases w with
        | set value =>
          obtain rfl := Option.some_inj.mp hd
          exact Or.inr ⟨data, List.mem_cons_self, hk⟩
        | delete => cases hd
    · exact Or.inr ⟨d, List.mem_cons_of_mem data hd, hdv⟩

/-- A key that is never deleted is absent if and only if it was never set. -/
theorem mergeAll_eq_none_iff {doc : Document K V} {writes : List (Data K V)} {key : K}
    (h : ∀ data ∈ writes, data key ≠ some .delete) :
    mergeAll doc writes key = none ↔ doc key = none ∧ ∀ data ∈ writes, data key = none := by
  unfold mergeAll
  induction writes generalizing doc with
  | nil => simp
  | cons data writes ih =>
    rw [List.foldl_cons, ih fun d hd => h d (List.mem_cons_of_mem data hd), List.forall_mem_cons,
      ← and_assoc]
    refine and_congr_left fun _ => ?_
    cases hk : data key with
    | none => simp [merge_of_none hk]
    | some w =>
      cases w with
      | set value => simp [merge_of_some hk, Write.value]
      | delete => exact absurd hk (h data List.mem_cons_self)

/-! ## The last write of a key -/

/-- The last write of a key. -/
def lastWrite : List (Data K V) → K → Option (Write V)
  | [], _ => none
  | data :: writes, key => (lastWrite writes key).or (data key)

theorem lastWrite_append (l m : List (Data K V)) (key : K) :
    lastWrite (l ++ m) key = (lastWrite m key).or (lastWrite l key) := by
  induction l with
  | nil => simp [lastWrite]
  | cons data l ih => rw [List.cons_append, lastWrite, ih, lastWrite, Option.or_assoc]

theorem lastWrite_eq_none_iff {writes : List (Data K V)} {key : K} :
    lastWrite writes key = none ↔ ∀ data ∈ writes, data key = none := by
  induction writes with
  | nil => simp [lastWrite]
  | cons data writes ih => rw [lastWrite, Option.or_eq_none_iff, ih, List.forall_mem_cons, and_comm]

/-- Writes that agree at the key. -/
theorem lastWrite_map_congr {A : Type*} {l : List A} {f g : A → Data K V} {key : K}
    (h : ∀ a ∈ l, f a key = g a key) : lastWrite (l.map f) key = lastWrite (l.map g) key := by
  induction l with
  | nil => rfl
  | cons a l ih =>
    rw [List.forall_mem_cons] at h
    simp only [List.map_cons, lastWrite, h.1, ih h.2]

theorem mergeAll_append (doc : Document K V) (l m : List (Data K V)) :
    mergeAll doc (l ++ m) = mergeAll (mergeAll doc l) m :=
  List.foldl_append

theorem mergeAll_eq (doc : Document K V) (writes : List (Data K V)) (key : K) :
    mergeAll doc writes key = match lastWrite writes key with
      | some write => write.value
      | none => doc key := by
  unfold mergeAll
  induction writes generalizing doc with
  | nil => rfl
  | cons data writes ih =>
    rw [List.foldl_cons, ih, lastWrite]
    cases lastWrite writes key <;> rfl

theorem mergeAll_of_lastWrite {doc : Document K V} {writes : List (Data K V)} {key : K}
    {w : Write V} (h : lastWrite writes key = some w) : mergeAll doc writes key = w.value := by
  rw [mergeAll_eq, h]

theorem mergeAll_of_lastWrite_none {doc : Document K V} {writes : List (Data K V)} {key : K}
    (h : lastWrite writes key = none) : mergeAll doc writes key = doc key := by
  rw [mergeAll_eq, h]

theorem mergeAll_congr_writes {doc : Document K V} {l m : List (Data K V)} {key : K}
    (h : lastWrite l key = lastWrite m key) : mergeAll doc l key = mergeAll doc m key := by
  rw [mergeAll_eq, mergeAll_eq, h]

/-- The value of a key depends on the document at that key only. -/
theorem mergeAll_congr {doc doc' : Document K V} {writes : List (Data K V)} {key : K}
    (h : doc key = doc' key) : mergeAll doc writes key = mergeAll doc' writes key := by
  rw [mergeAll_eq, mergeAll_eq, h]

/-! ## Writes that wait -/

section Waiting

variable {S W : Type*} (data : S → W → Data K V) (view : S → Document K V)

/-- The writes that wait leave the view of `s` if they run in `s`. -/
def Settles (doc : Document K V) (s : S) (waiting : List W) : Prop :=
  ∀ key, mergeAll doc (waiting.map (data s)) key = view s key

variable {data view} {doc : Document K V} {s s' : S} {waiting new : List W} {w : W}

theorem settles_nil_iff : Settles data view doc s [] ↔ ∀ key, doc key = view s key :=
  Iff.rfl

/-- The first one runs. -/
theorem Settles.run (h : Settles data view doc s (w :: waiting)) :
    Settles data view (merge doc (data s w)) s waiting :=
  h

/-- The state changes, and new writes have the keys whose value has changed. -/
theorem Settles.append (h : Settles data view doc s waiting)
    (hcongr : ∀ w ∈ waiting, ∀ key, view s' key = view s key → data s' w key = data s w key)
    (hnew : ∀ key, lastWrite (new.map (data s')) key = some (.ofValue (view s' key)) ∨
      lastWrite (new.map (data s')) key = none ∧ view s' key = view s key) :
    Settles data view doc s' (waiting ++ new) := by
  intro key
  rw [List.map_append, mergeAll_append]
  rcases hnew key with hlast | ⟨hlast, hsame⟩
  · rw [mergeAll_of_lastWrite hlast, Write.value_ofValue]
  · rw [mergeAll_of_lastWrite_none hlast, hsame, ← h key]
    exact mergeAll_congr_writes (lastWrite_map_congr fun w hw => hcongr w hw key hsame)

end Waiting

end MergeDocument
