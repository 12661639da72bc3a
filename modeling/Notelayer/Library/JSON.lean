import Mathlib.Algebra.Order.Field.Rat
import Mathlib.Data.List.Nodup
import Mathlib.Data.Option.Basic

/-!
# Values of a JSON text, and records written to them by key

A record is an object with a field for each key. A field may be left out if there is no value
for it, and a value that cannot be written (a number that is not finite) makes the whole
object fail. An object that was written under distinct keys has each of its fields
(`has_of_keyed`), and what it has under a key is read back from it (`Has.decodeKey`,
`Has.decodeIfPresent`), or its default if the key was removed.
-/

/-- A value. Numbers are exact. -/
inductive JSONValue where
  | null
  | bool (b : Bool)
  | number (x : ℚ)
  | string (s : String)
  | array (elements : List JSONValue)
  | object (fields : List (String × JSONValue))

/-- A type that is written to values and read from them. `none` : the coder throws. -/
class JSONCodable (A : Type) where
  encode : A → Option JSONValue
  decode : JSONValue → Option A
  decode_of_encode : ∀ {a v}, encode a = some v → decode v = some a
  encode_ne_null : ∀ a, encode a ≠ some .null

namespace JSONCodable

instance : JSONCodable String where
  encode s := some (.string s)
  decode
    | .string s => some s
    | _ => none
  decode_of_encode h := by
    obtain rfl := Option.some_inj.mp h
    rfl
  encode_ne_null s h := by simp at h

instance : JSONCodable Bool where
  encode b := some (.bool b)
  decode
    | .bool b => some b
    | _ => none
  decode_of_encode h := by
    obtain rfl := Option.some_inj.mp h
    rfl
  encode_ne_null b h := by simp at h

/-- A number with a fraction is no integer. -/
instance : JSONCodable ℤ where
  encode n := some (.number n)
  decode
    | .number x => if x.den = 1 then some x.num else none
    | _ => none
  decode_of_encode h := by
    obtain rfl := Option.some_inj.mp h
    simp
  encode_ne_null n h := by simp at h

instance : JSONCodable ℚ where
  encode x := some (.number x)
  decode
    | .number x => some x
    | _ => none
  decode_of_encode h := by
    obtain rfl := Option.some_inj.mp h
    rfl
  encode_ne_null x h := by simp at h

/-- An enumeration with a text for each case. -/
@[reducible] def ofRawValue {A : Type} (rawValue : A → String) (ofRaw : String → Option A)
    (h : ∀ a, ofRaw (rawValue a) = some a) : JSONCodable A where
  encode a := some (.string (rawValue a))
  decode
    | .string s => ofRaw s
    | _ => none
  decode_of_encode hv := by
    obtain rfl := Option.some_inj.mp hv
    exact h _
  encode_ne_null a ha := by simp at ha

end JSONCodable

open JSONCodable

namespace JSONValue

variable {A : Type}

/-! ## Arrays -/

/-- All the elements, if each of them can be written or read. -/
def allSome : List (Option A) → Option (List A)
  | [] => some []
  | a :: l => a.bind fun a => (allSome l).map fun l => a :: l

theorem allSome_cons_eq_some {a : Option A} {l : List (Option A)} {b : List A} :
    allSome (a :: l) = some b ↔ ∃ c d, a = some c ∧ allSome l = some d ∧ b = c :: d := by
  simp only [allSome, Option.bind_eq_some_iff, Option.map_eq_some_iff]
  constructor
  · rintro ⟨c, rfl, d, hd, rfl⟩
    exact ⟨c, d, rfl, hd, rfl⟩
  · rintro ⟨c, d, rfl, hd, rfl⟩
    exact ⟨c, rfl, d, hd, rfl⟩

theorem isSome_allSome {l : List (Option A)} :
    (allSome l).isSome ↔ ∀ a ∈ l, a.isSome := by
  induction l with
  | nil => simp [allSome]
  | cons a l ih =>
    cases a with
    | none => simp [allSome]
    | some a => simp [allSome, ih]

/-- The array of the encoded elements, if each of them encodes. -/
def encodeArray (encode : A → Option JSONValue) (l : List A) : Option JSONValue :=
  (allSome (l.map encode)).map array

theorem isSome_encodeArray {encode : A → Option JSONValue} {l : List A} :
    (encodeArray encode l).isSome ↔ ∀ a ∈ l, (encode a).isSome := by
  simp [encodeArray, isSome_allSome]

/-- Each element is read by a reader of its own. -/
def decodeArray (decode : ℕ → JSONValue → Option A) : JSONValue → Option (List A)
  | array elements => allSome (elements.mapIdx decode)
  | _ => none

/-- Elements that are decoded one by one, with their places. -/
theorem allSome_mapIdx_of_allSome_map {encode : A → Option JSONValue}
    {decode : ℕ → JSONValue → Option A}
    (h : ∀ a v, encode a = some v → ∀ index, decode index v = some a) {l : List A}
    {elements : List JSONValue} (hl : allSome (l.map encode) = some elements) :
    allSome (elements.mapIdx decode) = some l := by
  induction l generalizing elements decode with
  | nil =>
    obtain rfl := Option.some_inj.mp hl
    rfl
  | cons a l ih =>
    obtain ⟨c, d, hc, hd, rfl⟩ := allSome_cons_eq_some.mp hl
    have htail : allSome (d.mapIdx fun index => decode (index + 1)) = some l :=
      ih (fun a v hv index => h a v hv (index + 1)) hd
    rw [List.mapIdx_cons]
    exact allSome_cons_eq_some.mpr ⟨a, l, h a c hc 0, htail, rfl⟩

/-- Every element of the result comes from one of the list. -/
theorem mem_of_allSome {l : List (Option A)} {b : List A} (h : allSome l = some b) {a : A}
    (ha : a ∈ b) : some a ∈ l := by
  induction l generalizing b with
  | nil =>
    obtain rfl := Option.some_inj.mp h
    cases ha
  | cons first l ih =>
    obtain ⟨c, d, rfl, hd, rfl⟩ := allSome_cons_eq_some.mp h
    rcases List.mem_cons.mp ha with rfl | ha
    · exact List.mem_cons_self
    · exact List.mem_cons_of_mem _ (ih hd ha)

/-- Each element that was read was read from a value. -/
theorem mem_of_decodeArray {decode : ℕ → JSONValue → Option A} {v : JSONValue} {l : List A}
    (h : decodeArray decode v = some l) {a : A} (ha : a ∈ l) :
    ∃ index element, decode index element = some a := by
  cases v with
  | array elements =>
    obtain ⟨index, hindex, heq⟩ := List.mem_mapIdx.mp (mem_of_allSome h ha)
    exact ⟨index, _, heq⟩
  | _ => cases h

/-- Only the empty array has no elements, whatever reads them. -/
theorem decodeArray_eq_some_nil {decode decode' : ℕ → JSONValue → Option A} {v : JSONValue}
    (h : decodeArray decode v = some []) : decodeArray decode' v = some [] := by
  cases v with
  | array elements =>
    cases elements with
    | nil => rfl
    | cons element elements =>
      rw [decodeArray, List.mapIdx_cons] at h
      obtain ⟨_, _, -, -, hcons⟩ := allSome_cons_eq_some.mp h
      cases hcons
  | _ => cases h

theorem decodeArray_of_encodeArray {encode : A → Option JSONValue}
    {decode : ℕ → JSONValue → Option A}
    (h : ∀ a v, encode a = some v → ∀ index, decode index v = some a) {l : List A}
    {v : JSONValue} (hv : encodeArray encode l = some v) : decodeArray decode v = some l := by
  obtain ⟨elements, helements, rfl⟩ := Option.map_eq_some_iff.mp hv
  exact allSome_mapIdx_of_allSome_map h helements

instance [JSONCodable A] : JSONCodable (List A) where
  encode := encodeArray encode
  decode := decodeArray fun _ => decode
  decode_of_encode h := decodeArray_of_encodeArray (fun _ _ hv _ => decode_of_encode hv) h
  encode_ne_null l h := by simp [encodeArray] at h

theorem isSome_encode_list [JSONCodable A] (h : ∀ a : A, (encode a).isSome) (l : List A) :
    (encode l).isSome :=
  isSome_encodeArray.mpr fun a _ => h a

/-! ## Objects -/

/-- A key with what is written under it. `none` : it throws, `some none` : nothing is written. -/
abbrev Field := String × Option (Option JSONValue)

/-- `container.encode(_:forKey:)`. -/
def written [JSONCodable A] (key : String) (a : A) : Field :=
  (key, (encode a).map some)

/-- `container.encodeIfPresent(_:forKey:)`. -/
def writtenIfPresent [JSONCodable A] (key : String) (a : Option A) : Field :=
  (key, a.elim (some none) fun a => (encode a).map some)

/-- The object with the fields that have a value. -/
def keyed (fields : List Field) : Option JSONValue :=
  if fields.all fun field => field.2.isSome then
    some (object (fields.filterMap fun field => field.2.join.map fun v => (field.1, v)))
  else none

/-- The value under a key, if there is one and it is not null. -/
def value (v : JSONValue) (key : String) : Option JSONValue :=
  match v with
  | object fields =>
    match fields.lookup key with
    | some null => none
    | found => found
  | _ => none

/-- `container.decodeIfPresent(_:forKey:)`. -/
def decodeIfPresent (A : Type) [JSONCodable A] (v : JSONValue) (key : String) :
    Option (Option A) :=
  match v.value key with
  | none => some none
  | some found => (decode found).map some

/-- `container.decode(_:forKey:)`. -/
def decodeKey (A : Type) [JSONCodable A] (v : JSONValue) (key : String) : Option A :=
  (v.value key).bind decode

theorem isSome_keyed {fields : List Field} :
    (keyed fields).isSome ↔ ∀ field ∈ fields, field.2.isSome := by
  unfold keyed
  split_ifs with h
  · simpa using h
  · simpa using h

@[simp] theorem isSome_written [JSONCodable A] (key : String) (a : A) :
    (written key a).2.isSome = (encode a).isSome := by
  simp [written]

@[simp] theorem isSome_writtenIfPresent [JSONCodable A] (key : String) (a : Option A) :
    (writtenIfPresent key a).2.isSome = a.all fun a => (encode a).isSome := by
  cases a <;> simp [writtenIfPresent]

theorem keyed_ne_null (fields : List Field) : keyed fields ≠ some null := by
  unfold keyed
  split_ifs
  · simp
  · simp

/-- Under distinct keys there is the one field of each key. -/
theorem lookup_filterMap {fields : List Field} (hkeys : (fields.map Prod.fst).Nodup)
    {field : Field} (hfield : field ∈ fields) :
    (fields.filterMap fun field => field.2.join.map fun v => (field.1, v)).lookup field.1 =
      field.2.join := by
  induction fields with
  | nil => cases hfield
  | cons first fields ih =>
    obtain ⟨hfirst, hkeys⟩ := List.nodup_cons.mp hkeys
    rcases List.mem_cons.mp hfield with rfl | hfield
    · cases hjoin : field.2.join with
      | some v => simp [hjoin]
      | none =>
        have hnone : ∀ other ∈ fields.filterMap
            (fun field => field.2.join.map fun v => (field.1, v)), field.1 ≠ other.1 := by
          rintro other hother heq
          obtain ⟨origin, horigin, hmap⟩ := List.mem_filterMap.mp hother
          obtain ⟨v, -, rfl⟩ := Option.map_eq_some_iff.mp hmap
          exact hfirst (heq ▸ List.mem_map_of_mem horigin)
        rw [List.filterMap_cons_none (by simp [hjoin]), List.lookup_eq_none_iff]
        simpa using hnone
    · have hne : field.1 ≠ first.1 := fun heq => hfirst (heq ▸ List.mem_map_of_mem hfield)
      cases hjoin : first.2.join with
      | none => rw [List.filterMap_cons_none (by simp [hjoin]), ih hkeys hfield]
      | some v =>
        rw [List.filterMap_cons_some (by rw [hjoin]; rfl), List.lookup_cons,
          beq_eq_false_iff_ne.mpr hne]
        exact ih hkeys hfield

section Keyed

variable [JSONCodable A] {fields : List Field} {v : JSONValue} {key : String}

/-- The object of fields has the value of each of them. -/
theorem value_keyed (hkeys : (fields.map Prod.fst).Nodup) (hv : keyed fields = some v)
    {field : Field} (hfield : field ∈ fields) (hnull : field.2.join ≠ some null) :
    v.value field.1 = field.2.join := by
  unfold keyed at hv
  split_ifs at hv
  obtain rfl := Option.some_inj.mp hv
  unfold value
  dsimp only
  rw [lookup_filterMap hkeys hfield]
  split
  · rename_i h
    exact absurd h hnull
  · rfl

variable (v) in
/-- The value has what was written into the field. -/
def Has (field : Field) : Prop :=
  field.2.isSome ∧ (field.2.join ≠ some null → v.value field.1 = field.2.join)

/-- A record has all of its fields. -/
theorem has_of_keyed (hkeys : (fields.map Prod.fst).Nodup) (hv : keyed fields = some v) :
    ∀ field ∈ fields, v.Has field :=
  fun field hfield => ⟨isSome_keyed.mp (by simp [hv]) field hfield, value_keyed hkeys hv hfield⟩

/-- What was written if present is read. -/
theorem Has.decodeIfPresent {a : Option A} (h : v.Has (writtenIfPresent key a)) :
    v.decodeIfPresent A key = some a := by
  obtain ⟨hsome, hvalue⟩ := h
  unfold JSONValue.decodeIfPresent
  cases a with
  | none =>
    have hnone : v.value key = none := hvalue nofun
    rw [hnone]
  | some a =>
    simp only [writtenIfPresent, Option.elim_some, Option.isSome_map] at hsome hvalue
    obtain ⟨found, hfound⟩ := Option.isSome_iff_exists.mp hsome
    have hnull : found ≠ null := fun h => encode_ne_null a (h ▸ hfound)
    rw [hfound, Option.map_some, Option.join_some] at hvalue
    rw [hvalue fun h => hnull (Option.some_inj.mp h)]
    simp [decode_of_encode hfound]

/-- A value that is not written by its own coding. -/
theorem Has.decodeKey_of_decode {w : JSONValue} (h : v.Has (key, some (some w)))
    (hnull : w ≠ null) {a : A} (ha : decode w = some a) : v.decodeKey A key = some a := by
  have hvalue : v.value key = some w := h.2 fun h => hnull (Option.some_inj.mp h)
  unfold JSONValue.decodeKey
  rw [hvalue]
  exact ha

/-- What was written is read. -/
theorem Has.decodeKey {a : A} (h : v.Has (written key a)) : v.decodeKey A key = some a := by
  obtain ⟨w, hw⟩ : ∃ w, encode a = some w := by
    simpa [written, Option.isSome_iff_exists] using h.1
  refine Has.decodeKey_of_decode (w := w) ?_ (fun h => encode_ne_null a (h ▸ hw))
    (decode_of_encode hw)
  rwa [written, hw] at h

end Keyed

/-! ## Removing keys -/

/-- The value without some of its keys. -/
def removing (removed : String → Bool) : JSONValue → JSONValue
  | object fields => object (fields.filter fun field => ¬removed field.1)
  | v => v

/-- A removed key is not found, and the others are as they were. -/
theorem lookup_filter {B : Type} (removed : String → Bool) (fields : List (String × B))
    (key : String) :
    (fields.filter fun field => ¬removed field.1).lookup key =
      if removed key then none else fields.lookup key := by
  induction fields with
  | nil => simp
  | cons field fields ih =>
    rw [List.filter_cons]
    by_cases hkey : key = field.1
    · have heq : (key == field.1) = true := beq_iff_eq.mpr hkey
      by_cases hremoved : removed field.1
      · rw [if_neg (by simpa using hremoved), ih, hkey, if_pos hremoved, if_pos hremoved]
      · rw [if_pos (by simpa using hremoved), List.lookup_cons, List.lookup_cons, heq, hkey,
          if_neg hremoved]
    · have hne : (key == field.1) = false := beq_eq_false_iff_ne.mpr hkey
      by_cases hremoved : removed field.1
      · rw [if_neg (by simpa using hremoved), ih, List.lookup_cons, hne]
      · rw [if_pos (by simpa using hremoved), List.lookup_cons, List.lookup_cons, hne, ih]

theorem value_removing (removed : String → Bool) (v : JSONValue) (key : String) :
    (v.removing removed).value key = if removed key then none else v.value key := by
  cases v with
  | object fields =>
    simp only [removing, value, lookup_filter]
    split_ifs <;> rfl
  | _ => simp [removing, value]

/-- A key that was removed is not present, the others are read as before. -/
theorem decodeIfPresent_removing [JSONCodable A] (removed : String → Bool) (v : JSONValue)
    (key : String) : (v.removing removed).decodeIfPresent A key =
      if removed key then some none else v.decodeIfPresent A key := by
  unfold decodeIfPresent
  rw [value_removing]
  split_ifs <;> rfl

/-- A key that was removed cannot be read. -/
theorem decodeKey_removing [JSONCodable A] (removed : String → Bool) (v : JSONValue)
    (key : String) : (v.removing removed).decodeKey A key =
      if removed key then none else v.decodeKey A key := by
  unfold decodeKey
  rw [value_removing]
  split_ifs <;> rfl

/-- What was removed is read as its default. -/
theorem getD_ite_none (removed : Bool) (a default : A) :
    (if removed then none else some a).getD default = if removed then default else a := by
  cases removed <;> rfl

section Removing

variable [JSONCodable A] {v : JSONValue} {key : String}

/-- What is under a key that was not removed is read. -/
theorem decodeKey_removing_of_kept {a : A} (h : v.decodeKey A key = some a)
    {removed : String → Bool} (hkept : removed key = false) :
    (v.removing removed).decodeKey A key = some a := by
  rw [decodeKey_removing, hkept]
  exact h

theorem Has.decodeIfPresent_removing {a : Option A} (h : v.Has (writtenIfPresent key a))
    (removed : String → Bool) :
    (v.removing removed).decodeIfPresent A key = some (if removed key then none else a) := by
  rw [JSONValue.decodeIfPresent_removing, h.decodeIfPresent, apply_ite some]

theorem Has.decodeIfPresent_removing_written {a : A} (h : v.Has (written key a))
    (removed : String → Bool) :
    (v.removing removed).decodeIfPresent A key = some (if removed key then none else some a) :=
  Has.decodeIfPresent_removing (a := some a) h removed

end Removing

theorem removing_eq_null {removed : String → Bool} {v : JSONValue} :
    v.removing removed = null ↔ v = null := by
  cases v <;> simp [removing]

@[simp] theorem removing_false (v : JSONValue) : v.removing (fun _ => false) = v := by
  cases v <;> simp [removing]

/-- The array without some of the keys of its elements. -/
def removingEach (removed : String → Bool) : JSONValue → JSONValue
  | array elements => array (elements.map (removing removed))
  | v => v

/-- Elements that are read differently after a change of each are read so in an array. -/
theorem decodeArray_map_of_encodeArray {encode : A → Option JSONValue}
    {decode : ℕ → JSONValue → Option A} {f : JSONValue → JSONValue} {g : A → A}
    (h : ∀ a v, encode a = some v → ∀ index, decode index (f v) = some (g a)) {l : List A}
    {elements : List JSONValue} (hl : allSome (l.map encode) = some elements) :
    decodeArray decode (array (elements.map f)) = some (l.map g) := by
  change allSome ((elements.map f).mapIdx decode) = _
  induction l generalizing elements decode with
  | nil =>
    obtain rfl := Option.some_inj.mp hl
    rfl
  | cons a l ih =>
    obtain ⟨c, d, hc, hd, rfl⟩ := allSome_cons_eq_some.mp hl
    have htail : allSome ((d.map f).mapIdx fun index => decode (index + 1)) =
        some (l.map g) :=
      ih (fun a v hv index => h a v hv (index + 1)) hd
    rw [List.map_cons, List.mapIdx_cons]
    exact allSome_cons_eq_some.mpr ⟨g a, l.map g, h a c hc 0, htail, rfl⟩

theorem decode_removingEach [JSONCodable A] {removed : String → Bool} {g : A → A}
    (h : ∀ (a : A) v, encode a = some v → decode (v.removing removed) = some (g a)) {l : List A}
    {v : JSONValue} (hv : encode l = some v) :
    decode (v.removingEach removed) = some (l.map g) := by
  obtain ⟨elements, helements, rfl⟩ := Option.map_eq_some_iff.mp hv
  exact decodeArray_map_of_encodeArray (fun a v hv _ => h a v hv) helements

end JSONValue
