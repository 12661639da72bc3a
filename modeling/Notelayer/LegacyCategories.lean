import Notelayer.Library.JSON
import Notelayer.Migration

/-!
# Categories saved before they had an order

The migration numbers categories without an order by their positions in the array
(`LocalStore.migratedCategories_unordered`). But `order` has no key in what an earlier version
saved, the derived coder wants one in spite of the default value, and `try?` turns its error into
no categories at all. So `load` takes the built-in categories for the saved ones
(`categories_load_legacy`), and the saved ones come back numbered only if they are the built-in
ones (`backfillsOrders_iff`).
-/

namespace Notelayer

open JSONValue

/-! ## Categories as JSON -/

namespace Category

/-- The fields that a category encodes. -/
def fields (c : Category) : List Field :=
  [written "id" c.id, written "name" c.name, written "icon" c.icon, written "color" c.color,
    written "order" c.order]

/-- The coding the compiler derives. It does not read a default value for a missing key. -/
instance : JSONCodable Category where
  encode c := keyed c.fields
  decode v := do
    some {
      id := ← v.decodeKey String "id"
      name := ← v.decodeKey String "name"
      icon := ← v.decodeKey String "icon"
      color := ← v.decodeKey String "color"
      order := ← v.decodeKey ℤ "order" }
  decode_of_encode := by
    intro c v hv
    have hhas := has_of_keyed (by simp [fields, written]) hv
    simp only [fields, List.forall_mem_cons] at hhas
    obtain ⟨hid, hname, hicon, hcolor, horder, -⟩ := hhas
    simp [hid.decodeKey, hname.decodeKey, hicon.decodeKey, hcolor.decodeKey, horder.decodeKey]
  encode_ne_null c := keyed_ne_null _

/-- `keyNotFound`. -/
theorem decode_eq_none {v : JSONValue} (h : v.value "order" = none) :
    (JSONCodable.decode v : Option Category) = none := by
  have horder : v.decodeKey ℤ "order" = none := by
    rw [decodeKey, h, Option.bind_none]
  simp [JSONCodable.decode, horder]

end Category

/-- The persisted values with these categories. An error of the decoder leaves none. -/
def UserDefaults.withCategories (u : UserDefaults) (data : JSONValue) : UserDefaults :=
  { u with categories := JSONCodable.decode data }

/-- What the store saves is what it loads. -/
theorem withCategories_of_encode {u : UserDefaults} {categories : List Category}
    {data : JSONValue} (h : JSONCodable.encode categories = some data) :
    (u.withCategories data).categories = some categories :=
  JSONCodable.decode_of_encode h

/-! ## Categories without an order -/

/-- A category of a version without orders. -/
structure LegacyCategory where
  id : String
  name : String
  icon : String
  color : String
  deriving DecidableEq

namespace LegacyCategory

/-- The value has the four fields of the category and no order. -/
structure IsSavedAs (c : LegacyCategory) (v : JSONValue) : Prop where
  id : v.decodeKey String "id" = some c.id
  name : v.decodeKey String "name" = some c.name
  icon : v.decodeKey String "icon" = some c.icon
  color : v.decodeKey String "color" = some c.color
  order : v.value "order" = none

/-- The category with an order. -/
def numbered (c : LegacyCategory) (order : ℤ) : Category :=
  { id := c.id, name := c.name, icon := c.icon, color := c.color, order := order }

/-- The category without its order. -/
def ofCategory (c : Category) : LegacyCategory :=
  { id := c.id, name := c.name, icon := c.icon, color := c.color }

@[simp] theorem ofCategory_numbered (c : LegacyCategory) (order : ℤ) :
    ofCategory (c.numbered order) = c :=
  rfl

/-- The positions in the list are the orders. -/
def numberedByPosition (cs : List LegacyCategory) : List Category :=
  cs.mapIdx fun i c => c.numbered i

theorem map_ofCategory_numberedByPosition (cs : List LegacyCategory) :
    (numberedByPosition cs).map ofCategory = cs := by
  apply List.ext_getElem
  · simp [numberedByPosition]
  · intro i h₁ h₂
    simp [numberedByPosition]

/-- The built-in categories have their positions as orders. -/
theorem numberedByPosition_defaultCategories :
    numberedByPosition (Category.defaultCategories.map ofCategory) =
      Category.defaultCategories :=
  rfl

theorem numberedByPosition_eq_defaultCategories_iff {cs : List LegacyCategory} :
    numberedByPosition cs = Category.defaultCategories ↔
      cs = Category.defaultCategories.map ofCategory := by
  constructor
  · intro h
    rw [← h, map_ofCategory_numberedByPosition]
  · rintro rfl
    exact numberedByPosition_defaultCategories

end LegacyCategory

open LegacyCategory

namespace LocalStore

/-- Where an order that is missing is 0, the positions become the orders. -/
theorem migratedCategories_unordered (cs : List LegacyCategory) :
    migratedCategories (cs.map fun c => c.numbered 0) =
      (numberedByPosition cs).map Category.normalizedColor := by
  unfold migratedCategories
  dsimp only
  split_ifs with h
  · apply List.ext_getElem
    · simp [numberedByPosition]
    · intro i h₁ h₂
      simp [numberedByPosition, numbered, Category.normalizedColor]
  · have hall : ((cs.map fun c => c.numbered 0).map Category.normalizedColor).all
        (fun c => c.order = 0) := by
      simp [numbered, Category.normalizedColor]
    have hlength : cs.length ≤ 1 := by
      simpa using fun hlt => h ⟨hlt, hall⟩
    rcases cs with _ | ⟨c, _ | ⟨d, cs⟩⟩
    · rfl
    · rfl
    · simp at hlength

theorem migratedCategories_defaultCategories :
    migratedCategories Category.defaultCategories = Category.defaultCategories := by
  refine migratedCategories_eq_self (fun c hc => ?_) fun _ => ?_
  · have hcolor : c.color = CategoryColorDefaults.defaultHex c.id := by
      simp only [Category.defaultCategories, List.mem_cons, List.not_mem_nil, or_false] at hc
      rcases hc with rfl | rfl | rfl | rfl | rfl | rfl | rfl | rfl <;> rfl
    rw [hcolor]
    exact (CategoryColorDefaults.isNormal_defaultHex c.id).normalizeHexOrDefault c.id
  · refine ⟨_, List.mem_cons_of_mem _ (List.mem_cons_self ..), ?_⟩
    decide

end LocalStore

/-! ## Loading them -/

section Loading

variable {u : UserDefaults} {cs : List LegacyCategory} {elements : List JSONValue}

/-- One category without an order is enough for the decoder to fail. -/
theorem categories_withCategories_legacy (hne : cs ≠ [])
    (hsaved : List.Forall₂ IsSavedAs cs elements) :
    (u.withCategories (.array elements)).categories = none := by
  cases hsaved with
  | nil => exact absurd rfl hne
  | @cons c v cs elements hfirst hrest =>
    change allSome (List.mapIdx _ (v :: elements)) = none
    rw [List.mapIdx_cons, Category.decode_eq_none hfirst.order]
    rfl

/-- The built-in categories take the place of the saved ones. -/
theorem categories_load_legacy (hne : cs ≠ []) (hsaved : List.Forall₂ IsSavedAs cs elements) :
    (LocalStore.load (u.withCategories (.array elements))).categories =
      Category.defaultCategories := by
  change orDefaultCategories ((u.withCategories (.array elements)).categories.getD []) = _
  rw [categories_withCategories_legacy hne hsaved]
  rfl

/-- The migration leaves them. -/
theorem categories_migrateIfNeeded_load_legacy (hne : cs ≠ [])
    (hsaved : List.Forall₂ IsSavedAs cs elements) {s : LocalStore}
    (hs : (LocalStore.load (u.withCategories (.array elements))).migrateIfNeeded = some s) :
    s.categories = Category.defaultCategories := by
  rw [LocalStore.categories_migrateIfNeeded hs, LocalStore.categories_migrateEmptyCategories,
    categories_load_legacy hne hsaved]
  exact LocalStore.migratedCategories_defaultCategories

/-- `load` and `migrateIfNeeded` do not trap, and yield these categories in this order with their
positions as orders. -/
def UserDefaults.BackfillsOrders (u : UserDefaults) (cs : List LegacyCategory) : Prop :=
  ∃ s, (LocalStore.load u).migrateIfNeeded = some s ∧ s.categories = numberedByPosition cs

/-- The saved categories come back numbered exactly if they are the built-in ones in their order,
and the ids of the tasks are distinct. -/
theorem backfillsOrders_iff (hne : cs ≠ []) (hsaved : List.Forall₂ IsSavedAs cs elements) :
    (u.withCategories (.array elements)).BackfillsOrders cs ↔
      cs = Category.defaultCategories.map ofCategory ∧
        ((u.tasks.getD []).map Task.id).Nodup := by
  rw [← numberedByPosition_eq_defaultCategories_iff]
  constructor
  · rintro ⟨s, hs, hcategories⟩
    have hdefault := categories_migrateIfNeeded_load_legacy hne hsaved hs
    refine ⟨hcategories.symm.trans hdefault, ?_⟩
    by_contra hd
    have htrap := LocalStore.migrateIfNeeded_of_not_distinctIds
      (s := LocalStore.load (u.withCategories (.array elements))) hd
    simp [htrap] at hs
  · rintro ⟨hcategories, hd⟩
    obtain ⟨s, hs, -, -⟩ := LocalStore.migrateIfNeeded_of_distinctIds
      (s := LocalStore.load (u.withCategories (.array elements))) hd
    have hdefault := categories_migrateIfNeeded_load_legacy hne hsaved hs
    exact ⟨s, hs, hdefault.trans hcategories.symm⟩

end Loading

/-- Two categories of an earlier version. -/
def sampleLegacyCategories : List LegacyCategory :=
  [⟨"work", "Work", "💼", "#FF0000"⟩, ⟨"home", "Home", "🏠", "#00FF00"⟩]

/-- The two categories as an earlier version saved them. -/
def sampleLegacyElements : List JSONValue :=
  [.object [("id", .string "work"), ("name", .string "Work"), ("icon", .string "💼"),
      ("color", .string "#FF0000")],
    .object [("id", .string "home"), ("name", .string "Home"), ("icon", .string "🏠"),
      ("color", .string "#00FF00")]]

theorem isSavedAs_sampleLegacyElements :
    List.Forall₂ IsSavedAs sampleLegacyCategories sampleLegacyElements :=
  .cons ⟨rfl, rfl, rfl, rfl, rfl⟩ (.cons ⟨rfl, rfl, rfl, rfl, rfl⟩ .nil)

theorem backfillsOrders_iff_sample :
    (UserDefaults.withCategories {} (.array sampleLegacyElements)).BackfillsOrders
        sampleLegacyCategories ↔
      sampleLegacyCategories = Category.defaultCategories.map ofCategory ∧
        ((({} : UserDefaults).tasks.getD []).map Task.id).Nodup :=
  backfillsOrders_iff (List.cons_ne_nil _ _) isSavedAs_sampleLegacyElements

/-- Two saved categories, and the eight built-in ones after the migration. -/
theorem not_backfillsOrders_sample :
    ¬(UserDefaults.withCategories {} (.array sampleLegacyElements)).BackfillsOrders
      sampleLegacyCategories := by
  rintro ⟨s, hs, hcategories⟩
  have hdefault := categories_migrateIfNeeded_load_legacy (List.cons_ne_nil _ _)
    isSavedAs_sampleLegacyElements hs
  have hlength := congrArg List.length (hcategories.symm.trans hdefault)
  simp [sampleLegacyCategories, numberedByPosition, Category.defaultCategories] at hlength

end Notelayer
