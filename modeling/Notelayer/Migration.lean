import Notelayer.CategoryDisplay
import Notelayer.HierarchyRepair
import Notelayer.Reload

/-!
# What the migration establishes

`migrateIfNeeded` makes five repairs one after the other : default categories where there are
none, the colors, the orders, the position of the uncategorized group, and the links of the tasks.
`LocalStore.Migrated` says that nothing is left to repair. None of the repairs breaks what an
earlier one established, so the store is migrated afterwards, a second migration changes nothing,
and what was changed is persisted (`migrateIfNeeded_idempotent`).
-/

namespace Notelayer

open KeyedList

namespace LocalStore

variable {s s' : LocalStore}

/-- Nothing is left to repair. -/
structure Migrated (s : LocalStore) : Prop where
  categories : s.categories ≠ []
  colors : ∀ c ∈ s.categories, CategoryColorDefaults.normalizeHexOrDefault c.color c.id = c.color
  orders : 1 < s.categories.length → ∃ c ∈ s.categories, c.order ≠ 0
  position : 0 ≤ s.uncategorizedPosition ∧ s.uncategorizedPosition ≤ s.categories.length
  hierarchy : HierarchyRepaired s.tasks

/-- What differs is persisted. -/
structure SavesChanges (s s' : LocalStore) : Prop where
  categories : s'.categories ≠ s.categories → s'.userDefaults.categories = some s'.categories
  uncategorizedPosition : s'.uncategorizedPosition ≠ s.uncategorizedPosition →
    s'.userDefaults.uncategorizedPosition = some s'.uncategorizedPosition
  tasks : s'.tasks ≠ s.tasks → s'.userDefaults.tasks = some s'.tasks

/-! ## The repairs of the categories -/

/-- Numbers that differ from 0 are kept, and so are the colors. -/
theorem migratedCategories_eq_self {cs : List Category}
    (hcolors : ∀ c ∈ cs, CategoryColorDefaults.normalizeHexOrDefault c.color c.id = c.color)
    (horders : 1 < cs.length → ∃ c ∈ cs, c.order ≠ 0) : migratedCategories cs = cs := by
  have hnormalized : cs.map Category.normalizedColor = cs := by
    refine (List.map_congr_left fun c hc => ?_).trans (List.map_id cs)
    unfold Category.normalizedColor
    rw [hcolors c hc]
    rfl
  unfold migratedCategories
  dsimp only
  rw [hnormalized]
  split_ifs with hzero
  · obtain ⟨c, hc, horder⟩ := horders hzero.1
    exact absurd (of_decide_eq_true (List.all_eq_true.mp hzero.2 c hc)) horder
  · rfl

/-- The numbering leaves the colors. -/
theorem colors_migratedCategories (cs : List Category) : ∀ c ∈ migratedCategories cs,
    CategoryColorDefaults.normalizeHexOrDefault c.color c.id = c.color := by
  have hnormalized : ∀ c ∈ cs.map Category.normalizedColor,
      CategoryColorDefaults.IsNormal c.color := by
    intro c hc
    obtain ⟨c, -, rfl⟩ := List.mem_map.mp hc
    simp only [Category.normalizedColor]
    exact CategoryColorDefaults.isNormal_normalizeHexOrDefault c.color c.id
  intro c hc
  unfold migratedCategories at hc
  dsimp only at hc
  split_ifs at hc
  · obtain ⟨i, hi, rfl⟩ := List.mem_mapIdx.mp hc
    exact (hnormalized _ (List.getElem_mem hi)).normalizeHexOrDefault _
  · exact (hnormalized c hc).normalizeHexOrDefault _

/-- The orders of two or more migrated categories are not all 0. -/
theorem orders_migratedCategories {cs : List Category}
    (h : 1 < (migratedCategories cs).length) : ∃ c ∈ migratedCategories cs, c.order ≠ 0 := by
  rw [length_migratedCategories] at h
  unfold migratedCategories
  dsimp only
  split_ifs with hzero
  · have hlt : 1 < (cs.map Category.normalizedColor).length := by simpa using h
    refine ⟨_, List.mem_mapIdx.mpr ⟨1, hlt, rfl⟩, ?_⟩
    simp
  · rw [List.length_map, not_and] at hzero
    have hall := hzero h
    simpa using hall

/-! ## The whole migration -/

/-- There is nothing to repair in a migrated store. -/
theorem Migrated.migrateIfNeeded_eq (h : s.Migrated) : s.migrateIfNeeded = some s := by
  have hempty : s.migrateEmptyCategories = s := by
    unfold migrateEmptyCategories
    rw [if_neg]
    simpa using h.categories
  have hposition : s.migrateUncategorizedPosition = s := by
    unfold migrateUncategorizedPosition clampUncategorizedPosition
    dsimp only
    rw [if_neg]
    have := h.position
    omega
  have hlookup : uniqueKeysWithValues Task.id s.tasks = some (lookup Task.id s.tasks) :=
    if_pos h.hierarchy.1.1
  have htasks : s.tasks.map (Task.migrated (lookup Task.id s.tasks)) = s.tasks := by
    refine (List.map_congr_left fun t ht => ?_).trans (List.map_id s.tasks)
    rw [Task.migrated_eq_sanitized]
    exact (sanitized_eq_self_iff h.hierarchy.1.1 ht).mpr (h.hierarchy.not_offends ht)
  unfold migrateIfNeeded
  dsimp only
  rw [hempty, migratedCategories_eq_self h.colors h.orders, hposition, hlookup, Option.map_some,
    htasks]
  simp

/-- The repairs establish what they are for. -/
theorem migrated_migrateIfNeeded (hd : DistinctIds s.tasks)
    (hs : s.migrateIfNeeded = some s') : s'.Migrated := by
  obtain ⟨hcategories, hposition⟩ := Prod.mk.inj (categoryData_migrateIfNeeded hs)
  obtain ⟨s₁, hs₁, -, htasks⟩ := migrateIfNeeded_of_distinctIds hd
  obtain rfl := Option.some_inj.mp (hs₁.symm.trans hs)
  have hne : s.migrateEmptyCategories.categories ≠ [] := by
    rw [categories_migrateEmptyCategories]
    split_ifs with hempty
    · exact List.cons_ne_nil _ _
    · simpa using hempty
  have hlength : s₁.categories.length = s.migrateEmptyCategories.categories.length := by
    rw [hcategories, length_migratedCategories]
  refine ⟨?_, ?_, ?_, ?_, ?_⟩
  · exact List.ne_nil_of_length_pos (hlength ▸ List.length_pos_of_ne_nil hne)
  · rw [hcategories]
    exact colors_migratedCategories _
  · rw [hcategories]
    exact orders_migratedCategories
  · rw [hposition, hlength]
    unfold clampUncategorizedPosition
    omega
  · rw [htasks]
    exact hierarchyRepaired_sanitizedTasks hd

/-! ## What is persisted -/

/-- The value and what is persisted of it are kept, or the value is persisted. -/
def KeptOrSaved {A : Type} (value value' : A) (saved saved' : Option A) : Prop :=
  value' = value ∧ saved' = saved ∨ saved' = some value'

theorem KeptOrSaved.saved {A : Type} {value value' : A} {saved saved' : Option A}
    (h : KeptOrSaved value value' saved saved') (hne : value' ≠ value) : saved' = some value' :=
  h.resolve_left fun hkept => hne hkept.1

/-- An edit persists what it writes. -/
theorem Edits.keptOrSaved (h : s.Edits s') :
    KeptOrSaved s.categories s'.categories s.userDefaults.categories
        s'.userDefaults.categories ∧
      KeptOrSaved s.uncategorizedPosition s'.uncategorizedPosition
        s.userDefaults.uncategorizedPosition s'.userDefaults.uncategorizedPosition ∧
      KeptOrSaved s.tasks s'.tasks s.userDefaults.tasks s'.userDefaults.tasks := by
  induction h with
  | refl => exact ⟨Or.inl ⟨rfl, rfl⟩, Or.inl ⟨rfl, rfl⟩, Or.inl ⟨rfl, rfl⟩⟩
  | notes _ _ ih => exact ih
  | tasks _ _ ih => exact ⟨ih.1, ih.2.1, Or.inr rfl⟩
  | categories _ _ ih => exact ⟨Or.inr rfl, ih.2⟩
  | position _ _ ih => exact ⟨ih.1, Or.inr rfl, ih.2.2⟩
  | logEvent _ _ _ ih => exact ih
  | spawn _ _ ih => exact ih
  | spawnSync _ _ ih =>
    unfold LocalStore.spawnSync
    split
    · exact ih
    · exact ih

theorem Edits.savesChanges (h : s.Edits s') : s.SavesChanges s' :=
  ⟨h.keptOrSaved.1.saved, h.keptOrSaved.2.1.saved, h.keptOrSaved.2.2.saved⟩

end LocalStore

/-- On distinct ids the migration does not trap, leaves nothing to repair and persists what it
changes. -/
theorem migrateIfNeeded_idempotent {s : LocalStore} (hd : (s.tasks.map Task.id).Nodup) :
    ∃ s', s.migrateIfNeeded = some s' ∧ s'.Migrated ∧ s'.migrateIfNeeded = some s' ∧
      s.SavesChanges s' := by
  obtain ⟨s', hs', -, -⟩ := LocalStore.migrateIfNeeded_of_distinctIds hd
  have hmigrated : s'.Migrated := LocalStore.migrated_migrateIfNeeded hd hs'
  exact ⟨s', hs', hmigrated, hmigrated.migrateIfNeeded_eq,
    (LocalStore.Edits.refl.migrateIfNeeded hs').savesChanges⟩

/-- Colors that are no hex colors, no orders, a position that is too large, and tangled links. -/
def sampleUnmigrated : LocalStore where
  categories := [⟨"work", "Work", "💼", " blue ", 0⟩, ⟨"home", "Home", "🏠", "00ff00", 0⟩]
  uncategorizedPosition := 7
  tasks := tangledTasks

theorem migrateIfNeeded_idempotent_sample : ∃ s', sampleUnmigrated.migrateIfNeeded = some s' ∧
    s'.Migrated ∧ s'.migrateIfNeeded = some s' ∧ sampleUnmigrated.SavesChanges s' :=
  migrateIfNeeded_idempotent (by decide)

end Notelayer
