import Notelayer.OperationViews

/-!
# The category operations of the store

`addCategory` to `applyOnboardingPresetCategories`. Three of them spawn a closure that
uploads the categories of the store as they are when it runs
(`Closure.upsertStoreCategories`), and `updateCategory` one that has the edited category.
None touches the tasks.
-/

namespace Notelayer

open KeyedList

/-- A closure `(inout Category) -> Void`. `Category.id` is a `let`. -/
structure CategoryUpdate where
  apply : Category → Category
  id_apply : ∀ category, (apply category).id = category.id

namespace Category

variable (c : Category)

@[simp] theorem normalizedColor_id : c.normalizedColor.id = c.id := by
  unfold normalizedColor
  rfl

@[simp] theorem normalizedColor_name : c.normalizedColor.name = c.name := by
  unfold normalizedColor
  rfl

@[simp] theorem normalizedColor_icon : c.normalizedColor.icon = c.icon := by
  unfold normalizedColor
  rfl

@[simp] theorem normalizedColor_order : c.normalizedColor.order = c.order := by
  unfold normalizedColor
  rfl

end Category

namespace LocalStore

variable (s : LocalStore)

/-! ## Operations -/

/-- `addCategory` where no order is the greatest `Int`. -/
def addCategory (category : Category) : LocalStore :=
  let shifted := s.categories.map fun c => { c with order := c.order + 1 }
  let newCategory := { category with order := 0 }
  let s := { s with categories := sortedByCategorySort (shifted ++ [newCategory]) }
  let s := (s.setUncategorizedPosition (s.uncategorizedPosition + 1)).saveCategories
  let s := s.logEvent "category_created" [("category_count", .int s.categories.length)]
  s.spawnSync .upsertStoreCategories

/-- `addCategory` on every store. `order += 1` traps at the greatest `Int`. -/
def checkedAddCategory (category : Category) : Option LocalStore := do
  guard (s.categories.all fun c => (checkedInt (c.order + 1)).isSome)
  return s.addCategory category

/-- The fields of `updates` that are there are assigned. -/
def updateCategory (id : String) (updates : CategoryUpdate) : LocalStore :=
  match s.categories.findIdx? fun c => c.id = id with
  | none => s
  | some index =>
    match s.categories[index]? with
    | none => s
    | some oldCategory =>
      let category := updates.apply oldCategory
      let s := { s with
        categories := sortedByCategorySort (s.categories.set index category) }.saveCategories
      let nameChanged := oldCategory.name ≠ category.name
      let iconChanged := oldCategory.icon ≠ category.icon
      let colorChanged := oldCategory.color ≠ category.color
      let s :=
        if nameChanged ∨ iconChanged ∨ colorChanged then
          s.logEvent "category_renamed" [
            ("name_changed", .bool nameChanged),
            ("icon_changed", .bool iconChanged),
            ("color_changed", .bool colorChanged)]
        else s
      s.spawnSync (.upsertCategory · category)

/-- The categories of the requested ids, numbered by the position of the id, then the others,
numbered on from their count. -/
def reorderedCategories (categoryMap : String → Option Category) (orderedIds : List String) :
    List Category :=
  let reordered := (orderedIds.mapIdx fun index id =>
    (categoryMap id).map fun category => { category with order := index }).filterMap id
  let remaining := (s.categories.filter fun c => c.id ∉ orderedIds).mapIdx fun offset category =>
    { category with order := (reordered.length : ℤ) + offset }
  reordered ++ remaining

/-- The categories take the orders of the request. Categories of one id trap. -/
def reorderCategories (orderedIds : List String) : Option LocalStore :=
  (uniqueKeysWithValues Category.id s.categories).map fun categoryMap =>
    let s := { s with categories :=
      sortedByCategorySort (s.reorderedCategories categoryMap orderedIds) }.saveCategories
    let s := s.logEvent "category_reordered" [("category_count", .int s.categories.length)]
    s.spawnSync .upsertStoreCategories

/-- The presets take the place of all categories. -/
def applyOnboardingPresetCategories (presetCategories : List Category) : LocalStore :=
  let categories := presetCategories.mapIdx fun index category => { category with order := index }
  let s := { s with categories := categories }
  let s := s.setUncategorizedPosition (min s.uncategorizedPosition s.categories.length)
  s.saveCategories.spawnSync .upsertStoreCategories

/-! ## The other fields -/

@[simp] theorem tasks_addCategory (c : Category) : (s.addCategory c).tasks = s.tasks := by
  simp [addCategory, setUncategorizedPosition]

@[simp] theorem tasks_applyOnboardingPresetCategories (cs : List Category) :
    (s.applyOnboardingPresetCategories cs).tasks = s.tasks := by
  simp [applyOnboardingPresetCategories, setUncategorizedPosition]

@[simp] theorem tasks_updateCategory (id : String) (updates : CategoryUpdate) :
    (s.updateCategory id updates).tasks = s.tasks := by
  unfold updateCategory
  dsimp only
  split
  · rfl
  · split
    · rfl
    · split_ifs <;> simp

theorem tasks_reorderCategories {s s' : LocalStore} {ids : List String}
    (h : s.reorderCategories ids = some s') : s'.tasks = s.tasks := by
  obtain ⟨categoryMap, -, rfl⟩ := Option.map_eq_some_iff.mp h
  simp

@[simp] theorem categories_spawnSync (c : FirestoreBackend → Closure) :
    (s.spawnSync c).categories = s.categories := by
  unfold spawnSync
  split <;> rfl

theorem categories_deleteCategory (id : String) (replacementId : Option String) (now : Date) :
    (s.deleteCategory id replacementId now).categories =
      (sortedByCategorySort (s.categories.filter fun c => c.id ≠ id)).mapIdx
        fun index c => { c with order := (index : ℤ) } := by
  unfold deleteCategory updateTasksForCategoryRemoval
  dsimp only [logEvent]
  rw [categories_spawnSync]
  split_ifs <;> rfl

theorem spawned_addCategory (c : Category) : (s.addCategory c).spawned =
    s.spawned ++ (s.syncingBackend.map Closure.upsertStoreCategories).toList := by
  unfold addCategory
  rw [spawned_spawnSync]
  rfl

theorem spawned_applyOnboardingPresetCategories (cs : List Category) :
    (s.applyOnboardingPresetCategories cs).spawned =
      s.spawned ++ (s.syncingBackend.map Closure.upsertStoreCategories).toList := by
  unfold applyOnboardingPresetCategories
  rw [spawned_spawnSync]
  rfl

theorem spawned_reorderCategories {s s' : LocalStore} {ids : List String}
    (h : s.reorderCategories ids = some s') : s'.spawned =
      s.spawned ++ (s.syncingBackend.map Closure.upsertStoreCategories).toList := by
  obtain ⟨categoryMap, -, rfl⟩ := Option.map_eq_some_iff.mp h
  rw [spawned_spawnSync]
  rfl

/-! ## The categories after an operation -/

theorem categories_addCategory (c : Category) : (s.addCategory c).categories =
    sortedByCategorySort (s.categories.map (fun c => { c with order := c.order + 1 }) ++
      [{ c with order := 0 }]) := by
  unfold addCategory
  rw [categories_spawnSync]
  rfl

theorem categories_applyOnboardingPresetCategories (cs : List Category) :
    (s.applyOnboardingPresetCategories cs).categories =
      cs.mapIdx fun index c => { c with order := (index : ℤ) } := by
  unfold applyOnboardingPresetCategories
  rw [categories_spawnSync]
  rfl

theorem categories_reorderCategories {s s' : LocalStore} {ids : List String}
    (h : s.reorderCategories ids = some s') : s'.categories =
      sortedByCategorySort (s.reorderedCategories (lookup Category.id s.categories) ids) := by
  unfold reorderCategories uniqueKeysWithValues at h
  obtain ⟨categoryMap, hmap, rfl⟩ := Option.map_eq_some_iff.mp h
  split_ifs at hmap
  obtain rfl := Option.some_inj.mp hmap
  rw [categories_spawnSync]
  rfl

/-- Nothing happens, or the category is replaced by the edited one and uploaded. -/
theorem updateCategory_cases (id : String) (updates : CategoryUpdate) :
    s.updateCategory id updates = s ∨ ∃ i old, s.categories[i]? = some old ∧
      (s.updateCategory id updates).categories =
        sortedByCategorySort (s.categories.set i (updates.apply old)) ∧
      (s.updateCategory id updates).spawned = s.spawned ++
        (s.syncingBackend.map (Closure.upsertCategory · (updates.apply old))).toList := by
  unfold updateCategory
  split
  · exact Or.inl rfl
  · rename_i i hfind
    split
    · exact Or.inl rfl
    · rename_i old hold
      refine Or.inr ⟨i, old, hold, ?_, ?_⟩
      · rw [categories_spawnSync]
        split_ifs <;> rfl
      · rw [spawned_spawnSync]
        split_ifs <;> rfl

theorem perm_sortedByCategorySort (cs : List Category) : (sortedByCategorySort cs).Perm cs :=
  List.perm_insertionSort _ cs

theorem distinctKeys_addCategory {s : LocalStore} (hd : DistinctKeys Category.id s.categories)
    {c : Category} (hc : c.id ∉ s.categories.map Category.id) :
    DistinctKeys Category.id (s.addCategory c).categories := by
  rw [categories_addCategory]
  refine DistinctKeys.perm ?_ (perm_sortedByCategorySort _).symm
  have hshifted : DistinctKeys Category.id
      (s.categories.map fun c => { c with order := c.order + 1 }) := hd.map fun _ => rfl
  refine hshifted.append_singleton ?_
  rw [List.map_map]
  exact hc

theorem ids_mapIdx_order (cs : List Category) :
    (cs.mapIdx fun index c => { c with order := (index : ℤ) }).map Category.id =
      cs.map Category.id :=
  map_mapIdx_eq_map (by simp) cs

theorem ids_mapIdx_order_add (n : ℤ) (cs : List Category) :
    (cs.mapIdx fun offset c => { c with order := n + offset }).map Category.id =
      cs.map Category.id :=
  map_mapIdx_eq_map (by simp) cs

/-- Categories picked by id have the ids they were picked by. -/
theorem ids_picked_sublist {ids : List String} {f : ℕ → String → Option Category}
    (hf : ∀ i id, ∀ c ∈ f i id, c.id = id) :
    (((ids.mapIdx f).filterMap id).map Category.id).Sublist ids := by
  induction ids generalizing f with
  | nil => exact List.Sublist.refl _
  | cons picked ids ih =>
    have htail := ih (f := fun i => f (i + 1)) fun i id c hc => hf (i + 1) id c hc
    rw [List.mapIdx_cons]
    cases hpick : f 0 picked with
    | none => exact htail.cons picked
    | some c =>
      have hid := hf 0 picked c hpick
      subst hid
      exact htail.cons_cons c.id

/-- A reordering repeats no id. -/
theorem distinctKeys_reorderCategories {s s' : LocalStore} {ids : List String}
    (hd : DistinctKeys Category.id s.categories) (hn : ids.Nodup)
    (h : s.reorderCategories ids = some s') : DistinctKeys Category.id s'.categories := by
  rw [categories_reorderCategories h]
  refine DistinctKeys.perm ?_ (perm_sortedByCategorySort _).symm
  unfold reorderedCategories
  dsimp only
  have hsub := @ids_picked_sublist ids (fun index id =>
    (lookup Category.id s.categories id).map fun c => { c with order := (index : ℤ) }) (by
      intro i id c hc
      obtain ⟨c', hc', rfl⟩ := Option.map_eq_some_iff.mp hc
      have hid := key_of_lookup hc'
      exact hid)
  unfold DistinctKeys
  rw [List.map_append, List.nodup_append]
  rw [ids_mapIdx_order_add]
  refine ⟨hsub.nodup hn, hd.sublist List.filter_sublist, ?_⟩
  rintro id hid id' hid' rfl
  obtain ⟨c, hc, rfl⟩ := List.mem_map.mp hid'
  exact (by simpa using (List.mem_filter.mp hc).2 : c.id ∉ ids) (hsub.subset hid)

/-! ## The category order -/

instance : Std.Total categoryPrecedes where
  total c d := by
    unfold categoryPrecedes
    rcases lt_trichotomy c.order d.order with h | h | h
    · exact Or.inl (Or.inl h)
    · rcases String.le_total c.id d.id with hid | hid
      · exact Or.inl (Or.inr ⟨h, hid⟩)
      · exact Or.inr (Or.inr ⟨h.symm, hid⟩)
    · exact Or.inr (Or.inl h)

instance : IsTrans Category categoryPrecedes where
  trans c d e := by
    unfold categoryPrecedes
    rintro (h | ⟨h, hid⟩) (h' | ⟨h', hid'⟩)
    · exact Or.inl (h.trans h')
    · exact Or.inl (h'.symm ▸ h)
    · exact Or.inl (h.symm ▸ h')
    · exact Or.inr ⟨h.trans h', String.le_trans hid hid'⟩

@[simp] theorem mem_sortedByCategorySort {cs : List Category} {c : Category} :
    c ∈ sortedByCategorySort cs ↔ c ∈ cs :=
  List.mem_insertionSort _

theorem pairwise_sortedByCategorySort (cs : List Category) :
    (sortedByCategorySort cs).Pairwise categoryPrecedes :=
  List.pairwise_insertionSort _ cs

/-- In a sorted list whose orders are all 0 the place of a category is given by its id. -/
theorem le_of_orders_zero {cs : List Category} (hd : DistinctKeys Category.id cs)
    (hsorted : cs.Pairwise categoryPrecedes) (hzero : ∀ c ∈ cs, c.order = 0) {i j : ℕ}
    {c d : Category} (hc : cs[i]? = some c) (hd' : cs[j]? = some d) (hle : c.id ≤ d.id) :
    i ≤ j := by
  by_contra hlt
  rw [not_le] at hlt
  obtain ⟨hi, rfl⟩ := List.getElem?_eq_some_iff.mp hc
  obtain ⟨hj, rfl⟩ := List.getElem?_eq_some_iff.mp hd'
  have hback : categoryPrecedes cs[j] cs[i] := List.pairwise_iff_getElem.mp hsorted j i hj hi hlt
  have hid : cs[j].id = cs[i].id := by
    rcases hback with h | ⟨-, h⟩
    · rw [hzero _ (List.getElem_mem hj), hzero _ (List.getElem_mem hi)] at h
      exact absurd h (lt_irrefl 0)
    · exact String.le_antisymm h hle
  have hpair : cs.Pairwise fun a b => a.id ≠ b.id := List.pairwise_map.mp hd
  exact List.pairwise_iff_getElem.mp hpair j i hj hi hlt hid

/-- The colors are normalized, and the sequence stays. -/
theorem precedes_migratedCategories {cs : List Category} (hd : DistinctKeys Category.id cs)
    (hsorted : cs.Pairwise categoryPrecedes) {c d : Category} (hc : c ∈ cs) (hd' : d ∈ cs)
    (h : categoryPrecedes c d) :
    ∃ c' ∈ migratedCategories cs, ∃ d' ∈ migratedCategories cs,
      c'.id = c.id ∧ d'.id = d.id ∧ categoryPrecedes c' d' := by
  unfold migratedCategories
  dsimp only
  split_ifs with hzero
  · have hall : ∀ e ∈ cs, e.order = 0 := by
      intro e he
      have he' := List.all_eq_true.mp hzero.2 e.normalizedColor (List.mem_map_of_mem he)
      rwa [decide_eq_true_iff, Category.normalizedColor_order] at he'
    obtain ⟨i, hi⟩ := List.mem_iff_getElem?.mp hc
    obtain ⟨j, hj⟩ := List.mem_iff_getElem?.mp hd'
    have hle : c.id ≤ d.id := by
      rcases h with h | ⟨-, h⟩
      · rw [hall c hc, hall d hd'] at h
        exact absurd h (lt_irrefl 0)
      · exact h
    have hij := le_of_orders_zero hd hsorted hall hi hj hle
    have hmem : ∀ {k : ℕ} {e : Category}, cs[k]? = some e →
        { e.normalizedColor with order := (k : ℤ) } ∈
          (cs.map Category.normalizedColor).mapIdx fun idx c => { c with order := (idx : ℤ) } := by
      intro k e he
      exact List.mem_iff_getElem?.mpr ⟨k, by simp [he]⟩
    refine ⟨{ c.normalizedColor with order := (i : ℤ) }, hmem hi,
      { d.normalizedColor with order := (j : ℤ) }, hmem hj, by simp, by simp, ?_⟩
    rcases hij.lt_or_eq with hlt | rfl
    · exact Or.inl (Int.ofNat_lt.mpr hlt)
    · exact Or.inr ⟨rfl, by simpa using hle⟩
  · refine ⟨c.normalizedColor, List.mem_map_of_mem hc, d.normalizedColor,
      List.mem_map_of_mem hd', by simp, by simp, ?_⟩
    simpa [categoryPrecedes] using h

/-- Ids, names and icons stay. -/
theorem exists_mem_migratedCategories {cs : List Category} {c : Category} (hc : c ∈ cs) :
    ∃ c' ∈ migratedCategories cs, c'.id = c.id ∧ c'.name = c.name ∧ c'.icon = c.icon := by
  unfold migratedCategories
  dsimp only
  split_ifs
  · obtain ⟨i, hi⟩ := List.mem_iff_getElem?.mp hc
    exact ⟨{ c.normalizedColor with order := (i : ℤ) },
      List.mem_iff_getElem?.mpr ⟨i, by simp [hi]⟩, by simp, by simp, by simp⟩
  · exact ⟨c.normalizedColor, List.mem_map_of_mem hc, by simp, by simp, by simp⟩

end LocalStore

end Notelayer
