import Notelayer.CategoryOperations
import Notelayer.Library.MarkedList
import Notelayer.TodosView

/-!
# The displayed order of the categories

The category mode shows the sorted categories with the uncategorized group among them, at
`uncategorizedPosition`. `LocalStore.display` is the sequence of their keys. The operations on
categories act on it as on a list (`LocalStore.display_operations`) : the order fields and the
position are renumbered together.

The categories and the position arrive from two listeners. The position is clamped against the
categories that are there when it arrives, so the order of the two deliveries matters
(`LocalStore.remoteCategoryData_comm_iff`).
-/

namespace Notelayer

open KeyedList MarkedList

/-! ## The view -/

/-- What a dragged group of the category mode carries. -/
structure CategoryGroupDragPayload where
  groupId : String

namespace TodoCategoryModeView

/-- A drop of a group before another group, or at the end. -/
def applyCategoryGroupReorder (store : LocalStore) (payload : CategoryGroupDragPayload)
    (beforeGroupKey : Option String) : Option LocalStore :=
  let uncategorizedGroupKey := "uncategorized"
  let orderedCategoryIds := store.sortedCategories.map Category.id
  let uncategorizedIndex := min (max store.uncategorizedPosition 0) orderedCategoryIds.length
  let groupIds := orderedCategoryIds.insertIdx uncategorizedIndex.toNat uncategorizedGroupKey
  match groupIds.idxOf? payload.groupId with
  | none => some store
  | some fromIndex =>
    let groupIds := groupIds.eraseIdx fromIndex
    let groupIds := match beforeGroupKey.bind groupIds.idxOf? with
      | some toIndex => groupIds.insertIdx toIndex payload.groupId
      | none => groupIds ++ [payload.groupId]
    let updatedUncategorizedIndex := (groupIds.idxOf? uncategorizedGroupKey).getD 0
    let store := store.setUncategorizedPosition updatedUncategorizedIndex
    store.reorderCategories (groupIds.filter (· ≠ uncategorizedGroupKey))

end TodoCategoryModeView

namespace LocalStore

variable (s : LocalStore)

/-- The ids of the sorted categories, with the key of the uncategorized group among them. -/
def display : List String :=
  (s.sortedCategories.map Category.id).insertIdx s.uncategorizedPosition.toNat "uncategorized"

/-- No two groups have the same key, no order is negative, and the position is in the list. -/
structure IsDisplayable : Prop where
  distinct : DistinctKeys Category.id s.categories
  notReserved : "uncategorized" ∉ s.categories.map Category.id
  orders : ∀ c ∈ s.categories, 0 ≤ c.order
  nonneg : 0 ≤ s.uncategorizedPosition
  le_length : s.uncategorizedPosition ≤ s.categories.length

/-- No two groups have the same key, and the position is in the list, whatever the orders are. -/
structure HasGroups : Prop where
  distinct : DistinctKeys Category.id s.categories
  notReserved : "uncategorized" ∉ s.categories.map Category.id
  nonneg : 0 ≤ s.uncategorizedPosition
  le_length : s.uncategorizedPosition ≤ s.categories.length

/-! ## Sorting -/

/-- A sequence in category order is the sorted list of its categories. -/
theorem sortedByCategorySort_eq {cs l : List Category} (hd : DistinctKeys Category.id cs)
    (hperm : l.Perm cs) (hsorted : l.Pairwise categoryPrecedes) : sortedByCategorySort cs = l := by
  refine List.Perm.eq_of_pairwise ?_ (pairwise_sortedByCategorySort cs) hsorted
    ((perm_sortedByCategorySort cs).trans hperm.symm)
  intro c d hc hd' hcd hdc
  have hid : c.id = d.id := by
    rcases hcd with hlt | ⟨heq, hle⟩
    · rcases hdc with hlt' | ⟨heq', -⟩
      · exact absurd hlt (not_lt.mpr hlt'.le)
      · exact absurd heq' hlt.ne'
    · rcases hdc with hlt' | ⟨-, hle'⟩
      · exact absurd heq hlt'.ne'
      · exact String.le_antisymm hle hle'
  exact List.inj_on_of_nodup_map hd (mem_sortedByCategorySort.mp hc) (hperm.subset hd') hid

theorem length_sortedCategories : s.sortedCategories.length = s.categories.length :=
  (perm_sortedByCategorySort s.categories).length_eq

theorem mem_ids_sortedCategories {id : String} :
    id ∈ s.sortedCategories.map Category.id ↔ id ∈ s.categories.map Category.id :=
  ((perm_sortedByCategorySort s.categories).map Category.id).mem_iff

/-- Categories that are numbered from 0 on are sorted. -/
theorem pairwise_mapIdx_order (cs : List Category) :
    (cs.mapIdx fun index c => { c with order := (index : ℤ) }).Pairwise categoryPrecedes := by
  refine List.pairwise_iff_getElem.mpr fun i j hi hj hij => Or.inl ?_
  simpa using hij

theorem sortedByCategorySort_mapIdx_order {cs : List Category}
    (hd : DistinctKeys Category.id cs) :
    sortedByCategorySort (cs.mapIdx fun index c => { c with order := (index : ℤ) }) =
      cs.mapIdx fun index c => { c with order := (index : ℤ) } := by
  refine sortedByCategorySort_eq ?_ (List.Perm.refl _) (pairwise_mapIdx_order cs)
  unfold DistinctKeys
  rwa [ids_mapIdx_order]

/-- Removing a category and sorting commute. -/
theorem sortedByCategorySort_filter {cs : List Category} (hd : DistinctKeys Category.id cs)
    (p : Category → Bool) :
    sortedByCategorySort (cs.filter p) = (sortedByCategorySort cs).filter p :=
  sortedByCategorySort_eq (hd.sublist List.filter_sublist)
    ((perm_sortedByCategorySort cs).filter p)
    ((pairwise_sortedByCategorySort cs).sublist List.filter_sublist)

@[simp] theorem uncategorizedPosition_spawnSync (c : FirestoreBackend → Closure) :
    (s.spawnSync c).uncategorizedPosition = s.uncategorizedPosition := by
  unfold spawnSync
  split <;> rfl

theorem clampUncategorizedPosition_eq {position : ℤ} {categoryCount : ℕ} (h : 0 ≤ position)
    (hle : position ≤ categoryCount) :
    clampUncategorizedPosition position categoryCount = position := by
  unfold clampUncategorizedPosition
  omega

variable {s}

theorem IsDisplayable.hasGroups (h : s.IsDisplayable) : s.HasGroups :=
  ⟨h.distinct, h.notReserved, h.nonneg, h.le_length⟩

theorem HasGroups.toNat_le (h : s.HasGroups) :
    s.uncategorizedPosition.toNat ≤ (s.sortedCategories.map Category.id).length := by
  have hle := h.le_length
  rw [List.length_map, length_sortedCategories]
  omega

theorem HasGroups.nodup_ids (h : s.HasGroups) :
    (s.sortedCategories.map Category.id).Nodup :=
  h.distinct.perm (perm_sortedByCategorySort s.categories).symm

theorem HasGroups.notMem_ids (h : s.HasGroups) :
    "uncategorized" ∉ s.sortedCategories.map Category.id :=
  fun hmem => h.notReserved (s.mem_ids_sortedCategories.mp hmem)

theorem HasGroups.nodup_display (h : s.HasGroups) : s.display.Nodup :=
  nodup_insertIdx h.nodup_ids h.notMem_ids h.toNat_le

theorem HasGroups.mem_display (h : s.HasGroups) {key : String} :
    key ∈ s.display ↔ key = "uncategorized" ∨ key ∈ s.categories.map Category.id := by
  unfold display
  rw [List.mem_insertIdx h.toNat_le, mem_ids_sortedCategories]

/-! ## Adding a category -/

/-- A new category moves the uncategorized group one place down. -/
theorem uncategorizedPosition_addCategory (c : Category) :
    (s.addCategory c).uncategorizedPosition =
      clampUncategorizedPosition (s.uncategorizedPosition + 1) (s.categories.length + 1) := by
  have hlength : (sortedByCategorySort (s.categories.map
      (fun c => { c with order := c.order + 1 }) ++ [{ c with order := 0 }])).length =
        s.categories.length + 1 := by
    rw [(perm_sortedByCategorySort _).length_eq]
    simp
  unfold addCategory
  rw [uncategorizedPosition_spawnSync]
  change clampUncategorizedPosition _ (sortedByCategorySort _).length = _
  rw [hlength]

/-- The new category is first, and the others follow in their sequence. -/
theorem sortedCategories_addCategory (h : s.IsDisplayable) {c : Category}
    (hnew : c.id ∉ s.categories.map Category.id) : (s.addCategory c).sortedCategories =
      { c with order := 0 } ::
        s.sortedCategories.map fun c => { c with order := c.order + 1 } := by
  refine sortedByCategorySort_eq (distinctKeys_addCategory h.distinct hnew) ?_ ?_
  · rw [categories_addCategory]
    refine List.Perm.trans ?_ (perm_sortedByCategorySort _).symm
    refine List.Perm.trans ?_ (List.perm_append_singleton _ _).symm
    exact ((perm_sortedByCategorySort s.categories).map _).cons _
  · refine List.pairwise_cons.mpr ⟨fun d hd => Or.inl ?_, ?_⟩
    · obtain ⟨e, he, rfl⟩ := List.mem_map.mp hd
      have hnonneg := h.orders e (mem_sortedByCategorySort.mp he)
      exact Int.lt_add_one_of_le hnonneg
    · refine List.pairwise_map.mpr ((pairwise_sortedByCategorySort s.categories).imp ?_)
      rintro d e (hlt | ⟨heq, hle⟩)
      · exact Or.inl (Int.add_lt_add_right hlt 1)
      · exact Or.inr ⟨congrArg (· + 1) heq, hle⟩

/-- A new category is displayed first. -/
theorem IsDisplayable.addCategory (h : s.IsDisplayable) {c : Category} (hnew : c.id ∉ s.display) :
    (s.addCategory c).display = c.id :: s.display ∧ (s.addCategory c).IsDisplayable := by
  rw [h.hasGroups.mem_display, not_or] at hnew
  obtain ⟨hreserved, hnew⟩ := hnew
  have hposition : (s.addCategory c).uncategorizedPosition = s.uncategorizedPosition + 1 := by
    rw [uncategorizedPosition_addCategory]
    have hnonneg := h.nonneg
    have hle := h.le_length
    exact clampUncategorizedPosition_eq (by omega) (by push_cast; omega)
  have hcategories := categories_addCategory s c
  refine ⟨?_, ?_⟩
  · unfold display
    have hnat : (s.uncategorizedPosition + 1).toNat = s.uncategorizedPosition.toNat + 1 := by
      have hnonneg := h.nonneg
      omega
    rw [hposition, sortedCategories_addCategory h hnew, hnat, List.map_cons,
      List.insertIdx_succ_cons, List.map_map]
    rfl
  · have hperm : (s.addCategory c).categories.Perm (s.categories.map
        (fun c => { c with order := c.order + 1 }) ++ [{ c with order := 0 }]) := by
      rw [hcategories]
      exact perm_sortedByCategorySort _
    refine ⟨distinctKeys_addCategory h.distinct hnew, ?_, fun d hd => ?_, ?_, ?_⟩
    · rw [(hperm.map Category.id).mem_iff, List.map_append, List.mem_append, List.map_map]
      rintro (hmem | hmem)
      · exact h.notReserved hmem
      · exact hreserved (List.mem_singleton.mp hmem).symm
    · rcases List.mem_append.mp (hperm.subset hd) with hd | hd
      · obtain ⟨e, he, rfl⟩ := List.mem_map.mp hd
        have hnonneg := h.orders e he
        exact Int.le_add_one hnonneg
      · rw [List.mem_singleton.mp hd]
    · have hnonneg := h.nonneg
      omega
    · have hle := h.le_length
      rw [hperm.length_eq, hposition]
      simp only [List.length_append, List.length_map, List.length_singleton]
      push_cast
      omega

/-- No order overflows if each is below the greatest `Int`. -/
theorem checkedAddCategory_eq (h : s.IsDisplayable)
    (horders : ∀ c ∈ s.categories, c.order < 2 ^ 63 - 1) (c : Category) :
    s.checkedAddCategory c = some (s.addCategory c) := by
  have hall : s.categories.all (fun c => (checkedInt (c.order + 1)).isSome) = true := by
    refine List.all_eq_true.mpr fun d hd => ?_
    have hnonneg := h.orders d hd
    have hlt := horders d hd
    have hfits : -2 ^ 63 ≤ d.order + 1 ∧ d.order + 1 < 2 ^ 63 := ⟨by omega, by omega⟩
    rw [checkedInt, if_pos hfits, Option.isSome_some]
  simp [checkedAddCategory, hall]

/-! ## Deleting a category -/

/-- The uncategorized group moves up if a category above it goes. -/
theorem uncategorizedPosition_deleteCategory (id : String) (replacementId : Option String)
    (now : Date) : (s.deleteCategory id replacementId now).uncategorizedPosition =
      clampUncategorizedPosition
        (if (s.sortedCategories.findIdx? fun c => c.id = id).any fun removedIndex =>
            (removedIndex : ℤ) < s.uncategorizedPosition
          then s.uncategorizedPosition - 1 else s.uncategorizedPosition)
        (s.deleteCategory id replacementId now).categories.length := by
  have hkept : (s.updateTasksForCategoryRemoval id (s.resolvedReplacementId id replacementId)
      now).1.uncategorizedPosition = s.uncategorizedPosition := by
    unfold updateTasksForCategoryRemoval
    dsimp only
    split_ifs <;> rfl
  unfold deleteCategory
  dsimp only [logEvent, normalizeCategoryOrder]
  generalize s.updateTasksForCategoryRemoval id (s.resolvedReplacementId id replacementId) now = p
    at hkept ⊢
  rw [uncategorizedPosition_spawnSync, categories_spawnSync, hkept]
  split_ifs <;> rfl

/-- The other categories keep their sequence. -/
theorem ids_sortedCategories_deleteCategory (h : s.IsDisplayable) (id : String)
    (replacementId : Option String) (now : Date) :
    (s.deleteCategory id replacementId now).sortedCategories.map Category.id =
      (s.sortedCategories.map Category.id).filter (· ≠ id) := by
  have hd : DistinctKeys Category.id
      (sortedByCategorySort (s.categories.filter fun c => c.id ≠ id)) :=
    (h.distinct.sublist List.filter_sublist).perm (perm_sortedByCategorySort _).symm
  unfold sortedCategories
  rw [categories_deleteCategory, sortedByCategorySort_mapIdx_order hd, ids_mapIdx_order,
    sortedByCategorySort_filter h.distinct, List.filter_map]
  rfl

/-- The index at which the category is removed. -/
theorem any_findIdx?_lt {cs : List Category} {id : String} {position : ℤ}
    (hle : position ≤ cs.length) :
    ((cs.findIdx? fun c => c.id = id).any fun removedIndex => (removedIndex : ℤ) < position) =
      decide ((cs.map Category.id).idxOf id < position.toNat) := by
  have hidx : (cs.map Category.id).idxOf id = cs.findIdx fun c => c.id = id := by
    rw [List.idxOf, List.findIdx_map]
    refine congrArg (List.findIdx · cs) (funext fun c => ?_)
    simp [Function.comp_apply, beq_eq_decide]
  rw [hidx]
  cases hfind : cs.findIdx? fun c => c.id = id with
  | none =>
    have hend := List.findIdx?_eq_none_iff_findIdx_eq.mp hfind
    change false = _
    rw [hend, eq_comm, decide_eq_false_iff_not]
    omega
  | some index =>
    obtain ⟨-, hindex⟩ := List.findIdx?_eq_some_iff_findIdx_eq.mp hfind
    change decide ((index : ℤ) < position) = _
    rw [hindex, decide_eq_decide]
    omega

/-- A deletion takes the category out of the display and leaves the others where they are. -/
theorem IsDisplayable.deleteCategory (h : s.IsDisplayable) {id : String}
    (hid : id ≠ "uncategorized") (replacementId : Option String) (now : Date) :
    (s.deleteCategory id replacementId now).display = s.display.filter (· ≠ id) ∧
      (s.deleteCategory id replacementId now).IsDisplayable := by
  have hids := ids_sortedCategories_deleteCategory h id replacementId now
  have hkeys := h.hasGroups
  have hnonneg := h.nonneg
  have hle := h.le_length
  have hremoved := @any_findIdx?_lt s.sortedCategories id s.uncategorizedPosition
    (by rwa [length_sortedCategories])
  have hlength : (s.deleteCategory id replacementId now).categories.length =
      ((s.sortedCategories.map Category.id).filter (· ≠ id)).length := by
    rw [← hids, List.length_map, length_sortedCategories]
  -- The position is the number of categories before the uncategorized group that are left.
  have hcount := length_filter_ne_take (y := id) hkeys.nodup_ids hkeys.toNat_le
  have hbound : (((s.sortedCategories.map Category.id).take
      s.uncategorizedPosition.toNat).filter (· ≠ id)).length ≤
        ((s.sortedCategories.map Category.id).filter (· ≠ id)).length :=
    ((List.take_sublist _ _).filter _).length_le
  have hposition : (s.deleteCategory id replacementId now).uncategorizedPosition =
      ((if (s.sortedCategories.map Category.id).idxOf id < s.uncategorizedPosition.toNat
        then s.uncategorizedPosition.toNat - 1 else s.uncategorizedPosition.toNat : ℕ) : ℤ) := by
    rw [uncategorizedPosition_deleteCategory, hremoved, hlength]
    rw [hcount] at hbound
    unfold clampUncategorizedPosition
    split_ifs at hbound ⊢ <;> simp only [decide_eq_true_eq] at * <;> omega
  refine ⟨?_, ?_⟩
  · unfold display
    rw [hids, hposition, Int.toNat_natCast,
      filter_ne_insertIdx hkeys.nodup_ids hkeys.toNat_le hid.symm]
  · have hperm : ((s.deleteCategory id replacementId now).categories.map Category.id).Perm
        ((s.sortedCategories.map Category.id).filter (· ≠ id)) := by
      rw [← hids]
      exact ((perm_sortedByCategorySort _).map _).symm
    refine ⟨hperm.symm.nodup (hkeys.nodup_ids.filter _), fun hmem => ?_, fun c hc => ?_, ?_, ?_⟩
    · exact hkeys.notMem_ids (List.mem_of_mem_filter (hperm.subset hmem))
    · rw [categories_deleteCategory] at hc
      obtain ⟨index, hindex, rfl⟩ := List.mem_mapIdx.mp hc
      exact Int.natCast_nonneg index
    · rw [hposition]
      exact Int.natCast_nonneg _
    · rw [hposition, hlength, ← hcount]
      exact Int.ofNat_le.mpr hbound

/-! ## Reordering the groups -/

/-- The categories of ids that are all there. -/
theorem exists_map_lookup {cs : List Category} {ids : List String}
    (h : ∀ id ∈ ids, id ∈ cs.map Category.id) : ∃ picked : List Category,
      picked.map Category.id = ids ∧ ids.map (lookup Category.id cs) = picked.map some := by
  induction ids with
  | nil => exact ⟨[], rfl, rfl⟩
  | cons id ids ih =>
    obtain ⟨picked, hpicked, hmap⟩ := ih fun id hid => h id (List.mem_cons_of_mem _ hid)
    obtain ⟨c, hc⟩ := Option.ne_none_iff_exists'.mp fun hnone =>
      lookup_eq_none_iff_notMem.mp hnone (h id List.mem_cons_self)
    exact ⟨c :: picked, by rw [List.map_cons, hpicked, key_of_lookup hc],
      by rw [List.map_cons, hmap, hc]; rfl⟩

/-- If every category is requested, the categories are numbered in the requested sequence. -/
theorem ids_reorderedCategories {ids : List String}
    (hids : ids.Perm (s.categories.map Category.id)) :
    (s.reorderedCategories (lookup Category.id s.categories) ids).map Category.id = ids ∧
      ∃ cs : List Category, s.reorderedCategories (lookup Category.id s.categories) ids =
        cs.mapIdx fun index c => { c with order := (index : ℤ) } := by
  have hremaining : (s.categories.filter fun c => c.id ∉ ids) = [] := by
    refine List.filter_eq_nil_iff.mpr fun c hc => ?_
    simpa using hids.symm.subset (List.mem_map_of_mem hc)
  obtain ⟨cs, hcs, hpicked⟩ : ∃ cs : List Category, cs.map Category.id = ids ∧
      ids.map (lookup Category.id s.categories) = cs.map some := by
    refine exists_map_lookup fun id hid => ?_
    exact hids.subset hid
  have hreordered : (ids.mapIdx fun index id => (lookup Category.id s.categories id).map
      fun category => { category with order := (index : ℤ) }).filterMap id =
        cs.mapIdx fun index c => { c with order := (index : ℤ) } := by
    have hmap : (ids.mapIdx fun index id => (lookup Category.id s.categories id).map
        fun category => { category with order := (index : ℤ) }) =
          (cs.mapIdx fun index c => { c with order := (index : ℤ) }).map some := by
      refine List.ext_getElem? fun i => ?_
      have hentry : (ids[i]?).map (lookup Category.id s.categories) = (cs[i]?).map some := by
        rw [← List.getElem?_map, hpicked, List.getElem?_map]
      rw [List.getElem?_mapIdx, List.getElem?_map, List.getElem?_mapIdx, Option.map_map]
      rcases hid : ids[i]? with _ | id <;> rcases hc : cs[i]? with _ | c <;>
        simp_all
    rw [hmap, List.filterMap_map]
    exact List.filterMap_some
  have hall : s.reorderedCategories (lookup Category.id s.categories) ids =
      cs.mapIdx fun index c => { c with order := (index : ℤ) } := by
    unfold reorderedCategories
    dsimp only
    rw [hremaining, List.mapIdx_nil, List.append_nil]
    exact hreordered
  refine ⟨?_, cs, hall⟩
  rw [hall, ids_mapIdx_order, hcs]

theorem uncategorizedPosition_reorderCategories {s' : LocalStore} {ids : List String}
    (h : s.reorderCategories ids = some s') :
    s'.uncategorizedPosition = s.uncategorizedPosition := by
  obtain ⟨categoryMap, -, rfl⟩ := Option.map_eq_some_iff.mp h
  rw [uncategorizedPosition_spawnSync]
  rfl

/-- Any sequence of the displayed keys can be made the displayed one. -/
theorem HasGroups.reorderCategories (h : s.HasGroups) {keys : List String}
    (hkeys : keys.Perm s.display) :
    ∃ s', (s.setUncategorizedPosition (keys.idxOf "uncategorized")).reorderCategories
        (keys.filter (· ≠ "uncategorized")) = some s' ∧
      s'.display = keys ∧ s'.IsDisplayable := by
  have hnodup : keys.Nodup := hkeys.symm.nodup h.nodup_display
  have hmem : "uncategorized" ∈ keys := hkeys.symm.subset (h.mem_display.mpr (Or.inl rfl))
  have hids : (keys.filter (· ≠ "uncategorized")).Perm (s.categories.map Category.id) := by
    refine (hkeys.filter _).trans ?_
    rw [display, filter_insertIdx_self h.notMem_ids h.toNat_le]
    exact (perm_sortedByCategorySort _).map _
  have hlength : keys.length = s.categories.length + 1 := by
    rw [hkeys.length_eq, display, List.length_insertIdx_of_le_length h.toNat_le, List.length_map,
      length_sortedCategories]
  have hindex : keys.idxOf "uncategorized" ≤ s.categories.length := by
    have hlt := List.idxOf_lt_length_of_mem hmem
    omega
  obtain ⟨s', hs'⟩ : ∃ s', (s.setUncategorizedPosition
      (keys.idxOf "uncategorized")).reorderCategories (keys.filter (· ≠ "uncategorized")) =
        some s' :=
    ⟨_, congrArg _ (if_pos h.distinct)⟩
  have hposition : s'.uncategorizedPosition = keys.idxOf "uncategorized" := by
    rw [uncategorizedPosition_reorderCategories hs']
    exact clampUncategorizedPosition_eq (Int.natCast_nonneg _) (Int.ofNat_le.mpr hindex)
  obtain ⟨hreordered, cs, hcs⟩ := ids_reorderedCategories hids
  have hd : DistinctKeys Category.id cs := by
    unfold DistinctKeys
    rw [← ids_mapIdx_order, ← hcs, hreordered]
    exact hnodup.filter _
  have hcategories : s'.categories = cs.mapIdx fun index c => { c with order := (index : ℤ) } := by
    rw [categories_reorderCategories hs', ← sortedByCategorySort_mapIdx_order hd, ← hcs]
    rfl
  have hsorted : s'.sortedCategories.map Category.id = keys.filter (· ≠ "uncategorized") := by
    rw [sortedCategories, hcategories, sortedByCategorySort_mapIdx_order hd, ← hcs, hreordered]
  have hperm : (s'.categories.map Category.id).Perm (s.categories.map Category.id) := by
    refine List.Perm.trans ?_ hids
    rw [← hsorted]
    exact ((perm_sortedByCategorySort _).map _).symm
  refine ⟨s', hs', ?_, hperm.symm.nodup h.distinct, ?_, fun c hc => ?_, ?_, ?_⟩
  · rw [display, hsorted, hposition, Int.toNat_natCast, insertIdx_idxOf hnodup hmem]
  · exact fun hmem' => h.notReserved (hperm.subset hmem')
  · rw [hcategories] at hc
    obtain ⟨index, hindex, rfl⟩ := List.mem_mapIdx.mp hc
    exact Int.natCast_nonneg index
  · rw [hposition]
    exact Int.natCast_nonneg _
  · have hcount := hperm.length_eq
    rw [List.length_map, List.length_map] at hcount
    rw [hposition, hcount]
    exact Int.ofNat_le.mpr hindex

theorem HasGroups.clamped_position (h : s.HasGroups) :
    min (max s.uncategorizedPosition 0) (s.sortedCategories.map Category.id).length =
      s.uncategorizedPosition := by
  have hnonneg := h.nonneg
  have hle := h.le_length
  rw [List.length_map, length_sortedCategories]
  omega

/-- A displayed group is moved before another one, or to the end if it is dropped on itself. -/
theorem HasGroups.applyCategoryGroupReorder (h : s.HasGroups) {groupId : String}
    (hgroup : groupId ∈ s.display) (beforeGroupKey : Option String) :
    ∃ s', TodoCategoryModeView.applyCategoryGroupReorder s ⟨groupId⟩ beforeGroupKey = some s' ∧
      s'.display = moveBefore groupId
        (beforeGroupKey.filter fun key => key ∈ s.display.filter (· ≠ groupId)) s.display ∧
      s'.IsDisplayable := by
  obtain ⟨t, ht⟩ : ∃ t, t = beforeGroupKey.filter fun key =>
    key ∈ s.display.filter (· ≠ groupId) := ⟨_, rfl⟩
  rw [← ht]
  have hmoved := perm_moveBefore h.nodup_display hgroup t
  have hmem : "uncategorized" ∈ moveBefore groupId t s.display :=
    hmoved.symm.subset (h.mem_display.mpr (Or.inl rfl))
  obtain ⟨s', hs', hdisplay, hok⟩ := h.reorderCategories hmoved
  refine ⟨s', ?_, hdisplay, hok⟩
  have hposition := h.clamped_position
  have hgroups : (s.sortedCategories.map Category.id).insertIdx (min (max s.uncategorizedPosition 0)
      (s.sortedCategories.map Category.id).length).toNat "uncategorized" = s.display := by
    rw [hposition, display]
  have hrest : s.display.eraseIdx (s.display.idxOf groupId) =
      s.display.filter (· ≠ groupId) := by
    rw [List.eraseIdx_idxOf_eq_erase, filter_ne_eq_erase h.nodup_display]
  have hput : (match beforeGroupKey.bind (s.display.filter (· ≠ groupId)).idxOf? with
      | some toIndex => (s.display.filter (· ≠ groupId)).insertIdx toIndex groupId
      | none => s.display.filter (· ≠ groupId) ++ [groupId]) =
        moveBefore groupId t s.display := by
    rw [ht]
    cases beforeGroupKey with
    | none => rfl
    | some key =>
      by_cases hkey : key ∈ s.display.filter (· ≠ groupId)
      · rw [Option.bind_some, idxOf?_of_mem hkey, Option.filter_some, if_pos (decide_eq_true hkey)]
        exact insertIdx_idxOf_eq groupId key _
      · rw [Option.bind_some, List.idxOf?_eq_none_iff.mpr hkey, Option.filter_some,
          if_neg fun hmem => hkey (of_decide_eq_true hmem)]
        rfl
  unfold TodoCategoryModeView.applyCategoryGroupReorder
  dsimp only
  rw [hgroups, idxOf?_of_mem hgroup]
  dsimp only
  rw [hrest, hput, idxOf?_of_mem hmem]
  exact hs'

/-- A displayed group is moved before another one, or to the end. -/
theorem IsDisplayable.applyCategoryGroupReorder (h : s.IsDisplayable) {groupId : String}
    (hgroup : groupId ∈ s.display) {beforeGroupKey : Option String}
    (hbefore : ∀ key ∈ beforeGroupKey, key ∈ s.display ∧ key ≠ groupId) :
    ∃ s', TodoCategoryModeView.applyCategoryGroupReorder s ⟨groupId⟩ beforeGroupKey = some s' ∧
      s'.display = moveBefore groupId beforeGroupKey s.display ∧ s'.IsDisplayable := by
  have hfilter : (beforeGroupKey.filter fun key => key ∈ s.display.filter (· ≠ groupId)) =
      beforeGroupKey := by
    cases beforeGroupKey with
    | none => rfl
    | some key =>
      obtain ⟨hkey, hne⟩ := hbefore key rfl
      have hmem : key ∈ s.display.filter (· ≠ groupId) :=
        List.mem_filter.mpr ⟨hkey, decide_eq_true hne⟩
      rw [Option.filter_some, if_pos (decide_eq_true hmem)]
  have hmoved := h.hasGroups.applyCategoryGroupReorder hgroup beforeGroupKey
  rwa [hfilter] at hmoved

/-- Each operation acts on the displayed sequence as on a list : a new category goes to the
front if no order is the greatest `Int`, a deleted one is left out, a moved group is put before
another one or at the end. -/
theorem display_operations (h : s.IsDisplayable) :
    (∀ c : Category, c.id ∉ s.display → (∀ d ∈ s.categories, d.order < 2 ^ 63 - 1) →
      ∃ s', s.checkedAddCategory c = some s' ∧ s'.display = c.id :: s.display ∧
        s'.IsDisplayable) ∧
    (∀ id ≠ "uncategorized", ∀ replacementId now,
      (s.deleteCategory id replacementId now).display = s.display.filter (· ≠ id) ∧
        (s.deleteCategory id replacementId now).IsDisplayable) ∧
    ∀ groupId ∈ s.display, ∀ beforeGroupKey : Option String,
      (∀ key ∈ beforeGroupKey, key ∈ s.display ∧ key ≠ groupId) →
        ∃ s', TodoCategoryModeView.applyCategoryGroupReorder s ⟨groupId⟩ beforeGroupKey = some s' ∧
          s'.display = moveBefore groupId beforeGroupKey s.display ∧ s'.IsDisplayable :=
  ⟨fun c hnew horders => ⟨_, checkedAddCategory_eq h horders c, h.addCategory hnew⟩,
    fun _ hid replacementId now => h.deleteCategory hid replacementId now,
    fun _ hgroup _ hbefore => h.applyCategoryGroupReorder hgroup hbefore⟩

/-- The uncategorized group is between two categories. -/
def sampleDisplay : LocalStore where
  categories := [⟨"work", "Work", "", "", 0⟩, ⟨"home", "Home", "", "", 1⟩]
  uncategorizedPosition := 1

theorem display_operations_sample :
    sampleDisplay.display = ["work", "uncategorized", "home"] ∧
      ∃ s', sampleDisplay.checkedAddCategory ⟨"trip", "Trip", "", "", 0⟩ = some s' ∧
        s'.display = ["trip", "work", "uncategorized", "home"] := by
  have hdisplayable : sampleDisplay.IsDisplayable :=
    ⟨by decide, by decide, by decide, by decide, by decide⟩
  obtain ⟨s', hs', hdisplay, -⟩ :=
    (display_operations hdisplayable).1 ⟨"trip", "Trip", "", "", 0⟩ (by decide) (by decide)
  exact ⟨by decide, s', hs', hdisplay⟩

/-- A category has the greatest order, and the next one cannot be put before it. -/
theorem not_display_operations : ¬∀ (s : LocalStore) (c : Category), s.IsDisplayable →
    (∀ d ∈ s.categories, d.order < 2 ^ 63) → c.id ∉ s.display →
    ∃ s', s.checkedAddCategory c = some s' ∧ s'.display = c.id :: s.display ∧
      s'.IsDisplayable := by
  intro h
  obtain ⟨s', hs', -⟩ := h { categories := [⟨"work", "Work", "", "", 2 ^ 63 - 1⟩] }
    ⟨"trip", "Trip", "", "", 0⟩ ⟨by decide, by decide, by decide, by decide, by decide⟩
    (by decide) (by decide)
  cases hs'

/-! ## Remote categories and the remote position -/

/-- The categories and the position of the uncategorized group. -/
def categoryData (s : LocalStore) : List Category × ℤ :=
  (s.categories, s.uncategorizedPosition)

theorem length_migratedCategories (cs : List Category) :
    (migratedCategories cs).length = cs.length := by
  unfold migratedCategories
  dsimp only
  split_ifs <;> simp

/-- The categories are migrated, and the position is clamped to them. -/
theorem categoryData_migrateIfNeeded {s' : LocalStore} (h : s.migrateIfNeeded = some s') :
    s'.categoryData = (migratedCategories s.migrateEmptyCategories.categories,
      clampUncategorizedPosition s.uncategorizedPosition
        s.migrateEmptyCategories.categories.length) := by
  obtain ⟨taskLookup, -, rfl⟩ := Option.map_eq_some_iff.mp h
  have hempty : s.migrateEmptyCategories.uncategorizedPosition = s.uncategorizedPosition := by
    unfold migrateEmptyCategories
    split_ifs <;> rfl
  have hclamped : ∀ s : LocalStore, s.migrateUncategorizedPosition.categoryData = (s.categories,
      clampUncategorizedPosition s.uncategorizedPosition s.categories.length) := by
    intro s
    unfold migrateUncategorizedPosition
    dsimp only
    split_ifs with hne
    · rfl
    · exact Prod.ext rfl (not_not.mp hne).symm
  have hposition := hclamped { s.migrateEmptyCategories with
    categories := migratedCategories s.migrateEmptyCategories.categories }
  rw [length_migratedCategories, hempty] at hposition
  rw [← hposition]
  dsimp only
  split_ifs <;> rfl

theorem categories_migrateEmptyCategories : s.migrateEmptyCategories.categories =
    if s.categories.isEmpty then Category.defaultCategories else s.categories := by
  unfold migrateEmptyCategories
  split_ifs <;> rfl

/-- The categories that the store has after a delivery. -/
def receivedCategories (categories : List Category) : List Category :=
  let sorted := sortedByCategorySort categories
  migratedCategories (if sorted.isEmpty then Category.defaultCategories else sorted)

/-- No category of a snapshot is lost, and an empty one stands for the defaults. -/
theorem length_receivedCategories (categories : List Category) :
    (receivedCategories categories).length =
      (if categories.isEmpty then Category.defaultCategories else categories).length := by
  have hperm := perm_sortedByCategorySort categories
  unfold receivedCategories
  rw [length_migratedCategories]
  cases categories with
  | nil => rfl
  | cons c cs =>
    have hne : sortedByCategorySort (c :: cs) ≠ [] := fun hnil =>
      List.cons_ne_nil c cs (List.nil_perm.mp (hnil ▸ hperm))
    rw [if_neg (mt List.isEmpty_iff.mp hne), if_neg (by simp), hperm.length_eq]

/-- There are at least as many as were delivered. -/
theorem length_le_receivedCategories (categories : List Category) :
    categories.length ≤ (receivedCategories categories).length := by
  rw [length_receivedCategories]
  cases categories with
  | nil => exact Nat.zero_le _
  | cons c cs => exact le_rfl

theorem categoryData_applyRemoteCategories (hd : DistinctIds s.tasks)
    (categories : List Category) :
    (s.applyRemoteCategories categories).map categoryData = some (receivedCategories categories,
      clampUncategorizedPosition s.uncategorizedPosition
        (receivedCategories categories).length) := by
  obtain ⟨s', hs', happlied, -⟩ := exists_migrated_applyRemoteCategories hd categories
  have hdata := categoryData_migrateIfNeeded hs'
  rw [categories_migrateEmptyCategories, ← length_migratedCategories] at hdata
  rw [happlied]
  exact congrArg some hdata

/-- A repeated id is a trap. -/
theorem migrateIfNeeded_of_not_distinctIds (hd : ¬DistinctIds s.tasks) :
    s.migrateIfNeeded = none := by
  have htrap : uniqueKeysWithValues Task.id s.tasks = none := if_neg hd
  have htasks : ∀ s : LocalStore, s.migrateEmptyCategories.tasks = s.tasks ∧
      s.migrateUncategorizedPosition.tasks = s.tasks := by
    intro s
    unfold migrateEmptyCategories migrateUncategorizedPosition
    dsimp only
    split_ifs <;> exact ⟨rfl, rfl⟩
  unfold migrateIfNeeded
  dsimp only
  rw [(htasks _).2]
  dsimp only
  rw [(htasks _).1]
  exact congrArg (Option.map _) htrap

theorem applyRemoteCategories_of_not_distinctIds (hd : ¬DistinctIds s.tasks)
    (categories : List Category) : s.applyRemoteCategories categories = none := by
  have htrap := migrateIfNeeded_of_not_distinctIds
    (s := { s with
      suppressBackendWrites := true
      categories := sortedByCategorySort categories }.saveCategories) hd
  exact congrArg (Option.map _) htrap

/-- Both orders end in the categories received, with the position as it was delivered or clamped
to the categories that were there before. -/
theorem remoteCategoryData_orders (hd : DistinctIds s.tasks) {categories : List Category}
    {position : ℤ} (hnonneg : 0 ≤ position) (hle : position ≤ categories.length) :
    ((s.applyRemoteCategories categories).bind
        (·.applyRemoteUncategorizedPosition position)).map categoryData =
      some (receivedCategories categories, position) ∧
    ((s.applyRemoteUncategorizedPosition position).bind
        (·.applyRemoteCategories categories)).map categoryData =
      some (receivedCategories categories, min position s.categories.length) := by
  have hlength := length_le_receivedCategories categories
  constructor
  · obtain ⟨s', hs', hdata⟩ := Option.map_eq_some_iff.mp
      (categoryData_applyRemoteCategories hd categories)
    obtain ⟨hcategories, -⟩ := Prod.mk.inj hdata
    have hclamp : clampUncategorizedPosition position s'.categories.length = position := by
      rw [hcategories]
      exact clampUncategorizedPosition_eq hnonneg (by omega)
    rw [hs']
    exact congrArg some (Prod.ext hcategories hclamp)
  · have hdata := @categoryData_applyRemoteCategories
      { s.setUncategorizedPosition position with
        suppressBackendWrites := s.suppressBackendWrites } hd categories
    refine hdata.trans (congrArg some (Prod.ext rfl ?_))
    change clampUncategorizedPosition
      (clampUncategorizedPosition position s.categories.length) _ = min position s.categories.length
    unfold clampUncategorizedPosition
    omega

/-- The two orders of delivery end in the same categories and the same position if and only if
the position is in the list of the categories that were there before. A repeated task id is a
trap in both. -/
theorem remoteCategoryData_comm_iff (s : LocalStore) {categories : List Category} {position : ℤ}
    (hnonneg : 0 ≤ position) (hle : position ≤ categories.length) :
    ((s.applyRemoteCategories categories).bind
        (·.applyRemoteUncategorizedPosition position)).map categoryData =
      ((s.applyRemoteUncategorizedPosition position).bind
        (·.applyRemoteCategories categories)).map categoryData ↔
    (DistinctIds s.tasks → position ≤ s.categories.length) := by
  by_cases hd : DistinctIds s.tasks
  · obtain ⟨hfirst, hsecond⟩ := remoteCategoryData_orders hd hnonneg hle
    rw [hfirst, hsecond, Option.some_inj, Prod.mk.injEq, and_iff_right rfl, imp_iff_right hd]
    omega
  · have htrap := applyRemoteCategories_of_not_distinctIds hd categories
    have htrap' := @applyRemoteCategories_of_not_distinctIds
      { s.setUncategorizedPosition position with
        suppressBackendWrites := s.suppressBackendWrites } hd categories
    refine iff_of_true ?_ fun h => absurd h hd
    rw [htrap]
    exact (congrArg (Option.map categoryData) htrap').symm

theorem remoteCategoryData_comm_iff_sample :
    ((sampleDisplay.applyRemoteCategories sampleDisplay.categories).bind
        (·.applyRemoteUncategorizedPosition 2)).map categoryData =
      ((sampleDisplay.applyRemoteUncategorizedPosition 2).bind
        (·.applyRemoteCategories sampleDisplay.categories)).map categoryData :=
  (remoteCategoryData_comm_iff sampleDisplay (by decide) (by decide)).mpr fun _ => by decide

/-- The position arrives before the categories, in a store that has only one of them. -/
theorem not_remoteCategoryData_comm :
    let s : LocalStore := { categories := [⟨"work", "Work", "", "", 0⟩] }
    ((s.applyRemoteCategories sampleDisplay.categories).bind
        (·.applyRemoteUncategorizedPosition 2)).map categoryData ≠
      ((s.applyRemoteUncategorizedPosition 2).bind
        (·.applyRemoteCategories sampleDisplay.categories)).map categoryData := by
  intro s heq
  obtain ⟨hfirst, hsecond⟩ := @remoteCategoryData_orders s (by decide) sampleDisplay.categories 2
    (by decide) (by decide)
  rw [hfirst, hsecond] at heq
  exact absurd (congrArg (Option.map Prod.snd) heq) (by decide)

end LocalStore

end Notelayer
