import Notelayer.CategoryDisplay

/-!
# References to a deleted category

`deleteCategory` takes a category off every task before it removes it. The tasks that had it get
the replacement, if that is another category and they do not have it already, and everything else
stays (`LocalStore.deleteCategory_rewrites`).
-/

namespace Notelayer

open KeyedList

/-- The requested replacement is another category. -/
def LocalStore.Replaces (s : LocalStore) (id : String) (replacementId : Option String)
    (replacement : String) : Prop :=
  replacementId = some replacement ∧ replacement ≠ id ∧
    replacement ∈ s.categories.map Category.id

/-- A task before and after a category is deleted, and another may take its place. -/
structure Task.LosesCategory (id : String) (replaces : String → Prop) (now : Date)
    (t t' : Task) : Prop where
  eq_of_notMem : id ∉ t.categories → t' = t
  eq_with : id ∈ t.categories → t' = { t with categories := t'.categories, updatedAt := now }
  /-- The other categories stay in order. -/
  isPrefix : t.categories.filter (· ≠ id) <+: t'.categories
  nodup : t'.categories.Nodup
  count_eq_one_iff : id ∈ t.categories → ∀ categoryId, t'.categories.count categoryId = 1 ↔
    categoryId ∈ t.categories ∧ categoryId ≠ id ∨ replaces categoryId

namespace LocalStore

variable {s : LocalStore}

theorem resolvedReplacementId_eq_some_iff {id : String} {replacementId : Option String}
    {replacement : String} : s.resolvedReplacementId id replacementId = some replacement ↔
      s.Replaces id replacementId replacement := by
  unfold resolvedReplacementId Replaces
  rw [Option.filter_eq_some_iff]
  simp [List.mem_map]

/-- The categories of a task that had the deleted one. -/
theorem mem_categories_withoutCategory {id : String} {replacementId : Option String} {now : Date}
    {t : Task} {categoryId : String} :
    categoryId ∈ (withoutCategory id replacementId now t).categories ↔
      categoryId ∈ t.categories ∧ categoryId ≠ id ∨ replacementId = some categoryId := by
  unfold withoutCategory
  cases replacementId with
  | none => simp
  | some replacement =>
    dsimp only
    by_cases hmem : replacement ∈ t.categories.filter (· ≠ id)
    · rw [if_pos hmem]
      have hmem' : replacement ∈ t.categories ∧ replacement ≠ id := by simpa using hmem
      simp only [List.mem_filter, decide_eq_true_eq, Option.some.injEq]
      exact ⟨Or.inl, fun h => h.elim (fun h => h) fun h => h ▸ hmem'⟩
    · rw [if_neg hmem, List.mem_append, List.mem_singleton, List.mem_filter, decide_eq_true_iff,
        Option.some_inj, @eq_comm _ categoryId]

/-- No category occurs twice after a deletion if none did before. -/
theorem nodup_categories_withoutCategory {id : String} {replacementId : Option String}
    {now : Date} {t : Task} (h : t.categories.Nodup) :
    (withoutCategory id replacementId now t).categories.Nodup := by
  have hfilter := h.filter fun categoryId => decide (categoryId ≠ id)
  unfold withoutCategory
  cases replacementId with
  | none => exact hfilter
  | some replacement =>
    dsimp only
    by_cases hmem : replacement ∈ t.categories.filter (· ≠ id)
    · rwa [if_pos hmem]
    · rw [if_neg hmem]
      exact List.nodup_append.mpr ⟨hfilter, List.nodup_singleton _, fun a ha b hb heq =>
        hmem (List.mem_singleton.mp hb ▸ heq ▸ ha)⟩

/-- The other categories of a task keep their places. The replacement comes after them. -/
theorem isPrefix_withoutCategory (id : String) (replacementId : Option String) (now : Date)
    (t : Task) :
    t.categories.filter (· ≠ id) <+: (withoutCategory id replacementId now t).categories := by
  unfold withoutCategory
  cases replacementId with
  | none => exact List.prefix_refl _
  | some replacement =>
    dsimp only
    split_ifs
    · exact List.prefix_refl _
    · exact List.prefix_append _ _

/-- A task gives up the category where it has it, and stays as it is where not. -/
theorem losesCategory_withoutCategoryIf {t : Task} (h : t.categories.Nodup) (id : String)
    (replacementId : Option String) (now : Date) :
    t.LosesCategory id (s.Replaces id replacementId) now
      (withoutCategoryIf id (s.resolvedReplacementId id replacementId) now t) := by
  by_cases hid : id ∈ t.categories
  · rw [withoutCategoryIf, if_pos hid]
    have hnodup : (withoutCategory id (s.resolvedReplacementId id replacementId) now
      t).categories.Nodup := nodup_categories_withoutCategory h
    refine ⟨fun h => absurd hid h, fun _ => rfl, isPrefix_withoutCategory _ _ _ _, hnodup,
      fun _ categoryId => ?_⟩
    have hmem : categoryId ∈ (withoutCategory id (s.resolvedReplacementId id replacementId) now
        t).categories ↔ _ := mem_categories_withoutCategory
    rw [hnodup.count, ← resolvedReplacementId_eq_some_iff, ← hmem]
    split_ifs with h <;> simp [h]
  · rw [withoutCategoryIf, if_neg hid]
    have hkept : t.categories.filter (· ≠ id) = t.categories := by
      refine List.filter_eq_self.mpr fun categoryId hmem => decide_eq_true ?_
      rintro rfl
      exact hid hmem
    have hprefix : t.categories.filter (· ≠ id) <+: t.categories :=
      ⟨[], by rw [List.append_nil, hkept]⟩
    exact ⟨fun _ => rfl, fun h => absurd h hid, hprefix, h, fun h => absurd h hid⟩

/-- The remaining categories are in their old order, with the numbers 0, 1 and so on. -/
theorem sortedCategories_deleteCategory (hd : DistinctKeys Category.id s.categories) (id : String)
    (replacementId : Option String) (now : Date) :
    (s.deleteCategory id replacementId now).sortedCategories =
      (s.sortedCategories.filter fun c => c.id ≠ id).mapIdx
        fun index c => { c with order := (index : ℤ) } := by
  have hd' : DistinctKeys Category.id
      (sortedByCategorySort (s.categories.filter fun c => c.id ≠ id)) :=
    (hd.sublist List.filter_sublist).perm (perm_sortedByCategorySort _).symm
  unfold sortedCategories
  rw [categories_deleteCategory, sortedByCategorySort_mapIdx_order hd',
    sortedByCategorySort_filter hd]

/-- No category and no task mentions a deleted category. The tasks that had it get the
replacement, and the other categories keep their sequence. -/
theorem deleteCategory_rewrites (hd : DistinctKeys Category.id s.categories)
    (hn : ∀ t ∈ s.tasks, t.categories.Nodup) (id : String) (replacementId : Option String)
    (now : Date) :
    (∀ c ∈ (s.deleteCategory id replacementId now).categories, c.id ≠ id) ∧
      (∀ t ∈ (s.deleteCategory id replacementId now).tasks, id ∉ t.categories) ∧
      List.Forall₂ (Task.LosesCategory id (s.Replaces id replacementId) now) s.tasks
        (s.deleteCategory id replacementId now).tasks ∧
      (s.deleteCategory id replacementId now).sortedCategories =
        (s.sortedCategories.filter fun c => c.id ≠ id).mapIdx
          fun index c => { c with order := (index : ℤ) } := by
  refine ⟨fun c hc => ?_, fun t' ht' hmem => ?_, ?_, sortedCategories_deleteCategory hd _ _ _⟩
  · rw [categories_deleteCategory] at hc
    obtain ⟨index, hindex, rfl⟩ := List.mem_mapIdx.mp hc
    have hkept := mem_sortedByCategorySort.mp (List.getElem_mem hindex)
    exact of_decide_eq_true (List.mem_filter.mp hkept).2
  · rw [tasks_deleteCategory] at ht'
    obtain ⟨t, -, rfl⟩ := List.mem_map.mp ht'
    unfold withoutCategoryIf at hmem
    split_ifs at hmem with hid
    · rcases mem_categories_withoutCategory.mp hmem with ⟨-, hne⟩ | hreplaces
      · exact hne rfl
      · exact (resolvedReplacementId_eq_some_iff.mp hreplaces).2.1 rfl
    · exact hid hmem
  · rw [tasks_deleteCategory, List.forall₂_map_right_iff]
    exact List.forall₂_same.mpr fun t ht =>
      losesCategory_withoutCategoryIf (hn t ht) id replacementId now

/-- Two tasks of "work", one of which has the replacement already. -/
def sampleReassignment : LocalStore where
  categories := [⟨"work", "Work", "💼", "#FF0000", 0⟩, ⟨"home", "Home", "🏠", "#00FF00", 1⟩]
  tasks := [{ Task.sampleParent with categories := ["work"] },
    { Task.sampleParent with id := "other", categories := ["home", "work"] }]

/-- Deleting `work` in favor of `home`. -/
theorem deleteCategory_rewrites_home :
    (∀ c ∈ (sampleReassignment.deleteCategory "work" (some "home") (.seconds 1)).categories,
      c.id ≠ "work") ∧
    (∀ t ∈ (sampleReassignment.deleteCategory "work" (some "home") (.seconds 1)).tasks,
      "work" ∉ t.categories) ∧
    List.Forall₂ (Task.LosesCategory "work" (sampleReassignment.Replaces "work" (some "home"))
      (.seconds 1)) sampleReassignment.tasks
        (sampleReassignment.deleteCategory "work" (some "home") (.seconds 1)).tasks ∧
    (sampleReassignment.deleteCategory "work" (some "home") (.seconds 1)).sortedCategories =
      (sampleReassignment.sortedCategories.filter fun c => c.id ≠ "work").mapIdx
        fun index c => { c with order := (index : ℤ) } :=
  deleteCategory_rewrites (by decide) (by decide) "work" (some "home") (.seconds 1)

end LocalStore

end Notelayer
