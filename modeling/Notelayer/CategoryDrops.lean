import Notelayer.TaskDrops

/-!
# Dropping a task on a category

A drop takes the category of the source group off the task and puts the category of the destination
on. So the task gets into a category, but it gets into the uncategorized group only if it had no
other category than that of the source (`applyCategoryDrop_lands_iff`). A category with the id
"Uncategorized" is taken for the uncategorized group.
-/

namespace Notelayer

open KeyedList

/-- A group of the category mode. -/
inductive CategoryGroup where
  | category (id : String)
  | uncategorized
  deriving DecidableEq

namespace CategoryGroup

/-- What the payload and the handler call the group. -/
def groupId : CategoryGroup → String
  | category id => id
  | uncategorized => "Uncategorized"

/-- The tasks of the group. -/
def tasks (group : CategoryGroup) (tasks : List Task) : List Task :=
  match group with
  | category id => (groupTasksByCategory tasks).2 id
  | uncategorized => (groupTasksByCategory tasks).1

/-- A task with the categories is in the group. -/
def Has (categories : List String) : CategoryGroup → Prop
  | category id => id ∈ categories
  | uncategorized => categories = []

theorem mem_tasks {group : CategoryGroup} {tasks : List Task} {t : Task} :
    t ∈ group.tasks tasks ↔ t ∈ tasks ∧ group.Has t.categories := by
  obtain ⟨hnone, hsome⟩ := @mem_groupTasksByCategory tasks t
  cases group with
  | category id => exact hsome id
  | uncategorized => exact hnone

end CategoryGroup

/-- After the drop the task is in the destination, and in no other group but those that it was in
before and was not dragged from. -/
def DropLands (source destination : CategoryGroup) (before : List Task) (t : Task)
    (after : List Task) (t' : Task) : Prop :=
  t' ∈ destination.tasks after ∧ ∀ group : CategoryGroup, t' ∈ group.tasks after →
    group = destination ∨ group ≠ source ∧ t ∈ group.tasks before

/-- No category but that of the source is left on a task for the uncategorized group, and none has
the id that stands for that group. -/
def DropMoves (source destination : CategoryGroup) (t : Task) : Prop :=
  match destination with
  | .category id =>
    if id = "Uncategorized" then id ∈ t.categories else source ≠ .category "Uncategorized"
  | .uncategorized => ∀ id ∈ t.categories, id ≠ "Uncategorized" ∧ source = .category id

/-- The categories after the edit of a drop. -/
theorem mem_categories_dropUpdate (sourceGroupId destinationGroupId : String) (t : Task)
    (id : String) :
    id ∈ ((TodoCategoryModeView.dropUpdate sourceGroupId destinationGroupId).apply t).categories ↔
      id ∈ t.categories ∧ (sourceGroupId ≠ "Uncategorized" → id ≠ sourceGroupId) ∨
        id = destinationGroupId ∧ destinationGroupId ≠ "Uncategorized" := by
  have hkept : id ∈ (if sourceGroupId ≠ "Uncategorized" then
      t.categories.filter (· ≠ sourceGroupId) else t.categories) ↔
        id ∈ t.categories ∧ (sourceGroupId ≠ "Uncategorized" → id ≠ sourceGroupId) := by
    split_ifs with hsource <;> simp [hsource]
  rw [← hkept]
  unfold TodoCategoryModeView.dropUpdate
  dsimp only
  generalize (if sourceGroupId ≠ "Uncategorized" then t.categories.filter (· ≠ sourceGroupId)
    else t.categories) = kept
  by_cases hnew : destinationGroupId ≠ "Uncategorized" ∧ destinationGroupId ∉ kept
  · rw [if_pos hnew, List.mem_append, List.mem_singleton, and_iff_left hnew.1]
  · rw [if_neg hnew]
    refine ⟨Or.inl, fun h => h.elim (fun h => h) ?_⟩
    rintro ⟨rfl, hne⟩
    exact not_not.mp fun hmem => hnew ⟨hne, hmem⟩

/-! ## Where the edit lands -/

section Lands

variable {source : CategoryGroup} {t : Task} {categories : List String}

/-- With these categories the task is in the destination, and in no other group but those that it
was in before and was not dragged from. -/
def CategoryGroup.LandsWith (source destination : CategoryGroup) (t : Task)
    (categories : List String) : Prop :=
  destination.Has categories ∧ ∀ group : CategoryGroup, group.Has categories →
    group = destination ∨ group ≠ source ∧ group.Has t.categories

/-- The uncategorized group has the task if no category is left. -/
theorem landsWith_uncategorized_iff
    (hmem : ∀ id, id ∈ categories ↔
      id ∈ t.categories ∧ (source.groupId ≠ "Uncategorized" → id ≠ source.groupId)) :
    source.LandsWith .uncategorized t categories ↔ DropMoves source .uncategorized t := by
  have hempty : categories = [] ↔ ∀ id, id ∉ categories := List.eq_nil_iff_forall_not_mem
  constructor
  · rintro ⟨hnil, -⟩ id hid
    have hremoved := fun h => hempty.mp hnil id ((hmem id).mpr ⟨hid, h⟩)
    obtain ⟨hne, heq⟩ := not_forall.mp hremoved
    rw [not_not] at heq
    cases source with
    | category c =>
      obtain rfl : id = c := heq
      exact ⟨hne, rfl⟩
    | uncategorized => exact absurd rfl hne
  · intro h
    have hnil : categories = [] := by
      refine hempty.mpr fun id hid => ?_
      obtain ⟨hid, hne⟩ := (hmem id).mp hid
      obtain ⟨hreserved, rfl⟩ := h id hid
      exact hne hreserved rfl
    refine ⟨hnil, fun group hgroup => ?_⟩
    cases group with
    | category id => exact absurd hgroup (hempty.mp hnil id)
    | uncategorized => exact Or.inl rfl

/-- A category that is left on the task is none that it was dragged from. -/
theorem ne_source_of_kept {id : String}
    (h : source.groupId ≠ "Uncategorized" → id ≠ source.groupId)
    (hreserved : source ≠ .category "Uncategorized" ∨ id ≠ "Uncategorized") :
    CategoryGroup.category id ≠ source := by
  rintro rfl
  refine h (fun heq => ?_) rfl
  obtain rfl : id = "Uncategorized" := heq
  exact hreserved.elim (fun h => h rfl) fun h => h rfl

/-- A category with the reserved id is not put on the task. -/
theorem landsWith_reserved_iff
    (hmem : ∀ id, id ∈ categories ↔
      id ∈ t.categories ∧ (source.groupId ≠ "Uncategorized" → id ≠ source.groupId)) :
    source.LandsWith (.category "Uncategorized") t categories ↔
      "Uncategorized" ∈ t.categories := by
  refine ⟨fun h => ((hmem _).mp h.1).1, fun ht => ?_⟩
  have hkept : "Uncategorized" ∈ categories :=
    (hmem _).mpr ⟨ht, fun hne heq => hne heq.symm⟩
  refine ⟨hkept, fun group hgroup => ?_⟩
  cases group with
  | category id =>
    obtain ⟨hid, hne⟩ := (hmem id).mp hgroup
    by_cases hreserved : id = "Uncategorized"
    · exact Or.inl (congrArg _ hreserved)
    · exact Or.inr ⟨ne_source_of_kept hne (Or.inr hreserved), hid⟩
  | uncategorized => exact absurd hkept (hgroup ▸ List.not_mem_nil)

/-- Any other category is. -/
theorem landsWith_category_iff {d : String} (hd : d ≠ "Uncategorized")
    (hs : source.Has t.categories)
    (hmem : ∀ id, id ∈ categories ↔
      id ∈ t.categories ∧ (source.groupId ≠ "Uncategorized" → id ≠ source.groupId) ∨ id = d) :
    source.LandsWith (.category d) t categories ↔ source ≠ .category "Uncategorized" := by
  have hlanded : d ∈ categories := (hmem d).mpr (Or.inr rfl)
  constructor
  · rintro ⟨-, h⟩ rfl
    have hkept : "Uncategorized" ∈ categories :=
      (hmem _).mpr (Or.inl ⟨hs, fun hne => absurd rfl hne⟩)
    rcases h (.category "Uncategorized") hkept with heq | ⟨hne, -⟩
    · exact hd (CategoryGroup.category.inj heq).symm
    · exact hne rfl
  · refine fun hsource => ⟨hlanded, fun group hgroup => ?_⟩
    cases group with
    | category id =>
      rcases (hmem id).mp hgroup with ⟨hid, hne⟩ | rfl
      · exact Or.inr ⟨ne_source_of_kept hne (Or.inl hsource), hid⟩
      · exact Or.inl rfl
    | uncategorized => exact absurd hlanded (hgroup ▸ List.not_mem_nil)

/-- The edited categories land the task if and only if the groups are named so that it moves. -/
theorem landsWith_iff_moves {destination : CategoryGroup} (hs : source.Has t.categories)
    (hmem : ∀ id, id ∈ categories ↔
      id ∈ t.categories ∧ (source.groupId ≠ "Uncategorized" → id ≠ source.groupId) ∨
        id = destination.groupId ∧ destination.groupId ≠ "Uncategorized") :
    source.LandsWith destination t categories ↔ DropMoves source destination t := by
  cases destination with
  | uncategorized =>
    exact landsWith_uncategorized_iff fun id => (hmem id).trans (or_iff_left fun h => h.2 rfl)
  | category d =>
    unfold DropMoves
    dsimp only
    split_ifs with hd
    · subst hd
      exact landsWith_reserved_iff fun id => (hmem id).trans (or_iff_left fun h => h.2 rfl)
    · exact landsWith_category_iff hd hs fun id =>
        (hmem id).trans (or_congr_right (and_iff_left hd))

end Lands

/-- The drop does not trap, and it lands the task in the destination if and only if the groups are
named so that it moves. -/
theorem applyCategoryDrop_lands_iff {s : LocalStore} (hd : DistinctIds s.tasks) {t : Task}
    {source : CategoryGroup} (hs : t ∈ source.tasks s.tasks) (destination : CategoryGroup)
    (beforeTaskId : Option String) (showingDone : Bool) (now : Date) :
    ∃ s' t', TodoCategoryModeView.applyCategoryDrop s ⟨t.id, source.groupId⟩ destination.groupId
        beforeTaskId showingDone now = some s' ∧
      (∀ u, u ∈ s'.tasks ∧ u.id = t.id ↔ u = t') ∧
      (DropLands source destination s.tasks t s'.tasks t' ↔ DropMoves source destination t) := by
  obtain ⟨ht, hhas⟩ := CategoryGroup.mem_tasks.mp hs
  have hdrop : ∃ groupTasks : List Task, groupTasks.Sublist (s.updateTask t.id
        (TodoCategoryModeView.dropUpdate source.groupId destination.groupId) now).tasks ∧
      TodoCategoryModeView.applyCategoryDrop s ⟨t.id, source.groupId⟩ destination.groupId
        beforeTaskId showingDone now = (s.updateTask t.id
          (TodoCategoryModeView.dropUpdate source.groupId destination.groupId) now).reorderTasks
            (droppedOrder groupTasks t.id beforeTaskId) now := by
    refine ⟨_, ?_, rfl⟩
    split_ifs
    · exact List.filter_sublist.trans List.filter_sublist
    · exact List.filter_sublist.trans List.filter_sublist
  obtain ⟨groupTasks, hgroup, hdrop⟩ := hdrop
  obtain ⟨s', key, hs', honly⟩ := LocalStore.exists_droppedTask hd ht _ now hgroup beforeTaskId
  have hmem := ((honly _).mpr rfl).1
  refine ⟨s', _, hdrop.trans hs', honly, ?_⟩
  unfold DropLands
  simp only [CategoryGroup.mem_tasks, hmem, ht, true_and]
  exact landsWith_iff_moves hhas fun id => mem_categories_dropUpdate _ _ t id

/-- A task with two categories. -/
def sampleShared : LocalStore where
  categories := [⟨"work", "Work", "💼", "#FF0000", 0⟩, ⟨"home", "Home", "🏠", "#00FF00", 1⟩]
  tasks := [{ Task.sampleParent with categories := ["work", "home"] }]

theorem applyCategoryDrop_lands_home : ∃ s' t',
    TodoCategoryModeView.applyCategoryDrop sampleShared ⟨"parent", "work"⟩ "home" none false
        (.seconds 1) = some s' ∧
      (∀ u, u ∈ s'.tasks ∧ u.id = "parent" ↔ u = t') ∧
      (DropLands (.category "work") (.category "home") sampleShared.tasks
          { Task.sampleParent with categories := ["work", "home"] } s'.tasks t' ↔
        DropMoves (.category "work") (.category "home")
          { Task.sampleParent with categories := ["work", "home"] }) := by
  have hs : { Task.sampleParent with categories := ["work", "home"] } ∈
      (CategoryGroup.category "work").tasks sampleShared.tasks := by decide
  exact applyCategoryDrop_lands_iff (by decide) hs (.category "home") none false (.seconds 1)

/-- Dragged to the uncategorized group, the task stays in its other category. -/
theorem not_dropLands_uncategorized :
    { Task.sampleParent with categories := ["work", "home"] } ∈
      (CategoryGroup.category "work").tasks sampleShared.tasks ∧
    ∃ s', TodoCategoryModeView.applyCategoryDrop sampleShared ⟨"parent", "work"⟩
        "Uncategorized" none false (.seconds 1) = some s' ∧
      s'.tasks.map Task.categories = [["home"]] ∧
      ∀ t', ¬DropLands (.category "work") .uncategorized sampleShared.tasks
        { Task.sampleParent with categories := ["work", "home"] } s'.tasks t' := by
  refine ⟨by decide, ?_⟩
  have hrun : (TodoCategoryModeView.applyCategoryDrop sampleShared ⟨"parent", "work"⟩
      "Uncategorized" none false (.seconds 1)).map (fun s' =>
        (s'.tasks.map Task.categories, CategoryGroup.uncategorized.tasks s'.tasks)) =
          some ([["home"]], []) := by decide +kernel
  obtain ⟨s', hs', heq⟩ := Option.map_eq_some_iff.mp hrun
  obtain ⟨hcategories, hempty⟩ := Prod.mk.inj heq
  refine ⟨s', hs', hcategories, fun t' h => ?_⟩
  have hmem := h.1
  rw [hempty] at hmem
  exact absurd hmem List.not_mem_nil

end Notelayer
