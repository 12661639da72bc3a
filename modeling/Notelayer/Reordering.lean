import Notelayer.CategoryDisplay
import Notelayer.Library.Sorting

/-!
# Reordering tasks and categories

`reorderTasks` counts its keys down from the current time, in the requested order, and lists are
sorted by descending key. So any sorted list of requested tasks has them in the requested order
(`reorderTasks_realises`).

`reorderCategories` numbers the requested categories by the positions of their ids in the request,
and the omitted ones on from the number of categories found. A request that names an unknown id
before a known one has positions above that number, so omitted categories come between the listed
ones or share their orders. Exactly this and an omission together spoil the reordering
(`reorderCategories_total_iff`).
-/

namespace Notelayer

open KeyedList Sorting

/-- The order of a task, where a missing one is 0. -/
def taskSortKey (task : Task) : ℤ :=
  task.orderIndex.getD 0

/-! ## The tasks -/

/-- The requested tasks that are there, with their new keys. -/
def rekeyedTasks (tasks : List Task) (orderedIds : List String) (now : Date) : List Task :=
  (orderedIds.filterMap (taskWithId tasks)).mapIdx fun index task =>
    task.reordered (now.milliseconds - index) now

/-- The keys descend. -/
theorem pairwise_rekeyedTasks (tasks : List Task) (orderedIds : List String) (now : Date) :
    (rekeyedTasks tasks orderedIds now).Pairwise fun t u =>
      taskSortKey u ≤ taskSortKey t ∧ ¬taskSortKey t ≤ taskSortKey u := by
  unfold rekeyedTasks
  refine List.pairwise_iff_getElem.mpr fun i j hi hj hij => ?_
  simp only [List.getElem_mapIdx, taskSortKey, Task.reordered, Option.getD_some]
  omega

theorem ids_rekeyedTasks (tasks : List Task) (orderedIds : List String) (now : Date) :
    (rekeyedTasks tasks orderedIds now).map Task.id =
      orderedIds.filter (· ∈ tasks.map Task.id) := by
  rw [← LocalStore.ids_filterMap_taskWithId]
  refine map_mapIdx_eq_map (fun i t => ?_) _
  rfl

theorem mem_rekeyedTasks {tasks : List Task} {orderedIds : List String} {now : Date} {t' : Task}
    (h : t' ∈ rekeyedTasks tasks orderedIds now) :
    ∃ t ∈ tasks, t.id ∈ orderedIds ∧ ∃ key, t' = t.reordered key now := by
  obtain ⟨i, hi, rfl⟩ := List.mem_mapIdx.mp h
  obtain ⟨x, hx, hlookup⟩ := List.mem_filterMap.mp (List.getElem_mem hi)
  exact ⟨_, mem_of_lookup hlookup, (key_of_lookup hlookup).symm ▸ hx, _, rfl⟩

theorem exists_mem_rekeyedTasks {tasks : List Task} (hd : DistinctIds tasks) {t : Task}
    (ht : t ∈ tasks) {orderedIds : List String} (hid : t.id ∈ orderedIds) (now : Date) :
    ∃ key, t.reordered key now ∈ rekeyedTasks tasks orderedIds now := by
  have hmem : t ∈ orderedIds.filterMap (taskWithId tasks) :=
    List.mem_filterMap.mpr ⟨t.id, hid, lookup_of_mem hd ht⟩
  obtain ⟨i, hi, hget⟩ := List.mem_iff_getElem.mp hmem
  exact ⟨_, List.mem_mapIdx.mpr ⟨i, hi, by rw [hget]⟩⟩

namespace LocalStore

variable {s s' : LocalStore} {orderedIds : List String} {now : Date}

theorem tasks_reorderTasks (h : s.reorderTasks orderedIds now = some s') : s'.tasks =
    rekeyedTasks s.tasks orderedIds now ++ s.tasks.filter fun t => t.id ∉ orderedIds := by
  unfold reorderTasks uniqueKeysWithValues at h
  obtain ⟨taskMap, htaskMap, rfl⟩ := Option.map_eq_some_iff.mp h
  split_ifs at htaskMap
  obtain rfl := Option.some_inj.mp htaskMap
  simp only [tasks_spawnSync, tasks_logEvent, tasks_saveTasks, tasks_withTasks]
  rfl

/-- A task that was requested is one of the tasks with new keys. -/
theorem mem_rekeyedTasks_of_mem (h : s.reorderTasks orderedIds now = some s') {t' : Task}
    (ht' : t' ∈ s'.tasks) (hid : t'.id ∈ orderedIds) :
    t' ∈ rekeyedTasks s.tasks orderedIds now := by
  rw [tasks_reorderTasks h, List.mem_append] at ht'
  refine ht'.resolve_right fun hrest => ?_
  simpa [hid] using (List.mem_filter.mp hrest).2

/-- However they are sorted, requested tasks are in the requested order. -/
theorem ids_of_pairwise (hn : orderedIds.Nodup)
    (h : s.reorderTasks orderedIds now = some s') {m : List Task}
    (hm : m.Pairwise fun t u => taskSortKey u ≤ taskSortKey t) (hnodup : m.Nodup)
    (hsub : ∀ t ∈ m, t ∈ s'.tasks ∧ t.id ∈ orderedIds) :
    m.map Task.id = orderedIds.filter (· ∈ m.map Task.id) := by
  have hrekeyed : m ⊆ rekeyedTasks s.tasks orderedIds now :=
    fun t ht => mem_rekeyedTasks_of_mem h (hsub t ht).1 (hsub t ht).2
  have hpick := eq_filter_of_pairwise (pairwise_rekeyedTasks s.tasks orderedIds now) hm hnodup
    hrekeyed
  have hids := ids_rekeyedTasks s.tasks orderedIds now
  have hinj := List.inj_on_of_nodup_map (hids ▸ hn.filter _ :
    ((rekeyedTasks s.tasks orderedIds now).map Task.id).Nodup)
  have hmem : ∀ t ∈ rekeyedTasks s.tasks orderedIds now, t ∈ m ↔ t.id ∈ m.map Task.id := by
    refine fun t ht => ⟨List.mem_map_of_mem, fun hid => ?_⟩
    obtain ⟨u, hu, heq⟩ := List.mem_map.mp hid
    exact hinj (hrekeyed hu) ht heq ▸ hu
  calc m.map Task.id
      = ((rekeyedTasks s.tasks orderedIds now).filter (· ∈ m)).map Task.id :=
        congrArg (List.map Task.id) hpick
    _ = ((rekeyedTasks s.tasks orderedIds now).filter fun t => t.id ∈ m.map Task.id).map
          Task.id := by
        refine congrArg (List.map Task.id) (List.filter_congr fun t ht => ?_)
        exact decide_eq_decide.mpr (hmem t ht)
    _ = (orderedIds.filter (· ∈ s.tasks.map Task.id)).filter (· ∈ m.map Task.id) := by
        rw [← hids, List.filter_map]
        rfl
    _ = orderedIds.filter (· ∈ m.map Task.id) := by
        refine (List.filter_filter ..).trans (List.filter_congr fun x _ => ?_)
        have hknown : x ∈ m.map Task.id → x ∈ s.tasks.map Task.id := by
          intro hx
          obtain ⟨t, ht, rfl⟩ := List.mem_map.mp hx
          have hid := List.mem_map_of_mem (f := Task.id) (hrekeyed ht)
          rw [hids] at hid
          simpa using (List.mem_filter.mp hid).2
        rw [← Bool.decide_and, decide_eq_decide]
        exact and_iff_left_of_imp hknown

end LocalStore

/-- What `sortedByOrderIndexDesc` and `subtasks` do. -/
theorem pairwise_insertionSort_taskSortKey (tasks : List Task) :
    (tasks.insertionSort fun lhs rhs => rhs.orderIndex.getD 0 ≤ lhs.orderIndex.getD 0).Pairwise
      fun t u => taskSortKey u ≤ taskSortKey t := by
  have htotal : Std.Total fun t u : Task => u.orderIndex.getD 0 ≤ t.orderIndex.getD 0 :=
    ⟨fun t u => le_total (u.orderIndex.getD 0) (t.orderIndex.getD 0)⟩
  have htrans : IsTrans Task fun t u => u.orderIndex.getD 0 ≤ t.orderIndex.getD 0 :=
    ⟨fun t u v htu huv => le_trans huv htu⟩
  exact List.pairwise_insertionSort _ tasks

/-- Whatever ids are requested, each once : the tasks keep their ids, a task that is not requested
is kept as it is, and one that is gets a new key and time only. No two requested tasks share a key,
and sorted by descending key, by `sortedByOrderIndexDesc` or among the subtasks of a parent, they
are in the requested order. -/
theorem reorderTasks_realises {s : LocalStore} (hd : (s.tasks.map Task.id).Nodup)
    {orderedIds : List String} (hn : orderedIds.Nodup) (now : Date) :
    ∃ s', s.reorderTasks orderedIds now = some s' ∧
      (s'.tasks.map Task.id).Perm (s.tasks.map Task.id) ∧
      (∀ t ∈ s.tasks, t.id ∉ orderedIds → t ∈ s'.tasks) ∧
      (∀ t ∈ s.tasks, t.id ∈ orderedIds → ∃ key : ℤ,
        { t with orderIndex := some key, updatedAt := now } ∈ s'.tasks) ∧
      (∀ t ∈ s'.tasks, ∀ u ∈ s'.tasks, t.id ∈ orderedIds → u.id ∈ orderedIds →
        taskSortKey t = taskSortKey u → t = u) ∧
      (∀ tasks : List Task, tasks.Nodup → (∀ t ∈ tasks, t ∈ s'.tasks ∧ t.id ∈ orderedIds) →
        (sortedByOrderIndexDesc tasks).map Task.id =
          orderedIds.filter (· ∈ tasks.map Task.id)) ∧
      ∀ parentId includeCompleted,
        ((s'.subtasks parentId includeCompleted).filter (·.id ∈ orderedIds)).map Task.id =
          orderedIds.filter (· ∈ (s'.subtasks parentId includeCompleted).map Task.id) := by
  obtain ⟨s', hs', hids, -⟩ := LocalStore.exists_reorderTasks hd hn now
  have htasks := LocalStore.tasks_reorderTasks hs'
  have hnodup : s'.tasks.Nodup := List.Nodup.of_map Task.id (hids.nodup_iff.mpr hd)
  refine ⟨s', hs', hids, fun t ht hid => ?_, fun t ht hid => ?_, fun t ht u hu hid hid' hkey => ?_,
    fun tasks htn hsub => ?_, fun parentId includeCompleted => ?_⟩
  · rw [htasks, List.mem_append]
    exact Or.inr (List.mem_filter.mpr ⟨ht, decide_eq_true hid⟩)
  · obtain ⟨key, hmem⟩ := exists_mem_rekeyedTasks hd ht hid now
    refine ⟨key, ?_⟩
    rw [htasks, List.mem_append]
    exact Or.inl hmem
  · exact eq_of_mem_of_pairwise (pairwise_rekeyedTasks s.tasks orderedIds now)
      (LocalStore.mem_rekeyedTasks_of_mem hs' ht hid)
      (LocalStore.mem_rekeyedTasks_of_mem hs' hu hid') hkey.ge hkey.le
  · have hperm : (sortedByOrderIndexDesc tasks).Perm tasks := List.perm_insertionSort _ tasks
    refine (LocalStore.ids_of_pairwise hn hs' (pairwise_insertionSort_taskSortKey tasks)
      (hperm.nodup_iff.mpr htn) fun t ht => hsub t (hperm.subset ht)).trans ?_
    refine List.filter_congr fun x _ => decide_eq_decide.mpr ?_
    exact (hperm.map Task.id).mem_iff
  · have hperm : (s'.subtasks parentId includeCompleted).Perm _ := List.perm_insertionSort _ _
    rw [LocalStore.ids_of_pairwise hn hs']
    · refine List.filter_congr fun x hx => decide_eq_decide.mpr ?_
      constructor
      · intro hmem
        obtain ⟨t, ht, rfl⟩ := List.mem_map.mp hmem
        exact List.mem_map_of_mem (List.mem_of_mem_filter ht)
      · intro hmem
        obtain ⟨t, ht, rfl⟩ := List.mem_map.mp hmem
        exact List.mem_map_of_mem (List.mem_filter.mpr ⟨ht, decide_eq_true hx⟩)
    · exact (pairwise_insertionSort_taskSortKey _).sublist List.filter_sublist
    · exact (hperm.nodup_iff.mpr (hnodup.filter _)).filter _
    · intro t ht
      obtain ⟨ht, hid⟩ := List.mem_filter.mp ht
      exact ⟨List.mem_of_mem_filter (hperm.subset ht), of_decide_eq_true hid⟩

/-- Three tasks without keys. -/
def unkeyedStore : LocalStore where
  tasks := ["a", "b", "c"].map fun id =>
    { id := id, title := "", createdAt := .seconds 0, updatedAt := .seconds 0 }

/-- The last task and an unknown one are requested before the first. -/
theorem reorderTasks_realises_unkeyed : ∃ s',
    unkeyedStore.reorderTasks ["c", "x", "a"] (.seconds 5) = some s' ∧
      (s'.tasks.map Task.id).Perm ["a", "b", "c"] ∧
      ∀ tasks : List Task, tasks.Nodup →
        (∀ t ∈ tasks, t ∈ s'.tasks ∧ t.id ∈ ["c", "x", "a"]) →
        (sortedByOrderIndexDesc tasks).map Task.id =
          ["c", "x", "a"].filter (· ∈ tasks.map Task.id) := by
  obtain ⟨s', hs', hids, -, -, -, hsorted, -⟩ :=
    @reorderTasks_realises unkeyedStore (by decide) ["c", "x", "a"] (by decide) (.seconds 5)
  exact ⟨s', hs', hids, hsorted⟩

/-! ## The categories -/

/-- The requested ids that are there come before those that are not. -/
def KnownFirst (categories : List Category) (orderedIds : List String) : Prop :=
  orderedIds.Pairwise fun x y =>
    y ∈ categories.map Category.id → x ∈ categories.map Category.id

instance (categories : List Category) (orderedIds : List String) :
    Decidable (KnownFirst categories orderedIds) :=
  inferInstanceAs (Decidable (List.Pairwise _ orderedIds))

/-- A category with its place left out. -/
def Category.unplaced (c : Category) : Category :=
  { c with order := 0 }

/-- The requested categories with their new orders. -/
def listedCategories (categories : List Category) (orderedIds : List String) : List Category :=
  (orderedIds.mapIdx fun index id =>
    (lookup Category.id categories id).map fun category =>
      { category with order := index }).filterMap id

/-- The others, numbered on from the count of the requested ones. -/
def omittedCategories (categories : List Category) (orderedIds : List String) : List Category :=
  (categories.filter fun c => c.id ∉ orderedIds).mapIdx fun offset category =>
    { category with order := ((listedCategories categories orderedIds).length : ℤ) + offset }

/-- The listed categories get the numbers of their places. -/
theorem mem_listedCategories {categories : List Category} {orderedIds : List String}
    {c' : Category} : c' ∈ listedCategories categories orderedIds ↔
      ∃ (j : ℕ) (hj : j < orderedIds.length), ∃ c,
        lookup Category.id categories orderedIds[j] = some c ∧
          { c with order := (j : ℤ) } = c' := by
  simp only [listedCategories, List.mem_filterMap, List.mem_mapIdx, id]
  constructor
  · rintro ⟨_, ⟨j, hj, rfl⟩, hc'⟩
    exact ⟨j, hj, Option.map_eq_some_iff.mp hc'⟩
  · rintro ⟨j, hj, hc⟩
    exact ⟨_, ⟨j, hj, rfl⟩, Option.map_eq_some_iff.mpr hc⟩

/-- The orders ascend. -/
theorem pairwise_listedCategories (categories : List Category) (orderedIds : List String) :
    (listedCategories categories orderedIds).Pairwise fun c d => c.order < d.order := by
  refine List.pairwise_filterMap.mpr (List.pairwise_iff_getElem.mpr ?_)
  intro i j hi hj hij c' hc' d' hd'
  rw [List.getElem_mapIdx, id, Option.map_eq_some_iff] at hc' hd'
  obtain ⟨c, -, rfl⟩ := hc'
  obtain ⟨d, -, rfl⟩ := hd'
  exact Int.ofNat_lt.mpr hij

theorem pairwise_omittedCategories (categories : List Category) (orderedIds : List String) :
    (omittedCategories categories orderedIds).Pairwise fun c d => c.order < d.order := by
  refine List.pairwise_iff_getElem.mpr fun i j hi hj hij => ?_
  simp only [omittedCategories, List.getElem_mapIdx]
  omega

/-- What does not depend on the order is that of the picked categories. -/
theorem map_listedCategories {B : Type} {f : Category → B}
    (hf : ∀ (c : Category) (order : ℤ), f { c with order := order } = f c)
    (categories : List Category) (orderedIds : List String) :
    (listedCategories categories orderedIds).map f =
      (orderedIds.filterMap (lookup Category.id categories)).map f := by
  have hshift : ∀ (ids : List String) (g : ℕ → ℤ), ((ids.mapIdx fun index id =>
      (lookup Category.id categories id).map fun category =>
        { category with order := g index }).filterMap id).map f =
      (ids.filterMap (lookup Category.id categories)).map f := by
    intro ids
    induction ids with
    | nil => exact fun _ => rfl
    | cons x ids ih =>
      intro g
      have htail := ih fun index => g (index + 1)
      rw [List.mapIdx_cons]
      cases hlookup : lookup Category.id categories x with
      | none =>
        rw [List.filterMap_cons_none hlookup, ← htail]
        rfl
      | some c =>
        rw [List.filterMap_cons_some hlookup, List.map_cons, ← htail, ← hf c (g 0)]
        rfl
  exact hshift orderedIds Int.ofNat

theorem ids_listedCategories (categories : List Category) (orderedIds : List String) :
    (listedCategories categories orderedIds).map Category.id =
      orderedIds.filter (· ∈ categories.map Category.id) :=
  (map_listedCategories (fun _ _ => rfl) categories orderedIds).trans
    (keys_filterMap_lookup categories orderedIds)

theorem ids_omittedCategories (categories : List Category) (orderedIds : List String) :
    (omittedCategories categories orderedIds).map Category.id =
      (categories.map Category.id).filter (· ∉ orderedIds) := by
  rw [omittedCategories, LocalStore.ids_mapIdx_order_add, List.filter_map]
  rfl

theorem mem_of_mem_listedCategories {categories : List Category} {orderedIds : List String}
    {c : Category} (hc : c ∈ listedCategories categories orderedIds) : c.id ∈ orderedIds := by
  have hid := List.mem_map_of_mem (f := Category.id) hc
  rw [ids_listedCategories] at hid
  exact List.mem_of_mem_filter hid

theorem notMem_of_mem_omittedCategories {categories : List Category} {orderedIds : List String}
    {c : Category} (hc : c ∈ omittedCategories categories orderedIds) : c.id ∉ orderedIds := by
  have hid := List.mem_map_of_mem (f := Category.id) hc
  rw [ids_omittedCategories] at hid
  simpa using (List.mem_filter.mp hid).2

/-- The known ids come first exactly if the orders of the listed categories are below their
number. -/
theorem knownFirst_iff {categories : List Category} {orderedIds : List String} :
    KnownFirst categories orderedIds ↔ ∀ c ∈ listedCategories categories orderedIds,
      c.order < (listedCategories categories orderedIds).length := by
  have hlength : (listedCategories categories orderedIds).length =
      orderedIds.countP fun x => x ∈ categories.map Category.id := by
    rw [List.countP_eq_length_filter, ← ids_listedCategories, List.length_map]
  have hpairwise := pairwise_imp_iff_lt_countP
    (fun x => decide (x ∈ categories.map Category.id)) orderedIds
  simp only [decide_eq_true_eq] at hpairwise
  rw [KnownFirst, hpairwise, hlength]
  constructor
  · intro h c' hc'
    obtain ⟨j, hj, c, hlookup, rfl⟩ := mem_listedCategories.mp hc'
    have hknown : orderedIds[j] ∈ categories.map Category.id := by
      rw [← key_of_lookup hlookup]
      exact List.mem_map_of_mem (mem_of_lookup hlookup)
    exact Int.ofNat_lt.mpr (h j hj hknown)
  · intro h j hj hknown
    obtain ⟨c, hlookup⟩ := Option.ne_none_iff_exists'.mp fun hnone =>
      lookup_eq_none_iff_notMem.mp hnone hknown
    exact Int.ofNat_lt.mp (h _ (mem_listedCategories.mpr ⟨j, hj, c, hlookup, rfl⟩))

/-- The result has the categories, under orders of their own, and shows the requested ones that
are there in the requested order and then the others as they were. -/
def LocalStore.ReordersTotally (s : LocalStore) (orderedIds : List String)
    (s' : LocalStore) : Prop :=
  (s'.categories.map Category.unplaced).Perm (s.categories.map Category.unplaced) ∧
  (s'.categories.map Category.order).Nodup ∧
  s'.sortedCategories.map Category.id =
    orderedIds.filter (· ∈ s.categories.map Category.id) ++
      (s.categories.map Category.id).filter (· ∉ orderedIds)

namespace LocalStore

variable {s s' : LocalStore} {orderedIds : List String}

theorem categories_reorderCategories_eq (h : s.reorderCategories orderedIds = some s') :
    s'.categories = sortedByCategorySort (listedCategories s.categories orderedIds ++
      omittedCategories s.categories orderedIds) :=
  categories_reorderCategories h

/-- A reordering changes no category but for its order. -/
theorem perm_unplaced_reorderCategories (hd : DistinctKeys Category.id s.categories)
    (hn : orderedIds.Nodup) (h : s.reorderCategories orderedIds = some s') :
    (s'.categories.map Category.unplaced).Perm (s.categories.map Category.unplaced) := by
  rw [categories_reorderCategories_eq h]
  refine ((perm_sortedByCategorySort _).map _).trans ?_
  have homitted : (omittedCategories s.categories orderedIds).map Category.unplaced =
      (s.categories.filter fun c => c.id ∉ orderedIds).map Category.unplaced := by
    refine map_mapIdx_eq_map (fun i c => ?_) _
    rfl
  rw [List.map_append, map_listedCategories (fun _ _ => rfl), homitted, ← List.map_append]
  exact (perm_filterMap_lookup hd hn).map _

/-- Ascending orders are distinct, and the categories are shown as they were put together. -/
theorem reordersTotally_of_pairwise (hd : DistinctKeys Category.id s.categories)
    (hn : orderedIds.Nodup) (h : s.reorderCategories orderedIds = some s')
    (hasc : (listedCategories s.categories orderedIds ++
      omittedCategories s.categories orderedIds).Pairwise fun c d => c.order < d.order) :
    s.ReordersTotally orderedIds s' := by
  have hplaced : sortedByCategorySort (listedCategories s.categories orderedIds ++
      omittedCategories s.categories orderedIds) = listedCategories s.categories orderedIds ++
        omittedCategories s.categories orderedIds :=
    (hasc.imp Or.inl : List.Pairwise categoryPrecedes _).insertionSort_eq
  have hcategories := (categories_reorderCategories_eq h).trans hplaced
  refine ⟨perm_unplaced_reorderCategories hd hn h, ?_, ?_⟩
  · rw [hcategories]
    exact List.pairwise_map.mpr (hasc.imp ne_of_lt)
  · rw [sortedCategories, hcategories, hplaced, List.map_append, ids_listedCategories,
      ids_omittedCategories]

/-- A total reordering shows each listed category before each omitted one, under another
order. -/
theorem order_lt_of_reordersTotally (hd : DistinctKeys Category.id s.categories)
    (hn : orderedIds.Nodup) (h : s.reorderCategories orderedIds = some s')
    (htotal : s.ReordersTotally orderedIds s') {c d : Category}
    (hc : c ∈ listedCategories s.categories orderedIds)
    (hd' : d ∈ omittedCategories s.categories orderedIds) : c.order < d.order := by
  obtain ⟨-, horders, hids⟩ := htotal
  have hdistinct := distinctKeys_reorderCategories hd hn h
  have hmem : ∀ {e : Category}, e ∈ listedCategories s.categories orderedIds ++
      omittedCategories s.categories orderedIds → e ∈ s'.categories := by
    intro e he
    rw [categories_reorderCategories_eq h]
    exact mem_sortedByCategorySort.mpr he
  have hc' := hmem (List.mem_append_left _ hc)
  have hd'' := hmem (List.mem_append_right _ hd')
  rw [← ids_listedCategories, ← ids_omittedCategories] at hids
  obtain ⟨listed, omitted, hsplit, hlisted, homitted⟩ := List.map_eq_append_iff.mp hids
  have hpick : ∀ {e : Category} {l : List Category}, e ∈ s'.categories → l ⊆ s'.categories →
      e.id ∈ l.map Category.id → e ∈ l := by
    intro e l he hl hid
    obtain ⟨e', he', heq⟩ := List.mem_map.mp hid
    exact List.inj_on_of_nodup_map hdistinct (hl he') he heq ▸ he'
  have hsub : listed ++ omitted ⊆ s'.categories := by
    intro e he
    rw [← hsplit] at he
    exact mem_sortedByCategorySort.mp he
  have hsorted : (listed ++ omitted).Pairwise categoryPrecedes :=
    hsplit ▸ pairwise_sortedByCategorySort s'.categories
  have hprecedes : categoryPrecedes c d := by
    refine (List.pairwise_append.mp hsorted).2.2 c ?_ d ?_
    · refine hpick hc' (fun e he => hsub (List.mem_append_left _ he)) ?_
      exact hlisted ▸ List.mem_map_of_mem hc
    · refine hpick hd'' (fun e he => hsub (List.mem_append_right _ he)) ?_
      exact homitted ▸ List.mem_map_of_mem hd'
  refine hprecedes.resolve_right fun heq => notMem_of_mem_omittedCategories hd' ?_
  exact List.inj_on_of_nodup_map horders hc' hd'' heq.1 ▸ mem_of_mem_listedCategories hc

end LocalStore

/-- Whatever ids are requested, each once, the reordering is total if and only if every category is
requested or the known ids come before the unknown ones. -/
theorem reorderCategories_total_iff {s : LocalStore}
    (hd : (s.categories.map Category.id).Nodup) {orderedIds : List String}
    (hn : orderedIds.Nodup) : ∃ s', s.reorderCategories orderedIds = some s' ∧
      (s.ReordersTotally orderedIds s' ↔
        s.categories.map Category.id ⊆ orderedIds ∨ KnownFirst s.categories orderedIds) := by
  obtain ⟨s', hs'⟩ : ∃ s', s.reorderCategories orderedIds = some s' :=
    ⟨_, congrArg (Option.map _) (if_pos hd)⟩
  refine ⟨s', hs', fun htotal => ?_, fun hor => ?_⟩
  · refine or_iff_not_imp_left.mpr fun hsub => knownFirst_iff.mpr fun c hc => ?_
    -- The first omitted category has the number of the listed ones as its order.
    obtain ⟨first, rest, hrest⟩ : ∃ first rest,
        (s.categories.filter fun c => c.id ∉ orderedIds) = first :: rest := by
      refine List.exists_cons_of_ne_nil fun hnil => hsub fun x hx => ?_
      obtain ⟨d, hd', rfl⟩ := List.mem_map.mp hx
      simpa using List.filter_eq_nil_iff.mp hnil d hd'
    have hfirst : { first with
        order := ((listedCategories s.categories orderedIds).length : ℤ) + (0 : ℕ) } ∈
          omittedCategories s.categories orderedIds := by
      rw [omittedCategories, hrest, List.mapIdx_cons]
      exact List.mem_cons_self
    have hlt := LocalStore.order_lt_of_reordersTotally hd hn hs' htotal hc hfirst
    simpa using hlt
  · refine LocalStore.reordersTotally_of_pairwise hd hn hs' (List.pairwise_append.mpr
      ⟨pairwise_listedCategories _ _, pairwise_omittedCategories _ _, fun c hc d hd' => ?_⟩)
    rcases hor with hsub | hknown
    · have hid := List.mem_map_of_mem (f := Category.id) hd'
      rw [ids_omittedCategories] at hid
      exact absurd (hsub (List.mem_of_mem_filter hid)) (notMem_of_mem_omittedCategories hd')
    · have hlt := knownFirst_iff.mp hknown c hc
      obtain ⟨offset, hoffset, rfl⟩ := List.mem_mapIdx.mp hd'
      dsimp only
      omega

/-- Two categories, and a request that names one that is gone before the second. -/
def staleStore : LocalStore where
  categories := [⟨"a", "", "", "", 0⟩, ⟨"b", "", "", "", 1⟩]

theorem reorderCategories_total_stale : ∃ s',
    staleStore.reorderCategories ["b", "x"] = some s' ∧
      (staleStore.ReordersTotally ["b", "x"] s' ↔
        staleStore.categories.map Category.id ⊆ ["b", "x"] ∨
          KnownFirst staleStore.categories ["b", "x"]) :=
  @reorderCategories_total_iff staleStore (by decide) ["b", "x"] (by decide)

/-- Both categories get the order 1, so the requested one stays behind the other. -/
theorem not_reordersTotally_stale : ∃ s',
    staleStore.reorderCategories ["x", "b"] = some s' ∧
      s'.categories.map Category.order = [1, 1] ∧
      s'.sortedCategories.map Category.id = ["a", "b"] ∧
      ¬staleStore.ReordersTotally ["x", "b"] s' := by
  refine ⟨_, rfl, by decide, by decide, fun h => ?_⟩
  exact absurd h.2.2 (by decide)

end Notelayer
