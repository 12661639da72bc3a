import Notelayer.CategoryDisplay
import Notelayer.Library.MergeDocument
import Notelayer.Library.Runs
import Notelayer.LocalOperations

/-!
# Writing categories through to the backend

Each operation on the categories spawns one closure, and the closures run in the order they were
spawned. `CategorySync` is a store with the documents of its categories. The documents, with the
closures that wait, are the categories of the store as long as every operation keeps that
(`CategoryOperation.KeepsDocuments`) : so when all closures have run, they are equal
(`CategorySync.remote_eq_run`), and a device that fetches them shows the same list.

Two operations may break it. `deleteCategory` renumbers the categories that stay and deletes one
document, and `applyOnboardingPresetCategories` drops categories and deletes none.
-/

namespace Notelayer

open KeyedList MergeDocument

/-! ## What a closure writes -/

/-- A batch of categories, the last one for an id first. -/
def putCategories (categories : List Category) : Data String Category :=
  fun id => (lookup Category.id categories.reverse id).map .set

/-- The writes of a closure in the categories collection. `categories` is the list of the store
when it runs. -/
def Closure.categoryWrites (categories : List Category) : Closure → Data String Category
  | upsertCategory _ category => putCategories [category]
  | upsertStoreCategories _ => putCategories categories
  | deleteCategory _ id _ => fun x => if x = id then some .delete else none
  | _ => fun _ => none

theorem putCategories_apply {categories : List Category}
    (hd : DistinctKeys Category.id categories) (x : String) :
    putCategories categories x = (lookup Category.id categories x).map .set := by
  rw [putCategories, lookup_perm hd (List.reverse_perm categories).symm]

theorem putCategories_singleton (c : Category) (x : String) :
    putCategories [c] x = if x = c.id then some (.set c) else none := by
  unfold putCategories lookup
  split_ifs with h
  · simp [h]
  · simp [Ne.symm h]

/-- A closure's write of a category depends on that category only. -/
theorem Closure.categoryWrites_congr (closure : Closure) {cs cs' : List Category}
    (hd : DistinctKeys Category.id cs) (hd' : DistinctKeys Category.id cs') {x : String}
    (h : lookup Category.id cs' x = lookup Category.id cs x) :
    closure.categoryWrites cs' x = closure.categoryWrites cs x := by
  cases closure with
  | upsertStoreCategories b =>
    rw [categoryWrites, categoryWrites, putCategories_apply hd, putCategories_apply hd', h]
  | _ => rfl

/-! ## Operations -/

/-- The operations on the categories. -/
inductive CategoryOperation where
  | addCategory (category : Category)
  | updateCategory (id : String) (updates : CategoryUpdate)
  | reorderCategories (orderedIds : List String)
  | deleteCategory (id : String) (replacementId : Option String)
  | applyOnboardingPresetCategories (presetCategories : List Category)

/-- The orders are 0, 1 and so on. -/
def IsNumbered (categories : List Category) : Prop :=
  categories.map Category.order = categories.mapIdx fun index _ => (index : ℤ)

instance (categories : List Category) : Decidable (IsNumbered categories) :=
  inferInstanceAs (Decidable (_ = _))

namespace CategoryOperation

/-- The store after an operation, where two equal presented ids trap. -/
def run (now : Date) (s : LocalStore) : CategoryOperation → Option LocalStore
  | addCategory category => some (s.addCategory category)
  | updateCategory id updates => some (s.updateCategory id updates)
  | reorderCategories orderedIds => s.reorderCategories orderedIds
  | deleteCategory id replacementId => some (s.deleteCategory id replacementId now)
  | applyOnboardingPresetCategories presetCategories =>
    some (s.applyOnboardingPresetCategories presetCategories)

/-- What the callers provide : ids that are new, and none of them twice. -/
def Legal (s : LocalStore) : CategoryOperation → Prop
  | addCategory category => category.id ∉ s.categories.map Category.id
  | reorderCategories orderedIds => orderedIds.Nodup
  | applyOnboardingPresetCategories presetCategories => DistinctKeys Category.id presetCategories
  | _ => True

/-- A deletion leaves categories that need no new numbers, and the presets drop no category. -/
def KeepsDocuments (s : LocalStore) : CategoryOperation → Prop
  | deleteCategory id _ => IsNumbered (LocalStore.sortedByCategorySort
      (s.categories.filter fun c => c.id ≠ id))
  | applyOnboardingPresetCategories presetCategories =>
    s.categories.map Category.id ⊆ presetCategories.map Category.id
  | _ => True

instance (s : LocalStore) : ∀ op, Decidable (Legal s op)
  | addCategory category => inferInstanceAs (Decidable (category.id ∉ _))
  | updateCategory _ _ => isTrue trivial
  | reorderCategories orderedIds => inferInstanceAs (Decidable orderedIds.Nodup)
  | deleteCategory _ _ => isTrue trivial
  | applyOnboardingPresetCategories presetCategories =>
    inferInstanceAs (Decidable (DistinctKeys Category.id presetCategories))

instance (s : LocalStore) : ∀ op, Decidable (KeepsDocuments s op)
  | addCategory _ => isTrue trivial
  | updateCategory _ _ => isTrue trivial
  | reorderCategories _ => isTrue trivial
  | deleteCategory _ _ => inferInstanceAs (Decidable (IsNumbered _))
  | applyOnboardingPresetCategories presetCategories => inferInstanceAs (Decidable
      (s.categories.map Category.id ⊆ presetCategories.map Category.id))

end CategoryOperation

/-! ## The store and the documents -/

/-- A store, and the documents of the categories by id. -/
structure CategorySync where
  store : LocalStore
  remote : Document String Category

/-- An operation, or a closure that the operations have spawned. -/
inductive CategoryStep where
  | operation (now : Date) (operation : CategoryOperation)
  /-- The oldest closure that waits runs. -/
  | runClosure

namespace CategorySync

variable (u : CategorySync)

/-- The oldest closure writes the documents of its categories. -/
def runClosure : CategorySync :=
  match u.store.spawned with
  | [] => u
  | closure :: waiting =>
    ⟨{ u.store with spawned := waiting },
      merge u.remote (closure.categoryWrites u.store.categories)⟩

/-- The step function of the synced categories. -/
def step (l : CategoryStep) (u : CategorySync) : Option CategorySync :=
  match l with
  | .operation now op => (op.run now u.store).map fun s => { u with store := s }
  | .runClosure => some u.runClosure

/-- The operation gets what its callers provide. -/
def Legal (l : CategoryStep) (u : CategorySync) : Prop :=
  match l with
  | .operation _ op => op.Legal u.store
  | .runClosure => True

/-- The operation needs no document to go or to change but those it writes. -/
def KeepsDocuments (l : CategoryStep) (u : CategorySync) : Prop :=
  match l with
  | .operation _ op => op.KeepsDocuments u.store
  | .runClosure => True

instance : ∀ l u, Decidable (Legal l u)
  | .operation _ op, u => inferInstanceAs (Decidable (op.Legal u.store))
  | .runClosure, _ => isTrue trivial

instance : ∀ l u, Decidable (KeepsDocuments l u)
  | .operation _ op, u => inferInstanceAs (Decidable (op.KeepsDocuments u.store))
  | .runClosure, _ => isTrue trivial

/-- A backend is attached, and nothing waits. -/
structure InSync : Prop where
  syncing : u.store.syncingBackend.isSome
  distinct : DistinctKeys Category.id u.store.categories
  waiting : u.store.spawned = []
  remote : ∀ x, u.remote x = lookup Category.id u.store.categories x

/-- The documents, with the closures that wait, are the categories of the store. -/
structure Synced : Prop where
  syncing : u.store.syncingBackend.isSome
  distinct : DistinctKeys Category.id u.store.categories
  settles : Settles Closure.categoryWrites (lookup Category.id) u.remote u.store.categories
    u.store.spawned

end CategorySync

/-! ## What an operation writes -/

namespace LocalStore

variable {s s' : LocalStore}

/-- Among the closures that `s'` has added is a write of every category that changed. -/
structure WritesCategories (s s' : LocalStore) : Prop where
  syncing : s'.syncingBackend = s.syncingBackend
  distinct : DistinctKeys Category.id s'.categories
  exists_new : ∃ new, s'.spawned = s.spawned ++ new ∧ ∀ x,
    lastWrite (new.map (Closure.categoryWrites s'.categories)) x =
        some (.ofValue (lookup Category.id s'.categories x)) ∨
      lastWrite (new.map (Closure.categoryWrites s'.categories)) x = none ∧
        lookup Category.id s'.categories x = lookup Category.id s.categories x

theorem lastWrite_singleton {K V : Type*} (data : Data K V) (x : K) :
    lastWrite [data] x = data x := by
  simp [lastWrite]

/-- The whole list is uploaded, and no category was dropped. -/
theorem WritesCategories.of_upsertStoreCategories (hs : s.syncingBackend.isSome)
    (hsyncing : s'.syncingBackend = s.syncingBackend)
    (hd : DistinctKeys Category.id s'.categories)
    (hspawned : s'.spawned =
      s.spawned ++ (s.syncingBackend.map Closure.upsertStoreCategories).toList)
    (hids : s.categories.map Category.id ⊆ s'.categories.map Category.id) :
    s.WritesCategories s' := by
  obtain ⟨b, hb⟩ := Option.isSome_iff_exists.mp hs
  rw [hb] at hspawned
  refine ⟨hsyncing, hd, _, hspawned, fun x => ?_⟩
  change lastWrite [putCategories s'.categories] x = _ ∨ lastWrite [putCategories s'.categories] x =
    none ∧ _
  rw [lastWrite_singleton, putCategories_apply hd]
  cases hx : lookup Category.id s'.categories x with
  | some c => exact Or.inl rfl
  | none =>
    have hold : x ∉ s.categories.map Category.id := fun hmem =>
      lookup_eq_none_iff_notMem.mp hx (hids hmem)
    exact Or.inr ⟨rfl, (lookup_eq_none_iff_notMem.mpr hold).symm⟩

theorem WritesCategories.addCategory (hs : s.syncingBackend.isSome)
    (hd : DistinctKeys Category.id s.categories) {c : Category}
    (hc : c.id ∉ s.categories.map Category.id) : s.WritesCategories (s.addCategory c) := by
  refine .of_upsertStoreCategories hs (Edits.refl.addCategory c).keepsAccount.syncingBackend
    (distinctKeys_addCategory hd hc) (s.spawned_addCategory c) fun x hx => ?_
  obtain ⟨d, hd', rfl⟩ := List.mem_map.mp hx
  rw [categories_addCategory]
  refine List.mem_map.mpr ⟨{ d with order := d.order + 1 }, ?_, rfl⟩
  exact mem_sortedByCategorySort.mpr (List.mem_append_left _ (List.mem_map_of_mem hd'))

/-- Every category is either requested or preserved. -/
theorem subset_ids_reorderedCategories (hd : DistinctKeys Category.id s.categories)
    (orderedIds : List String) : s.categories.map Category.id ⊆
      (s.reorderedCategories (lookup Category.id s.categories) orderedIds).map Category.id := by
  intro x hx
  obtain ⟨c, hc, rfl⟩ := List.mem_map.mp hx
  unfold reorderedCategories
  dsimp only
  rw [List.map_append, List.mem_append]
  by_cases hordered : c.id ∈ orderedIds
  · obtain ⟨i, hi⟩ := List.mem_iff_getElem?.mp hordered
    refine Or.inl (List.mem_map.mpr ⟨{ c with order := (i : ℤ) }, ?_, rfl⟩)
    refine List.mem_filterMap.mpr ⟨some { c with order := (i : ℤ) }, ?_, rfl⟩
    refine List.mem_iff_getElem?.mpr ⟨i, ?_⟩
    rw [List.getElem?_mapIdx, hi, Option.map_some, lookup_of_mem hd hc]
    rfl
  · rw [ids_mapIdx_order_add]
    have hmem : c ∈ s.categories.filter fun c => c.id ∉ orderedIds :=
      List.mem_filter.mpr ⟨hc, decide_eq_true hordered⟩
    exact Or.inr (List.mem_map_of_mem hmem)

theorem WritesCategories.reorderCategories (hs : s.syncingBackend.isSome)
    (hd : DistinctKeys Category.id s.categories) {orderedIds : List String}
    (hn : orderedIds.Nodup) (h : s.reorderCategories orderedIds = some s') :
    s.WritesCategories s' := by
  refine .of_upsertStoreCategories hs (Edits.refl.reorderCategories h).keepsAccount.syncingBackend
    (distinctKeys_reorderCategories hd hn h) (spawned_reorderCategories h) fun x hx => ?_
  rw [categories_reorderCategories h]
  exact ((perm_sortedByCategorySort _).map Category.id).symm.subset
    (subset_ids_reorderedCategories hd orderedIds hx)

/-- The presets write every category, which suffices where none is dropped. -/
theorem WritesCategories.applyOnboardingPresetCategories (hs : s.syncingBackend.isSome)
    {cs : List Category} (hd : DistinctKeys Category.id cs)
    (hids : s.categories.map Category.id ⊆ cs.map Category.id) :
    s.WritesCategories (s.applyOnboardingPresetCategories cs) := by
  refine .of_upsertStoreCategories hs
    (Edits.refl.applyOnboardingPresetCategories cs).keepsAccount.syncingBackend ?_
    (s.spawned_applyOnboardingPresetCategories cs) ?_
  · rw [categories_applyOnboardingPresetCategories]
    unfold DistinctKeys
    rwa [ids_mapIdx_order]
  · rwa [categories_applyOnboardingPresetCategories, ids_mapIdx_order]

/-- The edited category is uploaded. -/
theorem WritesCategories.updateCategory (hs : s.syncingBackend.isSome)
    (hd : DistinctKeys Category.id s.categories) (id : String) (updates : CategoryUpdate) :
    s.WritesCategories (s.updateCategory id updates) := by
  have hsyncing := (Edits.refl.updateCategory (s := s) id updates).keepsAccount.syncingBackend
  obtain ⟨b, hb⟩ := Option.isSome_iff_exists.mp hs
  rcases s.updateCategory_cases id updates with hsame | ⟨i, old, hi, hcategories, hspawned⟩
  · rw [hsame]
    exact ⟨rfl, hd, [], (List.append_nil _).symm, fun x => Or.inr ⟨rfl, rfl⟩⟩
  have hid := updates.id_apply old
  have hset : DistinctKeys Category.id (s.categories.set i (updates.apply old)) := by
    unfold DistinctKeys
    rwa [map_key_set hi hid]
  have hlookup : ∀ x, lookup Category.id (s.updateCategory id updates).categories x =
      if x = old.id then some (updates.apply old) else lookup Category.id s.categories x := by
    intro x
    rw [hcategories, lookup_perm hset (perm_sortedByCategorySort _).symm, lookup_set hd hi hid]
  rw [hb] at hspawned
  refine ⟨hsyncing, ?_, _, hspawned, fun x => ?_⟩
  · rw [hcategories]
    exact hset.perm (perm_sortedByCategorySort _).symm
  change lastWrite [putCategories [updates.apply old]] x = _ ∨
    lastWrite [putCategories [updates.apply old]] x = none ∧ _
  rw [lastWrite_singleton, putCategories_singleton, hid, hlookup]
  by_cases hx : x = old.id
  · rw [if_pos hx, if_pos hx]
    exact Or.inl rfl
  · rw [if_neg hx, if_neg hx]
    exact Or.inr ⟨rfl, rfl⟩

/-- Numbering changes nothing. -/
theorem mapIdx_order_of_isNumbered {cs : List Category} (h : IsNumbered cs) :
    (cs.mapIdx fun index c => { c with order := (index : ℤ) }) = cs := by
  refine List.ext_getElem? fun i => ?_
  rw [List.getElem?_mapIdx]
  cases hc : cs[i]? with
  | none => rfl
  | some c =>
    have horder : c.order = i := by
      have hmap := congrArg (·[i]?) h
      simpa [hc] using hmap
    rw [← horder]
    rfl

/-- One document is deleted, and the other categories are as they were. -/
theorem WritesCategories.deleteCategory (hs : s.syncingBackend.isSome)
    (hd : DistinctKeys Category.id s.categories) {id : String}
    (hkeeps : IsNumbered (sortedByCategorySort (s.categories.filter fun c => c.id ≠ id)))
    (replacementId : Option String) (now : Date) :
    s.WritesCategories (s.deleteCategory id replacementId now) := by
  obtain ⟨b, hb⟩ := Option.isSome_iff_exists.mp hs
  have hspawned := s.spawned_deleteCategory id replacementId now
  rw [hb] at hspawned
  have hkept : DistinctKeys Category.id (s.categories.filter fun c => c.id ≠ id) :=
    hd.sublist List.filter_sublist
  have hcategories := s.categories_deleteCategory id replacementId now
  rw [mapIdx_order_of_isNumbered hkeeps] at hcategories
  have hlookup : ∀ x, lookup Category.id (s.deleteCategory id replacementId now).categories x =
      if x = id then none else lookup Category.id s.categories x := by
    intro x
    rw [hcategories, lookup_perm hkept (perm_sortedByCategorySort _).symm]
    exact lookup_remove s.categories id x
  refine ⟨(Edits.refl.deleteCategory id replacementId now).keepsAccount.syncingBackend, ?_, _,
    hspawned, fun x => ?_⟩
  · rw [hcategories]
    exact hkept.perm (perm_sortedByCategorySort _).symm
  change lastWrite [fun y => if y = id then some Write.delete else none] x = _ ∨
    lastWrite [fun y => if y = id then some Write.delete else none] x = none ∧ _
  rw [lastWrite_singleton, hlookup]
  by_cases hx : x = id
  · rw [if_pos hx, if_pos hx]
    exact Or.inl rfl
  · rw [if_neg hx, if_neg hx]
    exact Or.inr ⟨rfl, rfl⟩

end LocalStore

/-! ## Fetching the documents -/

namespace LocalStore

variable {s s' : LocalStore} {fetched : List Category}

/-- The documents, in any sequence, sort to the sequence of the store. -/
theorem sortedByCategorySort_fetched (hd : DistinctKeys Category.id s.categories)
    (hfetched : DistinctKeys Category.id fetched)
    (h : ∀ x, lookup Category.id fetched x = lookup Category.id s.categories x) :
    sortedByCategorySort fetched = s.sortedCategories := by
  have hperm := perm_of_lookup_eq hfetched hd h
  exact sortedByCategorySort_eq hfetched ((perm_sortedByCategorySort _).trans hperm.symm)
    (pairwise_sortedByCategorySort _)

/-- What is shown of a category. -/
def shown (c : Category) : String × String × String × String :=
  (c.id, c.name, c.icon, c.color)

/-- Migrating sorted categories changes colors and numbers, and not the sequence. -/
theorem sortedByCategorySort_migratedCategories {cs : List Category}
    (hd : DistinctKeys Category.id cs) (hsorted : cs.Pairwise categoryPrecedes) :
    (sortedByCategorySort (migratedCategories cs)).map shown =
      cs.map fun c => shown c.normalizedColor := by
  have hnormalized : DistinctKeys Category.id (cs.map Category.normalizedColor) :=
    hd.map Category.normalizedColor_id
  unfold migratedCategories
  dsimp only
  split_ifs
  · rw [sortedByCategorySort_mapIdx_order hnormalized]
    refine List.ext_getElem? fun i => ?_
    cases hc : cs[i]? <;> simp [hc, shown]
  · have hpairwise : (cs.map Category.normalizedColor).Pairwise categoryPrecedes := by
      refine List.pairwise_map.mpr (hsorted.imp fun hcd => ?_)
      simpa [categoryPrecedes] using hcd
    rw [sortedByCategorySort_eq hnormalized (List.Perm.refl _) hpairwise, List.map_map]
    rfl

/-- A device that receives the documents shows the categories of the store. -/
theorem sortedCategories_applyRemoteCategories {device : LocalStore}
    (hdevice : DistinctIds device.tasks) (hd : DistinctKeys Category.id s.categories)
    (hne : s.categories ≠ []) (hfetched : DistinctKeys Category.id fetched)
    (h : ∀ x, lookup Category.id fetched x = lookup Category.id s.categories x) :
    ∃ device', device.applyRemoteCategories fetched = some device' ∧
      device'.sortedCategories.map shown =
        s.sortedCategories.map fun c => shown c.normalizedColor := by
  obtain ⟨device', hdevice', hdata⟩ := Option.map_eq_some_iff.mp
    (categoryData_applyRemoteCategories hdevice fetched)
  obtain ⟨hcategories, -⟩ := Prod.mk.inj hdata
  have hnonempty : (sortedByCategorySort fetched).isEmpty = false := by
    rw [sortedByCategorySort_fetched hd hfetched h, List.isEmpty_eq_false_iff]
    intro hnil
    exact hne (List.nil_perm.mp (hnil ▸ perm_sortedByCategorySort s.categories))
  refine ⟨device', hdevice', ?_⟩
  unfold sortedCategories
  rw [hcategories, receivedCategories, hnonempty]
  have hsorted := sortedByCategorySort_fetched hd hfetched h
  rw [hsorted]
  exact sortedByCategorySort_migratedCategories
    (hd.perm (perm_sortedByCategorySort s.categories).symm) (pairwise_sortedByCategorySort _)

end LocalStore

/-! ## Runs -/

namespace CategorySync

variable {u v : CategorySync} {l : CategoryStep}

theorem InSync.synced (h : u.InSync) : u.Synced := by
  refine ⟨h.syncing, h.distinct, ?_⟩
  rw [h.waiting]
  exact h.remote

/-- Every operation writes the categories that it changes. -/
theorem writesCategories_run {s s' : LocalStore} (hs : s.syncingBackend.isSome)
    (hd : DistinctKeys Category.id s.categories) {now : Date} {op : CategoryOperation}
    (hl : op.Legal s) (hk : op.KeepsDocuments s) (h : op.run now s = some s') :
    s.WritesCategories s' := by
  cases op with
  | addCategory category =>
    obtain rfl := Option.some_inj.mp h
    exact .addCategory hs hd hl
  | updateCategory id updates =>
    obtain rfl := Option.some_inj.mp h
    exact .updateCategory hs hd id updates
  | reorderCategories orderedIds => exact .reorderCategories hs hd hl h
  | deleteCategory id replacementId =>
    obtain rfl := Option.some_inj.mp h
    exact .deleteCategory hs hd hk replacementId now
  | applyOnboardingPresetCategories presetCategories =>
    obtain rfl := Option.some_inj.mp h
    exact .applyOnboardingPresetCategories hs hl hk

/-- Every step keeps the uploaded categories equal to those of the store. -/
theorem Synced.step (h : u.Synced) (hl : Legal l u) (hk : KeepsDocuments l u)
    (hv : step l u = some v) : v.Synced := by
  cases l with
  | operation now op =>
    obtain ⟨s', hs', rfl⟩ := Option.map_eq_some_iff.mp hv
    have hwrites := writesCategories_run h.syncing h.distinct hl hk hs'
    obtain ⟨new, hspawned, hnew⟩ := hwrites.exists_new
    refine ⟨hwrites.syncing ▸ h.syncing, hwrites.distinct, ?_⟩
    have hsettles := h.settles.append (fun closure _ _ hsame =>
      closure.categoryWrites_congr h.distinct hwrites.distinct hsame) hnew
    rwa [← hspawned] at hsettles
  | runClosure =>
    obtain rfl := Option.some_inj.mp hv
    have hsettles := h.settles
    unfold CategorySync.runClosure
    split
    · exact h
    · rename_i closure waiting hspawned
      rw [hspawned] at hsettles
      exact ⟨h.syncing, h.distinct, hsettles.run⟩

/-- When every closure has run, the documents are the categories of the store, and a device that
fetches them shows the same categories in the same sequence. -/
theorem remote_eq_run (h : u.InSync) {ls : List CategoryStep}
    (hl : Runs.Guarded step Legal ls u) (hk : Runs.Guarded step KeepsDocuments ls u)
    (hv : Runs.run step ls u = some v) (hdone : v.store.spawned = []) :
    (∀ x, v.remote x = lookup Category.id v.store.categories x) ∧
    ∀ fetched, DistinctKeys Category.id fetched →
      (∀ x, lookup Category.id fetched x = v.remote x) →
      LocalStore.sortedByCategorySort fetched = v.store.sortedCategories ∧
      ∀ device : LocalStore, DistinctIds device.tasks → v.store.categories ≠ [] →
        ∃ device', device.applyRemoteCategories fetched = some device' ∧
          device'.sortedCategories.map LocalStore.shown =
            v.store.sortedCategories.map fun c => LocalStore.shown c.normalizedColor := by
  have hsynced : v.Synced := Runs.invariant_of_guarded (I := Synced)
    (fun l u v hu hg hv => hu.step hg.1 hg.2 hv) h.synced (hl.and hk) hv
  have hremote : ∀ x, v.remote x = lookup Category.id v.store.categories x := by
    have hsettles := hsynced.settles
    rw [hdone] at hsettles
    exact settles_nil_iff.mp hsettles
  refine ⟨hremote, fun fetched hfetched hlookup => ?_⟩
  have hsame : ∀ x, lookup Category.id fetched x = lookup Category.id v.store.categories x :=
    fun x => (hlookup x).trans (hremote x)
  exact ⟨LocalStore.sortedByCategorySort_fetched hsynced.distinct hfetched hsame,
    fun device hdevice hne => LocalStore.sortedCategories_applyRemoteCategories hdevice
      hsynced.distinct hne hfetched hsame⟩

/-- Two categories, both uploaded. -/
def sample : CategorySync where
  store := { LocalStore.sampleDisplay with backend := some ⟨"user"⟩ }
  remote := lookup Category.id LocalStore.sampleDisplay.categories

theorem inSync_sample : sample.InSync :=
  ⟨by decide, by decide, rfl, fun _ => rfl⟩

/-- A category is added, and the last one is deleted before anything was uploaded. -/
def sampleSteps : List CategoryStep :=
  [.operation (.seconds 1) (.addCategory ⟨"trip", "Trip", "", "", 0⟩),
    .operation (.seconds 2) (.deleteCategory "home" none), .runClosure, .runClosure]

theorem remote_eq_run_sample : ∃ v, Runs.run step sampleSteps sample = some v ∧
    v.store.sortedCategories.map Category.id = ["trip", "work"] ∧
    ∀ x, v.remote x = lookup Category.id v.store.categories x := by
  have hlegal : Runs.Guarded step Legal sampleSteps sample := by decide
  have hkeeps : Runs.Guarded step KeepsDocuments sampleSteps sample := by decide
  obtain ⟨v, hv, hids, hdone⟩ : ∃ v, Runs.run step sampleSteps sample = some v ∧
      v.store.sortedCategories.map Category.id = ["trip", "work"] ∧ v.store.spawned = [] :=
    ⟨_, rfl, by decide, rfl⟩
  exact ⟨v, hv, hids, (remote_eq_run inSync_sample hlegal hkeeps hv hdone).1⟩

/-- The first of two categories is deleted : the document of the other keeps its number. The
presets replace both : their documents stay. -/
theorem not_remote_eq_run :
    (∃ v, Runs.run step [.operation (.seconds 1) (.deleteCategory "work" none), .runClosure]
      sample = some v ∧ v.store.spawned = [] ∧
        lookup Category.id v.store.categories "home" = some ⟨"home", "Home", "", "", 0⟩ ∧
        v.remote "home" = some ⟨"home", "Home", "", "", 1⟩) ∧
    ∃ v, Runs.run step [.operation (.seconds 1) (.applyOnboardingPresetCategories
        [⟨"trip", "Trip", "", "", 0⟩]), .runClosure] sample = some v ∧ v.store.spawned = [] ∧
      lookup Category.id v.store.categories "work" = none ∧ (v.remote "work").isSome :=
  ⟨⟨_, rfl, rfl, by decide, by decide⟩, ⟨_, rfl, rfl, by decide, by decide⟩⟩

end CategorySync

end Notelayer
