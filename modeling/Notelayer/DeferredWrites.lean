import Notelayer.CategoryOperations
import Notelayer.Library.Runs
import Notelayer.Listeners

/-!
# Writes that read the store late

Five operations spawn a closure that uploads a whole collection of the store, as it is when
the closure runs (`DeferredOperation`). A listener may replace the collection between the
operation and the closure. The closure then uploads what the listener brought, and the
operation is lost on both sides.

`DeferredOperation.NotLost` says that the upload carries the effect of the operation and
that the next snapshot shows it. That is so exactly when no delivery replaces the collection
in between, or the last one that does brings the effect itself (`notLost_iff`).
-/

namespace Notelayer

open KeyedList

/-! ## What a closure uploads -/

/-- Records of the three collections. -/
structure Records where
  notes : List Note := []
  tasks : List Task := []
  categories : List Category := []

/-- The records of the store. -/
def LocalStore.records (s : LocalStore) : Records :=
  ⟨s.notes, s.tasks, s.categories⟩

/-- The records a closure uploads first when it runs in the store `s`. -/
def Closure.upload (s : LocalStore) : Closure → Records
  | upsertNote _ note => { notes := [note] }
  | upsertNotes _ notes => { notes := notes }
  | upsertTask _ task => { tasks := [task] }
  | upsertTasks _ tasks => { tasks := tasks }
  | upsertStoreTasks _ => { tasks := s.tasks }
  | upsertTaskAt _ parentIndex _ => { tasks := s.tasks[parentIndex]?.toList }
  | upsertCategory _ category => { categories := [category] }
  | upsertStoreCategories _ => { categories := s.categories }
  | _ => {}

/-- The batch writes of the records. -/
def Remote.upsert (r : Remote) (records : Records) : Remote :=
  { r with
    notes := r.notes.upsertBatch Note.id records.notes
    tasks := r.tasks.upsertBatch Task.id records.tasks
    categories := r.categories.upsertBatch Category.id records.categories }

/-! ## What a delivery installs -/

/-- The tasks of a snapshot, without the links that are not allowed. -/
def sanitizedTasks (tasks : List Task) : List Task :=
  tasks.map (Task.sanitized (lookup Task.id tasks))

/-- Sorted, and repaired by `migrateIfNeeded`. -/
def installedCategories (categories : List Category) : List Category :=
  LocalStore.migratedCategories (if categories.isEmpty then Category.defaultCategories
    else LocalStore.sortedByCategorySort categories)

/-- The lists a snapshot replaces those of the store by. -/
def Snapshot.installed : Snapshot → Records
  | tasks remote => { tasks := sanitizedTasks remote }
  | categories remote => { categories := installedCategories remote }
  | _ => {}

/-- No id is repeated. -/
def Snapshot.DistinctIds : Snapshot → Prop
  | tasks remote => DistinctKeys Task.id remote
  | categories remote => DistinctKeys Category.id remote
  | _ => True

/-- The handlers of the snapshots, one after another. -/
def LocalStore.deliver (snapshots : List Snapshot) (s : LocalStore) : Option LocalStore :=
  Runs.run (fun (snapshot : Snapshot) s => (snapshot.handle s).map Prod.fst) snapshots s

/-! ## The operations -/

/-- The operations whose upload is deferred. -/
inductive DeferredOperation where
  | addCategory (category : Category)
  | reorderCategories (orderedIds : List String)
  | applyOnboardingPresetCategories (presetCategories : List Category)
  | reorderTasks (orderedIds : List String)
  | setParent (taskId : String) (parentId : Option String)

/-- The last closure spawned between two states of the store. -/
def lastSpawned (s s' : LocalStore) : Option Closure :=
  (s'.spawned.drop s.spawned.length).getLast?

/-- The categories are there with their orders. -/
def HasOrders (expected categories : List Category) : Prop :=
  ∀ c ∈ expected, ∃ d ∈ categories, d.id = c.id ∧ d.order = c.order

/-- The categories are there in the same sequence. A collection whose orders are all 0 is
numbered anew when it arrives. -/
def HasSequence (expected categories : List Category) : Prop :=
  ∀ c ∈ expected, ∀ d ∈ expected, LocalStore.categoryPrecedes c d →
    ∃ c' ∈ categories, ∃ d' ∈ categories, c'.id = c.id ∧ d'.id = d.id ∧
      LocalStore.categoryPrecedes c' d'

/-- A category with this id, name and icon is there. -/
def HasCategory (c : Category) (categories : List Category) : Prop :=
  ∃ d ∈ categories, d.id = c.id ∧ d.name = c.name ∧ d.icon = c.icon

namespace DeferredOperation

/-- The synchronous body. -/
def run (now : Date) (s : LocalStore) : DeferredOperation → Option LocalStore
  | addCategory category => some (s.addCategory category)
  | reorderCategories orderedIds => s.reorderCategories orderedIds
  | applyOnboardingPresetCategories presetCategories =>
    some (s.applyOnboardingPresetCategories presetCategories)
  | reorderTasks orderedIds => s.reorderTasks orderedIds now
  | setParent taskId parentId => some (s.setParent taskId parentId now)

/-- What the callers provide. -/
def Legal (s : LocalStore) : DeferredOperation → Prop
  | addCategory category => category.id ∉ s.categories.map Category.id
  | reorderCategories orderedIds => orderedIds.Nodup
  | applyOnboardingPresetCategories presetCategories => DistinctKeys Category.id presetCategories
  | reorderTasks orderedIds => orderedIds.Nodup
  | setParent _ _ => True

/-- The operation spawns its upload. -/
def Uploads (s : LocalStore) (op : DeferredOperation) : Prop :=
  s.syncingBackend.isSome ∧ ∀ taskId parentId, op = setParent taskId parentId →
    (taskWithId s.tasks taskId).isSome ∧ s.refusesParent taskId parentId = false

/-- The operation changes categories. -/
def ofCategories : DeferredOperation → Bool
  | reorderTasks _ => false
  | setParent _ _ => false
  | _ => true

/-- The categories the operation brings into the store. -/
def newCategories : DeferredOperation → List Category
  | addCategory category => [category]
  | applyOnboardingPresetCategories presetCategories => presetCategories
  | _ => []

/-- The change of the tasks : the new orders, or the task under its new parent. `s₁` is the
store after the operation. -/
def HasTaskChange (s₁ : LocalStore) (op : DeferredOperation) (tasks : List Task) : Prop :=
  match op with
  | reorderTasks orderedIds => ∀ t ∈ s₁.tasks, t.id ∈ orderedIds →
      ∃ u ∈ tasks, u.id = t.id ∧ u.orderIndex = t.orderIndex
  | setParent taskId parentId =>
      (∃ u ∈ tasks, u.id = taskId ∧ u.parentTaskId = parentId) ∧
        ∀ p ∈ parentId, ∃ parent ∈ tasks, parent.id = p ∧ parent.parentTaskId = none
  | _ => True

/-- The records have the effect of the operation on its collection. -/
def CarriedBy (s₁ : LocalStore) (op : DeferredOperation) (records : Records) : Prop :=
  if op.ofCategories then HasOrders s₁.categories records.categories ∧
    ∀ c ∈ op.newCategories, HasCategory c records.categories
  else op.HasTaskChange s₁ records.tasks

/-- The store shows the effect of the operation. -/
def ShownIn (s₁ : LocalStore) (op : DeferredOperation) (s : LocalStore) : Prop :=
  if op.ofCategories then HasSequence s₁.categories s.categories ∧
    ∀ c ∈ op.newCategories, HasCategory c s.categories
  else op.HasTaskChange s₁ s.tasks

/-- The next snapshot of the collection the operation writes. -/
def nextSnapshot (op : DeferredOperation) (r : Remote) : Snapshot :=
  if op.ofCategories then .categories r.categories.records else .tasks r.tasks.records

/-- The snapshot replaces the collection the operation writes. -/
def replacedBy (op : DeferredOperation) : Snapshot → Bool
  | .tasks _ => !op.ofCategories
  | .categories _ => op.ofCategories
  | _ => false

/-- With the deliveries between the body and the closure, the upload carries the effect and
the next snapshot shows it. -/
def NotLost (op : DeferredOperation) (now : Date) (s : LocalStore) (deliveries : List Snapshot) :
    Prop :=
  ∃ s₁ s₂, op.run now s = some s₁ ∧ s₁.deliver deliveries = some s₂ ∧
    ∀ closure ∈ lastSpawned s s₁, op.CarriedBy s₁ (closure.upload s₂) ∧
      ∀ r : Remote, DistinctKeys Task.id r.tasks.records →
        DistinctKeys Category.id r.categories.records →
        ∃ s₃ push, (op.nextSnapshot (r.upsert (closure.upload s₂))).handle s₂ = some (s₃, push) ∧
          op.ShownIn s₁ s₃

/-- No delivery replaces the collection the operation writes, or the last one that does
installs its effect. -/
def Undisturbed (op : DeferredOperation) (now : Date) (s : LocalStore)
    (deliveries : List Snapshot) : Prop :=
  op.Uploads s → ∀ s₁, op.run now s = some s₁ →
    ∀ snapshot ∈ (deliveries.filter op.replacedBy).getLast?, op.CarriedBy s₁ snapshot.installed

end DeferredOperation

/-! ## Repairs -/

theorem distinctIds_sanitizedTasks {tasks : List Task} (hd : DistinctIds tasks) :
    DistinctIds (sanitizedTasks tasks) :=
  distinctIds_congr (ids_sanitized tasks _) hd

/-- A task whose link, if it has one, names a top-level task keeps it. -/
theorem sanitized_of_linked {tasks : List Task} (hd : DistinctIds tasks) {t : Task}
    (ht : t ∈ tasks) (hp : ∀ p ∈ t.parentTaskId, ∃ parent ∈ tasks, parent.id = p ∧
      parent.parentTaskId = none) : t.sanitized (lookup Task.id tasks) =
        if t.parentTaskId.isSome then { t with parentManualReopenAt := none } else t := by
  cases hlink : t.parentTaskId with
  | none =>
    unfold Task.sanitized
    simp [hlink]
  | some p =>
    obtain ⟨parent, hparent, rfl, hroot⟩ := hp p hlink
    have hself : parent.id ≠ t.id := by
      intro hid
      rw [List.inj_on_of_nodup_map hd hparent ht hid, hlink] at hroot
      cases hroot
    unfold Task.sanitized
    simp [hlink, hself, lookup_of_mem hd hparent, hroot]

theorem orderIndex_sanitized (lookup : String → Option Task) (t : Task) :
    (t.sanitized lookup).orderIndex = t.orderIndex := by
  obtain ⟨_, _, h⟩ := t.exists_sanitized_eq lookup
  rw [h]

theorem Task.completedAt_sanitized (lookup : String → Option Task) (t : Task) :
    (t.sanitized lookup).completedAt = t.completedAt := by
  obtain ⟨_, _, h⟩ := t.exists_sanitized_eq lookup
  rw [h]

/-- The repair gives no task a link. -/
theorem Task.parentTaskId_of_sanitized {lookup : String → Option Task} {t : Task} {p : String}
    (h : (t.sanitized lookup).parentTaskId = some p) : t.parentTaskId = some p := by
  unfold sanitized at h
  dsimp only at h
  split at h
  · split_ifs at h <;> exact h
  · split_ifs at h <;> exact h

/-- The repair leaves no override on a subtask. -/
theorem override_sanitized (lookup : String → Option Task) (t : Task)
    (h : (t.sanitized lookup).parentTaskId.isSome) :
    (t.sanitized lookup).parentManualReopenAt = none := by
  unfold Task.sanitized at *
  dsimp only at *
  split_ifs at h ⊢ with hlink
  · rfl
  · exact absurd h hlink

/-- A repaired list needs no repair. -/
theorem sanitizedTasks_idem {tasks : List Task} (hd : DistinctIds tasks) :
    sanitizedTasks (sanitizedTasks tasks) = sanitizedTasks tasks := by
  have hd' := distinctIds_sanitizedTasks hd
  have hlevel := (oneLevel_view_iff hd').mp (oneLevel_sanitized hd)
  refine (List.map_congr_left fun t ht => ?_).trans (List.map_id _)
  rw [sanitized_of_linked hd' ht fun p hp => hlevel t ht p hp]
  obtain ⟨t₀, -, rfl⟩ := List.mem_map.mp ht
  split_ifs with hlink
  · rw [← override_sanitized _ t₀ hlink]
    rfl
  · rfl

/-! ## Deliveries -/

namespace LocalStore

variable {s : LocalStore}

theorem categories_migrateIfNeeded {s' : LocalStore} (h : s.migrateIfNeeded = some s') :
    s'.categories = migratedCategories s.migrateEmptyCategories.categories := by
  obtain ⟨taskLookup, -, rfl⟩ := Option.map_eq_some_iff.mp h
  have hposition : ∀ s : LocalStore, s.migrateUncategorizedPosition.categories = s.categories := by
    intro s
    unfold migrateUncategorizedPosition
    dsimp only
    split_ifs <;> rfl
  dsimp only
  split_ifs <;> exact hposition _

/-- Remote categories replace those of the store by their repair, and the tasks are repaired
with them. -/
theorem applyRemoteCategories_eq (hd : DistinctIds s.tasks) (categories : List Category) :
    ∃ s', s.applyRemoteCategories categories = some s' ∧
      s'.tasks = sanitizedTasks s.tasks ∧ s'.categories = installedCategories categories := by
  obtain ⟨s', hs', happlied, htasks⟩ := exists_migrated_applyRemoteCategories hd categories
  refine ⟨_, happlied, htasks, ?_⟩
  have hempty : (sortedByCategorySort categories).isEmpty = categories.isEmpty := by
    rw [Bool.eq_iff_iff, List.isEmpty_iff_length_eq_zero, List.isEmpty_iff_length_eq_zero,
      sortedByCategorySort, List.length_insertionSort]
  refine (categories_migrateIfNeeded hs').trans (congrArg migratedCategories ?_)
  unfold migrateEmptyCategories
  simp only [saveCategories, hempty]
  split_ifs <;> rfl

end LocalStore

namespace DeferredOperation

variable (op : DeferredOperation)

/-- The collection of the operation is the same, up to repair. -/
def SameCollection (r r' : Records) : Prop :=
  if op.ofCategories then r'.categories = r.categories
  else r'.tasks = r.tasks ∨ r'.tasks = sanitizedTasks r.tasks

variable {op} {r r' r'' : Records}

theorem SameCollection.refl : op.SameCollection r r := by
  unfold SameCollection
  split_ifs
  · rfl
  · exact Or.inl rfl

theorem SameCollection.trans (hd : DistinctIds r.tasks) (h : op.SameCollection r r')
    (h' : op.SameCollection r' r'') : op.SameCollection r r'' := by
  unfold SameCollection at *
  split_ifs at * with hc
  · exact h'.trans h
  · rcases h with h | h
    · rwa [h] at h'
    · rw [h, sanitizedTasks_idem hd, or_self] at h'
      exact Or.inr h'

theorem distinctIds_installed {snapshot : Snapshot} (h : snapshot.DistinctIds) :
    DistinctIds snapshot.installed.tasks := by
  cases snapshot with
  | tasks ts => exact distinctIds_sanitizedTasks h
  | _ => exact List.nodup_nil

/-- A handler installs its collection, and repairs the other one at most. -/
theorem exists_handle_sameCollection (op : DeferredOperation) {s : LocalStore}
    (hd : DistinctIds s.tasks) {snapshot : Snapshot} (h : snapshot.DistinctIds) :
    ∃ s' push, snapshot.handle s = some (s', push) ∧ DistinctIds s'.tasks ∧
      op.SameCollection (if op.replacedBy snapshot then snapshot.installed else s.records)
        s'.records := by
  cases snapshot with
  | tasks ts =>
    obtain ⟨s', hs', htasks⟩ := LocalStore.applyRemoteTasks_of_distinctIds (s := s) h
    have hcategories : s'.categories = s.categories := by
      obtain ⟨s₁, hs₁, rfl⟩ := Option.map_eq_some_iff.mp hs'
      obtain ⟨_, -, rfl⟩ := Option.map_eq_some_iff.mp hs₁
      rfl
    refine ⟨s', none, congrArg (Option.map (·, none)) hs',
      htasks ▸ distinctIds_sanitizedTasks h, ?_⟩
    unfold SameCollection replacedBy
    cases hc : op.ofCategories
    · exact Or.inl htasks
    · exact hcategories
  | categories cs =>
    obtain ⟨s', hs', htasks, hcategories⟩ := LocalStore.applyRemoteCategories_eq hd cs
    refine ⟨s', none, congrArg (Option.map (·, none)) hs',
      htasks ▸ distinctIds_sanitizedTasks hd, ?_⟩
    unfold SameCollection replacedBy
    cases hc : op.ofCategories
    · exact Or.inr htasks
    · exact hcategories
  | notes ns => exact ⟨_, _, rfl, hd, .refl⟩
  | categoryGroupMetadata position =>
    cases position with
    | none => exact ⟨_, _, rfl, hd, .refl⟩
    | some position => exact ⟨_, _, rfl, hd, .refl⟩
  | experimentalFeatureMetadata remoteEnabled remoteUpdatedAt => exact ⟨_, _, rfl, hd, .refl⟩
  | insightsHintMetadata remoteState => exact ⟨_, _, rfl, hd, .refl⟩

/-- The lists the deliveries leave in the collection of the operation. -/
def delivered (op : DeferredOperation) (s : LocalStore) (deliveries : List Snapshot) : Records :=
  ((deliveries.filter op.replacedBy).getLast?.map Snapshot.installed).getD s.records

/-- The deliveries do not trap, and leave the collection of the last one that replaces it. -/
theorem exists_deliver (op : DeferredOperation) {deliveries : List Snapshot}
    (h : ∀ snapshot ∈ deliveries, snapshot.DistinctIds) {s : LocalStore}
    (hd : DistinctIds s.tasks) : ∃ s₂, s.deliver deliveries = some s₂ ∧ DistinctIds s₂.tasks ∧
      op.SameCollection (op.delivered s deliveries) s₂.records := by
  induction deliveries generalizing s with
  | nil => exact ⟨s, rfl, hd, .refl⟩
  | cons snapshot deliveries ih =>
    obtain ⟨s', push, hs', hd', hsame⟩ :=
      op.exists_handle_sameCollection hd (h snapshot List.mem_cons_self)
    obtain ⟨s₂, hs₂, hd₂, hsame₂⟩ := ih (fun x hx => h x (List.mem_cons_of_mem _ hx)) hd'
    refine ⟨s₂, Runs.run_cons_eq_some.mpr ⟨s', congrArg (Option.map Prod.fst) hs', hs₂⟩, hd₂, ?_⟩
    unfold delivered at *
    cases hlast : (deliveries.filter op.replacedBy).getLast? with
    | some last =>
      have hcons : ((snapshot :: deliveries).filter op.replacedBy).getLast? = some last := by
        rw [List.filter_cons]
        split_ifs
        · rw [List.getLast?_cons, hlast, Option.getD_some]
        · exact hlast
      rw [hcons]
      rwa [hlast] at hsame₂
    | none =>
      rw [List.getLast?_eq_none_iff] at hlast
      have hcons : ((snapshot :: deliveries).filter op.replacedBy).getLast? =
          if op.replacedBy snapshot then some snapshot else none := by
        rw [List.filter_cons, hlast]
        split_ifs <;> rfl
      rw [hlast] at hsame₂
      have hbase : ((((snapshot :: deliveries).filter op.replacedBy).getLast?.map
          Snapshot.installed).getD s.records) =
          if op.replacedBy snapshot then snapshot.installed else s.records := by
        rw [hcons]
        split_ifs <;> rfl
      rw [hbase]
      refine hsame.trans ?_ hsame₂
      split_ifs
      · exact distinctIds_installed (h snapshot List.mem_cons_self)
      · exact hd

/-! ## Effects -/

/-- More tasks, more changes. -/
theorem HasTaskChange.mono {s₁ : LocalStore} {ts ts' : List Task} (hsub : ts ⊆ ts')
    (h : op.HasTaskChange s₁ ts) : op.HasTaskChange s₁ ts' := by
  cases op with
  | reorderTasks orderedIds =>
    intro t ht hid
    obtain ⟨u, hu, h⟩ := h t ht hid
    exact ⟨u, hsub hu, h⟩
  | setParent taskId parentId =>
    obtain ⟨⟨u, hu, hlink⟩, hparent⟩ := h
    refine ⟨⟨u, hsub hu, hlink⟩, fun p hp => ?_⟩
    obtain ⟨parent, hmem, hroot⟩ := hparent p hp
    exact ⟨parent, hsub hmem, hroot⟩
  | _ => trivial

/-- The repair leaves the orders, and a link to a top-level task. -/
theorem HasTaskChange.sanitized {s₁ : LocalStore} {ts : List Task} (hd : DistinctIds ts)
    (h : op.HasTaskChange s₁ ts) : op.HasTaskChange s₁ (sanitizedTasks ts) := by
  cases op with
  | reorderTasks orderedIds =>
    intro t ht hid
    obtain ⟨u, hu, huid, horder⟩ := h t ht hid
    refine ⟨_, List.mem_map_of_mem hu, ?_, ?_⟩
    · rw [Task.sanitized_id, huid]
    · rw [orderIndex_sanitized, horder]
  | setParent taskId parentId =>
    obtain ⟨⟨u, hu, huid, hlink⟩, hparent⟩ := h
    refine ⟨⟨_, List.mem_map_of_mem hu, by rw [Task.sanitized_id, huid], ?_⟩, fun p hp => ?_⟩
    · rw [sanitized_of_linked hd hu fun p hp => hparent p (hlink ▸ hp)]
      split_ifs <;> exact hlink
    · obtain ⟨parent, hmem, hid, hroot⟩ := hparent p hp
      exact ⟨_, List.mem_map_of_mem hmem, by rw [Task.sanitized_id, hid],
        Task.sanitized_root hroot⟩
  | _ => trivial

theorem CarriedBy.of_sameCollection {s₁ : LocalStore} (hd : DistinctIds r.tasks)
    (hsame : op.SameCollection r r') (h : op.CarriedBy s₁ r) : op.CarriedBy s₁ r' := by
  unfold SameCollection CarriedBy at *
  split_ifs at * with hc
  · rwa [hsame]
  · rcases hsame with hsame | hsame
    · rwa [hsame]
    · rw [hsame]
      exact h.sanitized hd

end DeferredOperation

theorem HasCategory.mono {c : Category} {cs cs' : List Category} (hsub : cs ⊆ cs')
    (h : HasCategory c cs) : HasCategory c cs' := by
  obtain ⟨d, hd, h⟩ := h
  exact ⟨d, hsub hd, h⟩

theorem HasOrders.mono {expected cs cs' : List Category} (hsub : cs ⊆ cs')
    (h : HasOrders expected cs) : HasOrders expected cs' := by
  intro c hc
  obtain ⟨d, hd, h⟩ := h c hc
  exact ⟨d, hsub hd, h⟩

theorem HasOrders.refl (cs : List Category) : HasOrders cs cs :=
  fun c hc => ⟨c, hc, rfl, rfl⟩

/-- Categories that are there are installed. -/
theorem HasCategory.installed {c : Category} {cs : List Category} (h : HasCategory c cs) :
    HasCategory c (installedCategories cs) := by
  obtain ⟨d, hd, hid, hname, hicon⟩ := h
  have hne : ¬cs.isEmpty = true := fun he => by simp [List.isEmpty_iff.mp he] at hd
  unfold installedCategories
  rw [if_neg hne]
  obtain ⟨d', hd', hid', hname', hicon'⟩ :=
    LocalStore.exists_mem_migratedCategories (LocalStore.mem_sortedByCategorySort.mpr hd)
  exact ⟨d', hd', hid'.trans hid, hname'.trans hname, hicon'.trans hicon⟩

/-- Categories with their orders are installed in sequence. -/
theorem HasOrders.installed {expected cs : List Category} (hd : DistinctKeys Category.id cs)
    (h : HasOrders expected cs) : HasSequence expected (installedCategories cs) := by
  intro c hc d hdm hprecedes
  obtain ⟨c', hc', hcid, hcorder⟩ := h c hc
  obtain ⟨d', hd', hdid, hdorder⟩ := h d hdm
  have hne : ¬cs.isEmpty = true := fun he => by simp [List.isEmpty_iff.mp he] at hc'
  have hprecedes' : LocalStore.categoryPrecedes c' d' := by
    unfold LocalStore.categoryPrecedes at *
    rwa [hcid, hcorder, hdid, hdorder]
  unfold installedCategories
  rw [if_neg hne]
  obtain ⟨c'', hc'', d'', hd'', hcid', hdid', hseq⟩ := LocalStore.precedes_migratedCategories
    (hd.perm (LocalStore.perm_sortedByCategorySort cs).symm)
    (LocalStore.pairwise_sortedByCategorySort cs)
    (LocalStore.mem_sortedByCategorySort.mpr hc') (LocalStore.mem_sortedByCategorySort.mpr hd')
    hprecedes'
  exact ⟨c'', hc'', d'', hd'', hcid'.trans hcid, hdid'.trans hdid, hseq⟩

/-! ## The bodies -/

namespace LocalStore

variable {s : LocalStore}

/-- A reconciliation spawns nothing without a backend. -/
theorem reconcileParent_spawned (p : Option String) (r : Bool) (now : Date) :
    (s.reconcileParent p r now).syncingBackend = s.syncingBackend ∧
      ∃ closures, (s.reconcileParent p r now).spawned = s.spawned ++ closures ∧
        (s.syncingBackend = none → closures = []) := by
  cases p with
  | none => exact ⟨rfl, [], (List.append_nil _).symm, fun _ => rfl⟩
  | some p =>
    rcases s.reconcileParentCompletion_cases p r now with
      h | ⟨i, old, new, closure, -, -, -, -, -, -, h⟩
    · refine ⟨by rw [reconcileParent, h], [], ?_, fun _ => rfl⟩
      rw [reconcileParent, h, List.append_nil]
    · refine ⟨by rw [reconcileParent, h]; simp, (s.syncingBackend.map closure).toList, ?_, ?_⟩
      · rw [reconcileParent, h]
        simp
      · intro hb
        rw [hb]
        rfl

/-- Without a refusal the upload of the tasks is the last closure `setParent` spawns. -/
theorem spawned_setParent {taskId : String} {parentId : Option String} (now : Date)
    (htask : (taskWithId s.tasks taskId).isSome) (hr : s.refusesParent taskId parentId = false) :
    ∃ closures, (s.setParent taskId parentId now).spawned =
      s.spawned ++ (closures ++ (s.syncingBackend.map Closure.upsertStoreTasks).toList) ∧
      (s.syncingBackend = none → closures = []) := by
  unfold setParent
  split
  · rename_i hentry
    have hnone := view_of_firstEntry_none hentry
    rw [view, Option.map_eq_none_iff] at hnone
    rw [hnone] at htask
    cases htask
  · rename_i index task hentry
    rw [if_neg (by rw [hr]; exact Bool.false_ne_true)]
    dsimp only
    obtain ⟨hb₁, cs₁, hs₁, hnil₁⟩ := reconcileParent_spawned
      (s := (s.setTask index (s.movedTask task parentId now)).saveTasks) task.parentTaskId true now
    obtain ⟨hb₂, cs₂, hs₂, hnil₂⟩ := reconcileParent_spawned
      (s := ((s.setTask index (s.movedTask task parentId now)).saveTasks).reconcileParent
        task.parentTaskId true now) parentId true now
    refine ⟨cs₁ ++ cs₂, ?_, fun hb => ?_⟩
    · rw [spawned_spawnSync, hs₂, hs₁, hb₂, hb₁]
      simp
    · rw [hnil₁ (by simpa using hb), hnil₂ (by rw [hb₁]; simpa using hb)]
      rfl

/-- A refused parent changes nothing. -/
theorem setParent_of_refused {taskId : String} {parentId : Option String} (now : Date)
    (h : ¬((taskWithId s.tasks taskId).isSome ∧ s.refusesParent taskId parentId = false)) :
    s.setParent taskId parentId now = s := by
  unfold setParent
  split
  · rfl
  · rename_i index task hentry
    obtain ⟨hi, hid⟩ := firstEntry_eq_some hentry
    have htask : (taskWithId s.tasks taskId).isSome := by
      rw [Option.isSome_iff_ne_none]
      intro hnone
      exact lookup_eq_none_iff.mp hnone task (List.mem_of_getElem? hi) (by simpa using hid)
    have hr : s.refusesParent taskId parentId = true := by
      rw [← Bool.not_eq_false]
      exact fun hr => h ⟨htask, hr⟩
    rw [if_pos hr]

theorem categories_reconcileParent (p : Option String) (r : Bool) (now : Date) :
    (s.reconcileParent p r now).categories = s.categories := by
  cases p with
  | none => rfl
  | some p =>
    rcases s.reconcileParentCompletion_cases p r now with
      h | ⟨i, old, new, closure, -, -, -, -, -, -, h⟩
    · rw [reconcileParent, h]
    · rw [reconcileParent, h, categories_spawnSync]
      rfl

theorem categories_setParent (taskId : String) (parentId : Option String) (now : Date) :
    (s.setParent taskId parentId now).categories = s.categories := by
  unfold setParent
  split
  · rfl
  · split_ifs
    · rfl
    · rw [categories_spawnSync, categories_reconcileParent, categories_reconcileParent]
      rfl

/-- The task is under its new parent. -/
theorem hasTaskChange_setParent (hd : DistinctIds s.tasks) {taskId : String}
    {parentId : Option String} (now : Date) (htask : (taskWithId s.tasks taskId).isSome)
    (hr : s.refusesParent taskId parentId = false) (s₁ : LocalStore) :
    (DeferredOperation.setParent taskId parentId).HasTaskChange s₁
      (s.setParent taskId parentId now).tasks := by
  have hr' : ¬s.refusesParent taskId parentId = true := by
    rw [hr]
    exact Bool.false_ne_true
  have hd' : DistinctIds (s.setParent taskId parentId now).tasks :=
    distinctIds_congr (ids_setParent taskId parentId now) hd
  have hview := view_setParent hd taskId parentId now
  rw [if_neg hr'] at hview
  obtain ⟨task, htask⟩ := Option.isSome_iff_exists.mp htask
  have hnode : view s.tasks taskId = some task.node := by
    rw [view, htask]
    rfl
  have hlinks : Forest.SameLinks (view (s.setParent taskId parentId now).tasks)
      (Function.update (view s.tasks) taskId (some (task.node.under parentId))) := by
    rw [hview, Forest.reparent, hnode]
    exact (Forest.sameLinks_reconcileAt _ _ _).trans (Forest.sameLinks_reconcileAt _ _ _)
  have hexists : ∀ {k : String} {n : Forest.Node String},
      Function.update (view s.tasks) taskId (some (task.node.under parentId)) k = some n →
      ∃ t ∈ (s.setParent taskId parentId now).tasks, t.id = k ∧ t.parentTaskId = n.parent := by
    intro k n hk
    obtain ⟨m, hm, hparent⟩ := hlinks.symm.exists hk
    obtain ⟨t, ht, hid, rfl⟩ := (view_eq_some_iff hd').mp hm
    exact ⟨t, ht, hid, hparent⟩
  refine ⟨hexists (Function.update_self ..), fun p hp => ?_⟩
  obtain ⟨hne, ⟨n, hn, hroot⟩, -⟩ := of_not_refusesParent hd hr' p hp
  obtain ⟨t, ht, hid, hlink⟩ := hexists (k := p) (n := n) (by rwa [Function.update_of_ne hne])
  exact ⟨t, ht, hid, hlink.trans hroot⟩

end LocalStore

theorem lastSpawned_of_append {s s₁ : LocalStore} {closures : List Closure}
    (h : s₁.spawned = s.spawned ++ closures) : lastSpawned s s₁ = closures.getLast? := by
  unfold lastSpawned
  rw [h, List.drop_left]

namespace DeferredOperation

variable {op : DeferredOperation} {s : LocalStore}

/-- The upload an operation spawns last. -/
def closure (op : DeferredOperation) (backend : FirestoreBackend) : Closure :=
  if op.ofCategories then .upsertStoreCategories backend else .upsertStoreTasks backend

/-- After the body of an operation : the upload it spawned, and its effect in the store. -/
structure After (op : DeferredOperation) (s s₁ : LocalStore) : Prop where
  tasks : DistinctIds s₁.tasks
  categories : DistinctKeys Category.id s₁.categories
  uploads : op.Uploads s → ∃ backend, lastSpawned s s₁ = some (op.closure backend)
  uploadsNot : ¬op.Uploads s → lastSpawned s s₁ = none
  effect : op.Uploads s → op.CarriedBy s₁ s₁.records

/-- What an operation spawns besides its upload comes before it. -/
theorem lastSpawned_eq {s₁ : LocalStore} {f : FirestoreBackend → Closure} {closures : List Closure}
    (h : s₁.spawned = s.spawned ++ (closures ++ (s.syncingBackend.map f).toList)) :
    (s.syncingBackend.isSome → ∃ backend, lastSpawned s s₁ = some (f backend)) ∧
      (closures = [] → s.syncingBackend = none → lastSpawned s s₁ = none) := by
  rw [lastSpawned_of_append h]
  refine ⟨fun hb => ?_, ?_⟩
  · obtain ⟨backend, hb⟩ := Option.isSome_iff_exists.mp hb
    exact ⟨backend, by rw [hb]; simp⟩
  · rintro rfl hb
    rw [hb]
    rfl

theorem After.of_spawned {s₁ : LocalStore} (ht : DistinctIds s₁.tasks)
    (hc : DistinctKeys Category.id s₁.categories)
    (hop : ∀ taskId parentId, op ≠ setParent taskId parentId)
    (hs : s₁.spawned = s.spawned ++ (s.syncingBackend.map op.closure).toList)
    (he : op.CarriedBy s₁ s₁.records) : op.After s s₁ := by
  obtain ⟨hsome, hnone⟩ := @lastSpawned_eq s s₁ op.closure [] hs
  refine ⟨ht, hc, fun hu => hsome hu.1, fun hu => hnone rfl ?_, fun _ => he⟩
  by_contra hb
  exact hu ⟨Option.isSome_iff_ne_none.mpr hb, fun taskId parentId h => absurd h (hop _ _)⟩

/-- Where ids are distinct no operation traps. -/
theorem exists_run (ht : DistinctIds s.tasks) (hc : DistinctKeys Category.id s.categories)
    (hl : op.Legal s) (now : Date) : ∃ s₁, op.run now s = some s₁ ∧ op.After s s₁ := by
  cases op with
  | addCategory category =>
    refine ⟨_, rfl, .of_spawned (by rwa [LocalStore.tasks_addCategory])
      (LocalStore.distinctKeys_addCategory hc hl) (by simp)
      (LocalStore.spawned_addCategory s category) ⟨HasOrders.refl _, ?_⟩⟩
    intro c hcm
    obtain rfl := List.mem_singleton.mp hcm
    refine ⟨{ c with order := 0 }, ?_, rfl, rfl, rfl⟩
    simp [LocalStore.records, LocalStore.categories_addCategory]
  | reorderCategories orderedIds =>
    have hmap : uniqueKeysWithValues Category.id s.categories =
        some (lookup Category.id s.categories) := if_pos hc
    obtain ⟨s₁, hs₁⟩ : ∃ s₁, s.reorderCategories orderedIds = some s₁ := by
      unfold LocalStore.reorderCategories
      rw [hmap]
      exact ⟨_, rfl⟩
    exact ⟨s₁, hs₁, .of_spawned (by rwa [LocalStore.tasks_reorderCategories hs₁])
      (LocalStore.distinctKeys_reorderCategories hc hl hs₁) (by simp)
      (LocalStore.spawned_reorderCategories hs₁) ⟨HasOrders.refl _, by simp [newCategories]⟩⟩
  | applyOnboardingPresetCategories presetCategories =>
    have hcategories := s.categories_applyOnboardingPresetCategories presetCategories
    refine ⟨_, rfl, .of_spawned (by rwa [LocalStore.tasks_applyOnboardingPresetCategories]) ?_
      (by simp) (s.spawned_applyOnboardingPresetCategories presetCategories)
      ⟨HasOrders.refl _, fun c hcm => ?_⟩⟩
    · unfold DistinctKeys
      rw [hcategories, LocalStore.ids_mapIdx_order]
      exact hl
    · obtain ⟨i, hi⟩ : ∃ i, presetCategories[i]? = some c := List.mem_iff_getElem?.mp hcm
      refine ⟨{ c with order := (i : ℤ) }, ?_, rfl, rfl, rfl⟩
      rw [LocalStore.records, hcategories]
      exact List.mem_iff_getElem?.mpr ⟨i, by simp [hi]⟩
  | reorderTasks orderedIds =>
    obtain ⟨s₁, hs₁, hids, -⟩ := LocalStore.exists_reorderTasks ht hl now
    obtain ⟨-, hspawned, -⟩ := LocalStore.reorderTasks_eq_some hs₁
    refine ⟨s₁, hs₁, .of_spawned (hids.nodup_iff.mpr ht) ?_ (by simp) hspawned ?_⟩
    · obtain ⟨taskMap, -, rfl⟩ := Option.map_eq_some_iff.mp hs₁
      rw [LocalStore.categories_spawnSync]
      exact hc
    · exact fun t htm _ => ⟨t, htm, rfl, rfl⟩
  | setParent taskId parentId =>
    refine ⟨_, rfl, distinctIds_congr (LocalStore.ids_setParent taskId parentId now) ht, ?_, ?_,
      ?_, ?_⟩
    · rw [LocalStore.categories_setParent]
      exact hc
    · rintro ⟨hb, hmoved⟩
      obtain ⟨htask, hr⟩ := hmoved _ _ rfl
      obtain ⟨closures, hs, -⟩ := LocalStore.spawned_setParent now htask hr
      exact (lastSpawned_eq hs).1 hb
    · intro hu
      rcases Classical.em ((taskWithId s.tasks taskId).isSome ∧
        s.refusesParent taskId parentId = false) with h | h
      · obtain ⟨closures, hs, hnil⟩ := LocalStore.spawned_setParent now h.1 h.2
        have hb : s.syncingBackend = none := by
          by_contra hb
          refine hu ⟨Option.isSome_iff_ne_none.mpr hb, ?_⟩
          rintro _ _ ⟨⟩
          exact h
        exact (lastSpawned_eq hs).2 (hnil hb) hb
      · rw [LocalStore.setParent_of_refused now h]
        exact lastSpawned_of_append (List.append_nil _).symm
    · rintro ⟨-, hmoved⟩
      obtain ⟨htask, hr⟩ := hmoved _ _ rfl
      exact LocalStore.hasTaskChange_setParent ht now htask hr (s.setParent taskId parentId now)

theorem carriedBy_upload {s₁ s₂ : LocalStore} (backend : FirestoreBackend) :
    op.CarriedBy s₁ ((op.closure backend).upload s₂) ↔ op.CarriedBy s₁ s₂.records := by
  unfold CarriedBy closure
  split_ifs <;> exact Iff.rfl

/-- An installed list needs no repair. -/
theorem sanitizedTasks_installed {snapshot : Snapshot} (h : snapshot.DistinctIds) :
    sanitizedTasks snapshot.installed.tasks = snapshot.installed.tasks := by
  cases snapshot with
  | tasks ts => exact sanitizedTasks_idem h
  | _ => rfl

theorem CarriedBy.of_installed {s₁ : LocalStore} {snapshot : Snapshot} (h : snapshot.DistinctIds)
    {r : Records} (hsame : op.SameCollection snapshot.installed r) (hr : op.CarriedBy s₁ r) :
    op.CarriedBy s₁ snapshot.installed := by
  unfold SameCollection CarriedBy at *
  split_ifs at * with hc
  · rwa [hsame] at hr
  · rw [sanitizedTasks_installed h, or_self] at hsame
    rwa [hsame] at hr

/-- A snapshot that has the effect shows it. -/
theorem exists_handle_shownIn {s₁ s₂ : LocalStore} (hd : DistinctIds s₂.tasks) {r : Remote}
    (ht : DistinctIds r.tasks.records) (hc : DistinctKeys Category.id r.categories.records)
    (h : op.CarriedBy s₁ { tasks := r.tasks.records, categories := r.categories.records }) :
    ∃ s₃ push, (op.nextSnapshot r).handle s₂ = some (s₃, push) ∧ op.ShownIn s₁ s₃ := by
  have hdistinct : (op.nextSnapshot r).DistinctIds := by
    unfold nextSnapshot
    split_ifs
    · exact hc
    · exact ht
  obtain ⟨s₃, push, hs₃, -, hsame⟩ := op.exists_handle_sameCollection hd hdistinct
  refine ⟨s₃, push, hs₃, ?_⟩
  unfold CarriedBy SameCollection replacedBy nextSnapshot ShownIn at *
  cases hof : op.ofCategories
  · simp only [hof, Bool.false_eq_true, if_false, Bool.not_false, if_true] at h hsame ⊢
    have htasks : s₃.tasks = sanitizedTasks r.tasks.records := by
      rcases hsame with hsame | hsame
      · exact hsame
      · exact hsame.trans (sanitizedTasks_idem ht)
    rw [htasks]
    exact h.sanitized ht
  · simp only [hof, if_true] at h hsame ⊢
    have hcategories : s₃.categories = installedCategories r.categories.records := hsame
    rw [hcategories]
    exact ⟨h.1.installed hc, fun c hcm => (h.2 c hcm).installed⟩

/-- Records that a batch without repetition writes are in the collection afterwards. -/
theorem CarriedBy.upsert {s₁ s₂ : LocalStore} (hd : DistinctIds s₂.tasks)
    (hc : op.ofCategories → DistinctKeys Category.id s₂.categories) (backend : FirestoreBackend)
    (r : Remote) (h : op.CarriedBy s₁ s₂.records) :
    let r' := r.upsert ((op.closure backend).upload s₂)
    op.CarriedBy s₁ { tasks := r'.tasks.records, categories := r'.categories.records } := by
  unfold CarriedBy closure at *
  split_ifs at * with hof
  · have hsub : s₂.categories ⊆ s₂.categories.foldl (KeyedList.upsert Category.id)
        r.categories.records := subset_foldl_upsert (hc hof) _
    exact ⟨h.1.mono hsub, fun c hcm => (h.2 c hcm).mono hsub⟩
  · exact h.mono (subset_foldl_upsert hd _)

/-- An installation repeats no id. -/
theorem distinctKeys_installedCategories {cs : List Category} (h : DistinctKeys Category.id cs) :
    DistinctKeys Category.id (installedCategories cs) := by
  have hmigrated : ∀ cs : List Category, DistinctKeys Category.id cs →
      DistinctKeys Category.id (LocalStore.migratedCategories cs) := by
    intro cs hcs
    have hnormalized : DistinctKeys Category.id (cs.map Category.normalizedColor) :=
      hcs.map Category.normalizedColor_id
    unfold LocalStore.migratedCategories
    dsimp only
    split_ifs
    · unfold DistinctKeys
      rwa [LocalStore.ids_mapIdx_order]
    · exact hnormalized
  unfold installedCategories
  refine hmigrated _ ?_
  split_ifs
  · decide
  · exact h.perm (LocalStore.perm_sortedByCategorySort cs).symm

/-- An operation is not lost to the deliveries before its upload if and only if none replaces
its collection, or the last one that does installs its effect. -/
theorem notLost_iff (ht : DistinctIds s.tasks) (hc : DistinctKeys Category.id s.categories)
    (hl : op.Legal s) (now : Date) {deliveries : List Snapshot}
    (hd : ∀ snapshot ∈ deliveries, snapshot.DistinctIds) :
    op.NotLost now s deliveries ↔ op.Undisturbed now s deliveries := by
  obtain ⟨s₁, hs₁, hafter⟩ := exists_run ht hc hl now
  obtain ⟨s₂, hs₂, hd₂, hsame⟩ := op.exists_deliver hd hafter.tasks
  have hmem : ∀ {snapshot}, snapshot ∈ (deliveries.filter op.replacedBy).getLast? →
      snapshot ∈ deliveries ∧ op.replacedBy snapshot = true := fun h =>
    List.mem_filter.mp (List.mem_of_getLast? h)
  constructor
  · rintro ⟨s₁', s₂', h₁, h₂, hall⟩ hu s₁'' h₁'' snapshot hlast
    obtain rfl : s₁ = s₁' := Option.some_inj.mp (hs₁.symm.trans h₁)
    obtain rfl : s₁ = s₁'' := Option.some_inj.mp (hs₁.symm.trans h₁'')
    obtain rfl : s₂ = s₂' := Option.some_inj.mp (hs₂.symm.trans h₂)
    obtain ⟨backend, hb⟩ := hafter.uploads hu
    have hcarried := (carriedBy_upload backend).mp (hall _ hb).1
    unfold delivered at hsame
    rw [Option.mem_def.mp hlast] at hsame
    exact hcarried.of_installed (hd snapshot (hmem hlast).1) hsame
  · intro hund
    refine ⟨s₁, s₂, hs₁, hs₂, fun closure hclosure => ?_⟩
    have hu : op.Uploads s := by
      by_contra hu
      rw [hafter.uploadsNot hu] at hclosure
      cases hclosure
    obtain ⟨backend, hb⟩ := hafter.uploads hu
    obtain rfl : op.closure backend = closure := Option.some_inj.mp (hb.symm.trans hclosure)
    have hbase : DistinctIds (op.delivered s₁ deliveries).tasks ∧
        (op.ofCategories → DistinctKeys Category.id (op.delivered s₁ deliveries).categories) ∧
        op.CarriedBy s₁ (op.delivered s₁ deliveries) := by
      unfold delivered
      cases hlast : (deliveries.filter op.replacedBy).getLast? with
      | none => exact ⟨hafter.tasks, fun _ => hafter.categories, hafter.effect hu⟩
      | some snapshot =>
        obtain ⟨hsnapshot, hreplaced⟩ := hmem hlast
        refine ⟨distinctIds_installed (hd snapshot hsnapshot), fun _ => ?_,
          hund hu s₁ hs₁ snapshot hlast⟩
        cases snapshot with
        | categories cs => exact distinctKeys_installedCategories (hd _ hsnapshot)
        | _ => exact List.nodup_nil
    obtain ⟨htasks, hcategories, hcarried⟩ := hbase
    have hcarried₂ := hcarried.of_sameCollection htasks hsame
    refine ⟨(carriedBy_upload backend).mpr hcarried₂, fun r hrt hrc => ?_⟩
    have hcategories₂ : op.ofCategories → DistinctKeys Category.id s₂.categories := by
      intro hof
      have hsame' : s₂.categories = (op.delivered s₁ deliveries).categories := by
        unfold SameCollection at hsame
        rwa [if_pos hof] at hsame
      rw [hsame']
      exact hcategories hof
    exact exists_handle_shownIn hd₂ (DistinctKeys.foldl_upsert _ hrt)
      (DistinctKeys.foldl_upsert _ hrc) (hcarried₂.upsert hd₂ hcategories₂ backend r)

/-- Two tasks, and a backend. -/
def sampleStore : LocalStore :=
  { tasks := [.sampleParent, { Task.sampleParent with id := "task" }], backend := some ⟨"user"⟩ }

/-- Categories delivered before the tasks are uploaded. -/
theorem notLost_iff_sample : (setParent "task" (some "parent")).NotLost (.seconds 1) sampleStore
    [.categories []] := by
  refine (@notLost_iff (setParent "task" (some "parent")) sampleStore (by decide)
    (by decide) trivial (.seconds 1) _ ?_).mpr ?_
  · intro snapshot hs
    obtain rfl := List.mem_singleton.mp hs
    exact List.nodup_nil
  · intro _ s₁ _ snapshot hlast
    exact absurd hlast (Option.not_mem_none _)

/-- The tasks as they were before the move, delivered before they are uploaded. -/
theorem not_notLost : ¬∀ (op : DeferredOperation) (now : Date) (s : LocalStore)
    (deliveries : List Snapshot), DistinctIds s.tasks → DistinctKeys Category.id s.categories →
      op.Legal s → (∀ snapshot ∈ deliveries, snapshot.DistinctIds) →
      op.NotLost now s deliveries := by
  intro h
  obtain ⟨s₁, s₂, h₁, h₂, hall⟩ := h (setParent "task" (some "parent")) (.seconds 1) sampleStore
    [.tasks sampleStore.tasks] (by decide) (by decide) trivial (by
      intro snapshot hs
      obtain rfl := List.mem_singleton.mp hs
      exact (by decide : DistinctIds sampleStore.tasks))
  obtain rfl := Option.some_inj.mp h₁
  obtain rfl := Option.some_inj.mp h₂
  obtain ⟨⟨⟨u, hu, hid, hlink⟩, -⟩, -⟩ := hall (.upsertStoreTasks ⟨"user"⟩) rfl
  have hnone : ∀ t ∈ sanitizedTasks sampleStore.tasks, t.parentTaskId = none := by decide
  rw [hnone u hu] at hlink
  cases hlink

end DeferredOperation

end Notelayer
