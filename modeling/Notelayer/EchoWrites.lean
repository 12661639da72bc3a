import Notelayer.CategoryDisplay
import Notelayer.Isolation

/-!
# Writes caused by deliveries

A listener hands remote data to the store. `ListeningStore.step` is one delivery, with the
writes it causes : of the closures the store spawns, and of the sinks of the metadata. The
handlers of the collections do not set `suppressMetadataWrites`, and the categories can move the
position of the uncategorized group. So a run of deliveries causes no write exactly if every
list of categories it delivers leaves room for the position (`ListeningStore.noEcho_run_iff`).
-/

namespace Notelayer

/-- What the listeners of collections and of the position hand to the store. -/
inductive RemoteDelivery where
  | notes (remote : List Note)
  | tasks (remote : List Task)
  | categories (remote : List Category)
  | uncategorizedPosition (position : ℤ)

/-- The snapshot that a delivery passes to its handler. -/
def RemoteDelivery.snapshot : RemoteDelivery → Snapshot
  | .notes remote => .notes remote
  | .tasks remote => .tasks remote
  | .categories remote => .categories remote
  | .uncategorizedPosition position => .categoryGroupMetadata (some position)

/-- A store with a metadata sync, and the writes that deliveries have caused. -/
structure ListeningStore where
  store : LocalStore
  writes : List DocumentWrite := []

namespace ListeningStore

/-- The closures that a handler has spawned write, and so do the sinks, unless the handler
suppresses them, and the handler itself may push. -/
def handlerWrites (snapshot : Snapshot) (s s' : LocalStore) (push : Option MetadataWrite) :
    List DocumentWrite :=
  (s'.spawned.drop s.spawned.length).filterMap (Closure.document s') ++
    (if snapshot.isCollection then s.metadataSinks s' else []).map .metadata ++
      (push.map .metadata).toList

/-- The step function of the listening store. -/
def step (delivery : RemoteDelivery) (x : ListeningStore) : Option ListeningStore :=
  (delivery.snapshot.handle x.store).map fun (store, push) =>
    ⟨store, x.writes ++ handlerWrites delivery.snapshot x.store store push⟩

end ListeningStore

/-- The position is among the categories that the store has after the delivery. -/
def RemoteDelivery.LeavesRoom (delivery : RemoteDelivery) (x : ListeningStore) : Prop :=
  match delivery with
  | .categories remote => 0 ≤ x.store.uncategorizedPosition ∧ x.store.uncategorizedPosition ≤
      (if remote.isEmpty then Category.defaultCategories else remote).length
  | _ => True

namespace ListeningStore

open LocalStore

variable {x x' : ListeningStore}

/-- Closures that reschedule reminders write nothing. -/
theorem handlerWrites_of_spawnsReminders {snapshot : Snapshot} {s s' : LocalStore}
    {push : Option MetadataWrite} (h : s.SpawnsReminders s') :
    handlerWrites snapshot s s' push =
      (if snapshot.isCollection then s.metadataSinks s' else []).map .metadata ++
        (push.map .metadata).toList := by
  obtain ⟨closures, hspawned, hreminders⟩ := h
  have hnone : closures.filterMap (Closure.document s') = [] := by
    refine List.filterMap_eq_nil_iff.mpr fun closure hclosure => ?_
    obtain ⟨tasks, rfl⟩ := hreminders closure hclosure
    rfl
  unfold handlerWrites
  rw [hspawned, List.drop_left, hnone, List.nil_append]

/-- The handler of a collection writes nothing exactly if the position stays. -/
theorem handlerWrites_eq_nil_iff {snapshot : Snapshot} (hc : snapshot.isCollection = true)
    {s s' : LocalStore} {push : Option MetadataWrite} (h : snapshot.handle s = some (s', push)) :
    handlerWrites snapshot s s' push = [] ↔
      s'.uncategorizedPosition = s.uncategorizedPosition := by
  obtain ⟨rfl, hkept⟩ := Snapshot.keepsMetadata_handle hc h
  rw [handlerWrites_of_spawnsReminders hkept.spawned, if_pos hc, Option.map_none,
    Option.toList_none, List.append_nil, List.map_eq_nil_iff, metadataSinks_eq_nil]
  exact and_iff_left ⟨hkept.preference, hkept.hint⟩

/-- The position stays if there is room for it among the categories received. -/
theorem uncategorizedPosition_applyRemoteCategories {s s' : LocalStore}
    {categories : List Category} (h : s.applyRemoteCategories categories = some s') :
    s'.uncategorizedPosition = s.uncategorizedPosition ↔
      0 ≤ s.uncategorizedPosition ∧ s.uncategorizedPosition ≤
        (if categories.isEmpty then Category.defaultCategories else categories).length := by
  have hd : DistinctIds s.tasks := by
    by_contra hd
    rw [applyRemoteCategories_of_not_distinctIds hd] at h
    exact absurd h.symm (Option.some_ne_none s')
  have hdata := categoryData_applyRemoteCategories hd categories
  rw [h] at hdata
  obtain ⟨-, hposition⟩ := Prod.mk.inj (Option.some_inj.mp hdata)
  rw [hposition, length_receivedCategories]
  unfold clampUncategorizedPosition
  omega

/-- A delivery causes no write exactly if it leaves room for the position. -/
theorem step_writes {delivery : RemoteDelivery} (h : step delivery x = some x') :
    ∃ writes, x'.writes = x.writes ++ writes ∧ (writes = [] ↔ delivery.LeavesRoom x) := by
  obtain ⟨⟨s', push⟩, hs', rfl⟩ := Option.map_eq_some_iff.mp h
  refine ⟨_, rfl, ?_⟩
  cases delivery with
  | notes remote =>
    have hposition : s'.uncategorizedPosition = x.store.uncategorizedPosition := by
      change Snapshot.handle x.store (.notes remote) = _ at hs'
      obtain ⟨rfl, -⟩ := Prod.mk.inj (Option.some_inj.mp hs')
      rfl
    exact iff_of_true ((handlerWrites_eq_nil_iff rfl hs').mpr hposition) trivial
  | tasks remote =>
    obtain ⟨s₁, hs₁, heq⟩ := Option.map_eq_some_iff.mp hs'
    obtain ⟨rfl, -⟩ := Prod.mk.inj heq
    obtain ⟨s₂, hs₂, rfl⟩ := Option.map_eq_some_iff.mp hs₁
    obtain ⟨sanitizedTasks, -, rfl⟩ := Option.map_eq_some_iff.mp hs₂
    exact iff_of_true ((handlerWrites_eq_nil_iff rfl hs').mpr rfl) trivial
  | categories remote =>
    obtain ⟨s₁, hs₁, heq⟩ := Option.map_eq_some_iff.mp hs'
    obtain ⟨rfl, -⟩ := Prod.mk.inj heq
    rw [handlerWrites_eq_nil_iff rfl hs', uncategorizedPosition_applyRemoteCategories hs₁]
    exact Iff.rfl
  | uncategorizedPosition position =>
    have hspawned := (Snapshot.sameAccount_handle hs').spawned
    change Snapshot.handle x.store (.categoryGroupMetadata (some position)) = _ at hs'
    obtain ⟨-, rfl⟩ := Prod.mk.inj (Option.some_inj.mp hs')
    refine iff_of_true ?_ trivial
    rw [handlerWrites_of_spawnsReminders hspawned]
    rfl

/-- A run of deliveries causes no write if and only if every delivery leaves room for the
position. -/
theorem noEcho_run_iff {deliveries : List RemoteDelivery}
    (h : Runs.run step deliveries x = some x') :
    x'.writes = x.writes ↔ Runs.Guarded step RemoteDelivery.LeavesRoom deliveries x := by
  obtain ⟨writes, hwrites, hiff⟩ :=
    Runs.log_eq_iff_guarded writes (fun _ _ _ hs => step_writes hs) h
  rw [hwrites, List.append_right_eq_self, hiff]

/-- A signed-in store with the uncategorized group after two categories. -/
def sample : ListeningStore where
  store := { sampleDisplay with
    uncategorizedPosition := 2
    backend := some ⟨"user"⟩ }

/-- A delivery of tasks, of a position and of notes. -/
def sampleDeliveries : List RemoteDelivery :=
  [.tasks [.sampleParent], .uncategorizedPosition 1, .notes []]

theorem noEcho_run_iff_sample : ∃ x', Runs.run step sampleDeliveries sample = some x' ∧
    x'.writes = sample.writes := by
  have hroom : Runs.Guarded step RemoteDelivery.LeavesRoom sampleDeliveries sample :=
    ⟨trivial, fun _ _ => ⟨trivial, fun _ _ => ⟨trivial, fun _ _ => trivial⟩⟩⟩
  exact ⟨_, rfl, (noEcho_run_iff rfl).mpr hroom⟩

/-- The account has one category left. The position moves, and the sink writes it. -/
theorem not_noEcho_run : ∃ x', Runs.run step [.categories [⟨"work", "Work", "", "", 0⟩]]
    sample = some x' ∧ x'.writes ≠ sample.writes := by
  obtain ⟨s', hs', -⟩ := applyRemoteCategories_of_distinctIds (s := sample.store)
    [⟨"work", "Work", "", "", 0⟩] (by decide)
  have hstep : step (.categories [⟨"work", "Work", "", "", 0⟩]) sample =
      some ⟨s', [] ++ handlerWrites (.categories [⟨"work", "Work", "", "", 0⟩]) sample.store s'
        none⟩ :=
    congrArg (fun o => Option.map _ (Option.map (·, none) o)) hs'
  obtain ⟨writes, hwrites, hiff⟩ := step_writes hstep
  refine ⟨_, Runs.run_cons_eq_some.mpr ⟨_, hstep, rfl⟩, fun heq => ?_⟩
  have hnil : writes = [] := List.append_right_eq_self.mp (hwrites.symm.trans heq)
  exact absurd (hiff.mp hnil).2 (by decide)

end ListeningStore

end Notelayer
