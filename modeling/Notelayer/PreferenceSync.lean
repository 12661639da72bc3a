import Mathlib.Data.Fintype.Basic
import Notelayer.AccountDeletion
import Notelayer.Library.LastWriteWins
import Notelayer.LocalOperations

/-!
# The experimental features preference on several devices

Devices of one user toggle their preference, push it to the user document, and reconcile with
what the document held. `PreferenceSync.step` is one step of that system. It refines a register
with replicas (`PreferenceSync.simulates`), which gives convergence to the latest preference
as long as no toggle replaces the latest one by an older one (`PreferenceSync.converged_run`).
A toggle does not look at the timestamp it replaces (`PreferenceSync.not_converged_run`).
-/

namespace Notelayer

/-! ## The system -/

/-- The value and the timestamp. -/
def ExperimentalFeaturePreference.fields (p : ExperimentalFeaturePreference) : Bool × Date :=
  (p.isEnabled, p.updatedAt)

/-- The value and the timestamp in the document. -/
def Remote.experimentalFeatureFields (r : Remote) : Option (Bool × Date) :=
  match r.experimentalFeaturesEnabled, r.experimentalFeaturesUpdatedAt with
  | some isEnabled, some updatedAt => some (isEnabled, updatedAt)
  | _, _ => none

/-- The stores of some devices and the document of their account, with the writes on their way. -/
structure PreferenceSync (Device : Type) where
  stores : Device → LocalStore
  remote : Remote
  /-- Every state of the document, oldest first. -/
  history : List Remote
  /-- The writes that have not arrived. -/
  writes : List MetadataWrite := []
  /-- Every preference that was set, oldest first. -/
  toggles : List ExperimentalFeaturePreference := []
  /-- The device has reconciled with the contents of the document since they changed. -/
  reconciled : Device → Bool := fun _ => false

/-- A step of a device, of a listener or of a write. -/
inductive PreferenceStep (Device : Type) where
  | setExperimentalFeaturesEnabled (device : Device) (enabled : Bool) (now : Date)
  /-- A listener reads a state of the document. -/
  | deliver (device : Device) (k : ℕ)
  | runWrite (k : ℕ)

namespace PreferenceSync

variable {Device : Type} [DecidableEq Device] (x : PreferenceSync Device)

/-- The switch is turned on a device, and the sink of the store writes the change. -/
def setExperimentalFeaturesEnabled (device : Device) (enabled : Bool) (now : Date) :
    PreferenceSync Device :=
  let s := (x.stores device).setExperimentalFeaturesEnabled enabled now
  let preference := s.experimentalFeaturesPreference
  { x with
    stores := Function.update x.stores device s
    writes := x.writes ++ (x.stores device).metadataSinks s
    toggles := x.toggles ++
      if preference = (x.stores device).experimentalFeaturesPreference then [] else [preference] }

/-- The listener of a device reads a document, and may push what the device has. -/
def deliver (device : Device) (r : Remote) : Option (PreferenceSync Device) :=
  ((Listener.experimentalFeatureMetadata.snapshot r).handle (x.stores device)).map
    fun (s, push) =>
      { x with
        stores := Function.update x.stores device s
        writes := x.writes ++ push.toList
        reconciled := Function.update x.reconciled device (x.reconciled device ||
          r.experimentalFeatureFields = x.remote.experimentalFeatureFields) }

/-- A write reaches the document. -/
def runWrite (k : ℕ) (write : MetadataWrite) : PreferenceSync Device :=
  let r := x.remote.upsertMetadata write
  { x with
    remote := r
    history := x.history ++ [r]
    writes := x.writes.eraseIdx k
    reconciled := fun device => x.reconciled device &&
      x.remote.experimentalFeatureFields = r.experimentalFeatureFields }

/-- One step. `none` : a trap, or no such document or write. -/
def step : PreferenceStep Device → PreferenceSync Device → Option (PreferenceSync Device)
  | .setExperimentalFeaturesEnabled device enabled now, x =>
    some (x.setExperimentalFeaturesEnabled device enabled now)
  | .deliver device k, x => x.history[k]?.bind (x.deliver device)
  | .runWrite k, x => x.writes[k]?.map (x.runWrite k)

/-- Nobody has toggled yet. -/
structure Fresh (stores : Device → LocalStore) (remote : Remote) : Prop where
  stores : ∀ device, (stores device).experimentalFeaturesPreference.fields =
    ExperimentalFeaturePreference.default.fields
  remote : ∀ fields ∈ remote.experimentalFeatureFields,
    fields = ExperimentalFeaturePreference.default.fields

/-- Before any step. -/
def start (stores : Device → LocalStore) (remote : Remote) : PreferenceSync Device :=
  { stores := stores, remote := remote, history := [remote] }

/-- Every push has arrived, and every device has reconciled with what the document holds. -/
def Settled : Prop :=
  x.toggles ≠ [] ∧ x.writes = [] ∧ ∀ device, x.reconciled device = true

instance [Fintype Device] : Decidable x.Settled :=
  inferInstanceAs (Decidable (_ ∧ _ ∧ _))

/-- The document and all devices hold the preference with the greatest timestamp. -/
def Converged : Prop :=
  ∃ latest ∈ x.toggles, (∀ p ∈ x.toggles, ¬latest.updatedAt < p.updatedAt) ∧
    x.remote.experimentalFeatureFields = some latest.fields ∧
    ∀ device, (x.stores device).experimentalFeaturesPreference.fields = latest.fields

end PreferenceSync

variable {Device : Type}

/-- A timestamp that Firestore keeps as it is. -/
def Date.IsExact (d : Date) : Prop :=
  d.timeIntervalSince1970.isFinite = true ∧ AppDateBounds.clampedForFirestore d = d

instance (d : Date) : Decidable d.IsExact :=
  inferInstanceAs (Decidable (_ ∧ _))

/-- A change is made at an exact instant after 1970 at which no other one is made. -/
def PreferenceStep.Legal : PreferenceStep Device → PreferenceSync Device → Prop
  | setExperimentalFeaturesEnabled device enabled now, x =>
    (x.stores device).experimentalFeaturesPreference.isEnabled ≠ enabled →
      now.IsExact ∧ AppDateBounds.metadataBaseline < now ∧ ∀ p ∈ x.toggles, p.updatedAt ≠ now
  | _, _ => True

instance (l : PreferenceStep Device) (x : PreferenceSync Device) : Decidable (l.Legal x) :=
  match l with
  | .setExperimentalFeaturesEnabled _ _ _ => inferInstanceAs (Decidable (_ → _))
  | .deliver _ _ | .runWrite _ => isTrue trivial

/-- A change of the preference with the greatest timestamp so far is made after it. -/
def PreferenceStep.KeepsLatest : PreferenceStep Device → PreferenceSync Device → Prop
  | setExperimentalFeaturesEnabled device enabled now, x =>
    let preference := (x.stores device).experimentalFeaturesPreference
    preference.isEnabled ≠ enabled →
      (∀ p ∈ x.toggles, ¬preference.updatedAt < p.updatedAt) → preference.updatedAt < now
  | _, _ => True

instance (l : PreferenceStep Device) (x : PreferenceSync Device) : Decidable (l.KeepsLatest x) :=
  match l with
  | .setExperimentalFeaturesEnabled _ _ _ => inferInstanceAs (Decidable (_ → _ → _))
  | .deliver _ _ | .runWrite _ => isTrue trivial

/-! ## The register -/

/-- The seconds of a finite timestamp. -/
def PreferenceSync.stamp (fields : Bool × Date) : ℚ :=
  match fields.2.timeIntervalSince1970 with
  | .finite seconds => seconds
  | _ => 0

theorem Date.IsExact.exists_seconds {d : Date} (h : d.IsExact) : ∃ q, d = ⟨.finite q⟩ := by
  obtain ⟨t⟩ := d
  cases t with
  | finite q => exact ⟨q, rfl⟩
  | infinity | negInfinity | nan => exact absurd h.1 Bool.false_ne_true

theorem Date.IsExact.lt_iff {d e : Date} (hd : d.IsExact) (he : e.IsExact) (b c : Bool) :
    d < e ↔ PreferenceSync.stamp (b, d) < PreferenceSync.stamp (c, e) := by
  obtain ⟨q, rfl⟩ := hd.exists_seconds
  obtain ⟨r, rfl⟩ := he.exists_seconds
  exact decide_eq_true_iff

theorem Date.IsExact.eq_of_stamp_eq {d e : Date} (hd : d.IsExact) (he : e.IsExact) {b c : Bool}
    (h : PreferenceSync.stamp (b, d) = PreferenceSync.stamp (c, e)) : d = e := by
  obtain ⟨q, rfl⟩ := hd.exists_seconds
  obtain ⟨r, rfl⟩ := he.exists_seconds
  have hqr : q = r := h
  rw [hqr]

theorem Date.isExact_metadataBaseline : AppDateBounds.metadataBaseline.IsExact :=
  ⟨rfl, AppDateBounds.clampedForFirestore_metadataBaseline⟩

/-- What a store with a preference of its own holds. -/
def LocalStore.experimentalFeatureFields (s : LocalStore) : Option (Bool × Date) :=
  if s.hasStoredExperimentalPreference then some s.experimentalFeaturesPreference.fields else none

theorem LocalStore.eq_of_mem_experimentalFeatureFields {s : LocalStore} {fields : Bool × Date}
    (h : fields ∈ s.experimentalFeatureFields) :
    fields = s.experimentalFeaturesPreference.fields := by
  unfold experimentalFeatureFields at h
  split_ifs at h
  · exact (Option.mem_some_iff.mp h).symm
  · exact absurd h (Option.not_mem_none _)

/-- What the write puts into the document. -/
def MetadataWrite.experimentalFeatureFields : MetadataWrite → Bool × Date
  | experimentalFeature preference => preference.fields
  | _ => ExperimentalFeaturePreference.default.fields

namespace PreferenceSync

/-- The preferences alone. -/
def register (x : PreferenceSync Device) : LastWriteWins.State Device (Bool × Date) where
  entry device := (x.stores device).experimentalFeatureFields
  register := x.remote.experimentalFeatureFields
  pending := x.writes.map MetadataWrite.experimentalFeatureFields
  held := x.history.map Remote.experimentalFeatureFields
  written := x.toggles.map ExperimentalFeaturePreference.fields
  current := x.reconciled

/-- The register holds the invariant, with exact timestamps. -/
structure Valid (x : PreferenceSync Device) : Prop where
  inv : LastWriteWins.Inv stamp ExperimentalFeaturePreference.default.fields x.register
  exact : ∀ p ∈ x.toggles, p.updatedAt.IsExact
  unstored : ∀ device, (x.stores device).hasStoredExperimentalPreference = false →
    (x.stores device).experimentalFeaturesPreference.fields =
      ExperimentalFeaturePreference.default.fields
  writes : ∀ write ∈ x.writes, ∃ p, write = .experimentalFeature p

variable [DecidableEq Device] {x x' : PreferenceSync Device}

omit [DecidableEq Device] in
theorem Valid.isExact (h : x.Valid) {fields : Bool × Date}
    (hf : fields ∈ ExperimentalFeaturePreference.default.fields :: x.register.written) :
    fields.2.IsExact := by
  rcases List.mem_cons.mp hf with rfl | hmem
  · exact Date.isExact_metadataBaseline
  · obtain ⟨p, hp, rfl⟩ := List.mem_map.mp hmem
    exact h.exact p hp

omit [DecidableEq Device] in
/-- Fresh devices satisfy the invariant. -/
theorem Fresh.valid {stores : Device → LocalStore} {remote : Remote} (h : Fresh stores remote) :
    (start stores remote).Valid where
  inv := by
    refine ⟨nofun, nofun, fun device fields hf => ?_, fun fields hf => ?_, nofun,
      fun content hc fields hf => ?_, fun _ hcurrent => absurd hcurrent Bool.false_ne_true,
      fun hw => absurd rfl hw⟩
    · change fields ∈ (stores device).experimentalFeatureFields at hf
      rw [LocalStore.eq_of_mem_experimentalFeatureFields hf, h.stores device]
      exact List.mem_cons_self
    · rw [h.remote fields hf]
      exact List.mem_cons_self
    · obtain rfl := List.mem_singleton.mp hc
      rw [h.remote fields hf]
      exact List.mem_cons_self
  exact _ hp := absurd hp List.not_mem_nil
  unstored device _ := h.stores device
  writes _ hw := absurd hw List.not_mem_nil

/-! ## The steps refine those of the register -/

/-- A toggle sets the preference, saves it and pushes it. -/
theorem setExperimentalFeaturesEnabled_of_ne {device : Device} {enabled : Bool}
    (h : (x.stores device).experimentalFeaturesPreference.isEnabled ≠ enabled) (now : Date) :
    let preference : ExperimentalFeaturePreference := ⟨enabled, now, .ofEnabled enabled⟩
    x.setExperimentalFeaturesEnabled device enabled now =
      { x with
        stores := Function.update x.stores device
          { x.stores device with
            experimentalFeaturesPreference := preference }.saveExperimentalFeaturesPreference
        writes := x.writes ++ [.experimentalFeature preference]
        toggles := x.toggles ++ [preference] } := by
  have hne : (⟨enabled, now, .ofEnabled enabled⟩ : ExperimentalFeaturePreference) ≠
      (x.stores device).experimentalFeaturesPreference := fun heq => h (heq ▸ rfl)
  simp [setExperimentalFeaturesEnabled, LocalStore.setExperimentalFeaturesEnabled, h, hne,
    LocalStore.metadataSinks, LocalStore.saveExperimentalFeaturesPreference]

/-- A switch of the preference is a write of the register. -/
theorem register_setExperimentalFeaturesEnabled {device : Device} {enabled : Bool}
    (h : (x.stores device).experimentalFeaturesPreference.isEnabled ≠ enabled) (now : Date) :
    (x.setExperimentalFeaturesEnabled device enabled now).register =
      x.register.write device (enabled, now) := by
  rw [setExperimentalFeaturesEnabled_of_ne h]
  refine LastWriteWins.State.ext (funext fun other => ?_) rfl ?_ rfl ?_ rfl
  · rcases eq_or_ne other device with rfl | hother
    · simp [register, LastWriteWins.State.write, LocalStore.experimentalFeatureFields,
        LocalStore.saveExperimentalFeaturesPreference, ExperimentalFeaturePreference.fields]
    · simp [register, LastWriteWins.State.write, hother]
  · exact List.map_append
  · exact List.map_append

/-- A toggle to the value that is set does nothing. -/
theorem setExperimentalFeaturesEnabled_of_eq {device : Device} {enabled : Bool}
    (h : (x.stores device).experimentalFeaturesPreference.isEnabled = enabled) (now : Date) :
    x.setExperimentalFeaturesEnabled device enabled now = x := by
  simp [setExperimentalFeaturesEnabled, LocalStore.setExperimentalFeaturesEnabled, h,
    LocalStore.metadataSinks]

end PreferenceSync

/-! ### Deliveries and writes -/

theorem LocalStore.hasStored_reconcileExperimentalPreference (s : LocalStore)
    (remoteEnabled : Option Bool) (remoteUpdatedAt : Option Date) :
    (s.reconcileExperimentalPreference remoteEnabled
      remoteUpdatedAt).1.hasStoredExperimentalPreference = true :=
  rfl

/-- A store reconciles with exact contents as a replica does. -/
theorem LocalStore.reconcile_experimentalFeatureFields (s : LocalStore) (r : Remote)
    (hunstored : s.hasStoredExperimentalPreference = false →
      s.experimentalFeaturesPreference.fields = ExperimentalFeaturePreference.default.fields)
    (hown : ∀ fields ∈ s.experimentalFeatureFields, fields.2.IsExact)
    (hr : ∀ fields ∈ r.experimentalFeatureFields, fields.2.IsExact) :
    let result := s.reconcileExperimentalPreference r.experimentalFeaturesEnabled
      r.experimentalFeaturesUpdatedAt
    LastWriteWins.reconcile PreferenceSync.stamp ExperimentalFeaturePreference.default.fields
      r.experimentalFeatureFields s.experimentalFeatureFields =
        (result.1.experimentalFeaturesPreference.fields,
          if result.2 then some result.1.experimentalFeaturesPreference.fields else none) := by
  unfold LocalStore.experimentalFeatureFields at hown ⊢
  unfold Remote.experimentalFeatureFields at hr ⊢
  unfold LocalStore.reconcileExperimentalPreference
  generalize r.experimentalFeaturesEnabled = remoteEnabled at hr ⊢
  generalize r.experimentalFeaturesUpdatedAt = remoteUpdatedAt at hr ⊢
  cases hstored : s.hasStoredExperimentalPreference with
  | false =>
    obtain ⟨henabled, hupdated⟩ := Prod.mk.inj (hunstored hstored)
    rcases remoteEnabled with _ | enabled <;> rcases remoteUpdatedAt with _ | updatedAt <;>
      simp [LastWriteWins.reconcile, henabled, hupdated,
        LocalStore.saveExperimentalFeaturesPreference, ExperimentalFeaturePreference.fields]
  | true =>
    rcases remoteEnabled with _ | enabled <;> rcases remoteUpdatedAt with _ | updatedAt
    case some.some =>
      have hlocal : s.experimentalFeaturesPreference.updatedAt.IsExact := hown _ (if_pos hstored)
      have hremote : updatedAt.IsExact := hr _ rfl
      have hlt := hlocal.lt_iff hremote s.experimentalFeaturesPreference.isEnabled enabled
      by_cases h : s.experimentalFeaturesPreference.updatedAt < updatedAt
      · simp [LastWriteWins.reconcile, h, LocalStore.saveExperimentalFeaturesPreference,
          ExperimentalFeaturePreference.fields, hlt.mp h]
      · simp [LastWriteWins.reconcile, h, LocalStore.saveExperimentalFeaturesPreference,
          ExperimentalFeaturePreference.fields, not_lt.mp (mt hlt.mpr h)]
    all_goals
      simp [LastWriteWins.reconcile, LocalStore.saveExperimentalFeaturesPreference,
        ExperimentalFeaturePreference.fields]

/-- An exact preference is stored in the document as it is. -/
theorem Remote.experimentalFeatureFields_upsertMetadata (r : Remote)
    {p : ExperimentalFeaturePreference} (hp : p.updatedAt.IsExact) :
    (r.upsertMetadata (.experimentalFeature p)).experimentalFeatureFields = some p.fields := by
  simp [experimentalFeatureFields, upsertMetadata, experimentalFeaturesEnabled,
    experimentalFeaturesUpdatedAt, MetadataWrite.apply,
    UserDocument.upsertExperimentalFeatureMetadata, hp.2, ExperimentalFeaturePreference.fields]

namespace PreferenceSync

variable [DecidableEq Device] {x x' : PreferenceSync Device}

/-- The device reconciles, and pushes what it keeps. -/
theorem deliver_eq (x : PreferenceSync Device) (device : Device) (r : Remote) :
    x.deliver device r =
      let result := (x.stores device).reconcileExperimentalPreference
        r.experimentalFeaturesEnabled r.experimentalFeaturesUpdatedAt
      some { x with
        stores := Function.update x.stores device result.1
        writes := x.writes ++ if result.2 then
          [.experimentalFeature result.1.experimentalFeaturesPreference] else []
        reconciled := Function.update x.reconciled device (x.reconciled device ||
          r.experimentalFeatureFields = x.remote.experimentalFeatureFields) } := by
  unfold deliver Listener.snapshot Snapshot.handle
  dsimp only [Option.map_some]
  split_ifs <;> rfl

/-- A delivery is one of the register. -/
theorem register_deliver (h : x.Valid) {device : Device} {k : ℕ} {r : Remote}
    (hr : x.history[k]? = some r) (hx : x.deliver device r = some x') :
    x'.register = x.register.deliver stamp ExperimentalFeaturePreference.default.fields device
      r.experimentalFeatureFields := by
  have hheld : r.experimentalFeatureFields ∈ x.register.held :=
    List.mem_map_of_mem (List.mem_of_getElem? hr)
  have hreconcile := (x.stores device).reconcile_experimentalFeatureFields r (h.unstored device)
    (fun fields hf => h.isExact (h.inv.entry device fields hf))
    (fun fields hf => h.isExact (h.inv.held _ hheld fields hf))
  have hstored := (x.stores device).hasStored_reconcileExperimentalPreference
    r.experimentalFeaturesEnabled r.experimentalFeaturesUpdatedAt
  rw [deliver_eq] at hx
  obtain rfl := Option.some_inj.mp hx
  generalize (x.stores device).reconcileExperimentalPreference r.experimentalFeaturesEnabled
    r.experimentalFeaturesUpdatedAt = result at hreconcile hstored ⊢
  have hentry : x.register.entry device = (x.stores device).experimentalFeatureFields := rfl
  refine LastWriteWins.State.ext (funext fun other => ?_) rfl ?_ rfl rfl rfl
  · rcases eq_or_ne other device with rfl | hother
    · simp [LastWriteWins.State.deliver, hentry, hreconcile]
      simp [register, LocalStore.experimentalFeatureFields, hstored]
    · simp [register, LastWriteWins.State.deliver, hother]
  · simp only [LastWriteWins.State.deliver, hentry, hreconcile]
    cases result.2 <;> simp [register, MetadataWrite.experimentalFeatureFields]

omit [DecidableEq Device] in
/-- A write that arrives is one of the register. -/
theorem register_runWrite (h : x.Valid) {k : ℕ} {write : MetadataWrite}
    (hw : x.writes[k]? = some write) :
    (x.runWrite k write).register = x.register.arrive k write.experimentalFeatureFields := by
  have hmem := List.mem_of_getElem? hw
  obtain ⟨p, rfl⟩ := h.writes write hmem
  have hexact : p.updatedAt.IsExact :=
    h.isExact (h.inv.pending _ (List.mem_map_of_mem hmem))
  have hr := x.remote.experimentalFeatureFields_upsertMetadata hexact
  refine LastWriteWins.State.ext rfl hr ?_ ?_ rfl (funext fun device => ?_)
  · simp [register, runWrite, LastWriteWins.State.arrive, List.eraseIdx_map]
  · simp [register, runWrite, LastWriteWins.State.arrive, hr,
      MetadataWrite.experimentalFeatureFields]
  · simp only [register, runWrite, LastWriteWins.State.arrive, hr,
      MetadataWrite.experimentalFeatureFields]
    exact congrArg (x.reconciled device && ·) (decide_eq_decide.mpr Iff.rfl)

/-- A step of the devices is a step of the register or leaves it alone. -/
theorem simulates (h : x.Valid) {l : PreferenceStep Device} (hl : l.Legal x)
    (hk : l.KeepsLatest x) (hx : step l x = some x') :
    x'.register = x.register ∨ ∃ l' : LastWriteWins.Step Device (Bool × Date),
      l'.Legal stamp ExperimentalFeaturePreference.default.fields x.register ∧
        LastWriteWins.step stamp ExperimentalFeaturePreference.default.fields l' x.register =
          some x'.register := by
  cases l with
  | setExperimentalFeaturesEnabled device enabled now =>
    obtain rfl := Option.some_inj.mp hx
    by_cases henabled : (x.stores device).experimentalFeaturesPreference.isEnabled = enabled
    · rw [setExperimentalFeaturesEnabled_of_eq henabled]
      exact Or.inl rfl
    · obtain ⟨hexact, hbaseline, hdistinct⟩ := hl henabled
      refine Or.inr ⟨.write device (enabled, now), ⟨?_, ?_, ?_⟩,
        congrArg some (register_setExperimentalFeaturesEnabled henabled now).symm⟩
      · exact (Date.isExact_metadataBaseline.lt_iff hexact _ _).mp hbaseline
      · intro fields hf heq
        obtain ⟨p, hp, rfl⟩ := List.mem_map.mp hf
        exact hdistinct p hp ((h.exact p hp).eq_of_stamp_eq hexact heq)
      · intro own hown hlatest
        obtain rfl := LocalStore.eq_of_mem_experimentalFeatureFields hown
        have hlocal := h.isExact (h.inv.entry device _ hown)
        refine (hlocal.lt_iff hexact _ _).mp (hk henabled fun p hp hlt => ?_)
        have hle := hlatest.2 p.fields (List.mem_map_of_mem hp)
        exact hle.not_gt ((hlocal.lt_iff (h.exact p hp) _ _).mp hlt)
  | deliver device k =>
    obtain ⟨r, hr, hdeliver⟩ := Option.bind_eq_some_iff.mp hx
    refine Or.inr ⟨.deliver device k, trivial, ?_⟩
    change ((x.history.map _)[k]?).map _ = _
    rw [List.getElem?_map, hr, register_deliver h hr hdeliver]
    rfl
  | runWrite k =>
    obtain ⟨write, hw, rfl⟩ := Option.map_eq_some_iff.mp hx
    refine Or.inr ⟨.arrive k, trivial, ?_⟩
    change ((x.writes.map _)[k]?).map _ = _
    rw [List.getElem?_map, hw, register_runWrite h hw]
    rfl

/-! ## Convergence -/

/-- Every step keeps the invariant. -/
theorem Valid.step (h : x.Valid) {l : PreferenceStep Device} (hl : l.Legal x)
    (hk : l.KeepsLatest x) (hx : step l x = some x') : x'.Valid := by
  have hinv : LastWriteWins.Inv stamp ExperimentalFeaturePreference.default.fields x'.register := by
    rcases simulates h hl hk hx with heq | ⟨l', hl', hstep⟩
    · rw [heq]
      exact h.inv
    · exact h.inv.step hl' hstep
  cases l with
  | setExperimentalFeaturesEnabled device enabled now =>
    obtain rfl := Option.some_inj.mp hx
    by_cases henabled : (x.stores device).experimentalFeaturesPreference.isEnabled = enabled
    · rwa [setExperimentalFeaturesEnabled_of_eq henabled]
    · rw [setExperimentalFeaturesEnabled_of_ne henabled] at hinv ⊢
      refine ⟨hinv, fun p hp => ?_, fun other hother => ?_, fun write hwrite => ?_⟩
      · rcases List.mem_append.mp hp with hmem | hmem
        · exact h.exact p hmem
        · obtain rfl := List.mem_singleton.mp hmem
          exact (hl henabled).1
      · rcases eq_or_ne other device with rfl | hne
        · simp [LocalStore.saveExperimentalFeaturesPreference] at hother
        · simp only [Function.update_of_ne hne] at hother ⊢
          exact h.unstored other hother
      · rcases List.mem_append.mp hwrite with hmem | hmem
        · exact h.writes write hmem
        · exact ⟨_, List.mem_singleton.mp hmem⟩
  | deliver device k =>
    obtain ⟨r, hr, hdeliver⟩ := Option.bind_eq_some_iff.mp hx
    rw [deliver_eq] at hdeliver
    obtain rfl := Option.some_inj.mp hdeliver
    refine ⟨hinv, h.exact, fun other hother => ?_, fun write hwrite => ?_⟩
    · rcases eq_or_ne other device with rfl | hne
      · simp [LocalStore.hasStored_reconcileExperimentalPreference] at hother
      · simp only [Function.update_of_ne hne] at hother ⊢
        exact h.unstored other hother
    · rcases List.mem_append.mp hwrite with hmem | hmem
      · exact h.writes write hmem
      · split_ifs at hmem
        · exact ⟨_, List.mem_singleton.mp hmem⟩
        · exact absurd hmem List.not_mem_nil
  | runWrite k =>
    obtain ⟨write, hw, rfl⟩ := Option.map_eq_some_iff.mp hx
    exact ⟨hinv, h.exact, h.unstored, fun w hmem => h.writes w (List.mem_of_mem_eraseIdx hmem)⟩

omit [DecidableEq Device] in
theorem Valid.converged (h : x.Valid) (hx : x.Settled) : x.Converged := by
  obtain ⟨htoggles, hwrites, hreconciled⟩ := hx
  obtain ⟨fields, ⟨hmem, hlatest⟩, hregister, hentry⟩ := h.inv.converged
    (congrArg (List.map _) hwrites) hreconciled (mt List.map_eq_nil_iff.mp htoggles)
  obtain ⟨latest, hlatest', rfl⟩ := List.mem_map.mp hmem
  refine ⟨latest, hlatest', fun p hp hlt => ?_, hregister, fun device => ?_⟩
  · have hle := hlatest p.fields (List.mem_map_of_mem hp)
    exact hle.not_gt (((h.exact latest hlatest').lt_iff (h.exact p hp) _ _).mp hlt)
  · exact (LocalStore.eq_of_mem_experimentalFeatureFields (hentry device)).symm

/-- The devices converge to the latest preference, as long as no toggle replaces it by an
older one. -/
theorem converged_run {stores : Device → LocalStore} {remote : Remote}
    (hfresh : Fresh stores remote) {ls : List (PreferenceStep Device)}
    (hl : Runs.Guarded step PreferenceStep.Legal ls (start stores remote))
    (hk : Runs.Guarded step PreferenceStep.KeepsLatest ls (start stores remote))
    (hx : Runs.run step ls (start stores remote) = some x) (hsettled : x.Settled) :
    x.Converged := by
  have hvalid : x.Valid := Runs.invariant_of_guarded
    (fun l x x' hv hg hs => hv.step hg.1 hg.2 hs) hfresh.valid (hl.and hk) hx
  exact hvalid.converged hsettled

/-- Two devices, one toggle, and the deliveries of its write. -/
def sampleSteps : List (PreferenceStep Bool) :=
  [.setExperimentalFeaturesEnabled true true (.seconds 10), .runWrite 0, .deliver false 1,
    .deliver true 1, .runWrite 0]

theorem converged_run_sample : ∃ x, Runs.run step sampleSteps (start (fun _ => {}) {}) = some x ∧
    x.Converged := by
  obtain ⟨x, hx⟩ := Option.isSome_iff_exists.mp
    (by decide +kernel : (Runs.run step sampleSteps (start (fun _ => {}) {})).isSome)
  have hsettled : ∀ x ∈ Runs.run step sampleSteps (start (fun _ => {}) {}), x.Settled := by
    decide +kernel
  exact ⟨x, hx, converged_run ⟨fun _ => rfl, fun _ h => absurd h (Option.not_mem_none _)⟩
    (by decide +kernel) (by decide +kernel) hx (hsettled x hx)⟩

/-- The clock of a device goes back between two toggles. -/
def behindSteps : List (PreferenceStep Unit) :=
  [.setExperimentalFeaturesEnabled () true (.seconds 10), .runWrite 0,
    .setExperimentalFeaturesEnabled () false (.seconds 5), .runWrite 0, .deliver () 2,
    .runWrite 0]

theorem not_converged_run : ¬∀ (Device : Type) [DecidableEq Device] (stores : Device → LocalStore)
    (remote : Remote) (ls : List (PreferenceStep Device)) (x : PreferenceSync Device),
    Fresh stores remote → Runs.Guarded step PreferenceStep.Legal ls (start stores remote) →
      Runs.run step ls (start stores remote) = some x → x.Settled → x.Converged := by
  intro h
  obtain ⟨x, hx⟩ := Option.isSome_iff_exists.mp
    (by decide +kernel : (Runs.run step behindSteps (start (fun _ => {}) {})).isSome)
  have hend : ∀ x ∈ Runs.run step behindSteps (start (fun _ => {}) {}), x.Settled ∧
      x.remote.experimentalFeatureFields = some (false, .seconds 5) ∧
      x.toggles = [⟨true, .seconds 10, .on⟩, ⟨false, .seconds 5, .off⟩] := by
    decide +kernel
  obtain ⟨hsettled, hremote, htoggles⟩ := hend x hx
  obtain ⟨latest, hmem, hlatest, hlatest', -⟩ := h Unit (fun _ => {}) {} behindSteps x
    ⟨fun _ => rfl, fun _ h => absurd h (Option.not_mem_none _)⟩ (by decide +kernel) hx hsettled
  rw [htoggles] at hmem hlatest
  rw [hremote] at hlatest'
  obtain ⟨-, hupdatedAt⟩ := Prod.mk.inj (Option.some_inj.mp hlatest')
  refine hlatest ⟨true, .seconds 10, .on⟩ List.mem_cons_self ?_
  rw [← hupdatedAt]
  decide

end PreferenceSync

end Notelayer
