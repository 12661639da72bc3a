import Notelayer.PreferenceSync

/-!
# The hint state on several devices

Devices of one user show, dismiss and use the Insights hint, push their record to the user
document, and reconcile with what the document held. A record is exchanged as a whole, and the
one with the later timestamp replaces the other. `HintSync.step` refines a register with replicas
(`HintSync.simulates`), whose entries grow as long as each change is made by a device that has
learned of every earlier one. Then no record forgets an interaction or a show
(`HintSync.neverForgets_run`).
-/

namespace Notelayer

/-! ## Records -/

/-- The fields of a record that must only grow, and its timestamp. -/
structure HintFields where
  updatedAt : Date
  showCount : ℤ
  interacted : Bool
  deriving DecidableEq

namespace HintFields

/-- The interaction stays recorded, and no show is forgotten. -/
instance : Preorder HintFields where
  le a b := (a.interacted = true → b.interacted = true) ∧ a.showCount ≤ b.showCount
  le_refl a := ⟨id, le_rfl⟩
  le_trans a b c h h' := ⟨fun ha => h'.1 (h.1 ha), h.2.trans h'.2⟩

instance (a b : HintFields) : Decidable (a ≤ b) :=
  inferInstanceAs (Decidable (_ ∧ _))

end HintFields

namespace InsightsHintState

/-- What is compared of a state. -/
def fields (state : InsightsHintState) : HintFields :=
  ⟨state.updatedAt, state.showCount, state.interactedAt.isSome⟩

/-- A timestamp that Firestore keeps survives writing and reading. -/
theorem fields_safe {state : InsightsHintState} (h : state.updatedAt.IsExact) :
    state.safe.fields = state.fields := by
  unfold fields safe
  rw [h.2, Option.isSome_map]

/-- After an interaction or two shows the hint is not shown. -/
theorem shouldShowHint_of_le {state : InsightsHintState}
    (h : state.interactedAt.isSome = true ∨ 2 ≤ state.showCount) (now : Date) :
    state.shouldShowHint now = false := by
  unfold shouldShowHint
  split_ifs with hinteracted hzero
  · rfl
  · rcases h with h | h
    · rw [not_not.mp hinteracted] at h
      exact absurd h Bool.false_ne_true
    · omega
  · split
    · refine decide_eq_false fun ⟨hone, _⟩ => ?_
      rcases h with h | h
      · rw [not_not.mp hinteracted] at h
        exact absurd h Bool.false_ne_true
      · omega
    · rfl

end InsightsHintState

/-- What a store with a record of its own holds. -/
def LocalStore.hintFields (s : LocalStore) : Option HintFields :=
  if s.hasStoredInsightsHintState then some s.insightsHintState.fields else none

theorem LocalStore.eq_of_mem_hintFields {s : LocalStore} {fields : HintFields}
    (h : fields ∈ s.hintFields) : fields = s.insightsHintState.fields := by
  unfold hintFields at h
  split_ifs at h
  · exact (Option.mem_some_iff.mp h).symm
  · exact absurd h (Option.not_mem_none _)

/-- `shouldShowInsightsHint(now:)`. -/
def LocalStore.shouldShowInsightsHint (s : LocalStore) (now : Date) : Bool :=
  s.insightsHintState.shouldShowHint now

/-- What the document has of the hint. -/
def Remote.hintFields (r : Remote) : Option HintFields :=
  r.insightsHint.map InsightsHintState.fields

/-- What the write puts into the document. -/
def MetadataWrite.hintFields : MetadataWrite → HintFields
  | insightsHint state => state.fields
  | _ => InsightsHintState.default.fields

/-! ## The system -/

/-- The three changes of the hint by the views. -/
inductive HintOperation where
  | markInsightsHintShown
  | dismissInsightsHint
  | recordInsightsInteraction
  deriving DecidableEq

namespace HintOperation

/-- On the store of a device. -/
def run (now : Date) (s : LocalStore) : HintOperation → LocalStore
  | markInsightsHintShown => s.markInsightsHintShown now
  | dismissInsightsHint => s.dismissInsightsHint now
  | recordInsightsInteraction => s.recordInsightsInteraction now

/-- The first interaction is recorded only. -/
def Changes (s : LocalStore) (op : HintOperation) : Prop :=
  op = recordInsightsInteraction → s.insightsHintState.interactedAt = none

instance (s : LocalStore) (op : HintOperation) : Decidable (op.Changes s) :=
  inferInstanceAs (Decidable (_ → _))

end HintOperation

/-- The stores of some devices and the document of their account, with the writes on their way. -/
structure HintSync (Device : Type) where
  stores : Device → LocalStore
  remote : Remote
  /-- Every state of the document, oldest first. -/
  history : List Remote
  /-- The writes that have not arrived. -/
  writes : List MetadataWrite := []
  /-- Every record that an operation set, oldest first. -/
  records : List InsightsHintState := []

/-- A step of a device, of a listener or of a write. -/
inductive HintStep (Device : Type) where
  | operation (device : Device) (operation : HintOperation) (now : Date)
  /-- A listener reads a state of the document. -/
  | deliver (device : Device) (k : ℕ)
  | runWrite (k : ℕ)

namespace HintSync

variable {Device : Type} [DecidableEq Device] (x : HintSync Device)

/-- What the device has. -/
def hint (device : Device) : InsightsHintState :=
  (x.stores device).insightsHintState

/-- The view changes the hint, and the sink of the store writes the change. -/
def operation (device : Device) (op : HintOperation) (now : Date) : HintSync Device :=
  let s := op.run now (x.stores device)
  { x with
    stores := Function.update x.stores device s
    writes := x.writes ++ (x.stores device).metadataSinks s
    records := x.records ++ if op.Changes (x.stores device) then [s.insightsHintState] else [] }

/-- The listener of a device reads a document, and may push what the device has. -/
def deliver (device : Device) (r : Remote) : Option (HintSync Device) :=
  ((Listener.insightsHintMetadata.snapshot r).handle (x.stores device)).map fun (s, push) =>
    { x with
      stores := Function.update x.stores device s
      writes := x.writes ++ push.toList }

/-- A write reaches the document. -/
def runWrite (k : ℕ) (write : MetadataWrite) : HintSync Device :=
  let r := x.remote.upsertMetadata write
  { x with
    remote := r
    history := x.history ++ [r]
    writes := x.writes.eraseIdx k }

/-- One step. `none` : a trap, or no such document or write. -/
def step : HintStep Device → HintSync Device → Option (HintSync Device)
  | .operation device op now, x => some (x.operation device op now)
  | .deliver device k, x => x.history[k]?.bind (x.deliver device)
  | .runWrite k, x => x.writes[k]?.map (x.runWrite k)

/-- The hint is new to all devices and to the document. -/
structure Fresh (stores : Device → LocalStore) (remote : Remote) : Prop where
  stores : ∀ device, (stores device).insightsHintState.fields = InsightsHintState.default.fields
  remote : ∀ fields ∈ remote.hintFields, fields = InsightsHintState.default.fields

/-- Before any step. -/
def start (stores : Device → LocalStore) (remote : Remote) : HintSync Device :=
  { stores := stores, remote := remote, history := [remote] }

end HintSync

namespace HintStep

variable {Device : Type}

/-- A change is made at an exact instant after 1970 at which no other one is made, and the hint
is shown when it should be. -/
def Legal : HintStep Device → HintSync Device → Prop
  | operation device op now, x =>
    (op = .markInsightsHintShown → (x.stores device).shouldShowInsightsHint now = true) ∧
    (op.Changes (x.stores device) →
      now.IsExact ∧ AppDateBounds.metadataBaseline < now ∧ ∀ hint ∈ x.records, hint.updatedAt ≠ now)
  | _, _ => True

/-- A change is made by a device that has learned of every interaction and show, and after all
other changes. A write does not arrive after a later one. -/
def KeepsRecords : HintStep Device → HintSync Device → Prop
  | operation device op now, x => op.Changes (x.stores device) →
    ∀ hint ∈ x.records, hint.fields ≤ (x.hint device).fields ∧ hint.updatedAt < now
  | runWrite k, x => ∀ write ∈ x.writes[k]?, ∀ hint ∈ x.remote.hintFields,
    ¬write.hintFields.updatedAt < hint.updatedAt
  | deliver _ _, _ => True

instance (l : HintStep Device) (x : HintSync Device) : Decidable (l.Legal x) :=
  match l with
  | operation _ _ _ => inferInstanceAs (Decidable (_ ∧ _))
  | deliver _ _ | runWrite _ => isTrue trivial

instance (l : HintStep Device) (x : HintSync Device) : Decidable (l.KeepsRecords x) :=
  match l with
  | operation _ _ _ => inferInstanceAs (Decidable (_ → _))
  | deliver _ _ => isTrue trivial
  | runWrite k => inferInstanceAs (Decidable (∀ write ∈ x.writes[k]?, ∀ hint ∈ x.remote.hintFields,
    ¬write.hintFields.updatedAt < hint.updatedAt))

end HintStep

/-! ## The register -/

namespace HintOperation

/-- Nothing happens, or the record grows and has the timestamp of the operation. -/
theorem run_cases (op : HintOperation) (now : Date) (s : LocalStore) :
    (¬op.Changes s ∧ op.run now s = s) ∨ op.Changes s ∧ ∃ hint,
      op.run now s = s.withInsightsHintState hint ∧ hint ≠ s.insightsHintState ∧
        hint.updatedAt = now ∧ s.insightsHintState.fields ≤ hint.fields := by
  cases op with
  | markInsightsHintShown =>
    refine Or.inr ⟨nofun, _, rfl, fun heq => ?_, rfl, id, ?_⟩
    · have hcount := congrArg InsightsHintState.showCount heq
      dsimp only at hcount
      omega
    · change s.insightsHintState.showCount ≤ s.insightsHintState.showCount + 1
      omega
  | dismissInsightsHint =>
    refine Or.inr ⟨nofun, _, rfl, fun heq => ?_, rfl, id, le_rfl⟩
    have hcount := congrArg InsightsHintState.dismissCount heq
    dsimp only at hcount
    omega
  | recordInsightsInteraction =>
    unfold run LocalStore.recordInsightsInteraction
    by_cases hinteracted : s.insightsHintState.interactedAt = none
    · refine Or.inr ⟨fun _ => hinteracted, _, if_neg (not_not.mpr hinteracted), fun heq => ?_, rfl,
        fun _ => rfl, le_rfl⟩
      have hsome := congrArg InsightsHintState.interactedAt heq
      rw [hinteracted] at hsome
      exact absurd hsome (Option.some_ne_none now)
    · exact Or.inl ⟨fun h => hinteracted (h rfl), if_pos hinteracted⟩

end HintOperation

namespace HintSync

variable {Device : Type}

/-- The timestamp of the fields. -/
def stamp (fields : HintFields) : ℚ :=
  PreferenceSync.stamp (fields.interacted, fields.updatedAt)

/-- The records alone. -/
def register (x : HintSync Device) (current : Device → Bool) :
    LastWriteWins.State Device HintFields where
  entry device := (x.stores device).hintFields
  register := x.remote.hintFields
  pending := x.writes.map MetadataWrite.hintFields
  held := x.history.map Remote.hintFields
  written := x.records.map InsightsHintState.fields
  current := current

/-- The records of the register grow, with exact timestamps. -/
structure Valid (x : HintSync Device) : Prop where
  growing : ∃ current, LastWriteWins.Growing stamp InsightsHintState.default.fields
    (x.register current)
  exact : ∀ hint ∈ x.records, hint.updatedAt.IsExact
  unstored : ∀ device, (x.stores device).hasStoredInsightsHintState = false →
    (x.hint device).fields = InsightsHintState.default.fields
  writes : ∀ write ∈ x.writes, ∃ hint, write = .insightsHint hint

theorem Valid.isExact {x : HintSync Device} (h : x.Valid) {fields : HintFields}
    (hf : fields ∈ InsightsHintState.default.fields :: x.records.map InsightsHintState.fields) :
    fields.updatedAt.IsExact := by
  rcases List.mem_cons.mp hf with rfl | hmem
  · exact Date.isExact_metadataBaseline
  · obtain ⟨hint, hhint, rfl⟩ := List.mem_map.mp hmem
    exact h.exact hint hhint

/-- Fresh devices hold records that only grow. -/
theorem Fresh.growing {stores : Device → LocalStore} {remote : Remote} (h : Fresh stores remote)
    (current : Device → Bool) : LastWriteWins.Growing stamp InsightsHintState.default.fields
      ((start stores remote).register current) := by
  have hwritten : ((start stores remote).register current).written = [] := rfl
  have hmem : ∀ {fields}, fields = InsightsHintState.default.fields →
      fields ∈ InsightsHintState.default.fields ::
        ((start stores remote).register current).written :=
    fun heq => heq ▸ List.mem_cons_self
  refine ⟨?_, fun e he e' he' _ => ?_, fun device fields hf => ?_,
    fun fields hf => hmem (h.remote fields hf), nofun, fun content hc fields hf => ?_⟩
  · rw [hwritten]
    exact nofun
  · rw [hwritten] at he he'
    rw [List.mem_singleton.mp he, List.mem_singleton.mp he']
  · change fields ∈ (stores device).hintFields at hf
    rw [LocalStore.eq_of_mem_hintFields hf]
    exact hmem (h.stores device)
  · obtain rfl := List.mem_singleton.mp hc
    exact hmem (h.remote fields hf)

theorem Fresh.valid {stores : Device → LocalStore} {remote : Remote} (h : Fresh stores remote) :
    (start stores remote).Valid :=
  ⟨⟨fun _ => false, h.growing _⟩, fun _ hmem => absurd hmem List.not_mem_nil,
    fun device _ => h.stores device, fun _ hmem => absurd hmem List.not_mem_nil⟩

/-- The record of a device, read off the register. -/
theorem Valid.entry_getD {x : HintSync Device} (h : x.Valid) (device : Device) :
    (x.stores device).hintFields.getD InsightsHintState.default.fields =
      (x.hint device).fields := by
  unfold LocalStore.hintFields
  split_ifs with hstored
  · rfl
  · exact (h.unstored device (Bool.eq_false_of_not_eq_true hstored)).symm

end HintSync

/-! ## The steps refine those of the register -/

theorem LocalStore.hintFields_withInsightsHintState (s : LocalStore) (hint : InsightsHintState) :
    (s.withInsightsHintState hint).hintFields = some hint.fields :=
  rfl

theorem LocalStore.hasStored_reconcileInsightsHintState (s : LocalStore)
    (remote : Option InsightsHintState) :
    (s.reconcileInsightsHintState remote).1.hasStoredInsightsHintState = true :=
  rfl

/-- A store reconciles with exact contents as a replica does. -/
theorem LocalStore.reconcile_hintFields (s : LocalStore) (r : Remote)
    (hunstored : s.hasStoredInsightsHintState = false →
      s.insightsHintState.fields = InsightsHintState.default.fields)
    (hown : ∀ fields ∈ s.hintFields, fields.updatedAt.IsExact)
    (hr : ∀ fields ∈ r.hintFields, fields.updatedAt.IsExact) :
    let result := s.reconcileInsightsHintState r.insightsHint
    LastWriteWins.reconcile HintSync.stamp InsightsHintState.default.fields r.hintFields
      s.hintFields = (result.1.insightsHintState.fields,
        if result.2 then some result.1.insightsHintState.fields else none) := by
  unfold LocalStore.hintFields at hown ⊢
  unfold Remote.hintFields at hr ⊢
  unfold LocalStore.reconcileInsightsHintState
  cases hstored : s.hasStoredInsightsHintState with
  | false =>
    rcases r.insightsHint with _ | remote
    · simp [LastWriteWins.reconcile, hunstored hstored, LocalStore.saveInsightsHintState]
    · simp [LastWriteWins.reconcile, LocalStore.saveInsightsHintState]
  | true =>
    rcases hremote : r.insightsHint with _ | remote
    · simp [LastWriteWins.reconcile, LocalStore.saveInsightsHintState]
    · have hlocal : s.insightsHintState.updatedAt.IsExact := hown _ (if_pos hstored)
      have hexact : remote.updatedAt.IsExact := hr _ (congrArg (Option.map _) hremote)
      have hlt := hlocal.lt_iff hexact s.insightsHintState.interactedAt.isSome
        remote.interactedAt.isSome
      have hstamp : HintSync.stamp s.insightsHintState.fields < HintSync.stamp remote.fields ↔
          s.insightsHintState.updatedAt < remote.updatedAt := hlt.symm
      by_cases h : s.insightsHintState.updatedAt < remote.updatedAt
      · simp [LastWriteWins.reconcile, h, hstamp.mpr h, LocalStore.saveInsightsHintState]
      · simp [LastWriteWins.reconcile, h, mt hstamp.mp h, LocalStore.saveInsightsHintState]

/-- An exact record is stored in the document as it is. -/
theorem Remote.hintFields_upsertMetadata (r : Remote) {hint : InsightsHintState}
    (h : hint.updatedAt.IsExact) :
    (r.upsertMetadata (.insightsHint hint)).hintFields = some hint.fields := by
  have hsafe : hint.safe.updatedAt.IsExact := by
    rw [InsightsHintState.safe, h.2]
    exact h
  simp only [hintFields, insightsHint, upsertMetadata, MetadataWrite.apply,
    UserDocument.upsertInsightsHintMetadata, Option.bind_some, Option.map_some]
  rw [InsightsHintState.fields_safe hsafe, InsightsHintState.fields_safe h]

namespace HintSync

variable {Device : Type} [DecidableEq Device] {x x' : HintSync Device}

/-- An operation does nothing, or the device writes a record that has grown. -/
theorem operation_cases (x : HintSync Device) (device : Device) (op : HintOperation)
    (now : Date) : (¬op.Changes (x.stores device) ∧ x.operation device op now = x) ∨
      op.Changes (x.stores device) ∧ ∃ hint, hint.updatedAt = now ∧
        (x.hint device).fields ≤ hint.fields ∧ x.operation device op now =
          { x with
            stores := Function.update x.stores device
              ((x.stores device).withInsightsHintState hint)
            writes := x.writes ++ [.insightsHint hint]
            records := x.records ++ [hint] } := by
  unfold operation
  rcases op.run_cases now (x.stores device) with ⟨hchanges, hsame⟩ | ⟨hchanges, hint, hrun, hne,
    hupdated, hgrows⟩
  · have hsinks : (x.stores device).metadataSinks (x.stores device) = [] := by
      simp [LocalStore.metadataSinks]
    refine Or.inl ⟨hchanges, ?_⟩
    dsimp only
    rw [hsame, hsinks, if_neg hchanges, List.append_nil, List.append_nil, Function.update_eq_self]
  · have hsinks : (x.stores device).metadataSinks ((x.stores device).withInsightsHintState hint) =
        [.insightsHint hint] := by
      simp [LocalStore.metadataSinks, LocalStore.withInsightsHintState,
        LocalStore.saveInsightsHintState, hne]
    refine Or.inr ⟨hchanges, hint, hupdated, hgrows, ?_⟩
    dsimp only
    rw [hrun, hsinks, if_pos hchanges]
    rfl

/-- The device reconciles, and pushes what it keeps. -/
theorem deliver_eq (x : HintSync Device) (device : Device) (r : Remote) :
    x.deliver device r =
      let result := (x.stores device).reconcileInsightsHintState r.insightsHint
      some { x with
        stores := Function.update x.stores device result.1
        writes := x.writes ++
          if result.2 then [.insightsHint result.1.insightsHintState] else [] } := by
  unfold deliver Listener.snapshot Snapshot.handle
  dsimp only [Option.map_some]
  split_ifs <;> rfl

/-- A delivery is one of the register. -/
theorem register_deliver (h : x.Valid) {current : Device → Bool}
    (hgrowing : LastWriteWins.Growing stamp InsightsHintState.default.fields (x.register current))
    {device : Device} {k : ℕ} {r : Remote} (hr : x.history[k]? = some r)
    (hx : x.deliver device r = some x') :
    ∃ current', (x.register current).deliver stamp InsightsHintState.default.fields device
      r.hintFields = x'.register current' := by
  have hheld : r.hintFields ∈ (x.register current).held :=
    List.mem_map_of_mem (List.mem_of_getElem? hr)
  have hreconcile := (x.stores device).reconcile_hintFields r (h.unstored device)
    (fun fields hf => h.isExact (hgrowing.entry device fields hf))
    (fun fields hf => h.isExact (hgrowing.held _ hheld fields hf))
  have hstored := (x.stores device).hasStored_reconcileInsightsHintState r.insightsHint
  rw [deliver_eq] at hx
  obtain rfl := Option.some_inj.mp hx
  generalize (x.stores device).reconcileInsightsHintState r.insightsHint = result
    at hreconcile hstored ⊢
  have hentry : (x.register current).entry device = (x.stores device).hintFields := rfl
  refine ⟨_, LastWriteWins.State.ext (funext fun other => ?_) rfl ?_ rfl rfl rfl⟩
  · rcases eq_or_ne other device with rfl | hother
    · simp [LastWriteWins.State.deliver, hentry, hreconcile]
      simp [register, LocalStore.hintFields, hstored]
    · simp [register, LastWriteWins.State.deliver, hother]
  · simp only [LastWriteWins.State.deliver, hentry, hreconcile]
    cases result.2 <;> simp [register, MetadataWrite.hintFields]

omit [DecidableEq Device] in
/-- A write that arrives is one of the register. -/
theorem register_runWrite (h : x.Valid) {current : Device → Bool}
    (hgrowing : LastWriteWins.Growing stamp InsightsHintState.default.fields (x.register current))
    {k : ℕ} {write : MetadataWrite} (hw : x.writes[k]? = some write) :
    ∃ current', (x.register current).arrive k write.hintFields =
      (x.runWrite k write).register current' := by
  have hmem := List.mem_of_getElem? hw
  obtain ⟨hint, rfl⟩ := h.writes write hmem
  have hexact : hint.updatedAt.IsExact :=
    h.isExact (hgrowing.pending _ (List.mem_map_of_mem hmem))
  have hr := x.remote.hintFields_upsertMetadata hexact
  refine ⟨_, LastWriteWins.State.ext rfl hr.symm ?_ ?_ rfl rfl⟩
  · simp [register, runWrite, LastWriteWins.State.arrive, List.eraseIdx_map]
  · simp [register, runWrite, LastWriteWins.State.arrive, hr, MetadataWrite.hintFields]

/-- A step of the devices is a step of the register or leaves it alone. -/
theorem simulates (h : x.Valid) {current : Device → Bool}
    (hgrowing : LastWriteWins.Growing stamp InsightsHintState.default.fields (x.register current))
    {l : HintStep Device} (hl : l.Legal x) (hk : l.KeepsRecords x) (hx : step l x = some x') :
    x' = x ∨ ∃ (l' : LastWriteWins.Step Device HintFields) (current' : Device → Bool),
      l'.Extends stamp InsightsHintState.default.fields (x.register current) ∧
        LastWriteWins.step stamp InsightsHintState.default.fields l' (x.register current) =
          some (x'.register current') := by
  cases l with
  | operation device op now =>
    obtain rfl := Option.some_inj.mp hx
    rcases x.operation_cases device op now with ⟨-, hsame⟩ | ⟨hchanges, hint, rfl, hgrows, heq⟩
    · exact Or.inl hsame
    · obtain ⟨hexact, hbaseline, -⟩ := hl.2 hchanges
      have hbase := (Date.isExact_metadataBaseline.lt_iff hexact false
        hint.interactedAt.isSome).mp hbaseline
      refine Or.inr ⟨.write device hint.fields, current, ⟨?_, fun fields hf => ?_⟩, ?_⟩
      · change (x.stores device).hintFields.getD _ ≤ _
        rwa [h.entry_getD]
      · rcases List.mem_cons.mp hf with rfl | hmem
        · refine ⟨hbase, le_trans ?_ hgrows⟩
          rw [← h.entry_getD device]
          exact hgrowing.init_le device
        · obtain ⟨earlier, hearlier, rfl⟩ := List.mem_map.mp hmem
          obtain ⟨hle, hlt⟩ := hk hchanges earlier hearlier
          exact ⟨((h.exact earlier hearlier).lt_iff hexact _ _).mp hlt, hle.trans hgrows⟩
      · rw [heq]
        refine congrArg some (LastWriteWins.State.ext (funext fun other => ?_) rfl ?_ rfl ?_ rfl)
        · rcases eq_or_ne other device with rfl | hother
          · simp [register, LastWriteWins.State.write,
              LocalStore.hintFields_withInsightsHintState]
          · simp [register, LastWriteWins.State.write, hother]
        · simp [register, LastWriteWins.State.write, MetadataWrite.hintFields]
        · simp [register, LastWriteWins.State.write]
  | deliver device k =>
    obtain ⟨r, hr, hdeliver⟩ := Option.bind_eq_some_iff.mp hx
    obtain ⟨current', hregister⟩ := register_deliver h hgrowing hr hdeliver
    refine Or.inr ⟨.deliver device k, current', trivial, ?_⟩
    change ((x.history.map _)[k]?).map _ = _
    rw [List.getElem?_map, hr, ← hregister]
    rfl
  | runWrite k =>
    obtain ⟨write, hw, rfl⟩ := Option.map_eq_some_iff.mp hx
    obtain ⟨current', hregister⟩ := register_runWrite h hgrowing hw
    refine Or.inr ⟨.arrive k, current', fun fields hf shared hshared => ?_, ?_⟩
    · change (x.writes.map _)[k]? = some fields at hf
      rw [List.getElem?_map, hw] at hf
      obtain rfl := Option.some_inj.mp hf
      have hmem := List.mem_of_getElem? hw
      have hwrite := h.isExact (hgrowing.pending _ (List.mem_map_of_mem hmem))
      have hremote := h.isExact (hgrowing.register shared hshared)
      exact not_lt.mp (mt (hwrite.lt_iff hremote _ _).mpr (hk write hw shared hshared))
    · change ((x.writes.map _)[k]?).map _ = _
      rw [List.getElem?_map, hw, ← hregister]
      rfl

/-! ## Nothing is forgotten -/

/-- Every step keeps the invariant. -/
theorem Valid.step (h : x.Valid) {l : HintStep Device} (hl : l.Legal x) (hk : l.KeepsRecords x)
    (hx : step l x = some x') : x'.Valid := by
  obtain ⟨current, hgrowing⟩ := h.growing
  have hgrowing' : ∃ current', LastWriteWins.Growing stamp InsightsHintState.default.fields
      (x'.register current') := by
    rcases simulates h hgrowing hl hk hx with rfl | ⟨l', current', hl', hstep⟩
    · exact h.growing
    · exact ⟨current', hgrowing.step hl' hstep⟩
  cases l with
  | operation device op now =>
    obtain rfl := Option.some_inj.mp hx
    rcases x.operation_cases device op now with ⟨-, hsame⟩ | ⟨hchanges, written, rfl, -, heq⟩
    · rwa [hsame]
    · rw [heq] at hgrowing' ⊢
      refine ⟨hgrowing', fun earlier hearlier => ?_, fun other hother => ?_, fun write hwrite => ?_⟩
      · rcases List.mem_append.mp hearlier with hmem | hmem
        · exact h.exact earlier hmem
        · obtain rfl := List.mem_singleton.mp hmem
          exact (hl.2 hchanges).1
      · rcases eq_or_ne other device with rfl | hne
        · simp [LocalStore.withInsightsHintState, LocalStore.saveInsightsHintState] at hother
        · simp only [Function.update_of_ne hne, hint] at hother ⊢
          exact h.unstored other hother
      · rcases List.mem_append.mp hwrite with hmem | hmem
        · exact h.writes write hmem
        · exact ⟨_, List.mem_singleton.mp hmem⟩
  | deliver device k =>
    obtain ⟨r, hr, hdeliver⟩ := Option.bind_eq_some_iff.mp hx
    rw [deliver_eq] at hdeliver
    obtain rfl := Option.some_inj.mp hdeliver
    refine ⟨hgrowing', h.exact, fun other hother => ?_, fun write hwrite => ?_⟩
    · rcases eq_or_ne other device with rfl | hne
      · simp [LocalStore.hasStored_reconcileInsightsHintState] at hother
      · simp only [Function.update_of_ne hne, hint] at hother ⊢
        exact h.unstored other hother
    · rcases List.mem_append.mp hwrite with hmem | hmem
      · exact h.writes write hmem
      · split_ifs at hmem
        · exact ⟨_, List.mem_singleton.mp hmem⟩
        · exact absurd hmem List.not_mem_nil
  | runWrite k =>
    obtain ⟨write, hw, rfl⟩ := Option.map_eq_some_iff.mp hx
    exact ⟨hgrowing', h.exact, h.unstored, fun w hmem => h.writes w (List.mem_of_mem_eraseIdx hmem)⟩

/-- The records of all devices, and the one in the document, have all they had. -/
def Keeps (x x' : HintSync Device) : Prop :=
  (∀ device, (x.hint device).fields ≤ (x'.hint device).fields) ∧
    ∀ fields ∈ x.remote.hintFields, ∃ fields' ∈ x'.remote.hintFields, fields ≤ fields'

omit [DecidableEq Device] in
theorem Keeps.refl (x : HintSync Device) : x.Keeps x :=
  ⟨fun _ => le_rfl, fun fields hf => ⟨fields, hf, le_rfl⟩⟩

omit [DecidableEq Device] in
theorem Keeps.trans {x'' : HintSync Device} (h : x.Keeps x') (h' : x'.Keeps x'') : x.Keeps x'' := by
  refine ⟨fun device => (h.1 device).trans (h'.1 device), fun fields hf => ?_⟩
  obtain ⟨fields', hf', hle⟩ := h.2 fields hf
  obtain ⟨fields'', hf'', hle'⟩ := h'.2 fields' hf'
  exact ⟨fields'', hf'', hle.trans hle'⟩

/-- Every step keeps what has been recorded about the hint. -/
theorem Valid.keeps_step (h : x.Valid) {l : HintStep Device} (hl : l.Legal x)
    (hk : l.KeepsRecords x) (hx : HintSync.step l x = some x') : x.Keeps x' := by
  obtain ⟨current, hgrowing⟩ := h.growing
  have hvalid := h.step hl hk hx
  rcases simulates h hgrowing hl hk hx with hsame | ⟨l', current', hl', hstep⟩
  · rw [hsame]
    exact .refl x
  · obtain ⟨hentry, hregister⟩ := hgrowing.le_step hl' hstep
    refine ⟨fun device => ?_, hregister⟩
    rw [← h.entry_getD, ← hvalid.entry_getD]
    exact hentry device

/-- In every run no record loses an interaction or a show. A device that has learned of an
interaction, or of two shows, does not show the hint any more. -/
theorem neverForgets_run {stores : Device → LocalStore} {remote : Remote}
    (hfresh : Fresh stores remote) {ls ms : List (HintStep Device)}
    (hl : Runs.Guarded step HintStep.Legal ls (start stores remote))
    (hk : Runs.Guarded step HintStep.KeepsRecords ls (start stores remote))
    (hx : Runs.run step ls (start stores remote) = some x)
    (hl' : Runs.Guarded step HintStep.Legal ms x)
    (hk' : Runs.Guarded step HintStep.KeepsRecords ms x) (hx' : Runs.run step ms x = some x') :
    x.Keeps x' ∧ ∀ device,
      (x.hint device).interactedAt.isSome = true ∨ 2 ≤ (x.hint device).showCount →
        ∀ now, (x'.stores device).shouldShowInsightsHint now = false := by
  have hvalid : x.Valid := Runs.invariant_of_guarded
    (fun l x x' hv hg hs => hv.step hg.1 hg.2 hs) hfresh.valid (hl.and hk) hx
  have hkeeps : x.Keeps x' := by
    refine (Runs.invariant_of_guarded (I := fun y => y.Valid ∧ x.Keeps y)
      (fun l y y' hy hg hs => ?_) ⟨hvalid, .refl x⟩ (hl'.and hk') hx').2
    exact ⟨hy.1.step hg.1 hg.2 hs, hy.2.trans (hy.1.keeps_step hg.1 hg.2 hs)⟩
  refine ⟨hkeeps, fun device hlearned now => ?_⟩
  obtain ⟨hinteracted, hshown⟩ := hkeeps.1 device
  exact InsightsHintState.shouldShowHint_of_le
    (hlearned.imp hinteracted fun htwo => htwo.trans hshown) now

/-- A show and an interaction of one device reach the other one. -/
def sampleSteps : List (HintStep Bool) :=
  [.operation true .markInsightsHintShown (.seconds 10),
    .operation true .recordInsightsInteraction (.seconds 20), .runWrite 0, .runWrite 0,
    .deliver false 2]

theorem neverForgets_run_sample : ∃ x, Runs.run step sampleSteps (start (fun _ => {}) {}) = some x ∧
    (x.stores false).shouldShowInsightsHint (.seconds 100000) = false := by
  obtain ⟨x, hx⟩ := Option.isSome_iff_exists.mp
    (by decide +kernel : (Runs.run step sampleSteps (start (fun _ => {}) {})).isSome)
  have hlearned : ∀ x ∈ Runs.run step sampleSteps (start (fun _ => {}) {}),
      (x.hint false).interactedAt.isSome = true := by
    decide +kernel
  have hlegal : Runs.Guarded step HintStep.Legal [] x := trivial
  have hkeeps : Runs.Guarded step HintStep.KeepsRecords [] x := trivial
  have hnil : Runs.run step [] x = some x := rfl
  exact ⟨x, hx, (neverForgets_run ⟨fun _ => rfl, fun _ h => absurd h (Option.not_mem_none _)⟩
    (by decide +kernel) (by decide +kernel) hx hlegal hkeeps hnil).2 false
      (Or.inl (hlearned x hx)) _⟩

/-- One device records an interaction. The other one, which has not learned of it, has shown the
hint, and its dismissal is later. -/
def unawareSteps : List (HintStep Bool) :=
  [.operation true .recordInsightsInteraction (.seconds 10),
    .operation false .markInsightsHintShown (.seconds 20),
    .operation false .dismissInsightsHint (.seconds 30), .runWrite 0, .runWrite 0, .runWrite 0]

/-- Both the document and the first device lose the interaction, and a day later that device shows
the hint again. -/
theorem not_neverForgets_run :
    Runs.Guarded step HintStep.Legal (unawareSteps ++ [.deliver true 3]) (start (fun _ => {}) {}) ∧
    (∃ x, Runs.run step (unawareSteps.take 4) (start (fun _ => {}) {}) = some x ∧
      (x.hint true).interactedAt.isSome = true ∧
      x.remote.hintFields = some ⟨.seconds 10, 0, true⟩) ∧
    ∃ x, Runs.run step (unawareSteps ++ [.deliver true 3]) (start (fun _ => {}) {}) = some x ∧
      (x.hint true).interactedAt = none ∧ x.remote.hintFields = some ⟨.seconds 30, 1, false⟩ ∧
      (x.stores true).shouldShowInsightsHint (.seconds 86430) = true := by
  refine ⟨by decide +kernel, ?_, ?_⟩
  · obtain ⟨x, hx⟩ := Option.isSome_iff_exists.mp
      (by decide +kernel : (Runs.run step (unawareSteps.take 4) (start (fun _ => {}) {})).isSome)
    have hend : ∀ x ∈ Runs.run step (unawareSteps.take 4) (start (fun _ => {}) {}),
        (x.hint true).interactedAt.isSome = true ∧
          x.remote.hintFields = some ⟨.seconds 10, 0, true⟩ := by
      decide +kernel
    exact ⟨x, hx, hend x hx⟩
  · obtain ⟨x, hx⟩ := Option.isSome_iff_exists.mp (by decide +kernel :
      (Runs.run step (unawareSteps ++ [.deliver true 3]) (start (fun _ => {}) {})).isSome)
    have hend : ∀ x ∈ Runs.run step (unawareSteps ++ [.deliver true 3]) (start (fun _ => {}) {}),
        (x.hint true).interactedAt = none ∧ x.remote.hintFields = some ⟨.seconds 30, 1, false⟩ ∧
          (x.stores true).shouldShowInsightsHint (.seconds 86430) = true := by
      decide +kernel
    exact ⟨x, hx, hend x hx⟩

end HintSync

end Notelayer
