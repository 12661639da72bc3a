import Notelayer.RootTabs

/-!
# What becomes of a voice draft

The preview says that nothing is added to the tasks until it is confirmed. Over every run of the
app, each draft that was parsed or added is staged, was confirmed, or was dropped by the user, by
a reset or by turning the features off, and is exactly one of these, once
(`RootTabsEvent.accounted_run`). Each confirmed draft became one task, and no other event of the
views over the tabs adds or uploads one (`RootTabsEvent.confirmed_run`). An app that is killed while
it confirms loses no draft (`RootTabsView.load_persistDrafts`).
-/

namespace Notelayer

open Ledger RootTabsView

variable (foundation : VoiceFoundation) (calendar : Calendar)

namespace RootTabsEvent

/-- The features are on after a step of the store. -/
def leavesOn (e : Date × StoreStep) (u : Session) : Bool :=
  (StoreStep.step e u).elim true fun u => u.store.experimentalFeaturesPreference.isEnabled

/-- The drafts that an event takes in and lets out. -/
def moves (e : Date × RootTabsEvent) (x : RootTabsView) : Moves VoiceParsedTaskDraft :=
  match e.2 with
  | store step =>
    if leavesOn (e.1, step) x.session then {} else { dropped := x.store.voiceStagingDrafts }
  | parseTranscript transcript newId =>
    { entered := VoiceTaskParser.parse foundation calendar newId (trimmed transcript)
        x.store.sortedCategories e.1 }
  | staging event =>
    x.stagingSheet.elim {} fun sheet =>
      VoiceStagingEvent.moves (e.1, event) { sheet with store := x.store }
  | _ => {}

/-- The tasks that an event makes of drafts. -/
def madeTasks (e : Date × RootTabsEvent) (x : RootTabsView) : List Task :=
  match e.2 with
  | staging event =>
    x.stagingSheet.elim [] fun sheet =>
      VoiceStagingEvent.madeTasks (e.1, event) { sheet with store := x.store }
  | _ => []

end RootTabsEvent

/-- The task is what the draft says. -/
structure IsTaskOf (draft : VoiceParsedTaskDraft) (task : Task) : Prop where
  title : task.title = trimmed draft.title
  titled : task.title ≠ ""
  categories : task.categories = draft.categories
  priority : task.priority = draft.priority
  dueDate : task.dueDate = draft.dueDate
  taskNotes : task.taskNotes = if trimmed draft.notes = "" then none else some (trimmed draft.notes)
  isOpen : task.completedAt = none
  isTopLevel : task.parentTaskId = none

/-- A draft with a title makes its task. -/
theorem isTaskOf_task {draft : VoiceParsedTaskDraft} (h : draft.isTitled = true) (id : String)
    (now : Date) : IsTaskOf draft (draft.task id now) where
  title := rfl
  titled := by
    change trimmed draft.title ≠ ""
    simpa [VoiceParsedTaskDraft.isTitled] using h
  categories := rfl
  priority := rfl
  dueDate := rfl
  taskNotes := by simp [VoiceParsedTaskDraft.task, Task.init]
  isOpen := rfl
  isTopLevel := rfl

/-- Every delivered draft makes its task. -/
theorem VoiceStagingEvent.forall₂_madeTasks {e : Date × VoiceStagingEvent} {v : VoiceStagingView}
    (ha : e.2.IsAvailable v) : List.Forall₂ IsTaskOf (moves e v).delivered (madeTasks e v) := by
  obtain ⟨now, event⟩ := e
  cases event with
  | saveSingleDraft index id =>
    have htitled := ha.2.2
    simp only [moves, madeTasks]
    cases hget : v.drafts[index]? with
    | none => exact .nil
    | some draft => exact .cons (isTaskOf_task (htitled draft hget) id now) .nil
  | saveAllDrafts stamps =>
    simp only [moves, madeTasks]
    split_ifs with hvalid
    · have htitled := List.all_eq_true.mp hvalid
      rw [List.forall₂_map_right_iff]
      refine List.forall₂_iff_get.mpr ⟨List.length_zipIdx.symm, fun i hi hi' => ?_⟩
      simp only [List.get_eq_getElem, List.getElem_zipIdx]
      exact isTaskOf_task (htitled _ (List.getElem_mem hi)) _ _
    · exact .nil
  | _ => exact .nil

namespace RootTabsView

variable {x y z : RootTabsView}

/-! ## What the reactions leave alone -/

theorem adds_withInsightsHintState (s : LocalStore) (state : InsightsHintState) :
    s.Adds (s.withInsightsHintState state) [] :=
  { LocalStore.Adds.refl s with }

theorem adds_refreshInsightsHintBanner (x : RootTabsView) (now : Date) :
    x.store.Adds (x.refreshInsightsHintBanner now).store [] := by
  unfold refreshInsightsHintBanner
  split_ifs
  · exact .refl _
  · exact .refl _
  · exact adds_withInsightsHintState _ _
  · exact .refl _
  · exact .refl _

theorem adds_hideFeatures (x : RootTabsView) : x.store.Adds x.hideFeatures.store [] := by
  change x.store.Adds
    (if x.store.isVoiceStagingPresented then x.store.clearVoiceStaging else x.store) []
  split_ifs
  · exact x.store.adds_clearVoiceStaging
  · exact .refl _

theorem adds_handle (x : RootTabsView) (triggeredByUser : Bool) (now : Date) :
    x.store.Adds (x.handleExperimentalVisibilityChange triggeredByUser now).store [] := by
  unfold handleExperimentalVisibilityChange
  dsimp only
  split_ifs
  · have hadds := x.checkAndShowWelcome.adds_refreshInsightsHintBanner now
    rwa [x.checkAndShowWelcome_spec.1] at hadds
  · rw [(transitionToDefaultListView_spec _).1]
    exact x.adds_hideFeatures
  · exact x.adds_hideFeatures

theorem adds_selectedTabChanged (x : RootTabsView) (now : Date) :
    x.store.Adds (x.selectedTabChanged now).store [] := by
  unfold selectedTabChanged
  split_ifs
  · change x.store.Adds (x.store.recordInsightsInteraction now) []
    unfold LocalStore.recordInsightsInteraction
    split_ifs
    · exact .refl _
    · exact adds_withInsightsHintState _ _
  · exact .refl _

theorem store_presentStaging (x : RootTabsView) : x.presentStaging.store = x.store := by
  unfold presentStaging
  split <;> rfl

/-- The reactions change no task and upload nothing. -/
theorem adds_updated (z x : RootTabsView) (now : Date) :
    z.store.Adds (z.updated x now).store [] := by
  have hpreference : z.store.Adds (z.onChangeOfPreference x now).store [] := by
    unfold onChangeOfPreference
    split_ifs
    · exact z.adds_handle false now
    · exact .refl _
  unfold updated onChangeOfTab
  rw [store_presentStaging]
  refine hpreference.trans ?_
  split_ifs
  · exact adds_selectedTabChanged _ now
  · exact .refl _

theorem adds_notified (z x : RootTabsView) (step : StoreStep) (now : Date) :
    z.store.Adds (z.notified x step now).store [] := by
  unfold notified
  split
  · split_ifs
    · exact z.adds_handle _ now
    · exact .refl _
  · exact .refl _

theorem insightsEnabled_of_adds {added : List Task} (h : x.store.Adds y.store added) :
    y.insightsEnabled = x.insightsEnabled :=
  congrArg ExperimentalFeaturePreference.isEnabled h.preference

/-- While the features are on, the reactions leave what is staged. -/
theorem staging_updated (hon : z.insightsEnabled = true) (x : RootTabsView) (now : Date) :
    (z.updated x now).store.staging = z.store.staging := by
  have hpreference : (z.onChangeOfPreference x now).store.staging = z.store.staging := by
    unfold onChangeOfPreference
    split_ifs
    · exact (handle_on hon false now).1
    · rfl
  unfold updated onChangeOfTab
  rw [store_presentStaging]
  refine Eq.trans ?_ hpreference
  split_ifs
  · unfold selectedTabChanged
    split_ifs
    · exact LocalStore.staging_recordInsightsInteraction now
    · rfl
  · rfl

theorem staging_notified (hon : z.insightsEnabled = true) (x : RootTabsView) (step : StoreStep)
    (now : Date) : (z.notified x step now).store.staging = z.store.staging := by
  unfold notified
  split
  · split_ifs
    · exact (handle_on hon _ now).1
    · rfl
  · rfl

theorem Gated.eq_nil_of_off (h : x.Gated) (hoff : x.insightsEnabled = false) :
    x.store.voiceStagingDrafts = [] := by
  by_contra hne
  exact absurd (hoff.symm.trans (h.gates.staged hne)) Bool.false_ne_true

/-- What is staged stays if the event leaves it. -/
theorem Gated.drafts_updated (h : x.Gated) {now : Date} (hy : (z.updated x now).Gated)
    (hstore : z.store.staging = x.store.staging) :
    (z.updated x now).store.voiceStagingDrafts = x.store.voiceStagingDrafts := by
  have hz := insightsEnabled_of_staging hstore
  rcases Bool.eq_false_or_eq_true x.insightsEnabled with hon | hoff
  · exact LocalStore.drafts_of_staging
      ((staging_updated (hz.trans hon) x now).trans hstore)
  · have hoff' := insightsEnabled_of_adds (adds_updated z x now)
    rw [h.eq_nil_of_off hoff, hy.eq_nil_of_off (hoff'.trans (hz.trans hoff))]

end RootTabsView

namespace RootTabsEvent

variable {foundation calendar} {x y z : RootTabsView}

/-! ## One event -/

/-- A step of the store. -/
def isStore : RootTabsEvent → Bool
  | store _ => true
  | _ => false

/-- Neither a step of the store nor a parse nor an event of the preview. -/
def isQuiet : RootTabsEvent → Bool
  | store _ => false
  | parseTranscript _ _ => false
  | staging _ => false
  | _ => true

/-- A quiet event touches nothing that is staged, and adds no task. -/
theorem staging_handled {e : Date × RootTabsEvent} (hquiet : e.2.isQuiet = true)
    (hz : handled foundation calendar e x = some z) :
    z.store.staging = x.store.staging ∧ x.store.Adds z.store [] := by
  obtain ⟨now, event⟩ := e
  cases event with
  | store step => cases hquiet
  | parseTranscript transcript newId => cases hquiet
  | staging event => cases hquiet
  | delayedClosure index =>
    obtain ⟨closure, -, rfl⟩ := Option.map_eq_some_iff.mp hz
    cases closure <;> exact ⟨rfl, .refl _⟩
  | keyboard isVisible =>
    obtain rfl := Option.some_inj.mp hz
    exact ⟨rfl, .refl _⟩
  | dismissLockedInsightsMessage =>
    obtain rfl := Option.some_inj.mp hz
    exact ⟨rfl, .refl _⟩
  | dismissInsightsHint =>
    simp only [handled] at hz
    split_ifs at hz
    obtain rfl := Option.some_inj.mp hz
    exact ⟨rfl, adds_withInsightsHintState _ _⟩
  | _ =>
    simp only [handled] at hz
    split_ifs at hz <;> obtain rfl := Option.some_inj.mp hz <;> exact ⟨rfl, .refl _⟩

/-- A step of the store moves the drafts as its entry says. -/
theorem balanced_store (h : x.Gated) (hy : y.Gated) {step : StoreStep} {now : Date}
    (hz : handled foundation calendar (now, .store step) x = some z) (hzy : z.updated x now = y) :
    Ledger.Balanced VoiceParsedTaskDraft.id x.store.voiceStagingDrafts
      (moves foundation calendar (now, .store step) x) y.store.voiceStagingDrafts := by
  obtain ⟨session, hs, rfl⟩ := Option.map_eq_some_iff.mp hz
  have hkeeps : x.store.KeepsStaged session.store := StoreStep.keepsStaged_step h.staged hs
  generalize hw : ({ x with session := session } : RootTabsView) = w at hzy
  have hsession : w.store = session.store := by rw [← hw]; rfl
  have hwy : y.insightsEnabled = w.insightsEnabled := by
    rw [← hzy, insightsEnabled_of_adds (adds_updated _ x now),
      insightsEnabled_of_adds (adds_notified w x step now)]
  have hleaves : leavesOn (now, step) x.session = w.insightsEnabled := by
    unfold leavesOn
    rw [hs, Option.elim_some, insightsEnabled, hsession]
  simp only [moves, hleaves]
  rcases Bool.eq_false_or_eq_true w.insightsEnabled with hon | hoff
  · rw [if_pos hon]
    have hon' : (w.notified x step now).insightsEnabled = true :=
      (insightsEnabled_of_adds (adds_notified w x step now)).trans hon
    have hdrafts : y.store.voiceStagingDrafts = session.store.voiceStagingDrafts := by
      rw [← hzy, ← hsession]
      exact LocalStore.drafts_of_staging
        ((staging_updated hon' x now).trans (staging_notified hon x step now))
    rcases hkeeps.drafts with heq | ⟨-, hoff⟩
    · rw [hdrafts, heq]
      exact .refl _
    · rw [← hsession] at hoff
      exact absurd (hoff.symm.trans hon) Bool.false_ne_true
  · rw [if_neg (by simp [hoff]), hy.eq_nil_of_off (hwy.trans hoff)]
    exact .drop_all _

variable (foundation calendar) in
theorem adds_parse (transcript : String) (newId : ℕ → String) (now : Date) :
    x.store.Adds (parse foundation calendar x transcript newId now).store [] := by
  unfold parse
  dsimp only
  generalize VoiceTaskParser.parse foundation calendar newId (trimmed transcript)
    x.store.sortedCategories now = drafts
  split_ifs
  · exact .refl _
  · exact x.store.adds_stageVoiceDrafts _ _

variable (foundation calendar) in
/-- What is parsed is staged, with nothing staged before. -/
theorem drafts_parse (hnil : x.store.voiceStagingDrafts = []) (transcript : String)
    (newId : ℕ → String) (now : Date) :
    (parse foundation calendar x transcript newId now).store.voiceStagingDrafts =
      VoiceTaskParser.parse foundation calendar newId (trimmed transcript)
        x.store.sortedCategories now := by
  unfold parse
  dsimp only
  generalize VoiceTaskParser.parse foundation calendar newId (trimmed transcript)
    x.store.sortedCategories now = drafts
  split_ifs with hempty
  · exact hnil.trans (List.isEmpty_iff.mp hempty).symm
  · exact LocalStore.voiceStagingDrafts_saveVoiceStaging

/-- Parsing brings the drafts that it stages. -/
theorem balanced_parse (h : x.Gated) {transcript : String} {newId : ℕ → String} {now : Date}
    (hz : handled foundation calendar (now, .parseTranscript transcript newId) x = some z) :
    Ledger.Balanced VoiceParsedTaskDraft.id x.store.voiceStagingDrafts
      (moves foundation calendar (now, .parseTranscript transcript newId) x)
      (z.updated x now).store.voiceStagingDrafts := by
  simp only [handled] at hz
  split_ifs at hz with hguard
  have hz := Option.some_inj.mp hz
  have hnil := h.capture hguard.1
  have hadds := adds_parse (x := x) foundation calendar transcript newId now
  have hdrafts := drafts_parse foundation calendar hnil transcript newId now
  rw [hz] at hadds hdrafts
  have hon := (insightsEnabled_of_adds hadds).trans (h.gates.capture hguard.1)
  rw [LocalStore.drafts_of_staging (staging_updated hon x now), hdrafts, hnil]
  simp only [moves]
  generalize VoiceTaskParser.parse foundation calendar newId (trimmed transcript)
    x.store.sortedCategories now = drafts
  exact .enter [] drafts

/-- The view of the preview is the one on screen. -/
theorem handled_staging {event : VoiceStagingEvent} {now : Date}
    (hz : handled foundation calendar (now, .staging event) x = some z) :
    ∃ (sheet : StagingSheet) (view : VoiceStagingView), x.stagingSheet = some sheet ∧
      event.IsAvailable { sheet with store := x.store } ∧
      VoiceStagingEvent.step calendar (now, event) { sheet with store := x.store } = some view ∧
      z.store = view.store := by
  simp only [handled] at hz
  obtain ⟨sheet, hsheet, hz⟩ := Option.bind_eq_some_iff.mp hz
  split_ifs at hz with ha
  obtain ⟨view, hview, rfl⟩ := Option.map_eq_some_iff.mp hz
  exact ⟨sheet, view, hsheet, ha, hview, rfl⟩

/-- An event of the preview moves the drafts as its entry says. -/
theorem balanced_staging (h : x.Gated) {event : VoiceStagingEvent} {now : Date}
    (hz : handled foundation calendar (now, .staging event) x = some z) :
    Ledger.Balanced VoiceParsedTaskDraft.id x.store.voiceStagingDrafts
      (moves foundation calendar (now, .staging event) x)
      (z.updated x now).store.voiceStagingDrafts := by
  obtain ⟨sheet, view, hsheet, ha, hview, hstore⟩ := handled_staging hz
  have hleads := leads_staging h hsheet ha hview
  have hmap := h.sheet
  rw [hsheet] at hmap
  split_ifs at hmap with hnil
  · cases hmap
  have hdrafts : sheet.drafts = x.store.voiceStagingDrafts := Option.some_inj.mp hmap
  have hadds := hleads.adds
  rw [← hstore] at hadds
  have hon : z.insightsEnabled = true :=
    (insightsEnabled_of_adds hadds).trans (h.gates.staged hnil)
  rw [LocalStore.drafts_of_staging (staging_updated hon x now), hstore, ← hdrafts]
  simp only [moves, hsheet, Option.elim_some]
  exact hleads.balanced

/-- Every event is balanced. -/
theorem balanced_step {e : Date × RootTabsEvent} (h : x.Gated)
    (hy : step foundation calendar e x = some y) :
    Ledger.Balanced VoiceParsedTaskDraft.id x.store.voiceStagingDrafts
      (moves foundation calendar e x)
      y.store.voiceStagingDrafts := by
  have hgated := gated_step h hy
  obtain ⟨z, hz, rfl⟩ := Option.map_eq_some_iff.mp hy
  obtain ⟨now, event⟩ := e
  cases event with
  | store step => exact balanced_store h hgated hz rfl
  | parseTranscript transcript newId => exact balanced_parse h hz
  | staging event => exact balanced_staging h hz
  | _ =>
    rw [h.drafts_updated hgated (staging_handled rfl hz).1]
    exact .refl _

/-- What a confirmation delivers becomes tasks, draft by draft. -/
theorem forall₂_step {e : Date × RootTabsEvent} (hy : step foundation calendar e x = some y) :
    List.Forall₂ IsTaskOf (moves foundation calendar e x).delivered (madeTasks e x) := by
  obtain ⟨z, hz, -⟩ := Option.map_eq_some_iff.mp hy
  obtain ⟨now, event⟩ := e
  cases event with
  | store step =>
    simp only [moves, madeTasks]
    split_ifs <;> exact .nil
  | staging event =>
    obtain ⟨sheet, view, hsheet, ha, -⟩ := handled_staging hz
    simp only [moves, madeTasks, hsheet, Option.elim_some]
    exact VoiceStagingEvent.forall₂_madeTasks ha
  | _ => exact .nil

/-- But for the steps of the store, only a confirmation adds tasks. -/
theorem adds_step {e : Date × RootTabsEvent} (h : x.Gated) (hstore : e.2.isStore = false)
    (hy : step foundation calendar e x = some y) : x.store.Adds y.store (madeTasks e x) := by
  obtain ⟨z, hz, rfl⟩ := Option.map_eq_some_iff.mp hy
  have hupdated := adds_updated z x e.1
  suffices hadds : x.store.Adds z.store (madeTasks e x) by
    have htrans := hadds.trans hupdated
    rwa [List.append_nil] at htrans
  obtain ⟨now, event⟩ := e
  cases event with
  | store step => cases hstore
  | parseTranscript transcript newId =>
    simp only [handled] at hz
    split_ifs at hz
    rw [← Option.some_inj.mp hz]
    exact adds_parse foundation calendar transcript newId now
  | staging event =>
    obtain ⟨sheet, view, hsheet, ha, hview, hzview⟩ := handled_staging hz
    simp only [madeTasks, hsheet, Option.elim_some]
    rw [hzview]
    exact (leads_staging h hsheet ha hview).adds
  | _ => exact (staging_handled rfl hz).2

/-- A step confirms drafts by making them tasks of the store : it adds and uploads one task for each
draft, in this order. A step of the store confirms none. -/
structure Delivers (foundation : VoiceFoundation) (calendar : Calendar)
    (e : Date × RootTabsEvent) (x y : RootTabsView) : Prop where
  tasks : List.Forall₂ IsTaskOf (moves foundation calendar e x).delivered (madeTasks e x)
  adds : e.2.isStore = false → x.store.Adds y.store (madeTasks e x)
  none_of_store : e.2.isStore = true → (moves foundation calendar e x).delivered = []

theorem delivers_step {e : Date × RootTabsEvent} (h : x.Gated)
    (hy : step foundation calendar e x = some y) : Delivers foundation calendar e x y := by
  refine ⟨forall₂_step hy, fun hstore => adds_step h hstore hy, fun hstore => ?_⟩
  obtain ⟨now, event⟩ := e
  cases event with
  | store step =>
    simp only [moves]
    split_ifs <;> rfl
  | _ => cases hstore

/-! ## Runs -/

theorem balanced_run (h : x.Gated) {ls : List (Date × RootTabsEvent)}
    (hr : Runs.run (step foundation calendar) ls x = some y) :
    Ledger.Balanced VoiceParsedTaskDraft.id x.store.voiceStagingDrafts
      (Moves.total (step foundation calendar) (moves foundation calendar) ls x)
      y.store.voiceStagingDrafts := by
  have hstep : ∀ e (x y : RootTabsView), x.Gated → step foundation calendar e x = some y →
      Ledger.Balanced VoiceParsedTaskDraft.id x.store.voiceStagingDrafts
        (moves foundation calendar e x) y.store.voiceStagingDrafts :=
    fun _ _ _ hx hs => balanced_step hx hs
  exact Ledger.Balanced.of_run (fun _ _ _ hx hs => gated_step hx hs) hstep h hr

/-- Every draft that was staged at first, parsed or added is staged at the end, confirmed or
dropped, and if no id comes twice it is exactly one of these, once. Every step that confirmed
drafts put one task of each into the store, and the tasks of all steps say what the confirmed
drafts said. -/
theorem accounted_run (h : x.Reached foundation calendar) {ls : List (Date × RootTabsEvent)}
    (hr : Runs.run (step foundation calendar) ls x = some y) :
    let m := Moves.total (step foundation calendar) (moves foundation calendar) ls x
    let ids := (x.store.voiceStagingDrafts ++ m.entered).map VoiceParsedTaskDraft.id
    Ledger.Balanced VoiceParsedTaskDraft.id x.store.voiceStagingDrafts m
      y.store.voiceStagingDrafts ∧
      (ids.Nodup → ∀ id ∈ ids,
        (y.store.voiceStagingDrafts.map VoiceParsedTaskDraft.id).count id +
          (m.delivered.map VoiceParsedTaskDraft.id).count id +
          (m.dropped.map VoiceParsedTaskDraft.id).count id = 1) ∧
      List.Forall₂ IsTaskOf m.delivered (logged (step foundation calendar) madeTasks ls x) ∧
      ∀ pre e post z z', ls = pre ++ e :: post →
        Runs.run (step foundation calendar) pre x = some z →
        step foundation calendar e z = some z' → Delivers foundation calendar e z z' := by
  have hgated := gated_of_reached h
  have hbalanced := balanced_run hgated hr
  refine ⟨hbalanced, fun hnew id hid => hbalanced.once hnew hid, ?_, ?_⟩
  · exact Ledger.Balanced.forall₂_logged (I := Gated) (fun _ _ _ hx hs => gated_step hx hs)
      (fun _ _ _ _ hs => forall₂_step hs) hgated hr
  · intro pre e post z z' _ hz hz'
    exact delivers_step (gated_run hgated hz) hz'

/-- A run without steps of the store adds the tasks that its events make. -/
theorem adds_run (h : x.Gated) {ls : List (Date × RootTabsEvent)}
    (hstore : ∀ e ∈ ls, e.2.isStore = false)
    (hr : Runs.run (step foundation calendar) ls x = some y) :
    x.store.Adds y.store (logged (step foundation calendar) madeTasks ls x) := by
  induction ls generalizing x with
  | nil =>
    obtain rfl := Option.some_inj.mp hr
    exact .refl _
  | cons e ls ih =>
    obtain ⟨z, hz, hr'⟩ := Runs.run_cons_eq_some.mp hr
    rw [logged_cons hz]
    have hrest : ∀ e ∈ ls, e.2.isStore = false :=
      fun e he => hstore e (List.mem_cons_of_mem _ he)
    exact (adds_step h (hstore e List.mem_cons_self) hz).trans (ih (gated_step h hz) hrest hr')

/-- In a run without steps of the store, the tasks that are added and uploaded are those made of
confirmed drafts, in this order, one of each. -/
theorem confirmed_run (h : x.Reached foundation calendar) {ls : List (Date × RootTabsEvent)}
    (hstore : ∀ e ∈ ls, e.2.isStore = false)
    (hr : Runs.run (step foundation calendar) ls x = some y) :
    ∃ added, x.store.Adds y.store added ∧ List.Forall₂ IsTaskOf
      (Moves.total (step foundation calendar) (moves foundation calendar) ls x).delivered added :=
  ⟨_, adds_run (gated_of_reached h) hstore hr,
    Ledger.Balanced.forall₂_logged (I := Gated) (fun _ _ _ hx hs => gated_step hx hs)
      (fun _ _ _ _ hs => forall₂_step hs) (gated_of_reached h) hr⟩

end RootTabsEvent

namespace RootTabsEvent

/-- A launch puts up the preview of one draft, and its confirmation takes it down. -/
theorem exists_run_sample : ∃ x y : RootTabsView,
    x.Reached .latin (Calendar.gregorian .gmt) ∧
    x.store.voiceStagingDrafts = [RootTabsView.sampleDraft] ∧
    Runs.run (step .latin (Calendar.gregorian .gmt))
      [(.seconds 1, .staging (.saveSingleDraft 0 "task"))] x = some y ∧
    y.store.voiceStagingDrafts = [] := by
  obtain ⟨y, hr, hnil⟩ : ∃ y, Runs.run (step .latin (Calendar.gregorian .gmt))
      [(.seconds 1, .staging (.saveSingleDraft 0 "task"))]
        (RootTabsView.launch .samplePreviewed true false (.seconds 0)) = some y ∧
      y.store.voiceStagingDrafts = [] :=
    ⟨_, rfl, rfl⟩
  exact ⟨_, y, ⟨_, _, _, _, .refl _⟩, rfl, hr, hnil⟩

theorem accounted_run_sample : ∃ x y : RootTabsView,
    x.store.voiceStagingDrafts = [RootTabsView.sampleDraft] ∧ y.store.voiceStagingDrafts = [] ∧
    Ledger.Balanced VoiceParsedTaskDraft.id x.store.voiceStagingDrafts
      (Moves.total (step .latin (Calendar.gregorian .gmt))
        (moves .latin (Calendar.gregorian .gmt))
        [(.seconds 1, .staging (.saveSingleDraft 0 "task"))] x) y.store.voiceStagingDrafts ∧
    Delivers .latin (Calendar.gregorian .gmt)
      (.seconds 1, .staging (.saveSingleDraft 0 "task")) x y := by
  obtain ⟨x, y, hx, hdrafts, hr, hnil⟩ := exists_run_sample
  obtain ⟨hbalanced, -, -, hdelivers⟩ := accounted_run hx hr
  obtain ⟨z, hz, hrest⟩ := Runs.run_cons_eq_some.mp hr
  obtain rfl := Option.some_inj.mp hrest
  exact ⟨x, z, hdrafts, hnil, hbalanced, hdelivers [] _ [] x z rfl rfl hz⟩

theorem confirmed_run_sample : ∃ (x y : RootTabsView) (added : List Task),
    x.store.voiceStagingDrafts = [RootTabsView.sampleDraft] ∧ y.store.voiceStagingDrafts = [] ∧
      x.store.Adds y.store added := by
  obtain ⟨x, y, hx, hdrafts, hr, hnil⟩ := exists_run_sample
  obtain ⟨added, hadds, -⟩ := confirmed_run hx (by simp [isStore]) hr
  exact ⟨x, y, added, hdrafts, hnil, hadds⟩

end RootTabsEvent

/-! ## A kill during a confirmation -/

namespace LocalStore

variable {s : LocalStore}

theorem savedTasks_persistDraft (draft : VoiceParsedTaskDraft) (id : String) (now : Date) :
    (s.persistDraft draft id now).userDefaults.tasks =
      some (s.persistDraft draft id now).tasks := by
  unfold persistDraft addTask spawnSync logTaskCreatedAnalytics
  dsimp only
  split <;> split <;> rfl

theorem savedTasks_persistDrafts {drafts : List VoiceParsedTaskDraft} (hne : drafts ≠ [])
    (stamps : ℕ → String × Date) :
    (s.persistDrafts drafts stamps).userDefaults.tasks =
      some (s.persistDrafts drafts stamps).tasks := by
  obtain ⟨drafts, draft, rfl⟩ := (List.eq_nil_or_concat' drafts).resolve_left hne
  unfold persistDrafts
  rw [List.zipIdx_append, List.foldl_append]
  exact savedTasks_persistDraft _ _ _

end LocalStore

/-- If the app is killed when it has confirmed the first `k` drafts and not yet cleared what is
staged, the next launch finds all drafts staged, and tasks of the first `k`. So no draft is lost,
and these `k` become tasks again if all are confirmed once more. -/
theorem RootTabsView.load_persistDrafts {foundation : VoiceFoundation} {calendar : Calendar}
    {x : RootTabsView} (h : x.Reached foundation calendar)
    (stamps : ℕ → String × Date) {k : ℕ} (hk : 0 < k) (hne : x.store.voiceStagingDrafts ≠ []) :
    let s := LocalStore.load
      (x.store.persistDrafts (x.store.voiceStagingDrafts.take k) stamps).userDefaults
    s.voiceStagingDrafts = x.store.voiceStagingDrafts ∧
      s.voiceSourceTranscript = x.store.voiceSourceTranscript ∧
      s.tasks = x.store.tasks ++ (x.store.voiceStagingDrafts.take k).zipIdx.map fun entry =>
        entry.1.task (stamps entry.2).1 (stamps entry.2).2 := by
  have hgated := gated_of_reached h
  have htake : x.store.voiceStagingDrafts.take k ≠ [] := by
    simpa [List.take_eq_nil_iff, hk.ne'] using hne
  have hstaging := (LocalStore.edits_persistDrafts (s := x.store)
    (x.store.voiceStagingDrafts.take k) stamps).staging
  have hadds := x.store.adds_persistDrafts (x.store.voiceStagingDrafts.take k) stamps
  have hsaved := LocalStore.savedTasks_persistDrafts (s := x.store) htake stamps
  have hdrafts := LocalStore.drafts_of_staging hstaging
  obtain ⟨hloaded, htranscript⟩ := (hgated.staged.of_staging hstaging).load
  refine ⟨hloaded.trans hdrafts, (htranscript (by rwa [hdrafts])).trans ?_, ?_⟩
  · exact congrArg (fun t => t.1.2.1) hstaging
  · rw [← hadds.tasks]
    change Option.getD _ [] = _
    rw [hsaved, Option.getD_some]

theorem RootTabsView.load_persistDrafts_sample : ∃ x : RootTabsView,
    (LocalStore.load (x.store.persistDrafts [sampleDraft] fun _ =>
      ("task", .seconds 1)).userDefaults).voiceStagingDrafts = [sampleDraft] := by
  obtain ⟨x, y, hx, hdrafts, -⟩ := RootTabsEvent.exists_run_sample
  have hload := (load_persistDrafts hx (fun _ => ("task", .seconds 1)) Nat.one_pos
    (by simp [hdrafts])).1
  rw [hdrafts] at hload
  exact ⟨x, hload⟩

end Notelayer
