import Notelayer.VoiceLedger

/-!
# The hint for Insights

The root view refreshes the hint when the experimental features are turned on, and a refresh that
shows it counts it as shown. Turning them on by hand refreshes it twice, on the notification and
on the change of the preference, and the second refresh finds it shown already.
`RootTabsEvent.banner_enable_iff` says when it is up afterwards. A hint that was neither shown nor
dismissed before is counted and taken down at once, and does not come back
(`RootTabsEvent.hint_unseen_run`).
-/

namespace Notelayer

/-- A day has passed since the hint was dismissed. -/
def InsightsHintState.IsRested (state : InsightsHintState) (now : Date) : Prop :=
  ∃ d ∈ state.lastDismissedAt, (now.timeIntervalSince d).ge (.finite (24 * 60 * 60)) = true

/-- When the hint has to be shown. -/
theorem InsightsHintState.shouldShowHint_iff (state : InsightsHintState) (now : Date) :
    state.shouldShowHint now = true ↔ state.interactedAt = none ∧
      (state.showCount = 0 ∨
        state.showCount = 1 ∧ 1 ≤ state.dismissCount ∧ state.IsRested now) := by
  unfold shouldShowHint IsRested
  split_ifs with hinteracted hcount
  · simp [hinteracted]
  · simp_all
  · cases hdismissed : state.lastDismissedAt with
    | none => simp [hcount]
    | some d => simp_all

namespace RootTabsView

variable {x y : RootTabsView}

/-- The hint state of the store. -/
def hint (x : RootTabsView) : InsightsHintState :=
  x.store.insightsHintState

/-! ## Refreshes -/

/-- What decides about the hint, apart from its state. -/
def AllowsHint (x : RootTabsView) : Prop :=
  x.isScreenshotGenerationMode = false ∧ x.insightsEnabled = true ∧ x.selectedTab ≠ .insights

/-- The state of the hint after a refresh. -/
def refreshed (state : InsightsHintState) (now : Date) : InsightsHintState :=
  if state.shouldShowHint now then
    { state with showCount := state.showCount + 1, lastShownAt := some now, updatedAt := now }
  else state

/-- A refresh that shows the hint counts it. -/
theorem AllowsHint.refresh (h : x.AllowsHint) (now : Date) :
    (x.refreshInsightsHintBanner now).showInsightsHintBanner = x.hint.shouldShowHint now ∧
      (x.refreshInsightsHintBanner now).hint = refreshed x.hint now ∧
      (x.refreshInsightsHintBanner now).AllowsHint := by
  obtain ⟨hscreenshot, hon, htab⟩ := h
  unfold refreshInsightsHintBanner refreshed
  rw [if_neg (by simp [hscreenshot]), if_neg (by simp [hon]), if_neg htab]
  rcases Bool.eq_false_or_eq_true (x.store.insightsHintState.shouldShowHint now) with hshow | hshow
  · rw [if_neg (by simp [hshow])]
    simp only [hint, hshow, if_true]
    exact ⟨trivial, rfl, hscreenshot, hon, htab⟩
  · rw [if_pos (by simp [hshow])]
    simp only [hint, hshow, Bool.false_eq_true, if_false]
    exact ⟨trivial, rfl, hscreenshot, hon, htab⟩

/-- A change of the features shows the hint only where it is allowed. -/
theorem AllowsHint.handle (h : x.AllowsHint) (triggeredByUser : Bool) (now : Date) :
    let y := x.handleExperimentalVisibilityChange triggeredByUser now
    y.showInsightsHintBanner = x.hint.shouldShowHint now ∧ y.hint = refreshed x.hint now ∧
      y.AllowsHint ∧ y.selectedTab = x.selectedTab := by
  obtain ⟨hscreenshot, hon, htab⟩ := h
  obtain ⟨hstore, -, -, -, htab'⟩ := x.checkAndShowWelcome_spec
  have hscreenshot' : x.checkAndShowWelcome.isScreenshotGenerationMode = false := by
    unfold checkAndShowWelcome
    dsimp only
    split_ifs <;> exact hscreenshot
  have hallows : x.checkAndShowWelcome.AllowsHint := by
    refine ⟨hscreenshot', ?_, htab'.trans_ne htab⟩
    unfold insightsEnabled
    rw [hstore]
    exact hon
  obtain ⟨hbanner, hhint, hallows'⟩ := hallows.refresh now
  have hsame : x.checkAndShowWelcome.hint = x.hint := congrArg LocalStore.insightsHintState hstore
  unfold handleExperimentalVisibilityChange
  rw [if_neg (by simp [hon])]
  rw [hsame] at hbanner hhint
  exact ⟨hbanner, hhint, hallows',
    (refreshInsightsHintBanner_spec now).2.2.2.1.trans htab'⟩

/-- Two refreshes at one instant : the second shows the hint only if it was dismissed a day ago and
never shown. -/
theorem shouldShowHint_refreshed (state : InsightsHintState) (now : Date) :
    (refreshed state now).shouldShowHint now = true ↔ state.interactedAt = none ∧
      state.showCount = 0 ∧ 1 ≤ state.dismissCount ∧ state.IsRested now := by
  unfold refreshed
  split_ifs with hshow
  · rw [InsightsHintState.shouldShowHint_iff] at hshow ⊢
    obtain ⟨hinteracted, hcount⟩ := hshow
    change state.interactedAt = none ∧ (state.showCount + 1 = 0 ∨ state.showCount + 1 = 1 ∧
      1 ≤ state.dismissCount ∧ state.IsRested now) ↔ _
    refine and_congr_right fun _ => ?_
    rcases hcount with hcount | ⟨hcount, -⟩
    · simp [hcount]
    · simp [hcount]
  · rw [InsightsHintState.shouldShowHint_iff] at hshow ⊢
    refine iff_of_false hshow fun h => hshow ⟨h.1, .inl h.2.1⟩

/-! ## Turning the features on -/

/-- The event of the switch in the settings. -/
abbrev enable (now : Date) : Date × RootTabsEvent :=
  (now, .store (.localOperation (.setExperimentalFeaturesEnabled true)))

theorem presentStaging_hint (x : RootTabsView) :
    x.presentStaging.showInsightsHintBanner = x.showInsightsHintBanner ∧
      x.presentStaging.hint = x.hint := by
  unfold presentStaging
  split_ifs <;> exact ⟨rfl, rfl⟩

/-- The hint after the switch : two refreshes. -/
theorem enable_eq (h : x.Gated) (hoff : x.insightsEnabled = false)
    (hscreenshot : x.isScreenshotGenerationMode = false) {foundation : VoiceFoundation}
    {calendar : Calendar} {now : Date}
    (hy : RootTabsEvent.step foundation calendar (enable now) x = some y) :
    y.showInsightsHintBanner = (refreshed x.hint now).shouldShowHint now ∧
      y.hint = refreshed (refreshed x.hint now) now := by
  have htab : x.selectedTab ≠ .insights := fun htab =>
    absurd (hoff.symm.trans (h.gates.tab htab)) Bool.false_ne_true
  have hset : x.store.setExperimentalFeaturesEnabled true now =
      { x.store with experimentalFeaturesPreference :=
        ⟨true, now, .ofEnabled true⟩ }.saveExperimentalFeaturesPreference := by
    unfold LocalStore.setExperimentalFeaturesEnabled
    rw [if_neg]
    exact fun heq => absurd (hoff.symm.trans heq) Bool.false_ne_true
  generalize hw : x.withStore (x.store.setExperimentalFeaturesEnabled true now) = w
  have hwstore : w.store = x.store.setExperimentalFeaturesEnabled true now := by rw [← hw]; rfl
  have hwon : w.insightsEnabled = true := by
    unfold insightsEnabled
    rw [hwstore, hset]
    rfl
  have hwhint : w.hint = x.hint := by
    unfold hint
    rw [hwstore, hset]
    rfl
  have hwtab : w.selectedTab = x.selectedTab := by rw [← hw]; rfl
  have hwallows : w.AllowsHint := by
    refine ⟨?_, hwon, hwtab.trans_ne htab⟩
    rw [← hw]
    exact hscreenshot
  obtain ⟨-, hhint, hallows, htabv⟩ :=
    hwallows.handle (x.insightsEnabled && !w.insightsEnabled) now
  obtain ⟨hbanner', hhint', -, htabu⟩ := hallows.handle false now
  have hnotified : w.notified x (.localOperation (.setExperimentalFeaturesEnabled true)) now =
      w.handleExperimentalVisibilityChange (x.insightsEnabled && !w.insightsEnabled) now := by
    unfold notified
    exact if_pos (by simp [hwon, hoff])
  have hchanged : (w.handleExperimentalVisibilityChange (x.insightsEnabled && !w.insightsEnabled)
      now).store.experimentalFeaturesPreference ≠ x.store.experimentalFeaturesPreference := by
    intro heq
    have hon' : x.insightsEnabled = true :=
      (congrArg ExperimentalFeaturePreference.isEnabled heq).symm.trans hallows.2.1
    exact absurd (hoff.symm.trans hon') Bool.false_ne_true
  obtain ⟨z, hz, rfl⟩ := Option.map_eq_some_iff.mp hy
  have hzeq : z = w.notified x (.localOperation (.setExperimentalFeaturesEnabled true)) now := by
    rw [← hw]
    exact (Option.some_inj.mp hz).symm
  rw [hzeq, hnotified]
  unfold updated onChangeOfPreference onChangeOfTab
  rw [if_pos hchanged, if_neg (by rw [htabu, htabv, hwtab]; simp)]
  obtain ⟨hbanner, hhintp⟩ := presentStaging_hint ((w.handleExperimentalVisibilityChange
    (x.insightsEnabled && !w.insightsEnabled) now).handleExperimentalVisibilityChange false now)
  rw [hbanner, hhintp, hbanner', hhint', hhint, hwhint]
  exact ⟨rfl, rfl⟩

/-- Turning the features on by hand leaves the hint up exactly if it was never shown, was dismissed
all the same a day ago or before, and Insights was never opened. -/
theorem banner_enable_iff {foundation : VoiceFoundation} {calendar : Calendar} {now : Date}
    (h : x.Reached foundation calendar) (hoff : x.insightsEnabled = false)
    (hscreenshot : x.isScreenshotGenerationMode = false)
    (hy : RootTabsEvent.step foundation calendar (enable now) x = some y) :
    y.showInsightsHintBanner = true ↔ x.hint.interactedAt = none ∧ x.hint.showCount = 0 ∧
      1 ≤ x.hint.dismissCount ∧ x.hint.IsRested now := by
  rw [(enable_eq (gated_of_reached h) hoff hscreenshot hy).1, shouldShowHint_refreshed]

end RootTabsView

/-- The features were never on. -/
def UserDefaults.sampleUnhinted : UserDefaults where
  categories := some [⟨"work", "Work", "", "#0A84FF", 0⟩]

/-- The hint is not up after the features are turned on for the first time. -/
theorem RootTabsView.banner_enable_iff_sample : ∃ y : RootTabsView,
    RootTabsEvent.step .latin (Calendar.gregorian .gmt) (enable (.seconds 1))
        (launch .sampleUnhinted true false (.seconds 0)) = some y ∧
      y.showInsightsHintBanner = false := by
  generalize hx : launch .sampleUnhinted true false (.seconds 0) = x
  obtain ⟨y, hoff, hscreenshot, hdismissed, hy⟩ : ∃ y,
      x.insightsEnabled = false ∧ x.isScreenshotGenerationMode = false ∧
        x.hint.dismissCount = 0 ∧
        RootTabsEvent.step .latin (Calendar.gregorian .gmt) (enable (.seconds 1)) x = some y := by
    rw [← hx]
    exact ⟨_, rfl, rfl, rfl, rfl⟩
  have hreached : x.Reached .latin (Calendar.gregorian .gmt) :=
    ⟨_, _, _, _, by rw [hx]; exact .refl x⟩
  refine ⟨y, hy, Bool.eq_false_iff.mpr fun hbanner => ?_⟩
  have hdismiss := ((banner_enable_iff hreached hoff hscreenshot hy).mp hbanner).2.2.1
  omega

/-! ## A hint that was counted and not seen -/

namespace LocalStore

variable {s s' : LocalStore}

/-- An operation of the views leaves the hint state alone. -/
theorem Edits.hint (h : s.Edits s') : s'.insightsHintState = s.insightsHintState := by
  induction h with
  | refl => rfl
  | notes _ _ ih => exact ih
  | tasks _ _ ih => exact ih
  | categories _ _ ih => exact ih
  | position _ _ ih => exact ih
  | logEvent _ _ _ ih => exact ih
  | spawn _ _ ih => exact ih
  | spawnSync _ _ ih =>
    refine Eq.trans ?_ ih
    unfold LocalStore.spawnSync
    split <;> rfl

@[simp] theorem hint_saveVoiceStaging :
    s.saveVoiceStaging.insightsHintState = s.insightsHintState := by
  unfold saveVoiceStaging
  split <;> rfl

end LocalStore

namespace VoiceStagingView

variable {v v' : VoiceStagingView}

theorem hint_withDrafts (drafts : List VoiceParsedTaskDraft) :
    (v.withDrafts drafts).store.insightsHintState = v.store.insightsHintState :=
  LocalStore.hint_saveVoiceStaging

theorem hint_clearAndDismiss :
    v.clearAndDismiss.store.insightsHintState = v.store.insightsHintState :=
  LocalStore.hint_saveVoiceStaging

/-- The preview has no part in the hint. -/
theorem hint_step {calendar : Calendar} {e : Date × VoiceStagingEvent}
    (h : VoiceStagingEvent.step calendar e v = some v') :
    v'.store.insightsHintState = v.store.insightsHintState := by
  obtain ⟨now, event⟩ := e
  cases event with
  | onDelete offsets =>
    obtain ⟨drafts, -, rfl⟩ := Option.map_eq_some_iff.mp h
    exact hint_withDrafts drafts
  | onMove source destination =>
    obtain ⟨drafts, -, rfl⟩ := Option.map_eq_some_iff.mp h
    exact hint_withDrafts drafts
  | edit index change =>
    obtain ⟨draft, -, rfl⟩ := Option.map_eq_some_iff.mp h
    exact hint_withDrafts _
  | addDraft id =>
    obtain rfl := Option.some_inj.mp h
    exact hint_withDrafts _
  | saveSingleDraft index id =>
    obtain rfl := Option.some_inj.mp h
    unfold saveSingleDraft
    split
    · rfl
    · rename_i draft _
      have hedits := (LocalStore.edits_persistDraft (s := v.store) draft id now).hint
      dsimp only
      split_ifs
      · exact hint_clearAndDismiss.trans ((hint_withDrafts _).trans hedits)
      · exact (hint_withDrafts _).trans hedits
      · rfl
  | saveAllDrafts stamps =>
    obtain rfl := Option.some_inj.mp h
    unfold saveAllDrafts
    split_ifs
    · exact hint_clearAndDismiss.trans
        (LocalStore.edits_persistDrafts (s := v.store) v.drafts stamps).hint
    · rfl
  | cancel =>
    change (if v.drafts.isEmpty then some v.clearAndDismiss else _) = some v' at h
    split_ifs at h <;> obtain rfl := Option.some_inj.mp h
    · exact hint_clearAndDismiss
    · rfl
  | continueEditing =>
    obtain rfl := Option.some_inj.mp h
    rfl
  | discard =>
    obtain rfl := Option.some_inj.mp h
    exact hint_clearAndDismiss
  | dismissAlert =>
    obtain rfl := Option.some_inj.mp h
    rfl

end VoiceStagingView

namespace RootTabsView

variable {x y : RootTabsView}

/-- The hint is counted, was not dismissed, and is down. -/
structure HintSpent (x : RootTabsView) : Prop where
  banner : x.showInsightsHintBanner = false
  showCount : x.hint.showCount = 1
  dismissCount : x.hint.dismissCount = 0

theorem HintSpent.congr (h : x.HintSpent)
    (hbanner : y.showInsightsHintBanner = x.showInsightsHintBanner) (hhint : y.hint = x.hint) :
    y.HintSpent :=
  ⟨hbanner.trans h.banner, by rw [hhint, h.showCount], by rw [hhint, h.dismissCount]⟩

theorem HintSpent.shouldShowHint (h : x.HintSpent) (now : Date) :
    x.hint.shouldShowHint now = false := by
  refine Bool.eq_false_iff.mpr fun hshow => ?_
  obtain ⟨-, hcount⟩ := (x.hint.shouldShowHint_iff now).mp hshow
  have hshown := h.showCount
  have hdismissed := h.dismissCount
  omega

theorem HintSpent.refresh (h : x.HintSpent) (now : Date) :
    (x.refreshInsightsHintBanner now).HintSpent := by
  have hshow : x.store.insightsHintState.shouldShowHint now = false := h.shouldShowHint now
  unfold refreshInsightsHintBanner
  rw [if_pos (by simp [hshow] : ¬x.store.insightsHintState.shouldShowHint now = true)]
  split_ifs <;> exact h.congr h.banner.symm rfl

/-- A change of the features does not bring a spent hint back. -/
theorem HintSpent.handle (h : x.HintSpent) (triggeredByUser : Bool) (now : Date) :
    (x.handleExperimentalVisibilityChange triggeredByUser now).HintSpent := by
  have hhidden : x.hideFeatures.HintSpent := by
    refine h.congr h.banner.symm ?_
    change (if x.store.isVoiceStagingPresented then x.store.clearVoiceStaging
      else x.store).insightsHintState = x.store.insightsHintState
    split_ifs
    · exact LocalStore.hint_saveVoiceStaging
    · rfl
  unfold handleExperimentalVisibilityChange
  dsimp only
  split_ifs
  · obtain ⟨hstore, -, -, hbanner, -⟩ := x.checkAndShowWelcome_spec
    exact (h.congr hbanner (congrArg LocalStore.insightsHintState hstore)).refresh now
  · obtain ⟨hstore, -, -, hbanner, -⟩ :=
      x.hideFeatures.transitionToDefaultListView_spec triggeredByUser
    exact hhidden.congr hbanner (congrArg LocalStore.insightsHintState hstore)
  · exact hhidden

/-- The change handlers do not bring a spent hint back. -/
theorem HintSpent.updated (h : y.HintSpent) (x : RootTabsView) (now : Date) :
    (y.updated x now).HintSpent := by
  have hpreference : (y.onChangeOfPreference x now).HintSpent := by
    unfold onChangeOfPreference
    split_ifs
    · exact h.handle false now
    · exact h
  have htab : ((y.onChangeOfPreference x now).onChangeOfTab x now).HintSpent := by
    generalize y.onChangeOfPreference x now = z at hpreference
    unfold onChangeOfTab selectedTabChanged
    split_ifs
    · refine ⟨rfl, ?_, ?_⟩
      · refine Eq.trans ?_ hpreference.showCount
        change (z.store.recordInsightsInteraction now).insightsHintState.showCount = _
        unfold LocalStore.recordInsightsInteraction
        split_ifs <;> rfl
      · refine Eq.trans ?_ hpreference.dismissCount
        change (z.store.recordInsightsInteraction now).insightsHintState.dismissCount = _
        unfold LocalStore.recordInsightsInteraction
        split_ifs <;> rfl
    · exact hpreference
    · exact hpreference
  obtain ⟨hbanner, hhint⟩ :=
    presentStaging_hint ((y.onChangeOfPreference x now).onChangeOfTab x now)
  exact htab.congr hbanner hhint

theorem HintSpent.notified (h : y.HintSpent) (x : RootTabsView) (step : StoreStep) (now : Date) :
    (y.notified x step now).HintSpent := by
  unfold RootTabsView.notified
  split
  · split_ifs
    · exact h.handle _ now
    · exact h
  · exact h

end RootTabsView

namespace RootTabsEvent

open RootTabsView

variable {foundation : VoiceFoundation} {calendar : Calendar} {x y : RootTabsView}

/-- The store takes no step that changes the state of the hint. -/
def LeavesHint (e : Date × RootTabsEvent) (x : RootTabsView) : Prop :=
  match e.2 with
  | store step => ∀ u ∈ StoreStep.step (e.1, step) x.session,
      u.store.insightsHintState = x.store.insightsHintState
  | _ => True

theorem HintSpent.parse (h : x.HintSpent) (transcript : String) (newId : ℕ → String) (now : Date) :
    (parse foundation calendar x transcript newId now).HintSpent := by
  unfold RootTabsEvent.parse
  dsimp only
  generalize VoiceTaskParser.parse foundation calendar newId (trimmed transcript)
    x.store.sortedCategories now = drafts
  split_ifs
  · exact h.congr rfl rfl
  · exact h.congr rfl LocalStore.hint_saveVoiceStaging

/-- No step that leaves the hint alone brings it back. -/
theorem hintSpent_step {e : Date × RootTabsEvent} (h : x.HintSpent) (hl : LeavesHint e x)
    (hy : step foundation calendar e x = some y) : y.HintSpent := by
  obtain ⟨z, hz, rfl⟩ := Option.map_eq_some_iff.mp hy
  refine HintSpent.updated ?_ x e.1
  obtain ⟨now, event⟩ := e
  cases event with
  | store step =>
    obtain ⟨session, hs, rfl⟩ := Option.map_eq_some_iff.mp hz
    exact (h.congr (y := { x with session := session }) rfl (hl session hs)).notified x step now
  | parseTranscript transcript newId =>
    simp only [handled] at hz
    split_ifs at hz
    rw [← Option.some_inj.mp hz]
    exact HintSpent.parse h transcript newId now
  | staging event =>
    simp only [handled] at hz
    obtain ⟨sheet, hsheet, hz⟩ := Option.bind_eq_some_iff.mp hz
    split_ifs at hz with ha
    obtain ⟨view, hview, rfl⟩ := Option.map_eq_some_iff.mp hz
    exact h.congr rfl (VoiceStagingView.hint_step hview)
  | delayedClosure index =>
    obtain ⟨closure, -, rfl⟩ := Option.map_eq_some_iff.mp hz
    cases closure <;> exact h.congr rfl rfl
  | keyboard isVisible =>
    obtain rfl := Option.some_inj.mp hz
    exact h.congr rfl rfl
  | dismissLockedInsightsMessage =>
    obtain rfl := Option.some_inj.mp hz
    exact h.congr rfl rfl
  | dismissInsightsHint =>
    simp only [handled, h.banner] at hz
    cases hz
  | _ =>
    simp only [handled] at hz
    split_ifs at hz <;> obtain rfl := Option.some_inj.mp hz <;> exact h.congr rfl rfl

/-- Outside screenshot generation, while Insights was never opened : a hint that was neither shown
nor dismissed is counted when the features are turned on by hand, and stays down, whatever
happens, until its state changes otherwise. -/
theorem hint_unseen_run {now : Date} {ls : List (Date × RootTabsEvent)} {z : RootTabsView}
    (h : x.Reached foundation calendar) (hoff : x.insightsEnabled = false)
    (hscreenshot : x.isScreenshotGenerationMode = false)
    (hinteracted : x.hint.interactedAt = none) (hcount : x.hint.showCount = 0)
    (hdismissed : x.hint.dismissCount = 0)
    (hy : step foundation calendar (enable now) x = some y)
    (hg : Runs.Guarded (step foundation calendar) LeavesHint ls y)
    (hz : Runs.run (step foundation calendar) ls y = some z) :
    z.showInsightsHintBanner = false ∧ z.hint.showCount = 1 := by
  have hshow : x.hint.shouldShowHint now = true :=
    (x.hint.shouldShowHint_iff now).mpr ⟨hinteracted, .inl hcount⟩
  have hagain : (refreshed x.hint now).shouldShowHint now = false := by
    refine Bool.eq_false_iff.mpr fun hagain => ?_
    have hdismiss := ((shouldShowHint_refreshed x.hint now).mp hagain).2.2.1
    omega
  obtain ⟨hbanner, hhint⟩ := enable_eq (gated_of_reached h) hoff hscreenshot hy
  have hhint' : y.hint = { x.hint with
      showCount := x.hint.showCount + 1, lastShownAt := some now, updatedAt := now } := by
    rw [hhint]
    unfold refreshed at hagain ⊢
    rw [if_pos hshow] at hagain ⊢
    exact if_neg (by simp [hagain])
  have hspent : y.HintSpent := by
    refine ⟨hbanner.trans hagain, ?_, ?_⟩
    · rw [hhint', hcount]
      rfl
    · rw [hhint', hdismissed]
  have hspent' := Runs.invariant_of_guarded (fun _ _ _ hx hl hs => hintSpent_step hx hl hs)
    hspent hg hz
  exact ⟨hspent'.banner, hspent'.showCount⟩

end RootTabsEvent

/-- The features are turned on, and Notes is opened. -/
theorem RootTabsEvent.hint_unseen_run_sample : ∃ z : RootTabsView,
    z.insightsEnabled = true ∧ z.selectedTab = .notes ∧
      z.showInsightsHintBanner = false ∧ z.hint.showCount = 1 := by
  generalize hx : RootTabsView.launch .sampleUnhinted true false (.seconds 0) = x
  obtain ⟨y, z, hoff, hscreenshot, hinteracted, hcount, hdismissed, hy, hz, hon, htab⟩ :
      ∃ y z, x.insightsEnabled = false ∧ x.isScreenshotGenerationMode = false ∧
        x.hint.interactedAt = none ∧ x.hint.showCount = 0 ∧ x.hint.dismissCount = 0 ∧
        step .latin (Calendar.gregorian .gmt) (RootTabsView.enable (.seconds 1)) x = some y ∧
        Runs.run (step .latin (Calendar.gregorian .gmt)) [(.seconds 2, .tabButton .notes)] y =
          some z ∧ z.insightsEnabled = true ∧ z.selectedTab = .notes := by
    rw [← hx]
    exact ⟨_, _, rfl, rfl, rfl, rfl, rfl, rfl, rfl, rfl, rfl⟩
  have hreached : x.Reached .latin (Calendar.gregorian .gmt) :=
    ⟨_, _, _, _, by rw [hx]; exact .refl x⟩
  have hg : Runs.Guarded (step .latin (Calendar.gregorian .gmt)) LeavesHint
      [(.seconds 2, .tabButton .notes)] y :=
    ⟨trivial, fun _ _ => trivial⟩
  exact ⟨z, hon, htab, hint_unseen_run hreached hoff hscreenshot hinteracted hcount hdismissed hy
    hg hz⟩

end Notelayer
