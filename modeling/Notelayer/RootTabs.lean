import Notelayer.VoiceStagingView

/-!
# The root of the app

`RootTabsView` holds the selected tab, the sheets and the banners, over the store. Insights, its
hint, voice entry and the voice preview belong to the experimental features, which the user or
another device turns on and off.

`RootTabsView.Gated` says that nothing of these features is on screen or staged while they are
off, and that the preview is on screen, with what is staged and persisted, exactly if something is.
It holds in every state that the app reaches (`RootTabsView.gated_of_reached`).
-/

namespace Notelayer

/-- The tabs of the app. -/
inductive AppTab where
  | notes
  | todos
  | insights
  deriving DecidableEq

/-- The tabs, as they are shown. -/
def AppTab.allCases : List AppTab :=
  [notes, todos, insights]

/-- The closures handed to `asyncAfter`. -/
inductive DelayedClosure where
  | showWelcome
  | hideLockedInsightsMessage
  | endGenieTransition
  deriving DecidableEq

/-- The root view with the state it shows, the store and the closures it has scheduled. -/
structure RootTabsView where
  session : Session
  selectedTab : AppTab := .todos
  showWelcome : Bool := false
  hasCheckedWelcome : Bool := false
  /-- Of the welcome coordinator, which persists it. -/
  hasSeenWelcome : Bool := false
  isKeyboardVisible : Bool := false
  showVoiceCaptureSheet : Bool := false
  /-- Of the capture sheet. -/
  parseErrorMessage : Option String := none
  showInsightsHintBanner : Bool := false
  showLockedInsightsMessage : Bool := false
  isGenieTransitionActive : Bool := false
  /-- The preview, while it is on screen. -/
  stagingSheet : Option StagingSheet := none
  delayed : List DelayedClosure := []
  isScreenshotGenerationMode : Bool := false

namespace RootTabsView

variable (x : RootTabsView)

/-- The store that the view observes. -/
def store : LocalStore :=
  x.session.store

/-- The view over another store. -/
def withStore (store : LocalStore) : RootTabsView :=
  { x with session := x.session.withStore store }

/-- `store.experimentalFeaturesEnabled`. -/
def insightsEnabled : Bool :=
  x.store.experimentalFeaturesPreference.isEnabled

/-- The tabs that are shown. -/
def visibleTabs : List AppTab :=
  if x.insightsEnabled then AppTab.allCases else AppTab.allCases.filter (· ≠ .insights)

/-- The list is shown with the features on and no keyboard. -/
def shouldShowVoiceButton : Bool :=
  x.selectedTab = .todos ∧ x.insightsEnabled ∧ ¬x.isKeyboardVisible

/-- Schedules a closure on the main queue. -/
def asyncAfter (closure : DelayedClosure) : RootTabsView :=
  { x with delayed := x.delayed ++ [closure] }

/-! ## Reactions -/

/-- Checks once whether the welcome has to be shown. -/
def checkAndShowWelcome : RootTabsView :=
  if x.hasCheckedWelcome then x
  else if ¬x.insightsEnabled then x
  else
    let x := { x with hasCheckedWelcome := true }
    if x.isScreenshotGenerationMode then { x with showWelcome := false, hasSeenWelcome := true }
    else if ¬x.hasSeenWelcome then x.asyncAfter .showWelcome
    else x

/-- Shows or hides the hint banner, and counts a showing. -/
def refreshInsightsHintBanner (now : Date) : RootTabsView :=
  if x.isScreenshotGenerationMode then { x with showInsightsHintBanner := false }
  else if ¬x.insightsEnabled then { x with showInsightsHintBanner := false }
  else if x.selectedTab = .insights then { x with showInsightsHintBanner := false }
  else if ¬x.store.insightsHintState.shouldShowHint now then
    { x with showInsightsHintBanner := false }
  else { x.withStore (x.store.markInsightsHintShown now) with showInsightsHintBanner := true }

/-- Falls back to the list tab, where a message says that Insights is locked. -/
def transitionToDefaultListView (withGenie : Bool) : RootTabsView :=
  let x := { x with showLockedInsightsMessage := true }.asyncAfter .hideLockedInsightsMessage
  let x := if withGenie then { x with isGenieTransitionActive := true } else x
  let x := { x with selectedTab := .todos }
  if withGenie then x.asyncAfter .endGenieTransition else x

/-- The banner, the capture sheet and what is staged. -/
def hideFeatures : RootTabsView :=
  let store := if x.store.isVoiceStagingPresented then x.store.clearVoiceStaging else x.store
  { x.withStore store with showInsightsHintBanner := false, showVoiceCaptureSheet := false }

/-- What the view does when the experimental features go on or off. -/
def handleExperimentalVisibilityChange (triggeredByUser : Bool) (now : Date) : RootTabsView :=
  if ¬x.insightsEnabled then
    let x := x.hideFeatures
    if x.selectedTab = .insights then x.transitionToDefaultListView triggeredByUser else x
  else x.checkAndShowWelcome.refreshInsightsHintBanner now

/-- The view of another tab comes up, analytics apart. -/
def selectedTabChanged (now : Date) : RootTabsView :=
  if x.selectedTab = .insights then
    { x.withStore (x.store.recordInsightsInteraction now) with showInsightsHintBanner := false }
  else x

/-- `onChange(of: store.experimentalFeaturesPreference)`. -/
def onChangeOfPreference (before : RootTabsView) (now : Date) : RootTabsView :=
  if x.store.experimentalFeaturesPreference ≠ before.store.experimentalFeaturesPreference then
    x.handleExperimentalVisibilityChange false now
  else x

/-- `onChange(of: selectedTab)`. -/
def onChangeOfTab (before : RootTabsView) (now : Date) : RootTabsView :=
  if x.selectedTab ≠ before.selectedTab then x.selectedTabChanged now else x

/-- The sheet of the preview, with the drafts of the store where it is new. -/
def presentStaging : RootTabsView :=
  if x.store.isVoiceStagingPresented ∧ x.insightsEnabled then
    { x with stagingSheet := some (x.stagingSheet.getD { drafts := x.store.voiceStagingDrafts }) }
  else { x with stagingSheet := none }

/-- What the view does about the changes since `before`. -/
def updated (before : RootTabsView) (now : Date) : RootTabsView :=
  ((x.onChangeOfPreference before now).onChangeOfTab before now).presentStaging

/-- `setExperimentalFeaturesEnabled` posts `experimentalFeaturesDidChange` if it changes the
value. -/
def notified (before : RootTabsView) (step : StoreStep) (now : Date) : RootTabsView :=
  match step with
  | .localOperation (.setExperimentalFeaturesEnabled _) =>
    if x.insightsEnabled ≠ before.insightsEnabled then
      x.handleExperimentalVisibilityChange (before.insightsEnabled && !x.insightsEnabled) now
    else x
  | _ => x

end RootTabsView

/-! ## Events -/

/-- What happens to the root view. -/
inductive RootTabsEvent where
  /-- A change of the store from another view, a listener or a sync. -/
  | store (step : StoreStep)
  | tabButton (tab : AppTab)
  | voiceButton
  | keyboard (isVisible : Bool)
  | dismissLockedInsightsMessage
  | dismissInsightsHint
  | openOnboarding
  | dismissWelcome
  /-- The user of the authentication service changed. -/
  | userChanged (isSignedIn : Bool)
  /-- A closure of `asyncAfter` runs. -/
  | delayedClosure (index : ℕ)
  | cancelCapture
  | parseTranscript (transcript : String) (newId : ℕ → String)
  | staging (event : VoiceStagingEvent)

namespace RootTabsEvent

variable (foundation : VoiceFoundation) (calendar : Calendar)

/-- Nothing covers the tabs. -/
def IsUncovered (x : RootTabsView) : Prop :=
  x.showWelcome = false ∧ x.showVoiceCaptureSheet = false ∧ x.stagingSheet = none

instance (x : RootTabsView) : Decidable (IsUncovered x) := by
  unfold IsUncovered
  infer_instance

/-- `parseTranscript` of the capture sheet. -/
def parse (x : RootTabsView) (transcript : String) (newId : ℕ → String) (now : Date) :
    RootTabsView :=
  let transcript := trimmed transcript
  let drafts := VoiceTaskParser.parse foundation calendar newId transcript
    x.store.sortedCategories now
  if drafts.isEmpty then
    { x with parseErrorMessage := some ("Could not parse tasks from this voice input. " ++
      "Try speaking in shorter task phrases.") }
  else
    { x.withStore (x.store.stageVoiceDrafts drafts transcript) with
      parseErrorMessage := none
      showVoiceCaptureSheet := false }

/-- The effect of a scheduled closure. -/
def runDelayed (x : RootTabsView) : DelayedClosure → RootTabsView
  | .showWelcome => { x with showWelcome := true }
  | .hideLockedInsightsMessage => { x with showLockedInsightsMessage := false }
  | .endGenieTransition => { x with isGenieTransitionActive := false }

/-- The view and the store after an event, before the view reacts. `none` is a trap, or a control
that is not there. -/
def handled (e : Date × RootTabsEvent) (x : RootTabsView) : Option RootTabsView :=
  match e.2 with
  | store step => (StoreStep.step (e.1, step) x.session).map fun session =>
      { x with session := session }.notified x step e.1
  | tabButton tab =>
    if IsUncovered x ∧ x.isKeyboardVisible = false ∧ tab ∈ x.visibleTabs then
      some { x with selectedTab := tab }
    else none
  | voiceButton =>
    if IsUncovered x ∧ x.shouldShowVoiceButton then
      some { x with
        selectedTab := .todos
        showVoiceCaptureSheet := true
        parseErrorMessage := none }
    else none
  | keyboard isVisible => some { x with isKeyboardVisible := isVisible }
  | dismissLockedInsightsMessage => some { x with showLockedInsightsMessage := false }
  | dismissInsightsHint =>
    if x.showInsightsHintBanner then
      some { x.withStore (x.store.dismissInsightsHint e.1) with showInsightsHintBanner := false }
    else none
  | openOnboarding =>
    if x.insightsEnabled then some { x with hasCheckedWelcome := true, showWelcome := true }
    else some x
  | dismissWelcome =>
    if x.showWelcome then some { x with showWelcome := false, hasSeenWelcome := true } else none
  | userChanged isSignedIn =>
    if isSignedIn ∧ x.showWelcome then
      some { x with showWelcome := false, hasSeenWelcome := true }
    else some x
  | delayedClosure index => x.delayed[index]?.map fun closure =>
      runDelayed { x with delayed := x.delayed.eraseIdx index } closure
  | cancelCapture =>
    if x.showVoiceCaptureSheet then some { x with showVoiceCaptureSheet := false } else none
  | parseTranscript transcript newId =>
    if x.showVoiceCaptureSheet ∧ trimmed transcript ≠ "" then
      some (parse foundation calendar x transcript newId e.1)
    else none
  | staging event => x.stagingSheet.bind fun sheet =>
      let view : VoiceStagingView := { sheet with store := x.store }
      if event.IsAvailable view then
        (VoiceStagingEvent.step calendar (e.1, event) view).map fun view =>
          { x.withStore view.store with stagingSheet := some view.toStagingSheet }
      else none

/-- The step function of the root view : the event, then the change handlers of the body. -/
def step (e : Date × RootTabsEvent) (x : RootTabsView) : Option RootTabsView :=
  (handled foundation calendar e x).map fun y => y.updated x e.1

end RootTabsEvent

/-- `onAppear` after a launch. The store has loaded, and migrates in a later step
(`StoreStep.migrateIfNeeded`), since `init` hands the migration to `asyncAfter`. -/
def RootTabsView.launch (userDefaults : UserDefaults)
    (hasSeenWelcome isScreenshotGenerationMode : Bool) (now : Date) : RootTabsView :=
  let x : RootTabsView := {
    session := { store := .load userDefaults }
    hasSeenWelcome := hasSeenWelcome
    isScreenshotGenerationMode := isScreenshotGenerationMode }
  ((x.handleExperimentalVisibilityChange false now).checkAndShowWelcome).presentStaging

/-! ## What is gated -/

namespace LocalStore

variable {s s' : LocalStore}

/-- Fields that have no part in what is staged. -/
theorem staging_recordInsightsInteraction (now : Date) :
    (s.recordInsightsInteraction now).staging = s.staging := by
  unfold recordInsightsInteraction
  split_ifs <;> rfl

theorem preference_of_staging (h : s'.staging = s.staging) :
    s'.experimentalFeaturesPreference = s.experimentalFeaturesPreference :=
  congrArg (fun t => t.2.2) h

theorem clear_of_staged (h : s.Staged) :
    (if s.isVoiceStagingPresented then s.clearVoiceStaging else s).Staged ∧
      (if s.isVoiceStagingPresented then s.clearVoiceStaging else s).voiceStagingDrafts = [] := by
  split_ifs with hpresented
  · refine ⟨staged_clearVoiceStaging, ?_⟩
    rw [clearVoiceStaging, voiceStagingDrafts_saveVoiceStaging]
  · refine ⟨h, ?_⟩
    simpa [h.presented] using hpresented

end LocalStore

namespace RootTabsView

variable {x y : RootTabsView}

/-- What is staged is persisted, the preview has it, and the capture sheet is gone. -/
structure Coherent (x : RootTabsView) : Prop where
  staged : x.store.Staged
  sheet : ∀ sheet ∈ x.stagingSheet, x.store.voiceStagingDrafts ≠ [] →
    sheet.drafts = x.store.voiceStagingDrafts
  capture : x.showVoiceCaptureSheet = true → x.store.voiceStagingDrafts = []

/-- What belongs to the experimental features is there only while they are on. -/
structure Gates (x : RootTabsView) : Prop where
  staged : x.store.voiceStagingDrafts ≠ [] → x.insightsEnabled = true
  capture : x.showVoiceCaptureSheet = true → x.insightsEnabled = true
  banner : x.showInsightsHintBanner = true → x.insightsEnabled = true
  tab : x.selectedTab = .insights → x.insightsEnabled = true

/-- The hint is not shown over Insights. -/
def HintElsewhere (x : RootTabsView) : Prop :=
  x.showInsightsHintBanner = true → x.selectedTab ≠ .insights

/-- Nothing of the experimental features is on screen or staged while they are off, and the preview
is on screen exactly if something is staged, with what is staged and persisted. -/
structure Gated (x : RootTabsView) : Prop where
  gates : x.Gates
  hint : x.HintElsewhere
  capture : x.showVoiceCaptureSheet = true → x.store.voiceStagingDrafts = []
  staged : x.store.Staged
  sheet : x.stagingSheet.map StagingSheet.drafts =
    if x.store.voiceStagingDrafts = [] then none else some x.store.voiceStagingDrafts

theorem Gated.coherent (h : x.Gated) : x.Coherent := by
  refine ⟨h.staged, fun sheet hsheet hne => ?_, h.capture⟩
  have hmap := h.sheet
  rw [hsheet, if_neg hne] at hmap
  exact Option.some_inj.mp hmap

/-- The store changed in nothing that matters here, and neither did the sheets. -/
theorem Coherent.congr (h : x.Coherent) (hstore : y.store.staging = x.store.staging)
    (hsheet : y.stagingSheet = x.stagingSheet)
    (hcapture : y.showVoiceCaptureSheet = true → x.showVoiceCaptureSheet = true) : y.Coherent := by
  have hdrafts := LocalStore.drafts_of_staging hstore
  refine ⟨h.staged.of_staging hstore, ?_, fun hy => ?_⟩
  · rw [hsheet, hdrafts]
    exact h.sheet
  · rw [hdrafts]
    exact h.capture (hcapture hy)

/-! ### Reactions -/

/-- The welcome has no part in the features. -/
theorem checkAndShowWelcome_spec : x.checkAndShowWelcome.store = x.store ∧
    x.checkAndShowWelcome.stagingSheet = x.stagingSheet ∧
    x.checkAndShowWelcome.showVoiceCaptureSheet = x.showVoiceCaptureSheet ∧
    x.checkAndShowWelcome.showInsightsHintBanner = x.showInsightsHintBanner ∧
    x.checkAndShowWelcome.selectedTab = x.selectedTab := by
  unfold checkAndShowWelcome
  dsimp only
  split_ifs <;> exact ⟨rfl, rfl, rfl, rfl, rfl⟩

/-- A refresh of the banner touches nothing that is staged. -/
theorem refreshInsightsHintBanner_spec (now : Date) :
    (x.refreshInsightsHintBanner now).store.staging = x.store.staging ∧
    (x.refreshInsightsHintBanner now).stagingSheet = x.stagingSheet ∧
    (x.refreshInsightsHintBanner now).showVoiceCaptureSheet = x.showVoiceCaptureSheet ∧
    (x.refreshInsightsHintBanner now).selectedTab = x.selectedTab ∧
    (x.refreshInsightsHintBanner now).HintElsewhere := by
  unfold refreshInsightsHintBanner HintElsewhere
  split_ifs with _ _ htab
  · exact ⟨rfl, rfl, rfl, rfl, by simp⟩
  · exact ⟨rfl, rfl, rfl, rfl, by simp⟩
  · exact ⟨rfl, rfl, rfl, rfl, fun _ => htab⟩
  · exact ⟨rfl, rfl, rfl, rfl, by simp⟩
  · exact ⟨rfl, rfl, rfl, rfl, by simp⟩

theorem transitionToDefaultListView_spec (withGenie : Bool) :
    (x.transitionToDefaultListView withGenie).store = x.store ∧
    (x.transitionToDefaultListView withGenie).stagingSheet = x.stagingSheet ∧
    (x.transitionToDefaultListView withGenie).showVoiceCaptureSheet = x.showVoiceCaptureSheet ∧
    (x.transitionToDefaultListView withGenie).showInsightsHintBanner = x.showInsightsHintBanner ∧
    (x.transitionToDefaultListView withGenie).selectedTab = .todos := by
  unfold transitionToDefaultListView
  cases withGenie <;> exact ⟨rfl, rfl, rfl, rfl, rfl⟩

theorem insightsEnabled_of_staging (h : y.store.staging = x.store.staging) :
    y.insightsEnabled = x.insightsEnabled :=
  congrArg ExperimentalFeaturePreference.isEnabled (LocalStore.preference_of_staging h)

/-- Turned off, the features are taken off the screen. -/
theorem Coherent.handle_off (h : x.Coherent) (hoff : x.insightsEnabled = false)
    (triggeredByUser : Bool) (now : Date) :
    let y := x.handleExperimentalVisibilityChange triggeredByUser now
    y.store.Staged ∧ y.store.voiceStagingDrafts = [] ∧ y.showVoiceCaptureSheet = false ∧
      y.showInsightsHintBanner = false ∧ y.selectedTab ≠ .insights := by
  obtain ⟨hstaged, hdrafts⟩ := LocalStore.clear_of_staged h.staged
  have hhidden : x.hideFeatures.store =
      if x.store.isVoiceStagingPresented then x.store.clearVoiceStaging else x.store := rfl
  rw [← hhidden] at hstaged hdrafts
  obtain ⟨hstore, -, hcapture, hbanner, htab⟩ :=
    x.hideFeatures.transitionToDefaultListView_spec triggeredByUser
  unfold handleExperimentalVisibilityChange
  rw [if_pos (by simp [hoff])]
  dsimp only
  split_ifs with hinsights
  · rw [hstore, hcapture, hbanner, htab]
    exact ⟨hstaged, hdrafts, rfl, rfl, by simp⟩
  · exact ⟨hstaged, hdrafts, rfl, rfl, hinsights⟩

/-- Turned on, only the welcome and the hint react. -/
theorem handle_on (hon : x.insightsEnabled = true) (triggeredByUser : Bool) (now : Date) :
    let y := x.handleExperimentalVisibilityChange triggeredByUser now
    y.store.staging = x.store.staging ∧ y.stagingSheet = x.stagingSheet ∧
      y.showVoiceCaptureSheet = x.showVoiceCaptureSheet ∧ y.selectedTab = x.selectedTab ∧
      y.HintElsewhere := by
  obtain ⟨hstore, hsheet, hcapture, -, htab⟩ := x.checkAndShowWelcome_spec
  obtain ⟨hstore', hsheet', hcapture', htab', hhint⟩ :=
    x.checkAndShowWelcome.refreshInsightsHintBanner_spec now
  unfold handleExperimentalVisibilityChange
  rw [if_neg (by simp [hon])]
  exact ⟨hstore'.trans (congrArg _ hstore), hsheet'.trans hsheet, hcapture'.trans hcapture,
    htab'.trans htab, hhint⟩

theorem stagingSheet_handle (triggeredByUser : Bool) (now : Date) :
    (x.handleExperimentalVisibilityChange triggeredByUser now).stagingSheet = x.stagingSheet := by
  by_cases hon : x.insightsEnabled = true
  · exact (handle_on hon triggeredByUser now).2.1
  · unfold handleExperimentalVisibilityChange
    rw [if_pos hon]
    dsimp only
    split_ifs
    · exact (x.hideFeatures.transitionToDefaultListView_spec triggeredByUser).2.1
    · rfl

/-- The handler closes what is not allowed. -/
theorem Coherent.handle (h : x.Coherent) (triggeredByUser : Bool) (now : Date) :
    let y := x.handleExperimentalVisibilityChange triggeredByUser now
    y.Coherent ∧ y.Gates ∧ y.HintElsewhere := by
  intro y
  by_cases hon : x.insightsEnabled = true
  · obtain ⟨hstore, hsheet, hcapture, htab, hhint⟩ := handle_on hon triggeredByUser now
    have hony : y.insightsEnabled = true := (insightsEnabled_of_staging hstore).trans hon
    refine ⟨h.congr hstore hsheet hcapture.symm.trans, ?_, hhint⟩
    exact ⟨fun _ => hony, fun _ => hony, fun _ => hony, fun _ => hony⟩
  · obtain ⟨hstaged, hdrafts, hcapture, hbanner, htab⟩ :=
      h.handle_off (Bool.eq_false_of_not_eq_true hon) triggeredByUser now
    refine ⟨⟨hstaged, fun sheet _ hne => absurd hdrafts hne, fun _ => hdrafts⟩, ?_, ?_⟩
    · refine ⟨fun hne => absurd hdrafts hne, fun hy => ?_, fun hy => ?_, fun hy => absurd hy htab⟩
      · exact absurd (hcapture.symm.trans hy) Bool.false_ne_true
      · exact absurd (hbanner.symm.trans hy) Bool.false_ne_true
    · exact fun _ => htab

/-- The change of the tab keeps the view coherent and gated. -/
theorem Coherent.selectedTabChanged (h : x.Coherent) (hg : x.Gates) (now : Date) :
    (x.selectedTabChanged now).Coherent ∧ (x.selectedTabChanged now).Gates ∧
      (x.selectedTabChanged now).HintElsewhere := by
  unfold RootTabsView.selectedTabChanged
  split_ifs with htab
  · have hstaging := LocalStore.staging_recordInsightsInteraction (s := x.store) now
    refine ⟨h.congr hstaging rfl id, ?_, fun hy => absurd hy Bool.false_ne_true⟩
    have hon := hg.tab htab
    have hony := (insightsEnabled_of_staging (x := x) (y := { x.withStore
      (x.store.recordInsightsInteraction now) with showInsightsHintBanner := false })
      hstaging).trans hon
    exact ⟨fun _ => hony, fun _ => hony, fun _ => hony, fun _ => hony⟩
  · exact ⟨h, hg, fun _ => htab⟩

/-- The preview comes up with what is staged. -/
theorem Coherent.presentStaging (h : x.Coherent) (hg : x.Gates) (hhint : x.HintElsewhere) :
    x.presentStaging.Gated := by
  unfold RootTabsView.presentStaging
  have hpresented := h.staged.presented
  split_ifs with hshown
  · have hne : x.store.voiceStagingDrafts ≠ [] := by
      simpa [hpresented] using hshown.1
    refine ⟨⟨hg.staged, hg.capture, hg.banner, hg.tab⟩, hhint, h.capture, h.staged, ?_⟩
    change _ = if x.store.voiceStagingDrafts = [] then none else some x.store.voiceStagingDrafts
    rw [if_neg hne]
    cases hsheet : x.stagingSheet with
    | none => rfl
    | some sheet => exact congrArg some (h.sheet sheet hsheet hne)
  · have hnil : x.store.voiceStagingDrafts = [] := by
      by_contra hne
      exact hshown ⟨by simpa [hpresented] using hne, hg.staged hne⟩
    refine ⟨⟨hg.staged, hg.capture, hg.banner, hg.tab⟩, hhint, h.capture, h.staged, ?_⟩
    change none = if x.store.voiceStagingDrafts = [] then none else some x.store.voiceStagingDrafts
    rw [if_pos hnil]

/-- What was not allowed before is closed if the preference changed, and the hint if the tab did. -/
theorem Coherent.updated {now : Date} (h : y.Coherent)
    (hg : y.store.experimentalFeaturesPreference = x.store.experimentalFeaturesPreference →
      y.Gates)
    (hhint : y.selectedTab = x.selectedTab → y.HintElsewhere) :
    (y.updated x now).Gated := by
  obtain ⟨hcoherent, hgates, hhintz⟩ : (y.onChangeOfPreference x now).Coherent ∧
      (y.onChangeOfPreference x now).Gates ∧
      ((y.onChangeOfPreference x now).selectedTab = x.selectedTab →
        (y.onChangeOfPreference x now).HintElsewhere) := by
    unfold onChangeOfPreference
    split_ifs with hchanged
    · obtain ⟨hc, hgates, hhint'⟩ := h.handle false now
      exact ⟨hc, hgates, fun _ => hhint'⟩
    · exact ⟨h, hg (not_not.mp hchanged), hhint⟩
  unfold RootTabsView.updated onChangeOfTab
  split_ifs with htab
  · obtain ⟨hc, hgates', hhint'⟩ := hcoherent.selectedTabChanged hgates now
    exact hc.presentStaging hgates' hhint'
  · exact hcoherent.presentStaging hgates (hhintz (not_not.mp htab))

end RootTabsView

/-! ### Steps of the store -/

namespace LocalStore

variable {s s' : LocalStore}

theorem staging_applyRemoteUpdate {updates : LocalStore → Option LocalStore}
    (hupdates : ∀ s₁ s₂, updates s₁ = some s₂ → s₁.Edits s₂)
    (hs : s.applyRemoteUpdate updates = some s') : s'.staging = s.staging := by
  obtain ⟨s₂, hs₂, rfl⟩ := Option.map_eq_some_iff.mp hs
  exact (hupdates _ _ hs₂).staging

/-- The drafts do not change, or all go with the features. -/
structure KeepsStaged (s s' : LocalStore) : Prop where
  staged : s'.Staged
  drafts : s'.voiceStagingDrafts = s.voiceStagingDrafts ∨ s'.voiceStagingDrafts = [] ∧
    s'.experimentalFeaturesPreference.isEnabled = false

theorem Staged.keepsStaged (h : s.Staged) (hs : s'.staging = s.staging) : s.KeepsStaged s' :=
  ⟨h.of_staging hs, .inl (drafts_of_staging hs)⟩

/-- The preference has no part in what is staged. -/
theorem Staged.keepsStaged_of_eq (h : s.Staged)
    (hs : s'.voiceStagingDrafts = s.voiceStagingDrafts ∧
      s'.voiceSourceTranscript = s.voiceSourceTranscript ∧
      s'.isVoiceStagingPresented = s.isVoiceStagingPresented ∧
      s'.userDefaults.voiceStagingDrafts = s.userDefaults.voiceStagingDrafts ∧
      s'.userDefaults.voiceSourceTranscript = s.userDefaults.voiceSourceTranscript) :
    s.KeepsStaged s' := by
  obtain ⟨hdrafts, htranscript, hpresented, hsaved, hsaved'⟩ := hs
  refine ⟨⟨by rw [hsaved, hdrafts, h.drafts], fun hne => ?_, by
    rw [hpresented, hdrafts, h.presented]⟩, .inl hdrafts⟩
  rw [hdrafts] at hne
  rw [hsaved', htranscript, h.transcript hne]

/-- A reset keeps what is staged. -/
theorem keepsStaged_resetForNewUser (hs : s.resetForNewUser = some s') : s.KeepsStaged s' := by
  unfold resetForNewUser applyRemoteUpdate at hs
  obtain ⟨s₂, hs₂, rfl⟩ := Option.map_eq_some_iff.mp hs
  have hstaging := (Edits.refl.migrateIfNeeded hs₂).staging
  have hreset : ({ s₂ with suppressBackendWrites := false } : LocalStore).staging =
      (([], "", false), (none, none), .default) := hstaging
  simp only [LocalStore.staging, Prod.mk.injEq] at hreset
  obtain ⟨⟨hdrafts, htranscript, hpresented⟩, ⟨hsaved, hsaved'⟩, hpreference⟩ := hreset
  refine ⟨⟨?_, fun hne => absurd hdrafts hne, ?_⟩, .inr ⟨hdrafts, ?_⟩⟩
  · rw [hsaved, hdrafts]
    rfl
  · rw [hpresented, hdrafts]
    rfl
  · rw [hpreference]
    rfl

/-- What is loaded is what is persisted. -/
theorem staged_reload (s : LocalStore) : s.reload.Staged := by
  refine ⟨rfl, fun _ => rfl, ?_⟩
  change decide (¬(s.userDefaults.voiceStagingDrafts.getD []).isEmpty) =
    !(s.userDefaults.voiceStagingDrafts.getD []).isEmpty
  cases s.userDefaults.voiceStagingDrafts.getD [] <;> rfl

/-- A handler keeps what is staged. -/
theorem Staged.keepsStaged_handle (h : s.Staged) {snapshot : Snapshot}
    {push : Option MetadataWrite} (hs : snapshot.handle s = some (s', push)) :
    s.KeepsStaged s' := by
  cases snapshot with
  | notes notes =>
    obtain ⟨rfl, -⟩ := Prod.mk.inj (Option.some_inj.mp hs)
    exact h.keepsStaged rfl
  | tasks tasks =>
    obtain ⟨s₁, hs₁, heq⟩ := Option.map_eq_some_iff.mp hs
    obtain ⟨rfl, -⟩ := Prod.mk.inj heq
    refine h.keepsStaged (staging_applyRemoteUpdate (fun s₂ s₃ hs₃ => ?_) hs₁)
    obtain ⟨sanitizedTasks, -, rfl⟩ := Option.map_eq_some_iff.mp hs₃
    exact (Edits.refl.tasks sanitizedTasks).spawn rfl
  | categories categories =>
    obtain ⟨s₁, hs₁, heq⟩ := Option.map_eq_some_iff.mp hs
    obtain ⟨rfl, -⟩ := Prod.mk.inj heq
    refine h.keepsStaged (staging_applyRemoteUpdate (fun s₂ s₃ hs₃ => ?_) hs₁)
    exact (Edits.refl.categories (sortedByCategorySort categories)).migrateIfNeeded hs₃
  | categoryGroupMetadata position =>
    cases position with
    | none =>
      obtain ⟨rfl, -⟩ := Prod.mk.inj (Option.some_inj.mp hs)
      exact h.keepsStaged rfl
    | some position =>
      obtain ⟨rfl, -⟩ := Prod.mk.inj (Option.some_inj.mp hs)
      exact h.keepsStaged rfl
  | experimentalFeatureMetadata remoteEnabled remoteUpdatedAt =>
    obtain ⟨rfl, -⟩ := Prod.mk.inj (Option.some_inj.mp hs)
    exact h.keepsStaged_of_eq ⟨rfl, rfl, rfl, rfl, rfl⟩
  | insightsHintMetadata remoteState =>
    obtain ⟨rfl, -⟩ := Prod.mk.inj (Option.some_inj.mp hs)
    exact h.keepsStaged_of_eq ⟨rfl, rfl, rfl, rfl, rfl⟩

end LocalStore

namespace StoreStep

open LocalStore

/-- No step of the store stages a draft, and only a reset takes the staged ones away. -/
theorem keepsStaged_step {e : Date × StoreStep} {u u' : Session} (h : u.store.Staged)
    (hu : step e u = some u') : u.store.KeepsStaged u'.store := by
  obtain ⟨now, l⟩ := e
  cases l with
  | localOperation operation =>
    rcases Bool.eq_false_or_eq_true operation.isMetadata with hm | hm
    · cases operation with
      | setExperimentalFeaturesEnabled enabled =>
        obtain rfl := Option.some_inj.mp hu
        change u.store.KeepsStaged (u.store.setExperimentalFeaturesEnabled enabled now)
        unfold setExperimentalFeaturesEnabled
        split_ifs
        · exact h.keepsStaged rfl
        · exact h.keepsStaged_of_eq ⟨rfl, rfl, rfl, rfl, rfl⟩
      | markInsightsHintShown =>
        obtain rfl := Option.some_inj.mp hu
        exact h.keepsStaged rfl
      | dismissInsightsHint =>
        obtain rfl := Option.some_inj.mp hu
        exact h.keepsStaged rfl
      | recordInsightsInteraction =>
        obtain rfl := Option.some_inj.mp hu
        exact h.keepsStaged (staging_recordInsightsInteraction now)
      | _ => cases hm
    · exact h.keepsStaged (LocalOperation.edits_step (e := (now, operation)) hm hu).staging
  | finishSetReminder index task date notificationId =>
    obtain ⟨s', hs', rfl⟩ := Option.map_eq_some_iff.mp hu
    obtain ⟨s₁, hs₁, rfl⟩ := Option.map_eq_some_iff.mp hs'
    exact h.keepsStaged
      ((((edits_assignTask hs₁).logEvent _ _).logEvent _ _).spawnSync fun _ => rfl).staging
  | finishRemoveReminder index task =>
    obtain ⟨s', hs', rfl⟩ := Option.map_eq_some_iff.mp hu
    obtain ⟨s₁, hs₁, rfl⟩ := Option.map_eq_some_iff.mp hs'
    exact h.keepsStaged
      ((((edits_assignTask hs₁).logEvent _ _).logEvent _ _).spawnSync fun _ => rfl).staging
  | deliver snapshot =>
    obtain ⟨⟨s', push⟩, hs', rfl⟩ := Option.map_eq_some_iff.mp hu
    exact h.keepsStaged_handle hs'
  | applyRemoteSnapshot notes tasks categories =>
    obtain ⟨s', hs', rfl⟩ := Option.map_eq_some_iff.mp hu
    refine h.keepsStaged (staging_applyRemoteUpdate (fun s₁ s₂ hs₂ => ?_) hs')
    obtain ⟨sanitizedTasks, -, hs₂⟩ := Option.bind_eq_some_iff.mp hs₂
    exact (((Edits.refl.notes notes).tasks sanitizedTasks).categories
      (sortedByCategorySort categories)).migrateIfNeeded hs₂
  | beginExperimentalReconciliation =>
    obtain rfl := Option.some_inj.mp hu
    exact h.keepsStaged_of_eq ⟨rfl, rfl, rfl, rfl, rfl⟩
  | resetForNewUser =>
    change u.store.resetForNewUser.map u.withStore = some u' at hu
    obtain ⟨s', hs', rfl⟩ := Option.map_eq_some_iff.mp hu
    exact keepsStaged_resetForNewUser hs'
  | attachBackend backend =>
    obtain rfl := Option.some_inj.mp hu
    exact h.keepsStaged rfl
  | updateBackendUserId userId =>
    obtain rfl := Option.some_inj.mp hu
    exact h.keepsStaged rfl
  | migrateIfNeeded =>
    obtain ⟨s', hs', rfl⟩ := Option.map_eq_some_iff.mp hu
    exact h.keepsStaged (Edits.refl.migrateIfNeeded hs').staging
  | load =>
    obtain rfl := Option.some_inj.mp hu
    exact ⟨staged_reload u.store, .inl h.drafts⟩

end StoreStep

/-! ## Runs -/

namespace RootTabsView

variable {x y : RootTabsView}

/-- The store and the sheets that matter stay as they are. -/
theorem Gated.updated {now : Date} (h : x.Gated) (hstore : y.store.staging = x.store.staging)
    (hsheet : y.stagingSheet = x.stagingSheet)
    (hcapture : y.showVoiceCaptureSheet = true →
      x.showVoiceCaptureSheet = true ∨ x.insightsEnabled = true ∧ x.store.voiceStagingDrafts = [])
    (hbanner : y.showInsightsHintBanner = true → x.showInsightsHintBanner = true)
    (htab : y.selectedTab = .insights → x.insightsEnabled = true) :
    (y.updated x now).Gated := by
  have hon := insightsEnabled_of_staging hstore
  have hdrafts := LocalStore.drafts_of_staging hstore
  refine Coherent.updated ⟨h.staged.of_staging hstore, ?_, fun hy => ?_⟩ (fun _ => ?_)
    (fun hsame hy => ?_)
  · rw [hsheet, hdrafts]
    exact h.coherent.sheet
  · rw [hdrafts]
    exact (hcapture hy).elim h.capture And.right
  · refine ⟨?_, fun hy => ?_, fun hy => ?_, fun hy => ?_⟩
    · rw [hdrafts, hon]
      exact h.gates.staged
    · rw [hon]
      exact (hcapture hy).elim h.gates.capture And.left
    · rw [hon]
      exact h.gates.banner (hbanner hy)
    · rw [hon]
      exact htab hy
  · rw [hsame]
    exact h.hint (hbanner hy)

theorem mem_visibleTabs {tab : AppTab} (h : tab ∈ x.visibleTabs) (htab : tab = .insights) :
    x.insightsEnabled = true := by
  unfold visibleTabs at h
  split_ifs at h with hon
  · exact hon
  · simp [htab] at h

/-- The store takes a step. -/
theorem Gated.notified (h : x.Gated) {e : Date × StoreStep} {session : Session}
    (hs : StoreStep.step e x.session = some session) (now : Date) :
    ((({ x with session := session } : RootTabsView).notified x e.2 now).updated x now).Gated := by
  have hkeeps : x.store.KeepsStaged session.store := StoreStep.keepsStaged_step h.staged hs
  generalize hy : ({ x with session := session } : RootTabsView) = y
  have hstore : y.store = session.store := by rw [← hy]; rfl
  have hcoherent : y.Coherent := by
    rw [← hstore] at hkeeps
    refine ⟨hkeeps.staged, fun sheet hsheet hne => ?_, fun hcapture => ?_⟩
    · have hx : sheet ∈ x.stagingSheet := by rw [← hy] at hsheet; exact hsheet
      rcases hkeeps.drafts with heq | ⟨hnil, -⟩
      · rw [heq] at hne ⊢
        exact h.coherent.sheet sheet hx hne
      · exact absurd hnil hne
    · have hx : x.showVoiceCaptureSheet = true := by rw [← hy] at hcapture; exact hcapture
      rcases hkeeps.drafts with heq | ⟨hnil, -⟩
      · rw [heq, h.capture hx]
      · exact hnil
  have hsame : y.store.experimentalFeaturesPreference = x.store.experimentalFeaturesPreference →
      y.Gates := by
    intro hpreference
    have hon : y.insightsEnabled = x.insightsEnabled :=
      congrArg ExperimentalFeaturePreference.isEnabled hpreference
    rw [← hstore] at hkeeps
    refine ⟨fun hne => ?_, fun hcapture => ?_, fun hbanner => ?_, fun htab => ?_⟩
    · rcases hkeeps.drafts with heq | ⟨hnil, -⟩
      · rw [hon]
        exact h.gates.staged (heq ▸ hne)
      · exact absurd hnil hne
    · rw [hon]
      rw [← hy] at hcapture
      exact h.gates.capture hcapture
    · rw [hon]
      rw [← hy] at hbanner
      exact h.gates.banner hbanner
    · rw [hon]
      rw [← hy] at htab
      exact h.gates.tab htab
  have hhint : y.selectedTab = x.selectedTab → y.HintElsewhere := by
    intro _
    rw [← hy]
    exact h.hint
  unfold RootTabsView.notified
  split
  · split_ifs
    · obtain ⟨hc, hg, hhint'⟩ := hcoherent.handle (x.insightsEnabled && !y.insightsEnabled) now
      exact hc.updated (fun _ => hg) fun _ => hhint'
    · exact hcoherent.updated hsame hhint
  · exact hcoherent.updated hsame hhint

end RootTabsView

namespace RootTabsEvent

open RootTabsView

variable {foundation : VoiceFoundation} {calendar : Calendar} {x y : RootTabsView}

/-- Parsing stages drafts, which the view presents where the features are on. -/
theorem gated_parse (h : x.Gated) (hcapture : x.showVoiceCaptureSheet = true)
    (transcript : String) (newId : ℕ → String) (now : Date) :
    ((parse foundation calendar x transcript newId now).updated x now).Gated := by
  unfold parse
  dsimp only
  split_ifs
  · exact h.updated rfl rfl .inl id h.gates.tab
  · generalize VoiceTaskParser.parse foundation calendar newId (trimmed transcript)
      x.store.sortedCategories now = drafts
    have hadds := x.store.adds_stageVoiceDrafts drafts (trimmed transcript)
    have hnone : x.stagingSheet = none := by
      have hsheet := h.sheet
      rw [if_pos (h.capture hcapture)] at hsheet
      simpa using hsheet
    have hon :
        (x.store.stageVoiceDrafts drafts
          (trimmed transcript)).experimentalFeaturesPreference.isEnabled = true := by
      rw [hadds.preference]
      exact h.gates.capture hcapture
    refine Coherent.updated ⟨LocalStore.staged_stageVoiceDrafts _ _, fun sheet hsheet => ?_,
      fun hy => absurd hy Bool.false_ne_true⟩ (fun _ => ?_) fun _ => h.hint
    · exact absurd (hnone.symm.trans hsheet) nofun
    · exact ⟨fun _ => hon, fun _ => hon, fun _ => hon, fun _ => hon⟩

/-- An event of the preview, which is on screen. -/
theorem leads_staging (h : x.Gated) {sheet : StagingSheet} (hsheet : x.stagingSheet = some sheet)
    {event : VoiceStagingEvent} {now : Date} {view : VoiceStagingView}
    (ha : event.IsAvailable { sheet with store := x.store })
    (hv : VoiceStagingEvent.step calendar (now, event) { sheet with store := x.store } =
      some view) :
    VoiceStagingView.Leads { sheet with store := x.store }
      (VoiceStagingEvent.moves (now, event) { sheet with store := x.store })
      (VoiceStagingEvent.madeTasks (now, event) { sheet with store := x.store }) view := by
  have hmap := h.sheet
  rw [hsheet] at hmap
  split_ifs at hmap
  · cases hmap
  refine VoiceStagingEvent.leads_step (e := (now, event)) ⟨h.staged, ?_⟩ ha hv
  exact Option.some_inj.mp hmap

/-- Every event keeps the gates. -/
theorem gated_step {e : Date × RootTabsEvent} (h : x.Gated)
    (hy : step foundation calendar e x = some y) : y.Gated := by
  obtain ⟨now, event⟩ := e
  obtain ⟨z, hz, rfl⟩ := Option.map_eq_some_iff.mp hy
  cases event with
  | store step =>
    obtain ⟨session, hs, rfl⟩ := Option.map_eq_some_iff.mp hz
    exact h.notified (e := (now, step)) hs now
  | tabButton tab =>
    simp only [handled] at hz
    split_ifs at hz with hguard
    obtain rfl := Option.some_inj.mp hz
    exact h.updated rfl rfl .inl id (mem_visibleTabs hguard.2.2)
  | voiceButton =>
    simp only [handled] at hz
    split_ifs at hz with hguard
    obtain rfl := Option.some_inj.mp hz
    have hsheet := h.sheet
    rw [hguard.1.2.2] at hsheet
    have hnil : x.store.voiceStagingDrafts = [] := by
      by_contra hne
      rw [if_neg hne] at hsheet
      cases hsheet
    have hon : x.insightsEnabled = true := by
      have hbutton := hguard.2
      simp only [shouldShowVoiceButton, decide_eq_true_eq] at hbutton
      exact hbutton.2.1
    refine h.updated rfl rfl (fun _ => .inr ⟨hon, hnil⟩) id fun htab => ?_
    cases htab
  | keyboard isVisible =>
    obtain rfl := Option.some_inj.mp hz
    exact h.updated rfl rfl .inl id h.gates.tab
  | dismissLockedInsightsMessage =>
    obtain rfl := Option.some_inj.mp hz
    exact h.updated rfl rfl .inl id h.gates.tab
  | dismissInsightsHint =>
    simp only [handled] at hz
    split_ifs at hz with hbanner
    obtain rfl := Option.some_inj.mp hz
    exact h.updated rfl rfl .inl (fun _ => hbanner) h.gates.tab
  | openOnboarding =>
    simp only [handled] at hz
    split_ifs at hz <;> obtain rfl := Option.some_inj.mp hz
    · exact h.updated rfl rfl .inl id h.gates.tab
    · exact h.updated rfl rfl .inl id h.gates.tab
  | dismissWelcome =>
    simp only [handled] at hz
    split_ifs at hz
    obtain rfl := Option.some_inj.mp hz
    exact h.updated rfl rfl .inl id h.gates.tab
  | userChanged isSignedIn =>
    simp only [handled] at hz
    split_ifs at hz <;> obtain rfl := Option.some_inj.mp hz
    · exact h.updated rfl rfl .inl id h.gates.tab
    · exact h.updated rfl rfl .inl id h.gates.tab
  | delayedClosure index =>
    obtain ⟨closure, -, rfl⟩ := Option.map_eq_some_iff.mp hz
    cases closure with
    | showWelcome => exact h.updated rfl rfl .inl id h.gates.tab
    | hideLockedInsightsMessage => exact h.updated rfl rfl .inl id h.gates.tab
    | endGenieTransition => exact h.updated rfl rfl .inl id h.gates.tab
  | cancelCapture =>
    simp only [handled] at hz
    split_ifs at hz
    obtain rfl := Option.some_inj.mp hz
    exact h.updated rfl rfl nofun id h.gates.tab
  | parseTranscript transcript newId =>
    simp only [handled] at hz
    split_ifs at hz with hguard
    obtain rfl := Option.some_inj.mp hz
    exact gated_parse h hguard.1 transcript newId now
  | staging event =>
    simp only [handled] at hz
    obtain ⟨sheet, hsheet, hz⟩ := Option.bind_eq_some_iff.mp hz
    split_ifs at hz with ha
    obtain ⟨view, hview, rfl⟩ := Option.map_eq_some_iff.mp hz
    have hleads := leads_staging h hsheet ha hview
    have hon : view.store.experimentalFeaturesPreference.isEnabled = x.insightsEnabled :=
      congrArg ExperimentalFeaturePreference.isEnabled hleads.adds.preference
    have hne : x.store.voiceStagingDrafts ≠ [] := by
      intro hnil
      have hmap := h.sheet
      rw [hsheet, if_pos hnil] at hmap
      cases hmap
    have hon' : view.store.experimentalFeaturesPreference.isEnabled = true :=
      hon.trans (h.gates.staged hne)
    refine Coherent.updated ⟨hleads.staged, fun sheet' hsheet' hne' => ?_, fun hcapture => ?_⟩
      (fun _ => ⟨fun _ => hon', fun _ => hon', fun _ => hon', fun _ => hon'⟩) fun _ => h.hint
    · obtain rfl := Option.some_inj.mp hsheet'
      exact hleads.drafts hne'
    · exact absurd (h.capture hcapture) hne

theorem gated_run {ls : List (Date × RootTabsEvent)} (h : x.Gated)
    (hr : Runs.run (step foundation calendar) ls x = some y) : y.Gated :=
  Runs.invariant_of_run (fun _ _ _ hx hs => gated_step hx hs) h hr

end RootTabsEvent

namespace RootTabsView

/-- Some run from a launch leads to the state. -/
def Reached (foundation : VoiceFoundation) (calendar : Calendar) (x : RootTabsView) : Prop :=
  ∃ userDefaults hasSeenWelcome isScreenshotGenerationMode now,
    Runs.Reaches (RootTabsEvent.step foundation calendar)
      (launch userDefaults hasSeenWelcome isScreenshotGenerationMode now) x

/-- A launch puts the preview up, or drops what was staged if the features are off. -/
theorem gated_launch (userDefaults : UserDefaults)
    (hasSeenWelcome isScreenshotGenerationMode : Bool) (now : Date) :
    (launch userDefaults hasSeenWelcome isScreenshotGenerationMode now).Gated := by
  have hstaged := LocalStore.staged_reload { userDefaults := userDefaults }
  rw [← LocalStore.load_eq_reload] at hstaged
  unfold launch
  generalize hx : ({
      session := { store := .load userDefaults }
      hasSeenWelcome := hasSeenWelcome
      isScreenshotGenerationMode := isScreenshotGenerationMode } : RootTabsView) = x
  have hcoherent : x.Coherent := by
    rw [← hx]
    exact ⟨hstaged, nofun, nofun⟩
  obtain ⟨hc, hg, hhint⟩ := hcoherent.handle false now
  obtain ⟨hstore, hsheet, hcapture, hbanner, htab⟩ :=
    (x.handleExperimentalVisibilityChange false now).checkAndShowWelcome_spec
  have hstaging := congrArg LocalStore.staging hstore
  have hon := insightsEnabled_of_staging hstaging
  refine (hc.congr hstaging hsheet hcapture.symm.trans).presentStaging ?_ ?_
  · refine ⟨?_, ?_, ?_, ?_⟩
    · rw [hstore, hon]
      exact hg.staged
    · rw [hcapture, hon]
      exact hg.capture
    · rw [hbanner, hon]
      exact hg.banner
    · rw [htab, hon]
      exact hg.tab
  · unfold HintElsewhere
    rw [hbanner, htab]
    exact hhint

/-- In every state the app reaches, what belongs to the experimental features is on screen or staged
only while they are on, and the preview is up exactly if something is staged, with what is staged
and persisted. -/
theorem gated_of_reached {foundation : VoiceFoundation} {calendar : Calendar} {x : RootTabsView}
    (h : x.Reached foundation calendar) : x.Gated := by
  obtain ⟨userDefaults, hasSeenWelcome, isScreenshotGenerationMode, now, ls, hr⟩ := h
  exact RootTabsEvent.gated_run
    (gated_launch userDefaults hasSeenWelcome isScreenshotGenerationMode now) hr

/-- A draft, for the samples below. -/
def sampleDraft : VoiceParsedTaskDraft :=
  ⟨"draft", "Call mom", "", [], .medium, none, 1, false⟩

end RootTabsView

/-- The features are on, and a draft is staged. -/
def UserDefaults.samplePreviewed : UserDefaults where
  categories := some [⟨"work", "Work", "", "#0A84FF", 0⟩]
  experimentalFeaturesEnabled := some true
  voiceStagingDrafts := some [RootTabsView.sampleDraft]

/-- The features are turned off on another device, and the preview goes. -/
theorem RootTabsView.gated_of_reached_sample : ∃ x : RootTabsView,
    x.stagingSheet = none ∧ x.showLockedInsightsMessage = false ∧ x.Gated := by
  obtain ⟨y, hr, hsheet, hmessage⟩ : ∃ y,
      Runs.run (RootTabsEvent.step .latin (Calendar.gregorian .gmt))
        [(.seconds 1, .store .migrateIfNeeded),
          (.seconds 2, .store (.deliver (.experimentalFeatureMetadata (some false)
            (some (.seconds 1)))))] (launch .samplePreviewed true false (.seconds 0)) = some y ∧
      y.stagingSheet = none ∧ y.showLockedInsightsMessage = false :=
    ⟨_, rfl, rfl, rfl⟩
  exact ⟨y, hsheet, hmessage, gated_of_reached ⟨_, _, _, _, _, hr⟩⟩

end Notelayer
