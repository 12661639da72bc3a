import Notelayer.Library.Runs
import Notelayer.ThemeManager

/-!
# The theme across launches

A save goes first to the defaults of the app group and then to the standard ones, with the time of
the save. A launch takes the newer one. An action assigns several properties one after another, so
the app can be killed when some of them are saved, or one of them in one place only.

Over every run of actions, launches and kills, the next launch shows the theme that is on screen,
and a kill shows the one of some moment of the action it cut off (`ThemeApp.shown_run`). A whole
action is restored whatever the clock says, a kill between the two places only if it does not go
back.
-/

namespace Notelayer

/-! ## Persistence -/

/-- The record that every save writes. -/
structure ThemePersistenceState where
  version : ℤ
  mode : ThemeMode
  configuration : ThemeConfiguration
  selectedPresetId : Option String
  selectedCustomThemeId : Option String
  savedThemes : List SavedTheme
  userWallpapers : List UserWallpaper
  updatedAt : ℚ
  deriving DecidableEq

/-- The two places that a save writes to. -/
inductive ThemeTarget where
  | appGroup
  | standard
  deriving DecidableEq

/-- What the defaults hold. A state that is missing or does not decode is `none`. -/
structure ThemeDefaults where
  isAppGroupAvailable : Bool := true
  appGroup : Option ThemePersistenceState := none
  standard : Option ThemePersistenceState := none
  legacyMode : Option ThemeMode := none
  legacyPreset : Option LegacyThemePreset := none

namespace ThemeDefaults

variable (d : ThemeDefaults)

/-- In the order of writing. -/
def targets : List ThemeTarget :=
  if d.isAppGroupAvailable then [.appGroup, .standard] else [.standard]

/-- The defaults after one write. -/
def write (entry : ThemeTarget × ThemePersistenceState) : ThemeDefaults :=
  match entry.1 with
  | .appGroup => { d with appGroup := some entry.2 }
  | .standard => { d with standard := some entry.2 }

/-- The record in the app group, if the app group can be opened. -/
def appGroupState : Option ThemePersistenceState :=
  if d.isAppGroupAvailable then d.appGroup else none

/-- The later of the two records, where the app group wins a tie. -/
def primaryState : Option ThemePersistenceState :=
  match d.appGroupState, d.standard with
  | some appState, some standardState =>
    if appState.updatedAt ≥ standardState.updatedAt then some appState else some standardState
  | appState, standardState => appState.or standardState

end ThemeDefaults

namespace ThemeManager

/-- What `save` encodes. -/
def persisted (m : ThemeManager) (timestamp : ℚ) : ThemePersistenceState where
  version := 3
  mode := m.mode
  configuration := m.configuration.clamped
  selectedPresetId := m.selectedPresetId
  selectedCustomThemeId := m.selectedCustomThemeId
  savedThemes := m.savedThemes
  userWallpapers := m.userWallpapers
  updatedAt := timestamp

/-- The manager that a record stands for. -/
def applyState (state : ThemePersistenceState) : ThemeManager where
  mode := state.mode
  configuration := state.configuration.clamped
  selectedPresetId :=
    match state.selectedPresetId with
    | some presetId =>
      if ThemeCatalog.theme presetId ≠ none then some presetId
      else some ThemeCatalog.defaultTheme.id
    | none => some ThemeCatalog.defaultTheme.id
  selectedCustomThemeId := state.selectedCustomThemeId
  savedThemes := state.savedThemes
  userWallpapers := state.userWallpapers

/-- On a manager as it is initialized. Nothing is saved while it loads. -/
def migrateLegacyIfNeeded (d : ThemeDefaults) : ThemeManager :=
  if d.legacyMode = none ∧ d.legacyPreset = none then {}
  else {
    mode := d.legacyMode.getD .system
    configuration := (d.legacyPreset.map LegacyThemePreset.legacyConfiguration).getD
      ThemeCatalog.defaultTheme.defaultConfiguration
    selectedPresetId := none }

/-- `load` at a launch. -/
def load (d : ThemeDefaults) : ThemeManager :=
  match d.primaryState with
  | some state => applyState state
  | none => migrateLegacyIfNeeded d

end ThemeManager

/-! ## The app -/

/-- The running app, with what is stored. -/
structure ThemeApp where
  manager : ThemeManager
  defaults : ThemeDefaults

namespace ThemeApp

variable (x : ThemeApp)

/-- What an action writes, one defaults after the other. `clock` is the time of each save. -/
def writes (action : ThemeAction) (clock : ℕ → ℚ) : List (ThemeTarget × ThemePersistenceState) :=
  ((action.assignments x.manager).zipIdx.map fun entry =>
    entry.1.persisted (clock entry.2)).flatMap fun state =>
      x.defaults.targets.map fun target => (target, state)

/-- The action, with every write of its saves. -/
def perform (action : ThemeAction) (clock : ℕ → ℚ) : ThemeApp where
  manager := (action.assignments x.manager).getLast?.getD x.manager
  defaults := (x.writes action clock).foldl ThemeDefaults.write x.defaults

/-- The app as it starts. -/
def launch (d : ThemeDefaults) : ThemeApp :=
  ⟨ThemeManager.load d, d⟩

/-- The app is killed after `n` writes of the action, and launched again. -/
def kill (action : ThemeAction) (clock : ℕ → ℚ) (n : ℕ) : ThemeApp :=
  launch (((x.writes action clock).take n).foldl ThemeDefaults.write x.defaults)

end ThemeApp

/-- A whole action, an action cut off by a kill, or a launch. -/
inductive ThemeStep where
  | perform (action : ThemeAction) (clock : ℕ → ℚ)
  | kill (action : ThemeAction) (clock : ℕ → ℚ) (n : ℕ)
  | relaunch

/-- The step function of the themed app. -/
def ThemeApp.step (l : ThemeStep) (x : ThemeApp) : Option ThemeApp :=
  match l with
  | .perform action clock => some (x.perform action clock)
  | .kill action clock n => some (x.kill action clock n)
  | .relaunch => some (ThemeApp.launch x.defaults)

/-! ## What a launch shows -/

namespace ThemeManager

variable {m m' : ThemeManager}

/-- The two show the same theme, wallpapers and saved themes. -/
structure SameTheme (m m' : ThemeManager) : Prop where
  mode : m.mode = m'.mode
  configuration : m.configuration = m'.configuration
  currentTheme : m.currentTheme = m'.currentTheme
  selectedCustomThemeId : m.selectedCustomThemeId = m'.selectedCustomThemeId
  savedThemes : m.savedThemes = m'.savedThemes
  userWallpapers : m.userWallpapers = m'.userWallpapers

theorem SameTheme.refl (m : ThemeManager) : m.SameTheme m :=
  ⟨rfl, rfl, rfl, rfl, rfl, rfl⟩

theorem SameTheme.activeSavedTheme (h : m.SameTheme m') :
    m.activeSavedTheme = m'.activeSavedTheme := by
  unfold ThemeManager.activeSavedTheme
  rw [h.selectedCustomThemeId, h.savedThemes]

/-- Nothing that can be shown is clamped. -/
structure AllInBounds (m : ThemeManager) : Prop where
  configuration : m.configuration.InBounds
  savedThemes : ∀ saved ∈ m.savedThemes, saved.configuration.InBounds

theorem AllInBounds.congr (h : m.AllInBounds) (hsame : m'.SameTheme m) : m'.AllInBounds := by
  refine ⟨?_, ?_⟩
  · rw [hsame.configuration]
    exact h.configuration
  · rw [hsame.savedThemes]
    exact h.savedThemes

theorem theme_defaultTheme :
    ThemeCatalog.theme ThemeCatalog.defaultTheme.id = some ThemeCatalog.defaultTheme := by
  decide +kernel

/-- An unknown preset, or none, is shown as the default theme, and so it is restored. -/
theorem sameTheme_applyState (h : m.configuration.InBounds) (timestamp : ℚ) :
    (applyState (m.persisted timestamp)).SameTheme m := by
  refine ⟨rfl, ?_, ?_, rfl, rfl, rfl⟩
  · change m.configuration.clamped.clamped = m.configuration
    rw [h.clamped_eq, h.clamped_eq]
  · unfold currentTheme activeTheme applyState persisted
    cases hpreset : m.selectedPresetId with
    | none => simp [theme_defaultTheme]
    | some presetId =>
      dsimp only
      split_ifs with hknown
      · rfl
      · rw [not_not] at hknown
        simp [hknown, theme_defaultTheme]

/-! ### What the assignments keep -/

theorem mem_modify {saved : List SavedTheme} {index : ℕ} {f : SavedTheme → SavedTheme}
    {theme : SavedTheme} (h : theme ∈ saved.modify index f) :
    ∃ before ∈ saved, theme = before ∨ theme = f before := by
  obtain ⟨i, hi, rfl⟩ := List.getElem_of_mem h
  rw [List.length_modify] at hi
  refine ⟨saved[i], List.getElem_mem hi, ?_⟩
  rw [List.getElem_modify]
  split_ifs
  · exact .inr rfl
  · exact .inl rfl

/-- A change of a saved theme that keeps its id, and its configuration unless it takes the one on
screen. -/
def Revises (m : ThemeManager) (f : SavedTheme → SavedTheme) : Prop :=
  ∀ saved, (f saved).id = saved.id ∧
    ((f saved).configuration = saved.configuration ∨ (f saved).configuration = m.configuration)

section Revises

variable {P : ThemeManager → Prop} {f : SavedTheme → SavedTheme}

theorem AllInBounds.modifySaved (h : m.AllInBounds) (index : ℕ) (hf : m.Revises f) :
    (m.modifySaved index f).AllInBounds := by
  refine ⟨h.configuration, fun saved hsaved => ?_⟩
  obtain ⟨before, hbefore, rfl | rfl⟩ := mem_modify hsaved
  · exact h.savedThemes _ hbefore
  · rcases (hf before).2 with hsame | hshown
    · rw [hsame]
      exact h.savedThemes _ hbefore
    · rw [hshown]
      exact h.configuration

/-- What every revision of a saved theme keeps holds at each moment of an update. -/
theorem forall_mem_updateActiveSavedTheme
    (hP : ∀ m, P m → ∀ index f, m.Revises f → P (m.modifySaved index f)) (h : P m) (now : ℚ) :
    ∀ m' ∈ m.updateActiveSavedTheme now, P m' := by
  unfold updateActiveSavedTheme
  split
  · simp
  · rename_i index _
    have h₁ := hP m h index (fun saved => { saved with themeId := m.currentTheme.id })
      fun _ => ⟨rfl, .inl rfl⟩
    have h₂ := hP _ h₁ index (fun saved => { saved with configuration := m.configuration })
      fun _ => ⟨rfl, .inr rfl⟩
    have h₃ := hP _ h₂ index (fun saved => { saved with mode := m.mode })
      fun _ => ⟨rfl, .inl rfl⟩
    have h₄ := hP _ h₃ index (fun saved => { saved with updatedAt := now })
      fun _ => ⟨rfl, .inl rfl⟩
    simp only [List.mem_cons, List.not_mem_nil, or_false, forall_eq_or_imp, forall_eq]
    exact ⟨h₁, h₂, h₃, h₄⟩

/-- What every revision of a saved theme keeps holds at each moment of a renaming. -/
theorem forall_mem_renameSavedTheme
    (hP : ∀ m, P m → ∀ index f, m.Revises f → P (m.modifySaved index f)) (h : P m)
    (id newName : String) (now : ℚ) : ∀ m' ∈ m.renameSavedTheme id newName now, P m' := by
  unfold renameSavedTheme
  split
  · simp
  · rename_i index _
    have h₁ := hP m h index (fun saved => { saved with
      name := if (trimmed newName).isEmpty then saved.name else trimmed newName })
      fun _ => ⟨rfl, .inl rfl⟩
    have h₂ := hP _ h₁ index (fun saved => { saved with updatedAt := now })
      fun _ => ⟨rfl, .inl rfl⟩
    simp only [List.mem_cons, List.not_mem_nil, or_false, forall_eq_or_imp, forall_eq]
    exact ⟨h₁, h₂⟩

end Revises

end ThemeManager

namespace ThemeAction

open ThemeManager

variable {m : ThemeManager} {action : ThemeAction}

/-- No offered action leaves the bounds. -/
theorem allInBounds_assignments (h : m.AllInBounds) (ho : action.IsOffered m) :
    ∀ m' ∈ action.assignments m, m'.AllInBounds := by
  cases action with
  | applyPreset preset =>
    have hc := ThemeCatalog.inBounds_themes preset ho
    simp only [assignments, ThemeManager.applyPreset, List.mem_cons, List.not_mem_nil, or_false,
      forall_eq_or_imp, forall_eq]
    exact ⟨⟨hc, h.savedThemes⟩, ⟨hc, h.savedThemes⟩, ⟨hc, h.savedThemes⟩⟩
  | applySavedTheme theme =>
    have hc := h.savedThemes theme ho
    simp only [assignments, ThemeManager.applySavedTheme, List.mem_cons, List.not_mem_nil,
      or_false, forall_eq_or_imp, forall_eq]
    exact ⟨⟨hc, h.savedThemes⟩, ⟨hc, h.savedThemes⟩, ⟨hc, h.savedThemes⟩, ⟨hc, h.savedThemes⟩⟩
  | updateConfiguration newConfiguration =>
    have hc := newConfiguration.inBounds_clamped
    simp only [assignments, ThemeManager.updateConfiguration]
    split
    · split_ifs <;> simp only [List.mem_cons, List.not_mem_nil, or_false, forall_eq_or_imp,
        forall_eq]
      · exact ⟨⟨hc, h.savedThemes⟩, ⟨hc, h.savedThemes⟩⟩
      · exact ⟨hc, h.savedThemes⟩
    · simp only [List.mem_singleton, forall_eq]
      exact ⟨hc, h.savedThemes⟩
  | updateMode newMode =>
    simp only [assignments, ThemeManager.updateMode, List.mem_singleton, forall_eq]
    exact ⟨h.configuration, h.savedThemes⟩
  | saveTheme name id now =>
    have hs : ∀ saved ∈ m.savedThemes ++ [⟨id, if (trimmed name).isEmpty then "Custom Theme"
        else trimmed name, m.currentTheme.id, m.configuration, m.mode, now⟩],
        saved.configuration.InBounds := by
      intro saved hsaved
      rcases List.mem_append.mp hsaved with hsaved | hsaved
      · exact h.savedThemes saved hsaved
      · obtain rfl := List.mem_singleton.mp hsaved
        exact h.configuration
    simp only [assignments, ThemeManager.saveTheme, List.mem_cons, List.not_mem_nil, or_false,
      forall_eq_or_imp, forall_eq]
    exact ⟨⟨h.configuration, hs⟩, ⟨h.configuration, hs⟩⟩
  | updateActiveSavedTheme now =>
    exact forall_mem_updateActiveSavedTheme
      (fun _ hbefore index _ hf => hbefore.modifySaved index hf) h now
  | renameSavedTheme id newName now =>
    exact forall_mem_renameSavedTheme
      (fun _ hbefore index _ hf => hbefore.modifySaved index hf) h id newName now
  | deleteSavedTheme id =>
    have hs : ∀ saved ∈ m.savedThemes.filter fun theme => theme.id ≠ id,
        saved.configuration.InBounds :=
      fun saved hsaved => h.savedThemes saved (List.mem_of_mem_filter hsaved)
    simp only [assignments, ThemeManager.deleteSavedTheme]
    split_ifs <;> simp only [List.mem_cons, List.not_mem_nil, or_false, forall_eq_or_imp, forall_eq]
    · exact ⟨⟨h.configuration, hs⟩, ⟨h.configuration, hs⟩⟩
    · exact ⟨h.configuration, hs⟩
  | addUserWallpaper name fileId mode =>
    simp only [assignments, ThemeManager.addUserWallpaper, List.mem_singleton, forall_eq]
    exact ⟨h.configuration, h.savedThemes⟩

end ThemeAction

/-! ### Writes -/

namespace ThemeDefaults

variable {d : ThemeDefaults}

/-- Nothing is stored that is newer. -/
def HoldsUntil (d : ThemeDefaults) (timestamp : ℚ) : Prop :=
  (∀ state ∈ d.appGroup, state.updatedAt ≤ timestamp) ∧
    ∀ state ∈ d.standard, state.updatedAt ≤ timestamp

/-- The writes of several saves. -/
def savesWrites (d : ThemeDefaults) (saves : List ThemePersistenceState) :
    List (ThemeTarget × ThemePersistenceState) :=
  saves.flatMap fun state => d.targets.map fun target => (target, state)

/-- Both places after a whole save. -/
def saved (d : ThemeDefaults) (state : ThemePersistenceState) : ThemeDefaults :=
  if d.isAppGroupAvailable then { d with appGroup := some state, standard := some state }
  else { d with standard := some state }

theorem primaryState_saved (state : ThemePersistenceState) :
    (d.saved state).primaryState = some state := by
  unfold saved
  split_ifs with ha
  · simp [primaryState, appGroupState, ha]
  · simp [primaryState, appGroupState, ha]

theorem targets_saved (state : ThemePersistenceState) : (d.saved state).targets = d.targets := by
  unfold saved targets
  split_ifs <;> rfl

theorem saved_saved (state next : ThemePersistenceState) :
    (d.saved state).saved next = d.saved next := by
  unfold saved
  split_ifs <;> rfl

theorem savesWrites_cons (state : ThemePersistenceState) (saves : List ThemePersistenceState) :
    d.savesWrites (state :: saves) =
      (d.targets.map fun target => (target, state)) ++ (d.saved state).savesWrites saves := by
  unfold savesWrites
  rw [List.flatMap_cons, targets_saved]

theorem foldl_write_targets (state : ThemePersistenceState) :
    (d.targets.map fun target => (target, state)).foldl write d = d.saved state := by
  unfold targets saved
  split_ifs <;> rfl

/-- After whole saves every place holds the last. -/
theorem foldl_savesWrites (saves : List ThemePersistenceState) (d : ThemeDefaults) :
    (d.savesWrites saves).foldl write d = saves.getLast?.elim d d.saved := by
  induction saves generalizing d with
  | nil => rfl
  | cons state saves ih =>
    rw [savesWrites_cons, List.foldl_append, foldl_write_targets, ih, List.getLast?_cons]
    cases saves.getLast? with
    | none => rfl
    | some last => exact saved_saved state last

/-- Whatever the clock says, after whole saves the last one is the newer one everywhere. -/
theorem primaryState_savesWrites (saves : List ThemePersistenceState) (d : ThemeDefaults) :
    ((d.savesWrites saves).foldl write d).primaryState = saves.getLast?.or d.primaryState := by
  rw [foldl_savesWrites]
  cases saves.getLast? with
  | none => rfl
  | some last => exact primaryState_saved last

theorem HoldsUntil.saved {timestamp : ℚ} (h : d.HoldsUntil timestamp)
    {state : ThemePersistenceState} (hs : state.updatedAt ≤ timestamp) :
    (d.saved state).HoldsUntil timestamp := by
  unfold ThemeDefaults.saved
  split_ifs
  · exact ⟨by simpa using hs, by simpa using hs⟩
  · exact ⟨h.1, by simpa using hs⟩

/-- If the clock does not go back, a kill between two writes leaves the last save that began, or
what was stored before the first. -/
theorem primaryState_take {saves : List ThemePersistenceState} (d : ThemeDefaults) (n : ℕ)
    (h : ∀ state ∈ saves, d.HoldsUntil state.updatedAt)
    (hs : saves.Pairwise fun state next => state.updatedAt ≤ next.updatedAt) :
    (((d.savesWrites saves).take n).foldl write d).primaryState = d.primaryState ∨
      ∃ state ∈ saves,
        (((d.savesWrites saves).take n).foldl write d).primaryState = some state := by
  induction saves generalizing d n with
  | nil => exact .inl (by simp [savesWrites])
  | cons state saves ih =>
    obtain ⟨hstate, hsaves⟩ := List.forall_mem_cons.mp h
    obtain ⟨hle, hpairs⟩ := List.pairwise_cons.mp hs
    have hfirst := foldl_write_targets (d := d) state
    -- a whole save, and what follows it
    have hlater : ∀ k, ∃ later ∈ state :: saves,
        ((((d.saved state).savesWrites saves).take k).foldl write (d.saved state)).primaryState =
          some later := by
      intro k
      rcases ih (d.saved state) k
        (fun later hlater => (hsaves later hlater).saved (hle later hlater)) hpairs with
        heq | ⟨later, hmem, heq⟩
      · exact ⟨state, List.mem_cons_self, heq.trans (primaryState_saved state)⟩
      · exact ⟨later, List.mem_cons_of_mem _ hmem, heq⟩
    rw [savesWrites_cons]
    by_cases ha : d.isAppGroupAvailable = true
    · have htargets : d.targets = [.appGroup, .standard] := if_pos ha
      rcases n with _ | _ | k
      · exact .inl rfl
      · refine .inr ⟨state, List.mem_cons_self, ?_⟩
        rw [htargets]
        change primaryState { d with appGroup := some state } = some state
        unfold primaryState appGroupState
        simp only [ha, if_true]
        cases hstandard : d.standard with
        | none => rfl
        | some standardState => exact if_pos (hstate.2 standardState hstandard)
      · right
        obtain ⟨later, hmem, heq⟩ := hlater k
        refine ⟨later, hmem, ?_⟩
        rw [← heq, ← hfirst, htargets]
        rfl
    · have htargets : d.targets = [.standard] := if_neg ha
      rcases n with _ | k
      · exact .inl rfl
      · right
        obtain ⟨later, hmem, heq⟩ := hlater k
        refine ⟨later, hmem, ?_⟩
        rw [← heq, ← hfirst, htargets]
        rfl

theorem legacy_write (writes : List (ThemeTarget × ThemePersistenceState)) (d : ThemeDefaults) :
    (writes.foldl write d).legacyMode = d.legacyMode ∧
      (writes.foldl write d).legacyPreset = d.legacyPreset := by
  induction writes generalizing d with
  | nil => exact ⟨rfl, rfl⟩
  | cons entry writes ih =>
    obtain ⟨hmode, hpreset⟩ := ih (d.write entry)
    obtain ⟨target, state⟩ := entry
    cases target <;> exact ⟨hmode, hpreset⟩

/-- If the newer state is the same, the launch is. -/
theorem load_congr {d' : ThemeDefaults} (h : d'.primaryState = d.primaryState)
    (hmode : d'.legacyMode = d.legacyMode) (hpreset : d'.legacyPreset = d.legacyPreset) :
    ThemeManager.load d' = ThemeManager.load d := by
  unfold ThemeManager.load ThemeManager.migrateLegacyIfNeeded
  rw [h, hmode, hpreset]

end ThemeDefaults

/-! ## Runs -/

namespace ThemeApp

open ThemeManager

variable {x y : ThemeApp}

/-- What is on screen is in bounds, and a launch shows it again. -/
structure Sound (x : ThemeApp) : Prop where
  inBounds : x.manager.AllInBounds
  shown : (ThemeManager.load x.defaults).SameTheme x.manager

/-- The saves of an action. -/
def saves (x : ThemeApp) (action : ThemeAction) (clock : ℕ → ℚ) : List ThemePersistenceState :=
  (action.assignments x.manager).zipIdx.map fun entry => entry.1.persisted (clock entry.2)

theorem writes_eq (action : ThemeAction) (clock : ℕ → ℚ) :
    x.writes action clock = x.defaults.savesWrites (x.saves action clock) :=
  rfl

theorem getLast?_saves (action : ThemeAction) (clock : ℕ → ℚ) :
    (x.saves action clock).getLast? = (action.assignments x.manager).getLast?.map fun last =>
      last.persisted (clock ((action.assignments x.manager).length - 1)) := by
  simp [saves, List.getLast?_map, Function.comp_def]

theorem Sound.launch (h : x.Sound) : (launch x.defaults).Sound :=
  ⟨h.inBounds.congr h.shown, .refl _⟩

/-- A saved state is restored to the theme it was saved for. -/
theorem sameTheme_load {m : ThemeManager} {d : ThemeDefaults} {timestamp : ℚ} (h : m.AllInBounds)
    (hd : d.primaryState = some (m.persisted timestamp)) :
    (ThemeManager.load d).SameTheme m := by
  unfold ThemeManager.load
  rw [hd]
  exact sameTheme_applyState h.configuration timestamp

/-- A whole action is restored, whatever the clock says. -/
theorem Sound.perform (h : x.Sound) {action : ThemeAction} (ho : action.IsOffered x.manager)
    (clock : ℕ → ℚ) : (x.perform action clock).Sound := by
  have hall := ThemeAction.allInBounds_assignments h.inBounds ho
  have hprimary : (x.perform action clock).defaults.primaryState =
      (x.saves action clock).getLast?.or x.defaults.primaryState := by
    unfold ThemeApp.perform
    rw [writes_eq]
    exact ThemeDefaults.primaryState_savesWrites _ _
  rw [getLast?_saves] at hprimary
  obtain ⟨hmode, hpreset⟩ := ThemeDefaults.legacy_write (x.writes action clock) x.defaults
  have hmanager : (x.perform action clock).manager =
      (action.assignments x.manager).getLast?.getD x.manager := rfl
  cases hlast : (action.assignments x.manager).getLast? with
  | none =>
    rw [hlast] at hprimary hmanager
    rw [Option.getD_none] at hmanager
    refine ⟨hmanager ▸ h.inBounds, ?_⟩
    rw [hmanager, ThemeDefaults.load_congr hprimary hmode hpreset]
    exact h.shown
  | some last =>
    rw [hlast] at hprimary hmanager
    rw [Option.getD_some] at hmanager
    have hbounds : last.AllInBounds := hall last (List.mem_of_getLast? hlast)
    refine ⟨hmanager ▸ hbounds, ?_⟩
    rw [hmanager]
    exact sameTheme_load hbounds hprimary

/-- The clock does not go back, and is not behind what is stored. -/
structure Forward (x : ThemeApp) (clock : ℕ → ℚ) : Prop where
  stored : x.defaults.HoldsUntil (clock 0)
  monotone : Monotone clock

/-- A kill leaves the theme of some moment of the action. -/
theorem Sound.kill (h : x.Sound) {action : ThemeAction} (ho : action.IsOffered x.manager)
    {clock : ℕ → ℚ} (hclock : x.Forward clock) (n : ℕ) :
    (x.kill action clock n).Sound ∧ ∃ m ∈ x.manager :: action.assignments x.manager,
      (x.kill action clock n).manager.SameTheme m := by
  have hall := ThemeAction.allInBounds_assignments h.inBounds ho
  have hholds : ∀ state ∈ x.saves action clock, x.defaults.HoldsUntil state.updatedAt := by
    intro state hstate
    obtain ⟨⟨m, i⟩, -, rfl⟩ := List.mem_map.mp hstate
    have hle : clock 0 ≤ clock i := hclock.monotone (Nat.zero_le i)
    exact ⟨fun e he => (hclock.stored.1 e he).trans hle,
      fun e he => (hclock.stored.2 e he).trans hle⟩
  have hpairs : (x.saves action clock).Pairwise fun state next =>
      state.updatedAt ≤ next.updatedAt := by
    unfold saves
    rw [List.pairwise_map, List.pairwise_iff_getElem]
    intro i j hi hj hij
    rw [List.getElem_zipIdx, List.getElem_zipIdx]
    exact hclock.monotone (by simpa using hij.le)
  have hshown : ∃ m ∈ x.manager :: action.assignments x.manager,
      (x.kill action clock n).manager.SameTheme m := by
    have htake := ThemeDefaults.primaryState_take x.defaults n hholds hpairs
    rw [← writes_eq] at htake
    rcases htake with heq | ⟨state, hmem, heq⟩
    · obtain ⟨hmode, hpreset⟩ :=
        ThemeDefaults.legacy_write ((x.writes action clock).take n) x.defaults
      refine ⟨x.manager, List.mem_cons_self, ?_⟩
      change (ThemeManager.load _).SameTheme x.manager
      rw [ThemeDefaults.load_congr heq hmode hpreset]
      exact h.shown
    · obtain ⟨⟨m, i⟩, hm, rfl⟩ := List.mem_map.mp hmem
      have hmem' : m ∈ action.assignments x.manager := (List.mem_zipIdx' hm).2 ▸ List.getElem_mem _
      exact ⟨m, List.mem_cons_of_mem _ hmem', sameTheme_load (hall m hmem') heq⟩
  refine ⟨⟨?_, .refl _⟩, hshown⟩
  obtain ⟨m, hm, hsame⟩ := hshown
  rcases List.mem_cons.mp hm with rfl | hm
  · exact h.inBounds.congr hsame
  · exact (hall m hm).congr hsame

end ThemeApp

/-- The action is offered, and at a kill the clock has not gone back. -/
def ThemeStep.IsFaithful (l : ThemeStep) (x : ThemeApp) : Prop :=
  match l with
  | perform action _ => action.IsOffered x.manager
  | kill action clock _ => action.IsOffered x.manager ∧ x.Forward clock
  | relaunch => True

namespace ThemeApp

open ThemeManager

variable {x y : ThemeApp}

/-- Every step keeps the stored states sound. -/
theorem sound_step (l : ThemeStep) (x y : ThemeApp) (h : x.Sound) (hg : l.IsFaithful x)
    (hy : step l x = some y) : y.Sound := by
  cases l with
  | perform action clock =>
    obtain rfl := Option.some_inj.mp hy
    exact h.perform hg clock
  | kill action clock n =>
    obtain rfl := Option.some_inj.mp hy
    exact (h.kill hg.1 hg.2 n).1
  | relaunch =>
    obtain rfl := Option.some_inj.mp hy
    exact h.launch

theorem load_of_none {d : ThemeDefaults} (hd : d.primaryState = none) :
    ThemeManager.load d = migrateLegacyIfNeeded d := by
  unfold ThemeManager.load
  rw [hd]

/-- A legacy theme is within the bounds. -/
theorem allInBounds_migrateLegacyIfNeeded (d : ThemeDefaults) :
    (migrateLegacyIfNeeded d).AllInBounds := by
  have hdefault : ThemeCatalog.defaultTheme.defaultConfiguration.InBounds :=
    ThemeCatalog.inBounds_themes _ List.mem_cons_self
  unfold migrateLegacyIfNeeded
  split_ifs
  · exact ⟨hdefault, by simp⟩
  · refine ⟨?_, by simp⟩
    cases d.legacyPreset with
    | none => exact hdefault
    | some preset => exact ThemeCatalog.inBounds_legacyConfiguration preset

/-- No state of this version is stored. -/
theorem sound_launch {d : ThemeDefaults} (hd : d.primaryState = none) : (launch d).Sound := by
  refine ⟨?_, .refl _⟩
  change (ThemeManager.load d).AllInBounds
  rw [load_of_none hd]
  exact allInBounds_migrateLegacyIfNeeded d

/-- In every state reached from an install, or from an earlier version, the next launch shows the
theme that is on screen. A kill at any write of an action leads to the theme of some moment of the
action. -/
theorem shown_run {d : ThemeDefaults} {ls : List ThemeStep} (hd : d.primaryState = none)
    (hg : Runs.Guarded step ThemeStep.IsFaithful ls (launch d))
    (hr : Runs.run step ls (launch d) = some x) :
    (launch x.defaults).manager.SameTheme x.manager ∧
      ∀ action clock n, action.IsOffered x.manager → x.Forward clock →
        ∃ m ∈ x.manager :: action.assignments x.manager,
          (x.kill action clock n).manager.SameTheme m := by
  have h := Runs.invariant_of_guarded sound_step (sound_launch hd) hg hr
  exact ⟨h.shown, fun action clock n ho hclock => (h.kill ho hclock n).2⟩

/-- The mode is changed, and changed again when the app is killed between the two places. -/
theorem shown_run_sample : ∃ x : ThemeApp,
    Runs.run step [.perform (.updateMode .dark) fun _ => 1] (launch {}) = some x ∧
      ((x.kill (.updateMode .light) (fun _ => 2) 1).manager.SameTheme x.manager ∨
        (x.kill (.updateMode .light) (fun _ => 2) 1).manager.SameTheme
          { x.manager with mode := .light }) := by
  have hg : Runs.Guarded step ThemeStep.IsFaithful [.perform (.updateMode .dark) fun _ => 1]
      (launch {}) :=
    ⟨trivial, fun _ _ => trivial⟩
  refine ⟨_, rfl, ?_⟩
  obtain ⟨-, hkill⟩ := shown_run rfl hg rfl
  obtain ⟨m, hm, hsame⟩ := hkill (.updateMode .light) (fun _ => 2) 1 trivial
    ⟨⟨by simp [ThemeApp.perform, writes, ThemeManager.persisted, ThemeAction.assignments,
        ThemeManager.updateMode, ThemeDefaults.targets, launch, ThemeDefaults.write],
      by simp [ThemeApp.perform, writes, ThemeManager.persisted, ThemeAction.assignments,
        ThemeManager.updateMode, ThemeDefaults.targets, launch, ThemeDefaults.write]⟩,
      monotone_const⟩
  rcases List.mem_cons.mp hm with rfl | hm
  · exact .inl hsame
  · obtain rfl := List.mem_singleton.mp hm
    exact .inr hsame

end ThemeApp

end Notelayer
