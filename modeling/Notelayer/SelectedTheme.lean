import Notelayer.ThemePersistence

/-!
# The theme that is marked

The list of saved themes marks the one that was applied or saved last. It is the one on screen over
every run in which no kill cuts off an action that leaves it, whatever the clock says
(`ThemeApp.matches_run`). These actions change the configuration first and the mark last, and a
launch does not compare the two (`ThemeApp.not_matches_run`).
-/

namespace Notelayer

/-! ## The selected theme -/

namespace ThemeManager

variable {m m' : ThemeManager}

/-- The saved theme that is marked as selected is the one on screen. -/
def Matches (m : ThemeManager) : Prop :=
  ∀ saved ∈ m.activeSavedTheme, saved.configuration = m.configuration

/-- No two saved themes have the same id. -/
def DistinctThemes (m : ThemeManager) : Prop :=
  (m.savedThemes.map SavedTheme.id).Nodup

theorem Matches.congr (h : m.Matches) (hsame : m'.SameTheme m) : m'.Matches := by
  unfold Matches
  rw [hsame.activeSavedTheme, hsame.configuration]
  exact h

theorem DistinctThemes.congr (h : m.DistinctThemes) (hsame : m'.SameTheme m) :
    m'.DistinctThemes := by
  unfold DistinctThemes
  rw [hsame.savedThemes]
  exact h

/-- Nothing is marked. -/
theorem matches_of_none (h : m.activeSavedTheme = none) : m.Matches := by
  intro saved hsaved
  rw [h] at hsaved
  cases hsaved

/-- The assignment of another property. -/
theorem Matches.of_eq (h : m.Matches)
    (hselected : m'.selectedCustomThemeId = m.selectedCustomThemeId)
    (hsaved : m'.savedThemes = m.savedThemes) (hc : m'.configuration = m.configuration) :
    m'.Matches := by
  unfold Matches activeSavedTheme
  rw [hselected, hsaved, hc]
  exact h

theorem DistinctThemes.of_eq (h : m.DistinctThemes) (hsaved : m'.savedThemes = m.savedThemes) :
    m'.DistinctThemes := by
  unfold DistinctThemes
  rw [hsaved]
  exact h

/-- A change of one saved theme finds it again under its id. -/
theorem find?_modify (saved : List SavedTheme) {f : SavedTheme → SavedTheme}
    (hf : ∀ theme, (f theme).id = theme.id) (index : ℕ) (id : String) :
    (saved.modify index f).find? (fun theme => theme.id = id) =
      saved.find? (fun theme => theme.id = id) ∨
    ∃ theme ∈ saved.find? (fun theme => theme.id = id),
      (saved.modify index f).find? (fun theme => theme.id = id) = some (f theme) := by
  induction saved generalizing index with
  | nil => exact .inl (by simp)
  | cons theme saved ih =>
    cases index with
    | zero =>
      rw [List.modify_zero_cons]
      by_cases hid : theme.id = id
      · refine .inr ⟨theme, ?_, ?_⟩
        · exact List.find?_cons_of_pos (by simpa using hid)
        · exact List.find?_cons_of_pos (by simpa [hf] using hid)
      · rw [List.find?_cons_of_neg (by simpa [hf] using hid),
          List.find?_cons_of_neg (by simpa using hid)]
        exact .inl rfl
    | succ index =>
      rw [List.modify_succ_cons]
      by_cases hid : theme.id = id
      · rw [List.find?_cons_of_pos (by simpa using hid),
          List.find?_cons_of_pos (by simpa using hid)]
        exact .inl rfl
      · rw [List.find?_cons_of_neg (by simpa using hid),
          List.find?_cons_of_neg (by simpa using hid)]
        exact ih index

/-- A change of a saved theme that keeps its configuration, or takes the one on screen. -/
theorem Matches.modifySaved (h : m.Matches) (index : ℕ) {f : SavedTheme → SavedTheme}
    (hf : m.Revises f) : (m.modifySaved index f).Matches := by
  intro saved hsaved
  change saved.configuration = m.configuration
  obtain ⟨id, hid, hfind⟩ := Option.bind_eq_some_iff.mp hsaved
  have hactive : ∀ before ∈ m.savedThemes.find? (fun theme => theme.id = id),
      before.configuration = m.configuration :=
    fun before hbefore => h before (Option.bind_eq_some_iff.mpr ⟨id, hid, hbefore⟩)
  rcases find?_modify m.savedThemes (fun theme => (hf theme).1) index id with heq | ⟨before, hbefore, heq⟩
  · exact hactive saved (heq.symm.trans hfind)
  · obtain rfl := Option.some_inj.mp (heq.symm.trans hfind)
    exact (hf before).2.elim (fun hsame => hsame.trans (hactive before hbefore)) fun hshown => hshown

/-- Changing a saved theme repeats no id. -/
theorem DistinctThemes.modifySaved (h : m.DistinctThemes) (index : ℕ)
    {f : SavedTheme → SavedTheme} (hf : m.Revises f) : (m.modifySaved index f).DistinctThemes := by
  have hids :
      (m.savedThemes.modify index f).map SavedTheme.id = m.savedThemes.map SavedTheme.id := by
    refine List.ext_getElem (by simp) fun i hi hi' => ?_
    rw [List.getElem_map, List.getElem_map, List.getElem_modify]
    split_ifs
    · exact (hf _).1
    · rfl
  unfold DistinctThemes
  change ((m.savedThemes.modify index f).map SavedTheme.id).Nodup
  rw [hids]
  exact h

theorem DistinctThemes.find? (h : m.DistinctThemes) {theme : SavedTheme}
    (ht : theme ∈ m.savedThemes) :
    m.savedThemes.find? (fun saved => saved.id = theme.id) = some theme :=
  KeyedList.lookup_of_mem h ht

/-- The selected theme is one that is on screen. -/
theorem DistinctThemes.matches (h : m.DistinctThemes) {theme : SavedTheme}
    (ht : theme ∈ m.savedThemes) (hselected : m.selectedCustomThemeId = some theme.id)
    (hc : theme.configuration = m.configuration) : m.Matches := by
  intro saved hsaved
  unfold activeSavedTheme at hsaved
  rw [hselected, Option.bind_some, h.find? ht] at hsaved
  rw [← Option.some_inj.mp hsaved, hc]

/-- What can be shown is in bounds, and the theme that is marked is on screen. -/
structure Marked (m : ThemeManager) : Prop where
  inBounds : m.AllInBounds
  distinct : m.DistinctThemes
  isMatched : m.Matches

/-- A saved state marks what it was saved with. -/
theorem Marked.applyState_persisted (h : m.Marked) (timestamp : ℚ) :
    (applyState (m.persisted timestamp)).Marked := by
  have hsame := sameTheme_applyState h.inBounds.configuration timestamp
  exact ⟨h.inBounds.congr hsame, h.distinct.congr hsame, h.isMatched.congr hsame⟩

/-- An earlier version marked nothing. -/
theorem marked_migrateLegacyIfNeeded (d : ThemeDefaults) : (migrateLegacyIfNeeded d).Marked := by
  refine ⟨ThemeApp.allInBounds_migrateLegacyIfNeeded d, ?_, matches_of_none ?_⟩
  · unfold migrateLegacyIfNeeded
    split_ifs <;> exact List.nodup_nil
  · unfold migrateLegacyIfNeeded
    split_ifs <;> rfl

/-- A saved theme that is marked has its id among the saved ones. -/
theorem mem_of_activeSavedTheme {saved : SavedTheme} (h : m.activeSavedTheme = some saved) :
    saved ∈ m.savedThemes ∧ m.selectedCustomThemeId = some saved.id := by
  obtain ⟨id, hid, hfind⟩ := Option.bind_eq_some_iff.mp h
  have hsaved : saved.id = id := by simpa using List.find?_some hfind
  exact ⟨List.mem_of_find?_eq_some hfind, by rw [hid, hsaved]⟩

end ThemeManager

namespace ThemeAction

open ThemeManager

variable {m : ThemeManager} {action : ThemeAction}

/-- The action puts another theme on screen before it changes what is marked. -/
def leavesTheme : ThemeAction → Bool
  | applyPreset _ => true
  | applySavedTheme _ => true
  | updateConfiguration _ => true
  | _ => false

/-- No offered action repeats an id. -/
theorem distinctThemes_assignments (h : m.DistinctThemes) (ho : action.IsOffered m) :
    ∀ m' ∈ action.assignments m, m'.DistinctThemes := by
  have hsame : ∀ {m' : ThemeManager}, m'.savedThemes = m.savedThemes → m'.DistinctThemes :=
    fun heq => h.of_eq heq
  cases action with
  | applyPreset preset =>
    simp only [assignments, ThemeManager.applyPreset, List.mem_cons, List.not_mem_nil, or_false,
      forall_eq_or_imp, forall_eq]
    exact ⟨hsame rfl, hsame rfl, hsame rfl⟩
  | applySavedTheme theme =>
    simp only [assignments, ThemeManager.applySavedTheme, List.mem_cons, List.not_mem_nil,
      or_false, forall_eq_or_imp, forall_eq]
    exact ⟨hsame rfl, hsame rfl, hsame rfl, hsame rfl⟩
  | updateConfiguration newConfiguration =>
    simp only [assignments, ThemeManager.updateConfiguration]
    split
    · split_ifs <;> simp only [List.mem_cons, List.not_mem_nil, or_false, forall_eq_or_imp,
        forall_eq]
      · exact ⟨hsame rfl, hsame rfl⟩
      · exact hsame rfl
    · simp only [List.mem_singleton, forall_eq]
      exact hsame rfl
  | updateMode newMode =>
    simp only [assignments, ThemeManager.updateMode, List.mem_singleton, forall_eq]
    exact hsame rfl
  | saveTheme name id now =>
    have hnew : ∀ saved : SavedTheme, saved.id = id →
        ((m.savedThemes ++ [saved]).map SavedTheme.id).Nodup := by
      intro saved hid
      rw [List.map_append, List.map_singleton, hid]
      exact List.nodup_append.mpr ⟨h, List.nodup_singleton id, by
        rintro a ha b hb rfl
        exact ho (List.mem_singleton.mp hb ▸ ha)⟩
    simp only [assignments, ThemeManager.saveTheme, List.mem_cons, List.not_mem_nil, or_false,
      forall_eq_or_imp, forall_eq]
    exact ⟨hnew _ rfl, hnew _ rfl⟩
  | updateActiveSavedTheme now =>
    exact forall_mem_updateActiveSavedTheme
      (fun _ hbefore index _ hf => hbefore.modifySaved index hf) h now
  | renameSavedTheme id newName now =>
    exact forall_mem_renameSavedTheme
      (fun _ hbefore index _ hf => hbefore.modifySaved index hf) h id newName now
  | deleteSavedTheme id =>
    have hs : ((m.savedThemes.filter fun theme => theme.id ≠ id).map SavedTheme.id).Nodup :=
      h.sublist (List.filter_sublist.map _)
    simp only [assignments, ThemeManager.deleteSavedTheme]
    split_ifs <;> simp only [List.mem_cons, List.not_mem_nil, or_false, forall_eq_or_imp, forall_eq]
    · exact ⟨hs, hs⟩
    · exact hs
  | addUserWallpaper name fileId mode =>
    simp only [assignments, ThemeManager.addUserWallpaper, List.mem_singleton, forall_eq]
    exact hsame rfl

/-- No moment of an action marks a saved theme that is not on screen, unless the action leaves the
theme that is marked. -/
theorem matches_assignments (h : m.Matches) (hd : m.DistinctThemes) (ho : action.IsOffered m)
    (hl : action.leavesTheme = true → m.activeSavedTheme = none) :
    ∀ m' ∈ action.assignments m, m'.Matches := by
  have hnone : ∀ {m' : ThemeManager}, m.activeSavedTheme = none →
      m'.selectedCustomThemeId = m.selectedCustomThemeId → m'.savedThemes = m.savedThemes →
      m'.Matches := by
    intro m' hactive hselected hsaved
    refine matches_of_none ?_
    unfold activeSavedTheme
    rw [hselected, hsaved]
    exact hactive
  have hunmarked : ∀ {m' : ThemeManager}, m'.selectedCustomThemeId = none → m'.Matches := by
    intro m' hselected
    refine matches_of_none ?_
    unfold activeSavedTheme
    rw [hselected]
    rfl
  cases action with
  | applyPreset preset =>
    have hactive := hl rfl
    simp only [assignments, ThemeManager.applyPreset, List.mem_cons, List.not_mem_nil, or_false,
      forall_eq_or_imp, forall_eq]
    exact ⟨hnone hactive rfl rfl, hnone hactive rfl rfl, hunmarked rfl⟩
  | applySavedTheme theme =>
    have hactive := hl rfl
    simp only [assignments, ThemeManager.applySavedTheme, List.mem_cons, List.not_mem_nil,
      or_false, forall_eq_or_imp, forall_eq]
    refine ⟨hnone hactive rfl rfl, hnone hactive rfl rfl, hnone hactive rfl rfl, ?_⟩
    exact DistinctThemes.matches (hd.of_eq rfl) ho rfl rfl
  | updateConfiguration newConfiguration =>
    have hactive : ({ m with configuration := newConfiguration.clamped } :
        ThemeManager).activeSavedTheme = none := hl rfl
    simp only [assignments, ThemeManager.updateConfiguration, hactive, List.mem_singleton,
      forall_eq]
    exact hnone (hl rfl) rfl rfl
  | updateMode newMode =>
    simp only [assignments, ThemeManager.updateMode, List.mem_singleton, forall_eq]
    exact h.of_eq rfl rfl rfl
  | saveTheme name id now =>
    simp only [assignments, ThemeManager.saveTheme, List.mem_cons, List.not_mem_nil, or_false,
      forall_eq_or_imp, forall_eq]
    refine ⟨?_, ?_⟩
    · intro saved hsaved
      obtain ⟨selected, hselected, hfind⟩ := Option.bind_eq_some_iff.mp hsaved
      change List.find? _ (m.savedThemes ++ _) = _ at hfind
      rw [List.find?_append, Option.or_eq_some_iff] at hfind
      rcases hfind with hold | ⟨-, hnew⟩
      · exact h saved (Option.bind_eq_some_iff.mpr ⟨selected, hselected, hold⟩)
      · rw [List.mem_singleton.mp (List.mem_of_find?_eq_some hnew)]
    · have ho' : (saveTheme name id now).IsOffered m := ho
      have hd' := distinctThemes_assignments hd ho' _
        (List.mem_cons_of_mem _ (List.mem_singleton_self _))
      exact hd'.matches (List.mem_append_right _ (List.mem_singleton_self _)) rfl rfl
  | updateActiveSavedTheme now =>
    exact forall_mem_updateActiveSavedTheme
      (fun _ hbefore index _ hf => hbefore.modifySaved index hf) h now
  | renameSavedTheme id newName now =>
    exact forall_mem_renameSavedTheme
      (fun _ hbefore index _ hf => hbefore.modifySaved index hf) h id newName now
  | deleteSavedTheme id =>
    have hfirst : Matches { m with
        savedThemes := m.savedThemes.filter fun theme => theme.id ≠ id } := by
      intro saved hsaved
      obtain ⟨hmem, hselected⟩ := mem_of_activeSavedTheme hsaved
      have hmem' : saved ∈ m.savedThemes := List.mem_of_mem_filter hmem
      refine h saved (Option.bind_eq_some_iff.mpr ⟨saved.id, hselected, ?_⟩)
      exact hd.find? hmem'
    simp only [assignments, ThemeManager.deleteSavedTheme]
    split_ifs <;> simp only [List.mem_cons, List.not_mem_nil, or_false, forall_eq_or_imp, forall_eq]
    · exact ⟨hfirst, hunmarked rfl⟩
    · exact hfirst
  | addUserWallpaper name fileId mode =>
    simp only [assignments, ThemeManager.addUserWallpaper, List.mem_singleton, forall_eq]
    exact h.of_eq rfl rfl rfl

/-- A whole action marks no saved theme that is not on screen. -/
theorem matches_last (h : m.Matches) (hd : m.DistinctThemes) (ho : action.IsOffered m) :
    ∀ m' ∈ (action.assignments m).getLast?, m'.Matches := by
  by_cases hl : action.leavesTheme = true
  · intro m' hm'
    cases action with
    | applyPreset preset =>
      obtain rfl := Option.some_inj.mp hm'
      exact matches_of_none rfl
    | applySavedTheme theme =>
      obtain rfl := Option.some_inj.mp hm'
      exact DistinctThemes.matches (hd.of_eq rfl) ho rfl rfl
    | updateConfiguration newConfiguration =>
      simp only [assignments, ThemeManager.updateConfiguration] at hm'
      split at hm'
      · rename_i saved hsaved
        split_ifs at hm' with heq
        · obtain rfl := Option.some_inj.mp hm'
          exact matches_of_none rfl
        · obtain rfl := Option.some_inj.mp hm'
          intro saved' hsaved'
          rw [← Option.some_inj.mp (hsaved.symm.trans hsaved')]
          exact not_not.mp heq
      · rename_i hactive
        obtain rfl := Option.some_inj.mp hm'
        exact matches_of_none hactive
    | _ => exact absurd hl Bool.false_ne_true
  · intro m' hm'
    exact matches_assignments h hd ho (fun hl' => absurd hl' hl) m' (List.mem_of_getLast? hm')

end ThemeAction

namespace ThemeDefaults

variable {d : ThemeDefaults}

/-- The states that a launch reads. -/
def states (d : ThemeDefaults) : List ThemePersistenceState :=
  d.appGroupState.toList ++ d.standard.toList

theorem mem_states {state : ThemePersistenceState} :
    state ∈ d.states ↔ d.appGroupState = some state ∨ d.standard = some state := by
  simp [states]

/-- The state that is loaded is a stored one. -/
theorem mem_states_of_primaryState {state : ThemePersistenceState}
    (h : d.primaryState = some state) : state ∈ d.states := by
  unfold primaryState at h
  rw [mem_states]
  split at h
  · rename_i happ hstandard
    split_ifs at h
    · exact .inl (happ.trans h)
    · exact .inr (hstandard.trans h)
  · exact (Option.or_eq_some_iff.mp h).imp_right And.right

/-- Where there is no state to load, none is stored. -/
theorem states_of_none (h : d.primaryState = none) : d.states = [] := by
  unfold primaryState at h
  split at h
  · split_ifs at h
  · obtain ⟨happ, hstandard⟩ := Option.or_eq_none_iff.mp h
    rw [states, happ, hstandard]
    rfl

/-- A write stores one state more. -/
theorem mem_states_write {entry : ThemeTarget × ThemePersistenceState}
    {state : ThemePersistenceState} (h : state ∈ (d.write entry).states) :
    state ∈ d.states ∨ state = entry.2 := by
  obtain ⟨target, written⟩ := entry
  rw [mem_states] at h ⊢
  cases target with
  | appGroup =>
    rcases h with happ | hstandard
    · have hwritten := (Option.ite_none_right_eq_some.mp happ).2
      exact .inr (Option.some_inj.mp hwritten).symm
    · exact .inl (.inr hstandard)
  | standard =>
    rcases h with happ | hstandard
    · exact .inl (.inl happ)
    · exact .inr (Option.some_inj.mp hstandard).symm

/-- What is stored after some writes was there before, or one of them wrote it. -/
theorem mem_states_foldl {writes : List (ThemeTarget × ThemePersistenceState)}
    {state : ThemePersistenceState} (h : state ∈ (writes.foldl write d).states) :
    state ∈ d.states ∨ ∃ entry ∈ writes, state = entry.2 := by
  induction writes generalizing d with
  | nil => exact .inl h
  | cons entry writes ih =>
    rcases ih h with hmem | ⟨later, hlater, heq⟩
    · rcases mem_states_write hmem with hmem | heq
      · exact .inl hmem
      · exact .inr ⟨entry, List.mem_cons_self, heq⟩
    · exact .inr ⟨later, List.mem_cons_of_mem _ hlater, heq⟩

theorem mem_states_saved {state saved : ThemePersistenceState}
    (h : state ∈ (d.saved saved).states) : state = saved := by
  unfold ThemeDefaults.saved at h
  split_ifs at h with ha
  · simpa [states, appGroupState, ha] using h
  · simpa [states, appGroupState, ha] using h

end ThemeDefaults

/-- An action of the step is offered. -/
def ThemeStep.IsOffered (l : ThemeStep) (x : ThemeApp) : Prop :=
  match l with
  | perform action _ => action.IsOffered x.manager
  | kill action _ _ => action.IsOffered x.manager
  | relaunch => True

/-- A kill cuts off no action that leaves the theme that is marked. -/
def ThemeStep.LeavesNoMark (l : ThemeStep) (x : ThemeApp) : Prop :=
  match l with
  | kill action _ _ => action.leavesTheme = true → x.manager.activeSavedTheme = none
  | _ => True

namespace ThemeApp

open ThemeManager

variable {x y : ThemeApp}

/-- The theme that is marked is on screen, and after a launch from any stored state it is. -/
structure Marked (x : ThemeApp) : Prop where
  manager : x.manager.Marked
  stored : ∀ state ∈ x.defaults.states, (applyState state).Marked

theorem marked_launch {d : ThemeDefaults} (h : ∀ state ∈ d.states, (applyState state).Marked) :
    (launch d).Marked := by
  refine ⟨?_, h⟩
  change (ThemeManager.load d).Marked
  unfold ThemeManager.load
  split
  · rename_i state hstate
    exact h state (ThemeDefaults.mem_states_of_primaryState hstate)
  · exact marked_migrateLegacyIfNeeded d

/-- A whole action stores its last moment everywhere. -/
theorem Marked.perform (h : x.Marked) {action : ThemeAction} (ho : action.IsOffered x.manager)
    (clock : ℕ → ℚ) : (x.perform action clock).Marked := by
  have hlast : ∀ last ∈ (action.assignments x.manager).getLast?, last.Marked := by
    intro last hlast
    have hmem := List.mem_of_getLast? hlast
    exact ⟨ThemeAction.allInBounds_assignments h.manager.inBounds ho last hmem,
      ThemeAction.distinctThemes_assignments h.manager.distinct ho last hmem,
      ThemeAction.matches_last h.manager.isMatched h.manager.distinct ho last hlast⟩
  have hdefaults : (x.perform action clock).defaults =
      (x.saves action clock).getLast?.elim x.defaults x.defaults.saved := by
    unfold ThemeApp.perform
    rw [writes_eq]
    exact ThemeDefaults.foldl_savesWrites _ _
  have hmanager : (x.perform action clock).manager =
      (action.assignments x.manager).getLast?.getD x.manager := rfl
  rw [getLast?_saves] at hdefaults
  cases hassigned : (action.assignments x.manager).getLast? with
  | none =>
    rw [hassigned] at hdefaults hmanager
    rw [Option.getD_none] at hmanager
    refine ⟨hmanager ▸ h.manager, ?_⟩
    rw [hdefaults]
    exact h.stored
  | some last =>
    rw [hassigned] at hdefaults hmanager
    rw [Option.getD_some] at hmanager
    refine ⟨hmanager ▸ hlast last hassigned, fun state hstate => ?_⟩
    rw [hdefaults] at hstate
    obtain rfl := ThemeDefaults.mem_states_saved hstate
    exact (hlast last hassigned).applyState_persisted _

/-- A kill stores moments of the action, each of which is marked. -/
theorem Marked.kill (h : x.Marked) {action : ThemeAction} (ho : action.IsOffered x.manager)
    (hl : action.leavesTheme = true → x.manager.activeSavedTheme = none) (clock : ℕ → ℚ) (n : ℕ) :
    (x.kill action clock n).Marked := by
  refine marked_launch fun state hstate => ?_
  rcases ThemeDefaults.mem_states_foldl hstate with hmem | ⟨entry, hentry, rfl⟩
  · exact h.stored state hmem
  · obtain ⟨saved, hsaved, hentry⟩ := List.mem_flatMap.mp (List.mem_of_mem_take hentry)
    obtain ⟨target, -, rfl⟩ := List.mem_map.mp hentry
    obtain ⟨⟨m, i⟩, hm, rfl⟩ := List.mem_map.mp hsaved
    have hmem : m ∈ action.assignments x.manager := (List.mem_zipIdx' hm).2 ▸ List.getElem_mem _
    have hmarked : m.Marked :=
      ⟨ThemeAction.allInBounds_assignments h.manager.inBounds ho m hmem,
        ThemeAction.distinctThemes_assignments h.manager.distinct ho m hmem,
        ThemeAction.matches_assignments h.manager.isMatched h.manager.distinct ho hl m hmem⟩
    exact hmarked.applyState_persisted _

/-- Every step leaves the manager and the stored states marked. -/
theorem marked_step (l : ThemeStep) (x y : ThemeApp) (h : x.Marked)
    (hg : l.IsOffered x ∧ l.LeavesNoMark x) (hy : step l x = some y) : y.Marked := by
  cases l with
  | perform action clock =>
    obtain rfl := Option.some_inj.mp hy
    exact h.perform hg.1 clock
  | kill action clock n =>
    obtain rfl := Option.some_inj.mp hy
    exact h.kill hg.1 hg.2 clock n
  | relaunch =>
    obtain rfl := Option.some_inj.mp hy
    exact marked_launch h.stored

/-- Over every run in which no kill cuts off an action that leaves the theme that is marked, the
saved theme that is marked as selected is the one on screen, whatever the clock says. -/
theorem matches_run {d : ThemeDefaults} {ls : List ThemeStep} (hd : d.primaryState = none)
    (ho : Runs.Guarded step ThemeStep.IsOffered ls (launch d))
    (hl : Runs.Guarded step ThemeStep.LeavesNoMark ls (launch d))
    (hr : Runs.run step ls (launch d) = some x) : x.manager.Matches := by
  have hstart : (launch d).Marked := by
    refine marked_launch fun state hstate => ?_
    rw [ThemeDefaults.states_of_none hd] at hstate
    cases hstate
  exact (Runs.invariant_of_guarded marked_step hstart (ho.and hl) hr).manager.isMatched

/-- A theme is saved and marked, the clock goes back, and a kill cuts off the change of the mode. -/
theorem matches_run_sample : ∃ x : ThemeApp,
    Runs.run step [.perform (.saveTheme "Mine" "a" 1) fun _ => 2,
      .kill (.updateMode .dark) (fun _ => 1) 1] (launch {}) = some x ∧
      x.manager.activeSavedTheme ≠ none ∧ x.manager.Matches := by
  have ho : Runs.Guarded step ThemeStep.IsOffered [.perform (.saveTheme "Mine" "a" 1) fun _ => 2,
      .kill (.updateMode .dark) (fun _ => 1) 1] (launch {}) :=
    ⟨List.not_mem_nil, fun _ _ => ⟨trivial, fun _ _ => trivial⟩⟩
  have hl : Runs.Guarded step ThemeStep.LeavesNoMark
      [.perform (.saveTheme "Mine" "a" 1) fun _ => 2,
        .kill (.updateMode .dark) (fun _ => 1) 1] (launch {}) :=
    ⟨trivial, fun _ _ => ⟨fun hleaves => absurd hleaves Bool.false_ne_true, fun _ _ => trivial⟩⟩
  exact ⟨_, rfl, by decide +kernel, matches_run rfl ho hl rfl⟩

/-- What is stored after a theme has been saved at time 1. -/
theorem holdsUntil_sample :
    ((launch {}).perform (.saveTheme "Mine" "a" 1) fun _ => 1).defaults.HoldsUntil 2 := by
  have hwritten : ∀ state ∈ (launch {}).saves (.saveTheme "Mine" "a" 1) fun _ => 1,
      state.updatedAt ≤ 2 := by
    intro state hstate
    obtain ⟨entry, -, rfl⟩ := List.mem_map.mp hstate
    exact one_le_two
  refine ⟨fun state hstate => hwritten state ?_, fun state hstate => hwritten state ?_⟩
  · obtain rfl := Option.some_inj.mp hstate
    exact List.mem_cons_of_mem _ (List.mem_singleton_self _)
  · obtain rfl := Option.some_inj.mp hstate
    exact List.mem_cons_of_mem _ (List.mem_singleton_self _)

/-- The intensity is turned down while a saved theme is marked, and the app is killed after the
first save : the next launch shows the change and marks the saved theme. -/
theorem not_matches_run : ¬∀ (d : ThemeDefaults) (ls : List ThemeStep) (x : ThemeApp),
    d.primaryState = none → Runs.Guarded step ThemeStep.IsFaithful ls (launch d) →
      Runs.run step ls (launch d) = some x → x.manager.Matches := by
  intro h
  have hg : Runs.Guarded step ThemeStep.IsFaithful [.perform (.saveTheme "Mine" "a" 1) fun _ => 1,
      .kill (.updateConfiguration { ThemeCatalog.defaultTheme.defaultConfiguration with
        intensity := 0 }) (fun _ => 2) 2] (launch {}) := by
    refine ⟨List.not_mem_nil, fun x₁ h₁ => ⟨⟨trivial, ?_, monotone_const⟩, fun _ _ => trivial⟩⟩
    obtain rfl := Option.some_inj.mp h₁
    exact holdsUntil_sample
  have hmatches := h {} _ _ rfl hg rfl ⟨"a", "Mine", "iridescent-flow",
    ThemeCatalog.defaultTheme.defaultConfiguration, .system, 1⟩ (by decide +kernel)
  revert hmatches
  decide +kernel

end ThemeApp

end Notelayer
