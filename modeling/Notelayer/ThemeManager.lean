import Mathlib.Data.List.TakeDrop
import Mathlib.Order.Lattice
import Notelayer.Foundation

/-!
# Themes

The catalog of themes and the actions of `ThemeManager`. Every assignment to one of its properties
saves the whole state, so that an action is the list of the states after its assignments
(`ThemeAction.assignments`).
-/

namespace Notelayer

/-! ## Themes -/

/-- A named color. -/
structure ThemeAccent where
  id : String
  name : String
  hex : String
  deriving DecidableEq

/-- How the surfaces above the wallpaper are drawn. -/
inductive ThemeSurfaceStyle where
  | soft
  | frosted
  | gradient
  | solid
  deriving DecidableEq

/-- Where the wallpaper comes from. -/
inductive ThemeWallpaperKind where
  | gradient
  | pattern
  | designer
  | image
  deriving DecidableEq

/-- How an imported image covers the screen. -/
inductive ImageWallpaperMode where
  | fill
  | tile
  deriving DecidableEq

/-- The chosen wallpaper. -/
structure ThemeWallpaperSelection where
  kind : ThemeWallpaperKind
  id : String
  imageFilename : Option String := none
  imageMode : Option ImageWallpaperMode := none
  deriving DecidableEq

/-- The two numbers are finite : nothing else can be encoded. -/
structure ThemeConfiguration where
  wallpaper : ThemeWallpaperSelection
  accent : ThemeAccent
  sectionTint : ThemeAccent
  surfaceStyle : ThemeSurfaceStyle
  intensity : ℚ
  surfaceOpacity : ℚ := 85 / 100
  deriving DecidableEq

/-- The appearance : that of the system, or a fixed one. -/
inductive ThemeMode where
  | system
  | light
  | dark
  deriving DecidableEq

/-- A theme that the user saved under a name. -/
structure SavedTheme where
  id : String
  name : String
  themeId : String
  configuration : ThemeConfiguration
  mode : ThemeMode
  updatedAt : ℚ
  deriving DecidableEq

/-- An imported image. -/
structure UserWallpaper where
  id : String
  name : String
  filename : String
  mode : ImageWallpaperMode
  deriving DecidableEq

/-- A theme of the catalog, its colors apart. -/
structure ThemeDefinition where
  id : String
  name : String
  preferredMode : ThemeMode
  defaultConfiguration : ThemeConfiguration
  deriving DecidableEq

namespace ThemeConfiguration

/-- The intensity within the unit interval. -/
def clampedIntensity (value : ℚ) : ℚ :=
  min (max value 0) 1

/-- The opacity within the unit interval. -/
def clampedOpacity (value : ℚ) : ℚ :=
  min (max value 0) 1

/-- The configuration with both numbers within the unit interval. -/
def clamped (configuration : ThemeConfiguration) : ThemeConfiguration :=
  { configuration with
    intensity := clampedIntensity configuration.intensity
    surfaceOpacity := clampedOpacity configuration.surfaceOpacity }

/-- Both numbers lie within the unit interval. -/
def InBounds (configuration : ThemeConfiguration) : Prop :=
  (0 ≤ configuration.intensity ∧ configuration.intensity ≤ 1) ∧
    0 ≤ configuration.surfaceOpacity ∧ configuration.surfaceOpacity ≤ 1

instance (configuration : ThemeConfiguration) : Decidable configuration.InBounds := by
  unfold InBounds
  infer_instance

theorem inBounds_clamped (configuration : ThemeConfiguration) : configuration.clamped.InBounds :=
  ⟨⟨le_min (le_max_right _ _) zero_le_one, min_le_right _ _⟩,
    le_min (le_max_right _ _) zero_le_one, min_le_right _ _⟩

theorem InBounds.clamped_eq {configuration : ThemeConfiguration} (h : configuration.InBounds) :
    configuration.clamped = configuration := by
  obtain ⟨⟨hi, hi'⟩, ho, ho'⟩ := h
  unfold clamped clampedIntensity clampedOpacity
  rw [max_eq_left hi, min_eq_left hi', max_eq_left ho, min_eq_left ho']

end ThemeConfiguration

/-! ## The catalog -/

namespace ThemeAccentCatalog

/-- The accents of the catalog. -/
def accents : List ThemeAccent :=
  [⟨"cool-blue", "Cool Blue", "#3B82F6"⟩, ⟨"graphite", "Graphite", "#334155"⟩,
    ⟨"hot-pink", "Hot Pink", "#FF4FD8"⟩, ⟨"warm-taupe", "Warm Taupe", "#B8926A"⟩,
    ⟨"mint", "Mint", "#20C997"⟩, ⟨"sunset", "Sunset", "#FB5607"⟩,
    ⟨"lavender", "Lavender", "#9B5DE5"⟩, ⟨"citrus", "Citrus", "#FFBE0B"⟩,
    ⟨"ocean", "Ocean", "#0077B6"⟩, ⟨"forest", "Forest", "#2F855A"⟩,
    ⟨"berry", "Berry", "#B5179E"⟩, ⟨"ember", "Ember", "#E63946"⟩]

/-- The accent of a name, or the first accent. -/
def accent (name : String) : ThemeAccent :=
  (accents.find? fun accent => accent.name = name).getD ⟨"cool-blue", "Cool Blue", "#3B82F6"⟩

end ThemeAccentCatalog

/-- The presets of earlier versions. -/
inductive LegacyThemePreset where
  | barbie
  | cheetah
  | iridescent
  | arctic
  | ocean
  | forest
  | sunset
  | lavender
  | graphite
  | sand
  | mint
  | ember
  | berry
  | citrus
  | slate
  | mono
  deriving DecidableEq

namespace LegacyThemePreset

/-- The text under which a preset was stored by earlier versions. -/
def rawValue : LegacyThemePreset → String
  | barbie => "barbie"
  | cheetah => "cheetah"
  | iridescent => "iridescent"
  | arctic => "arctic"
  | ocean => "ocean"
  | forest => "forest"
  | sunset => "sunset"
  | lavender => "lavender"
  | graphite => "graphite"
  | sand => "sand"
  | mint => "mint"
  | ember => "ember"
  | berry => "berry"
  | citrus => "citrus"
  | slate => "slate"
  | mono => "mono"

/-- `ThemeAccentCatalog.legacyAccent(for:)`. -/
def legacyAccent : LegacyThemePreset → ThemeAccent
  | barbie => ThemeAccentCatalog.accent "Hot Pink"
  | cheetah => ThemeAccentCatalog.accent "Citrus"
  | iridescent => ThemeAccentCatalog.accent "Cool Blue"
  | arctic => ThemeAccentCatalog.accent "Cool Blue"
  | ocean => ThemeAccentCatalog.accent "Ocean"
  | forest => ThemeAccentCatalog.accent "Forest"
  | sunset => ThemeAccentCatalog.accent "Sunset"
  | lavender => ThemeAccentCatalog.accent "Lavender"
  | graphite => ThemeAccentCatalog.accent "Graphite"
  | sand => ThemeAccentCatalog.accent "Warm Taupe"
  | mint => ThemeAccentCatalog.accent "Mint"
  | ember => ThemeAccentCatalog.accent "Ember"
  | berry => ThemeAccentCatalog.accent "Berry"
  | citrus => ThemeAccentCatalog.accent "Citrus"
  | slate => ThemeAccentCatalog.accent "Graphite"
  | mono => ThemeAccentCatalog.accent "Graphite"

/-- `ThemeCatalog.legacyConfiguration(for:)`. -/
def legacyConfiguration (preset : LegacyThemePreset) : ThemeConfiguration where
  wallpaper := { kind := .gradient, id := "legacy-" ++ preset.rawValue }
  accent := preset.legacyAccent
  sectionTint := preset.legacyAccent
  surfaceStyle := .soft
  intensity := 1 / 2

end LegacyThemePreset

namespace ThemeCatalog

/-- A theme of the catalog, from the names of its accents. -/
def makeTheme (id name : String) (preferredMode : ThemeMode) (kind : ThemeWallpaperKind)
    (wallpaper accentName sectionTintName : String) (surfaceStyle : ThemeSurfaceStyle)
    (intensity : ℚ) : ThemeDefinition where
  id := id
  name := name
  preferredMode := preferredMode
  defaultConfiguration := {
    wallpaper := { kind := kind, id := wallpaper }
    accent := ThemeAccentCatalog.accent accentName
    sectionTint := ThemeAccentCatalog.accent sectionTintName
    surfaceStyle := surfaceStyle
    intensity := intensity }

/-- The theme that the app starts with. -/
def defaultTheme : ThemeDefinition :=
  makeTheme "iridescent-flow" "Iridescent Flow" .light .gradient "iridescent-flow" "Cool Blue"
    "Lavender" .frosted (60 / 100)

/-- The default theme is the first one. -/
def themes : List ThemeDefinition :=
  [defaultTheme,
    makeTheme "focus-dark" "Focus Dark" .dark .gradient "focus-dark" "Graphite" "Cool Blue" .solid
      (25 / 100),
    makeTheme "midnight-bloom" "Midnight Bloom" .dark .gradient "midnight-bloom" "Lavender" "Berry"
      .gradient (45 / 100),
    makeTheme "sunset-rise" "Sunset Rise" .light .gradient "sunset-rise" "Sunset" "Citrus" .gradient
      (65 / 100),
    makeTheme "arctic-glow" "Arctic Glow" .light .gradient "arctic-glow" "Ocean" "Mint" .soft
      (50 / 100),
    makeTheme "playful-pattern" "Playful Pattern" .light .pattern "playful-dots" "Hot Pink" "Citrus"
      .soft (75 / 100),
    makeTheme "cheetah-bold" "Cheetah Bold" .light .pattern "cheetah" "Warm Taupe" "Ember" .gradient
      (60 / 100),
    makeTheme "noir-dots" "Noir Dots" .dark .pattern "noir-dots" "Hot Pink" "Cool Blue" .frosted
      (55 / 100),
    makeTheme "designer-calm" "Designer Calm" .light .designer "gucci-monogram" "Warm Taupe"
      "Graphite" .gradient (40 / 100),
    makeTheme "marble-night" "Marble Night" .dark .designer "marble-fabric" "Graphite" "Lavender"
      .solid (45 / 100)]

/-- The theme of the catalog with an id. -/
def theme (id : String) : Option ThemeDefinition :=
  themes.find? fun theme => theme.id = id

theorem inBounds_themes : ∀ theme ∈ themes, theme.defaultConfiguration.InBounds := by
  decide +kernel

theorem inBounds_legacyConfiguration (preset : LegacyThemePreset) :
    preset.legacyConfiguration.InBounds := by
  unfold LegacyThemePreset.legacyConfiguration ThemeConfiguration.InBounds
  norm_num

end ThemeCatalog

/-! ## The manager -/

/-- The selected theme, with the saved themes and the imported wallpapers. -/
structure ThemeManager where
  mode : ThemeMode := .system
  configuration : ThemeConfiguration := ThemeCatalog.defaultTheme.defaultConfiguration
  selectedPresetId : Option String := some ThemeCatalog.defaultTheme.id
  selectedCustomThemeId : Option String := none
  savedThemes : List SavedTheme := []
  userWallpapers : List UserWallpaper := []
  deriving DecidableEq

namespace ThemeManager

variable (m : ThemeManager)

/-- The selected theme of the catalog. -/
def activeTheme : Option ThemeDefinition :=
  m.selectedPresetId.bind ThemeCatalog.theme

/-- The selected theme of the catalog, or the default theme. -/
def currentTheme : ThemeDefinition :=
  m.activeTheme.getD ThemeCatalog.defaultTheme

/-- The selected saved theme. -/
def activeSavedTheme : Option SavedTheme :=
  m.selectedCustomThemeId.bind fun id => m.savedThemes.find? fun theme => theme.id = id

/-! ### Actions -/

/-- Each action is the list of the states after its assignments, one save after each. -/
def applyPreset (preset : ThemeDefinition) : List ThemeManager :=
  let m₁ := { m with configuration := preset.defaultConfiguration }
  let m₂ := { m₁ with selectedPresetId := some preset.id }
  [m₁, m₂, { m₂ with selectedCustomThemeId := none }]

/-- Selects a saved theme. Each assignment to a published property is one state. -/
def applySavedTheme (theme : SavedTheme) : List ThemeManager :=
  let m₁ := { m with configuration := theme.configuration }
  let m₂ := { m₁ with mode := theme.mode }
  let m₃ := { m₂ with selectedPresetId := some theme.themeId }
  [m₁, m₂, m₃, { m₃ with selectedCustomThemeId := some theme.id }]

/-- Changes the configuration, where a change of a saved theme deselects it. -/
def updateConfiguration (newConfiguration : ThemeConfiguration) : List ThemeManager :=
  let m₁ := { m with configuration := newConfiguration.clamped }
  match m₁.activeSavedTheme with
  | some saved =>
    if saved.configuration ≠ newConfiguration.clamped then
      [m₁, { m₁ with selectedCustomThemeId := none }]
    else [m₁]
  | none => [m₁]

/-- Changes the appearance. -/
def updateMode (newMode : ThemeMode) : List ThemeManager :=
  [{ m with mode := newMode }]

/-- `id` is the new UUID, and `now` the time. -/
def saveTheme (name id : String) (now : ℚ) : List ThemeManager :=
  let finalName := if (trimmed name).isEmpty then "Custom Theme" else trimmed name
  let saved : SavedTheme := ⟨id, finalName, m.currentTheme.id, m.configuration, m.mode, now⟩
  let m₁ := { m with savedThemes := m.savedThemes ++ [saved] }
  [m₁, { m₁ with selectedCustomThemeId := some saved.id }]

/-- An assignment to a property of one saved theme. -/
def modifySaved (index : ℕ) (f : SavedTheme → SavedTheme) : ThemeManager :=
  { m with savedThemes := m.savedThemes.modify index f }

/-- Overwrites the selected saved theme with the current configuration. -/
def updateActiveSavedTheme (now : ℚ) : List ThemeManager :=
  match m.selectedCustomThemeId.bind fun id =>
    m.savedThemes.findIdx? fun theme => theme.id = id with
  | none => []
  | some index =>
    let m₁ := m.modifySaved index fun saved => { saved with themeId := m.currentTheme.id }
    let m₂ := m₁.modifySaved index fun saved => { saved with configuration := m.configuration }
    let m₃ := m₂.modifySaved index fun saved => { saved with mode := m.mode }
    [m₁, m₂, m₃, m₃.modifySaved index fun saved => { saved with updatedAt := now }]

/-- Renames a saved theme. A blank name keeps the old one. -/
def renameSavedTheme (id newName : String) (now : ℚ) : List ThemeManager :=
  match m.savedThemes.findIdx? fun theme => theme.id = id with
  | none => []
  | some index =>
    let m₁ := m.modifySaved index fun saved =>
      { saved with name := if (trimmed newName).isEmpty then saved.name else trimmed newName }
    [m₁, m₁.modifySaved index fun saved => { saved with updatedAt := now }]

/-- Deletes a saved theme, and deselects it. -/
def deleteSavedTheme (id : String) : List ThemeManager :=
  let m₁ := { m with savedThemes := m.savedThemes.filter fun theme => theme.id ≠ id }
  if m₁.selectedCustomThemeId = some id then [m₁, { m₁ with selectedCustomThemeId := none }]
  else [m₁]

/-- The file is written. -/
def addUserWallpaper (name fileId : String) (mode : ImageWallpaperMode) : List ThemeManager :=
  [{ m with
    userWallpapers :=
      m.userWallpapers ++ [⟨fileId, name, "wallpaper_" ++ fileId ++ ".png", mode⟩] }]

end ThemeManager

/-- What the views ask of the manager. -/
inductive ThemeAction where
  | applyPreset (preset : ThemeDefinition)
  | applySavedTheme (theme : SavedTheme)
  | updateConfiguration (newConfiguration : ThemeConfiguration)
  | updateMode (newMode : ThemeMode)
  | saveTheme (name id : String) (now : ℚ)
  | updateActiveSavedTheme (now : ℚ)
  | renameSavedTheme (id newName : String) (now : ℚ)
  | deleteSavedTheme (id : String)
  | addUserWallpaper (name fileId : String) (mode : ImageWallpaperMode)

/-- The states after the assignments. -/
def ThemeAction.assignments (action : ThemeAction) (m : ThemeManager) : List ThemeManager :=
  match action with
  | applyPreset preset => m.applyPreset preset
  | applySavedTheme theme => m.applySavedTheme theme
  | updateConfiguration newConfiguration => m.updateConfiguration newConfiguration
  | updateMode newMode => m.updateMode newMode
  | saveTheme name id now => m.saveTheme name id now
  | updateActiveSavedTheme now => m.updateActiveSavedTheme now
  | renameSavedTheme id newName now => m.renameSavedTheme id newName now
  | deleteSavedTheme id => m.deleteSavedTheme id
  | addUserWallpaper name fileId mode => m.addUserWallpaper name fileId mode

/-- The views offer the themes of the catalog and the saved ones, and ids are new. -/
def ThemeAction.IsOffered (action : ThemeAction) (m : ThemeManager) : Prop :=
  match action with
  | applyPreset preset => preset ∈ ThemeCatalog.themes
  | applySavedTheme theme => theme ∈ m.savedThemes
  | saveTheme _ id _ => id ∉ m.savedThemes.map SavedTheme.id
  | _ => True

end Notelayer
