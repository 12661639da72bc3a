import Notelayer.Library.JSON
import Notelayer.ThemePersistence

/-!
# The coding of themes

The state of the themes is kept as JSON of records in records. Earlier versions wrote neither the
tint of the sections nor the opacity of the surfaces into a configuration, and no theme of the
catalog into a saved theme. What was written without some of these keys, all through the state, is
read with the accent, the opacity 0.85 and the default theme in their places
(`ThemePersistenceState.reads_encodeWithout`).
-/

namespace Notelayer

open JSONValue JSONCodable

/-! ## Values -/

/-- The text under which a surface style is stored. -/
def ThemeSurfaceStyle.rawValue : ThemeSurfaceStyle → String
  | soft => "soft"
  | frosted => "frosted"
  | gradient => "gradient"
  | solid => "solid"

/-- `ThemeSurfaceStyle(rawValue:)`. -/
def ThemeSurfaceStyle.ofRawValue (raw : String) : Option ThemeSurfaceStyle :=
  [soft, frosted, gradient, solid].find? fun style => style.rawValue = raw

instance : JSONCodable ThemeSurfaceStyle :=
  .ofRawValue ThemeSurfaceStyle.rawValue ThemeSurfaceStyle.ofRawValue
    fun style => by cases style <;> decide

/-- The text under which a kind of wallpaper is stored. -/
def ThemeWallpaperKind.rawValue : ThemeWallpaperKind → String
  | gradient => "gradient"
  | pattern => "pattern"
  | designer => "designer"
  | image => "image"

/-- `ThemeWallpaperKind(rawValue:)`. -/
def ThemeWallpaperKind.ofRawValue (raw : String) : Option ThemeWallpaperKind :=
  [gradient, pattern, designer, image].find? fun kind => kind.rawValue = raw

instance : JSONCodable ThemeWallpaperKind :=
  .ofRawValue ThemeWallpaperKind.rawValue ThemeWallpaperKind.ofRawValue
    fun kind => by cases kind <;> decide

/-- The text under which a mode of an image is stored. -/
def ImageWallpaperMode.rawValue : ImageWallpaperMode → String
  | fill => "fill"
  | tile => "tile"

/-- `ImageWallpaperMode(rawValue:)`. -/
def ImageWallpaperMode.ofRawValue (raw : String) : Option ImageWallpaperMode :=
  [fill, tile].find? fun mode => mode.rawValue = raw

instance : JSONCodable ImageWallpaperMode :=
  .ofRawValue ImageWallpaperMode.rawValue ImageWallpaperMode.ofRawValue
    fun mode => by cases mode <;> decide

/-- The text under which a mode is stored. -/
def ThemeMode.rawValue : ThemeMode → String
  | system => "system"
  | light => "light"
  | dark => "dark"

/-- `ThemeMode(rawValue:)`. -/
def ThemeMode.ofRawValue (raw : String) : Option ThemeMode :=
  [system, light, dark].find? fun mode => mode.rawValue = raw

instance : JSONCodable ThemeMode :=
  .ofRawValue ThemeMode.rawValue ThemeMode.ofRawValue fun mode => by cases mode <;> decide

/-! ## Records with the coding that the compiler derives -/

namespace ThemeAccent

/-- The fields that an accent encodes. -/
def fields (accent : ThemeAccent) : List Field :=
  [written "id" accent.id, written "name" accent.name, written "hex" accent.hex]

instance : JSONCodable ThemeAccent where
  encode accent := keyed accent.fields
  decode v := do
    some {
      id := ← v.decodeKey String "id"
      name := ← v.decodeKey String "name"
      hex := ← v.decodeKey String "hex" }
  decode_of_encode := by
    intro accent v hv
    have hhas := has_of_keyed (by simp [fields, written]) hv
    simp only [fields, List.forall_mem_cons] at hhas
    obtain ⟨hid, hname, hhex, -⟩ := hhas
    simp [hid.decodeKey, hname.decodeKey, hhex.decodeKey]
  encode_ne_null _ := keyed_ne_null _

theorem isSome_encode (accent : ThemeAccent) : (encode accent).isSome := by
  refine isSome_keyed.mpr ?_
  simp [fields, encode]

end ThemeAccent

namespace ThemeWallpaperSelection

/-- The fields that a wallpaper selection encodes. -/
def fields (selection : ThemeWallpaperSelection) : List Field :=
  [written "kind" selection.kind, written "id" selection.id,
    writtenIfPresent "imageFilename" selection.imageFilename,
    writtenIfPresent "imageMode" selection.imageMode]

instance : JSONCodable ThemeWallpaperSelection where
  encode selection := keyed selection.fields
  decode v := do
    some {
      kind := ← v.decodeKey ThemeWallpaperKind "kind"
      id := ← v.decodeKey String "id"
      imageFilename := ← v.decodeIfPresent String "imageFilename"
      imageMode := ← v.decodeIfPresent ImageWallpaperMode "imageMode" }
  decode_of_encode := by
    intro selection v hv
    have hhas := has_of_keyed (by simp [fields, written, writtenIfPresent]) hv
    simp only [fields, List.forall_mem_cons] at hhas
    obtain ⟨hkind, hid, hfilename, hmode, -⟩ := hhas
    simp [hkind.decodeKey, hid.decodeKey, hfilename.decodeIfPresent, hmode.decodeIfPresent]
  encode_ne_null _ := keyed_ne_null _

theorem isSome_encode (selection : ThemeWallpaperSelection) : (encode selection).isSome := by
  refine isSome_keyed.mpr ?_
  simp [fields, encode]

end ThemeWallpaperSelection

namespace UserWallpaper

/-- The fields that an imported wallpaper encodes. -/
def fields (wallpaper : UserWallpaper) : List Field :=
  [written "id" wallpaper.id, written "name" wallpaper.name,
    written "filename" wallpaper.filename, written "mode" wallpaper.mode]

instance : JSONCodable UserWallpaper where
  encode wallpaper := keyed wallpaper.fields
  decode v := do
    some {
      id := ← v.decodeKey String "id"
      name := ← v.decodeKey String "name"
      filename := ← v.decodeKey String "filename"
      mode := ← v.decodeKey ImageWallpaperMode "mode" }
  decode_of_encode := by
    intro wallpaper v hv
    have hhas := has_of_keyed (by simp [fields, written]) hv
    simp only [fields, List.forall_mem_cons] at hhas
    obtain ⟨hid, hname, hfilename, hmode, -⟩ := hhas
    simp [hid.decodeKey, hname.decodeKey, hfilename.decodeKey, hmode.decodeKey]
  encode_ne_null _ := keyed_ne_null _

theorem isSome_encode (wallpaper : UserWallpaper) : (encode wallpaper).isSome := by
  refine isSome_keyed.mpr ?_
  simp [fields, encode]

end UserWallpaper

/-! ## Configurations and saved themes -/

/-- The keys with a default of their own. -/
def laterThemeKeys : List String :=
  ["sectionTint", "surfaceOpacity", "themeId"]

variable {removed : String → Bool} {v : JSONValue}

namespace ThemeConfiguration

/-- The fields that a configuration encodes. -/
def fields (configuration : ThemeConfiguration) : List Field :=
  [written "wallpaper" configuration.wallpaper, written "accent" configuration.accent,
    written "sectionTint" configuration.sectionTint,
    written "surfaceStyle" configuration.surfaceStyle,
    written "intensity" configuration.intensity,
    written "surfaceOpacity" configuration.surfaceOpacity]

/-- What a version writes that does not know some of the keys. -/
def encodeWithout (removed : String → Bool) (configuration : ThemeConfiguration) :
    Option JSONValue :=
  (keyed configuration.fields).map (JSONValue.removing removed)

/-- `init(from:)`. -/
def decode (v : JSONValue) : Option ThemeConfiguration := do
  let wallpaper ← v.decodeKey ThemeWallpaperSelection "wallpaper"
  let accent ← v.decodeKey ThemeAccent "accent"
  let sectionTint := (← v.decodeIfPresent ThemeAccent "sectionTint").getD accent
  let surfaceStyle ← v.decodeKey ThemeSurfaceStyle "surfaceStyle"
  let intensity ← v.decodeKey ℚ "intensity"
  let surfaceOpacity := (← v.decodeIfPresent ℚ "surfaceOpacity").getD (85 / 100)
  some { wallpaper, accent, sectionTint, surfaceStyle, intensity, surfaceOpacity }

/-- The configuration that has the defaults under the keys that were removed. -/
def removing (removed : String → Bool) (configuration : ThemeConfiguration) :
    ThemeConfiguration :=
  { configuration with
    sectionTint := if removed "sectionTint" then configuration.accent
      else configuration.sectionTint
    surfaceOpacity := if removed "surfaceOpacity" then 85 / 100
      else configuration.surfaceOpacity }

/-- A configuration is decoded where later keys are missing. -/
theorem decode_encodeWithout {configuration : ThemeConfiguration}
    (hremoved : ∀ key, removed key = true → key ∈ laterThemeKeys)
    (hv : configuration.encodeWithout removed = some v) :
    decode v = some (configuration.removing removed) := by
  obtain ⟨w, hw, rfl⟩ := Option.map_eq_some_iff.mp hv
  have hhas := has_of_keyed (by simp [fields, written]) hw
  simp only [fields, List.forall_mem_cons] at hhas
  obtain ⟨hwallpaper, haccent, htint, hstyle, hintensity, hopacity, -⟩ := hhas
  have hkept : ∀ {A : Type} [JSONCodable A] {key : String} {a : A}, w.Has (written key a) →
      key ∉ laterThemeKeys → (w.removing removed).decodeKey A key = some a := fun h hkey =>
    decodeKey_removing_of_kept h.decodeKey
      (Bool.eq_false_iff.mpr fun h => hkey (hremoved _ h))
  unfold decode
  rw [hkept hwallpaper (by decide), hkept haccent (by decide),
    htint.decodeIfPresent_removing_written, hkept hstyle (by decide), hkept hintensity (by decide),
    hopacity.decodeIfPresent_removing_written]
  simp only [Option.bind_eq_bind, Option.bind_some, getD_ite_none]
  rfl

theorem isSome_encodeWithout (removed : String → Bool) (configuration : ThemeConfiguration) :
    (configuration.encodeWithout removed).isSome := by
  unfold encodeWithout
  rw [Option.isSome_map]
  refine isSome_keyed.mpr ?_
  simp only [fields, List.forall_mem_cons, isSome_written, ThemeAccent.isSome_encode,
    ThemeWallpaperSelection.isSome_encode]
  simp [encode]

theorem encodeWithout_ne_null (removed : String → Bool) (configuration : ThemeConfiguration) :
    configuration.encodeWithout removed ≠ some .null := by
  intro h
  obtain ⟨w, hw, hnull⟩ := Option.map_eq_some_iff.mp h
  exact keyed_ne_null _ (removing_eq_null.mp hnull ▸ hw)

instance : JSONCodable ThemeConfiguration where
  encode := encodeWithout fun _ => false
  decode := decode
  decode_of_encode hv := decode_encodeWithout (fun _ h => absurd h Bool.false_ne_true) hv
  encode_ne_null := encodeWithout_ne_null _

end ThemeConfiguration

namespace SavedTheme

/-- The fields of a saved theme, where those of its configuration lack the removed keys. -/
def fieldsWithout (removed : String → Bool) (theme : SavedTheme) : List Field :=
  [written "id" theme.id, written "name" theme.name, written "themeId" theme.themeId,
    ("configuration", (theme.configuration.encodeWithout removed).map some),
    written "mode" theme.mode, written "updatedAt" theme.updatedAt]

/-- The JSON object of a saved theme, without the removed keys at either level. -/
def encodeWithout (removed : String → Bool) (theme : SavedTheme) : Option JSONValue :=
  (keyed (theme.fieldsWithout removed)).map (JSONValue.removing removed)

/-- `init(from:)`. -/
def decode (v : JSONValue) : Option SavedTheme := do
  let id ← v.decodeKey String "id"
  let name ← v.decodeKey String "name"
  let themeId := (← v.decodeIfPresent String "themeId").getD ThemeCatalog.defaultTheme.id
  let configuration ← v.decodeKey ThemeConfiguration "configuration"
  let mode ← v.decodeKey ThemeMode "mode"
  let updatedAt ← v.decodeKey ℚ "updatedAt"
  some { id, name, themeId, configuration, mode, updatedAt }

/-- The theme that is read where the removed keys have their defaults. -/
def removing (removed : String → Bool) (theme : SavedTheme) : SavedTheme :=
  { theme with
    themeId := if removed "themeId" then ThemeCatalog.defaultTheme.id else theme.themeId
    configuration := theme.configuration.removing removed }

/-- A saved theme is decoded where later keys are missing. -/
theorem decode_encodeWithout {theme : SavedTheme}
    (hremoved : ∀ key, removed key = true → key ∈ laterThemeKeys)
    (hv : theme.encodeWithout removed = some v) : decode v = some (theme.removing removed) := by
  obtain ⟨w, hw, rfl⟩ := Option.map_eq_some_iff.mp hv
  have hhas := has_of_keyed (by simp [fieldsWithout, written]) hw
  simp only [fieldsWithout, List.forall_mem_cons] at hhas
  obtain ⟨hid, hname, htheme, hconfiguration, hmode, hupdated, -⟩ := hhas
  have hkept : ∀ {A : Type} [JSONCodable A] {key : String} {a : A}, w.decodeKey A key = some a →
      key ∉ laterThemeKeys → (w.removing removed).decodeKey A key = some a := fun h hkey =>
    decodeKey_removing_of_kept h (Bool.eq_false_iff.mpr fun h => hkey (hremoved _ h))
  obtain ⟨u, hu⟩ :=
    Option.isSome_iff_exists.mp (theme.configuration.isSome_encodeWithout removed)
  rw [hu] at hconfiguration
  have hread : w.decodeKey ThemeConfiguration "configuration" =
      some (theme.configuration.removing removed) := hconfiguration.decodeKey_of_decode
    (fun h => theme.configuration.encodeWithout_ne_null removed (h ▸ hu))
    (ThemeConfiguration.decode_encodeWithout hremoved hu)
  unfold decode
  rw [hkept hid.decodeKey (by decide), hkept hname.decodeKey (by decide),
    htheme.decodeIfPresent_removing_written, hkept hread (by decide),
    hkept hmode.decodeKey (by decide), hkept hupdated.decodeKey (by decide)]
  simp only [Option.bind_eq_bind, Option.bind_some, getD_ite_none]
  rfl

theorem isSome_encodeWithout (removed : String → Bool) (theme : SavedTheme) :
    (theme.encodeWithout removed).isSome := by
  unfold encodeWithout
  rw [Option.isSome_map]
  refine isSome_keyed.mpr ?_
  simp only [fieldsWithout, List.forall_mem_cons, isSome_written, Option.isSome_map,
    ThemeConfiguration.isSome_encodeWithout]
  simp [encode]

theorem encodeWithout_ne_null (removed : String → Bool) (theme : SavedTheme) :
    theme.encodeWithout removed ≠ some .null := by
  intro h
  obtain ⟨w, hw, hnull⟩ := Option.map_eq_some_iff.mp h
  exact keyed_ne_null _ (removing_eq_null.mp hnull ▸ hw)

instance : JSONCodable SavedTheme where
  encode := encodeWithout fun _ => false
  decode := decode
  decode_of_encode hv := decode_encodeWithout (fun _ h => absurd h Bool.false_ne_true) hv
  encode_ne_null := encodeWithout_ne_null _

end SavedTheme

/-! ## The state -/

namespace ThemePersistenceState

/-- The fields of a persisted state, where those of its parts lack the removed keys. -/
def fieldsWithout (removed : String → Bool) (state : ThemePersistenceState) : List Field :=
  [written "version" state.version, written "mode" state.mode,
    ("configuration", (state.configuration.encodeWithout removed).map some),
    writtenIfPresent "selectedPresetId" state.selectedPresetId,
    writtenIfPresent "selectedCustomThemeId" state.selectedCustomThemeId,
    ("savedThemes", (encodeArray (SavedTheme.encodeWithout removed) state.savedThemes).map some),
    written "userWallpapers" state.userWallpapers, written "updatedAt" state.updatedAt]

/-- What a version writes that does not know some of the keys. -/
def encodeWithout (removed : String → Bool) (state : ThemePersistenceState) : Option JSONValue :=
  keyed (state.fieldsWithout removed)

/-- `init(from:)`. -/
def decode (v : JSONValue) : Option ThemePersistenceState := do
  some {
    version := ← v.decodeKey ℤ "version"
    mode := ← v.decodeKey ThemeMode "mode"
    configuration := ← v.decodeKey ThemeConfiguration "configuration"
    selectedPresetId := ← v.decodeIfPresent String "selectedPresetId"
    selectedCustomThemeId := ← v.decodeIfPresent String "selectedCustomThemeId"
    savedThemes := ← v.decodeKey (List SavedTheme) "savedThemes"
    userWallpapers := ← v.decodeKey (List UserWallpaper) "userWallpapers"
    updatedAt := ← v.decodeKey ℚ "updatedAt" }

/-- The state that is read where the removed keys have their defaults. -/
def removing (removed : String → Bool) (state : ThemePersistenceState) : ThemePersistenceState :=
  { state with
    configuration := state.configuration.removing removed
    savedThemes := state.savedThemes.map (SavedTheme.removing removed) }

theorem isSome_encodeWithout (removed : String → Bool) (state : ThemePersistenceState) :
    (state.encodeWithout removed).isSome := by
  refine isSome_keyed.mpr ?_
  have hthemes : (encodeArray (SavedTheme.encodeWithout removed) state.savedThemes).isSome :=
    isSome_encodeArray.mpr fun theme _ => theme.isSome_encodeWithout removed
  simp only [fieldsWithout, List.forall_mem_cons, isSome_written, isSome_writtenIfPresent,
    Option.isSome_map, ThemeConfiguration.isSome_encodeWithout, hthemes,
    isSome_encode_list UserWallpaper.isSome_encode]
  simp [encode]

/-- Every state is written, and read again with the defaults in the place of the keys that the
version did not write. -/
theorem reads_encodeWithout (state : ThemePersistenceState) (removed : String → Bool)
    (hremoved : ∀ key, removed key = true → key ∈ laterThemeKeys) :
    ∃ v, state.encodeWithout removed = some v ∧ decode v = some (state.removing removed) := by
  obtain ⟨v, hv⟩ := Option.isSome_iff_exists.mp (state.isSome_encodeWithout removed)
  refine ⟨v, hv, ?_⟩
  have hhas := has_of_keyed (by simp [fieldsWithout, written, writtenIfPresent]) hv
  simp only [fieldsWithout, List.forall_mem_cons] at hhas
  obtain ⟨hversion, hmode, hconfiguration, hpreset, hcustom, hthemes, hwallpapers, hupdated, -⟩ :=
    hhas
  have hreadConfiguration : v.decodeKey ThemeConfiguration "configuration" =
      some (state.configuration.removing removed) := by
    obtain ⟨w, hw⟩ :=
      Option.isSome_iff_exists.mp (state.configuration.isSome_encodeWithout removed)
    rw [hw] at hconfiguration
    exact hconfiguration.decodeKey_of_decode
      (fun h => state.configuration.encodeWithout_ne_null removed (h ▸ hw))
      (ThemeConfiguration.decode_encodeWithout hremoved hw)
  have hreadThemes : v.decodeKey (List SavedTheme) "savedThemes" =
      some (state.savedThemes.map (SavedTheme.removing removed)) := by
    obtain ⟨w, hw⟩ := Option.isSome_iff_exists.mp (isSome_encodeArray.mpr
      fun theme (_ : theme ∈ state.savedThemes) => theme.isSome_encodeWithout removed)
    obtain ⟨elements, helements, rfl⟩ := Option.map_eq_some_iff.mp hw
    have harray := decodeArray_map_of_encodeArray (f := id)
      (fun theme w hw _ => SavedTheme.decode_encodeWithout hremoved hw) helements
    rw [List.map_id] at harray
    rw [hw] at hthemes
    exact hthemes.decodeKey_of_decode nofun harray
  unfold decode
  rw [hversion.decodeKey, hmode.decodeKey, hreadConfiguration, hpreset.decodeIfPresent,
    hcustom.decodeIfPresent, hreadThemes, hwallpapers.decodeKey, hupdated.decodeKey]
  rfl

/-- Nothing has a default where no later key is missing. -/
theorem removing_eq_self (h : ∀ key ∈ laterThemeKeys, removed key = false)
    (state : ThemePersistenceState) : state.removing removed = state := by
  have hconfiguration : ∀ configuration : ThemeConfiguration,
      configuration.removing removed = configuration := by
    intro configuration
    simp [ThemeConfiguration.removing, h "sectionTint" (by decide),
      h "surfaceOpacity" (by decide)]
  have htheme : ∀ theme : SavedTheme, theme.removing removed = theme := by
    intro theme
    simp [SavedTheme.removing, h "themeId" (by decide), hconfiguration]
  unfold removing
  rw [hconfiguration, funext htheme]
  simp

/-- The state of the app as it is installed, with a theme that was saved in it. -/
def sampleState : ThemePersistenceState where
  version := 3
  mode := .light
  configuration := ThemeCatalog.defaultTheme.defaultConfiguration
  selectedPresetId := some ThemeCatalog.defaultTheme.id
  selectedCustomThemeId := none
  savedThemes := [⟨"saved", "Saved", "other", ThemeCatalog.defaultTheme.defaultConfiguration,
    .dark, 5⟩]
  userWallpapers := [⟨"beach", "Beach", "beach.jpg", .fill⟩]
  updatedAt := 7

theorem reads_encodeWithout_sample :
    (∃ v, sampleState.encodeWithout (fun _ => false) = some v ∧ decode v = some sampleState) ∧
      ∃ v, sampleState.encodeWithout (fun key => key = "themeId") = some v ∧
        (decode v).map (fun state => state.savedThemes.map SavedTheme.themeId) =
          some [ThemeCatalog.defaultTheme.id] := by
  refine ⟨?_, ?_⟩
  · have h := sampleState.reads_encodeWithout (fun _ => false)
      fun _ h => absurd h Bool.false_ne_true
    rwa [removing_eq_self fun _ _ => rfl] at h
  · obtain ⟨v, hv, hread⟩ := sampleState.reads_encodeWithout (fun key => key = "themeId")
      (by simp [laterThemeKeys])
    exact ⟨v, hv, by rw [hread]; rfl⟩

end ThemePersistenceState

end Notelayer
