import Notelayer.Models

/-!
# Category colors

A category's color is `#RRGGBB`. `normalizeHexOrDefault` keeps a hex color, adds a
missing `#`, and replaces anything else by a default that depends on the category's id
only : a fixed color for the built-in categories, a hashed hue for the others. What it
yields it keeps (`isNormal_normalizeHexOrDefault`).
-/

namespace Notelayer

namespace CategoryColorDefaults

/-- 32-bit FNV-1a of the UTF-8 bytes. -/
def stableHash (s : String) : UInt32 :=
  s.toUTF8.toList.foldl (fun hash b => (hash ^^^ b.toUInt32) * 16777619) 2166136261

/-- A digit of `%02X`. -/
def hexDigit (n : ℕ) : Char :=
  "0123456789ABCDEF".toList.getD n '0'

/-- `%02X` of a value below 256. -/
def hexByte (n : ℕ) : List Char :=
  [hexDigit (n / 16 % 16), hexDigit (n % 16)]

/-- `Int(x * 255)` for a channel between 0 and 1. -/
def channel (x : ℚ) : ℕ :=
  (Date.truncated (x * 255)).toNat

/-- The six-part conversion from hue, saturation and value. -/
def hsvToHex (h s v : ℚ) : String :=
  let i := Date.truncated (h * 6)
  let f := h * 6 - i
  let p := v * (1 - s)
  let q := v * (1 - f * s)
  let t := v * (1 - (1 - f) * s)
  let (r, g, b) := match i % 6 with
    | 0 => (v, t, p)
    | 1 => (q, v, p)
    | 2 => (p, v, t)
    | 3 => (p, q, v)
    | 4 => (t, p, v)
    | _ => (v, p, q)
  String.ofList ('#' :: hexByte (channel r) ++ hexByte (channel g) ++ hexByte (channel b))

/-- The color of a preset, and for other ids one that is drawn from the text of the id. -/
def defaultHex (id : String) : String :=
  match id with
  | "house" => "#4F8EF7"
  | "garage" => "#FF8A3D"
  | "printing" => "#20C997"
  | "vehicle" => "#9B5DE5"
  | "tech" => "#2D9CDB"
  | "finance" => "#2F855A"
  | "shopping" => "#F72585"
  | "travel" => "#00B4D8"
  | _ => hsvToHex (((stableHash id).toNat % 360 : ℕ) / 360) (62 / 100) (88 / 100)

/-- A hexadecimal digit in either case. -/
def isHexDigit (c : Char) : Bool :=
  c.isDigit || ('a' ≤ c && c ≤ 'f') || ('A' ≤ c && c ≤ 'F')

/-- `Int(c, radix: 16) != nil` for a string of six characters : digits, or a sign and
digits. -/
def parsesAsHex : List Char → Bool
  | '+' :: digits => digits ≠ [] && digits.all isHexDigit
  | '-' :: digits => digits ≠ [] && digits.all isHexDigit
  | digits => digits ≠ [] && digits.all isHexDigit

/-- Six digits once every `#` is taken away. -/
def isHexColor (s : String) : Bool :=
  let c := s.toList.filter (· ≠ '#')
  c.length == 6 && parsesAsHex c

/-- The color as it is, with a `#` before it, or the default of the category. -/
def normalizeHexOrDefault (value categoryId : String) : String :=
  let cleaned := trimmed value
  if isHexColor cleaned then
    if cleaned.toList.head? = some '#' then cleaned else String.ofList ('#' :: cleaned.toList)
  else defaultHex categoryId

/-! ### Normal colors -/

/-- A text that `normalizeHexOrDefault` keeps. -/
structure IsNormal (color : String) : Prop where
  trimmed : trimmed color = color
  isHexColor : isHexColor color = true
  hasPrefix : color.toList.head? = some '#'

theorem IsNormal.normalizeHexOrDefault {color : String} (h : IsNormal color)
    (categoryId : String) : normalizeHexOrDefault color categoryId = color := by
  unfold CategoryColorDefaults.normalizeHexOrDefault
  dsimp only
  rw [h.trimmed, if_pos h.isHexColor, if_pos h.hasPrefix]

/-- The digits are no whitespace, no sign and no `#`. -/
theorem hexDigit_spec (n : ℕ) : isHexDigit (hexDigit (n % 16)) = true ∧
    isWhitespaceOrNewline (hexDigit (n % 16)) = false ∧ hexDigit (n % 16) ≠ '#' ∧
    hexDigit (n % 16) ≠ '+' ∧ hexDigit (n % 16) ≠ '-' := by
  have hall : ∀ k < 16, isHexDigit (hexDigit k) = true ∧
      isWhitespaceOrNewline (hexDigit k) = false ∧ hexDigit k ≠ '#' ∧
      hexDigit k ≠ '+' ∧ hexDigit k ≠ '-' := by decide
  exact hall (n % 16) (Nat.mod_lt n (by decide))

theorem isNormal_hsvToHex (h s v : ℚ) : IsNormal (hsvToHex h s v) := by
  obtain ⟨r, g, b, heq⟩ : ∃ r g b : ℕ, hsvToHex h s v =
      String.ofList ('#' :: (hexByte r ++ hexByte g ++ hexByte b)) := ⟨_, _, _, rfl⟩
  rw [heq]
  unfold hexByte
  refine ⟨trimmed_ofList_cons (by decide) (List.rdropWhile_eq_self_iff.mpr fun _ => ?_), ?_, ?_⟩
  · simp [hexDigit_spec]
  · simp [isHexColor, parsesAsHex, hexDigit_spec]
  · simp

theorem isNormal_defaultHex (id : String) : IsNormal (defaultHex id) := by
  unfold defaultHex
  split
  case h_9 => exact isNormal_hsvToHex _ _ _
  all_goals exact ⟨by decide, by decide, by decide⟩

/-- Normalization yields six digits after a number sign, whatever the text. -/
theorem isNormal_normalizeHexOrDefault (value categoryId : String) :
    IsNormal (normalizeHexOrDefault value categoryId) := by
  unfold normalizeHexOrDefault
  dsimp only
  split_ifs with hhex hprefix
  · exact ⟨trimmed_trimmed value, hhex, hprefix⟩
  · refine ⟨trimmed_ofList_cons (by decide) (rdropWhile_toList_trimmed value), ?_, ?_⟩
    · rw [← hhex]
      simp [isHexColor]
    · simp
  · exact isNormal_defaultHex categoryId

end CategoryColorDefaults

/-- The built-in categories. -/
def Category.defaultCategories : List Category :=
  [⟨"house", "House & Repairs", "🏠", CategoryColorDefaults.defaultHex "house", 0⟩,
    ⟨"garage", "Garage & Workshop", "🔧", CategoryColorDefaults.defaultHex "garage", 1⟩,
    ⟨"printing", "3D Printing", "🖨️", CategoryColorDefaults.defaultHex "printing", 2⟩,
    ⟨"vehicle", "Vehicle & Motorcycle", "🏍️", CategoryColorDefaults.defaultHex "vehicle", 3⟩,
    ⟨"tech", "Tech & Apps", "💻", CategoryColorDefaults.defaultHex "tech", 4⟩,
    ⟨"finance", "Finance & Admin", "📊", CategoryColorDefaults.defaultHex "finance", 5⟩,
    ⟨"shopping", "Shopping & Errands", "🛒", CategoryColorDefaults.defaultHex "shopping", 6⟩,
    ⟨"travel", "Travel & Health", "✈️", CategoryColorDefaults.defaultHex "travel", 7⟩]

end Notelayer
