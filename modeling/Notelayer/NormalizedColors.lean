import Notelayer.Migration

/-!
# Well formed colors

`isHexColor` takes every `#` out of a text and asks a parser of integers for the rest, which reads
a sign as well. `normalizeHexOrDefault` keeps the text as it was. So a color with a sign, or with a
`#` behind its first character, is normal and yet not `#RRGGBB`.

The other hex colors become well formed, and so does every text that is no hex color, since it is
replaced by a default. After a migration all categories have well formed colors exactly if none of
those two kinds was stored (`normalizesWell_iff`).
-/

namespace Notelayer

namespace CategoryColorDefaults

/-- `#` and six hexadecimal digits. -/
def IsRRGGBB (color : String) : Prop :=
  ∃ digits : List Char, color.toList = '#' :: digits ∧ digits.length = 6 ∧ digits.all isHexDigit

/-- The six digits alone. -/
def IsBareHex (color : String) : Prop :=
  color.toList.length = 6 ∧ color.toList.all isHexDigit

/-- What the normalization of a color is for. -/
structure NormalizesWell (value categoryId : String) : Prop where
  wellFormed : IsRRGGBB (normalizeHexOrDefault value categoryId)
  keeps : IsRRGGBB value → normalizeHexOrDefault value categoryId = value
  completes : IsBareHex value →
    normalizeHexOrDefault value categoryId = String.ofList ('#' :: value.toList)

/-- Neither a sign nor a `#` behind the first character. -/
def IsPlainHex (color : String) : Prop :=
  (∀ c ∈ color.toList, c ≠ '+' ∧ c ≠ '-') ∧ '#' ∉ color.toList.tail

/-- What is accepted as a hex color, is plain. -/
def AcceptsPlainly (value : String) : Prop :=
  isHexColor (trimmed value) → IsPlainHex (trimmed value)

/-! ## Digits -/

theorem isHexDigit_iff {c : Char} : isHexDigit c ↔ 48 ≤ c.toNat ∧ c.toNat ≤ 57 ∨
    97 ≤ c.toNat ∧ c.toNat ≤ 102 ∨ 65 ≤ c.toNat ∧ c.toNat ≤ 70 := by
  have hle : ∀ a b : Char, a ≤ b ↔ a.toNat ≤ b.toNat := fun a b => Iff.rfl
  simp [isHexDigit, Char.isDigit_iff_toNat, hle, or_assoc]

/-- A digit is no whitespace, no sign and no `#`. -/
theorem isHexDigit_spec {c : Char} (hc : isHexDigit c) :
    isWhitespaceOrNewline c = false ∧ c ≠ '#' ∧ c ≠ '+' ∧ c ≠ '-' := by
  have hrange := isHexDigit_iff.mp hc
  refine ⟨?_, ?_, ?_, ?_⟩
  · simp only [isWhitespaceOrNewline, Bool.or_eq_false_iff, Bool.and_eq_false_iff,
      decide_eq_false_iff_not, beq_eq_false_iff_ne]
    omega
  all_goals
    rintro rfl
    revert hrange
    decide

theorem parsesAsHex_of_forall_ne {l : List Char} (h : ∀ c ∈ l, c ≠ '+' ∧ c ≠ '-') :
    parsesAsHex l = (l ≠ [] && l.all isHexDigit) := by
  unfold parsesAsHex
  split
  · exact absurd rfl (h '+' List.mem_cons_self).1
  · exact absurd rfl (h '-' List.mem_cons_self).2
  · rfl

/-- With its `#` taken out, a text is a number of six characters. -/
structure IsAccepted (l : List Char) : Prop where
  length : (l.filter (· ≠ '#')).length = 6
  parses : parsesAsHex (l.filter (· ≠ '#'))

theorem isAccepted_iff {s : String} : isHexColor s ↔ IsAccepted s.toList := by
  unfold isHexColor
  dsimp only
  rw [Bool.and_eq_true, beq_iff_eq]
  exact ⟨fun h => ⟨h.1, h.2⟩, fun h => ⟨h.length, h.parses⟩⟩

theorem isAccepted_cons_iff {l : List Char} : IsAccepted ('#' :: l) ↔ IsAccepted l := by
  have hfilter : ('#' :: l).filter (· ≠ '#') = l.filter (· ≠ '#') := by simp
  exact ⟨fun h => ⟨hfilter ▸ h.length, hfilter ▸ h.parses⟩,
    fun h => ⟨hfilter ▸ h.length, hfilter ▸ h.parses⟩⟩

/-- Six digits are accepted. -/
theorem isAccepted_of_digits {l : List Char} (hlength : l.length = 6) (hl : l.all isHexDigit) :
    IsAccepted l := by
  have hspec : ∀ c ∈ l, c ≠ '#' ∧ c ≠ '+' ∧ c ≠ '-' := fun c hc =>
    (isHexDigit_spec (List.all_eq_true.mp hl c hc)).2
  have hfilter : l.filter (· ≠ '#') = l :=
    List.filter_eq_self.mpr fun c hc => decide_eq_true (hspec c hc).1
  refine ⟨by rw [hfilter, hlength], ?_⟩
  rw [hfilter, parsesAsHex_of_forall_ne fun c hc => (hspec c hc).2, hl, Bool.and_true,
    decide_eq_true_eq]
  rintro rfl
  simp at hlength

/-- Of the accepted texts, the plain ones are the digits. -/
theorem IsAccepted.digits_iff {l : List Char} (h : IsAccepted l) :
    (l.length = 6 ∧ l.all isHexDigit) ↔ (∀ c ∈ l, c ≠ '+' ∧ c ≠ '-') ∧ '#' ∉ l := by
  constructor
  · rintro ⟨-, hl⟩
    have hspec : ∀ c ∈ l, c ≠ '#' ∧ c ≠ '+' ∧ c ≠ '-' := fun c hc =>
      (isHexDigit_spec (List.all_eq_true.mp hl c hc)).2
    exact ⟨fun c hc => (hspec c hc).2, fun hmem => (hspec '#' hmem).1 rfl⟩
  · rintro ⟨hsign, hhash⟩
    have hfilter : l.filter (· ≠ '#') = l :=
      List.filter_eq_self.mpr fun c hc => decide_eq_true (ne_of_mem_of_not_mem hc hhash)
    obtain ⟨hlength, hparses⟩ := h
    rw [hfilter] at hlength hparses
    rw [parsesAsHex_of_forall_ne hsign, Bool.and_eq_true] at hparses
    exact ⟨hlength, hparses.2⟩

/-! ## What the normalization yields -/

theorem isRRGGBB_cons_iff {l : List Char} :
    IsRRGGBB (String.ofList ('#' :: l)) ↔ l.length = 6 ∧ l.all isHexDigit := by
  unfold IsRRGGBB
  rw [String.toList_ofList]
  constructor
  · rintro ⟨digits, heq, h⟩
    rwa [(List.cons.inj heq).2]
  · exact fun h => ⟨l, rfl, h⟩

theorem trimmed_of_digits {l : List Char} (hl : ∀ c ∈ l, isWhitespaceOrNewline c = false) :
    trimmed (String.ofList l) = String.ofList l := by
  cases l with
  | nil => rfl
  | cons c l =>
    obtain ⟨hc, hl⟩ := List.forall_mem_cons.mp hl
    refine trimmed_ofList_cons hc (List.rdropWhile_eq_self_iff.mpr fun hne => ?_)
    rw [hl _ (List.getLast_mem hne)]
    exact Bool.false_ne_true

theorem IsRRGGBB.isNormal {color : String} (h : IsRRGGBB color) : IsNormal color := by
  obtain ⟨digits, heq, hlength, hdigits⟩ := h
  obtain rfl : color = String.ofList ('#' :: digits) := by
    rw [← heq, String.ofList_toList]
  refine ⟨trimmed_of_digits (List.forall_mem_cons.mpr ⟨rfl, fun c hc => ?_⟩), ?_, ?_⟩
  · exact (isHexDigit_spec (List.all_eq_true.mp hdigits c hc)).1
  · rw [isAccepted_iff, heq]
    exact isAccepted_cons_iff.mpr (isAccepted_of_digits hlength hdigits)
  · rw [heq]
    rfl

/-- Six digits get a number sign. -/
theorem normalizeHexOrDefault_of_isBareHex {value : String} (h : IsBareHex value)
    (categoryId : String) :
    normalizeHexOrDefault value categoryId = String.ofList ('#' :: value.toList) := by
  obtain ⟨hlength, hdigits⟩ := h
  have hspec := fun c hc => isHexDigit_spec (List.all_eq_true.mp hdigits c hc)
  have htrimmed : trimmed value = value := by
    conv_lhs => rw [← String.ofList_toList (s := value)]
    rw [trimmed_of_digits fun c hc => (hspec c hc).1, String.ofList_toList]
  have hhead : value.toList.head? ≠ some '#' := fun hhead =>
    (hspec '#' (List.mem_of_mem_head? hhead)).2.1 rfl
  unfold normalizeHexOrDefault
  dsimp only
  rw [htrimmed, if_pos (isAccepted_iff.mpr (isAccepted_of_digits hlength hdigits)), if_neg hhead]

theorem isRRGGBB_defaultHex (id : String) : IsRRGGBB (defaultHex id) := by
  unfold defaultHex
  split
  case h_9 =>
    unfold hsvToHex hexByte
    refine isRRGGBB_cons_iff.mpr ?_
    simp [hexDigit_spec]
  all_goals exact ⟨_, rfl, rfl, rfl⟩

/-- An accepted text is completed to `#RRGGBB` if it is plain. -/
theorem isRRGGBB_normalizeHexOrDefault_iff (value categoryId : String) :
    IsRRGGBB (normalizeHexOrDefault value categoryId) ↔ AcceptsPlainly value := by
  unfold normalizeHexOrDefault AcceptsPlainly IsPlainHex
  dsimp only
  by_cases haccepted : isHexColor (trimmed value)
  · rw [if_pos haccepted, forall_prop_of_true haccepted]
    have h := isAccepted_iff.mp haccepted
    by_cases hhead : (trimmed value).toList.head? = some '#'
    · obtain ⟨l, hl⟩ := List.head?_eq_some_iff.mp hhead
      rw [hl, isAccepted_cons_iff] at h
      rw [if_pos hhead, ← String.ofList_toList (s := trimmed value), String.toList_ofList, hl,
        isRRGGBB_cons_iff, h.digits_iff, List.forall_mem_cons, List.tail_cons]
      exact and_congr_left fun _ => ⟨fun hsign => ⟨by decide, hsign⟩, fun hsign => hsign.2⟩
    · rw [if_neg hhead, isRRGGBB_cons_iff, h.digits_iff]
      refine and_congr_right fun _ => not_congr ⟨fun hmem => ?_, List.mem_of_mem_tail⟩
      cases hl : (trimmed value).toList with
      | nil => rw [hl] at hmem; exact absurd hmem List.not_mem_nil
      | cons c l =>
        rw [hl] at hmem hhead
        exact (List.mem_cons.mp hmem).resolve_left fun heq => hhead (by rw [heq]; rfl)
  · rw [if_neg haccepted]
    exact iff_of_true (isRRGGBB_defaultHex categoryId) fun h => absurd h haccepted

/-- A well formed color stays, so it is plain if it is accepted. -/
theorem IsRRGGBB.acceptsPlainly {color : String} (h : IsRRGGBB color) : AcceptsPlainly color := by
  rw [← isRRGGBB_normalizeHexOrDefault_iff color color, h.isNormal.normalizeHexOrDefault]
  exact h

theorem normalizesWell_iff_acceptsPlainly {value categoryId : String} :
    NormalizesWell value categoryId ↔ AcceptsPlainly value := by
  rw [← isRRGGBB_normalizeHexOrDefault_iff value categoryId]
  exact ⟨NormalizesWell.wellFormed, fun h => ⟨h, fun hvalue =>
    hvalue.isNormal.normalizeHexOrDefault categoryId,
    fun hvalue => normalizeHexOrDefault_of_isBareHex hvalue categoryId⟩⟩

end CategoryColorDefaults

open CategoryColorDefaults

/-! ## After the migration -/

theorem color_of_mem_defaultCategories :
    ∀ c ∈ Category.defaultCategories, c.color = defaultHex c.id := by
  simp [Category.defaultCategories]

/-- The colors of the migrated categories are normalized. -/
theorem LocalStore.forall_color_migratedCategories_iff {P : String → Prop} {cs : List Category} :
    (∀ c ∈ migratedCategories cs, P c.color) ↔
      ∀ c ∈ cs, P (normalizeHexOrDefault c.color c.id) := by
  have hnormalized : (∀ c ∈ cs.map Category.normalizedColor, P c.color) ↔
      ∀ c ∈ cs, P (normalizeHexOrDefault c.color c.id) := by
    rw [List.forall_mem_map]
    simp only [Category.normalizedColor]
  rw [← hnormalized]
  unfold migratedCategories
  dsimp only
  split_ifs
  · constructor
    · intro h c hc
      obtain ⟨i, hi, rfl⟩ := List.getElem_of_mem hc
      exact h { (cs.map Category.normalizedColor)[i] with order := i }
        (List.mem_mapIdx.mpr ⟨i, hi, rfl⟩)
    · intro h c hc
      obtain ⟨i, hi, rfl⟩ := List.mem_mapIdx.mp hc
      exact h (cs.map Category.normalizedColor)[i] (List.getElem_mem hi)
  · exact Iff.rfl

/-- The colors after a migration are proper if and only if every color was accepted plainly. -/
theorem LocalStore.isRRGGBB_migrateIfNeeded_iff {s s' : LocalStore}
    (hs : s.migrateIfNeeded = some s') :
    (∀ c ∈ s'.categories, IsRRGGBB c.color) ↔ ∀ c ∈ s.categories, AcceptsPlainly c.color := by
  rw [(Prod.mk.inj (categoryData_migrateIfNeeded hs)).1, forall_color_migratedCategories_iff,
    categories_migrateEmptyCategories]
  simp only [isRRGGBB_normalizeHexOrDefault_iff]
  split_ifs with hempty
  · refine iff_of_true (fun c hc => ?_) (by simp [List.isEmpty_iff.mp hempty])
    rw [color_of_mem_defaultCategories c hc]
    exact (isRRGGBB_defaultHex c.id).acceptsPlainly
  · exact Iff.rfl

/-- Normalization does what it is for except on hex colors with a sign or with a `#` behind the
first character, and a migration makes all colors well formed unless one of these was stored. -/
theorem normalizesWell_iff (value categoryId : String) :
    (NormalizesWell value categoryId ↔ AcceptsPlainly value) ∧
      ∀ s s' : LocalStore, s.migrateIfNeeded = some s' →
        ((∀ c ∈ s'.categories, IsRRGGBB c.color) ↔ ∀ c ∈ s.categories, AcceptsPlainly c.color) :=
  ⟨normalizesWell_iff_acceptsPlainly, fun _ _ => LocalStore.isRRGGBB_migrateIfNeeded_iff⟩

theorem normalizesWell_iff_unmigrated : NormalizesWell "00ff00" "home" ∧
    ∃ s', sampleUnmigrated.migrateIfNeeded = some s' ∧ ∀ c ∈ s'.categories, IsRRGGBB c.color := by
  have htrimmed : (trimmed "00ff00").toList = ['0', '0', 'f', 'f', '0', '0'] := by decide
  have hgreen : AcceptsPlainly "00ff00" := fun _ => by
    unfold IsPlainHex
    rw [htrimmed]
    simp
  obtain ⟨s', hs', -⟩ := LocalStore.migrateIfNeeded_of_distinctIds (s := sampleUnmigrated)
    (by decide)
  obtain ⟨hvalue, hmigrated⟩ := normalizesWell_iff "00ff00" "home"
  refine ⟨hvalue.mpr hgreen, s', hs', (hmigrated _ _ hs').mpr ?_⟩
  simp only [sampleUnmigrated, List.forall_mem_cons]
  exact ⟨fun h => absurd h (by decide), hgreen, by simp⟩

/-- A category with a negative number for a color. -/
def signedStore : LocalStore where
  categories := [⟨"work", "Work", "💼", "-12345", 0⟩]

/-- The sign is kept, and so is a `#` between the digits. -/
theorem not_normalizesWell : normalizeHexOrDefault "+12345" "work" = "#+12345" ∧
    normalizeHexOrDefault "#12#3456" "work" = "#12#3456" ∧
    ¬NormalizesWell "+12345" "work" ∧ ¬NormalizesWell "#12#3456" "work" ∧
    ∃ s', signedStore.migrateIfNeeded = some s' ∧ ¬∀ c ∈ s'.categories, IsRRGGBB c.color := by
  have hplain : ∀ value, AcceptsPlainly value → isHexColor (trimmed value) →
      IsPlainHex (trimmed value) := fun _ h => h
  obtain ⟨s', hs', -⟩ := LocalStore.migrateIfNeeded_of_distinctIds (s := signedStore)
    (by decide)
  refine ⟨by decide, by decide, fun h => ?_, fun h => ?_, s', hs', fun h => ?_⟩
  · have := hplain _ (normalizesWell_iff_acceptsPlainly.mp h) (by decide)
    exact (this.1 '+' (by decide)).1 rfl
  · have := hplain _ (normalizesWell_iff_acceptsPlainly.mp h) (by decide)
    exact this.2 (by decide)
  · have := hplain _ ((LocalStore.isRRGGBB_migrateIfNeeded_iff hs').mp h _ List.mem_cons_self)
      (by decide)
    exact (this.1 '-' (by decide)).2 rfl

end Notelayer
