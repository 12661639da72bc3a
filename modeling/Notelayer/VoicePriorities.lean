import Notelayer.VoiceTaskParser

/-!
# Priorities and their signals

`inferPriority` and `hasExplicitPrioritySignal` look for keywords of two tables. `critical` and
`minor` are in the first one only, so that they set a priority without the signal. And `urgent`,
which is part of `not urgent`, is looked for first, so that a text that is said not to be urgent
has the high priority.

Apart from these texts the tables agree (`priorityAgrees_iff`).
-/

namespace Notelayer

open Replacing

namespace VoiceTaskParser

variable (foundation : VoiceFoundation)

/-- The keyword occurs in the text, ignoring case. -/
def Occurs (text keyword : String) : Prop :=
  foundation.contains (foundation.lowercased text) keyword

/-- `urgent` is at this place of a text. -/
def IsUrgentAt (before l : List Char) : Prop :=
  IsAt (· == ·) foundation.isBoundary "urgent".toList before l

/-- `not urgent` occurs, `urgent` occurs nowhere else, and no other keyword of the high priority
does. -/
structure IsNotUrgent (text : String) : Prop where
  occurs : Occurs foundation text "not urgent"
  only : ∀ before l, (foundation.lowercased text).toList = before ++ l →
    IsUrgentAt foundation before l →
    ∃ before', before = before' ++ "not ".toList ∧
      IsAt (· == ·) foundation.isBoundary "not urgent".toList before' ("not ".toList ++ l)
  notHigh : ∀ keyword ∈ highKeywords, keyword ≠ "urgent" → ¬Occurs foundation text keyword

/-- The priority and the signal agree on the text. -/
structure PriorityAgrees (text : String) : Prop where
  signal : inferPriority foundation text ≠ .medium → hasExplicitPrioritySignal foundation text
  deferred : IsNotUrgent foundation text → inferPriority foundation text = .deferred

variable {foundation} {text : String}

/-! ## Keywords -/

/-- A keyword is contained where it is at some place. -/
theorem contains_iff {keyword : String} : foundation.contains text keyword ↔
    ∃ before l, text.toList = before ++ l ∧
      IsAt (· == ·) foundation.isBoundary keyword.toList before l := by
  simp only [VoiceFoundation.contains, List.any_eq_true, List.mem_range]
  constructor
  · rintro ⟨i, -, hat⟩
    exact ⟨_, _, (List.take_append_drop i _).symm, hat⟩
  · rintro ⟨before, l, htext, hat⟩
    refine ⟨before.length, ?_, ?_⟩
    · rw [htext, List.length_append]
      omega
    · rwa [htext, List.take_left, List.drop_left]

/-- Between a space and a letter there is a boundary, so that `urgent` is found in `not urgent`. -/
theorem occurs_urgent (hspace : ∀ before l, foundation.isBoundary (before ++ [' ']) ('u' :: l))
    (h : Occurs foundation text "not urgent") : Occurs foundation text "urgent" := by
  obtain ⟨before, l, htext, hat⟩ := contains_iff.mp h
  obtain ⟨rest, rfl, -, hend⟩ := isAt_beq_iff.mp hat
  have hsplit : "not urgent".toList = "not ".toList ++ "urgent".toList := rfl
  rw [hsplit, List.append_assoc] at htext
  rw [hsplit, ← List.append_assoc] at hend
  refine contains_iff.mpr ⟨before ++ "not ".toList, "urgent".toList ++ rest, ?_, ?_⟩
  · rw [htext, List.append_assoc]
  · refine isAt_beq_iff.mpr ⟨rest, rfl, ?_, hend⟩
    simpa using hspace (before ++ ['n', 'o', 't']) ("rgent".toList ++ rest)

/-- A priority other than the medium one comes from a keyword. -/
theorem inferPriority_ne_medium_iff : inferPriority foundation text ≠ .medium ↔
    ∃ keyword ∈ highKeywords ++ deferredKeywords ++ lowKeywords,
      Occurs foundation text keyword := by
  have hany : ∀ keywords : List String, (∃ keyword ∈ keywords, Occurs foundation text keyword) ↔
      keywords.any (foundation.contains (foundation.lowercased text)) := by
    intro keywords
    rw [List.any_eq_true]
    exact Iff.rfl
  rw [hany, List.any_append, List.any_append, Bool.or_eq_true, Bool.or_eq_true]
  unfold inferPriority
  dsimp only
  split_ifs with hhigh hdeferred hlow
  · simp [hhigh]
  · simp [hdeferred]
  · simp [hlow]
  · simp [hhigh, hdeferred, hlow]

theorem inferPriority_of_urgent (h : Occurs foundation text "urgent") :
    inferPriority foundation text = .high :=
  if_pos (List.any_eq_true.mpr ⟨_, List.mem_cons_self, h⟩)

theorem hasExplicitPrioritySignal_iff : hasExplicitPrioritySignal foundation text ↔
    ∃ keyword ∈ signalKeywords, Occurs foundation text keyword :=
  List.any_eq_true

/-! ## Agreement -/

/-- The two tables agree on a text unless it is said not to be urgent, or has one of the keywords
`critical` and `minor` and none of those that are signals. -/
theorem priorityAgrees_iff (hspace : ∀ before l, foundation.isBoundary (before ++ [' ']) ('u' :: l))
    (text : String) : PriorityAgrees foundation text ↔ ¬IsNotUrgent foundation text ∧
      (Occurs foundation text "critical" ∨ Occurs foundation text "minor" →
        ∃ keyword ∈ signalKeywords, Occurs foundation text keyword) := by
  have hmissing : ∀ keyword ∈ highKeywords ++ deferredKeywords ++ lowKeywords,
      keyword ∈ signalKeywords ∨ keyword = "not urgent" ∨ keyword = "critical" ∨
        keyword = "minor" := by decide
  have hnot : ∀ keyword ∈ ["critical", "minor"],
      keyword ∈ highKeywords ++ deferredKeywords ++ lowKeywords := by decide
  constructor
  · intro h
    refine ⟨fun hurgent => ?_, fun hor => ?_⟩
    · have hhigh := inferPriority_of_urgent (occurs_urgent hspace hurgent.occurs)
      rw [h.deferred hurgent] at hhigh
      cases hhigh
    · refine hasExplicitPrioritySignal_iff.mp (h.signal (inferPriority_ne_medium_iff.mpr ?_))
      rcases hor with hoccurs | hoccurs
      · exact ⟨_, hnot "critical" (by decide), hoccurs⟩
      · exact ⟨_, hnot "minor" (by decide), hoccurs⟩
  · rintro ⟨hurgent, hsignal⟩
    refine ⟨fun hne => hasExplicitPrioritySignal_iff.mpr ?_, fun h => absurd h hurgent⟩
    obtain ⟨keyword, hkeyword, hoccurs⟩ := inferPriority_ne_medium_iff.mp hne
    rcases hmissing keyword hkeyword with hmem | rfl | rfl | rfl
    · exact ⟨keyword, hmem, hoccurs⟩
    · exact ⟨"urgent", by decide, occurs_urgent hspace hoccurs⟩
    · exact hsignal (Or.inl hoccurs)
    · exact hsignal (Or.inr hoccurs)

theorem latin_isBoundary_space (before l : List Char) :
    VoiceFoundation.latin.isBoundary (before ++ [' ']) ('u' :: l) :=
  pairBoundary_concat_cons before l ' ' 'u'

theorem priorityAgrees_iff_later : PriorityAgrees .latin "Minor : buy milk later" := by
  refine (priorityAgrees_iff latin_isBoundary_space _).mpr ⟨fun h => ?_, fun _ => ?_⟩
  · exact absurd h.occurs (by unfold Occurs; decide +kernel)
  · exact ⟨"later", by decide, by unfold Occurs; decide +kernel⟩

/-- `critical` has no signal, and what is not urgent has the high priority. -/
theorem not_priorityAgrees :
    inferPriority .latin "Critical bug" = .high ∧
      hasExplicitPrioritySignal .latin "Critical bug" = false ∧
      IsNotUrgent .latin "Not urgent" ∧ inferPriority .latin "Not urgent" = .high ∧
      ¬PriorityAgrees .latin "Critical bug" ∧ ¬PriorityAgrees .latin "Not urgent" := by
  have hcritical : inferPriority .latin "Critical bug" = .high := by decide +kernel
  have hsignal : hasExplicitPrioritySignal .latin "Critical bug" = false := by decide +kernel
  have hhigh : inferPriority .latin "Not urgent" = .high := by decide +kernel
  have hplace : ∀ i < 11, IsAt (· == ·) VoiceFoundation.latin.isBoundary "urgent".toList
      ("not urgent".toList.take i) ("not urgent".toList.drop i) → i = 4 := by decide +kernel
  have hnot : IsNotUrgent .latin "Not urgent" := by
    have hlower : (VoiceFoundation.latin.lowercased "Not urgent").toList =
        "not urgent".toList := by decide +kernel
    refine ⟨by unfold Occurs; decide +kernel, fun before l htext hat => ?_, ?_⟩
    · rw [hlower] at htext
      have hlength : before.length < 11 := by
        have heq := congrArg List.length htext
        rw [List.length_append, show "not urgent".toList.length = 10 from rfl] at heq
        omega
      have hi : before.length = 4 := by
        refine hplace _ hlength ?_
        rwa [htext, List.take_left, List.drop_left]
      obtain ⟨rfl, rfl⟩ : "not ".toList = before ∧ "urgent".toList = l :=
        List.append_inj htext (by rw [hi]; rfl)
      exact ⟨[], rfl, by decide +kernel⟩
    · unfold Occurs
      decide +kernel
  refine ⟨hcritical, hsignal, hnot, hhigh, fun h => ?_, fun h => ?_⟩
  · have := h.signal (by rw [hcritical]; decide)
    rw [hsignal] at this
    cases this
  · have := h.deferred hnot
    rw [hhigh] at this
    cases this

end VoiceTaskParser

end Notelayer
