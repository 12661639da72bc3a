import Notelayer.Library.Collapsing
import Notelayer.VoiceTaskParser

/-!
# Normalized transcripts

Normalization collapses the whitespace of a transcript and trims it. Of two texts with a core
between them it keeps the normalized texts and the core, and possibly a space or other blanks at
the joints (`exists_isJoint`, `IsJoint.normalizeTranscript_eq`). Whitespace alone between the texts
is a space (`IsJoint.normalizeTranscript_blank`).
-/

namespace Notelayer

open Replacing Rewriting Collapsing

namespace VoiceTaskParser

variable {foundation : VoiceFoundation}

theorem normalizeTranscript_eq (text : String) : normalizeTranscript foundation text =
    trimmed (String.ofList (collapsing foundation.isWhiteSpace ' ' false text.toList)) := by
  unfold normalizeTranscript replacingMatches
  rw [← (rewriting_runs patternLength_some [] text.toList).1]
  rfl

theorem isTrimmed_normalizeTranscript (text : String) :
    IsTrimmed (normalizeTranscript foundation text).toList := by
  rw [normalizeTranscript_eq]
  exact isTrimmed_toList_trimmed _

theorem trimmed_normalizeTranscript (text : String) :
    trimmed (normalizeTranscript foundation text) = normalizeTranscript foundation text := by
  rw [normalizeTranscript_eq, trimmed_trimmed]

/-- Whitespace behind a text makes no difference. -/
theorem trimmed_collapsing_append (text : String) {x : List Char}
    (hx : ∀ c ∈ x, foundation.isWhiteSpace c) :
    trimmed (String.ofList (collapsing foundation.isWhiteSpace ' ' false (text.toList ++ x))) =
      normalizeTranscript foundation text := by
  have hblank : ∀ c ∈ [' '], isWhitespaceOrNewline c := by simp [isWhitespaceOrNewline]
  rw [normalizeTranscript_eq, collapsing_append]
  generalize endsInRun foundation.isWhiteSpace false text.toList = inRun
  rcases collapsing_of_forall hx with hx | hx
  · rw [hx, List.append_nil]
  · rw [hx]
    exact trimmed_append_append (u := []) (by simp) hblank _

/-- White space in front does not change a normalized text. -/
theorem trimmed_collapsing_true (text : String) :
    trimmed (String.ofList (collapsing foundation.isWhiteSpace ' ' true text.toList)) =
      normalizeTranscript foundation text := by
  have hblank : ∀ c ∈ [' '], isWhitespaceOrNewline c := by simp [isWhitespaceOrNewline]
  have hsame : ∀ x : List Char, trimmed (String.ofList (' ' :: x)) = trimmed (String.ofList x) := by
    intro x
    simpa using trimmed_append_append (w := []) hblank (by simp) x
  rw [normalizeTranscript_eq]
  rcases collapsing_eq_or true false text.toList with heq | heq | heq
  · rw [heq]
  · rw [heq, hsame]
  · rw [← heq, hsame]

variable (foundation) in
/-- `w` and `v` are what is left of the whitespace around the middle of a transcript. -/
structure IsJoint (A : String) (x w v : List Char) (B : String) : Prop where
  blank_left : ∀ c ∈ w, isWhitespaceOrNewline c
  space_left : ∀ c ∈ w, c = ' ' ∨ foundation.isWhiteSpace c = false
  blank_right : ∀ c ∈ v, isWhitespaceOrNewline c
  space_right : ∀ c ∈ v, c = ' ' ∨ foundation.isWhiteSpace c = false
  last : ((normalizeTranscript foundation A).toList ++ w).getLast? =
    (A.toList ++ x).getLast?.map fun c => if foundation.isWhiteSpace c then ' ' else c
  head : (v ++ (normalizeTranscript foundation B).toList).head? =
    (B.toList.dropWhile foundation.isWhiteSpace).head?
  trimmed_eq : ∀ middle, trimmed (String.ofList
      (collapsing foundation.isWhiteSpace ' ' false (A.toList ++ x) ++ middle ++
        collapsing foundation.isWhiteSpace ' ' true B.toList)) =
    String.ofList ((normalizeTranscript foundation A).toList ++ w ++ middle ++
      (v ++ (normalizeTranscript foundation B).toList))

/-- Two normalized texts are joined by the white space between them. -/
theorem exists_isJoint {A B : String} (hA : normalizeTranscript foundation A ≠ "")
    (hB : normalizeTranscript foundation B ≠ "") {x : List Char}
    (hx : ∀ c ∈ x, foundation.isWhiteSpace c) : ∃ w v, IsJoint foundation A x w v B := by
  obtain ⟨u, w, hleft, hu, hw⟩ := exists_toList_eq_append_trimmed
    (String.ofList (collapsing foundation.isWhiteSpace ' ' false (A.toList ++ x)))
  obtain ⟨v, z, hright, hv, hz⟩ := exists_toList_eq_append_trimmed
    (String.ofList (collapsing foundation.isWhiteSpace ' ' true B.toList))
  rw [String.toList_ofList, trimmed_collapsing_append A hx] at hleft
  rw [String.toList_ofList, trimmed_collapsing_true B] at hright
  rw [Ne, ← String.toList_eq_nil_iff] at hA hB
  refine ⟨w, v, hw, fun c hc => ?_, hv, fun c hc => ?_, ?_, ?_, fun middle => ?_⟩
  · exact (mem_collapsing (hleft ▸ List.mem_append_right _ hc)).imp_right And.right
  · have hmem : c ∈ collapsing foundation.isWhiteSpace ' ' true B.toList := by
      rw [hright]
      simp [hc]
    exact (mem_collapsing hmem).imp_right And.right
  · have hne : (normalizeTranscript foundation A).toList ++ w ≠ [] := by simp [hA]
    rw [← getLast?_collapsing, hleft, List.append_assoc, List.getLast?_append_of_ne_nil u hne]
  · have hne : v ++ (normalizeTranscript foundation B).toList ≠ [] := by simp [hB]
    rw [← head?_collapsing_true (a := ' '), hright, List.head?_append_of_ne_nil _ hne]
  · have hsplit : collapsing foundation.isWhiteSpace ' ' false (A.toList ++ x) ++ middle ++
        collapsing foundation.isWhiteSpace ' ' true B.toList =
          u ++ ((normalizeTranscript foundation A).toList ++ (w ++ middle ++ v) ++
            (normalizeTranscript foundation B).toList) ++ z := by
      rw [hleft, hright]
      simp
    have htrimmed := (isTrimmed_normalizeTranscript A).append (isTrimmed_normalizeTranscript B)
      hA hB (w ++ middle ++ v)
    rw [hsplit, trimmed_append_append hu hz, htrimmed.trimmed_eq]
    simp

theorem IsJoint.head_eq_false {A B : String} {x w v : List Char}
    (hjoint : IsJoint foundation A x w v B) :
    ∀ c ∈ (v ++ (normalizeTranscript foundation B).toList).head?,
      foundation.isWhiteSpace c = false := by
  intro c hc
  rw [hjoint.head] at hc
  have hnot := List.head?_dropWhile_not foundation.isWhiteSpace B.toList
  rw [hc] at hnot
  simpa using hnot

/-- The normalized transcript, if there is something between the texts. -/
theorem IsJoint.normalizeTranscript_eq {A B : String} {x w v : List Char}
    (hjoint : IsJoint foundation A x w v B) (hspace : foundation.isWhiteSpace ' ')
    (core : List Char) (hcore : ∀ inRun, collapsing foundation.isWhiteSpace ' ' inRun core = core ∧
      endsInRun foundation.isWhiteSpace inRun core = false) :
    normalizeTranscript foundation
        (String.ofList (A.toList ++ x ++ (core ++ ' ' :: B.toList))) =
      String.ofList ((normalizeTranscript foundation A).toList ++ w ++
        (core ++ (' ' :: v ++ (normalizeTranscript foundation B).toList))) := by
  have hmiddle := hjoint.trimmed_eq (core ++ [' '])
  have hright : ∀ inRun, collapsing foundation.isWhiteSpace ' ' inRun (core ++ ' ' :: B.toList) =
      core ++ [' '] ++ collapsing foundation.isWhiteSpace ' ' true B.toList := by
    intro inRun
    rw [collapsing_append, (hcore inRun).1, (hcore inRun).2]
    simp [collapsing, hspace]
  rw [VoiceTaskParser.normalizeTranscript_eq, String.toList_ofList, collapsing_append, hright]
  simpa using hmiddle

/-- The normalized transcript, if there is only whitespace between the texts. -/
theorem IsJoint.normalizeTranscript_blank {A B : String} {x w v : List Char}
    (hjoint : IsJoint foundation A x w v B) (hne : x ≠ [])
    (hx : ∀ c ∈ x, foundation.isWhiteSpace c) :
    normalizeTranscript foundation (String.ofList (A.toList ++ x ++ B.toList)) =
      String.ofList ((normalizeTranscript foundation A).toList ++ w ++
        (v ++ (normalizeTranscript foundation B).toList)) := by
  have hrun : endsInRun foundation.isWhiteSpace false (A.toList ++ x) = true := by
    obtain ⟨x, c, rfl⟩ := (List.eq_nil_or_concat' x).resolve_left hne
    simpa [endsInRun] using hx c (by simp)
  have hmiddle := hjoint.trimmed_eq []
  rw [VoiceTaskParser.normalizeTranscript_eq, String.toList_ofList, collapsing_append, hrun]
  simpa using hmiddle

theorem mem_normalizeTranscript {text : String} {c : Char}
    (hc : c ∈ (normalizeTranscript foundation text).toList) :
    c = ' ' ∨ (c ∈ text.toList ∧ foundation.isWhiteSpace c = false) := by
  obtain ⟨u, w, hsplit, -⟩ := exists_toList_eq_append_trimmed
    (String.ofList (collapsing foundation.isWhiteSpace ' ' false text.toList))
  rw [← normalizeTranscript_eq, String.toList_ofList] at hsplit
  have hmem : c ∈ collapsing foundation.isWhiteSpace ' ' false text.toList := by
    rw [hsplit]
    simp [hc]
  exact mem_collapsing hmem

end VoiceTaskParser

end Notelayer
