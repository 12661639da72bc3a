import Notelayer.VoiceDrafts
import Notelayer.VoiceLedger

/-!
# From a transcript to tasks

A parsed draft has a title that is not blank, since the title begins as the text without the blanks
around it does (`VoiceTaskParser.head?_inferTitle`). So on any transcript that is not blank, the
capture sheet never reports that it could not parse it, and a confirmation of all drafts that
follows is never refused : it makes one task of each part of the transcript
(`RootTabsEvent.exists_run_parse`).
-/

namespace Notelayer

open Replacing Rewriting Characters

namespace VoiceTaskParser

variable {foundation : VoiceFoundation} {calendar : Calendar}

/-! ## Titles begin with the text -/

variable (foundation) in
theorem head?_spacedParts {text : String} {c : Char} {l : List Char}
    (htext : text.toList = c :: l) (hspace : c ≠ ' ') :
    ∃ part parts, spacedParts foundation text = (c :: part) :: parts := by
  have hzero : singleLength foundation.isBoundary ' ' [] (c :: l) = 0 :=
    singleLength_eq_zero_iff.mpr fun h => absurd h.symm hspace
  obtain ⟨part, parts, hrest⟩ := List.exists_cons_of_ne_nil
    (components_ne_nil (singleLength foundation.isBoundary ' ') 0 [c] l)
  refine ⟨part, parts, ?_⟩
  unfold spacedParts
  rw [htext, components, if_pos hzero, List.nil_append, hrest, List.modifyHead_cons]

theorem head?_intercalate {separator first : String} {c : Char} {l : List Char}
    (hfirst : first.toList = c :: l) (parts : List String) :
    (String.intercalate separator (first :: parts)).toList.head? = some c := by
  cases parts with
  | nil => rw [String.intercalate_singleton, hfirst, List.head?_cons]
  | cons second parts =>
    rw [String.intercalate_cons_cons, String.toList_append, String.toList_append, hfirst]
    rfl

/-- A shortened title begins as before. -/
theorem head?_truncatedTitle {title : String} {c : Char} (h : title.toList.head? = some c) :
    (truncatedTitle foundation title).toList.head? = some c := by
  unfold truncatedTitle
  dsimp only
  split_ifs with hcount
  · exact h
  · have hcut := flatten_take_append_drop foundation.isBoundary 54 [] title.toList
    unfold VoiceFoundation.count at hcount
    unfold VoiceFoundation.firstCharacters
    rw [String.toList_append, String.toList_ofList]
    cases hcharacters : characters foundation.isBoundary [] title.toList with
    | nil => simp [hcharacters] at hcount
    | cons first others =>
      have hne : first ≠ [] := ne_nil_of_mem_characters (hcharacters ▸ List.mem_cons_self)
      rw [hcharacters, List.take_succ_cons, List.flatten_cons, List.append_assoc] at hcut
      rw [List.take_succ_cons, List.flatten_cons, List.append_assoc,
        List.head?_append_of_ne_nil _ hne]
      rw [← hcut, List.head?_append_of_ne_nil _ hne] at h
      exact h

variable (foundation) in
/-- A title does not begin with a blank. -/
theorem head?_inferTitle (text : String) :
    ∃ c, (inferTitle foundation text).toList.head? = some c ∧ isWhitespaceOrNewline c = false := by
  unfold inferTitle
  dsimp only
  split_ifs with hempty
  · exact ⟨'N', rfl, by decide⟩
  · obtain ⟨c, l, hl⟩ : ∃ c l, (trimmed text).toList = c :: l :=
      List.exists_cons_of_ne_nil (by simpa using hempty)
    have hblank : isWhitespaceOrNewline c = false :=
      (isTrimmed_toList_trimmed text).1 c (by rw [hl]; rfl)
    have hspace : c ≠ ' ' := by
      rintro rfl
      exact absurd hblank (by decide)
    obtain ⟨part, parts, hparts⟩ := head?_spacedParts foundation hl hspace
    refine ⟨c, head?_truncatedTitle ?_, hblank⟩
    rw [split_space, hparts, List.map_cons, List.filter_cons_of_pos (by simp),
      List.take_succ_cons]
    exact head?_intercalate (String.toList_ofList) _

theorem isTitled_of_head? {draft : VoiceParsedTaskDraft} {c : Char}
    (h : draft.title.toList.head? = some c) (hblank : isWhitespaceOrNewline c = false) :
    draft.isTitled = true := by
  obtain ⟨l, hl⟩ := List.head?_eq_some_iff.mp h
  have hne : trimmed draft.title ≠ "" := by
    rw [Ne, trimmed_eq_empty_iff, hl]
    exact fun hall => absurd (hall c List.mem_cons_self) (by simp [hblank])
  simpa [VoiceParsedTaskDraft.isTitled] using hne

/-- No parsed draft is refused. -/
theorem isTitled_parse {newId : ℕ → String} {transcript : String}
    {existingCategories : List Category} {now : Date} {draft : VoiceParsedTaskDraft}
    (h : draft ∈ parse foundation calendar newId transcript existingCategories now) :
    draft.isTitled = true := by
  obtain ⟨i, segment, rfl⟩ := exists_of_mem_parse h
  obtain ⟨c, hc, hblank⟩ := head?_inferTitle foundation
    (removeLeadingFillerWords foundation segment)
  refine isTitled_of_head? ?_ hblank
  rw [title_parseSegment]
  exact hc

end VoiceTaskParser

/-! ## The preview -/

namespace RootTabsView

variable {x z : RootTabsView}

/-- A preview that comes up shows no alert. -/
theorem sheet_updated (hnone : z.stagingSheet = none) {now : Date} {sheet : StagingSheet}
    (h : (z.updated x now).stagingSheet = some sheet) :
    sheet = ⟨sheet.drafts, false, false⟩ := by
  have hpreference : (z.onChangeOfPreference x now).stagingSheet = none := by
    unfold onChangeOfPreference
    split_ifs
    · rw [stagingSheet_handle, hnone]
    · exact hnone
  have htab : ((z.onChangeOfPreference x now).onChangeOfTab x now).stagingSheet = none := by
    unfold onChangeOfTab selectedTabChanged
    split_ifs <;> exact hpreference
  unfold updated presentStaging at h
  split_ifs at h
  rw [htab] at h
  obtain rfl := Option.some_inj.mp h
  rfl

/-- While the features are on, the reactions leave the capture sheet. -/
theorem showVoiceCaptureSheet_updated (hon : z.insightsEnabled = true) (x : RootTabsView)
    (now : Date) : (z.updated x now).showVoiceCaptureSheet = z.showVoiceCaptureSheet := by
  have hpreference : (z.onChangeOfPreference x now).showVoiceCaptureSheet =
      z.showVoiceCaptureSheet := by
    unfold onChangeOfPreference
    split_ifs
    · exact (handle_on hon false now).2.2.1
    · rfl
  unfold updated presentStaging onChangeOfTab selectedTabChanged
  split_ifs <;> exact hpreference

end RootTabsView

namespace RootTabsEvent

open RootTabsView VoiceTaskParser

variable {foundation : VoiceFoundation} {calendar : Calendar} {isContent : Char → Bool}
  {joins : Char → Char → Bool} {x : RootTabsView}

variable (foundation calendar) in
theorem stagingSheet_parse (transcript : String) (newId : ℕ → String) (now : Date) :
    (parse foundation calendar x transcript newId now).stagingSheet = x.stagingSheet := by
  unfold parse
  dsimp only
  generalize VoiceTaskParser.parse foundation calendar newId (trimmed transcript)
    x.store.sortedCategories now = drafts
  split_ifs <;> rfl

/-- The parse of a transcript that is not blank puts the preview up with the drafts. -/
theorem exists_step_parse (h : x.Gated) (hcapture : x.showVoiceCaptureSheet = true)
    (hcontent : KnowsContent foundation isContent) (hcharacters : KnowsCharacters foundation joins)
    {transcript : String} (hne : trimmed transcript ≠ "") (newId : ℕ → String) (now : Date) :
    ∃ y, step foundation calendar (now, .parseTranscript transcript newId) x = some y ∧
      y.Gated ∧ x.store.Adds y.store [] ∧ y.insightsEnabled = true ∧
      y.stagingSheet = some (StagingSheet.mk (VoiceTaskParser.parse foundation calendar newId
        (trimmed transcript) x.store.sortedCategories now) false false) := by
  have hnil := h.capture hcapture
  have hadds := adds_parse (x := x) foundation calendar transcript newId now
  have hdrafts := drafts_parse foundation calendar hnil transcript newId now
  have hparsed := (parsesWell_parse hcontent hcharacters calendar newId (trimmed transcript)
    x.store.sortedCategories now).blank.not.mpr (by
      rw [← trimmed_eq_empty_iff, trimmed_trimmed]
      exact hne)
  have hstep : step foundation calendar (now, .parseTranscript transcript newId) x =
      some ((parse foundation calendar x transcript newId now).updated x now) := by
    simp only [step, handled]
    rw [if_pos ⟨hcapture, hne⟩, Option.map_some]
  have hgated := gated_step h hstep
  have hon := (insightsEnabled_of_adds hadds).trans (h.gates.capture hcapture)
  have hstaged := LocalStore.drafts_of_staging (staging_updated hon x now)
  rw [hdrafts] at hstaged
  have hupdated :=
    hadds.trans (adds_updated (parse foundation calendar x transcript newId now) x now)
  refine ⟨_, hstep, hgated, hupdated, (insightsEnabled_of_adds hupdated).trans
    (h.gates.capture hcapture), ?_⟩
  have hsheet := hgated.sheet
  rw [hstaged, if_neg hparsed] at hsheet
  obtain ⟨sheet, hsome, hsheet⟩ := Option.map_eq_some_iff.mp hsheet
  have hnone : (parse foundation calendar x transcript newId now).stagingSheet = none := by
    have hbefore := h.sheet
    rw [hnil, if_pos rfl] at hbefore
    rw [stagingSheet_parse, Option.map_eq_none_iff.mp hbefore]
  rw [hsome, sheet_updated hnone hsome, hsheet]

/-- The confirmation of all drafts of a preview that shows no alert, each of them with a title. -/
theorem exists_step_saveAllDrafts (h : x.Gated) {drafts : List VoiceParsedTaskDraft}
    (hsheet : x.stagingSheet = some ⟨drafts, false, false⟩)
    (htitled : ∀ draft ∈ drafts, draft.isTitled = true) (stamps : ℕ → String × Date) (now : Date) :
    ∃ y added, step foundation calendar (now, .staging (.saveAllDrafts stamps)) x = some y ∧
      y.Gated ∧ x.store.Adds y.store added ∧ List.Forall₂ IsTaskOf drafts added ∧
      y.store.voiceStagingDrafts = [] ∧ y.showVoiceCaptureSheet = false := by
  have hmap := h.sheet
  rw [hsheet] at hmap
  split_ifs at hmap with hnil
  · cases hmap
  have hdrafts : drafts = x.store.voiceStagingDrafts := Option.some_inj.mp hmap
  have hvalid : VoiceStagingView.validate drafts = true := List.all_eq_true.mpr htitled
  have ha : VoiceStagingEvent.IsAvailable
      { drafts := drafts, store := x.store : VoiceStagingView } (.saveAllDrafts stamps) :=
    ⟨rfl, rfl, hdrafts ▸ hnil⟩
  have hdown : x.showVoiceCaptureSheet = false :=
    Bool.eq_false_of_not_eq_true fun hcapture => hnil (h.capture hcapture)
  obtain ⟨z, hz, hcapture⟩ : ∃ z,
      handled foundation calendar (now, .staging (.saveAllDrafts stamps)) x = some z ∧
        z.showVoiceCaptureSheet = x.showVoiceCaptureSheet := by
    simp only [handled, hsheet, Option.bind_some]
    rw [if_pos ha]
    exact ⟨_, rfl, rfl⟩
  have hstep : step foundation calendar (now, .staging (.saveAllDrafts stamps)) x =
      some (z.updated x now) := by
    rw [step, hz, Option.map_some]
  have hgated := gated_step h hstep
  have hadds := adds_step h rfl hstep
  have hforall := forall₂_step hstep
  simp only [moves, madeTasks, hsheet, Option.elim_some, VoiceStagingEvent.moves,
    VoiceStagingEvent.madeTasks, hvalid, if_true] at hadds hforall
  refine ⟨_, _, hstep, hgated, hadds, hforall, ?_, ?_⟩
  · have hleft := (balanced_step h hstep).length_eq
    simp only [moves, hsheet, Option.elim_some, VoiceStagingEvent.moves, hvalid, if_true] at hleft
    simpa [← hdrafts] using hleft
  · have hon : z.insightsEnabled = true := by
      rw [← insightsEnabled_of_adds (adds_updated z x now), insightsEnabled_of_adds hadds]
      exact h.gates.staged hnil
    rw [showVoiceCaptureSheet_updated hon, hcapture, hdown]

/-- From the capture sheet, on a transcript that is not blank : the parse puts the preview up with
one draft for each part of the transcript, the confirmation of all of them is not refused, and it
makes one task of each draft, and leaves nothing staged and neither the preview nor the capture
sheet on screen. -/
theorem exists_run_parse (h : x.Reached foundation calendar)
    (hcapture : x.showVoiceCaptureSheet = true) (hcontent : KnowsContent foundation isContent)
    (hcharacters : KnowsCharacters foundation joins) {transcript : String}
    (hne : trimmed transcript ≠ "") (newId : ℕ → String) (now : Date)
    (stamps : ℕ → String × Date) (now' : Date) :
    ∃ y drafts added, Runs.run (step foundation calendar)
        [(now, .parseTranscript transcript newId), (now', .staging (.saveAllDrafts stamps))] x =
          some y ∧
      ParsesWell foundation isContent (trimmed transcript) x.store.sortedCategories drafts ∧
      drafts.length = (segments foundation (trimmed transcript)).length ∧
      List.Forall₂ IsTaskOf drafts added ∧ x.store.Adds y.store added ∧
      y.store.voiceStagingDrafts = [] ∧ y.stagingSheet = none ∧
      y.showVoiceCaptureSheet = false := by
  obtain ⟨x₁, hparse, hgated, hadds, -, hsheet⟩ := exists_step_parse (gated_of_reached h) hcapture
    hcontent hcharacters hne newId now
  obtain ⟨y, added, hsave, hgated', hadds', hforall, hnil, hdown⟩ :=
    exists_step_saveAllDrafts hgated hsheet (fun draft => isTitled_parse) stamps now'
  refine ⟨y, _, added, Runs.run_cons_eq_some.mpr ⟨x₁, hparse,
    Runs.run_cons_eq_some.mpr ⟨y, hsave, rfl⟩⟩, parsesWell_parse hcontent hcharacters calendar newId
    (trimmed transcript) x.store.sortedCategories now, ?_, hforall, hadds.trans hadds', hnil, ?_,
    hdown⟩
  · exact List.length_mapIdx
  · have hsheet' := hgated'.sheet
    rw [hnil, if_pos rfl] at hsheet'
    exact Option.map_eq_none_iff.mp hsheet'

theorem exists_run_parse_sample : ∃ (x y : RootTabsView) (drafts : List VoiceParsedTaskDraft)
    (added : List Task), List.Forall₂ IsTaskOf drafts added ∧ x.store.Adds y.store added ∧
      drafts.length =
        (segments .latin (trimmed "Um, call mom and then please buy milk")).length := by
  obtain ⟨x, hr, hcapture⟩ : ∃ x,
      Runs.run (step .latin (Calendar.gregorian .gmt)) [(.seconds 1, .voiceButton)]
        (launch { UserDefaults.samplePreviewed with voiceStagingDrafts := none } true false
          (.seconds 0)) = some x ∧
      x.showVoiceCaptureSheet = true :=
    ⟨_, rfl, rfl⟩
  have hne : trimmed "Um, call mom and then please buy milk" ≠ "" := by decide
  obtain ⟨y, drafts, added, -, -, hlength, hforall, hadds, -⟩ :=
    exists_run_parse ⟨_, _, _, _, _, hr⟩ hcapture knowsContent_latin
      knowsCharacters_latin hne (fun i => toString i) (.seconds 2)
      (fun i => (toString i, .seconds 3)) (.seconds 3)
  exact ⟨x, y, drafts, added, hforall, hadds, hlength⟩

end RootTabsEvent

end Notelayer
