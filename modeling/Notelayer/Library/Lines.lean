import Mathlib.Data.List.DropRight
import Notelayer.Library.Replacing

/-!
# Reading a text by its lines

`readLines` reads something off each line of a text. A reader that ignores the blanks around a line,
and blank lines, reads the same off the trimmed text (`readLines_trim`), and off a text whose ends
of lines are written with one element instead of two (`readLines_of_mergesEnds`).
-/

namespace Lines

variable {α β : Type*} {isNewline isBlank : α → Bool} {read : List α → Option β}

/-- What is read off the lines, in their order. -/
def readLines (isNewline : α → Bool) (read : List α → Option β) (l : List α) : List β :=
  (l.splitOnP isNewline).filterMap read

/-- Blanks around a line make no difference, and nothing is read off an empty line. -/
structure IgnoresBlanks (isBlank : α → Bool) (read : List α → Option β) : Prop where
  nil : read [] = none
  cons : ∀ c l, isBlank c → read (c :: l) = read l
  concat : ∀ l c, isBlank c → read (l ++ [c]) = read l

theorem readLines_append_cons (read : List α → Option β) (x y : List α) {c : α}
    (hc : isNewline c) :
    readLines isNewline read (x ++ c :: y) =
      readLines isNewline read x ++ readLines isNewline read y := by
  rw [readLines, List.splitOnP_append_cons x y hc, List.filterMap_append]
  rfl

theorem readLines_nil (h : IgnoresBlanks isBlank read) : readLines isNewline read [] = [] := by
  simp [readLines, h.nil]

theorem readLines_of_forall_not {l : List α} (hl : ∀ c ∈ l, isNewline c = false) :
    readLines isNewline read l = (read l).toList := by
  rw [readLines, List.splitOnP_eq_singleton hl]
  cases hread : read l <;> simp [hread]

/-- The lines are no lines themselves. -/
theorem forall_not_of_mem_lines {l line : List α} (h : line ∈ l.splitOnP isNewline) :
    ∀ c ∈ line, isNewline c = false := by
  induction l generalizing line with
  | nil => simp_all
  | cons d l ih =>
    rw [List.splitOnP_cons_eq_if_modifyHead] at h
    split_ifs at h with hd
    · rcases List.mem_cons.mp h with rfl | h
      · simp
      · exact ih h
    · obtain ⟨first, others, hsplit⟩ :=
        List.exists_cons_of_ne_nil (List.splitOnP_ne_nil isNewline l)
      rw [hsplit] at h ih
      rcases List.mem_cons.mp h with rfl | h
      · exact List.forall_mem_cons.mpr ⟨by simpa using hd, ih List.mem_cons_self⟩
      · exact ih (List.mem_cons_of_mem _ h)

/-- A text is one line, or there is an end of a line in it. -/
theorem isLine_or_exists (isNewline : α → Bool) (l : List α) :
    (∀ c ∈ l, isNewline c = false) ∨ ∃ x c y, isNewline c ∧ l = x ++ c :: y := by
  by_cases h : ∃ c ∈ l, isNewline c
  · obtain ⟨c, hmem, hc⟩ := h
    obtain ⟨x, y, rfl⟩ := List.append_of_mem hmem
    exact Or.inr ⟨x, c, y, hc, rfl⟩
  · exact Or.inl fun c hmem => by simpa using fun hc => h ⟨c, hmem, hc⟩

/-! ## Trimming -/

theorem readLines_cons (h : IgnoresBlanks isBlank read) {c : α} (hc : isBlank c) (l : List α) :
    readLines isNewline read (c :: l) = readLines isNewline read l := by
  by_cases hnewline : isNewline c
  · have hsplit := readLines_append_cons read [] l hnewline
    rwa [readLines_nil h, List.nil_append, List.nil_append] at hsplit
  · obtain ⟨first, others, hsplit⟩ := List.exists_cons_of_ne_nil (List.splitOnP_ne_nil isNewline l)
    unfold readLines
    rw [List.splitOnP_cons_eq_if_modifyHead, if_neg hnewline, hsplit, List.modifyHead_cons,
      List.filterMap_cons, List.filterMap_cons, h.cons c first hc]

/-- A blank end does not change what is read. -/
theorem readLines_concat (h : IgnoresBlanks isBlank read) {c : α} (hc : isBlank c) (l : List α) :
    readLines isNewline read (l ++ [c]) = readLines isNewline read l := by
  by_cases hnewline : isNewline c
  · rw [readLines_append_cons read l [] hnewline, readLines_nil h, List.append_nil]
  induction hlength : l.length using Nat.strongRecOn generalizing l with
  | ind length ih =>
    rcases isLine_or_exists isNewline l with hline | ⟨x, d, y, hd, rfl⟩
    · have hline' : ∀ b ∈ l ++ [c], isNewline b = false := by
        simpa [or_imp, forall_and] using ⟨hline, Bool.eq_false_iff.mpr hnewline⟩
      rw [readLines_of_forall_not hline', readLines_of_forall_not hline, h.concat l c hc]
    · have hlt : y.length < length := by
        simp at hlength
        omega
      rw [List.append_assoc, List.cons_append, readLines_append_cons read x _ hd,
        readLines_append_cons read x _ hd, ih _ hlt y rfl]

theorem readLines_dropWhile (h : IgnoresBlanks isBlank read) (l : List α) :
    readLines isNewline read (l.dropWhile isBlank) = readLines isNewline read l := by
  induction l with
  | nil => rfl
  | cons c l ih =>
    by_cases hc : isBlank c
    · rw [List.dropWhile_cons_of_pos hc, ih, readLines_cons h hc]
    · rw [List.dropWhile_cons_of_neg hc]

theorem readLines_rdropWhile (h : IgnoresBlanks isBlank read) (l : List α) :
    readLines isNewline read (l.rdropWhile isBlank) = readLines isNewline read l := by
  induction l using List.reverseRecOn with
  | nil => rfl
  | append_singleton l c ih =>
    by_cases hc : isBlank c
    · rw [List.rdropWhile_concat_pos _ _ _ hc, ih, readLines_concat h hc]
    · rw [List.rdropWhile_concat_neg _ _ _ hc]

theorem readLines_trim (h : IgnoresBlanks isBlank read) (l : List α) :
    readLines isNewline read ((l.dropWhile isBlank).rdropWhile isBlank) =
      readLines isNewline read l := by
  rw [readLines_rdropWhile h, readLines_dropWhile h]

/-! ## Ends of two elements -/

/-- Some `a` right before a `b` are gone. -/
inductive MergesEnds (a b : α) : List α → List α → Prop
  | nil : MergesEnds a b [] []
  | keep (c : α) {l l' : List α} : MergesEnds a b l l' → MergesEnds a b (c :: l) (c :: l')
  | merge {l l' : List α} : MergesEnds a b l l' → MergesEnds a b (a :: b :: l) (b :: l')

variable {a b : α}

/-- Ends of lines that are merged do not change what is read. -/
theorem readLines_of_mergesEnds (h : IgnoresBlanks isBlank read) (ha : isNewline a)
    (hb : isNewline b) {l l' : List α} (hmerges : MergesEnds a b l l') :
    readLines isNewline read l' = readLines isNewline read l := by
  -- for the induction, behind any part of a text
  suffices ∀ x, readLines isNewline read (x ++ l') = readLines isNewline read (x ++ l) from this []
  induction hmerges with
  | nil => exact fun _ => rfl
  | keep c _ ih =>
    intro x
    simpa using ih (x ++ [c])
  | @merge l l' _ ih =>
    intro x
    have hempty := readLines_append_cons read [] l hb
    rw [readLines_nil h, List.nil_append, List.nil_append] at hempty
    rw [readLines_append_cons read x l' hb, readLines_append_cons read x (b :: l) ha, hempty]
    exact congrArg _ (ih [])

/-- A merge brings no element. -/
theorem MergesEnds.mem {l l' : List α} (h : MergesEnds a b l l') {c : α} (hc : c ∈ l') : c ∈ l := by
  induction h with
  | nil => exact hc
  | keep d _ ih =>
    rcases List.mem_cons.mp hc with rfl | hc
    · exact List.mem_cons_self
    · exact List.mem_cons_of_mem d (ih hc)
  | merge _ ih =>
    rcases List.mem_cons.mp hc with rfl | hc
    · simp
    · simp [ih hc]

/-- Nothing else is gone. -/
theorem MergesEnds.mem_of_ne {l l' : List α} (h : MergesEnds a b l l') {c : α} (hne : c ≠ a)
    (hc : c ∈ l) : c ∈ l' := by
  induction h with
  | nil => exact hc
  | keep d _ ih =>
    rcases List.mem_cons.mp hc with rfl | hc
    · exact List.mem_cons_self
    · exact List.mem_cons_of_mem d (ih hc)
  | merge _ ih =>
    rw [List.mem_cons, List.mem_cons] at hc
    rcases hc with rfl | rfl | hc
    · exact absurd rfl hne
    · exact List.mem_cons_self
    · exact List.mem_cons_of_mem _ (ih hc)

theorem MergesEnds.ne_nil {l l' : List α} (h : MergesEnds a b l l') (hne : l' ≠ []) : l ≠ [] := by
  rintro rfl
  cases h
  exact hne rfl

/-- Another element than an end stays where it is. -/
theorem MergesEnds.exists_split {l x' y' : List α} {c : α} (hne : c ≠ b)
    (h : MergesEnds a b l (x' ++ c :: y')) :
    ∃ x y, l = x ++ c :: y ∧ MergesEnds a b x x' ∧ MergesEnds a b y y' := by
  generalize hl' : x' ++ c :: y' = l' at h
  induction h generalizing x' with
  | nil => simp at hl'
  | @keep d l l' hmerges ih =>
    rcases x' with _ | ⟨e, x'⟩
    · obtain ⟨rfl, rfl⟩ := List.cons.inj hl'
      exact ⟨[], l, rfl, .nil, hmerges⟩
    · obtain ⟨rfl, htail⟩ := List.cons.inj hl'
      obtain ⟨x, y, rfl, hx, hy⟩ := ih htail
      exact ⟨e :: x, y, rfl, .keep e hx, hy⟩
  | merge _ ih =>
    rcases x' with _ | ⟨e, x'⟩
    · exact absurd (List.cons.inj hl').1 hne
    · obtain ⟨rfl, htail⟩ := List.cons.inj hl'
      obtain ⟨x, y, rfl, hx, hy⟩ := ih htail
      exact ⟨_, y, rfl, .merge hx, hy⟩

/-- The ends are merged by replacing them. -/
theorem mergesEnds_replacing {same : α → α → Bool} (ha : ∀ c, same a c → c = a)
    (hb : ∀ c, same b c → c = b) (isBoundary : List α → List α → Bool) (before l : List α) :
    MergesEnds a b l (Replacing.replacing same isBoundary [a, b] [b] 0 before l) := by
  induction hlength : l.length using Nat.strongRecOn generalizing before l with
  | ind length ih =>
    cases l with
    | nil => exact .nil
    | cons c l =>
      by_cases hat : Replacing.IsAt same isBoundary [a, b] before (c :: l)
      · have hstarts : Replacing.startsWith same [a, b] (c :: l) := by
          simp only [Replacing.IsAt, Bool.and_eq_true] at hat
          exact hat.1.1
        cases l with
        | nil => simp [Replacing.startsWith] at hstarts
        | cons d l =>
          obtain ⟨hc, hd⟩ : same a c ∧ same b d := by
            simpa [Replacing.startsWith] using hstarts
          obtain rfl := ha c hc
          obtain rfl := hb d hd
          rw [Replacing.replacing_of_isAt (by simp) hat]
          exact .merge (ih l.length (by simp at hlength; omega) _ l rfl)
      · rw [Replacing.replacing, if_neg hat]
        exact .keep c (ih l.length (by simp at hlength; omega) _ l rfl)

end Lines
