import Mathlib.Algebra.Order.Field.Rat
import Mathlib.Data.List.DropRight
import Mathlib.Data.List.TakeWhile
import Mathlib.Data.Rat.Floor
import Notelayer.Library.KeyedList

/-!
# The parts of Foundation the store uses

Dates are seconds since 1970 (`TimeInterval`). Swift's `Double` is kept up to rounding :
finite values are rationals, with the infinities and NaN beside them, so that
`isFinite` is a real test and every comparison with NaN is false. Only
`Date.addingTimeInterval` rounds its sum (`Notelayer.Calendar`).

`uniqueKeysWithValues` is the dictionary initialiser that traps on a repeated key.
`none` stands for the trap here and in every function that calls it.
-/

namespace Notelayer

/-! ## Dates -/

/-- A `Double` of seconds, without rounding. -/
inductive TimeInterval where
  | finite (seconds : ℚ)
  | infinity
  | negInfinity
  | nan
  deriving DecidableEq

namespace TimeInterval

/-- Neither infinite nor a NaN. -/
def isFinite : TimeInterval → Bool
  | finite _ => true
  | _ => false

/-- The order of `Double` : NaN is not below or above anything. -/
def lt : TimeInterval → TimeInterval → Bool
  | nan, _ => false
  | _, nan => false
  | finite a, finite b => a < b
  | finite _, infinity => true
  | finite _, negInfinity => false
  | infinity, _ => false
  | negInfinity, negInfinity => false
  | negInfinity, _ => true

theorem lt_trans {a b c : TimeInterval} (h : a.lt b = true) (h' : b.lt c = true) :
    a.lt c = true := by
  cases a <;> cases b <;> cases c <;>
    simp only [lt, decide_eq_true_eq, Bool.false_eq_true] at h h' ⊢
  exact h.trans h'

/-- `>=` of `Double`. -/
def ge (a b : TimeInterval) : Bool :=
  b.lt a || (a = b && a ≠ nan)

/-- Subtraction of `Double`. -/
def sub : TimeInterval → TimeInterval → TimeInterval
  | nan, _ => nan
  | _, nan => nan
  | finite a, finite b => finite (a - b)
  | finite _, infinity => negInfinity
  | finite _, negInfinity => infinity
  | infinity, infinity => nan
  | negInfinity, negInfinity => nan
  | infinity, _ => infinity
  | negInfinity, _ => negInfinity

end TimeInterval

/-- A `Date`, by its seconds since 1970. -/
structure Date where
  timeIntervalSince1970 : TimeInterval
  deriving DecidableEq

namespace Date

instance : LT Date :=
  ⟨fun d e => d.timeIntervalSince1970.lt e.timeIntervalSince1970 = true⟩

instance (d e : Date) : Decidable (d < e) :=
  inferInstanceAs (Decidable (_ = true))

theorem lt_trans {a b c : Date} (h : a < b) (h' : b < c) : a < c :=
  TimeInterval.lt_trans h h'

/-- The date a whole number of seconds after 1970. -/
def seconds (n : ℤ) : Date :=
  ⟨.finite n⟩

/-- `Int(_:)` of a finite value drops the fraction. -/
def truncated (q : ℚ) : ℤ :=
  q.num.tdiv q.den

/-- `Double.rounded()` of a finite value, halves away from zero. -/
def rounded (q : ℚ) : ℤ :=
  if 0 ≤ q then ⌊q + 1 / 2⌋ else ⌈q - 1 / 2⌉

/-- `Int(timeIntervalSince1970 * 1000)`. `Int(_:)` traps on a value that is not finite;
the callers pass `Date()` or a clamped date. -/
def milliseconds (d : Date) : ℤ :=
  match d.timeIntervalSince1970 with
  | .finite q => truncated (q * 1000)
  | _ => 0

/-- `timeIntervalSince(_:)`. -/
def timeIntervalSince (d e : Date) : TimeInterval :=
  d.timeIntervalSince1970.sub e.timeIntervalSince1970

/-- `Int(d.timeIntervalSince(e).rounded())`, with the same convention. -/
def roundedSecondsSince (d e : Date) : ℤ :=
  match d.timeIntervalSince1970, e.timeIntervalSince1970 with
  | .finite p, .finite q => rounded (p - q)
  | _, _ => 0

/-- `Int(d.timeIntervalSince(e) / 60)`, with the same convention. -/
def minutesSince (d e : Date) : ℤ :=
  match d.timeIntervalSince1970, e.timeIntervalSince1970 with
  | .finite p, .finite q => truncated ((p - q) / 60)
  | _, _ => 0

end Date

/-! ## Integers -/

/-- `Int` arithmetic traps outside of 64 bits. -/
def checkedInt (n : ℤ) : Option ℤ :=
  if -2 ^ 63 ≤ n ∧ n < 2 ^ 63 then some n else none

/-! ## Strings and collections -/

/-- Membership in `CharacterSet.whitespacesAndNewlines`. -/
def isWhitespaceOrNewline (c : Char) : Bool :=
  let n := c.toNat
  (0x09 ≤ n && n ≤ 0x0D) || n == 0x20 || n == 0x85 || n == 0xA0 || n == 0x1680 ||
    (0x2000 ≤ n && n ≤ 0x200B) || n == 0x2028 || n == 0x2029 || n == 0x202F || n == 0x205F ||
    n == 0x3000

/-- `trimmingCharacters(in: .whitespacesAndNewlines)`. -/
def trimmed (s : String) : String :=
  String.ofList
    ((s.toList.dropWhile isWhitespaceOrNewline).reverse.dropWhile isWhitespaceOrNewline).reverse

theorem dropWhile_rdropWhile_dropWhile {A : Type} (p : A → Bool) (l : List A) :
    ((l.dropWhile p).rdropWhile p).dropWhile p = (l.dropWhile p).rdropWhile p := by
  refine List.dropWhile_eq_self_iff.mpr fun hlength => ?_
  have hinit := List.rdropWhile_prefix p (l := l.dropWhile p)
  have hpos : 0 < (l.dropWhile p).length := hlength.trans_le hinit.length_le
  rw [List.IsPrefix.getElem hinit hlength]
  exact List.dropWhile_get_zero_not _ l hpos

@[simp] theorem trimmed_trimmed (s : String) : trimmed (trimmed s) = trimmed s := by
  have hdrop := dropWhile_rdropWhile_dropWhile isWhitespaceOrNewline s.toList
  have hrdrop := List.rdropWhile_idempotent isWhitespaceOrNewline
    (s.toList.dropWhile isWhitespaceOrNewline)
  unfold List.rdropWhile at hdrop hrdrop
  unfold trimmed
  rw [String.toList_ofList, hdrop, hrdrop]

theorem toList_trimmed (s : String) : (trimmed s).toList =
    (s.toList.dropWhile isWhitespaceOrNewline).rdropWhile isWhitespaceOrNewline := by
  rw [trimmed, String.toList_ofList]
  rfl

theorem trimmed_eq_empty_iff {s : String} :
    trimmed s = "" ↔ ∀ c ∈ s.toList, isWhitespaceOrNewline c := by
  rw [← String.toList_eq_nil_iff, toList_trimmed, List.rdropWhile_eq_nil_iff]
  constructor
  · intro h c hc
    rw [← List.takeWhile_append_dropWhile (p := isWhitespaceOrNewline) (l := s.toList)] at hc
    rcases List.mem_append.mp hc with hc | hc
    · exact List.all_eq_true.mp List.all_takeWhile c hc
    · exact h c hc
  · exact fun h c hc => h c (List.dropWhile_subset _ hc)

theorem rdropWhile_toList_trimmed (s : String) :
    (trimmed s).toList.rdropWhile isWhitespaceOrNewline =
      (trimmed s).toList := by
  unfold trimmed
  rw [String.toList_ofList]
  exact List.rdropWhile_idempotent isWhitespaceOrNewline _

/-- No whitespace at the ends. -/
def IsTrimmed (l : List Char) : Prop :=
  (∀ c ∈ l.head?, isWhitespaceOrNewline c = false) ∧
    ∀ c ∈ l.getLast?, isWhitespaceOrNewline c = false

/-- A trimmed text has no white space at either end. -/
theorem isTrimmed_toList_trimmed (s : String) : IsTrimmed (trimmed s).toList := by
  constructor
  · have hdrop := dropWhile_rdropWhile_dropWhile isWhitespaceOrNewline s.toList
    rw [← toList_trimmed] at hdrop
    intro c hc
    obtain ⟨l, hl⟩ := List.head?_eq_some_iff.mp hc
    rw [hl, List.dropWhile_cons] at hdrop
    split_ifs at hdrop with hblank
    · have hlength := congrArg List.length hdrop
      have hle := (List.dropWhile_suffix isWhitespaceOrNewline (l := l)).length_le
      simp at hlength
      omega
    · simpa using hblank
  · intro c hc
    obtain ⟨l, hl⟩ := List.getLast?_eq_some_iff.mp hc
    have hself := rdropWhile_toList_trimmed s
    rw [hl, List.rdropWhile_concat] at hself
    split_ifs at hself with hblank
    · have hlength := congrArg List.length hself
      have hle := (List.rdropWhile_prefix isWhitespaceOrNewline (l := l)).length_le
      simp at hlength
      omega
    · simpa using hblank

theorem IsTrimmed.append {l m : List Char} (hl : IsTrimmed l) (hm : IsTrimmed m) (hne : l ≠ [])
    (hne' : m ≠ []) (x : List Char) : IsTrimmed (l ++ x ++ m) := by
  refine ⟨?_, ?_⟩
  · rw [List.append_assoc, List.head?_append_of_ne_nil _ hne]
    exact hl.1
  · rw [List.getLast?_append_of_ne_nil _ hne']
    exact hm.2

/-- Trimming leaves a trimmed text as it is. -/
theorem IsTrimmed.trimmed_eq {l : List Char} (h : IsTrimmed l) :
    trimmed (String.ofList l) = String.ofList l := by
  rw [← String.toList_inj, toList_trimmed, String.toList_ofList]
  have hdrop : l.dropWhile isWhitespaceOrNewline = l := by
    cases l with
    | nil => rfl
    | cons c l => rw [List.dropWhile_cons_of_neg (by simp [h.1 c rfl])]
  rw [hdrop]
  rcases List.eq_nil_or_concat' l with rfl | ⟨l, c, rfl⟩
  · rfl
  · exact List.rdropWhile_concat_neg _ _ _ (by simp [h.2 c (by simp)])

/-- Whitespace around a text is trimmed. -/
theorem trimmed_append_append {u w : List Char} (hu : ∀ c ∈ u, isWhitespaceOrNewline c)
    (hw : ∀ c ∈ w, isWhitespaceOrNewline c) (l : List Char) :
    trimmed (String.ofList (u ++ l ++ w)) = trimmed (String.ofList l) := by
  have hright : ∀ x : List Char, (x ++ w).rdropWhile isWhitespaceOrNewline =
      x.rdropWhile isWhitespaceOrNewline := by
    intro x
    have hwr : ∀ c ∈ w.reverse, isWhitespaceOrNewline c := by simpa using hw
    simp only [List.rdropWhile, List.reverse_append]
    rw [List.dropWhile_append_of_pos hwr]
  rw [← String.toList_inj, toList_trimmed, toList_trimmed, String.toList_ofList,
    String.toList_ofList, List.append_assoc, List.dropWhile_append_of_pos hu,
    List.dropWhile_append]
  split_ifs with hempty
  · rw [List.isEmpty_iff.mp hempty, List.dropWhile_eq_nil_iff.mpr hw]
  · exact hright _

theorem exists_toList_eq_append_trimmed (s : String) : ∃ u w,
    s.toList = u ++ (trimmed s).toList ++ w ∧ (∀ c ∈ u, isWhitespaceOrNewline c) ∧
      ∀ c ∈ w, isWhitespaceOrNewline c := by
  refine ⟨s.toList.takeWhile isWhitespaceOrNewline,
    (s.toList.dropWhile isWhitespaceOrNewline).rtakeWhile isWhitespaceOrNewline, ?_, ?_, ?_⟩
  · rw [toList_trimmed, List.append_assoc, List.rdropWhile_append_rtakeWhile,
      List.takeWhile_append_dropWhile]
  · exact fun c hc => List.mem_takeWhile_imp hc
  · exact fun c hc => List.mem_rtakeWhile_imp hc

/-- A text stays if it does not begin with whitespace and the rest does not end with it. -/
theorem trimmed_ofList_cons {c : Char} {l : List Char} (hc : isWhitespaceOrNewline c = false)
    (hl : l.rdropWhile isWhitespaceOrNewline = l) :
    trimmed (String.ofList (c :: l)) = String.ofList (c :: l) := by
  have hfirst : (c :: l).dropWhile isWhitespaceOrNewline = c :: l := by
    rw [List.dropWhile_cons, hc]
    rfl
  have hlast : (c :: l).rdropWhile isWhitespaceOrNewline = c :: l := by
    refine List.rdropWhile_eq_self_iff.mpr fun hne => ?_
    cases l with
    | nil => simp [hc]
    | cons d l => exact List.rdropWhile_eq_self_iff.mp hl (List.cons_ne_nil d l)
  unfold trimmed
  rw [String.toList_ofList, hfirst]
  exact congrArg String.ofList hlast

/-- `joined(separator: ",")`. -/
def joinedByComma (strings : List String) : String :=
  String.intercalate "," strings

/-- `Set(a).subtracting(b).count`. -/
def subtractingCount (a b : List String) : ℕ :=
  (a.dedup.filter fun x => x ∉ b).length

/-- `Dictionary(uniqueKeysWithValues:)` of records paired with their keys. It traps on a
repeated key. -/
def uniqueKeysWithValues {A : Type} (key : A → String) (l : List A) :
    Option (String → Option A) :=
  if KeyedList.DistinctKeys key l then some (KeyedList.lookup key l) else none

end Notelayer
