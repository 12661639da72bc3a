import Notelayer.InsightsAggregator
import Notelayer.TelemetryConservation

/-!
# Compaction is invisible to Insights

A bucket keeps of its events the local day and hour, the feature and the categories. In a
calendar with a constant offset this is all that the counts of the Insights snapshot read of an
event (`recordOfEvent_spec`), so they are the same over the compacted data as over the whole log
(`Compacted.buildSnapshot_counts`). Every run of the store keeps its data so
(`TelemetryRun.compacted_run`).

The local time of an event is a sum of doubles. It may be rounded up to the next hour, and the
bucket of the event then begins after it. So the events are those that keep their hour
(`FixedTimeZone.KeepsHour`), which an event at a whole second does
(`FixedTimeZone.keepsHour_intCast`).
-/

namespace Notelayer

open KeyedList InsightsAggregator

/-! ## Bucket keys -/

theorem notMem_toString {n : ℤ} (h : 0 ≤ n) : '|' ∉ (toString n).toList := by
  obtain ⟨n, rfl⟩ := Int.eq_ofNat_of_zero_le h
  have hdigits : (toString (n : ℤ)).toList = Nat.toDigits 10 n := Nat.toList_repr
  rw [hdigits]
  exact fun hmem => absurd (Nat.isDigit_of_mem_toDigits (by decide) (by decide) hmem) (by decide)

theorem toString_inj {n m : ℤ} (hn : 0 ≤ n) (hm : 0 ≤ m) (h : toString n = toString m) :
    n = m := by
  obtain ⟨n, rfl⟩ := Int.eq_ofNat_of_zero_le hn
  obtain ⟨m, rfl⟩ := Int.eq_ofNat_of_zero_le hm
  have hdigits : Nat.toDigits 10 n = Nat.toDigits 10 m := by
    rw [← Nat.toList_repr, ← Nat.toList_repr]
    exact congrArg String.toList h
  rw [← @Nat.ofDigitChars_ten_toDigits n, hdigits, Nat.ofDigitChars_ten_toDigits]

/-- A string without the separators of a bucket key. -/
def IsPlain (s : String) : Prop :=
  '|' ∉ s.toList ∧ ',' ∉ s.toList

instance (s : String) : Decidable (IsPlain s) :=
  inferInstanceAs (Decidable (_ ∧ _))

/-- Plain ids are joined without a bar. -/
theorem notMem_joinedByComma {ids : List String} (h : ∀ id ∈ ids, IsPlain id) :
    '|' ∉ (joinedByComma ids).toList := by
  rw [joinedByComma]
  induction ids with
  | nil => exact List.not_mem_nil
  | cons id ids ih =>
    have hid := (h id List.mem_cons_self).1
    have hids := ih fun id' hmem => h id' (List.mem_cons_of_mem id hmem)
    cases ids with
    | nil => simpa using hid
    | cons id' ids =>
      rw [String.intercalate_cons_cons, String.toList_append, String.toList_append]
      intro hmem
      rcases List.mem_append.mp hmem with hmem | hmem
      · rcases List.mem_append.mp hmem with hmem | hmem
        · exact hid hmem
        · exact absurd hmem (by decide)
      · exact hids hmem

/-- Comma separated ids can be told apart. -/
theorem joinedByComma_inj {ids ids' : List String} (h : ∀ id ∈ ids, id ≠ "" ∧ IsPlain id)
    (h' : ∀ id ∈ ids', id ≠ "" ∧ IsPlain id) (heq : joinedByComma ids = joinedByComma ids') :
    ids = ids' := by
  have hne : ∀ {ids : List String}, (∀ id ∈ ids, id ≠ "" ∧ IsPlain id) → ids ≠ [] →
      (joinedByComma ids).toList.splitOn ',' = ids.map String.toList := by
    intro ids h hnil
    rw [joinedByComma, String.toList_intercalate]
    refine List.splitOn_intercalate ',' (fun id hid => ?_) (by simpa using hnil)
    obtain ⟨id, hmem, rfl⟩ := List.mem_map.mp hid
    exact (h id hmem).2.2
  have hempty : ∀ {ids : List String}, (∀ id ∈ ids, id ≠ "" ∧ IsPlain id) →
      joinedByComma ids = "" → ids = [] := by
    intro ids h hjoin
    by_contra hnil
    have hsplit := hne h hnil
    rw [hjoin] at hsplit
    obtain ⟨id, ids, rfl⟩ := List.exists_cons_of_ne_nil hnil
    obtain ⟨hid, -⟩ := List.cons_eq_cons.mp hsplit
    exact (h id List.mem_cons_self).1 (String.toList_eq_nil_iff.mp hid.symm)
  by_cases hnil : ids = []
  · rw [hnil] at heq ⊢
    exact (hempty h' heq.symm).symm
  · by_cases hnil' : ids' = []
    · rw [hnil'] at heq
      exact absurd (hempty h heq) hnil
    · have hlists := (hne h hnil).symm.trans (heq ▸ hne h' hnil')
      exact List.map_injective_iff.mpr (fun _ _ h => String.toList_injective h) hlists

namespace InsightsTelemetryAggregateBucket

/-- The parts of the key of a bucket after the scope. -/
def keyParts (b : InsightsTelemetryAggregateBucket) : List String :=
  [b.dayKey, toString b.hour, b.eventName, b.featureKey, b.tabName.getD "-", b.viewName.getD "-",
    joinedByComma b.categoryIds]

theorem key_eq (scope : String) (b : InsightsTelemetryAggregateBucket) :
    b.key scope = scope ++ "|" ++ String.intercalate "|" b.keyParts :=
  String.intercalate_cons_cons

theorem intercalate_keyParts_inj {scope : String} {b b' : InsightsTelemetryAggregateBucket}
    (hkey : b.key scope = b'.key scope) :
    String.intercalate "|" b.keyParts = String.intercalate "|" b'.keyParts := by
  rw [key_eq, key_eq] at hkey
  have hlists := congrArg String.toList hkey
  simp only [String.toList_append] at hlists
  exact String.toList_injective (List.append_cancel_left hlists)

/-- The parts of the key can be told apart. -/
structure Separable (b : InsightsTelemetryAggregateBucket) : Prop where
  dayKey : '|' ∉ b.dayKey.toList
  hour : 0 ≤ b.hour
  eventName : IsPlain b.eventName
  featureKey : IsPlain b.featureKey
  tabName : ∀ name ∈ b.tabName, IsPlain name
  viewName : ∀ name ∈ b.viewName, IsPlain name
  categoryIds : ∀ id ∈ b.categoryIds, id ≠ "" ∧ IsPlain id

variable {b b' : InsightsTelemetryAggregateBucket}

/-- No part of a separable key has a bar. -/
theorem Separable.notMem (h : b.Separable) : ∀ part ∈ b.keyParts, '|' ∉ part.toList := by
  have hgetD : ∀ {name : Option String}, (∀ s ∈ name, IsPlain s) →
      '|' ∉ (name.getD "-").toList := by
    intro name hname
    cases name with
    | none => exact by decide
    | some s => exact (hname s rfl).1
  simp only [keyParts, List.forall_mem_cons]
  exact ⟨h.dayKey, notMem_toString h.hour, h.eventName.1, h.featureKey.1, hgetD h.tabName,
    hgetD h.viewName, notMem_joinedByComma fun id hid => (h.categoryIds id hid).2,
    fun _ hnil => absurd hnil List.not_mem_nil⟩

/-- The key of a bucket has its day, its hour, its feature and its categories. -/
theorem Separable.key_inj (h : b.Separable) (h' : b'.Separable) {scope : String}
    (hkey : b.key scope = b'.key scope) : b.dayKey = b'.dayKey ∧ b.hour = b'.hour ∧
      b.featureKey = b'.featureKey ∧ b.categoryIds = b'.categoryIds := by
  have hsplit : ∀ {b : InsightsTelemetryAggregateBucket}, b.Separable →
      (String.intercalate "|" b.keyParts).toList.splitOn '|' = b.keyParts.map String.toList := by
    intro b h
    rw [String.toList_intercalate]
    refine List.splitOn_intercalate '|' (fun part hpart => ?_) (List.cons_ne_nil _ _)
    obtain ⟨part, hmem, rfl⟩ := List.mem_map.mp hpart
    exact h.notMem part hmem
  have hcancel := intercalate_keyParts_inj hkey
  have hparts : b.keyParts = b'.keyParts :=
    List.map_injective_iff.mpr (fun _ _ heq => String.toList_injective heq)
      ((hsplit h).symm.trans (hcancel ▸ hsplit h'))
  simp only [keyParts, List.cons.injEq] at hparts
  obtain ⟨hday, hhour, -, hfeature, -, -, hids, -⟩ := hparts
  exact ⟨hday, toString_inj h.hour h'.hour hhour, hfeature,
    joinedByComma_inj h.categoryIds h'.categoryIds hids⟩

end InsightsTelemetryAggregateBucket

/-! ## Local time -/

namespace FixedTimeZone

variable (z : FixedTimeZone) (seconds : ℚ)

/-- The local date of an instant. -/
def civilDate : CivilDate :=
  CivilDate.ofDay (z.dayNumber seconds + daysBefore1970)

/-- The instant at which the local hour of an instant begins. -/
def hourStart : ℚ :=
  86400 * z.dayNumber seconds - 60 * z.minutesFromGMT + 3600 * z.hourNumber seconds

theorem dayNumber_bounds : 86400 * z.dayNumber seconds ≤ z.localSeconds seconds ∧
    z.localSeconds seconds < 86400 * z.dayNumber seconds + 86400 := by
  have hle := Int.floor_le (z.localSeconds seconds / 86400)
  have hlt := Int.lt_floor_add_one (z.localSeconds seconds / 86400)
  rw [le_div_iff₀ (by norm_num)] at hle
  rw [div_lt_iff₀ (by norm_num)] at hlt
  unfold dayNumber
  constructor <;> linarith

theorem hourNumber_bounds : 0 ≤ z.hourNumber seconds ∧ z.hourNumber seconds < 24 := by
  obtain ⟨hle, hlt⟩ := z.dayNumber_bounds seconds
  unfold hourNumber
  refine ⟨Int.floor_nonneg.mpr (div_nonneg (by linarith) (by norm_num)), Int.floor_lt.mpr ?_⟩
  rw [div_lt_iff₀ (by norm_num)]
  push_cast
  linarith

theorem hourStart_le : z.hourStart seconds ≤ seconds := by
  have hle := Int.floor_le ((z.localSeconds seconds - 86400 * z.dayNumber seconds) / 3600)
  rw [le_div_iff₀ (by norm_num)] at hle
  unfold hourStart
  change (z.hourNumber seconds : ℚ) * 3600 ≤ _ at hle
  rw [localSeconds] at hle
  linarith

theorem dayStart_le_hourStart :
    86400 * z.dayNumber seconds - 60 * z.minutesFromGMT ≤ z.hourStart seconds := by
  have hnonneg : (0 : ℚ) ≤ z.hourNumber seconds := mod_cast (z.hourNumber_bounds seconds).1
  unfold hourStart
  linarith

/-- A local day has begun if and only if its first instant has passed. -/
theorem le_dayNumber_iff (day : ℤ) :
    day ≤ z.dayNumber seconds ↔ 86400 * (day : ℚ) - 60 * z.minutesFromGMT ≤ seconds := by
  rw [dayNumber, Int.le_floor, le_div_iff₀ (by norm_num), localSeconds]
  constructor <;> intro h <;> linarith

theorem dayNumber_dayStart (day : ℤ) :
    z.dayNumber (86400 * day - 60 * z.minutesFromGMT) = day := by
  rw [dayNumber, localSeconds, sub_add_cancel, mul_div_cancel_left₀ _ (by norm_num),
    Int.floor_intCast]

theorem dayNumber_hourStart : z.dayNumber (z.hourStart seconds) = z.dayNumber seconds := by
  have hle := z.dayStart_le_hourStart seconds
  rw [← le_dayNumber_iff] at hle
  refine le_antisymm ?_ hle
  rw [le_dayNumber_iff]
  exact ((z.le_dayNumber_iff (z.hourStart seconds) _).mp le_rfl).trans (z.hourStart_le seconds)

/-- The number of the local hour of an instant. -/
def hourIndex : ℤ :=
  ⌊z.localSeconds seconds / 3600⌋

theorem dayNumber_eq_hourIndex : z.dayNumber seconds = z.hourIndex seconds / 24 := by
  have hcancel := Int.mul_cast_floor_div_cancel_of_pos (n := 24) (by decide)
    (z.localSeconds seconds / 86400)
  have hhours : z.localSeconds seconds / 86400 * (24 : ℤ) = z.localSeconds seconds / 3600 := by
    push_cast
    ring
  rw [hhours] at hcancel
  exact hcancel.symm

theorem hourNumber_eq_hourIndex : z.hourNumber seconds = z.hourIndex seconds % 24 := by
  have hshift : (z.localSeconds seconds - 86400 * z.dayNumber seconds) / 3600 =
      z.localSeconds seconds / 3600 - (24 * z.dayNumber seconds : ℤ) := by
    push_cast
    ring
  rw [hourNumber, hshift, Int.floor_sub_intCast, dayNumber_eq_hourIndex]
  change z.hourIndex seconds - _ = _
  omega

/-- The sum of the instant and the offset, as doubles, falls in the local hour of the instant. -/
def KeepsHour : Prop :=
  ∃ shifted, Date.addingTimeInterval ⟨.finite seconds⟩ (z.minutesFromGMT * 60 : ℤ) =
    ⟨.finite shifted⟩ ∧ gmt.hourIndex shifted = z.hourIndex seconds

/-- The sum is exact at a whole second. -/
theorem keepsHour_intCast {n : ℤ} (hn : |n - 978307200 + z.minutesFromGMT * 60| < 2 ^ 53) :
    z.KeepsHour n := by
  have hsum : (n : ℚ) - Date.timeIntervalBetween1970AndReferenceDate +
      (z.minutesFromGMT * 60 : ℤ) = (n - 978307200 + z.minutesFromGMT * 60 : ℤ) := by
    rw [Date.timeIntervalBetween1970AndReferenceDate]
    push_cast
    rfl
  have hround := BinaryFormat.round_intCast (F := BinaryFormat.binary64) (by decide) hn
  have hdouble : |((n - 978307200 + z.minutesFromGMT * 60 : ℤ) : ℚ)| < 2 ^ 53 := by
    exact_mod_cast hn
  have hfinite := hdouble.trans (pow_lt_pow_right₀ one_lt_two (by decide : 53 < 1024))
  refine ⟨(n - 978307200 + z.minutesFromGMT * 60 : ℤ) +
    Date.timeIntervalBetween1970AndReferenceDate, ?_, ?_⟩
  · simp only [Date.addingTimeInterval, hsum, TimeInterval.rounded, hround, if_pos hfinite]
  · unfold hourIndex localSeconds gmt Date.timeIntervalBetween1970AndReferenceDate
    push_cast
    congr 2
    ring

end FixedTimeZone

theorem CivilDate.ofDay_bounds (n : ℤ) :
    1 ≤ (CivilDate.ofDay n).month ∧ (CivilDate.ofDay n).month ≤ 12 ∧
      1 ≤ (CivilDate.ofDay n).day ∧ (CivilDate.ofDay n).day ≤ 31 := by
  unfold CivilDate.ofDay
  split_ifs
  · exact CivilDate.gregorian.ofDay_bounds n
  · exact CivilDate.julian.ofDay_bounds (n + 2)

section LocalTime

variable (z : FixedTimeZone) (seconds : ℚ)

/-- The key of the local day. -/
def localDayKey : String :=
  dayKey (yearOfEra (z.civilDate seconds).year) (z.civilDate seconds).month
    (z.civilDate seconds).day

/-- An event with the offset of the time zone falls in its local day and hour. -/
theorem dayKeyAndHour_eq {z : FixedTimeZone} {seconds : ℚ} (h : z.KeepsHour seconds) :
    dayKeyAndHour ⟨.finite seconds⟩ z.minutesFromGMT =
      some (localDayKey z seconds, z.hourNumber seconds) := by
  obtain ⟨shifted, hshifted, hindex⟩ := h
  have hbound := z.bound
  have hchecked : checkedInt (z.minutesFromGMT * 60) = some (z.minutesFromGMT * 60) :=
    if_pos ⟨by omega, by omega⟩
  have hday : FixedTimeZone.gmt.dayNumber shifted = z.dayNumber seconds := by
    rw [FixedTimeZone.dayNumber_eq_hourIndex, FixedTimeZone.dayNumber_eq_hourIndex, hindex]
  have hhour : FixedTimeZone.gmt.hourNumber shifted = z.hourNumber seconds := by
    rw [FixedTimeZone.hourNumber_eq_hourIndex, FixedTimeZone.hourNumber_eq_hourIndex, hindex]
  simp only [dayKeyAndHour, hchecked, Option.map_some, hshifted, Calendar.gregorian,
    Option.getD_some, hday, hhour]
  rfl

/-- The key of a local day is parsed as the day. -/
theorem parseDayKey_localDayKey
    (hyear : 1 ≤ (z.civilDate seconds).year ∧ (z.civilDate seconds).year ≤ 9999) :
    parseDayKey (localDayKey z seconds) (Calendar.gregorian z) =
      some (z.dayStart (z.dayNumber seconds)) := by
  obtain ⟨hmonth, hmonth', hday, hday'⟩ :=
    CivilDate.ofDay_bounds (z.dayNumber seconds + daysBefore1970)
  have hcivil : z.civilDate seconds = CivilDate.ofDay (z.dayNumber seconds + daysBefore1970) := rfl
  rw [← hcivil] at hmonth hmonth' hday hday'
  have hera : yearOfEra (z.civilDate seconds).year = (z.civilDate seconds).year := if_pos hyear.1
  have hdate : (Calendar.gregorian z).date (z.civilDate seconds).year (z.civilDate seconds).month
      (z.civilDate seconds).day = some (z.dayStart (z.dayNumber seconds)) := by
    have hcarried : (⟨(z.civilDate seconds).year + ((z.civilDate seconds).month - 1) / 12,
        ((z.civilDate seconds).month - 1) % 12 + 1, (z.civilDate seconds).day⟩ : CivilDate) =
          z.civilDate seconds := by
      ext
      · dsimp only
        omega
      · dsimp only
        omega
      · rfl
    simp only [Calendar.gregorian]
    rw [hcarried, hcivil, CivilDate.toDay_ofDay, add_sub_cancel_right]
  rw [localDayKey, hera, parseDayKey_dayKey ⟨by omega, by omega⟩ ⟨by omega, by omega⟩
    ⟨by omega, by omega⟩, hdate]
  simp only [Option.map_some, Calendar.gregorian, FixedTimeZone.dayStart, z.dayNumber_dayStart]

theorem notMem_dayKey {year month day : ℤ} (hyear : 0 ≤ year) (hmonth : 0 ≤ month)
    (hday : 0 ≤ day) : '|' ∉ (dayKey year month day).toList := by
  have hpadded : ∀ {n : ℤ} {width : ℕ}, 0 ≤ n → '|' ∉ (padded width n).toList :=
    fun hn hmem => absurd (isDigit_of_mem_padded hn _ hmem) (by decide)
  rw [dayKey, String.intercalate_cons_cons, String.intercalate_cons_cons,
    String.intercalate_singleton]
  simp only [String.toList_append, List.mem_append, not_or]
  exact ⟨⟨hpadded hyear, by decide⟩, ⟨hpadded hmonth, by decide⟩, hpadded hday⟩

/-- The day of a date has no bar. -/
theorem notMem_localDayKey
    (hyear : 1 ≤ (z.civilDate seconds).year ∧ (z.civilDate seconds).year ≤ 9999) :
    '|' ∉ (localDayKey z seconds).toList := by
  obtain ⟨hmonth, -, hday, -⟩ := CivilDate.ofDay_bounds (z.dayNumber seconds + daysBefore1970)
  have hera : 0 ≤ yearOfEra (z.civilDate seconds).year := by
    rw [yearOfEra, if_pos hyear.1]
    omega
  refine notMem_dayKey hera ?_ ?_
  · unfold FixedTimeZone.civilDate
    omega
  · unfold FixedTimeZone.civilDate
    omega

end LocalTime

/-! ## Windows -/

section Windows

variable (z : FixedTimeZone)

/-- A window begins with a local day. -/
theorem windowStart_eq (selectedWindow : InsightsWindow) (now : ℚ) :
    windowStart selectedWindow ⟨.finite now⟩ (Calendar.gregorian z) =
      z.dayStart (z.dayNumber now - (selectedWindow.rawValue - 1)) := by
  simp only [windowStart, Calendar.gregorian, FixedTimeZone.dayStart, Option.getD_some]
  congr 2
  push_cast
  ring

/-- An event up to now is in the window if and only if the beginning of its hour is. -/
theorem isInWindow_hourStart (selectedWindow : InsightsWindow) {now : Date} {seconds : ℚ}
    (hnow : Date.atMost ⟨.finite seconds⟩ now = true) :
    let start := windowStart selectedWindow now (Calendar.gregorian z)
    (start.atMost ⟨.finite (z.hourStart seconds)⟩ &&
        Date.atMost ⟨.finite (z.hourStart seconds)⟩ now) =
      (start.atMost ⟨.finite seconds⟩ && Date.atMost ⟨.finite seconds⟩ now) := by
  intro start
  obtain ⟨now⟩ := now
  cases now with
  | finite now =>
    have hhour : Date.atMost ⟨.finite (z.hourStart seconds)⟩ ⟨.finite now⟩ = true :=
      (Date.atMost_finite _ _).mpr
        ((z.hourStart_le seconds).trans ((Date.atMost_finite _ _).mp hnow))
    rw [hnow, hhour, Bool.and_true, Bool.and_true, Bool.eq_iff_iff]
    simp only [start, windowStart_eq, FixedTimeZone.dayStart, Date.atMost_finite]
    rw [← z.le_dayNumber_iff, ← z.le_dayNumber_iff, z.dayNumber_hourStart]
  | infinity => rfl
  | negInfinity => exact absurd hnow Bool.false_ne_true
  | nan => exact absurd hnow Bool.false_ne_true

end Windows

/-! ## Records -/

/-- What a record counts for in a statistic that goes by the feature, the hour, the categories
and the window. -/
def InsightsTelemetryRecord.weight (g : String → ℤ → List String → Bool → ℤ)
    (windowStart now : Date) (record : InsightsTelemetryRecord) : ℤ :=
  record.count *
    g record.featureKey record.hour record.categoryIds (isInWindow windowStart now record)

namespace InsightsTelemetryEvent

/-- No name of the event has a character that separates the names in a bucket key. -/
structure HasPlainNames (e : InsightsTelemetryEvent) : Prop where
  eventName : IsPlain e.eventName
  featureKey : IsPlain e.featureKey
  tabName : ∀ name ∈ e.tabName, IsPlain name
  viewName : ∀ name ∈ e.viewName, IsPlain name
  categoryIds : ∀ id ∈ e.categoryIds, IsPlain id

/-- The event has the offset of the time zone and was recorded up to now, in one of the years
1 to 9999. -/
structure IsLocal (z : FixedTimeZone) (now : Date) (e : InsightsTelemetryEvent) : Prop where
  offset : e.timezoneOffsetMinutesAtEvent = z.minutesFromGMT
  timestamp : ∃ seconds, e.timestampUTC = ⟨.finite seconds⟩ ∧
    1 ≤ (z.civilDate seconds).year ∧ (z.civilDate seconds).year ≤ 9999
  atMost : e.timestampUTC.atMost now = true

/-- The offset is added to the timestamp as to a `Double`, and leaves the event in its hour. -/
def KeepsHour (z : FixedTimeZone) (e : InsightsTelemetryEvent) : Prop :=
  ∀ seconds, e.timestampUTC = ⟨.finite seconds⟩ → z.KeepsHour seconds

end InsightsTelemetryEvent

section Records

variable {z : FixedTimeZone} {now : Date} {scope : String} {e : InsightsTelemetryEvent}

/-- The local day and hour of a local event. -/
theorem InsightsTelemetryEvent.IsLocal.dayKeyAndHour_eq (h : e.IsLocal z now)
    (hhour : e.KeepsHour z) {seconds : ℚ} (hseconds : e.timestampUTC = ⟨.finite seconds⟩) :
    dayKeyAndHour e.timestampUTC e.timezoneOffsetMinutesAtEvent =
      some (localDayKey z seconds, z.hourNumber seconds) := by
  rw [hseconds, h.offset, Notelayer.dayKeyAndHour_eq (hhour seconds hseconds)]

/-- The record of the bucket that an event starts counts for as much as the record of the
event. -/
theorem recordOfEvent_spec (h : e.IsLocal z now) (hkeeps : e.KeepsHour z)
    (g : String → ℤ → List String → Bool → ℤ) (selectedWindow : InsightsWindow) : ∃ r b,
      recordOfEvent (Calendar.gregorian z) e = some r ∧ e.bucket scope = some b ∧
      r.weight g (windowStart selectedWindow now (Calendar.gregorian z)) now =
        (recordOfBucket (Calendar.gregorian z) b).weight g
          (windowStart selectedWindow now (Calendar.gregorian z)) now := by
  obtain ⟨seconds, hseconds, hyear⟩ := h.timestamp
  have hkey := h.dayKeyAndHour_eq hkeeps hseconds
  have hnow := h.atMost
  rw [hseconds] at hnow
  have hhour : (Calendar.gregorian z).dateBySettingHour (z.hourNumber seconds)
      (z.dayStart (z.dayNumber seconds)) = some ⟨.finite (z.hourStart seconds)⟩ := by
    simp only [Calendar.gregorian, FixedTimeZone.dayStart, z.dayNumber_dayStart]
    rw [if_pos (z.hourNumber_bounds seconds)]
    rfl
  refine ⟨_, _, congrArg _ hkey, congrArg _ hkey, ?_⟩
  simp only [InsightsTelemetryRecord.weight, recordOfBucket, isInWindow,
    parseDayKey_localDayKey z seconds hyear, Option.getD_some, hhour, hseconds,
    isInWindow_hourStart z selectedWindow hnow]

/-- A bucket with a count weighs as much as that many buckets of one event. -/
theorem weight_recordOfBucket (calendar : Calendar) (g : String → ℤ → List String → Bool → ℤ)
    (start now : Date) (b : InsightsTelemetryAggregateBucket) :
    (recordOfBucket calendar b).weight g start now =
      b.count * (recordOfBucket calendar { b with count := 1 }).weight g start now := by
  rw [InsightsTelemetryRecord.weight, InsightsTelemetryRecord.weight]
  exact congrArg _ (one_mul _).symm

/-- The record of a bucket of one event is that of its key. -/
theorem weight_recordOfBucket_congr {b b' : InsightsTelemetryAggregateBucket} (calendar : Calendar)
    (g : String → ℤ → List String → Bool → ℤ) (start now : Date)
    (h : b.dayKey = b'.dayKey ∧ b.hour = b'.hour ∧ b.featureKey = b'.featureKey ∧
      b.categoryIds = b'.categoryIds) :
    (recordOfBucket calendar { b with count := 1 }).weight g start now =
      (recordOfBucket calendar { b' with count := 1 }).weight g start now := by
  obtain ⟨hday, hhour, hfeature, hids⟩ := h
  simp only [InsightsTelemetryRecord.weight, recordOfBucket, isInWindow, hday, hhour, hfeature,
    hids]

/-- The bucket of a local event without separators has a key that can be told apart. -/
theorem separable_of_bucket (h : e.IsLocal z now) (hkeeps : e.KeepsHour z)
    (hplain : e.HasPlainNames) (hids : ∀ id ∈ e.categoryIds, id ≠ "")
    {b : InsightsTelemetryAggregateBucket} (hb : e.bucket scope = some b) : b.Separable := by
  obtain ⟨seconds, hseconds, hyear⟩ := h.timestamp
  have hkey := h.dayKeyAndHour_eq hkeeps hseconds
  obtain rfl : _ = b := Option.some_inj.mp ((congrArg _ hkey).symm.trans hb)
  refine ⟨notMem_localDayKey z seconds hyear, (z.hourNumber_bounds seconds).1, hplain.eventName,
    hplain.featureKey, hplain.tabName, hplain.viewName,
    fun id hid => ⟨hids id hid, hplain.categoryIds id hid⟩⟩

end Records

/-! ## Statistics as sums -/

section Statistics

variable (records : List InsightsTelemetryRecord) (start now : Date)

theorem allTimeCounts_eq (feature : String) :
    records.foldl (fun counts record => addCount counts record.featureKey record.count)
      (fun _ => 0) feature =
        (records.map (InsightsTelemetryRecord.weight
          (fun featureKey _ _ _ => if feature = featureKey then 1 else 0) start now)).sum := by
  rw [Tally.foldl_apply fun d record k => addCount_apply d record.featureKey record.count k,
    zero_add]
  refine congrArg _ (List.map_congr_left fun record _ => ?_)
  simp only [InsightsTelemetryRecord.weight, mul_ite, mul_one, mul_zero]

/-- A count within the window is a sum of weights. -/
theorem windowCounts_eq (feature : String) :
    records.foldl (fun counts record =>
      if isInWindow start now record then addCount counts record.featureKey record.count
      else counts) (fun _ => 0) feature =
        (records.map (InsightsTelemetryRecord.weight (fun featureKey _ _ isInWindow =>
          if isInWindow then if feature = featureKey then 1 else 0 else 0) start now)).sum := by
  have hstep : ∀ (d : String → ℤ) (record : InsightsTelemetryRecord) (k : String),
      (if isInWindow start now record then addCount d record.featureKey record.count else d) k =
        d k + if isInWindow start now record then if k = record.featureKey then record.count
          else 0 else 0 := by
    intro d record k
    split_ifs with hwindow hk
    · rw [addCount_apply, if_pos hk]
    · rw [addCount_apply, if_neg hk]
    · rw [add_zero]
  rw [Tally.foldl_apply hstep, zero_add]
  refine congrArg _ (List.map_congr_left fun record _ => ?_)
  simp only [InsightsTelemetryRecord.weight, mul_ite, mul_one, mul_zero]

theorem appUsageCounts_eq (hour : ℤ) :
    records.foldl (fun counts record => addCount counts record.hour record.count)
      (fun _ => 0) hour =
        (records.map (InsightsTelemetryRecord.weight
          (fun _ recordHour _ _ => if hour = recordHour then 1 else 0) start now)).sum := by
  rw [Tally.foldl_apply fun d record k => addCount_apply d record.hour record.count k, zero_add]
  refine congrArg _ (List.map_congr_left fun record _ => ?_)
  simp only [InsightsTelemetryRecord.weight, mul_ite, mul_one, mul_zero]

/-- A count of exports is a sum of weights. -/
theorem calendarExportCounts_eq (categoryId : String) :
    records.foldl (fun counts record =>
      if record.featureKey = InsightsFeatureKey.calendarExportInitiated then
        countCategories record.categoryIds record.count counts
      else counts) (fun _ => 0) categoryId =
        (records.map (InsightsTelemetryRecord.weight (fun featureKey _ categoryIds _ =>
          if featureKey = InsightsFeatureKey.calendarExportInitiated then
            categoryCount categoryIds categoryId else 0) start now)).sum := by
  have hstep : ∀ (d : String → ℤ) (record : InsightsTelemetryRecord) (k : String),
      (if record.featureKey = InsightsFeatureKey.calendarExportInitiated then
        countCategories record.categoryIds record.count d else d) k =
          d k + if record.featureKey = InsightsFeatureKey.calendarExportInitiated then
            record.count * categoryCount record.categoryIds k else 0 := by
    intro d record k
    split_ifs
    · rw [countCategories_apply]
    · rw [add_zero]
  rw [Tally.foldl_apply hstep, zero_add]
  refine congrArg _ (List.map_congr_left fun record _ => ?_)
  simp only [InsightsTelemetryRecord.weight, mul_ite, mul_zero]

end Statistics

/-- What the view shows of a feature beside its title and its last use. -/
def InsightsFeatureUsageStat.counts (stat : InsightsFeatureUsageStat) :
    String × ℤ × ℤ × InsightsGapStatus :=
  (stat.featureKey, stat.allTimeCount, stat.windowCount, stat.gapStatus)

section SameCounts

variable {records records' : List InsightsTelemetryRecord} {start now : Date}

/-- Records with the same sums have the same statistics. -/
theorem featureStats_congr (h : ∀ g : String → ℤ → List String → Bool → ℤ,
      (records.map (InsightsTelemetryRecord.weight g start now)).sum =
        (records'.map (InsightsTelemetryRecord.weight g start now)).sum) :
    (buildFeatureStats records start now).map InsightsFeatureUsageStat.counts =
      (buildFeatureStats records' start now).map InsightsFeatureUsageStat.counts := by
  simp only [buildFeatureStats, List.map_map]
  simp only [Function.comp_def, InsightsFeatureUsageStat.counts, allTimeCounts_eq _ start now,
    windowCounts_eq, h]

theorem hourBuckets_congr (h : ∀ g : String → ℤ → List String → Bool → ℤ,
      (records.map (InsightsTelemetryRecord.weight g start now)).sum =
        (records'.map (InsightsTelemetryRecord.weight g start now)).sum)
    (tasks : List Task) (calendar : Calendar) :
    buildHourBuckets tasks records calendar = buildHourBuckets tasks records' calendar := by
  simp only [buildHourBuckets, appUsageCounts_eq _ start now, h]

theorem categoryStats_congr (h : ∀ g : String → ℤ → List String → Bool → ℤ,
      (records.map (InsightsTelemetryRecord.weight g start now)).sum =
        (records'.map (InsightsTelemetryRecord.weight g start now)).sum)
    (tasks : List Task) (categories : List Category) :
    buildCategoryStats tasks categories records start now =
      buildCategoryStats tasks categories records' start now := by
  refine List.map_congr_left fun categoryId _ => ?_
  simp only [categoryUsageStat, calendarExportCounts_eq _ start now, h]

end SameCounts

/-! ## Compacted logs -/

/-- The data of a scope after a log of recorded events and any number of compactions. -/
inductive Compacted (scope : String) :
    List InsightsTelemetryEvent → InsightsTelemetryScopeState → Prop where
  | empty : Compacted scope [] {}
  | record {log : List InsightsTelemetryEvent} {state : InsightsTelemetryScopeState}
      (s : InsightsTelemetryStore) (call : RecordCall) (context : RecordContext)
      (hscope : s.storage.currentScopeKey = scope) (h : Compacted scope log state) :
      Compacted scope (log ++ [s.event call context])
        { state with rawEvents := state.rawEvents ++ [s.event call context] }
  | compact {log : List InsightsTelemetryEvent} {state state' : InsightsTelemetryScopeState}
      (boundedChunkSize : ℕ) (order : IterationOrder InsightsTelemetryAggregateBucket)
      (h : Compacted scope log state)
      (hstate : state.compact scope boundedChunkSize order = some state') :
      Compacted scope log state'

/-- What the bucket that an event starts weighs. -/
def eventWeight (scope : String) (f : InsightsTelemetryAggregateBucket → ℤ)
    (e : InsightsTelemetryEvent) : ℤ :=
  ((e.bucket scope).map f).getD 0

theorem sum_eventWeight {scope : String} (f : InsightsTelemetryAggregateBucket → ℤ)
    {events : List InsightsTelemetryEvent} {buckets : List InsightsTelemetryAggregateBucket}
    (h : List.Forall₂ (fun e b => e.bucket scope = some b) events buckets) :
    (events.map (eventWeight scope f)).sum = (buckets.map f).sum := by
  induction h with
  | nil => rfl
  | cons hab _ ih =>
    rw [List.map_cons, List.map_cons, List.sum_cons, List.sum_cons, ih, eventWeight, hab]
    rfl

namespace Compacted

variable {z : FixedTimeZone} {now : Date} {scope : String} {log : List InsightsTelemetryEvent}
  {state : InsightsTelemetryScopeState}

/-- `record` leaves empty ids out. -/
theorem categoryIds_ne (h : Compacted scope log state) :
    ∀ e ∈ log, ∀ id ∈ e.categoryIds, id ≠ "" := by
  induction h with
  | empty => exact fun e he => absurd he List.not_mem_nil
  | record s call context _ _ ih =>
    intro e he id hid
    rcases List.mem_append.mp he with he | he
    · exact ih e he id hid
    · obtain rfl := List.mem_singleton.mp he
      have hfilter := (List.mem_filter.mp ((List.mem_insertionSort _).mp hid)).2
      rintro rfl
      exact absurd hfilter (by decide)
  | compact _ _ _ _ ih => exact ih

/-- The events that are left and the buckets weigh as much as the log. -/
theorem weight_eq (h : Compacted scope log state)
    (hlog : ∀ e ∈ log, (e.IsLocal z now ∧ e.KeepsHour z) ∧ e.HasPlainNames)
    (g : String → ℤ → List String → Bool → ℤ) (start : Date) :
    let f b := (recordOfBucket (Calendar.gregorian z) b).weight g start now
    (∀ e ∈ state.rawEvents, e ∈ log) ∧
      DistinctKeys (InsightsTelemetryAggregateBucket.key scope) state.aggregateBuckets ∧
      (∀ b ∈ state.aggregateBuckets, ∃ e ∈ log, e.bucket scope = some { b with count := 1 }) ∧
      (state.rawEvents.map (eventWeight scope f)).sum + (state.aggregateBuckets.map f).sum =
        (log.map (eventWeight scope f)).sum := by
  intro f
  induction h with
  | empty => exact ⟨fun e he => he, List.nodup_nil, fun b hb => absurd hb List.not_mem_nil, rfl⟩
  | record s call context _ _ ih =>
    obtain ⟨hraw, hdistinct, hbuckets, hsum⟩ :=
      ih fun e he => hlog e (List.mem_append_left _ he)
    refine ⟨fun e he => ?_, hdistinct, fun b hb => ?_, ?_⟩
    · exact List.mem_append.mpr ((List.mem_append.mp he).imp_left (hraw e))
    · obtain ⟨e, he, hb⟩ := hbuckets b hb
      exact ⟨e, List.mem_append_left _ he, hb⟩
    · rw [List.map_append, List.map_append, List.sum_append, List.sum_append, ← hsum]
      exact add_right_comm _ _ _
  | @compact log state state' n order hcompacted hstate ih =>
    obtain ⟨hraw, hdistinct, hbuckets, hsum⟩ := ih hlog
    have hseparable : ∀ b : InsightsTelemetryAggregateBucket,
        (∃ e ∈ log, e.bucket scope = some { b with count := 1 }) → b.Separable := by
      rintro b ⟨e, he, hb⟩
      have hone := separable_of_bucket (hlog e he).1.1 (hlog e he).1.2 (hlog e he).2
        (hcompacted.categoryIds_ne e he) hb
      exact ⟨hone.dayKey, hone.hour, hone.eventName, hone.featureKey, hone.tabName, hone.viewName,
        hone.categoryIds⟩
    have hnew : ∀ e ∈ state.rawEvents.take n, ∀ b, e.bucket scope = some b →
        e ∈ log ∧ b.count = 1 ∧ e.bucket scope = some { b with count := 1 } := by
      intro e he b hb
      obtain ⟨entry, -, hentry⟩ := Option.map_eq_some_iff.mp hb
      subst hentry
      exact ⟨hraw e (List.mem_of_mem_take he), rfl, hb⟩
    obtain ⟨hdrop, hdistinct', hbuckets', newBuckets, horigin, htotal⟩ :=
      InsightsTelemetryScopeState.compact_spec
        (P := fun b : InsightsTelemetryAggregateBucket =>
          ∃ e ∈ log, e.bucket scope = some { b with count := 1 }) (f := f) hstate
        (fun b hb => hb) hbuckets
        (fun e he b hb => ⟨e, (hnew e he b hb).1, (hnew e he b hb).2.2⟩)
        (fun e he new hb b hP hkey => by
          obtain ⟨hmem, hone, hbucket⟩ := hnew e he new hb
          have hparts := (hseparable b hP).key_inj (hseparable new ⟨e, hmem, hbucket⟩) hkey
          have hunit := weight_recordOfBucket_congr (Calendar.gregorian z) g start now hparts
          have hbump : f b.bumped = (b.count + 1) *
              (recordOfBucket (Calendar.gregorian z) { b with count := 1 }).weight g start now :=
            weight_recordOfBucket _ g start now b.bumped
          have hold : f b = _ := weight_recordOfBucket _ g start now b
          have hstart : f new = _ := weight_recordOfBucket _ g start now new
          rw [hbump, hold, hstart, hone, ← hunit, add_mul]) hdistinct
    refine ⟨fun e he => hraw e (List.mem_of_mem_drop (hdrop ▸ he)), hdistinct', hbuckets', ?_⟩
    rw [htotal, hdrop, ← hsum, ← sum_eventWeight f horigin]
    conv_rhs => rw [← List.take_append_drop n state.rawEvents, List.map_append, List.sum_append]
    ring

/-- The records of the data of a scope are found, and they weigh as much as its events and its
buckets. -/
theorem normalizeTelemetry_weight
    (hlocal : ∀ e ∈ state.rawEvents, e.IsLocal z now ∧ e.KeepsHour z)
    (selectedWindow : InsightsWindow) (scope : String) :
    let start := windowStart selectedWindow now (Calendar.gregorian z)
    ∃ records, normalizeTelemetry state (Calendar.gregorian z) = some records ∧
      ∀ g : String → ℤ → List String → Bool → ℤ,
        let f b := (recordOfBucket (Calendar.gregorian z) b).weight g start now
        (records.map (InsightsTelemetryRecord.weight g start now)).sum =
          (state.rawEvents.map (eventWeight scope f)).sum +
            (state.aggregateBuckets.map f).sum := by
  intro start
  have hevents : ∀ events : List InsightsTelemetryEvent,
      (∀ e ∈ events, e.IsLocal z now ∧ e.KeepsHour z) →
      ∃ records, events.mapM (recordOfEvent (Calendar.gregorian z)) = some records ∧
        ∀ g : String → ℤ → List String → Bool → ℤ,
          (records.map (InsightsTelemetryRecord.weight g start now)).sum =
            (events.map (eventWeight scope fun b =>
              (recordOfBucket (Calendar.gregorian z) b).weight g start now)).sum := by
    intro events hevents
    induction events with
    | nil => exact ⟨[], rfl, fun g => rfl⟩
    | cons e events ih =>
      obtain ⟨records, hrecords, hsum⟩ := ih fun e' he' => hevents e' (List.mem_cons_of_mem e he')
      obtain ⟨hlocal, hkeeps⟩ := hevents e List.mem_cons_self
      obtain ⟨r, -, hr, -⟩ := @recordOfEvent_spec z now scope e hlocal hkeeps (fun _ _ _ _ => 0)
        selectedWindow
      refine ⟨r :: records, ?_, fun g => ?_⟩
      · rw [List.mapM_cons, hr, hrecords]
        rfl
      · obtain ⟨r', b, hr', hb, hweight⟩ := @recordOfEvent_spec z now scope e hlocal hkeeps g
          selectedWindow
        obtain rfl : r = r' := Option.some_inj.mp (hr.symm.trans hr')
        rw [List.map_cons, List.map_cons, List.sum_cons, List.sum_cons, hsum g, eventWeight, hb,
          hweight]
        rfl
  obtain ⟨records, hrecords, hsum⟩ := hevents state.rawEvents hlocal
  refine ⟨_, congrArg _ hrecords, fun g => ?_⟩
  rw [List.map_append, List.sum_append, hsum g, List.map_map]
  rfl

/-- The counts of the snapshot over the compacted data are those over the whole log. -/
theorem buildSnapshot_counts (h : Compacted scope log state)
    (hlog : ∀ e ∈ log, e.IsLocal z now ∧ e.HasPlainNames) (hkeeps : ∀ e ∈ log, e.KeepsHour z)
    (tasks : List Task) (categories : List Category) (selectedWindow : InsightsWindow) :
    ∃ compacted whole,
      buildSnapshot tasks categories state selectedWindow now (Calendar.gregorian z) =
        some compacted ∧
      buildSnapshot tasks categories { rawEvents := log } selectedWindow now
        (Calendar.gregorian z) = some whole ∧
      compacted.featureStats.map InsightsFeatureUsageStat.counts =
        whole.featureStats.map InsightsFeatureUsageStat.counts ∧
      compacted.hourBuckets = whole.hourBuckets ∧
      compacted.categoryStats = whole.categoryStats := by
  have hplaced : ∀ e ∈ log, (e.IsLocal z now ∧ e.KeepsHour z) ∧ e.HasPlainNames :=
    fun e he => ⟨⟨(hlog e he).1, hkeeps e he⟩, (hlog e he).2⟩
  have hraw := (h.weight_eq hplaced (fun _ _ _ _ => 0)
    (windowStart selectedWindow now (Calendar.gregorian z))).1
  obtain ⟨records, hrecords, hsum⟩ :=
    normalizeTelemetry_weight (fun e he => (hplaced e (hraw e he)).1) selectedWindow scope
  obtain ⟨records', hrecords', hsum'⟩ := @normalizeTelemetry_weight z now { rawEvents := log }
    (fun e he => (hplaced e he).1) selectedWindow scope
  have hweight : ∀ g, (records.map (InsightsTelemetryRecord.weight g
      (windowStart selectedWindow now (Calendar.gregorian z)) now)).sum =
        (records'.map (InsightsTelemetryRecord.weight g
          (windowStart selectedWindow now (Calendar.gregorian z)) now)).sum := by
    intro g
    have hkept := (h.weight_eq hplaced g
      (windowStart selectedWindow now (Calendar.gregorian z))).2.2.2
    rw [hsum g, hsum' g, hkept]
    exact (add_zero _).symm
  unfold buildSnapshot
  rw [hrecords, hrecords']
  refine ⟨_, _, rfl, rfl, ?_, ?_, ?_⟩
  · exact featureStats_congr hweight
  · exact hourBuckets_congr hweight _ _
  · exact categoryStats_congr hweight _ _

/-- A calendar export at an hour. -/
def sampleCall (hour : ℤ) : RecordCall where
  eventName := "calendar_export"
  featureKey := InsightsFeatureKey.calendarExportInitiated
  categoryIds := ["work"]
  timestampUTC := .seconds (3600 * hour)
  timezoneOffsetMinutesAtEvent := some 0

/-- A context for the samples below. -/
def sampleContext : RecordContext :=
  ⟨"id", 0, ⟨id, fun l => List.Perm.refl l⟩⟩

/-- A store in which nothing was recorded. -/
def sampleStore : InsightsTelemetryStore :=
  .launch none true 2 2

/-- Two events of one hour and one of the next. -/
def sampleLog : List InsightsTelemetryEvent :=
  [sampleStore.event (sampleCall 1) sampleContext, sampleStore.event (sampleCall 1) sampleContext,
    sampleStore.event (sampleCall 2) sampleContext]

theorem buildSnapshot_counts_sample : ∃ state,
    InsightsTelemetryScopeState.compact "anonymous" 2 sampleContext.order
      { rawEvents := sampleLog } = some state ∧ state.rawEvents.length = 1 ∧
    ∃ compacted whole,
      buildSnapshot [] [] state .days7 (.seconds 10000) (Calendar.gregorian .gmt) = some compacted ∧
      buildSnapshot [] [] { rawEvents := sampleLog } .days7 (.seconds 10000)
        (Calendar.gregorian .gmt) = some whole ∧
      compacted.featureStats.map InsightsFeatureUsageStat.counts =
        whole.featureStats.map InsightsFeatureUsageStat.counts ∧
      compacted.hourBuckets = whole.hourBuckets ∧
      compacted.categoryStats = whole.categoryStats := by
  have hlog : ∀ e ∈ sampleLog, e.IsLocal .gmt (.seconds 10000) ∧ e.HasPlainNames := by
    have hevent : ∀ hour : ℤ, hour = 1 ∨ hour = 2 →
        (sampleStore.event (sampleCall hour) sampleContext).IsLocal .gmt (.seconds 10000) ∧
          (sampleStore.event (sampleCall hour) sampleContext).HasPlainNames := by
      rintro hour (rfl | rfl)
      · exact ⟨⟨rfl, ⟨3600, by decide +kernel⟩, by decide +kernel⟩,
          ⟨by decide, by decide, nofun, nofun, by decide⟩⟩
      · exact ⟨⟨rfl, ⟨7200, by decide +kernel⟩, by decide +kernel⟩,
          ⟨by decide, by decide, nofun, nofun, by decide⟩⟩
    simp only [sampleLog, List.forall_mem_cons]
    exact ⟨hevent 1 (Or.inl rfl), hevent 1 (Or.inl rfl), hevent 2 (Or.inr rfl),
      fun _ hnil => absurd hnil List.not_mem_nil⟩
  have hkeeps : ∀ e ∈ sampleLog, e.KeepsHour .gmt := by
    have hevent : ∀ hour : ℤ, hour = 1 ∨ hour = 2 →
        (sampleStore.event (sampleCall hour) sampleContext).KeepsHour .gmt := by
      rintro hour hhour seconds hseconds
      obtain rfl : ((3600 * hour : ℤ) : ℚ) = seconds :=
        TimeInterval.finite.inj (Date.mk.inj hseconds)
      refine FixedTimeZone.gmt.keepsHour_intCast ?_
      rcases hhour with rfl | rfl <;> decide
    simp only [sampleLog, List.forall_mem_cons]
    exact ⟨hevent 1 (Or.inl rfl), hevent 1 (Or.inl rfl), hevent 2 (Or.inr rfl),
      fun _ hnil => absurd hnil List.not_mem_nil⟩
  have hwhole : Compacted "anonymous" sampleLog { rawEvents := sampleLog } :=
    .record sampleStore (sampleCall 2) sampleContext rfl
      (.record sampleStore (sampleCall 1) sampleContext rfl
        (.record sampleStore (sampleCall 1) sampleContext rfl .empty))
  exact ⟨_, rfl, rfl, buildSnapshot_counts (.compact 2 sampleContext.order hwhole rfl) hlog hkeeps
    _ _ _⟩

/-- An event a moment before the midnight of a zone 330 minutes ahead. The sum with the offset is
midnight as a `Double`. -/
def sampleMidnightCall : RecordCall :=
  { sampleCall 0 with
    timestampUTC := ⟨.finite (1515177000 - 1 / 2 ^ 24)⟩
    timezoneOffsetMinutesAtEvent := some 330 }

/-- The bucket of the event begins at midnight, and is in the window that begins there. -/
theorem not_buildSnapshot_counts : ¬∀ (z : FixedTimeZone) (now : Date) (scope : String)
    (log : List InsightsTelemetryEvent) (state : InsightsTelemetryScopeState)
    (selectedWindow : InsightsWindow), Compacted scope log state →
    (∀ e ∈ log, e.IsLocal z now ∧ e.HasPlainNames) →
    (∀ e ∈ log, e.timestampUTC.addingTimeInterval 0 = e.timestampUTC) →
    ∃ compacted whole,
      buildSnapshot [] [] state selectedWindow now (Calendar.gregorian z) = some compacted ∧
      buildSnapshot [] [] { rawEvents := log } selectedWindow now (Calendar.gregorian z) =
        some whole ∧
      compacted.featureStats.map InsightsFeatureUsageStat.counts =
        whole.featureStats.map InsightsFeatureUsageStat.counts ∧
      compacted.hourBuckets = whole.hourBuckets ∧
      compacted.categoryStats = whole.categoryStats := by
  intro h
  let log := [sampleStore.event sampleMidnightCall sampleContext]
  have hlog : Compacted "anonymous" log { rawEvents := log } :=
    .record sampleStore sampleMidnightCall sampleContext rfl .empty
  have hlocal : ∀ e ∈ log, e.IsLocal ⟨330, by decide⟩ (.seconds 1515695400) ∧
      e.HasPlainNames := by
    refine List.forall_mem_singleton.mpr ⟨⟨rfl, ⟨1515177000 - 1 / 2 ^ 24, ?_⟩, ?_⟩,
      ⟨by decide, by decide, nofun, nofun, by decide⟩⟩ <;> decide +kernel
  have hdouble : ∀ e ∈ log, e.timestampUTC.addingTimeInterval 0 = e.timestampUTC :=
    List.forall_mem_singleton.mpr (by decide +kernel)
  have hcounts : (InsightsTelemetryScopeState.compact "anonymous" 1 sampleContext.order
      { rawEvents := log }).bind (fun state => (buildSnapshot [] [] state .days7
        (.seconds 1515695400) (Calendar.gregorian ⟨330, by decide⟩)).map fun compacted =>
          compacted.featureStats.map InsightsFeatureUsageStat.counts) ≠
      (buildSnapshot [] [] { rawEvents := log } .days7 (.seconds 1515695400)
        (Calendar.gregorian ⟨330, by decide⟩)).map fun whole =>
          whole.featureStats.map InsightsFeatureUsageStat.counts := by
    decide +kernel
  obtain ⟨state, hstate⟩ : ∃ state, InsightsTelemetryScopeState.compact "anonymous" 1
      sampleContext.order { rawEvents := log } = some state := ⟨_, rfl⟩
  obtain ⟨compacted, whole, hcompacted, hwhole, hstats, -⟩ :=
    h _ _ _ _ _ .days7 (.compact 1 sampleContext.order hlog hstate) hlocal hdouble
  rw [hstate, Option.bind_some, hcompacted, hwhole] at hcounts
  exact hcounts (congrArg some hstats)

end Compacted

/-! ## The store -/

namespace TelemetryRun

variable {x x' : TelemetryRun} {rawEventCap : ℤ}

/-- Every scope has the data of what was recorded in it. -/
def IsCompacted (x : TelemetryRun) : Prop :=
  ∀ scope, Compacted scope (x.recorded scope) (x.store.data scope)

/-- A block that sets the data of one scope. -/
theorem IsCompacted.setState (h : x.IsCompacted) {scope : String}
    {state : InsightsTelemetryScopeState} {recorded : List InsightsTelemetryEvent}
    (hstate : Compacted scope recorded state) :
    IsCompacted {
      store := (x.store.setState scope state).persistLocked
      recorded := Function.update x.recorded scope recorded } := by
  intro other
  dsimp only
  rw [InsightsTelemetryStore.data_persistLocked, InsightsTelemetryStore.data_setState]
  by_cases heq : other = scope
  · rwa [if_pos heq, heq, Function.update_self]
  · rw [if_neg heq, Function.update_of_ne heq]
    exact h other

/-- A recorded event is compacted like the others. -/
theorem IsCompacted.record (h : x.IsCompacted) (hv : x.Valid rawEventCap) (call : RecordCall)
    (context : RecordContext) : (x.record call context).IsCompacted := by
  unfold TelemetryRun.record
  cases hrecord : x.store.record call context with
  | none =>
    dsimp only
    rwa [hv.persisted.relaunch_eq]
  | some s =>
    dsimp only
    rcases InsightsTelemetryStore.record_cases hrecord with
      ⟨hdisabled, rfl⟩ | ⟨henabled, state, hstate, rfl⟩
    · rwa [hdisabled]
    rw [henabled, if_pos rfl]
    have happended := Compacted.record x.store call context rfl (h x.store.storage.currentScopeKey)
    obtain ⟨n, -, -, ⟨-, rfl⟩ | hcompact⟩ :=
      InsightsTelemetryStore.compactIfNeeded_cases hv.persisted.cap hstate
    · exact h.setState happended
    · exact h.setState (Compacted.compact n context.order happended hcompact)

/-- Every step leaves the telemetry compacted. -/
theorem IsCompacted.step (h : x.IsCompacted) (hv : x.Valid rawEventCap) {l : TelemetryStep}
    (hx : TelemetryRun.step l x = some x') : x'.IsCompacted := by
  cases l with
  | record call context =>
    obtain rfl := Option.some_inj.mp hx
    exact h.record hv call context
  | setUserScope userId =>
    obtain rfl := Option.some_inj.mp hx
    intro scope
    dsimp only
    rw [InsightsTelemetryStore.data_setUserScope]
    exact h scope
  | clearScopeData scopeKey =>
    obtain rfl := Option.some_inj.mp hx
    exact h.setState Compacted.empty
  | relaunch =>
    obtain rfl := Option.some_inj.mp hx
    intro scope
    dsimp only
    rw [hv.persisted.relaunch_eq]
    exact h scope

/-- In every run the data of a scope is that of the events recorded in it, compacted. -/
theorem compacted_run {isEnabled : Bool} {rawEventCap compactionBatchSize : ℤ}
    {ls : List TelemetryStep} (hl : Runs.Guarded TelemetryRun.step TelemetryStep.FiniteTimestamp ls
      (start isEnabled rawEventCap compactionBatchSize))
    (hx : Runs.run TelemetryRun.step ls (start isEnabled rawEventCap compactionBatchSize) = some x)
    (scope : String) : Compacted scope (x.recorded scope) (x.store.data scope) := by
  have hstart : (start isEnabled rawEventCap compactionBatchSize).IsCompacted := by
    intro scope
    rw [start, InsightsTelemetryStore.data_launch_none]
    exact Compacted.empty
  have hinv : x.Valid (max 1 rawEventCap) ∧ x.IsCompacted :=
    Runs.invariant_of_guarded (I := fun y => y.Valid (max 1 rawEventCap) ∧ y.IsCompacted)
      (fun l y y' hy hg hs => ⟨hy.1.step hg hs, hy.2.step hy.1 hs⟩)
      ⟨valid_start _ _ _, hstart⟩ hl hx
  exact hinv.2 scope

end TelemetryRun

end Notelayer
