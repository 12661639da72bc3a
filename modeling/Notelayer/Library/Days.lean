import Mathlib.Order.ConditionallyCompleteLattice.Basic
import Mathlib.Order.Monotone.Defs
import Mathlib.Data.Int.ConditionallyCompleteOrder
import Mathlib.Data.List.Pairwise

/-!
# Days on a line of instants

`Days` numbers the instants of a linear order by days, each of which has a first instant. Numbers
may be left out, as when a place changes sides of the date line.

A walk goes from the start of one day to a last instant by steps that reach a later day. It visits
the starts of all days in between exactly if each of its steps leads from the start of a day to the
start of the next one (`IsWalk.lists_iff`).
-/

/-- A calendar : the day of an instant, and the instant at which the day starts. -/
structure Days (I : Type*) [LinearOrder I] where
  day : I → ℤ
  start : I → I
  day_mono : Monotone day
  day_start : ∀ p, day (start p) = day p
  start_le : ∀ p r, day r = day p → start p ≤ r

namespace Days

variable {I : Type*} [LinearOrder I] (d : Days I)

/-- The instant is the first of its day. -/
def IsStart (s : I) : Prop :=
  d.start s = s

variable {d} {p r s s' e : I} {l : List I}

theorem start_eq_iff : d.start p = d.start r ↔ d.day p = d.day r := by
  refine ⟨fun h => ?_, fun h => le_antisymm ?_ ?_⟩
  · rw [← d.day_start p, h, d.day_start]
  · exact d.start_le p _ ((d.day_start r).trans h.symm)
  · exact d.start_le r _ ((d.day_start p).trans h)

theorem isStart_start (p : I) : d.IsStart (d.start p) :=
  start_eq_iff.mpr (d.day_start p)

theorem start_le_self (p : I) : d.start p ≤ p :=
  d.start_le p p rfl

theorem lt_of_day_lt (h : d.day p < d.day r) : p < r :=
  lt_of_not_ge fun hle => h.not_ge (d.day_mono hle)

theorem IsStart.le_of_day_eq (h : d.IsStart s) (hr : d.day r = d.day s) : s ≤ r :=
  h ▸ d.start_le s r hr

theorem IsStart.day_lt (h : d.IsStart s) (hr : r < s) : d.day r < d.day s :=
  lt_of_le_of_ne (d.day_mono hr.le) fun heq => (h.le_of_day_eq heq).not_gt hr

theorem IsStart.le_iff (h : d.IsStart s) : s ≤ r ↔ d.day s ≤ d.day r := by
  refine ⟨fun hle => d.day_mono hle, fun hle => le_of_not_gt fun hlt => ?_⟩
  exact (h.day_lt hlt).not_ge hle

/-! ## The starts of the days -/

variable (d) in
/-- `s'` is the start of the day after that of `s`. -/
def IsNext (s s' : I) : Prop :=
  d.IsStart s' ∧ s < s' ∧ ∀ r, s < r → r < s' → d.day r = d.day s

theorem IsNext.unique (h : d.IsNext s p) (h' : d.IsNext s r) : p = r := by
  have hle : ∀ {p r : I}, d.IsNext s p → d.IsNext s r → p ≤ r := fun hp hr =>
    le_of_not_gt fun hlt => (hr.1.day_lt hr.2.1).ne (hp.2.2 _ hr.2.1 hlt).symm
  exact le_antisymm (hle h h') (hle h' h)

variable (d) in
/-- The list has the starts of the days from `s` to `e`, in order. -/
def Lists (s e : I) (l : List I) : Prop :=
  l.Pairwise (· < ·) ∧ ∀ r, r ∈ l ↔ d.IsStart r ∧ s ≤ r ∧ r ≤ e

theorem lists_singleton (h : d.IsStart s) : d.Lists s s [s] := by
  refine ⟨List.pairwise_singleton _ _, fun r => ?_⟩
  rw [List.mem_singleton]
  refine ⟨?_, fun hr => le_antisymm hr.2.2 hr.2.1⟩
  rintro rfl
  exact ⟨h, le_rfl, le_rfl⟩

/-- One more day at the front. -/
theorem Lists.cons (h : d.Lists s' e l) (hs : d.IsStart s) (hnext : d.IsNext s s')
    (he : s' ≤ e) : d.Lists s e (s :: l) := by
  obtain ⟨hsorted, hmem⟩ := h
  obtain ⟨-, hlt, hbetween⟩ := hnext
  refine ⟨List.pairwise_cons.mpr ⟨fun r hr => hlt.trans_le ((hmem r).mp hr).2.1, hsorted⟩,
    fun r => ?_⟩
  rw [List.mem_cons, hmem]
  constructor
  · rintro (rfl | ⟨hr, hle, hre⟩)
    · exact ⟨hs, le_rfl, hlt.le.trans he⟩
    · exact ⟨hr, hlt.le.trans hle, hre⟩
  · rintro ⟨hr, hle, hre⟩
    rcases hle.eq_or_lt with rfl | hsr
    · exact Or.inl rfl
    · refine Or.inr ⟨hr, le_of_not_gt fun hrs => ?_, hre⟩
      exact (hr.day_lt hsr).ne (hbetween r hsr hrs).symm

/-- The rest of such a list begins with the next day. -/
theorem Lists.of_cons (h : d.Lists s e (s :: s' :: l)) :
    d.IsNext s s' ∧ d.Lists s' e (s' :: l) := by
  obtain ⟨hsorted, hmem⟩ := h
  obtain ⟨hs, hsorted'⟩ := List.pairwise_cons.mp hsorted
  have hlt : s < s' := hs s' List.mem_cons_self
  obtain ⟨hstart, -, hse⟩ := (hmem s').mp (by simp)
  have hleast : ∀ r ∈ s' :: l, s' ≤ r := fun r hr => (List.mem_cons.mp hr).elim (fun heq => heq.ge)
    fun hr => ((List.pairwise_cons.mp hsorted').1 r hr).le
  refine ⟨⟨hstart, hlt, fun r hsr hrs => ?_⟩, hsorted', fun r => ?_⟩
  · by_contra hne
    have hday : d.day s < d.day (d.start r) := by
      rw [d.day_start]
      exact lt_of_le_of_ne (d.day_mono hsr.le) (Ne.symm hne)
    have hlt' := lt_of_day_lt hday
    have hle := start_le_self (d := d) r
    have hr := (hmem (d.start r)).mpr ⟨isStart_start r, hlt'.le, (hle.trans hrs.le).trans hse⟩
    have hr' := (List.mem_cons.mp hr).resolve_left hlt'.ne'
    exact ((hleast _ hr').trans hle).not_gt hrs
  · constructor
    · intro hr
      obtain ⟨hr', -, hre⟩ := (hmem r).mp (List.mem_cons_of_mem s hr)
      exact ⟨hr', hleast r hr, hre⟩
    · rintro ⟨hr, hle, hre⟩
      have hcons := (hmem r).mpr ⟨hr, hlt.le.trans hle, hre⟩
      exact (List.mem_cons.mp hcons).resolve_left (hlt.trans_le hle).ne'

/-- Among the starts of days a day is found once. -/
theorem countP_day_eq_one (hl : l.Pairwise (· < ·)) (hstart : ∀ r ∈ l, d.IsStart r)
    (hp : d.start p ∈ l) : l.countP (fun r => d.day r = d.day p) = 1 := by
  obtain ⟨l₁, l₂, rfl⟩ := List.append_of_mem hp
  obtain ⟨-, hl₂, hl₁⟩ := List.pairwise_append.mp hl
  have hday : ∀ r, r ∈ l₁ ∨ r ∈ l₂ → ¬d.day r = d.day p := by
    intro r hr heq
    have hrs := hstart r (by simpa using hr.imp_right Or.inr)
    have hrp : r = d.start p := by rw [← hrs, start_eq_iff, heq]
    subst hrp
    rcases hr with hr | hr
    · exact lt_irrefl _ (hl₁ _ hr _ List.mem_cons_self)
    · exact lt_irrefl _ ((List.pairwise_cons.mp hl₂).1 _ hr)
  rw [List.countP_append, List.countP_cons_of_pos (by simp [d.day_start]),
    List.countP_eq_zero.mpr fun r hr => by simpa using hday r (Or.inl hr),
    List.countP_eq_zero.mpr fun r hr => by simpa using hday r (Or.inr hr)]

/-! ## Walks -/

/-- The instants up to `e` that are reached from one by steps. -/
inductive IsWalk (step : I → Option I) (e : I) : I → List I → Prop
  | stop {s : I} : ¬s ≤ e → IsWalk step e s []
  | last {s : I} : s ≤ e → step s = none → IsWalk step e s [s]
  | next {s s' : I} {l : List I} : s ≤ e → step s = some s' → IsWalk step e s' l →
      IsWalk step e s (s :: l)

variable {step : I → Option I}

theorem IsWalk.exists_cons (h : IsWalk step e s l) (hse : s ≤ e) : ∃ m, l = s :: m := by
  cases h with
  | stop hnot => exact absurd hse hnot
  | last _ _ => exact ⟨[], rfl⟩
  | next _ _ _ => exact ⟨_, rfl⟩

/-- A walk visits all days up to the last one exactly if each step leads to the start of the next
day. -/
theorem IsWalk.lists_iff (hstep : ∀ p, ∃ q, step p = some q ∧ d.day p < d.day q)
    (h : IsWalk step e s l) (hs : d.IsStart s) (he : d.IsStart e) (hse : s ≤ e) :
    d.Lists s e l ↔
      ∀ r, d.IsStart r → s ≤ r → r < e → ∃ r', step r = some r' ∧ d.IsNext r r' := by
  induction h with
  | stop hnot => exact absurd hse hnot
  | @last s _ hnone =>
    obtain ⟨q, hq, -⟩ := hstep s
    exact absurd (hnone.symm.trans hq) (by simp)
  | @next s s' l _ hnext hwalk ih =>
    obtain ⟨q, hq, hday⟩ := hstep s
    obtain rfl : q = s' := Option.some.inj (hq.symm.trans hnext)
    have hlt := lt_of_day_lt hday
    rcases hse.eq_or_lt with rfl | hse
    · -- the last day : the next one is not visited
      have hnil : l = [] := by
        cases hwalk with
        | stop _ => rfl
        | last hle _ => exact absurd hle hlt.not_ge
        | next hle _ _ => exact absurd hle hlt.not_ge
      rw [hnil]
      exact iff_of_true (lists_singleton hs) fun r _ hsr hre => absurd hre hsr.not_gt
    · constructor
      · intro hlists r hr hsr hre
        obtain ⟨s'', m, rfl⟩ : ∃ s'' m, l = s'' :: m := by
          refine List.exists_cons_of_ne_nil fun hnil => ?_
          have hmem := (hlists.2 e).mpr ⟨he, hse.le, le_rfl⟩
          rw [hnil, List.mem_singleton] at hmem
          exact hse.ne' hmem
        obtain rfl : s'' = q := by cases hwalk <;> rfl
        obtain ⟨hnext', hrest⟩ := hlists.of_cons
        have hqe := ((hlists.2 s'').mp (by simp)).2.2
        rcases hsr.eq_or_lt with rfl | hsr
        · exact ⟨s'', hq, hnext'⟩
        · refine (ih hnext'.1 hqe).mp hrest r hr (le_of_not_gt fun hrq => ?_) hre
          exact (hr.day_lt hsr).ne (hnext'.2.2 r hsr hrq).symm
      · intro hall
        obtain ⟨q', hq', hnext'⟩ := hall s hs le_rfl hse
        obtain rfl : q = q' := Option.some.inj (hq.symm.trans hq')
        have hqe : q ≤ e := le_of_not_gt fun heq => (he.day_lt hse).ne (hnext'.2.2 e hse heq).symm
        refine ((ih hnext'.1 hqe).mpr fun r hr hqr hre => ?_).cons hs hnext' hqe
        exact hall r hr (hlt.le.trans hqr) hre

end Days
