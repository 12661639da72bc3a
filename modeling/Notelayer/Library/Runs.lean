import Mathlib.Data.Option.Basic
import Mathlib.Data.List.Basic

/-!
# Guarded runs of a partial step

A system is a step `L → S → Option S` : a label either has no result in a state, or
one. `run` takes a list of labels, and `Guarded` says that a guard on the label and
the state before it held at every step of the run. An invariant kept by every guarded
step holds after every guarded run (`invariant_of_guarded`), and a step that has a
result in every state of the invariant never blocks (`exists_run_of_guarded`).
-/

namespace Runs

variable {S L : Type*} (step : L → S → Option S)

/-- Take the labels one after another. `none` if some step has no result. -/
def run : List L → S → Option S
  | [], s => some s
  | l :: ls, s => (step l s).bind (run ls)

/-- The guard held before every step of the run. -/
def Guarded (guard : L → S → Prop) : List L → S → Prop
  | [], _ => True
  | l :: ls, s => guard l s ∧ ∀ s', step l s = some s' → Guarded guard ls s'

instance decidableGuarded (guard : L → S → Prop) [∀ l s, Decidable (guard l s)] :
    ∀ ls s, Decidable (Guarded step guard ls s)
  | [], _ => isTrue trivial
  | l :: ls, s =>
    have (s' : S) : Decidable (Guarded step guard ls s') := decidableGuarded guard ls s'
    inferInstanceAs (Decidable (guard l s ∧ ∀ s' ∈ step l s, Guarded step guard ls s'))

variable {step}

@[simp] theorem run_nil (s : S) : run step [] s = some s :=
  rfl

theorem run_cons_eq_some {l : L} {ls : List L} {s t : S} :
    run step (l :: ls) s = some t ↔ ∃ s', step l s = some s' ∧ run step ls s' = some t := by
  simp [run, Option.bind_eq_some_iff]

theorem run_append (ls ms : List L) (s : S) :
    run step (ls ++ ms) s = (run step ls s).bind (run step ms) := by
  induction ls generalizing s with
  | nil => rfl
  | cons l ls ih =>
    simp only [List.cons_append, run, Option.bind_assoc]
    congr 1
    funext s'
    exact ih s'

/-- Some run leads from the first state to the second. -/
def Reaches (step : L → S → Option S) (s t : S) : Prop :=
  ∃ ls, run step ls s = some t

theorem Reaches.refl (s : S) : Reaches step s s :=
  ⟨[], rfl⟩

theorem Reaches.single {l : L} {s t : S} (h : step l s = some t) : Reaches step s t :=
  ⟨[l], by simp [run, h]⟩

theorem Reaches.trans {s t u : S} (h : Reaches step s t) (h' : Reaches step t u) :
    Reaches step s u := by
  obtain ⟨ls, hs⟩ := h
  obtain ⟨ms, ht⟩ := h'
  exact ⟨ls ++ ms, by rw [run_append, hs, Option.bind_some, ht]⟩

/-- A step that is known leads to one state only. -/
theorem Guarded.cons {guard : L → S → Prop} {l : L} {ls : List L} {s s' : S} (hg : guard l s)
    (hs : step l s = some s') (h : Guarded step guard ls s') : Guarded step guard (l :: ls) s := by
  refine ⟨hg, fun t ht => ?_⟩
  obtain rfl := Option.some_inj.mp (hs.symm.trans ht)
  exact h

/-- A guard that does not look at the state. -/
theorem guarded_of_forall {p : L → Prop} :
    ∀ {ls : List L}, (∀ l ∈ ls, p l) → ∀ s, Guarded step (fun l _ => p l) ls s
  | [], _, _ => trivial
  | l :: _, h, _ => ⟨h l List.mem_cons_self, fun s' _ =>
      guarded_of_forall (fun l hl => h l (List.mem_cons_of_mem _ hl)) s'⟩

theorem Guarded.and {guard guard' : L → S → Prop} :
    ∀ {ls : List L} {s : S}, Guarded step guard ls s → Guarded step guard' ls s →
      Guarded step (fun l s => guard l s ∧ guard' l s) ls s
  | [], _, _, _ => trivial
  | _ :: _, _, ⟨h, hs⟩, ⟨h', hs'⟩ => ⟨⟨h, h'⟩, fun _ hstep => (hs _ hstep).and (hs' _ hstep)⟩

/-- What every guarded step keeps, every guarded run keeps. -/
theorem invariant_of_guarded {guard : L → S → Prop} {I : S → Prop}
    (hstep : ∀ l s s', I s → guard l s → step l s = some s' → I s') :
    ∀ {ls : List L} {s t : S}, I s → Guarded step guard ls s → run step ls s = some t → I t
  | [], s, t, hi, _, hr => by
    obtain rfl : s = t := by simpa [run] using hr
    exact hi
  | l :: ls, s, t, hi, ⟨hg, hgs⟩, hr => by
    obtain ⟨s', hs', hr'⟩ := run_cons_eq_some.mp hr
    exact invariant_of_guarded hstep (hstep l s s' hi hg hs') (hgs s' hs') hr'

/-- What every step keeps, every run keeps. -/
theorem invariant_of_run {I : S → Prop} (hstep : ∀ l s s', I s → step l s = some s' → I s') :
    ∀ {ls : List L} {s t : S}, I s → run step ls s = some t → I t
  | [], s, t, hi, hr => by
    obtain rfl : s = t := by simpa [run] using hr
    exact hi
  | l :: ls, s, t, hi, hr => by
    obtain ⟨s', hs', hr'⟩ := run_cons_eq_some.mp hr
    exact invariant_of_run hstep (hstep l s s' hi hs') hr'

/-- If every step from the invariant has a result that keeps it, so has every run. -/
theorem exists_run {I : S → Prop} (hstep : ∀ l s, I s → ∃ s', step l s = some s' ∧ I s') :
    ∀ (ls : List L) {s : S}, I s → ∃ t, run step ls s = some t
  | [], s, _ => ⟨s, rfl⟩
  | l :: ls, s, hi => by
    obtain ⟨s', hs', hi'⟩ := hstep l s hi
    obtain ⟨t, ht⟩ := exists_run hstep ls hi'
    exact ⟨t, run_cons_eq_some.mpr ⟨s', hs', ht⟩⟩

/-- A guard may use the invariant that it keeps. -/
theorem Guarded.of_invariant {guard guard' : L → S → Prop} {I : S → Prop}
    (hstep : ∀ l s s', I s → guard l s → step l s = some s' → I s')
    (hg : ∀ l s, I s → guard l s → guard' l s) :
    ∀ {ls : List L} {s : S}, I s → Guarded step guard ls s → Guarded step guard' ls s
  | [], _, _, _ => trivial
  | l :: _, s, hi, ⟨h, hs⟩ =>
    ⟨hg l s hi h, fun s' hs' => (hs s' hs').of_invariant hstep hg (hstep l s s' hi h hs')⟩

/-- If every guarded step from the invariant has a result, so has every guarded run. -/
theorem exists_run_of_guarded {guard : L → S → Prop} {I : S → Prop}
    (hstep : ∀ l s s', I s → guard l s → step l s = some s' → I s')
    (hsome : ∀ l s, I s → guard l s → ∃ s', step l s = some s') :
    ∀ {ls : List L} {s : S}, I s → Guarded step guard ls s → ∃ t, run step ls s = some t
  | [], s, _, _ => ⟨s, rfl⟩
  | l :: ls, s, hi, ⟨hg, hgs⟩ => by
    obtain ⟨s', hs'⟩ := hsome l s hi hg
    obtain ⟨t, ht⟩ := exists_run_of_guarded hstep hsome (hstep l s s' hi hg hs') (hgs s' hs')
    exact ⟨t, run_cons_eq_some.mpr ⟨s', hs', ht⟩⟩

/-- If a legal step from the invariant keeps it exactly when it is guarded, then the
invariant holds all along a legal run exactly when the run is guarded. -/
theorem forall_take_iff_guarded {legal guard : L → S → Prop} {I : S → Prop}
    (hstep : ∀ l s, I s → legal l s → guard l s → ∃ s', step l s = some s' ∧ I s')
    (hfail : ∀ l s s', I s → legal l s → step l s = some s' → I s' → guard l s) :
    ∀ {ls : List L} {s : S}, I s → Guarded step legal ls s →
      ((∀ k, ∃ t, run step (ls.take k) s = some t ∧ I t) ↔ Guarded step guard ls s)
  | [], s, hi, _ => ⟨fun _ => trivial, fun _ k => ⟨s, by simp, hi⟩⟩
  | l :: ls, s, hi, ⟨hl, hls⟩ => by
    refine ⟨fun hall => ?_, ?_⟩
    · obtain ⟨s₁, hr₁, hi₁⟩ := hall 1
      obtain ⟨s', hs', hnil⟩ := run_cons_eq_some.mp hr₁
      obtain rfl : s' = s₁ := by simpa using hnil
      refine ⟨hfail l s s' hi hl hs' hi₁, fun s'' hs'' => ?_⟩
      obtain rfl : s' = s'' := by rw [hs'] at hs''; exact Option.some_inj.mp hs''
      refine (forall_take_iff_guarded hstep hfail hi₁ (hls s' hs')).mp fun k => ?_
      obtain ⟨t, ht, hit⟩ := hall (k + 1)
      obtain ⟨s'', hs'', ht'⟩ := run_cons_eq_some.mp ht
      obtain rfl : s' = s'' := by rw [hs'] at hs''; exact Option.some_inj.mp hs''
      exact ⟨t, ht', hit⟩
    · rintro ⟨hg, hgs⟩ k
      obtain ⟨s', hs', hi'⟩ := hstep l s hi hl hg
      cases k with
      | zero => exact ⟨s, rfl, hi⟩
      | succ k =>
        obtain ⟨t, ht, hit⟩ :=
          (forall_take_iff_guarded hstep hfail hi' (hls s' hs')).mpr (hgs s' hs') k
        exact ⟨t, run_cons_eq_some.mpr ⟨s', hs', ht⟩, hit⟩

/-- A log that a step from an invariant leaves alone exactly if it is guarded is left alone
exactly by the guarded runs. -/
theorem log_eq_iff_guarded_of_invariant {W : Type*} (log : S → List W) {guard : L → S → Prop}
    {I : S → Prop} (hkeep : ∀ l s s', I s → step l s = some s' → I s')
    (hstep : ∀ l s s', I s → step l s = some s' →
      ∃ ws, log s' = log s ++ ws ∧ (ws = [] ↔ guard l s)) :
    ∀ {ls : List L} {s t : S}, I s → run step ls s = some t →
      ∃ ws, log t = log s ++ ws ∧ (ws = [] ↔ Guarded step guard ls s)
  | [], s, t, _, hr => by
    obtain rfl : s = t := by simpa [run] using hr
    exact ⟨[], (List.append_nil _).symm, iff_of_true rfl trivial⟩
  | l :: ls, s, t, hi, hr => by
    obtain ⟨s', hs', hr'⟩ := run_cons_eq_some.mp hr
    obtain ⟨ws, hws, hiff⟩ := hstep l s s' hi hs'
    obtain ⟨ws', hws', hiff'⟩ :=
      log_eq_iff_guarded_of_invariant log hkeep hstep (hkeep l s s' hi hs') hr'
    refine ⟨ws ++ ws', by rw [hws', hws, List.append_assoc], ?_⟩
    rw [List.append_eq_nil_iff, hiff, hiff']
    refine and_congr_right fun _ => ⟨fun hg s'' hs'' => ?_, fun hall => hall s' hs'⟩
    obtain rfl : s' = s'' := by rw [hs'] at hs''; exact Option.some_inj.mp hs''
    exact hg

/-- A log that a step leaves alone exactly if it is guarded is left alone exactly by the guarded
runs. -/
theorem log_eq_iff_guarded {W : Type*} (log : S → List W) {guard : L → S → Prop}
    (hstep : ∀ l s s', step l s = some s' → ∃ ws, log s' = log s ++ ws ∧ (ws = [] ↔ guard l s))
    {ls : List L} {s t : S} (hr : run step ls s = some t) :
    ∃ ws, log t = log s ++ ws ∧ (ws = [] ↔ Guarded step guard ls s) :=
  log_eq_iff_guarded_of_invariant (I := fun _ => True) log (fun _ _ _ _ _ => trivial)
    (fun l s s' _ hs' => hstep l s s' hs') trivial hr

/-- Two guards that agree in every state of an invariant guard the same runs. -/
theorem guarded_congr {guard guard' : L → S → Prop} {I : S → Prop}
    (hkeep : ∀ l s s', I s → step l s = some s' → I s')
    (hiff : ∀ l s, I s → (guard l s ↔ guard' l s)) :
    ∀ {ls : List L} {s : S}, I s → (Guarded step guard ls s ↔ Guarded step guard' ls s)
  | [], _, _ => Iff.rfl
  | l :: ls, s, hi => by
    refine and_congr (hiff l s hi) (forall₂_congr fun s' hs' => ?_)
    exact guarded_congr hkeep hiff (hkeep l s s' hi hs')

end Runs
