import Notelayer.Library.Runs

/-!
# Runs that agree on what is visible

A label is visible in a state or not. `view` keeps the visible labels of a run. Two states
agree in the sense of a relation that hidden steps on either side keep and that equal visible
steps keep together (`Unwinding`). Two runs with the same view then lead from states that
agree to states that agree, however many hidden steps each of them takes
(`Unwinding.agree_of_view_eq`).
-/

namespace Runs

variable {S L : Type*} (step : L → S → Option S) (visible : L → S → Bool)

/-- The labels of a run that are visible in the state they are taken in. -/
def view : List L → S → List L
  | [], _ => []
  | l :: ls, s => (if visible l s then [l] else []) ++ (step l s).elim [] (view ls)

/-- A relation that hidden steps of either side keep, and equal visible steps of both. -/
structure Unwinding (guard : L → S → Prop) (Agree : S → S → Prop) : Prop where
  left : ∀ {s s' t l}, Agree s s' → guard l s → visible l s = false → step l s = some t →
    Agree t s'
  right : ∀ {s s' t' l}, Agree s s' → guard l s' → visible l s' = false → step l s' = some t' →
    Agree s t'
  both : ∀ {s s' t t' l}, Agree s s' → guard l s → guard l s' → visible l s = true →
    visible l s' = true → step l s = some t → step l s' = some t' → Agree t t'

variable {step visible} {guard : L → S → Prop} {Agree : S → S → Prop}

theorem view_cons_hidden {l : L} {ls : List L} {s t : S} (hs : step l s = some t)
    (hv : visible l s = false) : view step visible (l :: ls) s = view step visible ls t := by
  simp [view, hs, hv]

theorem view_cons_visible {l : L} {ls : List L} {s t : S} (hs : step l s = some t)
    (hv : visible l s = true) :
    view step visible (l :: ls) s = l :: view step visible ls t := by
  simp [view, hs, hv]

theorem view_append {ls : List L} {s t : S} (hs : run step ls s = some t) (ms : List L) :
    view step visible (ls ++ ms) s = view step visible ls s ++ view step visible ms t := by
  induction ls generalizing s with
  | nil =>
    obtain rfl : s = t := by simpa [run] using hs
    rfl
  | cons l ls ih =>
    obtain ⟨s₁, hs₁, hr₁⟩ := run_cons_eq_some.mp hs
    simp [view, hs₁, ih hr₁]

theorem view_concat_hidden {ls : List L} {l : L} {s t : S} (hs : run step ls s = some t)
    (hv : visible l t = false) :
    view step visible (ls ++ [l]) s = view step visible ls s := by
  rw [view_append hs]
  cases hl : step l t <;> simp [view, hv, hl]

/-- Hidden steps of the right side alone. -/
theorem Unwinding.agree_of_view_nil (h : Unwinding step visible guard Agree) :
    ∀ {ls' : List L} {s s' t' : S}, Agree s s' → Guarded step guard ls' s' →
      run step ls' s' = some t' → view step visible ls' s' = [] → Agree s t'
  | [], s, s', t', ha, _, hr, _ => by
    obtain rfl : s' = t' := by simpa [run] using hr
    exact ha
  | l :: ls', s, s', t', ha, ⟨hg, hgs⟩, hr, hview => by
    obtain ⟨s₁, hs₁, hr₁⟩ := run_cons_eq_some.mp hr
    cases hv : visible l s' with
    | true => simp [view, hv] at hview
    | false =>
      rw [view_cons_hidden hs₁ hv] at hview
      exact h.agree_of_view_nil (h.right ha hg hv hs₁) (hgs s₁ hs₁) hr₁ hview

/-- A visible step of the left side is met by the right side after some hidden steps. -/
theorem Unwinding.agree_of_view_cons (h : Unwinding step visible guard Agree) {l : L}
    {ls : List L} {s s₁ t : S} (hg : guard l s) (hv : visible l s = true)
    (hs : step l s = some s₁)
    (ih : ∀ {ls' : List L} {s' t' : S}, Agree s₁ s' → Guarded step guard ls' s' →
      run step ls' s' = some t' → view step visible ls s₁ = view step visible ls' s' →
      Agree t t') :
    ∀ {ls' : List L} {s' t' : S}, Agree s s' → Guarded step guard ls' s' →
      run step ls' s' = some t' →
      l :: view step visible ls s₁ = view step visible ls' s' → Agree t t'
  | [], s', t', _, _, _, hview => by simp [view] at hview
  | l' :: ls', s', t', ha, ⟨hg', hgs'⟩, hr', hview => by
    obtain ⟨s₁', hs₁', hr₁'⟩ := run_cons_eq_some.mp hr'
    cases hv' : visible l' s' with
    | true =>
      rw [view_cons_visible hs₁' hv'] at hview
      obtain ⟨rfl, hrest⟩ := List.cons.inj hview
      exact ih (h.both ha hg hg' hv hv' hs hs₁') (hgs' s₁' hs₁') hr₁' hrest
    | false =>
      rw [view_cons_hidden hs₁' hv'] at hview
      exact h.agree_of_view_cons hg hv hs ih (h.right ha hg' hv' hs₁') (hgs' s₁' hs₁') hr₁' hview

/-- Guarded runs with the same view lead to states that agree. -/
theorem Unwinding.agree_of_view_eq (h : Unwinding step visible guard Agree) :
    ∀ {ls ls' : List L} {s s' t t' : S}, Agree s s' → Guarded step guard ls s →
      Guarded step guard ls' s' → run step ls s = some t → run step ls' s' = some t' →
      view step visible ls s = view step visible ls' s' → Agree t t'
  | [], ls', s, s', t, t', ha, _, hg', hr, hr', hview => by
    obtain rfl : s = t := by simpa [run] using hr
    exact h.agree_of_view_nil ha hg' hr' hview.symm
  | l :: ls, ls', s, s', t, t', ha, ⟨hg, hgs⟩, hg', hr, hr', hview => by
    obtain ⟨s₁, hs₁, hr₁⟩ := run_cons_eq_some.mp hr
    cases hv : visible l s with
    | false =>
      rw [view_cons_hidden hs₁ hv] at hview
      exact h.agree_of_view_eq (h.left ha hg hv hs₁) (hgs s₁ hs₁) hg' hr₁ hr' hview
    | true =>
      rw [view_cons_visible hs₁ hv] at hview
      refine h.agree_of_view_cons hg hv hs₁ ?_ ha hg' hr' hview
      intro ls'' s'' t'' ha'' hg'' hr'' hview''
      exact h.agree_of_view_eq ha'' (hgs s₁ hs₁) hg'' hr₁ hr'' hview''

end Runs
