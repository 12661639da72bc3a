import Mathlib.Algebra.Order.Group.Multiset
import Notelayer.Library.Runs

/-!
# Ledgers

A state holds items. A step takes items in, and lets items out over two doors : delivered or
dropped. `Balanced` says that what was held or taken in is held, delivered or dropped, each
item as often as before, where a key tells items apart. Balanced steps make balanced runs
(`Balanced.of_run`), and over a balanced run an item of a fresh key is in exactly one of the
three places (`Balanced.once`).
-/

namespace Ledger

variable {A K L S : Type*}

/-- The items that enter, and those that leave over each door. -/
structure Moves (A : Type*) where
  entered : List A := []
  delivered : List A := []
  dropped : List A := []

namespace Moves

/-- One after the other. -/
def append (m m' : Moves A) : Moves A :=
  ⟨m.entered ++ m'.entered, m.delivered ++ m'.delivered, m.dropped ++ m'.dropped⟩

/-- What the steps of a run move. -/
def total (step : L → S → Option S) (moves : L → S → Moves A) : List L → S → Moves A
  | [], _ => {}
  | l :: ls, s => (moves l s).append ((step l s).elim {} (total step moves ls))

theorem total_cons {step : L → S → Option S} {moves : L → S → Moves A} {l : L} {ls : List L}
    {s s' : S} (h : step l s = some s') :
    total step moves (l :: ls) s = (moves l s).append (total step moves ls s') := by
  rw [total, h, Option.elim_some]

end Moves

/-- What the steps of a run put out. -/
def logged {B : Type*} (step : L → S → Option S) (out : L → S → List B) : List L → S → List B
  | [], _ => []
  | l :: ls, s => out l s ++ (step l s).elim [] (logged step out ls)

theorem logged_cons {B : Type*} {step : L → S → Option S} {out : L → S → List B} {l : L}
    {ls : List L} {s s' : S} (h : step l s = some s') :
    logged step out (l :: ls) s = out l s ++ logged step out ls s' := by
  rw [logged, h, Option.elim_some]

/-- What each guarded step puts out, from an invariant, a guarded run puts out. -/
theorem forall_logged {B : Type*} {step : L → S → Option S} {out : L → S → List B} {P : B → Prop}
    {guard : L → S → Prop} {I : S → Prop}
    (hkeep : ∀ l s s', I s → guard l s → step l s = some s' → I s')
    (hout : ∀ l s s', I s → guard l s → step l s = some s' → ∀ b ∈ out l s, P b) :
    ∀ {ls : List L} {s t : S}, I s → Runs.Guarded step guard ls s → Runs.run step ls s = some t →
      ∀ b ∈ logged step out ls s, P b
  | [], _, _, _, _, _, _, hb => absurd hb List.not_mem_nil
  | l :: ls, s, t, hi, ⟨hg, hgs⟩, hr, b, hb => by
    obtain ⟨s', hs', hr'⟩ := Runs.run_cons_eq_some.mp hr
    rw [logged_cons hs'] at hb
    rcases List.mem_append.mp hb with hb | hb
    · exact hout l s s' hi hg hs' b hb
    · exact forall_logged hkeep hout (hkeep l s s' hi hg hs') (hgs s' hs') hr' b hb

theorem dropped_total {step : L → S → Option S} {moves : L → S → Moves A} :
    ∀ {ls : List L} {s t : S}, Runs.run step ls s = some t →
      (Moves.total step moves ls s).dropped = logged step (fun l s => (moves l s).dropped) ls s
  | [], _, _, _ => rfl
  | l :: ls, s, t, hr => by
    obtain ⟨s', hs', hr'⟩ := Runs.run_cons_eq_some.mp hr
    rw [Moves.total_cons hs', logged_cons hs', ← dropped_total hr']
    rfl

theorem delivered_total_eq_nil {step : L → S → Option S} {moves : L → S → Moves A}
    (h : ∀ l s, (moves l s).delivered = []) :
    ∀ (ls : List L) (s : S), (Moves.total step moves ls s).delivered = []
  | [], _ => rfl
  | l :: ls, s => by
    have hrest : ((step l s).elim {} (Moves.total step moves ls)).delivered = [] := by
      rcases step l s with _ | s'
      · rfl
      · exact delivered_total_eq_nil h ls s'
    simp [Moves.total, Moves.append, h, hrest]

/-- Items held and taken in are held, delivered or dropped. -/
def Balanced (key : A → K) (before : List A) (m : Moves A) (after : List A) : Prop :=
  ((before ++ m.entered).map key).Perm ((after ++ (m.delivered ++ m.dropped)).map key)

namespace Balanced

variable {key : A → K} {before between after : List A} {m m' : Moves A}

/-- Nothing moves and the keys stay. -/
theorem of_map_eq (h : after.map key = before.map key) : Balanced key before {} after := by
  unfold Balanced
  simp only [List.append_nil, h]
  exact .refl _

theorem refl (l : List A) : Balanced key l {} l :=
  of_map_eq rfl

/-- New items behind the others. -/
theorem enter (l entered : List A) : Balanced key l { entered := entered } (l ++ entered) := by
  unfold Balanced
  simp only [List.append_nil]
  exact .refl _

theorem deliver_all (l : List A) : Balanced key l { delivered := l } [] := by
  unfold Balanced
  simp only [List.append_nil, List.nil_append]
  exact .refl _

theorem drop_all (l : List A) : Balanced key l { dropped := l } [] := by
  unfold Balanced
  simp only [List.append_nil, List.nil_append]
  exact .refl _

theorem deliver {l l' : List A} {a : A} (h : l.Perm (a :: l')) :
    Balanced key l { delivered := [a] } l' := by
  unfold Balanced
  simp only [List.append_nil]
  exact (h.trans (List.perm_append_singleton a l').symm).map key

theorem drop {l l' dropped : List A} (h : l.Perm (l' ++ dropped)) :
    Balanced key l { dropped := dropped } l' := by
  unfold Balanced
  simp only [List.append_nil, List.nil_append]
  exact h.map key

/-- Two balanced changes, one after the other. -/
theorem append (h : Balanced key before m between) (h' : Balanced key between m' after) :
    Balanced key before (m.append m') after := by
  unfold Balanced Moves.append at *
  simp only [← Multiset.coe_eq_coe, List.map_append, ← Multiset.coe_add] at *
  calc (before.map key + (m.entered.map key + m'.entered.map key) : Multiset K)
      = before.map key + m.entered.map key + m'.entered.map key := by rw [add_assoc]
    _ = between.map key + m'.entered.map key +
          (m.delivered.map key + m.dropped.map key) := by
        rw [h]
        ac_rfl
    _ = after.map key + (m.delivered.map key + m'.delivered.map key +
          (m.dropped.map key + m'.dropped.map key)) := by
        rw [h']
        ac_rfl

/-- Guarded steps that are balanced from an invariant make balanced runs. -/
theorem of_guarded_run {step : L → S → Option S} {moves : L → S → Moves A} {held : S → List A}
    {guard : L → S → Prop} {I : S → Prop}
    (hkeep : ∀ l s s', I s → guard l s → step l s = some s' → I s')
    (hstep : ∀ l s s', I s → guard l s → step l s = some s' →
      Balanced key (held s) (moves l s) (held s')) :
    ∀ {ls : List L} {s t : S}, I s → Runs.Guarded step guard ls s → Runs.run step ls s = some t →
      Balanced key (held s) (Moves.total step moves ls s) (held t)
  | [], s, t, _, _, hr => by
    obtain rfl : s = t := by simpa [Runs.run] using hr
    exact refl _
  | l :: ls, s, t, hi, ⟨hg, hgs⟩, hr => by
    obtain ⟨s', hs', hr'⟩ := Runs.run_cons_eq_some.mp hr
    rw [Moves.total_cons hs']
    exact (hstep l s s' hi hg hs').append
      (of_guarded_run hkeep hstep (hkeep l s s' hi hg hs') (hgs s' hs') hr')

/-- Steps that are balanced from an invariant make balanced runs. -/
theorem of_run {step : L → S → Option S} {moves : L → S → Moves A} {held : S → List A}
    {I : S → Prop} (hkeep : ∀ l s s', I s → step l s = some s' → I s')
    (hstep : ∀ l s s', I s → step l s = some s' → Balanced key (held s) (moves l s) (held s'))
    {ls : List L} {s t : S} (hi : I s) (hr : Runs.run step ls s = some t) :
    Balanced key (held s) (Moves.total step moves ls s) (held t) :=
  of_guarded_run (fun l s s' hi (_ : True) hs => hkeep l s s' hi hs)
    (fun l s s' hi _ hs => hstep l s s' hi hs) hi
    (Runs.guarded_of_forall (fun _ _ => trivial) s) hr

/-- What is put out for what is delivered, step by step. -/
theorem forall₂_logged {B : Type*} {step : L → S → Option S} {moves : L → S → Moves A}
    {out : L → S → List B} {R : A → B → Prop} {I : S → Prop}
    (hkeep : ∀ l s s', I s → step l s = some s' → I s')
    (hstep : ∀ l s s', I s → step l s = some s' → List.Forall₂ R (moves l s).delivered (out l s)) :
    ∀ {ls : List L} {s t : S}, I s → Runs.run step ls s = some t →
      List.Forall₂ R (Moves.total step moves ls s).delivered (logged step out ls s)
  | [], _, _, _, _ => .nil
  | l :: ls, s, t, hi, hr => by
    obtain ⟨s', hs', hr'⟩ := Runs.run_cons_eq_some.mp hr
    rw [Moves.total_cons hs', logged_cons hs']
    exact List.rel_append (hstep l s s' hi hs')
      (forall₂_logged hkeep hstep (hkeep l s s' hi hs') hr')

/-- A key that came once is in exactly one place, once. -/
theorem once [DecidableEq K] (h : Balanced key before m after)
    (hnew : ((before ++ m.entered).map key).Nodup) {k : K}
    (hk : k ∈ (before ++ m.entered).map key) :
    (after.map key).count k + (m.delivered.map key).count k + (m.dropped.map key).count k = 1 := by
  have hcount := h.count_eq k
  rw [List.count_eq_one_of_mem hnew hk, List.map_append, List.map_append, List.count_append,
    List.count_append] at hcount
  omega

end Balanced

end Ledger
