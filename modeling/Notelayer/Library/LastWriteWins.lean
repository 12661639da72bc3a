import Mathlib.Logic.Function.Basic
import Mathlib.Order.Lattice
import Notelayer.Library.Runs

/-!
# Replicas of a last-write-wins register

Replicas write entries with stamps. A write is applied to the replica at once and pushed to
a shared register, where pushes arrive late and in any order and overwrite what is there.
Contents that the register held are delivered to the replicas, late and in any order too. A
replica adopts a content with a later stamp and pushes its own entry back otherwise.

If no write replaces the latest entry by an earlier one, `Inv` is kept by every step
(`Inv.step`). Once no push is left and every replica has seen what the register holds, the
register and all replicas hold the latest entry (`Inv.converged`).

Entries may have an order of their own, where a greater one has all that a smaller one has. If
every write extends all earlier ones, and no arrival replaces a content by an earlier one
(`Step.Extends`), then no replica and not the register ever loses anything (`Growing.le_step`).
-/

namespace LastWriteWins

variable {I E T : Type*}

/-- The replicas, the shared register and the writes on their way. -/
@[ext] structure State (I E : Type*) where
  /-- What each replica holds. -/
  entry : I → Option E
  register : Option E
  /-- The pushes that have not arrived. -/
  pending : List E
  /-- Every content that the register held. -/
  held : List (Option E)
  /-- Every entry that was written. -/
  written : List E
  /-- The replica has seen what the register holds since it last changed. -/
  current : I → Bool

/-- A local write, a delivery, or the arrival of a push. -/
inductive Step (I E : Type*) where
  | write (i : I) (e : E)
  | deliver (i : I) (k : ℕ)
  | arrive (k : ℕ)

section Steps

variable [DecidableEq I] [LT T] [DecidableLT T] (stamp : E → T) (init : E)

/-- What a replica with the entry `own` holds after it has seen `content`, and its push. -/
def reconcile : Option E → Option E → E × Option E
  | none, none => (init, none)
  | none, some own => (own, some own)
  | some e, none => (e, none)
  | some e, some own => if stamp own < stamp e then (e, none) else (own, some own)

namespace State

variable [DecidableEq E] (s : State I E)

/-- A replica writes an entry and pushes it. -/
def write (i : I) (e : E) : State I E :=
  { s with
    entry := Function.update s.entry i (some e)
    pending := s.pending ++ [e]
    written := s.written ++ [e] }

/-- A replica reconciles what it holds with a content of the register. -/
def deliver (i : I) (content : Option E) : State I E :=
  let (e, push) := reconcile stamp init content (s.entry i)
  { s with
    entry := Function.update s.entry i (some e)
    pending := s.pending ++ push.toList
    current := Function.update s.current i (s.current i || content = s.register) }

/-- A push arrives in the register. -/
def arrive (k : ℕ) (e : E) : State I E :=
  { s with
    register := some e
    pending := s.pending.eraseIdx k
    held := s.held ++ [some e]
    current := fun i => s.current i && s.register = some e }

end State

variable [DecidableEq E] in
/-- The step function of the replicas. -/
def step : Step I E → State I E → Option (State I E)
  | .write i e, s => some (s.write i e)
  | .deliver i k, s => s.held[k]?.map (s.deliver stamp init i)
  | .arrive k, s => s.pending[k]?.map (s.arrive k)

end Steps

/-! ## The invariant -/

namespace State

/-- Some push would change the register. -/
def Unsettled (s : State I E) : Prop :=
  ∃ e ∈ s.pending, s.register ≠ some e

/-- No entry with a later stamp was written. -/
def Latest [LE T] (stamp : E → T) (s : State I E) (e : E) : Prop :=
  e ∈ s.written ∧ ∀ e' ∈ s.written, stamp e' ≤ stamp e

end State

variable [LinearOrder T] {stamp : E → T} {init : E} {s s' : State I E}

/-- A write is later than the initial entry, has a stamp of its own, and does not replace
the latest entry by an earlier one. -/
def Step.Legal (stamp : E → T) (init : E) : Step I E → State I E → Prop
  | write i e, s =>
    stamp init < stamp e ∧ (∀ e' ∈ s.written, stamp e' ≠ stamp e) ∧
      ∀ own ∈ s.entry i, s.Latest stamp own → stamp own < stamp e
  | _, _ => True

/-- Whatever is held or under way was written, or is the initial entry. A current replica is
not behind the register, and some replica holds the latest entry, unless a push that changes
the register is under way. -/
structure Inv (stamp : E → T) (init : E) (s : State I E) : Prop where
  baseline : ∀ e ∈ s.written, stamp init < stamp e
  distinct : ∀ e ∈ s.written, ∀ e' ∈ s.written, stamp e = stamp e' → e = e'
  entry : ∀ i, ∀ e ∈ s.entry i, e ∈ init :: s.written
  register : ∀ e ∈ s.register, e ∈ init :: s.written
  pending : ∀ e ∈ s.pending, e ∈ init :: s.written
  held : ∀ content ∈ s.held, ∀ e ∈ content, e ∈ init :: s.written
  behind : ∀ i, s.current i = true →
    s.Unsettled ∨ ∀ r ∈ s.register, ∃ e ∈ s.entry i, stamp r ≤ stamp e
  holder : s.written ≠ [] → ∃ i, ∃ e ∈ s.entry i, s.Latest stamp e ∧
    (s.current i = true → s.Unsettled ∨ s.register = some e)

theorem Inv.le_of_latest (h : Inv stamp init s) {e e' : E} (he : s.Latest stamp e)
    (he' : e' ∈ init :: s.written) : stamp e' ≤ stamp e := by
  rcases List.mem_cons.mp he' with rfl | hmem
  · exact (h.baseline e he.1).le
  · exact he.2 e' hmem

theorem Inv.eq_of_stamp_eq (h : Inv stamp init s) {e e' : E} (he : e ∈ s.written)
    (he' : e' ∈ init :: s.written) (heq : stamp e = stamp e') : e = e' := by
  rcases List.mem_cons.mp he' with rfl | hmem
  · exact absurd heq (h.baseline e he).ne'
  · exact h.distinct e he e' hmem heq

/-! ## The steps -/

section StepLemmas

variable [DecidableEq I]

/-- A later write keeps the invariant. -/
theorem Inv.write (h : Inv stamp init s) {i : I} {e : E}
    (hl : (Step.write i e).Legal stamp init s) : Inv stamp init (s.write i e) := by
  obtain ⟨hbase, hfresh, hforward⟩ := hl
  have hmono : ∀ {e'}, e' ∈ init :: s.written → e' ∈ init :: (s.written ++ [e]) := by
    intro e' he'
    simp only [List.mem_cons, List.mem_append] at he' ⊢
    tauto
  have hnew : s.register ≠ some e := by
    intro hr
    rcases List.mem_cons.mp (h.register e hr) with rfl | hmem
    · exact lt_irrefl _ hbase
    · exact hfresh e hmem rfl
  have hunsettled : (s.write i e).Unsettled :=
    ⟨e, List.mem_append_right _ (List.mem_singleton_self e), hnew⟩
  refine ⟨?_, ?_, ?_, fun r hr => hmono (h.register r hr), ?_,
    fun content hc r hr => hmono (h.held content hc r hr), fun _ _ => Or.inl hunsettled, ?_⟩
  · intro e' he'
    rcases List.mem_append.mp he' with hmem | hmem
    · exact h.baseline e' hmem
    · obtain rfl := List.mem_singleton.mp hmem
      exact hbase
  · intro a ha b hb heq
    rcases List.mem_append.mp ha with ha' | ha' <;> rcases List.mem_append.mp hb with hb' | hb'
    · exact h.distinct a ha' b hb' heq
    · obtain rfl := List.mem_singleton.mp hb'
      exact absurd heq (hfresh a ha')
    · obtain rfl := List.mem_singleton.mp ha'
      exact absurd heq.symm (hfresh b hb')
    · exact (List.mem_singleton.mp ha').trans (List.mem_singleton.mp hb').symm
  · intro j e' he'
    change e' ∈ Function.update s.entry i (some e) j at he'
    rcases eq_or_ne j i with rfl | hji
    · rw [Function.update_self] at he'
      obtain rfl := Option.mem_some_iff.mp he'
      exact List.mem_cons_of_mem _ (List.mem_append_right _ (List.mem_singleton_self _))
    · rw [Function.update_of_ne hji] at he'
      exact hmono (h.entry j e' he')
  · intro e' he'
    rcases List.mem_append.mp he' with hmem | hmem
    · exact hmono (h.pending e' hmem)
    · obtain rfl := List.mem_singleton.mp hmem
      exact List.mem_cons_of_mem _ (List.mem_append_right _ (List.mem_singleton_self _))
  · intro _
    by_cases hlatest : ∀ e' ∈ s.written, stamp e' ≤ stamp e
    · -- the new entry is the latest one
      refine ⟨i, e, Function.update_self .., ⟨List.mem_append_right _ (List.mem_singleton_self e),
        fun e' he' => ?_⟩, fun _ => Or.inl hunsettled⟩
      rcases List.mem_append.mp he' with hmem | hmem
      · exact hlatest e' hmem
      · obtain rfl := List.mem_singleton.mp hmem
        exact le_rfl
    · -- the replica that held the latest entry is another one
      push Not at hlatest
      obtain ⟨e', he', hlt⟩ := hlatest
      obtain ⟨j, m, hm, hmax, -⟩ := h.holder (List.ne_nil_of_mem he')
      have hem : stamp e < stamp m := hlt.trans_le (hmax.2 e' he')
      have hji : j ≠ i := by
        rintro rfl
        exact lt_asymm hem (hforward m hm hmax)
      refine ⟨j, m, ?_, ⟨List.mem_append_left _ hmax.1, fun e'' he'' => ?_⟩,
        fun _ => Or.inl hunsettled⟩
      · change Function.update s.entry i (some e) j = some m
        rw [Function.update_of_ne hji]
        exact hm
      · rcases List.mem_append.mp he'' with hmem | hmem
        · exact hmax.2 e'' hmem
        · obtain rfl := List.mem_singleton.mp hmem
          exact hem.le

omit [DecidableEq I] in
/-- What a replica holds after it has seen a content is as late as both. -/
theorem reconcile_spec (stamp : E → T) (init : E) (content own : Option E) :
    (reconcile stamp init content own).1 ∈ init :: (content.toList ++ own.toList) ∧
      (∀ e ∈ content, stamp e ≤ stamp (reconcile stamp init content own).1) ∧
      (∀ e ∈ own, stamp e ≤ stamp (reconcile stamp init content own).1) ∧
      ∀ e ∈ (reconcile stamp init content own).2, own = some e := by
  cases content with
  | none => cases own <;> simp [reconcile]
  | some e =>
    cases own with
    | none => simp [reconcile]
    | some own =>
      rcases lt_or_ge (stamp own) (stamp e) with hlt | hle
      · simp [reconcile, hlt, hlt.le]
      · simp [reconcile, hle.not_gt, hle]

omit [DecidableEq I] in
/-- It is known if both are. -/
theorem reconcile_mem {init : E} {content own : Option E} {known : List E}
    (hcontent : ∀ e ∈ content, e ∈ init :: known) (hown : ∀ e ∈ own, e ∈ init :: known) :
    (reconcile stamp init content own).1 ∈ init :: known := by
  rcases List.mem_cons.mp (reconcile_spec stamp init content own).1 with heq | hmem
  · rw [heq]
    exact List.mem_cons_self
  · rcases List.mem_append.mp hmem with hmem | hmem
    · exact hcontent _ (Option.mem_toList.mp hmem)
    · exact hown _ (Option.mem_toList.mp hmem)

omit [DecidableEq I] in
/-- A replica that is not behind the content pushes what it holds. -/
theorem reconcile_of_le (init : E) {content : Option E} {own : E}
    (h : ∀ e ∈ content, stamp e ≤ stamp own) :
    reconcile stamp init content (some own) = (own, some own) := by
  cases content with
  | none => rfl
  | some e => exact if_neg (h e rfl).not_gt

variable [DecidableEq E]

/-- A delivery keeps the invariant. -/
theorem Inv.deliver (h : Inv stamp init s) {i : I} {content : Option E}
    (hc : content ∈ s.held) : Inv stamp init (s.deliver stamp init i content) := by
  obtain ⟨-, hcontent, hown, hpush⟩ := reconcile_spec stamp init content (s.entry i)
  have hknown : (reconcile stamp init content (s.entry i)).1 ∈ init :: s.written :=
    reconcile_mem (h.held content hc) (h.entry i)
  have hunsettled : s.Unsettled → (s.deliver stamp init i content).Unsettled :=
    fun ⟨e, he, hne⟩ => ⟨e, List.mem_append_left _ he, hne⟩
  have hself : (s.deliver stamp init i content).entry i =
      some (reconcile stamp init content (s.entry i)).1 := Function.update_self ..
  have hcurrent : (s.deliver stamp init i content).current i =
      (s.current i || content = s.register) := Function.update_self ..
  have hother : ∀ {j}, j ≠ i → (s.deliver stamp init i content).entry j = s.entry j ∧
      (s.deliver stamp init i content).current j = s.current j :=
    fun hji => ⟨Function.update_of_ne hji .., Function.update_of_ne hji ..⟩
  refine ⟨h.baseline, h.distinct, ?_, h.register, ?_, h.held, ?_, ?_⟩
  · intro j e he
    rcases eq_or_ne j i with rfl | hji
    · rw [hself] at he
      obtain rfl := Option.mem_some_iff.mp he
      exact hknown
    · rw [(hother hji).1] at he
      exact h.entry j e he
  · intro e he
    rcases List.mem_append.mp he with hmem | hmem
    · exact h.pending e hmem
    · exact h.entry i e (hpush e (Option.mem_toList.mp hmem))
  · intro j hj
    rcases eq_or_ne j i with rfl | hji
    · rw [hself]
      rw [hcurrent, Bool.or_eq_true, decide_eq_true_iff] at hj
      rcases hj with hj | rfl
      · refine (h.behind j hj).imp hunsettled fun hle r hr => ?_
        obtain ⟨e, he, hre⟩ := hle r hr
        exact ⟨_, rfl, hre.trans (hown e he)⟩
      · exact Or.inr fun r hr => ⟨_, rfl, hcontent r hr⟩
    · rw [(hother hji).1]
      rw [(hother hji).2] at hj
      exact (h.behind j hj).imp_left hunsettled
  · intro hw
    obtain ⟨j, m, hm, hmax, hj⟩ := h.holder hw
    have hle : ∀ e ∈ content, stamp e ≤ stamp m :=
      fun e he => h.le_of_latest hmax (h.held content hc e he)
    rcases eq_or_ne j i with rfl | hji
    · -- the holder keeps the latest entry and pushes it back
      have hkeep := reconcile_of_le init hle
      rw [← Option.mem_def.mp hm] at hkeep
      refine ⟨j, m, hself.trans (by rw [hkeep]), hmax, fun _ => ?_⟩
      by_cases hr : s.register = some m
      · exact Or.inr hr
      · have hpushed : m ∈ (reconcile stamp init content (s.entry j)).2.toList := by
          rw [hkeep]
          exact Option.mem_toList.mpr hm
        exact Or.inl ⟨m, List.mem_append_right _ hpushed, hr⟩
    · refine ⟨j, m, (hother hji).1.trans hm, hmax, ?_⟩
      rw [(hother hji).2]
      exact fun hcur => (hj hcur).imp_left hunsettled

omit [DecidableEq I] in
/-- A push that arrives keeps the invariant. -/
theorem Inv.arrive (h : Inv stamp init s) {k : ℕ} {e : E} (hk : s.pending[k]? = some e) :
    Inv stamp init (s.arrive k e) := by
  have hknown := h.pending e (List.mem_of_getElem? hk)
  -- a push that changed the register still does if the content stays
  have hunsettled : s.register = some e → s.Unsettled → (s.arrive k e).Unsettled := by
    rintro hr ⟨e', he', hne⟩
    obtain ⟨j, hj⟩ := List.mem_iff_getElem?.mp he'
    have hjk : j ≠ k := by
      rintro rfl
      rw [hj] at hk
      exact hne (hr.trans hk.symm)
    have hmem : e' ∈ s.pending.eraseIdx k := List.mem_eraseIdx_iff_getElem?.mpr ⟨j, hjk, hj⟩
    exact ⟨e', hmem, fun heq => hne (hr.trans heq)⟩
  have hcurrent : ∀ {i}, (s.arrive k e).current i = true →
      s.current i = true ∧ s.register = some e := by
    intro i hi
    exact ⟨(Bool.and_eq_true_iff.mp hi).1, decide_eq_true_iff.mp (Bool.and_eq_true_iff.mp hi).2⟩
  refine ⟨h.baseline, h.distinct, h.entry, ?_, fun e' he' => ?_, ?_, fun i hi => ?_, fun hw => ?_⟩
  · intro r hr
    obtain rfl := Option.mem_some_iff.mp hr
    exact hknown
  · exact h.pending e' (List.mem_of_mem_eraseIdx he')
  · intro content hc r hr
    rcases List.mem_append.mp hc with hmem | hmem
    · exact h.held content hmem r hr
    · obtain rfl := List.mem_singleton.mp hmem
      obtain rfl := Option.mem_some_iff.mp hr
      exact hknown
  · obtain ⟨hcur, hr⟩ := hcurrent hi
    refine (h.behind i hcur).imp (hunsettled hr) fun hle r hr' => hle r ?_
    exact hr.trans hr'
  · obtain ⟨i, m, hm, hmax, hi⟩ := h.holder hw
    refine ⟨i, m, hm, hmax, fun hcur => ?_⟩
    obtain ⟨hcur, hr⟩ := hcurrent hcur
    exact (hi hcur).imp (hunsettled hr) fun heq => hr.symm.trans heq

/-- Every step keeps the invariant. -/
theorem Inv.step (h : Inv stamp init s) {l : Step I E} (hl : l.Legal stamp init s)
    (hs : step stamp init l s = some s') : Inv stamp init s' := by
  cases l with
  | write i e =>
    obtain rfl := Option.some_inj.mp hs
    exact h.write hl
  | deliver i k =>
    obtain ⟨content, hc, rfl⟩ := Option.map_eq_some_iff.mp hs
    exact h.deliver (List.mem_of_getElem? hc)
  | arrive k =>
    obtain ⟨e, he, rfl⟩ := Option.map_eq_some_iff.mp hs
    exact h.arrive he

end StepLemmas

/-- Once all is delivered the register and every replica hold the latest entry. -/
theorem Inv.converged (h : Inv stamp init s) (hp : s.pending = []) (hc : ∀ i, s.current i = true)
    (hw : s.written ≠ []) :
    ∃ e, s.Latest stamp e ∧ s.register = some e ∧ ∀ i, s.entry i = some e := by
  have hsettled : ¬s.Unsettled := fun ⟨e, he, _⟩ => by simp [hp] at he
  obtain ⟨j, m, hm, hmax, hj⟩ := h.holder hw
  have hr : s.register = some m := (hj (hc j)).resolve_left hsettled
  refine ⟨m, hmax, hr, fun i => ?_⟩
  obtain ⟨e, he, hle⟩ := (h.behind i (hc i)).resolve_left hsettled m hr
  have heq := le_antisymm hle (h.le_of_latest hmax (h.entry i e he))
  obtain rfl := h.eq_of_stamp_eq hmax.1 (h.entry i e he) heq
  exact he

/-! ## Entries that grow -/

/-- A later entry has all that an earlier one has. -/
structure Growing [LE E] (stamp : E → T) (init : E) (s : State I E) : Prop where
  baseline : ∀ e ∈ s.written, stamp init ≤ stamp e
  ordered : ∀ e ∈ init :: s.written, ∀ e' ∈ init :: s.written, stamp e ≤ stamp e' → e ≤ e'
  entry : ∀ i, ∀ e ∈ s.entry i, e ∈ init :: s.written
  register : ∀ e ∈ s.register, e ∈ init :: s.written
  pending : ∀ e ∈ s.pending, e ∈ init :: s.written
  held : ∀ content ∈ s.held, ∀ e ∈ content, e ∈ init :: s.written

/-- A write extends the initial entry, that of its replica and all that were written, at a later
stamp. What arrives is not earlier than what it replaces. -/
def Step.Extends [LE E] (stamp : E → T) (init : E) : Step I E → State I E → Prop
  | write i e, s => (s.entry i).getD init ≤ e ∧
      ∀ e' ∈ init :: s.written, stamp e' < stamp e ∧ e' ≤ e
  | arrive k, s => ∀ e ∈ s.pending[k]?, ∀ r ∈ s.register, stamp r ≤ stamp e
  | deliver _ _, _ => True

section GrowingLemmas

variable [Preorder E]

theorem Growing.le_of_mem (h : Growing stamp init s) {e : E} (he : e ∈ init :: s.written) :
    stamp init ≤ stamp e := by
  rcases List.mem_cons.mp he with rfl | hmem
  · exact le_rfl
  · exact h.baseline e hmem

theorem Growing.init_le (h : Growing stamp init s) (i : I) : init ≤ (s.entry i).getD init := by
  cases hentry : s.entry i with
  | none => exact le_rfl
  | some own =>
    have hknown := h.entry i own hentry
    exact h.ordered init List.mem_cons_self own hknown (h.le_of_mem hknown)

/-- What a replica holds after it has seen a content was written, and has all it had. -/
theorem Growing.reconcile (h : Growing stamp init s) (i : I) {content : Option E}
    (hc : content ∈ s.held) :
    (reconcile stamp init content (s.entry i)).1 ∈ init :: s.written ∧
      (s.entry i).getD init ≤ (LastWriteWins.reconcile stamp init content (s.entry i)).1 := by
  obtain ⟨-, -, hown, -⟩ := reconcile_spec stamp init content (s.entry i)
  have hknown : (LastWriteWins.reconcile stamp init content (s.entry i)).1 ∈ init :: s.written :=
    reconcile_mem (h.held content hc) (h.entry i)
  refine ⟨hknown, ?_⟩
  cases hentry : s.entry i with
  | none =>
    rw [hentry] at hknown
    exact h.ordered init List.mem_cons_self _ hknown (h.le_of_mem hknown)
  | some own =>
    rw [hentry] at hknown hown
    exact h.ordered own (h.entry i own hentry) _ hknown (hown own rfl)

variable [DecidableEq I]

/-- A write that extends the latest entry keeps the entries growing. -/
theorem Growing.write (h : Growing stamp init s) {i : I} {e : E}
    (hl : (Step.write i e).Extends stamp init s) : Growing stamp init (s.write i e) := by
  obtain ⟨-, hextends⟩ := hl
  have hmono : ∀ {e'}, e' ∈ init :: s.written → e' ∈ init :: (s.written ++ [e]) := by
    intro e' he'
    rcases List.mem_cons.mp he' with rfl | hmem
    · exact List.mem_cons_self
    · exact List.mem_cons_of_mem _ (List.mem_append_left _ hmem)
  have hnew : ∀ {e'}, e' ∈ init :: (s.written ++ [e]) → e' ∈ init :: s.written ∨ e' = e := by
    intro e' he'
    rcases List.mem_cons.mp he' with rfl | hmem
    · exact Or.inl List.mem_cons_self
    · exact (List.mem_append.mp hmem).imp (List.mem_cons_of_mem _) List.mem_singleton.mp
  refine ⟨fun e' he' => ?_, fun e₁ h₁ e₂ h₂ hle => ?_, fun j e' he' => ?_,
    fun e' he' => hmono (h.register e' he'), fun e' he' => ?_,
    fun content hc e' he' => hmono (h.held content hc e' he')⟩
  · rcases List.mem_append.mp he' with hmem | hmem
    · exact h.baseline e' hmem
    · obtain rfl := List.mem_singleton.mp hmem
      exact (hextends init List.mem_cons_self).1.le
  · rcases hnew h₁ with hold₁ | rfl
    · rcases hnew h₂ with hold₂ | rfl
      · exact h.ordered e₁ hold₁ e₂ hold₂ hle
      · exact (hextends e₁ hold₁).2
    · rcases hnew h₂ with hold₂ | rfl
      · exact absurd (hextends e₂ hold₂).1 hle.not_gt
      · exact le_rfl
  · rcases eq_or_ne j i with rfl | hji
    · have hself : (s.write j e).entry j = some e := Function.update_self ..
      obtain rfl := Option.some_inj.mp (hself.symm.trans he')
      exact List.mem_cons_of_mem _ (List.mem_append_right _ List.mem_cons_self)
    · have hother : (s.write i e).entry j = s.entry j := Function.update_of_ne hji ..
      exact hmono (h.entry j e' (hother.symm.trans he'))
  · rcases List.mem_append.mp he' with hmem | hmem
    · exact hmono (h.pending e' hmem)
    · exact List.mem_cons_of_mem _ (List.mem_append_right _ hmem)

variable [DecidableEq E]

/-- A delivery keeps the entries growing. -/
theorem Growing.deliver (h : Growing stamp init s) {i : I} {content : Option E}
    (hc : content ∈ s.held) : Growing stamp init (s.deliver stamp init i content) := by
  obtain ⟨hknown, -⟩ := h.reconcile i hc
  obtain ⟨-, -, -, hpush⟩ := reconcile_spec stamp init content (s.entry i)
  refine ⟨h.baseline, h.ordered, fun j e he => ?_, h.register, fun e he => ?_, h.held⟩
  · rcases eq_or_ne j i with rfl | hji
    · have hself : (s.deliver stamp init j content).entry j =
        some (LastWriteWins.reconcile stamp init content (s.entry j)).1 := Function.update_self ..
      obtain rfl := Option.some_inj.mp (hself.symm.trans he)
      exact hknown
    · have hother : (s.deliver stamp init i content).entry j = s.entry j :=
        Function.update_of_ne hji ..
      exact h.entry j e (hother.symm.trans he)
  · rcases List.mem_append.mp he with hmem | hmem
    · exact h.pending e hmem
    · exact h.entry i e (hpush e (Option.mem_toList.mp hmem))

omit [DecidableEq I] in
/-- A push that arrives keeps the entries growing. -/
theorem Growing.arrive (h : Growing stamp init s) {k : ℕ} {e : E} (hk : s.pending[k]? = some e) :
    Growing stamp init (s.arrive k e) := by
  have hknown := h.pending e (List.mem_of_getElem? hk)
  refine ⟨h.baseline, h.ordered, h.entry, fun r hr => ?_,
    fun e' he' => h.pending e' (List.mem_of_mem_eraseIdx he'), fun content hc r hr => ?_⟩
  · obtain rfl := Option.mem_some_iff.mp hr
    exact hknown
  · rcases List.mem_append.mp hc with hmem | hmem
    · exact h.held content hmem r hr
    · obtain rfl := List.mem_singleton.mp hmem
      obtain rfl := Option.mem_some_iff.mp hr
      exact hknown

/-- Every step keeps the entries growing. -/
theorem Growing.step (h : Growing stamp init s) {l : Step I E} (hl : l.Extends stamp init s)
    (hs : step stamp init l s = some s') : Growing stamp init s' := by
  cases l with
  | write i e =>
    obtain rfl := Option.some_inj.mp hs
    exact h.write hl
  | deliver i k =>
    obtain ⟨content, hc, rfl⟩ := Option.map_eq_some_iff.mp hs
    exact h.deliver (List.mem_of_getElem? hc)
  | arrive k =>
    obtain ⟨e, he, rfl⟩ := Option.map_eq_some_iff.mp hs
    exact h.arrive he

/-- No replica loses anything, and neither does the register. -/
theorem Growing.le_step (h : Growing stamp init s) {l : Step I E} (hl : l.Extends stamp init s)
    (hs : LastWriteWins.step stamp init l s = some s') :
    (∀ i, (s.entry i).getD init ≤ (s'.entry i).getD init) ∧
      ∀ r ∈ s.register, ∃ r' ∈ s'.register, r ≤ r' := by
  cases l with
  | write i e =>
    obtain rfl := Option.some_inj.mp hs
    refine ⟨fun j => ?_, fun r hr => ⟨r, hr, le_rfl⟩⟩
    rcases eq_or_ne j i with rfl | hji
    · simpa [State.write] using hl.1
    · simp [State.write, hji]
  | deliver i k =>
    obtain ⟨content, hc, rfl⟩ := Option.map_eq_some_iff.mp hs
    refine ⟨fun j => ?_, fun r hr => ⟨r, hr, le_rfl⟩⟩
    rcases eq_or_ne j i with rfl | hji
    · simpa [State.deliver] using (h.reconcile j (List.mem_of_getElem? hc)).2
    · simp [State.deliver, hji]
  | arrive k =>
    obtain ⟨e, he, rfl⟩ := Option.map_eq_some_iff.mp hs
    refine ⟨fun j => le_rfl, fun r hr => ⟨e, rfl, ?_⟩⟩
    exact h.ordered r (h.register r hr) e (h.pending e (List.mem_of_getElem? he)) (hl e he r hr)

end GrowingLemmas

end LastWriteWins
