import Mathlib.Data.Set.Insert
import Mathlib.Logic.Function.Basic
import Mathlib.Tactic.SplitIfs

/-!
# One-level forests with completion

A forest is a partial map from keys to nodes. A node may name a parent, is complete or
not, and may be marked as reopened. `OneLevel` says that every parent link names a
root of the forest, `NoNesting` only that it does not name a child (the parent may be
missing).

A root with children is consistent (`ConsistentAt`) if it is complete or reopened once
all its children are complete, and neither while one is not. `reconcile` re-establishes
this at one root : it is consistent after it (`consistentAt_reconcile`), and it disturbs
no other node (`consistentAt_reconcile_of_ne`). An update of one node can only disturb
the node itself and its parents before and after (`ConsistentExcept.update`).

The operations `put`, `drop`, `reparent`, `complete` and `reopen` update one node and
reconcile its parents. Each comes with what it does to the links and with the condition
under which it keeps the forest one level deep and consistent.
-/

set_option linter.unusedSectionVars false

namespace Forest

/-- A node : its parent if it has one, whether it is complete, and whether it was
reopened by hand. -/
structure Node (K : Type*) where
  parent : Option K
  complete : Bool
  reopened : Bool
  deriving DecidableEq

/-- A partial map from keys to nodes. -/
abbrev State (K : Type*) := K → Option (Node K)

variable {K : Type*} [DecidableEq K]

/-- The node is there and has no parent. -/
def IsRoot (f : State K) (k : K) : Prop :=
  ∃ n, f k = some n ∧ n.parent = none

/-- The node is there under the parent `p`. -/
def IsChild (f : State K) (c p : K) : Prop :=
  ∃ n, f c = some n ∧ n.parent = some p

/-- There is a node under `p`. -/
def HasChild (f : State K) (p : K) : Prop :=
  ∃ c, IsChild f c p

/-- Every parent link names a root. -/
def OneLevel (f : State K) : Prop :=
  ∀ c p, IsChild f c p → IsRoot f p

/-- No parent link names a child. -/
def NoNesting (f : State K) : Prop :=
  ∀ c p n, IsChild f c p → f p = some n → n.parent = none

/-- No node is its own parent. -/
def NoLoop (f : State K) : Prop :=
  ∀ k, ¬IsChild f k k

theorem NoNesting.noLoop {f : State K} (h : NoNesting f) : NoLoop f := by
  rintro k ⟨n, hn, hp⟩
  rw [h k k n ⟨n, hn, hp⟩ hn] at hp
  cases hp

theorem OneLevel.noNesting {f : State K} (h : OneLevel f) : NoNesting f := by
  intro c p n hc hn
  obtain ⟨m, hm, hroot⟩ := h c p hc
  obtain rfl : m = n := by rw [hm] at hn; exact Option.some_inj.mp hn
  exact hroot

/-- A child has no children. -/
theorem NoNesting.not_hasChild {f : State K} (h : NoNesting f) {k p : K} (hk : IsChild f k p) :
    ¬HasChild f k := by
  rintro ⟨c, hc⟩
  obtain ⟨n, hn, hp⟩ := hk
  rw [h c k n hc hn] at hp
  cases hp

/-! ## Links -/

/-- The parent links of two forests agree. -/
def SameLinks (f g : State K) : Prop :=
  ∀ k, (f k).map Node.parent = (g k).map Node.parent

theorem SameLinks.symm {f g : State K} (h : SameLinks f g) : SameLinks g f :=
  fun k => (h k).symm

theorem SameLinks.trans {f g e : State K} (h : SameLinks f g) (h' : SameLinks g e) :
    SameLinks f e :=
  fun k => (h k).trans (h' k)

theorem SameLinks.exists {f g : State K} (h : SameLinks f g) {k : K} {n : Node K}
    (hn : f k = some n) : ∃ m, g k = some m ∧ m.parent = n.parent := by
  have hk := h k
  rw [hn, Option.map_some] at hk
  obtain ⟨m, hm, hp⟩ := Option.map_eq_some_iff.mp hk.symm
  exact ⟨m, hm, hp⟩

theorem SameLinks.isChild_iff {f g : State K} (h : SameLinks f g) {c p : K} :
    IsChild f c p ↔ IsChild g c p := by
  refine ⟨?_, ?_⟩
  · rintro ⟨n, hn, hp⟩
    obtain ⟨m, hm, hmp⟩ := h.exists hn
    exact ⟨m, hm, hmp.trans hp⟩
  · rintro ⟨n, hn, hp⟩
    obtain ⟨m, hm, hmp⟩ := h.symm.exists hn
    exact ⟨m, hm, hmp.trans hp⟩

theorem SameLinks.oneLevel {f g : State K} (h : SameLinks f g) (hf : OneLevel f) : OneLevel g := by
  intro c p hc
  obtain ⟨n, hn, hp⟩ := hf c p (h.isChild_iff.mpr hc)
  obtain ⟨m, hm, hmp⟩ := h.exists hn
  exact ⟨m, hm, hmp.trans hp⟩

theorem SameLinks.noNesting {f g : State K} (h : SameLinks f g) (hf : NoNesting f) :
    NoNesting g := by
  intro c p n hc hn
  obtain ⟨m, hm, hmp⟩ := h.symm.exists hn
  exact hmp.symm.trans (hf c p m (h.isChild_iff.mpr hc) hm)

/-! ## Updating one node -/

/-- A child after an update of `k` is the new node at `k`, or was a child before. -/
theorem isChild_update {f : State K} {k : K} {v : Option (Node K)} {c p : K} :
    IsChild (Function.update f k v) c p ↔
      (c = k ∧ ∃ n, v = some n ∧ n.parent = some p) ∨ (c ≠ k ∧ IsChild f c p) := by
  unfold IsChild
  by_cases hc : c = k
  · subst hc
    simp
  · simp [hc]

/-- An update keeps a forest one level deep if the new node's parent is a root other
than itself, and if a node with children stays a root. -/
theorem OneLevel.update {f : State K} (h : OneLevel f) {k : K} {v : Option (Node K)}
    (hparent : ∀ n p, v = some n → n.parent = some p → p ≠ k ∧ IsRoot f p)
    (hchild : HasChild f k → ∃ n, v = some n ∧ n.parent = none) :
    OneLevel (Function.update f k v) := by
  intro c p hc
  rcases isChild_update.mp hc with ⟨-, n, hn, hp⟩ | ⟨-, hc'⟩
  · obtain ⟨hpk, m, hm, hroot⟩ := hparent n p hn hp
    exact ⟨m, by rw [Function.update_of_ne hpk, hm], hroot⟩
  · by_cases hpk : p = k
    · subst hpk
      obtain ⟨n, hn, hroot⟩ := hchild ⟨c, hc'⟩
      exact ⟨n, by rw [Function.update_self, hn], hroot⟩
    · obtain ⟨m, hm, hroot⟩ := h c p hc'
      exact ⟨m, by rw [Function.update_of_ne hpk, hm], hroot⟩

/-- The same for `NoNesting`, where the new node's parent may be missing. -/
theorem NoNesting.update {f : State K} (h : NoNesting f) {k : K} {v : Option (Node K)}
    (hparent : ∀ n p, v = some n → n.parent = some p →
      p ≠ k ∧ ∀ m, f p = some m → m.parent = none)
    (hchild : HasChild f k → ∀ n, v = some n → n.parent = none) :
    NoNesting (Function.update f k v) := by
  intro c p m hc hm
  rcases isChild_update.mp hc with ⟨-, n, hn, hp⟩ | ⟨-, hc'⟩
  · obtain ⟨hpk, hroot⟩ := hparent n p hn hp
    rw [Function.update_of_ne hpk] at hm
    exact hroot m hm
  · by_cases hpk : p = k
    · subst hpk
      rw [Function.update_self] at hm
      exact hchild ⟨c, hc'⟩ m hm
    · rw [Function.update_of_ne hpk] at hm
      exact h c p m hc' hm

/-! ## Completion of a root -/

/-- Every child of `p` is complete. -/
def AllComplete (f : State K) (p : K) : Prop :=
  ∀ c n, f c = some n → n.parent = some p → n.complete = true

/-- If `p` is a root with children : with all of them complete it is complete or
reopened, and while one is not it is neither. -/
def ConsistentAt (f : State K) (p : K) : Prop :=
  ∀ n, f p = some n → n.parent = none → HasChild f p →
    (AllComplete f p → n.complete = true ∨ n.reopened = true) ∧
      (¬AllComplete f p → n.complete = false ∧ n.reopened = false)

/-- A root written at `k` is no child of `k`, so the children of `k` were there before. -/
theorem HasChild.of_update {f : State K} {k : K} {n : Node K} (hroot : n.parent = none)
    (h : HasChild (Function.update f k (some n)) k) : HasChild f k := by
  obtain ⟨c, hc⟩ := h
  rcases isChild_update.mp hc with ⟨-, m, hm, hp⟩ | ⟨-, hc⟩
  · obtain rfl := Option.some_inj.mp hm
    rw [hroot] at hp
    cases hp
  · exact ⟨c, hc⟩

theorem AllComplete.update {f : State K} {k : K} {n : Node K} (hroot : n.parent = none)
    (h : AllComplete f k) : AllComplete (Function.update f k (some n)) k := by
  intro c m hm hp
  rcases eq_or_ne c k with rfl | hc
  · rw [Function.update_self, Option.some_inj] at hm
    rw [← hm, hroot] at hp
    cases hp
  · rw [Function.update_of_ne hc] at hm
    exact h c m hm hp

theorem AllComplete.of_update {f : State K} {k : K} {v : Option (Node K)} (hk : f k = none)
    (h : AllComplete (Function.update f k v) k) : AllComplete f k := by
  intro c m hm hp
  rcases eq_or_ne c k with rfl | hc
  · rw [hk] at hm
    cases hm
  · exact h c m (by rw [Function.update_of_ne hc, hm]) hp

/-- Consistent at every node. -/
def Consistent (f : State K) : Prop :=
  ∀ p, ConsistentAt f p

/-- Consistent at every node outside `S`. -/
def ConsistentExcept (S : Set K) (f : State K) : Prop :=
  ∀ p, p ∉ S → ConsistentAt f p

theorem consistentExcept_empty {f : State K} : ConsistentExcept ∅ f ↔ Consistent f := by
  simp [ConsistentExcept, Consistent]

/-- `ConsistentAt f p` reads the node at `p` and the children of `p` only. -/
theorem ConsistentAt.congr {f g : State K} {p : K} (hp : g p = f p)
    (hc : ∀ c n, n.parent = some p → (g c = some n ↔ f c = some n)) (h : ConsistentAt f p) :
    ConsistentAt g p := by
  have hchild : HasChild g p → HasChild f p := by
    rintro ⟨c, n, hn, hnp⟩
    exact ⟨c, n, (hc c n hnp).mp hn, hnp⟩
  have hall : AllComplete g p ↔ AllComplete f p :=
    ⟨fun ha c n hn hnp => ha c n ((hc c n hnp).mpr hn) hnp,
      fun ha c n hn hnp => ha c n ((hc c n hnp).mp hn) hnp⟩
  intro n hn hroot hg
  rw [hall]
  exact h n (hp ▸ hn) hroot (hchild hg)

/-- An update disturbs the node itself and its parents before and after, no others. -/
theorem ConsistentExcept.update {S : Set K} {f : State K} (h : ConsistentExcept S f) {k : K}
    {v : Option (Node K)} (hold : ∀ n p, f k = some n → n.parent = some p → p ∈ S)
    (hnew : ∀ n p, v = some n → n.parent = some p → p ∈ S)
    (hself : k ∉ S → ConsistentAt (Function.update f k v) k) :
    ConsistentExcept S (Function.update f k v) := by
  intro q hq
  by_cases hqk : q = k
  · subst hqk
    exact hself hq
  · refine (h q hq).congr (Function.update_of_ne hqk _ _) fun c n hnq => ?_
    by_cases hck : c = k
    · subst hck
      rw [Function.update_self]
      exact ⟨fun hv => absurd (hnew n q hv hnq) hq, fun hf => absurd (hold n q hf hnq) hq⟩
    · rw [Function.update_of_ne hck]

/-! ## Reconciling a root with its children -/

/-- The root `n` reconciled : without children the reopened mark is dropped. With all
children complete it is completed unless reopened, and otherwise it is opened. -/
def Node.settled (n : Node K) (reset hasChild allComplete : Bool) : Node K :=
  let reopened := n.reopened && !reset
  match hasChild, allComplete with
  | false, _ => { n with reopened := false }
  | true, true => { n with complete := n.complete || !reopened, reopened := reopened }
  | true, false => { n with complete := false, reopened := false }

@[simp] theorem Node.settled_parent (n : Node K) (r h a : Bool) :
    (n.settled r h a).parent = n.parent := by
  cases h <;> cases a <;> rfl

open Classical in
/-- Reconcile the root `p`, dropping its reopened mark first if `reset`. -/
noncomputable def reconcile (f : State K) (p : K) (reset : Bool) : State K :=
  match f p with
  | some n =>
    if n.parent = none then
      Function.update f p (some (n.settled reset (HasChild f p) (AllComplete f p)))
    else f
  | none => f

open Classical in
theorem reconcile_of_root {f : State K} {p : K} {n : Node K} (hn : f p = some n)
    (hp : n.parent = none) (r : Bool) : reconcile f p r =
      Function.update f p (some (n.settled r (HasChild f p) (AllComplete f p))) := by
  unfold reconcile
  simp only [hn]
  rw [if_pos hp]

theorem reconcile_of_not_root {f : State K} {p : K} (h : ¬IsRoot f p) (r : Bool) :
    reconcile f p r = f := by
  unfold reconcile
  cases hn : f p with
  | none => rfl
  | some n => exact if_neg fun hp => h ⟨n, hn, hp⟩

theorem reconcile_of_ne {f : State K} {p k : K} (hk : k ≠ p) (r : Bool) :
    reconcile f p r k = f k := by
  by_cases h : IsRoot f p
  · obtain ⟨n, hn, hp⟩ := h
    rw [reconcile_of_root hn hp, Function.update_of_ne hk]
  · rw [reconcile_of_not_root h]

theorem sameLinks_reconcile (f : State K) (p : K) (r : Bool) : SameLinks (reconcile f p r) f := by
  intro k
  by_cases h : IsRoot f p
  · obtain ⟨n, hn, hp⟩ := h
    rw [reconcile_of_root hn hp]
    by_cases hk : k = p
    · subst hk
      simp [hn]
    · rw [Function.update_of_ne hk]
  · rw [reconcile_of_not_root h]

/-- Children of any node are the same nodes before and after. -/
theorem reconcile_child_iff {f : State K} {p q c : K} {n : Node K} (r : Bool)
    (hn : n.parent = some q) : reconcile f p r c = some n ↔ f c = some n := by
  by_cases hc : c = p
  · subst hc
    by_cases h : IsRoot f c
    · obtain ⟨m, hm, hp⟩ := h
      rw [reconcile_of_root hm hp, Function.update_self, hm]
      constructor
      · intro hs
        have := congrArg Node.parent (Option.some_inj.mp hs)
        simp [hp, hn] at this
      · intro hs
        obtain rfl := Option.some_inj.mp hs
        rw [hp] at hn
        cases hn
    · rw [reconcile_of_not_root h]
  · rw [reconcile_of_ne hc]

theorem consistentAt_reconcile_of_ne {f : State K} {p q : K} (hq : q ≠ p) (r : Bool)
    (h : ConsistentAt f q) : ConsistentAt (reconcile f p r) q :=
  h.congr (reconcile_of_ne hq r) fun _ _ hn => reconcile_child_iff r hn

/-- Whatever was wrong at `p`, it is consistent after a reconcile. -/
theorem consistentAt_reconcile (f : State K) (p : K) (r : Bool) :
    ConsistentAt (reconcile f p r) p := by
  classical
  have hall : AllComplete (reconcile f p r) p ↔ AllComplete f p :=
    ⟨fun ha c n hn hp => ha c n ((reconcile_child_iff r hp).mpr hn) hp,
      fun ha c n hn hp => ha c n ((reconcile_child_iff r hp).mp hn) hp⟩
  intro m hm hroot hchild
  have hc : HasChild f p := by
    obtain ⟨c, hc⟩ := hchild
    exact ⟨c, (sameLinks_reconcile f p r).isChild_iff.mp hc⟩
  obtain ⟨n, hn, hnm⟩ := (sameLinks_reconcile f p r).exists hm
  have hnp : n.parent = none := hnm.trans hroot
  rw [reconcile_of_root hn hnp, Function.update_self, Option.some_inj] at hm
  rw [hall, ← hm]
  constructor
  · intro ha
    simp only [Node.settled, hc, ha, decide_true]
    generalize (n.reopened && !r) = reopened
    cases reopened <;> simp
  · intro ha
    simp [Node.settled, hc, ha]

/-- A reconcile that resets leaves no reopened mark. -/
theorem reopened_of_reconcile {f : State K} {p : K} {n : Node K}
    (hn : reconcile f p true p = some n) (hroot : n.parent = none) : n.reopened = false := by
  classical
  obtain ⟨m, hm, hmn⟩ := (sameLinks_reconcile f p true).exists hn
  rw [reconcile_of_root hm (hmn.trans hroot), Function.update_self, Option.some_inj] at hn
  rw [← hn]
  generalize decide (HasChild f p) = h
  generalize decide (AllComplete f p) = a
  cases h <;> cases a <;> simp [Node.settled]

/-- Reconcile the node named, if one is. -/
noncomputable def reconcileAt (f : State K) (p : Option K) (reset : Bool) : State K :=
  match p with
  | some p => reconcile f p reset
  | none => f

theorem sameLinks_reconcileAt (f : State K) (p : Option K) (r : Bool) :
    SameLinks (reconcileAt f p r) f := by
  cases p with
  | none => exact fun _ => rfl
  | some p => exact sameLinks_reconcile f p r

/-- A reconcile at `p` repairs `p`. -/
theorem ConsistentExcept.reconcile {S : Set K} {f : State K} {p : K}
    (h : ConsistentExcept (insert p S) f) (r : Bool) : ConsistentExcept S (reconcile f p r) := by
  intro q hq
  by_cases hqp : q = p
  · subst hqp
    exact consistentAt_reconcile f q r
  · exact consistentAt_reconcile_of_ne hqp r (h q (by simp [hqp, hq]))

theorem ConsistentExcept.reconcileAt {S : Set K} {f : State K} {p : Option K}
    (h : ConsistentExcept ({q | p = some q} ∪ S) f) (r : Bool) :
    ConsistentExcept S (reconcileAt f p r) := by
  cases p with
  | none => exact fun q hq => h q (by simpa using hq)
  | some p =>
    refine ConsistentExcept.reconcile (fun q hq => h q ?_) r
    simpa [eq_comm] using hq

/-! ## Operations -/

/-- The parent of `k`, if `k` is a child. -/
def parentOf (f : State K) (k : K) : Option K :=
  (f k).bind Node.parent

/-- Write the node `k` and reconcile its parent. -/
noncomputable def put (f : State K) (k : K) (n : Node K) (reset : Bool) : State K :=
  reconcileAt (Function.update f k (some n)) n.parent reset

/-- Remove the node `k` and reconcile its parent. -/
noncomputable def drop (f : State K) (k : K) : State K :=
  reconcileAt (Function.update f k none) (parentOf f k) true

/-- The node under another parent. A child has no reopened mark. -/
def Node.under (n : Node K) (p : Option K) : Node K :=
  { n with parent := p, reopened := n.reopened && p.isNone }

theorem Node.under_none {n : Node K} (h : n.parent = none) : n.under none = n := by
  cases n
  simp_all [Node.under]

/-- Move the node `k` under `p`, and reconcile its parents before and after. -/
noncomputable def reparent (f : State K) (k : K) (p : Option K) : State K :=
  match f k with
  | some n =>
    reconcileAt (reconcileAt (Function.update f k (some (n.under p))) n.parent true) p true
  | none => f

/-- The node is completed by hand. -/
noncomputable def complete (f : State K) (k : K) : State K :=
  match f k with
  | some n => put f k { n with complete := true, reopened := false } false
  | none => f

open Classical in
/-- Open the node `k` by hand. With children it is marked as reopened. -/
noncomputable def reopen (f : State K) (k : K) : State K :=
  match f k with
  | some n => put f k { n with complete := false, reopened := n.reopened || HasChild f k } true
  | none => f

theorem parentOf_eq_some_iff {f : State K} {k p : K} : parentOf f k = some p ↔ IsChild f k p :=
  Option.bind_eq_some_iff

/-! ### Links -/

theorem sameLinks_update {f : State K} {k : K} {n n' : Node K} (hn : f k = some n)
    (hp : n'.parent = n.parent) : SameLinks (Function.update f k (some n')) f := by
  intro j
  rcases eq_or_ne j k with rfl | hj
  · rw [Function.update_self, hn, Option.map_some, Option.map_some, hp]
  · rw [Function.update_of_ne hj]

theorem sameLinks_put {f : State K} {k : K} {n n' : Node K} (hn : f k = some n)
    (hp : n'.parent = n.parent) (r : Bool) : SameLinks (put f k n' r) f :=
  (sameLinks_reconcileAt _ _ r).trans (sameLinks_update hn hp)

theorem sameLinks_complete (f : State K) (k : K) : SameLinks (complete f k) f := by
  unfold complete
  split
  · rename_i n hn
    refine sameLinks_put hn ?_ false
    rfl
  · exact fun _ => rfl

theorem sameLinks_reopen (f : State K) (k : K) : SameLinks (reopen f k) f := by
  unfold reopen
  split
  · rename_i n hn
    refine sameLinks_put hn ?_ true
    rfl
  · exact fun _ => rfl

theorem isChild_drop {f : State K} {k c p : K} :
    IsChild (drop f k) c p ↔ c ≠ k ∧ IsChild f c p := by
  rw [drop, (sameLinks_reconcileAt _ _ _).isChild_iff, isChild_update]
  simp

/-- Dropping a node makes no node a parent. -/
theorem HasChild.of_drop {f : State K} {k p : K} (h : HasChild (drop f k) p) : HasChild f p := by
  obtain ⟨c, hc⟩ := h
  exact ⟨c, (isChild_drop.mp hc).2⟩

theorem isChild_reparent {f : State K} {k : K} {n : Node K} (hn : f k = some n) {q : Option K}
    {c p : K} : IsChild (reparent f k q) c p ↔ (c = k ∧ q = some p) ∨ (c ≠ k ∧ IsChild f c p) := by
  unfold reparent
  simp only [hn]
  rw [(sameLinks_reconcileAt _ _ _).isChild_iff, (sameLinks_reconcileAt _ _ _).isChild_iff,
    isChild_update]
  simp [Node.under]

theorem SameLinks.noLoop {f g : State K} (h : SameLinks f g) (hf : NoLoop f) : NoLoop g :=
  fun k hk => hf k (h.isChild_iff.mpr hk)

theorem NoLoop.put {f : State K} (h : NoLoop f) {k : K} {n : Node K}
    (hparent : n.parent ≠ some k) (r : Bool) : NoLoop (put f k n r) := by
  intro c hc
  rcases isChild_update.mp ((sameLinks_reconcileAt _ _ r).isChild_iff.mp hc) with
    ⟨rfl, m, hm, hp⟩ | ⟨-, hc⟩
  · obtain rfl := Option.some_inj.mp hm
    exact hparent hp
  · exact h c hc

theorem NoLoop.drop {f : State K} (h : NoLoop f) (k : K) : NoLoop (drop f k) :=
  fun c hc => h c (isChild_drop.mp hc).2

/-- A new parent closes no loop. -/
theorem NoLoop.reparent {f : State K} (h : NoLoop f) {k : K} {q : Option K} (hq : q ≠ some k) :
    NoLoop (reparent f k q) := by
  intro c hc
  cases hn : f k with
  | none =>
    unfold Forest.reparent at hc
    simp only [hn] at hc
    exact h c hc
  | some n =>
    rcases (isChild_reparent hn).mp hc with ⟨rfl, hq'⟩ | ⟨-, hc⟩
    · exact hq hq'
    · exact h c hc

/-! ### One level -/

theorem OneLevel.put {f : State K} (h : OneLevel f) {k : K} {n : Node K}
    (hparent : ∀ p, n.parent = some p → p ≠ k ∧ IsRoot f p)
    (hchild : HasChild f k → n.parent = none) (r : Bool) : OneLevel (put f k n r) := by
  refine (sameLinks_reconcileAt _ _ r).symm.oneLevel (h.update ?_ ?_)
  · rintro m p hm hp
    obtain rfl := Option.some_inj.mp hm
    exact hparent p hp
  · exact fun hc => ⟨n, rfl, hchild hc⟩

/-- A node under a root that has no parent itself makes no nesting. -/
theorem NoNesting.put {f : State K} (h : NoNesting f) {k : K} {n : Node K}
    (hparent : ∀ p, n.parent = some p → p ≠ k ∧ IsRoot f p)
    (hchild : HasChild f k → n.parent = none) (r : Bool) : NoNesting (put f k n r) := by
  refine (sameLinks_reconcileAt _ _ r).symm.noNesting (h.update ?_ ?_)
  · rintro m p hm hp
    obtain rfl := Option.some_inj.mp hm
    obtain ⟨hpk, a, ha, hroot⟩ := hparent p hp
    refine ⟨hpk, fun b hb => ?_⟩
    obtain rfl : a = b := by rw [ha] at hb; exact Option.some_inj.mp hb
    exact hroot
  · rintro hc m hm
    obtain rfl := Option.some_inj.mp hm
    exact hchild hc

/-- Dropping a node with children would leave links to a missing parent. -/
theorem OneLevel.drop {f : State K} (h : OneLevel f) {k : K} (hk : ¬HasChild f k) :
    OneLevel (drop f k) := by
  refine (sameLinks_reconcileAt _ _ _).symm.oneLevel (h.update ?_ fun hc => absurd hc hk)
  rintro n p ⟨⟩

theorem NoNesting.drop {f : State K} (h : NoNesting f) (k : K) : NoNesting (drop f k) := by
  refine (sameLinks_reconcileAt _ _ _).symm.noNesting (h.update ?_ ?_)
  · rintro n p ⟨⟩
  · rintro - n ⟨⟩

/-- A node without children may go under a root. -/
theorem OneLevel.reparent {f : State K} (h : OneLevel f) {k : K} {q : Option K}
    (hq : ∀ p, q = some p → p ≠ k ∧ IsRoot f p ∧ ¬HasChild f k) : OneLevel (reparent f k q) := by
  unfold Forest.reparent
  split
  · rename_i n hn
    refine (sameLinks_reconcileAt _ _ _).symm.oneLevel
      ((sameLinks_reconcileAt _ _ _).symm.oneLevel (h.update ?_ ?_))
    · rintro m p hm hp
      obtain rfl := Option.some_inj.mp hm
      exact ⟨(hq p hp).1, (hq p hp).2.1⟩
    · intro hc
      refine ⟨_, rfl, ?_⟩
      cases q with
      | none => rfl
      | some p => exact absurd hc (hq p rfl).2.2
  · exact h

/-- A node without children under a root nests no deeper. -/
theorem NoNesting.reparent {f : State K} (h : NoNesting f) {k : K} {q : Option K}
    (hq : ∀ p, q = some p → p ≠ k ∧ IsRoot f p ∧ ¬HasChild f k) : NoNesting (reparent f k q) := by
  unfold Forest.reparent
  split
  · rename_i n hn
    refine (sameLinks_reconcileAt _ _ _).symm.noNesting
      ((sameLinks_reconcileAt _ _ _).symm.noNesting (h.update ?_ ?_))
    · rintro m p hm hp
      obtain rfl := Option.some_inj.mp hm
      obtain ⟨hpk, ⟨a, ha, hroot⟩, -⟩ := hq p hp
      refine ⟨hpk, fun b hb => ?_⟩
      obtain rfl : a = b := by rw [ha] at hb; exact Option.some_inj.mp hb
      exact hroot
    · rintro hc m hm
      obtain rfl := Option.some_inj.mp hm
      cases q with
      | none => rfl
      | some p => exact absurd hc (hq p rfl).2.2
  · exact h

/-! ### Consistency -/

/-- A node that keeps its parent, or is new, leaves the forest consistent if it is
consistent itself. -/
theorem Consistent.put {f : State K} (h : Consistent f) {k : K} {n : Node K}
    (hold : ∀ m, f k = some m → m.parent = n.parent)
    (hself : ConsistentAt (Function.update f k (some n)) k) (r : Bool) :
    Consistent (put f k n r) := by
  refine consistentExcept_empty.mp (ConsistentExcept.reconcileAt
    (ConsistentExcept.update (fun q _ => h q) ?_ ?_ fun _ => hself) r)
  · exact fun m q hm hq => Or.inl ((hold m hm).symm.trans hq)
  · rintro m q hm hq
    obtain rfl := Option.some_inj.mp hm
    exact Or.inl hq

theorem Consistent.drop {f : State K} (h : Consistent f) (k : K) : Consistent (drop f k) := by
  refine consistentExcept_empty.mp (ConsistentExcept.reconcileAt
    (ConsistentExcept.update (fun q _ => h q) ?_ ?_ ?_) true)
  · exact fun n q hn hq => Or.inl (parentOf_eq_some_iff.mpr ⟨n, hn, hq⟩)
  · rintro n q ⟨⟩
  · rintro - n hn
    rw [Function.update_self] at hn
    cases hn

/-- A child that becomes a root has no children, and a root that stays one is the node it
was. -/
theorem Consistent.reparent {f : State K} (h : Consistent f) (hf : NoNesting f) (k : K)
    (q : Option K) : Consistent (reparent f k q) := by
  unfold Forest.reparent
  split
  · rename_i n hn
    refine consistentExcept_empty.mp (ConsistentExcept.reconcileAt
      (ConsistentExcept.reconcileAt (ConsistentExcept.update (fun q _ => h q) ?_ ?_ ?_) true) true)
    · rintro m p hm hp
      obtain rfl : n = m := by rw [hn] at hm; exact Option.some_inj.mp hm
      exact Or.inl hp
    · rintro m p hm hp
      obtain rfl := Option.some_inj.mp hm
      exact Or.inr (Or.inl hp)
    · rintro - m hm hroot hchild
      rw [Function.update_self, Option.some_inj] at hm
      obtain rfl : q = none := by rw [← hm] at hroot; exact hroot
      cases hp : n.parent with
      | some p => exact absurd (hchild.of_update rfl) (hf.not_hasChild ⟨n, hn, hp⟩)
      | none =>
        obtain rfl : n = m := by rw [← hm, Node.under_none hp]
        have hself : Function.update f k (some (n.under none)) = f := by
          rw [hm, ← hn, Function.update_eq_self]
        rw [hself] at hchild ⊢
        exact h k n hn hp hchild
  · exact h

/-- Completing keeps consistency unless it completes a root with an open child. -/
theorem Consistent.complete {f : State K} (h : Consistent f) {k : K}
    (hk : IsRoot f k → AllComplete f k) : Consistent (complete f k) := by
  unfold Forest.complete
  split
  · rename_i n hn
    refine h.put (fun m hm => ?_) ?_ false
    · obtain rfl : n = m := by rw [hn] at hm; exact Option.some_inj.mp hm
      rfl
    · intro m hm hroot hchild
      rw [Function.update_self, Option.some_inj] at hm
      obtain rfl := hm
      refine ⟨fun _ => Or.inl rfl, fun hnot => absurd ?_ hnot⟩
      exact (hk ⟨n, hn, hroot⟩).update hroot
  · exact h

/-- Opening by hand keeps consistency unless it marks a root with an open child. -/
theorem Consistent.reopen {f : State K} (h : Consistent f) {k : K}
    (hk : IsRoot f k → AllComplete f k) : Consistent (reopen f k) := by
  unfold Forest.reopen
  split
  · rename_i n hn
    refine h.put (fun m hm => ?_) ?_ true
    · obtain rfl : n = m := by rw [hn] at hm; exact Option.some_inj.mp hm
      rfl
    · intro m hm hroot hchild
      rw [Function.update_self, Option.some_inj] at hm
      obtain rfl := hm
      have hchild' : HasChild f k := hchild.of_update hroot
      refine ⟨fun _ => Or.inr (by simp [hchild']), fun hnot => absurd ?_ hnot⟩
      exact (hk ⟨n, hn, hroot⟩).update hroot
  · exact h

/-! ### A child of a root -/

/-- The children of `p` other than `k` are complete. -/
def OthersComplete (f : State K) (k p : K) : Prop :=
  ∀ c n, c ≠ k → f c = some n → n.parent = some p → n.complete = true

open Classical in
/-- Completing a child settles its parent by the other children. -/
theorem complete_child {f : State K} {k p : K} {n m : Node K} (hn : f k = some n)
    (hp : n.parent = some p) (hm : f p = some m) (hroot : m.parent = none) :
    complete f k = Function.update
      (Function.update f k (some { n with complete := true, reopened := false })) p
      (some (m.settled false true (OthersComplete f k p))) := by
  have hne : p ≠ k := by
    rintro rfl
    rw [hn, Option.some_inj] at hm
    rw [← hm, hp] at hroot
    cases hroot
  unfold complete
  simp only [hn]
  generalize hg : Function.update f k (some { n with complete := true, reopened := false }) = g
  have hgk : g k = some { n with complete := true, reopened := false } := by
    rw [← hg, Function.update_self]
  have hgne : ∀ j, j ≠ k → g j = f j := by
    intro j hj
    rw [← hg, Function.update_of_ne hj]
  have hchild : HasChild g p := ⟨k, _, hgk, hp⟩
  have hall : AllComplete g p ↔ OthersComplete f k p := by
    refine ⟨fun h c n' hc hn' hp' => h c n' ((hgne c hc).trans hn') hp', fun h c n' hn' hp' => ?_⟩
    rcases eq_or_ne c k with rfl | hc
    · rw [hgk, Option.some_inj] at hn'
      rw [← hn']
    · exact h c n' hc ((hgne c hc).symm.trans hn') hp'
  unfold put
  rw [hg]
  simp only [hp]
  change reconcile g p false = _
  rw [reconcile_of_root ((hgne p hne).trans hm) hroot, decide_eq_true hchild,
    decide_eq_decide.mpr hall]

open Classical in
/-- Opening a root by hand touches nothing else. -/
theorem reopen_root {f : State K} {k j : K} {n : Node K} (hn : f k = some n)
    (hroot : n.parent = none) : reopen f k j = if j = k then
      some { n with complete := false, reopened := n.reopened || decide (HasChild f k) }
      else f j := by
  unfold reopen
  simp only [hn]
  unfold put
  simp only [hroot]
  exact Function.update_apply f k _ j

/-! ### Several nodes at once -/

/-- The nodes are dropped, one after another. -/
noncomputable def dropAll (f : State K) (ks : List K) : State K :=
  ks.foldl drop f

/-- Make each of `ks` a root. -/
noncomputable def detachAll (f : State K) (ks : List K) : State K :=
  ks.foldl (fun f k => reparent f k none) f

theorem isChild_dropAll {f : State K} {ks : List K} {c p : K} :
    IsChild (dropAll f ks) c p ↔ c ∉ ks ∧ IsChild f c p := by
  unfold dropAll
  induction ks generalizing f with
  | nil => simp
  | cons k ks ih => rw [List.foldl_cons, ih, isChild_drop, List.mem_cons, not_or, and_assoc,
      and_left_comm]

/-- A detached node has no parent. -/
theorem IsChild.of_detachAll {f : State K} {ks : List K} {c p : K}
    (h : IsChild (detachAll f ks) c p) : c ∉ ks ∧ IsChild f c p := by
  unfold detachAll at h
  induction ks generalizing f with
  | nil => exact ⟨List.not_mem_nil, h⟩
  | cons k ks ih =>
    obtain ⟨hc, h⟩ := ih h
    cases hn : f k with
    | none =>
      have hk : c ≠ k := by
        rintro rfl
        obtain ⟨n, hcn, -⟩ := h
        simp [Forest.reparent, hn] at hcn
      unfold Forest.reparent at h
      simp only [hn] at h
      exact ⟨by simp [hk, hc], h⟩
    | some n =>
      rcases (isChild_reparent hn).mp h with ⟨-, hnone⟩ | ⟨hk, h⟩
      · cases hnone
      · exact ⟨by simp [hk, hc], h⟩

/-- Dropping childless nodes keeps a forest one level deep. -/
theorem OneLevel.dropAll {f : State K} (h : OneLevel f) {ks : List K}
    (hks : ∀ k ∈ ks, ¬HasChild f k) : OneLevel (dropAll f ks) := by
  unfold Forest.dropAll
  induction ks generalizing f with
  | nil => exact h
  | cons k ks ih =>
    refine ih (h.drop (hks k List.mem_cons_self)) fun j hj hchild => ?_
    exact hks j (List.mem_cons_of_mem k hj) hchild.of_drop

theorem NoNesting.dropAll {f : State K} (h : NoNesting f) (ks : List K) :
    NoNesting (dropAll f ks) := by
  unfold Forest.dropAll
  induction ks generalizing f with
  | nil => exact h
  | cons k ks ih => exact ih (h.drop k)

theorem Consistent.dropAll {f : State K} (h : Consistent f) (ks : List K) :
    Consistent (dropAll f ks) := by
  unfold Forest.dropAll
  induction ks generalizing f with
  | nil => exact h
  | cons k ks ih => exact ih (h.drop k)

theorem NoLoop.dropAll {f : State K} (h : NoLoop f) (ks : List K) : NoLoop (dropAll f ks) :=
  fun c hc => h c (isChild_dropAll.mp hc).2

theorem NoLoop.detachAll {f : State K} (h : NoLoop f) (ks : List K) : NoLoop (detachAll f ks) :=
  fun c hc => h c hc.of_detachAll.2

theorem OneLevel.detachAll {f : State K} (h : OneLevel f) (ks : List K) :
    OneLevel (detachAll f ks) := by
  unfold Forest.detachAll
  induction ks generalizing f with
  | nil => exact h
  | cons k ks ih => exact ih (h.reparent (by simp))

theorem NoNesting.detachAll {f : State K} (h : NoNesting f) (ks : List K) :
    NoNesting (detachAll f ks) := by
  unfold Forest.detachAll
  induction ks generalizing f with
  | nil => exact h
  | cons k ks ih => exact ih (h.reparent (by simp))

theorem Consistent.detachAll {f : State K} (h : Consistent f) (hf : NoNesting f) (ks : List K) :
    Consistent (detachAll f ks) := by
  unfold Forest.detachAll
  induction ks generalizing f with
  | nil => exact h
  | cons k ks ih => exact ih (h.reparent hf k none) (hf.reparent (by simp))

end Forest
