import Notelayer.Listeners

/-!
# The initial sync

`syncInitialData` runs in pieces, from one awaited call to the next. `SyncPoint` is the call
it is suspended at, with the locals it needs later, and `SyncPoint.resume` the piece that
follows the response. `throws` says which awaited calls throw; the error is swallowed and the
function returns. `syncFrom` takes the pieces one after another, with the remote data of the
user as the other side.

A collection is uploaded only if the fetched one is empty, and the snapshot applied at the
end is the fetched collection or the uploaded one.
-/

namespace Notelayer

open KeyedList

/-! ## Awaited calls -/

/-- What `fetchAll` returns. -/
structure Fetched where
  notes : List Note
  tasks : List Task
  categories : List Category
  deriving DecidableEq

/-- What `fetchAll` returns. -/
def Remote.fetchAll (r : Remote) : Fetched :=
  ⟨r.notes.records, r.tasks.records, r.categories.records⟩

/-- The calls `syncInitialData` awaits. -/
inductive SyncCall where
  | fetchAll
  | upsertNotes
  | upsertTasks
  | upsertCategories
  | fetchCategoryGroupMetadata
  | upsertCategoryGroupMetadata
  | fetchExperimentalFeatureMetadata
  | fetchInsightsHintMetadata
  | upsertExperimentalFeatureMetadata
  | upsertInsightsHintMetadata
  deriving DecidableEq

/-- The call `syncInitialData` is suspended at, with its argument and the locals that are read
after it. -/
inductive SyncPoint where
  | fetchAll
  | upsertNotes (sent : List Note) (remote : Fetched)
  | upsertTasks (sent : List Task) (remote : Fetched) (notes : List Note)
  | upsertCategories (sent : List Category) (notes : List Note) (tasks : List Task)
  | fetchCategoryGroupMetadata
  | upsertCategoryGroupMetadata (sent : ℤ)
  | fetchExperimentalFeatureMetadata
  | fetchInsightsHintMetadata (remoteExperimental : Option (Bool × Date))
  | upsertExperimentalFeatureMetadata (sent : ExperimentalFeaturePreference)
      (shouldPushHint : Bool)
  | upsertInsightsHintMetadata (sent : InsightsHintState)
  deriving DecidableEq

/-- What an awaited call returns. `thrown` is an error. -/
inductive Response where
  | fetched (remote : Fetched)
  | position (position : Option ℤ)
  | experimental (metadata : Option (Bool × Date))
  | insightsHint (state : Option InsightsHintState)
  | written
  | thrown
  deriving DecidableEq

/-! ## The pieces between the calls -/

/-- The store after a piece and the next call, if there is one. `none` is a trap. -/
abbrev Piece := Option (LocalStore × Option SyncPoint)

/-- The store takes over the account and the sync goes on with the place of the uncategorized
group. -/
def applySnapshot (notes : List Note) (tasks : List Task) (categories : List Category)
    (s : LocalStore) : Piece :=
  (s.applyRemoteSnapshot notes tasks categories).map (·, some .fetchCategoryGroupMetadata)

/-- From the test of the categories on. -/
def uploadCategories (remote : Fetched) (notes : List Note) (tasks : List Task)
    (s : LocalStore) : Piece :=
  if remote.categories.isEmpty ∧ ¬s.categories.isEmpty then
    some (s, some (.upsertCategories s.categories notes tasks))
  else applySnapshot notes tasks remote.categories s

/-- From the test of the tasks on. -/
def uploadTasks (remote : Fetched) (notes : List Note) (s : LocalStore) : Piece :=
  if remote.tasks.isEmpty ∧ ¬s.tasks.isEmpty then
    some (s, some (.upsertTasks s.tasks remote notes))
  else uploadCategories remote notes remote.tasks s

/-- From the test of the notes on. -/
def uploadNotes (remote : Fetched) (s : LocalStore) : Piece :=
  if remote.notes.isEmpty ∧ ¬s.notes.isEmpty then some (s, some (.upsertNotes s.notes remote))
  else uploadTasks remote remote.notes s

/-- The last write, where it is due. -/
def pushInsightsHint (shouldPushHint : Bool) (s : LocalStore) : LocalStore × Option SyncPoint :=
  if shouldPushHint then (s, some (.upsertInsightsHintMetadata s.insightsHintState)) else (s, none)

/-- From `beginExperimentalReconciliation` on. -/
def reconcileMetadata (remoteExperimental : Option (Bool × Date))
    (remoteInsightsHint : Option InsightsHintState) (s : LocalStore) :
    LocalStore × Option SyncPoint :=
  let s := s.beginExperimentalReconciliation
  let (s, shouldPushExperimental) := s.reconcileExperimentalPreference
    (remoteExperimental.map Prod.fst) (remoteExperimental.map Prod.snd)
  let (s, shouldPushHint) := s.reconcileInsightsHintState remoteInsightsHint
  if shouldPushExperimental then
    (s, some (.upsertExperimentalFeatureMetadata s.experimentalFeaturesPreference shouldPushHint))
  else pushInsightsHint shouldPushHint s

namespace SyncPoint

/-- The call that a point waits for. -/
def awaited : SyncPoint → SyncCall
  | fetchAll => .fetchAll
  | upsertNotes _ _ => .upsertNotes
  | upsertTasks _ _ _ => .upsertTasks
  | upsertCategories _ _ _ => .upsertCategories
  | fetchCategoryGroupMetadata => .fetchCategoryGroupMetadata
  | upsertCategoryGroupMetadata _ => .upsertCategoryGroupMetadata
  | fetchExperimentalFeatureMetadata => .fetchExperimentalFeatureMetadata
  | fetchInsightsHintMetadata _ => .fetchInsightsHintMetadata
  | upsertExperimentalFeatureMetadata _ _ => .upsertExperimentalFeatureMetadata
  | upsertInsightsHintMetadata _ => .upsertInsightsHintMetadata

/-- The piece that follows the response. After an upload the store is read again. A response to
another call does not come. -/
def resume (p : SyncPoint) (response : Response) (s : LocalStore) : Piece :=
  match p, response with
  | _, .thrown => some (s, none)
  | fetchAll, .fetched remote => uploadNotes remote s
  | upsertNotes _ remote, .written => uploadTasks remote s.notes s
  | upsertTasks _ remote notes, .written => uploadCategories remote notes s.tasks s
  | upsertCategories _ notes tasks, .written => applySnapshot notes tasks s.categories s
  | fetchCategoryGroupMetadata, .position (some position) =>
    (s.applyRemoteUncategorizedPosition position).map (·, some fetchExperimentalFeatureMetadata)
  | fetchCategoryGroupMetadata, .position none =>
    if s.uncategorizedPosition ≠ 0 then
      some (s, some (upsertCategoryGroupMetadata s.uncategorizedPosition))
    else some (s, some fetchExperimentalFeatureMetadata)
  | upsertCategoryGroupMetadata _, .written => some (s, some fetchExperimentalFeatureMetadata)
  | fetchExperimentalFeatureMetadata, .experimental remoteExperimental =>
    some (s, some (fetchInsightsHintMetadata remoteExperimental))
  | fetchInsightsHintMetadata remoteExperimental, .insightsHint remoteInsightsHint =>
    some (reconcileMetadata remoteExperimental remoteInsightsHint s)
  | upsertExperimentalFeatureMetadata _ shouldPushHint, .written =>
    some (pushInsightsHint shouldPushHint s)
  | upsertInsightsHintMetadata _, .written => some (s, none)
  | p, _ => some (s, some p)

/-- The remote data after the call, and the response. -/
def answer (p : SyncPoint) (r : Remote) : Remote × Response :=
  match p with
  | fetchAll => (r, .fetched r.fetchAll)
  | upsertNotes sent _ => ({ r with notes := r.notes.upsertBatch Note.id sent }, .written)
  | upsertTasks sent _ _ => ({ r with tasks := r.tasks.upsertBatch Task.id sent }, .written)
  | upsertCategories sent _ _ =>
    ({ r with categories := r.categories.upsertBatch Category.id sent }, .written)
  | fetchCategoryGroupMetadata => (r, .position r.uncategorizedPosition)
  | upsertCategoryGroupMetadata sent =>
    (r.upsertMetadata (.categoryGroup sent), .written)
  | fetchExperimentalFeatureMetadata => (r, .experimental r.experimentalFeatureMetadata)
  | fetchInsightsHintMetadata _ => (r, .insightsHint r.insightsHint)
  | upsertExperimentalFeatureMetadata sent _ =>
    (r.upsertMetadata (.experimentalFeature sent), .written)
  | upsertInsightsHintMetadata sent =>
    (r.upsertMetadata (.insightsHint sent), .written)

/-- A call that throws writes nothing. -/
def outcome (throws : SyncCall → Bool) (p : SyncPoint) (r : Remote) : Remote × Response :=
  if throws p.awaited then (r, .thrown) else p.answer r

/-- How many calls can follow. -/
def rank : SyncPoint → ℕ
  | fetchAll => 9
  | upsertNotes _ _ => 8
  | upsertTasks _ _ _ => 7
  | upsertCategories _ _ _ => 6
  | fetchCategoryGroupMetadata => 5
  | upsertCategoryGroupMetadata _ => 4
  | fetchExperimentalFeatureMetadata => 3
  | fetchInsightsHintMetadata _ => 2
  | upsertExperimentalFeatureMetadata _ _ => 1
  | upsertInsightsHintMetadata _ => 0

end SyncPoint

/-! ## Running to the end -/

section Rank

variable {remote : Fetched} {notes : List Note} {tasks : List Task} {categories : List Category}
  {s s' : LocalStore} {q : SyncPoint}

theorem rank_of_applySnapshot (h : applySnapshot notes tasks categories s = some (s', some q)) :
    q.rank = 5 := by
  obtain ⟨_, -, h⟩ := Option.map_eq_some_iff.mp h
  obtain rfl := Option.some_inj.mp (Prod.mk.inj h).2
  rfl

theorem rank_of_uploadCategories
    (h : uploadCategories remote notes tasks s = some (s', some q)) : q.rank ≤ 6 := by
  unfold uploadCategories at h
  split_ifs at h
  · obtain ⟨rfl, ⟨⟩⟩ := Prod.mk.inj (Option.some_inj.mp h)
    exact le_rfl
  · rw [rank_of_applySnapshot h]
    omega

theorem rank_of_uploadTasks (h : uploadTasks remote notes s = some (s', some q)) :
    q.rank ≤ 7 := by
  unfold uploadTasks at h
  split_ifs at h
  · obtain ⟨rfl, ⟨⟩⟩ := Prod.mk.inj (Option.some_inj.mp h)
    exact le_rfl
  · have := rank_of_uploadCategories h
    omega

theorem rank_of_uploadNotes (h : uploadNotes remote s = some (s', some q)) : q.rank ≤ 8 := by
  unfold uploadNotes at h
  split_ifs at h
  · obtain ⟨rfl, ⟨⟩⟩ := Prod.mk.inj (Option.some_inj.mp h)
    exact le_rfl
  · have := rank_of_uploadTasks h
    omega

theorem rank_of_pushInsightsHint {shouldPushHint : Bool}
    (h : pushInsightsHint shouldPushHint s = (s', some q)) : q.rank = 0 := by
  unfold pushInsightsHint at h
  split_ifs at h
  · obtain ⟨rfl, ⟨⟩⟩ := Prod.mk.inj h
    rfl
  · cases (Prod.mk.inj h).2

/-- At most one call follows the metadata. -/
theorem rank_of_reconcileMetadata {remoteExperimental : Option (Bool × Date)}
    {remoteInsightsHint : Option InsightsHintState}
    (h : reconcileMetadata remoteExperimental remoteInsightsHint s = (s', some q)) :
    q.rank ≤ 1 := by
  unfold reconcileMetadata at h
  dsimp only at h
  split_ifs at h
  · obtain ⟨rfl, ⟨⟩⟩ := Prod.mk.inj h
    exact le_rfl
  · rw [rank_of_pushInsightsHint h]
    omega

end Rank

/-- Every piece leads to a later call or returns. -/
theorem SyncPoint.rank_lt {throws : SyncCall → Bool} {p q : SyncPoint} {r : Remote}
    {s s' : LocalStore} (h : p.resume (p.outcome throws r).2 s = some (s', some q)) :
    q.rank < p.rank := by
  unfold outcome at h
  split_ifs at h
  · cases p <;> cases h
  · cases p with
    | fetchAll => exact Nat.lt_succ_of_le (rank_of_uploadNotes h)
    | upsertNotes sent remote => exact Nat.lt_succ_of_le (rank_of_uploadTasks h)
    | upsertTasks sent remote notes => exact Nat.lt_succ_of_le (rank_of_uploadCategories h)
    | upsertCategories sent notes tasks => exact Nat.lt_succ_of_le (rank_of_applySnapshot h).le
    | fetchCategoryGroupMetadata =>
      simp only [answer] at h
      cases hp : r.uncategorizedPosition with
      | none =>
        simp only [hp, resume] at h
        split_ifs at h <;> obtain ⟨rfl, ⟨⟩⟩ := Prod.mk.inj (Option.some_inj.mp h) <;> simp [rank]
      | some position =>
        simp only [hp, resume] at h
        obtain ⟨_, -, h⟩ := Option.map_eq_some_iff.mp h
        obtain ⟨rfl, ⟨⟩⟩ := Prod.mk.inj h
        simp [rank]
    | upsertCategoryGroupMetadata sent =>
      obtain ⟨rfl, ⟨⟩⟩ := Prod.mk.inj (Option.some_inj.mp h)
      simp [rank]
    | fetchExperimentalFeatureMetadata =>
      obtain ⟨rfl, ⟨⟩⟩ := Prod.mk.inj (Option.some_inj.mp h)
      simp [rank]
    | fetchInsightsHintMetadata remoteExperimental =>
      exact Nat.lt_succ_of_le (rank_of_reconcileMetadata (Option.some_inj.mp h))
    | upsertExperimentalFeatureMetadata sent shouldPushHint =>
      exact Nat.lt_succ_of_le (rank_of_pushInsightsHint (Option.some_inj.mp h)).le
    | upsertInsightsHintMetadata sent => cases (Prod.mk.inj (Option.some_inj.mp h)).2

/-- The store and the remote data when `syncInitialData` has returned, from the call on. -/
def syncFrom (throws : SyncCall → Bool) (p : SyncPoint) (s : LocalStore) (r : Remote) :
    Option (LocalStore × Remote) :=
  match h : p.resume (p.outcome throws r).2 s with
  | none => none
  | some (s', none) => some (s', (p.outcome throws r).1)
  | some (s', some q) =>
    have : q.rank < p.rank := SyncPoint.rank_lt h
    syncFrom throws q s' (p.outcome throws r).1
termination_by p.rank

/-- The whole sync, with the calls that throw. -/
def syncInitialData (throws : SyncCall → Bool) (s : LocalStore) (r : Remote) :
    Option (LocalStore × Remote) :=
  syncFrom throws .fetchAll s r

/-- What follows a piece. -/
def proceed (throws : SyncCall → Bool) (r : Remote) : Piece → Option (LocalStore × Remote)
  | none => none
  | some (s, none) => some (s, r)
  | some (s, some q) => syncFrom throws q s r

/-- A sync from a point : the call, its response, and the rest. -/
theorem syncFrom_eq (throws : SyncCall → Bool) (p : SyncPoint) (s : LocalStore) (r : Remote) :
    syncFrom throws p s r =
      proceed throws (p.outcome throws r).1 (p.resume (p.outcome throws r).2 s) := by
  rw [syncFrom]
  split
  · rename_i h
    rw [h]
    rfl
  · rename_i h
    rw [h]
    rfl
  · rename_i h
    dsimp only
    rw [h]
    rfl

/-- `if let lastUserId = store.lastBackendUserId, lastUserId != user.uid`. -/
def LocalStore.resetsFor (s : LocalStore) (userId : String) : Bool :=
  match s.lastBackendUserId with
  | some lastUserId => lastUserId ≠ userId
  | none => false

/-- The first piece of `handleUserChange` for a user, on the store : the data of another user
is dropped, and the new backend is attached. -/
def LocalStore.changeUser (s : LocalStore) (userId : String) : Option LocalStore :=
  let s := s.attachBackend none
  (if s.resetsFor userId then s.resetForNewUser else some s).map fun s =>
    (s.updateBackendUserId (some userId)).attachBackend (some ⟨userId⟩)

/-! ## The metadata calls -/

variable {s : LocalStore} {r : Remote} (throws : SyncCall → Bool)

theorem notes_tasks_reconcileMetadata (remoteExperimental : Option (Bool × Date))
    (remoteInsightsHint : Option InsightsHintState) :
    (reconcileMetadata remoteExperimental remoteInsightsHint s).1.notes = s.notes ∧
      (reconcileMetadata remoteExperimental remoteInsightsHint s).1.tasks = s.tasks := by
  unfold reconcileMetadata pushInsightsHint
  dsimp only
  split_ifs <;> exact ⟨rfl, rfl⟩

namespace SyncPoint

/-- A metadata call and the piece after it leave notes and tasks alone on both sides. -/
theorem resume_of_rank_le {p : SyncPoint} (hp : p.rank ≤ 5) :
    ∃ s' q, p.resume (p.outcome throws r).2 s = some (s', q) ∧ s'.notes = s.notes ∧
      s'.tasks = s.tasks ∧ (p.outcome throws r).1.notes = r.notes ∧
      (p.outcome throws r).1.tasks = r.tasks := by
  unfold outcome
  split_ifs
  · refine ⟨s, none, ?_, rfl, rfl, rfl, rfl⟩
    cases p <;> rfl
  · cases p with
    | fetchCategoryGroupMetadata =>
      simp only [answer]
      cases r.uncategorizedPosition with
      | none =>
        simp only [resume]
        split_ifs <;> exact ⟨_, _, rfl, rfl, rfl, trivial, trivial⟩
      | some position => exact ⟨_, _, rfl, rfl, rfl, trivial, trivial⟩
    | fetchInsightsHintMetadata remoteExperimental =>
      obtain ⟨hnotes, htasks⟩ := notes_tasks_reconcileMetadata (s := s) remoteExperimental
        r.insightsHint
      exact ⟨_, _, rfl, hnotes, htasks, rfl, rfl⟩
    | upsertExperimentalFeatureMetadata sent shouldPushHint =>
      simp only [answer, resume, pushInsightsHint]
      split_ifs <;> exact ⟨_, _, rfl, rfl, rfl, rfl, rfl⟩
    | upsertCategoryGroupMetadata sent => exact ⟨_, _, rfl, rfl, rfl, rfl, rfl⟩
    | fetchExperimentalFeatureMetadata => exact ⟨_, _, rfl, rfl, rfl, rfl, rfl⟩
    | upsertInsightsHintMetadata sent => exact ⟨_, _, rfl, rfl, rfl, rfl, rfl⟩
    | fetchAll => simp [rank] at hp
    | upsertNotes sent remote => simp [rank] at hp
    | upsertTasks sent remote notes => simp [rank] at hp
    | upsertCategories sent notes tasks => simp [rank] at hp

end SyncPoint

/-- From the metadata calls on nothing traps, and notes and tasks stay. -/
theorem syncFrom_of_rank_le {p : SyncPoint} (hp : p.rank ≤ 5) : ∃ s' r',
    syncFrom throws p s r = some (s', r') ∧ s'.notes = s.notes ∧ s'.tasks = s.tasks ∧
      r'.notes = r.notes ∧ r'.tasks = r.tasks := by
  induction hn : p.rank using Nat.strong_induction_on generalizing p s r with
  | _ n ih =>
    obtain ⟨s₁, q, hq, hs, hs', hr, hr'⟩ := SyncPoint.resume_of_rank_le throws hp
    rw [syncFrom_eq, hq]
    cases q with
    | none => exact ⟨_, _, rfl, hs, hs', hr, hr'⟩
    | some q =>
      have hlt := SyncPoint.rank_lt hq
      obtain ⟨s₂, r₂, h₂, hns, hts, hnr, htr⟩ := ih q.rank (by omega) (by omega) rfl
      exact ⟨s₂, r₂, h₂, hns.trans hs, hts.trans hs', hnr.trans hr, htr.trans hr'⟩

/-! ## The uploads -/

/-- The notes go up if the account has none, then the tasks. -/
theorem proceed_uploadNotes (remote : Fetched) :
    proceed throws r (uploadNotes remote s) =
      if remote.notes.isEmpty ∧ ¬s.notes.isEmpty then
        if throws .upsertNotes then some (s, r)
        else proceed throws { r with notes := r.notes.upsertBatch Note.id s.notes }
          (uploadTasks remote s.notes s)
      else proceed throws r (uploadTasks remote remote.notes s) := by
  unfold uploadNotes
  split_ifs with hupload hthrows
  · rw [proceed, syncFrom_eq, SyncPoint.outcome, SyncPoint.awaited, if_pos hthrows]
    rfl
  · rw [proceed, syncFrom_eq, SyncPoint.outcome, SyncPoint.awaited, if_neg hthrows]
    rfl
  · rfl

/-- The tasks go up if the account has none, then the rest. -/
theorem proceed_uploadTasks (remote : Fetched) (notes : List Note) :
    proceed throws r (uploadTasks remote notes s) =
      if remote.tasks.isEmpty ∧ ¬s.tasks.isEmpty then
        if throws .upsertTasks then some (s, r)
        else proceed throws { r with tasks := r.tasks.upsertBatch Task.id s.tasks }
          (uploadCategories remote notes s.tasks s)
      else proceed throws r (uploadCategories remote notes remote.tasks s) := by
  unfold uploadTasks
  split_ifs with hupload hthrows
  · rw [proceed, syncFrom_eq, SyncPoint.outcome, SyncPoint.awaited, if_pos hthrows]
    rfl
  · rw [proceed, syncFrom_eq, SyncPoint.outcome, SyncPoint.awaited, if_neg hthrows]
    rfl
  · rfl

/-- The snapshot traps on a repeated id, and is followed by the metadata calls if not. -/
theorem proceed_applySnapshot (notes : List Note) {tasks : List Task}
    (categories : List Category) :
    (¬DistinctIds tasks ∧ proceed throws r (applySnapshot notes tasks categories s) = none) ∨
    (DistinctIds tasks ∧ ∃ s' r',
      proceed throws r (applySnapshot notes tasks categories s) = some (s', r') ∧
        s'.notes = notes ∧ s'.tasks.map Task.id = tasks.map Task.id ∧
        r'.notes = r.notes ∧ r'.tasks = r.tasks) := by
  unfold applySnapshot
  rcases Classical.em (DistinctIds tasks) with hd | hd
  · obtain ⟨s₁, hs₁, hnotes, hids, -⟩ :=
      LocalStore.applyRemoteSnapshot_of_distinctIds (s := s) notes hd categories
    obtain ⟨s', r', h, hn, ht, hrn, hrt⟩ := syncFrom_of_rank_le throws (s := s₁) (r := r)
      (p := .fetchCategoryGroupMetadata) le_rfl
    rw [hs₁]
    exact Or.inr ⟨hd, s', r', h, hn.trans hnotes, by rw [ht, hids], hrn, hrt⟩
  · rw [LocalStore.applyRemoteSnapshot_of_not_distinctIds notes hd]
    exact Or.inl ⟨hd, rfl⟩

/-- From the upload of the categories on : the upload throws and the store stays as it is, or
the snapshot follows. -/
theorem proceed_uploadCategories (remote : Fetched) (notes : List Note) (tasks : List Task) :
    (throws .upsertCategories = true ∧
      proceed throws r (uploadCategories remote notes tasks s) = some (s, r)) ∨
    (¬DistinctIds tasks ∧ proceed throws r (uploadCategories remote notes tasks s) = none) ∨
    (DistinctIds tasks ∧ ∃ s' r',
      proceed throws r (uploadCategories remote notes tasks s) = some (s', r') ∧
        s'.notes = notes ∧ s'.tasks.map Task.id = tasks.map Task.id ∧
        r'.notes = r.notes ∧ r'.tasks = r.tasks) := by
  unfold uploadCategories
  split_ifs
  · rw [proceed, syncFrom_eq, SyncPoint.outcome, SyncPoint.awaited]
    split_ifs with hthrows
    · exact Or.inl ⟨hthrows, rfl⟩
    · exact Or.inr (proceed_applySnapshot throws notes s.categories)
  · exact Or.inr (proceed_applySnapshot throws notes remote.categories)

end Notelayer
