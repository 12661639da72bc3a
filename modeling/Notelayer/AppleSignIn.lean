import Notelayer.Foundation
import Notelayer.Library.Ledger

/-!
# Signing in with Apple

`AppleSignInCoordinator` keeps one continuation and one nonce. An attempt sends its request, and
only then waits with its continuation, which takes the place of another one. The callback of a
request, or the answer of Firebase to its credential, resumes whoever waits.

Over every run each attempt waits, is answered or lost its place, exactly once
(`AppleSignIns.accounted_attempts_run`). If an attempt starts only when no other is under way, and
no callback comes before its attempt waits, every attempt but the last one is answered, by what
came of its own request and with its own nonce (`AppleSignIns.own_answers_run`).
-/

namespace Notelayer

open Ledger (Moves)

/-! ## Nonces -/

namespace AppleSignInCoordinator

/-- There is no `W`. -/
def charset : List Char :=
  "0123456789ABCDEFGHIJKLMNOPQRSTUVXYZabcdefghijklmnopqrstuvwxyz-._".toList

/-- The character of a byte below `charset.count`. -/
def character (byte : UInt8) : Option Char :=
  charset[byte.toNat]?

/-- One round of the inner loop, over the result and `remainingLength`. -/
def appendByte (state : List Char × ℕ) (byte : UInt8) : List Char × ℕ :=
  match state, character byte with
  | (result, remainingLength + 1), some c => (result ++ [c], remainingLength)
  | state, _ => state

/-- The outer loop. A draw is `none` if its status is not `errSecSuccess`, and there is no result
as long as the draws do not suffice. -/
def drawNonce : List Char × ℕ → List (Option (List UInt8)) → Option String
  | (result, 0), _ => some (String.ofList result)
  | (_, _ + 1), [] => none
  | state, none :: draws => drawNonce state draws
  | state, some randomBytes :: draws => drawNonce (randomBytes.foldl appendByte state) draws

/-- The nonce of 32 characters, or `none` as long as the draws do not suffice. -/
def randomNonceString (draws : List (Option (List UInt8))) : Option String :=
  drawNonce ([], 32) draws

/-- The characters that the bytes of the draws stand for. -/
def drawn (draws : List (Option (List UInt8))) : List Char :=
  (draws.filterMap id).flatten.filterMap character

/-- The bytes of a draw add their characters, up to the remaining length. -/
theorem foldl_appendByte (bytes : List UInt8) (result : List Char) (remainingLength : ℕ) :
    bytes.foldl appendByte (result, remainingLength) =
      (result ++ (bytes.filterMap character).take remainingLength,
        remainingLength - (bytes.filterMap character).length) := by
  induction bytes generalizing result remainingLength with
  | nil => simp
  | cons byte bytes ih =>
    rw [List.foldl_cons]
    cases hc : character byte with
    | none =>
      have hskip : appendByte (result, remainingLength) byte = (result, remainingLength) := by
        cases remainingLength <;> simp [appendByte, hc]
      rw [hskip, ih, List.filterMap_cons_none hc]
    | some c =>
      rw [List.filterMap_cons_some hc]
      cases remainingLength with
      | zero => simp [appendByte, ih]
      | succ n =>
        have happend : appendByte (result, n + 1) byte = (result ++ [c], n) := by
          simp [appendByte, hc]
        rw [happend, ih]
        simp

/-- The draws add their characters, or do not suffice. -/
theorem drawNonce_eq (draws : List (Option (List UInt8))) (result : List Char)
    (remainingLength : ℕ) : drawNonce (result, remainingLength) draws =
      if remainingLength ≤ (drawn draws).length then
        some (String.ofList (result ++ (drawn draws).take remainingLength))
      else none := by
  induction draws generalizing result remainingLength with
  | nil => cases remainingLength <;> simp [drawNonce, drawn]
  | cons draw draws ih =>
    cases remainingLength with
    | zero => simp [drawNonce]
    | succ n =>
      cases draw with
      | none => exact ih result (n + 1)
      | some bytes =>
        have hdrawn : drawn (some bytes :: draws) = bytes.filterMap character ++ drawn draws := by
          simp [drawn]
        refine (congrArg (drawNonce · draws) (foldl_appendByte bytes result (n + 1))).trans ?_
        rw [ih, hdrawn, List.take_append, List.length_append, List.append_assoc]
        exact if_congr Nat.sub_le_iff_le_add' rfl rfl

/-- A nonce is made of the first 32 characters drawn, as soon as there are as many. -/
theorem randomNonceString_eq (draws : List (Option (List UInt8))) : randomNonceString draws =
    if 32 ≤ (drawn draws).length then some (String.ofList ((drawn draws).take 32)) else none :=
  drawNonce_eq draws [] 32

end AppleSignInCoordinator

/-! ## Attempts -/

/-- What an attempt reports. -/
inductive AppleOutcome where
  | success (uid : String)
  | missingAppleIDToken
  | error (description : String)
  deriving DecidableEq

/-- A continuation is resumed. -/
structure AppleAnswer where
  attempt : ℕ
  /-- The attempt from whose request this comes. -/
  source : ℕ
  outcome : AppleOutcome
  deriving DecidableEq

/-- What Firebase is asked to sign in with. -/
structure AppleCredential where
  source : ℕ
  idToken : String
  rawNonce : String
  deriving DecidableEq

/-- The coordinator, with what is under way. -/
structure AppleSignIns where
  continuation : Option ℕ := none
  currentNonce : Option String := none
  /-- The nonces of the requests. -/
  requests : List String := []
  /-- The attempts that sent their requests and do not wait yet. -/
  starting : List ℕ := []
  /-- The requests without a callback so far. -/
  performing : List ℕ := []
  credentials : List AppleCredential := []
  deriving DecidableEq

/-- The blocks that run without interruption. -/
inductive AppleEvent where
  /-- `signIn(presentationAnchor:)` up to `performRequests()`. -/
  | signIn (draws : List (Option (List UInt8)))
  /-- `self.continuation = continuation`. -/
  | await (attempt : ℕ)
  | didCompleteWithAuthorization (attempt : ℕ) (identityToken : Option String)
  | didCompleteWithError (attempt : ℕ) (description : String)
  /-- The rest of the task, after `Auth.auth().signIn(with: credential)`. -/
  | signedIn (credential : AppleCredential) (outcome : Except String String)

/-- The attempt whose request calls back. -/
def AppleEvent.source : AppleEvent → Option ℕ
  | didCompleteWithAuthorization attempt _ => some attempt
  | didCompleteWithError attempt _ => some attempt
  | _ => none

namespace AppleSignIns

variable (s : AppleSignIns)

/-- `continuation?.resume(...)`. -/
def resume (source : ℕ) (outcome : AppleOutcome) : List AppleAnswer :=
  s.continuation.toList.map fun attempt => ⟨attempt, source, outcome⟩

/-- The credential of a callback, if nothing is missing. -/
def credential (attempt : ℕ) (identityToken : Option String) : Option AppleCredential :=
  match identityToken, s.currentNonce with
  | some idToken, some rawNonce => some ⟨attempt, idToken, rawNonce⟩
  | _, _ => none

/-- The outcome of an answer of Firebase. -/
def outcome : Except String String → AppleOutcome
  | .ok uid => .success uid
  | .error description => .error description

/-- An attempt with the draws of its nonce. -/
def signIn (draws : List (Option (List UInt8))) : Option AppleSignIns :=
  (AppleSignInCoordinator.randomNonceString draws).map fun nonce =>
    { s with
      currentNonce := some nonce
      requests := s.requests ++ [nonce]
      starting := s.requests.length :: s.starting
      performing := s.requests.length :: s.performing }

/-- An attempt waits, and takes the place of the one that waited. -/
def await (attempt : ℕ) : Option AppleSignIns :=
  if attempt ∈ s.starting then
    some { s with starting := s.starting.erase attempt, continuation := some attempt }
  else none

/-- The callback of a request that the user confirmed. -/
def didCompleteWithAuthorization (attempt : ℕ) (identityToken : Option String) :
    Option AppleSignIns :=
  if attempt ∈ s.performing then
    let performing := s.performing.erase attempt
    match s.credential attempt identityToken with
    | some credential => some { s with performing, credentials := credential :: s.credentials }
    | none => some { s with performing, continuation := none }
  else none

/-- The callback of a request that failed or was cancelled. -/
def didCompleteWithError (attempt : ℕ) : Option AppleSignIns :=
  if attempt ∈ s.performing then
    some { s with performing := s.performing.erase attempt, continuation := none }
  else none

/-- Firebase has answered a credential. -/
def signedIn (credential : AppleCredential) : Option AppleSignIns :=
  if credential ∈ s.credentials then
    some { s with credentials := s.credentials.erase credential, continuation := none }
  else none

/-- The step function of the sign-ins. -/
def step (e : AppleEvent) (s : AppleSignIns) : Option AppleSignIns :=
  match e with
  | .signIn draws => s.signIn draws
  | .await attempt => s.await attempt
  | .didCompleteWithAuthorization attempt identityToken =>
    s.didCompleteWithAuthorization attempt identityToken
  | .didCompleteWithError attempt _ => s.didCompleteWithError attempt
  | .signedIn credential _ => s.signedIn credential

/-- Who is answered. -/
def answers : AppleEvent → AppleSignIns → List AppleAnswer
  | .didCompleteWithAuthorization attempt identityToken, s =>
    if s.credential attempt identityToken = none then s.resume attempt .missingAppleIDToken else []
  | .didCompleteWithError attempt description, s => s.resume attempt (.error description)
  | .signedIn credential result, s => s.resume credential.source (outcome result)
  | _, _ => []

/-- The attempts that wait, or are about to. -/
def held : List ℕ :=
  s.starting ++ s.continuation.toList

/-- An attempt enters with its request, is delivered with an answer, and dropped when another takes
its place. -/
def moves (e : AppleEvent) (s : AppleSignIns) : Moves ℕ where
  entered := match e with
    | .signIn _ => [s.requests.length]
    | _ => []
  delivered := (answers e s).map AppleAnswer.attempt
  dropped := match e with
    | .await _ => s.continuation.toList
    | _ => []

/-! ## Every run -/

variable {s} {e : AppleEvent} {s' t : AppleSignIns}

@[simp] theorem map_attempt_resume (source : ℕ) (outcome : AppleOutcome) :
    (s.resume source outcome).map AppleAnswer.attempt = s.continuation.toList := by
  simp [resume, Function.comp_def]

theorem credential_eq_some {attempt : ℕ} {identityToken : Option String}
    {credential : AppleCredential} (h : s.credential attempt identityToken = some credential) :
    ∃ idToken rawNonce, identityToken = some idToken ∧ s.currentNonce = some rawNonce ∧
      credential = ⟨attempt, idToken, rawNonce⟩ := by
  unfold AppleSignIns.credential at h
  split at h
  · rename_i idToken rawNonce hnonce
    exact ⟨idToken, rawNonce, rfl, hnonce, (Option.some_inj.mp h).symm⟩
  · cases h

/-- Whoever waits is answered. -/
theorem balanced_resume (hs' : s'.held = s.starting) :
    Ledger.Balanced id s.held { delivered := s.continuation.toList } s'.held := by
  rw [hs']
  unfold Ledger.Balanced held
  simp

/-- What a block does. -/
theorem step_cases (h : step e s = some s') :
    (∃ draws nonce, e = .signIn draws ∧ s' = { s with
      currentNonce := some nonce
      requests := s.requests ++ [nonce]
      starting := s.requests.length :: s.starting
      performing := s.requests.length :: s.performing }) ∨
    (∃ attempt ∈ s.starting, e = .await attempt ∧
      s' = { s with starting := s.starting.erase attempt, continuation := some attempt }) ∨
    (∃ attempt ∈ s.performing, ∃ idToken rawNonce,
      e = .didCompleteWithAuthorization attempt (some idToken) ∧
        s.currentNonce = some rawNonce ∧ s' = { s with
          performing := s.performing.erase attempt
          credentials := ⟨attempt, idToken, rawNonce⟩ :: s.credentials }) ∨
    (∃ attempt ∈ s.performing, ∃ outcome, e.source = some attempt ∧
      answers e s = s.resume attempt outcome ∧ moves e s = { delivered := s.continuation.toList } ∧
        s' = { s with performing := s.performing.erase attempt, continuation := none }) ∨
    (∃ credential ∈ s.credentials, ∃ result, e = .signedIn credential result ∧
      s' = { s with credentials := s.credentials.erase credential, continuation := none }) := by
  cases e with
  | signIn draws =>
    obtain ⟨nonce, -, rfl⟩ := Option.map_eq_some_iff.mp h
    exact .inl ⟨draws, nonce, rfl, rfl⟩
  | await attempt =>
    change s.await attempt = some s' at h
    unfold await at h
    split_ifs at h with hmem
    exact .inr (.inl ⟨attempt, hmem, rfl, (Option.some_inj.mp h).symm⟩)
  | didCompleteWithAuthorization attempt identityToken =>
    change s.didCompleteWithAuthorization attempt identityToken = some s' at h
    unfold didCompleteWithAuthorization at h
    split_ifs at h with hmem
    cases hcredential : s.credential attempt identityToken with
    | some credential =>
      rw [hcredential] at h
      obtain ⟨idToken, rawNonce, rfl, hnonce, rfl⟩ := credential_eq_some hcredential
      exact .inr (.inr (.inl ⟨attempt, hmem, idToken, rawNonce, rfl, hnonce,
        (Option.some_inj.mp h).symm⟩))
    | none =>
      rw [hcredential] at h
      have hanswers : answers (.didCompleteWithAuthorization attempt identityToken) s =
          s.resume attempt .missingAppleIDToken := if_pos hcredential
      refine .inr (.inr (.inr (.inl ⟨attempt, hmem, .missingAppleIDToken, rfl, hanswers, ?_,
        (Option.some_inj.mp h).symm⟩)))
      unfold moves
      rw [hanswers, map_attempt_resume]
  | didCompleteWithError attempt description =>
    change s.didCompleteWithError attempt = some s' at h
    unfold didCompleteWithError at h
    split_ifs at h with hmem
    refine .inr (.inr (.inr (.inl ⟨attempt, hmem, .error description, rfl, rfl, ?_,
      (Option.some_inj.mp h).symm⟩)))
    unfold moves answers
    rw [map_attempt_resume]
  | signedIn credential result =>
    change s.signedIn credential = some s' at h
    unfold signedIn at h
    split_ifs at h with hmem
    exact .inr (.inr (.inr (.inr ⟨credential, hmem, result, rfl, (Option.some_inj.mp h).symm⟩)))

/-- Every step moves the held attempts as its entry of the ledger says. -/
theorem balanced_step (h : step e s = some s') :
    Ledger.Balanced id s.held (moves e s) s'.held := by
  obtain ⟨draws, nonce, rfl, rfl⟩ | ⟨attempt, hmem, rfl, rfl⟩ |
    ⟨attempt, -, idToken, rawNonce, rfl, hnonce, rfl⟩ | ⟨attempt, -, outcome, -, -, hmoves, rfl⟩ |
    ⟨credential, -, result, rfl, rfl⟩ := step_cases h
  · unfold Ledger.Balanced held moves answers
    simpa using List.perm_append_singleton s.requests.length (s.starting ++ s.continuation.toList)
  · have hwait : (s.starting ++ s.continuation.toList).Perm
        (s.starting.erase attempt ++ attempt :: s.continuation.toList) :=
      ((List.perm_cons_erase hmem).append_right s.continuation.toList).trans List.perm_middle.symm
    unfold Ledger.Balanced held moves answers
    simpa using hwait
  · have hmoves : moves (.didCompleteWithAuthorization attempt (some idToken)) s = {} := by
      simp [moves, answers, credential, hnonce]
    rw [hmoves]
    exact Ledger.Balanced.refl s.held
  · rw [hmoves]
    exact balanced_resume (List.append_nil s.starting)
  · have hmoves : moves (.signedIn credential result) s =
        { delivered := s.continuation.toList } := by
      simp [moves, answers]
    rw [hmoves]
    exact balanced_resume (List.append_nil s.starting)

/-- The attempts enter one after the other. -/
theorem range_step (h : step e s = some s') :
    List.range s.requests.length ++ (moves e s).entered = List.range s'.requests.length := by
  obtain ⟨draws, nonce, rfl, rfl⟩ | ⟨attempt, -, rfl, rfl⟩ |
    ⟨attempt, -, idToken, rawNonce, rfl, -, rfl⟩ | ⟨attempt, -, outcome, -, -, hmoves, rfl⟩ |
    ⟨credential, -, result, rfl, rfl⟩ := step_cases h
  · simp [moves, List.range_succ]
  · simp [moves]
  · simp [moves]
  · simp [hmoves]
  · simp [moves]

/-- The attempts of a run are numbered in the order of their requests. -/
theorem range_run {ls : List AppleEvent} (hr : Runs.run step ls s = some t) :
    List.range s.requests.length ++ (Moves.total step moves ls s).entered =
      List.range t.requests.length := by
  induction ls generalizing s with
  | nil =>
    obtain rfl := Option.some_inj.mp hr
    exact List.append_nil _
  | cons e ls ih =>
    obtain ⟨s', hs', hr'⟩ := Runs.run_cons_eq_some.mp hr
    rw [Moves.total_cons hs', ← ih hr', ← range_step hs', List.append_assoc]
    rfl

/-- Every attempt of a run is held, answered or dropped, and only once. -/
theorem count_run {ls : List AppleEvent} (hr : Runs.run step ls {} = some t) {attempt : ℕ}
    (hattempt : attempt < t.requests.length) :
    t.held.count attempt + (Moves.total step moves ls {}).delivered.count attempt +
      (Moves.total step moves ls {}).dropped.count attempt = 1 := by
  have hbalanced : Ledger.Balanced id ({} : AppleSignIns).held (Moves.total step moves ls {})
      t.held :=
    Ledger.Balanced.of_run (I := fun _ => True) (fun _ _ _ _ _ => trivial)
      (fun _ _ _ _ hs => balanced_step hs) trivial hr
  have hentered : ({} : AppleSignIns).held ++ (Moves.total step moves ls {}).entered =
      List.range t.requests.length := range_run hr
  have honce := hbalanced.once (by rw [hentered, List.map_id]; exact List.nodup_range)
    (by rw [hentered, List.map_id]; exact List.mem_range.mpr hattempt)
  simpa only [List.map_id] using honce

/-- Every attempt is held, answered or lost its place, exactly once. -/
theorem accounted_attempts_run {ls : List AppleEvent} (hr : Runs.run step ls {} = some t) :
    ∀ attempt < t.requests.length,
      t.held.count attempt + (Moves.total step moves ls {}).delivered.count attempt +
        (Moves.total step moves ls {}).dropped.count attempt = 1 :=
  fun _ hattempt => count_run hr hattempt

/-- Two draws of the same bytes around a failed one. -/
def sampleDraws (byte : UInt8) : List (Option (List UInt8)) :=
  [some (List.replicate 16 byte), none, some (List.replicate 16 byte)]

/-- A second attempt takes the place of the first, and gets its error. -/
def takenPlace : List AppleEvent :=
  [.signIn (sampleDraws 0), .await 0, .signIn (sampleDraws 1), .await 1,
    .didCompleteWithError 0 "cancelled"]

example : Ledger.logged step answers takenPlace {} = [⟨1, 0, .error "cancelled"⟩] := by
  decide

theorem accounted_attempts_run_sample : ∃ t, Runs.run step takenPlace {} = some t ∧
    t.requests.length = 2 ∧ ∀ attempt < t.requests.length,
      t.held.count attempt + (Moves.total step moves takenPlace {}).delivered.count attempt +
        (Moves.total step moves takenPlace {}).dropped.count attempt = 1 := by
  obtain ⟨t, ht⟩ := Option.isSome_iff_exists.mp
    (by decide : (Runs.run step takenPlace {}).isSome)
  have hlength : (Runs.run step takenPlace {}).map (·.requests.length) = some 2 := by decide
  refine ⟨t, ht, ?_, accounted_attempts_run ht⟩
  rw [ht] at hlength
  exact Option.some_inj.mp hlength

/-! ## One attempt after the other -/

/-- An attempt starts when no other is held, and its callback comes when it waits. -/
def Apart (e : AppleEvent) (s : AppleSignIns) : Prop :=
  match e with
  | .signIn _ => s.held = []
  | .didCompleteWithAuthorization attempt _ => attempt ∉ s.starting
  | .didCompleteWithError attempt _ => attempt ∉ s.starting
  | _ => True

instance (e : AppleEvent) (s : AppleSignIns) : Decidable (Apart e s) := by
  unfold Apart
  split <;> infer_instance

/-- The attempt that is held has its request out, or its credential. -/
structure Pending (s : AppleSignIns) (attempt : ℕ) (nonce : String) : Prop where
  held : s.held = [attempt]
  request : s.requests[attempt]? = some nonce
  currentNonce : s.currentNonce = some nonce
  under_way : s.performing = [attempt] ∧ s.credentials = [] ∨
    s.performing = [] ∧ s.starting = [] ∧ ∃ idToken, s.credentials = [⟨attempt, idToken, nonce⟩]

/-- Nothing is under way, or one attempt. -/
def Sequential (s : AppleSignIns) : Prop :=
  s.held = [] ∧ s.performing = [] ∧ s.credentials = [] ∨ ∃ attempt nonce, Pending s attempt nonce

theorem Pending.places {attempt : ℕ} {nonce : String} (h : Pending s attempt nonce) :
    s.starting = [] ∧ s.continuation = some attempt ∨
      s.starting = [attempt] ∧ s.continuation = none := by
  rcases List.append_eq_singleton_iff.mp h.held with ⟨hstarting, hcontinuation⟩ |
    ⟨hstarting, hcontinuation⟩
  · exact .inl ⟨hstarting, by simpa using hcontinuation⟩
  · exact .inr ⟨hstarting, by simpa using hcontinuation⟩

/-- The callback of an attempt that waits. -/
theorem Pending.of_mem_performing {attempt source : ℕ} {nonce : String}
    (h : Pending s attempt nonce) (hmem : source ∈ s.performing) (hapart : source ∉ s.starting) :
    source = attempt ∧ s.starting = [] ∧ s.continuation = some attempt ∧
      s.performing = [attempt] ∧ s.credentials = [] := by
  rcases h.under_way with ⟨hperforming, hcredentials⟩ | ⟨hperforming, -, -⟩
  · obtain rfl : source = attempt := by simpa [hperforming] using hmem
    rcases h.places with ⟨hstarting, hcontinuation⟩ | ⟨hstarting, -⟩
    · exact ⟨rfl, hstarting, hcontinuation, hperforming, hcredentials⟩
    · simp [hstarting] at hapart
  · simp [hperforming] at hmem

theorem Pending.of_mem_credentials {attempt : ℕ} {nonce : String} {credential : AppleCredential}
    (h : Pending s attempt nonce) (hmem : credential ∈ s.credentials) :
    credential.source = attempt ∧ credential.rawNonce = nonce ∧ s.starting = [] ∧
      s.continuation = some attempt ∧ s.performing = [] ∧ s.credentials = [credential] := by
  rcases h.under_way with ⟨-, hcredentials⟩ | ⟨hperforming, hstarting, idToken, hcredentials⟩
  · simp [hcredentials] at hmem
  · obtain rfl : credential = ⟨attempt, idToken, nonce⟩ := by simpa [hcredentials] using hmem
    have hcontinuation : s.continuation = some attempt := by
      simpa [hstarting] using h.places
    exact ⟨rfl, rfl, hstarting, hcontinuation, hperforming, hcredentials⟩

theorem Apart.not_mem_starting {source : ℕ} (hg : Apart e s) (he : e.source = some source) :
    source ∉ s.starting := by
  rcases e with _ | _ | ⟨attempt, _⟩ | ⟨attempt, _⟩ | _
  · simp [AppleEvent.source] at he
  · simp [AppleEvent.source] at he
  · obtain rfl := Option.some_inj.mp he
    exact hg
  · obtain rfl := Option.some_inj.mp he
    exact hg
  · simp [AppleEvent.source] at he

/-- Who is under way if a request can call back, or a credential can be answered. -/
theorem Sequential.pending (hi : Sequential s) (h : s.performing ≠ [] ∨ s.credentials ≠ []) :
    ∃ attempt nonce, Pending s attempt nonce := by
  rcases hi with ⟨-, hperforming, hcredentials⟩ | hpending
  · simp [hperforming, hcredentials] at h
  · exact hpending

/-- Where the attempts do not overlap, at most one of them is under way. -/
theorem sequential_step (hi : Sequential s) (hg : Apart e s) (h : step e s = some s') :
    Sequential s' := by
  obtain ⟨draws, nonce, rfl, rfl⟩ | ⟨attempt, hmem, rfl, rfl⟩ |
    ⟨attempt, hmem, idToken, rawNonce, rfl, hnonce, rfl⟩ |
    ⟨attempt, hmem, outcome, hsource, -, -, rfl⟩ | ⟨credential, hmem, result, rfl, rfl⟩ :=
      step_cases h
  · have hheld : s.held = [] := hg
    rcases hi with ⟨-, hperforming, hcredentials⟩ | ⟨attempt, nonce, hpending⟩
    · refine .inr ⟨s.requests.length, nonce, ?_, by simp, rfl, .inl ?_⟩
      · exact congrArg (s.requests.length :: ·) hheld
      · simp [hperforming, hcredentials]
    · simp [hpending.held] at hheld
  · rcases hi with ⟨hheld, -, -⟩ | ⟨a, nonce, hpending⟩
    · have hstarting : s.starting = [] := (List.append_eq_nil_iff.mp hheld).1
      simp [hstarting] at hmem
    · rcases hpending.places with ⟨hstarting, -⟩ | ⟨hstarting, -⟩
      · simp [hstarting] at hmem
      · obtain rfl : attempt = a := by simpa [hstarting] using hmem
        refine .inr ⟨attempt, nonce, ?_, hpending.request, hpending.currentNonce, .inl ?_⟩
        · simp [held, hstarting]
        · rcases hpending.under_way with hunder | ⟨-, hnone, -⟩
          · exact hunder
          · simp [hstarting] at hnone
  · obtain ⟨a, nonce, hpending⟩ := hi.pending (.inl (List.ne_nil_of_mem hmem))
    obtain ⟨rfl, hstarting, hcontinuation, hperforming, hcredentials⟩ :=
      hpending.of_mem_performing hmem (hg.not_mem_starting rfl)
    obtain rfl : nonce = rawNonce := Option.some_inj.mp (hpending.currentNonce.symm.trans hnonce)
    refine .inr ⟨attempt, nonce, hpending.held, hpending.request, hnonce, .inr ⟨?_, hstarting, ?_⟩⟩
    · simp [hperforming]
    · simp [hcredentials]
  · obtain ⟨a, nonce, hpending⟩ := hi.pending (.inl (List.ne_nil_of_mem hmem))
    obtain ⟨rfl, hstarting, -, hperforming, hcredentials⟩ :=
      hpending.of_mem_performing hmem (hg.not_mem_starting hsource)
    exact .inl ⟨by simp [held, hstarting], by simp [hperforming], hcredentials⟩
  · obtain ⟨a, nonce, hpending⟩ := hi.pending (.inr (List.ne_nil_of_mem hmem))
    obtain ⟨-, -, hstarting, -, hperforming, hcredentials⟩ := hpending.of_mem_credentials hmem
    exact .inl ⟨by simp [held, hstarting], hperforming, by simp [hcredentials]⟩

/-- What comes of a request answers its own attempt. -/
theorem own_answer_step (hi : Sequential s) (hg : Apart e s) (h : step e s = some s') :
    ∀ answer ∈ answers e s, answer.source = answer.attempt := by
  intro answer hanswer
  obtain ⟨draws, nonce, rfl, -⟩ | ⟨attempt, -, rfl, -⟩ |
    ⟨attempt, -, idToken, rawNonce, rfl, hnonce, -⟩ |
    ⟨attempt, hmem, outcome, hsource, hanswers, -, -⟩ | ⟨credential, hmem, result, rfl, -⟩ :=
      step_cases h
  · simp [answers] at hanswer
  · simp [answers] at hanswer
  · simp [answers, credential, hnonce] at hanswer
  · obtain ⟨a, nonce, hpending⟩ := hi.pending (.inl (List.ne_nil_of_mem hmem))
    obtain ⟨rfl, -, hcontinuation, -, -⟩ :=
      hpending.of_mem_performing hmem (hg.not_mem_starting hsource)
    obtain rfl : answer = ⟨attempt, attempt, outcome⟩ := by
      simpa [hanswers, resume, hcontinuation] using hanswer
    rfl
  · obtain ⟨a, nonce, hpending⟩ := hi.pending (.inr (List.ne_nil_of_mem hmem))
    obtain ⟨rfl, -, -, hcontinuation, -, -⟩ := hpending.of_mem_credentials hmem
    obtain rfl : answer = ⟨credential.source, credential.source, outcome result⟩ := by
      simpa [answers, resume, hcontinuation] using hanswer
    rfl

/-- Nobody loses its place. -/
theorem dropped_step (hi : Sequential s) (h : step e s = some s') :
    (moves e s).dropped = [] := by
  obtain ⟨draws, nonce, rfl, -⟩ | ⟨attempt, hmem, rfl, -⟩ |
    ⟨attempt, -, idToken, rawNonce, rfl, -, -⟩ | ⟨attempt, -, outcome, -, -, hmoves, -⟩ |
    ⟨credential, -, result, rfl, -⟩ := step_cases h
  · rfl
  · change s.continuation.toList = []
    rcases hi with ⟨hheld, -, -⟩ | ⟨a, nonce, hpending⟩
    · exact (List.append_eq_nil_iff.mp hheld).2
    · rcases hpending.places with ⟨hstarting, -⟩ | ⟨-, hcontinuation⟩
      · simp [hstarting] at hmem
      · simp [hcontinuation]
  · rfl
  · rw [hmoves]
  · rfl

theorem sequential_empty : Sequential {} :=
  .inl ⟨rfl, rfl, rfl⟩

/-- If the attempts come one after the other, each but the last is answered, once, by what came of
its own request, and Firebase is asked with the nonce of that request. -/
theorem own_answers_run {ls : List AppleEvent} (hg : Runs.Guarded step Apart ls {})
    (hr : Runs.run step ls {} = some t) :
    (∀ answer ∈ Ledger.logged step answers ls {}, answer.source = answer.attempt) ∧
      (∀ credential ∈ t.credentials, t.requests[credential.source]? = some credential.rawNonce) ∧
        t.held.length ≤ 1 ∧ ∀ attempt < t.requests.length, attempt ∉ t.held →
          (Moves.total step moves ls {}).delivered.count attempt = 1 := by
  have hkeep : ∀ l s s', Sequential s → Apart l s → step l s = some s' → Sequential s' :=
    fun _ _ _ hi hapart hs => sequential_step hi hapart hs
  have ht : Sequential t := Runs.invariant_of_guarded hkeep sequential_empty hg hr
  have hdropped : (Moves.total step moves ls {}).dropped = [] := by
    rw [Ledger.dropped_total hr, List.eq_nil_iff_forall_not_mem]
    refine Ledger.forall_logged (P := fun _ => False) hkeep ?_ sequential_empty hg hr
    intro l s s' hi _ hs b hb
    rw [dropped_step hi hs] at hb
    exact absurd hb List.not_mem_nil
  refine ⟨?_, ?_, ?_, ?_⟩
  · exact Ledger.forall_logged hkeep (fun _ _ _ hi hapart hs => own_answer_step hi hapart hs)
      sequential_empty hg hr
  · intro credential hmem
    obtain ⟨attempt, nonce, hpending⟩ := ht.pending (.inr (List.ne_nil_of_mem hmem))
    obtain ⟨rfl, rfl, -⟩ := hpending.of_mem_credentials hmem
    exact hpending.request
  · rcases ht with ⟨hheld, -, -⟩ | ⟨attempt, nonce, hpending⟩
    · simp [hheld]
    · simp [hpending.held]
  · intro attempt hattempt hheld
    have hcount := count_run hr hattempt
    rw [hdropped, List.count_nil, List.count_eq_zero_of_not_mem hheld] at hcount
    omega

/-- One attempt fails, and the next one succeeds with its own nonce. -/
def oneByOne : List AppleEvent :=
  [.signIn (sampleDraws 0), .await 0, .didCompleteWithError 0 "cancelled",
    .signIn (sampleDraws 1), .await 1, .didCompleteWithAuthorization 1 (some "token"),
    .signedIn ⟨1, "token", "11111111111111111111111111111111"⟩ (.ok "uid")]

theorem own_answers_run_sample : ∃ t, Runs.run step oneByOne {} = some t ∧
    ∀ answer ∈ Ledger.logged step answers oneByOne {}, answer.source = answer.attempt := by
  have hg : Runs.Guarded step Apart oneByOne {} := by decide
  obtain ⟨t, ht⟩ := Option.isSome_iff_exists.mp
    (by decide : (Runs.run step oneByOne {}).isSome)
  exact ⟨t, ht, (own_answers_run hg ht).1⟩

end AppleSignIns

end Notelayer
