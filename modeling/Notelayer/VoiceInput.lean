import Notelayer.Library.Runs

/-!
# Recording

`VoiceInputController` starts in two pieces, around the questions for permission. Its handler
leaves tasks on the main actor that run at any later time, also after the next start, and the
system may stop the audio engine.

Over every run there is one recognition at most while the controller records, and none
otherwise, each older one was cancelled, and no request gets audio after its end
(`VoiceInput.recording_run`). After `stopRecording()` nothing is recorded until the next start,
exactly if no start waits for its answers (`VoiceInput.silent_iff`).
-/

namespace Notelayer

/-- What a request and its recognition are told. -/
inductive RecognitionCall where
  | recognitionTask (request : ℕ)
  | append (request : ℕ)
  | endAudio (request : ℕ)
  | cancel (request : ℕ)
  deriving DecidableEq

/-- The request that a call is about. -/
def RecognitionCall.request : RecognitionCall → ℕ
  | recognitionTask request => request
  | append request => request
  | endAudio request => request
  | cancel request => request

/-- What the result handler leaves to the main actor. -/
inductive VoiceHandlerTask where
  | transcript (formattedString : String)
  | stopRecording
  deriving DecidableEq

/-- How the second piece of a start finds its surroundings. -/
structure VoiceAnswers where
  speechAuthorized : Bool := true
  microphoneAuthorized : Bool := true
  /-- There is a speech recognizer, and it is available. -/
  isAvailable : Bool := true
  /-- `setCategory` and `setActive` do not throw. -/
  sessionStarts : Bool := true
  /-- `audioEngine.start()` does not throw. -/
  engineStarts : Bool := true
  deriving DecidableEq

/-- The controller, its audio engine and what waits for it. -/
structure VoiceInput where
  transcript : String := ""
  isRecording : Bool := false
  permissionDeniedMessage : Option String := none
  errorMessage : Option String := none
  recognitionRequest : Option ℕ := none
  recognitionTask : Option ℕ := none
  /-- `audioEngine.isRunning`. -/
  isRunning : Bool := false
  hasTap : Bool := false
  /-- The requests made so far. -/
  requests : ℕ := 0
  /-- The starts that wait for permission. -/
  starting : ℕ := 0
  handlerTasks : List VoiceHandlerTask := []
  /-- All calls so far. -/
  calls : List RecognitionCall := []
  deriving DecidableEq

/-- A step of the voice input. -/
inductive VoiceInputEvent where
  /-- `startRecording()` up to the questions for permission. -/
  | startRecording
  /-- The rest of it. -/
  | answered (answers : VoiceAnswers)
  | stopRecording
  | reset
  /-- The text editor. -/
  | edited (transcript : String)
  /-- A tapped buffer. -/
  | buffer
  /-- A recognition calls its result handler. -/
  | result (request : ℕ) (formattedString : Option String) (failed : Bool)
  | handlerTask (task : VoiceHandlerTask)
  /-- The system stops the engine. -/
  | interruption
  deriving DecidableEq

namespace VoiceInput

variable (s : VoiceInput)

/-- Ends the recording, and cancels the recognition. -/
def stopRecording : VoiceInput :=
  { s with
    isRunning := false
    hasTap := s.hasTap && !s.isRunning
    calls := s.calls ++ s.recognitionRequest.toList.map .endAudio ++
      s.recognitionTask.toList.map .cancel
    recognitionTask := none
    recognitionRequest := none
    isRecording := false }

/-- Empties what the sheet shows. -/
def reset : VoiceInput :=
  { s.stopRecording with transcript := "", errorMessage := none, permissionDeniedMessage := none }

/-- A start that threw. -/
def failed : VoiceInput :=
  { s.stopRecording with errorMessage := some "Could not start voice recording." }

/-- The `do` block after the session is active. The tap that may be there is removed first. -/
def recording (engineStarts : Bool) : VoiceInput :=
  let s := { s with
    requests := s.requests + 1
    recognitionRequest := some s.requests
    hasTap := true }
  if engineStarts then
    { s with
      isRunning := true
      recognitionTask := s.recognitionRequest
      calls := s.calls ++ s.recognitionRequest.toList.map .recognitionTask
      isRecording := true }
  else s.failed

/-- A start after its questions. -/
def answered (answers : VoiceAnswers) : VoiceInput :=
  if !answers.speechAuthorized || !answers.microphoneAuthorized then
    { s with
      permissionDeniedMessage :=
        some "Microphone and speech recognition access are required for voice input." }
  else
    let s := { s with permissionDeniedMessage := none }
    if answers.isAvailable then
      let s := s.stopRecording
      if answers.sessionStarts then s.recording answers.engineStarts else s.failed
    else { s with errorMessage := some "Speech recognition is currently unavailable." }

/-- The tasks of the result handler. -/
def resultTasks (formattedString : Option String) (failed : Bool) : List VoiceHandlerTask :=
  formattedString.toList.map .transcript ++ if failed then [.stopRecording] else []

/-- A task that a handler has spawned for the main actor. -/
def handle : VoiceHandlerTask → VoiceInput
  | .transcript formattedString => { s with transcript := formattedString }
  | .stopRecording => s.stopRecording

/-- The step function of the voice input. -/
def step (e : VoiceInputEvent) (s : VoiceInput) : Option VoiceInput :=
  match e with
  | .startRecording => some { s with errorMessage := none, starting := s.starting + 1 }
  | .answered answers =>
    if 0 < s.starting then some ({ s with starting := s.starting - 1 }.answered answers) else none
  | .stopRecording => some s.stopRecording
  | .reset => some s.reset
  | .edited transcript => some { s with transcript }
  | .buffer =>
    if s.isRunning ∧ s.hasTap then
      some { s with calls := s.calls ++ s.recognitionRequest.toList.map .append }
    else none
  | .result request formattedString failed =>
    if .recognitionTask request ∈ s.calls then
      some { s with handlerTasks := s.handlerTasks ++ resultTasks formattedString failed }
    else none
  | .handlerTask task =>
    if task ∈ s.handlerTasks then
      some ({ s with handlerTasks := s.handlerTasks.erase task }.handle task)
    else none
  | .interruption => some { s with isRunning := false }

/-! ## Calls in order -/

/-- A call that may come after another one : none for a cancelled recognition, and after the end
of the audio only the cancellation. -/
def MayFollow : RecognitionCall → RecognitionCall → Prop
  | .cancel request, d => d.request ≠ request
  | .endAudio request, d => d.request = request → d = .cancel request
  | _, _ => True

/-- The recognition is the one of the request, and no call told either to end. -/
structure Recording (s : VoiceInput) : Prop where
  isRecording : s.isRecording = s.recognitionTask.isSome
  recognitionRequest : s.recognitionRequest = s.recognitionTask
  isRunning : s.isRunning = true → s.isRecording = true
  /-- The requests are numbered. -/
  known : ∀ c ∈ s.calls, c.request < s.requests
  current : ∀ request, s.recognitionTask = some request →
    .recognitionTask request ∈ s.calls ∧ .endAudio request ∉ s.calls ∧ .cancel request ∉ s.calls
  /-- An older recognition was cancelled. -/
  older : ∀ request, .recognitionTask request ∈ s.calls →
    s.recognitionTask = some request ∨ .cancel request ∈ s.calls
  ordered : s.calls.Pairwise MayFollow

variable {s} {e : VoiceInputEvent} {s' t : VoiceInput}

/-- What the calls and the recognition do not see. -/
theorem Recording.congr (h : s.Recording) (hrecording : s'.isRecording = s.isRecording)
    (hrequest : s'.recognitionRequest = s.recognitionRequest)
    (htask : s'.recognitionTask = s.recognitionTask)
    (hrunning : s'.isRunning = true → s.isRunning = true) (hrequests : s'.requests = s.requests)
    (hcalls : s'.calls = s.calls) : s'.Recording where
  isRecording := by rw [hrecording, htask, h.isRecording]
  recognitionRequest := by rw [hrequest, htask, h.recognitionRequest]
  isRunning hrun := by rw [hrecording, h.isRunning (hrunning hrun)]
  known := by simpa only [hcalls, hrequests] using h.known
  current := by simpa only [hcalls, htask] using h.current
  older := by simpa only [hcalls, htask] using h.older
  ordered := by simpa only [hcalls] using h.ordered

/-- Nothing was said about a new request. -/
theorem mayFollow_of_lt {c d : RecognitionCall} (h : c.request < d.request) : MayFollow c d := by
  rcases c with request | request | request | request
  · trivial
  · trivial
  · intro hd
    exact absurd hd (Nat.ne_of_gt h)
  · exact Nat.ne_of_gt h

/-- What may be told to the request of the recognition. -/
theorem Recording.mayFollow (h : s.Recording) {request : ℕ}
    (htask : s.recognitionTask = some request) {d : RecognitionCall} (hd : d.request = request) :
    ∀ c ∈ s.calls, MayFollow c d := by
  obtain ⟨-, hend, hcancel⟩ := h.current request htask
  intro c hc
  rcases c with r | r | r | r
  · trivial
  · trivial
  · rintro rfl
    exact absurd (hd ▸ hc) hend
  · rintro rfl
    exact absurd (hd ▸ hc) hcancel

/-- A stop leaves no recording behind. -/
theorem Recording.stopRecording (h : s.Recording) : s.stopRecording.Recording := by
  cases htask : s.recognitionTask with
  | none =>
    have hcalls : s.stopRecording.calls = s.calls := by
      simp [VoiceInput.stopRecording, h.recognitionRequest, htask]
    refine ⟨rfl, rfl, nofun, ?_, nofun, ?_, ?_⟩
    · rw [hcalls]
      exact h.known
    · intro request hmem
      rw [hcalls] at hmem ⊢
      exact .inr (by simpa [htask] using h.older request hmem)
    · rw [hcalls]
      exact h.ordered
  | some request =>
    have hcalls : s.stopRecording.calls = s.calls ++ [.endAudio request, .cancel request] := by
      simp [VoiceInput.stopRecording, h.recognitionRequest, htask]
    obtain ⟨hmem, -, -⟩ := h.current request htask
    have hlt : request < s.requests := h.known _ hmem
    refine ⟨rfl, rfl, nofun, ?_, nofun, ?_, ?_⟩
    · intro c hc
      rw [hcalls] at hc
      rcases List.mem_append.mp hc with hc | hc
      · exact h.known c hc
      · rcases List.mem_pair.mp hc with rfl | rfl
        · exact hlt
        · exact hlt
    · intro r hr
      rw [hcalls] at hr ⊢
      have hold : .recognitionTask r ∈ s.calls := by simpa using hr
      rcases h.older r hold with hcurrent | hcancel
      · obtain rfl : request = r := Option.some_inj.mp (htask.symm.trans hcurrent)
        simp
      · exact .inr (List.mem_append_left _ hcancel)
    · rw [hcalls, List.pairwise_append]
      refine ⟨h.ordered, ?_, ?_⟩
      · simp [MayFollow]
      · intro c hc d hd
        refine h.mayFollow htask ?_ c hc
        rcases List.mem_pair.mp hd with rfl | rfl
        · rfl
        · rfl

/-- A start records where no recognition is under way. -/
theorem Recording.recording (h : s.Recording) (htask : s.recognitionTask = none)
    (engineStarts : Bool) : (s.recording engineStarts).Recording := by
  have hknown : ∀ d : RecognitionCall, d.request = s.requests →
      ∀ c ∈ s.calls ++ [d], c.request < s.requests + 1 := by
    intro d hd c hc
    rcases List.mem_append.mp hc with hc | hc
    · exact Nat.lt_succ_of_lt (h.known c hc)
    · obtain rfl := List.mem_singleton.mp hc
      omega
  have hordered : ∀ d : RecognitionCall, d.request = s.requests →
      (s.calls ++ [d]).Pairwise MayFollow := by
    intro d hd
    rw [List.pairwise_append]
    refine ⟨h.ordered, List.pairwise_singleton _ _, fun c hc d' hd' => ?_⟩
    obtain rfl := List.mem_singleton.mp hd'
    exact mayFollow_of_lt (hd ▸ h.known c hc)
  have holder : ∀ request, .recognitionTask request ∈ s.calls → .cancel request ∈ s.calls :=
    fun request hmem => by simpa [htask] using h.older request hmem
  cases engineStarts with
  | true =>
    have hcalls : (s.recording true).calls = s.calls ++ [.recognitionTask s.requests] := rfl
    refine ⟨rfl, rfl, fun _ => rfl, ?_, ?_, ?_, ?_⟩
    · rw [hcalls]
      exact hknown _ rfl
    · intro request hrequest
      obtain rfl : s.requests = request := Option.some_inj.mp hrequest
      rw [hcalls]
      refine ⟨by simp, ?_, ?_⟩
      · intro hmem
        exact absurd (h.known _ (by simpa using hmem)) (Nat.lt_irrefl _)
      · intro hmem
        exact absurd (h.known _ (by simpa using hmem)) (Nat.lt_irrefl _)
    · intro request hmem
      rw [hcalls] at hmem ⊢
      rcases List.mem_append.mp hmem with hmem | hmem
      · exact .inr (List.mem_append_left _ (holder request hmem))
      · obtain rfl : request = s.requests := by simpa using hmem
        exact .inl rfl
    · rw [hcalls]
      exact hordered _ rfl
  | false =>
    have hcalls : (s.recording false).calls = s.calls ++ [.endAudio s.requests] := by
      simp [VoiceInput.recording, failed, VoiceInput.stopRecording, htask]
    refine ⟨rfl, rfl, nofun, ?_, nofun, ?_, ?_⟩
    · rw [hcalls]
      exact hknown _ rfl
    · intro request hmem
      rw [hcalls] at hmem ⊢
      exact .inr (List.mem_append_left _ (holder request (by simpa using hmem)))
    · rw [hcalls]
      exact hordered _ rfl

/-- The answers start a recording, or none. -/
theorem Recording.answered (h : s.Recording) (answers : VoiceAnswers) :
    (s.answered answers).Recording := by
  have hstop : ({ s with permissionDeniedMessage := none } : VoiceInput).stopRecording.Recording :=
    Recording.stopRecording (h.congr rfl rfl rfl (fun hrun => hrun) rfl rfl)
  unfold VoiceInput.answered
  dsimp only
  split_ifs
  · exact h.congr rfl rfl rfl (fun hrun => hrun) rfl rfl
  · exact hstop.recording rfl answers.engineStarts
  · exact hstop.stopRecording.congr rfl rfl rfl (fun hrun => hrun) rfl rfl
  · exact h.congr rfl rfl rfl (fun hrun => hrun) rfl rfl

/-- A tapped buffer goes to the request of the recognition. -/
theorem Recording.buffer (h : s.Recording) (hrunning : s.isRunning = true) :
    ({ s with calls := s.calls ++ s.recognitionRequest.toList.map .append } :
      VoiceInput).Recording := by
  obtain ⟨request, htask⟩ : ∃ request, s.recognitionTask = some request :=
    Option.isSome_iff_exists.mp (h.isRecording.symm.trans (h.isRunning hrunning))
  obtain ⟨hmem, hend, hcancel⟩ := h.current request htask
  have hrequest : s.recognitionRequest.toList.map RecognitionCall.append = [.append request] := by
    simp [h.recognitionRequest, htask]
  rw [hrequest]
  refine ⟨h.isRecording, h.recognitionRequest, h.isRunning, ?_, ?_, ?_, ?_⟩
  · intro c hc
    rcases List.mem_append.mp hc with hc | hc
    · exact h.known c hc
    · obtain rfl := List.mem_singleton.mp hc
      exact h.known (.recognitionTask request) hmem
  · intro r hr
    obtain ⟨hmem, hend, hcancel⟩ := h.current r hr
    exact ⟨List.mem_append_left _ hmem, by simpa using hend, by simpa using hcancel⟩
  · intro r hr
    rcases h.older r (by simpa using hr) with hcurrent | hold
    · exact .inl hcurrent
    · exact .inr (List.mem_append_left _ hold)
  · rw [List.pairwise_append]
    refine ⟨h.ordered, List.pairwise_singleton _ _, ?_⟩
    intro c hc d hd
    obtain rfl := List.mem_singleton.mp hd
    exact h.mayFollow htask rfl c hc

/-- Every step keeps the recording in order. -/
theorem recording_step (h : s.Recording) (hs : step e s = some s') : s'.Recording := by
  cases e with
  | startRecording =>
    obtain rfl := Option.some_inj.mp hs
    exact h.congr rfl rfl rfl (fun hrun => hrun) rfl rfl
  | answered answers =>
    rw [step] at hs
    split_ifs at hs
    obtain rfl := Option.some_inj.mp hs
    have hrest : ({ s with starting := s.starting - 1 } : VoiceInput).Recording :=
      h.congr rfl rfl rfl (fun hrun => hrun) rfl rfl
    exact hrest.answered answers
  | stopRecording =>
    obtain rfl := Option.some_inj.mp hs
    exact h.stopRecording
  | reset =>
    obtain rfl := Option.some_inj.mp hs
    exact h.stopRecording.congr rfl rfl rfl (fun hrun => hrun) rfl rfl
  | edited transcript =>
    obtain rfl := Option.some_inj.mp hs
    exact h.congr rfl rfl rfl (fun hrun => hrun) rfl rfl
  | buffer =>
    rw [step] at hs
    split_ifs at hs with hrun
    obtain rfl := Option.some_inj.mp hs
    exact h.buffer hrun.1
  | result request formattedString failed =>
    rw [step] at hs
    split_ifs at hs
    obtain rfl := Option.some_inj.mp hs
    exact h.congr rfl rfl rfl (fun hrun => hrun) rfl rfl
  | handlerTask task =>
    rw [step] at hs
    split_ifs at hs
    obtain rfl := Option.some_inj.mp hs
    have hrest : ({ s with handlerTasks := s.handlerTasks.erase task } : VoiceInput).Recording :=
      h.congr rfl rfl rfl (fun hrun => hrun) rfl rfl
    rcases task with formattedString | _
    · exact hrest.congr rfl rfl rfl (fun hrun => hrun) rfl rfl
    · exact hrest.stopRecording
  | interruption =>
    obtain rfl := Option.some_inj.mp hs
    exact h.congr rfl rfl rfl (fun hrun => absurd hrun nofun) rfl rfl

/-- Over every run, whatever the order of starts, answers, handlers and interruptions, the
controller records exactly with one recognition, which alone is not cancelled, the engine runs only
then, and the calls of each request are in order. -/
theorem recording_run {ls : List VoiceInputEvent} (hr : Runs.run step ls {} = some t) :
    t.Recording := by
  have hempty : ({} : VoiceInput).Recording :=
    ⟨rfl, rfl, nofun, nofun, nofun, nofun, .nil⟩
  exact Runs.invariant_of_run (fun _ _ _ h hs => recording_step h hs) hempty hr

/-- The error of a recognition comes after the next start, and stops its recording. -/
def lateError : List VoiceInputEvent :=
  [.startRecording, .answered {}, .buffer, .result 0 (some "buy milk") true, .stopRecording,
    .startRecording, .answered {}, .handlerTask .stopRecording]

example : (Runs.run step lateError {}).map calls = some [.recognitionTask 0, .append 0,
    .endAudio 0, .cancel 0, .recognitionTask 1, .endAudio 1, .cancel 1] := by
  decide

theorem recording_run_sample : ∃ t, Runs.run step lateError {} = some t ∧ t.Recording := by
  obtain ⟨t, ht⟩ := Option.isSome_iff_exists.mp
    (by decide : (Runs.run step lateError {}).isSome)
  exact ⟨t, ht, recording_run ht⟩

/-! ## Silence -/

/-- Nothing is recorded, and no start is under way. -/
structure Silent (s : VoiceInput) : Prop where
  isRecording : s.isRecording = false
  recognitionRequest : s.recognitionRequest = none
  recognitionTask : s.recognitionTask = none
  isRunning : s.isRunning = false
  starting : s.starting = 0

theorem silent_stopRecording (h : s.starting = 0) : s.stopRecording.Silent :=
  ⟨rfl, rfl, rfl, rfl, h⟩

theorem Silent.calls_stopRecording (h : s.Silent) : s.stopRecording.calls = s.calls := by
  simp [VoiceInput.stopRecording, h.recognitionRequest, h.recognitionTask]

/-- A silent input stays silent, unless it starts. -/
theorem silent_step (h : s.Silent) (he : e ≠ .startRecording) (hs : step e s = some s') :
    s'.Silent ∧ s'.calls = s.calls := by
  cases e with
  | startRecording => exact absurd rfl he
  | answered answers => simp [step, h.starting] at hs
  | stopRecording =>
    obtain rfl := Option.some_inj.mp hs
    exact ⟨silent_stopRecording h.starting, h.calls_stopRecording⟩
  | reset =>
    obtain rfl := Option.some_inj.mp hs
    exact ⟨⟨rfl, rfl, rfl, rfl, h.starting⟩, h.calls_stopRecording⟩
  | edited transcript =>
    obtain rfl := Option.some_inj.mp hs
    exact ⟨⟨h.isRecording, h.recognitionRequest, h.recognitionTask, h.isRunning, h.starting⟩, rfl⟩
  | buffer => simp [step, h.isRunning] at hs
  | result request formattedString failed =>
    rw [step] at hs
    split_ifs at hs
    obtain rfl := Option.some_inj.mp hs
    exact ⟨⟨h.isRecording, h.recognitionRequest, h.recognitionTask, h.isRunning, h.starting⟩, rfl⟩
  | handlerTask task =>
    rw [step] at hs
    split_ifs at hs
    obtain rfl := Option.some_inj.mp hs
    have hrest : ({ s with handlerTasks := s.handlerTasks.erase task } : VoiceInput).Silent :=
      ⟨h.isRecording, h.recognitionRequest, h.recognitionTask, h.isRunning, h.starting⟩
    rcases task with formattedString | _
    · exact ⟨⟨h.isRecording, h.recognitionRequest, h.recognitionTask, h.isRunning, h.starting⟩, rfl⟩
    · exact ⟨silent_stopRecording hrest.starting, hrest.calls_stopRecording⟩
  | interruption =>
    obtain rfl := Option.some_inj.mp hs
    exact ⟨⟨h.isRecording, h.recognitionRequest, h.recognitionTask, rfl, h.starting⟩, rfl⟩

/-- After `stopRecording()`, as when the sheet disappears, nothing is recorded until the next
start, exactly if no start waits for its answers. -/
theorem silent_iff (t : VoiceInput) :
    (∀ ls u, (∀ e ∈ ls, e ≠ .startRecording) → Runs.run step ls t.stopRecording = some u →
      u.isRecording = false ∧ u.calls = t.stopRecording.calls) ↔ t.starting = 0 := by
  constructor
  · intro hsilent
    by_contra hstarting
    have hpos : 0 < t.stopRecording.starting := Nat.pos_of_ne_zero hstarting
    have hrun : Runs.run step [.answered {}] t.stopRecording =
        some (VoiceInput.answered { t.stopRecording with starting := t.starting - 1 } {}) :=
      Runs.run_cons_eq_some.mpr ⟨_, if_pos hpos, rfl⟩
    obtain ⟨hrecording, -⟩ := hsilent _ _ (by simp) hrun
    exact absurd (hrecording : true = false) nofun
  · intro hstarting ls u hls hr
    have hkeep : u.Silent ∧ u.calls = t.stopRecording.calls := by
      refine Runs.invariant_of_guarded
        (I := fun u => u.Silent ∧ u.calls = t.stopRecording.calls) ?_
        ⟨silent_stopRecording hstarting, rfl⟩ (Runs.guarded_of_forall hls t.stopRecording) hr
      rintro e s s' ⟨hsilent, hcalls⟩ he hs
      obtain ⟨hsilent', hcalls'⟩ := silent_step hsilent he hs
      exact ⟨hsilent', hcalls'.trans hcalls⟩
    exact ⟨hkeep.1.isRecording, hkeep.2⟩

end VoiceInput

end Notelayer
