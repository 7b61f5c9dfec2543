import Clawreform.Lib.Trace
import Clawreform.Runtime.AgentLoop

namespace Clawreform.Runtime

open Clawreform.Lib Clawreform.Lib.Text Clawreform.Lib.Program Clawreform.Lib.Trace
open Clawreform.Lib.Json (Value)
open Clawreform.Types

variable {κ : Type} (a : Args κ)

section Model

/-- The attempts of `stream_with_retry`, with the number of retries left. -/
def streamWithRetry (request : CompletionRequest) : Nat → Prog κ CompletionResponse
  | 0 => do
    match ← complete a request with
    | .ok response => pure response
    | .error (.rateLimited _) => throw (exhausted "Rate limited")
    | .error (.overloaded _) => throw (exhausted "Model overloaded")
    | .error e => throw (llmFailure a e)
  | retries + 1 => do
    match ← complete a request with
    | .ok response => pure response
    | .error (.rateLimited _) => streamWithRetry request retries
    | .error (.overloaded _) => streamWithRetry request retries
    | .error e => throw (llmFailure a e)

def contextWarning (detail : String) : Prog κ Unit :=
  emit (.stream (.phaseChange "context_warning".toList (some detail.toList)))

def warnOverflow : RecoveryStage → Prog κ Unit
  | .none => pure ()
  | .finalError => contextWarning "Context overflow unrecoverable. Use /reset or /compact."
  | _ => contextWarning ("Older messages trimmed to stay within context limits. " ++
      "Use /compact for smarter summarization.")

def endTurnStreaming (iteration : Nat) (response : CompletionResponse) : Prog κ Unit :=
  let parsed := parseDirectives response.text
  let visibleText := parsed.1
  let storedText := sanitizeVisibleResponse visibleText
  if trim storedText = "NO_REPLY".toList ∨ parsed.2.silent = true then do
    pushSession (Message.assistant "[no reply needed]".toList)
    saveOrFail a
    let totalUsage ← read Loop.totalUsage
    throw (.returned
      { response := []
        totalUsage := totalUsage
        iterations := iteration + 1
        silent := true
        directives := ⟨parsed.2.replyTo, parsed.2.currentThread, true⟩ })
  else if trim storedText = [] ∧ iteration = 0 ∧ response.toolCalls = [] then do
    pushMessages (Message.assistant "[no response]".toList)
    pushMessages (Message.user "Please provide your response.".toList)
  else do
    let texts := if trim storedText = [] then (emptyFallback iteration, emptyFallback iteration)
      else (visibleText, storedText)
    pushSession (Message.assistant texts.2)
    update (fun s => { s with session := SessionRepair.pruneHeartbeatTurns s.session 10 })
    saveOrFail a
    emit (.remembered ("User asked: ".toList ++ a.userMessage ++ "\nI responded: ".toList ++
      texts.2))
    notify a .done
    let _ ← fire a .agentLoopEnd (.object [
      ("iterations".toList, number (iteration + 1)),
      ("response_length".toList, number (byteLen texts.1))])
    let totalUsage ← read Loop.totalUsage
    throw (.returned
      { response := texts.1
        totalUsage := totalUsage
        iterations := iteration + 1
        silent := false
        directives := noDirectives })

def preview (content : Str) : Str := content.take 300

def performCallStreaming (call : ToolCall) (verdict : LoopGuardVerdict) : Prog κ Unit := do
  notify a (.toolUse (phaseName call.name))
  match ← fire a .beforeToolCall (callData call) with
  | some reason => pushResult ⟨call.id, hookText call.name reason, true⟩
  | none => do
    let result ← executeTool a call
    let _ ← fire a .afterToolCall (resultData call result)
    match truncateToolResultDynamic result.content (contextBudget a) with
    | none => throw .panicked
    | some content => do
      let finalContent := withWarning verdict content
      emit (.stream (.toolExecutionResult call.name (preview finalContent) result.isError))
      pushResult ⟨result.toolUseId, finalContent, result.isError⟩

def reachMaxTokensStreaming (iteration : Nat) (response : CompletionResponse) : Prog κ Unit := do
  update (fun s => { s with consecutiveMaxTokens := s.consecutiveMaxTokens + 1 })
  let consecutiveMaxTokens ← read Loop.consecutiveMaxTokens
  let memoryText := sanitizeVisibleResponse response.text
  if maxContinuations ≤ consecutiveMaxTokens then do
    let texts := if trim memoryText = [] then (partialFallback, partialFallback)
      else (response.text, memoryText)
    pushSession (Message.assistant texts.2)
    let _ ← saveSession a
    let _ ← fire a .agentLoopEnd (.object [
      ("iterations".toList, number (iteration + 1)),
      ("reason".toList, .string "max_continuations".toList)])
    let totalUsage ← read Loop.totalUsage
    throw (.returned
      { response := texts.1
        totalUsage := totalUsage
        iterations := iteration + 1
        silent := false
        directives := noDirectives })
  else do
    if trim memoryText = [] then pure ()
    else do
      pushSession (Message.assistant memoryText)
      pushMessages (Message.assistant memoryText)
    pushSession (Message.user continueText)
    pushMessages (Message.user continueText)

variable [DecidableEq κ]

def handleCallStreaming (call : ToolCall) : Prog κ Unit := do
  let verdict ← checkCall a call
  match verdict with
  | .circuitBreak text => do
    let _ ← saveSession a
    let _ ← fire a .agentLoopEnd (.object [
      ("error".toList, .string text), ("reason".toList, .string "circuit_break".toList)])
    throw (.failed (.internal text))
  | .block text => pushResult ⟨call.id, text, true⟩
  | .allow => performCallStreaming a call .allow
  | .warn text => performCallStreaming a call (.warn text)

def toolUseStreaming (response : CompletionResponse) : Prog κ Unit := do
  update (fun s => { s with consecutiveMaxTokens := 0, toolResultBlocks := [] })
  pushSession ⟨.assistant, .blocks response.content⟩
  pushMessages ⟨.assistant, .blocks response.content⟩
  response.toolCalls.forM (handleCallStreaming a)
  let blocks ← read Loop.toolResultBlocks
  pushSession ⟨.user, .blocks blocks⟩
  pushMessages ⟨.user, .blocks blocks⟩
  let _ ← saveSession a

def iterateStreaming (iteration : Nat) : Prog κ Unit := do
  let recovery ← fitContext a
  warnOverflow recovery
  guardContext a
  let messages ← read Loop.messages
  notify a .streaming
  let raw ← streamWithRetry a (requestOf a messages) maxRetries
  addUsage raw.usage
  let response ← promoteTextCalls a raw
  emit (.response response)
  match response.stopReason with
  | .endTurn => endTurnStreaming a iteration response
  | .stopSequence => endTurnStreaming a iteration response
  | .toolUse => toolUseStreaming a response
  | .maxTokens => reachMaxTokensStreaming a iteration response

def agentLoopStreaming : Prog κ Exit := do
  let _ ← fire a .beforePromptBuild (.object [
    ("system_prompt".toList, .string a.manifest.model.systemPrompt),
    ("user_message".toList, .string a.userMessage)])
  pushSession (Message.user a.userMessage)
  update (fun s => { s with messages := openingMessages s.session })
  (List.range (maxIterations a).toNat).forM (iterateStreaming a)
  let _ ← saveSession a
  let _ ← fire a .agentLoopEnd (.object [
    ("iterations".toList, number (maxIterations a).toNat),
    ("reason".toList, .string "max_iterations_exceeded".toList)])
  pure (.failed (.maxIterationsExceeded (maxIterations a)))

def runAgentLoopStreaming (session : List Message) : Exit × Loop κ :=
  outcome (agentLoopStreaming a) (Loop.start a session)

end Model

section Shown

/-- What is left of a log without the events of the stream and the phases that
announce a driver call. -/
def Event.isShown : Event → Bool
  | .stream _ => false
  | .phase .thinking => false
  | .phase .streaming => false
  | _ => true

/-- The states of the two loops: equal up to what only the stream shows. -/
def SameRun (s t : Loop κ) : Prop :=
  ∃ log, t = { s with log := log } ∧ log.filter Event.isShown = s.log.filter Event.isShown

theorem agree_field {α : Type} {f : Loop κ → α} (h : ∀ s log, f { s with log := log } = f s) :
    Agree SameRun (read f : Prog κ α) (read f) := by
  refine agree_read ?_
  rintro s t ⟨log, rfl, -⟩
  exact (h s log).symm

theorem agree_set {f : Loop κ → Loop κ} (h : ∀ s log, f { s with log := log } =
    { f s with log := log }) (hlog : ∀ s, (f s).log = s.log) :
    Agree SameRun (update f : Prog κ Unit) (update f) := by
  refine agree_update ?_
  rintro s t ⟨log, rfl, hs⟩
  exact ⟨log, h s log, by rw [hlog, hs]⟩

theorem agree_record {f : Loop κ → Loop κ} {e : Loop κ → Event}
    (h : ∀ s log, f { s with log := log } = { f s with log := log ++ [e s] })
    (hlog : ∀ s, (f s).log = s.log ++ [e s]) :
    Agree SameRun (update f : Prog κ Unit) (update f) := by
  refine agree_update ?_
  rintro s t ⟨log, rfl, hs⟩
  exact ⟨log ++ [e s], h s log, by rw [hlog, List.filter_append, List.filter_append, hs]⟩

/-- An event nobody is shown may stand in one log only. -/
theorem agree_hidden {α : Type} {x : Prog κ α} {y : Unit → Prog κ α} {event : Event}
    (h : event.isShown = false) (hxy : Agree SameRun x (y ())) :
    Agree SameRun x (emit event >>= y) := by
  refine agree_skip ?_ hxy
  rintro s t ⟨log, rfl, hs⟩
  refine ⟨log ++ [event], rfl, ?_⟩
  rw [List.filter_append, List.filter_cons_of_neg (by simp [h]), List.filter_nil, List.append_nil,
    hs]

/-- Reading a log for shown events passes over the others. -/
theorem filterMap_shown {β : Type} {f : Event → Option β} (log : List Event)
    (h : ∀ event, event.isShown = false → f event = none) :
    (log.filter Event.isShown).filterMap f = log.filterMap f := by
  induction log with
  | nil => rfl
  | cons event log ih =>
    cases hs : event.isShown with
    | true => rw [List.filter_cons_of_pos hs, List.filterMap_cons, List.filterMap_cons, ih]
    | false => rw [List.filter_cons_of_neg (by simp [hs]), List.filterMap_cons, h event hs, ih]

theorem requests_shown (log : List Event) :
    requests (log.filter Event.isShown) = requests log :=
  filterMap_shown log fun event h => by cases event <;> first | rfl | cases h

theorem executedCalls_shown (log : List Event) :
    executedCalls (log.filter Event.isShown) = executedCalls log :=
  filterMap_shown log fun event h => by cases event <;> first | rfl | cases h

theorem savedSessions_shown (log : List Event) :
    savedSessions (log.filter Event.isShown) = savedSessions log :=
  filterMap_shown log fun event h => by cases event <;> first | rfl | cases h

end Shown

section Agreement

theorem agree_emit (event : Event) : Agree SameRun (emit event : Prog κ Unit) (emit event) :=
  agree_record (e := fun _ => event) (fun _ _ => rfl) (fun _ => rfl)

theorem agree_notify (phase : LoopPhase) :
    Agree SameRun (notify a phase) (notify a phase) := by
  unfold notify
  split
  · exact agree_emit _
  · exact agree_pure ()

theorem agree_fire (event : HookEvent) (data : Value) :
    Agree SameRun (fire a event data) (fire a event data) := by
  unfold fire
  split
  · exact agree_pure _
  · refine agree_bind (agree_field fun _ _ => rfl) fun n => ?_
    refine agree_bind ?_ fun _ => agree_pure _
    exact agree_record (e := fun _ => .hook event data) (fun _ _ => rfl) (fun _ => rfl)

theorem agree_saveSession : Agree SameRun (saveSession a) (saveSession a) := by
  refine agree_bind (agree_field fun _ _ => rfl) fun n => ?_
  split
  · refine agree_bind ?_ fun _ => agree_pure _
    exact agree_record (e := fun s => .saved s.session) (fun _ _ => rfl) (fun _ => rfl)
  · exact agree_bind (agree_set (fun _ _ => rfl) (fun _ => rfl)) fun _ => agree_pure _

theorem agree_pushSession (m : Message) :
    Agree SameRun (pushSession m : Prog κ Unit) (pushSession m) :=
  agree_set (fun _ _ => rfl) (fun _ => rfl)

theorem agree_pushMessages (m : Message) :
    Agree SameRun (pushMessages m : Prog κ Unit) (pushMessages m) :=
  agree_set (fun _ _ => rfl) (fun _ => rfl)

theorem agree_pushResult (result : ToolResult) :
    Agree SameRun (pushResult result : Prog κ Unit) (pushResult result) :=
  agree_record (e := fun _ => .answered result) (fun _ _ => rfl) (fun _ => rfl)

theorem agree_complete (request : CompletionRequest) :
    Agree SameRun (complete a request) (complete a request) := by
  refine agree_bind (agree_field fun _ _ => rfl) fun n => ?_
  refine agree_bind ?_ fun _ => agree_pure _
  exact agree_record (e := fun _ => .request request) (fun _ _ => rfl) (fun _ => rfl)

theorem agree_executeTool (call : ToolCall) :
    Agree SameRun (executeTool a call) (executeTool a call) := by
  refine agree_bind (agree_field fun _ _ => rfl) fun n => ?_
  refine agree_bind ?_ fun _ => agree_pure _
  exact agree_record (e := fun _ => .executed call _) (fun _ _ => rfl) (fun _ => rfl)

theorem agree_saveOrFail : Agree SameRun (saveOrFail a) (saveOrFail a) := by
  refine agree_bind (agree_saveSession a) fun saved => ?_
  cases saved with
  | none => exact agree_pure ()
  | some error => exact agree_throw _

theorem agree_retry (request : CompletionRequest) (retries : Nat) :
    Agree SameRun (callWithRetry a request retries) (streamWithRetry a request retries) := by
  induction retries with
  | zero =>
    refine agree_bind (agree_complete a request) fun answer => ?_
    match answer with
    | .ok response => exact agree_pure _
    | .error (.rateLimited _) => exact agree_throw _
    | .error (.overloaded _) => exact agree_throw _
    | .error (.http _) => exact agree_throw _
    | .error (.api _ _) => exact agree_throw _
    | .error (.parse _) => exact agree_throw _
    | .error (.missingApiKey _) => exact agree_throw _
  | succ retries ih =>
    refine agree_bind (agree_complete a request) fun answer => ?_
    match answer with
    | .ok response => exact agree_pure _
    | .error (.rateLimited _) => exact ih
    | .error (.overloaded _) => exact ih
    | .error (.http _) => exact agree_throw _
    | .error (.api _ _) => exact agree_throw _
    | .error (.parse _) => exact agree_throw _
    | .error (.missingApiKey _) => exact agree_throw _

theorem agree_fitContext : Agree SameRun (fitContext a) (fitContext a) := by
  refine agree_bind (agree_field fun _ _ => rfl) fun messages => ?_
  split
  · exact agree_throw _
  · exact agree_bind (agree_set (fun _ _ => rfl) (fun _ => rfl)) fun _ => agree_pure _

theorem agree_guardContext : Agree SameRun (guardContext a) (guardContext a) := by
  refine agree_bind (agree_field fun _ _ => rfl) fun messages => ?_
  split
  · exact agree_throw _
  · exact agree_set (fun _ _ => rfl) (fun _ => rfl)

theorem agree_promoteTextCalls (response : CompletionResponse) :
    Agree SameRun (promoteTextCalls a response) (promoteTextCalls a response) := by
  unfold promoteTextCalls
  split
  · refine agree_bind (agree_field fun _ _ => rfl) fun n => ?_
    exact agree_bind (agree_set (fun _ _ => rfl) (fun _ => rfl)) fun _ => agree_pure _
  · exact agree_pure _

theorem agree_finish (iteration : Nat) (responseText memoryText : Str) :
    Agree SameRun (finish a iteration responseText memoryText)
      (finish a iteration responseText memoryText) := by
  refine agree_bind (agree_pushSession _) fun _ => ?_
  refine agree_bind (agree_set (fun _ _ => rfl) (fun _ => rfl)) fun _ => ?_
  refine agree_bind (agree_saveOrFail a) fun _ => ?_
  refine agree_bind (agree_emit _) fun _ => ?_
  refine agree_bind (agree_notify a _) fun _ => ?_
  refine agree_bind (agree_fire a _ _) fun _ => ?_
  exact agree_bind (agree_field fun _ _ => rfl) fun _ => agree_throw _

theorem agree_endTurn (iteration : Nat) (response : CompletionResponse) :
    Agree SameRun (endTurn a iteration response) (endTurnStreaming a iteration response) := by
  unfold endTurn endTurnStreaming
  dsimp only
  generalize parseDirectives response.text = parsed
  generalize sanitizeVisibleResponse parsed.1 = storedText
  by_cases hsilent : trim storedText = "NO_REPLY".toList ∨ parsed.2.silent = true
  · rw [if_pos hsilent, if_pos hsilent]
    refine agree_bind (agree_pushSession _) fun _ => ?_
    refine agree_bind (agree_saveOrFail a) fun _ => ?_
    exact agree_bind (agree_field fun _ _ => rfl) fun _ => agree_throw _
  rw [if_neg hsilent, if_neg hsilent]
  by_cases hretry : trim storedText = [] ∧ iteration = 0 ∧ response.toolCalls = []
  · rw [if_pos hretry, if_pos hretry]
    exact agree_bind (agree_pushMessages _) fun _ => agree_pushMessages _
  rw [if_neg hretry, if_neg hretry]
  by_cases hblank : trim storedText = []
  · rw [if_pos hblank, if_pos hblank]
    exact agree_finish a iteration (emptyFallback iteration) (emptyFallback iteration)
  · rw [if_neg hblank, if_neg hblank]
    exact agree_finish a iteration parsed.1 storedText

theorem agree_performCall (call : ToolCall) (verdict : LoopGuardVerdict) :
    Agree SameRun (performCall a call verdict) (performCallStreaming a call verdict) := by
  refine agree_bind (agree_notify a _) fun _ => ?_
  refine agree_bind (agree_fire a _ _) fun objection => ?_
  cases objection with
  | some reason => exact agree_pushResult _
  | none =>
    refine agree_bind (agree_executeTool a call) fun result => ?_
    refine agree_bind (agree_fire a _ _) fun _ => ?_
    cases truncateToolResultDynamic result.content (contextBudget a) with
    | none => exact agree_throw _
    | some content => exact agree_hidden rfl (agree_pushResult _)

theorem agree_reachMaxTokens (iteration : Nat) (response : CompletionResponse) :
    Agree SameRun (reachMaxTokens a iteration response)
      (reachMaxTokensStreaming a iteration response) := by
  refine agree_bind (agree_set (fun _ _ => rfl) (fun _ => rfl)) fun _ => ?_
  refine agree_bind (agree_field fun _ _ => rfl) fun n => ?_
  dsimp only
  by_cases hmax : maxContinuations ≤ n
  · rw [if_pos hmax, if_pos hmax]
    unfold returnPartial
    dsimp only
    generalize sanitizeVisibleResponse response.text = memoryText
    by_cases hblank : trim memoryText = []
    · simp only [if_pos hblank]
      refine agree_bind (agree_pushSession _) fun _ => ?_
      refine agree_bind (agree_saveSession a) fun _ => ?_
      refine agree_bind (agree_fire a _ _) fun _ => ?_
      exact agree_bind (agree_field fun _ _ => rfl) fun _ => agree_throw _
    · simp only [if_neg hblank]
      refine agree_bind (agree_pushSession _) fun _ => ?_
      refine agree_bind (agree_saveSession a) fun _ => ?_
      refine agree_bind (agree_fire a _ _) fun _ => ?_
      exact agree_bind (agree_field fun _ _ => rfl) fun _ => agree_throw _
  · rw [if_neg hmax, if_neg hmax]
    generalize sanitizeVisibleResponse response.text = memoryText
    have hprompt : Agree SameRun
        (pushSession (Message.user continueText) >>= fun _ =>
          (pushMessages (Message.user continueText) : Prog κ Unit))
        (pushSession (Message.user continueText) >>= fun _ =>
          pushMessages (Message.user continueText)) :=
      agree_bind (agree_pushSession _) fun _ => agree_pushMessages _
    unfold pushPartial
    by_cases hblank : trim memoryText = []
    · rw [if_pos hblank, if_pos hblank]
      exact hprompt
    · rw [if_neg hblank, if_neg hblank]
      have hpartial := agree_bind (agree_pushSession (Message.assistant memoryText)) fun _ =>
        agree_bind (agree_pushMessages (Message.assistant memoryText)) fun _ => hprompt
      exact hpartial

/-- The phases and warnings in front of a driver call are not shown. -/
theorem agree_announce {α : Type} {x y : Prog κ α} (stage : RecoveryStage)
    (hxy : Agree SameRun x y) : Agree SameRun x (warnOverflow stage >>= fun _ => y) := by
  cases stage with
  | none => exact hxy
  | autoCompaction removed => exact agree_hidden rfl hxy
  | overflowCompaction removed => exact agree_hidden rfl hxy
  | toolResultTruncation truncated => exact agree_hidden rfl hxy
  | finalError => exact agree_hidden rfl hxy

theorem agree_phases : Agree SameRun (notify a .thinking) (notify a .streaming) := by
  unfold notify
  cases a.world.onPhase with
  | false => exact agree_pure ()
  | true =>
    refine agree_update ?_
    rintro s t ⟨log, rfl, hs⟩
    refine ⟨log ++ [.phase .streaming], rfl, ?_⟩
    rw [List.filter_append, List.filter_append, hs]
    rfl

variable [DecidableEq κ]

theorem agree_checkCall (call : ToolCall) :
    Agree SameRun (checkCall a call) (checkCall a call) := by
  refine agree_bind (agree_field fun _ _ => rfl) fun guard => ?_
  refine agree_bind ?_ fun _ => agree_pure _
  exact agree_record (e := fun _ => .checked call _) (fun _ _ => rfl) (fun _ => rfl)

theorem agree_handleCall (call : ToolCall) :
    Agree SameRun (handleCall a call) (handleCallStreaming a call) := by
  refine agree_bind (agree_checkCall a call) fun verdict => ?_
  cases verdict with
  | circuitBreak text =>
    refine agree_bind (agree_saveSession a) fun _ => ?_
    exact agree_bind (agree_fire a _ _) fun _ => agree_throw _
  | block text => exact agree_pushResult _
  | allow => exact agree_performCall a call _
  | warn text => exact agree_performCall a call _

theorem agree_toolUse (response : CompletionResponse) :
    Agree SameRun (toolUse a response) (toolUseStreaming a response) := by
  refine agree_bind (agree_set (fun _ _ => rfl) (fun _ => rfl)) fun _ => ?_
  refine agree_bind (agree_pushSession _) fun _ => ?_
  refine agree_bind (agree_pushMessages _) fun _ => ?_
  refine agree_bind (agree_forM (agree_handleCall a)) fun _ => ?_
  refine agree_bind (agree_field fun _ _ => rfl) fun blocks => ?_
  refine agree_bind (agree_pushSession _) fun _ => ?_
  refine agree_bind (agree_pushMessages _) fun _ => ?_
  exact agree_bind (agree_saveSession a) fun _ => agree_pure ()

theorem agree_actOn (iteration : Nat) (response : CompletionResponse) :
    Agree SameRun (actOn a iteration response)
      (match response.stopReason with
      | .endTurn => endTurnStreaming a iteration response
      | .stopSequence => endTurnStreaming a iteration response
      | .toolUse => toolUseStreaming a response
      | .maxTokens => reachMaxTokensStreaming a iteration response) := by
  unfold actOn
  cases response.stopReason with
  | endTurn => exact agree_endTurn a iteration response
  | stopSequence => exact agree_endTurn a iteration response
  | toolUse => exact agree_toolUse a response
  | maxTokens => exact agree_reachMaxTokens a iteration response

theorem agree_iterate (iteration : Nat) :
    Agree SameRun (iterate a iteration) (iterateStreaming a iteration) := by
  refine agree_bind (agree_fitContext a) fun stage => ?_
  refine agree_announce stage ?_
  refine agree_bind (agree_guardContext a) fun _ => ?_
  refine agree_bind (agree_field fun _ _ => rfl) fun messages => ?_
  refine agree_bind (agree_phases a) fun _ => ?_
  refine agree_bind (agree_retry a _ _) fun raw => ?_
  refine agree_bind (agree_set (fun _ _ => rfl) (fun _ => rfl)) fun _ => ?_
  refine agree_bind (agree_promoteTextCalls a raw) fun response => ?_
  refine agree_bind (agree_emit _) fun _ => ?_
  exact agree_actOn a iteration response

theorem agree_agentLoop : Agree SameRun (agentLoop a) (agentLoopStreaming a) := by
  refine agree_bind (agree_fire a _ _) fun _ => ?_
  refine agree_bind (agree_pushSession _) fun _ => ?_
  refine agree_bind (agree_set (fun _ _ => rfl) (fun _ => rfl)) fun _ => ?_
  refine agree_bind (agree_forM (agree_iterate a)) fun _ => ?_
  refine agree_bind (agree_saveSession a) fun _ => ?_
  exact agree_bind (agree_fire a _ _) fun _ => agree_pure _

/-- The two loops come to the same end in the same state, up to what only the
stream shows. -/
theorem runAgentLoopStreaming_same (session : List Message) :
    (runAgentLoopStreaming a session).1 = (runAgentLoop a session).1 ∧
      SameRun (runAgentLoop a session).2 (runAgentLoopStreaming a session).2 := by
  have hstart : SameRun (Loop.start a session) (Loop.start a session) :=
    ⟨(Loop.start a session).log, rfl, rfl⟩
  unfold runAgentLoop runAgentLoopStreaming outcome
  rcases agree_agentLoop a _ _ hstart with ⟨exit, s, t, hs, ht, h⟩ | ⟨exit, s, t, hs, ht, h⟩
  · rw [hs, ht]
    exact ⟨rfl, h⟩
  · rw [hs, ht]
    exact ⟨rfl, h⟩

/-- What is said about shown events, by way of shown events, holds of both logs
or of neither. -/
theorem always_streaming {p : List Event → Event → Prop}
    (hquiet : ∀ past e, e.isShown = false → p past e)
    (hpast : ∀ past e, p past e ↔ p (past.filter Event.isShown) e) (session : List Message) :
    Always p (runAgentLoopStreaming a session).2.log ↔ Always p (runAgentLoop a session).2.log := by
  obtain ⟨-, log, hsame, hlog⟩ := runAgentLoopStreaming_same a session
  have hstreamed : (runAgentLoopStreaming a session).2.log = log := congrArg Loop.log hsame
  rw [hstreamed, always_filter hquiet hpast, hlog, ← always_filter hquiet hpast]

theorem runAgentLoopStreaming_agrees (a : Args κ) (session : List Message) :
    let plain := runAgentLoop a session
    let streamed := runAgentLoopStreaming a session
    streamed.1 = plain.1 ∧
      requests streamed.2.log = requests plain.2.log ∧
      executedCalls streamed.2.log = executedCalls plain.2.log ∧
      savedSessions streamed.2.log = savedSessions plain.2.log ∧
      streamed.2.session = plain.2.session := by
  intro plain streamed
  obtain ⟨hexit, log, hsame, hlog⟩ := runAgentLoopStreaming_same a session
  have hstreamed : streamed.2.log = log := congrArg Loop.log hsame
  have hsession : streamed.2.session = plain.2.session := by
    show (runAgentLoopStreaming a session).2.session = _
    rw [hsame]
  refine ⟨hexit, ?_, ?_, ?_, hsession⟩
  · rw [hstreamed, ← requests_shown, hlog, requests_shown]
  · rw [hstreamed, ← executedCalls_shown, hlog, executedCalls_shown]
  · rw [hstreamed, ← savedSessions_shown, hlog, savedSessions_shown]

end Agreement

end Clawreform.Runtime
