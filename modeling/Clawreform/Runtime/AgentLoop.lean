import Clawreform.Lib.Program
import Clawreform.Runtime.Context
import Clawreform.Runtime.LlmDriver
import Clawreform.Runtime.LoopGuard
import Clawreform.Runtime.SessionRepair
import Clawreform.Runtime.TextToolCalls
import Clawreform.Runtime.VisibleText

namespace Clawreform.Runtime

open Clawreform.Lib Clawreform.Lib.Text Clawreform.Lib.Program
open Clawreform.Lib.Json (Value)
open Clawreform.Types

section Types

def defaultMaxIterations : UInt32 := 50

def maxRetries : Nat := 3

def toolTimeoutSecs : Nat := 120

def maxContinuations : Nat := 5

def maxHistoryMessages : Nat := 20

def defaultContextWindow : Nat := 200000

inductive LoopPhase where
  | thinking
  | toolUse (toolName : Str)
  | streaming
  | done
  | error
  deriving DecidableEq

inductive HookEvent where
  | beforeToolCall
  | afterToolCall
  | beforePromptBuild
  | agentLoopEnd
  deriving DecidableEq

/-- The errors the loop returns. -/
inductive ClawReformError where
  | memory (text : Str)
  | llmDriver (text : Str)
  | maxIterationsExceeded (n : UInt32)
  | internal (text : Str)
  deriving DecidableEq

structure AgentLoopResult where
  response : Str
  totalUsage : TokenUsage
  iterations : Nat
  silent : Bool
  directives : ReplyDirectives
  deriving DecidableEq

/-- How the function is left. A slice inside a character panics. -/
inductive Exit where
  | returned (result : AgentLoopResult)
  | failed (error : ClawReformError)
  | panicked
  deriving DecidableEq

structure ModelConfig where
  model : Str
  systemPrompt : Str
  maxTokens : UInt32
  temperature : Binary64
  deriving DecidableEq

structure AutonomousConfig where
  maxIterations : UInt32
  deriving DecidableEq

structure AgentManifest where
  model : ModelConfig
  autonomous : Option AutonomousConfig
  deriving DecidableEq

structure ClassifiedError where
  isFormat : Bool
  sanitizedMessage : Str
  deriving DecidableEq

/-- What a run leaves behind, in order. A response is recorded as the loop acts
on it, with the tool calls found in its text. -/
inductive Event where
  | hook (event : HookEvent) (data : Value)
  | phase (phase : LoopPhase)
  | request (request : CompletionRequest)
  | response (response : CompletionResponse)
  | checked (call : ToolCall) (verdict : LoopGuardVerdict)
  | executed (call : ToolCall) (result : ToolResult)
  | answered (result : ToolResult)
  | saved (session : List Message)
  | remembered (interaction : Str)
  | stream (event : StreamEvent)
  deriving DecidableEq

/-- What surrounds the loop: the answers of the driver, the tools, the hooks, the
store and the random source, each in the order of asking, and the functions of
other crates. -/
structure World (κ : Type) where
  hashing : Hashing κ
  memories : List Str
  complete : Nat → Except LlmError CompletionResponse
  classifyError : Str → ClassifiedError
  /-- The content and error flag of a result, or nothing on a timeout. -/
  executeTool : Nat → Option (Str × Bool)
  /-- The reason for which a hook objects. -/
  hooks : Option (Nat → Option Str)
  /-- The text of the error with which a save fails. -/
  saveSession : Nat → Option Str
  newUuid : Nat → Str
  parseJson : Str → Option Value
  onPhase : Bool

/-- The arguments of the loop. -/
structure Args (κ : Type) where
  manifest : AgentManifest
  userMessage : Str
  availableTools : List ToolDefinition
  contextWindowTokens : Option Nat
  world : World κ

/-- The variables of a run, how often each part of the world was asked, and the
events so far. -/
structure Loop (κ : Type) where
  session : List Message
  messages : List Message
  totalUsage : TokenUsage
  guard : LoopGuard κ
  consecutiveMaxTokens : Nat
  toolResultBlocks : List ContentBlock
  completions : Nat
  executions : Nat
  firings : Nat
  saves : Nat
  uuids : Nat
  log : List Event

abbrev Prog (κ α : Type) := EStateM Exit (Loop κ) α

end Types

variable {κ : Type} (a : Args κ)

section Prompt

def capStr (s : Str) (maxChars : Nat) : Str :=
  if s.length ≤ maxChars then s else s.take maxChars ++ "...".toList

def memoryLine (memory : Str × Str) : Str :=
  if memory.1 = [] then "- ".toList ++ capStr memory.2 500 ++ "\n".toList
  else "- [".toList ++ memory.1 ++ "] ".toList ++ capStr memory.2 500 ++ "\n".toList

def buildMemorySection (memories : List (Str × Str)) : Str :=
  ("## Memory\n- When the user asks about something from a previous conversation, " ++
    "use memory_recall first.\n- Store important preferences, decisions, and context " ++
    "with memory_store for future use.").toList ++
  if memories = [] then []
  else "\n\nRecalled memories:\n".toList ++ (memories.take 5).flatMap memoryLine

def systemPrompt : Str :=
  a.manifest.model.systemPrompt ++
  if a.world.memories = [] then []
  else "\n\n".toList ++ buildMemorySection (a.world.memories.map (fun m => ([], m)))

def maxIterations : UInt32 :=
  match a.manifest.autonomous with
  | some config => config.maxIterations
  | none => defaultMaxIterations

def loopGuardConfig : LoopGuardConfig :=
  let cfg := LoopGuardConfig.default
  if cfg.globalCircuitBreaker < maxIterations a then
    { cfg with globalCircuitBreaker := maxIterations a * 3 }
  else cfg

def ctxWindow : Nat := a.contextWindowTokens.getD defaultContextWindow

def contextBudget : ContextBudget := ⟨ctxWindow a⟩

end Prompt

section Effects

def emit (event : Event) : Prog κ Unit :=
  update (fun s => { s with log := s.log ++ [event] })

def notify (phase : LoopPhase) : Prog κ Unit :=
  if a.world.onPhase then emit (.phase phase) else pure ()

/-- Fire a hook; only the answer to `beforeToolCall` is looked at. -/
def fire (event : HookEvent) (data : Value) : Prog κ (Option Str) :=
  match a.world.hooks with
  | none => pure none
  | some answer => do
    let n ← read Loop.firings
    update (fun s => { s with firings := s.firings + 1, log := s.log ++ [.hook event data] })
    pure (answer n)

def saveSession : Prog κ (Option Str) := do
  let n ← read Loop.saves
  match a.world.saveSession n with
  | none =>
    update (fun s => { s with saves := s.saves + 1, log := s.log ++ [.saved s.session] })
    pure none
  | some error =>
    update (fun s => { s with saves := s.saves + 1 })
    pure (some error)

def pushSession (m : Message) : Prog κ Unit :=
  update (fun s => { s with session := s.session ++ [m] })

def pushMessages (m : Message) : Prog κ Unit :=
  update (fun s => { s with messages := s.messages ++ [m] })

def pushResult (result : ToolResult) : Prog κ Unit :=
  update (fun s => { s with
    toolResultBlocks := s.toolResultBlocks ++
      [.toolResult result.toolUseId result.content result.isError]
    log := s.log ++ [.answered result] })

/-- One call of the driver. -/
def complete (request : CompletionRequest) : Prog κ (Except LlmError CompletionResponse) := do
  let n ← read Loop.completions
  update (fun s => { s with completions := s.completions + 1, log := s.log ++ [.request request] })
  pure (a.world.complete n)

/-- The guard's answer to a call. -/
def checkCall [DecidableEq κ] (call : ToolCall) : Prog κ LoopGuardVerdict := do
  let guard ← read Loop.guard
  let checked := guard.check a.world.hashing call.name call.input
  update (fun s => { s with guard := checked.1, log := s.log ++ [.checked call checked.2] })
  pure checked.2

def timeoutText (toolName : Str) : Str :=
  "Tool '".toList ++ toolName ++ "' timed out after ".toList ++ showNat toolTimeoutSecs ++
    "s.".toList

/-- The result of a call, which names the call. -/
def resultOf (call : ToolCall) : Option (Str × Bool) → ToolResult
  | some (content, isError) => ⟨call.id, content, isError⟩
  | none => ⟨call.id, timeoutText call.name, true⟩

/-- Run a tool under the timeout. -/
def executeTool (call : ToolCall) : Prog κ ToolResult := do
  let n ← read Loop.executions
  let result := resultOf call (a.world.executeTool n)
  update (fun s => { s with
    executions := s.executions + 1, log := s.log ++ [.executed call result] })
  pure result

end Effects

section Call

def llmFailure (e : LlmError) : Exit :=
  let rawError := e.toText
  let classified := a.world.classifyError rawError
  .failed (.llmDriver (if classified.isFormat then
    classified.sanitizedMessage ++ " — raw: ".toList ++ rawError
    else classified.sanitizedMessage))

def exhausted (what : String) : Exit :=
  .failed (.llmDriver (what.toList ++ " after ".toList ++ showNat maxRetries ++ " retries".toList))

/-- The attempts of `call_with_retry`, with the number of retries left. -/
def callWithRetry (request : CompletionRequest) : Nat → Prog κ CompletionResponse
  | 0 => do
    match ← complete a request with
    | .ok response => pure response
    | .error (.rateLimited _) => throw (exhausted "Rate limited")
    | .error (.overloaded _) => throw (exhausted "Model overloaded")
    | .error e => throw (llmFailure a e)
  | retries + 1 => do
    match ← complete a request with
    | .ok response => pure response
    | .error (.rateLimited _) => callWithRetry request retries
    | .error (.overloaded _) => callWithRetry request retries
    | .error e => throw (llmFailure a e)

def addUsage (usage : TokenUsage) : Prog κ Unit :=
  update (fun s => { s with totalUsage :=
    ⟨s.totalUsage.inputTokens + usage.inputTokens,
      s.totalUsage.outputTokens + usage.outputTokens⟩ })

def toolUseBlock (call : ToolCall) : ContentBlock := .toolUse call.id call.name call.input

/-- Turn the tool calls written in the text of a response into tool calls. -/
def promoteTextCalls (response : CompletionResponse) : Prog κ CompletionResponse :=
  if (response.stopReason = .endTurn ∨ response.stopReason = .stopSequence) ∧
      response.toolCalls = [] then do
    let n ← read Loop.uuids
    let recovered := recoverTextToolCalls a.world.parseJson (fun i => a.world.newUuid (n + i))
      response.text a.availableTools
    update (fun s => { s with uuids := s.uuids + recovered.length })
    pure (if recovered = [] then response
      else { response with
        toolCalls := recovered
        stopReason := .toolUse
        content := recovered.map toolUseBlock })
  else pure response

/-- Bring the messages within the context window. -/
def fitContext : Prog κ RecoveryStage := do
  let messages ← read Loop.messages
  match recoverFromOverflow (systemPrompt a) a.availableTools (ctxWindow a) messages with
  | none => throw .panicked
  | some (recovered, stage) => do
    update (fun s => { s with messages := recovered })
    pure stage

def guardContext : Prog κ Unit := do
  let messages ← read Loop.messages
  match applyContextGuard messages (contextBudget a) with
  | none => throw .panicked
  | some (guarded, _) => update (fun s => { s with messages := guarded })

def requestOf (messages : List Message) : CompletionRequest where
  model := a.manifest.model.model
  messages := messages
  tools := a.availableTools
  maxTokens := a.manifest.model.maxTokens
  temperature := a.manifest.model.temperature
  system := some (systemPrompt a)
  thinking := none

end Call

section EndTurn

def noDirectives : ReplyDirectives := ⟨none, false, false⟩

def number (n : Nat) : Value := .number (showNat n)

/-- Save, and fail when that fails. -/
def saveOrFail : Prog κ Unit := do
  match ← saveSession a with
  | none => pure ()
  | some error => throw (.failed (.memory error))

def completeSilently (iteration : Nat) (directives : DirectiveSet) : Prog κ Unit := do
  pushSession (Message.assistant "[no reply needed]".toList)
  saveOrFail a
  let totalUsage ← read Loop.totalUsage
  throw (.returned
    { response := []
      totalUsage := totalUsage
      iterations := iteration + 1
      silent := true
      directives := ⟨directives.replyTo, directives.currentThread, true⟩ })

def retryEmpty : Prog κ Unit := do
  pushMessages (Message.assistant "[no response]".toList)
  pushMessages (Message.user "Please provide your response.".toList)

def emptyFallback (iteration : Nat) : Str :=
  if 0 < iteration then
    ("[Task completed — the agent executed tools but did not produce " ++
      "a text summary.]").toList
  else
    ("[The model returned an empty response. This usually means the model is " ++
      "overloaded, the context is too large, or the API key lacks credits. " ++
      "Try again or check /status.]").toList

def finish (iteration : Nat) (responseText memoryText : Str) : Prog κ Unit := do
  pushSession (Message.assistant memoryText)
  update (fun s => { s with session := SessionRepair.pruneHeartbeatTurns s.session 10 })
  saveOrFail a
  emit (.remembered ("User asked: ".toList ++ a.userMessage ++ "\nI responded: ".toList ++
    memoryText))
  notify a .done
  let _ ← fire a .agentLoopEnd (.object [
    ("iterations".toList, number (iteration + 1)),
    ("response_length".toList, number (byteLen responseText))])
  let totalUsage ← read Loop.totalUsage
  throw (.returned
    { response := responseText
      totalUsage := totalUsage
      iterations := iteration + 1
      silent := false
      directives := noDirectives })

def endTurn (iteration : Nat) (response : CompletionResponse) : Prog κ Unit :=
  let parsed := parseDirectives response.text
  let visibleText := parsed.1
  let storedText := sanitizeVisibleResponse visibleText
  if trim storedText = "NO_REPLY".toList ∨ parsed.2.silent = true then
    completeSilently a iteration parsed.2
  else if trim storedText = [] ∧ iteration = 0 ∧ response.toolCalls = [] then retryEmpty
  else if trim storedText = [] then
    finish a iteration (emptyFallback iteration) (emptyFallback iteration)
  else finish a iteration visibleText storedText

end EndTurn

section ToolUse

def isControl (c : Char) : Bool := c.toNat < 0x20 || (0x7f ≤ c.toNat && c.toNat ≤ 0x9f)

def phaseName (toolName : Str) : Str := (toolName.filter (! isControl ·)).take 64

/-- Save, fire the end hook and fail: the circuit breaker stopped the batch. -/
def breakCircuit (text : Str) : Prog κ Unit := do
  let _ ← saveSession a
  let _ ← fire a .agentLoopEnd (.object [
    ("error".toList, .string text), ("reason".toList, .string "circuit_break".toList)])
  throw (.failed (.internal text))

def callData (call : ToolCall) : Value :=
  .object [("input".toList, call.input), ("tool_name".toList, .string call.name)]

def resultData (call : ToolCall) (result : ToolResult) : Value :=
  .object [("is_error".toList, .bool result.isError), ("result".toList, .string result.content),
    ("tool_name".toList, .string call.name)]

def hookText (toolName reason : Str) : Str :=
  "Hook blocked tool '".toList ++ toolName ++ "': ".toList ++ reason

def withWarning (verdict : LoopGuardVerdict) (content : Str) : Str :=
  match verdict with
  | .warn text => content ++ "\n\n[LOOP GUARD] ".toList ++ text
  | _ => content

def performCall (call : ToolCall) (verdict : LoopGuardVerdict) : Prog κ Unit := do
  notify a (.toolUse (phaseName call.name))
  match ← fire a .beforeToolCall (callData call) with
  | some reason => pushResult ⟨call.id, hookText call.name reason, true⟩
  | none => do
    let result ← executeTool a call
    let _ ← fire a .afterToolCall (resultData call result)
    match truncateToolResultDynamic result.content (contextBudget a) with
    | none => throw .panicked
    | some content =>
      pushResult ⟨result.toolUseId, withWarning verdict content, result.isError⟩

variable [DecidableEq κ]

def handleCall (call : ToolCall) : Prog κ Unit := do
  let verdict ← checkCall a call
  match verdict with
  | .circuitBreak text => breakCircuit a text
  | .block text => pushResult ⟨call.id, text, true⟩
  | .allow => performCall a call .allow
  | .warn text => performCall a call (.warn text)

def toolUse (response : CompletionResponse) : Prog κ Unit := do
  update (fun s => { s with consecutiveMaxTokens := 0, toolResultBlocks := [] })
  pushSession ⟨.assistant, .blocks response.content⟩
  pushMessages ⟨.assistant, .blocks response.content⟩
  response.toolCalls.forM (handleCall a)
  let blocks ← read Loop.toolResultBlocks
  pushSession ⟨.user, .blocks blocks⟩
  pushMessages ⟨.user, .blocks blocks⟩
  let _ ← saveSession a

end ToolUse

section MaxTokens

def partialFallback : Str :=
  "[Partial response — token limit reached with no text output.]".toList

def returnPartial (iteration : Nat) (response : CompletionResponse) : Prog κ Unit := do
  let sanitized := sanitizeVisibleResponse response.text
  let isEmpty := trim sanitized = []
  pushSession (Message.assistant (if isEmpty then partialFallback else sanitized))
  let _ ← saveSession a
  let _ ← fire a .agentLoopEnd (.object [
    ("iterations".toList, number (iteration + 1)),
    ("reason".toList, .string "max_continuations".toList)])
  let totalUsage ← read Loop.totalUsage
  throw (.returned
    { response := if isEmpty then partialFallback else response.text
      totalUsage := totalUsage
      iterations := iteration + 1
      silent := false
      directives := noDirectives })

def continueText : Str := "Please continue.".toList

def pushPartial (memoryText : Str) : Prog κ Unit :=
  if trim memoryText = [] then pure ()
  else do
    pushSession (Message.assistant memoryText)
    pushMessages (Message.assistant memoryText)

def reachMaxTokens (iteration : Nat) (response : CompletionResponse) : Prog κ Unit := do
  update (fun s => { s with consecutiveMaxTokens := s.consecutiveMaxTokens + 1 })
  let consecutiveMaxTokens ← read Loop.consecutiveMaxTokens
  if maxContinuations ≤ consecutiveMaxTokens then returnPartial a iteration response
  else do
    pushPartial (sanitizeVisibleResponse response.text)
    pushSession (Message.user continueText)
    pushMessages (Message.user continueText)

end MaxTokens

section Run

variable [DecidableEq κ]

def actOn (iteration : Nat) (response : CompletionResponse) : Prog κ Unit :=
  match response.stopReason with
  | .endTurn => endTurn a iteration response
  | .stopSequence => endTurn a iteration response
  | .toolUse => toolUse a response
  | .maxTokens => reachMaxTokens a iteration response

def iterate (iteration : Nat) : Prog κ Unit := do
  let _ ← fitContext a
  guardContext a
  let messages ← read Loop.messages
  notify a .thinking
  let raw ← callWithRetry a (requestOf a messages) maxRetries
  addUsage raw.usage
  let response ← promoteTextCalls a raw
  emit (.response response)
  actOn a iteration response

/-- The messages the first request is made of: the repaired session, cut to its
last messages. -/
def openingMessages (session : List Message) : List Message :=
  let messages := SessionRepair.validateAndRepair (session.filter (fun m => m.role ≠ .system))
  messages.drop (messages.length - maxHistoryMessages)

def exceedIterations : Prog κ Exit := do
  let _ ← saveSession a
  let _ ← fire a .agentLoopEnd (.object [
    ("iterations".toList, number (maxIterations a).toNat),
    ("reason".toList, .string "max_iterations_exceeded".toList)])
  pure (.failed (.maxIterationsExceeded (maxIterations a)))

def agentLoop : Prog κ Exit := do
  let _ ← fire a .beforePromptBuild (.object [
    ("system_prompt".toList, .string a.manifest.model.systemPrompt),
    ("user_message".toList, .string a.userMessage)])
  pushSession (Message.user a.userMessage)
  update (fun s => { s with messages := openingMessages s.session })
  (List.range (maxIterations a).toNat).forM (iterate a)
  exceedIterations a

def Loop.start (session : List Message) : Loop κ where
  session := session
  messages := []
  totalUsage := ⟨0, 0⟩
  guard := LoopGuard.new (loopGuardConfig a)
  consecutiveMaxTokens := 0
  toolResultBlocks := []
  completions := 0
  executions := 0
  firings := 0
  saves := 0
  uuids := 0
  log := []

/-- Run a program to how the function is left and the state it leaves. -/
def outcome (x : Prog κ Exit) (s : Loop κ) : Exit × Loop κ :=
  match x s with
  | .ok exit s' => (exit, s')
  | .error exit s' => (exit, s')

def runAgentLoop (session : List Message) : Exit × Loop κ :=
  outcome (agentLoop a) (Loop.start a session)

end Run

section Script

/-- A run in which the driver answers from a script, the tools return the given
texts and nothing fails. -/
def scripted (autonomous : Option AutonomousConfig) (script : List CompletionResponse)
    (results : Nat → Str) : Args (Str × Value) where
  manifest := ⟨⟨"model".toList, [], 4096, .finite (7 / 10)⟩, autonomous⟩
  userMessage := "hi".toList
  availableTools := []
  contextWindowTokens := none
  world :=
    { hashing := { computeHash := Prod.mk, outcomeDigest := fun t p _ => (t, p), toLowercase := id }
      memories := []
      complete := fun n => match script[n]? with
        | some response => .ok response
        | none => .error (.parse [])
      classifyError := fun text => ⟨false, text⟩
      executeTool := fun n => some (results n, false)
      hooks := none
      saveSession := fun _ => none
      newUuid := showNat
      parseJson := fun _ => none
      onPhase := false }

/-- A response that asks for one call. -/
def callResponse (call : ToolCall) : CompletionResponse :=
  ⟨[toolUseBlock call], .toolUse, [call], ⟨0, 0⟩⟩

end Script

section Log

def requests (log : List Event) : List CompletionRequest :=
  log.filterMap fun
    | .request request => some request
    | _ => none

/-- The tool calls that were run, each with its result. -/
def executedCalls (log : List Event) : List (ToolCall × ToolResult) :=
  log.filterMap fun
    | .executed call result => some (call, result)
    | _ => none

def savedSessions (log : List Event) : List (List Message) :=
  log.filterMap fun
    | .saved session => some session
    | _ => none

end Log

end Clawreform.Runtime
