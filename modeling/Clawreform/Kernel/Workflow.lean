import Clawreform.Lib.Program
import Clawreform.Lib.Store
import Clawreform.Types.Agent

namespace Clawreform.Kernel

open Clawreform.Lib.Text Clawreform.Lib.Store Clawreform.Lib.Program Clawreform.Types

abbrev WorkflowId := Uuid

abbrev WorkflowRunId := Uuid

inductive StepAgent where
  | byId (id : Str)
  | byName (name : Str)
  deriving DecidableEq

inductive StepMode where
  | sequential
  | fanOut
  | collect
  | conditional (condition : Str)
  | loop (maxIterations : UInt32) (untilText : Str)
  deriving DecidableEq

inductive ErrorMode where
  | fail
  | skip
  | retry (maxRetries : UInt32)
  deriving DecidableEq

structure WorkflowStep where
  name : Str
  agent : StepAgent
  promptTemplate : Str
  mode : StepMode
  timeoutSecs : UInt64
  errorMode : ErrorMode
  outputVar : Option Str
  deriving DecidableEq

def WorkflowStep.isFanOut (step : WorkflowStep) : Bool :=
  match step.mode with
  | .fanOut => true
  | .sequential | .collect | .conditional _ | .loop _ _ => false

structure Workflow where
  id : WorkflowId
  name : Str
  steps : List WorkflowStep
  deriving DecidableEq

inductive WorkflowRunState where
  | pending
  | running
  | completed
  | failed
  deriving DecidableEq

structure StepResult where
  stepName : Str
  agentId : Str
  agentName : Str
  output : Str
  inputTokens : UInt64
  outputTokens : UInt64
  durationMs : UInt64
  deriving DecidableEq

structure WorkflowRun where
  id : WorkflowRunId
  workflowId : WorkflowId
  workflowName : Str
  input : Str
  state : WorkflowRunState
  stepResults : List StepResult
  output : Option Str
  error : Option Str
  startedAt : DateTime
  completedAt : Option DateTime
  deriving DecidableEq

structure WorkflowEngine where
  workflows : Map WorkflowId Workflow
  runs : Map WorkflowRunId WorkflowRun
  deriving DecidableEq

/-- How the sending of a message to an agent ends. It is cut off when the time of
the whole workflow is over first. -/
inductive Sent where
  | reply (output : Str) (inputTokens outputTokens : UInt64)
  | error (e : Str)
  | timedOut
  | cutOff
  deriving DecidableEq

/-- What a run leaves behind, in order: the answers of the resolver, the steps it
executed with the attempts it took, and the lock it did not get in time. -/
inductive StepEvent where
  | resolved (step : WorkflowStep) (answer : Option (AgentId × Str))
  | executed (step : WorkflowStep) (attempts : List Sent)
  | cutOff
  deriving DecidableEq

/-- How `execute_run` is left without a result: by an error of its own, or dropped
by the timeout around it. -/
inductive RunExit where
  | failed (e : Str)
  | cutOff
  deriving DecidableEq

/-- What surrounds a run. Whatever happens in time is numbered in the order of
asking. -/
structure WorkflowWorld where
  resolve : Nat → StepAgent → Option (AgentId × Str)
  sendMessage : Nat → AgentId → Str → Sent
  /-- Whether a lock is granted before the time of the whole workflow is over. -/
  granted : Nat → Bool
  now : Nat → DateTime
  elapsedMs : Nat → UInt64
  toLowercase : Str → Str
  /-- The order in which a hash map yields its entries. -/
  iterate : Map Str Str → List (Str × Str)
  iterate_perm : ∀ m, (iterate m).Perm (m.entries.map fun e => (e.1, e.2))

structure RunStatus where
  engine : WorkflowEngine
  tick : Nat
  log : List StepEvent
  deriving DecidableEq

/-- The local variables of `execute_run`. -/
structure RunLocals where
  currentInput : Str
  allOutputs : List Str
  vars : Map Str Str

structure FanOutCall where
  step : WorkflowStep
  agentId : AgentId
  agentName : Str
  prompt : Str

def RunLocals.setVariable (c : RunLocals) (step : WorkflowStep) (value : Str) : RunLocals :=
  match step.outputVar with
  | some var => { c with vars := c.vars.insert var value }
  | none => c

/-- The output of a step is the input of the next one. -/
def RunLocals.produce (c : RunLocals) (step : WorkflowStep) (output : Str) : RunLocals :=
  { c.setVariable step output with allOutputs := c.allOutputs ++ [output], currentInput := output }

/-- The output, the input tokens and the output tokens. -/
abbrev Reply := Str × UInt64 × UInt64

abbrev RunM := EStateM RunExit RunStatus

namespace WorkflowEngine

section Registry

def maxRetainedRuns : Nat := 200

def register (s : WorkflowEngine) (workflow : Workflow) : WorkflowEngine :=
  { s with workflows := s.workflows.insert workflow.id workflow }

def removeWorkflow (s : WorkflowEngine) (id : WorkflowId) : WorkflowEngine :=
  { s with workflows := s.workflows.erase id }

def isOver (run : WorkflowRun) : Bool :=
  match run.state with
  | .completed | .failed => true
  | .pending | .running => false

/-- The runs that are dropped over the limit, the oldest first. -/
def evicted (runs : Map WorkflowRunId WorkflowRun) : List WorkflowRunId :=
  let evictable := runs.entries.filterMap fun e => if isOver e.2 then some (e.1, e.2.startedAt) else none
  ((evictable.mergeSort fun a b => a.2 ≤ b.2).take (runs.entries.length - maxRetainedRuns)).map (·.1)

def createRun (s : WorkflowEngine) (workflowId : WorkflowId) (input : Str) (runId : WorkflowRunId)
    (now : DateTime) : Option WorkflowEngine :=
  (s.workflows.lookup workflowId).map fun workflow =>
    let runs := s.runs.insert runId
      { id := runId, workflowId, workflowName := workflow.name, input, state := .pending,
        stepResults := [], output := none, error := none, startedAt := now, completedAt := none }
    { s with runs :=
        if maxRetainedRuns < runs.entries.length then
          (evicted runs).foldl (fun m id => m.erase id) runs
        else runs }

end Registry

section Execute

variable (W : WorkflowWorld)

def draw {α : Type} (f : Nat → α) : RunM α := do
  let n ← read (·.tick)
  update fun s => { s with tick := n + 1 }
  pure (f n)

def note (event : StepEvent) : RunM Unit := update fun s => { s with log := s.log ++ [event] }

def lock : RunM Unit := do
  if ← draw W.granted then pure ()
  else do
    note .cutOff
    throw .cutOff

/-- Change the stored run, if there is one. -/
def changeRun (runId : WorkflowRunId) (f : WorkflowRun → WorkflowRun) : RunM Unit :=
  update fun s => { s with engine := { s.engine with runs := adjust runId f s.engine.runs } }

def expandVariables (template input : Str) (vars : Map Str Str) : Str :=
  (W.iterate vars).foldl
    (fun result v => replaceText result ("\x7b\x7b".toList ++ v.1 ++ "\x7d\x7d".toList) v.2)
    (replaceText template "\x7b\x7binput\x7d\x7d".toList input)

def stepText (what : String) (step : WorkflowStep) : Str := what.toList ++ " '".toList ++ step.name

def timedOutText (step : WorkflowStep) : Str :=
  "timed out after ".toList ++ showNat step.timeoutSecs.toNat ++ "s".toList

/-- Every attempt but the last one failed. -/
def retry (step : WorkflowStep) (agentId : AgentId) (prompt : Str) (maxRetries : UInt32) :
    Nat → List Sent → RunM (Except Str (Option Reply))
  | left, failed => do
    let sent ← draw fun n => W.sendMessage n agentId prompt
    let again (lastErr : Str) : RunM (Except Str (Option Reply)) :=
      match left with
      | left + 1 => retry step agentId prompt maxRetries left (failed ++ [sent])
      | 0 => do
        note (.executed step (failed ++ [sent]))
        pure (.error (stepText "Step" step ++ "' failed after ".toList ++
          showNat maxRetries.toNat ++ " retries: ".toList ++ lastErr))
    match sent with
    | .reply output inputTokens outputTokens => do
      note (.executed step (failed ++ [sent]))
      pure (.ok (some (output, inputTokens, outputTokens)))
    | .error e => again e
    | .timedOut => again (timedOutText step)
    | .cutOff => do
      note (.executed step (failed ++ [sent]))
      throw .cutOff

/-- One attempt, as it is made under `Fail` and under `Skip`. -/
def attemptOnce (step : WorkflowStep) (agentId : AgentId) (prompt : Str) : RunM (Except Str Reply) := do
  let sent ← draw fun n => W.sendMessage n agentId prompt
  note (.executed step [sent])
  match sent with
  | .reply output inputTokens outputTokens => pure (.ok (output, inputTokens, outputTokens))
  | .error e => pure (.error (stepText "Step" step ++ "' failed: ".toList ++ e))
  | .timedOut => pure (.error (stepText "Step" step ++ "' ".toList ++ timedOutText step))
  | .cutOff => throw .cutOff

def executeStepWithErrorMode (step : WorkflowStep) (agentId : AgentId) (prompt : Str) :
    RunM (Except Str (Option Reply)) :=
  match step.errorMode with
  | .fail => do
    match ← attemptOnce W step agentId prompt with
    | .ok reply => pure (.ok (some reply))
    | .error e => pure (.error e)
  | .skip => do
    match ← attemptOnce W step agentId prompt with
    | .ok reply => pure (.ok (some reply))
    | .error _ => pure (.ok none)
  | .retry maxRetries => retry W step agentId prompt maxRetries maxRetries.toNat []

def resolveAgent (step : WorkflowStep) : RunM (AgentId × Str) := do
  let answer ← draw fun n => W.resolve n step.agent
  note (.resolved step answer)
  match answer with
  | some agent => pure agent
  | none => throw (.failed ("Agent not found for step '".toList ++ step.name ++ "'".toList))

def failRun {α : Type} (runId : WorkflowRunId) (e : Str) : RunM α := do
  lock W
  let now ← draw W.now
  changeRun runId fun r => { r with state := .failed, error := some e, completedAt := some now }
  throw (.failed e)

def pushResult (runId : WorkflowRunId) (stepName : Str) (agent : AgentId × Str) (reply : Reply)
    (durationMs : UInt64) : RunM Unit := do
  lock W
  changeRun runId fun r =>
    { r with stepResults := r.stepResults ++
        [{ stepName, agentId := agent.1.toStr, agentName := agent.2, output := reply.1,
           inputTokens := reply.2.1, outputTokens := reply.2.2, durationMs }] }

/-- A sequential step, and a conditional one whose condition is met. -/
def executeSequential (runId : WorkflowRunId) (step : WorkflowStep) (c : RunLocals) :
    RunM RunLocals := do
  let agent ← resolveAgent W step
  let prompt := expandVariables W step.promptTemplate c.currentInput c.vars
  let result ← executeStepWithErrorMode W step agent.1 prompt
  let durationMs ← draw W.elapsedMs
  match result with
  | .ok (some reply) => do
    pushResult W runId step.name agent reply durationMs
    pure (c.produce step reply.1)
  | .ok none => pure c
  | .error e => failRun W runId e

def fanOutCall (c : RunLocals) (step : WorkflowStep) : RunM FanOutCall := do
  let agent ← resolveAgent W step
  pure ⟨step, agent.1, agent.2, expandVariables W step.promptTemplate c.currentInput c.vars⟩

/-- All the messages are under way before the first answer is awaited. -/
def joinAll (calls : List FanOutCall) : RunM (List (FanOutCall × Sent)) := do
  let results ← calls.mapM fun call => do
    let sent ← draw fun n => W.sendMessage n call.agentId call.prompt
    pure (call, sent)
  if results.any (·.2 = .cutOff) then do
    note .cutOff
    throw .cutOff
  else pure results

def fanOutResult (runId : WorkflowRunId) (durationMs : UInt64) (c : RunLocals)
    (result : FanOutCall × Sent) : RunM RunLocals := do
  note (.executed result.1.step [result.2])
  match result.2 with
  | .reply output inputTokens outputTokens => do
    pushResult W runId result.1.step.name (result.1.agentId, result.1.agentName)
      (output, inputTokens, outputTokens) durationMs
    pure (c.produce result.1.step output)
  | .error e => failRun W runId (stepText "FanOut step" result.1.step ++ "' failed: ".toList ++ e)
  | .timedOut =>
    failRun W runId (stepText "FanOut step" result.1.step ++ "' ".toList ++ timedOutText result.1.step)
  | .cutOff => throw .cutOff

def executeFanOut (runId : WorkflowRunId) (group : List WorkflowStep) (c : RunLocals) :
    RunM RunLocals := do
  let calls ← group.mapM (fanOutCall W c)
  let results ← joinAll W calls
  let durationMs ← draw W.elapsedMs
  results.foldlM (fanOutResult W runId durationMs) c

def iterationName (step : WorkflowStep) (iteration : Nat) : Str :=
  step.name ++ " (iter ".toList ++ showNat iteration ++ ")".toList

def executeLoop (runId : WorkflowRunId) (step : WorkflowStep) (agent : AgentId × Str)
    (untilLower : Str) : Nat → Nat → RunLocals → RunM RunLocals
  | 0, _, c => pure c
  | left + 1, loopIter, c => do
    let prompt := expandVariables W step.promptTemplate c.currentInput c.vars
    let result ← executeStepWithErrorMode W step agent.1 prompt
    let durationMs ← draw W.elapsedMs
    match result with
    | .ok (some reply) => do
      pushResult W runId (iterationName step (loopIter + 1)) agent reply durationMs
      let c := { c with currentInput := reply.1 }
      if contains (W.toLowercase reply.1) untilLower then pure c
      else executeLoop runId step agent untilLower left (loopIter + 1) c
    | .ok none => pure c
    | .error e => failRun W runId e

def separator : Str := "\n\n---\n\n".toList

/-- Execute the first of the steps that are left, and tell how many of the steps
after it were executed with it. -/
def executeStep (runId : WorkflowRunId) (step : WorkflowStep) (rest : List WorkflowStep)
    (c : RunLocals) : RunM (RunLocals × Nat) :=
  match step.mode with
  | .sequential => do pure (← executeSequential W runId step c, 0)
  | .fanOut => do
    let others := rest.takeWhile WorkflowStep.isFanOut
    pure (← executeFanOut W runId (step :: others) c, others.length)
  | .collect =>
    let collected := separator.intercalate c.allOutputs
    pure ({ c with currentInput := collected, allOutputs := [collected] }.setVariable step collected, 0)
  | .conditional condition =>
    if contains (W.toLowercase c.currentInput) (W.toLowercase condition) then do
      pure (← executeSequential W runId step c, 0)
    else pure (c, 0)
  | .loop maxIterations untilText => do
    let agent ← resolveAgent W step
    let c ← executeLoop W runId step agent (W.toLowercase untilText) maxIterations.toNat 0 c
    pure ({ c with allOutputs := c.allOutputs ++ [c.currentInput] }.setVariable step c.currentInput, 0)

def executeSteps (runId : WorkflowRunId) : Nat → List WorkflowStep → RunLocals → RunM RunLocals
  | _, [], c => pure c
  | passed + 1, _ :: rest, c => executeSteps runId passed rest c
  | 0, step :: rest, c => do
    let (c, passed) ← executeStep W runId step rest c
    executeSteps runId passed rest c

/-- Mark the run as running and look its workflow up. -/
def startRun (runId : WorkflowRunId) : RunM (Workflow × Str) := do
  lock W
  match ← read fun s => s.engine.runs.lookup runId with
  | none => throw (.failed "Workflow run not found".toList)
  | some run => do
    changeRun runId fun r => { r with state := .running }
    lock W
    match ← read fun s => s.engine.workflows.lookup run.workflowId with
    | none => throw (.failed "Workflow definition not found".toList)
    | some workflow => pure (workflow, run.input)

def executeRun (runId : WorkflowRunId) : RunM Str := do
  let (workflow, input) ← startRun W runId
  let c ← executeSteps W runId 0 workflow.steps ⟨input, [], ∅⟩
  lock W
  let now ← draw W.now
  changeRun runId fun r =>
    { r with state := .completed, output := some c.currentInput, completedAt := some now }
  pure c.currentInput

def maxWorkflowSecs : Nat := 3600

/-- The kernel's way to a run: create it and execute it under a timeout. -/
def runWorkflow (s : WorkflowEngine) (workflowId : WorkflowId) (input : Str) (runId : WorkflowRunId)
    (now : DateTime) : Except ClawReformError (WorkflowRunId × Str) × WorkflowEngine :=
  match s.createRun workflowId input runId now with
  | none => (.error (.internal "Workflow not found".toList), s)
  | some s =>
    match executeRun W runId ⟨s, 0, []⟩ with
    | .ok output s => (.ok (runId, output), s.engine)
    | .error .cutOff s =>
      (.error (.internal ("Workflow timed out after ".toList ++ showNat maxWorkflowSecs ++ "s".toList)),
        s.engine)
    | .error (.failed e) s => (.error (.internal ("Workflow failed: ".toList ++ e)), s.engine)

end Execute

end WorkflowEngine

end Clawreform.Kernel
