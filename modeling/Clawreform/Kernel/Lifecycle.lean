import Clawreform.Hands.Registry
import Clawreform.Kernel.AgentRegistry
import Clawreform.Kernel.Spawning
import Clawreform.Kernel.Triggers
import Clawreform.Memory.Session
import Clawreform.Runtime.SubprocessSandbox
import Clawreform.Runtime.WorkspaceSandbox

namespace Clawreform.Kernel.Lifecycle

open Clawreform.Lib Clawreform.Lib.Text Clawreform.Lib.Store
open Clawreform.Types Clawreform.Hands Clawreform.Memory
open Clawreform.Kernel.Spawning (ToolProfile ManifestCapabilities manifestToCapabilities)
open Clawreform.Runtime.SubprocessSandbox (ExecPolicy ExecSecurityMode)
open Clawreform.Runtime.WorkspaceSandbox (join)

section Manifests

inductive ScheduleMode where
  | reactive
  | periodic (cron : Str)
  | proactive (conditions : List Str)
  | continuous (checkIntervalSecs : UInt64)
  deriving DecidableEq

structure ResourceQuota where
  maxLlmTokensPerHour : UInt64
  deriving DecidableEq

def ResourceQuota.default : ResourceQuota := ⟨1000000⟩

/-- What a manifest says that nothing changes once the agent is spawned. -/
structure Declared where
  schedule : ScheduleMode
  apiKeyEnv : Option Str
  baseUrl : Option Str
  resources : ResourceQuota
  profile : Option ToolProfile
  capabilities : ManifestCapabilities
  tags : List Str
  execPolicy : Option ExecPolicy
  metadata : Map Str Json.Value
  deriving DecidableEq

structure SpawnManifest extends AgentManifest, Declared
  deriving DecidableEq

def Declared.default : Declared where
  schedule := .reactive
  apiKeyEnv := none
  baseUrl := none
  resources := .default
  profile := none
  capabilities := .default
  tags := []
  execPolicy := none
  metadata := ∅

def SpawnManifest.caps (manifest : SpawnManifest) : List Capability :=
  manifestToCapabilities ⟨manifest.name, manifest.profile, manifest.capabilities, manifest.tags⟩

end Manifests

section State

structure UsageTracker where
  totalTokens : UInt64
  toolCalls : UInt64
  windowStart : DateTime
  deriving DecidableEq

structure AgentScheduler where
  quotas : Map AgentId ResourceQuota
  usage : Map AgentId UsageTracker
  deriving DecidableEq

namespace AgentScheduler

variable (s : AgentScheduler)

def register (agentId : AgentId) (quota : ResourceQuota) (now : DateTime) : AgentScheduler where
  quotas := s.quotas.insert agentId quota
  usage := s.usage.insert agentId ⟨0, 0, now⟩

def unregister (agentId : AgentId) : AgentScheduler where
  quotas := s.quotas.erase agentId
  usage := s.usage.erase agentId

end AgentScheduler

/-- The agents whose loops can be stopped, and those whose loops cannot: starting a second loop
drops the handle of the first. -/
structure BackgroundExecutor where
  tasks : List AgentId
  detached : List AgentId
  deriving DecidableEq

namespace BackgroundExecutor

variable (b : BackgroundExecutor)

def start (agentId : AgentId) : BackgroundExecutor :=
  if agentId ∈ b.tasks then { b with detached := agentId :: b.detached }
  else { b with tasks := agentId :: b.tasks }

def stop (agentId : AgentId) : BackgroundExecutor :=
  { b with tasks := b.tasks.filter (· ≠ agentId) }

end BackgroundExecutor

/-- The part of an agent's entry that the registry never looks at. -/
structure Origin extends Declared where
  parent : Option AgentId
  createdAt : DateTime
  deriving DecidableEq

/-- A row of the table of agents. -/
structure AgentRow where
  name : Str
  manifest : SpawnManifest
  state : AgentState
  createdAt : DateTime
  sessionId : SessionId
  deriving DecidableEq

/-- The registry is split: what its operations work on, and the rest of each entry. -/
structure KernelState where
  registry : AgentRegistry
  origins : Map AgentId Origin
  capabilities : Map AgentId (List Capability)
  scheduler : AgentScheduler
  background : BackgroundExecutor
  triggers : TriggerEngine
  sessions : SessionStore
  rows : Map AgentId AgentRow
  hands : HandRegistry
  deriving DecidableEq

structure DefaultModelConfig where
  provider : Str
  model : Str
  baseUrl : Option Str
  deriving DecidableEq

/-- The configuration, and how texts are rendered. -/
structure KernelConfig where
  execPolicy : ExecPolicy
  defaultModel : DefaultModelConfig
  workspacesDir : Str
  rendering : Rendering

/-- What a spawn draws and is told: the ids, the time, and the errors of the session store, the
workspace and the agent store. The id of the stored session is not the one of the entry. -/
structure Draw where
  agentId : AgentId
  sessionId : SessionId
  storedSessionId : SessionId
  triggerIds : Nat → TriggerId
  now : DateTime
  sessionError : Option ClawReformError
  workspaceError : Option ClawReformError
  saveError : Option ClawReformError

end State

section Spawn

variable (K : KernelConfig) (s : KernelState)

def inheritPolicy (manifest : SpawnManifest) : SpawnManifest :=
  { manifest with execPolicy := manifest.execPolicy.or (some K.execPolicy) }

/-- The default model counts for an agent without a key and an address of its own. -/
def overlayModel (manifest : SpawnManifest) : SpawnManifest :=
  if manifest.apiKeyEnv = none ∧ manifest.baseUrl = none then
    let dm := K.defaultModel
    { manifest with
      model.provider := if dm.provider = [] then manifest.model.provider else dm.provider
      model.model := if dm.model = [] then manifest.model.model else dm.model
      baseUrl := dm.baseUrl.or manifest.baseUrl }
  else manifest

def workspaceDir (name : Str) (agentId : AgentId) : Str :=
  join K.workspacesDir (name ++ '-' :: agentId.toStr.take 8)

/-- The manifest an agent is registered with. -/
def prepared (manifest : SpawnManifest) (agentId : AgentId) : SpawnManifest :=
  let manifest' := overlayModel K (inheritPolicy K manifest)
  { manifest' with
    workspace := some (manifest'.workspace.getD (workspaceDir K manifest.name agentId)) }

def parseCondition (condition : Str) : Option TriggerPattern :=
  let condition := trim condition
  if condition.map Char.toLower = "all".toList then some .all
  else
    match stripPrefix "event:".toList condition with
    | some eventKind =>
      let kind := K.rendering.toLowercase (trim eventKind)
      if kind = "agent_spawned".toList then some (.agentSpawned ['*'])
      else if kind = "agent_terminated".toList then some .agentTerminated
      else if kind = "lifecycle".toList then some .lifecycle
      else if kind = "system".toList then some .system
      else if kind = "memory_update".toList then some .memoryUpdate
      else none
    | none => (stripPrefix "memory:".toList condition).map fun key => .memoryKeyPattern (trim key)

def alertPrompt (condition name : Str) : Str :=
  "[PROACTIVE ALERT] Condition '".toList ++ condition ++
    "' matched: \x7b\x7bevent\x7d\x7d. Review and take appropriate action. Agent: ".toList ++ name

/-- One trigger for each condition that is understood. -/
def registerConditions (agentId : AgentId) (name : Str) (triggerIds : Nat → TriggerId)
    (now : DateTime) (schedule : ScheduleMode) (triggers : TriggerEngine) : TriggerEngine :=
  match schedule with
  | .proactive conditions =>
    conditions.zipIdx.foldl (fun triggers c =>
      match parseCondition K c.1 with
      | some pattern =>
        triggers.register agentId pattern (alertPrompt c.1 name) 0 (triggerIds c.2) now
      | none => triggers) triggers
  | .reactive | .periodic _ | .continuous _ => triggers

def entryOf (manifest : SpawnManifest) (draw : Draw) : AgentEntry where
  id := draw.agentId
  name := manifest.name
  manifest := manifest.toAgentManifest
  state := .running
  mode := .full
  lastActive := draw.now
  children := []
  sessionId := draw.sessionId
  tags := manifest.tags
  identity := ⟨none, none, none, none, none, none⟩
  onboardingCompleted := false
  onboardingCompletedAt := none

def addChild (registry : AgentRegistry) (parent : Option AgentId) (child : AgentId) :
    AgentRegistry :=
  match parent with
  | some parentId => registry.addChild parentId child
  | none => registry

def rowOf (entry : AgentEntry) (origin : Origin) : AgentRow where
  name := entry.name
  manifest := { entry.manifest, origin.toDeclared with }
  state := entry.state
  createdAt := origin.createdAt
  sessionId := entry.sessionId

/-- The triggers of a new agent, and what the event of its spawn does to all of them. -/
def announce (manifest : SpawnManifest) (draw : Draw) (triggers : TriggerEngine) :
    TriggerEngine :=
  let registered := registerConditions K draw.agentId manifest.name draw.triggerIds draw.now
    manifest.schedule triggers
  match registered.evaluate K.rendering ⟨.lifecycle (.spawned draw.agentId manifest.name)⟩ with
  | some p => p.1
  | none => registered

def spawnAgentWithParent (manifest : SpawnManifest) (parent : Option AgentId) (draw : Draw) :
    KernelState × Except ClawReformError AgentId :=
  match draw.sessionError with
  | some e => (s, .error e)
  | none =>
    let s := { s with sessions := s.sessions.createSession draw.agentId draw.storedSessionId }
    let manifest := prepared K manifest draw.agentId
    match draw.workspaceError with
    | some e => (s, .error e)
    | none =>
      let s := { s with
        capabilities := s.capabilities.insert draw.agentId manifest.caps
        scheduler := s.scheduler.register draw.agentId manifest.resources draw.now }
      let entry := entryOf manifest draw
      let origin : Origin := { manifest.toDeclared with parent := parent, createdAt := draw.now }
      match s.registry.register entry with
      | (_, .error e) => (s, .error e)
      | (registry, .ok ()) =>
        let s := { s with
          registry := addChild registry parent draw.agentId
          origins := s.origins.insert draw.agentId origin }
        match draw.saveError with
        | some e => (s, .error e)
        | none =>
          ({ s with
             rows := s.rows.insert draw.agentId (rowOf entry origin)
             triggers := announce K manifest draw s.triggers }, .ok draw.agentId)

end Spawn

section Kill

/-- Which deletions the tables refuse; nothing is told of it. -/
structure Removal where
  keepsSessions : Bool
  keepsRow : Bool
  deriving DecidableEq

def killAgent (s : KernelState) (agentId : AgentId) (removal : Removal) :
    KernelState × Except ClawReformError Unit :=
  match s.registry.remove agentId with
  | (_, .error e) => (s, .error e)
  | (registry, .ok _) =>
    ({ s with
       registry := registry
       origins := s.origins.erase agentId
       background := s.background.stop agentId
       scheduler := s.scheduler.unregister agentId
       capabilities := s.capabilities.erase agentId
       triggers := s.triggers.removeAgentTriggers agentId
       sessions :=
         if removal.keepsSessions then s.sessions else s.sessions.deleteAgentSessions agentId
       rows := if removal.keepsRow then s.rows else s.rows.erase agentId }, .ok ())

end Kill

section Hands

variable (K : KernelConfig) (s : KernelState)

def separator : Str := "\n\n---\n\n".toList

/-- The manifest of a hand's agent: the settings and the skill stand below its prompt. -/
def handManifest (hand : HandDefinition) (created : HandInstance) : SpawnManifest :=
  let resolved := resolveSettings hand.settings created.config
  let orDefault (own ours : Str) : Str := if own = "default".toList then ours else own
  let prompt := hand.agent.systemPrompt
  let prompt :=
    if resolved.promptBlock = [] then prompt else prompt ++ separator ++ resolved.promptBlock
  let prompt :=
    match hand.skillContent with
    | some content => prompt ++ separator ++ "## Reference Knowledge\n\n".toList ++ content
    | none => prompt
  { Declared.default with
    name := hand.agent.name
    description := hand.agent.description
    model :=
      { provider := orDefault hand.agent.provider K.defaultModel.provider
        model := orDefault hand.agent.model K.defaultModel.model
        systemPrompt := prompt }
    skills := hand.skills
    mcpServers := hand.mcpServers
    workspace := none
    apiKeyEnv := hand.agent.apiKeyEnv
    baseUrl := hand.agent.baseUrl
    capabilities := { ManifestCapabilities.default with tools := hand.tools }
    tags := ["hand:".toList ++ created.handId, "hand_instance:".toList ++ created.instanceId.toStr]
    execPolicy :=
      if "shell_exec".toList ∈ hand.tools then some { ExecPolicy.default with mode := .full }
      else none
    metadata :=
      if resolved.envVars = [] then ∅
      else
        (∅ : Map Str Json.Value).insert "hand_allowed_env".toList
          (.array (resolved.envVars.map .string)) }

def refused : HandError → ClawReformError
  | .alreadyActive id => .internal ("Hand already active: ".toList ++ id)
  | other => .internal other.toStr

/-- The instance gets the agent that was spawned for it. -/
def linkAgent (created : HandInstance) (now : DateTime) :
    KernelState × Except ClawReformError AgentId → KernelState × Except ClawReformError HandInstance
  | (s, .error e) => (s, .error e)
  | (s, .ok agentId) =>
    match s.hands.setAgent created.instanceId agentId now with
    | (_, .error e) => (s, .error (.internal e.toStr))
    | (hands, .ok ()) =>
      ({ s with hands := hands }, .ok ((hands.getInstance created.instanceId).getD created))

/-- `instanceId` is the new instance's random id. -/
def activateHand (handId : Str) (config : HandConfig) (instanceId : Uuid) (draw : Draw) :
    KernelState × Except ClawReformError HandInstance :=
  match s.hands.getDefinition handId with
  | none => (s, .error (.agentNotFound ("Hand not found: ".toList ++ handId)))
  | some hand =>
    match s.hands.activate handId config instanceId draw.now with
    | (_, .error e) => (s, .error (refused e))
    | (hands, .ok created) =>
      linkAgent created draw.now
        (spawnAgentWithParent K { s with hands := hands } (handManifest K hand created) none draw)

/-- What killing the agent comes to is only logged. -/
def deactivateHand (instanceId : Uuid) (removal : Removal) :
    KernelState × Except ClawReformError Unit :=
  match s.hands.deactivate instanceId with
  | (_, .error e) => (s, .error (.internal e.toStr))
  | (hands, .ok removed) =>
    let s := { s with hands := hands }
    match removed.agentId with
    | some agentId => ((killAgent s agentId removal).1, .ok ())
    | none => (s, .ok ())

end Hands

end Clawreform.Kernel.Lifecycle
