import Clawreform.Lib.Run
import Clawreform.Lib.Store
import Clawreform.Types.Agent
import Clawreform.Types.Capability

namespace Clawreform.Kernel.Spawning

open Clawreform.Lib.Text Clawreform.Lib.Run Clawreform.Lib.Store
open Clawreform.Types

section Manifests

inductive ToolProfile where
  | minimal
  | coding
  | research
  | messaging
  | automation
  | full
  | custom
  deriving DecidableEq

structure ManifestCapabilities where
  network : List Str
  tools : List Str
  memoryRead : List Str
  memoryWrite : List Str
  agentSpawn : Bool
  agentMessage : List Str
  shell : List Str
  ofpDiscover : Bool
  ofpConnect : List Str
  deriving DecidableEq

def ManifestCapabilities.default : ManifestCapabilities :=
  ⟨[], [], [], [], false, [], [], false, []⟩

/-- A manifest, as far as spawning looks at it. -/
structure Manifest where
  name : Str
  profile : Option ToolProfile
  capabilities : ManifestCapabilities
  tags : List Str
  deriving DecidableEq

namespace ToolProfile

def tools : ToolProfile → List Str
  | minimal => ["file_read".toList, "file_list".toList]
  | coding =>
    ["file_read".toList, "file_write".toList, "file_list".toList, "shell_exec".toList,
      "web_fetch".toList]
  | research =>
    ["web_fetch".toList, "web_search".toList, "file_read".toList, "file_write".toList]
  | messaging =>
    ["agent_send".toList, "agent_list".toList, "memory_store".toList, "memory_recall".toList]
  | automation =>
    ["file_read".toList, "file_write".toList, "file_list".toList, "shell_exec".toList,
      "web_fetch".toList, "web_search".toList, "agent_send".toList, "agent_list".toList,
      "memory_store".toList, "memory_recall".toList]
  | full => [['*']]
  | custom => [['*']]

def impliedCapabilities (profile : ToolProfile) : ManifestCapabilities :=
  let tools := profile.tools
  let hasNet := tools.any fun t => "web_".toList <+: t ∨ t = ['*']
  let hasShell := tools.any fun t => t = "shell_exec".toList ∨ t = ['*']
  let hasAgent := tools.any fun t => "agent_".toList <+: t ∨ t = ['*']
  let hasMemory := tools.any fun t => "memory_".toList <+: t ∨ t = ['*']
  { tools
    network := if hasNet then [['*']] else []
    shell := if hasShell then [['*']] else []
    agentSpawn := hasAgent
    agentMessage := if hasAgent then [['*']] else []
    memoryRead := if hasMemory then [['*']] else ["self.*".toList]
    memoryWrite := ["self.*".toList]
    ofpDiscover := false
    ofpConnect := [] }

end ToolProfile

/-- The profile counts where the manifest lists no tools, and gives way to what the manifest
says about anything else. -/
def effectiveCaps (manifest : Manifest) : ManifestCapabilities :=
  let declared := manifest.capabilities
  match manifest.profile with
  | none => declared
  | some profile =>
    if declared.tools = [] then
      let merged := profile.impliedCapabilities
      { merged with
        network := if declared.network = [] then merged.network else declared.network
        shell := if declared.shell = [] then merged.shell else declared.shell
        agentMessage :=
          if declared.agentMessage = [] then merged.agentMessage else declared.agentMessage
        agentSpawn := declared.agentSpawn || merged.agentSpawn
        memoryRead := if declared.memoryRead = [] then merged.memoryRead else declared.memoryRead
        memoryWrite :=
          if declared.memoryWrite = [] then merged.memoryWrite else declared.memoryWrite
        ofpDiscover := declared.ofpDiscover || merged.ofpDiscover
        ofpConnect := if declared.ofpConnect = [] then merged.ofpConnect else declared.ofpConnect }
    else declared

def manifestToCapabilities (manifest : Manifest) : List Capability :=
  let caps := effectiveCaps manifest
  caps.network.map .netConnect ++ caps.tools.map .toolInvoke ++ caps.memoryRead.map .memoryRead ++
    caps.memoryWrite.map .memoryWrite ++ (if caps.agentSpawn then [.agentSpawn] else []) ++
    caps.agentMessage.map .agentMessage ++ caps.shell.map .shellExec ++
    (if caps.ofpDiscover then [.ofpDiscover] else []) ++ caps.ofpConnect.map .ofpConnect

end Manifests

section Code

/-- What the kernel gets from elsewhere: the TOML reader, the derived debug text of a
capability and the lowercase mapping. -/
structure Texts where
  parse : Str → Except Str Manifest
  debug : Capability → Str
  toLowercase : Str → Str

/-- An agent of the registry. -/
structure Agent where
  manifest : Manifest
  tags : List Str
  parent : Option AgentId
  children : List AgentId
  deriving DecidableEq

/-- A turn of an agent that runs as a WASM module, with the capabilities its host functions
check. -/
structure Guest where
  agentId : AgentId
  capabilities : List Capability
  deriving DecidableEq

structure KernelState where
  agents : Map AgentId Agent
  capabilities : Map AgentId (List Capability)
  saved : Map AgentId Manifest
  guests : List Guest
  deriving DecidableEq

def KernelState.empty : KernelState := ⟨∅, ∅, ∅, []⟩

/-- What a spawn draws and is told: the new id, and the errors of the session store, the
workspace and the agent store. -/
structure Draw where
  agentId : AgentId
  sessionError : Option Str
  workspaceError : Option Str
  saveError : Option Str
  deriving DecidableEq

/-- A child was granted capabilities while its parent held others. -/
structure Granted where
  parent : AgentId
  held : List Capability
  child : AgentId
  caps : List Capability
  deriving DecidableEq

variable (T : Texts)

def nameTaken (s : KernelState) (name : Str) : Bool :=
  s.agents.entries.any fun e => e.2.manifest.name = name

def alreadyExists (name : Str) : Str := "Agent already exists: ".toList ++ name

def held (s : KernelState) (agentId : AgentId) : List Capability :=
  (s.capabilities.lookup agentId).getD []

def addChild (parent : Option AgentId) (child : AgentId) (agents : Map AgentId Agent) :
    Map AgentId Agent :=
  match parent with
  | none => agents
  | some p => adjust p (fun a => { a with children := a.children ++ [child] }) agents

def spawnAgentWithParent (s : KernelState) (manifest : Manifest) (parent : Option AgentId)
    (draw : Draw) : (KernelState × Except Str AgentId) × List Granted :=
  match draw.sessionError with
  | some e => ((s, .error e), [])
  | none =>
    match draw.workspaceError with
    | some e => ((s, .error e), [])
    | none =>
      let caps := manifestToCapabilities manifest
      let events := parent.toList.map fun p => ⟨p, held s p, draw.agentId, caps⟩
      let granted := { s with capabilities := s.capabilities.insert draw.agentId caps }
      if nameTaken s manifest.name then ((granted, .error (alreadyExists manifest.name)), events)
      else
        let agent : Agent := ⟨manifest, manifest.tags, parent, []⟩
        let agents := addChild parent draw.agentId (s.agents.insert draw.agentId agent)
        match draw.saveError with
        | some e => (({ granted with agents := agents }, .error e), events)
        | none =>
          (({ granted with agents := agents, saved := s.saved.insert draw.agentId manifest },
            .ok draw.agentId), events)

/-- The kernel handle behind the tool: the manifest is parsed and spawned. -/
def spawnAgent (s : KernelState) (manifestToml : Str) (parentId : AgentId) (draw : Draw) :
    (KernelState × Except Str AgentId) × List Granted :=
  match T.parse manifestToml with
  | .error e => ((s, .error ("Invalid manifest: ".toList ++ e)), [])
  | .ok manifest => spawnAgentWithParent s manifest (some parentId) draw

def spawnAgentChecked (s : KernelState) (manifestToml : Str) (parentId : AgentId)
    (parentCaps : List Capability) (draw : Draw) :
    (KernelState × Except Str AgentId) × List Granted :=
  match T.parse manifestToml with
  | .error e => ((s, .error ("Invalid manifest: ".toList ++ e)), [])
  | .ok manifest =>
    match validateCapabilityInheritance T.debug parentCaps (manifestToCapabilities manifest) with
    | .error e => ((s, .error e), [])
    | .ok () => spawnAgent T s manifestToml parentId draw

/-- The host function of a guest. -/
def hostAgentSpawn (s : KernelState) (guest : Guest) (manifestToml : Str) (draw : Draw) :
    KernelState × List Granted :=
  if guest ∈ s.guests ∧ guest.capabilities.any (capabilityMatches · .agentSpawn) then
    let p := spawnAgentChecked T s manifestToml guest.agentId guest.capabilities draw
    (p.1.1, p.2)
  else (s, [])

def handTags (handId : Str) (instanceId : Uuid) : List Str :=
  ["hand:".toList ++ handId, "hand_instance:".toList ++ instanceId.toStr]

def handManifest (handId : Str) (instanceId : Uuid) (name : Str) (tools : List Str) : Manifest :=
  ⟨name, none, { ManifestCapabilities.default with tools := tools }, handTags handId instanceId⟩

def killAgent (s : KernelState) (agentId : AgentId) : KernelState :=
  if (s.agents.lookup agentId).isSome then
    { s with
      agents := s.agents.erase agentId
      capabilities := s.capabilities.erase agentId
      saved := s.saved.erase agentId }
  else s

def renameAgent (s : KernelState) (agentId : AgentId) (newName : Str) : KernelState :=
  if nameTaken s newName then s
  else
    { s with
      agents := adjust agentId (fun a => { a with manifest.name := newName }) s.agents }

/-- A registered agent is written to the store as it now is. -/
def saveAgent (s : KernelState) (agentId : AgentId) : KernelState :=
  match s.agents.lookup agentId with
  | none => s
  | some agent => { s with saved := s.saved.insert agentId agent.manifest }

/-- The first agent of every name, whatever its case. -/
def loadAllAgents (seenNames : List Str) :
    List (Sigma fun _ : AgentId => Manifest) → List (Sigma fun _ : AgentId => Manifest)
  | [] => []
  | row :: rows =>
    let nameLower := T.toLowercase row.2.name
    if nameLower ∈ seenNames then loadAllAgents seenNames rows
    else row :: loadAllAgents (nameLower :: seenNames) rows

/-- An agent of the store is granted its capabilities, and registered without its tags, unless
its name is taken. -/
def restoreAgent (s : KernelState) (agentId : AgentId) (manifest : Manifest) : KernelState :=
  let granted :=
    { s with capabilities := s.capabilities.insert agentId (manifestToCapabilities manifest) }
  if nameTaken s manifest.name then granted
  else { granted with agents := s.agents.insert agentId ⟨manifest, [], none, []⟩ }

def boot (saved : Map AgentId Manifest) : KernelState :=
  (loadAllAgents T [] saved.entries).foldl (fun s row => restoreAgent s row.1 row.2)
    ⟨∅, ∅, saved, []⟩

inductive SpawnOp where
  | spawn (manifest : Manifest) (draw : Draw)
  | toolAgentSpawn (caller : AgentId) (manifestToml : Str) (draw : Draw)
  | executeWasmAgent (agentId : AgentId)
  | hostAgentSpawn (guest : Guest) (manifestToml : Str) (draw : Draw)
  | guestDone (guest : Guest)
  | activateHand (handId : Str) (instanceId : Uuid) (name : Str) (tools : List Str) (draw : Draw)
  | kill (agentId : AgentId)
  | rename (agentId : AgentId) (newName : Str)
  | save (agentId : AgentId)
  | restart

def step (s : KernelState) : SpawnOp → KernelState × List Granted
  | .spawn manifest draw =>
    let p := spawnAgentWithParent s manifest none draw
    (p.1.1, p.2)
  | .toolAgentSpawn caller manifestToml draw =>
    let p := spawnAgent T s manifestToml caller draw
    (p.1.1, p.2)
  | .executeWasmAgent agentId =>
    match s.agents.lookup agentId with
    | none => (s, [])
    | some agent =>
      ({ s with guests := ⟨agentId, manifestToCapabilities agent.manifest⟩ :: s.guests }, [])
  | .hostAgentSpawn guest manifestToml draw => hostAgentSpawn T s guest manifestToml draw
  | .guestDone guest => ({ s with guests := s.guests.erase guest }, [])
  | .activateHand handId instanceId name tools draw =>
    let p := spawnAgentWithParent s (handManifest handId instanceId name tools) none draw
    (p.1.1, p.2)
  | .kill agentId => (killAgent s agentId, [])
  | .rename agentId newName => (renameAgent s agentId newName, [])
  | .save agentId => (saveAgent s agentId, [])
  | .restart => (boot T s.saved, [])

end Code

section Bound

variable {T : Texts}

/-- Every capability of a child is matched by one its parent holds. -/
def Covered (held caps : List Capability) : Prop :=
  ∀ c ∈ caps, ∃ p ∈ held, capabilityMatches p c = true

/-- A registered agent holds what its manifest asks for, and so does a guest of it. -/
structure Inv (s : KernelState) : Prop where
  granted : ∀ id agent, s.agents.lookup id = some agent →
    s.capabilities.lookup id = some (manifestToCapabilities agent.manifest)
  guests : ∀ g ∈ s.guests, ∀ agent, s.agents.lookup g.agentId = some agent →
    g.capabilities = manifestToCapabilities agent.manifest

/-- The id drawn for a new agent is not in use. -/
def Fresh (s : KernelState) (draw : Draw) : Prop :=
  s.agents.lookup draw.agentId = none ∧ ∀ g ∈ s.guests, g.agentId ≠ draw.agentId

/-- What a spawn through the tool has to respect for itself, as nothing checks it: the text
asks for no more than the manifest of a registered caller does. -/
def WithinCaller (T : Texts) (s : KernelState) (caller : AgentId)
    (manifestToml : Str) : Prop :=
  ∀ manifest, T.parse manifestToml = .ok manifest → ∃ agent, s.agents.lookup caller = some agent ∧
    Covered (manifestToCapabilities agent.manifest) (manifestToCapabilities manifest)

/-- Ids are fresh, spawns through the tool stay within their caller, and no guest outlives its
agent. -/
def Bounded (T : Texts) (s : KernelState) : SpawnOp → Prop
  | .spawn _ draw => Fresh s draw
  | .toolAgentSpawn caller manifestToml draw =>
    Fresh s draw ∧ (draw.sessionError = none → draw.workspaceError = none →
      WithinCaller T s caller manifestToml)
  | .executeWasmAgent _ => True
  | .hostAgentSpawn guest _ draw => Fresh s draw ∧ (s.agents.lookup guest.agentId).isSome
  | .guestDone _ => True
  | .activateHand _ _ _ _ draw => Fresh s draw
  | .kill _ => True
  | .rename _ _ => True
  | .save _ => True
  | .restart => True

theorem inv_empty : Inv KernelState.empty := by
  constructor
  · intro id agent h
    cases h
  · intro g hg
    cases hg

theorem manifestToCapabilities_rename (manifest : Manifest) (name : Str) :
    manifestToCapabilities { manifest with name := name } = manifestToCapabilities manifest := rfl

theorem Inv.held_eq {s : KernelState} (h : Inv s) {id : AgentId} {agent : Agent}
    (hid : s.agents.lookup id = some agent) :
    held s id = manifestToCapabilities agent.manifest := by
  rw [held, h.granted id agent hid, Option.getD_some]

/-- Agents may change in place as long as their manifests ask for the same. -/
theorem Inv.of_agents {s : KernelState} (h : Inv s) {agents : Map AgentId Agent}
    (hagents : ∀ id agent, agents.lookup id = some agent → ∃ old, s.agents.lookup id = some old ∧
      manifestToCapabilities agent.manifest = manifestToCapabilities old.manifest)
    (saved : Map AgentId Manifest) : Inv { s with agents := agents, saved := saved } := by
  constructor
  · intro id agent hid
    obtain ⟨old, hold, heq⟩ := hagents id agent hid
    rw [heq]
    exact h.granted id old hold
  · intro g hg agent hid
    obtain ⟨old, hold, heq⟩ := hagents g.agentId agent hid
    rw [heq]
    exact h.guests g hg old hold

theorem Inv.adjust {s : KernelState} (h : Inv s) (id : AgentId) {f : Agent → Agent}
    (hf : ∀ a, manifestToCapabilities (f a).manifest = manifestToCapabilities a.manifest)
    (saved : Map AgentId Manifest) :
    Inv { s with agents := Lib.Store.adjust id f s.agents, saved := saved } := by
  refine h.of_agents (fun j agent hj => ?_) saved
  rw [lookup_adjust] at hj
  by_cases hid : j = id
  · rw [if_pos hid] at hj
    obtain ⟨old, hold, rfl⟩ := Option.map_eq_some_iff.mp hj
    exact ⟨old, hold, hf old⟩
  · rw [if_neg hid] at hj
    exact ⟨agent, hj, rfl⟩

theorem Inv.addChild {s : KernelState} (h : Inv s) (parent : Option AgentId) (child : AgentId)
    (saved : Map AgentId Manifest) :
    Inv { s with agents := Spawning.addChild parent child s.agents, saved := saved } := by
  cases parent with
  | none => exact h.of_agents (fun id agent hid => ⟨agent, hid, rfl⟩) saved
  | some p =>
    exact h.adjust p (f := fun a => { a with children := a.children ++ [child] }) (fun _ => rfl) _

/-- Capabilities granted to an id that nobody uses change nothing for anybody. -/
theorem Inv.grant {s : KernelState} (h : Inv s) {draw : Draw} (hfresh : Fresh s draw)
    (caps : List Capability) :
    Inv { s with capabilities := s.capabilities.insert draw.agentId caps } := by
  constructor
  · intro id agent hid
    have hne : id ≠ draw.agentId := by
      rintro rfl
      exact absurd (hfresh.1.symm.trans hid) (by simp)
    show (s.capabilities.insert draw.agentId caps).lookup id = _
    rw [lookup_insert, if_neg hne]
    exact h.granted id agent hid
  · exact h.guests

theorem Inv.register {s : KernelState} (h : Inv s) {draw : Draw} (hfresh : Fresh s draw)
    (agent : Agent) :
    Inv { s with
      capabilities := s.capabilities.insert draw.agentId (manifestToCapabilities agent.manifest)
      agents := s.agents.insert draw.agentId agent } := by
  constructor
  · intro id other hid
    change (s.agents.insert draw.agentId agent).lookup id = some other at hid
    show (s.capabilities.insert draw.agentId _).lookup id = _
    rw [lookup_insert] at hid ⊢
    by_cases hne : id = draw.agentId
    · rw [if_pos hne] at hid ⊢
      cases hid
      rfl
    · rw [if_neg hne] at hid ⊢
      exact h.granted id other hid
  · intro g hg other hid
    change (s.agents.insert draw.agentId agent).lookup g.agentId = some other at hid
    rw [lookup_insert, if_neg (hfresh.2 g hg)] at hid
    exact h.guests g hg other hid

theorem inv_spawnAgentWithParent {s : KernelState} (h : Inv s) {draw : Draw}
    (hfresh : Fresh s draw) (manifest : Manifest) (parent : Option AgentId) :
    Inv (spawnAgentWithParent s manifest parent draw).1.1 := by
  unfold spawnAgentWithParent
  split
  · exact h
  · split
    · exact h
    · dsimp only
      split
      · exact h.grant hfresh _
      · have hreg := h.register hfresh ⟨manifest, manifest.tags, parent, []⟩
        split
        · exact hreg.addChild parent draw.agentId _
        · exact hreg.addChild parent draw.agentId _

/-- What a spawn grants, and for whom. -/
theorem mem_spawnAgentWithParent {s : KernelState} {manifest : Manifest} {parent : Option AgentId}
    {draw : Draw} {g : Granted} (hg : g ∈ (spawnAgentWithParent s manifest parent draw).2) :
    draw.sessionError = none ∧ draw.workspaceError = none ∧
      ∃ p, parent = some p ∧ g = ⟨p, held s p, draw.agentId, manifestToCapabilities manifest⟩ := by
  have hmem : ∀ {events : List Granted},
      events = parent.toList.map (fun p =>
        (⟨p, held s p, draw.agentId, manifestToCapabilities manifest⟩ : Granted)) → g ∈ events →
      ∃ p, parent = some p ∧ g = ⟨p, held s p, draw.agentId, manifestToCapabilities manifest⟩ := by
    rintro _ rfl hg
    obtain ⟨p, hp, rfl⟩ := List.mem_map.mp hg
    exact ⟨p, Option.mem_toList.mp hp, rfl⟩
  unfold spawnAgentWithParent at hg
  split at hg
  · cases hg
  · next hsession =>
    split at hg
    · cases hg
    · next hworkspace =>
      refine ⟨hsession, hworkspace, ?_⟩
      dsimp only at hg
      split at hg
      · exact hmem rfl hg
      · split at hg <;> exact hmem rfl hg

theorem inv_spawnAgent {s : KernelState} (h : Inv s) {draw : Draw} (hfresh : Fresh s draw)
    (manifestToml : Str) (parentId : AgentId) :
    Inv (spawnAgent T s manifestToml parentId draw).1.1 := by
  unfold spawnAgent
  split
  · exact h
  · exact inv_spawnAgentWithParent h hfresh _ _

theorem mem_spawnAgent {s : KernelState} {manifestToml : Str} {parentId : AgentId} {draw : Draw}
    {g : Granted} (hg : g ∈ (spawnAgent T s manifestToml parentId draw).2) :
    draw.sessionError = none ∧ draw.workspaceError = none ∧
      ∃ manifest, T.parse manifestToml = .ok manifest ∧
        g = ⟨parentId, held s parentId, draw.agentId, manifestToCapabilities manifest⟩ := by
  unfold spawnAgent at hg
  split at hg
  · cases hg
  · next manifest hparse =>
    obtain ⟨hsession, hworkspace, p, hp, rfl⟩ := mem_spawnAgentWithParent hg
    cases hp
    exact ⟨hsession, hworkspace, manifest, hparse, rfl⟩

/-- The checked entry spawns as the plain one does, or not at all. -/
theorem spawnAgentChecked_cases (s : KernelState) (manifestToml : Str) (parentId : AgentId)
    (parentCaps : List Capability) (draw : Draw) :
    (∃ e, spawnAgentChecked T s manifestToml parentId parentCaps draw =
      ((s, .error e), [])) ∨
    (∃ manifest, T.parse manifestToml = .ok manifest ∧
      Covered parentCaps (manifestToCapabilities manifest) ∧
      spawnAgentChecked T s manifestToml parentId parentCaps draw =
        spawnAgent T s manifestToml parentId draw) := by
  unfold spawnAgentChecked
  split
  · exact .inl ⟨_, rfl⟩
  · next manifest hparse =>
    split
    · exact .inl ⟨_, rfl⟩
    · next hcheck =>
      have hcovered := (validateCapabilityInheritance_ok_iff T.debug parentCaps _).mp hcheck
      exact .inr ⟨manifest, hparse, hcovered, rfl⟩

theorem step_toolAgentSpawn {s : KernelState} (h : Inv s) {caller : AgentId} {manifestToml : Str}
    {draw : Draw} (hok : Bounded T s (.toolAgentSpawn caller manifestToml draw)) :
    Inv (step T s (.toolAgentSpawn caller manifestToml draw)).1 ∧
      ∀ g ∈ (step T s (.toolAgentSpawn caller manifestToml draw)).2,
        Covered g.held g.caps := by
  obtain ⟨hfresh, hwithin⟩ := hok
  refine ⟨inv_spawnAgent h hfresh _ _, fun g hg => ?_⟩
  obtain ⟨hsession, hworkspace, manifest, hparse, rfl⟩ := mem_spawnAgent hg
  obtain ⟨agent, hagent, hcovered⟩ := hwithin hsession hworkspace manifest hparse
  show Covered (held s caller) (manifestToCapabilities manifest)
  rw [h.held_eq hagent]
  exact hcovered

theorem step_hostAgentSpawn {s : KernelState} (h : Inv s) {guest : Guest} {manifestToml : Str}
    {draw : Draw} (hok : Bounded T s (.hostAgentSpawn guest manifestToml draw)) :
    Inv (step T s (.hostAgentSpawn guest manifestToml draw)).1 ∧
      ∀ g ∈ (step T s (.hostAgentSpawn guest manifestToml draw)).2,
        Covered g.held g.caps := by
  obtain ⟨hfresh, halive⟩ := hok
  show Inv (hostAgentSpawn T s guest manifestToml draw).1 ∧
    ∀ g ∈ (hostAgentSpawn T s guest manifestToml draw).2, Covered g.held g.caps
  unfold hostAgentSpawn
  split
  · next hguest =>
    dsimp only
    obtain ⟨e, he⟩ | ⟨manifest, hparse, hcovered, he⟩ :=
      spawnAgentChecked_cases (T := T) s manifestToml guest.agentId guest.capabilities draw
    · rw [he]
      exact ⟨h, nofun⟩
    · rw [he]
      refine ⟨inv_spawnAgent h hfresh _ _, fun g hg => ?_⟩
      obtain ⟨-, -, other, hother, rfl⟩ := mem_spawnAgent hg
      obtain rfl : manifest = other := Except.ok.inj (hparse.symm.trans hother)
      obtain ⟨agent, hagent⟩ := Option.isSome_iff_exists.mp halive
      show Covered (held s guest.agentId) (manifestToCapabilities manifest)
      rw [h.held_eq hagent, ← h.guests guest hguest.1 agent hagent]
      exact hcovered
  · exact ⟨h, nofun⟩

theorem inv_killAgent {s : KernelState} (h : Inv s) (agentId : AgentId) :
    Inv (killAgent s agentId) := by
  unfold killAgent
  split
  · constructor
    · intro id agent hid
      change (s.agents.erase agentId).lookup id = some agent at hid
      show (s.capabilities.erase agentId).lookup id = _
      rw [lookup_erase] at hid ⊢
      by_cases he : id = agentId
      · rw [if_pos he] at hid
        cases hid
      · rw [if_neg he] at hid ⊢
        exact h.granted id agent hid
    · intro g hg agent hid
      change (s.agents.erase agentId).lookup g.agentId = some agent at hid
      rw [lookup_erase] at hid
      by_cases he : g.agentId = agentId
      · rw [if_pos he] at hid
        cases hid
      · rw [if_neg he] at hid
        exact h.guests g hg agent hid
  · exact h

theorem inv_renameAgent {s : KernelState} (h : Inv s) (agentId : AgentId) (newName : Str) :
    Inv (renameAgent s agentId newName) := by
  unfold renameAgent
  split
  · exact h
  · exact h.adjust agentId (f := fun a => { a with manifest.name := newName })
      (fun a => manifestToCapabilities_rename a.manifest newName) _

/-- While agents are restored, what is registered and granted comes from the store. -/
structure Restoring (saved : Map AgentId Manifest) (s : KernelState) : Prop where
  agents : ∀ id agent, s.agents.lookup id = some agent →
    saved.lookup id = some agent.manifest ∧ agent.tags = [] ∧ (s.capabilities.lookup id).isSome
  granted : ∀ id caps, s.capabilities.lookup id = some caps →
    ∃ manifest, saved.lookup id = some manifest ∧ caps = manifestToCapabilities manifest
  guests : s.guests = []

theorem Restoring.inv {saved : Map AgentId Manifest} {s : KernelState} (h : Restoring saved s) :
    Inv s := by
  constructor
  · intro id agent hid
    obtain ⟨hsaved, -, hsome⟩ := h.agents id agent hid
    obtain ⟨caps, hcaps⟩ := Option.isSome_iff_exists.mp hsome
    obtain ⟨manifest, hmanifest, rfl⟩ := h.granted id caps hcaps
    obtain rfl : agent.manifest = manifest := Option.some.inj (hsaved.symm.trans hmanifest)
    exact hcaps
  · intro g hg
    rw [h.guests] at hg
    cases hg

theorem restoring_restoreAgent {saved : Map AgentId Manifest} {s : KernelState}
    (h : Restoring saved s) {agentId : AgentId} {manifest : Manifest}
    (hsaved : saved.lookup agentId = some manifest) :
    Restoring saved (restoreAgent s agentId manifest) := by
  have hgranted : Restoring saved { s with
      capabilities := s.capabilities.insert agentId (manifestToCapabilities manifest) } := by
    refine ⟨fun id agent hid => ?_, fun id caps hid => ?_, h.guests⟩
    · obtain ⟨hsaved, htags, hsome⟩ := h.agents id agent hid
      refine ⟨hsaved, htags, ?_⟩
      show ((s.capabilities.insert agentId _).lookup id).isSome
      rw [lookup_insert]
      by_cases he : id = agentId
      · rw [if_pos he]
        rfl
      · rw [if_neg he]
        exact hsome
    · change (s.capabilities.insert agentId _).lookup id = some caps at hid
      rw [lookup_insert] at hid
      by_cases he : id = agentId
      · rw [if_pos he] at hid
        exact ⟨manifest, he ▸ hsaved, (Option.some.inj hid).symm⟩
      · rw [if_neg he] at hid
        exact h.granted id caps hid
  unfold restoreAgent
  dsimp only
  split
  · exact hgranted
  · refine ⟨fun id agent hid => ?_, hgranted.granted, h.guests⟩
    change (s.agents.insert agentId _).lookup id = some agent at hid
    rw [lookup_insert] at hid
    by_cases he : id = agentId
    · subst he
      rw [if_pos rfl] at hid
      cases hid
      refine ⟨hsaved, rfl, ?_⟩
      show ((s.capabilities.insert id _).lookup id).isSome
      rw [AList.lookup_insert]
      rfl
    · rw [if_neg he] at hid
      exact hgranted.agents id agent hid

theorem mem_loadAllAgents {seenNames : List Str} {rows : List (Sigma fun _ : AgentId => Manifest)}
    {row : Sigma fun _ : AgentId => Manifest} (h : row ∈ loadAllAgents T seenNames rows) :
    row ∈ rows := by
  induction rows generalizing seenNames with
  | nil => exact h
  | cons first rows ih =>
    unfold loadAllAgents at h
    dsimp only at h
    split at h
    · exact List.mem_cons_of_mem _ (ih h)
    · obtain rfl | hrest := List.mem_cons.mp h
      · exact List.mem_cons_self
      · exact List.mem_cons_of_mem _ (ih hrest)

theorem restoring_boot (saved : Map AgentId Manifest) : Restoring saved (boot T saved) := by
  have hfold : ∀ (rows : List (Sigma fun _ : AgentId => Manifest)) (s : KernelState),
      (∀ row ∈ rows, saved.lookup row.1 = some row.2) → Restoring saved s →
      Restoring saved (rows.foldl (fun s row => restoreAgent s row.1 row.2) s) := by
    intro rows
    induction rows with
    | nil =>
      intro s _ h
      exact h
    | cons row rows ih =>
      intro s hrows h
      refine ih _ (fun x hx => hrows x (List.mem_cons_of_mem _ hx)) ?_
      exact restoring_restoreAgent h (hrows row List.mem_cons_self)
  refine hfold _ ⟨∅, ∅, saved, []⟩ (fun row hrow => ?_) ⟨nofun, nofun, rfl⟩
  exact mem_entries.mp (mem_loadAllAgents hrow)

theorem inv_saveAgent {s : KernelState} (h : Inv s) (agentId : AgentId) :
    Inv (saveAgent s agentId) := by
  unfold saveAgent
  split
  · exact h
  · exact h.of_agents (fun id agent hid => ⟨agent, hid, rfl⟩) _

/-- One allowed step keeps the invariant and grants nothing uncovered. -/
theorem step_covered {s : KernelState} (h : Inv s) {op : SpawnOp} (hok : Bounded T s op) :
    Inv (step T s op).1 ∧ ∀ g ∈ (step T s op).2, Covered g.held g.caps := by
  have hnoParent : ∀ {manifest draw}, ∀ g ∈ (spawnAgentWithParent s manifest none draw).2,
      Covered g.held g.caps := by
    intro manifest draw g hg
    obtain ⟨-, -, p, hp, -⟩ := mem_spawnAgentWithParent hg
    cases hp
  cases op with
  | spawn manifest draw => exact ⟨inv_spawnAgentWithParent h hok _ _, hnoParent⟩
  | toolAgentSpawn caller manifestToml draw => exact step_toolAgentSpawn h hok
  | executeWasmAgent agentId =>
    unfold step
    dsimp only
    split
    · exact ⟨h, nofun⟩
    · next agent hagent =>
      refine ⟨⟨h.granted, fun g hg other hother => ?_⟩, nofun⟩
      rcases List.mem_cons.mp hg with rfl | hg
      · obtain rfl : agent = other := Option.some.inj (hagent.symm.trans hother)
        rfl
      · exact h.guests g hg other hother
  | hostAgentSpawn guest manifestToml draw => exact step_hostAgentSpawn h hok
  | guestDone guest =>
    exact ⟨⟨h.granted, fun g hg => h.guests g (List.mem_of_mem_erase hg)⟩, nofun⟩
  | activateHand handId instanceId name tools draw =>
    exact ⟨inv_spawnAgentWithParent h hok _ _, hnoParent⟩
  | kill agentId => exact ⟨inv_killAgent h agentId, nofun⟩
  | rename agentId newName => exact ⟨inv_renameAgent h agentId newName, nofun⟩
  | save agentId => exact ⟨inv_saveAgent h agentId, nofun⟩
  | restart => exact ⟨(restoring_boot s.saved).inv, nofun⟩

/-- Children are granted no more than their parents hold, in every run whose spawns through
the tool stay within their callers. -/
theorem spawns_covered {ops : List SpawnOp}
    (h : Allowed (step T) (Bounded T) KernelState.empty ops) :
    ∀ g ∈ (run (step T) KernelState.empty ops).2, Covered g.held g.caps := by
  refine (run_invariant_of_allowed (step T)
    (fun s os => Inv s ∧ ∀ g ∈ os, Covered g.held g.caps) ?_ ⟨inv_empty, nofun⟩ h).2
  rintro s os op ⟨hs, hos⟩ hok
  obtain ⟨hinv, hnew⟩ := step_covered hs hok
  refine ⟨hinv, fun g hg => ?_⟩
  rcases List.mem_append.mp hg with hg | hg
  · exact hos g hg
  · exact hnew g hg

end Bound

section Escalation

private def supervisor : Manifest :=
  ⟨"supervisor".toList, none,
    { ManifestCapabilities.default with
      tools := ["agent_spawn".toList, "file_read".toList], agentSpawn := true }, []⟩

private def readOnly : Manifest :=
  ⟨"reader".toList, none, { ManifestCapabilities.default with tools := ["file_read".toList] }, []⟩

private def readOnlyToml : Str :=
  "name = \"reader\"\n[capabilities]\ntools = [\"file_read\"]".toList

private def unlimited : Manifest :=
  ⟨"worker".toList, some .full, ManifestCapabilities.default, []⟩

private def unlimitedToml : Str := "name = \"worker\"\nprofile = \"full\"".toList

private def draw (agentId : AgentId) : Draw := ⟨agentId, none, none, none⟩

theorem spawns_covered_reader :
    let T : Texts := ⟨fun _ => .ok readOnly, fun _ => [], id⟩
    let ops : List SpawnOp :=
      [.spawn supervisor (draw 1), .toolAgentSpawn 1 readOnlyToml (draw 2)]
    (run (step T) KernelState.empty ops).2.length = 1 ∧
      ∀ g ∈ (run (step T) KernelState.empty ops).2, Covered g.held g.caps := by
  refine ⟨by decide, spawns_covered ⟨⟨rfl, nofun⟩, ⟨⟨rfl, nofun⟩, fun _ _ manifest hm => ?_⟩,
    trivial⟩⟩
  cases hm
  refine ⟨⟨supervisor, [], none, []⟩, rfl, fun c hc => ?_⟩
  obtain rfl : c = .toolInvoke "file_read".toList := List.mem_singleton.mp hc
  exact ⟨.toolInvoke "file_read".toList, by decide, by decide⟩

/-- Through the tool, an agent that may only spawn and read files gets itself a child that may
do anything. -/
theorem tool_spawn_escalates :
    let T : Texts := ⟨fun _ => .ok unlimited, fun _ => [], id⟩
    let ops : List SpawnOp :=
      [.spawn supervisor (draw 1), .toolAgentSpawn 1 unlimitedToml (draw 2)]
    ¬ ∀ g ∈ (run (step T) KernelState.empty ops).2, Covered g.held g.caps := by
  intro T ops h
  have hg := h ⟨1, manifestToCapabilities supervisor, 2, manifestToCapabilities unlimited⟩
    (by decide)
  obtain ⟨p, hp, hmatch⟩ := hg (.shellExec ['*']) (by decide)
  revert p
  decide

end Escalation

end Clawreform.Kernel.Spawning
