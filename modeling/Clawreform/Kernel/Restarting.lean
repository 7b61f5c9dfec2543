import Clawreform.Kernel.Killing
import Clawreform.Runtime.Mcp

namespace Clawreform.Kernel.Restarting

open Clawreform.Lib Clawreform.Lib.Text Clawreform.Lib.Run Clawreform.Lib.Store
open Clawreform.Types Clawreform.Hands Clawreform.Kernel.Lifecycle
open Clawreform.Runtime.Mcp (normalizeName)

section Restoring

/-- The rows of the table of agents, in the order in which they are read. -/
abbrev AgentTable := List ((_ : AgentId) × AgentRow)

/-- Of the rows whose names differ only in their case the first one counts. -/
@[grind =] def loadAllAgents (toLowercase : Str → Str) (seen : List Str) : AgentTable → AgentTable
  | [] => []
  | row :: rows =>
    let name := toLowercase row.2.name
    if name ∈ seen then loadAllAgents toLowercase seen rows
    else row :: loadAllAgents toLowercase (name :: seen) rows

/-- Parent, children, tags and identity are in no column. -/
def restoredEntry (now : DateTime) (id : AgentId) (row : AgentRow) : AgentEntry where
  id := id
  name := row.name
  manifest := row.manifest.toAgentManifest
  state := .running
  mode := .full
  lastActive := now
  children := []
  sessionId := row.sessionId
  tags := []
  identity := ⟨none, none, none, none, none, none⟩
  onboardingCompleted := false
  onboardingCompletedAt := none

variable (K : KernelConfig)

def restoredOrigin (row : AgentRow) : Origin :=
  { (inheritPolicy K row.manifest).toDeclared with parent := none, createdAt := row.createdAt }

/-- An agent that the registry refuses is left out. -/
def restoreAgent (now : DateTime) (p : AgentRegistry × Map AgentId Origin)
    (row : (_ : AgentId) × AgentRow) : AgentRegistry × Map AgentId Origin :=
  match p.1.register (restoredEntry now row.1 row.2) with
  | (_, .error _) => p
  | (registry, .ok _) => (registry, p.2.insert row.1 (restoredOrigin K row.2))

/-- The part of `boot_with_config` that brings the agents back. -/
def restore (now : DateTime) (table : AgentTable) : AgentRegistry × Map AgentId Origin :=
  (loadAllAgents K.rendering.toLowercase [] table).foldl (restoreAgent K now) (.new, ∅)

end Restoring

section Operations

variable (K : KernelConfig) (s : KernelState)

/-- `saved` tells whether the table took the row; nobody asks for it. -/
def saveAgent (id : AgentId) (saved : Bool) : KernelState :=
  match s.registry.get id, s.origins.lookup id with
  | some entry, some origin =>
    if saved then { s with rows := s.rows.insert id (rowOf entry origin) } else s
  | _, _ => s

/-- A change of the registry, and the row of the agent after it. -/
def persist (change : AgentRegistry × Except ClawReformError Unit) (id : AgentId) (saved : Bool) :
    KernelState × Except ClawReformError Unit :=
  match change with
  | (_, .error e) => (s, .error e)
  | (registry, .ok ()) => (saveAgent { s with registry := registry } id saved, .ok ())

/-- `provider` is what the catalog says of the model. -/
def setAgentModel (id : AgentId) (model : Str) (provider : Option Str) (saved : Bool)
    (now : DateTime) : KernelState × Except ClawReformError Unit :=
  match provider with
  | some provider => persist s (s.registry.updateModelAndProvider id model provider now) id saved
  | none => persist s (s.registry.updateModel id model now) id saved

def setAgentSkills (id : AgentId) (skills known : List Str) (saved : Bool) (now : DateTime) :
    KernelState × Except ClawReformError Unit :=
  match skills.find? (· ∉ known) with
  | some name => (s, .error (.internal ("Unknown skill: ".toList ++ name)))
  | none => persist s (s.registry.updateSkills id skills now) id saved

def setAgentMcpServers (id : AgentId) (servers known : List Str) (saved : Bool)
    (now : DateTime) : KernelState × Except ClawReformError Unit :=
  match servers.find? (normalizeName K.rendering.toLowercase · ∉ known) with
  | some name => (s, .error (.internal ("Unknown MCP server: ".toList ++ name)))
  | none => persist s (s.registry.updateMcpServers id servers now) id saved

/-- An agent on the way down. -/
def suspend (now : DateTime) (saved : AgentId → Bool) (s : KernelState) (id : AgentId) :
    KernelState :=
  saveAgent { s with registry := (s.registry.setState id .suspended now).1 } id (saved id)

def shutdown (now : DateTime) (saved : AgentId → Bool) : KernelState :=
  s.registry.agents.keys.foldl (suspend now saved) s

/-- What the kernel does, with a restart among it. A restart reads the table in some order, and
brings up the rest of the kernel anew. -/
inductive Op where
  | kernel (op : KernelOp)
  | kill (id : AgentId) (removal : Removal)
  | deactivateHand (instanceId : Uuid) (removal : Removal)
  | setAgentModel (id : AgentId) (model : Str) (provider : Option Str) (saved : Bool)
      (now : DateTime)
  | setAgentSkills (id : AgentId) (skills known : List Str) (saved : Bool) (now : DateTime)
  | setAgentMcpServers (id : AgentId) (servers known : List Str) (saved : Bool) (now : DateTime)
  | shutdown (now : DateTime) (saved : AgentId → Bool)
  | restart (table : AgentTable) (now : DateTime) (rest : KernelState)

/-- Whether the operation comes back with `Ok`, or with `true`. -/
def succeedsAtOnce : KernelOp → Bool
  | .spawn manifest parent draw => (spawnAgentWithParent K s manifest parent draw).2.isOk
  | .activateHand handId config instanceId draw =>
    (activateHand K s handId config instanceId draw).2.isOk
  | .pauseHand instanceId now => (s.hands.pause instanceId now).2.isOk
  | .resumeHand instanceId now => (s.hands.resume instanceId now).2.isOk
  | .setHandError instanceId message now => (s.hands.setError instanceId message now).2.isOk
  | .registerTrigger agentId _ _ _ _ _ => (s.registry.get agentId).isSome
  | .removeTrigger id => (s.triggers.remove id).2
  | .setTriggerEnabled id enabled => (s.triggers.setEnabled id enabled).2
  | .evaluateTriggers _ => true
  | .startBackground _ _ _ => true
  | .setEntry op => (s.registry.apply op).2.isOk
  | .resetSession agentId _ fails _ => (s.registry.get agentId).isSome && !fails
  | .createAgentSession agentId _ _ _ => (s.registry.get agentId).isSome
  | .switchAgentSession agentId sessionId _ =>
    (s.registry.get agentId).isSome &&
      (s.sessions.getSession sessionId).any (·.agentId = agentId)
  | .deleteSession _ => true
  | .setSessionLabel _ _ => true

def succeeds : Op → Bool
  | .kernel op => succeedsAtOnce K s op
  | .kill id removal => (killAgent s id removal).2.isOk
  | .deactivateHand instanceId removal => (deactivateHand s instanceId removal).2.isOk
  | .setAgentModel id model provider saved now =>
    (setAgentModel s id model provider saved now).2.isOk
  | .setAgentSkills id skills known saved now =>
    (setAgentSkills s id skills known saved now).2.isOk
  | .setAgentMcpServers id servers known saved now =>
    (setAgentMcpServers K s id servers known saved now).2.isOk
  | .shutdown _ _ => true
  | .restart _ _ _ => true

def next : Op → KernelState
  | .kernel op => s.apply K op
  | .kill id removal => (killAgent s id removal).1
  | .deactivateHand instanceId removal => (deactivateHand s instanceId removal).1
  | .setAgentModel id model provider saved now => (setAgentModel s id model provider saved now).1
  | .setAgentSkills id skills known saved now => (setAgentSkills s id skills known saved now).1
  | .setAgentMcpServers id servers known saved now =>
    (setAgentMcpServers K s id servers known saved now).1
  | .shutdown now saved => shutdown s now saved
  | .restart table now rest =>
    if table.Perm s.rows.entries then
      { rest with
        registry := (restore K now table).1, origins := (restore K now table).2, rows := s.rows }
    else s

def step (s : KernelState) (op : Op) : KernelState × List Bool := (next K s op, [succeeds K s op])

end Operations

section Purpose

/-- What of an agent is meant to outlast a restart. -/
structure Persistent where
  name : Str
  manifest : AgentManifest
  declared : Option Declared
  sessionId : SessionId
  parent : Option AgentId
  children : List AgentId
  tags : List Str
  identity : AgentIdentity
  deriving DecidableEq

def fieldsOf (entry : AgentEntry) (origin : Option Origin) : Persistent where
  name := entry.name
  manifest := entry.manifest
  declared := origin.map (·.toDeclared)
  sessionId := entry.sessionId
  parent := origin.bind (·.parent)
  children := entry.children
  tags := entry.tags
  identity := entry.identity

def persistent (agents : AgentRegistry × Map AgentId Origin) (id : AgentId) : Option Persistent :=
  (agents.1.agents.lookup id).map fun entry => fieldsOf entry (agents.2.lookup id)

variable (K : KernelConfig) (s : KernelState)

/-- A restart brings back the agents as they are. -/
def Restores : Prop :=
  ∀ (table : AgentTable) (now : DateTime), table.Perm s.rows.entries →
    ∀ id, persistent (restore K now table) id = persistent (s.registry, s.origins) id

/-- A change of the registry alone leaves what outlasts a restart as it is. -/
def Keeps (r : AgentRegistry) (op : AgentRegistry.Op) : Prop :=
  ∀ id, ((r.apply op).1.agents.lookup id).map (fieldsOf · none) =
    (r.agents.lookup id).map (fieldsOf · none)

def InSession (id : AgentId) (sessionId : SessionId) : Prop :=
  ∀ entry, s.registry.get id = some entry → entry.sessionId = sessionId

/-- What an operation changes is in the table behind it. A new agent has no parent and no tags, and
its name differs from the others in more than the case. -/
def Persists : Op → Prop
  | .kernel (.spawn manifest parent draw) => parent = none ∧ manifest.tags = [] ∧
    ∀ id entry, s.registry.get id = some entry → id ≠ draw.agentId →
      K.rendering.toLowercase entry.name ≠ K.rendering.toLowercase manifest.name
  | .kernel (.activateHand _ _ _ _) => False
  | .kernel (.setEntry op) => isSetter op = true → Keeps s.registry op
  | .kernel (.resetSession id new _ _) => InSession s id new
  | .kernel (.createAgentSession id _ new _) => InSession s id new
  | .kernel (.switchAgentSession id new _) => InSession s id new
  | .kill _ removal => removal.keepsRow = false
  | .deactivateHand instanceId removal =>
    (killedWith s instanceId).isSome → removal.keepsRow = false
  | .setAgentModel id model (some provider) saved now =>
    saved ∨ Keeps s.registry (.updateModelAndProvider id model provider now)
  | .setAgentModel id model none saved now => saved ∨ Keeps s.registry (.updateModel id model now)
  | .setAgentSkills id skills _ saved now =>
    saved ∨ Keeps s.registry (.updateSkills id skills now)
  | .setAgentMcpServers id servers _ saved now =>
    saved ∨ Keeps s.registry (.updateMcpServers id servers now)
  | _ => True

end Purpose

section Tables

variable {K : KernelConfig} {toLowercase : Str → Str}

theorem loadAllAgents_sublist (seen : List Str) (table : AgentTable) :
    (loadAllAgents toLowercase seen table).Sublist table := by
  induction table generalizing seen with
  | nil => exact List.Sublist.slnil
  | cons row rows ih =>
    rw [loadAllAgents]
    split
    · exact (ih seen).cons row
    · exact (ih _).cons_cons row

/-- The agents that are loaded have different names. -/
theorem loadAllAgents_names (seen : List Str) (table : AgentTable) :
    ((loadAllAgents toLowercase seen table).map (toLowercase ·.2.name)).Nodup ∧
      ∀ row ∈ loadAllAgents toLowercase seen table, toLowercase row.2.name ∉ seen := by
  induction table generalizing seen with
  | nil => simp [loadAllAgents]
  | cons row rows ih =>
    rw [loadAllAgents]
    split
    · exact ih seen
    · rename_i hseen
      obtain ⟨hnodup, hnew⟩ := ih (toLowercase row.2.name :: seen)
      refine ⟨List.nodup_cons.mpr ⟨fun hmem => ?_, hnodup⟩, ?_⟩
      · obtain ⟨row', hrow', hname⟩ := List.mem_map.mp hmem
        exact hnew row' hrow' (hname ▸ List.mem_cons_self)
      · intro row' hrow'
        rcases List.mem_cons.mp hrow' with rfl | hrow'
        · exact hseen
        · exact fun hmem => hnew row' hrow' (List.mem_cons_of_mem _ hmem)

theorem loadAllAgents_eq {seen : List Str} {table : AgentTable}
    (hnames : (table.map (toLowercase ·.2.name)).Nodup)
    (hnew : ∀ row ∈ table, toLowercase row.2.name ∉ seen) :
    loadAllAgents toLowercase seen table = table := by
  induction table generalizing seen with
  | nil => rfl
  | cons row rows ih =>
    obtain ⟨hrow, hrows⟩ := List.nodup_cons.mp hnames
    rw [loadAllAgents, if_neg (hnew row List.mem_cons_self), ih hrows]
    intro row' hrow' hmem
    rcases List.mem_cons.mp hmem with hname | hmem
    · exact hrow (List.mem_map.mpr ⟨row', hrow', hname⟩)
    · exact hnew row' (List.mem_cons_of_mem _ hrow') hmem

/-- What of a row outlasts a restart. -/
def restoredFields (K : KernelConfig) (row : AgentRow) : Persistent :=
  fieldsOf (restoredEntry 0 0 row) (some (restoredOrigin K row))

theorem persistent_restoreAgent {now : DateTime} {p : AgentRegistry × Map AgentId Origin}
    {row : (_ : AgentId) × AgentRow} (h : row.2.name ∉ p.1.nameIndex) (id : AgentId) :
    persistent (restoreAgent K now p row) id =
      if id = row.1 then some (restoredFields K row.2) else persistent p id := by
  have hname : (restoredEntry now row.1 row.2).name ∉ p.1.nameIndex := h
  rw [restoreAgent, AgentRegistry.register, if_neg hname]
  simp only [persistent, lookup_insert]
  have hid : (restoredEntry now row.1 row.2).id = row.1 := rfl
  rw [hid]
  split <;> rfl

theorem mem_restoreAgent {now : DateTime} {p : AgentRegistry × Map AgentId Origin}
    {row : (_ : AgentId) × AgentRow} {name : Str} (h : name ≠ row.2.name)
    (hname : name ∉ p.1.nameIndex) : name ∉ (restoreAgent K now p row).1.nameIndex := by
  rw [restoreAgent, AgentRegistry.register]
  split
  · exact hname
  · rename_i registry _ hregister
    split at hregister
    · cases hregister
    · cases hregister
      simpa [restoredEntry, h] using hname

theorem persistent_restoreAll {now : DateTime} {p : AgentRegistry × Map AgentId Origin}
    {table : AgentTable} (hkeys : table.NodupKeys) (hnames : (table.map (·.2.name)).Nodup)
    (hnew : ∀ row ∈ table, row.2.name ∉ p.1.nameIndex) (id : AgentId) :
    persistent (table.foldl (restoreAgent K now) p) id =
      ((table.dlookup id).map (restoredFields K)).or (persistent p id) := by
  induction table generalizing p with
  | nil => rfl
  | cons row rows ih =>
    obtain ⟨hkey, hkeys⟩ := List.nodupKeys_cons.mp hkeys
    obtain ⟨hname, hnames⟩ := List.nodup_cons.mp hnames
    have hrest : ∀ row' ∈ rows, row'.2.name ∉ (restoreAgent K now p row).1.nameIndex := by
      intro row' hrow'
      refine mem_restoreAgent (fun heq => hname ?_) (hnew row' (List.mem_cons_of_mem _ hrow'))
      exact List.mem_map.mpr ⟨row', hrow', heq⟩
    rw [List.foldl_cons, ih hkeys hnames hrest,
      persistent_restoreAgent (hnew row List.mem_cons_self)]
    by_cases hid : id = row.1
    · subst hid
      rw [if_pos rfl, List.dlookup_eq_none.mpr hkey, List.dlookup_cons_eq]
      rfl
    · rw [if_neg hid, List.dlookup_cons_ne _ _ hid]

theorem nodup_names {table : AgentTable} (h : (table.map (toLowercase ·.2.name)).Nodup) :
    (table.map (·.2.name)).Nodup := by
  have hmap : table.map (toLowercase ·.2.name) = (table.map (·.2.name)).map toLowercase := by
    rw [List.map_map]
    rfl
  exact List.Nodup.of_map _ (hmap ▸ h)

/-- The agents that come back are those that are loaded. -/
theorem persistent_restore (now : DateTime) {table : AgentTable} (hkeys : table.NodupKeys)
    (id : AgentId) : persistent (restore K now table) id =
      ((loadAllAgents K.rendering.toLowercase [] table).dlookup id).map (restoredFields K) := by
  have hnames := (@loadAllAgents_names K.rendering.toLowercase [] table).1
  rw [restore, persistent_restoreAll (hkeys.sublist (loadAllAgents_sublist [] table))
    (nodup_names hnames) (by simp [AgentRegistry.new])]
  simp [persistent, AgentRegistry.new]

end Tables

end Clawreform.Kernel.Restarting
