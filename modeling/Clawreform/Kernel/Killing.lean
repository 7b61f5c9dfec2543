import Clawreform.Kernel.Activation
import Clawreform.Kernel.Cron

namespace Clawreform.Kernel.Lifecycle

open Clawreform.Lib Clawreform.Lib.Text Clawreform.Lib.Run Clawreform.Lib.Store Clawreform.Lib.Index
open Clawreform.Types Clawreform.Hands Clawreform.Memory
open Clawreform.Kernel.TriggerEngine (owners)

section Operations

/-- The operations of the kernel that change what it keeps of agents and are done at once, other
than killing. A refused one changes nothing. -/
inductive KernelOp where
  | spawn (manifest : SpawnManifest) (parent : Option AgentId) (draw : Draw)
  | activateHand (handId : Str) (config : HandConfig) (instanceId : Uuid) (draw : Draw)
  | pauseHand (instanceId : Uuid) (now : DateTime)
  | resumeHand (instanceId : Uuid) (now : DateTime)
  | setHandError (instanceId : Uuid) (message : Str) (now : DateTime)
  | registerTrigger (agentId : AgentId) (pattern : TriggerPattern) (promptTemplate : Str)
      (maxFires : UInt64) (id : TriggerId) (now : DateTime)
  | removeTrigger (id : TriggerId)
  | setTriggerEnabled (id : TriggerId) (enabled : Bool)
  | evaluateTriggers (event : Event)
  | startBackground (agentId : AgentId) (triggerIds : Nat → TriggerId) (now : DateTime)
  | setEntry (op : AgentRegistry.Op)
  | resetSession (agentId : AgentId) (new : SessionId) (fails : Bool) (now : DateTime)
  | createAgentSession (agentId : AgentId) (label : Option Str) (new : SessionId) (now : DateTime)
  | switchAgentSession (agentId : AgentId) (sessionId : SessionId) (now : DateTime)
  | deleteSession (sessionId : SessionId)
  | setSessionLabel (sessionId : SessionId) (label : Option Str)

/-- The operation changes one entry in place, and not its children. -/
def isSetter : AgentRegistry.Op → Bool
  | .register _ | .remove _ | .addChild _ _ => false
  | .setState _ _ _ | .setMode _ _ _ | .updateSessionId _ _ _ | .updateWorkspace _ _ _
  | .updateIdentity _ _ _ | .updateModel _ _ _ | .updateModelAndProvider _ _ _ _
  | .updateSkills _ _ _ | .updateMcpServers _ _ _ | .updateSystemPrompt _ _ _ | .updateName _ _ _
  | .updateDescription _ _ _ | .markOnboardingComplete _ _ _ => true

variable (K : KernelConfig) (s : KernelState)

/-- The loop of an agent that runs on its own, and the triggers of one that waits for events. -/
def startBackgroundForAgent (agentId : AgentId) (name : Str) (schedule : ScheduleMode)
    (triggerIds : Nat → TriggerId) (now : DateTime) : KernelState :=
  { s with
    triggers := registerConditions K agentId name triggerIds now schedule s.triggers
    background :=
      match schedule with
      | .continuous _ | .periodic _ => s.background.start agentId
      | .reactive | .proactive _ => s.background }

def resetSession (agentId : AgentId) (new : SessionId) (fails : Bool) (now : DateTime) :
    KernelState :=
  match s.registry.get agentId with
  | none => s
  | some entry =>
    let sessions := s.sessions.deleteSession entry.sessionId
    if fails then { s with sessions := sessions }
    else
      { s with
        sessions := sessions.createSession agentId new
        registry := (s.registry.updateSessionId agentId new now).1 }

def createAgentSession (agentId : AgentId) (label : Option Str) (new : SessionId)
    (now : DateTime) : KernelState :=
  match s.registry.get agentId with
  | none => s
  | some _ =>
    { s with
      sessions := s.sessions.createSessionWithLabel agentId label new
      registry := (s.registry.updateSessionId agentId new now).1 }

def switchAgentSession (agentId : AgentId) (sessionId : SessionId) (now : DateTime) :
    KernelState :=
  match s.registry.get agentId, s.sessions.getSession sessionId with
  | some _, some session =>
    if session.agentId = agentId then
      { s with registry := (s.registry.updateSessionId agentId sessionId now).1 }
    else s
  | _, _ => s

def KernelState.apply : KernelOp → KernelState
  | .spawn manifest parent draw => (spawnAgentWithParent K s manifest parent draw).1
  | .activateHand handId config instanceId draw =>
    (activateHand K s handId config instanceId draw).1
  | .pauseHand instanceId now => { s with hands := (s.hands.pause instanceId now).1 }
  | .resumeHand instanceId now => { s with hands := (s.hands.resume instanceId now).1 }
  | .setHandError instanceId message now =>
    { s with hands := (s.hands.setError instanceId message now).1 }
  | .registerTrigger agentId pattern promptTemplate maxFires id now =>
    match s.registry.get agentId with
    | none => s
    | some _ =>
      { s with
        triggers := s.triggers.register agentId pattern promptTemplate maxFires id now }
  | .removeTrigger id => { s with triggers := (s.triggers.remove id).1 }
  | .setTriggerEnabled id enabled => { s with triggers := (s.triggers.setEnabled id enabled).1 }
  | .evaluateTriggers event =>
    match s.triggers.evaluate K.rendering event with
    | some p => { s with triggers := p.1 }
    | none => s
  | .startBackground agentId triggerIds now =>
    match s.registry.get agentId, s.origins.lookup agentId with
    | some entry, some origin =>
      startBackgroundForAgent K s agentId entry.name origin.schedule triggerIds now
    | _, _ => s
  | .setEntry op => if isSetter op then { s with registry := (s.registry.apply op).1 } else s
  | .resetSession agentId new fails now => resetSession s agentId new fails now
  | .createAgentSession agentId label new now => createAgentSession s agentId label new now
  | .switchAgentSession agentId sessionId now => switchAgentSession s agentId sessionId now
  | .deleteSession sessionId => { s with sessions := s.sessions.deleteSession sessionId }
  | .setSessionLabel sessionId label =>
    { s with sessions := s.sessions.setSessionLabel sessionId label }

/-- The agent a spawn is for, whether it succeeds or not. -/
def KernelOp.spawned : KernelOp → Option AgentId
  | .spawn _ _ draw | .activateHand _ _ _ draw => some draw.agentId
  | _ => none

abbrev TurnId := Nat

/-- A turn, or a compaction, under way: it has loaded its session and may save it. -/
structure Turn where
  agentId : AgentId
  session : Session
  streaming : Bool
  deriving DecidableEq

/-- The kernel, its cron jobs and the turns under way, with the agents that were killed and not
spawned again. -/
structure RunState where
  kernel : KernelState
  cron : CronScheduler
  turns : Map TurnId Turn
  runningTasks : Map AgentId TurnId
  gone : List AgentId

inductive RunOp where
  | kernel (op : KernelOp)
  | kill (agentId : AgentId) (removal : Removal)
  | deactivateHand (instanceId : Uuid) (removal : Removal)
  | cron (op : CronScheduler.Op)
  | sendMessage (agentId : AgentId) (turnId : TurnId) (streaming : Bool)
  | saveSession (turnId : TurnId) (messages : List Message) (contextWindowTokens : UInt64)
  | saveCanonical (turnId : TurnId) (messages : List Message) (summary : Option Str)
  | finishTurn (turnId : TurnId)
  | stopAgentRun (agentId : AgentId)

end Operations

section Steps

variable (K : KernelConfig) (L : CronLibrary) (s : RunState)

def loadSession (k : KernelState) (entry : AgentEntry) (agentId : AgentId) : Session :=
  (k.sessions.getSession entry.sessionId).getD (.empty entry.sessionId agentId none)

/-- The agent that deactivating the instance kills. -/
def killedWith (k : KernelState) (instanceId : Uuid) : Option AgentId :=
  ((k.hands.getInstance instanceId).bind (·.agentId)).filter (· ∈ k.registry.agents)

/-- A turn of an agent that is there; the handle of a streaming one is kept. -/
def sendMessage (agentId : AgentId) (turnId : TurnId) (streaming : Bool) : RunState :=
  match s.kernel.registry.get agentId with
  | none => s
  | some entry =>
    if turnId ∈ s.turns then s
    else
      { s with
        turns := s.turns.insert turnId ⟨agentId, loadSession s.kernel entry agentId, streaming⟩
        runningTasks :=
          if streaming then s.runningTasks.insert agentId turnId else s.runningTasks }

def RunState.next : RunOp → RunState
  | .kernel op =>
    { s with kernel := s.kernel.apply K op, gone := s.gone.filter (some · ≠ op.spawned) }
  | .kill agentId removal =>
    match killAgent s.kernel agentId removal with
    | (kernel, .ok ()) => { s with kernel := kernel, gone := agentId :: s.gone }
    | (_, .error _) => s
  | .deactivateHand instanceId removal =>
    { s with
      kernel := (deactivateHand s.kernel instanceId removal).1
      gone := (killedWith s.kernel instanceId).toList ++ s.gone }
  | .cron op => { s with cron := (s.cron.step L op).1 }
  | .sendMessage agentId turnId streaming => sendMessage s agentId turnId streaming
  | .saveSession turnId messages contextWindowTokens =>
    match s.turns.lookup turnId with
    | none => s
    | some turn =>
      { s with
        kernel.sessions := s.kernel.sessions.saveSession
          { turn.session with messages, contextWindowTokens } }
  | .saveCanonical turnId messages summary =>
    match s.turns.lookup turnId with
    | none => s
    | some turn =>
      { s with
        kernel.sessions := s.kernel.sessions.saveCanonical ⟨turn.agentId, messages, 0, summary⟩ }
  | .finishTurn turnId => { s with turns := s.turns.erase turnId }
  | .stopAgentRun agentId =>
    match s.runningTasks.lookup agentId with
    | none => s
    | some turnId =>
      { s with
        turns := s.turns.erase turnId
        runningTasks := s.runningTasks.erase agentId }

def step (s : RunState) (op : RunOp) : RunState × List Unit := (s.next K L op, [])

end Steps

section References

/-- Nothing the kernel keeps refers to the agent. -/
structure Forgets (k : KernelState) (id : AgentId) : Prop where
  unregistered : id ∉ k.registry.agents
  children : Every (id ∉ ·.children) k.registry.agents
  capabilities : id ∉ k.capabilities
  quotas : id ∉ k.scheduler.quotas
  usage : id ∉ k.scheduler.usage
  tasks : id ∉ k.background.tasks
  detached : id ∉ k.background.detached
  triggers : Every (·.agentId ≠ id) k.triggers.triggers
  sessions : Every (·.agentId ≠ id) k.sessions.sessions
  canonical : id ∉ k.sessions.canonical
  hands : Every (·.agentId ≠ some id) k.hands.instances

/-- No cron job, trigger, background loop, running streaming turn, scheduler entry, capability
grant, hand instance, stored session or list of children refers to the agent. -/
structure Forgotten (s : RunState) (id : AgentId) : Prop where
  kernel : Forgets s.kernel id
  cron : Every (·.job.agentId ≠ id) s.cron.jobs
  turns : Every (fun t => t.streaming = true → t.agentId ≠ id) s.turns

/-- What killing does not clean up is not there: a cron job, a streaming turn, an instance of a
hand, a place in a list of children, a canonical session, a loop started before the last one, or a
session that the table refuses to delete. -/
structure Unreferenced (s : RunState) (id : AgentId) (removal : Removal) : Prop where
  children : Every (id ∉ ·.children) (s.kernel.registry.agents.erase id)
  detached : id ∉ s.kernel.background.detached
  sessions : removal.keepsSessions = true → Every (·.agentId ≠ id) s.kernel.sessions.sessions
  canonical : id ∉ s.kernel.sessions.canonical
  hands : Every (·.agentId ≠ some id) s.kernel.hands.instances
  cron : Every (·.job.agentId ≠ id) s.cron.jobs
  turns : Every (fun t => t.streaming = true → t.agentId ≠ id) s.turns

/-- The agents a cron operation brings jobs for. -/
def cronAgents : CronScheduler.Op → List AgentId
  | .addJob job _ _ _ => [job.agentId]
  | .load (.metas metas) => metas.map (·.job.agentId)
  | _ => []

def conditionsOf : ScheduleMode → List Str
  | .proactive conditions => conditions
  | .reactive | .periodic _ | .continuous _ => []

/-- The ids drawn for the triggers of an agent are random: not the same and not in use. -/
def NewIds (schedule : ScheduleMode) (ids : Nat → TriggerId) (triggers : TriggerEngine) : Prop :=
  let drawn := (List.range (conditionsOf schedule).length).map ids
  drawn.Nodup ∧ ∀ id ∈ drawn, id ∉ triggers.triggers

def DrawsNewIds (s : RunState) : RunOp → Prop
  | .kernel (.spawn manifest _ draw) => NewIds manifest.schedule draw.triggerIds s.kernel.triggers
  | .kernel (.registerTrigger _ _ _ _ id _) => id ∉ s.kernel.triggers.triggers
  | .kernel (.startBackground agentId triggerIds _) =>
    ∀ origin, s.kernel.origins.lookup agentId = some origin →
      NewIds origin.schedule triggerIds s.kernel.triggers
  | _ => True

/-- An agent is killed only when nothing that killing leaves behind refers to it, and nothing is
done for an agent that is gone: no cron job and no session is made for it. -/
def Tidy (s : RunState) : RunOp → Prop
  | .kill id removal => Unreferenced s id removal
  | .deactivateHand instanceId removal => ∀ id, killedWith s.kernel instanceId = some id →
      Unreferenced
        { s with kernel.hands.instances := s.kernel.hands.instances.erase instanceId } id removal
  | .cron op => ∀ id ∈ cronAgents op, id ∉ s.gone
  | .saveSession turnId _ _ => ∀ turn, s.turns.lookup turnId = some turn →
      s.kernel.sessions.getSession turn.session.id = none → turn.session.agentId ∉ s.gone
  | .saveCanonical turnId _ _ => ∀ turn, s.turns.lookup turnId = some turn → turn.agentId ∉ s.gone
  | _ => True

end References

section Parts

variable {K : KernelConfig} {id agentId : AgentId}

theorem every_saveSession {st : SessionStore} {session : Session}
    (h : Every (·.agentId ≠ id) st.sessions)
    (hnew : st.getSession session.id = none → session.agentId ≠ id) :
    Every (·.agentId ≠ id) (st.saveSession session).sessions := by
  apply h.insert
  cases hold : st.getSession session.id with
  | none => exact hnew hold
  | some old => exact h _ old hold

theorem every_setSessionLabel {st : SessionStore} (h : Every (·.agentId ≠ id) st.sessions)
    (sessionId : SessionId) (label : Option Str) :
    Every (·.agentId ≠ id) (st.setSessionLabel sessionId label).sessions :=
  h.adjust sessionId fun _ hv => hv

theorem every_update {r : HandRegistry} (h : Every (·.agentId ≠ some id) r.instances)
    (instanceId : Uuid) {f : HandInstance → HandInstance}
    (hf : ∀ i, i.agentId ≠ some id → (f i).agentId ≠ some id) :
    Every (·.agentId ≠ some id) (r.update instanceId f).1.instances := by
  rw [HandRegistry.update]
  split
  · exact h
  · exact h.adjust instanceId hf

theorem every_activate {r : HandRegistry} (h : Every (·.agentId ≠ some id) r.instances)
    (handId : Str) (config : HandConfig) (instanceId : Uuid) (now : DateTime) :
    Every (·.agentId ≠ some id) (r.activate handId config instanceId now).1.instances := by
  rw [HandRegistry.activate]
  split
  · exact h
  split
  · exact h
  · exact h.insert (Option.some_ne_none id).symm instanceId

theorem every_evaluate {e : TriggerEngine} (h : Every (·.agentId ≠ id) e.triggers)
    {R : Rendering} {event : Event} {p : TriggerEngine × List (AgentId × Str)}
    (hp : e.evaluate R event = some p) : Every (·.agentId ≠ id) p.1.triggers := by
  rw [TriggerEngine.evaluate, TriggerEngine.evaluateFirings] at hp
  obtain ⟨q, hq, rfl⟩ := Option.map_eq_some_iff.mp hp
  obtain ⟨description, -, rfl⟩ := Option.map_eq_some_iff.mp hq
  refine h.mapValues fun _ t ht => ?_
  rwa [TriggerEngine.fire_agentId]

theorem indexed_evaluate {e : TriggerEngine} (h : Indexed owners e.agentTriggers e.triggers)
    {R : Rendering} {event : Event} {p : TriggerEngine × List (AgentId × Str)}
    (hp : e.evaluate R event = some p) : Indexed owners p.1.agentTriggers p.1.triggers := by
  rw [TriggerEngine.evaluate, TriggerEngine.evaluateFirings] at hp
  obtain ⟨q, hq, rfl⟩ := Option.map_eq_some_iff.mp hp
  obtain ⟨description, -, rfl⟩ := Option.map_eq_some_iff.mp hq
  refine h.mapValues fun _ t => ?_
  rw [owners, owners, TriggerEngine.fire_agentId]

theorem every_remove {e : TriggerEngine} (h : Every (·.agentId ≠ id) e.triggers)
    (triggerId : TriggerId) : Every (·.agentId ≠ id) (e.remove triggerId).1.triggers := by
  rw [TriggerEngine.remove]
  split
  · exact h.erase triggerId
  · exact h

theorem indexed_remove {e : TriggerEngine} (h : Indexed owners e.agentTriggers e.triggers)
    (triggerId : TriggerId) :
    Indexed owners (e.remove triggerId).1.agentTriggers (e.remove triggerId).1.triggers := by
  rw [TriggerEngine.remove]
  split
  · rename_i trigger htrigger
    exact h.erase htrigger
  · exact h

end Parts

section Announcing

variable {K : KernelConfig} {id agentId : AgentId} {name : Str} {triggerIds : Nat → TriggerId}
variable {now : DateTime}

/-- One step of registering the conditions of a proactive agent. -/
def registerCondition (K : KernelConfig) (agentId : AgentId) (name : Str)
    (triggerIds : Nat → TriggerId) (now : DateTime) (triggers : TriggerEngine) (c : Str × Nat) :
    TriggerEngine :=
  match parseCondition K c.1 with
  | some pattern =>
    triggers.register agentId pattern (alertPrompt c.1 name) 0 (triggerIds c.2) now
  | none => triggers

theorem registerConditions_proactive (conditions : List Str) (triggers : TriggerEngine) :
    registerConditions K agentId name triggerIds now (.proactive conditions) triggers =
      conditions.zipIdx.foldl (registerCondition K agentId name triggerIds now) triggers := rfl

theorem every_registerConditions {triggers : TriggerEngine} (hne : agentId ≠ id)
    (h : Every (·.agentId ≠ id) triggers.triggers) (schedule : ScheduleMode) :
    Every (·.agentId ≠ id)
      (registerConditions K agentId name triggerIds now schedule triggers).triggers := by
  cases schedule with
  | reactive | periodic | continuous => exact h
  | proactive conditions =>
    rw [registerConditions_proactive]
    induction conditions.zipIdx generalizing triggers with
    | nil => exact h
    | cons c cs ih =>
      rw [List.foldl_cons]
      apply ih
      rw [registerCondition]
      split
      · exact h.insert hne _
      · exact h

/-- The conditions get triggers of their own as long as their ids are new. -/
theorem indexed_registerAll {cs : List (Str × Nat)} {triggers : TriggerEngine}
    (h : Indexed owners triggers.agentTriggers triggers.triggers)
    (hnodup : ((cs.map Prod.snd).map triggerIds).Nodup)
    (hnew : ∀ id ∈ (cs.map Prod.snd).map triggerIds, id ∉ triggers.triggers) :
    let after := cs.foldl (registerCondition K agentId name triggerIds now) triggers
    Indexed owners after.agentTriggers after.triggers := by
  induction cs generalizing triggers with
  | nil => exact h
  | cons c cs ih =>
    rw [List.map_cons, List.map_cons] at hnodup hnew
    obtain ⟨hfirst, hnodup⟩ := List.nodup_cons.mp hnodup
    obtain ⟨hc, hrest⟩ := List.forall_mem_cons.mp hnew
    rw [List.foldl_cons, registerCondition]
    split
    · refine ih ?_ hnodup fun id hid hmem => ?_
      · exact h.insert hc
          (Trigger.mk (triggerIds c.2) agentId _ (alertPrompt c.1 name) true now 0 0)
      · rw [TriggerEngine.register, AList.mem_insert] at hmem
        obtain heq | hmem := hmem
        · exact hfirst (heq ▸ hid)
        · exact hrest id hid hmem
    · exact ih h hnodup hrest

theorem indexed_registerConditions {triggers : TriggerEngine} {schedule : ScheduleMode}
    (h : Indexed owners triggers.agentTriggers triggers.triggers)
    (hnew : NewIds schedule triggerIds triggers) :
    let after := registerConditions K agentId name triggerIds now schedule triggers
    Indexed owners after.agentTriggers after.triggers := by
  cases schedule with
  | reactive | periodic | continuous => exact h
  | proactive conditions =>
    have hids : (conditions.zipIdx.map Prod.snd).map triggerIds =
        (List.range conditions.length).map triggerIds := by
      rw [List.zipIdx_map_snd, List.range_eq_range']
    exact indexed_registerAll h (hids ▸ hnew.1) (hids ▸ hnew.2)

theorem every_announce {triggers : TriggerEngine} {manifest : SpawnManifest} {draw : Draw}
    (hne : draw.agentId ≠ id) (h : Every (·.agentId ≠ id) triggers.triggers) :
    Every (·.agentId ≠ id) (announce K manifest draw triggers).triggers := by
  have hregistered : Every (·.agentId ≠ id) (registerConditions K draw.agentId manifest.name
      draw.triggerIds draw.now manifest.schedule triggers).triggers :=
    every_registerConditions hne h manifest.schedule
  rw [announce]
  split
  · rename_i p hp
    exact every_evaluate hregistered hp
  · exact hregistered

theorem indexed_announce {triggers : TriggerEngine} {manifest : SpawnManifest} {draw : Draw}
    (h : Indexed owners triggers.agentTriggers triggers.triggers)
    (hnew : NewIds manifest.schedule draw.triggerIds triggers) :
    Indexed owners (announce K manifest draw triggers).agentTriggers
      (announce K manifest draw triggers).triggers := by
  have hregistered := @indexed_registerConditions K draw.agentId manifest.name draw.triggerIds
    draw.now triggers manifest.schedule h hnew
  rw [announce]
  split
  · rename_i p hp
    exact indexed_evaluate hregistered hp
  · exact hregistered

end Announcing

section Spawning

variable {K : KernelConfig} {k : KernelState} {id : AgentId} {draw : Draw}

theorem every_children_register {r registry : AgentRegistry} {entry : AgentEntry}
    (h : Every (id ∉ ·.children) r.agents) (hnone : entry.children = [])
    (hr : r.register entry = (registry, .ok ())) : Every (id ∉ ·.children) registry.agents := by
  rw [AgentRegistry.register] at hr
  split at hr
  · cases hr
  · cases hr
    refine h.insert ?_ entry.id
    rw [hnone]
    exact List.not_mem_nil

theorem not_mem_register {r registry : AgentRegistry} {entry : AgentEntry}
    (h : id ∉ r.agents) (hne : entry.id ≠ id) (hr : r.register entry = (registry, .ok ())) :
    id ∉ registry.agents := by
  rw [AgentRegistry.register] at hr
  split at hr
  · cases hr
  · cases hr
    rw [AList.mem_insert, not_or]
    exact ⟨hne.symm, h⟩

theorem not_mem_addChild {r : AgentRegistry} {parent : Option AgentId} {child : AgentId}
    (h : id ∉ r.agents) : id ∉ (addChild r parent child).agents := by
  cases parent with
  | none => exact h
  | some p => exact fun hmem => h (by rwa [addChild, AgentRegistry.addChild, AList.mem_keys,
      keys_adjust, ← AList.mem_keys] at hmem)

theorem every_children_addChild {r : AgentRegistry} {parent : Option AgentId} {child : AgentId}
    (h : Every (id ∉ ·.children) r.agents) (hne : child ≠ id) :
    Every (id ∉ ·.children) (addChild r parent child).agents := by
  cases parent with
  | none => exact h
  | some p =>
    refine h.adjust p fun e he => ?_
    rw [List.mem_append, List.mem_singleton, not_or]
    exact ⟨he, hne.symm⟩

theorem not_mem_insert {ν : Type} {m : Map AgentId ν} {v : ν} (h : id ∉ m)
    (hne : draw.agentId ≠ id) : id ∉ m.insert draw.agentId v := by
  rw [AList.mem_insert, not_or]
  exact ⟨hne.symm, h⟩

/-- A spawn refers to no agent but its own and, in its entry, to its parent. -/
theorem Forgets.spawn (h : Forgets k id) (hne : draw.agentId ≠ id) (manifest : SpawnManifest)
    (parent : Option AgentId) :
    Forgets (spawnAgentWithParent K k manifest parent draw).1 id := by
  unfold spawnAgentWithParent
  split
  · exact h
  have hsession : Every (·.agentId ≠ id)
      (k.sessions.createSession draw.agentId draw.storedSessionId).sessions :=
    every_saveSession h.sessions fun _ => hne
  have hstored : Forgets
      { k with sessions := k.sessions.createSession draw.agentId draw.storedSessionId } id :=
    { h with sessions := hsession }
  simp only
  split
  · exact hstored
  split
  · exact
      { hstored with
        capabilities := not_mem_insert h.capabilities hne
        quotas := not_mem_insert h.quotas hne
        usage := not_mem_insert h.usage hne }
  rename_i registry hregistry
  have hregistered : id ∉ (addChild registry parent draw.agentId).agents :=
    not_mem_addChild (not_mem_register h.unregistered hne hregistry)
  have hchildren : Every (id ∉ ·.children) (addChild registry parent draw.agentId).agents :=
    every_children_addChild (every_children_register h.children rfl hregistry) hne
  split
  · exact
      { hstored with
        unregistered := hregistered
        children := hchildren
        capabilities := not_mem_insert h.capabilities hne
        quotas := not_mem_insert h.quotas hne
        usage := not_mem_insert h.usage hne }
  · exact
      { hstored with
        unregistered := hregistered
        children := hchildren
        capabilities := not_mem_insert h.capabilities hne
        quotas := not_mem_insert h.quotas hne
        usage := not_mem_insert h.usage hne
        triggers := every_announce hne h.triggers }

theorem prepared_schedule (manifest : SpawnManifest) (agentId : AgentId) :
    (prepared K manifest agentId).schedule = manifest.schedule := by
  unfold prepared overlayModel inheritPolicy
  split <;> rfl

theorem indexed_spawn (h : Indexed owners k.triggers.agentTriggers k.triggers.triggers)
    {manifest : SpawnManifest} (hnew : NewIds manifest.schedule draw.triggerIds k.triggers)
    (parent : Option AgentId) :
    let k' := (spawnAgentWithParent K k manifest parent draw).1
    Indexed owners k'.triggers.agentTriggers k'.triggers.triggers := by
  unfold spawnAgentWithParent
  split
  · exact h
  simp only
  split
  · exact h
  split
  · exact h
  split
  · exact h
  · refine indexed_announce h ?_
    rwa [prepared_schedule]

theorem Forgets.activateHand (h : Forgets k id) (hne : draw.agentId ≠ id) (handId : Str)
    (config : HandConfig) (instanceId : Uuid) :
    Forgets (activateHand K k handId config instanceId draw).1 id := by
  unfold Lifecycle.activateHand
  split
  · exact h
  rename_i hand hhand
  have hactivated := every_activate h.hands handId config instanceId draw.now
  split
  · exact h
  rename_i hands created heq
  rw [heq] at hactivated
  have hstored : Forgets { k with hands := hands } id := { h with hands := hactivated }
  have hspawned : Forgets (spawnAgentWithParent K { k with hands := hands }
      (handManifest K hand created) none draw).1 id := hstored.spawn hne _ none
  cases hs : spawnAgentWithParent K { k with hands := hands } (handManifest K hand created) none
    draw with
  | mk s result =>
    rw [hs] at hspawned
    cases result with
    | error e => exact hspawned
    | ok agentId =>
      have hagent : draw.agentId = agentId := spawn_agentId hs
      have hset : Every (·.agentId ≠ some id)
          (s.hands.setAgent created.instanceId agentId draw.now).1.instances :=
        every_update hspawned.hands created.instanceId
          fun i _ heq => hne (hagent.trans (Option.some.inj heq))
      rw [linkAgent]
      split
      · exact hspawned
      · rename_i hands' hset'
        rw [hset'] at hset
        exact { hspawned with hands := hset }

/-- The agent of a hand is not proactive: no trigger is registered for it. -/
theorem newIds_hand (hand : HandDefinition) (created : HandInstance) (triggers : TriggerEngine) :
    NewIds (handManifest K hand created).schedule draw.triggerIds triggers :=
  ⟨List.nodup_nil, nofun⟩

theorem indexed_activateHand (h : Indexed owners k.triggers.agentTriggers k.triggers.triggers)
    (handId : Str) (config : HandConfig) (instanceId : Uuid) :
    let k' := (activateHand K k handId config instanceId draw).1
    Indexed owners k'.triggers.agentTriggers k'.triggers.triggers := by
  unfold Lifecycle.activateHand
  split
  · exact h
  rename_i hand hhand
  split
  · exact h
  rename_i hands created heq
  have hspawned := @indexed_spawn K { k with hands := hands } draw h
    (handManifest K hand created) (newIds_hand hand created k.triggers) none
  cases hs : spawnAgentWithParent K { k with hands := hands } (handManifest K hand created) none
    draw with
  | mk s result =>
    rw [hs] at hspawned
    cases result with
    | error e => exact hspawned
    | ok agentId =>
      rw [linkAgent]
      split
      · exact hspawned
      · exact hspawned

end Spawning

section Kills

variable {K : KernelConfig} {k : KernelState} {id agentId : AgentId} {removal : Removal}

theorem not_mem_erase {ν : Type} (m : Map AgentId ν) (agentId : AgentId) :
    agentId ∉ m.erase agentId :=
  fun h => (AList.mem_erase.mp h).1 rfl

theorem not_mem_erase_of {ν : Type} {m : Map AgentId ν} (h : id ∉ m) (agentId : AgentId) :
    id ∉ m.erase agentId :=
  fun hmem => h (AList.mem_erase.mp hmem).2

theorem every_deleteAgentSessions {st : SessionStore} (agentId : AgentId) :
    Every (·.agentId ≠ agentId) (st.deleteAgentSessions agentId).sessions :=
  fun _ _ h => (SessionStore.getSession_deleteAgentSessions.mp h).2

theorem killAgent_of_registered {entry : AgentEntry}
    (h : k.registry.agents.lookup agentId = some entry) :
    killAgent k agentId removal =
      ({ k with
         registry :=
           { agents := k.registry.agents.erase agentId
             nameIndex := k.registry.nameIndex.erase entry.name
             tagIndex := entry.tags.foldl (strike agentId) k.registry.tagIndex }
         origins := k.origins.erase agentId
         background := k.background.stop agentId
         scheduler := k.scheduler.unregister agentId
         capabilities := k.capabilities.erase agentId
         triggers := k.triggers.removeAgentTriggers agentId
         sessions :=
           if removal.keepsSessions then k.sessions else k.sessions.deleteAgentSessions agentId
         rows := if removal.keepsRow then k.rows else k.rows.erase agentId }, .ok ()) := by
  rw [killAgent, AgentRegistry.remove, h]

theorem killAgent_of_unregistered (h : agentId ∉ k.registry.agents) :
    killAgent k agentId removal = (k, .error (.agentNotFound agentId.toStr)) := by
  rw [Lifecycle.killAgent, AgentRegistry.remove, AList.lookup_eq_none.mpr h]

theorem indexed_killAgent (h : Indexed owners k.triggers.agentTriggers k.triggers.triggers) :
    let k' := (killAgent k agentId removal).1
    Indexed owners k'.triggers.agentTriggers k'.triggers.triggers := by
  by_cases hregistered : agentId ∈ k.registry.agents
  · obtain ⟨entry, hentry⟩ := Option.isSome_iff_exists.mp (AList.lookup_isSome.mpr hregistered)
    rw [killAgent_of_registered hentry]
    exact TriggerEngine.indexed_removeAgentTriggers h agentId
  · rw [killAgent_of_unregistered hregistered]
    exact h

/-- Killing takes away what is left of others too, and adds nothing. -/
theorem Forgets.killAgent (h : Forgets k id)
    (hindexed : Indexed owners k.triggers.agentTriggers k.triggers.triggers) (agentId : AgentId)
    (removal : Removal) : Forgets (killAgent k agentId removal).1 id := by
  cases hentry : k.registry.agents.lookup agentId with
  | none => rwa [Lifecycle.killAgent, AgentRegistry.remove, hentry]
  | some entry =>
    rw [killAgent_of_registered hentry]
    exact
      { unregistered := not_mem_erase_of h.unregistered agentId
        children := h.children.erase agentId
        capabilities := not_mem_erase_of h.capabilities agentId
        quotas := not_mem_erase_of h.quotas agentId
        usage := not_mem_erase_of h.usage agentId
        tasks := fun hmem => h.tasks (List.mem_of_mem_filter hmem)
        detached := h.detached
        triggers := fun t trigger ht => h.triggers t trigger
          ((TriggerEngine.lookup_removeAgentTriggers hindexed agentId t trigger).mp ht).1
        sessions := by
          simp only
          split
          · exact h.sessions
          · exact h.sessions.retain _
        canonical := by
          simp only
          split
          · exact h.canonical
          · exact h.canonical
        hands := h.hands }

/-- What nothing else refers to is gone once it is killed. -/
theorem forgets_killed {s : RunState} {entry : AgentEntry}
    (hindexed : Indexed owners s.kernel.triggers.agentTriggers s.kernel.triggers.triggers)
    (hentry : s.kernel.registry.agents.lookup agentId = some entry)
    (h : Unreferenced s agentId removal) :
    Forgets (killAgent s.kernel agentId removal).1 agentId := by
  rw [killAgent_of_registered hentry]
  exact
    { unregistered := not_mem_erase _ agentId
      children := h.children
      capabilities := not_mem_erase _ agentId
      quotas := not_mem_erase _ agentId
      usage := not_mem_erase _ agentId
      tasks := fun hmem => of_decide_eq_true (List.mem_filter.mp hmem).2 rfl
      detached := h.detached
      triggers := fun t trigger ht =>
        ((TriggerEngine.lookup_removeAgentTriggers hindexed agentId t trigger).mp ht).2
      sessions := by
        simp only
        split
        · rename_i hkeeps
          exact h.sessions hkeeps
        · exact every_deleteAgentSessions agentId
      canonical := by
        simp only
        split
        · exact h.canonical
        · exact h.canonical
      hands := h.hands }

end Kills

section Applying

variable {K : KernelConfig} {k : KernelState} {id : AgentId}

/-- At most one entry changed, and not its children. -/
def KeepsChildren (before after : Map AgentId AgentEntry) : Prop :=
  after = before ∨
    ∃ j f, after = adjust j f before ∧ ∀ e : AgentEntry, (f e).children = e.children

theorem keepsChildren_update (r : AgentRegistry) (j : AgentId) {f : AgentEntry → AgentEntry}
    (hf : ∀ e, (f e).children = e.children) : KeepsChildren r.agents (r.update j f).1.agents := by
  rw [AgentRegistry.update]
  cases r.agents.lookup j with
  | some e => exact Or.inr ⟨j, f, rfl, hf⟩
  | none => exact Or.inl rfl

theorem keepsChildren_setter (r : AgentRegistry) {op : AgentRegistry.Op}
    (hop : isSetter op = true) : KeepsChildren r.agents (r.apply op).1.agents := by
  cases op with
  | register | remove | addChild => cases hop
  | updateName j newName now =>
    rw [AgentRegistry.apply, AgentRegistry.updateName]
    by_cases htaken : newName ∈ r.nameIndex
    · rw [if_pos htaken]
      exact Or.inl rfl
    · rw [if_neg htaken]
      cases r.agents.lookup j with
      | some e => exact Or.inr ⟨j, AgentRegistry.rename newName now, rfl, fun _ => rfl⟩
      | none => exact Or.inl rfl
  | setState j | setMode j | updateSessionId j | updateWorkspace j | updateIdentity j
  | updateModel j | updateModelAndProvider j | updateSkills j | updateMcpServers j
  | updateSystemPrompt j | updateDescription j | markOnboardingComplete j =>
    exact keepsChildren_update r j (fun _ => rfl)

theorem Forgets.setEntry (h : Forgets k id) {op : AgentRegistry.Op} (hop : isSetter op = true) :
    Forgets { k with registry := (k.registry.apply op).1 } id := by
  obtain heq | ⟨j, f, heq, hf⟩ := keepsChildren_setter k.registry hop
  · exact { h with unregistered := heq ▸ h.unregistered, children := heq ▸ h.children }
  · refine { h with unregistered := ?_, children := ?_ }
    · rw [heq, AList.mem_keys, keys_adjust, ← AList.mem_keys]
      exact h.unregistered
    · rw [heq]
      exact h.children.adjust j fun e he => (hf e).symm ▸ he

theorem Forgets.updateSessionId (h : Forgets k id) (agentId : AgentId) (new : SessionId)
    (now : DateTime) :
    Forgets { k with registry := (k.registry.updateSessionId agentId new now).1 } id :=
  @Forgets.setEntry k id h (.updateSessionId agentId new now) rfl

theorem Forgets.withSessions (h : Forgets k id) {sessions : SessionStore}
    (hsessions : Every (·.agentId ≠ id) sessions.sessions)
    (hcanonical : sessions.canonical = k.sessions.canonical) :
    Forgets { k with sessions := sessions } id :=
  { h with sessions := hsessions, canonical := hcanonical ▸ h.canonical }

/-- A session made for an agent that is there belongs to another one. -/
theorem ne_of_registered (h : Forgets k id) {agentId : AgentId} {entry : AgentEntry}
    (hentry : k.registry.get agentId = some entry) : agentId ≠ id := by
  rintro rfl
  have hlookup : k.registry.agents.lookup agentId = some entry := hentry
  exact h.unregistered (AList.lookup_isSome.mp (by rw [hlookup]; rfl))

theorem Forgets.resetSession (h : Forgets k id) (agentId : AgentId) (new : SessionId)
    (fails : Bool) (now : DateTime) : Forgets (resetSession k agentId new fails now) id := by
  unfold Lifecycle.resetSession
  split
  · exact h
  rename_i entry hentry
  have hdeleted : Every (·.agentId ≠ id) (k.sessions.deleteSession entry.sessionId).sessions :=
    h.sessions.erase entry.sessionId
  simp only
  split
  · exact h.withSessions hdeleted rfl
  · have hcreated := @every_saveSession id _ (.empty new agentId none) hdeleted
      fun _ => ne_of_registered h hentry
    exact (h.updateSessionId agentId new now).withSessions hcreated rfl

theorem Forgets.createAgentSession (h : Forgets k id) (agentId : AgentId) (label : Option Str)
    (new : SessionId) (now : DateTime) :
    Forgets (createAgentSession k agentId label new now) id := by
  unfold Lifecycle.createAgentSession
  split
  · exact h
  rename_i entry hentry
  have hcreated := @every_saveSession id _ (.empty new agentId label) h.sessions
    fun _ => ne_of_registered h hentry
  exact (h.updateSessionId agentId new now).withSessions hcreated rfl

theorem Forgets.switchAgentSession (h : Forgets k id) (agentId : AgentId) (sessionId : SessionId)
    (now : DateTime) : Forgets (switchAgentSession k agentId sessionId now) id := by
  unfold Lifecycle.switchAgentSession
  split
  · split
    · exact h.updateSessionId agentId sessionId now
    · exact h
  · exact h

theorem Forgets.startBackground (h : Forgets k id) {agentId : AgentId} (hne : agentId ≠ id)
    (name : Str) (schedule : ScheduleMode) (triggerIds : Nat → TriggerId) (now : DateTime) :
    Forgets (startBackgroundForAgent K k agentId name schedule triggerIds now) id := by
  have hstart : id ∉ (k.background.start agentId).tasks ∧
      id ∉ (k.background.start agentId).detached := by
    rw [BackgroundExecutor.start]
    split
    · exact ⟨h.tasks, List.not_mem_cons_of_ne_of_not_mem hne.symm h.detached⟩
    · exact ⟨List.not_mem_cons_of_ne_of_not_mem hne.symm h.tasks, h.detached⟩
  have htriggers : Every (·.agentId ≠ id)
      (registerConditions K agentId name triggerIds now schedule k.triggers).triggers :=
    every_registerConditions hne h.triggers schedule
  cases schedule with
  | reactive | proactive => exact { h with triggers := htriggers }
  | periodic | continuous =>
    exact { h with triggers := htriggers, tasks := hstart.1, detached := hstart.2 }

/-- Nothing done at once refers to an agent that is not there, other than spawning it. -/
theorem Forgets.apply (h : Forgets k id) {op : KernelOp} (hop : op.spawned ≠ some id) :
    Forgets (k.apply K op) id := by
  cases op with
  | spawn manifest parent draw => exact h.spawn (fun he => hop (congrArg some he)) manifest parent
  | activateHand handId config instanceId draw =>
    exact h.activateHand (fun he => hop (congrArg some he)) handId config instanceId
  | pauseHand instanceId => exact { h with hands := every_update h.hands instanceId fun _ hi => hi }
  | resumeHand instanceId =>
    exact { h with hands := every_update h.hands instanceId fun _ hi => hi }
  | setHandError instanceId =>
    exact { h with hands := every_update h.hands instanceId fun _ hi => hi }
  | registerTrigger agentId =>
    rw [KernelState.apply]
    split
    · exact h
    · rename_i entry hentry
      exact { h with triggers := h.triggers.insert (ne_of_registered h hentry) _ }
  | removeTrigger triggerId => exact { h with triggers := every_remove h.triggers triggerId }
  | setTriggerEnabled triggerId =>
    exact { h with triggers := h.triggers.adjust triggerId fun _ ht => ht }
  | evaluateTriggers event =>
    rw [KernelState.apply]
    split
    · rename_i p hp
      exact { h with triggers := every_evaluate h.triggers hp }
    · exact h
  | startBackground agentId triggerIds now =>
    rw [KernelState.apply]
    split
    · rename_i entry origin hentry horigin
      exact h.startBackground (ne_of_registered h hentry) entry.name origin.schedule triggerIds now
    · exact h
  | setEntry op =>
    rw [KernelState.apply]
    split
    · rename_i hsetter
      exact h.setEntry hsetter
    · exact h
  | resetSession agentId new fails now => exact h.resetSession agentId new fails now
  | createAgentSession agentId label new now => exact h.createAgentSession agentId label new now
  | switchAgentSession agentId sessionId now => exact h.switchAgentSession agentId sessionId now
  | deleteSession sessionId => exact h.withSessions (h.sessions.erase sessionId) rfl
  | setSessionLabel sessionId label =>
    exact h.withSessions (every_setSessionLabel h.sessions sessionId label) rfl

end Applying

section Runs

variable {K : KernelConfig} {L : CronLibrary} {s : RunState} {id : AgentId}

/-- What every state of a tidy run keeps: triggers are listed under their agents, and nothing
refers to an agent that is gone. -/
structure Clean (s : RunState) : Prop where
  indexed : Indexed owners s.kernel.triggers.agentTriggers s.kernel.triggers.triggers
  forgotten : ∀ id ∈ s.gone, Forgotten s id

theorem indexed_apply {k : KernelState} {op : KernelOp} (hnew : DrawsNewIds s (.kernel op))
    (h : Indexed owners s.kernel.triggers.agentTriggers s.kernel.triggers.triggers)
    (hk : k = s.kernel) :
    Indexed owners (k.apply K op).triggers.agentTriggers (k.apply K op).triggers.triggers := by
  subst hk
  cases op with
  | spawn manifest parent draw => exact indexed_spawn h hnew parent
  | activateHand handId config instanceId draw =>
    exact indexed_activateHand h handId config instanceId
  | pauseHand | resumeHand | setHandError | deleteSession | setSessionLabel => exact h
  | registerTrigger agentId pattern promptTemplate maxFires id now =>
    rw [KernelState.apply]
    split
    · exact h
    · exact h.insert hnew (Trigger.mk id agentId pattern promptTemplate true now 0 maxFires)
  | removeTrigger triggerId => exact indexed_remove h triggerId
  | setTriggerEnabled triggerId enabled => exact h.adjust fun _ => rfl
  | evaluateTriggers event =>
    rw [KernelState.apply]
    split
    · rename_i p hp
      exact indexed_evaluate h hp
    · exact h
  | startBackground agentId triggerIds now =>
    rw [KernelState.apply]
    split
    · rename_i entry origin hentry horigin
      exact indexed_registerConditions h (hnew origin horigin)
    · exact h
  | setEntry op =>
    rw [KernelState.apply]
    split
    · exact h
    · exact h
  | resetSession agentId new fails now =>
    rw [KernelState.apply, resetSession]
    split
    · exact h
    · simp only
      split
      · exact h
      · exact h
  | createAgentSession agentId label new now =>
    rw [KernelState.apply, createAgentSession]
    split
    · exact h
    · exact h
  | switchAgentSession agentId sessionId now =>
    rw [KernelState.apply, switchAgentSession]
    split
    · split
      · exact h
      · exact h
    · exact h

theorem every_load {c : CronScheduler} (h : Every (·.job.agentId ≠ id) c.jobs)
    {file : CronScheduler.PersistFile} (hfile : id ∉ cronAgents (.load file)) :
    Every (·.job.agentId ≠ id) (c.load file).1.jobs := by
  cases file with
  | missing | unreadable | unparsable => exact h
  | metas metas =>
    have hmetas : ∀ m ∈ metas, m.job.agentId ≠ id := fun m hm heq =>
      hfile (List.mem_map.mpr ⟨m, hm, heq⟩)
    show Every (·.job.agentId ≠ id) (metas.foldl (fun jobs m => jobs.insert m.job.id m) c.jobs)
    clear hfile
    generalize c.jobs = jobs at h
    induction metas generalizing jobs with
    | nil => exact h
    | cons m metas ih =>
      exact ih (fun m' hm' => hmetas m' (List.mem_cons_of_mem m hm')) _
        (h.insert (hmetas m List.mem_cons_self) m.job.id)

/-- The agents of the jobs after a cron operation are those of the jobs before it and of the
jobs it brings. -/
theorem every_cron {c : CronScheduler} (h : Every (·.job.agentId ≠ id) c.jobs)
    {op : CronScheduler.Op} (hop : id ∉ cronAgents op) :
    Every (·.job.agentId ≠ id) (c.step L op).1.jobs := by
  have hadvance : ∀ now (m : JobMeta), (m.advance L now).job.agentId = m.job.agentId := by
    intro now m
    rw [JobMeta.advance]
    split
    · rfl
    · rfl
  have hsucceed : ∀ now later (m : JobMeta),
      (CronScheduler.succeed L now later m).job.agentId = m.job.agentId := by
    intro now later m
    rw [CronScheduler.succeed]
    split
    · rfl
    · exact hadvance later _
  have hfail : ∀ errorMsg now later (m : JobMeta),
      (CronScheduler.fail L errorMsg now later m).job.agentId = m.job.agentId := by
    intro errorMsg now later m
    rw [CronScheduler.fail]
    split
    · rfl
    · simp only
      split
      · rfl
      · exact hadvance later _
  have henable : ∀ enabled now (m : JobMeta),
      (CronScheduler.enable L enabled now m).job.agentId = m.job.agentId := by
    intro enabled now m
    rw [CronScheduler.enable]
    split
    · exact hadvance now _
    · rfl
  cases op with
  | load file => exact every_load h hop
  | addJob job oneShot now later =>
    rw [CronScheduler.step, CronScheduler.addJob]
    split
    · exact h
    split
    · exact h
    split
    · exact h
    · exact h.insert (fun heq => hop (List.mem_singleton.mpr heq.symm)) job.id
  | removeJob jobId =>
    rw [CronScheduler.step, CronScheduler.removeJob]
    split
    · exact h.erase jobId
    · exact h
  | setEnabled jobId enabled now =>
    rw [CronScheduler.step, CronScheduler.setEnabled]
    split
    · exact h.adjust jobId fun m hm => (henable enabled now m).symm ▸ hm
    · exact h
  | dueJobs now clock =>
    refine h.mapValues fun jobId m hm => ?_
    split
    · exact (hadvance (clock jobId) m).symm ▸ hm
    · exact hm
  | recordSuccess jobId now later =>
    have hadjusted : Every (·.job.agentId ≠ id)
        (adjust jobId (CronScheduler.succeed L now later) c.jobs) :=
      h.adjust jobId fun m hm => (hsucceed now later m).symm ▸ hm
    rw [CronScheduler.step, CronScheduler.recordSuccess]
    split
    · split
      · exact hadjusted.erase jobId
      · exact hadjusted
    · exact h
  | recordFailure jobId errorMsg now later =>
    exact h.adjust jobId fun m hm => (hfail errorMsg now later m).symm ▸ hm

theorem Clean.kernel (h : Clean s) {op : KernelOp} (hnew : DrawsNewIds s (.kernel op)) :
    Clean (s.next K L (.kernel op)) where
  indexed := indexed_apply hnew h.indexed rfl
  forgotten id hid := by
    obtain ⟨hgone, hne⟩ := List.mem_filter.mp hid
    have hforgotten := h.forgotten id hgone
    exact
      { kernel := hforgotten.kernel.apply (Ne.symm (of_decide_eq_true hne))
        cron := hforgotten.cron
        turns := hforgotten.turns }

/-- Killing an agent that nothing else refers to. -/
theorem Clean.killed (h : Clean s) {agentId : AgentId} {removal : Removal}
    (hunreferenced : agentId ∈ s.kernel.registry.agents → Unreferenced s agentId removal) :
    Clean { s with
      kernel := (killAgent s.kernel agentId removal).1
      gone := (if agentId ∈ s.kernel.registry.agents then [agentId] else []) ++ s.gone } where
  indexed := indexed_killAgent h.indexed
  forgotten id hid := by
    by_cases hregistered : agentId ∈ s.kernel.registry.agents
    · rw [if_pos hregistered, List.singleton_append, List.mem_cons] at hid
      obtain ⟨entry, hentry⟩ := Option.isSome_iff_exists.mp (AList.lookup_isSome.mpr hregistered)
      obtain rfl | hid := hid
      · exact
          { kernel := forgets_killed h.indexed hentry (hunreferenced hregistered)
            cron := (hunreferenced hregistered).cron
            turns := (hunreferenced hregistered).turns }
      · have hforgotten := h.forgotten id hid
        exact { hforgotten with kernel := hforgotten.kernel.killAgent h.indexed agentId removal }
    · rw [if_neg hregistered, List.nil_append] at hid
      have hforgotten := h.forgotten id hid
      exact { hforgotten with kernel := hforgotten.kernel.killAgent h.indexed agentId removal }

theorem Clean.kill (h : Clean s) {agentId : AgentId} {removal : Removal}
    (htidy : Unreferenced s agentId removal) : Clean (s.next K L (.kill agentId removal)) := by
  have hkilled := @Clean.killed s h agentId removal fun _ => htidy
  rw [RunState.next]
  by_cases hregistered : agentId ∈ s.kernel.registry.agents
  · obtain ⟨entry, hentry⟩ := Option.isSome_iff_exists.mp (AList.lookup_isSome.mpr hregistered)
    rw [if_pos hregistered] at hkilled
    rw [killAgent_of_registered hentry] at hkilled ⊢
    exact hkilled
  · rw [killAgent_of_unregistered hregistered]
    exact h

theorem Clean.deactivateHand (h : Clean s) {instanceId : Uuid} {removal : Removal}
    (htidy : Tidy s (.deactivateHand instanceId removal)) :
    Clean (s.next K L (.deactivateHand instanceId removal)) := by
  let s' := { s with kernel.hands.instances := s.kernel.hands.instances.erase instanceId }
  have herased : Clean s' :=
    { indexed := h.indexed
      forgotten := fun id hid =>
        have hforgotten := h.forgotten id hid
        have hkernel := hforgotten.kernel
        { hforgotten with kernel := { hkernel with hands := hkernel.hands.erase instanceId } } }
  rw [RunState.next, Lifecycle.deactivateHand, HandRegistry.deactivate, killedWith,
    HandRegistry.getInstance]
  cases hinstance : s.kernel.hands.instances.lookup instanceId with
  | none => exact h
  | some removed =>
    simp only [Option.bind_some]
    cases hagent : removed.agentId with
    | none => exact herased
    | some agentId =>
      have hkilled := @Clean.killed s' herased agentId removal fun hregistered =>
        htidy agentId (by
          rw [killedWith, HandRegistry.getInstance, hinstance, Option.bind_some, hagent]
          exact Option.filter_eq_some_iff.mpr ⟨rfl, decide_eq_true hregistered⟩)
      have hlist : (Option.filter (· ∈ s.kernel.registry.agents) (some agentId)).toList =
          if agentId ∈ s.kernel.registry.agents then [agentId] else [] := by
        rw [Option.filter_some]
        by_cases hregistered : agentId ∈ s.kernel.registry.agents
        · simp [hregistered]
        · simp [hregistered]
      rw [hlist]
      exact hkilled

theorem Clean.sendMessage (h : Clean s) (agentId : AgentId) (turnId : TurnId) (streaming : Bool) :
    Clean (sendMessage s agentId turnId streaming) := by
  unfold Lifecycle.sendMessage
  cases hentry : s.kernel.registry.get agentId with
  | none => exact h
  | some entry =>
    simp only
    split
    · exact h
    · refine { indexed := h.indexed, forgotten := fun id hid => ?_ }
      have hforgotten := h.forgotten id hid
      have hne := ne_of_registered hforgotten.kernel hentry
      exact { hforgotten with turns := hforgotten.turns.insert (fun _ => hne) turnId }

theorem Clean.finishTurn (h : Clean s) (turnId : TurnId) (tasks : Map AgentId TurnId) :
    Clean { s with turns := s.turns.erase turnId, runningTasks := tasks } where
  indexed := h.indexed
  forgotten id hid :=
    have hforgotten := h.forgotten id hid
    { hforgotten with turns := hforgotten.turns.erase turnId }

theorem Clean.saveSession (h : Clean s) {turnId : TurnId} {messages : List Message}
    {contextWindowTokens : UInt64}
    (htidy : Tidy s (.saveSession turnId messages contextWindowTokens)) :
    Clean (s.next K L (.saveSession turnId messages contextWindowTokens)) := by
  rw [RunState.next]
  cases hturn : s.turns.lookup turnId with
  | none => exact h
  | some turn =>
    refine { indexed := h.indexed, forgotten := fun id hid => ?_ }
    have hforgotten := h.forgotten id hid
    have hsaved : Every (·.agentId ≠ id) (s.kernel.sessions.saveSession
        { turn.session with messages, contextWindowTokens }).sessions := by
      refine every_saveSession hforgotten.kernel.sessions fun hnew heq => ?_
      exact htidy turn hturn hnew (heq ▸ hid)
    exact { hforgotten with kernel := hforgotten.kernel.withSessions hsaved rfl }

theorem Clean.saveCanonical (h : Clean s) {turnId : TurnId} {messages : List Message}
    {summary : Option Str} (htidy : Tidy s (.saveCanonical turnId messages summary)) :
    Clean (s.next K L (.saveCanonical turnId messages summary)) := by
  rw [RunState.next]
  cases hturn : s.turns.lookup turnId with
  | none => exact h
  | some turn =>
    refine { indexed := h.indexed, forgotten := fun id hid => ?_ }
    have hforgotten := h.forgotten id hid
    have hkernel := hforgotten.kernel
    have hcanonical : id ∉ (s.kernel.sessions.saveCanonical
        ⟨turn.agentId, messages, 0, summary⟩).canonical := by
      intro hmem
      obtain heq | hmem := (AList.mem_insert _).mp hmem
      · have hagent : id = turn.agentId := heq
        exact htidy turn hturn (hagent ▸ hid)
      · exact hkernel.canonical hmem
    exact { hforgotten with kernel := { hkernel with canonical := hcanonical } }

theorem Clean.next (h : Clean s) {op : RunOp} (hnew : DrawsNewIds s op) (htidy : Tidy s op) :
    Clean (s.next K L op) := by
  cases op with
  | kernel op => exact h.kernel hnew
  | kill agentId removal => exact h.kill htidy
  | deactivateHand instanceId removal => exact h.deactivateHand htidy
  | cron op =>
    refine { indexed := h.indexed, forgotten := fun id hid => ?_ }
    have hforgotten := h.forgotten id hid
    exact { hforgotten with cron := every_cron hforgotten.cron fun hmem => htidy id hmem hid }
  | sendMessage agentId turnId streaming => exact h.sendMessage agentId turnId streaming
  | saveSession turnId messages contextWindowTokens => exact h.saveSession htidy
  | saveCanonical turnId messages summary => exact h.saveCanonical htidy
  | finishTurn turnId => exact h.finishTurn turnId s.runningTasks
  | stopAgentRun agentId =>
    rw [RunState.next]
    split
    · exact h
    · rename_i turnId hturn
      exact h.finishTurn turnId (s.runningTasks.erase agentId)

/-- A kernel that has booted: agents and jobs may have been loaded, but there are no triggers
and no agent has been killed. -/
structure Booted (s : RunState) : Prop where
  triggers : s.kernel.triggers = .new
  gone : s.gone = []

variable (K L)

/-- In every run from a boot in which an agent is killed only while nothing that killing leaves
behind refers to it, and nothing is done for a killed agent afterwards, no state refers to an
agent that was killed and not spawned again. -/
theorem run_forgets (hboot : Booted s) (ops : List RunOp)
    (hops : Allowed (step K L) (fun s op => DrawsNewIds s op ∧ Tidy s op) s ops) :
    ∀ id ∈ (run (step K L) s ops).1.gone, Forgotten (run (step K L) s ops).1 id := by
  have hclean : Clean s :=
    { indexed := by
        rw [hboot.triggers]
        exact indexed_empty
      forgotten := fun id hid => by
        rw [hboot.gone] at hid
        cases hid }
  exact (run_invariant_of_allowed (step K L) (fun s _ => Clean s)
    (fun _ _ _ h hop => h.next hop.1 hop.2) hclean hops).forgotten

end Runs

def plainCron : CronLibrary where
  isAlphanumeric := Char.isAlphanum
  upcoming _ := none

def booted : RunState where
  kernel := withClip
  cron := .new 100
  turns := ∅
  runningTasks := ∅
  gone := []

/-- An agent is killed behind its only turn. -/
def tidyKill : List RunOp :=
  [.kernel (.spawn (.named "coder".toList) none (smooth 10)), .sendMessage 10 0 true, .finishTurn 0,
    .kill 10 ⟨false, false⟩]

theorem run_forgets_coder :
    (10 : AgentId) ∈ (run (step plainKernel plainCron) booted tidyKill).1.gone ∧
    ∀ id ∈ (run (step plainKernel plainCron) booted tidyKill).1.gone,
      Forgotten (run (step plainKernel plainCron) booted tidyKill).1 id := by
  refine ⟨by decide +kernel, run_forgets plainKernel plainCron ⟨rfl, rfl⟩ tidyKill ?_⟩
  refine ⟨⟨⟨List.nodup_nil, nofun⟩, trivial⟩, ⟨trivial, trivial⟩, ⟨trivial, trivial⟩,
    ⟨trivial, ?_⟩, trivial⟩
  exact
    { children := by decide +kernel
      detached := by decide +kernel
      sessions := nofun
      canonical := by decide +kernel
      hands := by decide +kernel
      cron := by decide +kernel
      turns := by decide +kernel }

/-- A child is killed. -/
def killedChild : List RunOp :=
  [.kernel (.spawn (.named "lead".toList) none (smooth 10)),
    .kernel (.spawn (.named "aide".toList) (some 10) (smooth 20)), .kill 20 ⟨false, false⟩]

/-- The parent still lists it. -/
theorem killed_child_listed :
    (20 : AgentId) ∈ (run (step plainKernel plainCron) booted killedChild).1.gone ∧
      ¬ Forgotten (run (step plainKernel plainCron) booted killedChild).1 20 :=
  ⟨by decide +kernel, fun h => absurd h.kernel.children (by decide +kernel)⟩

end Clawreform.Kernel.Lifecycle
