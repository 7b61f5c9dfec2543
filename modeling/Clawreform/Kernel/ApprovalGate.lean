import Clawreform.Kernel.Approval
import Clawreform.Kernel.Spawning
import Clawreform.Lib.Trace

namespace Clawreform.Kernel.ApprovalGate

open Clawreform.Lib.Text Clawreform.Lib.Run Clawreform.Lib.Store Clawreform.Lib.Calls
open Clawreform.Lib.Trace Clawreform.Types Clawreform.Kernel.Spawning

section Code

structure ApprovalPolicy where
  requireApproval : List Str
  timeoutSecs : UInt64
  deriving DecidableEq

/-- A call of a tool: on whose behalf, with which list of allowed tools, whether the turn has a
kernel handle, and the id drawn for a request. -/
structure ToolUse where
  caller : Option AgentId
  toolName : Str
  allowedTools : Option (List Str)
  hasKernel : Bool
  requestId : Uuid
  deriving DecidableEq

/-- The tool calls that wait stand under the id of their request to the manager. -/
structure GateState where
  kernel : KernelState
  policy : ApprovalPolicy
  approvals : ApprovalSystem
  waiting : Map CallId ToolUse

def GateState.start (policy : ApprovalPolicy) : GateState :=
  ⟨.empty, policy, .start .new, ∅⟩

inductive GateEvent where
  | activated (agentId : AgentId)
  | asked (call : CallId) (req : ApprovalRequest) (toolName : Str)
  | returned (call : CallId) (decision : ApprovalDecision)
  | executed (call : CallId) (caller : Option AgentId) (toolName : Str) (required : Bool)
  | blocked (call : CallId) (content : Str)
  deriving DecidableEq

def requiresApproval (policy : ApprovalPolicy) (toolName : Str) : Bool :=
  policy.requireApproval.any (· = toolName)

def handTagged (tags : List Str) : Bool := tags.any ("hand:".toList.isPrefixOf ·)

/-- Whether the caller is registered with a hand's tag. -/
def autoApproved (s : KernelState) (caller : Option AgentId) : Bool :=
  (caller.bind s.agents.lookup).any fun entry => handTagged entry.tags

def callerText (caller : Option AgentId) : Str :=
  match caller with
  | none => "unknown".toList
  | some agentId => agentId.toStr

def permissionDenied (toolName : Str) : Str :=
  "Permission denied: agent does not have capability to use tool '".toList ++ toolName ++ ['\'']

def executionDenied (toolName : Str) : Str :=
  "Execution denied: '".toList ++ toolName ++
    "' requires human approval and was denied or timed out. The operation was not performed.".toList

def requestApproval (s : GateState) (call : CallId) (use : ToolUse) :
    GateState × List GateEvent :=
  if autoApproved s.kernel use.caller then
    (s, [.executed call use.caller use.toolName true])
  else
    let req : ApprovalRequest := ⟨use.requestId, callerText use.caller, s.policy.timeoutSecs⟩
    ({ s with
        approvals := (approval.step s.approvals (.call call (.requestApproval req))).1
        waiting := s.waiting.insert call use },
      [.asked call req use.toolName])

/-- A tool call up to its execution, or up to where it waits for a decision. -/
def executeTool (s : GateState) (call : CallId) (use : ToolUse) : GateState × List GateEvent :=
  if use.allowedTools.any (use.toolName ∉ ·) then
    (s, [.blocked call (permissionDenied use.toolName)])
  else if use.hasKernel && requiresApproval s.policy use.toolName then requestApproval s call use
  else (s, [.executed call use.caller use.toolName (requiresApproval s.policy use.toolName)])

/-- A tool call that waits goes on once its request has its decision. -/
def answered (s : GateState) (call : CallId) : GateState × List GateEvent :=
  match s.waiting.lookup call, s.approvals.calls.lookup call with
  | some use, some (.decided decision) =>
    let s := { s with waiting := s.waiting.erase call }
    if decision = .approved then (s, [.executed call use.caller use.toolName true])
    else (s, [.blocked call (executionDenied use.toolName)])
  | _, _ => (s, [])

inductive GateOp where
  | spawning (op : SpawnOp)
  | updatePolicy (policy : ApprovalPolicy)
  | manager (move : Move ApprovalCall DateTime)
  | executeTool (call : CallId) (use : ToolUse)
  | answered (call : CallId)
  | timedOut (call : CallId)

/-- The agent that a hand has got. -/
def activated (s : KernelState) : SpawnOp → List GateEvent
  | .activateHand _ _ _ _ draw =>
    if (s.agents.lookup draw.agentId).isSome then [.activated draw.agentId] else []
  | _ => []

/-- The decision a call of the manager has just returned with. -/
def returned (before after : ApprovalSystem) : Move ApprovalCall DateTime → List GateEvent
  | .call _ _ => []
  | .step call _ =>
    match after.calls.lookup call with
    | some (.decided decision) =>
      if before.calls.lookup call = some (.decided decision) then [] else [.returned call decision]
    | _ => []

variable (T : Texts)

/-- No call has an id twice, also not across a restart, which takes the waiting ones with it. -/
def gateStep (s : GateState) : GateOp → GateState × List GateEvent
  | .spawning .restart =>
    ({ s with
        kernel := (step T s.kernel .restart).1
        approvals := ⟨.new, s.approvals.calls⟩
        waiting := ∅ }, [])
  | .spawning op =>
    let kernel := (step T s.kernel op).1
    ({ s with kernel := kernel }, activated kernel op)
  | .updatePolicy policy => ({ s with policy := policy }, [])
  | .manager move =>
    let approvals := (approval.step s.approvals move).1
    ({ s with approvals := approvals }, returned s.approvals approvals move)
  | .executeTool call use =>
    if (s.approvals.calls.lookup call).isSome then (s, []) else executeTool s call use
  | .answered call => answered s call
  | .timedOut call => ({ s with waiting := s.waiting.erase call }, [])

end Code

section Tags

variable {T : Texts}

/-- The id and the manifest of the agent that an operation spawns, if it does. -/
def spawned (T : Texts) : SpawnOp → Option (AgentId × Manifest)
  | .spawn manifest draw => some (draw.agentId, manifest)
  | .toolAgentSpawn _ manifestToml draw =>
    (T.parse manifestToml).toOption.map (draw.agentId, ·)
  | .hostAgentSpawn _ manifestToml draw =>
    (T.parse manifestToml).toOption.map (draw.agentId, ·)
  | .activateHand handId instanceId name tools draw =>
    some (draw.agentId, handManifest handId instanceId name tools)
  | _ => none

/-- An agent has the tags it had, or those of the manifest it was just spawned from. -/
def TagsFrom (agents : Map AgentId Agent) (fresh : Option (AgentId × Manifest)) (id : AgentId)
    (tags : List Str) : Prop :=
  (∃ old, agents.lookup id = some old ∧ old.tags = tags) ∨
    ∃ manifest, fresh = some (id, manifest) ∧ manifest.tags = tags

theorem tagsFrom_adjust {agents : Map AgentId Agent} {f : Agent → Agent}
    (hf : ∀ a, (f a).tags = a.tags) (fresh : Option (AgentId × Manifest)) {k id : AgentId}
    {agent : Agent} (h : (adjust k f agents).lookup id = some agent) :
    TagsFrom agents fresh id agent.tags := by
  rw [lookup_adjust] at h
  by_cases hid : id = k
  · rw [if_pos hid] at h
    obtain ⟨old, hold, rfl⟩ := Option.map_eq_some_iff.mp h
    exact .inl ⟨old, hold, (hf old).symm⟩
  · rw [if_neg hid] at h
    exact .inl ⟨agent, h, rfl⟩

theorem tagsFrom_spawnAgentWithParent {s : KernelState} {manifest : Manifest}
    {parent : Option AgentId} {draw : Draw} {id : AgentId} {agent : Agent}
    (h : (spawnAgentWithParent s manifest parent draw).1.1.agents.lookup id = some agent) :
    TagsFrom s.agents (some (draw.agentId, manifest)) id agent.tags := by
  have hold : s.agents.lookup id = some agent →
      TagsFrom s.agents (some (draw.agentId, manifest)) id agent.tags :=
    fun h => .inl ⟨agent, h, rfl⟩
  have hinsert : ∀ {a : Agent}, (s.agents.insert draw.agentId
        ⟨manifest, manifest.tags, parent, []⟩).lookup id = some a →
      TagsFrom s.agents (some (draw.agentId, manifest)) id a.tags := by
    intro a ha
    rw [lookup_insert] at ha
    by_cases hid : id = draw.agentId
    · subst hid
      rw [if_pos rfl] at ha
      cases ha
      exact .inr ⟨manifest, rfl, rfl⟩
    · rw [if_neg hid] at ha
      exact .inl ⟨a, ha, rfl⟩
  have hchild : (addChild parent draw.agentId (s.agents.insert draw.agentId
        ⟨manifest, manifest.tags, parent, []⟩)).lookup id = some agent →
      TagsFrom s.agents (some (draw.agentId, manifest)) id agent.tags := by
    intro ha
    cases parent with
    | none => exact hinsert ha
    | some p =>
      obtain ⟨old, hlookup, htags⟩ | ⟨other, hother, htags⟩ :=
        tagsFrom_adjust (f := fun a => { a with children := a.children ++ [draw.agentId] })
          (fun _ => rfl) none ha
      · rw [← htags]
        exact hinsert hlookup
      · cases hother
  unfold spawnAgentWithParent at h
  split at h
  · exact hold h
  · split at h
    · exact hold h
    · dsimp only at h
      split at h
      · exact hold h
      · split at h <;> exact hchild h

theorem tagsFrom_spawnAgent {s : KernelState} {manifestToml : Str} {parentId : AgentId}
    {draw : Draw} {id : AgentId} {agent : Agent}
    (h : (spawnAgent T s manifestToml parentId draw).1.1.agents.lookup id = some agent) :
    TagsFrom s.agents ((T.parse manifestToml).toOption.map (draw.agentId, ·)) id agent.tags := by
  unfold spawnAgent at h
  split at h
  · exact .inl ⟨agent, h, rfl⟩
  · next manifest hparse =>
    rw [hparse]
    exact tagsFrom_spawnAgentWithParent h

/-- What the agents' tags are after an operation; a restart has none. -/
theorem tagsFrom_step {s : KernelState} {op : SpawnOp} (hop : op ≠ .restart) {id : AgentId}
    {agent : Agent} (h : (step T s op).1.agents.lookup id = some agent) :
    TagsFrom s.agents (spawned T op) id agent.tags := by
  have hold : s.agents.lookup id = some agent → TagsFrom s.agents (spawned T op) id agent.tags :=
    fun h => .inl ⟨agent, h, rfl⟩
  cases op with
  | spawn manifest draw => exact tagsFrom_spawnAgentWithParent h
  | toolAgentSpawn caller manifestToml draw => exact tagsFrom_spawnAgent h
  | executeWasmAgent agentId =>
    unfold step at h
    dsimp only at h
    split at h <;> exact hold h
  | hostAgentSpawn guest manifestToml draw =>
    change (hostAgentSpawn T s guest manifestToml draw).1.agents.lookup id = some agent at h
    unfold hostAgentSpawn at h
    split at h
    · dsimp only at h
      obtain ⟨e, he⟩ | ⟨manifest, -, -, he⟩ := spawnAgentChecked_cases (T := T) s manifestToml
        guest.agentId guest.capabilities draw
      · rw [he] at h
        exact hold h
      · rw [he] at h
        exact tagsFrom_spawnAgent h
    · exact hold h
  | guestDone guest => exact hold h
  | activateHand handId instanceId name tools draw => exact tagsFrom_spawnAgentWithParent h
  | kill agentId =>
    change (killAgent s agentId).agents.lookup id = some agent at h
    unfold killAgent at h
    split at h
    · change (s.agents.erase agentId).lookup id = some agent at h
      rw [lookup_erase] at h
      by_cases hid : id = agentId
      · rw [if_pos hid] at h
        cases h
      · rw [if_neg hid] at h
        exact hold h
    · exact hold h
  | rename agentId newName =>
    change (renameAgent s agentId newName).agents.lookup id = some agent at h
    unfold renameAgent at h
    split at h
    · exact hold h
    · exact tagsFrom_adjust (f := fun a => { a with manifest.name := newName }) (fun _ => rfl) _ h
  | save agentId =>
    change (saveAgent s agentId).agents.lookup id = some agent at h
    unfold saveAgent at h
    split at h <;> exact hold h
  | restart => exact absurd rfl hop

end Tags

section Gate

variable {T : Texts}

/-- A tool that requires approval was executed after the manager had approved the request of
that very call, or for the agent of a hand. -/
def Gated (past : List GateEvent) : GateEvent → Prop
  | .executed call caller toolName required => required = true →
    (∃ req, .asked call req toolName ∈ past ∧ req.agentId = callerText caller ∧
      .returned call .approved ∈ past) ∨
    ∃ agentId, caller = some agentId ∧ .activated agentId ∈ past
  | _ => True

/-- Only a hand brings a hand's tag, and a turn that calls a tool which requires approval has a
kernel handle. -/
def Trusted (T : Texts) (s : GateState) : GateOp → Prop
  | .spawning (.activateHand _ _ _ _ _) => True
  | .spawning op => ∀ id manifest, spawned T op = some (id, manifest) →
    handTagged manifest.tags = false
  | .executeTool _ use => requiresApproval s.policy use.toolName = true → use.hasKernel = true
  | _ => True

structure Inv (s : GateState) (past : List GateEvent) : Prop where
  tags : ∀ id agent, s.kernel.agents.lookup id = some agent → handTagged agent.tags = true →
    .activated id ∈ past
  waiting : ∀ call use, s.waiting.lookup call = some use →
    ∃ req, .asked call req use.toolName ∈ past ∧ req.agentId = callerText use.caller
  returned : ∀ call decision, s.approvals.calls.lookup call = some (.decided decision) →
    .returned call decision ∈ past

theorem inv_start (policy : ApprovalPolicy) : Inv (.start policy) [] := by
  refine ⟨?_, ?_, ?_⟩
  · intro id agent h
    cases h
  · intro call use h
    cases h
  · intro call decision h
    cases h

theorem Inv.more {s : GateState} {past : List GateEvent} (h : Inv s past) (more : List GateEvent) :
    Inv s (past ++ more) := by
  refine ⟨fun id agent hid htag => ?_, fun call use hcall => ?_, fun call decision hcall => ?_⟩
  · exact List.mem_append_left _ (h.tags id agent hid htag)
  · obtain ⟨req, hasked, hreq⟩ := h.waiting call use hcall
    exact ⟨req, List.mem_append_left _ hasked, hreq⟩
  · exact List.mem_append_left _ (h.returned call decision hcall)

theorem mem_activated {s : KernelState} {handId : Str} {instanceId : Uuid} {name : Str}
    {tools : List Str} {draw : Draw} {agent : Agent}
    (h : s.agents.lookup draw.agentId = some agent) :
    .activated draw.agentId ∈ activated s (.activateHand handId instanceId name tools draw) := by
  simp [activated, h]

theorem inv_spawning {s : GateState} {past : List GateEvent} (h : Inv s past) {op : SpawnOp}
    (hop : op ≠ .restart) (hok : Trusted T s (.spawning op)) :
    Inv { s with kernel := (step T s.kernel op).1 }
      (past ++ activated (step T s.kernel op).1 op) := by
  have hmore := h.more (activated (step T s.kernel op).1 op)
  refine ⟨fun id agent hid htag => ?_, hmore.waiting, hmore.returned⟩
  obtain ⟨old, hold, htags⟩ | ⟨manifest, hspawned, htags⟩ := tagsFrom_step hop hid
  · exact hmore.tags id old hold (htags ▸ htag)
  · cases op with
    | activateHand handId instanceId name tools draw =>
      obtain rfl : draw.agentId = id := by
        cases hspawned
        rfl
      exact List.mem_append_right _ (mem_activated hid)
    | _ =>
      have hfree := hok id manifest hspawned
      rw [htags, htag] at hfree
      cases hfree

theorem inv_restart {s : GateState} {past : List GateEvent} (h : Inv s past) :
    Inv (gateStep T s (.spawning .restart)).1 past := by
  refine ⟨fun id agent hid htag => ?_, fun call use hcall => ?_, h.returned⟩
  · obtain ⟨-, htags, -⟩ := (restoring_boot (T := T) s.kernel.saved).agents id agent hid
    rw [htags] at htag
    cases htag
  · cases hcall

/-- The manager's calls end in a decision one at a time, each with its event. -/
theorem inv_manager {s : GateState} {past : List GateEvent} (h : Inv s past)
    (move : Move ApprovalCall DateTime) :
    Inv (gateStep T s (.manager move)).1 (past ++ (gateStep T s (.manager move)).2) := by
  have hmore := h.more (gateStep T s (.manager move)).2
  refine ⟨hmore.tags, hmore.waiting, fun call decision hcall => ?_⟩
  change (approval.step s.approvals move).1.calls.lookup call = some (.decided decision) at hcall
  cases move with
  | call id input =>
    by_cases hid : call = id
    · subst hid
      simp only [Machine.step] at hcall
      split at hcall
      · rw [AList.lookup_insert] at hcall
        cases input <;> cases hcall
      · exact hmore.returned call decision hcall
    · have hother : s.approvals.calls.lookup call = some (.decided decision) := by
        simp only [Machine.step] at hcall
        split at hcall
        · rwa [lookup_insert, if_neg hid] at hcall
        · exact hcall
      exact hmore.returned call decision hother
  | step id now =>
    by_cases hid : call = id
    · subst hid
      by_cases hbefore : s.approvals.calls.lookup call = some (.decided decision)
      · exact hmore.returned call decision hbefore
      · refine List.mem_append_right _ ?_
        show _ ∈ returned s.approvals _ (.step call now)
        simp only [returned, hcall]
        rw [if_neg hbefore]
        exact List.mem_cons_self
    · have hother : s.approvals.calls.lookup call = some (.decided decision) := by
        simp only [Machine.step] at hcall
        split at hcall
        · exact hcall
        · rwa [lookup_insert, if_neg hid] at hcall
      exact hmore.returned call decision hother

theorem autoApproved_iff {s : KernelState} {caller : Option AgentId} :
    autoApproved s caller = true ↔ ∃ agentId agent, caller = some agentId ∧
      s.agents.lookup agentId = some agent ∧ handTagged agent.tags = true := by
  cases caller with
  | none => simp [autoApproved]
  | some agentId => cases h : s.agents.lookup agentId <;> simp [autoApproved, h]

/-- One step keeps the invariant, and what it executes is gated. -/
def Keeps (s : GateState) (past : List GateEvent) (p : GateState × List GateEvent) : Prop :=
  Inv s past → Inv p.1 (past ++ p.2) ∧ (Always Gated past → Always Gated (past ++ p.2))

theorem keeps_executed {s : GateState} {past : List GateEvent} {e : GateEvent}
    (he : Inv s past → Gated past e) : Keeps s past (s, [e]) := by
  intro h
  exact ⟨h.more [e], fun halways => always_concat.mpr ⟨halways, he h⟩⟩

theorem keeps_requestApproval {s : GateState} {past : List GateEvent} {call : CallId}
    (hcall : s.approvals.calls.lookup call = none) (use : ToolUse) :
    Keeps s past (requestApproval s call use) := by
  unfold requestApproval
  split
  · next hauto =>
    refine keeps_executed fun h _ => .inr ?_
    obtain ⟨agentId, agent, hcaller, hagent, htag⟩ := autoApproved_iff.mp hauto
    exact ⟨agentId, hcaller, h.tags agentId agent hagent htag⟩
  · intro h
    refine ⟨⟨(h.more _).tags, fun c waiting hc => ?_, fun c decision hc => ?_⟩,
      fun halways => always_concat.mpr ⟨halways, trivial⟩⟩
    · change (s.waiting.insert call use).lookup c = some waiting at hc
      rw [lookup_insert] at hc
      by_cases he : c = call
      · rw [if_pos he] at hc
        cases hc
        subst he
        exact ⟨_, List.mem_append_right _ List.mem_cons_self, rfl⟩
      · rw [if_neg he] at hc
        exact (h.more _).waiting c waiting hc
    · simp only [Machine.step, hcall] at hc
      rw [lookup_insert] at hc
      by_cases he : c = call
      · rw [if_pos he] at hc
        cases hc
      · rw [if_neg he] at hc
        exact (h.more _).returned c decision hc

theorem keeps_executeTool {s : GateState} {past : List GateEvent} {call : CallId} {use : ToolUse}
    (hcall : s.approvals.calls.lookup call = none)
    (hok : requiresApproval s.policy use.toolName = true → use.hasKernel = true) :
    Keeps s past (executeTool s call use) := by
  unfold executeTool
  split
  · exact keeps_executed fun _ => trivial
  · split
    · exact keeps_requestApproval hcall use
    · next hgate =>
      refine keeps_executed fun _ hrequired => ?_
      exact absurd (Bool.and_eq_true_iff.mpr ⟨hok hrequired, hrequired⟩) hgate

theorem Inv.erase_waiting {s : GateState} {past : List GateEvent} (h : Inv s past)
    (call : CallId) : Inv { s with waiting := s.waiting.erase call } past := by
  refine ⟨h.tags, fun c use hc => ?_, h.returned⟩
  change (s.waiting.erase call).lookup c = some use at hc
  rw [lookup_erase] at hc
  by_cases he : c = call
  · rw [if_pos he] at hc
    cases hc
  · rw [if_neg he] at hc
    exact h.waiting c use hc

theorem keeps_answered (s : GateState) (past : List GateEvent) (call : CallId) :
    Keeps s past (answered s call) := by
  intro h
  unfold answered
  split
  · next use decision huse hdecision =>
    have hreturned := h.returned call decision hdecision
    dsimp only
    split
    · next hd =>
      subst hd
      refine ⟨(h.erase_waiting call).more _,
        fun halways => always_concat.mpr ⟨halways, fun _ => ?_⟩⟩
      obtain ⟨req, hasked, hreq⟩ := h.waiting call use huse
      exact .inl ⟨req, hasked, hreq, hreturned⟩
    · exact ⟨(h.erase_waiting call).more _, fun halways => always_concat.mpr ⟨halways, trivial⟩⟩
  · exact ⟨h.more [], fun halways => by rwa [List.append_nil]⟩

theorem quiet_activated (s : KernelState) (op : SpawnOp) :
    ∀ e ∈ activated s op, ∀ past, Gated past e := by
  intro e he past
  unfold activated at he
  split at he
  · split at he
    · rw [List.mem_singleton.mp he]
      trivial
    · cases he
  · cases he

theorem quiet_returned (before after : ApprovalSystem) (move : Move ApprovalCall DateTime) :
    ∀ e ∈ returned before after move, ∀ past, Gated past e := by
  intro e he past
  unfold returned at he
  split at he
  · cases he
  · split at he
    · split at he
      · cases he
      · rw [List.mem_singleton.mp he]
        trivial
    · cases he

theorem gateStep_spawning {s : GateState} {op : SpawnOp} (hop : op ≠ .restart) :
    gateStep T s (.spawning op) = ({ s with kernel := (step T s.kernel op).1 },
      activated (step T s.kernel op).1 op) := by
  cases op with
  | restart => exact absurd rfl hop
  | _ => rfl

theorem keeps_gateStep {s : GateState} {op : GateOp} (past : List GateEvent)
    (hok : Trusted T s op) : Keeps s past (gateStep T s op) := by
  intro h
  cases op with
  | spawning op =>
    by_cases hop : op = .restart
    · subst hop
      refine ⟨?_, fun halways => ?_⟩
      · rw [show (gateStep T s (.spawning .restart)).2 = [] from rfl, List.append_nil]
        exact inv_restart h
      · exact halways.append nofun
    · rw [gateStep_spawning hop]
      exact ⟨inv_spawning h hop hok, fun halways => halways.append (quiet_activated _ op)⟩
  | updatePolicy policy =>
    have hmore := h.more []
    exact ⟨⟨hmore.tags, hmore.waiting, hmore.returned⟩, fun halways => halways.append nofun⟩
  | manager move =>
    exact ⟨inv_manager (T := T) h move, fun halways => halways.append (quiet_returned _ _ move)⟩
  | executeTool call use =>
    cases hcall : s.approvals.calls.lookup call with
    | none =>
      simp only [gateStep, hcall, Option.isSome_none, Bool.false_eq_true, if_false]
      exact keeps_executeTool hcall hok h
    | some phase =>
      simp only [gateStep, hcall, Option.isSome_some, if_true]
      exact ⟨h.more [], fun halways => halways.append nofun⟩
  | answered call => exact keeps_answered s past call h
  | timedOut call =>
    exact ⟨(h.erase_waiting call).more [], fun halways => halways.append nofun⟩

/-- Tools that require approval run with an approval or for a hand, in every run that only
hands bring their tags into. -/
theorem executions_gated {policy : ApprovalPolicy} {ops : List GateOp}
    (h : Allowed (gateStep T) (Trusted T) (.start policy) ops) :
    Always Gated (run (gateStep T) (.start policy) ops).2 := by
  refine (run_invariant_of_allowed (gateStep T) (fun s past => Inv s past ∧ Always Gated past) ?_
    ⟨inv_start policy, always_nil⟩ h).2
  rintro s past op ⟨hinv, halways⟩ hok
  obtain ⟨hinv', hgated⟩ := keeps_gateStep past hok hinv
  exact ⟨hinv', hgated halways⟩

end Gate

section Runs

private def texts : Texts := ⟨fun _ => .error [], fun _ => [], id⟩

private def shellPolicy : ApprovalPolicy := ⟨["shell_exec".toList], 60⟩

private def shellManifest (tags : List Str) : Manifest :=
  ⟨"worker".toList, none,
    { ManifestCapabilities.default with tools := ["shell_exec".toList] }, tags⟩

private def shellUse (agentId : AgentId) : ToolUse :=
  ⟨some agentId, "shell_exec".toList, some ["shell_exec".toList], true, 7⟩

private def drawn (agentId : AgentId) : Draw := ⟨agentId, none, none, none⟩

/-- A hand runs a command, and an agent does after its request was approved. -/
private def approvedOps : List GateOp :=
  [.spawning (.activateHand "clip".toList 3 "clip-hand".toList ["shell_exec".toList] (drawn 1)),
    .spawning (.spawn (shellManifest []) (drawn 2)), .executeTool 0 (shellUse 1),
    .executeTool 1 (shellUse 2), .manager (.step 1 0), .manager (.step 1 0),
    .manager (.call 2 (.resolve 7 .approved none)), .manager (.step 2 0), .manager (.step 2 0),
    .manager (.step 1 0), .answered 1]

theorem executions_gated_approved :
    (.executed 1 (some 2) "shell_exec".toList true ∈
      (run (gateStep texts) (.start shellPolicy) approvedOps).2) ∧
    Always Gated (run (gateStep texts) (.start shellPolicy) approvedOps).2 := by
  refine ⟨by decide, executions_gated ?_⟩
  refine ⟨trivial, fun id manifest h => ?_, fun _ => rfl, fun _ => rfl, trivial, trivial, trivial,
    trivial, trivial, trivial, trivial, trivial⟩
  cases h
  rfl

/-- Anyone's manifest may carry the tag that lets an agent run a command unasked. -/
theorem tagged_manifest_unasked :
    ¬ Always Gated (run (gateStep texts) (.start shellPolicy)
      [.spawning (.spawn (shellManifest ["hand:clip".toList]) (drawn 1)),
        .executeTool 0 (shellUse 1)]).2 := by
  intro h
  obtain ⟨req, hasked, -⟩ | ⟨agentId, -, hactivated⟩ :=
    h [] (.executed 0 (some 1) "shell_exec".toList true) [] (by decide) rfl
  · cases hasked
  · cases hactivated

end Runs

end Clawreform.Kernel.ApprovalGate
