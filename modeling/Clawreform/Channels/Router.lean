import Clawreform.Lib.Run
import Clawreform.Lib.Store
import Clawreform.Types.Agent
import Mathlib.Data.List.Sort

namespace Clawreform.Channels

open Clawreform.Lib.Text Clawreform.Lib.Run Clawreform.Lib.Store Clawreform.Types

inductive ChannelType where
  | telegram
  | whatsApp
  | slack
  | discord
  | signal
  | matrix
  | email
  | teams
  | mattermost
  | webChat
  | cli
  | custom (name : Str)
  deriving DecidableEq

structure BindingMatchRule where
  channel : Option Str
  accountId : Option Str
  peerId : Option Str
  guildId : Option Str
  roles : List Str
  deriving DecidableEq

structure AgentBinding where
  agent : Str
  matchRule : BindingMatchRule
  deriving DecidableEq

inductive BroadcastStrategy where
  | parallel
  | sequential
  deriving DecidableEq

structure BroadcastConfig where
  strategy : BroadcastStrategy
  routes : Map Str (List Str)
  deriving DecidableEq

structure BindingContext where
  channel : Str
  accountId : Option Str
  peerId : Str
  guildId : Option Str
  roles : List Str
  deriving DecidableEq

structure AgentRouter where
  userDefaults : Map Str AgentId
  directRoutes : Map (Str × Str) AgentId
  defaultAgent : Option AgentId
  bindings : List (AgentBinding × Str)
  broadcast : BroadcastConfig
  agentNameCache : Map Str AgentId
  deriving DecidableEq

def BindingMatchRule.specificity (rule : BindingMatchRule) : Nat :=
  (if rule.peerId.isSome then 8 else 0) + (if rule.guildId.isSome then 4 else 0) +
    (if rule.roles.isEmpty then 0 else 2) + (if rule.accountId.isSome then 2 else 0) +
    (if rule.channel.isSome then 1 else 0)

def channelTypeToStr : ChannelType → Str
  | .telegram => "telegram".toList
  | .discord => "discord".toList
  | .slack => "slack".toList
  | .whatsApp => "whatsapp".toList
  | .signal => "signal".toList
  | .matrix => "matrix".toList
  | .email => "email".toList
  | .teams => "teams".toList
  | .mattermost => "mattermost".toList
  | .webChat => "webchat".toList
  | .cli => "cli".toList
  | .custom s => s

/-- The derived debug text, given the debug text of a string. -/
def channelKey (debugStr : Str → Str) : ChannelType → Str
  | .telegram => "Telegram".toList
  | .whatsApp => "WhatsApp".toList
  | .slack => "Slack".toList
  | .discord => "Discord".toList
  | .signal => "Signal".toList
  | .matrix => "Matrix".toList
  | .email => "Email".toList
  | .teams => "Teams".toList
  | .mattermost => "Mattermost".toList
  | .webChat => "WebChat".toList
  | .cli => "CLI".toList
  | .custom s => "Custom(".toList ++ debugStr s ++ ")".toList

namespace AgentRouter

def new : AgentRouter where
  userDefaults := ∅
  directRoutes := ∅
  defaultAgent := none
  bindings := []
  broadcast := ⟨.parallel, ∅⟩
  agentNameCache := ∅

section Updates

variable (r : AgentRouter)

def setDefault (agentId : AgentId) : AgentRouter := { r with defaultAgent := some agentId }

def setUserDefault (userKey : Str) (agentId : AgentId) : AgentRouter :=
  { r with userDefaults := r.userDefaults.insert userKey agentId }

def setDirectRoute (channelKey platformUserId : Str) (agentId : AgentId) : AgentRouter :=
  { r with directRoutes := r.directRoutes.insert (channelKey, platformUserId) agentId }

def MoreSpecific (a b : AgentBinding × Str) : Prop :=
  b.1.matchRule.specificity ≤ a.1.matchRule.specificity

instance : DecidableRel MoreSpecific := fun _ _ => Nat.decLe _ _

/-- A stable sort. -/
def sortBindings (bindings : List (AgentBinding × Str)) : List (AgentBinding × Str) :=
  bindings.insertionSort MoreSpecific

def loadBindings (bindings : List AgentBinding) : AgentRouter :=
  { r with bindings := sortBindings (bindings.map fun b => (b, b.agent)) }

def loadBroadcast (broadcast : BroadcastConfig) : AgentRouter := { r with broadcast := broadcast }

def registerAgent (name : Str) (id : AgentId) : AgentRouter :=
  { r with agentNameCache := r.agentNameCache.insert name id }

def addBinding (binding : AgentBinding) : AgentRouter :=
  { r with bindings := sortBindings (r.bindings ++ [(binding, binding.agent)]) }

def removeBinding (index : Nat) : AgentRouter × Option AgentBinding :=
  match r.bindings[index]? with
  | some binding => ({ r with bindings := r.bindings.eraseIdx index }, some binding.1)
  | none => (r, none)

end Updates

section Resolution

def bindingMatches (binding : AgentBinding) (ctx : BindingContext) : Bool :=
  let rule := binding.matchRule
  (rule.channel.all (· = ctx.channel)) && (rule.accountId.all (ctx.accountId = some ·)) &&
    (rule.peerId.all (· = ctx.peerId)) && (rule.guildId.all (ctx.guildId = some ·)) &&
    (rule.roles.isEmpty || rule.roles.any (ctx.roles.contains ·))

/-- A binding of an agent that is not known is passed over. -/
def resolveBindingIn (cache : Map Str AgentId) (ctx : BindingContext) :
    List (AgentBinding × Str) → Option AgentId
  | [] => none
  | (binding, _) :: bindings =>
    if bindingMatches binding ctx then
      match cache.lookup binding.agent with
      | some id => some id
      | none => resolveBindingIn cache ctx bindings
    else resolveBindingIn cache ctx bindings

def resolveBinding (r : AgentRouter) (ctx : BindingContext) : Option AgentId :=
  resolveBindingIn r.agentNameCache ctx r.bindings

variable (debugStr : Str → Str)

def channelContext (channelType : ChannelType) (platformUserId : Str) : BindingContext where
  channel := channelTypeToStr channelType
  accountId := none
  peerId := platformUserId
  guildId := none
  roles := []

def resolve (r : AgentRouter) (channelType : ChannelType) (platformUserId : Str)
    (userKey : Option Str) : Option AgentId :=
  match r.resolveBinding (channelContext channelType platformUserId) with
  | some agentId => some agentId
  | none =>
    match r.directRoutes.lookup (channelKey debugStr channelType, platformUserId) with
    | some agent => some agent
    | none =>
      match userKey.bind r.userDefaults.lookup with
      | some agent => some agent
      | none =>
        match r.userDefaults.lookup platformUserId with
        | some agent => some agent
        | none => r.defaultAgent

def resolveWithContext (r : AgentRouter) (channelType : ChannelType) (platformUserId : Str)
    (userKey : Option Str) (ctx : BindingContext) : Option AgentId :=
  match r.resolveBinding ctx with
  | some agentId => some agentId
  | none =>
    match r.directRoutes.lookup (channelKey debugStr channelType, platformUserId) with
    | some agent => some agent
    | none =>
      match userKey.bind r.userDefaults.lookup with
      | some agent => some agent
      | none =>
        match r.userDefaults.lookup platformUserId with
        | some agent => some agent
        | none => r.defaultAgent

def resolveBroadcast (r : AgentRouter) (peerId : Str) : List (Str × Option AgentId) :=
  match r.broadcast.routes.lookup peerId with
  | some agentNames => agentNames.map fun name => (name, r.agentNameCache.lookup name)
  | none => []

def broadcastStrategy (r : AgentRouter) : BroadcastStrategy := r.broadcast.strategy

def hasBroadcast (r : AgentRouter) (peerId : Str) : Bool := peerId ∈ r.broadcast.routes

end Resolution

section Specificity

/-- A binding that matches and whose agent is known. -/
def Eligible (r : AgentRouter) (ctx : BindingContext) (b : AgentBinding) : Prop :=
  (∃ name, (b, name) ∈ r.bindings) ∧ bindingMatches b ctx ∧ b.agent ∈ r.agentNameCache

def MostSpecific (r : AgentRouter) (ctx : BindingContext) (b : AgentBinding) : Prop :=
  r.Eligible ctx b ∧
    ∀ c, r.Eligible ctx c → c.matchRule.specificity ≤ b.matchRule.specificity

def Sorted (r : AgentRouter) : Prop := r.bindings.Pairwise MoreSpecific

variable {r : AgentRouter} {cache : Map Str AgentId} {ctx : BindingContext}
  {bindings : List (AgentBinding × Str)}

instance : IsTrans (AgentBinding × Str) MoreSpecific := ⟨fun _ _ _ hab hbc => Nat.le_trans hbc hab⟩

instance : Std.Total (α := AgentBinding × Str) MoreSpecific := ⟨fun _ _ => Nat.le_total _ _⟩

theorem sorted_sortBindings (bindings : List (AgentBinding × Str)) :
    (sortBindings bindings).Pairwise MoreSpecific :=
  List.pairwise_insertionSort MoreSpecific bindings

theorem resolveBindingIn_none (h : resolveBindingIn cache ctx bindings = none) :
    ∀ b ∈ bindings, bindingMatches b.1 ctx → b.1.agent ∉ cache := by
  induction bindings with
  | nil => simp
  | cons b bindings ih =>
    simp only [resolveBindingIn] at h
    rw [List.forall_mem_cons]
    split at h
    · split at h
      · cases h
      · rename_i hnone
        exact ⟨fun _ => AList.lookup_eq_none.mp hnone, ih h⟩
    · rename_i hmatch
      exact ⟨fun hb => absurd hb hmatch, ih h⟩

/-- In a sorted list the first binding that will do is a most specific one. -/
theorem resolveBindingIn_some {agentId : AgentId} (hsorted : bindings.Pairwise MoreSpecific)
    (h : resolveBindingIn cache ctx bindings = some agentId) :
    ∃ b ∈ bindings, bindingMatches b.1 ctx ∧ cache.lookup b.1.agent = some agentId ∧
      ∀ c ∈ bindings, bindingMatches c.1 ctx → c.1.agent ∈ cache → MoreSpecific b c := by
  induction bindings with
  | nil => cases h
  | cons b bindings ih =>
    obtain ⟨hb, hrest⟩ := List.pairwise_cons.mp hsorted
    have hskip : ¬ (bindingMatches b.1 ctx ∧ b.1.agent ∈ cache) →
        resolveBindingIn cache ctx bindings = some agentId →
        ∃ d ∈ b :: bindings, bindingMatches d.1 ctx ∧ cache.lookup d.1.agent = some agentId ∧
          ∀ c ∈ b :: bindings, bindingMatches c.1 ctx → c.1.agent ∈ cache → MoreSpecific d c := by
      intro hnot hfound
      obtain ⟨d, hd, hmatch, hknown, hmost⟩ := ih hrest hfound
      refine ⟨d, List.mem_cons_of_mem _ hd, hmatch, hknown, ?_⟩
      rw [List.forall_mem_cons]
      exact ⟨fun hm hk => absurd ⟨hm, hk⟩ hnot, hmost⟩
    simp only [resolveBindingIn] at h
    split at h
    · rename_i hmatch
      split at h
      · rename_i id hknown
        cases h
        refine ⟨b, List.mem_cons_self, hmatch, hknown, ?_⟩
        rw [List.forall_mem_cons]
        exact ⟨fun _ _ => Nat.le_refl _, fun c hc _ _ => hb c hc⟩
      · rename_i hnone
        exact hskip (fun hboth => AList.lookup_eq_none.mp hnone hboth.2) h
    · rename_i hmatch
      exact hskip (fun hboth => hmatch hboth.1) h

theorem resolveBinding_none (h : r.resolveBinding ctx = none) (b : AgentBinding) :
    ¬ r.Eligible ctx b := by
  rintro ⟨⟨name, hmem⟩, hmatch, hknown⟩
  exact resolveBindingIn_none h (b, name) hmem hmatch hknown

theorem resolveBinding_some {agentId : AgentId} (hsorted : r.Sorted)
    (h : r.resolveBinding ctx = some agentId) :
    ∃ b, r.MostSpecific ctx b ∧ r.agentNameCache.lookup b.agent = some agentId := by
  obtain ⟨⟨b, name⟩, hmem, hmatch, hknown, hmost⟩ := resolveBindingIn_some hsorted h
  have hcached : b.agent ∈ r.agentNameCache :=
    AList.lookup_isSome.mp (Option.isSome_iff_exists.mpr ⟨agentId, hknown⟩)
  refine ⟨b, ⟨⟨⟨name, hmem⟩, hmatch, hcached⟩, ?_⟩, hknown⟩
  rintro c ⟨⟨other, hc⟩, hcmatch, hcknown⟩
  exact hmost (c, other) hc hcmatch hcknown

end Specificity

section Runs

inductive RouterOp where
  | loadBindings (bindings : List AgentBinding)
  | addBinding (binding : AgentBinding)
  | removeBinding (index : Nat)
  | setDefault (agentId : AgentId)
  | setUserDefault (userKey : Str) (agentId : AgentId)
  | setDirectRoute (channelKey platformUserId : Str) (agentId : AgentId)
  | registerAgent (name : Str) (id : AgentId)
  | loadBroadcast (broadcast : BroadcastConfig)

/-- Only a removed binding is handed back. -/
def step (r : AgentRouter) : RouterOp → AgentRouter × List AgentBinding
  | .loadBindings bindings => (r.loadBindings bindings, [])
  | .addBinding binding => (r.addBinding binding, [])
  | .removeBinding index => ((r.removeBinding index).1, (r.removeBinding index).2.toList)
  | .setDefault agentId => (r.setDefault agentId, [])
  | .setUserDefault userKey agentId => (r.setUserDefault userKey agentId, [])
  | .setDirectRoute channelKey platformUserId agentId =>
    (r.setDirectRoute channelKey platformUserId agentId, [])
  | .registerAgent name id => (r.registerAgent name id, [])
  | .loadBroadcast broadcast => (r.loadBroadcast broadcast, [])

def after (ops : List RouterOp) : AgentRouter := (run step new ops).1

theorem sorted_step {r : AgentRouter} (h : r.Sorted) (op : RouterOp) : (r.step op).1.Sorted := by
  cases op with
  | loadBindings bindings => exact sorted_sortBindings _
  | addBinding binding => exact sorted_sortBindings _
  | removeBinding index =>
    simp only [step, removeBinding]
    split
    · exact h.sublist (List.eraseIdx_sublist r.bindings index)
    · exact h
  | setDefault | setUserDefault | setDirectRoute | registerAgent | loadBroadcast => exact h

theorem sorted_new : new.Sorted := List.Pairwise.nil

theorem sorted_after (ops : List RouterOp) : (after ops).Sorted :=
  run_invariant_of_allowed step (fun r _ => r.Sorted) (fun _ _ op h _ => sorted_step h op)
    sorted_new (allowed_of_forall step fun _ _ => trivial)

variable (debugStr : Str → Str)

/-- Where a message goes after any updates: to the agent of a most specific binding that
matches and is known, else by the direct route, the defaults of its user and the
default of the system. -/
theorem after_resolves (ops : List RouterOp) :
    (after ops).Sorted ∧
    (∀ channelType platformUserId userKey ctx,
      (∃ b, (after ops).MostSpecific ctx b ∧
        (after ops).resolveWithContext debugStr channelType platformUserId userKey ctx =
          (after ops).agentNameCache.lookup b.agent) ∨
      (∀ b, ¬ (after ops).Eligible ctx b) ∧
        (after ops).resolveWithContext debugStr channelType platformUserId userKey ctx =
          ((after ops).directRoutes.lookup (channelKey debugStr channelType, platformUserId)).or
            ((userKey.bind (after ops).userDefaults.lookup).or
              (((after ops).userDefaults.lookup platformUserId).or (after ops).defaultAgent))) ∧
    ∀ channelType platformUserId userKey,
      (after ops).resolve debugStr channelType platformUserId userKey =
        (after ops).resolveWithContext debugStr channelType platformUserId userKey
          (channelContext channelType platformUserId) := by
  refine ⟨sorted_after ops, fun channelType platformUserId userKey ctx => ?_, fun _ _ _ => rfl⟩
  cases hbinding : (after ops).resolveBinding ctx with
  | some agentId =>
    obtain ⟨b, hmost, hlookup⟩ := resolveBinding_some (sorted_after ops) hbinding
    refine .inl ⟨b, hmost, ?_⟩
    rw [resolveWithContext, hbinding, hlookup]
  | none =>
    refine .inr ⟨resolveBinding_none hbinding, ?_⟩
    rw [resolveWithContext, hbinding]
    cases (after ops).directRoutes.lookup (channelKey debugStr channelType, platformUserId) with
    | some agent => rfl
    | none =>
      cases userKey.bind (after ops).userDefaults.lookup with
      | some agent => rfl
      | none => cases (after ops).userDefaults.lookup platformUserId <;> rfl

end Runs

section Start

/-- How a bridge sets its router up, given how an agent is found or spawned by its name:
the first channel with a default agent sets the default of the system. -/
def start (findOrSpawn : Str → Option AgentId) (adapters : List (ChannelType × Option Str))
    (registry : List (Str × AgentId)) (bindings : List AgentBinding) (broadcast : BroadcastConfig) :
    AgentRouter :=
  let router :=
    match (adapters.findSome? (·.2)).bind findOrSpawn with
    | some agentId => new.setDefault agentId
    | none => new
  let router :=
    if bindings.isEmpty then router
    else (registry.foldl (fun r entry => r.registerAgent entry.1 entry.2) router).loadBindings
      bindings
  router.loadBroadcast broadcast

/-- The default agent that a channel is configured with. -/
def channelDefault (findOrSpawn : Str → Option AgentId)
    (adapters : List (ChannelType × Option Str)) (channelType : ChannelType) : Option AgentId :=
  ((adapters.find? (·.1 = channelType)).bind (·.2)).bind findOrSpawn

/-- Two channels with default agents of their own. -/
def exampleAdapters : List (ChannelType × Option Str) :=
  [(.telegram, some "coder".toList), (.discord, some "assistant".toList)]

def exampleAgents : Str → Option AgentId := fun name =>
  if name = "coder".toList then some 1 else if name = "assistant".toList then some 2 else none

def exampleRouter : AgentRouter := start exampleAgents exampleAdapters [] [] ⟨.parallel, ∅⟩

/-- A message on the second channel, that nothing else routes, goes to the default agent
of the first. -/
theorem channel_default_not_used :
    exampleRouter.bindings = [] ∧ exampleRouter.directRoutes = ∅ ∧
      exampleRouter.userDefaults = ∅ ∧
      channelDefault exampleAgents exampleAdapters .discord = some 2 ∧
      exampleRouter.resolveWithContext id .discord "user".toList none
        (channelContext .discord "user".toList) = some 1 :=
  ⟨rfl, rfl, rfl, by decide, by decide⟩

end Start

end AgentRouter

end Clawreform.Channels
