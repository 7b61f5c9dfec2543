import Clawreform.Channels.Router
import Clawreform.Lib.Dialogue

namespace Clawreform.Channels

open Clawreform.Lib Clawreform.Lib.Text Clawreform.Lib.Store Clawreform.Lib.Trace
open Clawreform.Types

structure ChannelUser where
  platformId : Str
  displayName : Str
  clawreformUser : Option Str
  deriving DecidableEq

/-- Contents of other kinds are turned away, whatever they carry. -/
inductive ChannelContent where
  | text (text : Str)
  | command (name : Str) (args : List Str)
  | other
  deriving DecidableEq

structure ChannelMessage where
  channel : ChannelType
  sender : ChannelUser
  content : ChannelContent
  isGroup : Bool
  threadId : Option Str
  deriving DecidableEq

inductive DmPolicy where
  | respond
  | allowedOnly
  | ignore
  deriving DecidableEq

inductive GroupPolicy where
  | all
  | mentionOnly
  | commandsOnly
  | ignore
  deriving DecidableEq

inductive OutputFormat where
  | markdown
  | telegramHtml
  | slackMrkdwn
  | plainText
  deriving DecidableEq

structure ChannelOverrides where
  dmPolicy : DmPolicy
  groupPolicy : GroupPolicy
  rateLimitPerUser : Nat
  threading : Bool
  outputFormat : Option OutputFormat
  deriving DecidableEq

/-- The operations of the kernel that a bridge calls, and those of its adapter. -/
inductive BridgeCall where
  | sendMessage (agentId : AgentId) (message : Str)
  | findAgentByName (name : Str)
  | listAgents
  | spawnAgentByName (manifestName : Str)
  | uptimeInfo
  | listModelsText
  | listProvidersText
  | resetSession (agentId : AgentId)
  | compactSession (agentId : AgentId)
  | setModel (agentId : AgentId) (model : Str)
  | stopRun (agentId : AgentId)
  | sessionUsage (agentId : AgentId)
  | setThinking (agentId : AgentId) (on : Bool)
  | listSkillsText
  | listHandsText
  | authorizeChannelUser (channelType platformId action : Str)
  | channelOverrides (channelType : Str)
  | recordDelivery (agentId : AgentId) (channel recipient : Str) (success : Bool)
      (error : Option Str)
  | checkAutoReply (agentId : AgentId) (message : Str)
  | listWorkflowsText
  | runWorkflowText (name input : Str)
  | listTriggersText
  | createTriggerText (agentName pattern prompt : Str)
  | deleteTriggerText (idPrefix : Str)
  | listSchedulesText
  | manageScheduleText (action : Str) (args : List Str)
  | listApprovalsText
  | resolveApprovalText (idPrefix : Str) (approve : Bool)
  | budgetText
  | peersText
  | a2aAgentsText
  | adapterSend (user : ChannelUser) (text : Str)
  | adapterSendInThread (user : ChannelUser) (text threadId : Str)
  | adapterSendTyping (user : ChannelUser)
  deriving DecidableEq

def BridgeCall.Answer : BridgeCall → Type
  | .sendMessage _ _ => Except Str Str
  | .findAgentByName _ => Except Str (Option AgentId)
  | .listAgents => Except Str (List (AgentId × Str))
  | .spawnAgentByName _ => Except Str AgentId
  | .resetSession _ => Except Str Str
  | .compactSession _ => Except Str Str
  | .setModel _ _ => Except Str Str
  | .stopRun _ => Except Str Str
  | .sessionUsage _ => Except Str Str
  | .setThinking _ _ => Except Str Str
  | .authorizeChannelUser _ _ _ => Except Str Unit
  | .channelOverrides _ => Option ChannelOverrides
  | .recordDelivery _ _ _ _ _ => Unit
  | .checkAutoReply _ _ => Option Str
  | .adapterSend _ _ => Unit
  | .adapterSendInThread _ _ _ => Unit
  | .adapterSendTyping _ => Unit
  | .uptimeInfo => Str
  | .listModelsText => Str
  | .listProvidersText => Str
  | .listSkillsText => Str
  | .listHandsText => Str
  | .listWorkflowsText => Str
  | .runWorkflowText _ _ => Str
  | .listTriggersText => Str
  | .createTriggerText _ _ _ => Str
  | .deleteTriggerText _ => Str
  | .listSchedulesText => Str
  | .manageScheduleText _ _ => Str
  | .listApprovalsText => Str
  | .resolveApprovalText _ _ => Str
  | .budgetText => Str
  | .peersText => Str
  | .a2aAgentsText => Str

abbrev Bridge := Dialogue BridgeCall BridgeCall.Answer

def call (c : BridgeCall) : Bridge c.Answer := Dialogue.query c

section RateLimit

abbrev ChannelRateLimiter := Map Str (List DateTime)

def minute : Int := 60000000000

/-- No limit when the maximum is zero. -/
def ChannelRateLimiter.check (limiter : ChannelRateLimiter) (now : DateTime)
    (channelType platformId : Str) (maxPerMinute : Nat) : Except Str Unit × ChannelRateLimiter :=
  if maxPerMinute = 0 then (.ok (), limiter)
  else
    let key := channelType ++ ':' :: platformId
    let recent := ((limiter.lookup key).getD []).filter fun ts => max (now - ts) 0 < minute
    if recent.length ≥ maxPerMinute then
      (.error ("Rate limit exceeded (".toList ++ showNat maxPerMinute ++
        " messages/minute). Please wait.".toList), limiter.insert key recent)
    else (.ok (), limiter.insert key (recent ++ [now]))

end RateLimit

section Commands

inductive BotCommand where
  | start
  | help
  | agents
  | agent
  | status
  | models
  | providers
  | new
  | compact
  | model
  | stop
  | usage
  | think
  | skills
  | hands
  | workflows
  | workflow
  | triggers
  | trigger
  | schedules
  | schedule
  | approvals
  | approve
  | reject
  | budget
  | peers
  | a2a
  deriving DecidableEq

/-- The words that are commands after a slash, and the names that are handled. -/
def botCommands : List (Str × BotCommand) :=
  [("start".toList, .start), ("help".toList, .help), ("agents".toList, .agents),
    ("agent".toList, .agent), ("status".toList, .status), ("models".toList, .models),
    ("providers".toList, .providers), ("new".toList, .new), ("compact".toList, .compact),
    ("model".toList, .model), ("stop".toList, .stop), ("usage".toList, .usage),
    ("think".toList, .think), ("skills".toList, .skills), ("hands".toList, .hands),
    ("workflows".toList, .workflows), ("workflow".toList, .workflow),
    ("triggers".toList, .triggers), ("trigger".toList, .trigger),
    ("schedules".toList, .schedules), ("schedule".toList, .schedule),
    ("approvals".toList, .approvals), ("approve".toList, .approve), ("reject".toList, .reject),
    ("budget".toList, .budget), ("peers".toList, .peers), ("a2a".toList, .a2a)]

def BotCommand.ofName (name : Str) : Option BotCommand :=
  (botCommands.find? (·.1 = name)).map (·.2)

def unwrapOrElseError (answer : Except Str Str) : Str :=
  match answer with
  | .ok text => text
  | .error e => "Error: ".toList ++ e

def noAgentSelected : Str := "No agent selected. Use /agent <name> first.".toList

def agentLines (agents : List (AgentId × Str)) : Str :=
  agents.flatMap fun agent => "  - ".toList ++ agent.2 ++ "\n".toList

def helpText : Str :=
  ("clawREFORM by aegntic.ai Bot Commands:\n" ++
    "\n" ++
    "Session:\n" ++
    "/agents - list running agents\n" ++
    "/agent <name> - select which agent to talk to\n" ++
    "/new - reset session (clear messages)\n" ++
    "/compact - trigger LLM session compaction\n" ++
    "/model [name] - show or switch agent model\n" ++
    "/stop - cancel current agent run\n" ++
    "/usage - show session token usage and cost\n" ++
    "/think [on|off] - toggle extended thinking\n" ++
    "\n" ++
    "Info:\n" ++
    "/models - list available AI models\n" ++
    "/providers - show configured providers\n" ++
    "/skills - list installed skills\n" ++
    "/hands - list available and active hands\n" ++
    "/status - show system status\n" ++
    "\n" ++
    "Automation:\n" ++
    "/workflows - list workflows\n" ++
    "/workflow run <name> [input] - run a workflow\n" ++
    "/triggers - list event triggers\n" ++
    "/trigger add <agent> <pattern> <prompt> - create trigger\n" ++
    "/trigger del <id> - remove trigger\n" ++
    "/schedules - list cron jobs\n" ++
    "/schedule add <agent> <cron-5-fields> <message> - create job\n" ++
    "/schedule del <id> - remove job\n" ++
    "/schedule run <id> - run job now\n" ++
    "/approvals - list pending approvals\n" ++
    "/approve <id> - approve a request\n" ++
    "/reject <id> - reject a request\n" ++
    "\n" ++
    "Monitoring:\n" ++
    "/budget - show spending limits and current costs\n" ++
    "/peers - show OFP peer network status\n" ++
    "/a2a - list discovered external A2A agents\n" ++
    "\n" ++
    "/start - show welcome message\n" ++
    "/help - show this help").toList

def startText (agents : List (AgentId × Str)) : Str :=
  "Welcome to clawREFORM by aegntic.ai! I connect you to AI agents.\n\n".toList ++
    "Available agents:\n".toList ++
    (if agents.isEmpty then "  (none running)\n".toList else agentLines agents) ++
    "\nCommands:\n/agents - list agents\n/agent <name> - select an agent\n".toList ++
    "/help - show this help".toList

def triggerUsage : Str :=
  "Usage:\n  /trigger add <agent> <pattern> <prompt>\n  /trigger del <id-prefix>".toList

def scheduleUsage : Str :=
  "Usage:\n  /schedule add <agent> <cron-5-fields> <message>".toList ++
    "\n  /schedule del <id-prefix>\n  /schedule run <id-prefix>".toList

variable (debugStr : Str → Str)

/-- Commands look the agent of their sender up as on the command line. -/
def currentAgent (router : AgentRouter) (sender : ChannelUser) : Option AgentId :=
  router.resolve debugStr .cli sender.platformId sender.clawreformUser

/-- The commands about the current agent of the sender. -/
def withAgent (router : AgentRouter) (sender : ChannelUser)
    (f : AgentId → Bridge (Except Str Str)) : Bridge (Str × AgentRouter) :=
  match currentAgent debugStr router sender with
  | some agentId => do
    let answer ← f agentId
    pure (unwrapOrElseError answer, router)
  | none => pure (noAgentSelected, router)

/-- The answer of a call that gives a text. -/
def replying (router : AgentRouter) (text : Bridge Str) : Bridge (Str × AgentRouter) := do
  let reply ← text
  pure (reply, router)

def selectAgent (agentName : Str) (router : AgentRouter) (sender : ChannelUser) :
    Bridge (Str × AgentRouter) := do
  let found ← call (.findAgentByName agentName)
  match found with
  | .ok (some agentId) =>
    pure ("Now talking to agent: ".toList ++ agentName,
      router.setUserDefault sender.platformId agentId)
  | .ok none => do
    let spawned ← call (.spawnAgentByName agentName)
    match spawned with
    | .ok agentId =>
      pure ("Spawned and connected to agent: ".toList ++ agentName,
        router.setUserDefault sender.platformId agentId)
    | .error e =>
      pure ("Agent '".toList ++ agentName ++ "' not found and could not spawn: ".toList ++ e, router)
  | .error e => pure ("Error finding agent: ".toList ++ e, router)

def join (args : List Str) : Str := [' '].intercalate args

def handleCommand (name : Str) (args : List Str) (router : AgentRouter) (sender : ChannelUser) :
    Bridge (Str × AgentRouter) :=
  match BotCommand.ofName name with
  | some .start => do
    let agents ← call .listAgents
    pure (startText (agents.toOption.getD []), router)
  | some .help => pure (helpText, router)
  | some .status => replying router (call .uptimeInfo)
  | some .agents => do
    let agents ← call .listAgents
    let agents := agents.toOption.getD []
    pure (if agents.isEmpty then "No agents running.".toList
      else "Running agents:\n".toList ++ agentLines agents, router)
  | some .agent =>
    match args with
    | [] => pure ("Usage: /agent <name>".toList, router)
    | agentName :: _ => selectAgent agentName router sender
  | some .new => withAgent debugStr router sender fun agentId => call (.resetSession agentId)
  | some .compact => withAgent debugStr router sender fun agentId => call (.compactSession agentId)
  | some .model =>
    withAgent debugStr router sender fun agentId => call (.setModel agentId (args.head?.getD []))
  | some .stop => withAgent debugStr router sender fun agentId => call (.stopRun agentId)
  | some .usage => withAgent debugStr router sender fun agentId => call (.sessionUsage agentId)
  | some .think =>
    withAgent debugStr router sender fun agentId =>
      call (.setThinking agentId ((args.head?.map fun a => decide (a = "on".toList)).getD true))
  | some .models => replying router (call .listModelsText)
  | some .providers => replying router (call .listProvidersText)
  | some .skills => replying router (call .listSkillsText)
  | some .hands => replying router (call .listHandsText)
  | some .workflows => replying router (call .listWorkflowsText)
  | some .workflow =>
    match args with
    | run :: workflow :: input =>
      if run = "run".toList then replying router (call (.runWorkflowText workflow (join input)))
      else pure ("Usage: /workflow run <name> [input]".toList, router)
    | _ => pure ("Usage: /workflow run <name> [input]".toList, router)
  | some .triggers => replying router (call .listTriggersText)
  | some .trigger =>
    if args.length ≥ 4 ∧ args[0]? = some "add".toList then
      replying router (call (.createTriggerText (args[1]?.getD []) (args[2]?.getD [])
        (join (args.drop 3))))
    else if args.length ≥ 2 ∧ args[0]? = some "del".toList then
      replying router (call (.deleteTriggerText (args[1]?.getD [])))
    else pure (triggerUsage, router)
  | some .schedules => replying router (call .listSchedulesText)
  | some .schedule =>
    match args with
    | [] => pure (scheduleUsage, router)
    | action :: rest =>
      if action = "add".toList ∨ action = "del".toList ∨ action = "run".toList then
        replying router (call (.manageScheduleText action rest))
      else pure (scheduleUsage, router)
  | some .approvals => replying router (call .listApprovalsText)
  | some .approve =>
    match args with
    | [] => pure ("Usage: /approve <id-prefix>".toList, router)
    | idPrefix :: _ => replying router (call (.resolveApprovalText idPrefix true))
  | some .reject =>
    match args with
    | [] => pure ("Usage: /reject <id-prefix>".toList, router)
    | idPrefix :: _ => replying router (call (.resolveApprovalText idPrefix false))
  | some .budget => replying router (call .budgetText)
  | some .peers => replying router (call .peersText)
  | some .a2a => replying router (call .a2aAgentsText)
  | none => pure ("Unknown command: /".toList ++ name, router)

end Commands

section Dispatch

/-- The command of a text that starts with a slash. -/
def slashCommand (text : Str) : Option (Str × List Str) :=
  match text with
  | '/' :: rest =>
    let cmd := rest.takeWhile (· ≠ ' ')
    if (BotCommand.ofName cmd).isSome then
      some (cmd, splitWhitespace ((rest.dropWhile (· ≠ ' ')).drop 1))
    else none
  | _ => none

/-- Whether the policy of the channel lets a message through. -/
def policyAllows (overrides : Option ChannelOverrides) (message : ChannelMessage) : Bool :=
  match overrides with
  | none => true
  | some ov =>
    if message.isGroup then
      match ov.groupPolicy with
      | .ignore => false
      | .commandsOnly =>
        match message.content with
        | .command _ _ => true
        | .text text => text.head? = some '/'
        | .other => false
      | .mentionOnly => true
      | .all => true
    else
      match ov.dmPolicy with
      | .ignore => false
      -- relies on the authorization further down
      | .allowedOnly => true
      | .respond => true

def rateCheck (overrides : Option ChannelOverrides) (limiter : ChannelRateLimiter) (now : DateTime)
    (message : ChannelMessage) : Except Str Unit × ChannelRateLimiter :=
  match overrides with
  | none => (.ok (), limiter)
  | some ov =>
    if ov.rateLimitPerUser > 0 then
      limiter.check now (channelTypeToStr message.channel) message.sender.platformId
        ov.rateLimitPerUser
    else (.ok (), limiter)

variable (debugStr : Str → Str) (formatForChannel : Str → OutputFormat → Str)

/-- A failure to send is only logged. -/
def sendResponse (user : ChannelUser) (text : Str) (threadId : Option Str)
    (outputFormat : OutputFormat) : Bridge Unit :=
  let formatted := formatForChannel text outputFormat
  match threadId with
  | some tid => call (.adapterSendInThread user formatted tid)
  | none => call (.adapterSend user formatted)

/-- The tasks of a parallel broadcast are taken in the order they are started in. -/
def sendToTargets (text : Str) : List (Str × Option AgentId) → Bridge (List Str)
  | [] => pure []
  | (_, none) :: targets => sendToTargets text targets
  | (name, some agentId) :: targets => do
    let result ← call (.sendMessage agentId text)
    let responses ← sendToTargets text targets
    pure ((match result with
      | .ok r => "[".toList ++ name ++ "]: ".toList ++ r
      | .error e => "[".toList ++ name ++ "]: Error: ".toList ++ e) :: responses)

/-- Only users who may chat get anything done; others are told why not. -/
def ifAuthorized (message : ChannelMessage) (respond : Str → Bridge Unit) (act : Bridge Unit) :
    Bridge Unit := do
  let authorized ← call (.authorizeChannelUser (channelTypeToStr message.channel)
    message.sender.platformId "chat".toList)
  match authorized with
  | .error denied => respond ("Access denied: ".toList ++ denied)
  | .ok () => act

def broadcast (message : ChannelMessage) (text : Str) (targets : List (Str × Option AgentId))
    (respond : Str → Bridge Unit) : Bridge Unit :=
  ifAuthorized message respond do
    call (.adapterSendTyping message.sender)
    let responses ← sendToTargets text targets
    respond ("\n\n".toList.intercalate responses)

def forwardToAgent (message : ChannelMessage) (text : Str) (agentId : AgentId)
    (respond : Str → Bridge Unit) : Bridge Unit :=
  let ct := channelTypeToStr message.channel
  let recipient := message.sender.platformId
  ifAuthorized message respond do
    let autoReply ← call (.checkAutoReply agentId text)
    match autoReply with
    | some reply => do
      respond reply
      call (.recordDelivery agentId ct recipient true none)
    | none => do
      call (.adapterSendTyping message.sender)
      let result ← call (.sendMessage agentId text)
      match result with
      | .ok response => do
        respond response
        call (.recordDelivery agentId ct recipient true none)
      | .error e => do
        let errMsg := "Agent error: ".toList ++ e
        respond errMsg
        call (.recordDelivery agentId ct recipient false (some errMsg))

def noAgentAssigned : Str :=
  "No agent assigned. Use /agents to list available agents, ".toList ++
    "then /agent <name> to select one.".toList

/-- Texts that are no commands go to the agents of a broadcast or to the one agent
they are routed to. -/
def dispatchText (message : ChannelMessage) (text : Str) (router : AgentRouter)
    (respond : Str → Bridge Unit) : Bridge Unit :=
  let targets := router.resolveBroadcast message.sender.platformId
  if router.hasBroadcast message.sender.platformId ∧ targets ≠ [] then
    broadcast message text targets respond
  else
    match router.resolve debugStr message.channel message.sender.platformId
      message.sender.clawreformUser with
    | some agentId => forwardToAgent message text agentId respond
    | none => respond noAgentAssigned

/-- The command of a message, sent as such or as a text. -/
def commandOf (content : ChannelContent) : Option (Str × List Str) :=
  match content with
  | .text text => slashCommand text
  | .command name args => some (name, args)
  | .other => none

/-- The router and the rate limiter are handed on to the next message. -/
def dispatchMessage (message : ChannelMessage) (router : AgentRouter)
    (limiter : ChannelRateLimiter) (now : DateTime) : Bridge (AgentRouter × ChannelRateLimiter) := do
  let overrides ← call (.channelOverrides (channelTypeToStr message.channel))
  let outputFormat := (overrides.bind (·.outputFormat)).getD .markdown
  let threadId := if (overrides.map (·.threading)).getD false then message.threadId else none
  let respond text := sendResponse formatForChannel message.sender text threadId outputFormat
  if policyAllows overrides message then
    match rateCheck overrides limiter now message with
    | (.error msg, limiter) => do
      respond msg
      pure (router, limiter)
    | (.ok (), limiter) =>
      match commandOf message.content with
      | some (name, args) => do
        let (result, router) ← handleCommand debugStr name args router message.sender
        respond result
        pure (router, limiter)
      | none =>
        match message.content with
        | .text text => do
          dispatchText debugStr message text router respond
          pure (router, limiter)
        | _ => do
          respond "I can only handle text messages for now.".toList
          pure (router, limiter)
  else pure (router, limiter)

end Dispatch

section Authorization

/-- The action that a user has to be authorized for before a call that changes the
state of the kernel. -/
def BridgeCall.action : BridgeCall → Option Str
  | .sendMessage _ _ => some "chat".toList
  | .spawnAgentByName _ => some "spawn".toList
  | .resetSession _ => some "chat".toList
  | .compactSession _ => some "chat".toList
  | .setModel _ model => if model = [] then none else some "chat".toList
  | .stopRun _ => some "chat".toList
  | .recordDelivery _ _ _ _ _ => some "chat".toList
  | .checkAutoReply _ _ => some "chat".toList
  | .runWorkflowText _ _ => some "chat".toList
  | .createTriggerText _ _ _ => some "chat".toList
  | .deleteTriggerText _ => some "chat".toList
  | .manageScheduleText _ _ => some "chat".toList
  | .resolveApprovalText _ _ => some "chat".toList
  | _ => none

abbrev BridgeEvent := Σ c : BridgeCall, c.Answer

def Grants (message : ChannelMessage) (e : BridgeEvent) (action : Str) : Prop :=
  e = ⟨.authorizeChannelUser (channelTypeToStr message.channel) message.sender.platformId action,
    .ok ()⟩

def Needs (c : BridgeCall) (action : Str) : Prop := c.action = some action

/-- Every change of the state of the kernel comes after the sender was authorized for it. -/
def Authorized (message : ChannelMessage) (events : List BridgeEvent) : Prop :=
  Always (Dialogue.Covered (Grants message) Needs) events

def BridgeCall.isAuthorize : BridgeCall → Bool
  | .authorizeChannelUser _ _ _ => true
  | _ => false

/-- A call that neither changes the kernel nor asks for authorization. -/
def BridgeCall.quiet (c : BridgeCall) : Prop := c.action = none ∧ c.isAuthorize = false

variable {debugStr : Str → Str} {formatForChannel : Str → OutputFormat → Str}
  {message : ChannelMessage} {given : Str → Prop}

theorem asks_sendResponse (user : ChannelUser) (text : Str) (threadId : Option Str)
    (outputFormat : OutputFormat) :
    (sendResponse formatForChannel user text threadId outputFormat).Asks BridgeCall.quiet := by
  cases threadId <;> exact ⟨⟨rfl, rfl⟩, fun _ => trivial⟩

theorem guarded_of_quiet {α : Type} {d : Bridge α} (h : d.Asks BridgeCall.quiet) :
    d.Guarded (Grants message) Needs given := by
  induction d generalizing given with
  | done a => trivial
  | ask c k ih =>
    refine ⟨fun x hx => ?_, fun a => ih a (h.2 a)⟩
    rw [Needs, h.1.1] at hx
    cases hx

theorem guarded_sendToTargets (hchat : given "chat".toList) (text : Str)
    (targets : List (Str × Option AgentId)) :
    (sendToTargets text targets).Guarded (Grants message) Needs given := by
  induction targets generalizing given with
  | nil => trivial
  | cons target targets ih =>
    obtain ⟨name, _ | agentId⟩ := target
    · exact ih hchat
    · refine ⟨fun x hx => ?_, fun answer => ?_⟩
      · cases hx
        exact hchat
      · exact (ih (.inl hchat)).bind fun _ => trivial

variable {respond : Str → Bridge Unit}

theorem guarded_ifAuthorized {act : Bridge Unit}
    (hrespond : ∀ text, (respond text).Asks BridgeCall.quiet)
    (hact : ∀ given : Str → Prop, given "chat".toList → act.Guarded (Grants message) Needs given) :
    (ifAuthorized message respond act).Guarded (Grants message) Needs given := by
  constructor
  · intro x hx
    cases hx
  · intro answer
    cases answer with
    | error denied => exact guarded_of_quiet (hrespond _)
    | ok _ => exact hact _ (.inr rfl)

theorem guarded_broadcast (hrespond : ∀ text, (respond text).Asks BridgeCall.quiet) (text : Str)
    (targets : List (Str × Option AgentId)) :
    (broadcast message text targets respond).Guarded (Grants message) Needs given := by
  apply guarded_ifAuthorized hrespond
  intro given hchat
  refine ⟨fun x hx => ?_, fun _ => ?_⟩
  · cases hx
  · exact (guarded_sendToTargets (.inl hchat) text targets).bind fun _ =>
      guarded_of_quiet (hrespond _)

theorem guarded_recordDelivery (hchat : given "chat".toList) (agentId : AgentId)
    (channel recipient : Str) (success : Bool) (error : Option Str) :
    (call (.recordDelivery agentId channel recipient success error)).Guarded (Grants message) Needs
      given := by
  refine ⟨fun x hx => ?_, fun _ => trivial⟩
  cases hx
  exact hchat

theorem guarded_forwardToAgent (hrespond : ∀ text, (respond text).Asks BridgeCall.quiet)
    (text : Str) (agentId : AgentId) :
    (forwardToAgent message text agentId respond).Guarded (Grants message) Needs given := by
  apply guarded_ifAuthorized hrespond
  intro given hchat
  refine ⟨fun x hx => ?_, fun autoReply => ?_⟩
  · cases hx
    exact hchat
  cases autoReply with
  | some reply =>
    exact (guarded_of_quiet (hrespond reply)).bind fun _ =>
      guarded_recordDelivery (.inl hchat) _ _ _ _ _
  | none =>
    refine ⟨fun x hx => ?_, fun _ => ⟨fun x hx => ?_, fun result => ?_⟩⟩
    · cases hx
    · cases hx
      exact .inl (.inl hchat)
    · cases result <;> exact (guarded_of_quiet (hrespond _)).bind fun _ =>
        guarded_recordDelivery (.inl (.inl (.inl hchat))) _ _ _ _ _

theorem guarded_dispatchText (hrespond : ∀ text, (respond text).Asks BridgeCall.quiet)
    (text : Str) (router : AgentRouter) :
    (dispatchText debugStr message text router respond).Guarded (Grants message) Needs given := by
  simp only [dispatchText]
  split
  · exact guarded_broadcast hrespond text _
  · split
    · exact guarded_forwardToAgent hrespond text _
    · exact guarded_of_quiet (hrespond _)

theorem asks_withAgent {router : AgentRouter} {sender : ChannelUser}
    {f : AgentId → Bridge (Except Str Str)} {p : BridgeCall → Prop} (hf : ∀ id, (f id).Asks p) :
    (withAgent debugStr router sender f).Asks p := by
  rw [withAgent]
  split
  · exact (hf _).bind fun _ => trivial
  · trivial

theorem asks_selectAgent (agentName : Str) (router : AgentRouter) (sender : ChannelUser) :
    (selectAgent agentName router sender).Asks fun c => c.isAuthorize = false := by
  refine ⟨rfl, fun found => ?_⟩
  rcases found with e | _ | id
  · trivial
  · refine ⟨rfl, fun spawned => ?_⟩
    cases spawned <;> trivial
  · trivial

/-- No command asks for authorization. -/
theorem asks_handleCommand (name : Str) (args : List Str) (router : AgentRouter)
    (sender : ChannelUser) :
    (handleCommand debugStr name args router sender).Asks fun c => c.isAuthorize = false := by
  unfold handleCommand
  cases BotCommand.ofName name with
  | none => trivial
  | some command =>
    cases command with
    | new => exact asks_withAgent fun id => ⟨rfl, fun _ => trivial⟩
    | compact => exact asks_withAgent fun id => ⟨rfl, fun _ => trivial⟩
    | model => exact asks_withAgent fun id => ⟨rfl, fun _ => trivial⟩
    | stop => exact asks_withAgent fun id => ⟨rfl, fun _ => trivial⟩
    | usage => exact asks_withAgent fun id => ⟨rfl, fun _ => trivial⟩
    | think => exact asks_withAgent fun id => ⟨rfl, fun _ => trivial⟩
    | help => trivial
    | agent =>
      cases args with
      | nil => trivial
      | cons agentName _ => exact asks_selectAgent agentName router sender
    | workflow =>
      rcases args with _ | ⟨run, _ | ⟨workflow, input⟩⟩
      · trivial
      · trivial
      · dsimp only
        split
        · exact ⟨rfl, fun _ => trivial⟩
        · trivial
    | trigger =>
      dsimp only
      split
      · exact ⟨rfl, fun _ => trivial⟩
      · split
        · exact ⟨rfl, fun _ => trivial⟩
        · trivial
    | schedule =>
      cases args with
      | nil => trivial
      | cons action rest =>
        dsimp only
        split
        · exact ⟨rfl, fun _ => trivial⟩
        · trivial
    | approve =>
      cases args with
      | nil => trivial
      | cons idPrefix _ => exact ⟨rfl, fun _ => trivial⟩
    | reject =>
      cases args with
      | nil => trivial
      | cons idPrefix _ => exact ⟨rfl, fun _ => trivial⟩
    | _ => exact ⟨rfl, fun _ => trivial⟩

section Changes

variable {κ : Type*} (env : (c : BridgeCall) → κ → c.Answer × κ) (k : κ)

/-- Whether a command changes the kernel, given its sender's current agent and whether
an agent of a name is looked for without success. -/
def commandChanges (current : Option AgentId) (unknown : Str → Bool) (name : Str)
    (args : List Str) : Bool :=
  match BotCommand.ofName name with
  | some .agent => args.head?.any unknown
  | some .new => current.isSome
  | some .compact => current.isSome
  | some .stop => current.isSome
  | some .model => current.isSome && args.head?.any (· ≠ [])
  | some .workflow => args.length ≥ 2 ∧ args[0]? = some "run".toList
  | some .trigger => args.length ≥ 4 ∧ args[0]? = some "add".toList ∨
      args.length ≥ 2 ∧ args[0]? = some "del".toList
  | some .schedule =>
    args.head?.any fun a => a = "add".toList ∨ a = "del".toList ∨ a = "run".toList
  | some .approve => ! args.isEmpty
  | some .reject => ! args.isEmpty
  | _ => false

def unknownAgent (agentName : Str) : Bool :=
  match (env (.findAgentByName agentName) k).1 with
  | .ok none => true
  | _ => false

def Changes {α : Type} (d : Bridge α) : Prop := ∃ e ∈ d.events env k, e.1.action.isSome

theorem changes_done {α : Type} (a : α) : ¬ Changes env k (.done a : Bridge α) := by
  simp [Changes]

theorem changes_single {α : Type} (c : BridgeCall) (f : c.Answer → α) :
    Changes env k (.ask c fun a => .done (f a) : Bridge α) ↔ c.action.isSome := by
  simp [Changes]

theorem changes_withAgent {router : AgentRouter} {sender : ChannelUser}
    {f : AgentId → Bridge (Except Str Str)} (p : Bool) (hf : ∀ id, Changes env k (f id) ↔ p) :
    Changes env k (withAgent debugStr router sender f) ↔
      (currentAgent debugStr router sender).isSome ∧ p := by
  rw [withAgent]
  split
  · rename_i id hid
    rw [hid, ← hf id]
    simp [Changes, Dialogue.events_bind]
  · rename_i hid
    simpa [hid] using changes_done env k _

theorem changes_selectAgent (agentName : Str) (router : AgentRouter) (sender : ChannelUser) :
    Changes env k (selectAgent agentName router sender) ↔ unknownAgent env k agentName := by
  simp only [selectAgent, call, Dialogue.query_bind, Changes, Dialogue.events_ask, unknownAgent]
  generalize (env (.findAgentByName agentName) k).1 = found
  rcases found with e | _ | id
  · simp [BridgeCall.action, -String.reduceToList]
  · simp [BridgeCall.action, -String.reduceToList]
  · simp [BridgeCall.action, -String.reduceToList]

theorem changes_handleCommand (name : Str) (args : List Str) (router : AgentRouter)
    (sender : ChannelUser) :
    Changes env k (handleCommand debugStr name args router sender) ↔
      commandChanges (currentAgent debugStr router sender) (unknownAgent env k) name args := by
  unfold handleCommand commandChanges
  cases BotCommand.ofName name with
  | none => simpa [-String.reduceToList] using changes_done env k _
  | some command =>
    cases command with
    | new =>
      refine (changes_withAgent env k true fun id => (changes_single env k _ _).trans ?_).trans ?_
      · simp [BridgeCall.action, -String.reduceToList]
      · simp [-String.reduceToList]
    | compact =>
      refine (changes_withAgent env k true fun id => (changes_single env k _ _).trans ?_).trans ?_
      · simp [BridgeCall.action, -String.reduceToList]
      · simp [-String.reduceToList]
    | stop =>
      refine (changes_withAgent env k true fun id => (changes_single env k _ _).trans ?_).trans ?_
      · simp [BridgeCall.action, -String.reduceToList]
      · simp [-String.reduceToList]
    | usage =>
      refine (changes_withAgent env k false fun id => (changes_single env k _ _).trans ?_).trans ?_
      · simp [BridgeCall.action, -String.reduceToList]
      · simp [-String.reduceToList]
    | think =>
      refine (changes_withAgent env k false fun id => (changes_single env k _ _).trans ?_).trans ?_
      · simp [BridgeCall.action, -String.reduceToList]
      · simp [-String.reduceToList]
    | help => simpa [-String.reduceToList] using changes_done env k _
    | model =>
      refine (changes_withAgent env k (decide (args.head?.getD [] ≠ [])) fun id =>
        (changes_single env k _ _).trans ?_).trans ?_
      · simp [BridgeCall.action, -String.reduceToList]
      · cases args with
        | nil => simp [-String.reduceToList]
        | cons model _ => exact (Bool.and_eq_true_iff).symm
    | agent =>
      cases args with
      | nil => simpa [-String.reduceToList] using changes_done env k _
      | cons agentName _ => simpa [-String.reduceToList] using changes_selectAgent env k agentName router sender
    | workflow =>
      rcases args with _ | ⟨run, _ | ⟨workflow, input⟩⟩
      · simpa [-String.reduceToList] using changes_done env k _
      · simpa [-String.reduceToList] using changes_done env k _
      · dsimp only
        split
        · rename_i hrun
          refine (changes_single env k _ _).trans ?_
          simp [BridgeCall.action, hrun, -String.reduceToList]
        · rename_i hrun
          exact iff_of_false (changes_done env k _) (by simpa [-String.reduceToList] using hrun)
    | trigger =>
      dsimp only
      split
      · rename_i hadd
        refine (changes_single env k _ _).trans ?_
        simp [BridgeCall.action, hadd, -String.reduceToList]
      · split
        · rename_i hdel
          refine (changes_single env k _ _).trans ?_
          simp [BridgeCall.action, hdel, -String.reduceToList]
        · rename_i hadd hdel
          exact iff_of_false (changes_done env k _) (by simpa [-String.reduceToList] using not_or.mpr ⟨hadd, hdel⟩)
    | schedule =>
      cases args with
      | nil => simpa [-String.reduceToList] using changes_done env k _
      | cons action rest =>
        dsimp only
        split
        · rename_i haction
          refine (changes_single env k _ _).trans ?_
          simpa [BridgeCall.action, -String.reduceToList] using haction
        · rename_i haction
          exact iff_of_false (changes_done env k _) (by simpa [-String.reduceToList] using haction)
    | approve =>
      cases args with
      | nil => simpa [-String.reduceToList] using changes_done env k _
      | cons idPrefix _ =>
        refine (changes_single env k _ _).trans ?_
        simp [BridgeCall.action, -String.reduceToList]
    | reject =>
      cases args with
      | nil => simpa [-String.reduceToList] using changes_done env k _
      | cons idPrefix _ =>
        refine (changes_single env k _ _).trans ?_
        simp [BridgeCall.action, -String.reduceToList]
    | _ =>
      refine (changes_single env k _ _).trans ?_
      simp [BridgeCall.action, -String.reduceToList]

/-- A message that the policy and the rate limit let through is a command that changes
the kernel. -/
def ChangesUnasked (debugStr : Str → Str) (message : ChannelMessage) (router : AgentRouter)
    (limiter : ChannelRateLimiter) (now : DateTime) : Prop :=
  let asked := env (.channelOverrides (channelTypeToStr message.channel)) k
  policyAllows asked.1 message ∧ (rateCheck asked.1 limiter now message).1 = .ok () ∧
    ∃ name args, commandOf message.content = some (name, args) ∧
      commandChanges (currentAgent debugStr router message.sender) (unknownAgent env asked.2)
        name args

/-- The first event of a dispatch neither needs nor grants anything. -/
theorem authorized_of_guarded {α : Type} {overrides : Option ChannelOverrides} {d : Bridge α}
    (h : d.Guarded (Grants message) Needs fun _ => False) :
    Authorized message
      (⟨.channelOverrides (channelTypeToStr message.channel), overrides⟩ :: d.events env k) := by
  rw [Authorized, always_cons]
  constructor
  · intro x hx
    cases hx
  · exact h.always env k [_] fun x hx => hx.elim

theorem not_grants {α : Type} {d : Bridge α} (h : d.Asks fun c => c.isAuthorize = false) :
    ∀ e ∈ d.events env k, ∀ x, ¬ Grants message e x := by
  rintro e he x rfl
  cases h.events env k _ he

theorem not_needs {c : BridgeCall} : (∀ x, ¬ Needs c x) ↔ ¬ c.action.isSome := by
  rw [Option.isSome_iff_exists, not_exists]
  rfl

/-- A command is authorized only when there is nothing to authorize. -/
theorem authorized_command {α : Type} {overrides : Option ChannelOverrides} {name : Str}
    {args : List Str} {router : AgentRouter} {f : Str × AgentRouter → Bridge α}
    (hf : ∀ r, (f r).Asks BridgeCall.quiet) :
    Authorized message (⟨.channelOverrides (channelTypeToStr message.channel), overrides⟩ ::
        (handleCommand debugStr name args router message.sender >>= f).events env k) ↔
      ¬ commandChanges (currentAgent debugStr router message.sender) (unknownAgent env k)
        name args := by
  have hasks : (handleCommand debugStr name args router message.sender).Asks
      fun c => c.isAuthorize = false := asks_handleCommand name args router message.sender
  rw [Authorized, Dialogue.always_covered_iff, ← changes_handleCommand, Changes, not_exists]
  · rw [List.forall_mem_cons, Dialogue.events_bind, List.forall_mem_append]
    constructor
    · rintro ⟨-, hcommand, -⟩ e ⟨he, hsome⟩
      exact not_needs.mp (hcommand e he) hsome
    · intro hnone
      refine ⟨not_needs.mpr Bool.false_ne_true, fun e he => ?_, fun e he => ?_⟩
      · exact not_needs.mpr fun hsome => hnone e ⟨he, hsome⟩
      · rw [not_needs, ((hf _).events env _ e he).1]
        exact Bool.false_ne_true
  · rw [List.forall_mem_cons]
    constructor
    · intro x hx
      cases congrArg Sigma.fst hx
    · exact not_grants env k (hasks.bind fun r => (hf r).imp fun _ h => h.2)

/-- The kernel changes for a sender who was not authorized exactly when a command that
changes it gets through. -/
theorem dispatch_authorized_iff (debugStr : Str → Str)
    (formatForChannel : Str → OutputFormat → Str) (message : ChannelMessage)
    (router : AgentRouter) (limiter : ChannelRateLimiter) (now : DateTime) :
    Authorized message
        ((dispatchMessage debugStr formatForChannel message router limiter now).events env k) ↔
      ¬ ChangesUnasked env k debugStr message router limiter now := by
  simp only [dispatchMessage, call, Dialogue.query_bind, Dialogue.events_ask, ChangesUnasked]
  generalize env (.channelOverrides (channelTypeToStr message.channel)) k = asked
  obtain ⟨overrides, k'⟩ := asked
  have hrespond : ∀ text threadId outputFormat, (sendResponse formatForChannel message.sender text
      threadId outputFormat).Asks BridgeCall.quiet := asks_sendResponse message.sender
  cases hpolicy : policyAllows overrides message with
  | false =>
    refine iff_of_true (authorized_of_guarded env k' ?_) (by simp)
    trivial
  | true =>
    cases hrate : rateCheck overrides limiter now message with
    | mk verdict limiter' =>
      cases verdict with
      | error msg =>
        refine iff_of_true (authorized_of_guarded env k' ?_) (by simp)
        exact (guarded_of_quiet (hrespond msg _ _)).bind fun _ => trivial
      | ok _ =>
        cases hcommand : commandOf message.content with
        | some command =>
          obtain ⟨name, args⟩ := command
          refine (authorized_command env k' ?_).trans (by simp)
          exact fun r => (hrespond _ _ _).bind fun _ => trivial
        | none =>
          refine iff_of_true (authorized_of_guarded env k' ?_) (by simp)
          cases hcontent : message.content with
          | text text =>
            exact (guarded_dispatchText (fun text => hrespond text _ _) text router).bind
              fun _ => trivial
          | command name args => exact (guarded_of_quiet (hrespond _ _ _)).bind fun _ => trivial
          | other => exact (guarded_of_quiet (hrespond _ _ _)).bind fun _ => trivial

end Changes

/-- A kernel without agents that lets no user do anything. -/
def denyingKernel (c : BridgeCall) (_ : Unit) : c.Answer × Unit :=
  (match c with
  | .sendMessage _ _ => .error []
  | .findAgentByName _ => .ok none
  | .listAgents => .ok []
  | .spawnAgentByName _ => .error []
  | .resetSession _ => .error []
  | .compactSession _ => .error []
  | .setModel _ _ => .error []
  | .stopRun _ => .error []
  | .sessionUsage _ => .error []
  | .setThinking _ _ => .error []
  | .authorizeChannelUser _ _ _ => .error "Unrecognized user.".toList
  | .channelOverrides _ => none
  | .recordDelivery _ _ _ _ _ => ()
  | .checkAutoReply _ _ => none
  | .adapterSend _ _ => ()
  | .adapterSendInThread _ _ _ => ()
  | .adapterSendTyping _ => ()
  | .uptimeInfo => []
  | .listModelsText => []
  | .listProvidersText => []
  | .listSkillsText => []
  | .listHandsText => []
  | .listWorkflowsText => []
  | .runWorkflowText _ _ => []
  | .listTriggersText => []
  | .createTriggerText _ _ _ => []
  | .deleteTriggerText _ => []
  | .listSchedulesText => []
  | .manageScheduleText _ _ => []
  | .listApprovalsText => []
  | .resolveApprovalText _ _ => []
  | .budgetText => []
  | .peersText => []
  | .a2aAgentsText => [], ())

def approvingMessage : ChannelMessage where
  channel := .telegram
  sender := ⟨"stranger".toList, "Stranger".toList, none⟩
  content := .text "/approve 1".toList
  isGroup := false
  threadId := none

/-- A user whom the kernel does not let chat approves a request. -/
theorem stranger_approves : ¬ Authorized approvingMessage
    ((dispatchMessage id (fun text _ => text) approvingMessage .new ∅ 0).events
      denyingKernel ()) := by
  intro h
  have hevents : (dispatchMessage id (fun text _ => text) approvingMessage .new ∅ 0).events
      denyingKernel () = [⟨.channelOverrides "telegram".toList, none⟩] ++
        ⟨.resolveApprovalText "1".toList true, []⟩ ::
          [⟨.adapterSend approvingMessage.sender [], ()⟩] := by rfl
  obtain ⟨e, he, hgrants⟩ := h _ _ _ hevents "chat".toList rfl
  rw [List.mem_singleton.mp he] at hgrants
  cases congrArg Sigma.fst hgrants

end Authorization

end Clawreform.Channels
