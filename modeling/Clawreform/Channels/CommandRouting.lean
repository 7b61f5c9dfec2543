import Clawreform.Channels.Bridge

namespace Clawreform.Channels

open Clawreform.Lib Clawreform.Lib.Text Clawreform.Lib.Store Clawreform.Types

section Routes

namespace AgentRouter

variable (debugStr : Str → Str) (r : AgentRouter) (channelType : ChannelType)
  (platformUserId : Str) (userKey : Option Str)

/-- Where a channel sends a user of its own accord. -/
def ownRoute : Option AgentId :=
  (r.resolveBinding (channelContext channelType platformUserId)).or
    (r.directRoutes.lookup (channelKey debugStr channelType, platformUserId))

/-- Where a user goes on every channel that has no route for them. -/
def sharedRoute : Option AgentId :=
  (userKey.bind r.userDefaults.lookup).or
    ((r.userDefaults.lookup platformUserId).or r.defaultAgent)

theorem resolve_eq : r.resolve debugStr channelType platformUserId userKey =
    (r.ownRoute debugStr channelType platformUserId).or
      (r.sharedRoute platformUserId userKey) := by
  unfold resolve ownRoute sharedRoute
  cases r.resolveBinding (channelContext channelType platformUserId) with
  | some agent => rfl
  | none =>
    cases r.directRoutes.lookup (channelKey debugStr channelType, platformUserId) with
    | some agent => rfl
    | none =>
      cases userKey.bind r.userDefaults.lookup with
      | some agent => rfl
      | none => cases r.userDefaults.lookup platformUserId <;> rfl

/-- Two channels send a user to one agent, each by a route of its own or by the one
they share. -/
def RoutesAgree (other : ChannelType) : Prop :=
  let shared := r.sharedRoute platformUserId userKey
  let own := r.ownRoute debugStr channelType platformUserId
  let others := r.ownRoute debugStr other platformUserId
  own = others ∨ (own = none ∧ others = shared) ∨ (others = none ∧ own = shared)

theorem resolve_eq_iff (other : ChannelType) :
    r.resolve debugStr channelType platformUserId userKey =
        r.resolve debugStr other platformUserId userKey ↔
      r.RoutesAgree debugStr channelType platformUserId userKey other := by
  rw [resolve_eq, resolve_eq, RoutesAgree]
  cases r.ownRoute debugStr channelType platformUserId with
  | none =>
    cases r.ownRoute debugStr other platformUserId with
    | none => simp
    | some agent => simpa using eq_comm
  | some agent => cases r.ownRoute debugStr other platformUserId <;> simp

end AgentRouter

end Routes

section Calls

/-- A call about the session of an agent. -/
def BridgeCall.AboutSession (a : AgentId) : BridgeCall → Prop
  | .resetSession agentId => agentId = a
  | .compactSession agentId => agentId = a
  | .setModel agentId _ => agentId = a
  | .stopRun agentId => agentId = a
  | .sessionUsage agentId => agentId = a
  | .setThinking agentId _ => agentId = a
  | _ => False

def BridgeCall.MessageTo (a : AgentId) : BridgeCall → Prop
  | .sendMessage agentId _ => agentId = a
  | _ => False

/-- A call that a dispatch makes for every agent alike. -/
def BridgeCall.agentless : BridgeCall → Bool
  | .authorizeChannelUser _ _ _ => true
  | .channelOverrides _ => true
  | .adapterSend _ _ => true
  | .adapterSendInThread _ _ _ => true
  | .adapterSendTyping _ => true
  | _ => false

theorem not_aboutSession_of_agentless (a : AgentId) (c : BridgeCall) (h : c.agentless) :
    ¬ c.AboutSession a := by
  cases c <;> first | exact id | cases h

theorem not_messageTo_of_agentless (a : AgentId) (c : BridgeCall) (h : c.agentless) :
    ¬ c.MessageTo a := by
  cases c <;> first | exact id | cases h

def BotCommand.aboutSession : BotCommand → Bool
  | .new => true
  | .compact => true
  | .model => true
  | .stop => true
  | .usage => true
  | .think => true
  | _ => false

theorem ofName_new : BotCommand.ofName "new".toList = some .new := by decide

end Calls

section Dispatched

variable {debugStr : Str → Str} {formatForChannel : Str → OutputFormat → Str}
  {message : ChannelMessage} {router : AgentRouter} {limiter : ChannelRateLimiter} {now : DateTime}
  {a : AgentId} {p : BridgeCall → Prop}

theorem not_mayAsk_sendResponse (formatForChannel : Str → OutputFormat → Str)
    (hp : ∀ c, c.agentless → ¬ p c) (user : ChannelUser) (text : Str) (threadId : Option Str)
    (outputFormat : OutputFormat) :
    ¬ (sendResponse formatForChannel user text threadId outputFormat).MayAsk p := by
  have hasks : (sendResponse formatForChannel user text threadId outputFormat).Asks
      fun c => c.agentless := by
    cases threadId <;> exact ⟨rfl, fun _ => trivial⟩
  exact hasks.not_mayAsk hp

/-- A dispatch asks what its command asks. -/
theorem mayAsk_dispatch_command (hp : ∀ c, c.agentless → ¬ p c) {name : Str} {args : List Str}
    (hcommand : commandOf message.content = some (name, args)) :
    (dispatchMessage debugStr formatForChannel message router limiter now).MayAsk p ↔
      (handleCommand debugStr name args router message.sender).MayAsk p := by
  have hrespond := not_mayAsk_sendResponse formatForChannel hp message.sender
  simp only [dispatchMessage, call, Dialogue.query_bind, hcommand, Dialogue.pure_eq]
  rw [Dialogue.mayAsk_ask_of_not (hp _ rfl)]
  constructor
  · rintro ⟨overrides, h⟩
    split at h
    · split at h
      · rw [Dialogue.mayAsk_bind_done] at h
        exact absurd h (hrespond _ _ _)
      · rw [Dialogue.mayAsk_bind_of_not] at h
        · exact h
        · intro result
          rw [Dialogue.mayAsk_bind_done]
          exact hrespond _ _ _
    · exact absurd h (Dialogue.not_mayAsk_done _)
  · intro h
    -- without overrides every message is let through
    refine ⟨none, ?_⟩
    simp only [policyAllows, rateCheck, if_true]
    rw [Dialogue.mayAsk_bind_of_not]
    · exact h
    · intro result
      rw [Dialogue.mayAsk_bind_done]
      exact hrespond _ _ _

/-- A dispatch of any other text asks what the routing of it asks. -/
theorem mayAsk_dispatch_text (hp : ∀ c, c.agentless → ¬ p c) {text : Str} {P : Prop}
    (hcontent : message.content = .text text) (htext : slashCommand text = none)
    (hP : ∀ respond : Str → Bridge Unit, (∀ text, ¬ (respond text).MayAsk p) →
      ((dispatchText debugStr message text router respond).MayAsk p ↔ P)) :
    (dispatchMessage debugStr formatForChannel message router limiter now).MayAsk p ↔ P := by
  have hrespond := not_mayAsk_sendResponse formatForChannel hp message.sender
  have hcommand : commandOf (.text text) = none := htext
  simp only [dispatchMessage, call, Dialogue.query_bind, Dialogue.pure_eq, hcontent, hcommand]
  rw [Dialogue.mayAsk_ask_of_not (hp _ rfl)]
  constructor
  · rintro ⟨overrides, h⟩
    split at h
    · split at h
      · rw [Dialogue.mayAsk_bind_done] at h
        exact absurd h (hrespond _ _ _)
      · rw [Dialogue.mayAsk_bind_done] at h
        exact (hP _ fun _ => hrespond _ _ _).mp h
    · exact absurd h (Dialogue.not_mayAsk_done _)
  · intro h
    refine ⟨none, ?_⟩
    simp only [policyAllows, rateCheck, if_true]
    rw [Dialogue.mayAsk_bind_done]
    exact (hP _ fun _ => hrespond _ _ _).mpr h

/-- The agents that a plain message of a sender is sent to. -/
def Reaches (debugStr : Str → Str) (router : AgentRouter) (channel : ChannelType)
    (sender : ChannelUser) (a : AgentId) : Prop :=
  let targets := router.resolveBroadcast sender.platformId
  if router.hasBroadcast sender.platformId ∧ targets ≠ [] then ∃ name, (name, some a) ∈ targets
  else router.resolve debugStr channel sender.platformId sender.clawreformUser = some a

theorem reaches_of_not_broadcast {channel : ChannelType} {sender : ChannelUser}
    (h : router.hasBroadcast sender.platformId = false) :
    Reaches debugStr router channel sender a ↔
      router.resolve debugStr channel sender.platformId sender.clawreformUser = some a := by
  simp [Reaches, h]

section Messages

variable {respond : Str → Bridge Unit}

theorem mayAsk_sendToTargets (text : Str) (targets : List (Str × Option AgentId)) :
    (sendToTargets text targets).MayAsk (BridgeCall.MessageTo a) ↔
      ∃ name, (name, some a) ∈ targets := by
  induction targets with
  | nil => exact iff_of_false (Dialogue.not_mayAsk_done _) (by simp)
  | cons target targets ih =>
    obtain ⟨name, _ | agentId⟩ := target
    · simpa [sendToTargets] using ih
    · simp only [sendToTargets, call, Dialogue.query_bind, Dialogue.pure_eq, Dialogue.MayAsk,
        Dialogue.mayAsk_bind_done, List.mem_cons, Prod.mk.injEq, Option.some.injEq, exists_or]
      apply or_congr
      · constructor
        · intro h
          exact ⟨name, rfl, h.symm⟩
        · rintro ⟨_, _, h⟩
          exact h.symm
      · exact (exists_const (Except Str Str)).trans ih

theorem mayAsk_ifAuthorized (hp : ∀ c, c.agentless → ¬ p c)
    (hrespond : ∀ text, ¬ (respond text).MayAsk p) {act : Bridge Unit} :
    (ifAuthorized message respond act).MayAsk p ↔ act.MayAsk p := by
  simp only [ifAuthorized, call, Dialogue.query_bind]
  rw [Dialogue.mayAsk_ask_of_not (hp _ rfl)]
  constructor
  · rintro ⟨answer | _, h⟩
    · exact absurd h (hrespond _)
    · exact h
  · exact fun h => ⟨.ok (), h⟩

variable (hrespond : ∀ text, ¬ (respond text).MayAsk (BridgeCall.MessageTo a))

include hrespond in
theorem mayAsk_broadcast (text : Str) (targets : List (Str × Option AgentId)) :
    (broadcast message text targets respond).MayAsk (BridgeCall.MessageTo a) ↔
      ∃ name, (name, some a) ∈ targets := by
  have hthen : ∀ _ : Unit, (sendToTargets text targets >>= fun responses =>
      respond ("\n\n".toList.intercalate responses)).MayAsk (BridgeCall.MessageTo a) ↔
        ∃ name, (name, some a) ∈ targets := fun _ =>
    (Dialogue.mayAsk_bind_of_not fun _ => hrespond _).trans (mayAsk_sendToTargets text targets)
  rw [broadcast, mayAsk_ifAuthorized (not_messageTo_of_agentless a) hrespond]
  exact (Dialogue.mayAsk_ask_of_not id).trans ((exists_congr hthen).trans (exists_const Unit))

include hrespond in
theorem mayAsk_forwardToAgent (text : Str) (agentId : AgentId) :
    (forwardToAgent message text agentId respond).MayAsk (BridgeCall.MessageTo a) ↔
      agentId = a := by
  have hafter : ∀ text success error, ¬ (respond text >>= fun _ => call (.recordDelivery agentId
      (channelTypeToStr message.channel) message.sender.platformId success error)).MayAsk
      (BridgeCall.MessageTo a) := by
    intro text success error
    rw [Dialogue.mayAsk_bind_of_not]
    · exact hrespond text
    · rintro _ (h | ⟨_, h⟩) <;> exact h
  rw [forwardToAgent, mayAsk_ifAuthorized (not_messageTo_of_agentless a) hrespond]
  refine (Dialogue.mayAsk_ask_of_not id).trans ⟨?_, ?_⟩
  · rintro ⟨reply | reply, h⟩
    · rcases h with h | ⟨_, h | ⟨response | response, h⟩⟩
      · exact h.elim
      · exact h
      · exact absurd h (hafter _ _ _)
      · exact absurd h (hafter _ _ _)
    · exact absurd h (hafter _ _ _)
  · rintro rfl
    exact ⟨none, .inr ⟨(), .inl rfl⟩⟩

include hrespond in
theorem mayAsk_dispatchText (text : Str) :
    (dispatchText debugStr message text router respond).MayAsk (BridgeCall.MessageTo a) ↔
      Reaches debugStr router message.channel message.sender a := by
  simp only [dispatchText, Reaches]
  split
  · exact mayAsk_broadcast hrespond text _
  · split
    · rename_i agentId hagent
      rw [mayAsk_forwardToAgent hrespond, hagent, Option.some.injEq]
    · rename_i hnone
      rw [hnone]
      exact iff_of_false (hrespond _) (Option.some_ne_none a).symm

end Messages

section SessionCommands

theorem mayAsk_withAgent {f : AgentId → Bridge (Except Str Str)}
    (hf : ∀ agentId, (f agentId).MayAsk p ↔ agentId = a) :
    (withAgent debugStr router message.sender f).MayAsk p ↔
      currentAgent debugStr router message.sender = some a := by
  rw [withAgent]
  split
  · rename_i agentId hagent
    rw [hagent, Option.some.injEq, ← hf]
    exact Dialogue.mayAsk_bind_done
  · rename_i hnone
    rw [hnone]
    exact iff_of_false (Dialogue.not_mayAsk_done _) (Option.some_ne_none a).symm

/-- A command about a session is about that of its sender's current agent. -/
theorem mayAsk_handleCommand {name : Str} {args : List Str} {command : BotCommand}
    (hname : BotCommand.ofName name = some command) (hsession : command.aboutSession) :
    (handleCommand debugStr name args router message.sender).MayAsk (BridgeCall.AboutSession a) ↔
      currentAgent debugStr router message.sender = some a := by
  have hcall : ∀ {c : BridgeCall} {agentId : AgentId}, (c.AboutSession a ↔ agentId = a) →
      ((call c).MayAsk (BridgeCall.AboutSession a) ↔ agentId = a) := by
    intro c agentId hc
    rw [← hc]
    exact or_iff_left fun ⟨_, h⟩ => h
  unfold handleCommand
  rw [hname]
  cases command with
  | new => exact mayAsk_withAgent fun agentId => hcall Iff.rfl
  | compact => exact mayAsk_withAgent fun agentId => hcall Iff.rfl
  | model => exact mayAsk_withAgent fun agentId => hcall Iff.rfl
  | stop => exact mayAsk_withAgent fun agentId => hcall Iff.rfl
  | usage => exact mayAsk_withAgent fun agentId => hcall Iff.rfl
  | think => exact mayAsk_withAgent fun agentId => hcall Iff.rfl
  | _ => cases hsession

end SessionCommands

end Dispatched

section Agreement

variable (debugStr : Str → Str) (formatForChannel : Str → OutputFormat → Str)
  (router : AgentRouter) (message : ChannelMessage)

/-- The commands about a session act, in a message to a channel, on the agents that a
plain text in its place is sent to. -/
def CommandsFollow : Prop :=
  ∀ content name args command text limiter now a,
    commandOf content = some (name, args) → BotCommand.ofName name = some command →
    command.aboutSession → slashCommand text = none →
    ((dispatchMessage debugStr formatForChannel { message with content := content } router limiter
        now).MayAsk (BridgeCall.AboutSession a) ↔
      (dispatchMessage debugStr formatForChannel { message with content := .text text } router
        limiter now).MayAsk (BridgeCall.MessageTo a))

/-- The agents of a broadcast are just the one that the command line has for its user;
one who gets none is routed alike on the channel and on the command line. -/
def RoutedAlike : Prop :=
  let sender := message.sender
  let targets := router.resolveBroadcast sender.platformId
  if router.hasBroadcast sender.platformId ∧ targets ≠ [] then
    ∀ a, (∃ name, (name, some a) ∈ targets) ↔
      (router.ownRoute debugStr .cli sender.platformId).or
        (router.sharedRoute sender.platformId sender.clawreformUser) = some a
  else router.RoutesAgree debugStr .cli sender.platformId sender.clawreformUser message.channel

theorem forall_reaches_iff :
    (∀ a, currentAgent debugStr router message.sender = some a ↔
      Reaches debugStr router message.channel message.sender a) ↔
      RoutedAlike debugStr router message := by
  simp only [Reaches, RoutedAlike]
  split
  · simp only [currentAgent, AgentRouter.resolve_eq]
    exact forall_congr' fun a => iff_comm
  · rw [← AgentRouter.resolve_eq_iff, currentAgent]
    exact ⟨fun h => Option.ext h, fun h a => by rw [h]⟩

/-- The commands act on another agent than the messages go to as soon as the channel or
a broadcast routes its user in another way than the command line does. -/
theorem commandsFollow_iff : CommandsFollow debugStr formatForChannel router message ↔
    RoutedAlike debugStr router message := by
  have hcommand : ∀ {content name args command limiter now a},
      commandOf content = some (name, args) → BotCommand.ofName name = some command →
      command.aboutSession → ((dispatchMessage debugStr formatForChannel
        { message with content := content } router limiter now).MayAsk
          (BridgeCall.AboutSession a) ↔ currentAgent debugStr router message.sender = some a) :=
    fun hcontent hname hsession =>
      (mayAsk_dispatch_command (not_aboutSession_of_agentless _) hcontent).trans
        (mayAsk_handleCommand hname hsession)
  have htext : ∀ {text limiter now a}, slashCommand text = none →
      ((dispatchMessage debugStr formatForChannel { message with content := .text text } router
        limiter now).MayAsk (BridgeCall.MessageTo a) ↔
          Reaches debugStr router message.channel message.sender a) :=
    fun hplain => mayAsk_dispatch_text (not_messageTo_of_agentless _) rfl hplain
      fun _ hrespond => mayAsk_dispatchText hrespond _
  rw [← forall_reaches_iff]
  constructor
  · intro h a
    have hnew := h (.command "new".toList []) "new".toList [] .new [] ∅ 0 a rfl ofName_new rfl rfl
    rwa [hcommand rfl ofName_new rfl, htext rfl] at hnew
  · intro h content name args command text limiter now a hcontent hname hsession hplain
    rw [hcommand hcontent hname hsession, htext hplain]
    exact h a

/-- A default agent, and another one for a user on Telegram. -/
def directRouter : AgentRouter :=
  (AgentRouter.new.setDefault 2).setDirectRoute "Telegram".toList ['u'] 1

def directMessage : ChannelMessage where
  channel := .telegram
  sender := ⟨['u'], ['u'], none⟩
  content := .text "/new".toList
  isGroup := false
  threadId := none

/-- The user talks to the first agent and starts a new session of the second. -/
theorem new_session_of_other_agent :
    ¬ CommandsFollow id (fun text _ => text) directRouter directMessage ∧
      currentAgent id directRouter directMessage.sender = some 2 ∧
      directRouter.resolve id .telegram ['u'] none = some 1 := by
  have hcurrent : currentAgent id directRouter directMessage.sender = some 2 := by decide
  have hresolve : directRouter.resolve id .telegram ['u'] none = some 1 := by decide
  refine ⟨fun h => ?_, hcurrent, hresolve⟩
  have hcommand : commandOf directMessage.content = some ("new".toList, []) := by decide
  have hreset := (h _ _ _ _ [] ∅ 0 2 hcommand ofName_new rfl rfl).mp
    ((mayAsk_dispatch_command (not_aboutSession_of_agentless 2) hcommand).mpr
      ((mayAsk_handleCommand ofName_new rfl).mpr hcurrent))
  have hreaches := (mayAsk_dispatch_text (not_messageTo_of_agentless 2) rfl rfl fun _ hrespond =>
    mayAsk_dispatchText hrespond []).mp hreset
  rw [reaches_of_not_broadcast (by decide)] at hreaches
  exact absurd (hresolve.symm.trans hreaches) (by decide)

end Agreement

end Clawreform.Channels
