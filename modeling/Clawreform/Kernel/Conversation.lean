import Clawreform.Lib.Run
import Clawreform.Memory.Session
import Clawreform.Runtime.TurnSaves

namespace Clawreform.Kernel.Conversation

open Clawreform.Lib Clawreform.Lib.Text Clawreform.Lib.Run
open Clawreform.Types Clawreform.Memory Clawreform.Runtime
open Clawreform.Runtime.SessionRepair Clawreform.Runtime.Exchanges Clawreform.Runtime.TurnSaves

variable {κ : Type} [DecidableEq κ]

section Calls

/-- A call of `send_message` or `send_message_streaming`, with what it will be told. -/
structure Send (κ : Type) where
  streaming : Bool
  module : Str
  systemPrompt : Str
  message : Str
  linkContext : Option Str
  /-- Everything else the loop is given. -/
  args : Args κ
  /-- The result of the WASM or Python runtime. -/
  external : Option AgentLoopResult
  /-- The summary that `compact_session` makes of the older messages. -/
  summary : List Message → Str

namespace Send

def isLlm (send : Send κ) : Prop :=
  ¬ "wasm:".toList <+: send.module ∧ ¬ "python:".toList <+: send.module

instance (send : Send κ) : Decidable send.isLlm :=
  inferInstanceAs (Decidable (_ ∧ _))

def messageWithLinks (send : Send κ) : Str := send.message ++ send.linkContext.getD []

def run (send : Send κ) (session : List Message) : Exit × Loop κ :=
  let args := { send.args with userMessage := send.messageWithLinks }
  if send.streaming then runAgentLoopStreaming args session else runAgentLoop args session

end Send

/-- A send that returned `Ok`; one by the agent loop has a run. -/
structure Answer (κ : Type) where
  send : Send κ
  run : Option (Exit × Loop κ)
  result : AgentLoopResult

/-- What a compaction goes on with: a streaming turn and the session it has loaded. -/
abbrev Next (κ : Type) := Option (Send κ × Session)

/-- How far a call has come; each constructor stands in front of one atomic step. -/
inductive Call (κ : Type) where
  | send (send : Send κ)
  | load (send : Send κ) (id : SessionId)
  | compact (summary : List Message → Str) (next : Next κ)
  | loadOld (summary : List Message → Str) (next : Next κ) (id : SessionId)
  | summarize (summary : List Message → Str) (next : Next κ) (session : Session)
  | storeSummary (canonical : CanonicalSession) (next : Next κ) (session : Session)
  | shrink (next : Next κ) (session : Session)
  | reload (send : Send κ) (session : Session)
  /-- `seen` are the messages of the row as the call left them or found them. -/
  | turn (send : Send κ) (session : Session) (seen : List Message) (saves : List (List Message))
      (run : Exit × Loop κ)
  | ended (send : Send κ) (messagesBefore : Nat) (run : Exit × Loop κ)
  | append (answer : Answer κ) (canonical : CanonicalSession)
  | reset (deleted : Bool) (new : SessionId)
  | delete (deleted : Bool) (id new : SessionId)
  | create (new : SessionId)
  | point (new : SessionId)
  | done

/-- The state that the calls for one agent share, and the answers since the last reset. -/
structure Talk (κ : Type) where
  store : SessionStore
  sessionId : SessionId
  calls : List (Call κ)
  answered : List (Answer κ)

end Calls

section Steps

def threshold : Nat := 30

def keepRecent : Nat := 10

def needsCompaction (session : Session) : Prop := threshold < session.messages.length

def needsCompactionByTokens (estimatedTokens : Nat) : Prop := 140000 < estimatedTokens

instance (session : Session) : Decidable (needsCompaction session) :=
  inferInstanceAs (Decidable (_ < _))

instance (estimatedTokens : Nat) : Decidable (needsCompactionByTokens estimatedTokens) :=
  inferInstanceAs (Decidable (_ < _))

def toCompact (messages : List Message) : List Message :=
  messages.take (messages.length - keepRecent)

def keptMessages (messages : List Message) : List Message :=
  messages.drop (messages.length - keepRecent)

variable (agentId : AgentId) (s : Talk κ)

def Talk.loadSession (id : SessionId) : Session :=
  ((s.store.getSession id).map fun row => { row with id := id }).getD (.empty id agentId none)

omit [DecidableEq κ] in
theorem loadSession_id (id : SessionId) : (s.loadSession agentId id).id = id := by
  unfold Talk.loadSession
  cases s.store.getSession id <;> rfl

def Talk.save (session : Session) (messages : List Message) : Talk κ :=
  { s with store := s.store.saveSession { session with messages := messages } }

/-- The turn saves its sessions one by one. -/
def settle (send : Send κ) (session : Session) (seen : List Message) (run : Exit × Loop κ) :
    List (List Message) → Call κ
  | [] => .ended send session.messages.length run
  | saved :: saves => .turn send session seen (saved :: saves) run

def beginTurn (send : Send κ) (session : Session) (seen : List Message) : Call κ :=
  let run := send.run session.messages
  settle send session seen run (savedSessions run.2.log)

/-- What a compaction that returns `Ok` goes on with. -/
def afterCompaction : Next κ → Call κ
  | none => .done
  | some (send, session) => .reload send session

def estimate (send : Send κ) (session : Session) : Nat :=
  estimateTokens session.messages send.systemPrompt []

def summaryOf (summary : List Message → Str) (session : Session) : CanonicalSession :=
  { s.store.loadCanonical agentId with
    compactedSummary := some (summary (toCompact session.messages))
    messages := keptMessages session.messages
    compactionCursor := 0 }

/-- One atomic step of a call: the shared state, how far the call has come, and what it returns. -/
def advance : Call κ → Talk κ × Call κ × List (Answer κ)
  | .send send =>
    if send.isLlm then (s, .load send s.sessionId, [])
    else (s, .done, (send.external.map fun result => ⟨send, none, result⟩).toList)
  | .load send id =>
    let session := s.loadSession agentId id
    if send.streaming ∧ (needsCompaction session ∨
        needsCompactionByTokens (estimate send session)) then
      (s, .compact send.summary (some (send, session)), [])
    else (s, beginTurn send session session.messages, [])
  | .compact summary next => (s, .loadOld summary next s.sessionId, [])
  | .loadOld summary next id =>
    let session := s.loadSession agentId id
    if needsCompaction session then (s, .summarize summary next session, [])
    else (s, afterCompaction next, [])
  | .summarize summary next session =>
    (s, .storeSummary (summaryOf agentId s summary session) next session, [])
  | .storeSummary canonical next session =>
    ({ s with store := s.store.saveCanonical canonical }, .shrink next session, [])
  | .shrink next session =>
    (s.save session (validateAndRepair (keptMessages session.messages)), afterCompaction next, [])
  | .reload send session =>
    match s.store.getSession session.id with
    | some row => (s, beginTurn send { row with id := session.id } row.messages, [])
    | none => (s, beginTurn send session [], [])
  | .turn send session _ saves run =>
    match saves with
    | [] => (s, .ended send session.messages.length run, [])
    | saved :: saves =>
      (s.save session saved, settle send session saved run saves, [])
  | .ended send messagesBefore run =>
    match run.1 with
    | .returned result =>
      if messagesBefore < run.2.session.length then
        match (s.store.loadCanonical agentId).append (run.2.session.drop messagesBefore) with
        | some canonical => (s, .append ⟨send, some run, result⟩ canonical, [])
        | none => (s, .done, [])
      else (s, .done, [⟨send, some run, result⟩])
    | _ => (s, .done, [])
  | .append answer canonical =>
    ({ s with store := s.store.saveCanonical canonical }, .done, [answer])
  | .reset deleted new => (s, .delete deleted s.sessionId new, [])
  | .delete deleted id new =>
    ({ s with
        store := if deleted then s.store.deleteSession id else s.store
        answered := [] }, .create new, [])
  | .create new => ({ s with store := s.store.createSession agentId new }, .point new, [])
  | .point new => ({ s with sessionId := new }, .done, [])
  | .done => (s, .done, [])

/-- The step a call stands in front of fails: a turn goes on without its compaction and without
the canonical session, and every other call is over. -/
def abandon : Call κ → Call κ × List (Answer κ)
  | .compact _ (some (send, session)) => (beginTurn send session session.messages, [])
  | .loadOld _ (some (send, session)) _ => (beginTurn send session session.messages, [])
  | .summarize _ (some (send, session)) _ => (beginTurn send session session.messages, [])
  | .storeSummary _ (some (send, session)) _ => (beginTurn send session session.messages, [])
  | .shrink (some (send, session)) _ => (beginTurn send session session.messages, [])
  | .reload send session => (beginTurn send session session.messages, [])
  | .ended send _ run =>
    match run.1 with
    | .returned result => (.done, [⟨send, some run, result⟩])
    | _ => (.done, [])
  | .append answer _ => (.done, [answer])
  | _ => (.done, [])

inductive Request (κ : Type) where
  | sendMessage (send : Send κ)
  | compactAgentSession (summary : List Message → Str)
  | resetSession (deleted : Bool) (new : SessionId)

def Request.call : Request κ → Call κ
  | .sendMessage send => .send send
  | .compactAgentSession summary => .compact summary none
  | .resetSession deleted new => .reset deleted new

inductive Op (κ : Type) where
  | call (request : Request κ)
  | step (i : Nat)
  | fail (i : Nat)

def step (op : Op κ) : Talk κ × List (Answer κ) :=
  match op with
  | .call request => ({ s with calls := s.calls ++ [request.call] }, [])
  | .step i =>
    match s.calls[i]? with
    | none => (s, [])
    | some c =>
      let (s', c', answers) := advance agentId s c
      ({ s' with calls := s.calls.set i c', answered := s'.answered ++ answers }, answers)
  | .fail i =>
    match s.calls[i]? with
    | none => (s, [])
    | some c =>
      let (c', answers) := abandon c
      ({ s with calls := s.calls.set i c', answered := s.answered ++ answers }, answers)

end Steps

section Purpose

variable (agentId : AgentId) (store : SessionStore)

/-- The messages of a session. -/
def row (id : SessionId) : List Message := ((store.getSession id).map (·.messages)).getD []

/-- An empty text is in every summary. -/
def InSummary (text : Str) : Prop :=
  text = [] ∨ ∃ summary ∈ (store.loadCanonical agentId).compactedSummary, text <:+: summary

/-- The session or the summary has the text. -/
def Contains (id : SessionId) (role : Role) (text : Str) : Prop :=
  InSummary agentId store text ∨
    ∃ m ∈ row store id, m.role = role ∧ ∃ t ∈ texts m, text <:+: t

def Answer.stored (x : Answer κ) : Str := sanitizeVisibleResponse x.result.response

/-- An answer of the agent loop whose last save went through, in a turn without a no-reply. -/
def Answer.Lasting (x : Answer κ) : Prop :=
  ∃ run ∈ x.run, Voiced run.2.log ∧
    (savedSessions run.2.log).getLast? = some run.2.session

instance (text : Str) : Decidable (InSummary agentId store text) :=
  inferInstanceAs (Decidable (_ ∨ _))

instance (id : SessionId) (role : Role) (text : Str) :
    Decidable (Contains agentId store id role text) :=
  inferInstanceAs (Decidable (_ ∨ _))

instance (x : Answer κ) : Decidable x.Lasting :=
  inferInstanceAs (Decidable (∃ run ∈ x.run, _))

/-- The answer a call is about to return. -/
def Call.answer? : Call κ → Option (Answer κ)
  | .ended sent _ run =>
    match run.1 with
    | .returned result => some ⟨sent, some run, result⟩
    | _ => none
  | .append answer _ => some answer
  | _ => none

/-- The session of a send that has not saved its last one yet. -/
def Call.sessionId? : Call κ → Option SessionId
  | .load _ id => some id
  | .compact _ next => next.map (·.2.id)
  | .loadOld _ next _ => next.map (·.2.id)
  | .summarize _ next _ => next.map (·.2.id)
  | .storeSummary _ next _ => next.map (·.2.id)
  | .shrink next _ => next.map (·.2.id)
  | .reload _ session => some session.id
  | .turn _ session _ _ _ => some session.id
  | _ => none

variable (s : Talk κ)

/-- The answers that were returned since the last reset, or will be. -/
def Talk.due : List (Answer κ) := s.answered ++ s.calls.filterMap Call.answer?

/-- No send is on its way. -/
def Talk.Idle : Prop := ∀ c ∈ s.calls, c.sessionId? = none ∧ c.answer? = none

/-- Every send that returned `Ok` since the last reset is in the session or in its summary. -/
def Talk.Remembers (told : Answer κ → Str) (counts : Answer κ → Prop) : Prop :=
  ∀ x ∈ s.answered, counts x → Contains agentId s.store s.sessionId .user x.send.message ∧
    Contains agentId s.store s.sessionId .assistant (told x)

/-- The new canonical session has what the summary had. -/
def Spares (canonical : CanonicalSession) : Prop :=
  ∀ x ∈ s.due, x.Lasting → ∀ text ∈ [x.send.messageWithLinks, x.stored],
    InSummary agentId s.store text → InSummary agentId (s.store.saveCanonical canonical) text

/-- A save finds the session as the call left or found it, a summary has what it replaces, and a
reset finds no send on its way. -/
def Undisturbed : Op κ → Prop
  | .step i =>
    match s.calls[i]? with
    | some (.turn _ session seen _ _) => session.id = s.sessionId → row s.store s.sessionId = seen
    | some (.storeSummary canonical _ _) => Spares agentId s canonical
    | some (.append _ canonical) => Spares agentId s canonical
    | some (.shrink _ session) => session.id = s.sessionId →
      row s.store s.sessionId = session.messages ∧
        ∀ x ∈ s.due, x.Lasting → ∀ text ∈ [x.send.messageWithLinks, x.stored],
          (∃ m ∈ toCompact session.messages, text ∈ texts m) → InSummary agentId s.store text
    | some (.delete _ _ _) => s.Idle
    | some (.create _) => s.Idle ∧ s.answered = []
    | some (.point _) => s.Idle ∧ s.answered = []
    | _ => True
  | _ => True

instance (told : Answer κ → Str) (counts : Answer κ → Prop) [DecidablePred counts] :
    Decidable (s.Remembers agentId told counts) :=
  inferInstanceAs (Decidable (∀ x ∈ s.answered, _))

instance : Decidable s.Idle := inferInstanceAs (Decidable (∀ c ∈ s.calls, _))

instance (canonical : CanonicalSession) : Decidable (Spares agentId s canonical) :=
  inferInstanceAs (Decidable (∀ x ∈ s.due, _))

instance (op : Op κ) : Decidable (Undisturbed agentId s op) := by
  unfold Undisturbed
  split
  · split <;> infer_instance
  · infer_instance

end Purpose

end Clawreform.Kernel.Conversation
