import Clawreform.Lib.Store
import Clawreform.Types.Agent
import Clawreform.Types.Message

namespace Clawreform.Memory

open Clawreform.Lib.Text Clawreform.Lib.Store Clawreform.Types

structure Session where
  id : SessionId
  agentId : AgentId
  messages : List Message
  contextWindowTokens : UInt64
  label : Option Str
  deriving DecidableEq

def Session.empty (id : SessionId) (agentId : AgentId) (label : Option Str) : Session :=
  ⟨id, agentId, [], 0, label⟩

structure CanonicalSession where
  agentId : AgentId
  messages : List Message
  compactionCursor : Nat
  compactedSummary : Option Str
  deriving DecidableEq

def CanonicalSession.empty (agentId : AgentId) : CanonicalSession := ⟨agentId, [], 0, none⟩

section Compaction

def defaultCanonicalWindow : Nat := 50

def defaultCompactionThreshold : Nat := 100

def roleLabel : Role → Str
  | .user => "User".toList
  | .assistant => "Assistant".toList
  | .system => "System".toList

/-- The line of a message in the summary; a message without a text has none. A cut inside a
character panics. -/
def summaryPart (m : Message) : Option (List Str) :=
  let text := m.content.textContent
  if text = [] then some []
  else do
    let truncated ← if 200 < byteLen text then (splitBytes 200 text).map (·.1 ++ "...".toList)
      else some text
    some [roleLabel m.role ++ ": ".toList ++ truncated]

/-- `append_canonical` up to the save: over the threshold the older messages go into the summary,
of which the last 4000 bytes stay. -/
def CanonicalSession.append (c : CanonicalSession) (new : List Message) :
    Option CanonicalSession :=
  let messages := c.messages ++ new
  let toCompact := messages.length - defaultCanonicalWindow
  if defaultCompactionThreshold < messages.length ∧ c.compactionCursor < toCompact then do
    let parts ← ((messages.take toCompact).drop c.compactionCursor).mapM summaryPart
    let full := "\n".toList.intercalate (c.compactedSummary.toList ++ parts.flatten)
    let summary ← if 4000 < byteLen full then (splitBytes (byteLen full - 4000) full).map (·.2)
      else some full
    some { c with
      messages := messages.drop toCompact
      compactionCursor := 0
      compactedSummary := some summary }
  else some { c with messages := messages }

end Compaction

/-- The tables of the sessions and of the canonical sessions. -/
structure SessionStore where
  sessions : Map SessionId Session
  canonical : Map AgentId CanonicalSession
  deriving DecidableEq

namespace SessionStore

variable (s : SessionStore)

def getSession (id : SessionId) : Option Session := s.sessions.lookup id

/-- A row that is there keeps its agent. -/
def saveSession (session : Session) : SessionStore :=
  let owner := ((s.getSession session.id).map (·.agentId)).getD session.agentId
  { s with sessions := s.sessions.insert session.id { session with agentId := owner } }

def deleteSession (id : SessionId) : SessionStore := { s with sessions := s.sessions.erase id }

def deleteAgentSessions (agentId : AgentId) : SessionStore :=
  { s with sessions := retain (fun _ session => session.agentId ≠ agentId) s.sessions }

def setSessionLabel (id : SessionId) (label : Option Str) : SessionStore :=
  { s with sessions := adjust id (fun session => { session with label := label }) s.sessions }

/-- `id` is the new session's random id. -/
def createSessionWithLabel (agentId : AgentId) (label : Option Str) (id : SessionId) :
    SessionStore :=
  s.saveSession (.empty id agentId label)

def createSession (agentId : AgentId) (id : SessionId) : SessionStore :=
  s.createSessionWithLabel agentId none id

def loadCanonical (agentId : AgentId) : CanonicalSession :=
  (s.canonical.lookup agentId).getD (.empty agentId)

def saveCanonical (canonical : CanonicalSession) : SessionStore :=
  { s with canonical := s.canonical.insert canonical.agentId canonical }

/-- The summary replaces the one before it. -/
def storeLlmSummary (agentId : AgentId) (summary : Str) (kept : List Message) : SessionStore :=
  s.saveCanonical
    { s.loadCanonical agentId with
      compactedSummary := some summary, messages := kept, compactionCursor := 0 }

variable {s} {session : Session} {id : SessionId} {agentId : AgentId} {label : Option Str}

theorem getSession_saveSession : (s.saveSession session).getSession id =
    if id = session.id then
      some { session with
        agentId := ((s.getSession session.id).map (·.agentId)).getD session.agentId }
    else s.getSession id :=
  lookup_insert _ _ _ _

theorem getSession_deleteSession {deleted : SessionId} : (s.deleteSession deleted).getSession id =
    if id = deleted then none else s.getSession id :=
  lookup_erase _ _ _

theorem getSession_deleteAgentSessions : (s.deleteAgentSessions agentId).getSession id =
    some session ↔ s.getSession id = some session ∧ session.agentId ≠ agentId := by
  rw [getSession, deleteAgentSessions, lookup_retain, decide_eq_true_eq]
  exact Iff.rfl

theorem getSession_createSession {new : SessionId} : (s.createSession agentId new).getSession id =
    if id = new then
      some ⟨new, ((s.getSession new).map (·.agentId)).getD agentId, [], 0, none⟩
    else s.getSession id :=
  getSession_saveSession

end SessionStore

end Clawreform.Memory
