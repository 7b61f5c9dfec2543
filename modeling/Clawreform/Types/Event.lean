import Clawreform.Lib.Binary64
import Clawreform.Types.Agent

namespace Clawreform.Types

open Clawreform.Lib Clawreform.Lib.Text

inductive MessageRole where
  | user
  | agent
  | system
  | tool
  deriving DecidableEq

structure AgentMessage where
  content : Str
  role : MessageRole
  deriving DecidableEq

structure ToolOutput where
  toolId : Str
  content : Str
  success : Bool
  executionTimeMs : UInt64
  deriving DecidableEq

inductive MemoryOperation where
  | created
  | updated
  | deleted
  deriving DecidableEq

structure MemoryDelta where
  operation : MemoryOperation
  key : Str
  agentId : AgentId
  deriving DecidableEq

inductive LifecycleEvent where
  | spawned (agentId : AgentId) (name : Str)
  | started (agentId : AgentId)
  | suspended (agentId : AgentId)
  | resumed (agentId : AgentId)
  | terminated (agentId : AgentId) (reason : Str)
  | crashed (agentId : AgentId) (error : Str)
  deriving DecidableEq

inductive NetworkEvent where
  | peerConnected (peerId : Str)
  | peerDisconnected (peerId : Str)
  | messageReceived (fromPeer fromAgent : Str)
  | discoveryResult (service : Str) (providers : List Str)
  deriving DecidableEq

/-- The bits of an `f32`. -/
abbrev Float32Bits := BitVec 32

inductive SystemEvent where
  | kernelStarted
  | kernelStopping
  | quotaWarning (agentId : AgentId) (resource : Str) (usagePercent : Float32Bits)
  | healthCheck (status : Str)
  | quotaEnforced (agentId : AgentId) (spent limit : Binary64)
  | modelRouted (agentId : AgentId) (complexity model : Str)
  | userAction (userId action result : Str)
  | healthCheckFailed (agentId : AgentId) (unresponsiveSecs : UInt64)
  deriving DecidableEq

inductive EventPayload where
  | message (msg : AgentMessage)
  | toolResult (tr : ToolOutput)
  | memoryUpdate (delta : MemoryDelta)
  | lifecycle (event : LifecycleEvent)
  | network (event : NetworkEvent)
  | system (event : SystemEvent)
  | custom (data : List UInt8)
  deriving DecidableEq

structure Event where
  payload : EventPayload
  deriving DecidableEq

end Clawreform.Types
