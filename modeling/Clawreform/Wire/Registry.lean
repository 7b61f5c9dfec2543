import Clawreform.Lib.Store
import Clawreform.Types.Agent
import Clawreform.Wire.Message

namespace Clawreform.Wire

open Clawreform.Lib.Text Clawreform.Lib.Store Clawreform.Types

structure SocketAddr where
  ip : Str
  port : UInt16
  deriving DecidableEq

inductive PeerState where
  | connected
  | disconnected
  deriving DecidableEq

structure PeerEntry where
  nodeId : Str
  nodeName : Str
  address : SocketAddr
  agents : List RemoteAgentInfo
  state : PeerState
  connectedAt : DateTime
  protocolVersion : UInt32
  deriving DecidableEq

abbrev PeerRegistry := Map Str PeerEntry

/-- The changes the connections of a node make to its registry. -/
inductive RegistryOp where
  | addPeer (entry : PeerEntry)
  | markDisconnected (nodeId : Str)
  | addAgent (nodeId : Str) (agent : RemoteAgentInfo)
  | removeAgent (nodeId agentId : Str)
  deriving DecidableEq

section Operations

def addPeer (entry : PeerEntry) (peers : PeerRegistry) : PeerRegistry :=
  peers.insert entry.nodeId entry

def markDisconnected (nodeId : Str) (peers : PeerRegistry) : PeerRegistry :=
  adjust nodeId (fun entry => { entry with state := .disconnected }) peers

/-- An agent with the same id is replaced where it stands. -/
def withAgent (agent : RemoteAgentInfo) : List RemoteAgentInfo → List RemoteAgentInfo
  | [] => [agent]
  | a :: agents => if a.id = agent.id then agent :: agents else a :: withAgent agent agents

def addAgent (nodeId : Str) (agent : RemoteAgentInfo) (peers : PeerRegistry) : PeerRegistry :=
  adjust nodeId (fun entry => { entry with agents := withAgent agent entry.agents }) peers

def removeAgent (nodeId agentId : Str) (peers : PeerRegistry) : PeerRegistry :=
  adjust nodeId (fun entry => { entry with agents := entry.agents.filter (·.id ≠ agentId) }) peers

def getPeer (nodeId : Str) (peers : PeerRegistry) : Option PeerEntry := peers.lookup nodeId

def RegistryOp.apply : RegistryOp → PeerRegistry → PeerRegistry
  | .addPeer entry => Wire.addPeer entry
  | .markDisconnected nodeId => Wire.markDisconnected nodeId
  | .addAgent nodeId agent => Wire.addAgent nodeId agent
  | .removeAgent nodeId agentId => Wire.removeAgent nodeId agentId

end Operations

end Clawreform.Wire
