import Clawreform.Wire.Registry

namespace Clawreform.Wire

open Clawreform.Lib.Text Clawreform.Lib.Store Clawreform.Types

section Types

/-- The keyed hash, from a secret and a text to the signature in hexadecimal digits. -/
abbrev Hmac := Str → Str → Str

structure PeerConfig where
  nodeId : Str
  nodeName : Str
  sharedSecret : Str
  deriving DecidableEq

/-- What surrounds a connection while it takes a turn: the answers of the kernel,
the identifiers drawn, the clock, and whether what is written gets out. -/
structure Surroundings where
  localAgents : List RemoteAgentInfo
  agentReply : Except Str Str
  discovered : List RemoteAgentInfo
  uptimeSecs : UInt64
  nonce : Uuid
  messageId : Uuid
  now : DateTime
  writes : Bool

/-- What a connection does, in order. -/
inductive Effect where
  | dialled (addr : SocketAddr)
  | received (msg : WireMessage)
  /-- A text is signed, in answer to a handshake with the nonce. -/
  | signed (data : Str) (answering : Option Str)
  | localAgents
  | agentMessage (agent message : Str) (sender : Option Str)
  | discover (query : Str)
  | uptime
  | wrote (msg : WireMessage) (complete : Bool)
  | registry (op : RegistryOp)
  | failed (e : WireError)
  | delivered (text : Str)
  deriving DecidableEq

inductive Side where
  | connecting
  | accepting
  deriving DecidableEq

/-- Where a connection stands, by what it reads next. -/
inductive Phase where
  | awaitingHandshake (addr : SocketAddr)
  | awaitingAck (addr : SocketAddr)
  | awaitingSendAck (agent message : Str) (sender : Option Str)
  | awaitingReply
  | looping (side : Side) (peerNodeId : Str)
  | closed
  deriving DecidableEq

end Types

section Connection

variable (hmacSign : Hmac) (config : PeerConfig) (env : Surroundings)

def hmacVerify (secret data signature : Str) : Bool := hmacSign secret data = signature

def authData (nonce : Uuid) : Str := nonce.toStr ++ config.nodeId

def handshake : WireMessage :=
  ⟨env.messageId.toStr, .request (.handshake config.nodeId config.nodeName protocolVersion
    env.localAgents env.nonce.toStr (hmacSign config.sharedSecret (authData config env.nonce)))⟩

/-- Dial and send the own handshake, and go on to the next phase. -/
def openWith (addr : SocketAddr) (next : Phase) : Phase × List Effect :=
  let effects := [.dialled addr, .signed (authData config env.nonce) none, .localAgents,
    .wrote (handshake hmacSign config env) env.writes]
  if env.writes then (next, effects) else (.closed, effects ++ [.failed .io])

def connectToPeer (addr : SocketAddr) : Phase × List Effect :=
  openWith hmacSign config env addr (.awaitingAck addr)

def sendToPeer (registry : PeerRegistry) (nodeId agent message : Str) (sender : Option Str) :
    Phase × List Effect :=
  match getPeer nodeId registry with
  | none => (.closed, [.failed (.handshakeFailed ("Unknown peer: ".toList ++ nodeId))])
  | some peer => openWith hmacSign config env peer.address (.awaitingSendAck agent message sender)

def showInt (i : Int32) : Str :=
  (if i.toInt < 0 then ['-'] else []) ++ showNat i.toInt.natAbs

def remoteError (code : Int32) (message : Str) : WireError :=
  .handshakeFailed ("Remote error ".toList ++ showInt code ++ ": ".toList ++ message)

/-- Who answered a handshake, when the answer is a valid one. -/
def checkAck (msg : WireMessage) : Except WireError (Str × Str × UInt32 × List RemoteAgentInfo) :=
  match msg.kind with
  | .response (.handshakeAck nodeId nodeName version agents nonce authHmac) =>
    if version ≠ protocolVersion then .error (.versionMismatch protocolVersion version)
    else if hmacVerify hmacSign config.sharedSecret (nonce ++ nodeId) authHmac = false then
      .error (.handshakeFailed "HMAC verification failed on HandshakeAck".toList)
    else .ok (nodeId, nodeName, version, agents)
  | .response (.error code message) => .error (remoteError code message)
  | .request _ | .response _ | .notification _ =>
    .error (.handshakeFailed "Unexpected response to handshake".toList)

variable {hmacSign config} in
theorem checkAck_ok {msg : WireMessage} {nodeId nodeName : Str} {version : UInt32}
    {agents : List RemoteAgentInfo}
    (h : checkAck hmacSign config msg = .ok (nodeId, nodeName, version, agents)) :
    ∃ nonce authHmac,
      msg.kind = .response (.handshakeAck nodeId nodeName version agents nonce authHmac) ∧
      hmacVerify hmacSign config.sharedSecret (nonce ++ nodeId) authHmac = true := by
  rw [checkAck] at h
  split at h
  · rename_i nonce authHmac hkind
    split at h
    · cases h
    · split at h
      · cases h
      · rename_i hverify
        cases h
        exact ⟨nonce, authHmac, hkind, by simpa using hverify⟩
  all_goals cases h

def readAck (addr : SocketAddr) : Except WireError WireMessage → Phase × List Effect
  | .error e => (.closed, [.failed e])
  | .ok msg =>
    match checkAck hmacSign config msg with
    | .error e => (.closed, [.received msg, .failed e])
    | .ok (nodeId, nodeName, version, agents) =>
      (.looping .connecting nodeId, [.received msg, .registry (.addPeer
        ⟨nodeId, nodeName, addr, agents, .connected, env.now, version⟩)])

def readSendAck (agent message : Str) (sender : Option Str) :
    Except WireError WireMessage → Phase × List Effect
  | .error e => (.closed, [.failed e])
  | .ok msg =>
    match checkAck hmacSign config msg with
    | .error e => (.closed, [.received msg, .failed e])
    | .ok _ =>
      let effects := [.received msg,
        .wrote ⟨env.messageId.toStr, .request (.agentMessage agent message sender)⟩ env.writes]
      if env.writes then (.awaitingReply, effects) else (.closed, effects ++ [.failed .io])

def readReply : Except WireError WireMessage → Phase × List Effect
  | .error e => (.closed, [.failed e])
  | .ok msg =>
    (.closed, [.received msg,
      match msg.kind with
      | .response (.agentResponse text) => .delivered text
      | .response (.error code message) => .failed (remoteError code message)
      | .request _ | .response _ | .notification _ =>
        .failed (.handshakeFailed "Unexpected response type".toList)])

/-- Answer the first message with an error and give the connection up. -/
def reject (msg : WireMessage) (code : Int32) (text : Str) (e : WireError) : Phase × List Effect :=
  (.closed, [.received msg, .wrote ⟨msg.id, .response (.error code text)⟩ env.writes,
    .failed (if env.writes then e else .io)])

def handshakeAck (id : Str) : WireMessage :=
  ⟨id, .response (.handshakeAck config.nodeId config.nodeName protocolVersion env.localAgents
    env.nonce.toStr (hmacSign config.sharedSecret (authData config env.nonce)))⟩

/-- Answer a valid handshake and register the peer under the address it called from. -/
def admitPeer (msg : WireMessage) (nonce : Str) (entry : PeerEntry) : Phase × List Effect :=
  let effects := [.received msg, .signed (authData config env.nonce) (some nonce), .localAgents,
    .wrote (handshakeAck hmacSign config env msg.id) env.writes]
  if env.writes then
    (.looping .accepting entry.nodeId, effects ++ [.registry (.addPeer entry)])
  else (.closed, effects ++ [.failed .io])

def handleInbound (addr : SocketAddr) : Except WireError WireMessage → Phase × List Effect
  | .error e => (.closed, [.failed e])
  | .ok msg =>
    match msg.kind with
    | .request (.handshake nodeId nodeName version agents nonce authHmac) =>
      if version ≠ protocolVersion then
        reject env msg 1 ("Protocol version mismatch: expected ".toList ++
          showNat protocolVersion.toNat ++ ", got ".toList ++ showNat version.toNat)
          (.versionMismatch protocolVersion version)
      else if hmacVerify hmacSign config.sharedSecret (nonce ++ nodeId) authHmac = false then
        reject env msg 403 "HMAC authentication failed".toList
          (.handshakeFailed "HMAC verification failed on incoming Handshake".toList)
      else
        admitPeer hmacSign config env msg nonce
          ⟨nodeId, nodeName, addr, agents, .connected, env.now, version⟩
    | .request _ | .response _ | .notification _ =>
      reject env msg 401 "Authentication required: complete HMAC handshake first".toList
        (.handshakeFailed "Rejected unauthenticated request — handshake required".toList)

/-- The message is a handshake of the right version, signed in the name of a node. -/
def Introduces (msg : WireMessage) (nodeId : Str) : Prop :=
  ∃ nodeName agents nonce authHmac,
    msg.kind = .request (.handshake nodeId nodeName protocolVersion agents nonce authHmac) ∧
    hmacVerify hmacSign config.sharedSecret (nonce ++ nodeId) authHmac = true

variable {hmacSign config} in
theorem Introduces.unique {msg : WireMessage} {nodeId nodeId' : Str}
    (h : Introduces hmacSign config msg nodeId) (h' : Introduces hmacSign config msg nodeId') :
    nodeId = nodeId' := by
  obtain ⟨_, _, _, _, hkind, -⟩ := h
  obtain ⟨_, _, _, _, hkind', -⟩ := h'
  rw [hkind] at hkind'
  cases hkind'
  rfl

/-- The first message is a handshake of the right version with a verified signature,
and is admitted, or the connection is closed. -/
theorem handleInbound_cases (addr : SocketAddr) (read : Except WireError WireMessage) :
    (∃ e, read = .error e ∧ handleInbound hmacSign config env addr read = (.closed, [.failed e])) ∨
    (∃ msg code text e, read = .ok msg ∧ (∀ nodeId, ¬ Introduces hmacSign config msg nodeId) ∧
      handleInbound hmacSign config env addr read = reject env msg code text e) ∨
    ∃ msg nodeId nodeName agents nonce authHmac, read = .ok msg ∧
      msg.kind = .request (.handshake nodeId nodeName protocolVersion agents nonce authHmac) ∧
      hmacVerify hmacSign config.sharedSecret (nonce ++ nodeId) authHmac = true ∧
      handleInbound hmacSign config env addr read = admitPeer hmacSign config env msg nonce
        ⟨nodeId, nodeName, addr, agents, .connected, env.now, protocolVersion⟩ := by
  cases read with
  | error e => exact .inl ⟨e, rfl, rfl⟩
  | ok msg =>
    right
    simp only [handleInbound]
    split
    · rename_i nodeId nodeName version agents nonce authHmac hkind
      split
      · rename_i hversion
        refine .inl ⟨msg, _, _, _, rfl, ?_, rfl⟩
        rintro other ⟨_, _, _, _, hkind', -⟩
        rw [hkind] at hkind'
        cases hkind'
        exact hversion rfl
      · rename_i hversion
        obtain rfl : version = protocolVersion := not_not.mp hversion
        split
        · rename_i hverify
          refine .inl ⟨msg, _, _, _, rfl, ?_, rfl⟩
          rintro other ⟨_, _, _, _, hkind', hverify'⟩
          rw [hkind] at hkind'
          cases hkind'
          rw [hverify] at hverify'
          cases hverify'
        · rename_i hverify
          exact .inr ⟨msg, nodeId, nodeName, agents, nonce, authHmac, rfl, hkind,
            by simpa using hverify, rfl⟩
    · rename_i hother hkind
      refine .inl ⟨msg, _, _, _, rfl, ?_, rfl⟩
      rintro other ⟨_, _, _, _, hkind', -⟩
      rw [hkind] at hkind'
      cases hkind'
      exact hother _ _ _ _ _ _ rfl
    all_goals
      rename_i hkind
      refine .inl ⟨msg, _, _, _, rfl, ?_, rfl⟩
      rintro other ⟨_, _, _, _, hkind', -⟩
      rw [hkind] at hkind'
      cases hkind'

/-- The calls a request makes to the kernel, and the response to it. -/
def handleRequestInLoop : WireRequest → List Effect × WireResponse
  | .ping => ([.uptime], .pong env.uptimeSecs)
  | .discover query => ([.discover query], .discoverResult env.discovered)
  | .agentMessage agent message sender =>
    ([.agentMessage agent message sender],
      match env.agentReply with
      | .ok text => .agentResponse text
      | .error e => .error 500 e)
  | .handshake _ _ _ _ _ _ => ([], .error 400 "Unexpected request in connection loop".toList)

def handleNotification (peerNodeId : Str) : WireNotification → RegistryOp
  | .agentSpawned agent => .addAgent peerNodeId agent
  | .agentTerminated agentId => .removeAgent peerNodeId agentId
  | .shuttingDown => .markDisconnected peerNodeId

/-- One round of the loop. When the loop ends the peer is marked as disconnected. -/
def connectionLoop (side : Side) (peerNodeId : Str) :
    Except WireError WireMessage → Phase × List Effect
  | .error _ => (.closed, [.registry (.markDisconnected peerNodeId)])
  | .ok msg =>
    match msg.kind with
    | .notification notif =>
      (.looping side peerNodeId, [.received msg, .registry (handleNotification peerNodeId notif)])
    | .request request =>
      let answer := handleRequestInLoop env request
      let effects := .received msg :: answer.1 ++ [.wrote ⟨msg.id, .response answer.2⟩ env.writes]
      if env.writes then (.looping side peerNodeId, effects)
      else (.closed, effects ++ [.registry (.markDisconnected peerNodeId)])
    | .response _ => (.looping side peerNodeId, [.received msg])

def Phase.step : Phase → Except WireError WireMessage → Phase × List Effect
  | .awaitingHandshake addr => handleInbound hmacSign config env addr
  | .awaitingAck addr => readAck hmacSign config env addr
  | .awaitingSendAck agent message sender => readSendAck hmacSign config env agent message sender
  | .awaitingReply => readReply
  | .looping side peerNodeId => connectionLoop env side peerNodeId
  | .closed => fun _ => (.closed, [])

end Connection

section Nodes

abbrev ConnId := Nat

structure Node where
  registry : PeerRegistry
  connections : Map ConnId Phase

/-- What can happen to a connection of a node: it is taken from the listener, it
is dialled by one of the two functions, or it reads. -/
inductive Action where
  | accept (addr : SocketAddr)
  | connect (addr : SocketAddr)
  | send (nodeId agent message : Str) (sender : Option Str)
  | read (result : Except WireError WireMessage)

variable (hmacSign : Hmac) (config : PeerConfig)

def Effect.register : Effect → PeerRegistry → PeerRegistry
  | .registry op => op.apply
  | .dialled _ | .received _ | .signed _ _ | .localAgents | .agentMessage _ _ _ | .discover _ | .uptime
  | .wrote _ _ | .failed _ | .delivered _ => id

/-- A connection comes to a phase by some effects. -/
def Node.absorb (node : Node) (conn : ConnId) (result : Phase × List Effect) : Node × List Effect :=
  (⟨result.2.foldl (fun peers effect => effect.register peers) node.registry,
    node.connections.insert conn result.1⟩, result.2)

/-- A connection is opened once, and reads while it is open. -/
def Node.act (node : Node) (env : Surroundings) (conn : ConnId) (action : Action) :
    Node × List Effect :=
  match node.connections.lookup conn, action with
  | none, .accept addr => node.absorb conn (.awaitingHandshake addr, [])
  | none, .connect addr => node.absorb conn (connectToPeer hmacSign config env addr)
  | none, .send nodeId agent message sender =>
    node.absorb conn (sendToPeer hmacSign config env node.registry nodeId agent message sender)
  | some phase, .read result => node.absorb conn (phase.step hmacSign config env result)
  | none, .read _ | some _, .accept _ | some _, .connect _ | some _, .send _ _ _ _ => (node, [])

end Nodes

section Network

/-- Nodes that share a secret, each known by its id. -/
structure Setting where
  hmacSign : Hmac
  sharedSecret : Str
  nodeName : Str → Str

def Setting.config (S : Setting) (nodeId : Str) : PeerConfig := ⟨nodeId, S.nodeName nodeId, S.sharedSecret⟩

abbrev Network := Str → Node

structure Move where
  node : Str
  conn : ConnId
  action : Action
  env : Surroundings

/-- An effect, and the connection it is an effect of. -/
structure Trace where
  node : Str
  conn : ConnId
  effect : Effect
  deriving DecidableEq

def Network.new : Network := fun _ => ⟨∅, ∅⟩

def Network.step (S : Setting) (net : Network) (move : Move) : Network × List Trace :=
  let result := (net move.node).act S.hmacSign (S.config move.node) move.env move.conn move.action
  (Function.update net move.node result.1, result.2.map (⟨move.node, move.conn, ·⟩))

variable (S : Setting) (net : Network) (move : Move)

theorem Network.step_self : (net.step S move).1 move.node =
    ((net move.node).act S.hmacSign (S.config move.node) move.env move.conn move.action).1 :=
  Function.update_self ..

theorem Network.step_other {n : Str} (hn : n ≠ move.node) : (net.step S move).1 n = net n :=
  Function.update_of_ne hn ..

end Network

section Plain

/-- A stand-in for the keyed hash: under one secret different texts are signed
differently. -/
def plainSetting : Setting where
  hmacSign secret data := secret ++ '/' :: data
  sharedSecret := "key".toList
  nodeName nodeId := nodeId

def quietly : Surroundings where
  localAgents := []
  agentReply := .ok []
  discovered := []
  uptimeSecs := 0
  nonce := 1
  messageId := 2
  now := 0
  writes := true

def signedBy (nonce nodeId : Str) : Str :=
  plainSetting.hmacSign plainSetting.sharedSecret (nonce ++ nodeId)

def nodeOne : Str := "node-1".toList

def nodeTwo : Str := "node-2".toList

end Plain

end Clawreform.Wire
