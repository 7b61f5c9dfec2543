import Clawreform.Lib.Text

namespace Clawreform.Lib.BigEndian

abbrev Bytes := List UInt8

/-- The bytes of a word, the most significant first. -/
def toBeBytes (n : UInt32) : Bytes :=
  [UInt8.ofNat (n.toNat / 2 ^ 24), UInt8.ofNat (n.toNat / 2 ^ 16), UInt8.ofNat (n.toNat / 2 ^ 8),
    UInt8.ofNat n.toNat]

def fromBeBytes (b₀ b₁ b₂ b₃ : UInt8) : UInt32 :=
  UInt32.ofNat (b₀.toNat * 2 ^ 24 + b₁.toNat * 2 ^ 16 + b₂.toNat * 2 ^ 8 + b₃.toNat)

theorem fromBeBytes_toBeBytes (n : UInt32) :
    fromBeBytes (UInt8.ofNat (n.toNat / 2 ^ 24)) (UInt8.ofNat (n.toNat / 2 ^ 16))
      (UInt8.ofNat (n.toNat / 2 ^ 8)) (UInt8.ofNat n.toNat) = n := by
  have hlt : n.toNat < 2 ^ 32 := n.toNat_lt
  have hsum : n.toNat / 2 ^ 24 % 2 ^ 8 * 2 ^ 24 + n.toNat / 2 ^ 16 % 2 ^ 8 * 2 ^ 16 +
      n.toNat / 2 ^ 8 % 2 ^ 8 * 2 ^ 8 + n.toNat % 2 ^ 8 = n.toNat := by omega
  simp only [fromBeBytes, UInt8.toNat_ofNat', hsum]
  exact UInt32.ofNat_toNat

end Clawreform.Lib.BigEndian

namespace Clawreform.Wire

open Clawreform.Lib.Text Clawreform.Lib.BigEndian

section Messages

structure RemoteAgentInfo where
  id : Str
  name : Str
  description : Str
  tags : List Str
  tools : List Str
  state : Str
  deriving DecidableEq

inductive WireRequest where
  | handshake (nodeId nodeName : Str) (protocolVersion : UInt32) (agents : List RemoteAgentInfo)
      (nonce authHmac : Str)
  | discover (query : Str)
  | agentMessage (agent message : Str) (sender : Option Str)
  | ping
  deriving DecidableEq

inductive WireResponse where
  | handshakeAck (nodeId nodeName : Str) (protocolVersion : UInt32) (agents : List RemoteAgentInfo)
      (nonce authHmac : Str)
  | discoverResult (agents : List RemoteAgentInfo)
  | agentResponse (text : Str)
  | pong (uptimeSecs : UInt64)
  | error (code : Int32) (message : Str)
  deriving DecidableEq

inductive WireNotification where
  | agentSpawned (agent : RemoteAgentInfo)
  | agentTerminated (agentId : Str)
  | shuttingDown
  deriving DecidableEq

inductive WireMessageKind where
  | request (request : WireRequest)
  | response (response : WireResponse)
  | notification (notification : WireNotification)
  deriving DecidableEq

structure WireMessage where
  id : Str
  kind : WireMessageKind
  deriving DecidableEq

def protocolVersion : UInt32 := 1

inductive WireError where
  | io
  | json
  | handshakeFailed (text : Str)
  | connectionClosed
  | messageTooLarge (size max : UInt32)
  | versionMismatch (here remote : UInt32)
  deriving DecidableEq

end Messages

section Frames

def maxMessageSize : UInt32 := 16 * 1024 * 1024

/-- The JSON library on messages. What it writes it reads back, and a text that
stops early is no message. -/
structure Codec where
  toVec : WireMessage → Option Bytes
  fromSlice : Bytes → Option WireMessage
  fromSlice_toVec : ∀ {msg json}, toVec msg = some json → fromSlice json = some msg
  fromSlice_prefix : ∀ {msg json part}, toVec msg = some json → part <+: json → part ≠ json →
    fromSlice part = none

variable (C : Codec)

/-- The length is cast to a word: it wraps. -/
def frame (json : Bytes) : Bytes := toBeBytes (UInt32.ofNat json.length) ++ json

def encodeMessage (msg : WireMessage) : Option Bytes := (C.toVec msg).map frame

def decodeLength : UInt8 → UInt8 → UInt8 → UInt8 → UInt32 := fromBeBytes

def decodeMessage (body : Bytes) : Option WireMessage := C.fromSlice body

/-- What a stream holds after the messages are written to it. -/
def writeMessages (msgs : List WireMessage) : Option Bytes :=
  (msgs.mapM (encodeMessage C)).map List.flatten

/-- What follows the length of a message on a stream. -/
def readBody (len : UInt32) (stream : Bytes) : Except WireError WireMessage × Bytes :=
  if maxMessageSize < len then (.error (.messageTooLarge len maxMessageSize), stream)
  else if stream.length < len.toNat then (.error .io, [])
  else
    match decodeMessage C (stream.take len.toNat) with
    | some msg => (.ok msg, stream.drop len.toNat)
    | none => (.error .json, stream.drop len.toNat)

/-- Read one message from the bytes a stream holds up to its end. -/
def readMessage : Bytes → Except WireError WireMessage × Bytes
  | b₀ :: b₁ :: b₂ :: b₃ :: rest => readBody C (decodeLength b₀ b₁ b₂ b₃) rest
  | [] | [_] | [_, _] | [_, _, _] => (.error .connectionClosed, [])

def readMessages : Nat → Bytes → Except WireError (List WireMessage) × Bytes
  | 0, stream => (.ok [], stream)
  | n + 1, stream =>
    match readMessage C stream with
    | (.ok msg, rest) =>
      let others := readMessages n rest
      (others.1.map (msg :: ·), others.2)
    | (.error e, rest) => (.error e, rest)

end Frames

end Clawreform.Wire
