import Clawreform.Lib.Text

namespace Clawreform.Types

open Clawreform.Lib.Text

abbrev Uuid := BitVec 128

/-- The lowercase hyphenated form. -/
def Uuid.toStr (u : Uuid) : Str :=
  let digits := (List.range 32).map fun i => Nat.digitChar (u.toNat / 16 ^ (31 - i) % 16)
  digits.take 8 ++ '-' :: (digits.drop 8).take 4 ++ '-' :: (digits.drop 12).take 4 ++
    '-' :: (digits.drop 16).take 4 ++ '-' :: digits.drop 20

abbrev AgentId := Uuid

abbrev SessionId := Uuid

/-- A point of time in nanoseconds since the epoch. -/
abbrev DateTime := Int

inductive ClawReformError where
  | agentNotFound (id : Str)
  | agentAlreadyExists (name : Str)
  | internal (text : Str)
  | invalidInput (text : Str)
  deriving DecidableEq

inductive AgentState where
  | created
  | running
  | suspended
  | terminated
  | crashed
  deriving DecidableEq

inductive AgentMode where
  | observe
  | assist
  | full
  deriving DecidableEq

structure AgentIdentity where
  emoji : Option Str
  avatarUrl : Option Str
  color : Option Str
  archetype : Option Str
  vibe : Option Str
  greetingStyle : Option Str
  deriving DecidableEq

structure ModelConfig where
  provider : Str
  model : Str
  systemPrompt : Str
  deriving DecidableEq

structure AgentManifest where
  name : Str
  description : Str
  model : ModelConfig
  skills : List Str
  mcpServers : List Str
  workspace : Option Str
  deriving DecidableEq

structure AgentEntry where
  id : AgentId
  name : Str
  manifest : AgentManifest
  state : AgentState
  mode : AgentMode
  lastActive : DateTime
  children : List AgentId
  sessionId : SessionId
  tags : List Str
  identity : AgentIdentity
  onboardingCompleted : Bool
  onboardingCompletedAt : Option DateTime
  deriving DecidableEq

end Clawreform.Types
