import Clawreform.Lib.Binary64
import Clawreform.Types.Message

namespace Clawreform.Runtime

open Clawreform.Lib Clawreform.Lib.Text
open Clawreform.Lib.Json (Value)
open Clawreform.Types

inductive LlmError where
  | http (text : Str)
  | api (status : UInt16) (message : Str)
  | rateLimited (retryAfterMs : UInt64)
  | parse (text : Str)
  | missingApiKey (text : Str)
  | overloaded (retryAfterMs : UInt64)
  deriving DecidableEq

def LlmError.toText : LlmError → Str
  | .http s => "HTTP error: ".toList ++ s
  | .api status message =>
    "API error (".toList ++ showNat status.toNat ++ "): ".toList ++ message
  | .rateLimited ms => "Rate limited, retry after ".toList ++ showNat ms.toNat ++ "ms".toList
  | .parse s => "Parse error: ".toList ++ s
  | .missingApiKey s => "Missing API key: ".toList ++ s
  | .overloaded ms => "Model overloaded, retry after ".toList ++ showNat ms.toNat ++ "ms".toList

structure ThinkingConfig where
  budgetTokens : UInt32
  streamThinking : Bool
  deriving DecidableEq

structure CompletionRequest where
  model : Str
  messages : List Message
  tools : List ToolDefinition
  maxTokens : UInt32
  temperature : Binary64
  system : Option Str
  thinking : Option ThinkingConfig
  deriving DecidableEq

structure CompletionResponse where
  content : List ContentBlock
  stopReason : StopReason
  toolCalls : List ToolCall
  usage : TokenUsage
  deriving DecidableEq

def CompletionResponse.text (r : CompletionResponse) : Str :=
  r.content.flatMap fun
    | .text s => s
    | _ => []

inductive StreamEvent where
  | textDelta (text : Str)
  | toolUseStart (id name : Str)
  | toolInputDelta (text : Str)
  | toolUseEnd (id name : Str) (input : Value)
  | thinkingDelta (text : Str)
  | contentComplete (stopReason : StopReason) (usage : TokenUsage)
  | phaseChange (phase : Str) (detail : Option Str)
  | toolExecutionResult (name resultPreview : Str) (isError : Bool)
  deriving DecidableEq

end Clawreform.Runtime
