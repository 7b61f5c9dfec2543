import Clawreform.Lib.Json

namespace Clawreform.Types

open Clawreform.Lib.Text
open Clawreform.Lib.Json (Value)

inductive Role where
  | system
  | user
  | assistant
  deriving DecidableEq

inductive ContentBlock where
  | text (text : Str)
  | image (mediaType data : Str)
  | toolUse (id name : Str) (input : Value)
  | toolResult (toolUseId content : Str) (isError : Bool)
  | thinking (thinking : Str)
  | unknown
  deriving DecidableEq

inductive MessageContent where
  | text (s : Str)
  | blocks (bs : List ContentBlock)
  deriving DecidableEq

structure Message where
  role : Role
  content : MessageContent
  deriving DecidableEq

def Message.user (s : Str) : Message := ⟨.user, .text s⟩

def Message.assistant (s : Str) : Message := ⟨.assistant, .text s⟩

def ContentBlock.toolUseId? : ContentBlock → Option Str
  | .toolUse id _ _ => some id
  | _ => none

def ContentBlock.resultId? : ContentBlock → Option Str
  | .toolResult id _ _ => some id
  | _ => none

namespace MessageContent

/-- The structured blocks; plain text has none. -/
def blockList : MessageContent → List ContentBlock
  | .text _ => []
  | .blocks bs => bs

def toBlocks : MessageContent → List ContentBlock
  | .text s => [.text s]
  | .blocks bs => bs

def isEmpty : MessageContent → Bool
  | .text s => s.isEmpty
  | .blocks bs => bs.isEmpty

def textContent : MessageContent → Str
  | .text s => s
  | .blocks bs => bs.flatMap fun
    | .text s => s
    | _ => []

end MessageContent

namespace Message

def toolUses (m : Message) : List Str := m.content.blockList.filterMap ContentBlock.toolUseId?

def toolResults (m : Message) : List Str := m.content.blockList.filterMap ContentBlock.resultId?

/-- The tool uses a result can answer: those of an assistant message. -/
def calls (m : Message) : List Str := if m.role = .assistant then m.toolUses else []

end Message

inductive StopReason where
  | endTurn
  | toolUse
  | maxTokens
  | stopSequence
  deriving DecidableEq

structure TokenUsage where
  inputTokens : UInt64
  outputTokens : UInt64
  deriving DecidableEq

structure ReplyDirectives where
  replyTo : Option Str
  currentThread : Bool
  silent : Bool
  deriving DecidableEq

structure ToolDefinition where
  name : Str
  description : Str
  inputSchema : Value
  deriving DecidableEq

structure ToolCall where
  id : Str
  name : Str
  input : Value
  deriving DecidableEq

structure ToolResult where
  toolUseId : Str
  content : Str
  isError : Bool
  deriving DecidableEq

end Clawreform.Types
