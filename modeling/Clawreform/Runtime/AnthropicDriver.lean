import Clawreform.Lib.Json
import Clawreform.Lib.Run
import Clawreform.Lib.Splitting
import Clawreform.Lib.Utf8
import Clawreform.Runtime.LlmDriver

namespace Clawreform.Runtime.AnthropicDriver

open Clawreform.Lib.Text Clawreform.Lib.Run Clawreform.Lib.Splitting Clawreform.Lib.Utf8
open Clawreform.Lib.Json (Value)
open Clawreform.Types

section Requests

structure ApiImageSource where
  sourceType : Str
  mediaType : Str
  data : Str
  deriving DecidableEq

inductive ApiContentBlock where
  | text (text : Str)
  | image (source : ApiImageSource)
  | toolUse (id name : Str) (input : Value)
  | toolResult (toolUseId content : Str) (isError : Bool)
  deriving DecidableEq

inductive ApiContent where
  | text (text : Str)
  | blocks (blocks : List ApiContentBlock)
  deriving DecidableEq

structure ApiMessage where
  role : Str
  content : ApiContent
  deriving DecidableEq

def apiBlock : ContentBlock → Option ApiContentBlock
  | .text text => some (.text text)
  | .image mediaType data => some (.image ⟨"base64".toList, mediaType, data⟩)
  | .toolUse id name input => some (.toolUse id name input)
  | .toolResult toolUseId content isError => some (.toolResult toolUseId content isError)
  | .thinking _ => none
  | .unknown => none

def convertMessage (msg : Message) : ApiMessage :=
  { role :=
      match msg.role with
      | .user => "user".toList
      | .assistant => "assistant".toList
      | .system => "user".toList
    content :=
      match msg.content with
      | .text text => .text text
      | .blocks blocks => .blocks (blocks.filterMap apiBlock) }

/-- System messages go into a field of their own. -/
def apiMessages (request : CompletionRequest) : List ApiMessage :=
  (request.messages.filter (·.role ≠ .system)).map convertMessage

end Requests

section Responses

inductive ResponseContentBlock where
  | text (text : Str)
  | toolUse (id name : Str) (input : Value)
  | thinking (thinking : Str)
  deriving DecidableEq

structure ApiResponse where
  content : List ResponseContentBlock
  stopReason : Str
  usage : TokenUsage
  deriving DecidableEq

def ResponseContentBlock.block : ResponseContentBlock → ContentBlock
  | .text s => .text s
  | .toolUse id name input => .toolUse id name input
  | .thinking s => .thinking s

def ResponseContentBlock.toolCall : ResponseContentBlock → Option ToolCall
  | .toolUse id name input => some ⟨id, name, input⟩
  | _ => none

def readStopReason (stopReason : Str) : StopReason :=
  if stopReason = "end_turn".toList then .endTurn
  else if stopReason = "tool_use".toList then .toolUse
  else if stopReason = "max_tokens".toList then .maxTokens
  else if stopReason = "stop_sequence".toList then .stopSequence
  else .endTurn

/-- The response that some blocks make up. -/
def answer (blocks : List ResponseContentBlock) (stopReason : StopReason) (usage : TokenUsage) :
    CompletionResponse where
  content := blocks.map ResponseContentBlock.block
  stopReason := stopReason
  toolCalls := blocks.filterMap ResponseContentBlock.toolCall
  usage := usage

def convertResponse (api : ApiResponse) : CompletionResponse :=
  answer api.content (readStopReason api.stopReason) api.usage

end Responses

section Streaming

/-- A block as far as it has come in. -/
inductive ContentBlockAccum where
  | text (text : Str)
  | thinking (thinking : Str)
  | toolUse (id name inputJson : Str)
  deriving DecidableEq

structure StreamState where
  blocks : List ContentBlockAccum
  stopReason : StopReason
  usage : TokenUsage
  deriving DecidableEq

def StreamState.init : StreamState := ⟨[], .endTurn, ⟨0, 0⟩⟩

variable (parseJson : Str → Option Value)

def parseInput (inputJson : Str) : Value := (parseJson inputJson).getD .null

def onMessageStart (s : StreamState) (json : Value) : StreamState :=
  match (((json.index "message").index "usage").index "input_tokens").asU64 with
  | none => s
  | some inputTokens => { s with usage.inputTokens := inputTokens }

def onBlockStart (s : StreamState) (json : Value) : StreamState × List StreamEvent :=
  let block := json.index "content_block"
  let type := (block.index "type").asStr.getD []
  if type = "text".toList then ({ s with blocks := s.blocks ++ [.text []] }, [])
  else if type = "tool_use".toList then
    let id := (block.index "id").asStr.getD []
    let name := (block.index "name").asStr.getD []
    ({ s with blocks := s.blocks ++ [.toolUse id name []] }, [.toolUseStart id name])
  else if type = "thinking".toList then ({ s with blocks := s.blocks ++ [.thinking []] }, [])
  else (s, [])

/-- Change the last block. -/
def StreamState.modifyLast (s : StreamState) (f : ContentBlockAccum → ContentBlockAccum) :
    StreamState :=
  { s with blocks := s.blocks.modify (s.blocks.length - 1) f }

def onBlockDelta (s : StreamState) (json : Value) : StreamState × List StreamEvent :=
  let delta := json.index "delta"
  let type := (delta.index "type").asStr.getD []
  if type = "text_delta".toList then
    match (delta.index "text").asStr with
    | none => (s, [])
    | some text =>
      (s.modifyLast fun
        | .text t => .text (t ++ text)
        | b => b, [.textDelta text])
  else if type = "input_json_delta".toList then
    match (delta.index "partial_json").asStr with
    | none => (s, [])
    | some part =>
      (s.modifyLast fun
        | .toolUse id name inputJson => .toolUse id name (inputJson ++ part)
        | b => b, [.toolInputDelta part])
  else if type = "thinking_delta".toList then
    match (delta.index "thinking").asStr with
    | none => (s, [])
    | some thinking =>
      (s.modifyLast fun
        | .thinking t => .thinking (t ++ thinking)
        | b => b, [])
  else (s, [])

def onBlockStop (s : StreamState) : List StreamEvent :=
  match s.blocks.getLast? with
  | some (.toolUse id name inputJson) => [.toolUseEnd id name (parseInput parseJson inputJson)]
  | _ => []

def onMessageDelta (s : StreamState) (json : Value) : StreamState :=
  let s :=
    match ((json.index "delta").index "stop_reason").asStr with
    | none => s
    | some stopReason => { s with stopReason := readStopReason stopReason }
  match ((json.index "usage").index "output_tokens").asU64 with
  | none => s
  | some outputTokens => { s with usage.outputTokens := outputTokens }

def onJson (s : StreamState) (eventType : Str) (json : Value) : StreamState × List StreamEvent :=
  if eventType = "message_start".toList then (onMessageStart s json, [])
  else if eventType = "content_block_start".toList then onBlockStart s json
  else if eventType = "content_block_delta".toList then onBlockDelta s json
  else if eventType = "content_block_stop".toList then (s, onBlockStop parseJson s)
  else if eventType = "message_delta".toList then (onMessageDelta s json, [])
  else (s, [])

/-- The event type and the data of an event; the last line of a kind counts. -/
def eventFields (eventText : Str) : Str × Str :=
  (lines eventText).foldl (fun fields line =>
    match stripPrefix "event: ".toList line with
    | some eventType => (eventType, fields.2)
    | none =>
      match stripPrefix "data: ".toList line with
      | some data => (fields.1, data)
      | none => fields) ([], [])

def onEvent (s : StreamState) (eventText : Str) : StreamState × List StreamEvent :=
  let fields := eventFields eventText
  if fields.2 = [] then (s, [])
  else
    match parseJson fields.2 with
    | none => (s, [])
    | some json => onJson parseJson s fields.1 json

def ContentBlockAccum.block : ContentBlockAccum → ResponseContentBlock
  | .text s => .text s
  | .thinking s => .thinking s
  | .toolUse id name inputJson => .toolUse id name (parseInput parseJson inputJson)

def finish (s : StreamState) : CompletionResponse × List StreamEvent :=
  (answer (s.blocks.map (ContentBlockAccum.block parseJson)) s.stopReason s.usage,
    [.contentComplete s.stopReason s.usage])

/-- The rest of `stream`, over the pieces of text in which the body comes in. -/
def streamTexts (texts : List Str) : CompletionResponse × List StreamEvent :=
  let p := run (onEvent parseJson) .init (feed ['\n', '\n'] [] texts).1
  let q := finish parseJson p.1
  (q.1, p.2 ++ q.2)

def stream (chunks : List (List UInt8)) : CompletionResponse × List StreamEvent :=
  streamTexts parseJson (chunks.map fromUtf8Lossy)

end Streaming

end Clawreform.Runtime.AnthropicDriver
