import Clawreform.Lib.Json
import Clawreform.Lib.Run
import Clawreform.Lib.Splitting
import Clawreform.Lib.Utf8
import Clawreform.Runtime.LlmDriver

namespace Clawreform.Runtime.OpenAiDriver

open Clawreform.Lib.Text Clawreform.Lib.Run Clawreform.Lib.Splitting Clawreform.Lib.Utf8
open Clawreform.Lib.Json (Value)
open Clawreform.Types

section Requests

structure OaiFunction where
  name : Str
  arguments : Str
  deriving DecidableEq

structure OaiToolCall where
  id : Str
  callType : Str
  function : OaiFunction
  deriving DecidableEq

inductive OaiContentPart where
  | text (text : Str)
  | imageUrl (url : Str)
  deriving DecidableEq

inductive OaiMessageContent where
  | text (text : Str)
  | parts (parts : List OaiContentPart)
  deriving DecidableEq

structure OaiMessage where
  role : Str
  content : Option OaiMessageContent
  toolCalls : Option (List OaiToolCall)
  toolCallId : Option Str
  deriving DecidableEq

def OaiMessage.plain (role text : Str) : OaiMessage := ⟨role, some (.text text), none, none⟩

def dataUrl (mediaType data : Str) : Str :=
  "data:".toList ++ mediaType ++ ";base64,".toList ++ data

/-- The message of a tool result. -/
def toolMessage : ContentBlock → Option OaiMessage
  | .toolResult toolUseId content _ =>
    some ⟨"tool".toList, some (.text content), none, some toolUseId⟩
  | _ => none

def contentPart : ContentBlock → Option OaiContentPart
  | .text text => some (.text text)
  | .image mediaType data => some (.imageUrl (dataUrl mediaType data))
  | _ => none

/-- Texts and images stand behind the tool results of their message, if it has none. -/
def userBlocks (blocks : List ContentBlock) : List OaiMessage :=
  let results := blocks.filterMap toolMessage
  let parts := blocks.filterMap contentPart
  if parts ≠ [] ∧ results = [] then
    results ++ [⟨"user".toList, some (.parts parts), none, none⟩]
  else results

/-- The stream sends the tool results only. -/
def userBlocksStream (blocks : List ContentBlock) : List OaiMessage := blocks.filterMap toolMessage

def textPart : ContentBlock → Option Str
  | .text text => some text
  | _ => none

def toolCall : ContentBlock → Option OaiToolCall
  | .toolUse id name input => some ⟨id, "function".toList, ⟨name, input.toText⟩⟩
  | _ => none

def assistantBlocks (blocks : List ContentBlock) : OaiMessage :=
  let textParts := blocks.filterMap textPart
  let toolCalls := blocks.filterMap toolCall
  { role := "assistant".toList
    content := if textParts = [] then none else some (.text textParts.flatten)
    toolCalls := if toolCalls = [] then none else some toolCalls
    toolCallId := none }

/-- The messages one message is sent as, with the way the blocks of a user message are sent. -/
def convertMessage (user : List ContentBlock → List OaiMessage) (system : Option Str)
    (msg : Message) : List OaiMessage :=
  match msg.role, msg.content with
  | .system, .text text => if system.isNone then [.plain "system".toList text] else []
  | .user, .text text => [.plain "user".toList text]
  | .assistant, .text text => [.plain "assistant".toList text]
  | .user, .blocks blocks => user blocks
  | .assistant, .blocks blocks => [assistantBlocks blocks]
  | .system, .blocks _ => []

def convertMessages (user : List ContentBlock → List OaiMessage) (request : CompletionRequest) :
    List OaiMessage :=
  (request.system.map (.plain "system".toList)).toList ++
    request.messages.flatMap (convertMessage user request.system)

def completeMessages (request : CompletionRequest) : List OaiMessage :=
  convertMessages userBlocks request

def streamMessages (request : CompletionRequest) : List OaiMessage :=
  convertMessages userBlocksStream request

end Requests

section Responses

structure OaiResponseMessage where
  content : Option Str
  toolCalls : Option (List OaiToolCall)
  deriving DecidableEq

structure OaiChoice where
  message : OaiResponseMessage
  finishReason : Option Str
  deriving DecidableEq

structure OaiUsage where
  promptTokens : UInt64
  completionTokens : UInt64
  deriving DecidableEq

structure OaiResponse where
  choices : List OaiChoice
  usage : Option OaiUsage
  deriving DecidableEq

variable (parseJson : Str → Option Value)

def parseArguments (arguments : Str) : Value := (parseJson arguments).getD .null

def textBlocks (text : Str) : List ContentBlock := if text = [] then [] else [.text text]

def ToolCall.block (call : ToolCall) : ContentBlock := .toolUse call.id call.name call.input

def stopReason (finishReason : Option Str) (toolCalls : List ToolCall) : StopReason :=
  if finishReason = some "stop".toList then .endTurn
  else if finishReason = some "tool_calls".toList then .toolUse
  else if finishReason = some "length".toList then .maxTokens
  else if toolCalls ≠ [] then .toolUse
  else .endTurn

/-- The response that a text and some tool calls make up. -/
def answer (text : Str) (toolCalls : List ToolCall) (finishReason : Option Str)
    (usage : TokenUsage) : CompletionResponse where
  content := textBlocks text ++ toolCalls.map ToolCall.block
  stopReason := stopReason finishReason toolCalls
  toolCalls := toolCalls
  usage := usage

/-- The end of `complete`, once the body is read. -/
def convertResponse (response : OaiResponse) : Except LlmError CompletionResponse :=
  match response.choices with
  | [] => .error (.parse "No choices in response".toList)
  | choice :: _ =>
    let toolCalls := (choice.message.toolCalls.getD []).map fun call =>
      ⟨call.id, call.function.name, parseArguments parseJson call.function.arguments⟩
    let usage := (response.usage.map fun u => ⟨u.promptTokens, u.completionTokens⟩).getD ⟨0, 0⟩
    .ok (answer (choice.message.content.getD []) toolCalls choice.finishReason usage)

end Responses

section Streaming

/-- A tool call as far as it has come in. -/
structure ToolAccum where
  id : Str
  name : Str
  arguments : Str
  deriving DecidableEq

structure StreamState where
  textContent : Str
  toolAccum : List ToolAccum
  finishReason : Option Str
  usage : TokenUsage
  deriving DecidableEq

def StreamState.init : StreamState := ⟨[], [], none, ⟨0, 0⟩⟩

/-- There are entries up to the index. -/
def ensure (idx : Nat) (accum : List ToolAccum) : List ToolAccum :=
  accum ++ List.replicate (idx + 1 - accum.length) ⟨[], [], []⟩

def onFunction (idx : Nat) (func : Value) (accum : List ToolAccum) :
    List ToolAccum × List StreamEvent :=
  let named :=
    match (func.index "name").asStr with
    | none => (accum, [])
    | some name =>
      let accum := accum.modify idx fun t => { t with name := name }
      (accum, [StreamEvent.toolUseStart ((accum[idx]?.map (·.id)).getD []) name])
  match (func.index "arguments").asStr with
  | none => named
  | some args =>
    (named.1.modify idx fun t => { t with arguments := t.arguments ++ args },
      named.2 ++ if args = [] then [] else [.toolInputDelta args])

/-- A delta of a tool call. -/
def onCall (accum : List ToolAccum) (call : Value) : List ToolAccum × List StreamEvent :=
  let idx := ((call.index "index").asU64.getD 0).toNat
  let accum := ensure idx accum
  let accum :=
    match (call.index "id").asStr with
    | none => accum
    | some id => accum.modify idx fun t => { t with id := id }
  match call.get "function".toList with
  | none => (accum, [])
  | some func => onFunction idx func accum

def onText (s : StreamState) (content : Value) : StreamState × List StreamEvent :=
  match content.asStr with
  | none => (s, [])
  | some text =>
    if text = [] then (s, [])
    else ({ s with textContent := s.textContent ++ text }, [.textDelta text])

def onChoice (s : StreamState) (choice : Value) : StreamState × List StreamEvent :=
  let delta := choice.index "delta"
  let p := onText s (delta.index "content")
  let q := run onCall p.1.toolAccum ((delta.index "tool_calls").asArray.getD [])
  let s := { p.1 with toolAccum := q.1 }
  let s :=
    match (choice.index "finish_reason").asStr with
    | none => s
    | some finishReason => { s with finishReason := some finishReason }
  (s, p.2 ++ q.2)

def onUsage (usage : TokenUsage) (json : Value) : TokenUsage :=
  let u := json.index "usage"
  { inputTokens := (u.index "prompt_tokens").asU64.getD usage.inputTokens
    outputTokens := (u.index "completion_tokens").asU64.getD usage.outputTokens }

def onJson (s : StreamState) (json : Value) : StreamState × List StreamEvent :=
  let s := { s with usage := onUsage s.usage json }
  run onChoice s ((json.index "choices").asArray.getD [])

variable (parseJson : Str → Option Value)

def onLine (s : StreamState) (line : Str) : StreamState × List StreamEvent :=
  if line = [] ∨ line.head? = some ':' then (s, [])
  else
    match stripPrefix "data: ".toList line with
    | none => (s, [])
    | some data =>
      if data = "[DONE]".toList then (s, [])
      else
        match parseJson data with
        | none => (s, [])
        | some json => onJson s json

def finish (s : StreamState) : CompletionResponse × List StreamEvent :=
  let toolCalls : List ToolCall := s.toolAccum.map fun t =>
    ⟨t.id, t.name, parseArguments parseJson t.arguments⟩
  let response := answer s.textContent toolCalls s.finishReason s.usage
  (response, toolCalls.map (fun call => .toolUseEnd call.id call.name call.input) ++
    [.contentComplete response.stopReason s.usage])

/-- The rest of `stream`, over the pieces of text in which the body comes in. -/
def streamTexts (texts : List Str) : CompletionResponse × List StreamEvent :=
  let lines := (feed ['\n'] [] texts).1.map trimEnd
  let p := run (onLine parseJson) .init lines
  let q := finish parseJson p.1
  (q.1, p.2 ++ q.2)

def stream (chunks : List (List UInt8)) : CompletionResponse × List StreamEvent :=
  streamTexts parseJson (chunks.map fromUtf8Lossy)

end Streaming

section FailedGeneration

variable (parseJson : Str → Option Value)

def stripSuffix (pat s : Str) : Str := if pat <:+ s then s.take (s.length - pat.length) else s

/-- The name and the arguments of a call written `NAME{...}` or `NAME {...}`. -/
def failedCall (callContent : Str) : Str × Value :=
  let callContent := stripSuffix ['>'] callContent
  match find ['{'] callContent with
  | none => (trim callContent, (parseJson "{}".toList).getD (.object []))
  | some brace =>
    (trim (callContent.take brace), (parseJson (callContent.drop brace)).getD (.object []))

/-- The calls from the `n`-th on. A call without end tag spoils them all. -/
def failedCalls : Nat → Nat → Str → Option (List ToolCall)
  | 0, _, _ => some []
  | fuel + 1, n, remaining =>
    match find "<function=".toList remaining with
    | none => some []
    | some start =>
      let remaining := remaining.drop (start + "<function=".toList.length)
      match find "</function>".toList remaining with
      | none => none
      | some close =>
        let call := failedCall parseJson (remaining.take close)
        let rest := remaining.drop (close + "</function>".toList.length)
        (failedCalls fuel (n + 1) rest).map
          (⟨"groq_recovered_".toList ++ showNat n, call.1, call.2⟩ :: ·)

def parseGroqFailedToolCall (body : Str) : Option CompletionResponse :=
  let error := (parseJson body).bind (·.get "error".toList)
  match (error.bind (·.get "failed_generation".toList)).bind Value.asStr with
  | none => none
  | some failed =>
    match failedCalls parseJson failed.length 0 failed with
    | none => none
    | some [] => if trim failed = [] then none else some ⟨[.text failed], .endTurn, [], ⟨0, 0⟩⟩
    | some toolCalls => some ⟨[], .toolUse, toolCalls, ⟨0, 0⟩⟩

end FailedGeneration

end Clawreform.Runtime.OpenAiDriver
