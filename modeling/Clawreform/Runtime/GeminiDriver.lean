import Clawreform.Lib.Run
import Clawreform.Lib.Splitting
import Clawreform.Lib.Utf8
import Clawreform.Runtime.LlmDriver

namespace Clawreform.Runtime.GeminiDriver

open Clawreform.Lib.Text Clawreform.Lib.Run Clawreform.Lib.Splitting Clawreform.Lib.Utf8
open Clawreform.Lib.Json (Value)
open Clawreform.Types

section Requests

inductive GeminiPart where
  | text (text : Str)
  | inlineData (mimeType data : Str)
  | functionCall (name : Str) (args : Value)
  | functionResponse (name : Str) (response : Value)
  deriving DecidableEq

structure GeminiContent where
  role : Option Str
  parts : List GeminiPart
  deriving DecidableEq

def convertPart : ContentBlock → Option GeminiPart
  | .text text => some (.text text)
  | .toolUse _ name input => some (.functionCall name input)
  | .image mediaType data => some (.inlineData mediaType data)
  | .toolResult _ content _ =>
    some (.functionResponse [] (.object [("result".toList, .string content)]))
  | .thinking _ => none
  | .unknown => none

/-- System messages are no content, and a message without parts is left out. -/
def convertMessage (msg : Message) : Option GeminiContent :=
  let parts :=
    match msg.content with
    | .text text => [.text text]
    | .blocks blocks => blocks.filterMap convertPart
  let content (role : Str) := if parts = [] then none else some ⟨some role, parts⟩
  match msg.role with
  | .system => none
  | .user => content "user".toList
  | .assistant => content "model".toList

/-- The contents of a request, without the system instruction. -/
def convertMessages (messages : List Message) : List GeminiContent :=
  messages.filterMap convertMessage

end Requests

section Responses

structure GeminiCandidate where
  content : Option GeminiContent
  finishReason : Option Str
  deriving DecidableEq

structure GeminiUsageMetadata where
  promptTokenCount : UInt64
  candidatesTokenCount : UInt64
  deriving DecidableEq

structure GeminiResponse where
  candidates : List GeminiCandidate
  usageMetadata : Option GeminiUsageMetadata
  deriving DecidableEq

variable (newUuid : Nat → Str)

/-- `newUuid` draws the identifiers, in their simple form. -/
def callId (n : Nat) : Str := "call_".toList ++ newUuid n

def GeminiUsageMetadata.tokens (u : GeminiUsageMetadata) : TokenUsage :=
  ⟨u.promptTokenCount, u.candidatesTokenCount⟩

/-- The blocks of some parts, with ids drawn from the `n`-th on. -/
def partBlocks : Nat → List GeminiPart → List ContentBlock
  | _, [] => []
  | n, .text text :: parts =>
    if text = [] then partBlocks n parts else .text text :: partBlocks n parts
  | n, .functionCall name args :: parts =>
    .toolUse (callId newUuid n) name args :: partBlocks (n + 1) parts
  | n, .inlineData _ _ :: parts => partBlocks n parts
  | n, .functionResponse _ _ :: parts => partBlocks n parts

def blockCall : ContentBlock → Option ToolCall
  | .toolUse id name input => some ⟨id, name, input⟩
  | _ => none

/-- The end of `complete`, once the body is read. -/
def convertResponse (resp : GeminiResponse) : Except LlmError CompletionResponse :=
  match resp.candidates with
  | [] => .error (.parse "No candidates in Gemini response".toList)
  | candidate :: _ =>
    let parts := (candidate.content.map (·.parts)).getD []
    let content := partBlocks newUuid 0 parts
    let toolCalls := content.filterMap blockCall
    let stopReason :=
      if toolCalls ≠ [] then .toolUse
      else if candidate.finishReason = some "MAX_TOKENS".toList then .maxTokens
      else .endTurn
    .ok ⟨content, stopReason, toolCalls, (resp.usageMetadata.map (·.tokens)).getD ⟨0, 0⟩⟩

end Responses

section Streaming

structure StreamState where
  textContent : Str
  fnCalls : List (Str × Value)
  finishReason : Option Str
  usage : TokenUsage
  deriving DecidableEq

def StreamState.init : StreamState := ⟨[], [], none, ⟨0, 0⟩⟩

variable (parseResponse : Str → Option GeminiResponse) (newUuid : Nat → Str)

/-- A call is announced under an id of its own. -/
def onPart (s : StreamState) : GeminiPart → StreamState × List StreamEvent
  | .text text =>
    if text = [] then (s, [])
    else ({ s with textContent := s.textContent ++ text }, [.textDelta text])
  | .functionCall name args =>
    let id := callId newUuid s.fnCalls.length
    ({ s with fnCalls := s.fnCalls ++ [(name, args)] },
      [.toolUseStart id name, .toolInputDelta args.toText, .toolUseEnd id name args])
  | .inlineData _ _ => (s, [])
  | .functionResponse _ _ => (s, [])

def onCandidate (s : StreamState) (candidate : GeminiCandidate) :
    StreamState × List StreamEvent :=
  let s := { s with finishReason := candidate.finishReason.or s.finishReason }
  run (onPart newUuid) s ((candidate.content.map (·.parts)).getD [])

def onResponse (s : StreamState) (json : GeminiResponse) : StreamState × List StreamEvent :=
  let s := { s with usage := (json.usageMetadata.map (·.tokens)).getD s.usage }
  run (onCandidate newUuid) s json.candidates

/-- The first data line of an event. -/
def eventData (eventText : Str) : Str :=
  ((lines eventText).findSome? (stripPrefix "data: ".toList)).getD []

def onEvent (s : StreamState) (eventText : Str) : StreamState × List StreamEvent :=
  let data := eventData eventText
  if data = [] then (s, [])
  else
    match parseResponse data with
    | none => (s, [])
    | some json => onResponse newUuid s json

/-- The calls get new ids, drawn after those they were announced under. -/
def finish (s : StreamState) : CompletionResponse × List StreamEvent :=
  let toolCalls : List ToolCall := s.fnCalls.mapIdx fun i call =>
    ⟨callId newUuid (s.fnCalls.length + i), call.1, call.2⟩
  let stopReason :=
    if s.finishReason = some "STOP".toList then .endTurn
    else if s.finishReason = some "MAX_TOKENS".toList then .maxTokens
    else if s.finishReason = some "SAFETY".toList then .endTurn
    else if toolCalls ≠ [] then .toolUse
    else .endTurn
  let content := (if s.textContent = [] then [] else [.text s.textContent]) ++
    toolCalls.map fun call => .toolUse call.id call.name call.input
  (⟨content, stopReason, toolCalls, s.usage⟩, [.contentComplete stopReason s.usage])

/-- The rest of `stream`, over the pieces of text in which the body comes in. -/
def streamTexts (texts : List Str) : CompletionResponse × List StreamEvent :=
  let p := run (onEvent parseResponse newUuid) .init (feed ['\n', '\n'] [] texts).1
  let q := finish newUuid p.1
  (q.1, p.2 ++ q.2)

def stream (chunks : List (List UInt8)) : CompletionResponse × List StreamEvent :=
  streamTexts parseResponse newUuid (chunks.map fromUtf8Lossy)

end Streaming

end Clawreform.Runtime.GeminiDriver
