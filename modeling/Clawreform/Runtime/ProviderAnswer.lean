import Clawreform.Runtime.OpenAiDriver
import Clawreform.Runtime.AnthropicDriver
import Clawreform.Runtime.GeminiDriver

namespace Clawreform.Runtime.ProviderAnswer

open Clawreform.Lib.Text Clawreform.Lib.Run Clawreform.Lib.Splitting Clawreform.Lib.Utf8
open Clawreform.Lib.Json (Value)
open Clawreform.Lib.Json.Value (obj)
open Clawreform.Types

section Answers

/-- A block of an answer, in the pieces in which it is streamed. The pieces of a call are those
of the JSON text of its input. -/
inductive AnswerBlock where
  | text (pieces : List Str)
  | thinking (pieces : List Str)
  | call (id name : Str) (input : Value) (pieces : List Str)
  deriving DecidableEq

structure Answer where
  blocks : List AnswerBlock
  finish : Option Str
  usage : TokenUsage
  deriving DecidableEq

def AnswerBlock.isCall : AnswerBlock → Bool
  | .call _ _ _ _ => true
  | _ => false

def AnswerBlock.textPart : AnswerBlock → Str
  | .text pieces => pieces.flatten
  | _ => []

inductive Provider where
  | openAi
  | anthropic
  | gemini
  deriving DecidableEq

end Answers

section OpenAi

open OpenAiDriver

def finishValue : Option Str → Value
  | none => .null
  | some finish => .string finish

def oaiCall : AnswerBlock → Option OaiToolCall
  | .call id name _ pieces => some ⟨id, "function".toList, ⟨name, pieces.flatten⟩⟩
  | _ => none

/-- There is no place for a thought in a plain response. -/
def oaiPlain (a : Answer) : OaiResponse :=
  let text := a.blocks.flatMap AnswerBlock.textPart
  let calls := a.blocks.filterMap oaiCall
  { choices := [⟨⟨if text = [] then none else some text,
      if calls = [] then none else some calls⟩, a.finish⟩]
    usage := some ⟨a.usage.inputTokens, a.usage.outputTokens⟩ }

def oaiChunk (delta finish : Value) : Value :=
  obj [("choices", .array [obj [("delta", delta), ("finish_reason", finish)]])]

def oaiCallDelta (fields : List (String × Value)) : Value :=
  obj [("tool_calls", .array [obj fields])]

/-- The deltas of a block behind `k` calls. -/
def oaiDeltas (k : Nat) : AnswerBlock → List Value
  | .text pieces => pieces.map fun piece => obj [("content", .string piece)]
  | .thinking pieces => pieces.map fun piece => obj [("reasoning_content", .string piece)]
  | .call id name _ pieces =>
    oaiCallDelta [("index", .count (UInt64.ofNat k)), ("id", .string id),
        ("type", .string "function".toList),
        ("function", obj [("name", .string name), ("arguments", .string [])])] ::
      pieces.map fun piece => oaiCallDelta [("index", .count (UInt64.ofNat k)),
        ("function", obj [("arguments", .string piece)])]

def oaiBlockDeltas : Nat → List AnswerBlock → List Value
  | _, [] => []
  | k, block :: blocks =>
    oaiDeltas k block ++ oaiBlockDeltas (if block.isCall then k + 1 else k) blocks

/-- The deltas, the finish reason and the usage, each in a chunk of its own. -/
def oaiEvents (a : Answer) : List Value :=
  (oaiBlockDeltas 0 a.blocks).map (oaiChunk · .null) ++
    [oaiChunk (obj []) (finishValue a.finish),
      obj [("choices", .array []), ("usage", obj [("prompt_tokens", .count a.usage.inputTokens),
        ("completion_tokens", .count a.usage.outputTokens)])]]

end OpenAi

section Anthropic

open AnthropicDriver

def plainBlock : AnswerBlock → ResponseContentBlock
  | .text pieces => .text pieces.flatten
  | .thinking pieces => .thinking pieces.flatten
  | .call id name input _ => .toolUse id name input

def apiPlain (a : Answer) : ApiResponse :=
  ⟨a.blocks.map plainBlock, a.finish.getD [], a.usage⟩

/-- An event has a type and a value. -/
def apiEvent (type : String) (fields : List (String × Value)) : Str × Value :=
  (type.toList, obj (("type", .string type.toList) :: fields))

def blockStart (fields : List (String × Value)) : Str × Value :=
  apiEvent "content_block_start" [("content_block", obj fields)]

def blockDelta (type key : String) (piece : Str) : Str × Value :=
  apiEvent "content_block_delta"
    [("delta", obj [("type", .string type.toList), (key, .string piece)])]

def blockStop : Str × Value := apiEvent "content_block_stop" []

def apiBlockEvents : AnswerBlock → List (Str × Value)
  | .text pieces =>
    blockStart [("type", .string "text".toList), ("text", .string [])] ::
      pieces.map (blockDelta "text_delta" "text") ++ [blockStop]
  | .thinking pieces =>
    blockStart [("type", .string "thinking".toList), ("thinking", .string [])] ::
      pieces.map (blockDelta "thinking_delta" "thinking") ++ [blockStop]
  | .call id name _ pieces =>
    blockStart [("type", .string "tool_use".toList), ("id", .string id), ("name", .string name),
        ("input", obj [])] ::
      pieces.map (blockDelta "input_json_delta" "partial_json") ++ [blockStop]

def apiEvents (a : Answer) : List (Str × Value) :=
  apiEvent "message_start"
      [("message", obj [("usage", obj [("input_tokens", .count a.usage.inputTokens)])])] ::
    a.blocks.flatMap apiBlockEvents ++
    [apiEvent "message_delta" [("delta", obj [("stop_reason", finishValue a.finish)]),
        ("usage", obj [("output_tokens", .count a.usage.outputTokens)])],
      apiEvent "message_stop" []]

end Anthropic

section Gemini

open GeminiDriver

/-- A thought is a text part like others. -/
def geminiPart : AnswerBlock → GeminiPart
  | .text pieces => .text pieces.flatten
  | .thinking pieces => .text pieces.flatten
  | .call _ name input _ => .functionCall name input

def geminiContent (parts : List GeminiPart) : Option GeminiContent :=
  some ⟨some "model".toList, parts⟩

def geminiUsage (a : Answer) : Option GeminiUsageMetadata :=
  some ⟨a.usage.inputTokens, a.usage.outputTokens⟩

def geminiPlain (a : Answer) : GeminiResponse :=
  ⟨[⟨geminiContent (a.blocks.map geminiPart), a.finish⟩], geminiUsage a⟩

/-- Texts come piece by piece, a call comes as a whole. -/
def geminiDeltas : AnswerBlock → List GeminiPart
  | .text pieces => pieces.map .text
  | .thinking pieces => pieces.map .text
  | .call _ name input _ => [.functionCall name input]

/-- The parts, then the finish reason with the usage, each in a chunk of its own. -/
def geminiEvents (a : Answer) : List GeminiResponse :=
  (a.blocks.flatMap geminiDeltas).map (fun part => ⟨[⟨geminiContent [part], none⟩], none⟩) ++
    [⟨[⟨geminiContent [], a.finish⟩], geminiUsage a⟩]

end Gemini

section Streams

/-- A JSON text on one line that is read as a value. -/
structure IsTextOf {α : Type*} (parse : Str → Option α) (v : α) (t : Str) : Prop where
  parsed : parse t = some v
  oneLine : '\n' ∉ t
  opens : t.head? = some '{'
  closes : t.getLast? = some '}'

def dataLine (t : Str) : Str := "data: ".toList ++ t

theorem dataLine_eq (t : Str) : dataLine t = "data: ".toList ++ t := by
  delta dataLine
  rfl

def IsDataEvent {α : Type*} (parse : Str → Option α) (v : α) (piece : Str) : Prop :=
  ∃ t, IsTextOf parse v t ∧ piece = dataLine t

/-- An event whose type stands on a line of its own. -/
def IsNamedEvent (parse : Str → Option Value) (event : Str × Value) (piece : Str) : Prop :=
  ∃ t, IsTextOf parse event.2 t ∧ piece = "event: ".toList ++ event.1 ++ '\n' :: dataLine t

/-- Every event ends with a blank line. -/
def sse (pieces : List Str) : Str := pieces.flatMap (· ++ ['\n', '\n'])

variable (parseJson : Str → Option Value)
  (parseResponse : Str → Option GeminiDriver.GeminiResponse)

/-- A text is an event stream of the answer. -/
def IsStream (p : Provider) (a : Answer) (text : Str) : Prop :=
  match p with
  | .openAi => ∃ pieces, List.Forall₂ (IsDataEvent parseJson) (oaiEvents a) pieces ∧
      text = sse (pieces ++ [dataLine "[DONE]".toList])
  | .anthropic => ∃ pieces, List.Forall₂ (IsNamedEvent parseJson) (apiEvents a) pieces ∧
      text = sse pieces
  | .gemini => ∃ pieces, List.Forall₂ (IsDataEvent parseResponse) (geminiEvents a) pieces ∧
      text = sse pieces

/-- What a provider needs to write an answer both ways. The index of a call is a `u64`; a plain
response of Anthropic has a stop reason, and the input of a call is written out, unless it is
the empty object that the block starts with. -/
def Encodable (p : Provider) (a : Answer) : Prop :=
  match p with
  | .openAi => (a.blocks.filter AnswerBlock.isCall).length ≤ 2 ^ 64
  | .anthropic => a.finish.isSome ∧ ∀ id name input pieces,
      .call id name input pieces ∈ a.blocks →
        parseJson pieces.flatten = some input ∨ pieces.flatten = [] ∧ input = .object []
  | .gemini => True

end Streams

end Clawreform.Runtime.ProviderAnswer
