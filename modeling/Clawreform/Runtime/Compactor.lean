import Clawreform.Memory.Session
import Clawreform.Runtime.Context
import Clawreform.Runtime.InjectionMarkers
import Clawreform.Runtime.LlmDriver
import Clawreform.Runtime.StrUtils

namespace Clawreform.Runtime.Compactor

open Clawreform.Lib Clawreform.Lib.Text Clawreform.Lib.Lowercase
open Clawreform.Types Clawreform.Memory
open Clawreform.Runtime.StrUtils Clawreform.Runtime.InjectionMarkers

section Code

structure CompactionConfig where
  keepRecent : Nat
  maxSummaryTokens : UInt32
  baseChunkRatio : Float
  minChunkRatio : Float
  safetyMargin : Float
  maxChunkChars : UInt64
  maxRetries : UInt32

def CompactionConfig.default : CompactionConfig where
  keepRecent := 10
  maxSummaryTokens := 1024
  baseChunkRatio := 0.4
  minChunkRatio := 0.15
  safetyMargin := 1.2
  maxChunkChars := 80000
  maxRetries := 3

structure CompactionResult where
  summary : Str
  keptMessages : List Message
  compactedCount : Nat
  chunksUsed : UInt32
  usedFallback : Bool
  deriving DecidableEq

/-- Why a compaction does not come back: the details of a tool result cannot be stripped,
a text is sliced inside a character, or the bounds of a `clamp` are the wrong way round. -/
inductive Fault where
  | details
  | sliced
  | clamped
  deriving DecidableEq

def isBase64Char (c : Char) : Bool := c.isAlphanum || c = '+' || c = '/' || c = '='

def flushBlob (blob : Str) : Str :=
  if 1000 < blob.length then
    "[base64 blob, ".toList ++ showNat blob.length ++ " chars removed]".toList
  else blob

/-- The first argument is the run of base64 characters read so far. -/
def stripBlobsFrom (blob : Str) : Str → Str
  | [] => flushBlob blob
  | c :: s =>
    if isBase64Char c then stripBlobsFrom (blob ++ [c]) s
    else flushBlob blob ++ c :: stripBlobsFrom [] s

def stripBase64Blobs (content : Str) : Str := stripBlobsFrom [] content

def stripToolResultDetails (u : Unicode) (content : Str) : Except Fault Str := do
  let cleaned ← (stripInjectionMarkers u (stripBase64Blobs content)).mapError fun _ => .details
  return if byteLen cleaned ≤ 10000 then cleaned
    else safeTruncateStr cleaned 10000 ++ "...[truncated from ".toList ++
      showNat (byteLen cleaned) ++ " chars]".toList

variable (u : Unicode) (config : CompactionConfig)

def isOversized (m : Message) : Bool :=
  config.maxChunkChars.toNat / 2 < textLength m.content

/-- The line of a text; one that is long in an oversized message is truncated. -/
def spoken (oversized : Bool) (label s : Str) : Str :=
  let limit := config.maxChunkChars.toNat / 4
  if s = [] then []
  else if oversized ∧ limit < byteLen s then
    label ++ ": ".toList ++ safeTruncateStr s limit ++ "...[truncated from ".toList ++
      showNat (byteLen s) ++ " chars]\n\n".toList
  else label ++ ": ".toList ++ s ++ "\n\n".toList

def preview (limit : Nat) (s : Str) : Str :=
  if limit < byteLen s then safeTruncateStr s limit ++ "...".toList else s

def blockText (oversized : Bool) (label : Str) : ContentBlock → Except Fault Str
  | .text s => .ok (spoken config oversized label s)
  | .toolUse _ name input =>
    .ok ("[Used tool '".toList ++ name ++ "' with params: ".toList ++ preview 200 input.toText ++
      "]\n\n".toList)
  | .toolResult _ content isError => do
    let cleaned ← stripToolResultDetails u content
    return "[Tool result (".toList ++ (if isError then "ERROR" else "OK").toList ++
      "): ".toList ++ preview 2000 cleaned ++ "]\n\n".toList
  | .image mediaType _ => .ok ("[Image: ".toList ++ mediaType ++ "]\n\n".toList)
  | .thinking _ => .ok []
  | .unknown => .ok []

def messageText (m : Message) : Except Fault Str :=
  let label := roleLabel m.role
  let oversized := isOversized config m
  match m.content with
  | .text s => .ok (spoken config oversized label s)
  | .blocks bs => (bs.mapM (blockText u config oversized label)).map List.flatten

def buildConversationText (messages : List Message) : Except Fault Str :=
  (messages.mapM (messageText u config)).map List.flatten

def effectiveMax : Nat := (config.maxChunkChars.toFloat / config.safetyMargin).toUInt64.toNat

/-- The end of the conversation text that fits. -/
def tailText (text : Str) : Except Fault Str :=
  if effectiveMax config < byteLen text then
    match splitBytes (byteLen text - effectiveMax config) text with
    | some p => .ok p.2
    | none => .error .sliced
  else .ok text

def summarizePrompt (text : Str) : Str :=
  ("Summarize the following conversation preserving key facts, decisions, user preferences, " ++
    "and important context. Be concise but thorough. Output only the summary, no preamble.\n\n" ++
    "---\n").toList ++ text ++ "---".toList

/-- The nearest single to 0.3. -/
def temperature : Binary64 := .finite (10066330 / 2 ^ 25)

def request (model prompt system : Str) : CompletionRequest where
  model := model
  messages := [⟨.user, .blocks [.text prompt]⟩]
  tools := []
  maxTokens := config.maxSummaryTokens
  temperature := temperature
  system := some system
  thinking := none

def summarizeRequest (model text : Str) : CompletionRequest :=
  request config model (summarizePrompt text)
    ("You are a conversation summarizer. Produce a concise summary that captures " ++
      "all key facts, decisions, and context from the conversation.").toList

/-- What the driver answers to the calls, in the order in which they are made. -/
abbrev Outcomes := Nat → Except LlmError CompletionResponse

variable (outcomes : Outcomes)

/-- The calls made so far are passed along. -/
def attempts (req : CompletionRequest) :
    Nat → Str → List CompletionRequest → Except Str Str × List CompletionRequest
  | 0, lastError, made => (.error lastError, made)
  | left + 1, _, made =>
    match outcomes made.length with
    | .ok response =>
      if response.text = [] then
        attempts req left "LLM returned empty summary".toList (made ++ [req])
      else (.ok response.text, made ++ [req])
    | .error e =>
      attempts req left ("LLM summarization failed: ".toList ++ e.toText) (made ++ [req])

variable (model : Str)

def summarizeMessages (messages : List Message) (made : List CompletionRequest) :
    Except Fault (Except Str Str × List CompletionRequest) := do
  let text ← buildConversationText u config messages
  let text ← tailText config text
  return attempts outcomes (summarizeRequest config model text) config.maxRetries.toNat [] made

def clamp (x low high : Float) : Except Fault Float :=
  if low ≤ high then
    let x := if x < low then low else x
    .ok (if high < x then high else x)
  else .error .clamped

def averageLength (messages : List Message) : Float :=
  (UInt64.ofNat (messages.map fun m => textLength m.content).sum).toFloat /
    (UInt64.ofNat messages.length).toFloat

def computeAdaptiveChunkRatio (messages : List Message) : Except Fault Float :=
  if messages = [] then .ok config.baseChunkRatio
  else
    let ratio :=
      if 1000 < averageLength messages then config.minChunkRatio
      else if 500 < averageLength messages then
        (config.baseChunkRatio + config.minChunkRatio) / 2
      else config.baseChunkRatio
    clamp ratio config.minChunkRatio config.baseChunkRatio

def chunkSize (messages : List Message) (ratio : Float) : Nat :=
  max ((UInt64.ofNat messages.length).toFloat * ratio).ceil.toUInt64.toNat 5

/-- The pieces of a list, all but the last one of the given size; the first argument bounds
their number. -/
def chunksFrom {α : Type} (size : Nat) : Nat → List α → List (List α)
  | 0, _ => []
  | _ + 1, [] => []
  | n + 1, x :: xs => (x :: xs).take size :: chunksFrom size n ((x :: xs).drop size)

def chunks {α : Type} (size : Nat) (xs : List α) : List (List α) := chunksFrom size xs.length xs

structure ChunkRun where
  summaries : List Str
  successCount : Nat
  lastChunkError : Str
  made : List CompletionRequest

def unavailable (i len : Nat) : Str :=
  "[Chunk ".toList ++ showNat (i + 1) ++ ": ".toList ++ showNat len ++
    " messages, summarization unavailable]".toList

def summarizeChunks : Nat → List (List Message) → ChunkRun → Except Fault ChunkRun
  | _, [], run => .ok run
  | i, chunk :: rest, run => do
    let (result, made) ← summarizeMessages u config outcomes model chunk run.made
    match result with
    | .ok summary =>
      summarizeChunks (i + 1) rest
        ⟨run.summaries ++ [summary], run.successCount + 1, run.lastChunkError, made⟩
    | .error e =>
      summarizeChunks (i + 1) rest
        ⟨run.summaries ++ [unavailable i chunk.length], run.successCount, e, made⟩

def mergePrompt (summaries : List Str) : Str :=
  "Merge these ".toList ++ showNat summaries.length ++
    (" conversation summaries into one concise, coherent summary. " ++
      "Preserve all key facts, decisions, and context. Output only the merged summary.\n\n").toList
    ++ "\n\n".toList.intercalate (summaries.zipIdx.map fun p =>
      "--- Part ".toList ++ showNat (p.2 + 1) ++ " ---\n".toList ++ p.1)

def mergeRequest (summaries : List Str) : CompletionRequest :=
  request config model (mergePrompt summaries)
    ("You are a conversation summarizer. Merge the provided partial summaries " ++
      "into a single cohesive summary.").toList

/-- What is made of the summaries of the chunks. -/
def mergeSummaries (run : ChunkRun) : Except Str Str × List CompletionRequest :=
  if run.successCount = 0 then
    (.error ("All ".toList ++ showNat run.summaries.length ++
      " chunks failed to summarize: ".toList ++ run.lastChunkError), run.made)
  else
    match run.summaries with
    | [] => (.error "No chunks were summarized".toList, run.made)
    | [summary] => (.ok summary, run.made)
    | summaries =>
      let joined := "\n\n".toList.intercalate summaries
      let made := run.made ++ [mergeRequest config model summaries]
      match outcomes run.made.length with
      | .ok response => (.ok (if response.text = [] then joined else response.text), made)
      | .error _ => (.ok joined, made)

def summarizeInChunks (messages : List Message) (made : List CompletionRequest) :
    Except Fault (Except Str Str × List CompletionRequest) := do
  let ratio ← computeAdaptiveChunkRatio config messages
  let run ← summarizeChunks u config outcomes model 0
    (chunks (chunkSize messages ratio) messages) ⟨[], 0, [], made⟩
  return mergeSummaries config outcomes model run

def chunkCount (messages : List Message) (ratio : Float) : UInt32 :=
  ((UInt64.ofNat messages.length).toFloat /
    (UInt64.ofNat (chunkSize messages ratio)).toFloat).ceil.toUInt32

def minimalNote (compacted kept : Nat) : Str :=
  "[Session compacted: ".toList ++ showNat compacted ++ " messages removed. Recent ".toList ++
    showNat kept ++ " messages preserved. Summarization was unavailable.]".toList

def compactSession (session : Session) :
    Except Fault (Except Str CompactionResult × List CompletionRequest) := do
  let count := session.messages.length
  if count ≤ config.keepRecent then
    return (.ok ⟨[], session.messages, 0, 0, false⟩, [])
  let toCompact := session.messages.take (count - config.keepRecent)
  let kept := session.messages.drop (count - config.keepRecent)
  let (first, made) ← summarizeMessages u config outcomes model toCompact []
  match first with
  | .ok summary => return (.ok ⟨summary, kept, toCompact.length, 1, false⟩, made)
  | .error _ =>
    let (second, made) ← summarizeInChunks u config outcomes model toCompact made
    match second with
    | .ok summary =>
      let ratio ← computeAdaptiveChunkRatio config toCompact
      let used := chunkCount toCompact ratio
      return (.ok ⟨summary, kept, toCompact.length, if used < 1 then 1 else used, false⟩, made)
    | .error _ =>
      return (.ok ⟨minimalNote toCompact.length kept.length, kept, toCompact.length, 0, true⟩,
        made)

end Code

end Clawreform.Runtime.Compactor
