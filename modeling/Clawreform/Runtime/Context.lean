import Clawreform.Lib.Binary64
import Clawreform.Types.Message

namespace Clawreform.Runtime

open Clawreform.Lib Clawreform.Lib.Text
open Clawreform.Types

section Edit

variable {σ : Type}

/-- Edit the contents of the tool results of a block list in order, with a state
passed along. An edit may slice inside a character, which panics. -/
def editBlocks (f : σ → Str → Option (Str × σ)) : σ → List ContentBlock →
    Option (List ContentBlock × σ)
  | st, [] => some ([], st)
  | st, .toolResult id content isError :: bs => do
    let (content', st') ← f st content
    let (bs', st'') ← editBlocks f st' bs
    return (.toolResult id content' isError :: bs', st'')
  | st, b :: bs => do
    let (bs', st') ← editBlocks f st bs
    return (b :: bs', st')

def editMessages (f : σ → Str → Option (Str × σ)) : σ → List Message →
    Option (List Message × σ)
  | st, [] => some ([], st)
  | st, ⟨role, .text s⟩ :: ms => do
    let (ms', st') ← editMessages f st ms
    return (⟨role, .text s⟩ :: ms', st')
  | st, ⟨role, .blocks bs⟩ :: ms => do
    let (bs', st') ← editBlocks f st bs
    let (ms', st'') ← editMessages f st' ms
    return (⟨role, .blocks bs'⟩ :: ms', st'')

/-- The byte lengths of the tool results, in order. -/
def resultLengths (messages : List Message) : List Nat :=
  messages.flatMap (fun m => m.content.blockList.filterMap fun
    | .toolResult _ content _ => some (byteLen content)
    | _ => none)

end Edit

section Budget

structure ContextBudget where
  contextWindowTokens : Nat
  deriving DecidableEq

/-- `(window as f64 * share) as usize` tokens, at two characters a token. -/
def ContextBudget.toolChars (budget : ContextBudget) (significand scale : Nat) : Nat :=
  scaleToUsize (scaleToUsize budget.contextWindowTokens significand scale) 2 0

def ContextBudget.perResultCap (budget : ContextBudget) : Nat :=
  budget.toolChars (literalSignificand 30 100 54) 54

def ContextBudget.singleResultMax (budget : ContextBudget) : Nat := budget.toolChars 1 1

def ContextBudget.totalToolHeadroomChars (budget : ContextBudget) : Nat := budget.toolChars 3 2

def truncateToolResultDynamic (content : Str) (budget : ContextBudget) : Option Str := do
  let cap := budget.perResultCap
  if byteLen content ≤ cap then return content
  let (before, window) ← slice (cap - 200) cap content
  let shown ← match beforeLast '\n' window with
    | some line => some (before ++ line)
    | none => (splitBytes (cap - 100) content).map Prod.fst
  return shown ++ "\n\n[TRUNCATED: result was ".toList ++ showNat (byteLen content) ++
    " chars, showing first ".toList ++ showNat (byteLen shown) ++ " (budget: 30% of ".toList ++
    showNat (budget.contextWindowTokens / 1000) ++ "K context window)]".toList

def truncateTo (content : Str) (maxChars : Nat) : Option Str := do
  if byteLen content ≤ maxChars then return content
  let keep := maxChars - 80
  let (before, window) ← slice (keep - 100) keep content
  let shown := match beforeLast '\n' window with
    | some line => before ++ line
    | none => before ++ window
  return shown ++ "\n\n[COMPACTED: ".toList ++ showNat (byteLen content) ++ " → ".toList ++
    showNat (byteLen shown) ++ " chars by context guard]".toList

/-- How far the guard has come: the total it counts, how many results it has
compacted, and the lengths of the results ahead as they were at first. -/
structure Compaction where
  totalChars : Nat
  compacted : Nat
  lengths : List Nat
  deriving DecidableEq

def Compaction.replace (c : Compaction) (content content' : Str) : Compaction :=
  { c with
    totalChars := c.totalChars - byteLen content + byteLen content'
    compacted := c.compacted + 1 }

/-- Cap a result that takes more than half of the context. -/
def capResult (singleMax : Nat) (c : Compaction) (content : Str) : Option (Str × Compaction) := do
  if byteLen content ≤ singleMax then return (content, c)
  let content' ← truncateTo content singleMax
  return (content', c.replace content content')

/-- Compact a result to 2000 bytes while the total is over the headroom. -/
def compactResult (headroom : Nat) (c : Compaction) (content : Str) :
    Option (Str × Compaction) := do
  let next := { c with lengths := c.lengths.tail }
  if c.totalChars ≤ headroom ∨ c.lengths.headD 0 ≤ 2000 ∨ byteLen content ≤ 2000 then
    return (content, next)
  let content' ← truncateTo content 2000
  return (content', next.replace content content')

def applyContextGuard (messages : List Message) (budget : ContextBudget) :
    Option (List Message × Nat) := do
  let lengths := resultLengths messages
  if lengths.sum ≤ budget.totalToolHeadroomChars then return (messages, 0)
  let (capped, c) ← editMessages (capResult budget.singleResultMax) ⟨lengths.sum, 0, lengths⟩
    messages
  let (compacted, c) ← editMessages (compactResult budget.totalToolHeadroomChars) c capped
  return (compacted, c.compacted)

end Budget

section Overflow

inductive RecoveryStage where
  | none
  | autoCompaction (removed : Nat)
  | overflowCompaction (removed : Nat)
  | toolResultTruncation (truncated : Nat)
  | finalError
  deriving DecidableEq

def textLength : MessageContent → Nat
  | .text s => byteLen s
  | .blocks bs => (bs.map fun
    | .text s => byteLen s
    | .toolResult _ content _ => byteLen content
    | .thinking s => byteLen s
    | _ => 0).sum

def estimateTokens (messages : List Message) (systemPrompt : Str) (tools : List ToolDefinition) :
    Nat :=
  (byteLen systemPrompt + (messages.map (fun m => textLength m.content + 16)).sum +
    (tools.map (fun t => byteLen t.name + byteLen t.description +
      byteLen t.inputSchema.toText)).sum) / 4

def overflowSummary (removed : Nat) : Message :=
  Message.user ("[System: ".toList ++ showNat removed ++
    (" earlier messages were removed due to context overflow. " ++
      "The conversation continues from here. Use /compact for smarter summarization.]").toList)

def truncateHistorical (truncated : Nat) (content : Str) : Option (Str × Nat) := do
  if byteLen content ≤ 2000 then return (content, truncated)
  let (shown, _) ← splitBytes 1920 content
  return (shown ++ "\n\n[OVERFLOW RECOVERY: truncated from ".toList ++
    showNat (byteLen content) ++ " to 1920 chars]".toList, truncated + 1)

variable (systemPrompt : Str) (tools : List ToolDefinition) (contextWindow : Nat)

def threshold70 : Nat := scaleToUsize contextWindow (literalSignificand 70 100 53) 53

def threshold90 : Nat := scaleToUsize contextWindow (literalSignificand 90 100 53) 53

/-- Stages 3 and 4. -/
def truncateResults (messages : List Message) : Option (List Message × RecoveryStage) := do
  let (messages', truncated) ← editMessages truncateHistorical 0 messages
  if 0 < truncated ∧ estimateTokens messages' systemPrompt tools ≤ threshold90 contextWindow then
    return (messages', .toolResultTruncation truncated)
  return (messages', .finalError)

/-- Stage 2: keep the last four messages behind a summary. -/
def compactOverflow (messages : List Message) : Option (List Message × RecoveryStage) :=
  let removed := messages.length - 4
  if removed = 0 then truncateResults systemPrompt tools contextWindow messages
  else
    let compacted := overflowSummary removed :: messages.drop removed
    if estimateTokens compacted systemPrompt tools ≤ threshold90 contextWindow then
      some (compacted, .overflowCompaction removed)
    else truncateResults systemPrompt tools contextWindow compacted

def recoverFromOverflow (messages : List Message) : Option (List Message × RecoveryStage) :=
  let estimated := estimateTokens messages systemPrompt tools
  if estimated ≤ threshold70 contextWindow then some (messages, .none)
  else
    let removed := messages.length - 10
    if estimated ≤ threshold90 contextWindow ∧ 0 < removed then
      let trimmed := messages.drop removed
      if estimateTokens trimmed systemPrompt tools ≤ threshold70 contextWindow then
        some (trimmed, .autoCompaction removed)
      else compactOverflow systemPrompt tools contextWindow trimmed
    else compactOverflow systemPrompt tools contextWindow messages

end Overflow

end Clawreform.Runtime
