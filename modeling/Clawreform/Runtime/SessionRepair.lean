import Clawreform.Lib.Splice
import Clawreform.Lib.Store
import Clawreform.Types.Message

namespace Clawreform.Runtime.SessionRepair

open Clawreform.Lib.Text Clawreform.Lib.Splice Clawreform.Lib.Table
open Clawreform.Types

structure RepairStats where
  orphanedResultsRemoved : Nat
  emptyMessagesRemoved : Nat
  messagesMerged : Nat
  resultsReordered : Nat
  syntheticResultsInserted : Nat
  duplicatesRemoved : Nat
  deriving DecidableEq

def RepairStats.zero : RepairStats := ⟨0, 0, 0, 0, 0, 0⟩

def toolUseIds (messages : List Message) : List Str := messages.flatMap Message.toolUses

def toolResultIds (messages : List Message) : List Str := messages.flatMap Message.toolResults

/-- Filtering keeps every block but the results of unknown tool uses. -/
def keepBlock (ids : List Str) : ContentBlock → Bool
  | .toolResult id _ _ => ids.contains id
  | _ => true

def cleanMessage (ids : List Str) (m : Message) : Option Message :=
  match m.content with
  | .text s => if s = [] then none else some m
  | .blocks bs =>
    let filtered := bs.filter (keepBlock ids)
    if filtered = [] then none else some { m with content := .blocks filtered }

def orphansIn (ids : List Str) (m : Message) : Nat :=
  m.content.blockList.countP (fun b => !keepBlock ids b)

def dropEmpty (messages : List Message) : List Message :=
  messages.filter (fun m => !m.content.isEmpty)

section Reorder

/-- The index of the last assistant message that holds a tool use. -/
def toolUseIndex (messages : List Message) : Str → Option Nat :=
  insertAll (messages.zipIdx.flatMap (fun p => p.1.calls.map (fun id => (id, p.2))))

structure Misplaced where
  msgIdx : Nat
  toolUseId : Str
  block : ContentBlock
  assistantIdx : Nat
  deriving DecidableEq

def misplacedBlock (index : Str → Option Nat) (msgIdx : Nat) (b : ContentBlock) :
    Option Misplaced :=
  match b.resultId? with
  | none => none
  | some id =>
    match index id with
    | none => none
    | some assistantIdx =>
      if msgIdx = assistantIdx + 1 then none else some ⟨msgIdx, id, b, assistantIdx⟩

def misplacedResults (messages : List Message) : List Misplaced :=
  messages.zipIdx.flatMap (fun p =>
    if p.1.role = .user then
      p.1.content.blockList.filterMap (misplacedBlock (toolUseIndex messages) p.2)
    else [])

def isSource (misplaced : List Misplaced) (msgIdx : Nat) (b : ContentBlock) : Bool :=
  match b.resultId? with
  | none => false
  | some id => misplaced.any (fun r => r.msgIdx = msgIdx ∧ r.toolUseId = id)

def removeSources (misplaced : List Misplaced) (m : Message) (msgIdx : Nat) : Message :=
  match m.role, m.content with
  | .user, .blocks bs =>
    { m with content := .blocks (bs.filter (fun b => !isSource misplaced msgIdx b)) }
  | _, _ => m

/-- Where the assistant messages stand now, by the index they stood at. -/
def assistantPositions (index : Str → Option Nat) (messages : List Message) : Nat → Option Nat :=
  insertAll (messages.zipIdx.flatMap (fun p =>
    p.1.calls.filterMap (fun id => (index id).map (fun i => (i, p.2)))))

/-- The groups of an index, the largest index first. -/
def sortedGroups (n : Nat) (group : Nat → List ContentBlock) : List (Nat × List ContentBlock) :=
  ((List.range n).filterMap (fun i => if group i = [] then none else some (i, group i))).reverse

/-- Append results to the user message the list begins with, or put a new one
in front. -/
def attachResults (blocks : List ContentBlock) : List Message → List Message
  | [] => [⟨.user, .blocks blocks⟩]
  | m :: ms =>
    if m.role = .user then { m with content := .blocks (m.content.toBlocks ++ blocks) } :: ms
    else ⟨.user, .blocks blocks⟩ :: m :: ms

def groupOf (misplaced : List Misplaced) (assistantIdx : Nat) : List ContentBlock :=
  (misplaced.filter (fun r => r.assistantIdx = assistantIdx)).map Misplaced.block

def reorderToolResults (messages : List Message) : List Message × Nat :=
  let misplaced := misplacedResults messages
  if misplaced = [] then (messages, 0)
  else
    let removed := dropEmpty (messages.zipIdx.map (fun p => removeSources misplaced p.1 p.2))
    let positions := assistantPositions (toolUseIndex messages) removed
    let insertions := sortedGroups messages.length (groupOf misplaced)
    let reordered := insertions.foldl (fun ms e =>
      match positions e.1 with
      | some idx => applyAt (attachResults e.2) (idx + 1) ms
      | none => ms) removed
    (reordered, misplaced.length)

end Reorder

section Synthetic

def lostText : Str := "[Tool execution was interrupted or lost]".toList

def orphanedUses (messages : List Message) : List (Nat × Str) :=
  messages.zipIdx.flatMap (fun p =>
    (p.1.calls.filter (fun id => !(toolResultIds messages).contains id)).map (fun id => (p.2, id)))

def syntheticGroup (orphaned : List (Nat × Str)) (idx : Nat) : List ContentBlock :=
  (orphaned.filter (fun e => e.1 = idx)).map (fun e => .toolResult e.2 lostText true)

def insertSyntheticResults (messages : List Message) : List Message × Nat :=
  let orphaned := orphanedUses messages
  if orphaned = [] then (messages, 0)
  else
    ((sortedGroups messages.length (syntheticGroup orphaned)).foldl
      (fun ms e => applyAt (attachResults e.2) (e.1 + 1) ms) messages, orphaned.length)

end Synthetic

section Deduplicate

/-- Keep the first result for every id, given the ids already seen. -/
def dedupBlocks : List Str → List ContentBlock → List ContentBlock × List Str
  | seen, [] => ([], seen)
  | seen, b :: bs =>
    match b.resultId? with
    | none =>
      let p := dedupBlocks seen bs
      (b :: p.1, p.2)
    | some id =>
      if seen.contains id then dedupBlocks seen bs
      else
        let p := dedupBlocks (id :: seen) bs
        (b :: p.1, p.2)

/-- What is left of a message, and the ids seen after it. -/
def dedupMessage (seen : List Str) (m : Message) : Message × List Str :=
  match m.content with
  | .text _ => (m, seen)
  | .blocks bs =>
    let p := dedupBlocks seen bs
    ({ m with content := .blocks p.1 }, p.2)

def dedupMessages : List Str → List Message → List Message
  | _, [] => []
  | seen, m :: ms =>
    let p := dedupMessage seen m
    p.1 :: dedupMessages p.2 ms

def blockCount (messages : List Message) : Nat :=
  (messages.map (fun m => m.content.blockList.length)).sum

def deduplicateToolResults (messages : List Message) : List Message × Nat :=
  let deduped := dedupMessages [] messages
  (dropEmpty deduped, blockCount messages - blockCount deduped)

end Deduplicate

def isBlankText (s : Str) : Bool := (trim s).isEmpty

def isEmptyOrBlankContent : MessageContent → Bool
  | .text s => isBlankText s
  | .blocks bs => bs.all fun
    | .text s => isBlankText s
    | .unknown => true
    | _ => false

def removeAbortedAssistantMessages : List Message → List Message
  | [] => []
  | m :: ms =>
    if m.role = .assistant ∧ isEmptyOrBlankContent m.content ∧ ms ≠ [] then
      removeAbortedAssistantMessages ms
    else m :: removeAbortedAssistantMessages ms

def mergeContent (dst src : MessageContent) : MessageContent :=
  .blocks (dst.toBlocks ++ src.toBlocks)

def mergeFrom (last : Message) : List Message → List Message
  | [] => [last]
  | m :: ms =>
    if last.role = m.role then
      mergeFrom { last with content := mergeContent last.content m.content } ms
    else last :: mergeFrom m ms

def mergeConsecutive : List Message → List Message
  | [] => []
  | m :: ms => mergeFrom m ms

def validateAndRepairWithStats (messages : List Message) : List Message × RepairStats :=
  let ids := toolUseIds messages
  let cleaned := messages.filterMap (cleanMessage ids)
  let reordered := reorderToolResults cleaned
  let answered := insertSyntheticResults reordered.1
  let deduped := deduplicateToolResults answered.1
  let kept := removeAbortedAssistantMessages deduped.1
  let merged := mergeConsecutive kept
  (merged,
    { orphanedResultsRemoved := (messages.map (orphansIn ids)).sum
      emptyMessagesRemoved := (messages.length - cleaned.length) + (deduped.1.length - kept.length)
      messagesMerged := kept.length - merged.length
      resultsReordered := reordered.2
      syntheticResultsInserted := answered.2
      duplicatesRemoved := deduped.2 })

def validateAndRepair (messages : List Message) : List Message :=
  (validateAndRepairWithStats messages).1

section Prune

def isNoReplyText (s : Str) : Bool :=
  let t := trim s
  t = "NO_REPLY".toList || t = "[no reply needed]".toList

def isNoReply : MessageContent → Bool
  | .text s => isNoReplyText s
  | .blocks [.text s] => isNoReplyText s
  | .blocks _ => false

/-- The indices a heartbeat turn marks: a `NO_REPLY` answer among the first
`pruneEnd` messages and the user message in front of it. -/
def prunedIndices (messages : List Message) (pruneEnd : Nat) : List Nat :=
  (List.range pruneEnd).flatMap (fun i =>
    match messages[i]? with
    | some m =>
      if m.role = .assistant ∧ isNoReply m.content then
        i :: (if 0 < i ∧ messages[i - 1]?.map Message.role = some .user then [i - 1] else [])
      else []
    | none => [])

def removeIndices {α : Type*} (indices : List Nat) (l : List α) : List α :=
  (l.zipIdx.filter (fun p => !indices.contains p.2)).map Prod.fst

def pruneHeartbeatTurns (messages : List Message) (keepRecent : Nat) : List Message :=
  if messages.length ≤ keepRecent then messages
  else removeIndices (prunedIndices messages (messages.length - keepRecent)) messages

end Prune

end Clawreform.Runtime.SessionRepair
