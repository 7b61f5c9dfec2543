import Clawreform.Lib.Regroup
import Clawreform.Lib.Splice
import Clawreform.Lib.Trimming
import Clawreform.Runtime.ProviderAnswer

namespace Clawreform.Runtime.StreamAgreement

open Clawreform.Lib.Text Clawreform.Lib.Run Clawreform.Lib.Splitting Clawreform.Lib.Utf8
open Clawreform.Lib.Find Clawreform.Lib.Regroup Clawreform.Lib.Splice Clawreform.Lib.Trimming
open ProviderAnswer
open Clawreform.Lib.Json (Value)
open Clawreform.Lib.Json.Value
open Clawreform.Types

section Framing

variable {α : Type*} {parse : Str → Option α} {v : α} {t piece : Str}

theorem newline_notMem_dataLine (h : IsTextOf parse v t) : '\n' ∉ dataLine t := by
  rw [dataLine_eq, List.mem_append, not_or]
  exact ⟨by decide, h.oneLine⟩

theorem stripPrefix_append (p s : Str) : stripPrefix p (p ++ s) = some s := by
  rw [stripPrefix, if_pos (List.prefix_append p s), List.drop_left]

theorem stripPrefix_dataLine (t : Str) : stripPrefix "data: ".toList (dataLine t) = some t :=
  stripPrefix_append _ _

theorem dataLine_ne_nil (t : Str) : dataLine t ≠ [] := by
  simp [dataLine_eq]

theorem getLast?_dataLine (h : t ≠ []) : (dataLine t).getLast? = t.getLast? := by
  rw [dataLine_eq, List.getLast?_append_of_ne_nil _ h]

end Framing

section OpenAi

open OpenAiDriver

variable {s : StreamState}

theorem onText_state (content : Value) :
    (onText s content).1 = { s with textContent := s.textContent ++ content.asStr.getD [] } := by
  unfold onText
  cases content.asStr with
  | none => simp
  | some text => cases text <;> simp

/-- What a chunk with a delta does to the state. -/
theorem onJson_chunk (delta finish : Value) : (onJson s (oaiChunk delta finish)).1 =
    { s with
      textContent := s.textContent ++ (delta.index "content").asStr.getD []
      toolAccum := (run onCall s.toolAccum ((delta.index "tool_calls").asArray.getD [])).1
      finishReason := finish.asStr.or s.finishReason } := by
  have husage : onUsage s.usage (oaiChunk delta finish) = s.usage := by
    simp [onUsage, oaiChunk, index_obj_cons, index_obj_nil]
  have hchoices : (oaiChunk delta finish).index "choices" =
      .array [obj [("delta", delta), ("finish_reason", finish)]] := by
    rw [oaiChunk, index_obj_cons, if_pos rfl]
  have hdelta : (obj [("delta", delta), ("finish_reason", finish)]).index "delta" = delta := by
    rw [index_obj_cons, if_pos rfl]
  have hfinish : (obj [("delta", delta), ("finish_reason", finish)]).index "finish_reason" =
      finish := by
    simp [index_obj_cons]
  unfold onJson
  dsimp only
  rw [husage, hchoices]
  simp only [asArray_array, Option.getD_some, run_cons, run_nil, onChoice, hdelta, hfinish,
    onText_state]
  cases finish.asStr with
  | none => rfl
  | some reason => rfl

theorem ensure_next {accum : List ToolAccum} {k : Nat} (h : accum.length = k) :
    ensure k accum = accum ++ [⟨[], [], []⟩] := by
  have hone : k + 1 - accum.length = 1 := by omega
  rw [ensure, hone]
  rfl

theorem ensure_last {accum : List ToolAccum} {k : Nat} (h : accum.length = k) (t : ToolAccum) :
    ensure k (accum ++ [t]) = accum ++ [t] := by
  have hzero : k + 1 - (accum ++ [t]).length = 0 := by
    rw [List.length_append, List.length_singleton]
    omega
  rw [ensure, hzero, List.replicate_zero, List.append_nil]

/-- The first delta of a call opens an entry. -/
theorem onCall_first {accum : List ToolAccum} {k : Nat} (h : accum.length = k) (hk : k < 2 ^ 64)
    (id name : Str) :
    (onCall accum (obj [("index", .count (UInt64.ofNat k)), ("id", .string id),
      ("type", .string "function".toList),
      ("function", obj [("name", .string name), ("arguments", .string [])])])).1 =
      accum ++ [⟨id, name, []⟩] := by
  have hidx : (UInt64.ofNat k).toNat = k := UInt64.toNat_ofNat_of_lt hk
  unfold onCall
  rw [get_obj_cons, if_neg (by decide), get_obj_cons, if_neg (by decide), get_obj_cons,
    if_neg (by decide), get_obj_cons, if_pos rfl]
  simp [index_obj_cons, onFunction, hidx, ensure_next h, modify_last h]

/-- The other deltas fill it. -/
theorem onCall_more {accum : List ToolAccum} {k : Nat} (h : accum.length = k) (hk : k < 2 ^ 64)
    (t : ToolAccum) (piece : Str) :
    (onCall (accum ++ [t]) (obj [("index", .count (UInt64.ofNat k)),
      ("function", obj [("arguments", .string piece)])])).1 =
      accum ++ [{ t with arguments := t.arguments ++ piece }] := by
  have hidx : (UInt64.ofNat k).toNat = k := UInt64.toNat_ofNat_of_lt hk
  unfold onCall
  rw [get_obj_cons, if_neg (by decide), get_obj_cons, if_pos rfl]
  simp [index_obj_cons, index_obj_nil, onFunction, hidx, ensure_last h, modify_last h]

/-- The state behind a chunk without finish reason. -/
def afterDelta (s : StreamState) (delta : Value) : StreamState :=
  (onJson s (oaiChunk delta .null)).1

theorem afterDelta_content (piece : Str) : afterDelta s (obj [("content", .string piece)]) =
    { s with textContent := s.textContent ++ piece } := by
  rw [afterDelta, onJson_chunk]
  simp [index_obj_cons, index_obj_nil]

theorem afterDelta_reasoning (piece : Str) :
    afterDelta s (obj [("reasoning_content", .string piece)]) = s := by
  rw [afterDelta, onJson_chunk]
  simp [index_obj_cons, index_obj_nil]

theorem afterDelta_call (fields : List (String × Value)) :
    afterDelta s (oaiCallDelta fields) =
      { s with toolAccum := (onCall s.toolAccum (obj fields)).1 } := by
  rw [afterDelta, onJson_chunk]
  simp [oaiCallDelta, index_obj_cons, index_obj_nil]

theorem foldl_content (pieces : List Str) :
    (pieces.map fun piece => obj [("content", .string piece)]).foldl afterDelta s =
      { s with textContent := s.textContent ++ pieces.flatten } := by
  induction pieces generalizing s with
  | nil => simp
  | cons piece pieces ih =>
    rw [List.map_cons, List.foldl_cons, afterDelta_content, ih, List.flatten_cons,
      List.append_assoc]

theorem foldl_reasoning (pieces : List Str) :
    (pieces.map fun piece => obj [("reasoning_content", .string piece)]).foldl afterDelta s =
      s := by
  induction pieces with
  | nil => rfl
  | cons piece pieces ih => rw [List.map_cons, List.foldl_cons, afterDelta_reasoning, ih]

theorem foldl_arguments {accum : List ToolAccum} {k : Nat} (h : accum.length = k)
    (hk : k < 2 ^ 64) (t : ToolAccum) (pieces : List Str) :
    (pieces.map fun piece => oaiCallDelta [("index", .count (UInt64.ofNat k)),
      ("function", obj [("arguments", .string piece)])]).foldl afterDelta
        { s with toolAccum := accum ++ [t] } =
      { s with toolAccum := accum ++ [{ t with arguments := t.arguments ++ pieces.flatten }] } := by
  induction pieces generalizing t with
  | nil => simp
  | cons piece pieces ih =>
    rw [List.map_cons, List.foldl_cons, afterDelta_call, onCall_more h hk, ih]
    simp

def oaiAccum : AnswerBlock → Option ToolAccum
  | .call id name _ pieces => some ⟨id, name, pieces.flatten⟩
  | _ => none

theorem foldl_block {k : Nat} (h : s.toolAccum.length = k) (block : AnswerBlock)
    (hk : block.isCall → k < 2 ^ 64) : (oaiDeltas k block).foldl afterDelta s =
      { s with
        textContent := s.textContent ++ block.textPart
        toolAccum := s.toolAccum ++ (oaiAccum block).toList } := by
  cases block with
  | text pieces =>
    rw [oaiDeltas, foldl_content]
    simp [AnswerBlock.textPart, oaiAccum]
  | thinking pieces =>
    rw [oaiDeltas, foldl_reasoning]
    simp [AnswerBlock.textPart, oaiAccum]
  | call id name input pieces =>
    rw [oaiDeltas, List.foldl_cons, afterDelta_call, onCall_first h (hk rfl),
      foldl_arguments h (hk rfl)]
    simp [AnswerBlock.textPart, oaiAccum]

theorem foldl_blocks {k : Nat} (h : s.toolAccum.length = k) (blocks : List AnswerBlock)
    (hk : k + (blocks.filter AnswerBlock.isCall).length ≤ 2 ^ 64) :
    (oaiBlockDeltas k blocks).foldl afterDelta s =
      { s with
        textContent := s.textContent ++ blocks.flatMap AnswerBlock.textPart
        toolAccum := s.toolAccum ++ blocks.filterMap oaiAccum } := by
  induction blocks generalizing s k with
  | nil => simp [oaiBlockDeltas]
  | cons block blocks ih =>
    rw [oaiBlockDeltas, List.foldl_append]
    by_cases hcall : block.isCall = true
    · rw [List.filter_cons_of_pos hcall, List.length_cons] at hk
      obtain ⟨id, name, input, pieces, rfl⟩ : ∃ id name input pieces,
          block = .call id name input pieces := by
        cases block with
        | text pieces => cases hcall
        | thinking pieces => cases hcall
        | call id name input pieces => exact ⟨id, name, input, pieces, rfl⟩
      rw [if_pos hcall, foldl_block h _ fun _ => by omega, ih (by simp [oaiAccum, h]) (by omega)]
      simp [oaiAccum]
    · rw [List.filter_cons_of_neg hcall] at hk
      have hnone : oaiAccum block = none := by
        cases block with
        | text pieces => rfl
        | thinking pieces => rfl
        | call id name input pieces => exact absurd rfl hcall
      rw [if_neg hcall, foldl_block h _ fun hc => absurd hc hcall,
        ih (by simp [hnone, h]) hk, List.filterMap_cons_none hnone]
      simp [hnone]

/-- The events of an answer leave the answer behind. -/
theorem run_events (a : Answer) (h : (a.blocks.filter AnswerBlock.isCall).length ≤ 2 ^ 64) :
    (run onJson .init (oaiEvents a)).1 =
      ⟨a.blocks.flatMap AnswerBlock.textPart, a.blocks.filterMap oaiAccum, a.finish, a.usage⟩ := by
  have hdeltas : ((oaiBlockDeltas 0 a.blocks).map (oaiChunk · .null)).foldl
      (fun s json => (onJson s json).1) .init =
        (oaiBlockDeltas 0 a.blocks).foldl afterDelta .init := List.foldl_map
  have husage (s : StreamState) : (onJson s (obj [("choices", .array []),
      ("usage", obj [("prompt_tokens", .count a.usage.inputTokens),
        ("completion_tokens", .count a.usage.outputTokens)])])).1 =
          { s with usage := a.usage } := by
    simp [onJson, onUsage, index_obj_cons]
  have hfinish : (finishValue a.finish).asStr = a.finish := by
    cases a.finish <;> rfl
  rw [run_state, oaiEvents, List.foldl_append, hdeltas,
    foldl_blocks (s := .init) (k := 0) rfl a.blocks (by simpa using h), List.foldl_cons,
    List.foldl_cons, List.foldl_nil, onJson_chunk, husage, hfinish]
  simp [StreamState.init, index_obj_nil]

theorem onLine_nil (parseJson : Str → Option Value) (s : StreamState) :
    onLine parseJson s [] = (s, []) := by
  rw [onLine, if_pos (Or.inl rfl)]

theorem onLine_data {parseJson : Str → Option Value} {json : Value} {t : Str}
    (h : IsTextOf parseJson json t) (s : StreamState) :
    onLine parseJson s (dataLine t) = onJson s json := by
  have hnot : ¬ (dataLine t = [] ∨ (dataLine t).head? = some ':') := by simp [dataLine_eq]
  have hdone : t ≠ "[DONE]".toList := by
    rintro rfl
    exact absurd h.opens (by decide)
  rw [onLine, if_neg hnot, stripPrefix_dataLine]
  dsimp only
  rw [if_neg hdone, h.parsed]

theorem onLine_done (parseJson : Str → Option Value) (s : StreamState) :
    onLine parseJson s (dataLine "[DONE]".toList) = (s, []) := by
  have hnot : ¬ (dataLine "[DONE]".toList = [] ∨
      (dataLine "[DONE]".toList).head? = some ':') := by decide
  rw [onLine, if_neg hnot, stripPrefix_dataLine]
  dsimp only
  rw [if_pos rfl]

theorem sse_eq_lines (pieces : List Str) :
    sse pieces = (pieces.flatMap fun piece => [piece, []]).flatMap (· ++ ['\n']) := by
  rw [List.flatMap_assoc, sse]
  congr 1
  funext piece
  simp

theorem run_skip (parseJson : Str → Option Value) (s : StreamState) (pieces : List Str) :
    run (onLine parseJson) s ((pieces.flatMap fun piece => [piece, []]).map trimEnd) =
      run (fun s piece => onLine parseJson s (trimEnd piece)) s pieces := by
  have hnil : trimEnd [] = [] := rfl
  induction pieces generalizing s with
  | nil => rfl
  | cons piece pieces ih =>
    rw [List.flatMap_cons, List.map_append, run_append, ih, List.map_cons, List.map_cons, hnil,
      List.map_nil, run_cons, run_cons, onLine_nil, run_nil]
    simp

/-- Line by line, the events come in as they were written. -/
theorem run_lines {parseJson : Str → Option Value} {events : List Value} {pieces : List Str}
    (h : List.Forall₂ (IsDataEvent parseJson) events pieces) (s : StreamState) :
    run (onLine parseJson) s
      ((split ['\n'] (sse (pieces ++ [dataLine "[DONE]".toList]))).1.map trimEnd) =
      run onJson s events := by
  have hclean : ∀ piece ∈ (pieces ++ [dataLine "[DONE]".toList]).flatMap fun p => [p, []],
      find ['\n'] (piece ++ ['\n']) = some piece.length := by
    have hpieces : ∀ piece ∈ pieces, '\n' ∉ piece := by
      refine forall_mem_of_forall₂ h fun json piece hevent => ?_
      obtain ⟨t, ht, rfl⟩ := hevent
      exact newline_notMem_dataLine ht
    intro piece hpiece
    apply find_notMem
    obtain ⟨p, hp, hmem⟩ := List.mem_flatMap.mp hpiece
    simp only [List.mem_cons, List.not_mem_nil, or_false] at hmem
    rcases hmem with rfl | rfl
    · rcases List.mem_append.mp hp with hp | hp
      · exact hpieces _ hp
      · rw [List.mem_singleton.mp hp]
        decide
    · simp
  have hstep (s : StreamState) (json : Value) (piece : Str)
      (hevent : IsDataEvent parseJson json piece) :
      onJson s json = onLine parseJson s (trimEnd piece) := by
    obtain ⟨t, ht, rfl⟩ := hevent
    have hne : t ≠ [] := by
      rintro rfl
      cases ht.opens
    have hlast : (dataLine t).getLast? = some '}' := by rw [getLast?_dataLine hne, ht.closes]
    have htrim : trimEnd (dataLine t) = dataLine t := by
      apply trimEnd_eq_self
      rw [hlast]
      rintro c ⟨⟩
      decide
    rw [htrim, onLine_data ht]
  have hdone : trimEnd (dataLine "[DONE]".toList) = dataLine "[DONE]".toList := by decide
  rw [sse_eq_lines, split_flatMap (by simp) hclean, run_skip, run_append, run_cons, hdone,
    onLine_done, run_nil, ← run_forall₂ onJson hstep h s]
  simp

theorem getD_ite {α : Type*} [DecidableEq α] (l : List α) :
    (if l = [] then none else some l).getD [] = l := by
  split
  · rename_i h
    rw [h]
    rfl
  · rfl

/-- So the two ways of OpenAI make no difference at all. -/
theorem stream_eq_complete {parseJson : Str → Option Value} {a : Answer}
    {chunks : List (List UInt8)} {pieces : List Str}
    (hcalls : (a.blocks.filter AnswerBlock.isCall).length ≤ 2 ^ 64)
    (h : List.Forall₂ (IsDataEvent parseJson) (oaiEvents a) pieces)
    (htext : (chunks.map fromUtf8Lossy).flatten = sse (pieces ++ [dataLine "[DONE]".toList])) :
    convertResponse parseJson (oaiPlain a) = .ok (stream parseJson chunks).1 := by
  have hmap : (a.blocks.filterMap oaiCall).map (fun call =>
        (⟨call.id, call.function.name, parseArguments parseJson call.function.arguments⟩ :
          ToolCall)) =
      (a.blocks.filterMap oaiAccum).map fun t =>
        ⟨t.id, t.name, parseArguments parseJson t.arguments⟩ := by
    rw [List.map_filterMap, List.map_filterMap]
    congr 1
    funext block
    cases block <;> rfl
  rw [stream, streamTexts, feed_nil (by simp), htext, run_lines h, convertResponse, oaiPlain]
  dsimp only
  rw [run_events a hcalls, finish, getD_ite, getD_ite, hmap]
  rfl

end OpenAi

section Anthropic

open AnthropicDriver

variable {parseJson : Str → Option Value} {s : StreamState}

/-- The state behind an event. -/
def afterEvent (parseJson : Str → Option Value) (s : StreamState) (event : Str × Value) :
    StreamState := (onJson parseJson s event.1 event.2).1

/-- A block of the answer as the stream leaves it. -/
def apiAccum : AnswerBlock → ContentBlockAccum
  | .text pieces => .text pieces.flatten
  | .thinking pieces => .thinking pieces.flatten
  | .call id name _ pieces => .toolUse id name pieces.flatten

def streamedBlock (parseJson : Str → Option Value) (block : AnswerBlock) : ResponseContentBlock :=
  (apiAccum block).block parseJson

theorem afterEvent_start (fields : List (String × Value)) :
    afterEvent parseJson s (blockStart fields) =
      (onBlockStart s (obj [("type", .string "content_block_start".toList),
        ("content_block", obj fields)])).1 := by
  simp [afterEvent, blockStart, apiEvent, onJson]

theorem afterEvent_delta (type key : String) (piece : Str) :
    afterEvent parseJson s (blockDelta type key piece) =
      (onBlockDelta s (obj [("type", .string "content_block_delta".toList),
        ("delta", obj [("type", .string type.toList), (key, .string piece)])])).1 := by
  simp [afterEvent, blockDelta, apiEvent, onJson]

theorem afterEvent_stop : afterEvent parseJson s blockStop = s := by
  simp [afterEvent, blockStop, apiEvent, onJson]

theorem modifyLast_last (blocks : List ContentBlockAccum) (b : ContentBlockAccum)
    (f : ContentBlockAccum → ContentBlockAccum) :
    { s with blocks := blocks ++ [b] }.modifyLast f = { s with blocks := blocks ++ [f b] } := by
  rw [StreamState.modifyLast]
  dsimp only
  rw [modify_last (by simp)]

section Deltas

variable {type key : String} {block : Str → ContentBlockAccum}

/-- The deltas of one type go on the end of a block. -/
def Extends (parseJson : Str → Option Value) (type key : String)
    (block : Str → ContentBlockAccum) : Prop :=
  ∀ (s : StreamState) blocks t piece,
    afterEvent parseJson { s with blocks := blocks ++ [block t] } (blockDelta type key piece) =
      { s with blocks := blocks ++ [block (t ++ piece)] }

theorem extends_text : Extends parseJson "text_delta" "text" .text := by
  intro s blocks t piece
  rw [afterEvent_delta]
  simp [onBlockDelta, index_obj_cons, modifyLast_last]

theorem extends_thinking : Extends parseJson "thinking_delta" "thinking" .thinking := by
  intro s blocks t piece
  rw [afterEvent_delta]
  simp [onBlockDelta, index_obj_cons, modifyLast_last]

theorem extends_input (id name : Str) :
    Extends parseJson "input_json_delta" "partial_json" (.toolUse id name) := by
  intro s blocks t piece
  rw [afterEvent_delta]
  simp [onBlockDelta, index_obj_cons, modifyLast_last]

theorem foldl_deltas (h : Extends parseJson type key block)
    (blocks : List ContentBlockAccum) (t : Str) (pieces : List Str) :
    (pieces.map (blockDelta type key)).foldl (afterEvent parseJson)
        { s with blocks := blocks ++ [block t] } =
      { s with blocks := blocks ++ [block (t ++ pieces.flatten)] } := by
  induction pieces generalizing t with
  | nil => simp
  | cons piece pieces ih =>
    rw [List.map_cons, List.foldl_cons, h, ih, List.flatten_cons, List.append_assoc]

theorem foldl_opened {fields : List (String × Value)}
    (hstart : afterEvent parseJson s (blockStart fields) =
      { s with blocks := s.blocks ++ [block []] })
    (h : Extends parseJson type key block) (pieces : List Str) :
    (blockStart fields :: pieces.map (blockDelta type key) ++ [blockStop]).foldl
        (afterEvent parseJson) s =
      { s with blocks := s.blocks ++ [block pieces.flatten] } := by
  rw [List.cons_append, List.foldl_cons, hstart, List.foldl_append, foldl_deltas h,
    List.foldl_cons, afterEvent_stop, List.foldl_nil, List.nil_append]

end Deltas

theorem foldl_apiBlock (block : AnswerBlock) :
    (apiBlockEvents block).foldl (afterEvent parseJson) s =
      { s with blocks := s.blocks ++ [apiAccum block] } := by
  cases block with
  | text pieces =>
    refine foldl_opened ?_ extends_text pieces
    rw [afterEvent_start]
    simp [onBlockStart, index_obj_cons]
  | thinking pieces =>
    refine foldl_opened ?_ extends_thinking pieces
    rw [afterEvent_start]
    simp [onBlockStart, index_obj_cons]
  | call id name input pieces =>
    refine foldl_opened ?_ (extends_input id name) pieces
    rw [afterEvent_start]
    simp [onBlockStart, index_obj_cons]

theorem foldl_apiBlocks (blocks : List AnswerBlock) :
    (blocks.flatMap apiBlockEvents).foldl (afterEvent parseJson) s =
      { s with blocks := s.blocks ++ blocks.map apiAccum } := by
  induction blocks generalizing s with
  | nil => simp
  | cons block blocks ih =>
    rw [List.flatMap_cons, List.foldl_append, foldl_apiBlock, ih]
    simp

theorem run_apiEvents (a : Answer) (h : a.finish.isSome) :
    (run (fun s e => onJson parseJson s e.1 e.2) .init (apiEvents a)).1 =
      ⟨a.blocks.map apiAccum, readStopReason (a.finish.getD []), a.usage⟩ := by
  obtain ⟨finish, hfinish⟩ := Option.isSome_iff_exists.mp h
  have hstart : afterEvent parseJson .init (apiEvent "message_start"
      [("message", obj [("usage", obj [("input_tokens", .count a.usage.inputTokens)])])]) =
        ⟨[], .endTurn, ⟨a.usage.inputTokens, 0⟩⟩ := by
    simp [afterEvent, apiEvent, onJson, onMessageStart, index_obj_cons, StreamState.init]
  have hdelta (s : StreamState) : afterEvent parseJson s (apiEvent "message_delta"
      [("delta", obj [("stop_reason", finishValue a.finish)]),
        ("usage", obj [("output_tokens", .count a.usage.outputTokens)])]) =
          ⟨s.blocks, readStopReason finish, ⟨s.usage.inputTokens, a.usage.outputTokens⟩⟩ := by
    simp [afterEvent, apiEvent, onJson, onMessageDelta, index_obj_cons, finishValue, hfinish]
  have hstop (s : StreamState) : afterEvent parseJson s (apiEvent "message_stop" []) = s := by
    simp [afterEvent, apiEvent, onJson]
  rw [run_state]
  change (apiEvents a).foldl (afterEvent parseJson) .init = _
  rw [apiEvents, List.cons_append, List.foldl_cons, hstart, List.foldl_append, foldl_apiBlocks,
    List.foldl_cons, hdelta, List.foldl_cons, hstop, hfinish]
  rfl

/-- Types that fit on a line. -/
def IsType (type : Str) : Prop := '\n' ∉ type ∧ type.getLast? ≠ some '\r'

theorem isType_of_mem {block : AnswerBlock} {event : Str × Value}
    (h : event ∈ apiBlockEvents block) : IsType event.1 := by
  have hstart : IsType "content_block_start".toList := ⟨by decide, by decide⟩
  have hdelta : IsType "content_block_delta".toList := ⟨by decide, by decide⟩
  have hstop : IsType "content_block_stop".toList := ⟨by decide, by decide⟩
  have hall {fields : List (String × Value)} {type key : String} {pieces : List Str}
      (h : event ∈ blockStart fields :: pieces.map (blockDelta type key) ++ [blockStop]) :
      IsType event.1 := by
    rcases List.mem_append.mp h with h | h
    · rcases List.mem_cons.mp h with rfl | h
      · exact hstart
      · obtain ⟨piece, -, rfl⟩ := List.mem_map.mp h
        exact hdelta
    · rw [List.mem_singleton.mp h]
      exact hstop
  cases block with
  | text pieces => exact hall h
  | thinking pieces => exact hall h
  | call id name input pieces => exact hall h

theorem isType_apiEvents (a : Answer) : ∀ event ∈ apiEvents a, IsType event.1 := by
  have hstart : IsType "message_start".toList := ⟨by decide, by decide⟩
  have hdelta : IsType "message_delta".toList := ⟨by decide, by decide⟩
  have hstop : IsType "message_stop".toList := ⟨by decide, by decide⟩
  intro event h
  rw [apiEvents, List.cons_append, List.mem_cons, List.mem_append, List.mem_flatMap] at h
  rcases h with rfl | ⟨block, -, h⟩ | h
  · exact hstart
  · exact isType_of_mem h
  · rw [List.mem_cons, List.mem_singleton] at h
    rcases h with rfl | rfl
    · exact hdelta
    · exact hstop

theorem newline_notMem_eventLine {type : Str} (h : IsType type) :
    '\n' ∉ "event: ".toList ++ type := by
  rw [List.mem_append, not_or]
  exact ⟨by decide, h.1⟩

theorem eventFields_named {type t : Str} (htype : IsType type) (ht : '\n' ∉ dataLine t) :
    eventFields ("event: ".toList ++ type ++ '\n' :: dataLine t) = (type, t) := by
  have hlast : ("event: ".toList ++ type).getLast? ≠ some '\r' := by
    by_cases hnil : type = []
    · rw [hnil]
      decide
    · rw [List.getLast?_append_of_ne_nil _ hnil]
      exact htype.2
  have hlines : lines ("event: ".toList ++ type ++ '\n' :: dataLine t) =
      ["event: ".toList ++ type, dataLine t] := by
    rw [lines_line (newline_notMem_eventLine htype) hlast, lines_last ht (dataLine_ne_nil t)]
  have hdata : stripPrefix "event: ".toList (dataLine t) = none := by
    rw [stripPrefix, if_neg]
    simp [dataLine_eq]
  rw [eventFields, hlines, List.foldl_cons, List.foldl_cons, List.foldl_nil]
  dsimp only
  rw [stripPrefix_append, hdata, stripPrefix_dataLine]

theorem onEvent_named {event : Str × Value} {piece : Str}
    (h : IsType event.1 ∧ IsNamedEvent parseJson event piece) :
    onEvent parseJson s piece = onJson parseJson s event.1 event.2 := by
  obtain ⟨htype, t, ht, rfl⟩ := h
  have hne : t ≠ [] := by
    rintro rfl
    cases ht.opens
  rw [onEvent, eventFields_named htype (newline_notMem_dataLine ht)]
  dsimp only
  rw [if_neg hne, ht.parsed]

theorem split_named {events : List (Str × Value)} {pieces : List Str}
    (h : List.Forall₂ (fun event piece => IsType event.1 ∧ IsNamedEvent parseJson event piece)
      events pieces) : split ['\n', '\n'] (sse pieces) = (pieces, []) := by
  apply split_flatMap (by simp)
  refine forall_mem_of_forall₂ h fun event piece hevent => ?_
  obtain ⟨htype, t, ht, rfl⟩ := hevent
  have hblank := find_blank (t := []) (newline_notMem_dataLine ht)
  have hfind := find_blank_line (newline_notMem_eventLine htype) (by simp [dataLine_eq]) hblank
  have hlen : ("event: ".toList ++ event.1 ++ '\n' :: dataLine t).length =
      ("event: ".toList ++ event.1).length + (dataLine t).length + 1 := List.length_append
  rw [List.append_assoc, List.cons_append, hfind, hlen]
  congr 1
  omega

/-- What the stream of Anthropic returns. -/
theorem stream_named {a : Answer} {chunks : List (List UInt8)} {pieces : List Str}
    (hfinish : a.finish.isSome)
    (h : List.Forall₂ (IsNamedEvent parseJson) (apiEvents a) pieces)
    (htext : (chunks.map fromUtf8Lossy).flatten = sse pieces) :
    (stream parseJson chunks).1 =
      answer (a.blocks.map (streamedBlock parseJson))
        (readStopReason (a.finish.getD [])) a.usage := by
  have hall := (List.forall₂_and_left _ _).mpr ⟨isType_apiEvents a, h⟩
  have hrun := run_forall₂ (fun s e => onJson parseJson s e.1 e.2)
    (fun s event piece hevent => (onEvent_named (s := s) hevent).symm) hall .init
  rw [stream, streamTexts, feed_nil (by simp), htext, split_named hall]
  dsimp only
  rw [← hrun, run_apiEvents a hfinish, finish, List.map_map]
  rfl

end Anthropic

section Gemini

open GeminiDriver

variable {newUuid : Nat → Str} {s : StreamState}

def geminiText : AnswerBlock → Str
  | .text pieces => pieces.flatten
  | .thinking pieces => pieces.flatten
  | .call _ _ _ _ => []

def geminiCall : AnswerBlock → Option (Str × Value)
  | .call _ name input _ => some (name, input)
  | _ => none

def blockText : ContentBlock → Str
  | .text s => s
  | _ => []

def callOf (call : ToolCall) : Str × Value := (call.name, call.input)

/-- The state behind a part. -/
def afterPart (newUuid : Nat → Str) (s : StreamState) (part : GeminiPart) : StreamState :=
  (onPart newUuid s part).1

theorem afterPart_text (piece : Str) : afterPart newUuid s (.text piece) =
    { s with textContent := s.textContent ++ piece } := by
  unfold afterPart onPart
  by_cases h : piece = []
  · simp [h]
  · simp [h]

theorem foldl_pieces (pieces : List Str) :
    (pieces.map GeminiPart.text).foldl (afterPart newUuid) s =
      { s with textContent := s.textContent ++ pieces.flatten } := by
  induction pieces generalizing s with
  | nil => simp
  | cons piece pieces ih =>
    rw [List.map_cons, List.foldl_cons, afterPart_text, ih, List.flatten_cons, List.append_assoc]

theorem foldl_geminiBlock (block : AnswerBlock) :
    (geminiDeltas block).foldl (afterPart newUuid) s =
      { s with
        textContent := s.textContent ++ geminiText block
        fnCalls := s.fnCalls ++ (geminiCall block).toList } := by
  cases block with
  | text pieces =>
    rw [geminiDeltas, foldl_pieces]
    simp [geminiText, geminiCall]
  | thinking pieces =>
    rw [geminiDeltas, foldl_pieces]
    simp [geminiText, geminiCall]
  | call id name input pieces =>
    simp [geminiDeltas, afterPart, onPart, geminiText, geminiCall]

theorem foldl_geminiBlocks (blocks : List AnswerBlock) :
    (blocks.flatMap geminiDeltas).foldl (afterPart newUuid) s =
      { s with
        textContent := s.textContent ++ blocks.flatMap geminiText
        fnCalls := s.fnCalls ++ blocks.filterMap geminiCall } := by
  induction blocks generalizing s with
  | nil => simp
  | cons block blocks ih =>
    rw [List.flatMap_cons, List.foldl_append, foldl_geminiBlock, ih]
    cases block <;> simp [geminiCall, geminiText, List.filterMap_cons]

theorem run_geminiEvents (a : Answer) : (run (onResponse newUuid) .init (geminiEvents a)).1 =
    ⟨a.blocks.flatMap geminiText, a.blocks.filterMap geminiCall, a.finish, a.usage⟩ := by
  have hparts : ((a.blocks.flatMap geminiDeltas).map
      fun part => (⟨[⟨geminiContent [part], none⟩], none⟩ : GeminiResponse)).foldl
        (fun s json => (onResponse newUuid s json).1) .init =
      (a.blocks.flatMap geminiDeltas).foldl (afterPart newUuid) .init := List.foldl_map
  have hlast (s : StreamState) :
      (onResponse newUuid s ⟨[⟨geminiContent [], a.finish⟩], geminiUsage a⟩).1 =
        { s with finishReason := a.finish.or s.finishReason, usage := a.usage } := rfl
  rw [run_state, geminiEvents, List.foldl_append, hparts, foldl_geminiBlocks, List.foldl_cons,
    List.foldl_nil, hlast]
  simp [StreamState.init]

theorem eventData_dataLine {t : Str} (ht : '\n' ∉ dataLine t) : eventData (dataLine t) = t := by
  rw [eventData, lines_last ht (dataLine_ne_nil t), List.findSome?_cons, stripPrefix_dataLine]
  rfl

/-- What the stream of Gemini returns. -/
theorem stream_data {parseResponse : Str → Option GeminiResponse} {a : Answer}
    {chunks : List (List UInt8)} {pieces : List Str}
    (h : List.Forall₂ (IsDataEvent parseResponse) (geminiEvents a) pieces)
    (htext : (chunks.map fromUtf8Lossy).flatten = sse pieces) :
    (stream parseResponse newUuid chunks).1 =
      (finish newUuid ⟨a.blocks.flatMap geminiText, a.blocks.filterMap geminiCall, a.finish,
        a.usage⟩).1 := by
  have hsplit : split ['\n', '\n'] (sse pieces) = (pieces, []) := by
    apply split_flatMap (by simp)
    refine forall_mem_of_forall₂ h fun response piece hevent => ?_
    obtain ⟨t, ht, rfl⟩ := hevent
    exact find_blank (newline_notMem_dataLine ht)
  have hstep (s : StreamState) (response : GeminiResponse) (piece : Str)
      (hevent : IsDataEvent parseResponse response piece) :
      onResponse newUuid s response = onEvent parseResponse newUuid s piece := by
    obtain ⟨t, ht, rfl⟩ := hevent
    have hne : t ≠ [] := by
      rintro rfl
      cases ht.opens
    rw [onEvent, eventData_dataLine (newline_notMem_dataLine ht), if_neg hne, ht.parsed]
  rw [stream, streamTexts, feed_nil (by simp), htext, hsplit]
  dsimp only
  rw [← run_forall₂ (onResponse newUuid) hstep h, run_geminiEvents]

theorem text_partBlocks (blocks : List AnswerBlock) (n : Nat) :
    (partBlocks newUuid n (blocks.map geminiPart)).flatMap blockText =
      blocks.flatMap geminiText := by
  induction blocks generalizing n with
  | nil => rfl
  | cons block blocks ih =>
    have htext (text : Str) : (partBlocks newUuid n (.text text :: blocks.map geminiPart)).flatMap
        blockText = text ++ blocks.flatMap geminiText := by
      rw [partBlocks]
      split
      · rename_i hnil
        rw [hnil, ih, List.nil_append]
      · rw [List.flatMap_cons, ih]
        rfl
    cases block with
    | text pieces => exact htext pieces.flatten
    | thinking pieces => exact htext pieces.flatten
    | call id name input pieces =>
      rw [List.map_cons, geminiPart, partBlocks, List.flatMap_cons, ih]
      rfl

theorem calls_partBlocks (newUuid : Nat → Str) (blocks : List AnswerBlock) (n : Nat) :
    ((partBlocks newUuid n (blocks.map geminiPart)).filterMap blockCall).map callOf =
      blocks.filterMap geminiCall := by
  induction blocks generalizing n with
  | nil => rfl
  | cons block blocks ih =>
    have htext (text : Str) :
        ((partBlocks newUuid n (.text text :: blocks.map geminiPart)).filterMap blockCall).map
          callOf = blocks.filterMap geminiCall := by
      rw [partBlocks]
      split
      · exact ih n
      · rw [List.filterMap_cons_none rfl, ih]
    cases block with
    | text pieces => exact htext pieces.flatten
    | thinking pieces => exact htext pieces.flatten
    | call id name input pieces =>
      simp only [List.map_cons, geminiPart, partBlocks, List.filterMap_cons, blockCall, callOf,
        geminiCall, ih]

end Gemini

section Agreement

variable (parseJson : Str → Option Value)
  (parseResponse : Str → Option GeminiDriver.GeminiResponse) (newUuid : Nat → Str)

/-- What `complete` makes of the plain response. -/
def complete (p : Provider) (a : Answer) : Except LlmError CompletionResponse :=
  match p with
  | .openAi => OpenAiDriver.convertResponse parseJson (oaiPlain a)
  | .anthropic => .ok (AnthropicDriver.convertResponse (apiPlain a))
  | .gemini => GeminiDriver.convertResponse newUuid (geminiPlain a)

/-- What `stream` returns at the end. -/
def stream (p : Provider) (chunks : List (List UInt8)) : CompletionResponse :=
  match p with
  | .openAi => (OpenAiDriver.stream parseJson chunks).1
  | .anthropic => (AnthropicDriver.stream parseJson chunks).1
  | .gemini => (GeminiDriver.stream parseResponse newUuid chunks).1

structure Agree (r s : CompletionResponse) : Prop where
  text : r.text = s.text
  calls : r.toolCalls.map callOf = s.toolCalls.map callOf
  stopReason : r.stopReason = s.stopReason
  usage : r.usage = s.usage

instance (r s : CompletionResponse) : Decidable (Agree r s) :=
  decidable_of_iff (r.text = s.text ∧ r.toolCalls.map callOf = s.toolCalls.map callOf ∧
    r.stopReason = s.stopReason ∧ r.usage = s.usage)
    ⟨fun h => ⟨h.1, h.2.1, h.2.2.1, h.2.2.2⟩, fun h => ⟨h.text, h.calls, h.stopReason, h.usage⟩⟩

def AnswerBlock.inputComes : AnswerBlock → Bool
  | .call _ _ _ pieces => pieces.flatten ≠ []
  | _ => true

/-- Anthropic has to send the input of every call, and Gemini must not end an answer with calls
for one of the reasons that `stream` reads first. -/
def Fits (p : Provider) (a : Answer) : Prop :=
  match p with
  | .openAi => True
  | .anthropic => ∀ block ∈ a.blocks, AnswerBlock.inputComes block
  | .gemini => (∀ block ∈ a.blocks, ¬ block.isCall) ∨
      a.finish ∉ [some "STOP".toList, some "MAX_TOKENS".toList, some "SAFETY".toList]

variable {parseJson parseResponse newUuid} {a : Answer} {chunks : List (List UInt8)}

theorem text_eq (r : CompletionResponse) : r.text = r.content.flatMap blockText := by
  unfold CompletionResponse.text
  congr 1

theorem agree_refl (r : CompletionResponse) : Agree r r := ⟨rfl, rfl, rfl, rfl⟩

section Anthropic

open AnthropicDriver

theorem parseInput_eq_iff (hempty : parseJson [] = none) {input : Value} {pieces : List Str}
    (h : parseJson pieces.flatten = some input ∨ pieces.flatten = [] ∧ input = .object []) :
    parseInput parseJson pieces.flatten = input ↔ pieces.flatten ≠ [] := by
  constructor
  · intro hinput hnil
    rw [parseInput, hnil, hempty] at hinput
    rcases h with h | ⟨-, rfl⟩
    · rw [hnil, hempty] at h
      cases h
    · cases hinput
  · intro hne
    rcases h with h | ⟨hnil, -⟩
    · rw [parseInput, h]
      rfl
    · exact absurd hnil hne

/-- The calls of a stream are those of the answer as far as the inputs have come. -/
theorem calls_eq_iff (hempty : parseJson [] = none) {blocks : List AnswerBlock}
    (h : ∀ id name input pieces, .call id name input pieces ∈ blocks →
      parseJson pieces.flatten = some input ∨ pieces.flatten = [] ∧ input = .object []) :
    ((blocks.map plainBlock).filterMap ResponseContentBlock.toolCall).map callOf =
        ((blocks.map (streamedBlock parseJson)).filterMap
          ResponseContentBlock.toolCall).map callOf ↔
      ∀ block ∈ blocks, AnswerBlock.inputComes block := by
  have hkept (block : AnswerBlock) :
      (((plainBlock block).toolCall).map callOf).isSome =
        ((streamedBlock parseJson block).toolCall.map callOf).isSome := by
    cases block <;> rfl
  rw [List.filterMap_map, List.filterMap_map, List.map_filterMap, List.map_filterMap]
  refine (filterMap_eq_iff hkept blocks).trans (forall₂_congr fun block hmem => ?_)
  cases block with
  | text pieces => exact iff_of_true rfl rfl
  | thinking pieces => exact iff_of_true rfl rfl
  | call id name input pieces =>
    have hinput := parseInput_eq_iff hempty (h id name input pieces hmem)
    change some (name, input) = some (name, parseInput parseJson pieces.flatten) ↔
      decide (pieces.flatten ≠ []) = true
    rw [decide_eq_true_eq, ← hinput, Option.some_inj, Prod.mk.injEq, eq_comm (a := input)]
    exact and_iff_right rfl

theorem text_blocks (blocks : List AnswerBlock) :
    ((blocks.map plainBlock).map ResponseContentBlock.block).flatMap blockText =
      ((blocks.map (streamedBlock parseJson)).map
        ResponseContentBlock.block).flatMap blockText := by
  rw [List.map_map, List.map_map, List.flatMap_map, List.flatMap_map]
  congr 1
  funext block
  cases block <;> rfl

theorem agree_anthropic_iff {r : CompletionResponse} (hempty : parseJson [] = none)
    (henc : Encodable parseJson .anthropic a)
    (hr : r = answer (a.blocks.map (streamedBlock parseJson))
      (readStopReason (a.finish.getD [])) a.usage) :
    Agree (convertResponse (apiPlain a)) r ↔ Fits .anthropic a := by
  have hcalls := calls_eq_iff hempty henc.2
  subst hr
  constructor
  · intro hagree
    exact hcalls.mp hagree.calls
  · intro hfits
    refine ⟨?_, hcalls.mpr hfits, rfl, rfl⟩
    rw [text_eq, text_eq]
    exact text_blocks a.blocks

end Anthropic

section Gemini

open GeminiDriver

theorem geminiCalls_eq_nil_iff (blocks : List AnswerBlock) :
    blocks.filterMap geminiCall = [] ↔ ∀ block ∈ blocks, ¬ block.isCall := by
  rw [List.filterMap_eq_nil_iff]
  refine forall₂_congr fun block _ => ?_
  cases block <;> simp [geminiCall, AnswerBlock.isCall]

theorem callOf_mapIdx (newUuid : Nat → Str) (fnCalls : List (Str × Value)) (n : Nat) :
    (fnCalls.mapIdx fun i call =>
      (⟨callId newUuid (n + i), call.1, call.2⟩ : ToolCall)).map callOf = fnCalls := by
  apply List.ext_getElem
  · simp
  · intro i _ _
    simp [callOf]

/-- The two ways to read a finish reason, with calls and without. -/
theorem stopReason_eq_iff {α : Type*} [DecidableEq α] {stop max : α} (safety : α) (hne : stop ≠ max)
    {calls calls' : List ToolCall} (h : calls = [] ↔ calls' = []) (finish : α) :
    (if calls ≠ [] then StopReason.toolUse
      else if finish = max then .maxTokens else .endTurn) =
        (if finish = stop then .endTurn
        else if finish = max then .maxTokens
        else if finish = safety then .endTurn
        else if calls' ≠ [] then .toolUse
        else .endTurn) ↔
      calls = [] ∨ finish ∉ [stop, max, safety] := by
  by_cases hcalls : calls = []
  · rw [if_neg (not_not.mpr hcalls), if_neg (not_not.mpr (h.mp hcalls)), ite_self]
    refine iff_of_true ?_ (.inl hcalls)
    by_cases hstop : finish = stop
    · have hmax : finish ≠ max := fun hmax => hne (hstop.symm.trans hmax)
      rw [if_pos hstop, if_neg hmax]
    · rw [if_neg hstop]
  · have hcalls' : calls' ≠ [] := fun hnil => hcalls (h.mpr hnil)
    rw [if_pos hcalls, if_pos hcalls', or_iff_right hcalls]
    by_cases hstop : finish = stop
    · simp [hstop]
    · rw [if_neg hstop]
      by_cases hmax : finish = max
      · rw [if_pos hmax]
        simp [hmax]
      · rw [if_neg hmax]
        by_cases hsafety : finish = safety
        · rw [if_pos hsafety]
          simp [hsafety]
        · simp [hstop, hmax, hsafety]

theorem text_finish (s : StreamState) :
    (finish newUuid s).1.content.flatMap blockText = s.textContent := by
  have hcalls (calls : List ToolCall) : (calls.map fun call =>
      ContentBlock.toolUse call.id call.name call.input).flatMap blockText = [] := by
    rw [List.flatMap_map]
    exact List.flatMap_eq_nil_iff.mpr fun _ _ => rfl
  rw [finish]
  dsimp only
  rw [List.flatMap_append, hcalls, List.append_nil]
  split
  · rename_i hnil
    rw [hnil]
    rfl
  · exact List.flatMap_singleton ..

theorem agree_gemini_iff (newUuid : Nat → Str) (a : Answer) : ∃ r, convertResponse newUuid (geminiPlain a) = .ok r ∧
    (Agree r (finish newUuid ⟨a.blocks.flatMap geminiText, a.blocks.filterMap geminiCall, a.finish,
      a.usage⟩).1 ↔ Fits .gemini a) := by
  refine ⟨_, rfl, ?_⟩
  have hcalls := calls_partBlocks newUuid a.blocks 0
  have hcalls' := callOf_mapIdx newUuid (a.blocks.filterMap geminiCall)
    (a.blocks.filterMap geminiCall).length
  have hnil := List.map_eq_nil_iff (f := callOf) (l := (partBlocks newUuid 0
    (a.blocks.map geminiPart)).filterMap blockCall)
  rw [hcalls, geminiCalls_eq_nil_iff] at hnil
  have hboth : (partBlocks newUuid 0 (a.blocks.map geminiPart)).filterMap blockCall = [] ↔
      ((a.blocks.filterMap geminiCall).mapIdx fun i call => (⟨callId newUuid
        ((a.blocks.filterMap geminiCall).length + i), call.1, call.2⟩ : ToolCall)) = [] := by
    rw [← List.map_eq_nil_iff (f := callOf), hcalls, List.mapIdx_eq_nil_iff]
  have hne : some "STOP".toList ≠ some "MAX_TOKENS".toList := by decide
  have hstop := stopReason_eq_iff (some "SAFETY".toList) hne hboth a.finish
  constructor
  · intro hagree
    exact (hstop.mp hagree.stopReason).imp_left hnil.mpr
  · intro hfits
    refine ⟨?_, hcalls.trans hcalls'.symm, hstop.mpr (hfits.imp_left hnil.mp), rfl⟩
    rw [text_eq, text_eq, text_finish]
    exact text_partBlocks a.blocks 0

end Gemini

/-- Streaming agrees with not streaming exactly for the answers that fit the driver. -/
theorem stream_agrees_iff (p : Provider) (hempty : parseJson [] = none)
    (henc : Encodable parseJson p a)
    (hstream : IsStream parseJson parseResponse p a (chunks.map fromUtf8Lossy).flatten) :
    (∃ r, complete parseJson newUuid p a = .ok r ∧
      Agree r (stream parseJson parseResponse newUuid p chunks)) ↔ Fits p a := by
  cases p with
  | openAi =>
    obtain ⟨pieces, h, htext⟩ := hstream
    have heq := stream_eq_complete henc h htext
    exact iff_of_true ⟨_, heq, agree_refl _⟩ trivial
  | anthropic =>
    obtain ⟨pieces, h, htext⟩ := hstream
    rw [← agree_anthropic_iff hempty henc (stream_named henc.1 h htext)]
    constructor
    · rintro ⟨r, hr, hagree⟩
      cases hr
      exact hagree
    · intro hagree
      exact ⟨_, rfl, hagree⟩
  | gemini =>
    obtain ⟨pieces, h, htext⟩ := hstream
    obtain ⟨r, hr, hiff⟩ := agree_gemini_iff newUuid a
    rw [← hiff, ← stream_data h htext]
    constructor
    · rintro ⟨r', hr', hagree⟩
      cases hr.symm.trans hr'
      exact hagree
    · intro hagree
      exact ⟨r, hr, hagree⟩

section Weather

/-- Gemini calls a tool and stops. -/
def weather : Answer :=
  ⟨[.call [] "weather".toList (.object []) []], some "STOP".toList, ⟨3, 5⟩⟩

def weatherCall : Str :=
  (obj [("candidates", .array [obj [("content", obj [("role", .string "model".toList),
    ("parts", .array [obj [("functionCall", obj [("name", .string "weather".toList),
      ("args", obj [])])]])])]])]).toText

def weatherEnd : Str :=
  (obj [("candidates", .array [obj [("content", obj [("role", .string "model".toList),
    ("parts", .array [])]), ("finishReason", .string "STOP".toList)]]),
    ("usageMetadata", obj [("promptTokenCount", .count 3),
      ("candidatesTokenCount", .count 5)])]).toText

def readWeather (t : Str) : Option GeminiDriver.GeminiResponse :=
  if t = weatherCall then (geminiEvents weather)[0]?
  else if t = weatherEnd then (geminiEvents weather)[1]?
  else none

def weatherPieces : List Str := [dataLine weatherCall, dataLine weatherEnd]

def uuid (n : Nat) : Str := (showNat n).leftpad 32 '0'

theorem weather_events : List.Forall₂ (IsDataEvent readWeather) (geminiEvents weather)
    weatherPieces := by
  refine .cons ⟨weatherCall, ⟨?_, ?_, ?_, ?_⟩, rfl⟩
    (.cons ⟨weatherEnd, ⟨?_, ?_, ?_, ?_⟩, rfl⟩ .nil)
  all_goals decide +kernel

theorem weather_text : ([encode (sse weatherPieces)].map fromUtf8Lossy).flatten =
    sse weatherPieces := by
  simp

end Weather

theorem stream_agrees_iff_weather :
    (∃ r, complete (fun _ => none) uuid .gemini weather = .ok r ∧
      Agree r (stream (fun _ => none) readWeather uuid .gemini [encode (sse weatherPieces)])) ↔
        Fits .gemini weather :=
  stream_agrees_iff .gemini rfl trivial ⟨weatherPieces, weather_events, weather_text⟩

/-- The stream says that the turn is over. -/
theorem call_ends_turn :
    IsStream (fun _ => none) readWeather .gemini weather
        ([encode (sse weatherPieces)].map fromUtf8Lossy).flatten ∧
      ¬ ∃ r, complete (fun _ => none) uuid .gemini weather = .ok r ∧
        Agree r (stream (fun _ => none) readWeather uuid .gemini [encode (sse weatherPieces)]) := by
  refine ⟨⟨weatherPieces, weather_events, weather_text⟩, ?_⟩
  rintro ⟨r, hr, hagree⟩
  have hstream : (stream (fun _ => none) readWeather uuid .gemini
      [encode (sse weatherPieces)]).stopReason = .endTurn := by
    rw [stream, stream_data weather_events weather_text]
    decide +kernel
  have hcomplete : r.stopReason = .toolUse := by
    cases hr
    decide
  have hstop := hagree.stopReason
  rw [hcomplete, hstream] at hstop
  cases hstop

end Agreement

end Clawreform.Runtime.StreamAgreement
