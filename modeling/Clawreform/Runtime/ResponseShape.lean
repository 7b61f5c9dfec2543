import Clawreform.Runtime.OpenAiDriver
import Clawreform.Runtime.AnthropicDriver
import Clawreform.Runtime.GeminiDriver

namespace Clawreform.Runtime.ResponseShape

open Clawreform.Lib.Text Clawreform.Lib.Run Clawreform.Lib.Splitting Clawreform.Lib.Utf8
open Clawreform.Lib.Json (Value)
open Clawreform.Types
open GeminiDriver (GeminiResponse GeminiPart blockCall)

section Replies

/-- What comes back from a provider: a plain response, the chunks of a stream, or the body of an
error of Groq. Gemini's calls get the identifiers that are drawn for them. -/
inductive Reply where
  | openAi (response : OpenAiDriver.OaiResponse)
  | openAiStream (chunks : List (List UInt8))
  | groqError (body : Str)
  | anthropic (response : AnthropicDriver.ApiResponse)
  | anthropicStream (chunks : List (List UInt8))
  | gemini (response : GeminiResponse) (newUuid : Nat → Str)
  | geminiStream (chunks : List (List UInt8)) (newUuid : Nat → Str)

variable (parseJson : Str → Option Value) (parseResponse : Str → Option GeminiResponse)

/-- The response that the driver returns, if it returns one. -/
def decode : Reply → Option CompletionResponse
  | .openAi response => (OpenAiDriver.convertResponse parseJson response).toOption
  | .openAiStream chunks => some (OpenAiDriver.stream parseJson chunks).1
  | .groqError body =>
    if containsText body "tool_use_failed" then
      OpenAiDriver.parseGroqFailedToolCall parseJson body
    else none
  | .anthropic response => some (AnthropicDriver.convertResponse response)
  | .anthropicStream chunks => some (AnthropicDriver.stream parseJson chunks).1
  | .gemini response newUuid => (GeminiDriver.convertResponse newUuid response).toOption
  | .geminiStream chunks newUuid => some (GeminiDriver.stream parseResponse newUuid chunks).1

/-- The calls of a response are those of its content, and each has an id and a name. -/
structure WellFormed (r : CompletionResponse) : Prop where
  calls : r.content.filterMap blockCall = r.toolCalls
  named : ∀ call ∈ r.toolCalls, call.id ≠ [] ∧ call.name ≠ []

def ids (r : CompletionResponse) : List Str := r.toolCalls.map (·.id)

/-- The responses of a session are well formed, and none of their ids occurs twice. -/
def WellFormedSession (rs : List CompletionResponse) : Prop :=
  (∀ r ∈ rs, WellFormed r) ∧ (rs.flatMap ids).Nodup

end Replies

section Sent

variable (parseJson : Str → Option Value) (parseResponse : Str → Option GeminiResponse)

def received (chunks : List (List UInt8)) : Str := (chunks.map fromUtf8Lossy).flatten

/-- The value that stands on a line of an OpenAI stream. -/
def lineJson (line : Str) : Option Value :=
  if line = [] ∨ line.head? = some ':' then none
  else (stripPrefix "data: ".toList line).bind fun data =>
    if data = "[DONE]".toList then none else parseJson data

def lineJsons (chunks : List (List UInt8)) : List Value :=
  ((split ['\n'] (received chunks)).1.map trimEnd).filterMap (lineJson parseJson)

def callDeltas (json : Value) : List Value :=
  ((json.index "choices").asArray.getD []).flatMap fun choice =>
    ((choice.index "delta").index "tool_calls").asArray.getD []

def deltaIndex (delta : Value) : Nat := ((delta.index "index").asU64.getD 0).toNat

def deltaId (delta : Value) : Option Str := (delta.index "id").asStr

def deltaName (delta : Value) : Option Str :=
  (delta.get "function".toList).bind fun func => (func.index "name").asStr

/-- What the last delta of an index says; nothing if none says anything. -/
def lastOf (field : Value → Option Str) (k : Nat) (deltas : List Value) : Str :=
  (((deltas.filter (deltaIndex · = k)).filterMap field).getLast?).getD []

/-- The indices go up to the largest one, whatever is missing below it. -/
def entries (deltas : List Value) : Nat :=
  deltas.foldl (fun n delta => max n (deltaIndex delta + 1)) 0

/-- The id and the name of the calls that some deltas make up. -/
def deltaCalls (deltas : List Value) : List (Str × Str) :=
  (List.range (entries deltas)).map fun k => (lastOf deltaId k deltas, lastOf deltaName k deltas)

/-- The type and the value of an event of an Anthropic stream. -/
def eventJson (eventText : Str) : Option (Str × Value) :=
  let fields := AnthropicDriver.eventFields eventText
  if fields.2 = [] then none else (parseJson fields.2).map fun json => (fields.1, json)

def eventJsons (chunks : List (List UInt8)) : List (Str × Value) :=
  (split ['\n', '\n'] (received chunks)).1.filterMap (eventJson parseJson)

/-- The call that an event starts. -/
def startedCall (event : Str × Value) : Option (Str × Str) :=
  let block := event.2.index "content_block"
  if event.1 = "content_block_start".toList ∧
      (block.index "type").asStr.getD [] = "tool_use".toList then
    some ((block.index "id").asStr.getD [], (block.index "name").asStr.getD [])
  else none

def eventResponse (eventText : Str) : Option GeminiResponse :=
  let data := GeminiDriver.eventData eventText
  if data = [] then none else parseResponse data

def eventParts (chunks : List (List UInt8)) : List GeminiPart :=
  (((split ['\n', '\n'] (received chunks)).1.filterMap (eventResponse parseResponse)).flatMap
    (·.candidates)).flatMap fun candidate => (candidate.content.map (·.parts)).getD []

def partName : GeminiPart → Option Str
  | .functionCall name _ => some name
  | _ => none

/-- The names of some functions, with ids drawn from the `n`-th on. -/
def drawn (newUuid : Nat → Str) (n : Nat) (names : List Str) : List (Str × Str) :=
  names.mapIdx fun i name => (GeminiDriver.callId newUuid (n + i), name)

def apiCall : AnthropicDriver.ResponseContentBlock → Option (Str × Str)
  | .toolUse id name _ => some (id, name)
  | _ => none

/-- The ids and names of the calls in a reply. Gemini's stream draws twice for a call. -/
def sent : Reply → List (Str × Str)
  | .openAi response =>
    (response.choices.head?.bind (·.message.toolCalls)).getD [] |>.map fun call =>
      (call.id, call.function.name)
  | .openAiStream chunks => deltaCalls ((lineJsons parseJson chunks).flatMap callDeltas)
  | .groqError _ => []
  | .anthropic response => response.content.filterMap apiCall
  | .anthropicStream chunks => (eventJsons parseJson chunks).filterMap startedCall
  | .gemini response newUuid =>
    drawn newUuid 0 (((response.candidates.head?.bind (·.content)).map (·.parts)).getD []
      |>.filterMap partName)
  | .geminiStream chunks newUuid =>
    let names := (eventParts parseResponse chunks).filterMap partName
    drawn newUuid names.length names

/-- The generation that Groq sends back with its error. -/
def failedGeneration (body : Str) : Option Str :=
  (((parseJson body).bind (·.get "error".toList)).bind (·.get "failed_generation".toList)).bind
    Value.asStr

/-- A call is recovered from an error: there is one, and each that is opened is closed. -/
def Recovers : Reply → Prop
  | .groqError body => containsText body "tool_use_failed" ∧
    ∃ failed, failedGeneration parseJson body = some failed ∧
      containsText failed "<function=" ∧
      (OpenAiDriver.failedCalls parseJson failed.length 0 failed).isSome
  | _ => False

end Sent

section Accumulation

open OpenAiDriver

def idName (t : ToolAccum) : Str × Str := (t.id, t.name)

/-- The id and the name in an entry, if there is one. -/
def entry (accum : List ToolAccum) (k : Nat) : Str × Str := (accum[k]?.map idName).getD ([], [])

variable {accum : List ToolAccum} {delta : Value} {deltas : List Value} {k : Nat}

@[simp] theorem length_ensure (idx : Nat) (accum : List ToolAccum) :
    (ensure idx accum).length = max accum.length (idx + 1) := by
  rw [ensure, List.length_append, List.length_replicate]
  omega

theorem entry_ensure (idx : Nat) (accum : List ToolAccum) (k : Nat) :
    entry (ensure idx accum) k = entry accum k := by
  unfold entry ensure
  by_cases h : k < accum.length
  · rw [List.getElem?_append_left h]
  · have hnone : accum[k]? = none := List.getElem?_eq_none (by omega)
    rw [List.getElem?_append_right (by omega), hnone, List.getElem?_replicate]
    split <;> rfl

theorem entry_modify {f : ToolAccum → ToolAccum} {g : Str × Str → Str × Str}
    (hf : ∀ t, idName (f t) = g (idName t)) {idx : Nat} (h : idx < accum.length) (k : Nat) :
    entry (accum.modify idx f) k = if idx = k then g (entry accum k) else entry accum k := by
  unfold entry
  rw [List.getElem?_modify]
  by_cases hk : idx = k
  · subst hk
    rw [if_pos rfl, List.getElem?_eq_getElem h]
    simp [hf]
  · simp [hk]

@[simp] theorem length_onFunction (idx : Nat) (func : Value) (accum : List ToolAccum) :
    (onFunction idx func accum).1.length = accum.length := by
  unfold onFunction
  cases (func.index "name").asStr <;> cases (func.index "arguments").asStr <;> simp

theorem entry_onFunction {idx : Nat} (h : idx < accum.length) (func : Value) (k : Nat) :
    entry (onFunction idx func accum).1 k =
      if idx = k then ((entry accum k).1, (func.index "name").asStr.getD (entry accum k).2)
      else entry accum k := by
  have hargs (args : Str) {l : List ToolAccum} (hl : idx < l.length) :
      entry (l.modify idx fun t => { t with arguments := t.arguments ++ args }) k = entry l k :=
    (entry_modify (f := fun t => { t with arguments := t.arguments ++ args }) (g := id)
      (fun _ => rfl) hl k).trans (ite_self _)
  unfold onFunction
  cases (func.index "name").asStr with
  | none =>
    cases (func.index "arguments").asStr with
    | none => exact (ite_self _).symm
    | some args => exact (hargs args h).trans (ite_self _).symm
  | some name =>
    have hname := entry_modify (f := fun t => { t with name := name })
      (g := fun p => (p.1, name)) (fun _ => rfl) h k
    cases (func.index "arguments").asStr with
    | none => exact hname
    | some args => exact (hargs args (by simpa using h)).trans hname

/-- The entries behind the id of a delta. -/
def withId (accum : List ToolAccum) (delta : Value) : List ToolAccum :=
  let accum := ensure (deltaIndex delta) accum
  match deltaId delta with
  | none => accum
  | some id => accum.modify (deltaIndex delta) fun t => { t with id := id }

theorem onCall_eq (accum : List ToolAccum) (delta : Value) : (onCall accum delta).1 =
    match delta.get "function".toList with
    | none => withId accum delta
    | some func => (onFunction (deltaIndex delta) func (withId accum delta)).1 := by
  unfold onCall withId deltaIndex deltaId
  cases delta.get "function".toList <;> rfl

@[simp] theorem length_withId (accum : List ToolAccum) (delta : Value) :
    (withId accum delta).length = max accum.length (deltaIndex delta + 1) := by
  unfold withId
  cases deltaId delta <;> simp

theorem entry_withId (accum : List ToolAccum) (delta : Value) (k : Nat) :
    entry (withId accum delta) k =
      if deltaIndex delta = k then ((deltaId delta).getD (entry accum k).1, (entry accum k).2)
      else entry accum k := by
  have h : deltaIndex delta < (ensure (deltaIndex delta) accum).length := by
    rw [length_ensure]
    omega
  unfold withId
  cases deltaId delta with
  | none => exact (entry_ensure _ accum k).trans (ite_self _).symm
  | some id =>
    have hid := entry_modify (f := fun t => { t with id := id }) (g := fun p => (id, p.2))
      (fun _ => rfl) h k
    rw [entry_ensure] at hid
    exact hid

theorem length_onCall (accum : List ToolAccum) (delta : Value) :
    (onCall accum delta).1.length = max accum.length (deltaIndex delta + 1) := by
  rw [onCall_eq]
  cases delta.get "function".toList <;> simp

/-- A delta sets the id and the name of the entry under its index, as far as it has them. -/
theorem entry_onCall (accum : List ToolAccum) (delta : Value) (k : Nat) :
    entry (onCall accum delta).1 k =
      if deltaIndex delta = k then
        ((deltaId delta).getD (entry accum k).1, (deltaName delta).getD (entry accum k).2)
      else entry accum k := by
  have hid := entry_withId accum delta k
  have h : deltaIndex delta < (withId accum delta).length := by
    rw [length_withId]
    omega
  rw [onCall_eq, deltaName]
  cases delta.get "function".toList with
  | none => exact hid
  | some func =>
    refine (entry_onFunction h func k).trans ?_
    rw [hid]
    by_cases hk : deltaIndex delta = k
    · rw [if_pos hk, if_pos hk, if_pos hk]
      rfl
    · rw [if_neg hk, if_neg hk, if_neg hk]

theorem lastOf_concat (field : Value → Option Str) (k : Nat) (deltas : List Value)
    (delta : Value) : lastOf field k (deltas ++ [delta]) =
      if deltaIndex delta = k then (field delta).getD (lastOf field k deltas)
      else lastOf field k deltas := by
  unfold lastOf
  rw [List.filter_append, List.filterMap_append]
  by_cases hk : deltaIndex delta = k
  · rw [if_pos hk, List.filter_cons_of_pos (by simpa using hk)]
    cases hfield : field delta with
    | none => simp [hfield]
    | some text => simp [hfield]
  · rw [if_neg hk, List.filter_cons_of_neg (by simpa using hk)]
    simp

/-- The entries are what the deltas say, last by last. -/
theorem foldl_onCall (deltas : List Value) :
    (deltas.foldl (fun accum delta => (onCall accum delta).1) []).length = entries deltas ∧
      ∀ k, entry (deltas.foldl (fun accum delta => (onCall accum delta).1) []) k =
        (lastOf deltaId k deltas, lastOf deltaName k deltas) := by
  induction deltas using List.reverseRecOn with
  | nil => exact ⟨rfl, fun _ => rfl⟩
  | append_singleton deltas delta ih =>
    obtain ⟨hlen, hentry⟩ := ih
    simp only [List.foldl_append, List.foldl_cons, List.foldl_nil]
    constructor
    · rw [length_onCall, hlen, entries, entries, List.foldl_append]
      rfl
    · intro k
      rw [entry_onCall, hentry, lastOf_concat, lastOf_concat]
      split <;> rfl

theorem map_foldl_onCall (deltas : List Value) :
    (deltas.foldl (fun accum delta => (onCall accum delta).1) []).map idName =
      deltaCalls deltas := by
  obtain ⟨hlen, hentry⟩ := foldl_onCall deltas
  apply List.ext_getElem
  · rw [List.length_map, hlen, deltaCalls, List.length_map, List.length_range]
  · intro k hk _
    have hk' := hentry k
    rw [List.length_map] at hk
    rw [entry, List.getElem?_eq_getElem hk] at hk'
    simpa [deltaCalls] using hk'

end Accumulation

section Decoding

variable {parseJson : Str → Option Value} {parseResponse : Str → Option GeminiResponse}

def callName (call : ToolCall) : Str × Str := (call.id, call.name)

/-- The calls stand both in the content and beside it; where there is no response, there are
none. -/
def Shows (calls : List (Str × Str)) : Option CompletionResponse → Prop
  | none => calls = []
  | some r => r.content.filterMap blockCall = r.toolCalls ∧ r.toolCalls.map callName = calls

section OpenAi

open OpenAiDriver

theorem filterMap_block (calls : List ToolCall) :
    (calls.map ToolCall.block).filterMap blockCall = calls := by
  rw [List.filterMap_map]
  exact List.filterMap_some

theorem shows_answer (text : Str) (calls : List ToolCall) (finishReason : Option Str)
    (usage : TokenUsage) :
    Shows (calls.map callName) (some (answer text calls finishReason usage)) := by
  refine ⟨?_, rfl⟩
  have htext : (textBlocks text).filterMap blockCall = [] := by
    unfold textBlocks
    split <;> rfl
  rw [answer, List.filterMap_append, htext, filterMap_block, List.nil_append]

theorem shows_openAi (response : OaiResponse) :
    Shows (sent parseJson parseResponse (.openAi response))
      (decode parseJson parseResponse (.openAi response)) := by
  obtain ⟨choices, usage⟩ := response
  cases choices with
  | nil => rfl
  | cons choice choices =>
    have h := shows_answer (choice.message.content.getD [])
      ((choice.message.toolCalls.getD []).map fun call =>
        ⟨call.id, call.function.name, parseArguments parseJson call.function.arguments⟩)
      choice.finishReason ((usage.map fun u => ⟨u.promptTokens, u.completionTokens⟩).getD ⟨0, 0⟩)
    rw [List.map_map] at h
    exact h

theorem onLine_eq (parseJson : Str → Option Value) (s : StreamState) (line : Str) :
    onLine parseJson s line = (lineJson parseJson line).elim (s, []) (onJson s) := by
  unfold onLine lineJson
  split
  · rfl
  · cases stripPrefix "data: ".toList line with
    | none => rfl
    | some data =>
      dsimp only [Option.bind_some]
      split
      · rfl
      · cases parseJson data <;> rfl

theorem toolAccum_onChoice (s : StreamState) (choice : Value) :
    (onChoice s choice).1.toolAccum =
      ((((choice.index "delta").index "tool_calls").asArray.getD []).foldl
        (fun accum delta => (onCall accum delta).1) s.toolAccum) := by
  have htext (content : Value) : (onText s content).1.toolAccum = s.toolAccum := by
    unfold onText
    cases content.asStr with
    | none => rfl
    | some text =>
      dsimp only
      split <;> rfl
  unfold onChoice
  dsimp only
  rw [← htext ((choice.index "delta").index "content"), ← run_state onCall]
  cases (choice.index "finish_reason").asStr <;> rfl

theorem toolAccum_onJson (s : StreamState) (json : Value) : (onJson s json).1.toolAccum =
    (callDeltas json).foldl (fun accum delta => (onCall accum delta).1) s.toolAccum := by
  unfold onJson callDeltas
  dsimp only
  rw [run_state]
  generalize (json.index "choices").asArray.getD [] = choices
  have hfold (s : StreamState) :
      (choices.foldl (fun s choice => (onChoice s choice).1) s).toolAccum =
        (choices.flatMap fun choice => ((choice.index "delta").index "tool_calls").asArray.getD
          []).foldl (fun accum delta => (onCall accum delta).1) s.toolAccum := by
    induction choices generalizing s with
    | nil => rfl
    | cons choice choices ih =>
      rw [List.foldl_cons, ih, toolAccum_onChoice, List.flatMap_cons, List.foldl_append]
  exact hfold _

theorem toolAccum_run (s : StreamState) (jsons : List Value) :
    (run onJson s jsons).1.toolAccum =
      (jsons.flatMap callDeltas).foldl (fun accum delta => (onCall accum delta).1)
        s.toolAccum := by
  induction jsons generalizing s with
  | nil => rfl
  | cons json jsons ih =>
    rw [run_cons, ih, toolAccum_onJson, List.flatMap_cons, List.foldl_append]

theorem shows_openAiStream (chunks : List (List UInt8)) :
    Shows (sent parseJson parseResponse (.openAiStream chunks))
      (decode parseJson parseResponse (.openAiStream chunks)) := by
  have hrun := run_filterMap (onLine parseJson) (onLine_eq parseJson) .init
    ((split ['\n'] (received chunks)).1.map trimEnd)
  have hcalls : ((run onJson .init (lineJsons parseJson chunks)).1.toolAccum).map idName =
      sent parseJson parseResponse (.openAiStream chunks) := by
    rw [toolAccum_run]
    exact map_foldl_onCall _
  have h := shows_answer (run onJson .init (lineJsons parseJson chunks)).1.textContent
    ((run onJson .init (lineJsons parseJson chunks)).1.toolAccum.map fun t =>
      ⟨t.id, t.name, parseArguments parseJson t.arguments⟩)
    (run onJson .init (lineJsons parseJson chunks)).1.finishReason
    (run onJson .init (lineJsons parseJson chunks)).1.usage
  rw [List.map_map] at h
  rw [← hcalls, decode, stream, streamTexts, feed_nil (by simp)]
  change Shows _ (some (finish parseJson (run (onLine parseJson) .init
    ((split ['\n'] (received chunks)).1.map trimEnd)).1).1)
  rw [hrun]
  exact h

theorem failedCalls_eq_nil_iff {failed : Str} {calls : List ToolCall}
    (h : failedCalls parseJson failed.length 0 failed = some calls) :
    calls = [] ↔ ¬ containsText failed "<function=" := by
  unfold containsText
  cases hfind : find "<function=".toList failed with
  | none =>
    refine iff_of_true ?_ (by simp)
    cases hlen : failed.length with
    | zero =>
      rw [hlen, failedCalls] at h
      exact (Option.some_inj.mp h).symm
    | succ n =>
      rw [hlen, failedCalls, hfind] at h
      exact (Option.some_inj.mp h).symm
  | some start =>
    have hle := Clawreform.Lib.Find.find_le hfind
    have hpos : 0 < "<function=".toList.length := by decide
    obtain ⟨n, hn⟩ : ∃ n, failed.length = n + 1 := ⟨failed.length - 1, by omega⟩
    refine iff_of_false ?_ (by simp)
    rw [hn, failedCalls, hfind] at h
    dsimp only at h
    split at h
    · cases h
    · obtain ⟨calls', -, rfl⟩ := Option.map_eq_some_iff.mp h
      simp

theorem shows_groqError {body : Str} (h : ¬ Recovers parseJson (.groqError body)) :
    Shows (sent parseJson parseResponse (.groqError body))
      (decode parseJson parseResponse (.groqError body)) := by
  rw [sent, decode]
  split
  · rename_i htool
    unfold parseGroqFailedToolCall
    cases hfailed : failedGeneration parseJson body with
    | none =>
      rw [failedGeneration] at hfailed
      simp only [hfailed]
      rfl
    | some failed =>
      rw [failedGeneration] at hfailed
      simp only [hfailed]
      cases hcalls : failedCalls parseJson failed.length 0 failed with
      | none => rfl
      | some calls =>
        have hnil : calls = [] := by
          rw [failedCalls_eq_nil_iff hcalls]
          intro hcontains
          exact h ⟨htool, failed, hfailed, hcontains, by rw [hcalls]; rfl⟩
        subst hnil
        dsimp only
        split
        · rfl
        · exact ⟨rfl, rfl⟩
  · rfl

/-- A recovered call stands beside an empty content. -/
theorem not_wellFormed_of_recovers (parseResponse : Str → Option GeminiResponse) {body : Str}
    (h : Recovers parseJson (.groqError body)) :
    ∃ r, decode parseJson parseResponse (.groqError body) = some r ∧ ¬ WellFormed r := by
  obtain ⟨htool, failed, hfailed, hcontains, hcalls⟩ := h
  obtain ⟨calls, hcalls⟩ := Option.isSome_iff_exists.mp hcalls
  have hne : calls ≠ [] := fun hnil => (failedCalls_eq_nil_iff hcalls).mp hnil hcontains
  refine ⟨⟨[], .toolUse, calls, ⟨0, 0⟩⟩, ?_, fun hwell => hne hwell.calls.symm⟩
  unfold failedGeneration at hfailed
  rw [decode, if_pos htool, parseGroqFailedToolCall, hfailed]
  dsimp only
  rw [hcalls]
  cases calls with
  | nil => exact absurd rfl hne
  | cons call calls => rfl

end OpenAi

section Anthropic

open AnthropicDriver

theorem filterMap_toolCall (blocks : List ResponseContentBlock) :
    (blocks.map ResponseContentBlock.block).filterMap blockCall =
      blocks.filterMap ResponseContentBlock.toolCall := by
  rw [List.filterMap_map]
  congr 1
  funext block
  cases block <;> rfl

theorem map_toolCall (blocks : List ResponseContentBlock) :
    (blocks.filterMap ResponseContentBlock.toolCall).map callName = blocks.filterMap apiCall := by
  rw [List.map_filterMap]
  congr 1
  funext block
  cases block <;> rfl

theorem shows_apiAnswer (blocks : List ResponseContentBlock) (stopReason : StopReason)
    (usage : TokenUsage) :
    Shows (blocks.filterMap apiCall) (some (answer blocks stopReason usage)) :=
  ⟨filterMap_toolCall blocks, map_toolCall blocks⟩

def accumCall : ContentBlockAccum → Option (Str × Str)
  | .toolUse id name _ => some (id, name)
  | _ => none

theorem filterMap_modify {α β : Type*} {f : α → α} {g : α → Option β} (h : ∀ x, g (f x) = g x)
    (l : List α) (i : Nat) : (l.modify i f).filterMap g = l.filterMap g := by
  induction l generalizing i with
  | nil => cases i <;> rfl
  | cons x l ih =>
    cases i with
    | zero => rw [List.modify_zero_cons, List.filterMap_cons, List.filterMap_cons, h]
    | succ i => rw [List.modify_succ_cons, List.filterMap_cons, List.filterMap_cons, ih]

theorem calls_onBlockDelta (s : StreamState) (json : Value) :
    (onBlockDelta s json).1.blocks.filterMap accumCall = s.blocks.filterMap accumCall := by
  unfold onBlockDelta
  dsimp only
  split
  · cases ((json.index "delta").index "text").asStr with
    | none => rfl
    | some text =>
      refine filterMap_modify (fun block => ?_) _ _
      cases block <;> rfl
  · split
    · cases ((json.index "delta").index "partial_json").asStr with
      | none => rfl
      | some part =>
        refine filterMap_modify (fun block => ?_) _ _
        cases block <;> rfl
    · split
      · cases ((json.index "delta").index "thinking").asStr with
        | none => rfl
        | some thinking =>
          refine filterMap_modify (fun block => ?_) _ _
          cases block <;> rfl
      · rfl

theorem calls_onBlockStart (s : StreamState) {event : Str × Value}
    (h : event.1 = "content_block_start".toList) :
    (onBlockStart s event.2).1.blocks.filterMap accumCall =
      s.blocks.filterMap accumCall ++ (startedCall event).toList := by
  unfold onBlockStart startedCall
  dsimp only
  generalize ((event.2.index "content_block").index "type").asStr.getD [] = type
  by_cases htext : type = "text".toList
  · have hnone : ¬ (event.1 = "content_block_start".toList ∧ type = "tool_use".toList) := by
      rintro ⟨-, htool⟩
      exact absurd (htext.symm.trans htool) (by decide)
    rw [if_pos htext, if_neg hnone]
    simp [accumCall]
  · rw [if_neg htext]
    by_cases htool : type = "tool_use".toList
    · rw [if_pos htool, if_pos ⟨h, htool⟩]
      simp [accumCall]
    · have hnone : ¬ (event.1 = "content_block_start".toList ∧ type = "tool_use".toList) :=
        fun hboth => htool hboth.2
      rw [if_neg htool, if_neg hnone]
      split
      · simp [accumCall]
      · simp

/-- Only the start of a block adds a call. -/
theorem calls_onJson (s : StreamState) (event : Str × Value) :
    (onJson parseJson s event.1 event.2).1.blocks.filterMap accumCall =
      s.blocks.filterMap accumCall ++ (startedCall event).toList := by
  unfold onJson
  by_cases hstart : event.1 = "content_block_start".toList
  · have hne : event.1 ≠ "message_start".toList := by
      rw [hstart]
      decide
    rw [if_neg hne, if_pos hstart, calls_onBlockStart s hstart]
  · have hnone : startedCall event = none := by
      rw [startedCall, if_neg fun hboth => hstart hboth.1]
    rw [hnone, if_neg hstart, Option.toList_none, List.append_nil]
    split
    · unfold onMessageStart
      split <;> rfl
    · split
      · exact calls_onBlockDelta s event.2
      · split
        · rfl
        · split
          · unfold onMessageDelta
            dsimp only
            split <;> split <;> rfl
          · rfl

theorem onEvent_eq (parseJson : Str → Option Value) (s : StreamState)
    (eventText : Str) :
    onEvent parseJson s eventText = (eventJson parseJson eventText).elim (s, [])
      fun event => onJson parseJson s event.1 event.2 := by
  unfold onEvent eventJson
  dsimp only
  split
  · rfl
  · cases parseJson (eventFields eventText).2 <;> rfl

theorem calls_run (parseJson : Str → Option Value) (s : StreamState)
    (events : List (Str × Value)) :
    (run (fun s event => onJson parseJson s event.1 event.2) s events).1.blocks.filterMap
        accumCall = s.blocks.filterMap accumCall ++ events.filterMap startedCall := by
  induction events generalizing s with
  | nil => simp
  | cons event events ih =>
    rw [run_cons, ih, calls_onJson, List.append_assoc, List.filterMap_cons]
    cases startedCall event <;> rfl

theorem filterMap_accum (blocks : List ContentBlockAccum) :
    (blocks.map (ContentBlockAccum.block parseJson)).filterMap apiCall =
      blocks.filterMap accumCall := by
  rw [List.filterMap_map]
  congr 1
  funext block
  cases block <;> rfl

theorem shows_anthropicStream (chunks : List (List UInt8)) :
    Shows (sent parseJson parseResponse (.anthropicStream chunks))
      (decode parseJson parseResponse (.anthropicStream chunks)) := by
  have hrun := run_filterMap (onEvent parseJson) (onEvent_eq parseJson) .init
    (split ['\n', '\n'] (received chunks)).1
  have hcalls := calls_run parseJson .init (eventJsons parseJson chunks)
  rw [decode, stream, streamTexts, feed_nil (by simp)]
  change Shows _ (some (finish parseJson (run (onEvent parseJson) .init
    (split ['\n', '\n'] (received chunks)).1).1).1)
  rw [hrun, finish, sent]
  have hsent : (eventJsons parseJson chunks).filterMap startedCall = (((run (fun s event =>
      onJson parseJson s event.1 event.2) .init (eventJsons parseJson chunks)).1.blocks.map
        (ContentBlockAccum.block parseJson)).filterMap apiCall) := by
    rw [filterMap_accum, hcalls]
    rfl
  rw [hsent]
  exact shows_apiAnswer _ _ _

end Anthropic

section Gemini

open GeminiDriver

variable {newUuid : Nat → Str}

theorem drawn_cons (n : Nat) (name : Str) (names : List Str) :
    drawn newUuid n (name :: names) = (callId newUuid n, name) :: drawn newUuid (n + 1) names := by
  unfold drawn
  rw [List.mapIdx_cons]
  congr 2
  funext i name
  rw [Nat.add_right_comm, Nat.add_assoc]

theorem filterMap_partBlocks (parts : List GeminiPart) (n : Nat) :
    ((partBlocks newUuid n parts).filterMap blockCall).map callName =
      drawn newUuid n (parts.filterMap partName) := by
  induction parts generalizing n with
  | nil => rfl
  | cons part parts ih =>
    cases part with
    | text text =>
      rw [partBlocks, List.filterMap_cons_none rfl]
      split
      · exact ih n
      · rw [List.filterMap_cons_none rfl, ih]
    | inlineData mimeType data =>
      rw [partBlocks, List.filterMap_cons_none rfl, ih]
    | functionResponse name response =>
      rw [partBlocks, List.filterMap_cons_none rfl, ih]
    | functionCall name args =>
      simp only [partBlocks, List.filterMap_cons, blockCall, List.map_cons, ih, callName, partName,
        drawn_cons]

theorem shows_gemini (response : GeminiResponse) :
    Shows (sent parseJson parseResponse (.gemini response newUuid))
      (decode parseJson parseResponse (.gemini response newUuid)) := by
  obtain ⟨candidates, usageMetadata⟩ := response
  cases candidates with
  | nil => rfl
  | cons candidate candidates => exact ⟨rfl, filterMap_partBlocks _ 0⟩

def partCall : GeminiPart → Option (Str × Value)
  | .functionCall name args => some (name, args)
  | _ => none

theorem fnCalls_parts (s : StreamState) (parts : List GeminiPart) :
    (run (onPart newUuid) s parts).1.fnCalls = s.fnCalls ++ parts.filterMap partCall := by
  induction parts generalizing s with
  | nil => simp
  | cons part parts ih =>
    rw [run_cons, ih]
    cases part with
    | text text =>
      have hsame : (onPart newUuid s (.text text)).1.fnCalls = s.fnCalls := by
        rw [onPart]
        split <;> rfl
      rw [hsame, List.filterMap_cons_none rfl]
    | inlineData mimeType data => rfl
    | functionResponse name response => rfl
    | functionCall name args =>
      change (s.fnCalls ++ [(name, args)]) ++ _ = _
      rw [List.append_assoc]
      rfl

theorem fnCalls_candidates (s : StreamState) (candidates : List GeminiCandidate) :
    (run (onCandidate newUuid) s candidates).1.fnCalls = s.fnCalls ++
      (candidates.flatMap fun candidate =>
        (candidate.content.map (·.parts)).getD []).filterMap partCall := by
  induction candidates generalizing s with
  | nil => simp
  | cons candidate candidates ih =>
    rw [run_cons, ih, onCandidate, fnCalls_parts, List.flatMap_cons, List.filterMap_append,
      List.append_assoc]

theorem fnCalls_run (newUuid : Nat → Str) (s : StreamState) (responses : List GeminiResponse) :
    (run (onResponse newUuid) s responses).1.fnCalls = s.fnCalls ++
      ((responses.flatMap (·.candidates)).flatMap fun candidate =>
        (candidate.content.map (·.parts)).getD []).filterMap partCall := by
  induction responses generalizing s with
  | nil => simp
  | cons response responses ih =>
    rw [run_cons, ih, onResponse, fnCalls_candidates, List.flatMap_cons, List.flatMap_append,
      List.filterMap_append, List.append_assoc]

theorem onEvent_eq_response (parseResponse : Str → Option GeminiResponse)
    (s : StreamState) (eventText : Str) :
    onEvent parseResponse newUuid s eventText =
      (eventResponse parseResponse eventText).elim (s, []) (onResponse newUuid s) := by
  unfold onEvent eventResponse
  dsimp only
  split
  · rfl
  · cases parseResponse (eventData eventText) <;> rfl

theorem shows_finish (newUuid : Nat → Str) (s : StreamState) :
    Shows (drawn newUuid s.fnCalls.length (s.fnCalls.map Prod.fst))
      (some (finish newUuid s).1) := by
  have hblocks (calls : List ToolCall) : (calls.map fun call =>
      ContentBlock.toolUse call.id call.name call.input).filterMap blockCall = calls := by
    rw [List.filterMap_map]
    exact List.filterMap_some
  have htext : (if s.textContent = [] then ([] : List ContentBlock)
      else [.text s.textContent]).filterMap blockCall = [] := by
    split <;> rfl
  constructor
  · rw [finish]
    dsimp only
    rw [List.filterMap_append, htext, hblocks, List.nil_append]
  · rw [finish, drawn]
    dsimp only
    apply List.ext_getElem
    · simp
    · intro i _ _
      simp [callName]

theorem map_partCall (parts : List GeminiPart) :
    (parts.filterMap partCall).map Prod.fst = parts.filterMap partName := by
  rw [List.map_filterMap]
  congr 1
  funext part
  cases part <;> rfl

theorem shows_geminiStream (chunks : List (List UInt8)) :
    Shows (sent parseJson parseResponse (.geminiStream chunks newUuid))
      (decode parseJson parseResponse (.geminiStream chunks newUuid)) := by
  have hrun := run_filterMap (onEvent parseResponse newUuid)
    (onEvent_eq_response parseResponse) .init
    (split ['\n', '\n'] (received chunks)).1
  have hcalls := fnCalls_run newUuid .init
    ((split ['\n', '\n'] (received chunks)).1.filterMap (eventResponse parseResponse))
  have hnames := map_partCall (eventParts parseResponse chunks)
  have h := shows_finish newUuid (run (onResponse newUuid) .init
    ((split ['\n', '\n'] (received chunks)).1.filterMap (eventResponse parseResponse))).1
  have hlen := congrArg List.length hnames
  rw [List.length_map] at hlen
  rw [hcalls] at h
  rw [decode, stream, streamTexts, feed_nil (by simp)]
  change Shows _ (some (finish newUuid (run (onEvent parseResponse newUuid) .init
    (split ['\n', '\n'] (received chunks)).1).1).1)
  rw [hrun, sent, ← hlen, ← hnames]
  exact h

end Gemini

/-- Apart from recovered calls, a response shows the calls of the reply. -/
theorem shows_decode (parseResponse : Str → Option GeminiResponse) {reply : Reply}
    (h : ¬ Recovers parseJson reply) :
    Shows (sent parseJson parseResponse reply) (decode parseJson parseResponse reply) := by
  cases reply with
  | openAi response => exact shows_openAi response
  | openAiStream chunks => exact shows_openAiStream chunks
  | groqError body => exact shows_groqError h
  | anthropic response => exact shows_apiAnswer response.content _ response.usage
  | anthropicStream chunks => exact shows_anthropicStream chunks
  | gemini response newUuid => exact shows_gemini response
  | geminiStream chunks newUuid => exact shows_geminiStream chunks

end Decoding

section Sessions

variable {parseJson : Str → Option Value} {parseResponse : Str → Option GeminiResponse}

theorem wellFormed_iff {calls : List (Str × Str)} {r : CompletionResponse}
    (h : Shows calls (some r)) : WellFormed r ↔ ∀ call ∈ calls, call.1 ≠ [] ∧ call.2 ≠ [] := by
  obtain ⟨hcontent, rfl⟩ := h
  constructor
  · intro hwell
    exact List.forall_mem_map.mpr hwell.named
  · intro hnamed
    exact ⟨hcontent, List.forall_mem_map.mp hnamed⟩

theorem ids_eq {calls : List (Str × Str)} {r : CompletionResponse} (h : Shows calls (some r)) :
    ids r = calls.map Prod.fst := by
  rw [← h.2, List.map_map]
  rfl

theorem not_recovers {replies : List Reply}
    (h : ∀ r ∈ replies.filterMap (decode parseJson parseResponse), WellFormed r) :
    ∀ reply ∈ replies, ¬ Recovers parseJson reply := by
  intro reply hmem hrecovers
  cases reply with
  | groqError body =>
    obtain ⟨r, hr, hnot⟩ := not_wellFormed_of_recovers parseResponse hrecovers
    exact hnot (h r (List.mem_filterMap.mpr ⟨_, hmem, hr⟩))
  | _ => exact hrecovers

theorem flatMap_ids {replies : List Reply} (h : ∀ reply ∈ replies, ¬ Recovers parseJson reply) :
    (replies.filterMap (decode parseJson parseResponse)).flatMap ids =
      replies.flatMap fun reply => (sent parseJson parseResponse reply).map Prod.fst := by
  induction replies with
  | nil => rfl
  | cons reply replies ih =>
    rw [List.forall_mem_cons] at h
    have hshows := shows_decode parseResponse h.1
    rw [List.flatMap_cons, ← ih h.2, List.filterMap_cons]
    cases hdecode : decode parseJson parseResponse reply with
    | none =>
      rw [hdecode] at hshows
      rw [hshows]
      rfl
    | some r =>
      rw [hdecode] at hshows
      rw [List.flatMap_cons, ids_eq hshows]

theorem forall_wellFormed_iff {replies : List Reply}
    (h : ∀ reply ∈ replies, ¬ Recovers parseJson reply) :
    (∀ r ∈ replies.filterMap (decode parseJson parseResponse), WellFormed r) ↔
      ∀ reply ∈ replies, ∀ call ∈ sent parseJson parseResponse reply,
        call.1 ≠ [] ∧ call.2 ≠ [] := by
  rw [List.forall_mem_filterMap]
  refine forall₂_congr fun reply hmem => ?_
  have hshows := shows_decode parseResponse (h reply hmem)
  cases hdecode : decode parseJson parseResponse reply with
  | none =>
    rw [hdecode] at hshows
    rw [hshows]
    simp
  | some r =>
    rw [hdecode] at hshows
    rw [← wellFormed_iff hshows]
    simp

/-- The responses of a session are well formed exactly when no call is recovered from an error
of Groq and the providers name their calls, with ids that are new in the session. -/
theorem wellFormedSession_iff (replies : List Reply) :
    WellFormedSession (replies.filterMap (decode parseJson parseResponse)) ↔
      (∀ reply ∈ replies, ¬ Recovers parseJson reply) ∧
      (∀ reply ∈ replies, ∀ call ∈ sent parseJson parseResponse reply,
        call.1 ≠ [] ∧ call.2 ≠ []) ∧
      (replies.flatMap fun reply =>
        (sent parseJson parseResponse reply).map Prod.fst).Nodup := by
  constructor
  · rintro ⟨hwell, hnodup⟩
    have h := not_recovers hwell
    rw [flatMap_ids h] at hnodup
    exact ⟨h, (forall_wellFormed_iff h).mp hwell, hnodup⟩
  · rintro ⟨h, hnamed, hnodup⟩
    rw [← flatMap_ids h] at hnodup
    exact ⟨(forall_wellFormed_iff h).mpr hnamed, hnodup⟩

/-- The generation of the repository's test for the recovery. -/
def failedFetch : Str :=
  "<function=web_fetch".toList ++ (Value.object [("url".toList,
    .string "https://example.com".toList)]).toText ++ "></function>\n".toList

def fetchBody : Value :=
  Value.obj [("error", Value.obj [("code", .string "tool_use_failed".toList),
    ("failed_generation", .string failedFetch)])]

def readFetch (t : Str) : Option Value :=
  if t = fetchBody.toText then some fetchBody
  else if t = (Value.object [("url".toList, .string "https://example.com".toList)]).toText then
    some (.object [("url".toList, .string "https://example.com".toList)])
  else none

/-- The response has a call that is not in its content. -/
theorem recovered_call_missing : ¬ WellFormedSession
    ([Reply.groqError fetchBody.toText].filterMap (decode readFetch fun _ => none)) := by
  rintro ⟨hwell, -⟩
  have hrecovers : Recovers readFetch (.groqError fetchBody.toText) := by
    refine ⟨?_, failedFetch, ?_, ?_, ?_⟩
    all_goals decide +kernel
  obtain ⟨r, hr, hnot⟩ := not_wellFormed_of_recovers (fun _ => none) hrecovers
  exact hnot (hwell r (List.mem_filterMap.mpr ⟨_, List.mem_singleton_self _, hr⟩))

end Sessions

end Clawreform.Runtime.ResponseShape
