import Clawreform.Lib.Run
import Clawreform.Lib.Splice
import Clawreform.Runtime.LlmDriver

namespace Clawreform.Api.OpenAiStream

open Clawreform.Lib.Text Clawreform.Lib.Run Clawreform.Lib.Splice
open Clawreform.Types
open Clawreform.Runtime (StreamEvent)

section Chunks

structure OaiToolCallFunction where
  name : Option Str
  arguments : Option Str
  deriving DecidableEq

structure OaiToolCall where
  index : UInt32
  id : Option Str
  callType : Option Str
  function : OaiToolCallFunction
  deriving DecidableEq

structure ChunkDelta where
  role : Option Str
  content : Option Str
  toolCalls : Option (List OaiToolCall)
  deriving DecidableEq

structure ChunkChoice where
  index : UInt32
  delta : ChunkDelta
  finishReason : Option Str
  deriving DecidableEq

structure ChatCompletionChunk where
  id : Str
  object : Str
  created : UInt64
  model : Str
  choices : List ChunkChoice
  deriving DecidableEq

inductive SseEvent where
  | data (chunk : ChatCompletionChunk)
  | done
  deriving DecidableEq

variable (id : Str) (created : UInt64) (model : Str)

def makeChunk (delta : ChunkDelta) (finishReason : Option Str) : SseEvent :=
  .data ⟨id, "chat.completion.chunk".toList, created, model, [⟨0, delta, finishReason⟩]⟩

/-- What the forwarder sends for an event of the agent, with the index of the next tool call. -/
def forward (toolIndex : UInt32) : StreamEvent → UInt32 × List SseEvent
  | .textDelta text => (toolIndex, [makeChunk id created model ⟨none, some text, none⟩ none])
  | .toolUseStart callId name =>
    (toolIndex + 1, [makeChunk id created model ⟨none, none, some [⟨toolIndex, some callId,
      some "function".toList, ⟨some name, some []⟩⟩]⟩ none])
  | .toolInputDelta text =>
    -- saturating: without a call there is no index to go back to
    let idx := if toolIndex = 0 then 0 else toolIndex - 1
    (toolIndex, [makeChunk id created model ⟨none, none, some [⟨idx, none, none,
      ⟨none, some text⟩⟩]⟩ none])
  | .contentComplete stopReason _ => (if stopReason = .toolUse then 0 else toolIndex, [])
  | .toolUseEnd _ _ _ | .thinkingDelta _ | .phaseChange _ _ | .toolExecutionResult _ _ _ =>
    (toolIndex, [])

/-- All that is sent to a client that stays connected. -/
def streamResponse (events : List StreamEvent) : List SseEvent :=
  makeChunk id created model ⟨some "assistant".toList, none, none⟩ none ::
    (run (forward id created model) 0 events).2 ++
    [makeChunk id created model ⟨none, none, none⟩ (some "stop".toList), .done]

end Chunks

section Client

/-- A tool call as a client puts it together. -/
structure ClientCall where
  index : UInt32
  id : Option Str
  name : Option Str
  arguments : Str
  deriving DecidableEq

structure ClientMessage where
  text : Str
  calls : List ClientCall
  deriving DecidableEq

/-- The first fragment with an index opens a call, and the others add to its arguments. -/
def addFragment (calls : List ClientCall) (fragment : OaiToolCall) : List ClientCall :=
  let arguments := fragment.function.arguments.getD []
  if calls.any (·.index = fragment.index) then
    calls.map fun c =>
      if c.index = fragment.index then { c with arguments := c.arguments ++ arguments } else c
  else calls ++ [⟨fragment.index, fragment.id, fragment.function.name, arguments⟩]

def addDelta (m : ClientMessage) (delta : ChunkDelta) : ClientMessage :=
  ⟨m.text ++ delta.content.getD [], (delta.toolCalls.getD []).foldl addFragment m.calls⟩

def receive (m : ClientMessage) : SseEvent → ClientMessage
  | .data chunk => (chunk.choices.map ChunkChoice.delta).foldl addDelta m
  | .done => m

def assemble (sent : List SseEvent) : ClientMessage := sent.foldl receive ⟨[], []⟩

end Client

section Agent

/-- A tool call of the agent's run. -/
structure AgentCall where
  id : Str
  name : Str
  input : Str
  deriving DecidableEq

/-- The input that comes in belongs to the call that was started last. -/
def addEvent (calls : List AgentCall) : StreamEvent → List AgentCall
  | .toolUseStart id name => calls ++ [⟨id, name, []⟩]
  | .toolInputDelta text =>
    calls.modify (calls.length - 1) fun c => { c with input := c.input ++ text }
  | _ => calls

def agentCalls (events : List StreamEvent) : List AgentCall := events.foldl addEvent []

def agentText (events : List StreamEvent) : Str :=
  events.flatMap fun
    | .textDelta text => text
    | _ => []

/-- The input of a call comes behind its start, in the same iteration. -/
def InputsFollow : Bool → List StreamEvent → Prop
  | _, [] => True
  | _, .toolUseStart _ _ :: events => InputsFollow true events
  | started, .toolInputDelta _ :: events => started ∧ InputsFollow started events
  | _, .contentComplete _ _ :: events => InputsFollow false events
  | started, _ :: events => InputsFollow started events

/-- The client has the text of the run and its tool calls. -/
def Faithful (id : Str) (created : UInt64) (model : Str) (events : List StreamEvent) : Prop :=
  let m := assemble (streamResponse id created model events)
  m.text = agentText events ∧
    m.calls.map (fun c => (c.id, c.name, c.arguments)) =
      (agentCalls events).map fun c => (some c.id, some c.name, c.input)

instance (id : Str) (created : UInt64) (model : Str) (events : List StreamEvent) :
    Decidable (Faithful id created model events) :=
  inferInstanceAs (Decidable (_ ∧ _))

end Agent

section Assembly

variable {calls : List ClientCall} {i j : UInt32} {s t id name : Str}

def ClientCall.extend (i : UInt32) (text : Str) (c : ClientCall) : ClientCall :=
  if c.index = i then { c with arguments := c.arguments ++ text } else c

theorem addFragment_of_mem {fragment : OaiToolCall} (h : ∃ c ∈ calls, c.index = fragment.index) :
    addFragment calls fragment =
      calls.map (.extend fragment.index (fragment.function.arguments.getD [])) := by
  have hany : calls.any (·.index = fragment.index) = true := by simpa using h
  rw [addFragment, if_pos hany]
  rfl

theorem addFragment_of_notMem {fragment : OaiToolCall}
    (h : ¬ ∃ c ∈ calls, c.index = fragment.index) : addFragment calls fragment =
      calls ++ [⟨fragment.index, fragment.id, fragment.function.name,
        fragment.function.arguments.getD []⟩] := by
  have hany : ¬ calls.any (·.index = fragment.index) = true := by simpa using h
  rw [addFragment, if_neg hany]

theorem extend_nil (c : ClientCall) : c.extend i [] = c := by
  unfold ClientCall.extend
  split <;> simp

theorem index_extend (c : ClientCall) : (c.extend i t).index = c.index := by
  unfold ClientCall.extend
  split <;> rfl

theorem extend_extend (c : ClientCall) : (c.extend i s).extend i t = c.extend i (s ++ t) := by
  by_cases h : c.index = i <;> simp [ClientCall.extend, h]

theorem length_addFragment_of_mem {fragment : OaiToolCall}
    (h : ∃ c ∈ calls, c.index = fragment.index) :
    (addFragment calls fragment).length = calls.length := by
  rw [addFragment_of_mem h, List.length_map]

theorem length_addFragment_le (fragment : OaiToolCall) :
    (addFragment calls fragment).length ≤ calls.length + 1 := by
  by_cases h : ∃ c ∈ calls, c.index = fragment.index
  · rw [length_addFragment_of_mem h]
    exact Nat.le_succ _
  · rw [addFragment_of_notMem h, List.length_append]
    exact Nat.le_refl _

theorem index_addFragment (fragment : OaiToolCall) :
    (∃ c ∈ addFragment calls fragment, c.index = i) ↔
      (∃ c ∈ calls, c.index = i) ∨ fragment.index = i := by
  by_cases h : ∃ c ∈ calls, c.index = fragment.index
  · simp only [addFragment_of_mem h, List.mem_map, exists_exists_and_eq_and, index_extend]
    refine ⟨.inl, fun hi => hi.elim (fun hmem => hmem) ?_⟩
    rintro rfl
    exact h
  · rw [addFragment_of_notMem h]
    simp [or_and_right, exists_or]

/-- The index and the calls of the client behind an event. -/
def follow (p : UInt32 × List ClientCall) : StreamEvent → UInt32 × List ClientCall
  | .toolUseStart id name =>
    (p.1 + 1, addFragment p.2 ⟨p.1, some id, some "function".toList, ⟨some name, some []⟩⟩)
  | .toolInputDelta text =>
    (p.1, addFragment p.2 ⟨if p.1 = 0 then 0 else p.1 - 1, none, none, ⟨none, some text⟩⟩)
  | .contentComplete stopReason _ => (if stopReason = .toolUse then 0 else p.1, p.2)
  | _ => p

variable (callId : Str) (created : UInt64) (model : Str)

theorem receive_run (events : List StreamEvent) (text : Str) (p : UInt32 × List ClientCall) :
    (run (forward callId created model) p.1 events).2.foldl receive ⟨text, p.2⟩ =
      ⟨text ++ agentText events, (events.foldl follow p).2⟩ := by
  induction events generalizing text p with
  | nil => simp [agentText]
  | cons e events ih =>
    rw [run_cons, List.foldl_append, List.foldl_cons]
    have hevent : (forward callId created model p.1 e).2.foldl receive ⟨text, p.2⟩ =
        ⟨text ++ agentText [e], (follow p e).2⟩ := by
      cases e <;> simp [forward, makeChunk, receive, addDelta, follow, agentText]
    have hindex : (forward callId created model p.1 e).1 = (follow p e).1 := by
      cases e <;> rfl
    have htext : agentText (e :: events) = agentText [e] ++ agentText events := by
      simp [agentText]
    rw [hevent, hindex, ih, htext, List.append_assoc]

theorem faithful_iff {events : List StreamEvent} : Faithful callId created model events ↔
    (events.foldl follow (0, [])).2.map (fun c => (c.id, c.name, c.arguments)) =
      (agentCalls events).map fun c => (some c.id, some c.name, c.input) := by
  have hsent : assemble (streamResponse callId created model events) =
      ⟨agentText events, (events.foldl follow (0, [])).2⟩ := by
    have hrun := receive_run callId created model events [] (0, [])
    have hfirst : receive ⟨[], []⟩ (makeChunk callId created model
        ⟨some "assistant".toList, none, none⟩ none) = ⟨[], []⟩ := by
      simp [makeChunk, receive, addDelta]
    rw [assemble, streamResponse, List.cons_append, List.foldl_cons, hfirst, List.foldl_append,
      hrun]
    simp [makeChunk, receive, addDelta]
  simp [Faithful, hsent]

end Assembly

section Runs

/-- A run of the agent and what the client has of its calls. -/
structure View where
  index : UInt32
  client : List ClientCall
  calls : List AgentCall
  started : Bool

def View.start : View := ⟨0, [], [], false⟩

def startedAfter (started : Bool) : StreamEvent → Bool
  | .toolUseStart _ _ => true
  | .contentComplete _ _ => false
  | _ => started

def View.next (v : View) (e : StreamEvent) : View :=
  ⟨(follow (v.index, v.client) e).1, (follow (v.index, v.client) e).2, addEvent v.calls e,
    startedAfter v.started e⟩

/-- The view as a machine that puts out nothing. -/
def View.step (v : View) (e : StreamEvent) : View × List Unit := (v.next e, [])

def IsInput : StreamEvent → Prop
  | .toolInputDelta _ => True
  | _ => False

def isStart : StreamEvent → Bool
  | .toolUseStart _ _ => true
  | _ => false

def IsRoundEnd : StreamEvent → Prop
  | .contentComplete stopReason _ => stopReason = .toolUse
  | _ => False

variable {v : View} {e : StreamEvent} {events before after : List StreamEvent}

theorem step_run : (run View.step v events).1 = events.foldl View.next v := by
  induction events generalizing v with
  | nil => rfl
  | cons e events ih => rw [run_cons, ih, List.foldl_cons]; rfl

theorem foldl_view : events.foldl View.next v =
    ⟨(events.foldl follow (v.index, v.client)).1, (events.foldl follow (v.index, v.client)).2,
      events.foldl addEvent v.calls, events.foldl startedAfter v.started⟩ := by
  induction events generalizing v with
  | nil => rfl
  | cons e events ih => rw [List.foldl_cons, ih]; rfl

theorem calls_view : (events.foldl View.next .start).calls = agentCalls events := by
  rw [foldl_view]
  rfl

theorem client_view :
    (events.foldl View.next .start).client = (events.foldl follow (0, [])).2 := by
  rw [foldl_view]
  rfl

theorem started_view :
    (events.foldl View.next .start).started = events.foldl startedAfter false := by
  rw [foldl_view]
  rfl

theorem allowed_of_inputsFollow (h : InputsFollow v.started events) :
    Allowed View.step (fun v e => IsInput e → v.started) v events := by
  induction events generalizing v with
  | nil => trivial
  | cons e events ih =>
    cases e with
    | toolInputDelta text => exact ⟨fun _ => h.1, ih h.2⟩
    | _ => exact ⟨False.elim, ih h⟩

theorem inputsFollow_append {started : Bool} : InputsFollow started (before ++ after) ↔
    InputsFollow started before ∧ InputsFollow (before.foldl startedAfter started) after := by
  induction before generalizing started with
  | nil => simp [InputsFollow]
  | cons e before ih => cases e <;> simp [InputsFollow, startedAfter, ih, and_assoc]

end Runs

section Numbering

variable {v : View} {e : StreamEvent} {calls : List AgentCall} {k n : Nat} {t id name : Str}

/-- The calls as the client has them when each has an index of its own. -/
def number (calls : List AgentCall) : List ClientCall :=
  calls.mapIdx fun n c => ⟨UInt32.ofNat n, some c.id, some c.name, c.input⟩

theorem ofNat_inj (hn : n < 2 ^ 32) (hk : k < 2 ^ 32) :
    UInt32.ofNat n = UInt32.ofNat k ↔ n = k := by
  rw [← UInt32.toNat_inj, UInt32.toNat_ofNat_of_lt' hn, UInt32.toNat_ofNat_of_lt' hk]

theorem number_concat (c : AgentCall) : number (calls ++ [c]) =
    number calls ++ [⟨UInt32.ofNat calls.length, some c.id, some c.name, c.input⟩] := by
  simp [number, List.mapIdx_append]

theorem mem_number {i : UInt32} (h : ∃ c ∈ number calls, c.index = i) :
    ∃ n < calls.length, UInt32.ofNat n = i := by
  obtain ⟨c, hc, rfl⟩ := h
  obtain ⟨n, hn, rfl⟩ := List.mem_mapIdx.mp hc
  exact ⟨n, hn, rfl⟩

theorem number_mem (h : n < calls.length) : ∃ c ∈ number calls, c.index = UInt32.ofNat n :=
  ⟨_, List.mem_mapIdx.mpr ⟨n, h, rfl⟩, rfl⟩

/-- Input for an index goes to the call with that number. -/
theorem map_extend_number (hlen : calls.length ≤ 2 ^ 32) (hk : k < 2 ^ 32) :
    (number calls).map (.extend (UInt32.ofNat k) t) =
      number (calls.modify k fun c => { c with input := c.input ++ t }) := by
  apply List.ext_getElem
  · simp [number]
  · intro n hn hn'
    have hlt : n < calls.length := by simpa [number] using hn
    simp only [number, List.getElem_map, List.getElem_mapIdx, List.getElem_modify,
      ClientCall.extend, ofNat_inj (hlt.trans_le hlen) hk]
    by_cases h : n = k
    · simp [h]
    · simp [h, Ne.symm h]

/-- The calls are numbered in the order in which they come. -/
structure Numbered (v : View) : Prop where
  client : v.client = number v.calls
  index : v.index = UInt32.ofNat v.calls.length
  started : v.started → v.calls ≠ []

/-- The event keeps the numbering. -/
structure Simple (v : View) (e : StreamEvent) : Prop where
  input : IsInput e → v.started ∧ v.calls.length < 2 ^ 32
  start : isStart e → v.calls.length < 2 ^ 32
  roundEnd : IsRoundEnd e → v.calls = []

theorem pred_ofNat (hpos : 0 < n) (hlt : n < 2 ^ 32) :
    (if UInt32.ofNat n = 0 then 0 else UInt32.ofNat n - 1) = UInt32.ofNat (n - 1) := by
  have hone : (1 : UInt32).toNat = 1 := rfl
  have hpred : n - 1 < 2 ^ 32 := by omega
  have htoNat : (UInt32.ofNat n).toNat = n := UInt32.toNat_ofNat_of_lt' hlt
  have hne : UInt32.ofNat n ≠ 0 := by
    intro h
    rw [h] at htoNat
    exact hpos.ne htoNat
  rw [if_neg hne, ← UInt32.toNat_inj, UInt32.toNat_sub_of_le _ _ ?_, htoNat, hone,
    UInt32.toNat_ofNat_of_lt' hpred]
  rw [UInt32.le_iff_toNat_le, htoNat, hone]
  exact hpos

theorem Numbered.step (h : Numbered v) (he : Simple v e) : Numbered (v.next e) := by
  obtain ⟨hclient, hindex, hstarted⟩ := h
  cases e with
  | toolUseStart id name =>
    have hlt := he.start rfl
    have hnew : ¬ ∃ c ∈ v.client, c.index = v.index := by
      rw [hclient, hindex]
      intro hmem
      obtain ⟨n, hn, hsame⟩ := mem_number hmem
      exact hn.ne ((ofNat_inj (hn.trans hlt) hlt).mp hsame)
    refine ⟨?_, ?_, fun _ => ?_⟩
    · show addFragment v.client _ = number (v.calls ++ [_])
      rw [addFragment_of_notMem hnew, number_concat, hclient, hindex]
      rfl
    · show v.index + 1 = _
      simp [hindex, View.next, addEvent]
    · simp [View.next, addEvent]
  | toolInputDelta text =>
    obtain ⟨hon, hlt⟩ := he.input trivial
    have hpos : 0 < v.calls.length := List.length_pos_iff.mpr (hstarted hon)
    refine ⟨?_, ?_, fun _ => ?_⟩
    · show addFragment v.client ⟨if v.index = 0 then 0 else v.index - 1, _, _, _⟩ =
        number (v.calls.modify _ _)
      rw [hindex, pred_ofNat hpos hlt, hclient]
      rw [addFragment_of_mem (number_mem (by omega))]
      exact map_extend_number hlt.le (by omega)
    · simpa [View.next, follow, addEvent] using hindex
    · simpa [View.next, addEvent] using hstarted hon
  | contentComplete stopReason usage =>
    refine ⟨hclient, ?_, fun hon => by cases hon⟩
    show (if stopReason = .toolUse then 0 else v.index) = UInt32.ofNat v.calls.length
    split
    · rename_i hround
      rw [he.roundEnd hround]
      rfl
    · exact hindex
  | textDelta | toolUseEnd | thinkingDelta | phaseChange | toolExecutionResult =>
    exact ⟨hclient, hindex, hstarted⟩

theorem numbered_run {events : List StreamEvent} (h : Numbered v)
    (hevents : Allowed View.step Simple v events) : Numbered (events.foldl View.next v) := by
  induction events generalizing v with
  | nil => exact h
  | cons e events ih => exact ih (h.step hevents.1) hevents.2

end Numbering

section Inputs

variable {v : View} {e : StreamEvent} {events : List StreamEvent} {i : UInt32}
  {calls : List AgentCall} {s t : Str}

/-- The input that comes in. -/
def inputs (events : List StreamEvent) : Str :=
  events.flatMap fun
    | .toolInputDelta text => text
    | _ => []

def addInput (calls : List AgentCall) (t : Str) : List AgentCall :=
  calls.modify (calls.length - 1) fun c => { c with input := c.input ++ t }

theorem addInput_addInput : addInput (addInput calls s) t = addInput calls (s ++ t) := by
  simp [addInput, List.modify_modify_eq, Function.comp_def]

@[simp] theorem addInput_nil : addInput calls [] = calls := by
  have hid : (fun c : AgentCall => { c with input := c.input ++ [] }) = id := by
    funext c
    simp
  rw [addInput, hid, List.modify_id]

def target (i : UInt32) : UInt32 := if i = 0 then 0 else i - 1

/-- Without a new call all input goes where the index points. -/
theorem foldl_inputs (hstart : ∀ e ∈ events, isStart e = false) (h : InputsFollow v.started events)
    (hindex : v.started → v.index = i) (hmem : ∃ c ∈ v.client, c.index = target i) :
    (events.foldl View.next v).client = v.client.map (.extend (target i) (inputs events)) ∧
      (events.foldl View.next v).calls = addInput v.calls (inputs events) := by
  induction events generalizing v with
  | nil =>
    have hid : ClientCall.extend (target i) [] = id := by
      funext c
      exact extend_nil c
    simp [inputs, hid]
  | cons e events ih =>
    have htail : ∀ e ∈ events, isStart e = false := fun e he => hstart e (List.mem_cons_of_mem _ he)
    rw [List.foldl_cons]
    cases e with
    | toolUseStart => cases hstart _ List.mem_cons_self
    | toolInputDelta text =>
      have hclient : (v.next (.toolInputDelta text)).client =
          v.client.map (.extend (target i) text) := by
        show addFragment v.client ⟨target v.index, none, none, none, some text⟩ = _
        rw [hindex h.1, addFragment_of_mem hmem]
        rfl
      have hmem' : ∃ c ∈ (v.next (.toolInputDelta text)).client, c.index = target i := by
        obtain ⟨c, hc, hsame⟩ := hmem
        rw [hclient]
        exact ⟨_, List.mem_map_of_mem hc, (index_extend c).trans hsame⟩
      obtain ⟨hrest, hcalls⟩ := @ih (v.next (.toolInputDelta text)) htail h.2 hindex hmem'
      rw [hrest, hcalls, hclient, List.map_map]
      refine ⟨List.map_congr_left fun c _ => extend_extend c, ?_⟩
      exact addInput_addInput
    | contentComplete stopReason usage =>
      exact @ih (v.next (.contentComplete stopReason usage)) htail h (fun hon => by cases hon) hmem
    | textDelta | toolUseEnd | thinkingDelta | phaseChange | toolExecutionResult =>
      exact @ih v htail h hindex hmem

end Inputs

section Collisions

variable {v : View} {e : StreamEvent} {events : List StreamEvent}

/-- What holds of every run, whether or not indices come twice. -/
structure Opened (v : View) : Prop where
  first : v.calls = [] → v.index = 0 ∧ v.client = []
  zero : v.calls ≠ [] → ∃ c ∈ v.client, c.index = 0
  started : v.started → v.calls ≠ [] ∧ ∃ c ∈ v.client, c.index = target v.index
  length : v.client.length ≤ v.calls.length

theorem opened_start : Opened .start :=
  ⟨fun _ => ⟨rfl, rfl⟩, fun h => absurd rfl h, (fun h => by cases h), Nat.le_refl _⟩

theorem Opened.step (h : Opened v) (he : IsInput e → v.started) : Opened (v.next e) := by
  cases e with
  | toolUseStart id name =>
    have hcalls : (v.next (.toolUseStart id name)).calls = v.calls ++ [⟨id, name, []⟩] := rfl
    have hclient : (v.next (.toolUseStart id name)).client = addFragment v.client
        ⟨v.index, some id, some "function".toList, ⟨some name, some []⟩⟩ := rfl
    refine ⟨fun hnil => ?_, fun _ => ?_, fun _ => ⟨?_, ?_⟩, ?_⟩
    · simp [hcalls] at hnil
    · rw [hclient, index_addFragment]
      by_cases hnil : v.calls = []
      · exact .inr (h.first hnil).1
      · exact .inl (h.zero hnil)
    · simp [hcalls]
    · have hnext : (v.next (.toolUseStart id name)).index = v.index + 1 := rfl
      rw [hclient, index_addFragment, hnext, target]
      split
      · rename_i hzero
        by_cases hnil : v.calls = []
        · rw [(h.first hnil).1] at hzero
          exact absurd hzero (by decide)
        · exact .inl (h.zero hnil)
      · exact .inr (UInt32.add_sub_cancel v.index 1).symm
    · rw [hclient, hcalls, List.length_append]
      exact (length_addFragment_le _).trans (Nat.succ_le_succ h.length)
  | toolInputDelta text =>
    obtain ⟨hne, hmem⟩ := h.started (he trivial)
    have hclient : (v.next (.toolInputDelta text)).client = addFragment v.client
        ⟨target v.index, none, none, ⟨none, some text⟩⟩ := rfl
    have hcalls : (v.next (.toolInputDelta text)).calls = addInput v.calls text := rfl
    have hlen : (addInput v.calls text).length = v.calls.length := List.length_modify ..
    refine ⟨fun hnil => ?_, fun _ => ?_, fun _ => ⟨?_, ?_⟩, ?_⟩
    · rw [hcalls, ← List.length_eq_zero_iff, hlen, List.length_eq_zero_iff] at hnil
      exact absurd hnil hne
    · rw [hclient, index_addFragment]
      exact .inl (h.zero hne)
    · rw [hcalls, ← List.length_pos_iff, hlen, List.length_pos_iff]
      exact hne
    · rw [hclient, index_addFragment]
      exact .inl hmem
    · rw [hclient, hcalls, hlen, length_addFragment_of_mem hmem]
      exact h.length
  | contentComplete stopReason usage =>
    refine ⟨fun hnil => ⟨?_, (h.first hnil).2⟩, h.zero, (fun hon => by cases hon), h.length⟩
    show (if stopReason = .toolUse then 0 else v.index) = 0
    rw [(h.first hnil).1, ite_self]
  | textDelta | toolUseEnd | thinkingDelta | phaseChange | toolExecutionResult => exact h

/-- A call that is lost stays lost. -/
theorem lost_step (h : Opened v) (he : IsInput e → v.started)
    (hlost : v.client.length < v.calls.length) :
    (v.next e).client.length < (v.next e).calls.length := by
  cases e with
  | toolUseStart id name =>
    show (addFragment _ _).length < (v.calls ++ [_]).length
    rw [List.length_append]
    exact (length_addFragment_le _).trans_lt (Nat.succ_lt_succ hlost)
  | toolInputDelta text =>
    have hmem := (h.started (he trivial)).2
    show (addFragment v.client ⟨target v.index, _, _, _⟩).length < (v.calls.modify _ _).length
    rw [length_addFragment_of_mem hmem, List.length_modify]
    exact hlost
  | contentComplete | textDelta | toolUseEnd | thinkingDelta | phaseChange
  | toolExecutionResult => exact hlost

/-- A call that is given index zero behind another call is lost. -/
theorem lost_start (h : Opened v) (hindex : v.index = 0) (hne : v.calls ≠ []) (id name : Str) :
    (v.next (.toolUseStart id name)).client.length <
      (v.next (.toolUseStart id name)).calls.length := by
  show (addFragment _ _).length < (v.calls ++ [_]).length
  rw [length_addFragment_of_mem (hindex ▸ h.zero hne), List.length_append]
  exact Nat.lt_succ_of_le h.length

theorem opened_run (h : Opened v) (hevents : InputsFollow v.started events) :
    Opened (events.foldl View.next v) := by
  have hallowed := allowed_of_inputsFollow hevents
  clear hevents
  induction events generalizing v with
  | nil => exact h
  | cons e events ih => exact ih (h.step hallowed.1) hallowed.2

theorem lost_run (h : Opened v) (hevents : InputsFollow v.started events)
    (hlost : v.client.length < v.calls.length) :
    (events.foldl View.next v).client.length < (events.foldl View.next v).calls.length := by
  have hallowed := allowed_of_inputsFollow hevents
  clear hevents
  induction events generalizing v with
  | nil => exact hlost
  | cons e events ih =>
    exact ih (h.step hallowed.1) (lost_step h hallowed.1 hlost) hallowed.2

end Collisions

section Rounds

variable {events before after : List StreamEvent} {calls : List AgentCall} {v : View}

theorem length_calls : (events.foldl addEvent calls).length =
    calls.length + events.countP isStart := by
  induction events generalizing calls with
  | nil => rfl
  | cons e events ih =>
    rw [List.foldl_cons, ih, List.countP_cons]
    cases e <;> simp +arith [addEvent, isStart]

theorem agentCalls_eq_nil : agentCalls events = [] ↔ ∀ e ∈ events, isStart e = false := by
  rw [← List.length_eq_zero_iff, agentCalls, length_calls, List.length_nil, Nat.zero_add,
    List.countP_eq_zero]
  simp only [Bool.not_eq_true]

theorem exists_start {k : Nat} (h : k < (agentCalls events).length) :
    ∃ before id name after, events = before ++ .toolUseStart id name :: after ∧
      (agentCalls before).length = k := by
  induction events using List.reverseRecOn with
  | nil => cases h
  | append_singleton events e ih =>
    by_cases hk : k < (agentCalls events).length
    · obtain ⟨before, id, name, after, rfl, hlen⟩ := ih hk
      exact ⟨before, id, name, after ++ [e], by simp, hlen⟩
    · rw [agentCalls, List.foldl_append] at h
      cases e with
      | toolUseStart id name =>
        refine ⟨events, id, name, [], rfl, ?_⟩
        have hle : k < (agentCalls events ++ [AgentCall.mk id name []]).length := h
        rw [List.length_append, List.length_singleton] at hle
        omega
      | toolInputDelta text =>
        have hlen : k < (addInput (agentCalls events) text).length := h
        rw [addInput, List.length_modify] at hlen
        exact absurd hlen hk
      | _ => exact absurd h hk

/-- No end of a round of tool calls has calls in front of it and behind it. -/
def OneRound (events : List StreamEvent) : Prop :=
  ∀ before usage after, events = before ++ .contentComplete .toolUse usage :: after →
    agentCalls before = [] ∨ agentCalls after = []

/-- The calls of one round, one for each index. The last index is used up by a call without
input. -/
def Fits (events : List StreamEvent) : Prop :=
  OneRound events ∧ ((agentCalls events).length < 2 ^ 32 ∨
    (agentCalls events).length = 2 ^ 32 ∧ ∀ c ∈ (agentCalls events).getLast?, c.input = [])

/-- No round of tool calls has ended. -/
def Unended (events : List StreamEvent) : Prop :=
  ∀ before usage after, events = before ++ .contentComplete .toolUse usage :: after →
    agentCalls before = []

theorem unended_of_oneRound {id name : Str}
    (h : OneRound (before ++ .toolUseStart id name :: after)) : Unended before := by
  rintro before usage between rfl
  refine (h before usage (between ++ .toolUseStart id name :: after) (by simp)).resolve_right ?_
  rw [agentCalls_eq_nil]
  intro hnone
  cases hnone (.toolUseStart id name) (by simp)

/-- As long as no round has ended, the index counts the calls. -/
theorem index_of_unended (h : Unended events) :
    (events.foldl View.next .start).index = UInt32.ofNat (agentCalls events).length := by
  induction events using List.reverseRecOn with
  | nil => rfl
  | append_singleton events e ih =>
    have hindex := ih fun before usage after he =>
      h before usage (after ++ [e]) (by rw [he, List.append_assoc, List.cons_append])
    rw [List.foldl_append, List.foldl_cons, List.foldl_nil, agentCalls, List.foldl_append]
    cases e with
    | toolUseStart id name =>
      show _ + 1 = UInt32.ofNat (agentCalls events ++ [_]).length
      rw [hindex, List.length_append]
      simp
    | toolInputDelta text =>
      show _ = UInt32.ofNat (addInput (agentCalls events) text).length
      rw [addInput, List.length_modify]
      exact hindex
    | contentComplete stopReason usage =>
      show (if stopReason = .toolUse then 0 else _) = UInt32.ofNat (agentCalls events).length
      split
      · rename_i hround
        subst hround
        rw [h events usage [] rfl]
        rfl
      · exact hindex
    | textDelta | toolUseEnd | thinkingDelta | phaseChange | toolExecutionResult => exact hindex

/-- Behind a round without calls, the index is zero. -/
theorem index_of_no_start (hindex : v.index = 0) (h : ∀ e ∈ events, isStart e = false) :
    (events.foldl View.next v).index = 0 := by
  induction events generalizing v with
  | nil => exact hindex
  | cons e events ih =>
    refine ih ?_ fun e he => h e (List.mem_cons_of_mem _ he)
    cases e with
    | toolUseStart => cases h _ List.mem_cons_self
    | contentComplete stopReason usage =>
      show (if stopReason = .toolUse then 0 else v.index) = 0
      rw [hindex, ite_self]
    | _ => exact hindex

/-- Where a call is given index zero behind another one, the client has too few calls. -/
theorem lost_of_zero {id name : Str}
    (hfollow : InputsFollow false (before ++ .toolUseStart id name :: after))
    (hindex : (before.foldl View.next .start).index = 0) (hne : agentCalls before ≠ []) :
    ((before ++ .toolUseStart id name :: after).foldl follow (0, [])).2.length <
      (agentCalls (before ++ .toolUseStart id name :: after)).length := by
  obtain ⟨hbefore, hafter⟩ := inputsFollow_append.mp hfollow
  rw [← started_view] at hafter
  have hopened := opened_run opened_start hbefore
  have hlost := lost_start hopened hindex (calls_view.symm ▸ hne) id name
  have hnext := @Opened.step _ (.toolUseStart id name) hopened False.elim
  have hrun := lost_run hnext hafter hlost
  rw [← List.foldl_cons, ← List.foldl_append, client_view, calls_view] at hrun
  exact hrun

theorem addInput_concat (c : AgentCall) (t : Str) :
    addInput (calls ++ [c]) t = calls ++ [{ c with input := c.input ++ t }] := by
  rw [addInput, modify_last (by simp)]

theorem numbered_of_unended (hfollow : InputsFollow false events) (h : Unended events)
    (hlen : (agentCalls events).length < 2 ^ 32) : Numbered (events.foldl View.next .start) := by
  refine numbered_run ⟨rfl, rfl, fun hon => by cases hon⟩ ?_
  rw [allowed_iff_splits]
  rintro before e after rfl
  have hinput := allowed_iff_splits View.step |>.mp
    (allowed_of_inputsFollow (v := .start) hfollow) before e after rfl
  rw [step_run] at hinput ⊢
  have hle : (agentCalls before).length < 2 ^ 32 := by
    refine Nat.lt_of_le_of_lt ?_ hlen
    rw [agentCalls, agentCalls, List.foldl_append, @length_calls (e :: after)]
    exact Nat.le_add_right _ _
  refine ⟨fun he => ⟨hinput he, calls_view ▸ hle⟩, fun _ => calls_view ▸ hle, fun he => ?_⟩
  rw [calls_view]
  cases e with
  | contentComplete stopReason usage =>
    obtain rfl : stopReason = .toolUse := he
    exact h before usage after rfl
  | _ => cases he

/-- What the client has of the calls of one round. -/
theorem client_of_oneRound {id name : Str}
    (hfollow : InputsFollow false (before ++ .toolUseStart id name :: after))
    (h : OneRound (before ++ .toolUseStart id name :: after))
    (hlen : (agentCalls before).length < 2 ^ 32) (hafter : ∀ e ∈ after, isStart e = false) :
    ((before ++ .toolUseStart id name :: after).foldl follow (0, [])).2 =
      (number (agentCalls before ++ [⟨id, name, []⟩])).map
        (.extend (target (UInt32.ofNat ((agentCalls before).length + 1))) (inputs after)) ∧
    agentCalls (before ++ .toolUseStart id name :: after) =
      agentCalls before ++ [⟨id, name, inputs after⟩] := by
  obtain ⟨hbefore, hrest⟩ := inputsFollow_append.mp hfollow
  rw [← started_view] at hrest
  have hstart : Simple (before.foldl View.next .start) (.toolUseStart id name) :=
    ⟨False.elim, fun _ => calls_view ▸ hlen, False.elim⟩
  have hnext := (numbered_of_unended hbefore (unended_of_oneRound h) hlen).step hstart
  have hopened := opened_run opened_start hbefore
  have hmem := ((@Opened.step _ (.toolUseStart id name) hopened False.elim).started rfl).2
  obtain ⟨hclient, hcalls⟩ := foldl_inputs hafter hrest (fun _ => rfl) hmem
  have hadded : ((before.foldl View.next .start).next (.toolUseStart id name)).calls =
      agentCalls before ++ [⟨id, name, []⟩] := congrArg (· ++ _) calls_view
  rw [hnext.client, hnext.index, hadded, List.length_append] at hclient
  rw [hadded, addInput_concat, List.nil_append] at hcalls
  rw [← client_view, ← @calls_view (_ ++ _), List.foldl_append, List.foldl_cons]
  exact ⟨hclient, hcalls⟩

end Rounds

section Faithfulness

variable (callId : Str) (created : UInt64) (model : Str) {events : List StreamEvent}

theorem not_faithful_of_lost
    (h : (events.foldl follow (0, [])).2.length < (agentCalls events).length) :
    ¬ Faithful callId created model events := by
  rw [faithful_iff]
  intro hfaithful
  have hlen := congrArg List.length hfaithful
  rw [List.length_map, List.length_map] at hlen
  exact h.ne hlen

/-- A second round of calls starts again at index zero. -/
theorem lost_of_rounds (hfollow : InputsFollow false events) (h : ¬ OneRound events) :
    (events.foldl follow (0, [])).2.length < (agentCalls events).length := by
  unfold OneRound at h
  push Not at h
  obtain ⟨before, usage, after, rfl, hbefore, hafter⟩ := h
  obtain ⟨between, id, name, rest, rfl, hnone⟩ := exists_start (List.length_pos_iff.mpr hafter)
  have hsplit : before ++ .contentComplete .toolUse usage ::
      (between ++ .toolUseStart id name :: rest) =
      (before ++ .contentComplete .toolUse usage :: between) ++ .toolUseStart id name :: rest := by
    simp
  rw [hsplit] at hfollow ⊢
  have hbetween := agentCalls_eq_nil.mp (List.length_eq_zero_iff.mp hnone)
  refine lost_of_zero hfollow ?_ ?_
  · rw [List.foldl_append, List.foldl_cons]
    exact index_of_no_start rfl hbetween
  · intro hnil
    refine hbefore (agentCalls_eq_nil.mpr fun e he => ?_)
    exact agentCalls_eq_nil.mp hnil e (List.mem_append_left _ he)

/-- Behind the last index comes index zero again. -/
theorem lost_of_overflow (hfollow : InputsFollow false events) (h : OneRound events)
    (hlen : 2 ^ 32 < (agentCalls events).length) :
    (events.foldl follow (0, [])).2.length < (agentCalls events).length := by
  obtain ⟨before, id, name, after, rfl, hcount⟩ := exists_start hlen
  refine lost_of_zero hfollow ?_ ?_
  · rw [index_of_unended (unended_of_oneRound h), hcount]
    rfl
  · intro hnil
    rw [hnil] at hcount
    exact absurd hcount (by decide)

theorem contents_number (calls : List AgentCall) :
    (number calls).map (fun c => (c.id, c.name, c.arguments)) =
      calls.map fun c => (some c.id, some c.name, c.input) := by
  apply List.ext_getElem
  · simp [number]
  · intro n hn hn'
    simp [number]

/-- The calls of one round that fits. -/
theorem faithful_iff_last {before after : List StreamEvent} {id name : Str}
    (hfollow : InputsFollow false (before ++ .toolUseStart id name :: after))
    (hround : OneRound (before ++ .toolUseStart id name :: after))
    (hlen : (agentCalls before).length < 2 ^ 32) (hafter : ∀ e ∈ after, isStart e = false) :
    Faithful callId created model (before ++ .toolUseStart id name :: after) ↔
      (agentCalls before).length + 1 < 2 ^ 32 ∨ inputs after = [] := by
  obtain ⟨hclient, hcalls⟩ := client_of_oneRound hfollow hround hlen hafter
  rw [faithful_iff, hclient, hcalls]
  by_cases hroom : (agentCalls before).length + 1 < 2 ^ 32
  · have htarget : target (UInt32.ofNat ((agentCalls before).length + 1)) =
        UInt32.ofNat (agentCalls before).length := pred_ofNat (Nat.succ_pos _) hroom
    rw [htarget, map_extend_number (by simpa using hroom.le) hlen, modify_last rfl,
      contents_number]
    exact iff_of_true rfl (.inl hroom)
  · have htarget : target (UInt32.ofNat ((agentCalls before).length + 1)) = 0 := by
      have hfull : (agentCalls before).length + 1 = 2 ^ 32 := by omega
      rw [hfull]
      rfl
    rw [htarget]
    constructor
    · intro hcontents
      right
      rw [number_concat, List.map_append, List.map_append, List.map_append] at hcontents
      have hlast := (List.append_inj' hcontents rfl).2
      have hindex : UInt32.ofNat (agentCalls before).length ≠ 0 := by
        intro hzero
        have hnone := (ofNat_inj hlen (by decide : 0 < 2 ^ 32)).mp hzero
        omega
      simpa [ClientCall.extend, hindex] using hlast
    · intro hinputs
      have hsame : ClientCall.extend 0 [] = fun c => c := by
        funext c
        exact extend_nil c
      rw [hinputs.resolve_left hroom, hsame, List.map_id', contents_number]

/-- The client puts the run together exactly when its calls fit into one round. -/
theorem faithful_iff_fits (hfollow : InputsFollow false events) :
    Faithful callId created model events ↔ Fits events := by
  by_cases hround : OneRound events
  · by_cases hmany : 2 ^ 32 < (agentCalls events).length
    · have hnot := not_faithful_of_lost callId created model
        (lost_of_overflow hfollow hround hmany)
      refine iff_of_false hnot fun hfits => ?_
      have hbound := hfits.2
      omega
    · by_cases hnone : agentCalls events = []
      · have hopened := opened_run opened_start hfollow
        have hclient := (hopened.first (calls_view.trans hnone)).2
        rw [client_view] at hclient
        rw [faithful_iff, hclient, hnone]
        refine iff_of_true rfl ⟨hround, .inl ?_⟩
        rw [hnone]
        decide
      · obtain ⟨k, hk⟩ := Nat.exists_eq_succ_of_ne_zero (mt List.length_eq_zero_iff.mp hnone)
        have hlast : k < (agentCalls events).length := hk ▸ Nat.lt_succ_self k
        obtain ⟨before, id, name, after, rfl, hcount⟩ := exists_start hlast
        have hafter : ∀ e ∈ after, isStart e = false := by
          have hsum : (agentCalls (before ++ .toolUseStart id name :: after)).length =
              (agentCalls before ++ [AgentCall.mk id name []]).length + after.countP isStart := by
            rw [agentCalls, List.foldl_append, List.foldl_cons, length_calls]
            rfl
          rw [hk, List.length_append, hcount, List.length_singleton] at hsum
          have hzero : after.countP isStart = 0 := by omega
          simpa only [List.countP_eq_zero, Bool.not_eq_true] using hzero
        have hlen : (agentCalls before).length < 2 ^ 32 := by omega
        rw [faithful_iff_last callId created model hfollow hround hlen hafter]
        have hcalls := (client_of_oneRound hfollow hround hlen hafter).2
        rw [hcalls, List.length_append, List.length_singleton] at hmany
        simp only [Fits, hcalls, hround, List.length_append, List.length_singleton, true_and,
          List.getLast?_concat, Option.mem_some_iff, forall_eq']
        exact or_congr_right' fun hfull => (and_iff_right (by omega)).symm
  · exact iff_of_false (not_faithful_of_lost callId created model (lost_of_rounds hfollow hround))
      fun hfits => hround hfits.1

def twoRounds : List StreamEvent :=
  [.toolUseStart "call_1".toList "web_search".toList, .toolInputDelta "{}".toList,
    .contentComplete .toolUse ⟨0, 0⟩, .toolUseStart "call_2".toList "web_fetch".toList,
    .toolInputDelta "{}".toList, .contentComplete .toolUse ⟨0, 0⟩,
    .textDelta "Done".toList, .contentComplete .endTurn ⟨0, 0⟩]

theorem faithful_iff_fits_once :
    Faithful [] 0 [] (twoRounds.take 3) ↔ Fits (twoRounds.take 3) :=
  faithful_iff_fits [] 0 [] (by simp [twoRounds, InputsFollow])

/-- The second round's call is taken for more of the first one. -/
theorem second_call_swallowed : ¬ ∀ events, InputsFollow false events →
    Faithful [] 0 [] events := by
  intro h
  have hfollow : InputsFollow false twoRounds := by simp [twoRounds, InputsFollow]
  exact absurd (h twoRounds hfollow) (by decide)

end Faithfulness

end Clawreform.Api.OpenAiStream
