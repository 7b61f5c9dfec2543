import Clawreform.Runtime.FallbackDriver
import Clawreform.Runtime.StreamAgreement

namespace Clawreform.Runtime.StreamFallback

open Clawreform.Lib.Text Clawreform.Lib.Run Clawreform.Lib.Splitting Clawreform.Lib.Utf8
open Clawreform.Lib.Json (Value)
open Clawreform.Lib.Json.Value (obj)
open Clawreform.Types
open Clawreform.Runtime.ProviderAnswer (Provider)
open Clawreform.Runtime.StreamAgreement (blockText text_eq)
open Clawreform.Runtime.FallbackDriver

section Texts

def deltaText : StreamEvent → Str
  | .textDelta text => text
  | _ => []

/-- The text that some events bring. -/
def streamedText (events : List StreamEvent) : Str := events.flatMap deltaText

@[simp] theorem streamedText_nil : streamedText [] = [] := rfl

@[simp] theorem streamedText_append (events events' : List StreamEvent) :
    streamedText (events ++ events') = streamedText events ++ streamedText events' :=
  List.flatMap_append

theorem streamedText_eq_nil {events : List StreamEvent} (h : ∀ e ∈ events, deltaText e = []) :
    streamedText events = [] :=
  List.flatMap_eq_nil_iff.mpr h

variable {σ ι : Type*} {step : σ → ι → σ × List StreamEvent} {text : σ → Str}

/-- The text of the state is what the events bring. -/
def Collects (step : σ → ι → σ × List StreamEvent) (text : σ → Str) : Prop :=
  ∀ s i, text (step s i).1 = text s ++ streamedText (step s i).2

theorem Collects.run (h : Collects step text) : Collects (run step) text := by
  intro s is
  induction is generalizing s with
  | nil => exact (List.append_nil _).symm
  | cons i is ih =>
    rw [run_cons, ih, h, streamedText_append, List.append_assoc]

/-- A text that is not collected lengthens the streamed text for good. -/
theorem collected_iff_allowed {ok : σ → ι → Prop}
    (hok : ∀ s i, ok s i → text (step s i).1 = text s ++ streamedText (step s i).2)
    (hnot : ∀ s i, ¬ ok s i → text (step s i).1 = text s ∧ streamedText (step s i).2 ≠ [])
    (s : σ) (is : List ι) :
    (text (run step s is).1).length ≤ (text s ++ streamedText (run step s is).2).length ∧
      (text (run step s is).1 = text s ++ streamedText (run step s is).2 ↔
        Allowed step ok s is) := by
  induction is generalizing s with
  | nil => simp [Allowed]
  | cons i is ih =>
    obtain ⟨hle, hiff⟩ := ih (step s i).1
    rw [run_cons, streamedText_append, ← List.append_assoc]
    by_cases hi : ok s i
    · rw [← hok s i hi]
      exact ⟨hle, hiff.trans (and_iff_right hi).symm⟩
    · obtain ⟨hkept, hne⟩ := hnot s i hi
      rw [hkept, List.length_append] at hle
      have hpos := List.length_pos_iff.mpr hne
      simp only [List.length_append]
      refine ⟨by omega, fun heq => ?_, fun h => absurd h.1 hi⟩
      have hlength := congrArg List.length heq
      simp only [List.length_append] at hlength
      omega

end Texts

section OpenAi

open OpenAiDriver

theorem collects_onText : Collects onText (fun s => s.textContent) := by
  intro s content
  unfold onText
  cases content.asStr with
  | none => exact (List.append_nil _).symm
  | some text =>
    dsimp only
    split
    · exact (List.append_nil _).symm
    · simp [streamedText, deltaText]

theorem streamed_onCall (accum : List ToolAccum) (call : Value) :
    streamedText (onCall accum call).2 = [] := by
  unfold onCall
  cases call.get "function".toList with
  | none => rfl
  | some func =>
    dsimp only
    have hinput (args : Str) :
        streamedText (if args = [] then [] else [.toolInputDelta args]) = [] := by
      split <;> rfl
    unfold onFunction
    cases (func.index "name").asStr with
    | none =>
      cases (func.index "arguments").asStr with
      | none => rfl
      | some args => exact hinput args
    | some name =>
      cases (func.index "arguments").asStr with
      | none => rfl
      | some args => exact hinput args

theorem streamed_calls (accum : List ToolAccum) (calls : List Value) :
    streamedText (run onCall accum calls).2 = [] :=
  have h : Collects onCall (fun _ => []) := fun accum call => (streamed_onCall accum call).symm
  (h.run accum calls).symm

theorem collects_onChoice : Collects onChoice (fun s => s.textContent) := by
  intro s choice
  have htext := collects_onText s ((choice.index "delta").index "content")
  unfold onChoice
  dsimp only
  rw [streamedText_append, streamed_calls, List.append_nil, ← htext]
  cases (choice.index "finish_reason").asStr <;> rfl

theorem collects_onLine (parseJson : Str → Option Value) :
    Collects (onLine parseJson) (fun s => s.textContent) := by
  intro s line
  unfold onLine
  split
  · exact (List.append_nil _).symm
  · cases stripPrefix "data: ".toList line with
    | none => exact (List.append_nil _).symm
    | some data =>
      dsimp only
      split
      · exact (List.append_nil _).symm
      · cases parseJson data with
        | none => exact (List.append_nil _).symm
        | some json => exact collects_onChoice.run _ _

theorem text_answer (text : Str) (calls : List ToolCall) (finishReason : Option Str)
    (usage : TokenUsage) : (answer text calls finishReason usage).text = text := by
  have hcalls : (calls.map ToolCall.block).flatMap blockText = [] := by
    rw [List.flatMap_map]
    exact List.flatMap_eq_nil_iff.mpr fun _ _ => rfl
  rw [text_eq, answer, List.flatMap_append, hcalls, List.append_nil, textBlocks]
  split
  · rename_i hnil
    rw [hnil]
    rfl
  · exact List.flatMap_singleton ..

theorem openAi_text (parseJson : Str → Option Value) (chunks : List (List UInt8)) :
    (stream parseJson chunks).1.text = streamedText (stream parseJson chunks).2 := by
  have hends (calls : List ToolCall) (stop : StopReason) (usage : TokenUsage) : streamedText
      (calls.map (fun call => .toolUseEnd call.id call.name call.input) ++
        [.contentComplete stop usage]) = [] := by
    refine streamedText_eq_nil fun e he => ?_
    rcases List.mem_append.mp he with hcall | hlast
    · obtain ⟨call, -, rfl⟩ := List.mem_map.mp hcall
      rfl
    · rw [List.mem_singleton.mp hlast]
      rfl
  unfold stream streamTexts OpenAiDriver.finish
  dsimp only
  rw [text_answer, streamedText_append, hends, List.append_nil]
  exact (collects_onLine parseJson).run .init _

end OpenAi

section Gemini

open GeminiDriver

variable (newUuid : Nat → Str)

theorem collects_onPart : Collects (onPart newUuid) (fun s => s.textContent) := by
  intro s part
  cases part with
  | text text =>
    by_cases htext : text = []
    · rw [onPart, if_pos htext]
      exact (List.append_nil _).symm
    · rw [onPart, if_neg htext]
      simp [streamedText, deltaText]
  | functionCall name args => exact (List.append_nil _).symm
  | inlineData mime data => exact (List.append_nil _).symm
  | functionResponse name response => exact (List.append_nil _).symm

theorem collects_onResponse : Collects (onResponse newUuid) (fun s => s.textContent) :=
  have hcandidate : Collects (onCandidate newUuid) (fun s => s.textContent) :=
    fun s candidate => (collects_onPart newUuid).run
      { s with finishReason := candidate.finishReason.or s.finishReason } _
  fun s json => hcandidate.run
    { s with usage := (json.usageMetadata.map (·.tokens)).getD s.usage } _

theorem collects_onEvent (parseResponse : Str → Option GeminiResponse) :
    Collects (onEvent parseResponse newUuid) (fun s => s.textContent) := by
  intro s eventText
  unfold onEvent
  dsimp only
  split
  · exact (List.append_nil _).symm
  · cases parseResponse (eventData eventText) with
    | none => exact (List.append_nil _).symm
    | some json => exact collects_onResponse newUuid s json

theorem gemini_text (parseResponse : Str → Option GeminiResponse) (chunks : List (List UInt8)) :
    (stream parseResponse newUuid chunks).1.text =
      streamedText (stream parseResponse newUuid chunks).2 := by
  unfold stream streamTexts
  dsimp only
  rw [text_eq, StreamAgreement.text_finish, streamedText_append]
  have hlast (s : StreamState) : streamedText (GeminiDriver.finish newUuid s).2 = [] := rfl
  rw [hlast, List.append_nil]
  exact (collects_onEvent newUuid parseResponse).run .init _

end Gemini

section Anthropic

open AnthropicDriver

variable (parseJson : Str → Option Value)

def accumText : ContentBlockAccum → Str
  | .text text => text
  | _ => []

def blocksText (s : StreamState) : Str := s.blocks.flatMap accumText

/-- The last block takes text. -/
def textOpen (s : StreamState) : Bool :=
  match s.blocks.getLast? with
  | some (.text _) => true
  | _ => false

/-- The text of an event has a block to go to. -/
def InPlace (s : StreamState) (eventText : Str) : Prop :=
  streamedText (onEvent parseJson s eventText).2 = [] ∨ textOpen s

instance (s : StreamState) (eventText : Str) : Decidable (InPlace parseJson s eventText) :=
  inferInstanceAs (Decidable (_ ∨ _))

theorem text_modify {f : ContentBlockAccum → ContentBlockAccum}
    (h : ∀ b, accumText (f b) = accumText b) (blocks : List ContentBlockAccum) (i : Nat) :
    (blocks.modify i f).flatMap accumText = blocks.flatMap accumText := by
  induction blocks generalizing i with
  | nil => cases i <;> rfl
  | cons b blocks ih =>
    cases i with
    | zero => rw [List.modify_zero_cons, List.flatMap_cons, List.flatMap_cons, h]
    | succ i => rw [List.modify_succ_cons, List.flatMap_cons, List.flatMap_cons, ih]

/-- A text goes to the last block, if that is one of text, and is lost otherwise. -/
theorem blocksText_modifyLast {f : ContentBlockAccum → ContentBlockAccum} {text : Str}
    (htext : ∀ t, f (.text t) = .text (t ++ text)) (hthinking : ∀ t, f (.thinking t) = .thinking t)
    (htool : ∀ id name input, f (.toolUse id name input) = .toolUse id name input)
    (s : StreamState) :
    blocksText (s.modifyLast f) = blocksText s ++ if textOpen s then text else [] := by
  obtain ⟨blocks, stopReason, usage⟩ := s
  rcases List.eq_nil_or_concat' blocks with rfl | ⟨front, b, rfl⟩
  · rfl
  · have hmodify := StreamAgreement.modifyLast_last (s := ⟨[], stopReason, usage⟩) front b f
    dsimp only at hmodify
    rw [hmodify]
    cases b with
    | text t => simp [blocksText, accumText, textOpen, htext]
    | thinking t => simp [blocksText, accumText, textOpen, hthinking]
    | toolUse id name input => simp [blocksText, accumText, textOpen, htool]

theorem blocksText_onBlockDelta (s : StreamState) (json : Value) :
    blocksText (onBlockDelta s json).1 =
      blocksText s ++ if textOpen s then streamedText (onBlockDelta s json).2 else [] := by
  have hkept : blocksText s = blocksText s ++ if textOpen s then [] else [] := by
    rw [ite_self, List.append_nil]
  unfold onBlockDelta
  dsimp only
  split
  · cases ((json.index "delta").index "text").asStr with
    | none => exact hkept
    | some text =>
      have hone : streamedText [.textDelta text] = text := List.append_nil _
      rw [hone]
      exact blocksText_modifyLast (fun _ => rfl) (fun _ => rfl) (fun _ _ _ => rfl) s
  · split
    · cases ((json.index "delta").index "partial_json").asStr with
      | none => exact hkept
      | some part =>
        refine (text_modify (fun b => ?_) _ _).trans hkept
        cases b <;> rfl
    · split
      · cases ((json.index "delta").index "thinking").asStr with
        | none => exact hkept
        | some thinking =>
          refine (text_modify (fun b => ?_) _ _).trans hkept
          cases b <;> rfl
      · exact hkept

theorem blocksText_onBlockStart (s : StreamState) (json : Value) :
    blocksText (onBlockStart s json).1 = blocksText s ∧
      streamedText (onBlockStart s json).2 = [] := by
  unfold onBlockStart
  dsimp only
  split
  · simp [blocksText, accumText]
  · split
    · simp [blocksText, accumText, streamedText, deltaText]
    · split
      · simp [blocksText, accumText]
      · exact ⟨rfl, rfl⟩

theorem blocksText_onJson (s : StreamState) (eventType : Str) (json : Value) :
    blocksText (onJson parseJson s eventType json).1 = blocksText s ++
      if textOpen s then streamedText (onJson parseJson s eventType json).2 else [] := by
  have hkept : blocksText s = blocksText s ++ if textOpen s then [] else [] := by
    rw [ite_self, List.append_nil]
  unfold onJson
  split
  · refine Eq.trans ?_ hkept
    unfold onMessageStart
    split <;> rfl
  · split
    · obtain ⟨htext, hnone⟩ := blocksText_onBlockStart s json
      rw [htext, hnone]
      exact hkept
    · split
      · exact blocksText_onBlockDelta s json
      · split
        · have hstop : streamedText (onBlockStop parseJson s) = [] := by
            unfold onBlockStop
            split <;> rfl
          rw [hstop]
          exact hkept
        · split
          · refine Eq.trans ?_ hkept
            unfold onMessageDelta
            dsimp only
            split <;> split <;> rfl
          · exact hkept

theorem blocksText_onEvent (s : StreamState) (eventText : Str) :
    blocksText (onEvent parseJson s eventText).1 = blocksText s ++
      if textOpen s then streamedText (onEvent parseJson s eventText).2 else [] := by
  have hkept : blocksText s = blocksText s ++ if textOpen s then [] else [] := by
    rw [ite_self, List.append_nil]
  unfold onEvent
  dsimp only
  split
  · exact hkept
  · cases parseJson (eventFields eventText).2 with
    | none => exact hkept
    | some json => exact blocksText_onJson parseJson s _ json

theorem anthropic_text (chunks : List (List UInt8)) :
    (stream parseJson chunks).1.text.length ≤
        (streamedText (stream parseJson chunks).2).length ∧
      ((stream parseJson chunks).1.text = streamedText (stream parseJson chunks).2 ↔
        Allowed (onEvent parseJson) (InPlace parseJson) StreamState.init
          (feed ['\n', '\n'] [] (chunks.map fromUtf8Lossy)).1) := by
  have htext (s : StreamState) : (AnthropicDriver.finish parseJson s).1.text = blocksText s := by
    rw [text_eq, AnthropicDriver.finish, answer, blocksText, List.flatMap_map, List.flatMap_map]
    congr 1
    funext b
    cases b <;> rfl
  have hlast (s : StreamState) : streamedText (AnthropicDriver.finish parseJson s).2 = [] := rfl
  unfold stream streamTexts
  dsimp only
  rw [htext, streamedText_append, hlast, List.append_nil]
  refine @collected_iff_allowed _ _ (onEvent parseJson) blocksText (InPlace parseJson)
    (fun s event h => ?_) (fun s event h => ?_) StreamState.init _
  · rw [blocksText_onEvent]
    rcases h with hnil | hopen
    · rw [hnil, ite_self]
    · rw [if_pos hopen]
  · obtain ⟨hne, hclosed⟩ := not_or.mp h
    exact ⟨by rw [blocksText_onEvent, if_neg hclosed, List.append_nil], hne⟩

end Anthropic

section Replies

variable (parseJson : Str → Option Value)
  (parseResponse : Str → Option GeminiDriver.GeminiResponse) (newUuid : Nat → Str)

/-- The provider sends no text outside its blocks of text. The other two have no blocks. -/
def TextInPlace (p : Provider) (chunks : List (List UInt8)) : Prop :=
  match p with
  | .anthropic => Allowed (AnthropicDriver.onEvent parseJson) (InPlace parseJson) .init
      (feed ['\n', '\n'] [] (chunks.map fromUtf8Lossy)).1
  | _ => True

/-- An answer goes with the text that was sent before it. A recovered one is never sent. -/
def FitsBehind (sent : Str) (p : Provider) : Reply → Prop
  | .failed _ => True
  | .broken _ _ => True
  | .toolUseFailed body _ => ∀ r ∈ recovered parseJson p body, sent = r.text
  | .whole chunks => sent = [] ∧ TextInPlace parseJson p chunks

theorem text_stream (p : Provider) (chunks : List (List UInt8)) :
    let answer := ChunkIndependence.stream parseJson parseResponse newUuid p chunks
    answer.1.text.length ≤ (streamedText answer.2).length ∧
      (answer.1.text = streamedText answer.2 ↔ TextInPlace parseJson p chunks) := by
  cases p with
  | openAi =>
    have htext := openAi_text parseJson chunks
    exact ⟨(congrArg List.length htext).le, iff_of_true htext trivial⟩
  | anthropic => exact anthropic_text parseJson chunks
  | gemini =>
    have htext := gemini_text newUuid parseResponse chunks
    exact ⟨(congrArg List.length htext).le, iff_of_true htext trivial⟩

theorem outcome_toolUseFailed (p : Provider) (body : Str) (e : LlmError) :
    FallbackDriver.outcome parseJson parseResponse newUuid p (.toolUseFailed body e) =
      ([], (recovered parseJson p body).elim (.error e) .ok) := by
  unfold FallbackDriver.outcome
  dsimp only
  cases recovered parseJson p body <;> rfl

theorem text_reply_iff (sent : Str) {p : Provider} {reply : Reply} {r : CompletionResponse}
    (h : (FallbackDriver.outcome parseJson parseResponse newUuid p reply).2 = .ok r) :
    sent ++ streamedText (FallbackDriver.outcome parseJson parseResponse newUuid p reply).1 =
        r.text ↔
      FitsBehind parseJson sent p reply := by
  cases reply with
  | failed e => cases h
  | broken chunks e => cases h
  | toolUseFailed body e =>
    rw [outcome_toolUseFailed] at h ⊢
    change _ ↔ ∀ r ∈ recovered parseJson p body, sent = r.text
    cases hrecovered : recovered parseJson p body with
    | none =>
      rw [hrecovered] at h
      cases h
    | some response =>
      rw [hrecovered] at h
      cases h
      simp
  | whole chunks =>
    cases h
    obtain ⟨hle, hiff⟩ := text_stream parseJson parseResponse newUuid p chunks
    change sent ++ streamedText (ChunkIndependence.stream parseJson parseResponse newUuid p
      chunks).2 = (ChunkIndependence.stream parseJson parseResponse newUuid p chunks).1.text ↔
        sent = [] ∧ TextInPlace parseJson p chunks
    constructor
    · intro heq
      have hlength := congrArg List.length heq
      rw [List.length_append] at hlength
      have hnil : sent = [] := List.length_eq_zero_iff.mp (by omega)
      rw [hnil, List.nil_append] at heq
      exact ⟨hnil, hiff.mp heq.symm⟩
    · rintro ⟨hnil, hplace⟩
      rw [hnil, List.nil_append]
      exact (hiff.mpr hplace).symm

theorem fitsBehind_of_error (sent : Str) {p : Provider} {reply : Reply} {e : LlmError}
    (h : (FallbackDriver.outcome parseJson parseResponse newUuid p reply).2 = .error e) :
    FitsBehind parseJson sent p reply := by
  cases reply with
  | failed e => trivial
  | broken chunks e => trivial
  | toolUseFailed body e =>
    rw [outcome_toolUseFailed] at h
    change ∀ r ∈ recovered parseJson p body, sent = r.text
    cases hrecovered : recovered parseJson p body with
    | none => simp
    | some response =>
      rw [hrecovered] at h
      cases h
  | whole chunks => cases h

end Replies

section Chains

variable (parseJson : Str → Option Value)
  (parseResponse : Str → Option GeminiDriver.GeminiResponse) (newUuid : Nat → Str)
  (replies : Nat → Reply) (request : CompletionRequest)

/-- The attempts that are made for a request, with what comes of the last one. -/
structure Tried {ε : Type} (result : Except ε CompletionResponse) (attempts : List Attempt) :
    Prop where
  model : ∀ a ∈ attempts, a.model = request.model
  failed : ∀ e, result = .error e →
    ∀ a ∈ attempts, ∃ e', a.result parseJson parseResponse newUuid = .error e'
  answered : ∀ r, result = .ok r → ∃ front last, attempts = front ++ [last] ∧
    last.result parseJson parseResponse newUuid = .ok r

variable {parseJson parseResponse newUuid request}

variable {ε ε' : Type}

theorem Tried.append {result : Except ε CompletionResponse} {e : ε'}
    {attempts attempts' : List Attempt}
    (h : Tried parseJson parseResponse newUuid request (.error e) attempts)
    (h' : Tried parseJson parseResponse newUuid request result attempts') :
    Tried parseJson parseResponse newUuid request result (attempts ++ attempts') where
  model := List.forall_mem_append.mpr ⟨h.model, h'.model⟩
  failed e' he' := List.forall_mem_append.mpr ⟨h.failed e rfl, h'.failed e' he'⟩
  answered r hr := by
    obtain ⟨front, last, rfl, hlast⟩ := h'.answered r hr
    exact ⟨attempts ++ front, last, (List.append_assoc ..).symm, hlast⟩

theorem Tried.of_ok {r : CompletionResponse} {attempts : List Attempt}
    (h : Tried parseJson parseResponse newUuid request (.ok r : Except ε _) attempts) :
    Tried parseJson parseResponse newUuid request (.ok r : Except ε' _) attempts where
  model := h.model
  failed _ he := by cases he
  answered r' hr := by
    cases hr
    exact h.answered r rfl

theorem Tried.of_error {e : ε} {e' : ε'} {attempts : List Attempt}
    (h : Tried parseJson parseResponse newUuid request (.error e) attempts) :
    Tried parseJson parseResponse newUuid request (.error e') attempts where
  model := h.model
  failed _ _ := h.failed e rfl
  answered _ hr := by cases hr

variable (parseJson parseResponse newUuid request)

mutual

theorem tried_stream (log : List Attempt) : (driver : Driver) →
    ∃ attempts, (driver.stream parseJson parseResponse newUuid replies request log).2 =
        log ++ attempts ∧ Tried parseJson parseResponse newUuid request
          (driver.stream parseJson parseResponse newUuid replies request log).1 attempts
  | .provider kind entry => by
    rw [Driver.stream]
    refine ⟨_, rfl, ?_, ?_, ?_⟩
    · simp
    · intro e he a ha
      rw [List.mem_singleton.mp ha]
      exact ⟨e, he⟩
    · intro r hr
      exact ⟨[], _, rfl, hr⟩
  | .fallback drivers => by
    rw [Driver.stream]
    exact tried_streamEach none log drivers

theorem tried_streamEach (lastError : Option LlmError) (log : List Attempt) :
    (drivers : List Driver) →
    ∃ attempts,
      (streamEach parseJson parseResponse newUuid replies request lastError log drivers).2 =
        log ++ attempts ∧ Tried parseJson parseResponse newUuid request
          (streamEach parseJson parseResponse newUuid replies request lastError log drivers).1
          attempts
  | [] => by
    rw [streamEach]
    exact ⟨[], (List.append_nil _).symm, by simp, by simp, fun r hr => by cases hr⟩
  | driver :: drivers => by
    obtain ⟨attempts, hlog, htried⟩ := tried_stream log driver
    rw [streamEach]
    generalize driver.stream parseJson parseResponse newUuid replies request log = p at hlog htried
    obtain ⟨result, log'⟩ := p
    cases result with
    | ok response => exact ⟨attempts, hlog, htried⟩
    | error e =>
      dsimp only at hlog
      obtain ⟨rest, hrest, hagain⟩ := tried_streamEach (some e) log' drivers
      have hnext : ∃ attempts, (streamEach parseJson parseResponse newUuid replies request
          (some e) log' drivers).2 = log ++ attempts ∧
            Tried parseJson parseResponse newUuid request (streamEach parseJson parseResponse
              newUuid replies request (some e) log' drivers).1 attempts := by
        refine ⟨attempts ++ rest, ?_, htried.append hagain⟩
        rw [hrest, hlog, List.append_assoc]
      cases e with
      | rateLimited ms => exact ⟨attempts, hlog, htried⟩
      | overloaded ms => exact ⟨attempts, hlog, htried⟩
      | http text => exact hnext
      | api status message => exact hnext
      | parse text => exact hnext
      | missingApiKey text => exact hnext

end

end Chains

section Retrying

variable (parseJson : Str → Option Value)
  (parseResponse : Str → Option GeminiDriver.GeminiResponse) (newUuid : Nat → Str)
  (classifyError : Str → ClassifiedError) (isBilling : Str → Bool)
  (replies : Nat → Reply) (request : CompletionRequest) (driver : Driver)

/-- Every time the call is made again, attempts are added. -/
theorem tried_attempts (provider : Option Str) (retries : Nat) (log : List Attempt) :
    let call := streamAttempts parseJson parseResponse newUuid classifyError isBilling replies
      request driver provider retries log
    ∃ attempts, call.attempts = log ++ attempts ∧
      Tried parseJson parseResponse newUuid request call.result attempts := by
  induction retries generalizing log with
  | zero =>
    obtain ⟨attempts, hlog, htried⟩ :=
      tried_stream parseJson parseResponse newUuid replies request log driver
    unfold streamAttempts
    generalize driver.stream parseJson parseResponse newUuid replies request log = p at hlog htried
    obtain ⟨result, log'⟩ := p
    dsimp only at hlog htried
    cases result with
    | ok response =>
      dsimp only
      exact ⟨attempts, hlog, htried.of_ok⟩
    | error e =>
      cases hretry : retryOf e with
      | none =>
        dsimp only
        rw [hretry]
        exact ⟨attempts, hlog, htried.of_error⟩
      | some retry =>
        dsimp only
        rw [hretry]
        exact ⟨attempts, hlog, htried.of_error⟩
  | succ retries ih =>
    obtain ⟨attempts, hlog, htried⟩ :=
      tried_stream parseJson parseResponse newUuid replies request log driver
    unfold streamAttempts
    generalize driver.stream parseJson parseResponse newUuid replies request log = p at hlog htried
    obtain ⟨result, log'⟩ := p
    dsimp only at hlog htried
    cases result with
    | ok response =>
      dsimp only
      exact ⟨attempts, hlog, htried.of_ok⟩
    | error e =>
      cases hretry : retryOf e with
      | none =>
        dsimp only
        rw [hretry]
        exact ⟨attempts, hlog, htried.of_error⟩
      | some retry =>
        obtain ⟨rest, hrest, hagain⟩ := ih log'
        dsimp only
        rw [hretry]
        refine ⟨attempts ++ rest, ?_, htried.append hagain⟩
        dsimp only
        rw [hrest, hlog, List.append_assoc]

theorem tried_retry (cooldown : Option (Str × AuthCooldown.CooldownVerdict)) :
    let call := FallbackDriver.streamWithRetry parseJson parseResponse newUuid classifyError
      isBilling replies request driver cooldown
    Tried parseJson parseResponse newUuid request call.result call.attempts := by
  have hcalled (provider : Option Str) := tried_attempts parseJson parseResponse newUuid
    classifyError isBilling replies request driver provider maxRetries []
  unfold FallbackDriver.streamWithRetry
  split
  · exact ⟨by simp, by simp, fun r hr => by cases hr⟩
  · obtain ⟨attempts, hlog, htried⟩ := hcalled (cooldown.map Prod.fst)
    dsimp only
    rw [hlog]
    exact htried

/-- The client gets the text of the answer, and every fallback is asked for its own model. -/
def Matches (call : Streamed) : Prop :=
  (∀ r, call.result = .ok r → streamedText
    (call.attempts.flatMap (Attempt.events parseJson parseResponse newUuid)) = r.text) ∧
  ∀ a ∈ call.attempts, ∀ model, a.entry = some model → a.model = model

end Retrying

section Resolving

/-- A model to fall back to, of the manifest of an agent or of the configuration. -/
structure FallbackModel where
  provider : Str
  model : Str
  apiKeyEnv : Option Str
  baseUrl : Option Str
  deriving DecidableEq

/-- The end of `resolve_driver`, with the drivers that can be created. The driver of a fallback
model does not keep the model. -/
def resolveDriver (createDriver : FallbackModel → Option Provider) (primary : Driver)
    (fallbackModels : List FallbackModel) : Driver :=
  match fallbackModels.filterMap fun fb =>
      (createDriver fb).map (Driver.provider · (some fb.model)) with
  | [] => primary
  | chain => .fallback (primary :: chain)

end Resolving

section Examples

def readGreeting (s : Str) : Option Value :=
  if s = "1".toList then
    some (obj [("choices", .array [obj [("delta", obj [("content", .string "Hi".toList)])]])])
  else none

def greeting : List (List UInt8) := [encode "data: 1\n".toList]

def asked : CompletionRequest := ⟨"large".toList, [], [], 0, .finite 0, none, none⟩

/-- A primary driver that breaks off and a fallback model that answers. -/
def greeted : Streamed :=
  FallbackDriver.streamWithRetry readGreeting (fun _ => none) (fun _ => [])
    (fun _ => ⟨false, []⟩) (fun _ => false)
    (fun n => if n = 0 then .broken greeting "reset".toList else .whole greeting) asked
    (resolveDriver (fun _ => some .openAi) (.provider .openAi none)
      [⟨"groq".toList, "small".toList, none, none⟩]) none

example : greeted.attempts.map (fun a => (a.entry, a.model)) =
    [(none, "large".toList), (some "small".toList, "large".toList)] := rfl

end Examples

end Clawreform.Runtime.StreamFallback
