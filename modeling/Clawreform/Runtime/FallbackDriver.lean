import Clawreform.Runtime.AgentLoop
import Clawreform.Runtime.AuthCooldown
import Clawreform.Runtime.ChunkIndependence

namespace Clawreform.Runtime.FallbackDriver

open Clawreform.Lib.Text Clawreform.Lib.Run Clawreform.Lib.Splitting Clawreform.Lib.Utf8
open Clawreform.Lib.Json (Value)
open Clawreform.Types
open Clawreform.Runtime.ProviderAnswer (Provider)
open Clawreform.Runtime.AuthCooldown (CooldownVerdict Call)

section Attempts

/-- What a provider does when it is called. A body can break off; an error of Groq has a body of
its own, and an error that the driver returns if there is nothing in it to recover. -/
inductive Reply where
  | failed (e : LlmError)
  | toolUseFailed (body : Str) (e : LlmError)
  | broken (chunks : List (List UInt8)) (e : Str)
  | whole (chunks : List (List UInt8))
  deriving DecidableEq

/-- One call of one driver: its provider, the model of the entry it stands for, if it is a
fallback, the model that is requested and what comes back. -/
structure Attempt where
  provider : Provider
  entry : Option Str
  model : Str
  reply : Reply
  deriving DecidableEq

variable (parseJson : Str → Option Value)
  (parseResponse : Str → Option GeminiDriver.GeminiResponse) (newUuid : Nat → Str)

/-- The events of the chunks that have come in. -/
def received (p : Provider) (chunks : List (List UInt8)) : List StreamEvent :=
  let texts := chunks.map fromUtf8Lossy
  match p with
  | .openAi =>
    (run (OpenAiDriver.onLine parseJson) .init ((feed ['\n'] [] texts).1.map trimEnd)).2
  | .anthropic => (run (AnthropicDriver.onEvent parseJson) .init (feed ['\n', '\n'] [] texts).1).2
  | .gemini =>
    (run (GeminiDriver.onEvent parseResponse newUuid) .init (feed ['\n', '\n'] [] texts).1).2

/-- What is recovered from an error. -/
def recovered (p : Provider) (body : Str) : Option CompletionResponse :=
  if p = .openAi ∧ containsText body "tool_use_failed" then
    OpenAiDriver.parseGroqFailedToolCall parseJson body
  else none

/-- The events a driver sends and what it returns. -/
def outcome (p : Provider) : Reply → List StreamEvent × Except LlmError CompletionResponse
  | .failed e => ([], .error e)
  | .toolUseFailed body e =>
    match recovered parseJson p body with
    | some response => ([], .ok response)
    | none => ([], .error e)
  | .broken chunks e => (received parseJson parseResponse newUuid p chunks, .error (.http e))
  | .whole chunks =>
    let answer := ChunkIndependence.stream parseJson parseResponse newUuid p chunks
    (answer.2, .ok answer.1)

def Attempt.events (a : Attempt) : List StreamEvent :=
  (outcome parseJson parseResponse newUuid a.provider a.reply).1

def Attempt.result (a : Attempt) : Except LlmError CompletionResponse :=
  (outcome parseJson parseResponse newUuid a.provider a.reply).2

end Attempts

section Chains

/-- A driver. No driver reads the model of the entry it stands for. -/
inductive Driver where
  | provider (kind : Provider) (entry : Option Str)
  | fallback (drivers : List Driver)

variable (parseJson : Str → Option Value)
  (parseResponse : Str → Option GeminiDriver.GeminiResponse) (newUuid : Nat → Str)
  (replies : Nat → Reply) (request : CompletionRequest)

mutual

/-- The driver's `stream`, after some attempts, with the replies of the providers in order. -/
def Driver.stream (log : List Attempt) :
    Driver → Except LlmError CompletionResponse × List Attempt
  | .provider kind entry =>
    let attempt : Attempt := ⟨kind, entry, request.model, replies log.length⟩
    (attempt.result parseJson parseResponse newUuid, log ++ [attempt])
  | .fallback drivers => streamEach none log drivers

/-- The loop over a chain. -/
def streamEach (lastError : Option LlmError) (log : List Attempt) :
    List Driver → Except LlmError CompletionResponse × List Attempt
  | [] =>
    (.error (lastError.getD (.api 0 "No drivers configured in fallback chain".toList)), log)
  | driver :: drivers =>
    match driver.stream log with
    | (.ok response, log) => (.ok response, log)
    | (.error (.rateLimited ms), log) => (.error (.rateLimited ms), log)
    | (.error (.overloaded ms), log) => (.error (.overloaded ms), log)
    | (.error e, log) => streamEach (some e) log drivers

end

end Chains

section Retrying

def baseRetryDelayMs : Nat := 1000

/-- The delay in front of the next attempt. -/
def retryDelay (retryAfterMs : UInt64) (attempt : Nat) : Nat :=
  max retryAfterMs.toNat (baseRetryDelayMs * 2 ^ attempt)

/-- What a call leaves behind. -/
structure Streamed where
  result : Except ClawReformError CompletionResponse
  attempts : List Attempt
  delays : List Nat
  recorded : List Call

/-- The errors after which the call is made again. -/
def retryOf : LlmError → Option (String × UInt64)
  | .rateLimited ms => some ("Rate limited", ms)
  | .overloaded ms => some ("Model overloaded", ms)
  | _ => none

variable (parseJson : Str → Option Value)
  (parseResponse : Str → Option GeminiDriver.GeminiResponse) (newUuid : Nat → Str)
  (classifyError : Str → ClassifiedError) (isBilling : Str → Bool)
  (replies : Nat → Reply) (request : CompletionRequest) (driver : Driver)

def giveUp (provider : Option Str) (what : String) (log : List Attempt) : Streamed :=
  ⟨.error (.llmDriver (what.toList ++ " after ".toList ++ showNat maxRetries ++
    " retries".toList)), log, [], provider.toList.map (.recordFailure · false)⟩

def fail (provider : Option Str) (e : LlmError) (log : List Attempt) : Streamed :=
  let rawError := e.toText
  let classified := classifyError rawError
  ⟨.error (.llmDriver (if classified.isFormat then
      classified.sanitizedMessage ++ " — raw: ".toList ++ rawError
    else classified.sanitizedMessage)), log, [],
    provider.toList.map (.recordFailure · (isBilling rawError))⟩

/-- The attempts, with the number of retries left. -/
def streamAttempts (provider : Option Str) : Nat → List Attempt → Streamed
  | retries, log =>
    match driver.stream parseJson parseResponse newUuid replies request log, retries with
    | (.ok response, log), _ => ⟨.ok response, log, [], provider.toList.map .recordSuccess⟩
    | (.error e, log), retries =>
      match retryOf e, retries with
      | none, _ => fail classifyError isBilling provider e log
      | some (what, _), 0 => giveUp provider what log
      | some (_, ms), retries + 1 =>
        let rest := streamAttempts provider retries log
        { rest with delays := retryDelay ms (maxRetries - (retries + 1)) :: rest.delays }

/-- `stream_with_retry`, with the verdict of the circuit breaker on the provider. -/
def streamWithRetry (cooldown : Option (Str × CooldownVerdict)) : Streamed :=
  match cooldown with
  | some (provider, .reject reason retryAfterSecs) =>
    ⟨.error (.llmDriver ("Provider '".toList ++ provider ++ "' is in cooldown (".toList ++ reason ++
      "). Retry in ".toList ++ showNat retryAfterSecs ++ "s.".toList)), [], [], []⟩
  | _ =>
    streamAttempts parseJson parseResponse newUuid classifyError isBilling replies request driver
      (cooldown.map Prod.fst) maxRetries []

end Retrying

end Clawreform.Runtime.FallbackDriver
