import Clawreform.Lib.Json
import Clawreform.Lib.Run
import Clawreform.Lib.Splitting
import Clawreform.Types.Message

namespace Clawreform.Runtime.Mcp

open Clawreform.Lib.Text Clawreform.Lib.Run Clawreform.Lib.Splitting
open Clawreform.Lib.Json (Value)
open Clawreform.Lib.Json.Value
open Clawreform.Types (ToolDefinition)

section Names

variable (toLowercase : Str → Str)

def normalizeName (name : Str) : Str :=
  (toLowercase name).map fun c => if c = '-' then '_' else c

def mcpPrefix (server : Str) : Str := "mcp_".toList ++ normalizeName toLowercase server ++ ['_']

def formatMcpToolName (server tool : Str) : Str :=
  mcpPrefix toLowercase server ++ normalizeName toLowercase tool

def isMcpTool (name : Str) : Bool := "mcp_".toList.isPrefixOf name

/-- What stands between the prefix and the first underscore behind it. -/
def extractMcpServer (toolName : Str) : Option Str :=
  (stripPrefix "mcp_".toList toolName).bind fun rest =>
    if '_' ∈ rest then some (rest.takeWhile (· ≠ '_')) else none

def stripMcpPrefix (server toolName : Str) : Option Str :=
  stripPrefix (mcpPrefix toLowercase server) toolName

end Names

section Messages

structure JsonRpcError where
  code : Int
  message : Str
  data : Option Value
  deriving DecidableEq

structure JsonRpcResponse where
  jsonrpc : Str
  id : Option UInt64
  result : Option Value
  error : Option JsonRpcError
  deriving DecidableEq

def JsonRpcError.text (e : JsonRpcError) : Str :=
  "JSON-RPC error ".toList ++ (toString e.code).toList ++ ": ".toList ++ e.message

/-- A whole number that a signed word holds. -/
def asI64 : Value → Option Int
  | .number ('-' :: text) =>
    let n := Nat.ofDigitChars 10 text 0
    if text ≠ [] ∧ text.all Char.isDigit ∧ 0 < n ∧ n ≤ 2 ^ 63 then some (-n) else none
  | .number text =>
    let n := Nat.ofDigitChars 10 text 0
    if text ≠ [] ∧ text.all Char.isDigit ∧ n < 2 ^ 63 then some n else none
  | _ => none

/-- A field that may be absent or null. -/
def optional {α : Type*} (read : Value → Option α) : Value → Option (Option α)
  | .null => some none
  | v => (read v).map some

def JsonRpcError.fromFields (code message data : Value) : Option JsonRpcError := do
  let code ← asI64 code
  let message ← message.asStr
  let data ← optional some data
  some ⟨code, message, data⟩

def JsonRpcResponse.fromFields (error : Value → Option JsonRpcError)
    (jsonrpc id result err : Value) : Option JsonRpcResponse := do
  let jsonrpc ← jsonrpc.asStr
  let id ← optional asU64 id
  let result ← optional some result
  let err ← optional error err
  some ⟨jsonrpc, id, result, err⟩

/-- No field the type knows comes twice. -/
def unambiguous (known : List String) (fields : List (Str × Value)) : Bool :=
  known.all fun name => (fields.filter (·.1 = name.toList)).length ≤ 1

def JsonRpcError.fromJson : Value → Option JsonRpcError
  | .object fields =>
    let v := Value.object fields
    if unambiguous ["code", "message", "data"] fields then
      fromFields (v.index "code") (v.index "message") (v.index "data")
    else none
  | .array [code, message, data] => fromFields code message data
  | _ => none

/-- Fields that the type does not know are passed over, so a notification is a response without
an id. -/
def JsonRpcResponse.fromJson : Value → Option JsonRpcResponse
  | .object fields =>
    let v := Value.object fields
    if unambiguous ["jsonrpc", "id", "result", "error"] fields then
      fromFields JsonRpcError.fromJson (v.index "jsonrpc") (v.index "id") (v.index "result")
        (v.index "error")
    else none
  | .array [jsonrpc, id, result, error] =>
    fromFields JsonRpcError.fromJson jsonrpc id result error
  | _ => none

end Messages

section Connection

/-- Which part of writing a message failed. -/
inductive WriteStep where
  | message
  | newline
  | flush
  deriving DecidableEq

def WriteStep.text : WriteStep → Str
  | .message => "Failed to write to MCP stdin: ".toList
  | .newline => "Failed to write newline: ".toList
  | .flush => "Failed to flush stdin: ".toList

/-- What a call meets: how writing and reading fail, if they do, what the server writes between
the end of the last call and the end of this one's waiting, whether its output ends there, and
how much of an unfinished line is lost when the time is over. -/
structure Wire where
  writeError : Option (WriteStep × Str)
  readError : Option Str
  arrives : Str
  ends : Bool
  taken : Nat
  deriving DecidableEq

/-- The connection; `unread` is what the server wrote and no call has read. -/
structure McpConnection where
  name : Str
  tools : List ToolDefinition
  nextId : UInt64
  unread : Str
  deriving DecidableEq

/-- What a call sent, the line it read, and what it returns. -/
structure Sent where
  id : UInt64
  method : Str
  params : Option Value
  line : Option Str
  result : Except Str (Option Value)
  deriving DecidableEq

/-- The line that a call will read: one that has come to its end, or the last of the output. -/
def waiting (c : McpConnection) (w : Wire) : Option Str :=
  if w.writeError = none ∧ w.readError = none then
    match cut ['\n'] (c.unread ++ w.arrives) with
    | some (line, _) => some line
    | none => if w.ends ∧ c.unread ++ w.arrives ≠ [] then some (c.unread ++ w.arrives) else none
  else none

variable (parseJson : Str → Option Value) (jsonError : Str → Str)

def readResponse (line : Str) : Option JsonRpcResponse :=
  (parseJson (trim line)).bind JsonRpcResponse.fromJson

def resultOf (line : Str) : Except Str (Option Value) :=
  match readResponse parseJson line with
  | none => .error ("Invalid MCP JSON-RPC response: ".toList ++ jsonError (trim line))
  | some response =>
    match response.error with
    | some e => .error e.text
    | none => .ok response.result

/-- The id of the response is not looked at. -/
def sendRequest (c : McpConnection) (method : Str) (params : Option Value) (w : Wire) :
    McpConnection × Sent :=
  let pending := c.unread ++ w.arrives
  let next (unread : Str) : McpConnection := { c with nextId := c.nextId + 1, unread := unread }
  let failed (message : Str) : Sent := ⟨c.nextId, method, params, none, .error message⟩
  let answered (line : Str) : Sent :=
    ⟨c.nextId, method, params, some line, resultOf parseJson jsonError line⟩
  match w.writeError, w.readError with
  | some (writeStep, e), _ => (next pending, failed (writeStep.text ++ e))
  | none, some e =>
    (next (pending.drop w.taken), failed ("Failed to read MCP response: ".toList ++ e))
  | none, none =>
    match cut ['\n'] pending with
    | some (line, rest) => (next rest, answered line)
    | none =>
      if w.ends then
        if pending = [] then (next [], failed "MCP server closed connection".toList)
        else (next [], answered pending)
      else (next (pending.drop w.taken), failed "MCP request timed out".toList)

structure Request where
  method : Str
  params : Option Value
  wire : Wire
  deriving DecidableEq

def step (c : McpConnection) (request : Request) : McpConnection × List Sent :=
  let r := sendRequest parseJson jsonError c request.method request.params request.wire
  (r.1, [r.2])

end Connection

section Matching

variable {parseJson : Str → Option Value} {jsonError : Str → Str}

/-- What is returned as a result is the result of the server's response with the id of the
request. -/
def Matched (parseJson : Str → Option Value) (sent : Sent) : Prop :=
  ∀ result, sent.result = .ok result →
    ∃ line response, sent.line = some line ∧ readResponse parseJson line = some response ∧
      response.id = some sent.id ∧ response.error = none ∧ response.result = result

/-- The line at the front of the pipe is the response to the next request, or no result. -/
def FrontAnswers (parseJson : Str → Option Value) (c : McpConnection) (request : Request) : Prop :=
  ∀ line ∈ waiting c request.wire, ∀ response ∈ readResponse parseJson line,
    response.error = none → response.id = some c.nextId

instance (c : McpConnection) (request : Request) :
    Decidable (FrontAnswers parseJson c request) :=
  inferInstanceAs (Decidable (∀ line ∈ waiting c request.wire,
    ∀ response ∈ readResponse parseJson line, response.error = none →
      response.id = some c.nextId))

theorem resultOf_eq_ok_iff {line : Str} {result : Option Value} :
    resultOf parseJson jsonError line = .ok result ↔
      ∃ response, readResponse parseJson line = some response ∧ response.error = none ∧
        response.result = result := by
  rw [resultOf]
  cases readResponse parseJson line with
  | none => simp
  | some response => cases herror : response.error <;> simp [herror]

/-- A call that reads a line returns what matches exactly when the line does. -/
theorem matched_answer_iff {id : UInt64} {method : Str} {params : Option Value} {line : Str} :
    Matched parseJson ⟨id, method, params, some line, resultOf parseJson jsonError line⟩ ↔
      ∀ response, readResponse parseJson line = some response → response.error = none →
        response.id = some id := by
  constructor
  · intro h response hread herror
    obtain ⟨_, response', hline, hread', hid, -, -⟩ :=
      h response.result (resultOf_eq_ok_iff.mpr ⟨response, hread, herror, rfl⟩)
    obtain rfl := Option.some.inj hline
    rw [hread] at hread'
    exact Option.some.inj hread' ▸ hid
  · intro h result hresult
    obtain ⟨response, hread, herror, hvalue⟩ := resultOf_eq_ok_iff.mp hresult
    exact ⟨line, response, rfl, hread, h response hread herror, herror, hvalue⟩

/-- What a call returns, by the line it reads. -/
theorem sendRequest_sent (c : McpConnection) (method : Str) (params : Option Value) (w : Wire) :
    ∃ message, (sendRequest parseJson jsonError c method params w).2 =
      ⟨c.nextId, method, params, waiting c w,
        ((waiting c w).map (resultOf parseJson jsonError)).getD (.error message)⟩ := by
  simp only [sendRequest, waiting]
  cases hwrite : w.writeError with
  | some e => exact ⟨_, rfl⟩
  | none =>
    cases hread : w.readError with
    | some e => exact ⟨_, rfl⟩
    | none =>
      simp only [and_self, if_true]
      cases hcut : cut ['\n'] (c.unread ++ w.arrives) with
      | some p => exact ⟨[], rfl⟩
      | none =>
        by_cases hends : w.ends
        · by_cases hempty : c.unread ++ w.arrives = []
          · simp only [hends, hempty, ne_eq, not_true, and_false, if_true, if_false]
            exact ⟨_, rfl⟩
          · simp only [hends, hempty, ne_eq, not_false_iff, and_self, if_true, if_false]
            exact ⟨[], rfl⟩
        · simp only [hends]
          exact ⟨_, rfl⟩

theorem step_matched_iff (c : McpConnection) (request : Request) :
    (∀ sent ∈ (step parseJson jsonError c request).2, Matched parseJson sent) ↔
      FrontAnswers parseJson c request := by
  obtain ⟨message, hsent⟩ :=
    @sendRequest_sent parseJson jsonError c request.method request.params request.wire
  simp only [step, List.mem_singleton, forall_eq, FrontAnswers]
  rw [hsent]
  cases hwaiting : waiting c request.wire with
  | none => simp [Matched]
  | some line =>
    rw [Option.map_some, Option.getD_some, matched_answer_iff]
    constructor
    · rintro h _ ⟨⟩ response hread herror
      exact h response hread herror
    · intro h response hread herror
      exact h line rfl response hread herror

/-- Over a run of calls every result is the response to its request, if and only if each call
finds the response to its request at the front of the pipe, or what is no result. -/
theorem results_matched_iff (c : McpConnection) (requests : List Request) :
    (∀ sent ∈ (run (step parseJson jsonError) c requests).2, Matched parseJson sent) ↔
      Allowed (step parseJson jsonError) (FrontAnswers parseJson) c requests :=
  forall_run_iff_allowed _ step_matched_iff c requests

/-- A server that answers at once, in one line, and says nothing else. -/
def Prompt (parseJson : Str → Option Value) (id : UInt64) (w : Wire) : Prop :=
  w.writeError = none ∧ w.readError = none ∧ ∃ line, '\n' ∉ line ∧ w.arrives = line ++ ['\n'] ∧
    ∀ response ∈ readResponse parseJson line, response.error = none → response.id = some id

theorem cut_line {line rest : Str} (h : '\n' ∉ line) :
    cut ['\n'] (line ++ '\n' :: rest) = some (line, rest) := by
  simp [cut, find_notMem h]

/-- As long as the server is prompt, nothing is left in the pipe and each call gets its answer. -/
theorem matched_of_prompt {c : McpConnection} {requests : List Request} (hempty : c.unread = [])
    (h : ∀ i (hi : i < requests.length),
      Prompt parseJson (c.nextId + UInt64.ofNat i) requests[i].wire) :
    ∀ sent ∈ (run (step parseJson jsonError) c requests).2, Matched parseJson sent := by
  rw [forall_run_iff_allowed _ step_matched_iff]
  induction requests generalizing c with
  | nil => trivial
  | cons request requests ih =>
    obtain ⟨hwrite, hread, line, hline, harrives, hid⟩ := h 0 (Nat.zero_lt_succ _)
    have hcut : cut ['\n'] (c.unread ++ request.wire.arrives) = some (line, []) := by
      have hhead : request.wire.arrives = line ++ ['\n'] := harrives
      rw [hempty, hhead, List.nil_append]
      exact cut_line hline
    refine ⟨?_, ih ?_ fun i hi => ?_⟩
    · intro line' hline'
      simp only [waiting, show request.wire.writeError = none from hwrite,
        show request.wire.readError = none from hread, hcut, and_self, if_true] at hline'
      obtain rfl := Option.some.inj hline'
      simpa using hid
    · simp [step, sendRequest, show request.wire.writeError = none from hwrite,
        show request.wire.readError = none from hread, hcut]
    · have hnext : (step parseJson jsonError c request).1.nextId = c.nextId + 1 := by
        simp [step, sendRequest, show request.wire.writeError = none from hwrite,
          show request.wire.readError = none from hread, hcut]
      have hrest := h (i + 1) (Nat.succ_lt_succ hi)
      rw [hnext, UInt64.add_assoc, UInt64.add_comm 1]
      simpa using hrest

end Matching

section Examples

def okJson (id : UInt64) : Value :=
  obj [("id", count id), ("jsonrpc", .string "2.0".toList), ("result", obj [])]

/-- A parser that knows the two answers. -/
def sampleParse (text : Str) : Option Value :=
  if text = (okJson 1).toText then some (okJson 1)
  else if text = (okJson 2).toText then some (okJson 2) else none

def answerLine (id : UInt64) : Str := (okJson id).toText ++ ['\n']

def callTools (arrives : Str) : Request :=
  ⟨"tools/call".toList, none, none, none, arrives, false, 0⟩

/-- The first request times out, and its answer comes before that of the second. -/
def lateAnswer : List Request := [callTools [], callTools (answerLine 1 ++ answerLine 2)]

theorem late_answer_returned :
    ¬ ∀ sent ∈ (run (step sampleParse id) ⟨"files".toList, [], 1, []⟩ lateAnswer).2,
      Matched sampleParse sent := by
  rw [forall_run_iff_allowed _ step_matched_iff]
  decide

end Examples

end Clawreform.Runtime.Mcp
