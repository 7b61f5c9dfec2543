import Clawreform.Runtime.Mcp
import Clawreform.Runtime.ExecPolicyCoverage

namespace Clawreform.Runtime.McpDispatch

open Clawreform.Lib.Text
open Clawreform.Lib.Json (Value)
open Clawreform.Lib.Json.Value
open Clawreform.Types (ToolDefinition)
open Clawreform.Runtime.Mcp
open Clawreform.Runtime.ToolRunner (Context Host runTool otherTool)
open Clawreform.Runtime.ExecPolicyCoverage (toolNames runTool_of_notMem)

section Discovery

variable (toLowercase : Str → Str)

/-- The tools in the answer to `tools/list`. -/
def announced (result : Option Value) : List Value :=
  ((result.bind fun result => result.get "tools".toList).bind asArray).getD []

def rawName (tool : Value) : Str := (tool.index "name").asStr.getD "unnamed".toList

def emptySchema : Value := obj [("type", .string "object".toList)]

def definition (server : Str) (tool : Value) : ToolDefinition where
  name := formatMcpToolName toLowercase server (rawName tool)
  description := "[MCP:".toList ++ server ++ "] ".toList ++
    (tool.index "description").asStr.getD []
  inputSchema := (tool.get "inputSchema".toList).getD emptySchema

def discoverTools (server : Str) (result : Option Value) : List ToolDefinition :=
  (announced result).map (definition toLowercase server)

/-- A connected server and its answer to `tools/list`, from which its tools were made. -/
structure Server extends McpConnection where
  listing : Option Value
  discovered : tools = discoverTools toLowercase name listing

end Discovery

section Calls

variable (toLowercase : Str → Str) (parseJson : Str → Option Value) (jsonError : Str → Str)

def callParams (rawName : Str) (arguments : Value) : Value :=
  obj [("arguments", arguments), ("name", .string rawName)]

def contentText (item : Value) : Option Str :=
  if (item.index "type").asStr = some "text".toList then (item.index "text").asStr else none

def readResult : Option Value → Except Str Str
  | none => .error "No result from MCP tools/call".toList
  | some result =>
    match (result.get "content".toList).bind asArray with
    | some content => .ok (['\n'].intercalate (content.filterMap contentText))
    | none => .ok result.toText

/-- A name without the prefix of the server is sent as it is. -/
def callTool (c : McpConnection) (name : Str) (arguments : Value) (w : Wire) :
    McpConnection × Sent × Except Str Str :=
  let raw := (stripMcpPrefix toLowercase c.name name).getD name
  let r := sendRequest parseJson jsonError c "tools/call".toList (some (callParams raw arguments)) w
  (r.1, r.2, r.2.result.bind readResult)

/-- The connections after a call, what was sent to which of them, and the result. -/
structure Dispatched where
  connections : List McpConnection
  sent : Option (Nat × Sent)
  result : Except Str Str

/-- What `execute_tool` does with a name that starts with `mcp_`. -/
def dispatch (connections : List McpConnection) (name : Str) (input : Value) (w : Wire) :
    Dispatched :=
  match extractMcpServer name with
  | none => ⟨connections, none, .error ("Invalid MCP tool name: ".toList ++ name)⟩
  | some serverName =>
    match connections.zipIdx.find? fun c => c.1.name = serverName with
    | none => ⟨connections, none,
        .error ("MCP server '".toList ++ serverName ++ "' not connected".toList)⟩
    | some (c, i) =>
      let r := callTool toLowercase parseJson jsonError c name input w
      ⟨connections.set i r.1, some (i, r.2.1),
        r.2.2.mapError ("MCP tool call failed: ".toList ++ ·)⟩

end Calls

section Faithful

variable {toLowercase : Str → Str} {parseJson : Str → Option Value} {jsonError : Str → Str}

/-- A call of the tool sends its own name to the server that announced it. -/
def Reaches (toLowercase : Str → Str) (parseJson : Str → Option Value) (jsonError : Str → Str)
    (servers : List (Server toLowercase)) (i : Nat) (tool : Value) (name : Str) : Prop :=
  ∀ input w, ∃ sent,
    (dispatch toLowercase parseJson jsonError (servers.map (·.toMcpConnection)) name input w).sent =
        some (i, sent) ∧
      sent.method = "tools/call".toList ∧ sent.params = some (callParams (rawName tool) input)

/-- Every announced tool is reached under the name under which it is offered, and no name is
offered for two servers. -/
structure Faithful (toLowercase : Str → Str) (parseJson : Str → Option Value)
    (jsonError : Str → Str) (servers : List (Server toLowercase)) : Prop where
  reaches : ∀ (i : Nat) (server : Server toLowercase) (tool : Value),
    servers[i]? = some server → tool ∈ announced server.listing →
    Reaches toLowercase parseJson jsonError servers i tool
      (definition toLowercase server.name tool).name
  apart : ∀ (i j : Nat) (server server' : Server toLowercase), servers[i]? = some server →
    servers[j]? = some server' → ∀ d ∈ server.tools, ∀ d' ∈ server'.tools, d.name = d'.name → i = j

/-- The part of a server's name that calls are dispatched by. -/
def called (toLowercase : Str → Str) (server : Str) : Str :=
  (normalizeName toLowercase server).takeWhile (· ≠ '_')

theorem extract_format (server tool : Str) :
    extractMcpServer (formatMcpToolName toLowercase server tool) =
      some (called toLowercase server) := by
  have hname : formatMcpToolName toLowercase server tool = "mcp_".toList ++
      (normalizeName toLowercase server ++ '_' :: normalizeName toLowercase tool) := by
    delta formatMcpToolName mcpPrefix
    rw [List.append_assoc, List.append_assoc, List.singleton_append]
  have hstrip (rest : Str) : stripPrefix "mcp_".toList ("mcp_".toList ++ rest) = some rest := by
    rw [stripPrefix, if_pos (List.prefix_append _ _), List.drop_left]
  rw [extractMcpServer, hname, hstrip, Option.bind_some, if_pos (by simp), called]
  congr 1
  induction normalizeName toLowercase server with
  | nil => simp
  | cons c s ih => by_cases hc : c = '_' <;> simp_all

theorem strip_format (server tool : Str) :
    stripMcpPrefix toLowercase server (formatMcpToolName toLowercase server tool) =
      some (normalizeName toLowercase tool) := by
  rw [stripMcpPrefix, formatMcpToolName, stripPrefix, if_pos (List.prefix_append _ _),
    List.drop_left]

theorem callParams_inj {raw raw' : Str} {input : Value} :
    callParams raw input = callParams raw' input ↔ raw = raw' := by
  simp [callParams, obj]

/-- A name is looked up by the first server that has it. -/
theorem find_iff {connections : List McpConnection} {i : Nat} {c : McpConnection} {name : Str}
    (hc : connections[i]? = some c) :
    (connections.zipIdx.find? fun c => c.1.name = name) = some (c, i) ↔
      c.name = name ∧ ∀ j < i, ∀ earlier, connections[j]? = some earlier → earlier.name ≠ name := by
  obtain ⟨hi, rfl⟩ := List.getElem?_eq_some_iff.mp hc
  rw [List.find?_eq_some_iff_getElem]
  constructor
  · rintro ⟨hname, k, hk, hget, hbefore⟩
    rw [List.getElem_zipIdx, Prod.mk.injEq, Nat.zero_add] at hget
    obtain ⟨-, rfl⟩ := hget
    refine ⟨by simpa using hname, fun j hj earlier hearlier => ?_⟩
    obtain ⟨hj', rfl⟩ := List.getElem?_eq_some_iff.mp hearlier
    simpa [List.getElem_zipIdx] using hbefore j hj
  · rintro ⟨hname, hbefore⟩
    refine ⟨by simpa using hname, i, by simpa using hi, by simp [List.getElem_zipIdx], ?_⟩
    intro j hj
    have hj' : j < connections.length := hj.trans hi
    simpa [List.getElem_zipIdx] using hbefore j hj _ (List.getElem?_eq_getElem hj')

variable {servers : List (Server toLowercase)} {i : Nat} {server : Server toLowercase}

/-- A server whose calls come to it: no other has its name in front of it, and the name is what
calls are dispatched by. -/
def Addressed (servers : List (Server toLowercase)) (i : Nat) (server : Server toLowercase) :
    Prop :=
  server.name = called toLowercase server.name ∧
    ∀ j < i, ∀ earlier, servers[j]? = some earlier → earlier.name ≠ server.name

theorem find_server_iff (hserver : servers[i]? = some server) :
    ((servers.map (·.toMcpConnection)).zipIdx.find? fun c =>
        c.1.name = called toLowercase server.name) = some (server.toMcpConnection, i) ↔
      Addressed servers i server := by
  rw [find_iff (by rw [List.getElem?_map, hserver, Option.map_some]), Addressed]
  constructor
  · rintro ⟨hname, hbefore⟩
    refine ⟨hname, fun j hj earlier hearlier => ?_⟩
    rw [hname]
    exact hbefore j hj _ (by rw [List.getElem?_map, hearlier, Option.map_some])
  · rintro ⟨hname, hbefore⟩
    refine ⟨hname, fun j hj c hc => ?_⟩
    rw [List.getElem?_map] at hc
    obtain ⟨earlier, hearlier, rfl⟩ := Option.map_eq_some_iff.mp hc
    rw [← hname]
    exact hbefore j hj earlier hearlier

theorem sendRequest_request (c : McpConnection) (method : Str) (params : Option Value) (w : Wire) :
    (sendRequest parseJson jsonError c method params w).2.method = method ∧
      (sendRequest parseJson jsonError c method params w).2.params = params := by
  obtain ⟨message, hsent⟩ := @sendRequest_sent parseJson jsonError c method params w
  simp [hsent]

/-- A tool is reached exactly when its server is and its own name is a normal one. -/
theorem reaches_iff (hserver : servers[i]? = some server) (tool : Value) :
    Reaches toLowercase parseJson jsonError servers i tool
        (definition toLowercase server.name tool).name ↔
      Addressed servers i server ∧ normalizeName toLowercase (rawName tool) = rawName tool := by
  have hname : (definition toLowercase server.name tool).name =
      formatMcpToolName toLowercase server.name (rawName tool) := rfl
  rw [hname, ← find_server_iff hserver]
  constructor
  · intro h
    obtain ⟨sent, hsent, -, hparams⟩ := h .null ⟨none, none, [], false, 0⟩
    simp only [dispatch, extract_format] at hsent
    cases hfind : (servers.map (·.toMcpConnection)).zipIdx.find? fun c =>
        c.1.name = called toLowercase server.name with
    | none => simp [hfind] at hsent
    | some found =>
      obtain ⟨c, k⟩ := found
      simp only [hfind, callTool, Option.some.injEq, Prod.mk.injEq] at hsent
      obtain ⟨rfl, rfl⟩ := hsent
      have hc : c = server.toMcpConnection := by
        obtain ⟨-, j, hj, hget, -⟩ := List.find?_eq_some_iff_getElem.mp hfind
        rw [List.getElem_zipIdx, Prod.mk.injEq, Nat.zero_add] at hget
        obtain ⟨rfl, rfl⟩ := hget
        have hmap : (servers.map (·.toMcpConnection))[j]? = some server.toMcpConnection := by
          rw [List.getElem?_map, hserver, Option.map_some]
        exact (List.getElem?_eq_some_iff.mp hmap).2
      subst hc
      rw [(sendRequest_request _ _ _ _).2, strip_format, Option.getD_some, Option.some.injEq,
        callParams_inj] at hparams
      exact ⟨rfl, hparams⟩
  · rintro ⟨hfind, hnormal⟩ input w
    refine ⟨_, by simp only [dispatch, extract_format, hfind, callTool]; rfl, ?_, ?_⟩
    · exact (sendRequest_request _ _ _ _).1
    · rw [(sendRequest_request _ _ _ _).2, strip_format, Option.getD_some, hnormal]

/-- The dispatch is faithful exactly when the name of every server that announces a tool is in
lower case, without hyphens and underscores, and taken by no server in front of it, and the tools'
names are in lower case and without hyphens. -/
theorem dispatch_faithful_iff (servers : List (Server toLowercase)) :
    Faithful toLowercase parseJson jsonError servers ↔
      ∀ (i : Nat) (server : Server toLowercase) (tool : Value), servers[i]? = some server →
        tool ∈ announced server.listing →
          Addressed servers i server ∧ normalizeName toLowercase (rawName tool) = rawName tool := by
  constructor
  · intro h i server tool hserver htool
    exact (reaches_iff hserver tool).mp (h.reaches i server tool hserver htool)
  · intro h
    have hreaches (i : Nat) (server : Server toLowercase) (tool : Value)
        (hserver : servers[i]? = some server) (htool : tool ∈ announced server.listing) :
        Reaches toLowercase parseJson jsonError servers i tool
          (definition toLowercase server.name tool).name :=
      (reaches_iff hserver tool).mpr (h i server tool hserver htool)
    refine ⟨hreaches, ?_⟩
    intro i j server server' hserver hserver' d hd d' hd' hsame
    rw [server.discovered, discoverTools] at hd
    rw [server'.discovered, discoverTools] at hd'
    obtain ⟨tool, htool, rfl⟩ := List.mem_map.mp hd
    obtain ⟨tool', htool', rfl⟩ := List.mem_map.mp hd'
    obtain ⟨sent, hsent, -⟩ := hreaches i server tool hserver htool .null ⟨none, none, [], false, 0⟩
    obtain ⟨sent', hsent', -⟩ :=
      hreaches j server' tool' hserver' htool' .null ⟨none, none, [], false, 0⟩
    rw [hsame, hsent'] at hsent
    exact (Prod.mk.inj (Option.some.inj hsent)).1.symm

end Faithful

section Fallback

theorem toolNames_spelled : ∃ names, Spelled (toolNames.map fun name => (name, ())) names ∧
    ∀ e ∈ names, ¬ "mcp_".toList <+: e.1 := by
  apply Exists.intro
  apply And.intro
  · repeat apply spelled_cons
    exact spelled_nil
  · rw [String.toList_ofList]
    decide +kernel

/-- No tool of the runtime itself and no skill gets a name that starts with `mcp_`. -/
theorem runTool_mcp (w : ToolRunner.World) (ctx : Context) (host : Host) (input : Value)
    {name : String} (h : isMcpTool name.toList) :
    runTool w ctx host input name = host.quiet (w.answer name input) := by
  have hprefix : "mcp_".toList <+: name.toList := List.isPrefixOf_iff_prefix.mp h
  have hname : name ∉ toolNames := by
    intro hmem
    obtain ⟨names, hspelled, hnames⟩ := toolNames_spelled
    exact hnames _ (hspelled.mem_toList (List.mem_map.mpr ⟨name, hmem, rfl⟩)) hprefix
  rw [runTool_of_notMem hname, otherTool, if_pos hprefix]

end Fallback

section Examples

/-- Lower case for the letters of ASCII. -/
def lower (s : Str) : Str := s.map Char.toLower

def searchTool : Value := obj [("name", .string "search".toList)]

def serverOf (name : String) : Server lower where
  name := name.toList
  tools := discoverTools lower name.toList (some (obj [("tools", .array [searchTool])]))
  nextId := 3
  unread := []
  listing := some (obj [("tools", .array [searchTool])])
  discovered := rfl

/-- The calls of a server with a hyphen in its name are looked up under the part in front of
it. -/
theorem hyphen_not_reached : ¬ Faithful lower (fun _ => none) id [serverOf "my-server"] := by
  intro h
  obtain ⟨sent, hsent, -⟩ := h.reaches 0 (serverOf "my-server") searchTool rfl
    (List.mem_singleton.mpr rfl) .null ⟨none, none, [], false, 0⟩
  have hnone : (dispatch lower (fun _ => none) id [(serverOf "my-server").toMcpConnection]
      (definition lower "my-server".toList searchTool).name .null
        ⟨none, none, [], false, 0⟩).sent = none := by decide
  cases hnone.symm.trans hsent

end Examples

end Clawreform.Runtime.McpDispatch
