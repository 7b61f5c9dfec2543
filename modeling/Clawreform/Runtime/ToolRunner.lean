import Clawreform.Runtime.Processes
import Clawreform.Runtime.Ssrf
import Clawreform.Runtime.SubprocessSandbox
import Clawreform.Skills.Registry
import Clawreform.Types.Message

namespace Clawreform.Runtime.ToolRunner

open Clawreform.Lib Clawreform.Lib.Text
open Clawreform.Lib.Json (Value)
open Clawreform.Types (ToolResult)
open Clawreform.Skills (InstalledSkill SkillPath SkillRuntime)
open Clawreform.Runtime.Processes
open Clawreform.Runtime.Ssrf (Dns checkSsrf)
open Clawreform.Runtime.SubprocessSandbox (ExecPolicy ExecSecurityMode validateCommandAllowlist)

section State

structure DockerSandboxConfig where
  enabled : Bool
  image : Str
  containerPrefix : Str
  workdir : Str
  network : Str
  memoryLimit : Str
  cpuLimit : Str
  readOnlyRoot : Bool
  capAdd : List Str
  tmpfs : List Str
  pidsLimit : Nat

structure BrowserConfig where
  headless : Bool
  viewportWidth : Nat
  viewportHeight : Nat
  timeoutSecs : Nat
  maxSessions : Nat
  pythonPath : Str

/-- What the kernel answers; a message to another agent may start processes in its turn. -/
structure KernelHandle where
  requiresApproval : String → Bool
  requestApproval : Str → String → Str → Except Str Bool
  sendToAgent : Str → Str → Except Str Str × List Process

/-- What a call is given besides its name and input. -/
structure Context where
  kernel : Option KernelHandle
  allowedTools : Option (List String)
  callerAgentId : Option Str
  skills : Option (List InstalledSkill)
  browser : Option BrowserConfig
  workspaceRoot : Option Str
  execPolicy : Option ExecPolicy
  docker : Option DockerSandboxConfig
  callDepth : Nat

/-- What lasts from one call to the next. -/
structure Host where
  processManager : Option ProcessManager
  browserSessions : List Str

/-- What the system, the network and the tools that start no process answer. -/
structure World where
  system : System
  dns : Dns
  toLowercase : Str → Str
  isAlphanumeric : Char → Bool
  answer : String → Value → Except Str Str
  shellOutput : Str → Except Str Str
  pid : Nat
  stderr : Process → Str
  containerId : Str
  inContainer : Str → Str → Except Str Str
  bridgeScript : Except Str Str
  ready : Except Str Unit
  browse : String → Value → Except Str Str
  scriptExists : Option SkillPath → Str → Bool
  scriptPath : Option SkillPath → Str → Str
  runScript : Process → Value → Except Str Str

/-- How a tool ends: its text and whether that is an error, or nothing when it panics. -/
structure Ran where
  value : Option (Str × Bool)
  host : Host
  started : List Process

def answerOf : Except Str Str → Str × Bool
  | .ok content => (content, false)
  | .error e => ("Error: ".toList ++ e, true)

/-- End without a process. -/
def Host.quiet (host : Host) (result : Except Str Str) : Ran := ⟨some (answerOf result), host, []⟩

def missing (name : String) : Str := "Missing '".toList ++ name.toList ++ "' parameter".toList

def Context.agentId (ctx : Context) : Str := ctx.callerAgentId.getD "default".toList

end State

section Gate

/-- A summary is cut after two hundred bytes, which panics within a character. -/
def approvalSummary (name : String) (input : Value) : Option Str :=
  let text := input.toText
  (splitBytes (min (byteLen text) 200) text).map fun cut => name.toList ++ ": ".toList ++ cut.1

def approvalGate (ctx : Context) (name : String) (input : Value) : Option (Except Str Unit) :=
  match ctx.kernel with
  | none => some (.ok ())
  | some kernel =>
    if !kernel.requiresApproval name then some (.ok ())
    else
      (approvalSummary name input).map fun summary =>
        match kernel.requestApproval (ctx.callerAgentId.getD "unknown".toList) name summary with
        | .ok true => .ok ()
        | .ok false =>
          .error ("Execution denied: '".toList ++ name.toList ++ ("' requires human approval " ++
            "and was denied or timed out. The operation was not performed.").toList)
        | .error e => .error ("Approval system error: ".toList ++ e)

/-- Whether a call may go on; nothing when the gate panics. -/
def gate (ctx : Context) (name : String) (input : Value) : Option (Except Str Unit) :=
  match ctx.allowedTools with
  | none => approvalGate ctx name input
  | some allowed =>
    if allowed.contains name then approvalGate ctx name input
    else some (.error ("Permission denied: agent does not have capability to use tool '".toList ++
      name.toList ++ "'".toList))

def violation (label sink : String) : Str :=
  ("taint violation: label '" ++ label ++ "' from source 'llm_tool_call' is not allowed to " ++
    "reach sink '" ++ sink ++ "'").toList

def suspiciousPatterns : List String :=
  ["curl ", "wget ", "| sh", "| bash", "base64 -d", "$(curl", "\x60curl", "eval "]

/-- The log line of a violation is cut after eighty bytes, which panics within a character. -/
def checkTaintShellExec (command : Str) : Option (Option Str) :=
  if suspiciousPatterns.any (containsText command) then
    (splitBytes (min (byteLen command) 80) command).map fun _ =>
      some (violation "ExternalNetwork" "shell_exec")
  else some none

def exfilPatterns : List String :=
  ["api_key=", "apikey=", "token=", "secret=", "password=", "authorization:"]

def checkTaintNetFetch (toLowercase : Str → Str) (url : Str) : Option (Option Str) :=
  if exfilPatterns.any (containsText (toLowercase url)) then
    (splitBytes (min (byteLen url) 80) url).map fun _ => some (violation "Secret" "net_fetch")
  else some none

end Gate

section Tools

variable (w : World) (ctx : Context) (host : Host) (input : Value)

def toolShellExec : Ran :=
  match (input.index "command").asStr with
  | none => host.quiet (.error (missing "command"))
  | some command =>
    let p : Process := ⟨command, "sh".toList, ["-c".toList, command]⟩
    if w.system.starts p.program then ⟨some (answerOf (w.shellOutput command)), host, [p]⟩
    else host.quiet (.error ("Failed to execute command: ".toList ++ w.stderr p))

def Host.refused (host : Host) (message : Str) : Ran := ⟨some (message, true), host, []⟩

def execPolicyCheck (policy : Option ExecPolicy) (command : Str) : Option (Except Str Unit) :=
  match policy with
  | none => some (.ok ())
  | some policy => validateCommandAllowlist command policy

def isFullExec (policy : Option ExecPolicy) : Bool := policy.any fun p => p.mode = .full

def shellExec : Ran :=
  let command := ((input.index "command").asStr).getD []
  match execPolicyCheck ctx.execPolicy command with
  | none => ⟨none, host, []⟩
  | some (.error reason) => host.refused ("Exec policy denied: ".toList ++ reason)
  | some (.ok ()) =>
    if isFullExec ctx.execPolicy then toolShellExec w host input
    else
      match checkTaintShellExec command with
      | none => ⟨none, host, []⟩
      | some (some v) => host.refused ("Taint violation: ".toList ++ v)
      | some none => toolShellExec w host input

def toolProcessStart : Ran :=
  match host.processManager with
  | none => host.quiet (.error "Process manager not available".toList)
  | some pm =>
    match (input.index "command").asStr with
    | none => host.quiet (.error (missing "command"))
    | some command =>
      let args := ((input.index "args").asArray.getD []).filterMap Value.asStr
      let r := pm.start w.system ctx.agentId command args w.pid
      ⟨some (answerOf (r.1.map fun id =>
          (Value.obj [("process_id", .string id), ("status", .string "started".toList)]).toText)),
        { host with processManager := some r.2.1 }, r.2.2⟩

def toolProcessKill : Ran :=
  match host.processManager with
  | none => host.quiet (.error "Process manager not available".toList)
  | some pm =>
    match (input.index "process_id").asStr with
    | none => host.quiet (.error (missing "process_id"))
    | some id =>
      let r := pm.kill w.system id
      ⟨some (answerOf (r.1.map fun _ => "\x7b\"status\": \"killed\"\x7d".toList)),
        { host with processManager := some r.2.1 }, r.2.2⟩

def sanitizeContainerName (name : Str) : Except Str Str :=
  let sanitized := name.map fun c => if w.isAlphanumeric c ∨ c = '-' then c else '-'
  if sanitized = [] then .error "Container name cannot be empty".toList
  else if 63 < byteLen sanitized then .error "Container name too long (max 63 chars)".toList
  else .ok sanitized

def validateImageName (image : Str) : Except Str Unit :=
  if image = [] then .error "Docker image name cannot be empty".toList
  else if image.all (fun c => w.isAlphanumeric c || ".:/-_".toList.contains c) then .ok ()
  else .error ("Invalid Docker image name: ".toList ++ image)

def validateCommand (command : Str) : Except Str Unit :=
  if command = [] then .error "Command cannot be empty".toList
  else
    match ["\x60", "$(", "$\x7b"].find? (containsText command) with
    | some pattern => .error ("Command contains disallowed pattern '".toList ++ pattern.toList ++
        "' — potential injection".toList)
    | none => .ok ()

def docker (args : List Str) : Process := .direct "docker".toList args

def dockerVersion : Process :=
  docker ["version".toList, "--format".toList, "\x7b\x7b.Server.Version\x7d\x7d".toList]

def dockerRun (config : DockerSandboxConfig) (name workspace : Str) : Process :=
  docker (["run", "-d", "--name"].map String.toList ++ [name, "--memory".toList,
    config.memoryLimit, "--cpus".toList, config.cpuLimit, "--pids-limit".toList,
    showNat config.pidsLimit] ++ ["--cap-drop", "ALL", "--security-opt",
    "no-new-privileges"].map String.toList ++
    (config.capAdd.filter (·.all fun c => w.isAlphanumeric c || c = '_')).flatMap
      (fun cap => ["--cap-add".toList, cap]) ++
    (if config.readOnlyRoot then ["--read-only".toList] else []) ++
    ["--network".toList, config.network] ++
    config.tmpfs.flatMap (fun mount => ["--tmpfs".toList, mount]) ++
    ["-v".toList, workspace ++ ':' :: (config.workdir ++ ":ro".toList), "-w".toList,
      config.workdir, config.image, "sleep".toList, "infinity".toList])

/-- The name is made of the first eight bytes of the agent's, which panics within a character. -/
def createSandbox (config : DockerSandboxConfig) (agentId workspace : Str) :
    Option (Except Str Str) × List Process :=
  match validateImageName w config.image with
  | .error e => (some (.error e), [])
  | .ok () =>
    match splitBytes (min (byteLen agentId) 8) agentId with
    | none => (none, [])
    | some cut =>
      match sanitizeContainerName w (config.containerPrefix ++ '-' :: cut.1) with
      | .error e => (some (.error e), [])
      | .ok name =>
        let p := dockerRun w config name workspace
        let r := w.system.run p
        (some (if r.1 then .ok w.containerId
          else .error ("Docker create failed: ".toList ++ w.stderr p)), r.2)

def execInSandbox (containerId command : Str) : Except Str Str × List Process :=
  match validateCommand command with
  | .error e => (.error e, [])
  | .ok () =>
    (w.inContainer containerId command, (w.system.run (docker
      ["exec".toList, containerId, "sh".toList, "-c".toList, command])).2)

def destroySandbox (containerId : Str) : List Process :=
  (w.system.run (docker ["rm".toList, "-f".toList, containerId])).2

def toolDockerExec : Ran :=
  match ctx.docker with
  | none => host.quiet (.error "Docker sandbox not configured".toList)
  | some config =>
    if !config.enabled then
      host.quiet (.error "Docker sandbox is disabled. Set docker.enabled=true in config.".toList)
    else
      match (input.index "command").asStr with
      | none => host.quiet (.error (missing "command"))
      | some command =>
        match ctx.workspaceRoot with
        | none => host.quiet (.error "Docker exec requires a workspace directory".toList)
        | some workspace =>
          let available := w.system.run dockerVersion
          if !available.1 then
            ⟨some (answerOf (.error ("Docker is not available on this system. Install Docker to " ++
              "use docker_exec.").toList)), host, available.2⟩
          else
            let created := createSandbox w config ctx.agentId workspace
            match created.1 with
            | none => ⟨none, host, available.2 ++ created.2⟩
            | some (.error e) => ⟨some (answerOf (.error e)), host, available.2 ++ created.2⟩
            | some (.ok containerId) =>
              let result := execInSandbox w containerId command
              ⟨some (answerOf result.1), host, available.2 ++ (created.2 ++
                (result.2 ++ destroySandbox w containerId))⟩

def bridge (config : BrowserConfig) (script : Str) : Process :=
  .direct config.pythonPath [script,
    if config.headless then "--headless".toList else "--no-headless".toList, "--width".toList,
    showNat config.viewportWidth, "--height".toList, showNat config.viewportHeight,
    "--timeout".toList, showNat config.timeoutSecs]

def getOrCreateSession (config : BrowserConfig) (agentId : Str) :
    Except Str Unit × Host × List Process :=
  if agentId ∈ host.browserSessions then (.ok (), host, [])
  else if config.maxSessions ≤ host.browserSessions.length then
    (.error ("Maximum browser sessions reached (".toList ++ showNat config.maxSessions ++
      "). Close an existing session first.".toList), host, [])
  else
    match w.bridgeScript with
    | .error e => (.error e, host, [])
    | .ok script =>
      let p := bridge config script
      if !w.system.starts p.program then
        (.error ("Failed to spawn browser bridge: ".toList ++ w.stderr p ++
          ". Ensure Python and playwright are installed.".toList), host, [])
      else
        match w.ready with
        | .error e => (.error e, host, [p])
        | .ok () => (.ok (), { host with browserSessions := agentId :: host.browserSessions }, [p])

/-- The browser tools that need a session, each with the parameters it asks for. -/
def browserCommand (required : List String) (name : String) : Ran :=
  match ctx.browser with
  | none => host.quiet (.error "Browser tools not available.".toList)
  | some config =>
    match required.find? fun p => ((input.index p).asStr).isNone with
    | some p => host.quiet (.error (missing p))
    | none =>
      let r := getOrCreateSession w host config ctx.agentId
      ⟨some (answerOf (r.1.bind fun _ => w.browse name input)), r.2.1, r.2.2⟩

def toolBrowserClick : Ran := browserCommand w ctx host input ["selector"] "browser_click"

def toolBrowserType : Ran := browserCommand w ctx host input ["selector", "text"] "browser_type"

def toolBrowserScreenshot : Ran := browserCommand w ctx host input [] "browser_screenshot"

def toolBrowserReadPage : Ran := browserCommand w ctx host input [] "browser_read_page"

def toolBrowserNavigate : Ran :=
  match checkTaintNetFetch w.toLowercase (((input.index "url").asStr).getD []) with
  | none => ⟨none, host, []⟩
  | some (some v) => host.refused ("Taint violation: ".toList ++ v)
  | some none =>
    match ctx.browser with
    | none =>
      host.quiet (.error
        "Browser tools not available. Ensure Python and playwright are installed.".toList)
    | some config =>
      match (input.index "url").asStr with
      | none => host.quiet (.error (missing "url"))
      | some url =>
        match checkSsrf w.dns url with
        | .error e => host.quiet (.error e)
        | .ok () =>
          let r := getOrCreateSession w host config ctx.agentId
          ⟨some (answerOf (r.1.bind fun _ => w.browse "browser_navigate" input)), r.2.1, r.2.2⟩

def toolBrowserClose : Ran :=
  match ctx.browser with
  | none => host.quiet (.error "Browser tools not available.".toList)
  | some _ =>
    { host with browserSessions := host.browserSessions.erase ctx.agentId }.quiet
      (.ok "Browser session closed.".toList)

def webFetch : Ran :=
  match checkTaintNetFetch w.toLowercase (((input.index "url").asStr).getD []) with
  | none => ⟨none, host, []⟩
  | some (some v) => host.refused ("Taint violation: ".toList ++ v)
  | some none => host.quiet (w.answer "web_fetch" input)

def toolAgentSend : Ran :=
  match ctx.kernel with
  | none => host.quiet (.error
      "Kernel handle not available. Inter-agent tools require a running kernel.".toList)
  | some kernel =>
    match (input.index "agent_id").asStr with
    | none => host.quiet (.error (missing "agent_id"))
    | some agentId =>
      match (input.index "message").asStr with
      | none => host.quiet (.error (missing "message"))
      | some message =>
        if 5 ≤ ctx.callDepth then
          host.quiet (.error ("Inter-agent call depth exceeded (max 5). A->B->C chain is too " ++
            "deep. Use the task queue instead.").toList)
        else
          let r := kernel.sendToAgent agentId message
          ⟨some (answerOf r.1), host, r.2⟩

/-- Try one program after the other, by asking for its version. -/
def findProgram : List Str → Option Str × List Process
  | [] => (none, [])
  | name :: names =>
    if w.system.starts name then (some name, [.direct name ["--version".toList]])
    else findProgram names

/-- Run the script of a skill with the first of some programs that is there. -/
def executeScript (kind unavailable : String) (programs : List Str) (skill : InstalledSkill) :
    Except Str Str × List Process :=
  if !w.scriptExists skill.path skill.manifest.entry then
    (.error ("Skill execution failed: ".toList ++ kind.toList ++ " script not found: ".toList ++
      w.scriptPath skill.path skill.manifest.entry), [])
  else
    match findProgram w programs with
    | (none, started) => (.error ("Runtime not available: ".toList ++ unavailable.toList), started)
    | (some program, started) =>
      let p : Process := .direct program [w.scriptPath skill.path skill.manifest.entry]
      (w.runScript p input, started ++ [p])

def executePython (skill : InstalledSkill) : Except Str Str × List Process :=
  executeScript w input "Python" "Python not found. Install Python 3.8+ to run Python skills."
    ["python3".toList, "python".toList] skill

def executeNode (skill : InstalledSkill) : Except Str Str × List Process :=
  executeScript w input "Node.js" "Node.js not found. Install Node.js 18+ to run Node skills."
    ["node".toList] skill

def executeSkillTool (skill : InstalledSkill) (name : Str) : Except Str Str × List Process :=
  if !skill.manifest.tools.any (·.name = name) then
    (.error ("Skill not found: Tool ".toList ++ name ++ " not in skill manifest".toList), [])
  else
    match skill.manifest.runtimeType with
    | .python => executePython w input skill
    | .node => executeNode w input skill
    | .wasm => (.error ("Runtime not available: WASM skill runtime not yet " ++
        "implemented").toList, [])
    | .builtin => (.error ("Runtime not available: Builtin skills are handled by the kernel " ++
        "directly").toList, [])
    | .promptOnly => (.ok (Value.obj [("note", .string ("Prompt-context skill — instructions " ++
        "are in your system prompt. Use built-in tools directly.").toList)]).toText, [])

def findToolProvider (skills : List InstalledSkill) (name : Str) : Option InstalledSkill :=
  skills.find? fun s => s.enabled && s.manifest.tools.any (·.name = name)

def unknownTool (name : String) : Str := "Unknown tool: ".toList ++ name.toList

/-- A name that is no built-in tool's: a tool of an external server, or of a skill. -/
def otherTool (name : String) : Ran :=
  if "mcp_".toList <+: name.toList then host.quiet (w.answer name input)
  else
    match ctx.skills with
    | none => host.quiet (.error (unknownTool name))
    | some skills =>
      match findToolProvider skills name.toList with
      | none => host.quiet (.error (unknownTool name))
      | some skill =>
        let r := executeSkillTool w input skill name.toList
        ⟨some (answerOf (r.1.mapError ("Skill execution failed: ".toList ++ ·))), host, r.2⟩

/-- The built-in tools that start no process. -/
def quietTools : List String :=
  ["file_read", "file_write", "file_list", "apply_patch", "web_search", "agent_spawn",
    "agent_list", "agent_kill", "memory_store", "memory_recall", "agent_find", "task_post",
    "task_claim", "task_complete", "task_list", "event_publish", "schedule_create",
    "schedule_list", "schedule_delete", "knowledge_add_entity", "knowledge_add_relation",
    "knowledge_query", "image_analyze", "media_describe", "media_transcribe", "image_generate",
    "text_to_speech", "speech_to_text", "location_get", "cron_create", "cron_list",
    "cron_cancel", "channel_send", "process_poll", "process_write", "process_list", "hand_list",
    "hand_activate", "hand_status", "hand_deactivate", "a2a_discover", "a2a_send",
    "canvas_present"]

def runTool (name : String) : Ran :=
  match name with
  | "web_fetch" => webFetch w host input
  | "shell_exec" => shellExec w ctx host input
  | "agent_send" => toolAgentSend ctx host input
  | "docker_exec" => toolDockerExec w ctx host input
  | "process_start" => toolProcessStart w ctx host input
  | "process_kill" => toolProcessKill w host input
  | "browser_navigate" => toolBrowserNavigate w ctx host input
  | "browser_click" => toolBrowserClick w ctx host input
  | "browser_type" => toolBrowserType w ctx host input
  | "browser_screenshot" => toolBrowserScreenshot w ctx host input
  | "browser_read_page" => toolBrowserReadPage w ctx host input
  | "browser_close" => toolBrowserClose ctx host
  | name =>
    if quietTools.contains name then host.quiet (w.answer name input)
    else otherTool w ctx host input name

/-- The result, what lasts, and the processes that were started. -/
def executeTool (toolUseId : Str) (name : String) : Option ToolResult × Host × List Process :=
  match gate ctx name input with
  | none => (none, host, [])
  | some (.error message) => (some ⟨toolUseId, message, true⟩, host, [])
  | some (.ok ()) =>
    let r := runTool w ctx host input name
    (r.value.map fun v => ⟨toolUseId, v.1, v.2⟩, r.host, r.started)

end Tools

end Clawreform.Runtime.ToolRunner
