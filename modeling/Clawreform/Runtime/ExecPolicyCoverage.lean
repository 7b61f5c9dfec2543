import Clawreform.Runtime.ToolRunner

namespace Clawreform.Runtime.ExecPolicyCoverage

open Clawreform.Lib Clawreform.Lib.Text
open Clawreform.Lib.Json (Value)
open Clawreform.Skills (InstalledSkill SkillRuntime)
open Clawreform.Runtime.Processes Clawreform.Runtime.ToolRunner
open Clawreform.Runtime.Ssrf (checkSsrf)
open Clawreform.Runtime.SubprocessSandbox (ExecPolicy validateCommandAllowlist)

section Purpose

/-- A command may be run: never when the policy denies, and by the list when it has one. -/
def Permits (policy : ExecPolicy) (command : Str) : Prop :=
  policy.mode ≠ .deny ∧
    (policy.mode = .allowlist → validateCommandAllowlist command policy = some (.ok ()))

def Obeys (policy : ExecPolicy) (started : List Process) : Prop :=
  (policy.mode = .deny → started = []) ∧
    (policy.mode = .allowlist →
      ∀ p ∈ started, validateCommandAllowlist p.command policy = some (.ok ()))

def under (ctx : Context) (policy : ExecPolicy) : Context := { ctx with execPolicy := some policy }

def skillPrograms : SkillRuntime → List Str
  | .python => ["python3".toList, "python".toList]
  | .node => ["node".toList]
  | _ => []

variable (w : ToolRunner.World) (ctx : Context) (host : Host) (input : Value)

/-- The call has what the browser tool of that name needs before it opens a session. -/
def AsksForSession : String → Prop
  | "browser_navigate" => ∃ url, (input.index "url").asStr = some url ∧
      checkTaintNetFetch w.toLowercase url = some none ∧ checkSsrf w.dns url = .ok ()
  | "browser_click" => ((input.index "selector").asStr).isSome
  | "browser_type" => ((input.index "selector").asStr).isSome ∧ ((input.index "text").asStr).isSome
  | "browser_screenshot" => True
  | "browser_read_page" => True
  | _ => False

def toolNames : List String :=
  ["web_fetch", "shell_exec", "agent_send", "docker_exec", "process_start", "process_kill",
    "browser_navigate", "browser_click", "browser_type", "browser_screenshot",
    "browser_read_page", "browser_close"] ++ quietTools

/-- The ways to a process that do not ask the policy, each with the command it runs. -/
inductive Bypass : String → Str → Prop where
  | processStart {pm : ProcessManager} {command : Str} (hpm : host.processManager = some pm)
      (hcommand : (input.index "command").asStr = some command)
      (hroom : pm.agentCount ctx.agentId < pm.maxPerAgent)
      (hstarts : w.system.starts command = true) : Bypass "process_start" command
  | processKill {pm : ProcessManager} {id : Str} {proc : ManagedProcess}
      (hpm : host.processManager = some pm) (hid : (input.index "process_id").asStr = some id)
      (hproc : pm.processes.lookup id = some proc) (halive : proc.exited = false)
      (hstarts : w.system.starts "kill".toList = true) : Bypass "process_kill" "kill".toList
  | dockerExec {config : DockerSandboxConfig} {command workspace : Str}
      (hconfig : ctx.docker = some config) (henabled : config.enabled = true)
      (hcommand : (input.index "command").asStr = some command)
      (hworkspace : ctx.workspaceRoot = some workspace)
      (hstarts : w.system.starts "docker".toList = true) : Bypass "docker_exec" "docker".toList
  | browser {name : String} {config : BrowserConfig} {script : Str}
      (hconfig : ctx.browser = some config) (hasks : AsksForSession w input name)
      (hnew : ctx.agentId ∉ host.browserSessions)
      (hroom : host.browserSessions.length < config.maxSessions)
      (hscript : w.bridgeScript = .ok script)
      (hstarts : w.system.starts config.pythonPath = true) : Bypass name config.pythonPath
  | skill {name : String} {skills : List InstalledSkill} {skill : InstalledSkill} {program : Str}
      (hname : name ∉ toolNames) (hmcp : ¬ "mcp_".toList <+: name.toList)
      (hskills : ctx.skills = some skills)
      (hskill : findToolProvider skills name.toList = some skill)
      (hscript : w.scriptExists skill.path skill.manifest.entry = true)
      (hprogram : (skillPrograms skill.manifest.runtimeType).find? w.system.starts = some program) :
      Bypass name program
  | agentSend {kernel : KernelHandle} {agentId message : Str} {p : Process}
      (hkernel : ctx.kernel = some kernel) (hid : (input.index "agent_id").asStr = some agentId)
      (hmessage : (input.index "message").asStr = some message) (hdepth : ctx.callDepth < 5)
      (hp : p ∈ (kernel.sendToAgent agentId message).2) : Bypass "agent_send" p.command

end Purpose

section Tools

variable {w : ToolRunner.World} {ctx : Context} {host : Host} {input : Value} {command : Str}
variable {p : Process}
  {policy : ExecPolicy}

theorem obeys_iff_permits {started : List Process} :
    Obeys policy started ↔ ∀ p ∈ started, Permits policy p.command := by
  constructor
  · intro h p hp
    refine ⟨fun hdeny => ?_, fun hlist => h.2 hlist p hp⟩
    rw [h.1 hdeny] at hp
    cases hp
  · intro h
    refine ⟨fun hdeny => ?_, fun hlist p hp => (h p hp).2 hlist⟩
    rw [List.eq_nil_iff_forall_not_mem]
    exact fun p hp => (h p hp).1 hdeny

/-- Some process is started for the command. -/
def Runs (r : Ran) (command : Str) : Prop := ∃ p ∈ r.started, p.command = command

@[simp] theorem not_runs_quiet {result : Except Str Str} : ¬ Runs (host.quiet result) command := by
  simp [Runs, Host.quiet]

@[simp] theorem not_runs_refused {message : Str} : ¬ Runs (host.refused message) command := by
  simp [Runs, Host.refused]

@[simp] theorem not_runs_nil {v : Option (Str × Bool)} : ¬ Runs ⟨v, host, []⟩ command := by
  simp [Runs]

theorem command_of_toolShellExec (hp : p ∈ (toolShellExec w host input).started) :
    p.command = ((input.index "command").asStr).getD [] := by
  rw [toolShellExec] at hp
  cases hinput : (input.index "command").asStr with
  | none => simp [hinput, Host.quiet] at hp
  | some c =>
    simp only [hinput] at hp
    by_cases hstarts : w.system.starts "sh".toList
    · rw [if_pos hstarts] at hp
      rw [List.mem_singleton.mp hp]
      rfl
    · rw [if_neg hstarts] at hp
      cases hp

/-- The shell runs only what the policy lets through. -/
theorem permits_shellExec (hpolicy : ctx.execPolicy = some policy)
    (hp : p ∈ (shellExec w ctx host input).started) : Permits policy p.command := by
  rw [shellExec, hpolicy] at hp
  cases hcheck : execPolicyCheck (some policy) (((input.index "command").asStr).getD []) with
  | none => simp [hcheck, -String.reduceToList] at hp
  | some verdict =>
    cases verdict with
    | error reason => simp [hcheck, Host.refused, -String.reduceToList] at hp
    | ok u =>
      have hok : validateCommandAllowlist (((input.index "command").asStr).getD []) policy =
          some (.ok ()) := hcheck
      have hran : p ∈ (toolShellExec w host input).started := by
        simp only [hcheck] at hp
        by_cases hfull : isFullExec (some policy)
        · rwa [if_pos hfull] at hp
        · rw [if_neg hfull] at hp
          cases htaint : checkTaintShellExec (((input.index "command").asStr).getD []) with
          | none => simp [htaint, -String.reduceToList] at hp
          | some v =>
            cases v with
            | none => simpa only [htaint] using hp
            | some v => simp [htaint, Host.refused, -String.reduceToList] at hp
      rw [command_of_toolShellExec hran]
      refine ⟨fun hdeny => ?_, fun _ => hok⟩
      simp [validateCommandAllowlist, hdeny, -String.reduceToList] at hok

theorem runs_processStart : Runs (toolProcessStart w ctx host input) command ↔
    ∃ pm, host.processManager = some pm ∧ (input.index "command").asStr = some command ∧
      pm.agentCount ctx.agentId < pm.maxPerAgent ∧ w.system.starts command = true := by
  rw [toolProcessStart]
  cases hpm : host.processManager with
  | none => simp
  | some pm =>
    cases hinput : (input.index "command").asStr with
    | none => simp
    | some c =>
      simp only [Runs, mem_start, Option.some.injEq]
      constructor
      · rintro ⟨p, ⟨hroom, hstarts, rfl⟩, rfl⟩
        exact ⟨pm, rfl, rfl, hroom, hstarts⟩
      · rintro ⟨_, rfl, rfl, hroom, hstarts⟩
        exact ⟨_, ⟨hroom, hstarts, rfl⟩, rfl⟩

theorem runs_processKill : Runs (toolProcessKill w host input) command ↔
    ∃ pm id proc, host.processManager = some pm ∧ (input.index "process_id").asStr = some id ∧
      pm.processes.lookup id = some proc ∧ proc.exited = false ∧
        w.system.starts "kill".toList = true ∧ command = "kill".toList := by
  rw [toolProcessKill]
  cases hpm : host.processManager with
  | none => simp [-String.reduceToList]
  | some pm =>
    cases hinput : (input.index "process_id").asStr with
    | none => simp [-String.reduceToList]
    | some id =>
      simp only [Runs, mem_kill, Option.some.injEq]
      constructor
      · rintro ⟨p, ⟨proc, hproc, hexited, hp⟩, rfl⟩
        refine ⟨pm, id, proc, rfl, rfl, hproc, hexited, ?_, command_of_mem_killTreeUnix hp⟩
        by_contra hstarts
        rw [killTreeUnix_eq_nil (Bool.eq_false_iff.mpr hstarts)] at hp
        cases hp
      · rintro ⟨_, _, proc, rfl, rfl, hproc, hexited, hstarts, rfl⟩
        obtain ⟨p, hp⟩ : ∃ p, p ∈ killTreeUnix w.system proc.pid := exists_mem_killTreeUnix hstarts
        exact ⟨p, ⟨proc, hproc, hexited, hp⟩, command_of_mem_killTreeUnix hp⟩

theorem command_of_createSandbox {config : DockerSandboxConfig} {agentId workspace : Str}
    (hp : p ∈ (createSandbox w config agentId workspace).2) : p.command = "docker".toList := by
  rw [createSandbox] at hp
  split at hp
  · cases hp
  · split at hp
    · cases hp
    · split at hp
      · cases hp
      · exact (mem_run.mp hp).2 ▸ rfl

theorem command_of_execInSandbox {containerId command : Str}
    (hp : p ∈ (execInSandbox w containerId command).2) : p.command = "docker".toList := by
  rw [execInSandbox] at hp
  split at hp
  · cases hp
  · exact (mem_run.mp hp).2 ▸ rfl

/-- Once the container program is there, every process is one of it. -/
theorem runs_dockerExec : Runs (toolDockerExec w ctx host input) command ↔
    ∃ config c workspace, ctx.docker = some config ∧ config.enabled = true ∧
      (input.index "command").asStr = some c ∧ ctx.workspaceRoot = some workspace ∧
        w.system.starts "docker".toList = true ∧ command = "docker".toList := by
  rw [toolDockerExec]
  cases hconfig : ctx.docker with
  | none => simp [-String.reduceToList]
  | some config =>
    by_cases henabled : config.enabled
    · cases hinput : (input.index "command").asStr with
      | none => simp [henabled, -String.reduceToList]
      | some c =>
        cases hworkspace : ctx.workspaceRoot with
        | none => simp [henabled, -String.reduceToList]
        | some workspace =>
          by_cases hstarts : w.system.starts "docker".toList = true
          · have hversion : dockerVersion ∈ (w.system.run dockerVersion).2 :=
              mem_run.mpr ⟨hstarts, rfl⟩
            have hcommand : ∀ p ∈ (w.system.run dockerVersion).2, p.command = "docker".toList :=
              fun p hp => (mem_run.mp hp).2 ▸ rfl
            simp only [henabled, Bool.not_true, Bool.false_eq_true, if_false]
            constructor
            · rintro ⟨p, hp, rfl⟩
              refine ⟨config, c, workspace, rfl, henabled, rfl, rfl, hstarts, ?_⟩
              split at hp
              · exact hcommand p hp
              · split at hp
                · exact (List.mem_append.mp hp).elim (hcommand p) command_of_createSandbox
                · exact (List.mem_append.mp hp).elim (hcommand p) command_of_createSandbox
                · rw [List.mem_append, List.mem_append, List.mem_append] at hp
                  obtain hp | hp | hp | hp := hp
                  · exact hcommand p hp
                  · exact command_of_createSandbox hp
                  · exact command_of_execInSandbox hp
                  · exact (mem_run.mp hp).2 ▸ rfl
            · rintro ⟨-, -, -, -, -, -, -, -, rfl⟩
              refine ⟨dockerVersion, ?_, rfl⟩
              split
              · exact hversion
              · split <;> exact List.mem_append_left _ hversion
          · have hnone : w.system.run dockerVersion = (false, []) :=
              run_eq_nil (Bool.eq_false_iff.mpr hstarts)
            simp only [henabled, hnone, Bool.not_true, Bool.not_false, Bool.false_eq_true, if_false,
              if_true, not_runs_nil, hstarts, false_and, and_false, exists_false]
    · simp [henabled, -String.reduceToList]

theorem mem_getOrCreateSession {config : BrowserConfig} {agentId : Str} :
    p ∈ (getOrCreateSession w host config agentId).2.2 ↔ ∃ script,
      agentId ∉ host.browserSessions ∧ host.browserSessions.length < config.maxSessions ∧
        w.bridgeScript = .ok script ∧ w.system.starts config.pythonPath = true ∧
          p = bridge config script := by
  have hprogram : ∀ script, (bridge config script).program = config.pythonPath := fun _ => rfl
  rw [getOrCreateSession]
  by_cases hsession : agentId ∈ host.browserSessions
  · simp [hsession, -String.reduceToList]
  · by_cases hroom : config.maxSessions ≤ host.browserSessions.length
    · simp [hsession, hroom, Nat.not_lt.mpr hroom, -String.reduceToList]
    · cases hscript : w.bridgeScript with
      | error e => simp [hsession, hroom, -String.reduceToList]
      | ok script =>
        by_cases hstarts : w.system.starts config.pythonPath
        · cases hready : w.ready <;>
            simp [hsession, hroom, hprogram, hstarts, Nat.lt_of_not_le hroom, -String.reduceToList]
        · simp [hsession, hroom, hprogram, hstarts, -String.reduceToList]

/-- A browser tool that has what it needs starts the browser when the agent has none. -/
def Opens (w : ToolRunner.World) (ctx : Context) (host : Host) (command : Str) : Prop :=
  ∃ config script, ctx.browser = some config ∧ ctx.agentId ∉ host.browserSessions ∧
    host.browserSessions.length < config.maxSessions ∧ w.bridgeScript = .ok script ∧
      w.system.starts config.pythonPath = true ∧ command = config.pythonPath

theorem runs_session {config : BrowserConfig} (hconfig : ctx.browser = some config)
    {v : Option (Str × Bool)} {host' : Host} :
    Runs ⟨v, host', (getOrCreateSession w host config ctx.agentId).2.2⟩ command ↔
      Opens w ctx host command := by
  simp only [Runs, mem_getOrCreateSession, Opens, hconfig, Option.some.injEq]
  constructor
  · rintro ⟨p, ⟨script, hsession, hroom, hscript, hstarts, rfl⟩, rfl⟩
    exact ⟨config, script, rfl, hsession, hroom, hscript, hstarts, rfl⟩
  · rintro ⟨_, script, rfl, hsession, hroom, hscript, hstarts, rfl⟩
    exact ⟨_, ⟨script, hsession, hroom, hscript, hstarts, rfl⟩, rfl⟩

theorem runs_browserCommand {required : List String} {name : String} :
    Runs (browserCommand w ctx host input required name) command ↔
      (∀ p ∈ required, ((input.index p).asStr).isSome) ∧ Opens w ctx host command := by
  rw [browserCommand]
  cases hconfig : ctx.browser with
  | none => simp [Opens, hconfig]
  | some config =>
    cases hmissing : required.find? fun p => ((input.index p).asStr).isNone with
    | some p =>
      have hp : ((input.index p).asStr).isNone := by simpa using List.find?_some hmissing
      simp only [not_runs_quiet, false_iff, not_and]
      intro hall
      have hsome := hall p (List.mem_of_find?_eq_some hmissing)
      rw [Option.isNone_iff_eq_none.mp hp] at hsome
      cases hsome
    | none =>
      rw [runs_session hconfig]
      have hall : ∀ p ∈ required, ((input.index p).asStr).isSome := by
        simpa [Option.isSome_iff_ne_none] using List.find?_eq_none.mp hmissing
      exact (and_iff_right hall).symm

theorem runs_browserNavigate : Runs (toolBrowserNavigate w ctx host input) command ↔
    AsksForSession w input "browser_navigate" ∧ Opens w ctx host command := by
  rw [toolBrowserNavigate, AsksForSession]
  cases hinput : (input.index "url").asStr with
  | none =>
    simp only [reduceCtorEq, false_and, exists_false, iff_false]
    cases checkTaintNetFetch w.toLowercase ((none : Option Str).getD []) with
    | none => simp [-String.reduceToList]
    | some v =>
      cases v with
      | some v => simp [-String.reduceToList]
      | none => cases ctx.browser <;> simp [-String.reduceToList]
  | some url =>
    simp only [Option.getD_some, Option.some.injEq, exists_eq_left']
    cases htaint : checkTaintNetFetch w.toLowercase url with
    | none => simp [-String.reduceToList]
    | some v =>
      cases v with
      | some v => simp [-String.reduceToList]
      | none =>
        cases hconfig : ctx.browser with
        | none => simp [Opens, hconfig, -String.reduceToList]
        | some config =>
          cases hssrf : checkSsrf w.dns url with
          | error e => simp [-String.reduceToList]
          | ok u =>
            rw [runs_session hconfig]
            simp [-String.reduceToList]

theorem runs_agentSend : Runs (toolAgentSend ctx host input) command ↔
    ∃ kernel agentId message, ctx.kernel = some kernel ∧
      (input.index "agent_id").asStr = some agentId ∧
        (input.index "message").asStr = some message ∧ ctx.callDepth < 5 ∧
          ∃ p ∈ (kernel.sendToAgent agentId message).2, p.command = command := by
  rw [toolAgentSend]
  cases ctx.kernel with
  | none => simp [-String.reduceToList]
  | some kernel =>
    cases (input.index "agent_id").asStr with
    | none => simp [-String.reduceToList]
    | some agentId =>
      cases (input.index "message").asStr with
      | none => simp [-String.reduceToList]
      | some message =>
        by_cases hdepth : 5 ≤ ctx.callDepth
        · simp [hdepth, -String.reduceToList]
        · simp [hdepth, Runs, Nat.lt_of_not_le hdepth, -String.reduceToList]

theorem findProgram_eq (names : List Str) : findProgram w names =
    (names.find? w.system.starts,
      (names.find? w.system.starts).toList.map fun name => .direct name ["--version".toList]) := by
  induction names with
  | nil => rfl
  | cons name names ih =>
    rw [findProgram, List.find?_cons]
    cases hstarts : w.system.starts name with
    | true => rfl
    | false => exact ih

theorem mem_executeScript {kind unavailable : String} {programs : List Str}
    {skill : InstalledSkill} :
    (∃ p ∈ (executeScript w input kind unavailable programs skill).2, p.command = command) ↔
      w.scriptExists skill.path skill.manifest.entry = true ∧
        programs.find? w.system.starts = some command := by
  rw [executeScript, findProgram_eq]
  cases hscript : w.scriptExists skill.path skill.manifest.entry with
  | false => simp [-String.reduceToList]
  | true =>
    cases hprogram : programs.find? w.system.starts with
    | none => simp [-String.reduceToList]
    | some program => simp [Process.direct, -String.reduceToList]

theorem mem_executeSkillTool {skill : InstalledSkill} {name : Str}
    (hname : skill.manifest.tools.any (·.name = name) = true) :
    (∃ p ∈ (executeSkillTool w input skill name).2, p.command = command) ↔
      w.scriptExists skill.path skill.manifest.entry = true ∧
        (skillPrograms skill.manifest.runtimeType).find? w.system.starts = some command := by
  rw [executeSkillTool, hname]
  cases skill.manifest.runtimeType with
  | python => exact mem_executeScript
  | node => exact mem_executeScript
  | wasm => simp [skillPrograms, -String.reduceToList]
  | builtin => simp [skillPrograms, -String.reduceToList]
  | promptOnly => simp [skillPrograms, -String.reduceToList]

theorem runs_otherTool {name : String} : Runs (otherTool w ctx host input name) command ↔
    ¬ "mcp_".toList <+: name.toList ∧ ∃ skills skill, ctx.skills = some skills ∧
      findToolProvider skills name.toList = some skill ∧
        w.scriptExists skill.path skill.manifest.entry = true ∧
          (skillPrograms skill.manifest.runtimeType).find? w.system.starts = some command := by
  rw [otherTool]
  by_cases hmcp : "mcp_".toList <+: name.toList
  · rw [if_pos hmcp]
    exact ⟨fun h => absurd h not_runs_quiet, fun h => absurd hmcp h.1⟩
  · rw [if_neg hmcp, and_iff_right hmcp]
    cases ctx.skills with
    | none => simp
    | some skills =>
      dsimp only
      cases hskill : findToolProvider skills name.toList with
      | none => simp [hskill]
      | some skill =>
        have hname : skill.manifest.tools.any (·.name = name.toList) = true := by
          have hfound := List.find?_some hskill
          rw [Bool.and_eq_true] at hfound
          exact hfound.2
        simp only [Runs, mem_executeSkillTool hname, Option.some.injEq]
        constructor
        · rintro ⟨hscript, hprogram⟩
          exact ⟨skills, skill, rfl, hskill, hscript, hprogram⟩
        · rintro ⟨_, _, rfl, hskill', hscript, hprogram⟩
          obtain rfl := Option.some.inj (hskill.symm.trans hskill')
          exact ⟨hscript, hprogram⟩

theorem runs_webFetch : ¬ Runs (webFetch w host input) command := by
  rw [webFetch]
  cases checkTaintNetFetch w.toLowercase (((input.index "url").asStr).getD []) with
  | none => simp
  | some v => cases v <;> simp

theorem runs_browserClose : ¬ Runs (toolBrowserClose ctx host) command := by
  rw [toolBrowserClose]
  cases ctx.browser <;> simp

theorem bypass_browser {name : String} :
    AsksForSession w input name ∧ Opens w ctx host command →
      Bypass w ctx host input name command := by
  rintro ⟨hasks, config, script, hconfig, hnew, hroom, hscript, hstarts, rfl⟩
  exact .browser hconfig hasks hnew hroom hscript hstarts

theorem bypass_of_runs {name : String} (hname : name ≠ "shell_exec")
    (h : Runs (runTool w ctx host input name) command) : Bypass w ctx host input name command := by
  unfold runTool at h
  split at h
  · exact absurd h runs_webFetch
  · exact absurd rfl hname
  · obtain ⟨kernel, agentId, message, hkernel, hid, hmessage, hdepth, p, hp, rfl⟩ :=
      runs_agentSend.mp h
    exact .agentSend hkernel hid hmessage hdepth hp
  · obtain ⟨config, c, workspace, hconfig, henabled, hinput, hworkspace, hstarts, rfl⟩ :=
      runs_dockerExec.mp h
    exact .dockerExec hconfig henabled hinput hworkspace hstarts
  · obtain ⟨pm, hpm, hinput, hroom, hstarts⟩ := runs_processStart.mp h
    exact .processStart hpm hinput hroom hstarts
  · obtain ⟨pm, id, proc, hpm, hid, hproc, halive, hstarts, rfl⟩ := runs_processKill.mp h
    exact .processKill hpm hid hproc halive hstarts
  · exact bypass_browser (runs_browserNavigate.mp h)
  · exact bypass_browser (by simpa [AsksForSession] using runs_browserCommand.mp h)
  · exact bypass_browser (by simpa [AsksForSession, and_assoc] using runs_browserCommand.mp h)
  · exact bypass_browser (by simpa [AsksForSession] using runs_browserCommand.mp h)
  · exact bypass_browser (by simpa [AsksForSession] using runs_browserCommand.mp h)
  · exact absurd h runs_browserClose
  · rename_i h1 h2 h3 h4 h5 h6 h7 h8 h9 h10 h11 h12
    by_cases hquiet : quietTools.contains name
    · rw [if_pos hquiet] at h
      exact absurd h not_runs_quiet
    · rw [if_neg hquiet] at h
      obtain ⟨hmcp, skills, skill, hskills, hskill, hscript, hprogram⟩ := runs_otherTool.mp h
      refine .skill ?_ hmcp hskills hskill hscript hprogram
      simp only [toolNames, List.mem_append, List.mem_cons, List.not_mem_nil, or_false, not_or]
      exact ⟨⟨h1, h2, h3, h4, h5, h6, h7, h8, h9, h10, h11, h12⟩, by simpa using hquiet⟩

theorem runTool_of_notMem {name : String} (hname : name ∉ toolNames) :
    runTool w ctx host input name = otherTool w ctx host input name := by
  have hquiet : quietTools.contains name = false := by
    simpa using fun h => hname (List.mem_append_right _ h)
  have hname' : ∀ other ∈ toolNames, name ≠ other := by
    rintro _ hother rfl
    exact hname hother
  unfold runTool
  split
  case h_13 => rw [hquiet]; rfl
  all_goals exact absurd rfl (hname' _ (by simp [toolNames]))

theorem runs_of_bypass {name : String} (h : Bypass w ctx host input name command) :
    Runs (runTool w ctx host input name) command := by
  cases h with
  | processStart hpm hcommand hroom hstarts =>
    exact runs_processStart.mpr ⟨_, hpm, hcommand, hroom, hstarts⟩
  | processKill hpm hid hproc halive hstarts =>
    exact runs_processKill.mpr ⟨_, _, _, hpm, hid, hproc, halive, hstarts, rfl⟩
  | dockerExec hconfig henabled hcommand hworkspace hstarts =>
    exact runs_dockerExec.mpr ⟨_, _, _, hconfig, henabled, hcommand, hworkspace, hstarts, rfl⟩
  | agentSend hkernel hid hmessage hdepth hp =>
    exact runs_agentSend.mpr ⟨_, _, _, hkernel, hid, hmessage, hdepth, _, hp, rfl⟩
  | skill hname hmcp hskills hskill hscript hprogram =>
    rw [runTool_of_notMem hname]
    exact runs_otherTool.mpr ⟨hmcp, _, _, hskills, hskill, hscript, hprogram⟩
  | browser hconfig hasks hnew hroom hscript hstarts =>
    have hopens : Opens w ctx host _ := ⟨_, _, hconfig, hnew, hroom, hscript, hstarts, rfl⟩
    unfold AsksForSession at hasks
    split at hasks
    · exact runs_browserNavigate.mpr ⟨hasks, hopens⟩
    · exact runs_browserCommand.mpr ⟨by simpa using hasks, hopens⟩
    · exact runs_browserCommand.mpr ⟨by simpa using hasks, hopens⟩
    · exact runs_browserCommand.mpr ⟨by simp, hopens⟩
    · exact runs_browserCommand.mpr ⟨by simp, hopens⟩
    · exact hasks.elim

end Tools

/-- A call obeys the policy exactly when the gate stops it or every way past the policy that is
open to it leads to a command the policy permits. -/
theorem executeTool_obeys_iff (w : ToolRunner.World) (ctx : Context) (host : Host) (input : Value)
    (toolUseId : Str) (name : String) (policy : ExecPolicy) :
    Obeys policy (ToolRunner.executeTool w (under ctx policy) host input toolUseId name).2.2 ↔
      (gate (under ctx policy) name input = some (.ok ()) →
        ∀ command, Bypass w (under ctx policy) host input name command →
          Permits policy command) := by
  rw [obeys_iff_permits, ToolRunner.executeTool]
  cases hgate : gate (under ctx policy) name input with
  | none => simp
  | some verdict =>
    cases verdict with
    | error message => simp
    | ok u =>
      simp only [forall_const]
      constructor
      · intro h command hbypass
        obtain ⟨p, hp, rfl⟩ := runs_of_bypass hbypass
        exact h p hp
      · intro h p hp
        by_cases hname : name = "shell_exec"
        · subst hname
          exact permits_shellExec rfl hp
        · exact h p.command (bypass_of_runs hname ⟨p, hp, rfl⟩)

/-- A system that starts everything and agents without any history. -/
def plainWorld : ToolRunner.World where
  system := ⟨fun _ => true, fun _ => true⟩
  dns := fun _ => none
  toLowercase := id
  isAlphanumeric := Char.isAlphanum
  answer := fun _ _ => .ok []
  shellOutput := fun _ => .ok []
  pid := 7
  stderr := fun _ => []
  containerId := []
  inContainer := fun _ _ => .ok []
  bridgeScript := .ok []
  ready := .ok ()
  browse := fun _ _ => .ok []
  scriptExists := fun _ _ => true
  scriptPath := fun _ _ => []
  runScript := fun _ _ => .ok []

def plainContext : Context := ⟨none, none, none, none, none, none, none, none, 0⟩

def plainHost : Host := ⟨some ⟨∅, 5, 1⟩, []⟩

theorem process_start_denied_runs : ¬ ∀ w ctx host input toolUseId name policy,
    Obeys policy (ToolRunner.executeTool w (under ctx policy) host input toolUseId name).2.2 := by
  intro h
  have hnil := (h plainWorld plainContext plainHost (.obj [("command", .string "rm".toList)]) []
    "process_start" { ExecPolicy.default with mode := .deny }).1 rfl
  exact absurd hnil (by decide)

end Clawreform.Runtime.ExecPolicyCoverage
