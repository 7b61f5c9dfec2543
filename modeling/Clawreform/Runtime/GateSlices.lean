import Clawreform.Kernel.SessionSummary
import Clawreform.Runtime.ToolRunner

namespace Clawreform.Runtime.GateSlices

open Clawreform.Lib Clawreform.Lib.Text Clawreform.Runtime.ToolRunner
open Clawreform.Lib.Json (Value)
open Clawreform.Types (ToolResult)
open Clawreform.Runtime.Processes (Process)
open Clawreform.Lib.Slices (isSome_splitBytes_iff)
open Clawreform.Kernel.SessionSummary (Sliceable)
open Clawreform.Runtime.SubprocessSandbox

section Code

def commandOf (input : Value) : Str := ((input.index "command").asStr).getD []

def urlOf (input : Value) : Str := ((input.index "url").asStr).getD []

def asViolation : Option Str → Except Str Unit
  | some v => .error ("Taint violation: ".toList ++ v)
  | none => .ok ()

/-- The checks of a shell command before it is run. -/
def shellChecks (policy : Option ExecPolicy) (command : Str) : Option (Except Str Unit) :=
  match execPolicyCheck policy command with
  | none => none
  | some (.error reason) => some (.error ("Exec policy denied: ".toList ++ reason))
  | some (.ok ()) =>
    if isFullExec policy then some (.ok ()) else (checkTaintShellExec command).map asViolation

def toolChecks (toLowercase : Str → Str) (policy : Option ExecPolicy) (name : String)
    (input : Value) : Option (Except Str Unit) :=
  if name = "shell_exec" then shellChecks policy (commandOf input)
  else if name = "web_fetch" ∨ name = "browser_navigate" then
    (checkTaintNetFetch toLowercase (urlOf input)).map asViolation
  else some (.ok ())

/-- Everything a call has to pass before its tool does something. -/
def gating (toLowercase : Str → Str) (ctx : Context) (name : String) (input : Value) :
    Option (Except Str Unit) :=
  match gate ctx name input with
  | none => none
  | some (.error message) => some (.error message)
  | some (.ok ()) => toolChecks toLowercase ctx.execPolicy name input

end Code

section Execution

variable {w : ToolRunner.World} {ctx : Context} {host : Host} {input : Value} {toolUseId : Str}
  {name : String}

/-- How a tool ends whose checks do not let it start. -/
def Stopped (host : Host) (checks : Option (Except Str Unit)) (r : Ran) : Prop :=
  match checks with
  | none => r = ⟨none, host, []⟩
  | some (.error message) => r = ⟨some (message, true), host, []⟩
  | some (.ok ()) => True

theorem shellExec_stopped : Stopped host (shellChecks ctx.execPolicy (commandOf input))
    (shellExec w ctx host input) := by
  rw [shellChecks, shellExec, commandOf]
  match execPolicyCheck ctx.execPolicy (((input.index "command").asStr).getD []) with
  | none => rfl
  | some (.error reason) => rfl
  | some (.ok ()) =>
    dsimp only
    by_cases hfull : isFullExec ctx.execPolicy = true
    · rw [if_pos hfull]
      exact trivial
    · rw [if_neg hfull, if_neg hfull]
      match checkTaintShellExec (((input.index "command").asStr).getD []) with
      | none => rfl
      | some (some v) => rfl
      | some none => exact trivial

theorem webFetch_stopped : Stopped host ((checkTaintNetFetch w.toLowercase (urlOf input)).map
    asViolation) (webFetch w host input) := by
  rw [webFetch, urlOf]
  match checkTaintNetFetch w.toLowercase (((input.index "url").asStr).getD []) with
  | none => rfl
  | some (some v) => rfl
  | some none => exact trivial

theorem toolBrowserNavigate_stopped : Stopped host
    ((checkTaintNetFetch w.toLowercase (urlOf input)).map asViolation)
    (toolBrowserNavigate w ctx host input) := by
  rw [toolBrowserNavigate, urlOf]
  match checkTaintNetFetch w.toLowercase (((input.index "url").asStr).getD []) with
  | none => rfl
  | some (some v) => rfl
  | some none => exact trivial

theorem runTool_stopped : Stopped host (toolChecks w.toLowercase ctx.execPolicy name input)
    (runTool w ctx host input name) := by
  rw [toolChecks]
  by_cases hshell : name = "shell_exec"
  · subst hshell
    exact shellExec_stopped
  · rw [if_neg hshell]
    by_cases hurl : name = "web_fetch" ∨ name = "browser_navigate"
    · rw [if_pos hurl]
      obtain rfl | rfl := hurl
      · exact webFetch_stopped
      · exact toolBrowserNavigate_stopped
    · rw [if_neg hurl]
      exact trivial

/-- The gates are those of the call: where they panic it does, and what they refuse is its
answer, with no process started and nothing changed. -/
theorem executeTool_gating : match gating w.toLowercase ctx name input with
    | none => ToolRunner.executeTool w ctx host input toolUseId name = (none, host, [])
    | some (.error message) =>
      ToolRunner.executeTool w ctx host input toolUseId name =
        (some ⟨toolUseId, message, true⟩, host, [])
    | some (.ok ()) => True := by
  rw [gating, ToolRunner.executeTool]
  match gate ctx name input with
  | none => rfl
  | some (.error message) => rfl
  | some (.ok ()) =>
    dsimp only
    have h := @runTool_stopped w ctx host input name
    match hchecks : toolChecks w.toLowercase ctx.execPolicy name input with
    | none =>
      rw [hchecks] at h
      have hran : runTool w ctx host input name = ⟨none, host, []⟩ := h
      rw [hran]
      rfl
    | some (.error message) =>
      rw [hchecks] at h
      have hran : runTool w ctx host input name = ⟨some (message, true), host, []⟩ := h
      rw [hran]
      rfl
    | some (.ok ()) => exact trivial

end Execution

section Slices

variable {toLowercase : Str → Str} {ctx : Context} {name : String} {input : Value}
  {policy : Option ExecPolicy} {command url : Str}

/-- The call asks for an approval. -/
def Asks (ctx : Context) (name : String) : Prop :=
  ∃ kernel, ctx.kernel = some kernel ∧ kernel.requiresApproval name = true

def Permitted (ctx : Context) (name : String) : Prop :=
  ∀ allowed, ctx.allowedTools = some allowed → name ∈ allowed

/-- The same call with other answers to the request for approval. -/
def answering (answer : Str → String → Str → Except Str Bool) (ctx : Context) : Context :=
  { ctx with kernel := ctx.kernel.map fun kernel => { kernel with requestApproval := answer } }

def Suspicious (command : Str) : Prop := suspiciousPatterns.any (containsText command) = true

def Leaking (toLowercase : Str → Str) (url : Str) : Prop :=
  exfilPatterns.any (containsText (toLowercase url)) = true

/-- The policy lets a command through, outside full mode. -/
def Screened (policy : Option ExecPolicy) (command : Str) : Prop :=
  ∀ p, policy = some p → p.mode = .allowlist ∧
    ∀ base ∈ extractAllCommands command, isListed p base = true

/-- The log lines can be cut: those of a command in full mode, of a suspicious command and of a
leaking address. -/
structure Clean (toLowercase : Str → Str) (policy : Option ExecPolicy) (name : String)
    (input : Value) : Prop where
  full : name = "shell_exec" → isFullExec policy = true → Sliceable 100 (commandOf input)
  shell : name = "shell_exec" → Screened policy (commandOf input) →
    Suspicious (commandOf input) → Sliceable 80 (commandOf input)
  net : name = "web_fetch" ∨ name = "browser_navigate" → Leaking toLowercase (urlOf input) →
    Sliceable 80 (urlOf input)

theorem isSome_cut {α : Type} {n : Nat} {s : Str} {f : Str × Str → α} :
    ((splitBytes (min (byteLen s) n) s).map f).isSome = true ↔ Sliceable n s := by
  rw [Option.isSome_map, isSome_splitBytes_iff, Sliceable]
  rcases Nat.lt_or_ge n (byteLen s) with hlt | hle
  · rw [min_eq_right hlt.le, or_iff_right (Nat.not_le.mpr hlt)]
  · rw [min_eq_left hle]
    exact iff_of_true ⟨s, [], (List.append_nil s).symm, rfl⟩ (.inl hle)

theorem isSome_cut_when {α : Type} {c : Prop} [Decidable c] {n : Nat} {s : Str}
    {f : Str × Str → α} {a : α} :
    (if c then (splitBytes (min (byteLen s) n) s).map f else some a).isSome = true ↔
      (c → Sliceable n s) := by
  by_cases h : c
  · rw [if_pos h, isSome_cut]
    exact ⟨fun hs _ => hs, fun hs => hs h⟩
  · rw [if_neg h]
    exact iff_of_true rfl fun hs => absurd hs h

theorem isSome_approvalSummary :
    (approvalSummary name input).isSome = true ↔ Sliceable 200 input.toText := isSome_cut

theorem isSome_checkTaintShellExec :
    (checkTaintShellExec command).isSome = true ↔ (Suspicious command → Sliceable 80 command) :=
  isSome_cut_when

theorem isSome_checkTaintNetFetch : (checkTaintNetFetch toLowercase url).isSome = true ↔
    (Leaking toLowercase url → Sliceable 80 url) :=
  isSome_cut_when

theorem isSome_shellChecks : (shellChecks policy command).isSome = true ↔
    (isFullExec policy = true → Sliceable 100 command) ∧
      (Screened policy command → Suspicious command → Sliceable 80 command) := by
  rw [shellChecks]
  match hpolicy : policy with
  | none =>
    show (if false = true then some (.ok ()) else
      (checkTaintShellExec command).map asViolation).isSome = true ↔ _
    rw [if_neg Bool.false_ne_true, Option.isSome_map, isSome_checkTaintShellExec]
    exact ⟨fun h => ⟨nofun, fun _ => h⟩, fun h => h.2 nofun⟩
  | some p =>
    have hfull : isFullExec (some p) = true ↔ p.mode = .full := decide_eq_true_iff
    have hscreened : Screened (some p) command ↔
        p.mode = .allowlist ∧ ∀ base ∈ extractAllCommands command, isListed p base = true :=
      ⟨fun h => h p rfl, fun h q hq => by cases hq; exact h⟩
    simp only [hfull, hscreened, execPolicyCheck]
    cases hmode : p.mode with
    | deny =>
      rw [validateCommandAllowlist, hmode]
      exact iff_of_true rfl ⟨nofun, nofun⟩
    | full =>
      have hcheck : validateCommandAllowlist command p =
          (splitBytes (min (byteLen command) 100) command).map fun _ => .ok () := by
        rw [validateCommandAllowlist, hmode]
      have hslice := @isSome_cut (Except Str Unit) 100 command fun _ => .ok ()
      rw [hcheck, ← hslice]
      cases splitBytes (min (byteLen command) 100) command with
      | none => exact iff_of_false Bool.false_ne_true fun h => Bool.false_ne_true (h.1 rfl)
      | some cut =>
        refine iff_of_true ?_ ⟨fun _ => rfl, nofun⟩
        dsimp only [Option.map_some]
        rw [if_pos rfl]
        rfl
    | allowlist =>
      by_cases hlisted : ∀ base ∈ extractAllCommands command, isListed p base = true
      · rw [(validateCommandAllowlist_ok_iff hmode).mpr hlisted]
        dsimp only
        rw [if_neg nofun, Option.isSome_map, isSome_checkTaintShellExec]
        exact ⟨fun h => ⟨nofun, fun _ => h⟩, fun h => h.2 ⟨rfl, hlisted⟩⟩
      · have hok := mt (validateCommandAllowlist_ok_iff hmode).mp hlisted
        refine iff_of_true ?_ ⟨nofun, fun h => absurd h.2 hlisted⟩
        rw [validateCommandAllowlist, hmode] at hok ⊢
        dsimp only at hok ⊢
        cases hfind : (extractAllCommands command).find? fun base => !isListed p base with
        | none =>
          rw [hfind] at hok
          exact absurd rfl hok
        | some base => rfl

theorem isSome_toolChecks : (toolChecks toLowercase policy name input).isSome = true ↔
    Clean toLowercase policy name input := by
  rw [toolChecks]
  by_cases hshell : name = "shell_exec"
  · have hurl : ¬ (name = "web_fetch" ∨ name = "browser_navigate") := by
      rw [hshell]
      decide
    rw [if_pos hshell, isSome_shellChecks]
    exact ⟨fun h => ⟨fun _ => h.1, fun _ => h.2, fun h => absurd h hurl⟩,
      fun h => ⟨h.full hshell, h.shell hshell⟩⟩
  · rw [if_neg hshell]
    by_cases hurl : name = "web_fetch" ∨ name = "browser_navigate"
    · rw [if_pos hurl, Option.isSome_map, isSome_checkTaintNetFetch]
      exact ⟨fun h => ⟨fun h => absurd h hshell, fun h => absurd h hshell, fun _ => h⟩,
        fun h => h.net hurl⟩
    · rw [if_neg hurl]
      exact iff_of_true rfl
        ⟨fun h => absurd h hshell, fun h => absurd h hshell, fun h => absurd h hurl⟩

theorem gate_of_not_permitted (h : ¬ Permitted ctx name) :
    ∃ message, gate ctx name input = some (.error message) := by
  rw [gate]
  cases hallowed : ctx.allowedTools with
  | none => exact absurd (fun allowed hsome => by rw [hallowed] at hsome; cases hsome) h
  | some allowed =>
    dsimp only
    rw [if_neg]
    · exact ⟨_, rfl⟩
    · intro hmem
      apply h
      intro other hother
      rw [hallowed] at hother
      cases hother
      exact List.contains_iff_mem.mp hmem

theorem gate_of_permitted (h : Permitted ctx name) :
    gate ctx name input = approvalGate ctx name input := by
  rw [gate]
  cases hallowed : ctx.allowedTools with
  | none => rfl
  | some allowed => exact if_pos (List.contains_iff_mem.mpr (h allowed hallowed))

theorem approvalGate_of_not_asks (h : ¬ Asks ctx name) :
    approvalGate ctx name input = some (.ok ()) := by
  rw [approvalGate]
  cases hkernel : ctx.kernel with
  | none => rfl
  | some kernel =>
    refine if_pos ?_
    rw [Bool.not_eq_true']
    exact Bool.eq_false_iff.mpr fun hrequires => h ⟨kernel, hkernel, hrequires⟩

/-- What an answer to the request for approval means for the call. -/
def decisionOf (answer : Str → Except Str Bool) (name : String) (summary : Str) :
    Except Str Unit :=
  match answer summary with
  | .ok true => .ok ()
  | .ok false =>
    .error ("Execution denied: '".toList ++ name.toList ++ ("' requires human approval " ++
      "and was denied or timed out. The operation was not performed.").toList)
  | .error e => .error ("Approval system error: ".toList ++ e)

/-- Whatever is answered to a request for approval, the gates of a call come to a decision exactly
when it is not permitted or every text that is cut on the way can be cut. -/
theorem gating_decides_iff (toLowercase : Str → Str) (ctx : Context) (name : String)
    (input : Value) :
    (∀ answer, ∃ decision,
      gating toLowercase (answering answer ctx) name input = some decision) ↔
      (Permitted ctx name → (Asks ctx name → Sliceable 200 input.toText) ∧
        Clean toLowercase ctx.execPolicy name input) := by
  simp only [← Option.isSome_iff_exists]
  by_cases hpermitted : Permitted ctx name
  · rw [forall_prop_of_true hpermitted, ← @isSome_approvalSummary name,
      ← isSome_toolChecks]
    have hgate : ∀ answer, gate (answering answer ctx) name input =
        approvalGate (answering answer ctx) name input := fun answer =>
      @gate_of_permitted (answering answer ctx) name input hpermitted
    by_cases hasks : Asks ctx name
    · obtain ⟨kernel, hkernel, hrequires⟩ := hasks
      have happroval : ∀ answer, approvalGate (answering answer ctx) name input =
          (approvalSummary name input).map (decisionOf (answer
            (ctx.callerAgentId.getD "unknown".toList) name) name) := by
        intro answer
        rw [approvalGate, answering, hkernel]
        exact if_neg (by rw [hrequires]; decide)
      constructor
      · intro h
        have hyes := h fun _ _ _ => .ok true
        rw [gating, hgate, happroval] at hyes
        cases hsummary : approvalSummary name input with
        | none =>
          rw [hsummary] at hyes
          exact absurd hyes Bool.false_ne_true
        | some summary =>
          rw [hsummary] at hyes
          exact ⟨fun _ => rfl, hyes⟩
      · intro h answer
        obtain ⟨summary, hsummary⟩ := Option.isSome_iff_exists.mp (h.1 ⟨kernel, hkernel, hrequires⟩)
        rw [gating, hgate, happroval, hsummary, Option.map_some]
        match decisionOf (answer (ctx.callerAgentId.getD "unknown".toList) name) name summary with
        | .error message => rfl
        | .ok () => exact h.2
    · have happroval : ∀ answer, approvalGate (answering answer ctx) name input =
          some (.ok ()) := by
        intro answer
        refine approvalGate_of_not_asks fun h => hasks ?_
        obtain ⟨kernel, hkernel, hrequires⟩ := h
        obtain ⟨kernel', hkernel', rfl⟩ := Option.map_eq_some_iff.mp hkernel
        exact ⟨kernel', hkernel', hrequires⟩
      constructor
      · intro h
        have hone := h fun _ _ _ => .ok true
        rw [gating, hgate, happroval] at hone
        exact ⟨fun h => absurd h hasks, hone⟩
      · intro h answer
        rw [gating, hgate, happroval]
        exact h.2
  · refine iff_of_true (fun answer => ?_) fun h => absurd h hpermitted
    obtain ⟨message, hmessage⟩ :=
      @gate_of_not_permitted (answering answer ctx) name input hpermitted
    rw [gating, hmessage]
    rfl

/-- A download whose eightieth byte lies within a character. -/
def longCommand : Str := "curl ".toList ++ (List.replicate 74 'a' ++ ['é'])

/-- A call without a kernel, with every tool allowed. -/
def bareContext : Context where
  kernel := none
  allowedTools := none
  callerAgentId := none
  skills := none
  browser := none
  workspaceRoot := none
  execPolicy := none
  docker := none
  callDepth := 0

theorem gating_not_total :
    ¬ ∀ toLowercase ctx name input, ∃ decision,
      gating toLowercase ctx name input = some decision := by
  intro h
  obtain ⟨decision, hdecision⟩ :=
    h id bareContext "shell_exec" (.obj [("command", .string longCommand)])
  have hnone : gating id bareContext "shell_exec" (.obj [("command", .string longCommand)]) =
      none := by
    rfl
  rw [hnone] at hdecision
  cases hdecision

end Slices

end Clawreform.Runtime.GateSlices
