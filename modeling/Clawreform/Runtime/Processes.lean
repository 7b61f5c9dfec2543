import Clawreform.Lib.Store
import Clawreform.Lib.Text

namespace Clawreform.Runtime.Processes

open Clawreform.Lib.Text Clawreform.Lib.Store

/-- A process of the host: the command it was asked for with, and what is started for it. -/
structure Process where
  command : Str
  program : Str
  args : List Str
  deriving DecidableEq

/-- A program started by its own name. -/
def Process.direct (program : Str) (args : List Str) : Process := ⟨program, program, args⟩

/-- What the system makes of a process: whether it can be started, and how it ends. -/
structure System where
  starts : Str → Bool
  succeeds : Process → Bool

/-- Run a process to its end: whether it succeeded, and what was started. -/
def System.run (system : System) (p : Process) : Bool × List Process :=
  if system.starts p.program then (system.succeeds p, [p]) else (false, [])

structure ManagedProcess where
  pid : Nat
  stdoutBuf : List Str
  stderrBuf : List Str
  agentId : Str
  command : Str
  exited : Bool
  deriving DecidableEq

structure ProcessManager where
  processes : Map Str ManagedProcess
  maxPerAgent : Nat
  nextId : Nat
  deriving DecidableEq

variable (system : System)

def ProcessManager.agentCount (pm : ProcessManager) (agentId : Str) : Nat :=
  (values pm.processes).countP fun p => p.agentId = agentId

def commandDisplay (command : Str) (args : List Str) : Str :=
  if args = [] then command else command ++ ' ' :: [' '].intercalate args

/-- `pid` is the number the system gives the new process. -/
def ProcessManager.start (pm : ProcessManager) (agentId command : Str) (args : List Str)
    (pid : Nat) : Except Str Str × ProcessManager × List Process :=
  if pm.maxPerAgent ≤ pm.agentCount agentId then
    (.error ("Agent '".toList ++ agentId ++ "' already has ".toList ++
      showNat (pm.agentCount agentId) ++ " processes (max: ".toList ++ showNat pm.maxPerAgent ++
        ")".toList), pm, [])
  else if !system.starts command then
    (.error ("Failed to start process '".toList ++ command ++ "'".toList), pm, [])
  else
    let id := "proc_".toList ++ showNat pm.nextId
    (.ok id,
      { pm with
        processes := pm.processes.insert id
          ⟨pid, [], [], agentId, commandDisplay command args, false⟩
        nextId := pm.nextId + 1 },
      [.direct command args])

/-- Ask the process group to end, then the process; after the grace period kill what is left. -/
def killTreeUnix (pid : Nat) : List Process :=
  let kill (option target : Str) : Bool × List Process :=
    system.run (.direct "kill".toList [option, target])
  let group := '-' :: showNat pid
  let groupKill := kill "-TERM".toList group
  let single := if groupKill.1 then [] else (kill "-TERM".toList (showNat pid)).2
  let check := kill "-0".toList (showNat pid)
  let force :=
    if check.1 then (kill "-9".toList group).2 ++ (kill "-9".toList (showNat pid)).2 else []
  groupKill.2 ++ (single ++ (check.2 ++ force))

def ProcessManager.kill (pm : ProcessManager) (processId : Str) :
    Except Str Unit × ProcessManager × List Process :=
  match pm.processes.lookup processId with
  | none => (.error ("Process '".toList ++ processId ++ "' not found".toList), pm, [])
  | some proc =>
    (.ok (), { pm with processes := pm.processes.erase processId },
      if proc.exited then [] else killTreeUnix system proc.pid)

section Started

variable {system : System} {p : Process} {pid : Nat}

theorem mem_run {q : Process} : q ∈ (system.run p).2 ↔ system.starts p.program = true ∧ q = p := by
  rw [System.run]
  by_cases h : system.starts p.program <;> simp [h]

theorem run_eq_nil (h : system.starts p.program = false) : system.run p = (false, []) := by
  simp [System.run, h]

theorem command_of_mem_killTreeUnix (h : p ∈ killTreeUnix system pid) :
    p.command = "kill".toList := by
  have hkill : ∀ {args}, p ∈ (system.run (.direct "kill".toList args)).2 →
      p.command = "kill".toList := fun h => (mem_run.mp h).2 ▸ rfl
  simp only [killTreeUnix, List.mem_append] at h
  obtain h | h | h | h := h
  · exact hkill h
  · split at h
    · cases h
    · exact hkill h
  · exact hkill h
  · split at h
    · exact (List.mem_append.mp h).elim hkill hkill
    · cases h

theorem exists_mem_killTreeUnix (h : system.starts "kill".toList = true) :
    ∃ p, p ∈ killTreeUnix system pid :=
  ⟨_, List.mem_append_left _ (mem_run.mpr ⟨h, rfl⟩)⟩

theorem killTreeUnix_eq_nil (h : system.starts "kill".toList = false) :
    killTreeUnix system pid = [] := by
  have hkill : ∀ args, system.run (.direct "kill".toList args) = (false, []) :=
    fun args => run_eq_nil h
  simp only [killTreeUnix, hkill, Bool.false_eq_true, if_false, List.append_nil]

theorem mem_start {pm : ProcessManager} {agentId command : Str} {args : List Str} :
    p ∈ (pm.start system agentId command args pid).2.2 ↔
      pm.agentCount agentId < pm.maxPerAgent ∧ system.starts command = true ∧
        p = .direct command args := by
  rw [ProcessManager.start]
  by_cases hroom : pm.maxPerAgent ≤ pm.agentCount agentId
  · simp [hroom]
  · by_cases hstarts : system.starts command <;> simp [hroom, hstarts, Nat.lt_of_not_le hroom]

theorem mem_kill {pm : ProcessManager} {processId : Str} :
    p ∈ (pm.kill system processId).2.2 ↔ ∃ proc, pm.processes.lookup processId = some proc ∧
      proc.exited = false ∧ p ∈ killTreeUnix system proc.pid := by
  rw [ProcessManager.kill]
  cases pm.processes.lookup processId with
  | none => simp
  | some proc => by_cases hexited : proc.exited <;> simp [hexited]

end Started

end Clawreform.Runtime.Processes
