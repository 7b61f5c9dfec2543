import Clawreform.Lib.Json
import Clawreform.Lib.Run
import Clawreform.Lib.SerdeJson
import Clawreform.Runtime.Processes

namespace Clawreform.Runtime.ProcessTools

open Clawreform.Lib Clawreform.Lib.Text Clawreform.Lib.Store Clawreform.Lib.Json
open Clawreform.Lib.Run
open Clawreform.Runtime.Processes

section Manager

inductive Stream where
  | stdout
  | stderr
  deriving DecidableEq

structure ProcessInfo where
  id : Str
  agentId : Str
  command : Str
  deriving DecidableEq

def buffer (p : ManagedProcess) : Stream → List Str
  | .stdout => p.stdoutBuf
  | .stderr => p.stderrBuf

def setBuffer (stream : Stream) (lines : List Str) (p : ManagedProcess) : ManagedProcess :=
  match stream with
  | .stdout => { p with stdoutBuf := lines }
  | .stderr => { p with stderrBuf := lines }

def maxLines : Nat := 1000

/-- The oldest lines of a full buffer make room. -/
def overflow (lines : List Str) : List Str :=
  if maxLines ≤ lines.length then lines.take 100 else []

def pushLine (lines : List Str) (line : Str) : List Str :=
  (if maxLines ≤ lines.length then lines.drop 100 else lines) ++ [line]

def receive (stream : Stream) (line : Str) (p : ManagedProcess) : ManagedProcess :=
  setBuffer stream (pushLine (buffer p stream) line) p

def drain (p : ManagedProcess) : ManagedProcess := { p with stdoutBuf := [], stderrBuf := [] }

variable (pm : ProcessManager)

def limitText (agentId : Str) : Str :=
  "Agent '".toList ++ agentId ++ "' already has ".toList ++ showNat (pm.agentCount agentId) ++
    " processes (max: ".toList ++ showNat pm.maxPerAgent ++ ")".toList

/-- The first part of `start`. -/
def check (agentId : Str) : Except Str Unit :=
  if pm.maxPerAgent ≤ pm.agentCount agentId then .error (limitText pm agentId) else .ok ()

def nextId : Str := "proc_".toList ++ showNat pm.nextId

/-- The last part of `start`, for a process that was spawned. What it put out meanwhile counts as
put out afterwards, for nobody has its id. -/
def register (agentId command : Str) (args : List Str) (pid : Nat) : ProcessManager :=
  { pm with
    processes := pm.processes.insert (nextId pm)
      ⟨pid, [], [], agentId, commandDisplay command args, false⟩
    nextId := pm.nextId + 1 }

def spawnText (command : Str) : Str := "Failed to start process '".toList ++ command ++ "'".toList

def notFound (processId : Str) : Str := "Process '".toList ++ processId ++ "' not found".toList

def read (processId : Str) : Except Str (List Str × List Str) × ProcessManager :=
  match pm.processes.lookup processId with
  | none => (.error (notFound processId), pm)
  | some p =>
    (.ok (p.stdoutBuf, p.stderrBuf), { pm with processes := adjust processId drain pm.processes })

def list (agentId : Str) : List ProcessInfo :=
  (pm.processes.entries.filter fun e => e.2.agentId = agentId).map fun e =>
    ⟨e.1, e.2.agentId, e.2.command⟩

/-- When nothing comes between its parts, a start is one call. -/
theorem start_eq (system : System) (agentId command : Str) (args : List Str) (pid : Nat) :
    pm.start system agentId command args pid =
      if pm.maxPerAgent ≤ pm.agentCount agentId then (.error (limitText pm agentId), pm, [])
      else if system.starts command then
        (.ok (nextId pm), register pm agentId command args pid, [.direct command args])
      else (.error (spawnText command), pm, []) := by
  rw [ProcessManager.start]
  by_cases hroom : pm.maxPerAgent ≤ pm.agentCount agentId
  · rw [if_pos hroom, if_pos hroom]
    rfl
  · rw [if_neg hroom, if_neg hroom]
    cases system.starts command <;> rfl

end Manager

section Steps

/-- A call between two of its parts. -/
inductive Task where
  | starting (agentId command : Str) (args : List Str)
  | sweeping (ids : List Str)
  deriving DecidableEq

structure World where
  pm : ProcessManager
  tasks : Map Nat Task

/-- What is seen from outside. -/
inductive Event where
  | started (agentId id : Str)
  | received (id : Str) (stream : Stream) (line : Str)
  | dropped (id : Str) (stream : Stream) (lines : List Str)
  | polled (agentId id : Str) (stdout stderr : List Str)
  | wrote (agentId id data : Str)
  | killed (agentId id : Str)
  | listed (agentId : Str) (infos : List ProcessInfo)
  | swept (id : Str)
  | failed (agentId text : Str)
  deriving DecidableEq

/-- A part of a call that runs without a break: a start checks the limit and registers the process
later, and a cleanup kills one process after the other. Processes put out lines meanwhile. -/
inductive Step where
  | start (call : Nat) (caller : Option Str) (input : Value)
  | register (call pid : Nat)
  | poll (caller : Option Str) (input : Value)
  | write (caller : Option Str) (input : Value)
  | kill (caller : Option Str) (input : Value)
  | list (caller : Option Str)
  | cleanup (call : Nat) (stale : List Str)
  | sweep (call : Nat)
  | output (id : Str) (stream : Stream) (line : Str)

def callerId (caller : Option Str) : Str := caller.getD "default".toList

def strArgs (input : Value) : List Str :=
  ((input.index "args").asArray.getD []).filterMap Value.asStr

def missing (name : String) : Str := "Missing '".toList ++ name.toList ++ "' parameter".toList

def withNewline (data : Str) : Str := if ['\n'] <:+ data then data else data ++ ['\n']

variable (system : System)

def startStep (w : World) (call : Nat) (agentId : Str) (input : Value) : World × List Event :=
  match (input.index "command").asStr with
  | none => (w, [.failed agentId (missing "command")])
  | some command =>
    match check w.pm agentId with
    | .error e => (w, [.failed agentId e])
    | .ok () =>
      ({ w with tasks := w.tasks.insert call (.starting agentId command (strArgs input)) }, [])

def registerStep (w : World) (call pid : Nat) : World × List Event :=
  match w.tasks.lookup call with
  | some (.starting agentId command args) =>
    if system.starts command then
      (⟨register w.pm agentId command args pid, w.tasks.erase call⟩,
        [.started agentId (nextId w.pm)])
    else ({ w with tasks := w.tasks.erase call }, [.failed agentId (spawnText command)])
  | _ => (w, [])

def pollStep (w : World) (agentId : Str) (input : Value) : World × List Event :=
  match (input.index "process_id").asStr with
  | none => (w, [.failed agentId (missing "process_id")])
  | some id =>
    match read w.pm id with
    | (.error e, _) => (w, [.failed agentId e])
    | (.ok (stdout, stderr), pm) => ({ w with pm := pm }, [.polled agentId id stdout stderr])

/-- A write that fails may have reached the process in part. -/
def writeStep (w : World) (agentId : Str) (input : Value) : World × List Event :=
  match (input.index "process_id").asStr, (input.index "data").asStr with
  | none, _ => (w, [.failed agentId (missing "process_id")])
  | some _, none => (w, [.failed agentId (missing "data")])
  | some id, some data =>
    match w.pm.processes.lookup id with
    | none => (w, [.failed agentId (notFound id)])
    | some _ => (w, [.wrote agentId id (withNewline data)])

def killStep (w : World) (agentId : Str) (input : Value) : World × List Event :=
  match (input.index "process_id").asStr with
  | none => (w, [.failed agentId (missing "process_id")])
  | some id =>
    match w.pm.kill system id with
    | (.error e, _, _) => (w, [.failed agentId e])
    | (.ok (), pm, _) => ({ w with pm := pm }, [.killed agentId id])

def cleanupStep (w : World) (call : Nat) (stale : List Str) : World × List Event :=
  ({ w with tasks := w.tasks.insert call (.sweeping (w.pm.processes.keys.filter (· ∈ stale))) }, [])

def sweepStep (w : World) (call : Nat) : World × List Event :=
  match w.tasks.lookup call with
  | some (.sweeping (id :: ids)) =>
    (⟨(w.pm.kill system id).2.1, w.tasks.insert call (.sweeping ids)⟩, [.swept id])
  | _ => (w, [])

def outputStep (w : World) (id : Str) (stream : Stream) (line : Str) : World × List Event :=
  match w.pm.processes.lookup id with
  | none => (w, [])
  | some p =>
    ({ w with pm := { w.pm with processes := adjust id (receive stream line) w.pm.processes } },
      [.dropped id stream (overflow (buffer p stream)), .received id stream line])

def step (w : World) : Step → World × List Event
  | .start call caller input => startStep w call (callerId caller) input
  | .register call pid => registerStep system w call pid
  | .poll caller input => pollStep w (callerId caller) input
  | .write caller input => writeStep w (callerId caller) input
  | .kill caller input => killStep system w (callerId caller) input
  | .list caller => (w, [.listed (callerId caller) (list w.pm (callerId caller))])
  | .cleanup call stale => cleanupStep w call stale
  | .sweep call => sweepStep system w call
  | .output id stream line => outputStep w id stream line

def start (maxPerAgent : Nat) : World := ⟨⟨∅, maxPerAgent, 1⟩, ∅⟩

end Steps

section Claims

/-- The agents that see or change a process, with its id. -/
def accesses : Event → List (Str × Str)
  | .polled agentId id _ _ => [(agentId, id)]
  | .wrote agentId id _ => [(agentId, id)]
  | .killed agentId id => [(agentId, id)]
  | .listed agentId infos => infos.map fun info => (agentId, info.id)
  | _ => []

@[grind =] def pushed (id : Str) (stream : Stream) : Event → List Str
  | .received i s line => if i = id ∧ s = stream then [line] else []
  | _ => []

/-- What a poll returns of a buffer, or its overflow. -/
@[grind =] def taken (id : Str) (stream : Stream) : Event → List Str
  | .dropped i s lines => if i = id ∧ s = stream then lines else []
  | .polled _ i stdout stderr =>
    if i = id then (match stream with | .stdout => stdout | .stderr => stderr) else []
  | _ => []

/-- Every process is read, written to, killed and listed only by the agent that started it. -/
def Isolated (trace : List Event) : Prop :=
  ∀ agentId id, (agentId, id) ∈ trace.flatMap accesses → .started agentId id ∈ trace

def Limited (w : World) : Prop := ∀ agentId, w.pm.agentCount agentId ≤ w.pm.maxPerAgent

/-- The lines of a process were dropped, or returned by one poll each, in their order; the others
are still in the buffer. -/
def Accounted (w : World) (trace : List Event) : Prop :=
  ∀ id stream,
    trace.flatMap (taken id stream) <+: trace.flatMap (pushed id stream) ∧
      ∀ p, w.pm.processes.lookup id = some p →
        trace.flatMap (pushed id stream) = trace.flatMap (taken id stream) ++ buffer p stream

structure Sound (w : World) (trace : List Event) : Prop where
  isolated : Isolated trace
  limited : Limited w
  accounted : Accounted w trace

/-- The agent of a call and the process it names. -/
def target : Step → Option (Str × Str)
  | .poll caller input => (input.index "process_id").asStr.map (callerId caller, ·)
  | .write caller input =>
    if (input.index "data").asStr.isSome then
      (input.index "process_id").asStr.map (callerId caller, ·)
    else none
  | .kill caller input => (input.index "process_id").asStr.map (callerId caller, ·)
  | _ => none

/-- Nobody names a process of another agent, and a start that passed the check would pass it again
when its process is registered. -/
def Careful (system : System) (w : World) (s : Step) : Prop :=
  (∀ agentId id, target s = some (agentId, id) → ∀ p, w.pm.processes.lookup id = some p →
    p.agentId = agentId) ∧
  ∀ call pid, s = .register call pid → ∀ agentId command args,
    w.tasks.lookup call = some (.starting agentId command args) → system.starts command →
      check w.pm agentId = .ok ()

end Claims

section Records

variable {system : System} {w w' : World} {trace es : List Event} {s : Step}

/-- What the trace tells about the processes. -/
structure Tracked (w : World) (trace : List Event) : Prop where
  owned : ∀ id p, w.pm.processes.lookup id = some p → .started p.agentId id ∈ trace
  drawn : ∀ agentId id, .started agentId id ∈ trace →
    ∃ n < w.pm.nextId, id = "proc_".toList ++ showNat n
  owner : ∀ agentId agentId' id, .started agentId id ∈ trace → .started agentId' id ∈ trace →
    agentId = agentId'
  quiet : ∀ id stream, (∀ agentId, .started agentId id ∉ trace) →
    trace.flatMap (pushed id stream) = []
  accounted : Accounted w trace

/-- No process is started by the events, and no line comes or goes. -/
def Silent (es : List Event) : Prop :=
  (∀ agentId id, .started agentId id ∉ es) ∧
    ∀ id stream, es.flatMap (pushed id stream) = [] ∧ es.flatMap (taken id stream) = []

theorem silent_nil : Silent [] := by simp [Silent]

theorem silent_failed (agentId text : Str) : Silent [.failed agentId text] := by
  simp [Silent, pushed, taken]

theorem silent_wrote (agentId id data : Str) : Silent [.wrote agentId id data] := by
  simp [Silent, pushed, taken]

theorem silent_killed (agentId id : Str) : Silent [.killed agentId id] := by
  simp [Silent, pushed, taken]

theorem silent_swept (id : Str) : Silent [.swept id] := by
  simp [Silent, pushed, taken]

theorem silent_listed (agentId : Str) (infos : List ProcessInfo) :
    Silent [.listed agentId infos] := by
  simp [Silent, pushed, taken]

theorem tracked_start (maxPerAgent : Nat) : Tracked (start maxPerAgent) [] := by
  constructor <;> simp [start, Accounted]

/-- Lines come and go in the buffers of one process. -/
theorem Tracked.adjust (h : Tracked w trace) {id : Str} {p : ManagedProcess}
    {f : ManagedProcess → ManagedProcess} (hp : w.pm.processes.lookup id = some p)
    (hagent : (f p).agentId = p.agentId) (hstarted : ∀ agentId id, .started agentId id ∉ es)
    (hother : ∀ j stream, j ≠ id →
      es.flatMap (pushed j stream) = [] ∧ es.flatMap (taken j stream) = [])
    (hlines : ∀ stream, buffer p stream ++ es.flatMap (pushed id stream) =
      es.flatMap (taken id stream) ++ buffer (f p) stream) :
    Tracked { w with pm := { w.pm with processes := adjust id f w.pm.processes } }
      (trace ++ es) := by
  have hmem (agentId j : Str) : .started agentId j ∈ trace ++ es ↔ .started agentId j ∈ trace := by
    simp [hstarted]
  have hlookup (j : Str) : (Store.adjust id f w.pm.processes).lookup j =
      if j = id then some (f p) else w.pm.processes.lookup j := by
    rw [lookup_adjust]
    by_cases hj : j = id
    · rw [if_pos hj, if_pos hj, hj, hp]
      rfl
    · rw [if_neg hj, if_neg hj]
  constructor
  · intro j q hq
    rw [hmem]
    replace hq := (hlookup j).symm.trans hq
    by_cases hj : j = id
    · rw [if_pos hj] at hq
      obtain rfl := Option.some.inj hq
      rw [hagent, hj]
      exact h.owned id p hp
    · rw [if_neg hj] at hq
      exact h.owned j q hq
  · intro agentId j hj
    exact h.drawn agentId j ((hmem _ _).mp hj)
  · intro agentId agentId' j hj hj'
    exact h.owner agentId agentId' j ((hmem _ _).mp hj) ((hmem _ _).mp hj')
  · intro j stream hj
    have hne : j ≠ id := by
      rintro rfl
      exact hj p.agentId ((hmem _ _).mpr (h.owned j p hp))
    rw [List.flatMap_append, (hother j stream hne).1, List.append_nil]
    exact h.quiet j stream fun agentId hstart => hj agentId ((hmem _ _).mpr hstart)
  · intro j stream
    obtain ⟨hbegin, hbuffer⟩ := h.accounted j stream
    simp only [List.flatMap_append, hlookup]
    by_cases hj : j = id
    · subst hj
      have hall : trace.flatMap (pushed j stream) ++ es.flatMap (pushed j stream) =
          trace.flatMap (taken j stream) ++ es.flatMap (taken j stream) ++ buffer (f p) stream := by
        rw [hbuffer p hp, List.append_assoc, hlines, List.append_assoc]
      rw [if_pos rfl, hall]
      refine ⟨List.prefix_append _ _, fun q hq => ?_⟩
      rw [Option.some.inj hq]
    · obtain ⟨hpushed, htaken⟩ := hother j stream hj
      rw [hpushed, htaken, List.append_nil, List.append_nil, if_neg hj]
      exact ⟨hbegin, hbuffer⟩

/-- Processes go, and nothing else happens. -/
theorem Tracked.remove (h : Tracked w trace) (hes : Silent es)
    (hprocesses : ∀ id p, w'.pm.processes.lookup id = some p → w.pm.processes.lookup id = some p)
    (hnext : w'.pm.nextId = w.pm.nextId) : Tracked w' (trace ++ es) := by
  obtain ⟨hstarted, hlines⟩ := hes
  have hmem (agentId j : Str) : .started agentId j ∈ trace ++ es ↔ .started agentId j ∈ trace := by
    simp [hstarted]
  constructor
  · intro j q hq
    exact (hmem _ _).mpr (h.owned j q (hprocesses j q hq))
  · intro agentId j hj
    rw [hnext]
    exact h.drawn agentId j ((hmem _ _).mp hj)
  · intro agentId agentId' j hj hj'
    exact h.owner agentId agentId' j ((hmem _ _).mp hj) ((hmem _ _).mp hj')
  · intro j stream hj
    rw [List.flatMap_append, (hlines j stream).1, List.append_nil]
    exact h.quiet j stream fun agentId hstart => hj agentId ((hmem _ _).mpr hstart)
  · intro j stream
    obtain ⟨hpushed, htaken⟩ := hlines j stream
    obtain ⟨hbegin, hbuffer⟩ := h.accounted j stream
    rw [List.flatMap_append, List.flatMap_append, hpushed, htaken, List.append_nil,
      List.append_nil]
    exact ⟨hbegin, fun p hp => hbuffer p (hprocesses j p hp)⟩

theorem Tracked.same (h : Tracked w trace) (hes : Silent es) (hpm : w'.pm = w.pm) :
    Tracked w' (trace ++ es) :=
  h.remove hes (fun id p hp => by rwa [hpm] at hp) (by rw [hpm])

/-- The next id was never drawn before. -/
theorem Tracked.nextId_fresh (h : Tracked w trace) (agentId : Str) :
    .started agentId (nextId w.pm) ∉ trace := by
  intro hstarted
  obtain ⟨n, hn, hid⟩ := h.drawn _ _ hstarted
  have hshow : showNat w.pm.nextId = showNat n := List.append_cancel_left hid
  rw [SerdeJson.showNat_inj hshow] at hn
  exact Nat.lt_irrefl _ hn

theorem Tracked.lookup_nextId (h : Tracked w trace) :
    w.pm.processes.lookup (nextId w.pm) = none := by
  cases hp : w.pm.processes.lookup (nextId w.pm) with
  | none => rfl
  | some p => exact absurd (h.owned _ p hp) (h.nextId_fresh _)

theorem Tracked.register (h : Tracked w trace) (agentId command : Str) (args : List Str)
    (pid : Nat) (hpm : w'.pm = register w.pm agentId command args pid) :
    Tracked w' (trace ++ [Event.started agentId (nextId w.pm)]) := by
  have hfresh := h.nextId_fresh
  have hmem (agentId' j : Str) :
      .started agentId' j ∈ trace ++ [Event.started agentId (nextId w.pm)] ↔
        .started agentId' j ∈ trace ∨ agentId' = agentId ∧ j = nextId w.pm := by
    simp
  have hlines (j : Str) (stream : Stream) :
      [Event.started agentId (nextId w.pm)].flatMap (pushed j stream) = [] ∧
        [Event.started agentId (nextId w.pm)].flatMap (taken j stream) = [] := by
    simp [pushed, taken]
  have hlookup (j : Str) : w'.pm.processes.lookup j = if j = nextId w.pm then
      some ⟨pid, [], [], agentId, commandDisplay command args, false⟩
        else w.pm.processes.lookup j := by
    rw [hpm, ProcessTools.register, lookup_insert]
  have hnext : w'.pm.nextId = w.pm.nextId + 1 := by rw [hpm, ProcessTools.register]
  constructor
  · intro j q hq
    rw [hmem]
    rw [hlookup] at hq
    by_cases hj : j = nextId w.pm
    · rw [if_pos hj] at hq
      obtain rfl := Option.some.inj hq
      exact .inr ⟨rfl, hj⟩
    · rw [if_neg hj] at hq
      exact .inl (h.owned j q hq)
  · intro agentId' j hj
    rw [hnext]
    obtain hj | ⟨-, hj⟩ := (hmem _ _).mp hj
    · obtain ⟨n, hn, hid⟩ := h.drawn _ _ hj
      exact ⟨n, Nat.lt_succ_of_lt hn, hid⟩
    · exact ⟨w.pm.nextId, Nat.lt_succ_self _, hj⟩
  · intro a b j ha hb
    obtain hold | ⟨hagent, hnew⟩ := (hmem _ _).mp ha <;>
      obtain hold' | ⟨hagent', hnew'⟩ := (hmem _ _).mp hb
    · exact h.owner a b j hold hold'
    · rw [hnew'] at hold
      exact absurd hold (hfresh a)
    · rw [hnew] at hold'
      exact absurd hold' (hfresh b)
    · rw [hagent, hagent']
  · intro j stream hj
    rw [List.flatMap_append, (hlines j stream).1, List.append_nil]
    exact h.quiet j stream fun agentId' hstart => hj agentId' ((hmem _ _).mpr (.inl hstart))
  · intro j stream
    obtain ⟨hbegin, hbuffer⟩ := h.accounted j stream
    obtain ⟨hpushed, htaken⟩ := hlines j stream
    rw [List.flatMap_append, List.flatMap_append, hpushed, htaken, List.append_nil,
      List.append_nil, hlookup]
    refine ⟨hbegin, fun p hp => ?_⟩
    by_cases hj : j = nextId w.pm
    · rw [if_pos hj] at hp
      obtain rfl := Option.some.inj hp
      have hquiet := h.quiet j stream fun agentId' hstart => hfresh agentId' (hj ▸ hstart)
      rw [hquiet, List.prefix_nil] at hbegin
      rw [hquiet, hbegin]
      cases stream <;> rfl
    · rw [if_neg hj] at hp
      exact hbuffer p hp

end Records

section Counts

variable {pm : ProcessManager}

theorem agentCount_adjust {f : ManagedProcess → ManagedProcess}
    (hf : ∀ p, (f p).agentId = p.agentId) (id agentId : Str) :
    ({ pm with processes := adjust id f pm.processes } : ProcessManager).agentCount agentId =
      pm.agentCount agentId := by
  show (values (adjust id f pm.processes)).countP _ = (values pm.processes).countP _
  rw [adjust, values_mapValues, values, List.countP_map, List.countP_map]
  apply List.countP_congr
  intro e _
  by_cases he : e.1 = id <;> simp [he, hf]

theorem agentCount_erase_le (id agentId : Str) :
    ({ pm with processes := pm.processes.erase id } : ProcessManager).agentCount agentId ≤
      pm.agentCount agentId :=
  (values_erase_sublist id pm.processes).countP_le

theorem agentCount_register (h : pm.processes.lookup (nextId pm) = none) (agentId command : Str)
    (args : List Str) (pid : Nat) (agentId' : Str) :
    (register pm agentId command args pid).agentCount agentId' =
      pm.agentCount agentId' + if agentId = agentId' then 1 else 0 := by
  simp only [ProcessManager.agentCount, register, values_insert, erase_of_none h,
    List.countP_cons]
  by_cases hagent : agentId = agentId' <;> simp [hagent]

theorem check_eq_ok {agentId : Str} :
    check pm agentId = .ok () ↔ pm.agentCount agentId < pm.maxPerAgent := by
  by_cases h : pm.maxPerAgent ≤ pm.agentCount agentId
  · simp [check, h]
  · simp [check, h, Nat.lt_of_not_le h]

theorem kill_cases (system : System) (pm : ProcessManager) (id : Str) :
    (pm.processes.lookup id = none ∧ (pm.kill system id).1 = .error (notFound id) ∧
      (pm.kill system id).2.1 = pm) ∨
    ∃ p, pm.processes.lookup id = some p ∧ (pm.kill system id).1 = .ok () ∧
      (pm.kill system id).2.1 = { pm with processes := pm.processes.erase id } := by
  rw [ProcessManager.kill]
  cases pm.processes.lookup id with
  | none => exact .inl ⟨rfl, rfl, rfl⟩
  | some p => exact .inr ⟨p, rfl, rfl, rfl⟩

end Counts

section Following

variable {system : System} {w w' : World} {trace es : List Event}

/-- A step keeps the records, and is sound on a condition. -/
structure Follows (trace : List Event) (p : World × List Event) (condition : Prop) : Prop where
  tracked : Tracked p.1 (trace ++ p.2)
  sound : Sound p.1 (trace ++ p.2) ↔ condition

theorem isolated_append (h : Isolated trace) : Isolated (trace ++ es) ↔
    ∀ agentId id, (agentId, id) ∈ es.flatMap accesses → .started agentId id ∈ trace ++ es := by
  constructor
  · intro hall agentId id hmem
    apply hall
    rw [List.flatMap_append]
    exact List.mem_append_right _ hmem
  · intro hes agentId id hmem
    rw [List.flatMap_append, List.mem_append] at hmem
    exact hmem.elim (fun hold => List.mem_append_left _ (h agentId id hold)) (hes agentId id)

/-- The records tell who owns a process. -/
theorem Tracked.started_iff (h : Tracked w trace) {id : Str} {p : ManagedProcess}
    (hp : w.pm.processes.lookup id = some p) (agentId : Str) :
    .started agentId id ∈ trace ↔ p.agentId = agentId := by
  constructor
  · intro hstarted
    exact h.owner _ _ id (h.owned id p hp) hstarted
  · rintro rfl
    exact h.owned id p hp

/-- A step that nobody's process takes part in. -/
theorem follows_quiet (ht : Tracked w trace) (hs : Sound w trace) (hes : Silent es)
    (haccess : es.flatMap accesses = []) (hpm : w'.pm = w.pm) : Follows trace (w', es) True := by
  have htracked : Tracked w' (trace ++ es) := ht.same hes hpm
  refine ⟨htracked, iff_of_true ⟨?_, ?_, htracked.accounted⟩ trivial⟩
  · rw [isolated_append hs.isolated, haccess]
    simp
  · intro agentId
    rw [hpm]
    exact hs.limited agentId

/-- A step that gives an agent access to a process. -/
theorem follows_access (ht : Tracked w trace) (hs : Sound w trace)
    (htracked : Tracked w' (trace ++ es)) {agentId id : Str} {p : ManagedProcess}
    (haccess : es.flatMap accesses = [(agentId, id)]) (hp : w.pm.processes.lookup id = some p)
    (hstarted : ∀ agentId id, .started agentId id ∉ es)
    (hcount : ∀ agentId, w'.pm.agentCount agentId ≤ w.pm.agentCount agentId)
    (hmax : w'.pm.maxPerAgent = w.pm.maxPerAgent) :
    Follows trace (w', es) (p.agentId = agentId) := by
  refine ⟨htracked, ?_⟩
  have hlimited : Limited w' := fun agentId =>
    (hcount agentId).trans ((hs.limited agentId).trans hmax.ge)
  have hmem : .started agentId id ∈ trace ++ es ↔ p.agentId = agentId := by
    rw [List.mem_append, or_iff_left (hstarted _ _), ht.started_iff hp]
  rw [← hmem]
  constructor
  · intro hsound
    have hisolated := (isolated_append hs.isolated).mp hsound.isolated
    rw [haccess] at hisolated
    exact hisolated agentId id List.mem_cons_self
  · intro hown
    refine ⟨(isolated_append hs.isolated).mpr ?_, hlimited, htracked.accounted⟩
    rw [haccess]
    intro a i hai
    obtain ⟨rfl, rfl⟩ := Prod.mk.inj (List.mem_singleton.mp hai)
    exact hown

theorem Follows.congr {p : World × List Event} {condition condition' : Prop}
    (h : Follows trace p condition) (hcond : condition ↔ condition') :
    Follows trace p condition' :=
  ⟨h.tracked, h.sound.trans hcond⟩

theorem follows_failed (ht : Tracked w trace) (hs : Sound w trace) (agentId text : Str) :
    Follows trace (w, [.failed agentId text]) True :=
  follows_quiet ht hs (silent_failed agentId text) rfl rfl

/-- The condition on a call that names a process. -/
def OwnProcess (w : World) (agentId : Str) (named : Option Str) : Prop :=
  ∀ id, named = some id → ∀ p, w.pm.processes.lookup id = some p → p.agentId = agentId

theorem follows_poll (ht : Tracked w trace) (hs : Sound w trace) (agentId : Str) (input : Value) :
    Follows trace (pollStep w agentId input)
      (OwnProcess w agentId (input.index "process_id").asStr) := by
  rw [pollStep, OwnProcess]
  cases hid : (input.index "process_id").asStr with
  | none => exact (follows_failed ht hs _ _).congr (by simp)
  | some id =>
    cases hp : w.pm.processes.lookup id with
    | none =>
      simp only [read, hp]
      exact (follows_failed ht hs _ _).congr (by simp [hp])
    | some p =>
      have hdrain (stream : Stream) : buffer (drain p) stream = [] := by cases stream <;> rfl
      have htracked : Tracked
          { w with pm := { w.pm with processes := adjust id drain w.pm.processes } }
          (trace ++ [Event.polled agentId id p.stdoutBuf p.stderrBuf]) := by
        apply ht.adjust hp rfl
        · simp
        · intro j stream hj
          simp [pushed, taken, Ne.symm hj]
        · intro stream
          rw [hdrain]
          cases stream <;> simp [pushed, taken, buffer]
      simp only [read, hp]
      refine Follows.congr (follows_access ht hs htracked rfl hp (by simp) ?_ rfl) (by simp [hp])
      intro a
      exact (@agentCount_adjust w.pm drain (fun _ => rfl) id a).le

theorem follows_write (ht : Tracked w trace) (hs : Sound w trace) (agentId : Str)
    (input : Value) : Follows trace (writeStep w agentId input)
      (OwnProcess w agentId (if (input.index "data").asStr.isSome then
        (input.index "process_id").asStr else none)) := by
  rw [writeStep, OwnProcess]
  cases hid : (input.index "process_id").asStr with
  | none => exact (follows_failed ht hs _ _).congr (by simp)
  | some id =>
    cases hdata : (input.index "data").asStr with
    | none => exact (follows_failed ht hs _ _).congr (by simp)
    | some data =>
      cases hp : w.pm.processes.lookup id with
      | none =>
        simp only [hp]
        exact (follows_failed ht hs _ _).congr (by simp [hp])
      | some p =>
        simp only [hp]
        exact Follows.congr (follows_access ht hs (ht.same (silent_wrote _ _ _) rfl) rfl hp
          (by simp) (fun _ => le_rfl) rfl) (by simp [hp])

theorem Tracked.kill (ht : Tracked w trace) (hes : Silent es) (id : Str)
    (hpm : w'.pm = (w.pm.kill system id).2.1) : Tracked w' (trace ++ es) := by
  obtain ⟨-, -, hkill⟩ | ⟨p, -, -, hkill⟩ := kill_cases system w.pm id <;> rw [hkill] at hpm
  · exact ht.same hes hpm
  · refine ht.remove hes (fun j q hq => ?_) (by rw [hpm])
    rw [hpm, lookup_erase] at hq
    by_cases hj : j = id
    · rw [if_pos hj] at hq
      cases hq
    · rwa [if_neg hj] at hq

theorem agentCount_kill_le (id agentId : Str) :
    (w.pm.kill system id).2.1.agentCount agentId ≤ w.pm.agentCount agentId := by
  obtain ⟨-, -, hkill⟩ | ⟨p, -, -, hkill⟩ := kill_cases system w.pm id <;> rw [hkill]
  exact agentCount_erase_le id agentId

theorem maxPerAgent_kill (id : Str) :
    (w.pm.kill system id).2.1.maxPerAgent = w.pm.maxPerAgent := by
  obtain ⟨-, -, hkill⟩ | ⟨p, -, -, hkill⟩ := kill_cases system w.pm id <;> rw [hkill]

theorem follows_kill (ht : Tracked w trace) (hs : Sound w trace) (agentId : Str)
    (input : Value) : Follows trace (killStep system w agentId input)
      (OwnProcess w agentId (input.index "process_id").asStr) := by
  rw [killStep, OwnProcess]
  cases hid : (input.index "process_id").asStr with
  | none => exact (follows_failed ht hs _ _).congr (by simp)
  | some id =>
    have htracked : Tracked { w with pm := (w.pm.kill system id).2.1 }
        (trace ++ [Event.killed agentId id]) := ht.kill (silent_killed _ _) id rfl
    have hcount := @agentCount_kill_le system w id
    cases hp : w.pm.processes.lookup id with
    | none =>
      simp only [ProcessManager.kill, hp]
      exact (follows_failed ht hs _ _).congr (by simp [hp])
    | some p =>
      simp only [ProcessManager.kill, hp] at htracked hcount ⊢
      exact Follows.congr (follows_access ht hs htracked rfl hp (by simp) hcount rfl)
        (by simp [hp])

theorem follows_list (ht : Tracked w trace) (hs : Sound w trace) (agentId : Str) :
    Follows trace (w, [.listed agentId (list w.pm agentId)]) True := by
  have htracked := ht.same (silent_listed agentId (list w.pm agentId)) rfl
  refine ⟨htracked, iff_of_true ⟨(isolated_append hs.isolated).mpr ?_, hs.limited,
    htracked.accounted⟩ trivial⟩
  intro a id hmem
  simp only [List.flatMap_cons, List.flatMap_nil, List.append_nil, accesses, list, List.map_map,
    List.mem_map, List.mem_filter, decide_eq_true_eq] at hmem
  obtain ⟨e, ⟨he, hagent⟩, hae⟩ := hmem
  obtain ⟨rfl, rfl⟩ := Prod.mk.inj hae
  exact List.mem_append_left _ ((ht.started_iff (mem_entries.mp he) _).mpr hagent)

theorem follows_sweep (ht : Tracked w trace) (hs : Sound w trace) (call : Nat) :
    Follows trace (sweepStep system w call) True := by
  rw [sweepStep]
  split
  · rename_i id ids _
    have htracked : Tracked ⟨(w.pm.kill system id).2.1, w.tasks.insert call (.sweeping ids)⟩
        (trace ++ [Event.swept id]) := ht.kill (silent_swept id) id rfl
    refine ⟨htracked, iff_of_true ⟨?_, ?_, htracked.accounted⟩ trivial⟩
    · exact (isolated_append hs.isolated).mpr (by simp [accesses])
    · intro agentId
      exact (agentCount_kill_le id agentId).trans
        ((hs.limited agentId).trans (maxPerAgent_kill id).ge)
  · exact follows_quiet ht hs silent_nil rfl rfl

theorem buffer_setBuffer (stream stream' : Stream) (lines : List Str) (p : ManagedProcess) :
    buffer (setBuffer stream lines p) stream' =
      if stream = stream' then lines else buffer p stream' := by
  cases stream <;> cases stream' <;> rfl

theorem overflow_append (lines : List Str) (line : Str) :
    overflow lines ++ pushLine lines line = lines ++ [line] := by
  by_cases h : maxLines ≤ lines.length
  · rw [overflow, pushLine, if_pos h, if_pos h, ← List.append_assoc, List.take_append_drop]
  · rw [overflow, pushLine, if_neg h, if_neg h, List.nil_append]

theorem follows_output (ht : Tracked w trace) (hs : Sound w trace) (id : Str) (stream : Stream)
    (line : Str) : Follows trace (outputStep w id stream line) True := by
  have hagent (q : ManagedProcess) : (receive stream line q).agentId = q.agentId := by
    cases stream <;> rfl
  rw [outputStep]
  cases hp : w.pm.processes.lookup id with
  | none => exact follows_quiet ht hs silent_nil rfl rfl
  | some p =>
    have htracked : Tracked
        { w with pm := { w.pm with processes := adjust id (receive stream line) w.pm.processes } }
        (trace ++ [Event.dropped id stream (overflow (buffer p stream)),
          .received id stream line]) := by
      apply ht.adjust hp (hagent p)
      · simp
      · intro j stream' hj
        simp [pushed, taken, Ne.symm hj]
      · intro stream'
        rw [receive, buffer_setBuffer]
        by_cases hstream : stream = stream'
        · subst hstream
          simp [pushed, taken, overflow_append]
        · simp [pushed, taken, hstream]
    refine ⟨htracked, iff_of_true ⟨?_, ?_, htracked.accounted⟩ trivial⟩
    · exact (isolated_append hs.isolated).mpr (by simp [accesses])
    · intro agentId
      exact (agentCount_adjust hagent id agentId).le.trans (hs.limited agentId)

theorem follows_register (ht : Tracked w trace) (hs : Sound w trace) (call pid : Nat) :
    Follows trace (registerStep system w call pid) (∀ agentId command args,
      w.tasks.lookup call = some (.starting agentId command args) → system.starts command →
        check w.pm agentId = .ok ()) := by
  rw [registerStep]
  cases htask : w.tasks.lookup call with
  | none => exact (follows_quiet ht hs silent_nil rfl rfl).congr (by simp)
  | some task =>
    cases task with
    | sweeping ids => exact (follows_quiet ht hs silent_nil rfl rfl).congr (by simp)
    | starting agentId command args =>
      cases hstarts : system.starts command with
      | false =>
        simp only [hstarts, Bool.false_eq_true, if_false]
        exact Follows.congr (follows_quiet ht hs (silent_failed _ _) rfl rfl) (by simp [hstarts])
      | true =>
        have hcount := agentCount_register ht.lookup_nextId agentId command args pid
        have htracked : Tracked ⟨register w.pm agentId command args pid, w.tasks.erase call⟩
            (trace ++ [Event.started agentId (nextId w.pm)]) :=
          ht.register agentId command args pid rfl
        simp only [hstarts, if_true]
        refine ⟨htracked, ?_⟩
        constructor
        · intro hsound agentId' command' args' heq _
          obtain ⟨rfl, rfl, rfl⟩ := Task.starting.inj (Option.some.inj heq)
          have hlimit := hsound.limited agentId
          rw [check_eq_ok]
          simp only [hcount, if_true] at hlimit
          exact hlimit
        · intro h
          have hroom := check_eq_ok.mp (h agentId command args rfl hstarts)
          refine ⟨(isolated_append hs.isolated).mpr (by simp [accesses]), fun agentId' => ?_,
            htracked.accounted⟩
          have hlimit := hs.limited agentId'
          simp only [hcount]
          by_cases hagent : agentId = agentId'
          · rw [if_pos hagent, ← hagent]
            exact hroom
          · rw [if_neg hagent]
            exact hlimit

theorem follows_start (ht : Tracked w trace) (hs : Sound w trace) (call : Nat) (agentId : Str)
    (input : Value) : Follows trace (startStep w call agentId input) True := by
  rw [startStep]
  cases (input.index "command").asStr with
  | none => exact follows_failed ht hs _ _
  | some command =>
    cases hcheck : check w.pm agentId with
    | error e => exact follows_failed ht hs _ _
    | ok u => exact follows_quiet ht hs silent_nil rfl rfl

theorem ownProcess_iff (agentId : Str) (named : Option Str) : OwnProcess w agentId named ↔
    ∀ agentId' id, named.map (agentId, ·) = some (agentId', id) → ∀ p,
      w.pm.processes.lookup id = some p → p.agentId = agentId' := by
  cases named with
  | none => simp [OwnProcess]
  | some id =>
    constructor
    · intro h agentId' id' heq
      obtain ⟨rfl, rfl⟩ := Prod.mk.inj (Option.some.inj heq)
      exact h id rfl
    · intro h id' heq
      exact h agentId id' (congrArg (Option.map (agentId, ·)) heq)

/-- Only the registration of a process asks for room. -/
theorem careful_iff {s : Step} (h : ∀ call pid, s ≠ .register call pid) :
    Careful system w s ↔ ∀ agentId id, target s = some (agentId, id) → ∀ p,
      w.pm.processes.lookup id = some p → p.agentId = agentId :=
  and_iff_left fun call pid hs => absurd hs (h call pid)

theorem follows_step (ht : Tracked w trace) (hs : Sound w trace) (s : Step) :
    Follows trace (step system w s) (Careful system w s) := by
  cases s with
  | start call caller input =>
    exact Follows.congr (follows_start ht hs call _ input) (by simp [Careful, target])
  | register call pid =>
    exact Follows.congr (follows_register ht hs call pid) (by simp [Careful, target])
  | poll caller input =>
    refine Follows.congr (follows_poll ht hs _ input) ?_
    rw [ownProcess_iff, careful_iff (by simp)]
    rfl
  | write caller input =>
    refine Follows.congr (follows_write ht hs _ input) ?_
    rw [ownProcess_iff, careful_iff (by simp), target]
    by_cases hdata : (input.index "data").asStr.isSome
    · rw [if_pos hdata, if_pos hdata]
    · rw [if_neg hdata, if_neg hdata]
      rfl
  | kill caller input =>
    refine Follows.congr (follows_kill ht hs _ input) ?_
    rw [ownProcess_iff, careful_iff (by simp)]
    rfl
  | list caller => exact Follows.congr (follows_list ht hs _) (by simp [Careful, target])
  | cleanup call stale =>
    exact Follows.congr (follows_quiet ht hs silent_nil rfl rfl) (by simp [Careful, target])
  | sweep call => exact Follows.congr (follows_sweep ht hs call) (by simp [Careful, target])
  | output id stream line =>
    exact Follows.congr (follows_output ht hs id stream line) (by simp [Careful, target])

theorem sound_start (maxPerAgent : Nat) : Sound (start maxPerAgent) [] :=
  ⟨by simp [Isolated], fun _ => Nat.zero_le _, (tracked_start maxPerAgent).accounted⟩

/-- Agents have access to their own processes only, stay within the limit, and get every line once,
exactly when nobody names the process of another and no room that a start found is used up before
its process is registered. -/
theorem processes_isolated_iff (system : System) (maxPerAgent : Nat) (steps : List Step) :
    (∀ done, done <+: steps → Sound (run (step system) (start maxPerAgent) done).1
      (run (step system) (start maxPerAgent) done).2) ↔
      Allowed (step system) (Careful system) (start maxPerAgent) steps := by
  have hstep (w : World) (trace : List Event) (s : Step) (h : Tracked w trace ∧ Sound w trace) :
      (Tracked (step system w s).1 (trace ++ (step system w s).2) ∧
        Sound (step system w s).1 (trace ++ (step system w s).2)) ↔ Careful system w s := by
    have hfollows : Follows trace (step system w s) (Careful system w s) :=
      follows_step h.1 h.2 s
    rw [← hfollows.sound, and_iff_right hfollows.tracked]
  have hinv := forall_prefix_run_iff_allowed (step system) hstep
    ⟨tracked_start maxPerAgent, sound_start maxPerAgent⟩ steps
  rw [← hinv]
  constructor
  · intro h done hdone
    refine ⟨?_, h done hdone⟩
    induction done using List.reverseRecOn with
    | nil => exact tracked_start maxPerAgent
    | append_singleton done s ih =>
      have hearlier : done <+: steps := (List.prefix_append done [s]).trans hdone
      have hfollows := @follows_step system _ _ (ih hearlier) (h done hearlier) s
      rw [run_append, run_cons, run_nil]
      simpa using hfollows.tracked
  · intro h done hdone
    exact (h done hdone).2

end Following

section Examples

def openSystem : System := ⟨fun _ => true, fun _ => true⟩

def startCat (call : Nat) : Step :=
  .start call (some "a".toList) (.obj [("command", .string "cat".toList)])

/-- Both starts of an agent find room for one process. Then another agent guesses an id. -/
def crossing : List Step :=
  [startCat 0, startCat 1, .register 0 100, .register 1 101,
    .kill (some "b".toList) (.obj [("process_id", .string "proc_1".toList)])]

/-- The agent has two processes where one is allowed, and a stranger kills one of them. -/
theorem crossing_not_sound :
    (¬ ∀ done, done <+: crossing → Limited (run (step openSystem) (start 1) done).1) ∧
      ¬ ∀ done, done <+: crossing → Isolated (run (step openSystem) (start 1) done).2 := by
  constructor
  · intro h
    have hlimit := h (crossing.take 4) (List.take_prefix _ _) "a".toList
    have htwo : (run (step openSystem) (start 1) (crossing.take 4)).1.pm.agentCount "a".toList =
        2 := by decide
    have hone : (run (step openSystem) (start 1) (crossing.take 4)).1.pm.maxPerAgent = 1 := rfl
    omega
  · intro h
    have hstarted := h crossing List.prefix_rfl "b".toList "proc_1".toList (by decide)
    exact absurd hstarted (by decide)

end Examples

end Clawreform.Runtime.ProcessTools
