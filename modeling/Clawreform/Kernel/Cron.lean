import Clawreform.Lib.Run
import Clawreform.Lib.Store
import Clawreform.Types.Scheduler

namespace Clawreform.Kernel

open Clawreform.Lib.Text Clawreform.Lib.Run Clawreform.Lib.Store Clawreform.Types

def maxConsecutiveErrors : UInt32 := 5

/-- The Unicode property of being alphanumeric, and the cron library: the times
after a moment that an expression in seven fields asks for, if it parses. -/
structure CronLibrary where
  isAlphanumeric : Char → Bool
  upcoming : Str → Option (DateTime → Option DateTime)

structure JobMeta where
  job : CronJob
  oneShot : Bool
  lastStatus : Option Str
  consecutiveErrors : UInt32
  deriving DecidableEq

def JobMeta.new (job : CronJob) (oneShot : Bool) : JobMeta where
  job := job
  oneShot := oneShot
  lastStatus := none
  consecutiveErrors := 0

section NextRun

def asI64 (n : UInt64) : Int := if n.toNat < 2 ^ 63 then n.toNat else n.toNat - 2 ^ 64

/-- A duration of more milliseconds than an `i64` holds panics. -/
def durationSeconds (secs : Int) : Option Int :=
  if secs.natAbs ≤ (2 ^ 63 - 1) / 1000 then some (secs * nanosPerSec) else none

def minUtc : DateTime := -8334601228800 * nanosPerSec

def maxUtc : DateTime := 8210266876800 * nanosPerSec - 1

/-- Adding past the last date panics. -/
def addDuration (now : DateTime) (duration : Int) : Option DateTime :=
  if minUtc ≤ now + duration ∧ now + duration ≤ maxUtc then some (now + duration) else none

def hour : Int := 3600 * nanosPerSec

def sevenField (expr : Str) : Str :=
  let trimmed := trim expr
  match (splitWhitespace trimmed).length with
  | 5 => "0 ".toList ++ trimmed ++ " *".toList
  | 6 => trimmed ++ " *".toList
  | _ => expr

/-- Nothing when the computation panics. -/
def computeNextRun (L : CronLibrary) (schedule : CronSchedule) (now : DateTime) :
    Option DateTime :=
  match schedule with
  | .at time => some time
  | .every everySecs => (durationSeconds (asI64 everySecs)).bind (addDuration now)
  | .cron expr _ =>
    match L.upcoming (sevenField expr) with
    | some next => (next now).or (addDuration now hour)
    | none => addDuration now hour

end NextRun

/-- A job whose next run cannot be computed is left as it is. -/
def JobMeta.advance (L : CronLibrary) (now : DateTime) (m : JobMeta) : JobMeta :=
  match computeNextRun L m.job.schedule now with
  | some time => { m with job.nextRun := some time }
  | none => m

def JobMeta.isDue (now : DateTime) (m : JobMeta) : Bool :=
  m.job.enabled && m.job.nextRun.any (· ≤ now)

structure CronScheduler where
  jobs : Map CronJobId JobMeta
  maxTotalJobs : Nat
  deriving DecidableEq

namespace CronScheduler

def new (maxTotalJobs : Nat) : CronScheduler where
  jobs := ∅
  maxTotalJobs := maxTotalJobs

/-- What reading the file of jobs comes to. -/
inductive PersistFile where
  | missing
  | unreadable (error : Str)
  | unparsable (error : Str)
  | metas (metas : List JobMeta)
  deriving DecidableEq

variable (L : CronLibrary) (s : CronScheduler)

def load (file : PersistFile) : CronScheduler × Except ClawReformError Nat :=
  match file with
  | .missing => (s, .ok 0)
  | .unreadable error =>
    (s, .error (.internal ("Failed to read cron jobs: ".toList ++ error)))
  | .unparsable error =>
    (s, .error (.internal ("Failed to parse cron jobs: ".toList ++ error)))
  | .metas metas =>
    ({ s with jobs := metas.foldl (fun jobs m => jobs.insert m.job.id m) s.jobs }, .ok metas.length)

/-- What the file holds after writing it. -/
def persist : PersistFile := .metas (values s.jobs)

def countFor (agentId : AgentId) : Nat :=
  (values s.jobs).countP fun m => m.job.agentId = agentId

/-- The clock is read for validating the job at `now` and for its next run at
`later`. Nothing when computing the next run panics. -/
def addJob (job : CronJob) (oneShot : Bool) (now later : DateTime) :
    CronScheduler × Option (Except ClawReformError CronJobId) :=
  if s.maxTotalJobs ≤ s.jobs.entries.length then
    (s, some (.error (.internal ("Global cron job limit reached (".toList ++
      showNat s.maxTotalJobs ++ ")".toList))))
  else
    match job.validate L.isAlphanumeric now (s.countFor job.agentId) with
    | .error error => (s, some (.error (.invalidInput error)))
    | .ok () =>
      match computeNextRun L job.schedule later with
      | none => (s, none)
      | some time =>
        ({ s with jobs := s.jobs.insert job.id (.new { job with nextRun := some time } oneShot) },
          some (.ok job.id))

def notFound (id : CronJobId) : ClawReformError :=
  .internal ("Cron job ".toList ++ id.toStr ++ " not found".toList)

def removeJob (id : CronJobId) : CronScheduler × Except ClawReformError CronJob :=
  match s.jobs.lookup id with
  | some m => ({ s with jobs := s.jobs.erase id }, .ok m.job)
  | none => (s, .error (notFound id))

def enable (enabled : Bool) (now : DateTime) (m : JobMeta) : JobMeta :=
  if enabled then
    { m with job.enabled := enabled, consecutiveErrors := 0 : JobMeta }.advance L now
  else { m with job.enabled := enabled }

def setEnabled (id : CronJobId) (enabled : Bool) (now : DateTime) :
    CronScheduler × Except ClawReformError Unit :=
  match s.jobs.lookup id with
  | some _ => ({ s with jobs := adjust id (enable L enabled now) s.jobs }, .ok ())
  | none => (s, .error (notFound id))

/-- The jobs passed before the next run of a due job panics. The clock is read
again for every due job. -/
def passed (now : DateTime) (clock : CronJobId → DateTime) : List CronJobId :=
  (s.jobs.entries.takeWhile fun e =>
    !(e.2.isDue now && (computeNextRun L e.2.job.schedule (clock e.1)).isNone)).map (·.1)

/-- Nothing is returned when a computation panics. -/
def dueJobs (now : DateTime) (clock : CronJobId → DateTime) :
    CronScheduler × Option (List CronJob) :=
  ({ s with
     jobs := mapValues (fun id m =>
       if id ∈ s.passed L now clock ∧ m.isDue now then m.advance L (clock id) else m) s.jobs },
    if (s.passed L now clock).length = s.jobs.entries.length then
      some (((values s.jobs).filter (JobMeta.isDue now)).map (·.job))
    else none)

def succeed (now later : DateTime) (m : JobMeta) : JobMeta :=
  let m' := { m with job.lastRun := some now, lastStatus := some "ok".toList, consecutiveErrors := 0 }
  if m.oneShot then m' else m'.advance L later

def recordSuccess (id : CronJobId) (now later : DateTime) : CronScheduler :=
  match s.jobs.lookup id with
  | some m =>
    if m.oneShot then { s with jobs := (adjust id (succeed L now later) s.jobs).erase id }
    else { s with jobs := adjust id (succeed L now later) s.jobs }
  | none => s

/-- A message whose byte 256 falls inside a character panics after the time of
the run is set. -/
def fail (errorMsg : Str) (now later : DateTime) (m : JobMeta) : JobMeta :=
  let m' := { m with job.lastRun := some now }
  match splitBytes (min (byteLen errorMsg) 256) errorMsg with
  | none => m'
  | some (cut, _) =>
    let m' := { m' with
      lastStatus := some ("error: ".toList ++ cut)
      consecutiveErrors := m.consecutiveErrors + 1 }
    if maxConsecutiveErrors ≤ m'.consecutiveErrors then { m' with job.enabled := false }
    else m'.advance L later

def recordFailure (id : CronJobId) (errorMsg : Str) (now later : DateTime) : CronScheduler :=
  { s with jobs := adjust id (fail L errorMsg now later) s.jobs }

inductive Op where
  | load (file : PersistFile)
  | addJob (job : CronJob) (oneShot : Bool) (now later : DateTime)
  | removeJob (id : CronJobId)
  | setEnabled (id : CronJobId) (enabled : Bool) (now : DateTime)
  | dueJobs (now : DateTime) (clock : CronJobId → DateTime)
  | recordSuccess (id : CronJobId) (now later : DateTime)
  | recordFailure (id : CronJobId) (errorMsg : Str) (now later : DateTime)

/-- One operation, and the jobs it returns as due. -/
def step (s : CronScheduler) : Op → CronScheduler × List CronJob
  | .load file => ((s.load file).1, [])
  | .addJob job oneShot now later => ((s.addJob L job oneShot now later).1, [])
  | .removeJob id => ((s.removeJob id).1, [])
  | .setEnabled id enabled now => ((s.setEnabled L id enabled now).1, [])
  | .dueJobs now clock => ((s.dueJobs L now clock).1, ((s.dueJobs L now clock).2).getD [])
  | .recordSuccess id now later => (s.recordSuccess L id now later, [])
  | .recordFailure id errorMsg now later => (s.recordFailure L id errorMsg now later, [])

end CronScheduler

end Clawreform.Kernel
