import Clawreform.Types.Agent

namespace Clawreform.Types

open Clawreform.Lib.Text

def maxJobsPerAgent : Nat := 50

def maxNameLen : Nat := 128

def minEverySecs : UInt64 := 60

def maxEverySecs : UInt64 := 86400

def maxAtHorizonSecs : Int := 365 * 24 * 3600

def maxEventTextLen : Nat := 4096

def maxTurnMessageLen : Nat := 16384

def minTimeoutSecs : UInt64 := 10

def maxTimeoutSecs : UInt64 := 600

def maxWebhookUrlLen : Nat := 2048

abbrev CronJobId := Uuid

inductive CronSchedule where
  | at (time : DateTime)
  | every (everySecs : UInt64)
  | cron (expr : Str) (tz : Option Str)
  deriving DecidableEq

inductive CronAction where
  | systemEvent (text : Str)
  | agentTurn (message : Str) (modelOverride : Option Str) (timeoutSecs : Option UInt64)
  deriving DecidableEq

inductive CronDelivery where
  | none
  | channel (channel recipient : Str)
  | lastChannel
  | webhook (url : Str)
  deriving DecidableEq

structure CronJob where
  id : CronJobId
  agentId : AgentId
  name : Str
  enabled : Bool
  schedule : CronSchedule
  action : CronAction
  delivery : CronDelivery
  createdAt : DateTime
  lastRun : Option DateTime
  nextRun : Option DateTime
  deriving DecidableEq

def nanosPerSec : Int := 1000000000

/-- The characters a cron field is made of. -/
def isCronChar (c : Char) : Bool := c.isDigit || c ∈ ['*', '/', '-', ',', '?']

def validateCronFields (i : Nat) : List Str → Except Str Unit
  | [] => .ok ()
  | field :: fields =>
    if field = [] then .error ("cron field ".toList ++ showNat i ++ " is empty".toList)
    else if field.all isCronChar then validateCronFields (i + 1) fields
    else
      .error ("cron field ".toList ++ showNat i ++ " contains invalid characters: \"".toList ++
        field ++ "\"".toList)

def validateCronExpr (expr : Str) : Except Str Unit :=
  let trimmed := trim expr
  if trimmed = [] then .error "cron expression must not be empty".toList
  else
    let fields := splitWhitespace trimmed
    if fields.length ≠ 5 then
      .error ("cron expression must have exactly 5 fields (got ".toList ++
        showNat fields.length ++ "): \"".toList ++ trimmed ++ "\"".toList)
    else validateCronFields 0 fields

namespace CronJob

variable (job : CronJob)

/-- Whole seconds, rounded towards zero. -/
def wholeSecs (d : Int) : Int := d.tdiv nanosPerSec

def validateSchedule (now : DateTime) : Except Str Unit :=
  match job.schedule with
  | .every everySecs =>
    if everySecs < minEverySecs then
      .error ("every_secs too small (".toList ++ showNat everySecs.toNat ++ ", min ".toList ++
        showNat minEverySecs.toNat ++ ")".toList)
    else if maxEverySecs < everySecs then
      .error ("every_secs too large (".toList ++ showNat everySecs.toNat ++ ", max ".toList ++
        showNat maxEverySecs.toNat ++ ")".toList)
    else .ok ()
  | .at time =>
    if time ≤ now then .error "scheduled time must be in the future".toList
    else if maxAtHorizonSecs < wholeSecs (time - now) then
      .error ("scheduled time too far in the future (max ".toList ++
        showNat maxAtHorizonSecs.toNat ++ "s / ~1 year)".toList)
    else .ok ()
  | .cron expr _ => validateCronExpr expr

def validateAction : Except Str Unit :=
  match job.action with
  | .systemEvent text =>
    if text = [] then .error "system event text must not be empty".toList
    else if maxEventTextLen < byteLen text then
      .error ("system event text too long (".toList ++ showNat (byteLen text) ++
        " chars, max ".toList ++ showNat maxEventTextLen ++ ")".toList)
    else .ok ()
  | .agentTurn message _ timeoutSecs =>
    if message = [] then .error "agent turn message must not be empty".toList
    else if maxTurnMessageLen < byteLen message then
      .error ("agent turn message too long (".toList ++ showNat (byteLen message) ++
        " chars, max ".toList ++ showNat maxTurnMessageLen ++ ")".toList)
    else
      match timeoutSecs with
      | some t =>
        if t < minTimeoutSecs then
          .error ("timeout_secs too small (".toList ++ showNat t.toNat ++ ", min ".toList ++
            showNat minTimeoutSecs.toNat ++ ")".toList)
        else if maxTimeoutSecs < t then
          .error ("timeout_secs too large (".toList ++ showNat t.toNat ++ ", max ".toList ++
            showNat maxTimeoutSecs.toNat ++ ")".toList)
        else .ok ()
      | none => .ok ()

def validateDelivery : Except Str Unit :=
  match job.delivery with
  | .channel channel recipient =>
    if channel = [] then .error "delivery channel must not be empty".toList
    else if recipient = [] then .error "delivery recipient must not be empty".toList
    else .ok ()
  | .webhook url =>
    if ¬ "http://".toList <+: url ∧ ¬ "https://".toList <+: url then
      .error "webhook URL must start with http:// or https://".toList
    else if maxWebhookUrlLen < byteLen url then
      .error ("webhook URL too long (".toList ++ showNat (byteLen url) ++ " chars, max ".toList ++
        showNat maxWebhookUrlLen ++ ")".toList)
    else .ok ()
  | .none | .lastChannel => .ok ()

/-- `isAlphanumeric` is the Unicode property; the clock is read for the schedule. -/
def validate (isAlphanumeric : Char → Bool) (now : DateTime) (existingCount : Nat) :
    Except Str Unit :=
  if maxJobsPerAgent ≤ existingCount then
    .error ("agent already has ".toList ++ showNat existingCount ++ " jobs (max ".toList ++
      showNat maxJobsPerAgent ++ ")".toList)
  else if job.name = [] then .error "name must not be empty".toList
  else if maxNameLen < byteLen job.name then
    .error ("name too long (".toList ++ showNat (byteLen job.name) ++ " chars, max ".toList ++
      showNat maxNameLen ++ ")".toList)
  else if !job.name.all fun c => isAlphanumeric c || c ∈ [' ', '-', '_'] then
    .error ("name may only contain alphanumeric characters, spaces, hyphens, ".toList ++
      "and underscores".toList)
  else do
    job.validateSchedule now
    job.validateAction
    job.validateDelivery

theorem validate_count {isAlphanumeric : Char → Bool} {now : DateTime} {existingCount : Nat}
    (h : job.validate isAlphanumeric now existingCount = .ok ()) :
    existingCount < maxJobsPerAgent := by
  by_contra hle
  rw [validate, if_pos (Nat.not_lt.mp hle)] at h
  cases h

end CronJob

end Clawreform.Types
