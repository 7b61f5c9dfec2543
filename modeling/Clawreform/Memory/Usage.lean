import Clawreform.Lib.Calendar
import Mathlib.Algebra.BigOperators.Group.List.Basic

namespace Clawreform.Memory.Usage

open Clawreform.Lib.Text Clawreform.Lib.Calendar

section Clock

def secondNanos : Nat := 10 ^ 9

def hourNanos : Nat := 3600 * secondNanos

def dayNanos : Nat := 86400 * secondNanos

/-- A reading of the clock in nanoseconds since the year 0. The clock is never in front of
the Unix epoch, and `datetime` is for years of four digits. -/
structure Reading where
  nanos : Nat
  afterEpoch : yearStart 1970 * dayNanos ≤ nanos
  beforeEnd : nanos < yearStart 10000 * dayNanos

def day (nanos : Nat) : Nat := nanos / dayNanos

def clockText (nanos : Nat) : Str :=
  let seconds := nanos % dayNanos / secondNanos
  digits 2 (seconds / 3600) ++ (':' :: digits 2 (seconds / 60 % 60) ++
    (':' :: digits 2 (seconds % 60)))

/-- As many digits as needed, by threes. -/
def fraction (nanos : Nat) : Str :=
  if nanos = 0 then []
  else if nanos % 1000000 = 0 then '.' :: digits 3 (nanos / 1000000)
  else if nanos % 1000 = 0 then '.' :: digits 6 (nanos / 1000)
  else '.' :: digits 9 nanos

def toRfc3339 (nanos : Nat) : Str :=
  dateText (day nanos) ++
    ('T' :: (clockText nanos ++ (fraction (nanos % secondNanos) ++ "+00:00".toList)))

/-- The modifiers of `datetime('now', ..)` in the queries. -/
inductive Modifier where
  | minusHour
  | startOfDay
  | startOfMonth
  deriving DecidableEq

def datetime (now : Nat) : Modifier → Str
  | .minusHour => dateText (day (now - hourNanos)) ++ (' ' :: clockText (now - hourNanos))
  | .startOfDay => dateText (day now) ++ " 00:00:00".toList
  | .startOfMonth =>
    digits 4 (year (day now)) ++ ('-' :: digits 2 (month (day now)) ++ "-01 00:00:00".toList)

example : toRfc3339 ((yearStart 2026 * 86400 + 36000) * secondNanos + 250000000) =
    "2026-01-01T10:00:00.250+00:00".toList := by decide

example : datetime ((yearStart 2026 * 86400 + 1800) * secondNanos) .minusHour =
    "2025-12-31 23:30:00".toList := by decide

/-- The day a cutoff lies on. -/
def cutoffDay (now : Nat) : Modifier → Nat
  | .minusHour => day (now - hourNanos)
  | .startOfDay => day now
  | .startOfMonth => monthStart (day now)

theorem datetime_eq (now : Nat) (modifier : Modifier) :
    ∃ clock, datetime now modifier = dateText (cutoffDay now modifier) ++ (' ' :: clock) := by
  cases modifier with
  | minusHour => exact ⟨_, rfl⟩
  | startOfDay => exact ⟨"00:00:00".toList, rfl⟩
  | startOfMonth =>
    refine ⟨"00:00:00".toList, ?_⟩
    rw [cutoffDay, dateText_monthStart]
    simp [datetime, digits]

theorem day_mono {s t : Nat} (h : s ≤ t) : day s ≤ day t := Nat.div_le_div_right h

theorem year_day_lt (t : Reading) : year (day t.nanos) < 10000 := by
  by_contra h
  have hstart := le_year_iff.mp (Nat.le_of_not_lt h)
  have hday : day t.nanos < yearStart 10000 := Nat.div_lt_of_lt_mul (by
    rw [Nat.mul_comm]
    exact t.beforeEnd)
  omega

theorem cutoffDay_le (now : Nat) (modifier : Modifier) : cutoffDay now modifier ≤ day now := by
  cases modifier with
  | minusHour => exact day_mono (Nat.sub_le _ _)
  | startOfDay => exact le_rfl
  | startOfMonth => exact monthStart_le _

/-- The space of the cutoff comes before the letter of the time stamps, so a record of the
day of the cutoff is always behind it. -/
theorem datetime_lt_iff (now t : Reading) (modifier : Modifier) :
    datetime now.nanos modifier < toRfc3339 t.nanos ↔
      cutoffDay now.nanos modifier ≤ day t.nanos := by
  obtain ⟨clock, hclock⟩ := datetime_eq now.nanos modifier
  have hcutoff : year (cutoffDay now.nanos modifier) < 10000 :=
    (year_mono (cutoffDay_le _ _)).trans_lt (year_day_lt now)
  have hletter (s u : Str) : ' ' :: s < 'T' :: u := List.Lex.rel (by decide)
  rw [hclock, toRfc3339, append_lt_append_iff (by simp),
    dateText_lt_iff hcutoff (year_day_lt t), dateText_inj hcutoff (year_day_lt t)]
  simp only [hletter, and_true]
  omega

end Clock

section Store

variable {α κ : Type*}

structure UsageRecord (α κ : Type*) where
  agentId : α
  model : Str
  inputTokens : UInt64
  outputTokens : UInt64
  costUsd : κ
  toolCalls : UInt32

/-- A row of the table `usage_events`. -/
structure UsageEvent (α κ : Type*) where
  agentId : α
  timestamp : Str
  model : Str
  inputTokens : Int64
  outputTokens : Int64
  costUsd : κ
  toolCalls : Int64

def eventOf (now : Reading) (usage : UsageRecord α κ) : UsageEvent α κ where
  agentId := usage.agentId
  timestamp := toRfc3339 now.nanos
  model := usage.model
  inputTokens := usage.inputTokens.toInt64
  outputTokens := usage.outputTokens.toInt64
  costUsd := usage.costUsd
  toolCalls := usage.toolCalls.toUInt64.toInt64

def record (now : Reading) (usage : UsageRecord α κ) (events : List (UsageEvent α κ)) :
    List (UsageEvent α κ) := events ++ [eventOf now usage]

/-- The table after some records, each written at its time. -/
def recorded (history : List (Reading × UsageRecord α κ)) : List (UsageEvent α κ) :=
  history.foldl (fun events entry => record entry.1 entry.2 events) []

theorem recorded_eq (history : List (Reading × UsageRecord α κ)) :
    recorded history = history.map fun entry => eventOf entry.1 entry.2 := by
  have hfrom (events : List (UsageEvent α κ)) :
      history.foldl (fun events entry => record entry.1 entry.2 events) events =
        events ++ history.map fun entry => eventOf entry.1 entry.2 := by
    induction history generalizing events with
    | nil => simp
    | cons entry history ih => rw [List.foldl_cons, ih, record, List.append_assoc]; rfl
  exact hfrom []

variable [DecidableEq α] [AddCommMonoid κ]

/-- The sum over the rows behind the cutoff, of one agent or of all; the costs are added
without rounding. -/
def querySince (modifier : Modifier) (agent : Option α) (now : Reading)
    (events : List (UsageEvent α κ)) : κ :=
  ((events.filter fun event => agent.all (event.agentId = ·) &&
    datetime now.nanos modifier < event.timestamp).map UsageEvent.costUsd).sum

def queryHourly (agent : α) : Reading → List (UsageEvent α κ) → κ :=
  querySince .minusHour (some agent)

def queryDaily (agent : α) : Reading → List (UsageEvent α κ) → κ :=
  querySince .startOfDay (some agent)

def queryMonthly (agent : α) : Reading → List (UsageEvent α κ) → κ :=
  querySince .startOfMonth (some agent)

def queryGlobalHourly : Reading → List (UsageEvent α κ) → κ := querySince .minusHour none

end Store

section Windows

/-- Less than an hour old, not before midnight, or not before the first of the month. -/
def inWindow (modifier : Modifier) (now t : Nat) : Bool :=
  match modifier with
  | .minusHour => now < t + hourNanos
  | .startOfDay => day now * dayNanos ≤ t
  | .startOfMonth => monthStart (day now) * dayNanos ≤ t

/-- Behind the cutoff in the table, but out of the window. -/
def stale (modifier : Modifier) (now t : Nat) : Bool :=
  cutoffDay now modifier ≤ day t && !inWindow modifier now t

variable {α κ : Type*} [DecidableEq α] [AddCommMonoid κ]

/-- The true sum of what some records cost. -/
def costOf (keep : Nat → Bool) (agent : Option α) (history : List (Reading × UsageRecord α κ)) : κ :=
  ((history.filter fun entry => agent.all (entry.2.agentId = ·) &&
    keep entry.1.nanos).map (·.2.costUsd)).sum

def spent (modifier : Modifier) (agent : Option α) (now : Reading)
    (history : List (Reading × UsageRecord α κ)) : κ :=
  costOf (inWindow modifier now.nanos) agent history

theorem inWindow_iff {modifier : Modifier} (h : modifier ≠ .minusHour) (now t : Nat) :
    inWindow modifier now t ↔ cutoffDay now modifier ≤ day t := by
  cases modifier with
  | minusHour => exact absurd rfl h
  | startOfDay => exact decide_eq_true_iff.trans (Nat.le_div_iff_mul_le (by decide)).symm
  | startOfMonth => exact decide_eq_true_iff.trans (Nat.le_div_iff_mul_le (by decide)).symm

theorem cutoffDay_of_inWindow {modifier : Modifier} {now t : Nat}
    (h : inWindow modifier now t) : cutoffDay now modifier ≤ day t := by
  by_cases hhour : modifier = .minusHour
  · subst hhour
    have hlt : now < t + hourNanos := of_decide_eq_true h
    exact day_mono (by omega)
  · exact (inWindow_iff hhour now t).mp h

theorem querySince_recorded (modifier : Modifier) (agent : Option α) (now : Reading)
    (history : List (Reading × UsageRecord α κ)) :
    querySince modifier agent now (recorded history) =
      costOf (fun t => cutoffDay now.nanos modifier ≤ day t) agent history := by
  rw [querySince, costOf, recorded_eq, List.filter_map, List.map_map]
  have hfilter : ∀ entry : Reading × UsageRecord α κ,
      ((fun event : UsageEvent α κ => agent.all (event.agentId = ·) &&
        decide (datetime now.nanos modifier < event.timestamp)) ∘
          fun entry : Reading × UsageRecord α κ => eventOf entry.1 entry.2) entry =
      (agent.all (entry.2.agentId = ·) &&
        decide (cutoffDay now.nanos modifier ≤ day entry.1.nanos)) := by
    intro entry
    simp only [Function.comp_apply, eventOf, datetime_lt_iff now entry.1 modifier]
  rw [funext hfilter]
  rfl

theorem costOf_or {keep p q : Nat → Bool} (hor : ∀ t, keep t = (p t || q t))
    (hdisjoint : ∀ t, p t → q t = false) (agent : Option α)
    (history : List (Reading × UsageRecord α κ)) :
    costOf keep agent history = costOf p agent history + costOf q agent history := by
  induction history with
  | nil => simp [costOf]
  | cons entry history ih =>
    simp only [costOf, List.filter_cons, hor] at ih ⊢
    cases hagent : agent.all (entry.2.agentId = ·) with
    | false => simpa using ih
    | true =>
      cases hp : p entry.1.nanos with
      | true => simp [hdisjoint _ hp, ih, add_assoc]
      | false =>
        cases hq : q entry.1.nanos with
        | true => simp [ih, add_left_comm]
        | false => simpa using ih

/-- A query counts what was spent in its window and what the stale records cost. -/
theorem querySince_eq (modifier : Modifier) (agent : Option α) (now : Reading)
    (history : List (Reading × UsageRecord α κ)) :
    querySince modifier agent now (recorded history) =
      spent modifier agent now history + costOf (stale modifier now.nanos) agent history := by
  rw [querySince_recorded]
  apply costOf_or
  · intro t
    by_cases hwindow : inWindow modifier now.nanos t
    · simp [hwindow, cutoffDay_of_inWindow hwindow]
    · simp [stale, hwindow]
  · intro t hwindow
    simp [stale, hwindow]

/-- The windows that start at midnight have no stale records. -/
theorem not_stale {modifier : Modifier} (h : modifier ≠ .minusHour) (now t : Nat) :
    stale modifier now t = false := by
  simp [stale, ← inWindow_iff h]

theorem querySince_eq_spent {modifier : Modifier} (h : modifier ≠ .minusHour) (agent : Option α)
    (now : Reading) (history : List (Reading × UsageRecord α κ)) :
    querySince modifier agent now (recorded history) = spent modifier agent now history := by
  rw [querySince_eq, funext (not_stale h now.nanos)]
  simp [costOf]

end Windows

end Clawreform.Memory.Usage
