import Clawreform.Memory.Usage
import Mathlib.Algebra.Order.Group.Int

namespace Clawreform.Kernel.Metering

open Clawreform.Lib.Text Clawreform.Lib.Calendar Clawreform.Memory.Usage

variable {α κ : Type*}

/-- The cost limits of an agent; a limit of zero is none. -/
structure ResourceQuota (κ : Type*) where
  maxCostPerHourUsd : κ
  maxCostPerDayUsd : κ
  maxCostPerMonthUsd : κ

section Code

variable [DecidableEq α] [AddCommMonoid κ] [LinearOrder κ]
variable (showAgent : α → Str) (showCost : κ → Str)

def exceeded (agentId : α) (window : String) (cost limit : κ) : Str :=
  "Agent ".toList ++ showAgent agentId ++ " exceeded ".toList ++ window.toList ++
    " cost quota: $".toList ++ showCost cost ++ " / $".toList ++ showCost limit

/-- One check of a window: nothing without a limit, else the cost is asked for. -/
def checkWindow (agentId : α) (window : String) (limit cost : κ) : Except Str Unit :=
  if 0 < limit then
    if limit ≤ cost then .error (exceeded showAgent showCost agentId window cost limit) else .ok ()
  else .ok ()

/-- Each query reads the clock anew. -/
def checkQuota (clock : Modifier → Reading) (agentId : α) (quota : ResourceQuota κ)
    (events : List (UsageEvent α κ)) : Except Str Unit := do
  checkWindow showAgent showCost agentId "hourly" quota.maxCostPerHourUsd
    (queryHourly agentId (clock .minusHour) events)
  checkWindow showAgent showCost agentId "daily" quota.maxCostPerDayUsd
    (queryDaily agentId (clock .startOfDay) events)
  checkWindow showAgent showCost agentId "monthly" quota.maxCostPerMonthUsd
    (queryMonthly agentId (clock .startOfMonth) events)

end Code

section Windows

def ResourceQuota.limit (quota : ResourceQuota κ) : Modifier → κ
  | .minusHour => quota.maxCostPerHourUsd
  | .startOfDay => quota.maxCostPerDayUsd
  | .startOfMonth => quota.maxCostPerMonthUsd

variable [AddCommMonoid κ] [LinearOrder κ]
variable {showAgent : α → Str} {showCost : κ → Str}

theorem checkWindow_eq_ok {agentId : α} {window : String} {limit cost : κ} :
    checkWindow showAgent showCost agentId window limit cost = .ok () ↔
      ¬ (0 < limit ∧ limit ≤ cost) := by
  unfold checkWindow
  split
  · split <;> simp_all
  · simp_all

theorem seq_eq_ok {x y : Except Str Unit} : (x >>= fun _ => y) = .ok () ↔ x = .ok () ∧ y = .ok () := by
  cases x with
  | error e => exact ⟨fun h => absurd h nofun, fun h => absurd h.1 nofun⟩
  | ok u => exact ⟨fun h => ⟨rfl, h⟩, And.right⟩

variable [DecidableEq α]

theorem checkQuota_eq_ok {clock : Modifier → Reading} {agentId : α} {quota : ResourceQuota κ}
    {events : List (UsageEvent α κ)} :
    checkQuota showAgent showCost clock agentId quota events = .ok () ↔
      ∀ modifier, ¬ (0 < quota.limit modifier ∧
        quota.limit modifier ≤ querySince modifier (some agentId) (clock modifier) events) := by
  rw [checkQuota, seq_eq_ok, seq_eq_ok, checkWindow_eq_ok, checkWindow_eq_ok, checkWindow_eq_ok]
  constructor
  · intro h modifier
    cases modifier with
    | minusHour => exact h.1
    | startOfDay => exact h.2.1
    | startOfMonth => exact h.2.2
  · intro h
    exact ⟨h .minusHour, h .startOfDay, h .startOfMonth⟩

/-- A window with a limit in which at least the limit was really spent. -/
def LimitReached (clock : Modifier → Reading) (agentId : α) (quota : ResourceQuota κ)
    (history : List (Reading × UsageRecord α κ)) : Prop :=
  ∃ modifier, 0 < quota.limit modifier ∧
    quota.limit modifier ≤ spent modifier (some agentId) (clock modifier) history

variable (showAgent showCost) in
/-- The hourly queries count exactly the last hour, and the quotas of the agents are
enforced exactly. -/
structure WindowsExact (history : List (Reading × UsageRecord α κ)) (now : Reading) : Prop where
  hourly : ∀ agentId,
    queryHourly agentId now (recorded history) = spent .minusHour (some agentId) now history
  globalHourly : queryGlobalHourly now (recorded history) = spent .minusHour none now history
  quota : ∀ agentId (quota : ResourceQuota κ) clock, clock .minusHour = now →
    (checkQuota showAgent showCost clock agentId quota (recorded history) ≠ .ok () ↔
      LimitReached clock agentId quota history)

/-- The windows are exact when the records on the day of the cutoff that are an hour old or
older cost nothing, for each agent and in all. -/
theorem windows_exact_iff [IsLeftCancelAdd κ] (history : List (Reading × UsageRecord α κ))
    (now : Reading) :
    WindowsExact showAgent showCost history now ↔
      ∀ agent : Option α, costOf (stale .minusHour now.nanos) agent history = 0 := by
  constructor
  · intro h agent
    cases agent with
    | none =>
      have hglobal := h.globalHourly
      rw [queryGlobalHourly, querySince_eq] at hglobal
      exact add_eq_left.mp hglobal
    | some agentId =>
      have hhourly := h.hourly agentId
      rw [queryHourly, querySince_eq] at hhourly
      exact add_eq_left.mp hhourly
  · intro h
    have hhour (agent : Option α) :
        querySince .minusHour agent now (recorded history) = spent .minusHour agent now history := by
      rw [querySince_eq, h agent, add_zero]
    refine ⟨fun agentId => hhour (some agentId), hhour none, ?_⟩
    intro agentId quota clock hclock
    have hspent (modifier : Modifier) :
        querySince modifier (some agentId) (clock modifier) (recorded history) =
          spent modifier (some agentId) (clock modifier) history := by
      by_cases hmodifier : modifier = .minusHour
      · subst hmodifier
        rw [hclock]
        exact hhour (some agentId)
      · exact querySince_eq_spent hmodifier _ _ _
    rw [ne_eq, checkQuota_eq_ok, LimitReached]
    simp only [hspent, not_forall, not_not]

end Windows

section Examples

/-- A reading on the first day of 2026. -/
def newYear (hours : Nat) (h : hours < 24) : Reading where
  nanos := (yearStart 2026 * 24 + hours) * hourNanos
  afterEpoch := by
    have hyear : yearStart 1970 * dayNanos = yearStart 1970 * 24 * hourNanos := by decide
    rw [hyear]
    exact Nat.mul_le_mul_right _ ((by decide : yearStart 1970 * 24 ≤ yearStart 2026 * 24).trans
      (Nat.le_add_right _ _))
  beforeEnd := by
    have hyear : yearStart 10000 * dayNanos = yearStart 10000 * 24 * hourNanos := by decide
    rw [hyear]
    apply Nat.mul_lt_mul_of_pos_right
    · have hlt : yearStart 2026 * 24 + 24 < yearStart 10000 * 24 := by decide
      omega
    · decide

/-- A call of agent 7 at ten o'clock that costs one dollar. -/
def morningCall : List (Reading × UsageRecord Nat Int) :=
  [(newYear 10 (by decide), ⟨7, "claude-haiku".toList, 1000, 500, 1, 0⟩)]

theorem windows_exact_at_ten :
    WindowsExact showNat (fun cost => showNat cost.toNat) morningCall (newYear 10 (by decide)) := by
  apply (windows_exact_iff _ _).mpr
  intro agent
  have hfresh : stale .minusHour (newYear 10 (by decide)).nanos (newYear 10 (by decide)).nanos =
      false := by decide
  simp [costOf, morningCall, hfresh]

/-- At noon the agent is turned away by a limit of one dollar an hour, although it has not
spent anything since eleven. -/
theorem old_call_counts :
    ¬ WindowsExact showNat (fun cost => showNat cost.toNat) morningCall (newYear 12 (by decide)) := by
  intro h
  have hhourly := h.hourly 7
  have hquery : queryHourly 7 (newYear 12 (by decide)) (recorded morningCall) = (1 : Int) := by
    decide
  have hspent : spent .minusHour (some 7) (newYear 12 (by decide)) morningCall = (0 : Int) := by
    decide
  rw [hquery, hspent] at hhourly
  cases hhourly

end Examples

end Clawreform.Kernel.Metering
