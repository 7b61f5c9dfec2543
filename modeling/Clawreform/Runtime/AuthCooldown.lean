import Clawreform.Lib.Run
import Clawreform.Lib.Store
import Clawreform.Lib.Text

namespace Clawreform.Runtime.AuthCooldown

open Clawreform.Lib.Run Clawreform.Lib.Store Clawreform.Lib.Text

/-- The settings of the circuit breaker, with fractions of some type. -/
structure CooldownConfig (φ : Type*) where
  baseCooldownSecs : Nat
  maxCooldownSecs : Nat
  backoffMultiplier : φ
  maxExponent : Nat
  billingBaseCooldownSecs : Nat
  billingMaxCooldownSecs : Nat
  billingMultiplier : φ
  failureWindowSecs : Nat
  probeEnabled : Bool
  probeIntervalSecs : Nat
  deriving DecidableEq

/-- Times are in nanoseconds. -/
structure ProviderState where
  errorCount : Nat
  isBilling : Bool
  cooldownStart : Option Nat
  cooldownDuration : Nat
  lastProbe : Option Nat
  totalErrorsInWindow : Nat
  windowStart : Option Nat
  deriving DecidableEq

def ProviderState.new : ProviderState := ⟨0, false, none, 0, none, 0, none⟩

inductive CooldownVerdict where
  | allow
  | allowProbe
  | reject (reason : Str) (retryAfterSecs : Nat)
  deriving DecidableEq

inductive Call where
  | check (provider : Str)
  | recordSuccess (provider : Str)
  | recordFailure (provider : Str) (isBilling : Bool)
  | recordProbeResult (provider : Str) (success : Bool)
  deriving DecidableEq

structure TimedCall where
  now : Nat
  call : Call
  deriving DecidableEq

abbrev States := Map Str ProviderState

section Code

variable {φ : Type*} (scaled : Nat → φ → Nat → Nat) (config : CooldownConfig φ)

def fromSecs (secs : Nat) : Nat := 10 ^ 9 * secs

def saturatingSucc (n : Nat) : Nat := min (n + 1) (2 ^ 32 - 1)

/-- `scaled base multiplier exponent` is `(base as f64 * multiplier.powi(exponent)) as u64`. -/
def calculateCooldown (errorCount : Nat) (isBilling : Bool) : Nat :=
  if isBilling then
    fromSecs (min (scaled config.billingBaseCooldownSecs config.billingMultiplier
      (min (errorCount - 1) 10)) config.billingMaxCooldownSecs)
  else
    fromSecs (min (scaled config.baseCooldownSecs config.backoffMultiplier
      (min (errorCount - 1) config.maxExponent)) config.maxCooldownSecs)

/-- Whether the last failed probe, if there is one, is an interval ago. -/
def probeDue (lastProbe : Option Nat) (now : Nat) : Bool :=
  lastProbe.all fun last => fromSecs config.probeIntervalSecs ≤ now - last

def check (provider : Str) (now : Nat) (states : States) : CooldownVerdict :=
  match states.lookup provider with
  | none => .allow
  | some state =>
    match state.cooldownStart with
    | none => .allow
    | some start =>
      let elapsed := now - start
      if elapsed < state.cooldownDuration then
        if config.probeEnabled && probeDue config state.lastProbe now then .allowProbe
        else
          .reject ((if state.isBilling then "billing cooldown (" else "error cooldown (").toList ++
            showNat state.errorCount ++ " errors)".toList)
            ((state.cooldownDuration - elapsed) / 10 ^ 9)
      else .allowProbe

def recordSuccess (provider : Str) (states : States) : States :=
  adjust provider (fun state => { state with
    errorCount := 0, isBilling := false, cooldownStart := none, cooldownDuration := 0,
    lastProbe := none }) states

def recordFailure (provider : Str) (isBilling : Bool) (now : Nat) (states : States) : States :=
  let state := (states.lookup provider).getD .new
  let state :=
    match state.windowStart with
    | some start =>
      if fromSecs config.failureWindowSecs ≤ now - start then
        { state with totalErrorsInWindow := 0, windowStart := some now }
      else state
    | none => { state with windowStart := some now }
  let errorCount := saturatingSucc state.errorCount
  states.insert provider { state with
    errorCount := errorCount
    totalErrorsInWindow := saturatingSucc state.totalErrorsInWindow
    isBilling := isBilling
    cooldownStart := some now
    cooldownDuration := calculateCooldown scaled config errorCount isBilling }

def recordProbeResult (provider : Str) (success : Bool) (now : Nat) (states : States) : States :=
  if success then recordSuccess provider states
  else
    adjust provider (fun state => { state with
      lastProbe := some now
      errorCount := saturatingSucc state.errorCount
      cooldownStart := some now
      cooldownDuration :=
        calculateCooldown scaled config (saturatingSucc state.errorCount) state.isBilling }) states

/-- One call, with the verdict when it is a check. -/
def step (states : States) (timed : TimedCall) : States × List (Str × CooldownVerdict) :=
  match timed.call with
  | .check provider => (states, [(provider, check config provider timed.now states)])
  | .recordSuccess provider => (recordSuccess provider states, [])
  | .recordFailure provider isBilling =>
    (recordFailure scaled config provider isBilling timed.now states, [])
  | .recordProbeResult provider success =>
    (recordProbeResult scaled config provider success timed.now states, [])

end Code

section Cooldown

variable {φ : Type*} {scaled : Nat → φ → Nat → Nat} {config : CooldownConfig φ} {provider : Str}
variable {states : States}

def lastProbe (provider : Str) (states : States) : Option Nat :=
  (states.lookup provider).bind (·.lastProbe)

def InCooldown (provider : Str) (states : States) (now : Nat) : Prop :=
  ∃ state start, states.lookup provider = some state ∧ state.cooldownStart = some start ∧
    now - start < state.cooldownDuration

variable (scaled config provider) in
/-- The provider is in cooldown at each call of a stretch, and up to its last instant. -/
def Cooling : States → List TimedCall → Nat → Prop
  | states, [], last => InCooldown provider states last
  | states, c :: calls, last =>
    InCooldown provider states c.now ∧ Cooling (step scaled config states c).1 calls last

theorem Cooling.inCooldown {calls : List TimedCall} {last : Nat}
    (h : Cooling scaled config provider states calls last) :
    ∃ now, InCooldown provider states now := by
  cases calls with
  | nil => exact ⟨last, h⟩
  | cons c calls => exact ⟨c.now, h.1⟩

variable (config) in
theorem check_of_inCooldown {now : Nat} (h : InCooldown provider states now) :
    (check config provider now states = .allowProbe ∧
        config.probeEnabled && probeDue config (lastProbe provider states) now) ∨
      ((∃ reason secs, check config provider now states = .reject reason secs) ∧
        (config.probeEnabled && probeDue config (lastProbe provider states) now) = false) := by
  obtain ⟨state, start, hlookup, hstart, helapsed⟩ := h
  have hlast : lastProbe provider states = state.lastProbe := by rw [lastProbe, hlookup]; rfl
  simp only [check, hlookup, hstart, helapsed, if_true, hlast]
  split
  · rename_i hdue
    exact Or.inl ⟨rfl, hdue⟩
  · rename_i hdue
    exact Or.inr ⟨⟨_, _, rfl⟩, Bool.eq_false_of_not_eq_true hdue⟩

theorem inCooldown_recordSuccess {now : Nat} :
    ¬ InCooldown provider (recordSuccess provider states) now := by
  rintro ⟨state, start, hlookup, hstart, -⟩
  rw [recordSuccess, lookup_adjust_self] at hlookup
  obtain ⟨old, -, rfl⟩ := Option.map_eq_some_iff.mp hlookup
  cases hstart

theorem lookup_recordSuccess_ne {other : Str} (h : provider ≠ other) :
    (recordSuccess other states).lookup provider = states.lookup provider :=
  lookup_adjust_ne h _ _

/-- Only a failed probe that is recorded as such moves the time of the last probe, as long as
the cooldown goes on. -/
theorem lastProbe_step {c : TimedCall} {now : Nat} (hbefore : InCooldown provider states c.now)
    (hafter : InCooldown provider (step scaled config states c).1 now) :
    lastProbe provider (step scaled config states c).1 =
      if c.call = .recordProbeResult provider false then some c.now
      else lastProbe provider states := by
  obtain ⟨state, start, hlookup, -, -⟩ := hbefore
  obtain ⟨time, call⟩ := c
  cases call with
  | check other => rfl
  | recordSuccess other =>
    by_cases hother : provider = other
    · subst hother
      exact absurd hafter inCooldown_recordSuccess
    · simp [lastProbe, step, lookup_recordSuccess_ne hother]
  | recordFailure other isBilling =>
    by_cases hother : provider = other
    · subst hother
      simp only [lastProbe, step, recordFailure, hlookup, AList.lookup_insert, Option.getD_some,
        Option.bind_some, reduceCtorEq, if_false]
      split
      · split <;> rfl
      · rfl
    · simp [lastProbe, step, recordFailure, AList.lookup_insert_ne hother]
  | recordProbeResult other success =>
    by_cases hother : provider = other
    · subst hother
      cases success with
      | true => exact absurd hafter inCooldown_recordSuccess
      | false => simp [lastProbe, step, recordProbeResult, hlookup]
    · have hcall : (Call.recordProbeResult other success) ≠ .recordProbeResult provider false := by
        simp [Ne.symm hother]
      rw [if_neg hcall]
      cases success with
      | true => simp [lastProbe, step, recordProbeResult, lookup_recordSuccess_ne hother]
      | false => simp [lastProbe, step, recordProbeResult, lookup_adjust_ne hother]

end Cooldown

section Intervals

variable {φ : Type*} {scaled : Nat → φ → Nat → Nat} {config : CooldownConfig φ} {provider : Str}

/-- The verdicts on one provider. -/
def verdictsOn (provider : Str) (outputs : List (Str × CooldownVerdict)) : List CooldownVerdict :=
  (outputs.filter (·.1 = provider)).map (·.2)

def admitted (verdicts : List CooldownVerdict) : Nat := verdicts.countP (· = .allowProbe)

variable (config) in
def dueCheck (provider : Str) (last : Option Nat) (c : TimedCall) : Bool :=
  c.call = .check provider && (config.probeEnabled && probeDue config last c.now)

variable (config) in
/-- The checks in front of the first failed probe that is recorded as such, as far as a probe
is due when they are made. -/
def dueChecks (provider : Str) (last : Option Nat) (calls : List TimedCall) : Nat :=
  (calls.takeWhile (·.call ≠ .recordProbeResult provider false)).countP
    (dueCheck config provider last)

/-- The calls of an interval, and those before and after it. -/
structure Splits (start stop : Nat) (before window after : List TimedCall) : Prop where
  before : ∀ c ∈ before, c.now ≤ start
  window : ∀ c ∈ window, start ≤ c.now ∧ c.now < stop
  after : ∀ c ∈ after, stop ≤ c.now

variable (scaled config) in
/-- What a call does for one provider while it is in cooldown: a check is answered, and is
admitted when a probe is due. -/
theorem verdicts_step {states : States} {c : TimedCall}
    (h : InCooldown provider states c.now) :
    admitted (verdictsOn provider (step scaled config states c).2) =
        (if dueCheck config provider (lastProbe provider states) c then 1 else 0) ∧
      ∀ v ∈ verdictsOn provider (step scaled config states c).2,
        v = .allowProbe ∨ ∃ reason secs, v = .reject reason secs := by
  obtain ⟨now, call⟩ := c
  cases call with
  | check other =>
    by_cases hother : other = provider
    · subst hother
      obtain ⟨hcheck, hdue⟩ | ⟨⟨reason, secs, hcheck⟩, hdue⟩ := check_of_inCooldown config h
      · simp [verdictsOn, step, admitted, dueCheck, hcheck, hdue]
      · simp [verdictsOn, step, admitted, dueCheck, hcheck, hdue]
    · simp [verdictsOn, step, admitted, dueCheck, hother]
  | recordSuccess other => simp [verdictsOn, step, admitted, dueCheck]
  | recordFailure other isBilling => simp [verdictsOn, step, admitted, dueCheck]
  | recordProbeResult other success => simp [verdictsOn, step, admitted, dueCheck]

theorem verdictsOn_append (xs ys : List (Str × CooldownVerdict)) :
    verdictsOn provider (xs ++ ys) = verdictsOn provider xs ++ verdictsOn provider ys := by
  simp [verdictsOn]

theorem admitted_append (vs ws : List CooldownVerdict) :
    admitted (vs ++ ws) = admitted vs + admitted ws := List.countP_append

theorem verdicts_run {calls : List TimedCall} {states : States} {last : Nat}
    (h : Cooling scaled config provider states calls last) :
    ∀ v ∈ verdictsOn provider (run (step scaled config) states calls).2,
      v = .allowProbe ∨ ∃ reason secs, v = .reject reason secs := by
  induction calls generalizing states with
  | nil => simp [verdictsOn]
  | cons c calls ih =>
    rw [run_cons, verdictsOn_append, List.forall_mem_append]
    exact ⟨(verdicts_step scaled config h.1).2, ih h.2⟩

/-- After a recorded failed probe nothing is admitted for an interval. -/
theorem admitted_run_zero {calls : List TimedCall} {states : States} {last start probe : Nat}
    (h : Cooling scaled config provider states calls last)
    (hwindow : ∀ c ∈ calls, start ≤ c.now ∧ c.now < start + fromSecs config.probeIntervalSecs)
    (hprobe : lastProbe provider states = some probe) (hstart : start ≤ probe) :
    admitted (verdictsOn provider (run (step scaled config) states calls).2) = 0 := by
  induction calls generalizing states probe with
  | nil => rfl
  | cons c calls ih =>
    rw [List.forall_mem_cons] at hwindow
    obtain ⟨⟨hge, hlt⟩, hrest⟩ := hwindow
    have hdue : dueCheck config provider (lastProbe provider states) c = false := by
      have hearly : probeDue config (some probe) c.now = false := decide_eq_false (by omega)
      rw [dueCheck, hprobe, hearly, Bool.and_false, Bool.and_false]
    have hfirst := (verdicts_step scaled config h.1).1
    obtain ⟨now, hafter⟩ := h.2.inCooldown
    have hlast := lastProbe_step h.1 hafter
    have hnext : ∃ probe', lastProbe provider (step scaled config states c).1 = some probe' ∧
        start ≤ probe' := by
      split at hlast
      · exact ⟨_, hlast, hge⟩
      · exact ⟨probe, hlast.trans hprobe, hstart⟩
    obtain ⟨probe', hprobe', hstart'⟩ := hnext
    rw [run_cons, verdictsOn_append, admitted_append, hfirst, hdue, ih h.2 hrest hprobe' hstart']
    rfl

/-- In an interval of a cooldown exactly the due checks in front of the first recorded failed
probe are admitted. -/
theorem admitted_run {calls : List TimedCall} {states : States} {last start : Nat}
    (h : Cooling scaled config provider states calls last)
    (hwindow : ∀ c ∈ calls, start ≤ c.now ∧ c.now < start + fromSecs config.probeIntervalSecs) :
    admitted (verdictsOn provider (run (step scaled config) states calls).2) =
      dueChecks config provider (lastProbe provider states) calls := by
  induction calls generalizing states with
  | nil => rfl
  | cons c calls ih =>
    have hall := hwindow
    rw [List.forall_mem_cons] at hwindow
    obtain ⟨⟨hge, -⟩, hrest⟩ := hwindow
    have hfirst := (verdicts_step scaled config h.1).1
    obtain ⟨now, hafter⟩ := h.2.inCooldown
    have hlast := lastProbe_step h.1 hafter
    rw [run_cons, verdictsOn_append, admitted_append, hfirst]
    by_cases hreport : c.call = .recordProbeResult provider false
    · rw [if_pos hreport] at hlast
      have hcheck : dueCheck config provider (lastProbe provider states) c = false := by
        simp [dueCheck, hreport]
      rw [hcheck, admitted_run_zero h.2 hrest hlast hge, dueChecks,
        List.takeWhile_cons_of_neg (by simp [hreport])]
      rfl
    · rw [if_neg hreport] at hlast
      rw [ih h.2 hrest, hlast, dueChecks, dueChecks,
        List.takeWhile_cons_of_pos (by simp [hreport]), List.countP_cons, Nat.add_comm]

variable (scaled config) in
/-- In every interval of the probe length inside a cooldown at most one request is admitted,
and all others are rejected. -/
def ProbesSpaced (calls : List TimedCall) : Prop :=
  ∀ provider start before window after, calls = before ++ window ++ after →
    Splits start (start + fromSecs config.probeIntervalSecs) before window after →
      Cooling scaled config provider (run (step scaled config) ∅ before).1 window
        (start + fromSecs config.probeIntervalSecs - 1) →
          let verdicts := verdictsOn provider
            (run (step scaled config) (run (step scaled config) ∅ before).1 window).2
          admitted verdicts ≤ 1 ∧
            ∀ v ∈ verdicts, v = .allowProbe ∨ ∃ reason secs, v = .reject reason secs

/-- A check does not mark its probe, and neither does `record_failure`: probes keep their
distance exactly when a failed probe is recorded as such before a second one is due. -/
theorem probes_spaced_iff (calls : List TimedCall) :
    ProbesSpaced scaled config calls ↔
      ∀ provider start before window after, calls = before ++ window ++ after →
        Splits start (start + fromSecs config.probeIntervalSecs) before window after →
          Cooling scaled config provider (run (step scaled config) ∅ before).1 window
            (start + fromSecs config.probeIntervalSecs - 1) →
              dueChecks config provider
                (lastProbe provider (run (step scaled config) ∅ before).1) window ≤ 1 := by
  constructor
  · intro h provider start before window after hcalls hsplits hcooling
    rw [← admitted_run hcooling hsplits.window]
    exact (h provider start before window after hcalls hsplits hcooling).1
  · intro h provider start before window after hcalls hsplits hcooling
    refine ⟨?_, verdicts_run hcooling⟩
    rw [admitted_run hcooling hsplits.window]
    exact h provider start before window after hcalls hsplits hcooling

end Intervals

section Examples

def defaultConfig : CooldownConfig Nat where
  baseCooldownSecs := 60
  maxCooldownSecs := 3600
  backoffMultiplier := 5
  maxExponent := 3
  billingBaseCooldownSecs := 18000
  billingMaxCooldownSecs := 86400
  billingMultiplier := 2
  failureWindowSecs := 86400
  probeEnabled := true
  probeIntervalSecs := 30

def power (base multiplier exponent : Nat) : Nat := base * multiplier ^ exponent

def groq : Str := "groq".toList

/-- A request fails after a second, and the cooldown begins. -/
def firstFailure : List TimedCall :=
  [⟨0, .check groq⟩, ⟨fromSecs 1, .recordFailure groq false⟩]

def twoChecks : List TimedCall := [⟨fromSecs 3, .check groq⟩, ⟨fromSecs 4, .check groq⟩]

def lateFailures : List TimedCall :=
  [⟨fromSecs 40, .recordFailure groq false⟩, ⟨fromSecs 41, .recordFailure groq false⟩]

/-- Two agents ask within a second of one cooldown, and both are let through. -/
theorem two_probes_admitted :
    ¬ ProbesSpaced power defaultConfig (firstFailure ++ twoChecks ++ lateFailures) := by
  intro h
  have hsplits : Splits (fromSecs 2) (fromSecs 2 + fromSecs defaultConfig.probeIntervalSecs)
      firstFailure twoChecks lateFailures := by
    constructor <;> decide
  have hcooling : Cooling power defaultConfig groq
      (run (step power defaultConfig) ∅ firstFailure).1 twoChecks
      (fromSecs 2 + fromSecs defaultConfig.probeIntervalSecs - 1) := by
    refine ⟨⟨_, _, rfl, rfl, ?_⟩, ⟨_, _, rfl, rfl, ?_⟩, ⟨_, _, rfl, rfl, ?_⟩⟩
    all_goals decide
  have hadmitted := (h groq _ _ _ _ rfl hsplits hcooling).1
  revert hadmitted
  decide

end Examples

end Clawreform.Runtime.AuthCooldown
