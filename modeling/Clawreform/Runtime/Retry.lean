import Mathlib.Data.List.Basic
import Mathlib.Order.Lattice.Nat

namespace Clawreform.Runtime.Retry

structure RetryConfig where
  maxAttempts : UInt32
  minDelayMs : UInt64
  maxDelayMs : UInt64
  jitter : Float

inductive RetryOutcome (T E : Type*) where
  | success (result : T) (attempts : Nat)
  | exhausted (lastError : E) (attempts : Nat)

variable {σ T E : Type*}

def RetryOutcome.attempts : RetryOutcome T E → Nat
  | .success _ n => n
  | .exhausted _ n => n

def u64Min (a b : UInt64) : UInt64 := if a ≤ b then a else b

def saturatingMul (a b : UInt64) : UInt64 :=
  if a.toNat * b.toNat < UInt64.size then a * b else UInt64.ofNat (UInt64.size - 1)

def checkedShl (a : UInt64) (n : Nat) : Option UInt64 :=
  if n < 64 then some (UInt64.ofNat (a.toNat <<< n)) else none

/-- The nanoseconds of the clock, mixed by a multiplication that wraps. -/
def pseudoRandomFraction (nanos : UInt32) : Float :=
  (nanos * 2654435761).toFloat / (UInt32.ofNat (UInt32.size - 1)).toFloat

/-- The delay before jitter. -/
def cappedDelay (config : RetryConfig) (attempt : Nat) : UInt64 :=
  u64Min (saturatingMul config.minDelayMs
    ((checkedShl 1 attempt).getD (UInt64.ofNat (UInt64.size - 1)))) config.maxDelayMs

/-- The clock is read only when there is jitter. -/
def computeBackoff (subsecNanos : σ → UInt32 × σ) (config : RetryConfig) (attempt : Nat)
    (s : σ) : UInt64 × σ :=
  let capped := cappedDelay config attempt
  if config.jitter ≤ 0 then (capped, s)
  else
    let now := subsecNanos s
    let offset := capped.toFloat * pseudoRandomFraction now.1 * config.jitter
    (u64Min (capped.toFloat + offset).toUInt64 config.maxDelayMs, now.2)

/-- What the caller of the loop hands in, and the clock: each answer may depend on all
that was asked before. -/
structure Caller (σ T E : Type*) where
  operation : σ → Except E T × σ
  shouldRetry : E → σ → Bool × σ
  retryAfterHint : E → σ → Option UInt64 × σ
  subsecNanos : σ → UInt32 × σ

variable (c : Caller σ T E) (config : RetryConfig)

def delay (attempt : Nat) (err : E) (s : σ) : UInt64 × σ :=
  let hint := c.retryAfterHint err s
  match hint.1 with
  | some hinted => (u64Min hinted config.maxDelayMs, hint.2)
  | none => computeBackoff c.subsecNanos config attempt hint.2

/-- One call of the operation, the answer that the loop acted upon, and the sleep
after it. -/
structure Attempt (T E : Type*) where
  outcome : Except E T
  retryable : Option Bool
  slept : Option UInt64

/-- The loop returns from inside, or runs out and unwraps the last error. -/
inductive Ending (T E : Type*) where
  | returned (outcome : RetryOutcome T E)
  | trailing (lastError : Option E)

structure Run (σ T E : Type*) where
  ending : Ending T E
  attempts : List (Attempt T E)
  state : σ

/-- The loop from one attempt on, with so many left to make. -/
def attemptsFrom (limit : Nat) : Nat → Nat → Option E → σ → Run σ T E
  | 0, _, lastError, s => ⟨.trailing lastError, [], s⟩
  | left + 1, attempt, _, s =>
    let call := c.operation s
    match call.1 with
    | .ok result => ⟨.returned (.success result (attempt + 1)), [⟨.ok result, none, none⟩], call.2⟩
    | .error err =>
      if limit ≤ attempt + 1 then
        -- the question only words the log line
        ⟨.returned (.exhausted err (attempt + 1)), [⟨.error err, none, none⟩],
          (c.shouldRetry err call.2).2⟩
      else
        let retry := c.shouldRetry err call.2
        if retry.1 then
          let pause := delay c config attempt err retry.2
          let rest := attemptsFrom limit left (attempt + 1) (some err) pause.2
          ⟨rest.ending, ⟨.error err, some true, some pause.1⟩ :: rest.attempts, rest.state⟩
        else
          ⟨.returned (.exhausted err (attempt + 1)), [⟨.error err, some false, none⟩],
            (c.shouldRetry err retry.2).2⟩

def maxAttempts : Nat := max config.maxAttempts.toNat 1

def retryAsync (s : σ) : Run σ T E :=
  attemptsFrom c config (maxAttempts config) (maxAttempts config) 0 none s

section Delays

theorem u64Min_le_right (a b : UInt64) : u64Min a b ≤ b := by
  rw [u64Min]
  split
  · assumption
  · exact UInt64.le_refl b

theorem toNat_u64Min (a b : UInt64) : (u64Min a b).toNat = min a.toNat b.toNat := by
  rw [u64Min]
  split
  case isTrue h => exact (Nat.min_eq_left (UInt64.le_iff_toNat_le.mp h)).symm
  case isFalse h =>
    rw [UInt64.le_iff_toNat_le, Nat.not_le] at h
    exact (Nat.min_eq_right h.le).symm

theorem toNat_largest : (UInt64.ofNat (UInt64.size - 1)).toNat = UInt64.size - 1 :=
  UInt64.toNat_ofNat_of_lt' (by decide)

theorem toNat_saturatingMul (a b : UInt64) :
    (saturatingMul a b).toNat = min (a.toNat * b.toNat) (UInt64.size - 1) := by
  rw [saturatingMul]
  split
  case isTrue h =>
    rw [UInt64.toNat_mul, Nat.mod_eq_of_lt h]
    omega
  case isFalse h =>
    rw [toNat_largest]
    omega

theorem checkedShl_one {n : Nat} (h : n < 64) :
    ∃ x, checkedShl 1 n = some x ∧ x.toNat = 2 ^ n := by
  have hpow : 2 ^ n < UInt64.size := Nat.pow_lt_pow_right (by decide) h
  refine ⟨_, if_pos h, ?_⟩
  rw [show (1 : UInt64).toNat = 1 from rfl, Nat.one_shiftLeft, UInt64.toNat_ofNat_of_lt' hpow]

theorem min_saturated {a top cap p : Nat} (ha : 0 < a) (hcap : cap ≤ top) (hp : top ≤ p) :
    min (min (a * top) top) cap = min (a * p) cap := by
  have hself : cap ≤ a * p := hcap.trans (hp.trans (Nat.le_mul_of_pos_left p ha))
  rw [Nat.min_eq_right (Nat.le_mul_of_pos_left top ha), Nat.min_eq_right hcap,
    Nat.min_eq_right hself]

/-- The exponential delay never wraps: it is the doubled minimum, or the cap. -/
theorem toNat_cappedDelay (attempt : Nat) :
    (cappedDelay config attempt).toNat =
      min (config.minDelayMs.toNat * 2 ^ attempt) config.maxDelayMs.toNat := by
  have hcap : config.maxDelayMs.toNat ≤ UInt64.size - 1 :=
    Nat.le_sub_one_of_lt config.maxDelayMs.toNat_lt
  rw [cappedDelay, toNat_u64Min, toNat_saturatingMul]
  by_cases h : attempt < 64
  · obtain ⟨x, hx, hpow⟩ := checkedShl_one h
    rw [hx, Option.getD_some, hpow, Nat.min_assoc, Nat.min_eq_right hcap]
  · have hpow : UInt64.size ≤ 2 ^ attempt :=
      Nat.pow_le_pow_right Nat.zero_lt_two (Nat.le_of_not_lt h)
    rw [checkedShl, if_neg h, Option.getD_none, toNat_largest]
    obtain hzero | hpos := Nat.eq_zero_or_pos config.minDelayMs.toNat
    · rw [hzero, Nat.zero_mul, Nat.zero_mul, Nat.zero_min]
    · exact min_saturated hpos hcap ((Nat.sub_le _ 1).trans hpow)

theorem computeBackoff_le (subsecNanos : σ → UInt32 × σ) (attempt : Nat) (s : σ) :
    (computeBackoff subsecNanos config attempt s).1 ≤ config.maxDelayMs := by
  rw [computeBackoff]
  split <;> exact u64Min_le_right _ _

theorem delay_le (attempt : Nat) (err : E) (s : σ) :
    (delay c config attempt err s).1 ≤ config.maxDelayMs := by
  rw [delay]
  cases (c.retryAfterHint err s).1 with
  | some hinted => exact u64Min_le_right _ _
  | none => exact computeBackoff_le config _ _ _

end Delays

/-- The last attempt has the result that is reported, and an error stands because it was
found not retryable or no attempt was left. -/
def RetryOutcome.EndsIn (limit : Nat) : RetryOutcome T E → Attempt T E → Prop
  | .success result _, a => a.outcome = .ok result
  | .exhausted err n, a => a.outcome = .error err ∧ (a.retryable = some false ∨ n = limit)

/-- The attempts bear the outcome out: they are as many as it reports, each in front of
the last one ended in an error that was found retryable, and the last one has the
result. -/
structure BearsOut (attempts : List (Attempt T E)) (outcome : RetryOutcome T E) : Prop where
  calls : attempts.length = outcome.attempts
  bound : attempts.length ≤ maxAttempts config
  earlier : ∀ a ∈ attempts.dropLast, ∃ err, a.outcome = .error err ∧ a.retryable = some true
  ending : ∃ a ∈ attempts.getLast?, outcome.EndsIn (maxAttempts config) a
  sleeps : ∀ a ∈ attempts, ∀ ms ∈ a.slept, ms ≤ config.maxDelayMs

/-- What the loop can do, from the attempt of a given index on. -/
inductive Course (limit : Nat) : Nat → List (Attempt T E) → RetryOutcome T E → Prop
  | done (n : Nat) (result : T) :
      Course limit n [⟨.ok result, none, none⟩] (.success result (n + 1))
  | last (n : Nat) (err : E) (h : limit ≤ n + 1) :
      Course limit n [⟨.error err, none, none⟩] (.exhausted err (n + 1))
  | refused (n : Nat) (err : E) :
      Course limit n [⟨.error err, some false, none⟩] (.exhausted err (n + 1))
  | again (n : Nat) (err : E) (ms : UInt64) {rest : List (Attempt T E)}
      {outcome : RetryOutcome T E} (hn : n + 1 < limit) (hms : ms ≤ config.maxDelayMs)
      (h : Course limit (n + 1) rest outcome) :
      Course limit n (⟨.error err, some true, some ms⟩ :: rest) outcome

/-- The loop never gets past its last attempt. -/
theorem attemptsFrom_course {limit left attempt : Nat} (hleft : 0 < left)
    (hmax : attempt + left = limit) (lastError : Option E) (s : σ) :
    ∃ outcome, (attemptsFrom c config limit left attempt lastError s).ending = .returned outcome ∧
      Course config limit attempt (attemptsFrom c config limit left attempt lastError s).attempts
        outcome := by
  induction left generalizing attempt lastError s with
  | zero => exact absurd hleft (Nat.lt_irrefl 0)
  | succ left ih =>
    rw [attemptsFrom]
    cases (c.operation s).1 with
    | ok result => exact ⟨_, rfl, .done attempt result⟩
    | error err =>
      by_cases hlast : limit ≤ attempt + 1
      · simp only [if_pos hlast]
        exact ⟨_, rfl, .last attempt err hlast⟩
      · simp only [if_neg hlast]
        cases (c.shouldRetry err (c.operation s).2).1 with
        | false => exact ⟨_, rfl, .refused attempt err⟩
        | true =>
          have hnext : attempt + 1 + left = limit := by omega
          obtain ⟨outcome, hending, hcourse⟩ := ih (by omega) hnext (some err)
            (delay c config attempt err (c.shouldRetry err (c.operation s).2).2).2
          exact ⟨outcome, hending,
            .again attempt err _ (by omega) (delay_le c config attempt err _) hcourse⟩

variable {config} {limit n : Nat} {attempts : List (Attempt T E)} {outcome : RetryOutcome T E}

theorem Course.ne_nil (h : Course config limit n attempts outcome) : attempts ≠ [] := by
  cases h <;> exact List.cons_ne_nil _ _

theorem Course.calls (h : Course config limit n attempts outcome) :
    n + attempts.length = outcome.attempts := by
  induction h with
  | done n result => rfl
  | last n err h => rfl
  | refused n err => rfl
  | again n err ms hn hms h ih =>
    rw [List.length_cons]
    omega

theorem Course.bound (h : Course config limit n attempts outcome) (hn : n < limit) :
    n + attempts.length ≤ limit := by
  induction h with
  | done n result => exact hn
  | last n err h => exact hn
  | refused n err => exact hn
  | again n err ms hlt hms h ih =>
    have := ih hlt
    rw [List.length_cons]
    omega

theorem Course.earlier (h : Course config limit n attempts outcome) :
    ∀ a ∈ attempts.dropLast, ∃ err, a.outcome = .error err ∧ a.retryable = some true := by
  induction h with
  | done n result => exact List.forall_mem_nil _
  | last n err h => exact List.forall_mem_nil _
  | refused n err => exact List.forall_mem_nil _
  | again n err ms hlt hms h ih =>
    rw [List.dropLast_cons_of_ne_nil h.ne_nil]
    exact List.forall_mem_cons.mpr ⟨⟨err, rfl, rfl⟩, ih⟩

theorem Course.ending (h : Course config limit n attempts outcome) (hn : n < limit) :
    ∃ a ∈ attempts.getLast?, outcome.EndsIn limit a := by
  induction h with
  | done n result => exact ⟨_, rfl, rfl⟩
  | last n err h => exact ⟨_, rfl, rfl, .inr (Nat.le_antisymm hn h)⟩
  | refused n err => exact ⟨_, rfl, rfl, .inl rfl⟩
  | again n err ms hlt hms h ih =>
    obtain ⟨a, ha, hout⟩ := ih hlt
    refine ⟨a, ?_, hout⟩
    rw [List.getLast?_cons, ha]
    rfl

theorem Course.sleeps (h : Course config limit n attempts outcome) :
    ∀ a ∈ attempts, ∀ ms ∈ a.slept, ms ≤ config.maxDelayMs := by
  induction h with
  | done n result => exact List.forall_mem_singleton.mpr fun ms hms => by cases hms
  | last n err h => exact List.forall_mem_singleton.mpr fun ms hms => by cases hms
  | refused n err => exact List.forall_mem_singleton.mpr fun ms hms => by cases hms
  | again n err ms hlt hms h ih =>
    refine List.forall_mem_cons.mpr ⟨fun ms' hms' => ?_, ih⟩
    obtain rfl : ms = ms' := Option.some.inj hms'
    exact hms

/-- Every run of the loop returns, and its attempts bear the outcome out. -/
theorem retryAsync_bearsOut (c : Caller σ T E) (config : RetryConfig) (s : σ) :
    ∃ outcome, (retryAsync c config s).ending = .returned outcome ∧
      BearsOut config (retryAsync c config s).attempts outcome := by
  have hpos : 0 < maxAttempts config := Nat.lt_of_lt_of_le Nat.zero_lt_one (Nat.le_max_right _ 1)
  obtain ⟨outcome, hending, h⟩ :=
    attemptsFrom_course c config hpos (Nat.zero_add _) none s
  exact ⟨outcome, hending, {
    calls := by rw [← h.calls, Nat.zero_add]; rfl
    bound := by rw [← Nat.zero_add (List.length _)]; exact h.bound hpos
    earlier := h.earlier
    ending := h.ending hpos
    sleeps := h.sleeps }⟩

end Clawreform.Runtime.Retry
