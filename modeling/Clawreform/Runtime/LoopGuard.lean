import Mathlib.Logic.Function.Basic
import Clawreform.Lib.Json
import Clawreform.Lib.Run
import Clawreform.Runtime.StrUtils

namespace Clawreform.Runtime

open Clawreform.Lib.Text Clawreform.Lib.Run
open Clawreform.Lib.Json (Value)
open Clawreform.Runtime.StrUtils

def pollTools : List Str := ["shell_exec".toList]

def historySize : Nat := 30

structure LoopGuardConfig where
  warnThreshold : UInt32
  blockThreshold : UInt32
  globalCircuitBreaker : UInt32
  pollMultiplier : UInt32
  outcomeWarnThreshold : UInt32
  outcomeBlockThreshold : UInt32
  pingPongMinRepeats : UInt32
  maxWarningsPerCall : UInt32
  deriving DecidableEq

def LoopGuardConfig.default : LoopGuardConfig where
  warnThreshold := 3
  blockThreshold := 5
  globalCircuitBreaker := 30
  pollMultiplier := 3
  outcomeWarnThreshold := 2
  outcomeBlockThreshold := 3
  pingPongMinRepeats := 3
  maxWarningsPerCall := 3

inductive LoopGuardVerdict where
  | allow
  | warn (text : Str)
  | block (text : Str)
  | circuitBreak (text : Str)
  deriving DecidableEq

/-- The digest of a call, or the digest behind the text `pingpong_`, which no
digest begins with. -/
inductive WarningKey (κ : Type) where
  | call (hash : κ)
  | pingPong (hash : κ)
  deriving DecidableEq

/-- A map that has no entry for a key counts 0 for it. -/
structure LoopGuard (κ : Type) where
  config : LoopGuardConfig
  callCounts : κ → UInt32
  totalCalls : UInt32
  outcomeCounts : κ → UInt32
  blockedOutcomes : κ → Bool
  recentCalls : List κ
  warningsEmitted : WarningKey κ → UInt32
  blockedCalls : UInt32
  hashToTool : κ → Option Str

/-- The SHA-256 digests of a call and of a call with its result, and the
lowercase mapping of texts. -/
structure Hashing (κ : Type) where
  computeHash : Str → Value → κ
  outcomeDigest : Str → Value → Str → κ
  toLowercase : Str → Str

variable {κ : Type}

def Hashing.computeOutcomeHash (H : Hashing κ) (toolName : Str) (params : Value)
    (result : Str) : κ :=
  H.outcomeDigest toolName params (safeTruncateStr result 1000)

def Hashing.isPollCall (H : Hashing κ) (toolName : Str) (params : Value) : Bool :=
  let statusCheck := match (params.get "command".toList).bind Value.asStr with
    | some cmd =>
      let cmdLower := H.toLowercase cmd
      byteLen cmd < 50 && (containsText cmdLower "status" || containsText cmdLower "poll" ||
        containsText cmdLower "wait" || containsText cmdLower "watch" || containsText cmdLower "tail" ||
        containsText cmdLower "ps " || containsText cmdLower "jobs" || containsText cmdLower "pgrep" ||
        containsText cmdLower "docker ps" || containsText cmdLower "kubectl get")
    | none => false
  let paramsStr := H.toLowercase params.toText
  (pollTools.contains toolName && statusCheck) || containsText paramsStr "status" ||
    containsText paramsStr "poll" || containsText paramsStr "wait"

def Hashing.multiplier (H : Hashing κ) (config : LoopGuardConfig) (toolName : Str)
    (params : Value) : UInt32 :=
  if H.isPollCall toolName params then config.pollMultiplier else 1

def Hashing.effectiveWarn (H : Hashing κ) (config : LoopGuardConfig) (toolName : Str)
    (params : Value) : UInt32 :=
  config.warnThreshold * H.multiplier config toolName params

def Hashing.effectiveBlock (H : Hashing κ) (config : LoopGuardConfig) (toolName : Str)
    (params : Value) : UInt32 :=
  config.blockThreshold * H.multiplier config toolName params

namespace LoopGuard

def new (config : LoopGuardConfig) : LoopGuard κ where
  config := config
  callCounts _ := 0
  totalCalls := 0
  outcomeCounts _ := 0
  blockedOutcomes _ := false
  recentCalls := []
  warningsEmitted _ := 0
  blockedCalls := 0
  hashToTool _ := none

def showCount (n : UInt32) : Str := Nat.toDigits 10 n.toNat

def circuitText (limit : UInt32) : Str :=
  "Circuit breaker: exceeded ".toList ++ showCount limit ++
    " total tool calls in this loop. The agent appears to be stuck.".toList

def outcomeText (toolName : Str) : Str :=
  "Blocked: tool '".toList ++ toolName ++ ("' is returning identical results repeatedly. " ++
    "The current approach is not working — try something different.").toList

def countText (toolName : Str) (count : UInt32) : Str :=
  "Blocked: tool '".toList ++ toolName ++ "' called ".toList ++ showCount count ++
    (" times with identical parameters. " ++
      "Try a different approach or different parameters.").toList

def exhaustedText (toolName : Str) (count : UInt32) : Str :=
  "Blocked: tool '".toList ++ toolName ++ "' called ".toList ++ showCount count ++
    (" times with identical parameters " ++
      "(warnings exhausted). Try a different approach.").toList

def warningText (toolName : Str) (count : UInt32) : Str :=
  "Warning: tool '".toList ++ toolName ++ "' has been called ".toList ++ showCount count ++
    " times with identical parameters. Consider a different approach.".toList

def identicalText (toolName : Str) : Str :=
  "Tool '".toList ++ toolName ++
    "' is returning identical results — the approach isn't working.".toList

section PingPong

variable [DecidableEq κ]

/-- The pattern of length `p` the last `3 * p` calls go through three times,
unless all its calls are the same. -/
def cycle (p : Nat) (calls : List κ) : Option (List κ) :=
  let tail := calls.drop (calls.length - 3 * p)
  let pattern := tail.take p
  if 3 * p ≤ calls.length ∧ ¬ (∀ c ∈ pattern, some c = pattern.head?) ∧
      tail = pattern ++ (pattern ++ pattern) then
    some pattern
  else none

def toolOf (g : LoopGuard κ) (hash : κ) : Str := (g.hashToTool hash).getD "unknown".toList

def detectPingPong (g : LoopGuard κ) : Option Str :=
  match cycle 2 g.recentCalls with
  | some [a, b] => some ("Ping-pong detected: tools '".toList ++ g.toolOf a ++ "' and '".toList ++
      g.toolOf b ++ ("' are alternating " ++
        "repeatedly. Break the cycle by trying a different approach.").toList)
  | _ =>
    match cycle 3 g.recentCalls with
    | some [a, b, c] => some ("Ping-pong detected: tools '".toList ++ g.toolOf a ++
        "', '".toList ++ g.toolOf b ++ "', '".toList ++ g.toolOf c ++ ("' are cycling " ++
          "repeatedly. Break the cycle by trying a different approach.").toList)
    | _ => none

/-- How often a pattern stands at the end of the first `i` calls. -/
def repeatsBefore (pattern calls : List κ) : Nat → Nat → Nat
  | 0, _ => 0
  | fuel + 1, i =>
    if pattern.length ≤ i ∧ (calls.drop (i - pattern.length)).take pattern.length = pattern then
      repeatsBefore pattern calls fuel (i - pattern.length) + 1
    else 0

def repeatsOf (p : Nat) (calls : List κ) : Nat :=
  let pattern := calls.drop (calls.length - p)
  if 2 * p ≤ calls.length ∧ ¬ (∀ c ∈ pattern, some c = pattern.head?) then
    repeatsBefore pattern calls calls.length calls.length
  else 0

def countPingPongRepeats (g : LoopGuard κ) : Nat :=
  if 2 ≤ repeatsOf 2 g.recentCalls then repeatsOf 2 g.recentCalls
  else if 2 ≤ repeatsOf 3 g.recentCalls then repeatsOf 3 g.recentCalls
  else 0

end PingPong

section Check

variable [DecidableEq κ] (H : Hashing κ)

def countBlocked (g : LoopGuard κ) : LoopGuard κ :=
  { g with blockedCalls := g.blockedCalls + 1 }

def countTotal (g : LoopGuard κ) : LoopGuard κ :=
  { g with totalCalls := g.totalCalls + 1 }

def remember (g : LoopGuard κ) (hash : κ) (toolName : Str) : LoopGuard κ :=
  { g with
    hashToTool := Function.update g.hashToTool hash ((g.hashToTool hash).or (some toolName))
    recentCalls := (if historySize ≤ g.recentCalls.length then g.recentCalls.tail
      else g.recentCalls) ++ [hash] }

def countCall (g : LoopGuard κ) (hash : κ) : LoopGuard κ :=
  { g with callCounts := Function.update g.callCounts hash (g.callCounts hash + 1) }

def countWarning (g : LoopGuard κ) (key : WarningKey κ) : LoopGuard κ :=
  { g with warningsEmitted := Function.update g.warningsEmitted key (g.warningsEmitted key + 1) }

/-- The end of `check`, reached while the call's own counts are low. -/
def checkPingPong (g : LoopGuard κ) (hash : κ) : LoopGuard κ × LoopGuardVerdict :=
  match g.detectPingPong with
  | none => (g, .allow)
  | some text =>
    if g.config.pingPongMinRepeats.toNat ≤ g.countPingPongRepeats then
      (g.countBlocked, .block text)
    else
      let g := g.countWarning (.pingPong hash)
      if g.warningsEmitted (.pingPong hash) ≤ g.config.maxWarningsPerCall then (g, .warn text)
      else (g, .allow)

def checkWarnings (g : LoopGuard κ) (hash : κ) (toolName : Str) :
    LoopGuard κ × LoopGuardVerdict :=
  let g := g.countWarning (.call hash)
  if g.config.maxWarningsPerCall < g.warningsEmitted (.call hash) then
    (g.countBlocked, .block (exhaustedText toolName (g.callCounts hash)))
  else (g, .warn (warningText toolName (g.callCounts hash)))

def check (g : LoopGuard κ) (toolName : Str) (params : Value) :
    LoopGuard κ × LoopGuardVerdict :=
  let g := g.countTotal
  if g.config.globalCircuitBreaker < g.totalCalls then
    (g.countBlocked, .circuitBreak (circuitText g.config.globalCircuitBreaker))
  else
    let hash := H.computeHash toolName params
    let g := g.remember hash toolName
    if g.blockedOutcomes hash then (g.countBlocked, .block (outcomeText toolName))
    else
      let g := g.countCall hash
      if H.effectiveBlock g.config toolName params ≤ g.callCounts hash then
        (g.countBlocked, .block (countText toolName (g.callCounts hash)))
      else if H.effectiveWarn g.config toolName params ≤ g.callCounts hash then
        g.checkWarnings hash toolName
      else g.checkPingPong hash

def recordOutcome (g : LoopGuard κ) (toolName : Str) (params : Value) (result : Str) :
    LoopGuard κ × Option Str :=
  let outcome := H.computeOutcomeHash toolName params result
  let hash := H.computeHash toolName params
  let count := g.outcomeCounts outcome + 1
  let g := { g with outcomeCounts := Function.update g.outcomeCounts outcome count }
  if g.config.outcomeBlockThreshold ≤ count then
    ({ g with blockedOutcomes := Function.update g.blockedOutcomes hash true },
      some (identicalText toolName))
  else if g.config.outcomeWarnThreshold ≤ count then (g, some (identicalText toolName))
  else (g, none)

end Check

section Run

variable [DecidableEq κ] (H : Hashing κ)

inductive Call where
  | check (toolName : Str) (params : Value)
  | recordOutcome (toolName : Str) (params : Value) (result : Str)
  deriving DecidableEq

structure Answer where
  toolName : Str
  params : Value
  verdict : LoopGuardVerdict
  deriving DecidableEq

def step (g : LoopGuard κ) : Call → LoopGuard κ × List Answer
  | .check toolName params =>
    let r := g.check H toolName params
    (r.1, [⟨toolName, params, r.2⟩])
  | .recordOutcome toolName params result => ((g.recordOutcome H toolName params result).1, [])

end Run

section Cases

variable [DecidableEq κ] (H : Hashing κ) (g : LoopGuard κ)

theorem detectPingPong_head {text : Str} (h : g.detectPingPong = some text) :
    text.head? = some 'P' := by
  unfold detectPingPong at h
  split at h
  · obtain rfl := Option.some.inj h
    rfl
  · split at h
    · obtain rfl := Option.some.inj h
      rfl
    · cases h

/-- Whatever the end of `check` answers, only ping-pong warnings are counted. -/
theorem checkPingPong_cases (hash : κ) :
    let r := g.checkPingPong hash
    r.1.config = g.config ∧ r.1.totalCalls = g.totalCalls ∧ r.1.callCounts = g.callCounts ∧
      r.1.blockedOutcomes = g.blockedOutcomes ∧
      (∀ h, r.1.warningsEmitted (.call h) = g.warningsEmitted (.call h)) ∧
      (r.2 = .allow ∨ (∃ text, r.2 = .warn text) ∨
        ∃ text : Str, r.2 = .block text ∧ text.head? = some 'P') := by
  intro r
  cases hd : g.detectPingPong with
  | none =>
    have hr : r = (g, .allow) := by simp only [r, checkPingPong, hd]
    simp [hr]
  | some text =>
    by_cases hm : g.config.pingPongMinRepeats.toNat ≤ g.countPingPongRepeats
    · have hr : r = (g.countBlocked, .block text) := by simp only [r, checkPingPong, hd, if_pos hm]
      simp [hr, countBlocked, detectPingPong_head g hd]
    · have hr : r.1 = g.countWarning (.pingPong hash) ∧
          (r.2 = .allow ∨ r.2 = .warn text) := by
        simp only [r, checkPingPong, hd, if_neg hm]
        split
        · exact ⟨rfl, Or.inr rfl⟩
        · exact ⟨rfl, Or.inl rfl⟩
      rw [hr.1]
      refine ⟨rfl, rfl, rfl, rfl, fun h => ?_, ?_⟩
      · simp [countWarning]
      · rcases hr.2 with h | h <;> simp [h]

/-- What one check can do to the counts of calls and of warnings, and what it
then answers. -/
inductive Turn (toolName : Str) (params : Value) (g' : LoopGuard κ) : LoopGuardVerdict → Prop where
  | circuit (text : Str) (hlimit : g.config.globalCircuitBreaker < g.totalCalls + 1)
      (hcounts : g'.callCounts = g.callCounts)
      (hwarnings : ∀ h, g'.warningsEmitted (.call h) = g.warningsEmitted (.call h)) :
      Turn toolName params g' (.circuitBreak text)
  | outcome (hlimit : ¬ g.config.globalCircuitBreaker < g.totalCalls + 1)
      (hblocked : g.blockedOutcomes (H.computeHash toolName params) = true)
      (hcounts : g'.callCounts = g.callCounts)
      (hwarnings : ∀ h, g'.warningsEmitted (.call h) = g.warningsEmitted (.call h)) :
      Turn toolName params g' (.block (outcomeText toolName))
  | count (hlimit : ¬ g.config.globalCircuitBreaker < g.totalCalls + 1)
      (hcounts : g'.callCounts = (g.countCall (H.computeHash toolName params)).callCounts)
      (hwarnings : ∀ h, g'.warningsEmitted (.call h) = g.warningsEmitted (.call h))
      (hblock : H.effectiveBlock g.config toolName params ≤
        g'.callCounts (H.computeHash toolName params)) :
      Turn toolName params g'
        (.block (countText toolName (g'.callCounts (H.computeHash toolName params))))
  | exhausted (hlimit : ¬ g.config.globalCircuitBreaker < g.totalCalls + 1)
      (hcounts : g'.callCounts = (g.countCall (H.computeHash toolName params)).callCounts)
      (hwarnings : ∀ h, g'.warningsEmitted (.call h) =
        (g.countWarning (.call (H.computeHash toolName params))).warningsEmitted (.call h))
      (hwarn : H.effectiveWarn g.config toolName params ≤
        g'.callCounts (H.computeHash toolName params))
      (hmax : g.config.maxWarningsPerCall <
        g'.warningsEmitted (.call (H.computeHash toolName params))) :
      Turn toolName params g'
        (.block (exhaustedText toolName (g'.callCounts (H.computeHash toolName params))))
  | warned (text : Str) (hlimit : ¬ g.config.globalCircuitBreaker < g.totalCalls + 1)
      (hopen : g.blockedOutcomes (H.computeHash toolName params) = false)
      (hcounts : g'.callCounts = (g.countCall (H.computeHash toolName params)).callCounts)
      (hwarnings : ∀ h, g'.warningsEmitted (.call h) =
        (g.countWarning (.call (H.computeHash toolName params))).warningsEmitted (.call h))
      (hblock : g'.callCounts (H.computeHash toolName params) <
        H.effectiveBlock g.config toolName params)
      (hmax : g'.warningsEmitted (.call (H.computeHash toolName params)) ≤
        g.config.maxWarningsPerCall) :
      Turn toolName params g' (.warn text)
  | low (verdict : LoopGuardVerdict) (hlimit : ¬ g.config.globalCircuitBreaker < g.totalCalls + 1)
      (hopen : g.blockedOutcomes (H.computeHash toolName params) = false)
      (hcounts : g'.callCounts = (g.countCall (H.computeHash toolName params)).callCounts)
      (hwarnings : ∀ h, g'.warningsEmitted (.call h) = g.warningsEmitted (.call h))
      (hblock : g'.callCounts (H.computeHash toolName params) <
        H.effectiveBlock g.config toolName params)
      (hwarn : g'.callCounts (H.computeHash toolName params) <
        H.effectiveWarn g.config toolName params)
      (hverdict : verdict = .allow ∨ (∃ text, verdict = .warn text) ∨
        ∃ text : Str, verdict = .block text ∧ text.head? = some 'P') :
      Turn toolName params g' verdict

theorem check_turn (toolName : Str) (params : Value) :
    Turn H g toolName params (g.check H toolName params).1 (g.check H toolName params).2 := by
  unfold check
  dsimp only
  split <;> rename_i hlimit
  · exact .circuit _ hlimit rfl (fun _ => rfl)
  split <;> rename_i hblocked
  · exact .outcome hlimit hblocked rfl (fun _ => rfl)
  split <;> rename_i hblock
  · exact .count hlimit rfl (fun _ => rfl) hblock
  have hopen : g.blockedOutcomes (H.computeHash toolName params) = false :=
    Bool.eq_false_iff.mpr hblocked
  split <;> rename_i hwarn
  · unfold checkWarnings
    dsimp only
    split <;> rename_i hmax
    · exact .exhausted hlimit rfl (fun _ => rfl) hwarn hmax
    · exact .warned _ hlimit hopen rfl (fun _ => rfl) (UInt32.not_le.mp hblock)
        (UInt32.not_lt.mp hmax)
  · obtain ⟨-, -, hcounts, -, hwarnings, hverdict⟩ := checkPingPong_cases
      ((g.countTotal.remember (H.computeHash toolName params) toolName).countCall
        (H.computeHash toolName params)) (H.computeHash toolName params)
    refine .low _ hlimit hopen hcounts hwarnings ?_ ?_ hverdict
    · rw [hcounts]
      exact UInt32.not_le.mp hblock
    · rw [hcounts]
      exact UInt32.not_le.mp hwarn

/-- What every check does, whatever it answers. -/
theorem check_always (toolName : Str) (params : Value) :
    let g' := (g.check H toolName params).1
    g'.config = g.config ∧ g'.totalCalls = g.totalCalls + 1 ∧
      g'.blockedOutcomes = g.blockedOutcomes := by
  intro g'
  have hp : ∀ g₁ : LoopGuard κ, ∀ hash, (g₁.checkPingPong hash).1.config = g₁.config ∧
      (g₁.checkPingPong hash).1.totalCalls = g₁.totalCalls ∧
      (g₁.checkPingPong hash).1.blockedOutcomes = g₁.blockedOutcomes := by
    intro g₁ hash
    obtain ⟨hc, ht, -, hb, -⟩ := checkPingPong_cases g₁ hash
    exact ⟨hc, ht, hb⟩
  have hw : ∀ g₁ : LoopGuard κ, ∀ hash tool, (g₁.checkWarnings hash tool).1.config = g₁.config ∧
      (g₁.checkWarnings hash tool).1.totalCalls = g₁.totalCalls ∧
      (g₁.checkWarnings hash tool).1.blockedOutcomes = g₁.blockedOutcomes := by
    intro g₁ hash tool
    unfold checkWarnings
    dsimp only
    split <;> exact ⟨rfl, rfl, rfl⟩
  unfold g' check
  dsimp only
  split
  · exact ⟨rfl, rfl, rfl⟩
  split
  · exact ⟨rfl, rfl, rfl⟩
  split
  · exact ⟨rfl, rfl, rfl⟩
  split
  · exact hw _ _ _
  · exact hp _ _

end Cases

section Bounds

variable [DecidableEq κ] (H : Hashing κ)

def Answer.passes (a : Answer) : Bool :=
  match a.verdict with
  | .allow | .warn _ => true
  | .block _ | .circuitBreak _ => false

def Answer.breaks (a : Answer) : Bool :=
  match a.verdict with
  | .circuitBreak _ => true
  | _ => false

/-- The call is blocked by its count, its exhausted warnings or its repeated
outcome. -/
def Answer.Final (a : Answer) : Prop :=
  a.verdict = .block (outcomeText a.toolName) ∨
    ∃ n, a.verdict = .block (countText a.toolName n) ∨
      a.verdict = .block (exhaustedText a.toolName n)

def Answer.SameCall (a b : Answer) : Prop := a.toolName = b.toolName ∧ a.params = b.params

def passed (answers : List Answer) (toolName : Str) (params : Value) : Nat :=
  answers.countP (fun a => a.toolName = toolName ∧ a.params = params ∧ a.passes = true)

def unbroken (answers : List Answer) : Nat := answers.countP (fun a => !a.breaks)

/-- The state in which a call is never let through again. -/
def Shut (g : LoopGuard κ) (toolName : Str) (params : Value) : Prop :=
  g.blockedOutcomes (H.computeHash toolName params) = true ∨
    (H.effectiveBlock g.config toolName params).toNat ≤
      (g.callCounts (H.computeHash toolName params)).toNat ∨
    ((H.effectiveWarn g.config toolName params).toNat ≤
        (g.callCounts (H.computeHash toolName params)).toNat ∧
      g.config.maxWarningsPerCall.toNat <
        (g.warningsEmitted (.call (H.computeHash toolName params))).toNat)

/-- What holds of a guard and of the answers it has given, as long as they are
too few for a counter to wrap around. -/
structure Bounded (config : LoopGuardConfig) (g : LoopGuard κ) (answers : List Answer) : Prop where
  config_eq : g.config = config
  total : g.totalCalls.toNat = answers.length
  counts (h : κ) : (g.callCounts h).toNat ≤ answers.length
  warnings (h : κ) : (g.warningsEmitted (.call h)).toNat ≤ answers.length
  unbroken_le : unbroken answers ≤ config.globalCircuitBreaker.toNat
  passed_block (toolName : Str) (params : Value) : passed answers toolName params ≤
    min (g.callCounts (H.computeHash toolName params)).toNat
      ((H.effectiveBlock config toolName params).toNat - 1)
  passed_warn (toolName : Str) (params : Value) : passed answers toolName params ≤
    min (g.callCounts (H.computeHash toolName params)).toNat
      ((H.effectiveWarn config toolName params).toNat - 1) +
    min (g.warningsEmitted (.call (H.computeHash toolName params))).toNat
      config.maxWarningsPerCall.toNat
  final (a : Answer) : a ∈ answers → a.Final → Shut H g a.toolName a.params
  forever : answers.Pairwise (fun a b => a.Final → a.SameCall b → b.passes = false)

omit [DecidableEq κ] in
theorem new_bounded (config : LoopGuardConfig) : Bounded H config (new config) [] where
  config_eq := rfl
  total := rfl
  counts _ := le_refl _
  warnings _ := le_refl _
  unbroken_le := Nat.zero_le _
  passed_block _ _ := Nat.zero_le _
  passed_warn _ _ := Nat.zero_le _
  final _ ha := absurd ha List.not_mem_nil
  forever := List.Pairwise.nil

theorem toNat_succ {c : UInt32} (h : c.toNat + 1 < 2 ^ 32) : (c + 1).toNat = c.toNat + 1 := by
  rw [UInt32.toNat_add]
  exact Nat.mod_eq_of_lt h

variable {H} {g : LoopGuard κ}

theorem countCall_toNat {hash : κ} (hlt : (g.callCounts hash).toNat + 1 < 2 ^ 32) (h : κ) :
    ((g.countCall hash).callCounts h).toNat =
      (g.callCounts h).toNat + if h = hash then 1 else 0 := by
  by_cases he : h = hash
  · subst he
    simp [countCall, toNat_succ hlt]
  · simp [countCall, he]

theorem countWarning_toNat {hash : κ} (hlt : (g.warningsEmitted (.call hash)).toNat + 1 < 2 ^ 32)
    (h : κ) : ((g.countWarning (.call hash)).warningsEmitted (.call h)).toNat =
      (g.warningsEmitted (.call h)).toNat + if h = hash then 1 else 0 := by
  by_cases he : h = hash
  · subst he
    simp [countWarning, toNat_succ hlt]
  · simp [countWarning, he]

/-- The counters of calls and warnings only grow, by one at a time. -/
theorem turn_counts {toolName : Str} {params : Value} {g' : LoopGuard κ} {v : LoopGuardVerdict}
    (hcall : ∀ h, (g.callCounts h).toNat + 1 < 2 ^ 32)
    (hwarning : ∀ h, (g.warningsEmitted (.call h)).toNat + 1 < 2 ^ 32)
    (ht : Turn H g toolName params g' v) (h : κ) :
    ((g.callCounts h).toNat ≤ (g'.callCounts h).toNat ∧
      (g'.callCounts h).toNat ≤ (g.callCounts h).toNat + 1) ∧
    ((g.warningsEmitted (.call h)).toNat ≤ (g'.warningsEmitted (.call h)).toNat ∧
      (g'.warningsEmitted (.call h)).toNat ≤ (g.warningsEmitted (.call h)).toNat + 1) := by
  have hc := countCall_toNat (hcall (H.computeHash toolName params)) h
  have hw := countWarning_toNat (hwarning (H.computeHash toolName params)) h
  cases ht with
  | circuit text _ hcounts hwarnings => simp [hcounts, hwarnings]
  | outcome _ _ hcounts hwarnings => simp [hcounts, hwarnings]
  | count _ hcounts hwarnings _ =>
    rw [hcounts, hwarnings, hc]
    split <;> omega
  | exhausted _ hcounts hwarnings _ _ =>
    rw [hcounts, hwarnings, hc, hw]
    split <;> omega
  | warned text _ _ hcounts hwarnings _ _ =>
    rw [hcounts, hwarnings, hc, hw]
    split <;> omega
  | low v _ _ hcounts hwarnings _ _ _ =>
    rw [hcounts, hwarnings, hc]
    split <;> omega

omit [DecidableEq κ] in
theorem Shut.mono {g' : LoopGuard κ} {toolName : Str} {params : Value}
    (hs : Shut H g toolName params) (hconfig : g'.config = g.config)
    (hblocked : ∀ h, g.blockedOutcomes h = true → g'.blockedOutcomes h = true)
    (hcalls : ∀ h, (g.callCounts h).toNat ≤ (g'.callCounts h).toNat)
    (hwarnings : ∀ h, (g.warningsEmitted (.call h)).toNat ≤ (g'.warningsEmitted (.call h)).toNat) :
    Shut H g' toolName params := by
  unfold Shut
  rw [hconfig]
  rcases hs with hs | hs | ⟨hc, hw⟩
  · exact Or.inl (hblocked _ hs)
  · exact Or.inr (Or.inl (le_trans hs (hcalls _)))
  · exact Or.inr (Or.inr ⟨le_trans hc (hcalls _), lt_of_lt_of_le hw (hwarnings _)⟩)

theorem turn_open {toolName : Str} {params : Value} {g' : LoopGuard κ} {v : LoopGuardVerdict}
    (ht : Turn H g toolName params g' v) (hv : (Answer.mk toolName params v).breaks = false) :
    g.totalCalls + 1 ≤ g.config.globalCircuitBreaker := by
  cases ht with
  | circuit text => cases hv
  | outcome hlimit | count hlimit | exhausted hlimit | warned _ hlimit | low _ hlimit =>
    exact UInt32.not_lt.mp hlimit

/-- A call is let through only below its block threshold, and only below its
warning threshold or while warnings are left. -/
theorem turn_passes {toolName : Str} {params : Value} {g' : LoopGuard κ} {v : LoopGuardVerdict}
    (hcall : ∀ h, (g.callCounts h).toNat + 1 < 2 ^ 32)
    (hwarning : ∀ h, (g.warningsEmitted (.call h)).toNat + 1 < 2 ^ 32)
    (ht : Turn H g toolName params g' v) (hv : (Answer.mk toolName params v).passes = true) :
    let h := H.computeHash toolName params
    g.blockedOutcomes h = false ∧
      (g'.callCounts h).toNat = (g.callCounts h).toNat + 1 ∧
      (g'.callCounts h).toNat < (H.effectiveBlock g.config toolName params).toNat ∧
      ((g'.callCounts h).toNat < (H.effectiveWarn g.config toolName params).toNat ∨
        ((g'.warningsEmitted (.call h)).toNat = (g.warningsEmitted (.call h)).toNat + 1 ∧
          (g'.warningsEmitted (.call h)).toNat ≤ g.config.maxWarningsPerCall.toNat)) := by
  intro h
  have hc := countCall_toNat (hcall h) h
  have hw := countWarning_toNat (hwarning h) h
  rw [if_pos rfl] at hc hw
  cases ht with
  | circuit | outcome | count | exhausted => cases hv
  | warned text _ hopen hcounts hwarnings hblock hmax =>
    refine ⟨hopen, by rw [hcounts]; exact hc, UInt32.lt_iff_toNat_lt.mp hblock, Or.inr ⟨?_, ?_⟩⟩
    · rw [hwarnings]
      exact hw
    · exact UInt32.le_iff_toNat_le.mp hmax
  | low v _ hopen hcounts _ hblock hwarn _ =>
    exact ⟨hopen, by rw [hcounts]; exact hc, UInt32.lt_iff_toNat_lt.mp hblock,
      Or.inl (UInt32.lt_iff_toNat_lt.mp hwarn)⟩

theorem turn_shut {toolName : Str} {params : Value} {g' : LoopGuard κ} {v : LoopGuardVerdict}
    (hcall : ∀ h, (g.callCounts h).toNat + 1 < 2 ^ 32)
    (hwarning : ∀ h, (g.warningsEmitted (.call h)).toNat + 1 < 2 ^ 32)
    (ht : Turn H g toolName params g' v) (hs : Shut H g toolName params) :
    (Answer.mk toolName params v).passes = false := by
  by_contra hv
  obtain ⟨hopen, hcount, hblock, hwarn⟩ :=
    turn_passes hcall hwarning ht (Bool.not_eq_false _ ▸ hv)
  rcases hs with hs | hs | ⟨hc, hw⟩
  · rw [hopen] at hs
    cases hs
  · omega
  · omega

theorem turn_final {toolName : Str} {params : Value} {g' : LoopGuard κ} {v : LoopGuardVerdict}
    (hconfig : g'.config = g.config) (hblocked : g'.blockedOutcomes = g.blockedOutcomes)
    (ht : Turn H g toolName params g' v) (hv : (Answer.mk toolName params v).Final) :
    Shut H g' toolName params := by
  unfold Shut
  rw [hconfig, hblocked]
  cases ht with
  | circuit text => simp [Answer.Final] at hv
  | outcome _ hopen => exact Or.inl hopen
  | count _ _ _ hblock => exact Or.inr (Or.inl (UInt32.le_iff_toNat_le.mp hblock))
  | exhausted _ _ _ hwarn hmax =>
    exact Or.inr (Or.inr ⟨UInt32.le_iff_toNat_le.mp hwarn, UInt32.lt_iff_toNat_lt.mp hmax⟩)
  | warned text => simp [Answer.Final] at hv
  | low v _ _ _ _ _ _ hverdict =>
    -- a ping-pong message is none of the three texts
    obtain rfl | ⟨text, rfl⟩ | ⟨text, rfl, hp⟩ := hverdict
    · simp [Answer.Final] at hv
    · simp [Answer.Final] at hv
    · simp only [Answer.Final, LoopGuardVerdict.block.injEq] at hv
      obtain rfl | ⟨n, rfl | rfl⟩ := hv <;> cases hp

omit [DecidableEq κ] in
/-- No counter is about to wrap around. -/
theorem Bounded.room {config : LoopGuardConfig} {answers : List Answer}
    (hb : Bounded H config g answers) (hfew : answers.length + 1 < 2 ^ 32) :
    (∀ h, (g.callCounts h).toNat + 1 < 2 ^ 32) ∧
      ∀ h, (g.warningsEmitted (.call h)).toNat + 1 < 2 ^ 32 := by
  constructor
  · intro h
    have := hb.counts h
    omega
  · intro h
    have := hb.warnings h
    omega

theorem check_bounded {config : LoopGuardConfig} {answers : List Answer}
    (hb : Bounded H config g answers) (hfew : answers.length + 1 < 2 ^ 32) (toolName : Str)
    (params : Value) : Bounded H config (g.check H toolName params).1
      (answers ++ [⟨toolName, params, (g.check H toolName params).2⟩]) := by
  obtain ⟨hconfig, htotal, hblocked⟩ := check_always H g toolName params
  have ht := check_turn H g toolName params
  generalize (g.check H toolName params).1 = g' at *
  generalize (g.check H toolName params).2 = v at *
  obtain ⟨hcall, hwarning⟩ := hb.room hfew
  have hgrow := turn_counts hcall hwarning ht
  have hkeep : ∀ tool ps, Shut H g tool ps → Shut H g' tool ps := fun tool ps hs =>
    hs.mono hconfig (fun h hh => by rw [hblocked]; exact hh) (fun h => (hgrow h).1.1)
      (fun h => (hgrow h).2.1)
  have htotal' : g'.totalCalls.toNat = answers.length + 1 := by
    have := hb.total
    rw [htotal, toNat_succ (by omega), this]
  have hpassed : ∀ tool ps, passed (answers ++ [⟨toolName, params, v⟩]) tool ps =
      passed answers tool ps + if toolName = tool ∧ params = ps ∧
        (Answer.mk toolName params v).passes = true then 1 else 0 := by
    intro tool ps
    simp [passed, List.countP_append, List.countP_cons]
  constructor
  · rw [hconfig, hb.config_eq]
  · rw [htotal', List.length_append, List.length_singleton]
  · intro h
    rw [List.length_append, List.length_singleton]
    exact le_trans (hgrow h).1.2 (Nat.succ_le_succ (hb.counts h))
  · intro h
    rw [List.length_append, List.length_singleton]
    exact le_trans (hgrow h).2.2 (Nat.succ_le_succ (hb.warnings h))
  · unfold unbroken
    rw [List.countP_append]
    cases hv : (Answer.mk toolName params v).breaks with
    | true => simpa [hv, unbroken] using hb.unbroken_le
    | false =>
      have hopen := UInt32.le_iff_toNat_le.mp (turn_open ht hv)
      rw [← htotal, htotal', hb.config_eq] at hopen
      have := List.countP_le_length (p := fun a : Answer => !a.breaks) (l := answers)
      rw [List.countP_singleton, hv]
      simp only [Bool.not_false, ↓reduceIte]
      omega
  · intro tool ps
    rw [hpassed]
    have hle := hb.passed_block tool ps
    have hg := (hgrow (H.computeHash tool ps)).1.1
    split <;> rename_i hm
    · obtain ⟨rfl, rfl, hm⟩ := hm
      obtain ⟨-, hcount, hblock, -⟩ := turn_passes hcall hwarning ht hm
      rw [hb.config_eq] at hblock
      omega
    · omega
  · intro tool ps
    rw [hpassed]
    have hle := hb.passed_warn tool ps
    obtain ⟨⟨hg, -⟩, hw, -⟩ := hgrow (H.computeHash tool ps)
    split <;> rename_i hm
    · obtain ⟨rfl, rfl, hm⟩ := hm
      obtain ⟨-, hcount, -, hwarn⟩ := turn_passes hcall hwarning ht hm
      rw [hb.config_eq] at hwarn
      omega
    · omega
  · intro a ha hf
    rcases List.mem_append.mp ha with ha | ha
    · exact hkeep _ _ (hb.final a ha hf)
    · obtain rfl := List.mem_singleton.mp ha
      exact turn_final hconfig hblocked ht hf
  · rw [List.pairwise_append]
    refine ⟨hb.forever, List.pairwise_singleton _ _, ?_⟩
    intro a ha b hmem hf hsame
    obtain rfl := List.mem_singleton.mp hmem
    obtain ⟨htool, hparams⟩ := hsame
    simp only at htool hparams
    have hs := hb.final a ha hf
    rw [htool, hparams] at hs
    exact turn_shut hcall hwarning ht hs

theorem recordOutcome_bounded {config : LoopGuardConfig} {answers : List Answer}
    (hb : Bounded H config g answers) (toolName : Str) (params : Value) (result : Str) :
    Bounded H config (g.recordOutcome H toolName params result).1 answers := by
  have hsame : (g.recordOutcome H toolName params result).1.config = g.config ∧
      (g.recordOutcome H toolName params result).1.totalCalls = g.totalCalls ∧
      (g.recordOutcome H toolName params result).1.callCounts = g.callCounts ∧
      (g.recordOutcome H toolName params result).1.warningsEmitted = g.warningsEmitted ∧
      ∀ h, g.blockedOutcomes h = true →
        (g.recordOutcome H toolName params result).1.blockedOutcomes h = true := by
    unfold recordOutcome
    dsimp only
    split
    · refine ⟨rfl, rfl, rfl, rfl, fun h hh => ?_⟩
      by_cases he : h = H.computeHash toolName params
      · simp [he]
      · simpa [he] using hh
    · split <;> exact ⟨rfl, rfl, rfl, rfl, fun h hh => hh⟩
  generalize (g.recordOutcome H toolName params result).1 = g' at *
  obtain ⟨hconfig, htotal, hcalls, hwarnings, hblocked⟩ := hsame
  constructor
  · rw [hconfig, hb.config_eq]
  · rw [htotal, hb.total]
  · rw [hcalls]
    exact hb.counts
  · rw [hwarnings]
    exact hb.warnings
  · exact hb.unbroken_le
  · rw [hcalls]
    exact hb.passed_block
  · rw [hcalls, hwarnings]
    exact hb.passed_warn
  · intro a ha hf
    exact (hb.final a ha hf).mono hconfig hblocked (fun h => by rw [hcalls])
      (fun h => by rw [hwarnings])
  · exact hb.forever

theorem run_bounded (H : Hashing κ) (config : LoopGuardConfig) (calls : List Call)
    (hfew : (run (step H) (new config) calls).2.length < 2 ^ 32) :
    Bounded H config (run (step H) (new config) calls).1 (run (step H) (new config) calls).2 := by
  have hstep : ∀ (g : LoopGuard κ) (answers : List Answer) (c : Call),
      (answers.length < 2 ^ 32 → Bounded H config g answers) →
      (answers ++ (step H g c).2).length < 2 ^ 32 →
      Bounded H config (step H g c).1 (answers ++ (step H g c).2) := by
    intro g answers c ih hlen
    rw [List.length_append] at hlen
    have hb := ih (by omega)
    cases c with
    | check toolName params => exact check_bounded hb (by simpa [step] using hlen) toolName params
    | recordOutcome toolName params result =>
      simpa [step] using recordOutcome_bounded hb toolName params result
  have hnew : ([] : List Answer).length < 2 ^ 32 → Bounded H config (new config) [] :=
    fun _ => new_bounded H config
  have := run_invariant (step H) hstep hnew calls
  rw [List.nil_append] at this
  exact this hfew

def Call.isCheck : Call → Bool
  | .check _ _ => true
  | .recordOutcome _ _ _ => false

theorem length_answers (H : Hashing κ) (g : LoopGuard κ) (calls : List Call) :
    (run (step H) g calls).2.length = calls.countP Call.isCheck := by
  induction calls generalizing g with
  | nil => rfl
  | cons c calls ih =>
    rw [run_cons, List.length_append, ih, List.countP_cons]
    cases c <;> simp [step, Call.isCheck, Nat.add_comm]

omit [DecidableEq κ] in
theorem mul_multiplier_toNat {threshold : UInt32} {config : LoopGuardConfig}
    (h : threshold.toNat * config.pollMultiplier.toNat < 2 ^ 32) (toolName : Str)
    (params : Value) : (threshold * H.multiplier config toolName params).toNat =
      threshold.toNat * (H.multiplier config toolName params).toNat := by
  rw [UInt32.toNat_mul]
  apply Nat.mod_eq_of_lt
  unfold Hashing.multiplier
  split
  · exact h
  · simpa using threshold.toNat_lt

/-- The guard's bounds over a whole run of fewer than `2 ^ 32` checks, mixed
with outcomes in any way. -/
theorem check_bounds (H : Hashing κ) (config : LoopGuardConfig)
    (hwarn : config.warnThreshold.toNat * config.pollMultiplier.toNat < 2 ^ 32)
    (hblock : config.blockThreshold.toNat * config.pollMultiplier.toNat < 2 ^ 32)
    (calls : List Call) (hfew : calls.countP Call.isCheck < 2 ^ 32) :
    let answers := (run (step H) (new config) calls).2
    unbroken answers ≤ config.globalCircuitBreaker.toNat ∧
    (∀ toolName params,
      let multiplier := (H.multiplier config toolName params).toNat
      passed answers toolName params ≤ config.blockThreshold.toNat * multiplier - 1 ∧
      passed answers toolName params ≤ config.warnThreshold.toNat * multiplier - 1 +
        config.maxWarningsPerCall.toNat) ∧
    answers.Pairwise (fun a b => a.Final → a.SameCall b → b.passes = false) := by
  intro answers
  have hb : Bounded H config _ answers :=
    run_bounded H config calls (by rw [length_answers]; exact hfew)
  refine ⟨hb.unbroken_le, fun toolName params => ⟨?_, ?_⟩, hb.forever⟩
  · have := hb.passed_block toolName params
    rw [Hashing.effectiveBlock, mul_multiplier_toNat hblock] at this
    omega
  · have := hb.passed_warn toolName params
    rw [Hashing.effectiveWarn, mul_multiplier_toNat hwarn] at this
    omega

theorem check_bounds_default :
    let H : Hashing (Str × Value) :=
      { computeHash := Prod.mk, outcomeDigest := fun t p _ => (t, p), toLowercase := id }
    let calls := [Call.check "ls".toList .null, .recordOutcome "ls".toList .null "a".toList,
      .check "ls".toList .null]
    unbroken (run (step H) (new .default) calls).2 ≤ 30 :=
  (check_bounds _ .default (by decide) (by decide) _ (by decide)).1

theorem totalCalls_run (H : Hashing κ) (toolName : Str) (params : Value) (g : LoopGuard κ)
    (n : Nat) : (run (step H) g (List.replicate n (.check toolName params))).1.totalCalls =
      g.totalCalls + UInt32.ofNat n ∧
      (run (step H) g (List.replicate n (.check toolName params))).1.config = g.config := by
  induction n generalizing g with
  | zero => simp
  | succ n ih =>
    obtain ⟨hconfig, htotal, -⟩ := check_always H g toolName params
    rw [List.replicate_succ, run_cons]
    refine ⟨?_, ?_⟩
    · rw [(ih _).1, step]
      simp only [htotal]
      rw [UInt32.ofNat_add, UInt32.add_assoc, UInt32.add_comm 1]
      rfl
    · rw [(ih _).2, step]
      exact hconfig

/-- After `n` equal checks one more is let through when the total wraps. -/
theorem unbroken_wraps (H : Hashing κ) (config : LoopGuardConfig) (toolName : Str)
    (params : Value) {n : Nat} (hn : UInt32.ofNat n + 1 = 0) :
    0 < unbroken (run (step H) (new config) (List.replicate n (.check toolName params) ++
      [.check toolName params])).2 := by
  obtain ⟨htotal, hconfig⟩ := totalCalls_run H toolName params (new config) n
  rw [run_append, unbroken, List.countP_append]
  generalize (run (step H) (new config) (List.replicate n (.check toolName params))).1 = g at *
  have hopen : ¬ g.config.globalCircuitBreaker < g.totalCalls + 1 := by
    have hzero : g.totalCalls + 1 = 0 := by
      rw [htotal, UInt32.add_assoc, hn]
      rfl
    rw [hzero]
    exact UInt32.not_lt.mpr (UInt32.zero_le)
  have hv : (Answer.mk toolName params (g.check H toolName params).2).breaks = false := by
    have ht := check_turn H g toolName params
    generalize (g.check H toolName params).2 = v at *
    cases ht with
    | circuit text hlimit => exact absurd hlimit hopen
    | outcome | count | exhausted | warned => rfl
    | low v _ _ _ _ _ _ hverdict =>
      obtain rfl | ⟨text, rfl⟩ | ⟨text, rfl, -⟩ := hverdict <;> rfl
  rw [run_cons, run_nil, step]
  simp [hv]

/-- The total wraps to 0 at the check number `2 ^ 32`, which a breaker set to 0
lets through. -/
theorem check_wraps :
    ¬ ∀ (H : Hashing (Str × Value)) (config : LoopGuardConfig),
      (∀ t p t' p', H.computeHash t p = H.computeHash t' p' → t = t' ∧ p = p') →
      config.warnThreshold.toNat * config.pollMultiplier.toNat < 2 ^ 32 →
      config.blockThreshold.toNat * config.pollMultiplier.toNat < 2 ^ 32 →
      ∀ calls : List Call, unbroken (run (step H) (new config) calls).2 ≤
        config.globalCircuitBreaker.toNat := by
  intro h
  let H : Hashing (Str × Value) :=
    { computeHash := Prod.mk, outcomeDigest := fun t p _ => (t, p), toLowercase := id }
  let config : LoopGuardConfig := { LoopGuardConfig.default with globalCircuitBreaker := 0 }
  obtain ⟨n, hn⟩ : ∃ n, UInt32.ofNat n + 1 = 0 := ⟨2 ^ 32 - 1, by decide⟩
  have hle := h H config (by simp [H]) (by decide) (by decide)
    (List.replicate n (.check "ls".toList .null) ++ [.check "ls".toList .null])
  have hpos := unbroken_wraps H config "ls".toList .null hn
  have hzero : config.globalCircuitBreaker.toNat = 0 := rfl
  omega

end Bounds

end LoopGuard

end Clawreform.Runtime
