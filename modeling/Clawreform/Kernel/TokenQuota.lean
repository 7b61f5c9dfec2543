import Clawreform.Kernel.Lifecycle
import Clawreform.Types.Message

namespace Clawreform.Kernel.TokenQuota

open Clawreform.Lib.Text Clawreform.Lib.Store Clawreform.Types
open Clawreform.Kernel.Lifecycle (ResourceQuota UsageTracker AgentScheduler)

/-- An hour in nanoseconds. -/
def hour : Int := 3600 * 10 ^ 9

structure QuotaExceeded where
  text : Str
  deriving DecidableEq

section Code

def showTokens (n : UInt64) : Str := Nat.toDigits 10 n.toNat

/-- The sum wraps around, as in a release build. -/
def total (usage : TokenUsage) : UInt64 := usage.inputTokens + usage.outputTokens

/-- The clock is read once for the comparison, and again when the window starts anew. -/
def resetIfExpired (tracker : UsageTracker) (now later : DateTime) : UsageTracker :=
  if hour ≤ now - tracker.windowStart then
    { tracker with totalTokens := 0, toolCalls := 0, windowStart := later }
  else tracker

def addTokens (usage : TokenUsage) (tracker : UsageTracker) : UsageTracker :=
  { tracker with totalTokens := tracker.totalTokens + total usage }

variable (s : AgentScheduler) (agentId : AgentId)

def recordUsage (usage : TokenUsage) (now later : DateTime) : AgentScheduler :=
  let record tracker := addTokens usage (resetIfExpired tracker now later)
  { s with usage := adjust agentId record s.usage }

def limitText (used limit : UInt64) : Str :=
  "Token limit exceeded: ".toList ++ showTokens used ++ " / ".toList ++ showTokens limit

def checkTracker (quota : ResourceQuota) (tracker : UsageTracker) : Except QuotaExceeded Unit :=
  if 0 < quota.maxLlmTokensPerHour ∧ quota.maxLlmTokensPerHour < tracker.totalTokens then
    .error ⟨limitText tracker.totalTokens quota.maxLlmTokensPerHour⟩
  else .ok ()

def checkQuota (now later : DateTime) : AgentScheduler × Except QuotaExceeded Unit :=
  match s.quotas.lookup agentId, s.usage.lookup agentId with
  | some quota, some tracker =>
    let reset tracker := resetIfExpired tracker now later
    ({ s with usage := adjust agentId reset s.usage }, checkTracker quota (reset tracker))
  | _, _ => (s, .ok ())

end Code

section Runs

inductive Request where
  | recordUsage (usage : TokenUsage)
  | checkQuota
  deriving DecidableEq

/-- A call with what it reads from the clock, first and last. -/
structure Call where
  agentId : AgentId
  request : Request
  now : DateTime
  later : DateTime
  deriving DecidableEq

def step (s : AgentScheduler) (c : Call) : AgentScheduler :=
  match c.request with
  | .recordUsage usage => recordUsage s c.agentId usage c.now c.later
  | .checkQuota => (checkQuota s c.agentId c.now c.later).1

def times (calls : List Call) : List DateTime := calls.flatMap fun c => [c.now, c.later]

/-- The clock never goes back between the registration and the calls. -/
def Chronological (start : DateTime) (calls : List Call) : Prop :=
  (start :: times calls).Pairwise (· ≤ ·)

instance (start : DateTime) (calls : List Call) : Decidable (Chronological start calls) :=
  inferInstanceAs (Decidable (List.Pairwise _ _))

/-- What a call records, counted without overflow. -/
def Call.tokens (c : Call) : Nat :=
  match c.request with
  | .recordUsage usage => usage.inputTokens.toNat + usage.outputTokens.toNat
  | .checkQuota => 0

def spent (calls : List Call) : Nat := (calls.map Call.tokens).sum

/-- The calls of the last hour. -/
def recent (now : DateTime) (calls : List Call) : List Call :=
  calls.filter fun c => now - hour < c.later

def callsOf (agentId : AgentId) (calls : List Call) : List Call :=
  calls.filter fun c => c.agentId = agentId

/-- No check of an agent passes when the agent spent more than the limit in the hour before. -/
def WithinHour (s : AgentScheduler) (agentId : AgentId) (limit : Nat) (calls : List Call) : Prop :=
  ∀ before c after, calls = before ++ c :: after → c.agentId = agentId → c.request = .checkQuota →
    (checkQuota (before.foldl step s) agentId c.now c.later).2 = .ok () →
      spent (recent c.now (callsOf agentId before)) ≤ limit

end Runs

section Windows

/-- An agent's calls, split at the last restart of its window. -/
structure Window where
  start : DateTime
  earlier : List Call
  fresh : List Call
  deriving DecidableEq

/-- A call an hour or more after the start is the first of a new window. -/
def Window.next (w : Window) (c : Call) : Window :=
  if hour ≤ c.now - w.start then ⟨c.later, w.earlier ++ w.fresh, [c]⟩
  else { w with fresh := w.fresh ++ [c] }

def window (start : DateTime) (calls : List Call) : Window :=
  calls.foldl Window.next ⟨start, [], []⟩

/-- What was spent in the window already exceeds the limit, or with what was spent in the hour
before the window started it still does not. -/
def Window.Settles (w : Window) (now : DateTime) (limit : Nat) : Prop :=
  limit < spent w.fresh % 2 ^ 64 ∨ spent (recent now w.earlier) + spent w.fresh ≤ limit

@[simp] theorem spent_append (calls calls' : List Call) :
    spent (calls ++ calls') = spent calls + spent calls' := by
  simp [spent]

theorem spent_single (c : Call) : spent [c] = c.tokens := by
  simp [spent]

theorem callsOf_concat (agentId : AgentId) (calls : List Call) (c : Call) :
    callsOf agentId (calls ++ [c]) =
      callsOf agentId calls ++ if c.agentId = agentId then [c] else [] := by
  by_cases h : c.agentId = agentId <;> simp [callsOf, h]

theorem window_concat (start : DateTime) (calls : List Call) (c : Call) :
    window start (calls ++ [c]) = (window start calls).next c := by
  simp [window]

theorem Window.next_calls (w : Window) (c : Call) :
    (w.next c).earlier ++ (w.next c).fresh = w.earlier ++ w.fresh ++ [c] := by
  by_cases h : hour ≤ c.now - w.start <;> simp [Window.next, h]

theorem window_calls (start : DateTime) (calls : List Call) :
    (window start calls).earlier ++ (window start calls).fresh = calls := by
  induction calls using List.reverseRecOn with
  | nil => rfl
  | append_singleton calls c ih => rw [window_concat, Window.next_calls, ih]

theorem chronological_concat {start : DateTime} {calls : List Call} {c : Call} :
    Chronological start (calls ++ [c]) ↔
      Chronological start calls ∧ c.now ≤ c.later ∧ ∀ t ∈ start :: times calls, t ≤ c.now := by
  have htimes : start :: times (calls ++ [c]) = (start :: times calls) ++ [c.now, c.later] := by
    simp [times]
  rw [Chronological, htimes, List.pairwise_append, Chronological]
  constructor
  · intro ⟨hcalls, hpair, hall⟩
    exact ⟨hcalls, by simpa using hpair, fun t ht => hall t ht _ (by simp)⟩
  · intro ⟨hcalls, hnow, hall⟩
    refine ⟨hcalls, by simpa using hnow, fun t ht u hu => ?_⟩
    have hle := hall t ht
    simp only [List.mem_cons, List.not_mem_nil, or_false] at hu
    obtain rfl | rfl := hu
    · exact hle
    · exact hle.trans hnow

/-- A window starts when a call was made, and holds only what was recorded from then on. -/
theorem window_sound {start : DateTime} {calls : List Call} (h : Chronological start calls)
    (agentId : AgentId) :
    (window start (callsOf agentId calls)).start ∈ start :: times calls ∧
      ∀ c ∈ (window start (callsOf agentId calls)).fresh,
        (window start (callsOf agentId calls)).start ≤ c.later := by
  induction calls using List.reverseRecOn with
  | nil => simp [window, callsOf]
  | append_singleton calls c ih =>
    obtain ⟨hcalls, hnow, hall⟩ := chronological_concat.mp h
    obtain ⟨hstart, hfresh⟩ := ih hcalls
    have hmem : start :: times (calls ++ [c]) = start :: times calls ++ [c.now, c.later] := by
      simp [times]
    rw [callsOf_concat, hmem]
    by_cases hc : c.agentId = agentId
    · rw [if_pos hc, window_concat]
      generalize window start (callsOf agentId calls) = w at hstart hfresh
      by_cases hlong : hour ≤ c.now - w.start
      · simp [Window.next, hlong]
      · have hle : w.start ≤ c.later := (hall _ hstart).trans hnow
        simp only [Window.next, if_neg hlong]
        refine ⟨List.mem_append_left _ hstart, fun d hd => ?_⟩
        obtain hd | hd := List.mem_append.mp hd
        · exact hfresh d hd
        · rw [List.mem_singleton.mp hd]
          exact hle
    · rw [if_neg hc, List.append_nil]
      exact ⟨List.mem_append_left _ hstart, hfresh⟩

theorem recent_eq_self {now : DateTime} {calls : List Call}
    (h : ∀ c ∈ calls, now - hour < c.later) : recent now calls = calls :=
  List.filter_eq_self.mpr (by simpa using h)

theorem recent_append (now : DateTime) (calls calls' : List Call) :
    recent now (calls ++ calls') = recent now calls ++ recent now calls' :=
  List.filter_append _ _

/-- The hour before a check is what the window holds, and the end of what is before it. -/
theorem spent_recent {start : DateTime} {before : List Call} {c : Call}
    (h : Chronological start before) (hc : c.tokens = 0) :
    let w := (window start (callsOf c.agentId before)).next c
    spent (recent c.now (callsOf c.agentId before)) =
      spent (recent c.now w.earlier) + spent w.fresh := by
  obtain ⟨-, hfresh⟩ := window_sound h c.agentId
  have hcalls := window_calls start (callsOf c.agentId before)
  generalize window start (callsOf c.agentId before) = w at hfresh hcalls
  by_cases hlong : hour ≤ c.now - w.start
  · simp only [Window.next, if_pos hlong, spent_single, hc, hcalls, Nat.add_zero]
  · have hrecent : recent c.now w.fresh = w.fresh := by
      apply recent_eq_self
      intro d hd
      have hshort : c.now - hour < w.start := sub_lt_comm.mp (not_le.mp hlong)
      exact hshort.trans_le (hfresh d hd)
    simp only [Window.next, if_neg hlong, spent_append, spent_single, hc, Nat.add_zero]
    rw [← hcalls, recent_append, spent_append, hrecent]

end Windows

section Scheduler

/-- What a call does to the tracker of its agent. -/
def Call.track (c : Call) (tracker : UsageTracker) : UsageTracker :=
  match c.request with
  | .recordUsage usage => addTokens usage (resetIfExpired tracker c.now c.later)
  | .checkQuota => resetIfExpired tracker c.now c.later

/-- The tracker has the start of the window, and counts its tokens modulo `2 ^ 64`. -/
structure Tracks (tracker : UsageTracker) (w : Window) : Prop where
  start : tracker.windowStart = w.start
  tokens : tracker.totalTokens = UInt64.ofNat (spent w.fresh)

theorem total_eq (usage : TokenUsage) :
    total usage = UInt64.ofNat (usage.inputTokens.toNat + usage.outputTokens.toNat) := by
  simp [total]

theorem Tracks.next {tracker : UsageTracker} {w : Window} (h : Tracks tracker w) (c : Call) :
    Tracks (c.track tracker) (w.next c) := by
  obtain ⟨agentId, request, now, later⟩ := c
  obtain ⟨hstart, htokens⟩ := h
  by_cases hlong : hour ≤ now - w.start <;> cases request <;> constructor <;>
    simp [Call.track, Window.next, resetIfExpired, addTokens, hstart, htokens, hlong, total_eq,
      Call.tokens, spent_single]

variable {s : AgentScheduler} {agentId : AgentId} {quota : ResourceQuota}

theorem step_quotas (s : AgentScheduler) (c : Call) : (step s c).quotas = s.quotas := by
  cases hc : c.request with
  | recordUsage usage => simp [step, hc, recordUsage]
  | checkQuota =>
    simp only [step, hc, checkQuota]
    split <;> rfl

theorem lookup_step {quota : ResourceQuota} (h : s.quotas.lookup agentId = some quota) (c : Call) :
    (step s c).usage.lookup agentId =
      if c.agentId = agentId then (s.usage.lookup agentId).map c.track
      else s.usage.lookup agentId := by
  obtain ⟨callee, request, now, later⟩ := c
  by_cases hc : callee = agentId
  · subst hc
    cases request with
    | recordUsage usage =>
      simp only [step, recordUsage, lookup_adjust_self, if_true]
      rfl
    | checkQuota =>
      cases htracker : s.usage.lookup callee <;> simp [step, checkQuota, Call.track, h, htracker]
  · have hne : agentId ≠ callee := fun he => hc he.symm
    simp only [if_neg hc]
    cases request with
    | recordUsage usage => exact lookup_adjust_ne hne _ _
    | checkQuota =>
      simp only [step, checkQuota]
      split
      · exact lookup_adjust_ne hne _ _
      · rfl

/-- After every run the tracker of a registered agent follows its window. -/
theorem run_tracks (s : AgentScheduler) (agentId : AgentId) (quota : ResourceQuota)
    (start : DateTime) (calls : List Call) :
    let s' := calls.foldl step (s.register agentId quota start)
    s'.quotas.lookup agentId = some quota ∧
      ∃ tracker, s'.usage.lookup agentId = some tracker ∧
        Tracks tracker (window start (callsOf agentId calls)) := by
  induction calls using List.reverseRecOn with
  | nil => exact ⟨by simp [AgentScheduler.register], ⟨0, 0, start⟩,
      by simp [AgentScheduler.register], rfl, rfl⟩
  | append_singleton calls c ih =>
    obtain ⟨hquota, tracker, hlookup, htracks⟩ := ih
    simp only [List.foldl_append, List.foldl_cons, List.foldl_nil, callsOf_concat]
    rw [step_quotas, lookup_step hquota, hlookup]
    refine ⟨hquota, ?_⟩
    by_cases hc : c.agentId = agentId
    · rw [if_pos hc, if_pos hc, window_concat]
      exact ⟨c.track tracker, rfl, htracks.next c⟩
    · rw [if_neg hc, if_neg hc, List.append_nil]
      exact ⟨tracker, rfl, htracks⟩

theorem checkTracker_eq_ok {tracker : UsageTracker} {w : Window} (h : Tracks tracker w)
    (hlimit : 0 < quota.maxLlmTokensPerHour) :
    checkTracker quota tracker = .ok () ↔
      ¬ quota.maxLlmTokensPerHour.toNat < spent w.fresh % 2 ^ 64 := by
  simp [checkTracker, hlimit, h.tokens, UInt64.lt_iff_toNat_lt]

/-- A check passes only within the limit of the last hour exactly when no restart of the window
hides tokens that count. -/
theorem within_hour_iff (s : AgentScheduler) (agentId : AgentId) {quota : ResourceQuota}
    (hlimit : 0 < quota.maxLlmTokensPerHour) {start : DateTime} {calls : List Call}
    (hclock : Chronological start calls) :
    WithinHour (s.register agentId quota start) agentId quota.maxLlmTokensPerHour.toNat calls ↔
      ∀ before c after, calls = before ++ c :: after → c.agentId = agentId →
        c.request = .checkQuota →
          (window start (callsOf agentId (before ++ [c]))).Settles c.now
            quota.maxLlmTokensPerHour.toNat := by
  have hcheck (before : List Call) (c : Call) (after : List Call)
      (hsplit : calls = before ++ c :: after) (hc : c.agentId = agentId)
      (hrequest : c.request = .checkQuota) :
      ((checkQuota (before.foldl step (s.register agentId quota start)) agentId c.now c.later).2 =
          .ok () → spent (recent c.now (callsOf agentId before)) ≤
            quota.maxLlmTokensPerHour.toNat) ↔
        (window start (callsOf agentId (before ++ [c]))).Settles c.now
          quota.maxLlmTokensPerHour.toNat := by
    subst hc
    have hsublist : (start :: times before).Sublist (start :: times calls) := by
      rw [hsplit]
      simp [times]
    have hbefore : Chronological start before := List.Pairwise.sublist hsublist hclock
    have htokens : c.tokens = 0 := by simp [Call.tokens, hrequest]
    obtain ⟨hquota, tracker, hlookup, htracks⟩ := run_tracks s c.agentId quota start before
    have hreset : c.track tracker = resetIfExpired tracker c.now c.later := by
      simp [Call.track, hrequest]
    have hok := checkTracker_eq_ok (htracks.next c) hlimit
    rw [hreset] at hok
    rw [callsOf_concat, if_pos rfl, window_concat, Window.Settles]
    simp only [checkQuota, hquota, hlookup, hok, spent_recent hbefore htokens]
    exact imp_iff_not_or.trans (or_congr_left not_not)
  constructor
  · intro h before c after hsplit hc hrequest
    exact (hcheck before c after hsplit hc hrequest).mp (h before c after hsplit hc hrequest)
  · intro h before c after hsplit hc hrequest
    exact (hcheck before c after hsplit hc hrequest).mpr (h before c after hsplit hc hrequest)

end Scheduler

section Examples

/-- A call of agent 7 that takes no time. -/
def callAt (seconds : Int) (request : Request) : Call :=
  ⟨7, request, seconds * 10 ^ 9, seconds * 10 ^ 9⟩

def emptyScheduler : AgentScheduler := ⟨∅, ∅⟩

/-- Two calls of sixty tokens, one on each side of the restart, and a check a second later. -/
def straddling : List Call :=
  [callAt 3599 (.recordUsage ⟨40, 20⟩), callAt 3600 (.recordUsage ⟨40, 20⟩),
    callAt 3601 .checkQuota]

theorem within_hour_iff_straddling :
    WithinHour (emptyScheduler.register 7 ⟨100⟩ 0) 7 100 straddling ↔
      ∀ before c after, straddling = before ++ c :: after → c.agentId = 7 →
        c.request = .checkQuota → (window 0 (callsOf 7 (before ++ [c]))).Settles c.now 100 :=
  @within_hour_iff emptyScheduler 7 ⟨100⟩ (by decide) 0 straddling (by decide)

/-- The check passes although a limit of a hundred tokens is exceeded by twenty. -/
theorem straddling_exceeds :
    ¬ WithinHour (emptyScheduler.register 7 ⟨100⟩ 0) 7 100 straddling := by
  intro h
  have hspent := h (straddling.take 2) (callAt 3601 .checkQuota) [] rfl rfl rfl (by decide)
  have htokens : spent (recent (callAt 3601 .checkQuota).now
      (callsOf 7 (straddling.take 2))) = 120 := by decide
  omega

end Examples

end Clawreform.Kernel.TokenQuota
