import Clawreform.Kernel.Metering
import Clawreform.Lib.Run
import Clawreform.Types.Message

namespace Clawreform.Kernel.MeteredTurns

open Clawreform.Lib.Text Clawreform.Lib.Run Clawreform.Types
open Clawreform.Memory.Usage Clawreform.Kernel.Metering

variable {α κ : Type*}

section Turns

inductive Path where
  | sendMessage
  | sendMessageStreaming
  deriving DecidableEq

/-- What a turn reads of the manifest of its agent. -/
structure AgentManifest (κ : Type*) where
  module : Str
  model : Str
  resources : ResourceQuota κ

/-- Every other module runs the agent loop. -/
def AgentManifest.isLlm (manifest : AgentManifest κ) : Prop :=
  ¬ "wasm:".toList <+: manifest.module ∧ ¬ "python:".toList <+: manifest.module

instance (manifest : AgentManifest κ) : Decidable manifest.isLlm :=
  inferInstanceAs (Decidable (_ ∧ _))

/-- A turn of an LLM agent. -/
structure Turn (α κ : Type*) where
  path : Path
  agentId : α
  manifest : AgentManifest κ

structure AgentLoopResult where
  totalUsage : TokenUsage
  iterations : UInt32
  deriving DecidableEq

/-- A turn starts, with what the scheduler and the registry say and the readings of the clock, or
one of those that run ends. Old records are deleted now and then. -/
inductive Step (α κ : Type*) where
  | start (path : Path) (agentId : α) (scheduler : Except Str Unit)
      (entry : Option (AgentManifest κ)) (clock : Modifier → Reading)
  | finish (k : Nat) (routedModel : Str) (result : Except Str AgentLoopResult) (now : Reading)
      (stored : Bool)
  | cleanup (cutoff : Str)

inductive Outcome (α κ : Type*) where
  | refused (message : Str)
  | started (turn : Turn α κ) (clock : Modifier → Reading)
  | returned (usage : UsageRecord α κ) (now : Reading)
  | failed (message : Str)
  | cleaned (cutoff : Str)

/-- The turns that run, and the table of the records. -/
structure Meter (α κ : Type*) where
  running : List (Turn α κ)
  events : List (UsageEvent α κ)

end Turns

section Code

variable [DecidableEq α] [AddCommMonoid κ] [LinearOrder κ]
variable (showAgent : α → Str) (showCost : κ → Str) (estimateCost : Str → UInt64 → UInt64 → κ)

/-- What is recorded of a turn. A streaming turn is not routed to another model. -/
def usageOf (turn : Turn α κ) (routedModel : Str) (result : AgentLoopResult) :
    UsageRecord α κ :=
  let model :=
    match turn.path with
    | .sendMessage => routedModel
    | .sendMessageStreaming => turn.manifest.model
  { agentId := turn.agentId
    model := model
    inputTokens := result.totalUsage.inputTokens
    outputTokens := result.totalUsage.outputTokens
    costUsd := estimateCost model result.totalUsage.inputTokens result.totalUsage.outputTokens
    toolCalls := if result.iterations = 0 then 0 else result.iterations - 1 }

def cleanupOld (cutoff : Str) (events : List (UsageEvent α κ)) : List (UsageEvent α κ) :=
  events.filter fun event => ¬ event.timestamp < cutoff

/-- The quota of the tokens stands in front of both paths, the quota of the costs in front of
`execute_llm_agent` only. -/
def start (m : Meter α κ) (path : Path) (agentId : α) (scheduler : Except Str Unit)
    (entry : Option (AgentManifest κ)) (clock : Modifier → Reading) :
    Meter α κ × List (Outcome α κ) :=
  match scheduler, entry with
  | .error message, _ => (m, [.refused message])
  | .ok _, none => (m, [.refused ("Agent not found: ".toList ++ showAgent agentId)])
  | .ok _, some manifest =>
    if manifest.isLlm then
      let turn : Turn α κ := ⟨path, agentId, manifest⟩
      let checked :=
        match path with
        | .sendMessage =>
          checkQuota showAgent showCost clock agentId manifest.resources m.events
        | .sendMessageStreaming => .ok ()
      match checked with
      | .error message => (m, [.refused message])
      | .ok _ => ({ m with running := m.running ++ [turn] }, [.started turn clock])
    else (m, [])

/-- The end of `execute_llm_agent` records the turn, whether or not that succeeds, and the end of
a streaming turn does not. -/
def finish (m : Meter α κ) (k : Nat) (routedModel : Str) (result : Except Str AgentLoopResult)
    (now : Reading) (stored : Bool) : Meter α κ × List (Outcome α κ) :=
  match m.running[k]?, result with
  | none, _ => (m, [])
  | some _, .error message => ({ m with running := m.running.eraseIdx k }, [.failed message])
  | some turn, .ok result =>
    let usage := usageOf estimateCost turn routedModel result
    let events :=
      if turn.path = .sendMessage ∧ stored then record now usage m.events else m.events
    (⟨m.running.eraseIdx k, events⟩, [.returned usage now])

def step (m : Meter α κ) : Step α κ → Meter α κ × List (Outcome α κ)
  | .start path agentId scheduler entry clock =>
    start showAgent showCost m path agentId scheduler entry clock
  | .finish k routedModel result now stored =>
    finish estimateCost m k routedModel result now stored
  | .cleanup cutoff => ({ m with events := cleanupOld cutoff m.events }, [.cleaned cutoff])

end Code

section Records

variable (stored : List (UsageEvent α κ))

/-- The record that an outcome should leave. -/
def settle (events : List (UsageEvent α κ)) : Outcome α κ → List (UsageEvent α κ)
  | .returned usage now => record now usage events
  | .cleaned cutoff => cleanupOld cutoff events
  | .refused _ => events
  | .started _ _ => events
  | .failed _ => events

/-- The records that every turn that returned a result should have left, as far as they are not
deleted, behind those that there were. -/
def owed (outcomes : List (Outcome α κ)) : List (UsageEvent α κ) := outcomes.foldl settle stored

theorem owed_append (outcomes : List (Outcome α κ)) (outcome : Outcome α κ) :
    owed stored (outcomes ++ [outcome]) = settle (owed stored outcomes) outcome :=
  List.foldl_concat ..

end Records

section Accounts

variable [DecidableEq α] [AddCommMonoid κ] [LinearOrder κ]
variable (showAgent : α → Str) (showCost : κ → Str) (estimateCost : Str → UInt64 → UInt64 → κ)
variable (stored : List (UsageEvent α κ))

/-- The records are those of all turns, and no turn started with its quota exhausted by them. -/
structure Metered (m : Meter α κ) (outcomes : List (Outcome α κ)) : Prop where
  recorded : m.events = owed stored outcomes
  checked : ∀ before turn clock after, outcomes = before ++ .started turn clock :: after →
    checkQuota showAgent showCost clock turn.agentId turn.manifest.resources
      (owed stored before) = .ok ()

/-- A streaming turn starts with room in its quota and returns no result, and a result of the
other turns is stored. -/
def Counts (m : Meter α κ) : Step α κ → Prop
  | .start path agentId scheduler entry clock =>
    path = .sendMessageStreaming → scheduler = .ok () → ∀ manifest ∈ entry, manifest.isLlm →
      checkQuota showAgent showCost clock agentId manifest.resources m.events = .ok ()
  | .finish k _ result _ stored =>
    ∀ turn ∈ m.running[k]?, result.isOk → turn.path = .sendMessage ∧ stored
  | .cleanup _ => True

variable {showAgent showCost estimateCost stored} {m : Meter α κ} {outcomes : List (Outcome α κ)}

/-- Only a step that starts a turn adds one that has to be checked. -/
theorem Metered.append (h : Metered showAgent showCost stored m outcomes)
    {m' : Meter α κ} {outcome : Outcome α κ}
    (hstarted : ∀ turn clock, outcome ≠ .started turn clock) :
    Metered showAgent showCost stored m' (outcomes ++ [outcome]) ↔
      m'.events = owed stored (outcomes ++ [outcome]) := by
  refine ⟨fun h' => h'.recorded, fun hevents => ⟨hevents, fun before turn clock after hsplit => ?_⟩⟩
  rcases List.eq_nil_or_concat' after with rfl | ⟨after, last, rfl⟩
  · obtain ⟨-, hlast⟩ := List.append_inj' hsplit rfl
    exact absurd (List.singleton_inj.mp hlast) (hstarted turn clock)
  · rw [← List.cons_append, ← List.append_assoc] at hsplit
    exact h.checked before turn clock after (List.append_inj' hsplit rfl).1

theorem Metered.append_started (h : Metered showAgent showCost stored m outcomes)
    (running : List (Turn α κ)) (turn : Turn α κ) (clock : Modifier → Reading) :
    Metered showAgent showCost stored ⟨running, m.events⟩
        (outcomes ++ [Outcome.started turn clock]) ↔
      checkQuota showAgent showCost clock turn.agentId turn.manifest.resources m.events =
        .ok () := by
  rw [h.recorded]
  constructor
  · intro h'
    exact h'.checked outcomes turn clock [] rfl
  · intro hcheck
    refine ⟨?_, fun before turn' clock' after hsplit => ?_⟩
    · rw [owed_append, settle]
    · rcases List.eq_nil_or_concat' after with rfl | ⟨after, last, rfl⟩
      · obtain ⟨rfl, hlast⟩ := List.append_inj' hsplit rfl
        cases List.singleton_inj.mp hlast
        exact hcheck
      · rw [← List.cons_append, ← List.append_assoc] at hsplit
        exact h.checked before turn' clock' after (List.append_inj' hsplit rfl).1

theorem metered_start (h : Metered showAgent showCost stored m outcomes) (path : Path)
    (agentId : α) (scheduler : Except Str Unit) (entry : Option (AgentManifest κ))
    (clock : Modifier → Reading) :
    let s := start showAgent showCost m path agentId scheduler entry clock
    Metered showAgent showCost stored s.1 (outcomes ++ s.2) ↔
      Counts showAgent showCost m (.start path agentId scheduler entry clock) := by
  have hrefused (message : Str) :
      Metered showAgent showCost stored m (outcomes ++ [Outcome.refused message]) := by
    refine (h.append (by simp)).mpr ?_
    rw [owed_append, h.recorded, settle]
  intro s
  cases scheduler with
  | error message => exact iff_of_true (hrefused _) fun _ hok => by cases hok
  | ok _ =>
    cases entry with
    | none => exact iff_of_true (hrefused _) fun _ _ => by simp
    | some manifest =>
      by_cases hllm : manifest.isLlm
      · cases path with
        | sendMessage =>
          simp only [s, start, if_pos hllm]
          cases hcheck :
            checkQuota showAgent showCost clock agentId manifest.resources m.events with
          | error message => exact iff_of_true (hrefused _) fun hpath => by cases hpath
          | ok _ =>
            dsimp only
            rw [h.append_started]
            exact iff_of_true hcheck fun hpath => by cases hpath
        | sendMessageStreaming =>
          simp only [s, start, if_pos hllm]
          rw [h.append_started]
          simp [Counts, hllm]
      · simp only [s, start, if_neg hllm, List.append_nil]
        exact iff_of_true h (by simp [Counts, hllm])

theorem metered_finish (h : Metered showAgent showCost stored m outcomes) (k : Nat)
    (routedModel : Str) (result : Except Str AgentLoopResult) (now : Reading) (kept : Bool) :
    let s := finish estimateCost m k routedModel result now kept
    Metered showAgent showCost stored s.1 (outcomes ++ s.2) ↔
      Counts showAgent showCost m (.finish k routedModel result now kept) := by
  intro s
  cases hturn : m.running[k]? with
  | none =>
    simp only [s, finish, hturn, List.append_nil]
    exact iff_of_true h (by simp [Counts, hturn])
  | some turn =>
    cases result with
    | error message =>
      simp only [s, finish, hturn]
      refine iff_of_true ((h.append (by simp)).mpr ?_) ?_
      on_goal 2 => simp [Counts, hturn, Except.isOk, Except.toBool]
      rw [owed_append, h.recorded, settle]
    | ok result =>
      have howed (usage : UsageRecord α κ) :
          owed stored (outcomes ++ [Outcome.returned usage now]) = record now usage m.events := by
        rw [owed_append, h.recorded, settle]
      simp only [s, finish, hturn]
      rw [h.append (by simp), howed]
      by_cases hstored : turn.path = .sendMessage ∧ kept
      · rw [if_pos hstored]
        exact iff_of_true rfl (by simpa [Counts, hturn] using fun _ => hstored)
      · rw [if_neg hstored]
        refine iff_of_false (fun heq => ?_) fun hcounts => hstored (hcounts turn hturn rfl)
        have hlength := congrArg List.length heq
        simp [record] at hlength

theorem metered_step (h : Metered showAgent showCost stored m outcomes) (i : Step α κ) :
    let s := step showAgent showCost estimateCost m i
    Metered showAgent showCost stored s.1 (outcomes ++ s.2) ↔
      Counts showAgent showCost m i := by
  cases i with
  | start path agentId scheduler entry clock =>
    exact metered_start h path agentId scheduler entry clock
  | finish k routedModel result now kept => exact metered_finish h k routedModel result now kept
  | cleanup cutoff =>
    refine iff_of_true ((h.append (by simp)).mpr ?_) trivial
    simp only [step]
    rw [owed_append, h.recorded, settle]

variable (showAgent showCost estimateCost stored)

/-- Every run meters its turns all along exactly when each of its steps counts. -/
theorem turns_metered_iff (steps : List (Step α κ)) :
    (∀ front, front <+: steps →
      Metered showAgent showCost stored
        (run (step showAgent showCost estimateCost) ⟨[], stored⟩ front).1
        (run (step showAgent showCost estimateCost) ⟨[], stored⟩ front).2) ↔
      Allowed (step showAgent showCost estimateCost) (Counts showAgent showCost) ⟨[], stored⟩
        steps := by
  have hstart : Metered showAgent showCost stored ⟨[], stored⟩ [] := ⟨rfl, by simp⟩
  have hstep (m : Meter α κ) (outcomes : List (Outcome α κ)) (i : Step α κ)
      (h : Metered showAgent showCost stored m outcomes) :
      Metered showAgent showCost stored (step showAgent showCost estimateCost m i).1
          (outcomes ++ (step showAgent showCost estimateCost m i).2) ↔
        Counts showAgent showCost m i := metered_step h i
  exact forall_prefix_run_iff_allowed _ hstep hstart steps

end Accounts

section Examples

def chat : AgentManifest Nat := ⟨"builtin:chat".toList, "large".toList, ⟨1, 0, 0⟩⟩

def nineOClock : Modifier → Reading := fun _ => newYear 9 (by decide)

/-- A streaming turn, and another one an hour's quota later. -/
def streamed : List (Step Nat Nat) :=
  [.start .sendMessageStreaming 7 (.ok ()) (some chat) nineOClock,
    .finish 0 "large".toList (.ok ⟨⟨100, 50⟩, 1⟩) (newYear 9 (by decide)) true]

/-- The turn costs something, and nothing is recorded. -/
theorem streamed_not_metered : ¬ ∀ front, front <+: streamed →
    Metered (fun _ => []) (fun _ => []) []
      (run (step (fun _ => []) (fun _ => []) fun _ _ _ => 3) ⟨[], []⟩ front).1
      (run (step (fun _ => []) (fun _ => []) fun _ _ _ => 3) ⟨[], []⟩ front).2 := by
  intro h
  have hrecorded := (h streamed List.prefix_rfl).recorded
  have hlength := congrArg List.length hrecorded
  exact absurd hlength (by decide)

end Examples

end Clawreform.Kernel.MeteredTurns
