import Clawreform.Kernel.Workflow

namespace Clawreform.Kernel

open Clawreform.Lib.Text Clawreform.Lib.Store Clawreform.Lib.Program Clawreform.Types

def Sent.isFailure : Sent → Bool
  | .error _ | .timedOut => true
  | .reply _ _ _ | .cutOff => false

def Sent.isReply : Sent → Bool
  | .reply _ _ _ => true
  | .error _ | .timedOut | .cutOff => false

/-- How often a step is retried. -/
def ErrorMode.retries : ErrorMode → Nat
  | .fail | .skip => 0
  | .retry maxRetries => maxRetries.toNat

/-- The attempts of one execution: what failed and was tried again, and the last
one. A member of a fan-out group has one attempt, whatever its error mode. -/
structure Tried (step : WorkflowStep) (failed : List Sent) (last : Sent) : Prop where
  failures : ∀ sent ∈ failed, sent.isFailure = true
  retries_le : failed.length ≤ step.errorMode.retries
  parallel : step.isFanOut = true → failed = []
  exhausted : step.isFanOut = false → last.isFailure = true →
    failed.length = step.errorMode.retries

namespace StepEvent

/-- The run goes on after the event. -/
def Continues : StepEvent → Prop
  | .resolved _ answer => answer.isSome = true
  | .executed step attempts => ∃ failed last, attempts = failed ++ [last] ∧ Tried step failed last ∧
      (last.isReply = true ∨
        last.isFailure = true ∧ step.isFanOut = false ∧ step.errorMode = .skip)
  | .cutOff => False

/-- The event is an execution that makes the run fail. -/
def Fails : StepEvent → Prop
  | .resolved _ _ | .cutOff => False
  | .executed step attempts => ∃ failed last, attempts = failed ++ [last] ∧ Tried step failed last ∧
      last.isFailure = true ∧ (step.isFanOut = true ∨ step.errorMode ≠ .skip)

/-- The time of the workflow is over in the event. -/
def Cuts : StepEvent → Prop
  | .resolved _ _ => False
  | .executed step attempts => ∃ failed, attempts = failed ++ [.cutOff] ∧ Tried step failed .cutOff
  | .cutOff => True

/-- An agent is not found, or the time of the workflow is over. -/
def abandons : StepEvent → Bool
  | .resolved _ answer => answer.isNone
  | .executed _ attempts => attempts.contains .cutOff
  | .cutOff => true

/-- The attempts an event records are those of one execution. -/
def Traced (event : StepEvent) : Prop :=
  ∀ step attempts, event = .executed step attempts →
    ∃ failed last, attempts = failed ++ [last] ∧ Tried step failed last

theorem Continues.traced {event : StepEvent} (h : event.Continues) : event.Traced := by
  rintro step attempts rfl
  obtain ⟨failed, last, heq, htried, -⟩ := h
  exact ⟨failed, last, heq, htried⟩

theorem Fails.traced {event : StepEvent} (h : event.Fails) : event.Traced := by
  rintro step attempts rfl
  obtain ⟨failed, last, heq, htried, -⟩ := h
  exact ⟨failed, last, heq, htried⟩

theorem Cuts.traced {event : StepEvent} (h : event.Cuts) : event.Traced := by
  rintro step attempts rfl
  obtain ⟨failed, heq, htried⟩ := h
  exact ⟨failed, .cutOff, heq, htried⟩

/-- The event is an attempt of a fan-out member that failed. -/
def FailsInGroup (event : StepEvent) : Prop :=
  ∃ step attempts, event = .executed step attempts ∧ step.isFanOut = true ∧
    ∃ sent ∈ attempts, sent.isFailure = true

theorem Continues.not_failsInGroup {event : StepEvent} (h : event.Continues) :
    ¬ event.FailsInGroup := by
  rintro ⟨step, attempts, rfl, hpar, sent, hmem, hfailure⟩
  obtain ⟨failed, last, rfl, htried, hlast⟩ := h
  rw [htried.parallel hpar, List.nil_append, List.mem_singleton] at hmem
  subst hmem
  rcases hlast with hreply | ⟨-, hseq, -⟩
  · cases sent <;> simp_all [Sent.isReply, Sent.isFailure]
  · simp [hpar] at hseq

theorem Cuts.not_failsInGroup {event : StepEvent} (h : event.Cuts) : ¬ event.FailsInGroup := by
  rintro ⟨step, attempts, rfl, hpar, sent, hmem, hfailure⟩
  obtain ⟨failed, rfl, htried⟩ := h
  rw [htried.parallel hpar, List.nil_append, List.mem_singleton] at hmem
  subst hmem
  cases hfailure

theorem not_abandons_of_tried {step : WorkflowStep} {failed : List Sent} {last : Sent}
    (h : Tried step failed last) (hlast : last ≠ .cutOff) :
    abandons (.executed step (failed ++ [last])) = false := by
  have hfailed : ∀ sent ∈ failed, sent ≠ .cutOff := by
    rintro sent hmem rfl
    cases h.failures _ hmem
  simpa [abandons, eq_comm, hlast] using fun hmem => hfailed _ hmem rfl

theorem Continues.not_abandons {event : StepEvent} (h : event.Continues) : event.abandons = false := by
  cases event with
  | resolved step answer => simpa [abandons, Continues] using h
  | executed step attempts =>
    obtain ⟨failed, last, rfl, htried, hlast⟩ := h
    apply not_abandons_of_tried htried
    rintro rfl
    rcases hlast with hlast | ⟨hlast, -⟩ <;> cases hlast
  | cutOff => exact h.elim

theorem Fails.not_abandons {event : StepEvent} (h : event.Fails) : event.abandons = false := by
  cases event with
  | resolved step answer => exact h.elim
  | executed step attempts =>
    obtain ⟨failed, last, rfl, htried, hlast, -⟩ := h
    apply not_abandons_of_tried htried
    rintro rfl
    cases hlast
  | cutOff => exact h.elim

theorem Cuts.abandons {event : StepEvent} (h : event.Cuts) : event.abandons = true := by
  cases event with
  | resolved step answer => exact h.elim
  | executed step attempts =>
    obtain ⟨failed, rfl, -⟩ := h
    simp [StepEvent.abandons]
  | cutOff => rfl

end StepEvent

namespace WorkflowEngine

section Stored

variable {s : WorkflowEngine} {runId : WorkflowRunId} {P Q : WorkflowRun → Prop}

def Stored (s : WorkflowEngine) (runId : WorkflowRunId) (P : WorkflowRun → Prop) : Prop :=
  ∃ r, s.runs.lookup runId = some r ∧ P r

def Running (s : WorkflowEngine) (runId : WorkflowRunId) : Prop :=
  s.Stored runId fun r => r.state = .running

theorem Stored.change (h : s.Stored runId P) {f : WorkflowRun → WorkflowRun}
    (hf : ∀ r, P r → Q (f r)) : Stored { s with runs := adjust runId f s.runs } runId Q := by
  obtain ⟨r, hr, hP⟩ := h
  exact ⟨f r, by rw [lookup_adjust_self, hr]; rfl, hf r hP⟩

end Stored

section Steps

variable (runId : WorkflowRunId)

/-- The run is under way, and nothing has happened that ends it. -/
structure Going (s : RunStatus) : Prop where
  running : s.engine.Running runId
  continues : ∀ event ∈ s.log, event.Continues

/-- The run is under way, and the last thing that happened ends it. -/
structure Ending (final : StepEvent → Prop) (s : RunStatus) : Prop where
  running : s.engine.Running runId
  log : ∃ before event, s.log = before ++ [event] ∧ (∀ e ∈ before, e.Continues) ∧ final event

def Unresolved (event : StepEvent) : Prop := ∃ step, event = .resolved step none

/-- The time of the workflow was over while a failure waited to be recorded. -/
structure Overtaken (s : RunStatus) : Prop where
  running : s.engine.Running runId
  log : ∃ before event, s.log = before ++ [event, .cutOff] ∧ (∀ e ∈ before, e.Continues) ∧ event.Fails

/-- The failure is recorded in the run. -/
structure Recorded (e : Str) (s : RunStatus) : Prop where
  stored : s.engine.Stored runId fun r =>
    r.state = .failed ∧ r.error = some e ∧ r.completedAt.isSome = true
  log : ∃ before event, s.log = before ++ [event] ∧ (∀ e ∈ before, e.Continues) ∧ event.Fails

/-- The ways in which the steps of a workflow are left early. -/
def Left : RunExit → RunStatus → Prop
  | .failed e, s => Ending runId Unresolved s ∨ Recorded runId e s
  | .cutOff, s => Ending runId StepEvent.Cuts s ∨ Overtaken runId s

variable {runId} {s : RunStatus} {W : WorkflowWorld}

theorem Going.ending (h : Going runId s) {event : StepEvent} {final : StepEvent → Prop}
    (he : final event) : Ending runId final { s with log := s.log ++ [event] } :=
  ⟨h.running, s.log, event, rfl, h.continues, he⟩

theorem Ending.overtaken (h : Ending runId StepEvent.Fails s) :
    Overtaken runId { s with log := s.log ++ [.cutOff] } := by
  obtain ⟨before, event, hlog, hbefore, he⟩ := h.log
  exact ⟨h.running, before, event, by simp [hlog], hbefore, he⟩

section Draw

variable {α : Type} {pre : RunStatus → Prop} {exit : RunExit → RunStatus → Prop}

theorem triple_draw {f : Nat → α} {post : α → RunStatus → Prop}
    (h : ∀ s, pre s → post (f s.tick) { s with tick := s.tick + 1 }) :
    Triple pre (draw f) post exit := ⟨h⟩

/-- What does not look at the clock is kept by a question. -/
theorem triple_ask {f : Nat → α} (h : ∀ s n, pre s → pre { s with tick := n }) :
    Triple pre (draw f) (fun _ => pre) exit :=
  triple_draw fun s hs => h s _ hs

theorem triple_lock (htick : ∀ s n, pre s → pre { s with tick := n })
    (hcut : ∀ s, pre s → exit .cutOff { s with log := s.log ++ [.cutOff] }) :
    Triple pre (lock W) (fun _ => pre) exit := by
  apply triple_bind (triple_ask htick)
  intro granted
  cases granted with
  | true => exact triple_pure fun _ hs => hs
  | false =>
    have hnote : Triple pre (note .cutOff) (fun _ => exit .cutOff) exit := triple_update hcut
    exact triple_bind hnote fun _ => triple_throw fun _ hs => hs

end Draw

theorem going_tick (s : RunStatus) (n : Nat) (h : Going runId s) : Going runId { s with tick := n } :=
  ⟨h.running, h.continues⟩

theorem ending_tick {final : StepEvent → Prop} (s : RunStatus) (n : Nat) (h : Ending runId final s) :
    Ending runId final { s with tick := n } := ⟨h.running, h.log⟩

theorem going_note {event : StepEvent} {exit : RunExit → RunStatus → Prop} (he : event.Continues) :
    Triple (Going runId) (note event) (fun _ => Going runId) exit := by
  apply triple_update
  intro s hs
  refine ⟨hs.running, fun e hmem => ?_⟩
  rcases List.mem_append.mp hmem with hold | hnew
  · exact hs.continues e hold
  · rw [List.mem_singleton.mp hnew]
    exact he

theorem ending_note {event : StepEvent} {final : StepEvent → Prop}
    {exit : RunExit → RunStatus → Prop} (he : final event) :
    Triple (Going runId) (note event) (fun _ => Ending runId final) exit :=
  triple_update fun _ hs => hs.ending he

theorem going_ask {α : Type} {f : Nat → α} :
    Triple (Going runId) (draw f) (fun _ => Going runId) (Left runId) := triple_ask going_tick

theorem going_lock : Triple (Going runId) (lock W) (fun _ => Going runId) (Left runId) :=
  triple_lock going_tick fun _ hs => .inl (hs.ending trivial)

theorem going_changeRun {f : WorkflowRun → WorkflowRun} (hf : ∀ r, (f r).state = r.state) :
    Triple (Going runId) (changeRun runId f) (fun _ => Going runId) (Left runId) := by
  apply triple_update
  intro s hs
  exact ⟨hs.running.change fun r hr => (hf r).trans hr, hs.continues⟩

theorem going_pushResult {stepName : Str} {agent : AgentId × Str} {reply : Reply} {durationMs : UInt64} :
    Triple (Going runId) (pushResult W runId stepName agent reply durationMs)
      (fun _ => Going runId) (Left runId) :=
  triple_bind going_lock fun _ => going_changeRun fun _ => rfl

theorem going_resolveAgent {step : WorkflowStep} :
    Triple (Going runId) (resolveAgent W step) (fun _ => Going runId) (Left runId) := by
  apply triple_bind going_ask
  intro answer
  cases answer with
  | some agent =>
    have hnext : StepEvent.Continues (.resolved step (some agent)) := rfl
    apply triple_bind (going_note hnext)
    exact fun _ => triple_pure fun _ hs => hs
  | none =>
    have hfinal : Unresolved (.resolved step none) := ⟨step, rfl⟩
    apply triple_bind (ending_note hfinal)
    exact fun _ => triple_throw fun _ hs => .inl hs

/-- A failed step is recorded in the run, unless the time is over first. -/
theorem ending_failRun {α : Type} {e : Str} {post : α → RunStatus → Prop} :
    Triple (Ending runId StepEvent.Fails) (failRun W runId e) post (Left runId) := by
  apply triple_bind (triple_lock ending_tick fun _ hs => .inr hs.overtaken)
  intro _
  apply triple_bind (triple_ask ending_tick)
  intro now
  have hwrite : Triple (Ending runId StepEvent.Fails)
      (changeRun runId fun r => { r with state := .failed, error := some e, completedAt := some now })
      (fun _ => Recorded runId e) (Left runId) :=
    triple_update fun s hs => ⟨hs.running.change fun r _ => ⟨rfl, rfl, rfl⟩, hs.log⟩
  exact triple_bind hwrite fun _ => triple_throw fun _ hs => .inr hs

section Attempts

variable {step : WorkflowStep} {agentId : AgentId} {prompt : Str}

/-- The result of an execution: the run can go on, or the last event fails it. -/
def Outcome {α : Type} (runId : WorkflowRunId) : Except Str α → RunStatus → Prop
  | .ok _ => Going runId
  | .error _ => Ending runId StepEvent.Fails

theorem Tried.once (hpar : step.isFanOut = true ∨ step.errorMode.retries = 0) (last : Sent) :
    Tried step [] last where
  failures := by simp
  retries_le := Nat.zero_le _
  parallel _ := rfl
  exhausted hseq _ := by simpa [hseq, eq_comm] using hpar

/-- The attempts so far have all failed, and some are left. -/
structure Retrying (step : WorkflowStep) (maxRetries : UInt32) (left : Nat) (failed : List Sent) :
    Prop where
  sequential : step.isFanOut = false
  mode : step.errorMode = .retry maxRetries
  failures : ∀ sent ∈ failed, sent.isFailure = true
  left : failed.length + left = maxRetries.toNat

theorem Retrying.again {maxRetries : UInt32} {left : Nat} {failed : List Sent} {sent : Sent}
    (h : Retrying step maxRetries (left + 1) failed) (hsent : sent.isFailure = true) :
    Retrying step maxRetries left (failed ++ [sent]) where
  sequential := h.sequential
  mode := h.mode
  failures := by simpa [or_imp, forall_and, hsent] using h.failures
  left := by simpa [Nat.add_assoc, Nat.add_comm 1] using h.left

theorem Retrying.tried {maxRetries : UInt32} {left : Nat} {failed : List Sent} {last : Sent}
    (h : Retrying step maxRetries left failed) (hlast : last.isFailure = true → left = 0) :
    Tried step failed last where
  failures := h.failures
  retries_le := by
    have := h.left
    rw [h.mode, ErrorMode.retries]
    omega
  parallel hpar := by simp [h.sequential] at hpar
  exhausted _ hfail := by
    have := h.left
    rw [h.mode, ErrorMode.retries]
    have := hlast hfail
    omega

theorem Retrying.continues {maxRetries : UInt32} {left : Nat} {failed : List Sent} {last : Sent}
    (h : Retrying step maxRetries left failed) (hlast : last.isReply = true) :
    StepEvent.Continues (.executed step (failed ++ [last])) := by
  refine ⟨failed, last, rfl, h.tried fun hfail => ?_, .inl hlast⟩
  cases last <;> simp_all [Sent.isReply, Sent.isFailure]

theorem Retrying.cuts {maxRetries : UInt32} {left : Nat} {failed : List Sent}
    (h : Retrying step maxRetries left failed) :
    StepEvent.Cuts (.executed step (failed ++ [.cutOff])) :=
  ⟨failed, rfl, h.tried nofun⟩

theorem Retrying.fails {maxRetries : UInt32} {failed : List Sent} {last : Sent}
    (h : Retrying step maxRetries 0 failed) (hlast : last.isFailure = true) :
    StepEvent.Fails (.executed step (failed ++ [last])) :=
  ⟨failed, last, rfl, h.tried fun _ => rfl, hlast, .inr (by simp [h.mode])⟩

/-- A failed attempt is followed by another one as long as some are left. -/
theorem going_retry {maxRetries : UInt32} {left : Nat} {failed : List Sent}
    (h : Retrying step maxRetries left failed) :
    Triple (Going runId) (retry W step agentId prompt maxRetries left failed)
      (Outcome runId) (Left runId) := by
  induction left generalizing failed with
  | zero =>
    rw [retry]
    apply triple_bind going_ask
    intro sent
    cases sent with
    | reply output inputTokens outputTokens =>
      apply triple_bind (going_note (h.continues rfl))
      exact fun _ => triple_pure fun _ hs => hs
    | error e =>
      apply triple_bind (ending_note (h.fails rfl))
      exact fun _ => triple_pure fun _ hs => hs
    | timedOut =>
      apply triple_bind (ending_note (h.fails rfl))
      exact fun _ => triple_pure fun _ hs => hs
    | cutOff =>
      apply triple_bind (ending_note h.cuts)
      exact fun _ => triple_throw fun _ hs => .inl hs
  | succ left ih =>
    rw [retry]
    apply triple_bind going_ask
    intro sent
    cases sent with
    | reply output inputTokens outputTokens =>
      apply triple_bind (going_note (h.continues rfl))
      exact fun _ => triple_pure fun _ hs => hs
    | error e => exact ih (h.again rfl)
    | timedOut => exact ih (h.again rfl)
    | cutOff =>
      apply triple_bind (ending_note h.cuts)
      exact fun _ => triple_throw fun _ hs => .inl hs

/-- What is known of one attempt when the last event may fail the run, and what
is known when it may not. -/
theorem going_attemptOnce (hretries : step.errorMode.retries = 0)
    {failure : RunStatus → Prop}
    (hfailure : ∀ last, last.isFailure = true →
      Triple (Going runId) (note (.executed step [last])) (fun _ => failure) (Left runId)) :
    Triple (Going runId) (attemptOnce W step agentId prompt)
      (fun result s => match result with
        | .ok _ => Going runId s
        | .error _ => failure s) (Left runId) := by
  have htried : ∀ last, Tried step [] last := Tried.once (.inr hretries)
  apply triple_bind going_ask
  intro sent
  cases sent with
  | reply output inputTokens outputTokens =>
    have hnext : StepEvent.Continues (.executed step [.reply output inputTokens outputTokens]) :=
      ⟨[], _, rfl, htried _, .inl rfl⟩
    apply triple_bind (going_note hnext)
    exact fun _ => triple_pure fun _ hs => hs
  | error e =>
    apply triple_bind (hfailure (.error e) rfl)
    exact fun _ => triple_pure fun _ hs => hs
  | timedOut =>
    apply triple_bind (hfailure .timedOut rfl)
    exact fun _ => triple_pure fun _ hs => hs
  | cutOff =>
    have hfinal : StepEvent.Cuts (.executed step [.cutOff]) := ⟨[], rfl, htried _⟩
    apply triple_bind (ending_note hfinal)
    exact fun _ => triple_throw fun _ hs => .inl hs

theorem going_executeStepWithErrorMode (hseq : step.isFanOut = false) :
    Triple (Going runId) (executeStepWithErrorMode W step agentId prompt)
      (Outcome runId) (Left runId) := by
  unfold executeStepWithErrorMode
  split
  · rename_i hmode
    have hretries : step.errorMode.retries = 0 := by rw [hmode]; rfl
    have hfails : ∀ last, last.isFailure = true → StepEvent.Fails (.executed step [last]) :=
      fun last hlast => ⟨[], last, rfl, Tried.once (.inr hretries) last, hlast, .inr (by simp [hmode])⟩
    apply triple_bind (going_attemptOnce hretries fun last hlast => ending_note (hfails last hlast))
    intro result
    cases result <;> exact triple_pure fun _ hs => hs
  · rename_i hmode
    have hretries : step.errorMode.retries = 0 := by rw [hmode]; rfl
    have hnext : ∀ last, last.isFailure = true → StepEvent.Continues (.executed step [last]) :=
      fun last hlast => ⟨[], last, rfl, Tried.once (.inr hretries) last, .inr ⟨hlast, hseq, hmode⟩⟩
    apply triple_bind (going_attemptOnce hretries fun last hlast => going_note (hnext last hlast))
    intro result
    cases result <;> exact triple_pure fun _ hs => hs
  · rename_i maxRetries hmode
    exact going_retry ⟨hseq, hmode, by simp, by simp⟩

end Attempts

section Modes

variable {step : WorkflowStep} {c : RunLocals}

theorem going_executeSequential (hseq : step.isFanOut = false) :
    Triple (Going runId) (executeSequential W runId step c) (fun _ => Going runId) (Left runId) := by
  apply triple_bind going_resolveAgent
  intro agent
  apply triple_bind (going_executeStepWithErrorMode hseq)
  intro result
  cases result with
  | ok reply =>
    apply triple_bind going_ask
    intro durationMs
    cases reply with
    | some reply => exact triple_bind going_pushResult fun _ => triple_pure fun _ hs => hs
    | none => exact triple_pure fun _ hs => hs
  | error e => exact triple_bind (triple_ask ending_tick) fun _ => ending_failRun

theorem going_executeLoop (hseq : step.isFanOut = false) {agent : AgentId × Str} {untilLower : Str}
    {left loopIter : Nat} :
    Triple (Going runId) (executeLoop W runId step agent untilLower left loopIter c)
      (fun _ => Going runId) (Left runId) := by
  induction left generalizing loopIter c with
  | zero => exact triple_pure fun _ hs => hs
  | succ left ih =>
    rw [executeLoop]
    apply triple_bind (going_executeStepWithErrorMode hseq)
    intro result
    cases result with
    | ok reply =>
      apply triple_bind going_ask
      intro durationMs
      cases reply with
      | some reply =>
        apply triple_bind going_pushResult
        intro _
        dsimp only
        split
        · exact triple_pure fun _ hs => hs
        · exact ih
      | none => exact triple_pure fun _ hs => hs
    | error e => exact triple_bind (triple_ask ending_tick) fun _ => ending_failRun

theorem going_fanOutResult {durationMs : UInt64} {result : FanOutCall × Sent}
    (hcall : result.1.step.isFanOut = true) (hresult : result.2 ≠ .cutOff) :
    Triple (Going runId) (fanOutResult W runId durationMs c result)
      (fun _ => Going runId) (Left runId) := by
  obtain ⟨call, sent⟩ := result
  have htried : Tried call.step [] sent := Tried.once (.inl hcall) sent
  cases sent with
  | reply output inputTokens outputTokens =>
    have hnext : StepEvent.Continues (.executed call.step [.reply output inputTokens outputTokens]) :=
      ⟨[], _, rfl, htried, .inl rfl⟩
    apply triple_bind (going_note hnext)
    intro _
    exact triple_bind going_pushResult fun _ => triple_pure fun _ hs => hs
  | error e =>
    have hfails : StepEvent.Fails (.executed call.step [.error e]) :=
      ⟨[], _, rfl, htried, rfl, .inl hcall⟩
    exact triple_bind (ending_note hfails) fun _ => ending_failRun
  | timedOut =>
    have hfails : StepEvent.Fails (.executed call.step [.timedOut]) :=
      ⟨[], _, rfl, htried, rfl, .inl hcall⟩
    exact triple_bind (ending_note hfails) fun _ => ending_failRun
  | cutOff => exact absurd rfl hresult

theorem going_joinAll {calls : List FanOutCall} (hcalls : ∀ call ∈ calls, call.step.isFanOut = true) :
    Triple (Going runId) (joinAll W calls)
      (fun results s => Going runId s ∧
        ∀ result ∈ results, result.1.step.isFanOut = true ∧ result.2 ≠ .cutOff)
      (Left runId) := by
  have hsend : ∀ call ∈ calls, Triple (Going runId)
      (do
        let sent ← draw fun n => W.sendMessage n call.agentId call.prompt
        pure (call, sent))
      (fun result s => Going runId s ∧ result.1.step.isFanOut = true) (Left runId) :=
    fun call hcall => triple_bind going_ask fun _ => triple_pure fun _ hs => ⟨hs, hcalls call hcall⟩
  apply triple_bind (triple_mapM hsend)
  intro results
  apply triple_of_fact
  intro hpar
  split
  · exact triple_bind (ending_note trivial) fun _ => triple_throw fun _ hs => .inl hs
  · rename_i hcut
    refine triple_pure fun s hs => ⟨hs, fun result hmem => ⟨hpar result hmem, fun hsent => ?_⟩⟩
    exact hcut (List.any_eq_true.mpr ⟨result, hmem, by simpa using hsent⟩)

theorem going_executeFanOut {group : List WorkflowStep} (hgroup : ∀ step ∈ group, step.isFanOut = true) :
    Triple (Going runId) (executeFanOut W runId group c) (fun _ => Going runId) (Left runId) := by
  have hcall : ∀ step ∈ group, Triple (Going runId) (fanOutCall W c step)
      (fun call s => Going runId s ∧ call.step.isFanOut = true) (Left runId) :=
    fun step hstep => triple_bind going_resolveAgent
      fun _ => triple_pure fun _ hs => ⟨hs, hgroup step hstep⟩
  apply triple_bind (triple_mapM hcall)
  intro calls
  apply triple_of_fact
  intro hcalls
  apply triple_bind (going_joinAll hcalls)
  intro results
  apply triple_of_fact
  intro hresults
  apply triple_bind going_ask
  intro durationMs
  exact triple_foldlM (fun c result hmem =>
    going_fanOutResult (hresults result hmem).1 (hresults result hmem).2) c

theorem going_executeStep {rest : List WorkflowStep} :
    Triple (Going runId) (executeStep W runId step rest c) (fun _ => Going runId) (Left runId) := by
  have hmode : ∀ {mode}, step.mode = mode → mode ≠ .fanOut → step.isFanOut = false := by
    intro mode h hne
    subst h
    unfold WorkflowStep.isFanOut
    split
    · contradiction
    all_goals rfl
  unfold executeStep
  split
  · rename_i h
    exact triple_bind (going_executeSequential (hmode h nofun)) fun _ => triple_pure fun _ hs => hs
  · rename_i h
    have hgroup : ∀ other ∈ step :: rest.takeWhile WorkflowStep.isFanOut, other.isFanOut = true := by
      intro other hmem
      rcases List.mem_cons.mp hmem with rfl | hrest
      · simp [WorkflowStep.isFanOut, h]
      · exact List.mem_takeWhile_imp hrest
    exact triple_bind (going_executeFanOut hgroup) fun _ => triple_pure fun _ hs => hs
  · exact triple_pure fun _ hs => hs
  · rename_i h
    split
    · exact triple_bind (going_executeSequential (hmode h nofun)) fun _ => triple_pure fun _ hs => hs
    · exact triple_pure fun _ hs => hs
  · rename_i h
    apply triple_bind going_resolveAgent
    intro agent
    exact triple_bind (going_executeLoop (hmode h nofun)) fun _ => triple_pure fun _ hs => hs

/-- What every step keeps, or how it ends the run, holds of all the steps. -/
theorem going_executeSteps {passed : Nat} {steps : List WorkflowStep} :
    Triple (Going runId) (executeSteps W runId passed steps c) (fun _ => Going runId) (Left runId) := by
  induction steps generalizing passed c with
  | nil => exact triple_pure fun _ hs => hs
  | cons step rest ih =>
    cases passed with
    | zero =>
      rw [executeSteps]
      exact triple_bind going_executeStep fun _ => ih
    | succ passed => exact ih

end Modes

end Steps

end WorkflowEngine

end Clawreform.Kernel
