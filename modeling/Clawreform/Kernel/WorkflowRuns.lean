import Clawreform.Kernel.WorkflowSteps

namespace Clawreform.Kernel

open Clawreform.Lib.Text Clawreform.Lib.Store Clawreform.Lib.Program Clawreform.Types

namespace WorkflowEngine

variable {W : WorkflowWorld} {engine : WorkflowEngine} {runId : WorkflowRunId}

section Outcome

/-- The status in which `execute_run` is called. -/
def status (engine : WorkflowEngine) : RunStatus := ⟨engine, 0, []⟩

/-- The run is stored, and so is its workflow. -/
def Registered (engine : WorkflowEngine) (runId : WorkflowRunId) : Prop :=
  engine.Stored runId fun r => (engine.workflows.lookup r.workflowId).isSome = true

def finalLog : EStateM.Result RunExit RunStatus Str → List StepEvent
  | .ok _ s | .error _ s => s.log

/-- How the function is left before the first step. -/
def Unstarted (engine : WorkflowEngine) (runId : WorkflowRunId) : RunExit → RunStatus → Prop
  | .failed _, s => (s.engine = engine ∨ s.engine.Running runId) ∧ s.log = [] ∧
      ¬ engine.Registered runId
  | .cutOff, s => (s.engine = engine ∨ s.engine.Running runId) ∧ s.log = [.cutOff]

/-- The run is completed with an output. -/
structure Finished (runId : WorkflowRunId) (output : Str) (s : RunStatus) : Prop where
  stored : s.engine.Stored runId fun r =>
    r.state = .completed ∧ r.output = some output ∧ r.completedAt.isSome = true
  continues : ∀ event ∈ s.log, event.Continues

theorem startRun_spec :
    Triple (fun s => s.engine = engine ∧ s.log = []) (startRun W runId)
      (fun _ s => Going runId s ∧ engine.Registered runId) (Unstarted engine runId) := by
  have hfirst : Triple (fun s => s.engine = engine ∧ s.log = []) (lock W)
      (fun _ s => s.engine = engine ∧ s.log = []) (Unstarted engine runId) :=
    triple_lock (fun _ _ hs => hs) fun s hs => ⟨.inl hs.1, by simp [hs.2]⟩
  apply triple_bind hfirst
  intro _
  have hruns : ∀ s : RunStatus, s.engine = engine ∧ s.log = [] →
      s.engine.runs.lookup runId = engine.runs.lookup runId := fun s hs => by rw [hs.1]
  apply triple_read_bind hruns
  cases hfound : engine.runs.lookup runId with
  | none =>
    refine triple_throw fun s hs => ⟨.inl hs.1, hs.2, ?_⟩
    rintro ⟨r, hr, -⟩
    simp [hfound] at hr
  | some run =>
    have hmark : Triple (fun s => s.engine = engine ∧ s.log = [])
        (changeRun runId fun r => { r with state := .running })
        (fun _ s => (s.engine.Running runId ∧ s.engine.workflows = engine.workflows) ∧ s.log = [])
        (Unstarted engine runId) := by
      apply triple_update
      rintro s ⟨rfl, hlog⟩
      exact ⟨⟨Stored.change (P := fun _ => True) ⟨run, hfound, trivial⟩ fun r _ => rfl, rfl⟩, hlog⟩
    apply triple_bind hmark
    intro _
    apply triple_bind (triple_lock (fun _ _ hs => hs) fun s hs => ⟨.inr hs.1.1, by simp [hs.2]⟩)
    intro _
    have hworkflows : ∀ s : RunStatus, (s.engine.Running runId ∧
        s.engine.workflows = engine.workflows) ∧ s.log = [] →
        s.engine.workflows.lookup run.workflowId = engine.workflows.lookup run.workflowId :=
      fun s hs => by rw [hs.1.2]
    apply triple_read_bind hworkflows
    cases hworkflow : engine.workflows.lookup run.workflowId with
    | none =>
      refine triple_throw fun s hs => ⟨.inr hs.1.1, hs.2, ?_⟩
      rintro ⟨r, hr, hsome⟩
      rw [hfound] at hr
      cases hr
      simp [hworkflow] at hsome
    | some workflow =>
      exact triple_pure fun s hs =>
        ⟨⟨hs.1.1, by simp [hs.2]⟩, run, hfound, by simp [hworkflow]⟩

theorem going_executeRun :
    Triple (fun s => s.engine = engine ∧ s.log = []) (executeRun W runId)
      (fun output s => Finished runId output s ∧ engine.Registered runId)
      (fun exit s => Unstarted engine runId exit s ∨ engine.Registered runId ∧ Left runId exit s) := by
  apply triple_bind (startRun_spec.weaken (fun _ hs => hs) (fun _ _ hs => hs) fun _ _ hs => .inl hs)
  intro started
  apply triple_of_fact
  intro hregistered
  have hrest : Triple (Going runId) (do
      let c ← executeSteps W runId 0 started.1.steps ⟨started.2, [], ∅⟩
      lock W
      let now ← draw W.now
      changeRun runId fun r =>
        { r with state := .completed, output := some c.currentInput, completedAt := some now }
      pure c.currentInput) (Finished runId) (Left runId) := by
    apply triple_bind going_executeSteps
    intro c
    apply triple_bind going_lock
    intro _
    apply triple_bind going_ask
    intro now
    have hwrite : Triple (Going runId)
        (changeRun runId fun r =>
          { r with state := .completed, output := some c.currentInput, completedAt := some now })
        (fun _ => Finished runId c.currentInput) (Left runId) :=
      triple_update fun s hs => ⟨hs.running.change fun r _ => ⟨rfl, rfl, rfl⟩, hs.continues⟩
    exact triple_bind hwrite fun _ => triple_pure fun _ hs => hs
  exact hrest.weaken (fun _ hs => hs) (fun _ _ hs => ⟨hs, hregistered⟩)
    fun _ _ hs => .inr ⟨hregistered, hs⟩

/-- A call that returns leaves the run completed with what it returned; one that
fails or is cut off leaves it failed. -/
def OutcomeStored (runId : WorkflowRunId) : EStateM.Result RunExit RunStatus Str → Prop
  | .ok output s => s.engine.Stored runId fun r =>
      r.state = .completed ∧ r.output = some output ∧ r.completedAt.isSome = true
  | .error _ s => s.engine.Stored runId fun r =>
      r.state = .failed ∧ r.error.isSome = true ∧ r.completedAt.isSome = true

instance {P : WorkflowRun → Prop} [DecidablePred P] : Decidable (engine.Stored runId P) :=
  decidable_of_iff (∃ r ∈ engine.runs.lookup runId, P r) Iff.rfl

instance : (result : EStateM.Result RunExit RunStatus Str) → Decidable (OutcomeStored runId result)
  | .ok output s => inferInstanceAs (Decidable (s.engine.Stored runId fun r =>
      r.state = .completed ∧ r.output = some output ∧ r.completedAt.isSome = true))
  | .error _ s => inferInstanceAs (Decidable (s.engine.Stored runId fun r =>
      r.state = .failed ∧ r.error.isSome = true ∧ r.completedAt.isSome = true))

instance : Decidable (engine.Running runId) :=
  inferInstanceAs (Decidable (engine.Stored runId fun r => r.state = .running))

instance : Decidable (engine.Registered runId) :=
  inferInstanceAs (Decidable (engine.Stored runId fun r =>
    (engine.workflows.lookup r.workflowId).isSome = true))

theorem Running.not_failed {s : WorkflowEngine} (h : s.Running runId) {P : WorkflowRun → Prop} :
    ¬ s.Stored runId fun r => r.state = .failed ∧ P r := by
  obtain ⟨r, hr, hstate⟩ := h
  rintro ⟨r', hr', hfailed, -⟩
  rw [hr] at hr'
  cases hr'
  cases hstate.symm.trans hfailed

theorem not_failed_of_unstarted
    (hpending : ∀ r, engine.runs.lookup runId = some r → r.state = .pending) {s : RunStatus}
    (hs : s.engine = engine ∨ s.engine.Running runId) {P : WorkflowRun → Prop} :
    ¬ s.engine.Stored runId fun r => r.state = .failed ∧ P r := by
  rcases hs with rfl | hrunning
  · rintro ⟨r, hr, hfailed, -⟩
    cases (hpending r hr).symm.trans hfailed
  · exact hrunning.not_failed

/-- The run is left as failed exactly when the failure was recorded. -/
theorem left_failed_iff {exit : RunExit} {s : RunStatus} (h : Left runId exit s) :
    (s.engine.Stored runId fun r =>
      r.state = .failed ∧ r.error.isSome = true ∧ r.completedAt.isSome = true) ↔
      ∀ event ∈ s.log, event.abandons = false := by
  cases exit with
  | failed e =>
    rcases h with hend | hrec
    · obtain ⟨before, event, hlog, -, step, rfl⟩ := hend.log
      refine iff_of_false hend.running.not_failed fun hall => ?_
      cases hall (.resolved step none) (by simp [hlog])
    · obtain ⟨before, event, hlog, hbefore, hfails⟩ := hrec.log
      obtain ⟨r, hr, hstate, herror, hcompleted⟩ := hrec.stored
      refine iff_of_true ⟨r, hr, hstate, by simp [herror], hcompleted⟩ fun x hx => ?_
      rw [hlog] at hx
      rcases List.mem_append.mp hx with hold | hnew
      · exact (hbefore x hold).not_abandons
      · rw [List.mem_singleton.mp hnew]
        exact hfails.not_abandons
  | cutOff =>
    rcases h with hend | hover
    · obtain ⟨before, event, hlog, -, hcuts⟩ := hend.log
      refine iff_of_false hend.running.not_failed fun hall => ?_
      have := hall event (by simp [hlog])
      rw [hcuts.abandons] at this
      cases this
    · obtain ⟨before, event, hlog, -, -⟩ := hover.log
      refine iff_of_false hover.running.not_failed fun hall => ?_
      cases hall .cutOff (by simp [hlog])

/-- A call records its outcome if and only if the run and its workflow are stored,
every agent is found and the time is enough. -/
theorem executeRun_outcome_stored (W : WorkflowWorld) (engine : WorkflowEngine) (runId : WorkflowRunId)
    (hpending : ∀ r, engine.runs.lookup runId = some r → r.state = .pending) :
    OutcomeStored runId (executeRun W runId (status engine)) ↔
      engine.Registered runId ∧
      ∀ event ∈ finalLog (executeRun W runId (status engine)), event.abandons = false := by
  cases hrun : executeRun W runId (status engine) with
  | ok output s =>
    obtain ⟨hfinished, hregistered⟩ := going_executeRun.of_ok ⟨rfl, rfl⟩ hrun
    exact iff_of_true hfinished.stored
      ⟨hregistered, fun event hmem => (hfinished.continues event hmem).not_abandons⟩
  | error exit s =>
    rcases going_executeRun.of_error ⟨rfl, rfl⟩ hrun with hunstarted | ⟨hregistered, hleft⟩
    · cases exit with
      | failed e =>
        obtain ⟨hengine, -, hmissing⟩ := hunstarted
        exact iff_of_false (not_failed_of_unstarted hpending hengine) fun h => hmissing h.1
      | cutOff =>
        obtain ⟨hengine, hlog⟩ := hunstarted
        refine iff_of_false (not_failed_of_unstarted hpending hengine) fun h => ?_
        cases h.2 .cutOff (by simp [finalLog, hlog])
    · exact (left_failed_iff hleft).trans (and_iff_right hregistered).symm

/-- Agents that all answer alike, and a clock that stands still. -/
def fixedWorld (agent : Option (AgentId × Str)) (sent : Sent) : WorkflowWorld where
  resolve _ _ := agent
  sendMessage _ _ _ := sent
  granted _ := true
  now _ := 0
  elapsedMs _ := 0
  toLowercase := id
  iterate m := m.entries.map fun e => (e.1, e.2)
  iterate_perm _ := .refl _

def singleStep (mode : StepMode) (errorMode : ErrorMode) : WorkflowStep :=
  ⟨"draft".toList, .byName "writer".toList, "\x7b\x7binput\x7d\x7d".toList, mode, 120, errorMode, none⟩

/-- A workflow of one step and a run of it, as it is created. -/
def singleStepEngine (mode : StepMode) (errorMode : ErrorMode) : WorkflowEngine where
  workflows := AList.singleton 1 ⟨1, "post".toList, [singleStep mode errorMode]⟩
  runs := AList.singleton 2 ⟨2, 1, "post".toList, "news".toList, .pending, [], none, none, 0, none⟩

theorem executeRun_outcome_stored_timedOut :
    OutcomeStored 2 (executeRun (fixedWorld (some (3, "writer".toList)) .timedOut) 2
      (status (singleStepEngine .sequential .fail))) :=
  (executeRun_outcome_stored (fixedWorld (some (3, "writer".toList)) .timedOut)
    (singleStepEngine .sequential .fail) 2 (by decide)).mpr ⟨by decide, by decide⟩

/-- The writer is not found, and the run is left running. -/
theorem executeRun_leaves_running :
    (∃ e s, executeRun (fixedWorld none .timedOut) 2 (status (singleStepEngine .sequential .fail)) =
      .error (.failed e) s ∧ s.engine.Running 2) ∧
    ¬ OutcomeStored 2 (executeRun (fixedWorld none .timedOut) 2
      (status (singleStepEngine .sequential .fail))) :=
  ⟨⟨_, _, rfl, by decide⟩, by decide⟩

section Create

theorem mem_evicted {runs : Map WorkflowRunId WorkflowRun} {id : WorkflowRunId}
    (h : id ∈ evicted runs) : ∃ r, runs.lookup id = some r ∧ isOver r = true := by
  obtain ⟨⟨id, startedAt⟩, hmem, rfl⟩ := List.mem_map.mp h
  have hmem' := List.mem_mergeSort.mp (List.mem_of_mem_take hmem)
  obtain ⟨⟨id', r⟩, hentry, heq⟩ := List.mem_filterMap.mp hmem'
  split at heq
  · rename_i hover
    cases heq
    exact ⟨r, mem_entries.mp hentry, hover⟩
  · cases heq

/-- A run that has just been created is pending, and not dropped itself. -/
theorem createRun_stored {s s' : WorkflowEngine} {workflowId : WorkflowId} {input : Str}
    {now : DateTime} (h : s.createRun workflowId input runId now = some s') :
    s'.Registered runId ∧ ∀ r, s'.runs.lookup runId = some r → r.state = .pending := by
  obtain ⟨workflow, hworkflow, rfl⟩ := Option.map_eq_some_iff.mp h
  dsimp only
  generalize hrun : WorkflowRun.mk runId workflowId workflow.name input .pending [] none none now none = run
  have hstored : (s.runs.insert runId run).lookup runId = some run := AList.lookup_insert _
  have hkept : (if maxRetainedRuns < (s.runs.insert runId run).entries.length then
      (evicted (s.runs.insert runId run)).foldl (fun m id => m.erase id) (s.runs.insert runId run)
      else s.runs.insert runId run).lookup runId = some run := by
    split
    · rw [lookup_eraseAll, if_neg, hstored]
      intro hmem
      obtain ⟨r, hr, hover⟩ := mem_evicted hmem
      rw [hstored] at hr
      cases hr
      simp [← hrun, isOver] at hover
    · exact hstored
  subst hrun
  refine ⟨⟨_, hkept, by simp [hworkflow]⟩, fun r hr => ?_⟩
  rw [hkept] at hr
  cases hr
  rfl

/-- What the kernel returns for a workflow is the output of the run it stores. -/
theorem runWorkflow_completed {s s' : WorkflowEngine} {workflowId : WorkflowId} {input output : Str}
    {now : DateTime} {id : WorkflowRunId}
    (h : runWorkflow W s workflowId input runId now = (.ok (id, output), s')) :
    s'.Stored id fun r => r.state = .completed ∧ r.output = some output ∧ r.completedAt.isSome = true := by
  unfold runWorkflow at h
  split at h
  · cases h
  · rename_i created _
    split at h
    · rename_i hrun
      cases h
      exact (going_executeRun.of_ok (s := status created) ⟨rfl, rfl⟩ hrun).1.stored
    · cases h
    · cases h

end Create

end Outcome

section ErrorModes

/-- Attempted until the first success, and at most once more than the retries. -/
def UntilSuccess (maxRetries : Nat) (attempts : List Sent) : Prop :=
  ∃ failed last, attempts = failed ++ [last] ∧ (∀ sent ∈ failed, sent.isFailure = true) ∧
    failed.length ≤ maxRetries ∧ (last.isFailure = true → failed.length = maxRetries)

/-- The error modes of the steps hold in what a call has done. When the call fails,
the last event is the one that made it fail. -/
structure ErrorModesHold (result : EStateM.Result RunExit RunStatus Str) : Prop where
  skip : ∀ step attempts e s, result = .error (.failed e) s →
    s.log.getLast? = some (.executed step attempts) → step.errorMode ≠ .skip
  retry : ∀ step attempts maxRetries, .executed step attempts ∈ finalLog result →
    step.errorMode = .retry maxRetries → UntilSuccess maxRetries.toNat attempts

/-- A member of a fan-out group that fails, and so the first of its group to fail,
has an error mode that changes nothing. -/
def Plain (log : List StepEvent) (step : WorkflowStep) : Prop :=
  match step.errorMode with
  | .fail => True
  | .skip => log.getLast? = some .cutOff
  | .retry maxRetries => maxRetries = 0

/-- What a call leaves behind: its executions, and where a failed fan-out member
can stand. -/
structure Closed (log : List StepEvent) : Prop where
  traced : ∀ event ∈ log, event.Traced
  parallel : ∀ event ∈ log, event.FailsInGroup →
    log.getLast? = some .cutOff ∨ log.getLast? = some event

theorem closed_of_continues {log : List StepEvent} (h : ∀ event ∈ log, event.Continues) :
    Closed log where
  traced event hmem := (h event hmem).traced
  parallel event hmem hfails := absurd hfails (h event hmem).not_failsInGroup

theorem closed_append {before : List StepEvent} {event : StepEvent}
    (h : ∀ e ∈ before, e.Continues) (hevent : event.Traced) : Closed (before ++ [event]) where
  traced e hmem := by
    rcases List.mem_append.mp hmem with hold | hnew
    · exact (h e hold).traced
    · rwa [List.mem_singleton.mp hnew]
  parallel e hmem hfails := by
    rcases List.mem_append.mp hmem with hold | hnew
    · exact absurd hfails (h e hold).not_failsInGroup
    · simp [List.mem_singleton.mp hnew]

theorem Closed.cut {log : List StepEvent} (h : Closed log) : Closed (log ++ [.cutOff]) where
  traced e hmem := by
    rcases List.mem_append.mp hmem with hold | hnew
    · exact h.traced e hold
    · rw [List.mem_singleton.mp hnew]
      exact nofun
  parallel e hmem hfails := by simp

theorem closed_of_left {exit : RunExit} {s : RunStatus} (h : Left runId exit s) : Closed s.log := by
  cases exit with
  | failed e =>
    rcases h with hend | hrec
    · obtain ⟨before, event, hlog, hbefore, step, rfl⟩ := hend.log
      rw [hlog]
      exact closed_append hbefore nofun
    · obtain ⟨before, event, hlog, hbefore, hfails⟩ := hrec.log
      rw [hlog]
      exact closed_append hbefore hfails.traced
  | cutOff =>
    rcases h with hend | hover
    · obtain ⟨before, event, hlog, hbefore, hcuts⟩ := hend.log
      rw [hlog]
      exact closed_append hbefore hcuts.traced
    · obtain ⟨before, event, hlog, hbefore, hfails⟩ := hover.log
      rw [hlog, List.append_cons]
      exact (closed_append hbefore hfails.traced).cut

theorem executeRun_closed (W : WorkflowWorld) (engine : WorkflowEngine) (runId : WorkflowRunId) :
    Closed (finalLog (executeRun W runId (status engine))) := by
  cases hrun : executeRun W runId (status engine) with
  | ok output s => exact closed_of_continues (going_executeRun.of_ok ⟨rfl, rfl⟩ hrun).1.continues
  | error exit s =>
    rcases going_executeRun.of_error ⟨rfl, rfl⟩ hrun with hunstarted | ⟨-, hleft⟩
    · have hnil : Closed [] := closed_of_continues (by simp)
      cases exit with
      | failed e => rwa [finalLog, hunstarted.2.1]
      | cutOff =>
        rw [finalLog, hunstarted.2]
        exact hnil.cut
    · exact closed_of_left hleft

/-- An execution at the end of a failed call is the one that made it fail. -/
theorem executeRun_failed {e : Str} {s : RunStatus} {step : WorkflowStep} {attempts : List Sent}
    (hrun : executeRun W runId (status engine) = .error (.failed e) s)
    (hlast : s.log.getLast? = some (.executed step attempts)) :
    StepEvent.Fails (.executed step attempts) := by
  rcases going_executeRun.of_error ⟨rfl, rfl⟩ hrun with hunstarted | ⟨-, hend | hrec⟩
  · simp [hunstarted.2.1] at hlast
  · obtain ⟨before, event, hlog, -, other, rfl⟩ := hend.log
    simp [hlog] at hlast
  · obtain ⟨before, event, hlog, -, hfails⟩ := hrec.log
    have heq : event = .executed step attempts := by simpa [hlog] using hlast
    rwa [← heq]

/-- A call whose last event is a failed fan-out member fails. -/
theorem executeRun_of_failsInGroup {event : StepEvent}
    (hlast : (finalLog (executeRun W runId (status engine))).getLast? = some event)
    (hevent : event.FailsInGroup) :
    ∃ e s, executeRun W runId (status engine) = .error (.failed e) s := by
  have hcut : ¬ StepEvent.FailsInGroup .cutOff := by simp [StepEvent.FailsInGroup]
  cases hrun : executeRun W runId (status engine) with
  | ok output s =>
    rw [hrun] at hlast
    have hcontinues := (going_executeRun.of_ok ⟨rfl, rfl⟩ hrun).1.continues
    exact absurd hevent (hcontinues event (List.mem_of_getLast? hlast)).not_failsInGroup
  | error exit s =>
    cases exit with
    | failed e => exact ⟨e, s, rfl⟩
    | cutOff =>
      rw [hrun, finalLog] at hlast
      rcases going_executeRun.of_error ⟨rfl, rfl⟩ hrun with hunstarted | ⟨-, hend | hover⟩
      · obtain rfl : .cutOff = event := by simpa [hunstarted.2] using hlast
        exact absurd hevent hcut
      · obtain ⟨before, event', hlog, -, hcuts⟩ := hend.log
        obtain rfl : event' = event := by simpa [hlog] using hlast
        exact absurd hevent hcuts.not_failsInGroup
      · obtain ⟨before, event', hlog, -, -⟩ := hover.log
        obtain rfl : .cutOff = event := by simpa [hlog] using hlast
        exact absurd hevent hcut

/-- The one attempt of a fan-out member. -/
theorem Closed.single {log : List StepEvent} (h : Closed log) {step : WorkflowStep}
    {attempts : List Sent} (hmem : .executed step attempts ∈ log) (hpar : step.isFanOut = true) :
    ∃ last, attempts = [last] := by
  obtain ⟨failed, last, rfl, htried⟩ := h.traced _ hmem step attempts rfl
  exact ⟨last, by rw [htried.parallel hpar, List.nil_append]⟩

theorem untilSuccess_single {maxRetries : Nat} {last : Sent} :
    UntilSuccess maxRetries [last] ↔ (last.isFailure = true → maxRetries = 0) := by
  constructor
  · rintro ⟨failed, last', heq, -, -, hlast⟩ hfailure
    obtain ⟨rfl, rfl⟩ : failed = [] ∧ last' = last := by
      cases failed <;> simp_all
    exact (hlast hfailure).symm
  · intro h
    exact ⟨[], last, rfl, by simp, Nat.zero_le _, fun hfailure => (h hfailure).symm⟩

/-- The error modes hold if and only if no member of a fan-out group fails whose
error mode would have it skipped or retried. -/
theorem executeRun_error_modes (W : WorkflowWorld) (engine : WorkflowEngine) (runId : WorkflowRunId) :
    ErrorModesHold (executeRun W runId (status engine)) ↔
      ∀ step attempts, .executed step attempts ∈ finalLog (executeRun W runId (status engine)) →
        step.isFanOut = true → (∃ sent ∈ attempts, sent.isFailure = true) →
        Plain (finalLog (executeRun W runId (status engine))) step := by
  have hclosed := executeRun_closed W engine runId
  constructor
  · intro h step attempts hmem hpar hfailure
    have hevent : StepEvent.FailsInGroup (.executed step attempts) :=
      ⟨step, attempts, rfl, hpar, hfailure⟩
    unfold Plain
    split
    · trivial
    · rename_i hskip
      apply (hclosed.parallel _ hmem hevent).resolve_right
      intro hlast
      obtain ⟨e, s, hrun⟩ := executeRun_of_failsInGroup hlast hevent
      rw [hrun] at hlast
      exact h.skip step attempts e s hrun hlast hskip
    · rename_i maxRetries hretry
      obtain ⟨last, rfl⟩ := hclosed.single hmem hpar
      have huntil := untilSuccess_single.mp (h.retry step [last] maxRetries hmem hretry)
      exact UInt32.toNat_inj.mp (huntil (by simpa using hfailure))
  · intro h
    refine ⟨fun step attempts e s hrun hlast hskip => ?_, fun step attempts n hmem hretry => ?_⟩
    · -- A skipped step fails the run in a fan-out group only.
      obtain ⟨failed, last, rfl, -, hfailure, hpar | hne⟩ := executeRun_failed hrun hlast
      · rw [hrun] at h
        have hplain := h step _ (List.mem_of_getLast? hlast) hpar ⟨last, by simp, hfailure⟩
        rw [Plain, hskip, finalLog, hlast] at hplain
        cases hplain
      · exact hne hskip
    · obtain ⟨failed, last, rfl, htried⟩ := hclosed.traced _ hmem step attempts rfl
      have hmode : step.errorMode.retries = n.toNat := by rw [hretry]; rfl
      refine ⟨failed, last, rfl, htried.failures, hmode ▸ htried.retries_le, fun hfailure => ?_⟩
      cases hpar : step.isFanOut with
      | true =>
        have hplain := h step _ hmem hpar ⟨last, by simp, hfailure⟩
        rw [Plain, hretry] at hplain
        simp [htried.parallel hpar, hplain]
      | false => rw [htried.exhausted hpar hfailure, hmode]

/-- A step that is to be skipped on an error makes the run fail. -/
theorem executeRun_skips_not :
    ¬ ErrorModesHold (executeRun (fixedWorld (some (3, "writer".toList)) .timedOut) 2
      (status (singleStepEngine .fanOut .skip))) :=
  fun h => h.skip (singleStep .fanOut .skip) [.timedOut] _ _ rfl rfl rfl

end ErrorModes

end WorkflowEngine

end Clawreform.Kernel
