import Clawreform.Lib.Trace
import Clawreform.Runtime.AgentLoopFrame
import Clawreform.Runtime.AgentLoopStreaming

namespace Clawreform.Runtime

open Clawreform.Lib Clawreform.Lib.Text Clawreform.Lib.Program Clawreform.Lib.Trace
open Clawreform.Lib.Run
open Clawreform.Lib.Json (Value)
open Clawreform.Types

variable {κ : Type} [DecidableEq κ] (a : Args κ)

section Log

def callsOf (response : CompletionResponse) : List ToolCall :=
  if response.stopReason = .toolUse then response.toolCalls else []

/-- The tool calls the responses ask for. -/
def askedCalls (log : List Event) : List ToolCall :=
  log.flatMap fun
    | .response response => callsOf response
    | _ => []

def checkedCalls (log : List Event) : List ToolCall :=
  log.filterMap fun
    | .checked call _ => some call
    | _ => none

def answeredIds (log : List Event) : List Str :=
  log.filterMap fun
    | .answered result => some result.toolUseId
    | _ => none

def checkOf (call : ToolCall) : LoopGuard.Call := .check call.name call.input

def answerOf (call : ToolCall) (verdict : LoopGuardVerdict) : LoopGuard.Answer :=
  ⟨call.name, call.input, verdict⟩

/-- The guard that has checked these calls and seen no result. -/
def guardOf (H : Hashing κ) (config : LoopGuardConfig) (calls : List ToolCall) : LoopGuard κ :=
  (run (LoopGuard.step H) (LoopGuard.new config) (calls.map checkOf)).1

def guardAfter (log : List Event) : LoopGuard κ :=
  guardOf a.world.hashing (loopGuardConfig a) (checkedCalls log)

theorem guardOf_concat {H : Hashing κ} {config : LoopGuardConfig} (calls : List ToolCall)
    (call : ToolCall) : guardOf H config (calls ++ [call]) =
      ((guardOf H config calls).check H call.name call.input).1 := by
  rw [guardOf, List.map_append, run_append]
  rfl

theorem guardOf_bounded (H : Hashing κ) (config : LoopGuardConfig) (calls : List ToolCall)
    (hfew : calls.length < 2 ^ 32) :
    ∃ answers, answers.length = calls.length ∧
      LoopGuard.Bounded H config (guardOf H config calls) answers := by
  have hlength : (run (LoopGuard.step H) (LoopGuard.new config) (calls.map checkOf)).2.length =
      calls.length := by
    rw [LoopGuard.length_answers, List.countP_map]
    exact List.countP_eq_length.mpr fun _ _ => rfl
  exact ⟨_, hlength, LoopGuard.run_bounded H config _ (by rw [hlength]; exact hfew)⟩

omit [DecidableEq κ] in
theorem askedCalls_append (xs ys : List Event) :
    askedCalls (xs ++ ys) = askedCalls xs ++ askedCalls ys := List.flatMap_append

omit [DecidableEq κ] in
theorem checkedCalls_append (xs ys : List Event) :
    checkedCalls (xs ++ ys) = checkedCalls xs ++ checkedCalls ys := List.filterMap_append

omit [DecidableEq κ] in
theorem answeredIds_append (xs ys : List Event) :
    answeredIds (xs ++ ys) = answeredIds xs ++ answeredIds ys := List.filterMap_append

omit [DecidableEq κ] in
theorem executedCalls_append (xs ys : List Event) :
    executedCalls (xs ++ ys) = executedCalls xs ++ executedCalls ys := List.filterMap_append

/-- What has happened when an event comes. Before a request, all calls asked for
were checked and answered. The calls are checked in the order in which they were
asked for, each when those before it have their answer, by the guard that has
made the checks so far. A call is executed once, behind a check that lets it
pass; what answers a call the guard refuses is an error. -/
def Disciplined (past : List Event) : Event → Prop
  | .request _ => checkedCalls past = askedCalls past ∧
      answeredIds past = (askedCalls past).map ToolCall.id
  | .checked call verdict => checkedCalls past ++ [call] <+: askedCalls past ∧
      answeredIds past = (checkedCalls past).map ToolCall.id ∧
      verdict = ((guardAfter a past).check a.world.hashing call.name call.input).2
  | .executed call _ => ∃ before verdict between, past = before ++ .checked call verdict :: between ∧
      (answerOf call verdict).passes = true ∧
      checkedCalls between = [] ∧ answeredIds between = [] ∧ executedCalls between = []
  | .answered result => ∃ before call verdict between,
      past = before ++ .checked call verdict :: between ∧
      checkedCalls between = [] ∧ answeredIds between = [] ∧ result.toolUseId = call.id ∧
      ((answerOf call verdict).passes = false → result.isError = true)
  | _ => True

end Log

section Tracked

/-- A state behind a log in which these calls were asked for and checked, and
these ids answered. -/
structure Tracked (asked checked : List ToolCall) (answered : List Str) (s : Loop κ) : Prop where
  disciplined : Always (Disciplined a) s.log
  guard : s.guard = guardAfter a s.log
  asked_eq : askedCalls s.log = asked
  checked_eq : checkedCalls s.log = checked
  answered_eq : answeredIds s.log = answered

/-- A call has its verdict and no answer yet; `ran` is what was executed for it. -/
structure Open (asked done : List ToolCall) (call : ToolCall) (verdict : LoopGuardVerdict)
    (ran : List (ToolCall × ToolResult)) (s : Loop κ) : Prop where
  tracked : Tracked a asked (done ++ [call]) (done.map ToolCall.id) s
  since : ∃ before between, s.log = before ++ .checked call verdict :: between ∧
    checkedCalls between = [] ∧ answeredIds between = [] ∧ executedCalls between = ran

/-- Between two batches every call asked for has its check and its answer. -/
def Idle (s : Loop κ) : Prop := ∃ calls, Tracked a calls calls (calls.map ToolCall.id) s

def Event.isTracked : Event → Bool
  | .request _ => true
  | .response _ => true
  | .checked _ _ => true
  | .executed _ _ => true
  | .answered _ => true
  | _ => false

abbrev Undisturbed (s₀ : Loop κ) : Loop κ → Prop :=
  Keeps Core.guard (fun e => e.isTracked = true) s₀

omit [DecidableEq κ] in
theorem quiet_calls {events : List Event} (h : ∀ e ∈ events, ¬ e.isTracked = true) :
    askedCalls events = [] ∧ checkedCalls events = [] ∧ answeredIds events = [] ∧
      executedCalls events = [] := by
  refine ⟨List.flatMap_eq_nil_iff.mpr fun e he => ?_, List.filterMap_eq_nil_iff.mpr fun e he => ?_,
    List.filterMap_eq_nil_iff.mpr fun e he => ?_, List.filterMap_eq_nil_iff.mpr fun e he => ?_⟩
  all_goals
    have := h e he
    cases e <;> first | rfl | exact absurd rfl this

theorem disciplined_quiet {past : List Event} {e : Event} (h : ¬ e.isTracked = true) :
    Disciplined a past e := by
  cases e <;> trivial

omit [DecidableEq κ] in
theorem untracked_ending (e : Event) (h : e.inEnding = true) : ¬ e.isTracked = true := by
  cases e <;> first | exact Bool.false_ne_true | cases h

variable {asked checked done : List ToolCall} {answered : List Str} {call : ToolCall}
  {verdict : LoopGuardVerdict} {ran : List (ToolCall × ToolResult)} {s₀ s t : Loop κ}
  {events : List Event}

theorem Tracked.append (h : Tracked a asked checked answered s) (hlog : t.log = s.log ++ events)
    (hdisciplined : Always (Disciplined a) t.log) (hguard : t.guard = guardAfter a t.log) :
    Tracked a (asked ++ askedCalls events) (checked ++ checkedCalls events)
      (answered ++ answeredIds events) t := by
  refine ⟨hdisciplined, hguard, ?_, ?_, ?_⟩
  · rw [hlog, askedCalls_append, h.asked_eq]
  · rw [hlog, checkedCalls_append, h.checked_eq]
  · rw [hlog, answeredIds_append, h.answered_eq]

theorem guardAfter_unchecked {log : List Event} (h : checkedCalls events = []) :
    guardAfter a (log ++ events) = guardAfter a log := by
  rw [guardAfter, checkedCalls_append, h, List.append_nil, guardAfter]

/-- An event other than a check. -/
theorem Tracked.record {e : Event} (h : Tracked a asked checked answered s)
    (hlog : t.log = s.log ++ [e]) (hguard : t.guard = s.guard) (he : Disciplined a s.log e)
    (hcheck : checkedCalls [e] = []) :
    Tracked a (asked ++ askedCalls [e]) checked (answered ++ answeredIds [e]) t := by
  have happend := h.append a hlog (by rw [hlog]; exact always_concat.mpr ⟨h.disciplined, he⟩)
    (by rw [hguard, hlog, guardAfter_unchecked a hcheck, h.guard])
  rwa [hcheck, List.append_nil] at happend

theorem Tracked.of_keeps (h : Tracked a asked checked answered s) (hk : Undisturbed s t) :
    Tracked a asked checked answered t := by
  obtain ⟨hguard, events, hlog, hquiet⟩ := hk
  obtain ⟨hasked, hchecked, hanswered, -⟩ := quiet_calls hquiet
  have hguard : t.guard = s.guard := hguard
  have happend := h.append a hlog
    (by rw [hlog]; exact h.disciplined.append fun e he _ => disciplined_quiet a (hquiet e he))
    (by rw [hguard, hlog, guardAfter_unchecked a hchecked, h.guard])
  rwa [hasked, hchecked, hanswered, List.append_nil, List.append_nil, List.append_nil] at happend

theorem Open.of_keeps (h : Open a asked done call verdict ran s) (hk : Undisturbed s t) :
    Open a asked done call verdict ran t := by
  obtain ⟨before, between, hlog, hchecked, hanswered, hran⟩ := h.since
  refine ⟨h.tracked.of_keeps a hk, ?_⟩
  obtain ⟨-, events, hlog', hquiet⟩ := hk
  obtain ⟨-, hchecked', hanswered', hran'⟩ := quiet_calls hquiet
  refine ⟨before, between ++ events, ?_, ?_, ?_, ?_⟩
  · rw [hlog', hlog, List.append_assoc, List.cons_append]
  · rw [checkedCalls_append, hchecked, hchecked', List.append_nil]
  · rw [answeredIds_append, hanswered, hanswered', List.append_nil]
  · rw [executedCalls_append, hran, hran', List.append_nil]

theorem Idle.of_keeps (h : Idle a s) (hk : Undisturbed s t) : Idle a t := by
  obtain ⟨calls, h⟩ := h
  exact ⟨calls, h.of_keeps a hk⟩

theorem tracked_triple {α : Type} {x : Prog κ α} (hx : ∀ s₀, Preserves (Undisturbed s₀) x) :
    Triple (Tracked a asked checked answered) x (fun _ => Tracked a asked checked answered)
      (fun _ s => Always (Disciplined a) s.log) :=
  (preserves_of_keeps hx fun _ _ hs hk => Tracked.of_keeps a hs hk).weaken (fun _ hs => hs)
    (fun _ _ hs => hs) (fun _ _ hs => hs.disciplined)

theorem idle_triple {α : Type} {x : Prog κ α} (hx : ∀ s₀, Preserves (Undisturbed s₀) x) :
    Triple (Idle a) x (fun _ => Idle a) (fun _ s => Always (Disciplined a) s.log) :=
  (preserves_of_keeps hx fun _ _ hs hk => Idle.of_keeps a hs hk).weaken (fun _ hs => hs)
    (fun _ _ hs => hs) (fun _ _ ⟨_, hs⟩ => hs.disciplined)

theorem open_triple {α : Type} {x : Prog κ α} (hx : ∀ s₀, Preserves (Undisturbed s₀) x) :
    Triple (Open a asked done call verdict ran) x (fun _ => Open a asked done call verdict ran)
      (fun _ s => Always (Disciplined a) s.log) :=
  (preserves_of_keeps hx fun _ _ hs hk => Open.of_keeps a hs hk).weaken (fun _ hs => hs)
    (fun _ _ hs => hs) (fun _ _ hs => hs.tracked.disciplined)

end Tracked

section Batch

variable {asked done : List ToolCall} {call : ToolCall} {verdict : LoopGuardVerdict}
  {ran : List (ToolCall × ToolResult)}

theorem guardAfter_checked (log : List Event) :
    guardAfter a (log ++ [.checked call verdict]) =
      ((guardAfter a log).check a.world.hashing call.name call.input).1 := by
  rw [guardAfter, checkedCalls_append]
  exact guardOf_concat (checkedCalls log) call

theorem checkCall_opens (hnext : done ++ [call] <+: asked) :
    Triple (Tracked a asked done (done.map ToolCall.id)) (checkCall a call)
      (fun verdict => Open a asked done call verdict [])
      (fun _ s => Always (Disciplined a) s.log) := by
  refine triple_bind (M := fun guard s => Tracked a asked done (done.map ToolCall.id) s ∧
    s.guard = guard) (triple_read fun s hs => ⟨hs, rfl⟩) fun guard => ?_
  refine triple_bind (M := fun _ => Open a asked done call
    (guard.check a.world.hashing call.name call.input).2 []) ?_
    fun _ => triple_pure fun _ hs => hs
  refine triple_update ?_
  rintro s ⟨hs, rfl⟩
  have hguard := hs.guard
  refine ⟨?_, s.log, [], rfl, rfl, rfl, rfl⟩
  have happend := hs.append a (t := { s with
    guard := (s.guard.check a.world.hashing call.name call.input).1
    log := s.log ++ [.checked call (s.guard.check a.world.hashing call.name call.input).2] })
    rfl (always_concat.mpr ⟨hs.disciplined, ?_, ?_, ?_⟩) ?_
  · rw [show askedCalls [Event.checked call _] = [] from rfl, List.append_nil,
      show answeredIds [Event.checked call _] = [] from rfl, List.append_nil] at happend
    exact happend
  · rw [hs.checked_eq, hs.asked_eq]
    exact hnext
  · rw [hs.checked_eq, hs.answered_eq]
  · rw [hguard]
  · rw [guardAfter_checked, ← hguard]

theorem executeTool_opens (hpasses : (answerOf call verdict).passes = true) :
    Triple (Open a asked done call verdict []) (executeTool a call)
      (fun result s => Open a asked done call verdict [(call, result)] s ∧
        result.toolUseId = call.id)
      (fun _ s => Always (Disciplined a) s.log) := by
  refine triple_bind (M := fun _ => Open a asked done call verdict [])
    (triple_read fun s hs => hs) fun n => ?_
  have hid : (resultOf call (a.world.executeTool n)).toolUseId = call.id := by
    cases a.world.executeTool n <;> rfl
  generalize resultOf call (a.world.executeTool n) = result at hid ⊢
  refine triple_bind (M := fun _ => Open a asked done call verdict [(call, result)])
    (triple_update fun s hs => ?_) fun _ => triple_pure fun s hs => ⟨hs, hid⟩
  obtain ⟨before, between, hlog, hchecked, hanswered, hran⟩ := hs.since
  have hrecord := hs.tracked.record a (t := { s with
    executions := s.executions + 1, log := s.log ++ [.executed call result] }) rfl rfl
    ⟨before, verdict, between, hlog, hpasses, hchecked, hanswered, hran⟩ rfl
  refine ⟨?_, before, between ++ [.executed call result], ?_, ?_, ?_, ?_⟩
  · rwa [show askedCalls [Event.executed call result] = [] from rfl, List.append_nil,
      show answeredIds [Event.executed call result] = [] from rfl, List.append_nil] at hrecord
  · show s.log ++ _ = _
    rw [hlog, List.append_assoc, List.cons_append]
  · rw [checkedCalls_append, hchecked]
    rfl
  · rw [answeredIds_append, hanswered]
    rfl
  · rw [executedCalls_append, hran]
    rfl

theorem pushResult_closes {result : ToolResult} (hid : result.toolUseId = call.id)
    (herror : (answerOf call verdict).passes = false → result.isError = true) :
    Triple (Open a asked done call verdict ran) (pushResult result)
      (fun _ => Tracked a asked (done ++ [call]) ((done ++ [call]).map ToolCall.id))
      (fun _ s => Always (Disciplined a) s.log) := by
  refine triple_update fun s hs => ?_
  obtain ⟨before, between, hlog, hchecked, hanswered, -⟩ := hs.since
  have hrecord := hs.tracked.record a (t := { s with
    toolResultBlocks := s.toolResultBlocks ++
      [.toolResult result.toolUseId result.content result.isError]
    log := s.log ++ [.answered result] }) rfl rfl
    ⟨before, call, verdict, between, hlog, hchecked, hanswered, hid, herror⟩ rfl
  have hids : answeredIds [.answered result] = [call].map ToolCall.id := congrArg (fun i => [i]) hid
  rwa [show askedCalls [Event.answered result] = [] from rfl, List.append_nil, hids,
    ← List.map_append] at hrecord

theorem performCall_closes (hpasses : (answerOf call verdict).passes = true) :
    Triple (Open a asked done call verdict []) (performCall a call verdict)
      (fun _ => Tracked a asked (done ++ [call]) ((done ++ [call]).map ToolCall.id))
      (fun _ s => Always (Disciplined a) s.log) := by
  have hnever : (answerOf call verdict).passes = false → ∀ p : Prop, p := by
    intro h
    rw [hpasses] at h
    cases h
  refine triple_bind (open_triple a fun _ => notify_keeps a _ Bool.false_ne_true) fun _ => ?_
  refine triple_bind (open_triple a fun _ => fire_keeps a _ _ Bool.false_ne_true) fun o => ?_
  cases o with
  | some reason => exact pushResult_closes a rfl fun _ => rfl
  | none =>
    refine triple_bind (executeTool_opens a hpasses) fun result => ?_
    refine triple_of_fact fun hid => ?_
    refine triple_bind (open_triple a fun _ => fire_keeps a _ _ Bool.false_ne_true) fun _ => ?_
    cases truncateToolResultDynamic result.content (contextBudget a) with
    | none => exact triple_throw fun s hs => hs.tracked.disciplined
    | some content => exact pushResult_closes a hid fun h => hnever h _

theorem handleCall_closes (hnext : done ++ [call] <+: asked) :
    Triple (Tracked a asked done (done.map ToolCall.id)) (handleCall a call)
      (fun _ => Tracked a asked (done ++ [call]) ((done ++ [call]).map ToolCall.id))
      (fun _ s => Always (Disciplined a) s.log) := by
  refine triple_bind (checkCall_opens a hnext) fun verdict => ?_
  cases verdict with
  | circuitBreak text =>
    refine triple_of_state fun s₀ hs₀ => ?_
    refine (breakCircuit_keeps a untracked_ending text).weaken ?_ (fun _ _ h => h.elim)
      (fun _ s hk => (hs₀.of_keeps a hk).tracked.disciplined)
    rintro s rfl
    exact keeps_refl s
  | block text => exact pushResult_closes a rfl fun _ => rfl
  | allow => exact performCall_closes a rfl
  | warn text => exact performCall_closes a rfl

/-- A batch checks and answers its calls in order. -/
theorem batch_closes {earlier calls : List ToolCall} :
    Triple (Tracked a (earlier ++ calls) earlier (earlier.map ToolCall.id))
      (calls.forM (handleCall a))
      (fun _ => Tracked a (earlier ++ calls) (earlier ++ calls) ((earlier ++ calls).map ToolCall.id))
      (fun _ s => Always (Disciplined a) s.log) := by
  have hloop : Triple (Tracked a (earlier ++ calls) (earlier ++ []) ((earlier ++ []).map ToolCall.id))
      (calls.forM (handleCall a)) (fun _ => Tracked a (earlier ++ calls) (earlier ++ calls)
        ((earlier ++ calls).map ToolCall.id)) (fun _ s => Always (Disciplined a) s.log) := by
    refine triple_forM (I := fun done => Tracked a (earlier ++ calls) (earlier ++ done)
      ((earlier ++ done).map ToolCall.id)) fun done call hnext => ?_
    rw [← List.append_assoc]
    refine handleCall_closes a ?_
    rw [List.append_assoc]
    exact (List.prefix_append_right_inj earlier).mpr hnext
  rwa [List.append_nil] at hloop

end Batch

section Run

theorem askedCalls_response (response : CompletionResponse) :
    askedCalls [.response response] = callsOf response := List.append_nil _

theorem emit_response_asks (response : CompletionResponse) :
    Triple (Idle a) (emit (.response response))
      (fun _ s => ∃ earlier, Tracked a (earlier ++ callsOf response) earlier
        (earlier.map ToolCall.id) s)
      (fun _ s => Always (Disciplined a) s.log) := by
  refine triple_update fun s ⟨calls, hs⟩ => ⟨calls, ?_⟩
  have hrecord := hs.record a (t := { s with log := s.log ++ [.response response] }) rfl rfl
    (e := .response response) trivial rfl
  rwa [askedCalls_response, show answeredIds [Event.response response] = [] from rfl,
    List.append_nil] at hrecord

theorem complete_idle (request : CompletionRequest) :
    Preserves (Idle a) (complete a request) := by
  refine preserves_bind (preserves_read _) fun n => ?_
  refine preserves_bind (preserves_update ?_) fun _ => preserves_pure _
  rintro s ⟨calls, hs⟩
  refine ⟨calls, ?_⟩
  have hrecord := hs.record a (t := { s with
    completions := s.completions + 1, log := s.log ++ [.request request] }) rfl rfl
    (e := .request request) ⟨?_, ?_⟩ rfl
  · rwa [show askedCalls [Event.request request] = [] from rfl, List.append_nil,
      show answeredIds [Event.request request] = [] from rfl, List.append_nil] at hrecord
  · rw [hs.checked_eq, hs.asked_eq]
  · rw [hs.answered_eq, hs.asked_eq]

theorem toolUse_idle (response : CompletionResponse) (hstop : response.stopReason = .toolUse) :
    Triple (fun s => ∃ earlier, Tracked a (earlier ++ callsOf response) earlier
        (earlier.map ToolCall.id) s)
      (toolUse a response) (fun _ => Idle a) (fun _ s => Always (Disciplined a) s.log) := by
  refine triple_of_state fun s₀ ⟨earlier, hs₀⟩ => ?_
  rw [callsOf, if_pos hstop] at hs₀
  refine Triple.weaken (show Triple (Tracked a (earlier ++ response.toolCalls) earlier
    (earlier.map ToolCall.id)) _ _ _ from ?_) (fun s h => h ▸ hs₀) (fun _ _ h => h) (fun _ _ h => h)
  refine triple_bind (tracked_triple a fun _ => keeps_set (fun _ => rfl) fun _ => rfl) fun _ => ?_
  refine triple_bind (tracked_triple a fun _ => keeps_set (fun _ => rfl) fun _ => rfl) fun _ => ?_
  refine triple_bind (tracked_triple a fun _ => keeps_set (fun _ => rfl) fun _ => rfl) fun _ => ?_
  refine triple_bind (batch_closes a) fun _ => ?_
  refine Triple.weaken (show Triple (Idle a) _ _ _ from ?_) (fun s h => ⟨_, h⟩) (fun _ _ h => h)
    (fun _ _ h => h)
  refine triple_bind (M := fun _ => Idle a) (triple_read fun _ hs => hs) fun blocks => ?_
  refine triple_bind (idle_triple a fun _ => keeps_set (fun _ => rfl) fun _ => rfl) fun _ => ?_
  refine triple_bind (idle_triple a fun _ => keeps_set (fun _ => rfl) fun _ => rfl) fun _ => ?_
  refine triple_bind (idle_triple a fun _ => saveSession_keeps a fun _ => Bool.false_ne_true)
    fun _ => ?_
  exact triple_pure fun _ hs => hs

theorem endTurn_idle (iteration : Nat) (response : CompletionResponse) :
    Triple (Idle a) (endTurn a iteration response) (fun _ => Idle a)
      (fun _ s => Always (Disciplined a) s.log) := by
  unfold endTurn
  dsimp only
  split
  · exact idle_triple a fun _ => completeSilently_keeps a untracked_ending (fun _ _ => rfl) _ _
  split
  · exact idle_triple a fun _ => preserves_bind (keeps_set (fun _ => rfl) fun _ => rfl) fun _ =>
      keeps_set (fun _ => rfl) fun _ => rfl
  split
  · exact idle_triple a fun _ => finish_keeps a untracked_ending (fun _ _ => rfl) _ _ _
  · exact idle_triple a fun _ => finish_keeps a untracked_ending (fun _ _ => rfl) _ _ _

theorem reachMaxTokens_idle (iteration : Nat) (response : CompletionResponse) :
    Triple (Idle a) (reachMaxTokens a iteration response) (fun _ => Idle a)
      (fun _ s => Always (Disciplined a) s.log) := by
  refine triple_bind (idle_triple a fun _ => keeps_set (fun _ => rfl) fun _ => rfl) fun _ => ?_
  refine triple_bind (M := fun _ => Idle a) (triple_read fun _ hs => hs) fun n => ?_
  split
  · exact idle_triple a fun _ => returnPartial_keeps a untracked_ending (fun _ _ => rfl) _ _
  · refine triple_bind (M := fun _ => Idle a) ?_ fun _ => ?_
    · unfold pushPartial
      split
      · exact triple_pure fun _ hs => hs
      · exact idle_triple a fun _ => preserves_bind (keeps_set (fun _ => rfl) fun _ => rfl)
          fun _ => keeps_set (fun _ => rfl) fun _ => rfl
    · exact idle_triple a fun _ => preserves_bind (keeps_set (fun _ => rfl) fun _ => rfl)
        fun _ => keeps_set (fun _ => rfl) fun _ => rfl

theorem actOn_idle (iteration : Nat) (response : CompletionResponse) :
    Triple (fun s => ∃ earlier, Tracked a (earlier ++ callsOf response) earlier
        (earlier.map ToolCall.id) s)
      (actOn a iteration response) (fun _ => Idle a) (fun _ s => Always (Disciplined a) s.log) := by
  have hidle : response.stopReason ≠ .toolUse → ∀ s, (∃ earlier,
      Tracked a (earlier ++ callsOf response) earlier (earlier.map ToolCall.id) s) → Idle a s := by
    rintro hstop s ⟨earlier, hs⟩
    rw [callsOf, if_neg hstop, List.append_nil] at hs
    exact ⟨earlier, hs⟩
  unfold actOn
  cases hstop : response.stopReason with
  | endTurn =>
    exact (endTurn_idle a iteration response).weaken (hidle (by rw [hstop]; decide))
      (fun _ _ h => h) (fun _ _ h => h)
  | stopSequence =>
    exact (endTurn_idle a iteration response).weaken (hidle (by rw [hstop]; decide))
      (fun _ _ h => h) (fun _ _ h => h)
  | toolUse =>
    show Triple _ (toolUse a response) _ _
    exact toolUse_idle a response hstop
  | maxTokens =>
    show Triple _ (reachMaxTokens a iteration response) _ _
    exact (reachMaxTokens_idle a iteration response).weaken (hidle (by rw [hstop]; decide))
      (fun _ _ h => h) (fun _ _ h => h)

theorem iterate_idle (iteration : Nat) :
    Triple (Idle a) (iterate a iteration) (fun _ => Idle a)
      (fun _ s => Always (Disciplined a) s.log) := by
  refine triple_bind (idle_triple a fun _ => fitContext_keeps a fun _ _ => rfl) fun _ => ?_
  refine triple_bind (idle_triple a fun _ => guardContext_keeps a fun _ _ => rfl) fun _ => ?_
  refine triple_bind (M := fun _ => Idle a) (triple_read fun _ hs => hs) fun messages => ?_
  refine triple_bind (idle_triple a fun _ => notify_keeps a _ Bool.false_ne_true) fun _ => ?_
  refine triple_bind ((callWithRetry_preserves a _ (complete_idle a _) _).weaken (fun _ hs => hs)
    (fun _ _ hs => hs) (fun _ _ ⟨_, hs⟩ => hs.disciplined)) fun raw => ?_
  refine triple_bind (idle_triple a fun _ => addUsage_keeps _) fun _ => ?_
  refine triple_bind (idle_triple a fun _ => promoteTextCalls_keeps a raw) fun response => ?_
  exact triple_bind (emit_response_asks a response) fun _ => actOn_idle a iteration response

theorem runAgentLoop_disciplined (session : List Message) :
    Always (Disciplined a) (runAgentLoop a session).2.log := by
  have hrun : Triple (Idle a) (agentLoop a) (fun _ => Idle a)
      (fun _ s => Always (Disciplined a) s.log) := by
    refine triple_bind (idle_triple a fun _ => fire_keeps a _ _ Bool.false_ne_true) fun _ => ?_
    refine triple_bind (idle_triple a fun _ => keeps_set (fun _ => rfl) fun _ => rfl) fun _ => ?_
    refine triple_bind (idle_triple a fun _ => setMessages_keeps (fun _ _ => rfl) _) fun _ => ?_
    refine triple_bind (triple_forM (I := fun _ => Idle a) fun _ i _ => iterate_idle a i) fun _ => ?_
    exact idle_triple a fun _ => exceedIterations_keeps a untracked_ending
  exact outcome_triple (hrun.weaken (fun _ hs => hs) (fun _ _ ⟨_, hs⟩ => hs.disciplined)
    (fun _ _ h => h)) ⟨[], always_nil, rfl, rfl, rfl, rfl⟩

omit [DecidableEq κ] in
theorem askedCalls_shown (log : List Event) :
    askedCalls (log.filter Event.isShown) = askedCalls log := by
  induction log with
  | nil => rfl
  | cons e log ih =>
    cases he : e.isShown with
    | true =>
      rw [List.filter_cons_of_pos he, ← List.singleton_append, askedCalls_append, ih,
        ← askedCalls_append, List.singleton_append]
    | false =>
      rw [List.filter_cons_of_neg (by simp [he]), ih]
      cases e <;> first | rfl | cases he

omit [DecidableEq κ] in
theorem checkedCalls_shown (log : List Event) :
    checkedCalls (log.filter Event.isShown) = checkedCalls log :=
  filterMap_shown log fun event h => by cases event <;> first | rfl | cases h

omit [DecidableEq κ] in
theorem answeredIds_shown (log : List Event) :
    answeredIds (log.filter Event.isShown) = answeredIds log :=
  filterMap_shown log fun event h => by cases event <;> first | rfl | cases h

theorem disciplined_shown (past : List Event) (e : Event) :
    Disciplined a past e ↔ Disciplined a (past.filter Event.isShown) e := by
  cases e with
  | request request =>
    simp only [Disciplined, askedCalls_shown, checkedCalls_shown, answeredIds_shown]
  | checked call verdict =>
    simp only [Disciplined, guardAfter, askedCalls_shown, checkedCalls_shown, answeredIds_shown]
  | executed call result =>
    constructor
    · rintro ⟨before, verdict, between, rfl, hpasses, h⟩
      refine ⟨before.filter Event.isShown, verdict, between.filter Event.isShown, ?_, hpasses, ?_⟩
      · rw [List.filter_append, List.filter_cons_of_pos rfl]
      · rwa [checkedCalls_shown, answeredIds_shown, executedCalls_shown]
    · rintro ⟨before, verdict, between, hpast, hpasses, h⟩
      obtain ⟨before, between, rfl, rfl, rfl⟩ := filter_split hpast
      rw [checkedCalls_shown, answeredIds_shown, executedCalls_shown] at h
      exact ⟨before, verdict, between, rfl, hpasses, h⟩
  | answered result =>
    constructor
    · rintro ⟨before, call, verdict, between, rfl, hchecked, hanswered, h⟩
      refine ⟨before.filter Event.isShown, call, verdict, between.filter Event.isShown, ?_, ?_, ?_,
        h⟩
      · rw [List.filter_append, List.filter_cons_of_pos rfl]
      · rwa [checkedCalls_shown]
      · rwa [answeredIds_shown]
    · rintro ⟨before, call, verdict, between, hpast, hchecked, hanswered, h⟩
      obtain ⟨before, between, rfl, rfl, rfl⟩ := filter_split hpast
      rw [checkedCalls_shown] at hchecked
      rw [answeredIds_shown] at hanswered
      exact ⟨before, call, verdict, between, rfl, hchecked, hanswered, h⟩
  | _ => rfl

theorem runAgentLoopStreaming_disciplined (session : List Message) :
    Always (Disciplined a) (runAgentLoopStreaming a session).2.log := by
  refine (always_streaming a ?_ (disciplined_shown a) session).mpr (runAgentLoop_disciplined a session)
  intro past e he
  refine disciplined_quiet a fun htracked => ?_
  cases e <;> first | exact Bool.false_ne_true htracked | exact Bool.false_ne_true he.symm

end Run

end Clawreform.Runtime
