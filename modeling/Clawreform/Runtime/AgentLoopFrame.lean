import Clawreform.Runtime.AgentLoop

namespace Clawreform.Runtime

open Clawreform.Lib Clawreform.Lib.Text Clawreform.Lib.Program
open Clawreform.Lib.Json (Value)
open Clawreform.Types

variable {κ : Type}

/-- The variables the branches of the loop depend on. -/
structure Core (κ : Type) where
  session : List Message
  messages : List Message
  guard : LoopGuard κ
  toolResultBlocks : List ContentBlock

def Loop.core (s : Loop κ) : Core κ := ⟨s.session, s.messages, s.guard, s.toolResultBlocks⟩

variable {δ : Type} {view : Core κ → δ} {loud : Event → Prop} {s₀ : Loop κ}

/-- What is in view is as it was, and the log has grown by events that are not
loud. -/
def Keeps (view : Core κ → δ) (loud : Event → Prop) (s₀ s : Loop κ) : Prop :=
  view s.core = view s₀.core ∧ ∃ events, s.log = s₀.log ++ events ∧ ∀ e ∈ events, ¬ loud e

theorem keeps_refl (s : Loop κ) : Keeps view loud s s :=
  ⟨rfl, [], (List.append_nil _).symm, fun _ he => absurd he List.not_mem_nil⟩

theorem Keeps.trans {s t : Loop κ} (hs : Keeps view loud s₀ s) (ht : Keeps view loud s t) :
    Keeps view loud s₀ t := by
  obtain ⟨hview, events, hlog, hquiet⟩ := hs
  obtain ⟨hview', events', hlog', hquiet'⟩ := ht
  refine ⟨hview'.trans hview, events ++ events', ?_, fun e he => ?_⟩
  · rw [hlog', hlog, List.append_assoc]
  · rcases List.mem_append.mp he with he | he
    · exact hquiet e he
    · exact hquiet' e he

theorem keeps_set {f : Loop κ → Loop κ} (hview : ∀ s, view (f s).core = view s.core)
    (hlog : ∀ s, (f s).log = s.log) :
    Preserves (Keeps view loud s₀) (update f : Prog κ Unit) :=
  preserves_update fun s hs =>
    hs.trans ⟨hview s, [], by rw [hlog, List.append_nil], fun _ he => absurd he List.not_mem_nil⟩

theorem setMessages_keeps (hview : ∀ c messages, view { c with messages := messages } = view c)
    (messages : Loop κ → List Message) : Preserves (Keeps view loud s₀)
      (update (fun s => { s with messages := messages s }) : Prog κ Unit) :=
  keeps_set (fun s => hview s.core (messages s)) (fun _ => rfl)

theorem keeps_record {f : Loop κ → Loop κ} {e : Loop κ → Event}
    (hview : ∀ s, view (f s).core = view s.core) (hlog : ∀ s, (f s).log = s.log ++ [e s])
    (hquiet : ∀ s, ¬ loud (e s)) :
    Preserves (Keeps view loud s₀) (update f : Prog κ Unit) := by
  refine preserves_update fun s hs => hs.trans ⟨hview s, [e s], hlog s, fun x hx => ?_⟩
  rw [List.mem_singleton.mp hx]
  exact hquiet s

/-- A program that keeps what an invariant speaks of keeps the invariant. -/
theorem preserves_of_keeps {α : Type} {inv : Loop κ → Prop} {x : Prog κ α}
    (hx : ∀ s₀, Preserves (Keeps view loud s₀) x)
    (h : ∀ s₀ s, inv s₀ → Keeps view loud s₀ s → inv s) : Preserves inv x := by
  refine ⟨fun s hs => ?_⟩
  have hxs := (hx s).run s (keeps_refl s)
  cases hr : x s with
  | ok b s' =>
    rw [hr] at hxs
    exact h s s' hs hxs
  | error e s' =>
    rw [hr] at hxs
    exact h s s' hs hxs

variable (a : Args κ)

theorem notify_keeps (phase : LoopPhase) (h : ¬ loud (.phase phase)) :
    Preserves (Keeps view loud s₀) (notify a phase) := by
  unfold notify
  split
  · exact keeps_record (fun _ => rfl) (fun _ => rfl) (fun _ => h)
  · exact preserves_pure ()

theorem fire_keeps (event : HookEvent) (data : Value) (h : ¬ loud (.hook event data)) :
    Preserves (Keeps view loud s₀) (fire a event data) := by
  unfold fire
  split
  · exact preserves_pure _
  · refine preserves_bind (preserves_read _) fun n => ?_
    exact preserves_bind (keeps_record (fun _ => rfl) (fun _ => rfl) (fun _ => h)) fun _ =>
      preserves_pure _

theorem saveSession_keeps (h : ∀ session, ¬ loud (.saved session)) :
    Preserves (Keeps view loud s₀) (saveSession a) := by
  refine preserves_bind (preserves_read _) fun n => ?_
  split
  · exact preserves_bind (keeps_record (e := fun s => .saved s.session) (fun _ => rfl)
      (fun _ => rfl) (fun _ => h _)) fun _ => preserves_pure _
  · exact preserves_bind (keeps_set (fun _ => rfl) (fun _ => rfl)) fun _ => preserves_pure _

theorem addUsage_keeps (usage : TokenUsage) : Preserves (Keeps view loud s₀) (addUsage usage) :=
  keeps_set (fun _ => rfl) (fun _ => rfl)

theorem fitContext_keeps (hview : ∀ c messages, view { c with messages := messages } = view c) :
    Preserves (Keeps view loud s₀) (fitContext a) := by
  refine preserves_bind (preserves_read _) fun messages => ?_
  cases recoverFromOverflow (systemPrompt a) a.availableTools (ctxWindow a) messages with
  | none => exact preserves_throw _
  | some p =>
    exact preserves_bind (keeps_set (fun s => hview s.core p.1) (fun _ => rfl)) fun _ =>
      preserves_pure _

theorem guardContext_keeps (hview : ∀ c messages, view { c with messages := messages } = view c) :
    Preserves (Keeps view loud s₀) (guardContext a) := by
  refine preserves_bind (preserves_read _) fun messages => ?_
  cases applyContextGuard messages (contextBudget a) with
  | none => exact preserves_throw _
  | some p => exact keeps_set (fun s => hview s.core p.1) (fun _ => rfl)

theorem promoteTextCalls_keeps (response : CompletionResponse) :
    Preserves (Keeps view loud s₀) (promoteTextCalls a response) := by
  unfold promoteTextCalls
  split
  · refine preserves_bind (preserves_read _) fun n => ?_
    exact preserves_bind (keeps_set (fun _ => rfl) (fun _ => rfl)) fun _ => preserves_pure _
  · exact preserves_pure _

theorem complete_keeps (request : CompletionRequest) (h : ¬ loud (.request request)) :
    Preserves (Keeps view loud s₀) (complete a request) := by
  refine preserves_bind (preserves_read _) fun n => ?_
  exact preserves_bind (keeps_record (e := fun _ => .request request) (fun _ => rfl)
    (fun _ => rfl) (fun _ => h)) fun _ => preserves_pure _

/-- The attempts keep what one call of the driver keeps. -/
theorem callWithRetry_preserves {inv : Loop κ → Prop} (request : CompletionRequest)
    (h : Preserves inv (complete a request)) (retries : Nat) :
    Preserves inv (callWithRetry a request retries) := by
  induction retries with
  | zero =>
    refine preserves_bind h fun answer => ?_
    match answer with
    | .ok response => exact preserves_pure _
    | .error (.rateLimited _) => exact preserves_throw _
    | .error (.overloaded _) => exact preserves_throw _
    | .error (.http _) => exact preserves_throw _
    | .error (.api _ _) => exact preserves_throw _
    | .error (.parse _) => exact preserves_throw _
    | .error (.missingApiKey _) => exact preserves_throw _
  | succ retries ih =>
    refine preserves_bind h fun answer => ?_
    match answer with
    | .ok response => exact preserves_pure _
    | .error (.rateLimited _) => exact ih
    | .error (.overloaded _) => exact ih
    | .error (.http _) => exact preserves_throw _
    | .error (.api _ _) => exact preserves_throw _
    | .error (.parse _) => exact preserves_throw _
    | .error (.missingApiKey _) => exact preserves_throw _

theorem outcome_triple {x : Prog κ Exit} {pre post : Loop κ → Prop}
    (h : Triple pre x (fun _ => post) (fun _ => post)) {s : Loop κ} (hs : pre s) :
    post (outcome x s).2 := by
  have hx := h.run s hs
  unfold outcome
  cases hr : x s with
  | ok exit s' =>
    rw [hr] at hx
    exact hx
  | error exit s' =>
    rw [hr] at hx
    exact hx

section Ending

/-- The events of the steps that end a run, and of the saves. -/
def Event.inEnding : Event → Bool
  | .phase _ => true
  | .hook _ _ => true
  | .saved _ => true
  | .remembered _ => true
  | _ => false

variable (hquiet : ∀ e : Event, e.inEnding = true → ¬ loud e)
  (hview : ∀ c session, view { c with session := session } = view c)

include hview in
theorem pushSession_keeps (m : Message) : Preserves (Keeps view loud s₀) (pushSession m) :=
  keeps_set (fun s => hview s.core _) (fun _ => rfl)

include hquiet in
theorem saveOrFail_keeps : Preserves (Keeps view loud s₀) (saveOrFail a) := by
  refine preserves_bind (saveSession_keeps a fun _ => hquiet _ rfl) fun saved => ?_
  cases saved with
  | none => exact preserves_pure ()
  | some error => exact preserves_throw _

include hquiet hview in
theorem completeSilently_keeps (iteration : Nat) (directives : DirectiveSet) :
    Preserves (Keeps view loud s₀) (completeSilently a iteration directives) := by
  refine preserves_bind (pushSession_keeps hview _) fun _ => ?_
  refine preserves_bind (saveOrFail_keeps a hquiet) fun _ => ?_
  exact preserves_bind (preserves_read _) fun _ => preserves_throw _

include hquiet hview in
theorem finish_keeps (iteration : Nat) (responseText memoryText : Str) :
    Preserves (Keeps view loud s₀) (finish a iteration responseText memoryText) := by
  refine preserves_bind (pushSession_keeps hview _) fun _ => ?_
  refine preserves_bind (keeps_set (fun s => hview s.core _) (fun _ => rfl)) fun _ => ?_
  refine preserves_bind (saveOrFail_keeps a hquiet) fun _ => ?_
  refine preserves_bind (keeps_record (e := fun _ => .remembered _) (fun _ => rfl) (fun _ => rfl)
    (fun _ => hquiet _ rfl)) fun _ => ?_
  refine preserves_bind (notify_keeps a _ (hquiet _ rfl)) fun _ => ?_
  refine preserves_bind (fire_keeps a _ _ (hquiet _ rfl)) fun _ => ?_
  exact preserves_bind (preserves_read _) fun _ => preserves_throw _

include hquiet hview in
theorem returnPartial_keeps (iteration : Nat) (response : CompletionResponse) :
    Preserves (Keeps view loud s₀) (returnPartial a iteration response) := by
  refine preserves_bind (pushSession_keeps hview _) fun _ => ?_
  refine preserves_bind (saveSession_keeps a fun _ => hquiet _ rfl) fun _ => ?_
  refine preserves_bind (fire_keeps a _ _ (hquiet _ rfl)) fun _ => ?_
  exact preserves_bind (preserves_read _) fun _ => preserves_throw _

include hquiet in
theorem exceedIterations_keeps : Preserves (Keeps view loud s₀) (exceedIterations a) := by
  refine preserves_bind (saveSession_keeps a fun _ => hquiet _ rfl) fun _ => ?_
  exact preserves_bind (fire_keeps a _ _ (hquiet _ rfl)) fun _ => preserves_pure _

include hquiet in
theorem breakCircuit_keeps (text : Str) :
    Triple (Keeps view loud s₀) (breakCircuit a text) (fun _ _ => False)
      (fun _ => Keeps view loud s₀) := by
  refine triple_bind (saveSession_keeps a fun _ => hquiet _ rfl) fun _ => ?_
  refine triple_bind (fire_keeps a _ _ (hquiet _ rfl)) fun _ => ?_
  exact triple_throw fun _ hs => hs

end Ending

section Batch

/-- The events of a batch of tool calls. -/
def Event.inBatch : Event → Bool
  | .phase _ => true
  | .hook _ _ => true
  | .checked _ _ => true
  | .executed _ _ => true
  | .answered _ => true
  | _ => false

/-- A batch of tool calls in progress: the ids are those of the calls that have
their result. -/
structure Answered (loud : Event → Prop) (s₀ : Loop κ) (ids : List Str) (s : Loop κ) : Prop where
  keeps : Keeps (fun c => (c.session, c.messages)) loud s₀ s
  results : s.toolResultBlocks.filterMap ContentBlock.resultId? = ids
  uses : s.toolResultBlocks.filterMap ContentBlock.toolUseId? = []

variable {ids : List Str} {exit : Exit → Loop κ → Prop}

theorem Answered.of_keeps {s s' : Loop κ} (h : Answered loud s₀ ids s)
    (hk : Keeps (fun c => (c.session, c.messages, c.toolResultBlocks)) loud s s') :
    Answered loud s₀ ids s' := by
  obtain ⟨hview, hlog⟩ := hk
  simp only [Prod.mk.injEq] at hview
  have hblocks : s'.toolResultBlocks = s.toolResultBlocks := hview.2.2
  refine ⟨h.keeps.trans ⟨Prod.ext hview.1 hview.2.1, hlog⟩, ?_, ?_⟩
  · rw [hblocks, h.results]
  · rw [hblocks, h.uses]

/-- A program that leaves the batch alone. -/
theorem answered_of_keeps {α : Type} {x : Prog κ α}
    (hx : ∀ s₁, Preserves (Keeps (fun c => (c.session, c.messages, c.toolResultBlocks)) loud s₁) x) :
    Preserves (Answered loud s₀ ids) x :=
  preserves_of_keeps hx fun _ _ hs hk => hs.of_keeps hk

variable (hquiet : ∀ e : Event, e.inBatch = true → ¬ loud e)
  (hexit : ∀ ids e s, Answered loud s₀ ids s → exit e s)

include hquiet in
theorem pushResult_answers (id content : Str) (isError : Bool) :
    Triple (Answered loud s₀ ids) (pushResult ⟨id, content, isError⟩)
      (fun _ => Answered loud s₀ (ids ++ [id])) exit := by
  refine triple_update fun s hs =>
    ⟨hs.keeps.trans ⟨rfl, [.answered ⟨id, content, isError⟩], rfl, fun e he => ?_⟩, ?_, ?_⟩
  · rw [List.mem_singleton.mp he]
    exact hquiet _ rfl
  · show List.filterMap ContentBlock.resultId? (s.toolResultBlocks ++ _) = _
    rw [List.filterMap_append, hs.results]
    rfl
  · show List.filterMap ContentBlock.toolUseId? (s.toolResultBlocks ++ _) = _
    rw [List.filterMap_append, hs.uses]
    rfl

include hexit in
theorem answered_triple {α : Type} {x : Prog κ α}
    (hx : ∀ s₁, Preserves (Keeps (fun c => (c.session, c.messages, c.toolResultBlocks)) loud s₁) x) :
    Triple (Answered loud s₀ ids) x (fun _ => Answered loud s₀ ids) exit :=
  (answered_of_keeps hx).weaken (fun _ hs => hs) (fun _ _ hs => hs) (hexit ids)

include hquiet hexit in
theorem executeTool_answers (call : ToolCall) :
    Triple (Answered loud s₀ ids) (executeTool a call)
      (fun result s => Answered loud s₀ ids s ∧ result.toolUseId = call.id) exit := by
  refine triple_bind (answered_triple hexit fun _ => preserves_read _) fun n => ?_
  refine triple_bind (answered_triple hexit fun _ => keeps_record (e := fun _ =>
    .executed call _) (fun _ => rfl) (fun _ => rfl) (fun _ => hquiet _ rfl)) fun _ => ?_
  refine triple_pure fun s hs => ⟨hs, ?_⟩
  cases a.world.executeTool n <;> rfl

include hquiet hexit in
theorem performCall_answers (call : ToolCall) (verdict : LoopGuardVerdict) :
    Triple (Answered loud s₀ ids) (performCall a call verdict)
      (fun _ => Answered loud s₀ (ids ++ [call.id])) exit := by
  refine triple_bind (answered_triple hexit fun _ => notify_keeps a _ (hquiet _ rfl)) fun _ => ?_
  refine triple_bind (answered_triple hexit fun _ => fire_keeps a _ _ (hquiet _ rfl)) fun o => ?_
  cases o with
  | some reason => exact pushResult_answers hquiet _ _ _
  | none =>
    refine triple_bind (executeTool_answers a hquiet hexit call) fun result => ?_
    refine triple_of_fact fun hid => ?_
    refine triple_bind (answered_triple hexit fun _ => fire_keeps a _ _ (hquiet _ rfl)) fun _ => ?_
    cases truncateToolResultDynamic result.content (contextBudget a) with
    | none => exact triple_throw fun s hs => hexit ids _ s hs
    | some content =>
      rw [← hid]
      exact pushResult_answers hquiet _ _ _

variable [DecidableEq κ]
  (hbreak : ∀ ids call text, Triple
    (fun s => Answered loud s₀ ids s ∧ Event.checked call (.circuitBreak text) ∈ s.log)
    (breakCircuit a text) (fun _ _ => False) exit)

include hquiet in
theorem checkCall_answers (call : ToolCall) :
    Triple (Answered loud s₀ ids) (checkCall a call)
      (fun verdict s => Answered loud s₀ ids s ∧ Event.checked call verdict ∈ s.log) exit := by
  refine triple_bind (M := fun _ => Answered loud s₀ ids) (triple_read fun s hs => hs)
    fun guard => ?_
  refine triple_bind (M := fun _ s => Answered loud s₀ ids s ∧
    Event.checked call (guard.check a.world.hashing call.name call.input).2 ∈ s.log) ?_
    fun _ => triple_pure fun _ hs => hs
  refine triple_update fun s hs => ⟨hs.of_keeps ⟨rfl, _, rfl, fun e he => ?_⟩, ?_⟩
  · rw [List.mem_singleton.mp he]
    exact hquiet _ rfl
  · exact List.mem_append_right _ (List.mem_singleton_self _)

include hquiet hexit hbreak in
theorem handleCall_answers (call : ToolCall) :
    Triple (Answered loud s₀ ids) (handleCall a call)
      (fun _ => Answered loud s₀ (ids ++ [call.id])) exit := by
  refine triple_bind (checkCall_answers a hquiet call) fun verdict => ?_
  cases verdict with
  | circuitBreak text =>
    exact (hbreak ids call text).weaken (fun _ hs => hs) (fun _ _ h => absurd h id)
      (fun _ _ h => h)
  | block text =>
    exact (pushResult_answers hquiet _ _ _).weaken (fun _ hs => hs.1) (fun _ _ hs => hs) (fun _ _ h => h)
  | allow =>
    exact (performCall_answers a hquiet hexit call _).weaken (fun _ hs => hs.1)
      (fun _ _ hs => hs) (fun _ _ h => h)
  | warn text =>
    exact (performCall_answers a hquiet hexit call _).weaken (fun _ hs => hs.1)
      (fun _ _ hs => hs) (fun _ _ h => h)

include hquiet hexit hbreak in
/-- A batch that goes through answers each of its calls, in order. -/
theorem batch_answers (calls : List ToolCall) :
    Triple (Answered loud s₀ []) (calls.forM (handleCall a))
      (fun _ => Answered loud s₀ (calls.map ToolCall.id)) exit := by
  refine triple_forM (I := fun done => Answered loud s₀ (done.map ToolCall.id)) fun done call _ => ?_
  rw [List.map_append, List.map_singleton]
  exact handleCall_answers a hquiet hexit hbreak call

end Batch

end Clawreform.Runtime
