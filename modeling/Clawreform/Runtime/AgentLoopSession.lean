import Clawreform.Runtime.AgentLoopCalls
import Clawreform.Runtime.SessionRecord

namespace Clawreform.Runtime

open Clawreform.Lib Clawreform.Lib.Text Clawreform.Lib.Program Clawreform.Lib.Trace
open Clawreform.Lib.Json (Value)
open Clawreform.Types
open Clawreform.Runtime.SessionRepair

variable {κ : Type} (a : Args κ) (ids : List Str)

section Conditions

def stopOf : Event → Option StopReason
  | .response response => some response.stopReason
  | _ => none

/-- Why the last response of a log stopped. -/
def lastStop (log : List Event) : Option StopReason := (log.filterMap stopOf).getLast?

/-- What the response adds to the session is more than a no-reply. -/
def Speaks (response : CompletionResponse) : Prop :=
  match response.stopReason with
  | .toolUse => isNoReply (.blocks response.content) = false
  | .maxTokens => isNoReplyText (sanitizeVisibleResponse response.text) = false
  | _ => True

instance (response : CompletionResponse) : Decidable (Speaks response) := by
  unfold Speaks
  split <;> infer_instance

/-- A response after which the record is complete: the tool uses it asks for are
calls of its own, the calls asked for so far stay within the breaker's limit, and
it is a bare no-reply at most when it goes on from a cut-off response. -/
def Recordable (past : List Event) : Event → Prop
  | .response response =>
    (response.stopReason = .toolUse → response.content.filterMap ContentBlock.toolUseId? ⊆
      response.toolCalls.map ToolCall.id) ∧
    (askedCalls past).length + (callsOf response).length ≤
      (loopGuardConfig a).globalCircuitBreaker.toNat ∧
    (lastStop past ≠ some .maxTokens → Speaks response)
  | _ => True

instance (past : List Event) (e : Event) : Decidable (Recordable a past e) := by
  unfold Recordable
  split <;> infer_instance

def Unbroken (log : List Event) : Prop :=
  ∀ call text, Event.checked call (.circuitBreak text) ∉ log

def Undamaged (log : List Event) : Prop := Always (Recordable a) log ∧ Unbroken log

def SavesRecorded (log : List Event) : Prop :=
  Always (fun past e => ∀ session, e = .saved session → Undamaged a past →
    Recorded ids session) log

/-- The session may be saved as it is. -/
structure Closing (s : Loop κ) : Prop where
  saves : SavesRecorded a ids s.log
  recorded : Undamaged a s.log → Recorded ids s.session

/-- The session the next response adds to. -/
structure Settling (s : Loop κ) : Prop where
  saves : SavesRecorded a ids s.log
  settled : Undamaged a s.log → Settled ids s.session
  endsUser : ∃ l m, s.session = l ++ [m] ∧ m.role = .user
  awaits : Awaiting s.session → lastStop s.log ≠ some .maxTokens

/-- The session when a response is there. -/
structure Heard (response : CompletionResponse) (s : Loop κ) : Prop where
  saves : SavesRecorded a ids s.log
  settled : Undamaged a s.log → Settled ids s.session
  endsUser : ∃ l m, s.session = l ++ [m] ∧ m.role = .user
  stopped : lastStop s.log = some response.stopReason
  speaks : Undamaged a s.log → Awaiting s.session → Speaks response
  named : Undamaged a s.log → response.stopReason = .toolUse →
    response.content.filterMap ContentBlock.toolUseId? ⊆ response.toolCalls.map ToolCall.id

def Event.isMark : Event → Bool
  | .response _ => true
  | .saved _ => true
  | _ => false

abbrev Steady (s₀ : Loop κ) : Loop κ → Prop := Keeps Core.session (fun e => e.isMark = true) s₀

end Conditions

section Invariant

variable {a ids} {s s' : Loop κ} {log events : List Event}

theorem Undamaged.left (h : Undamaged a (log ++ events)) : Undamaged a log :=
  ⟨h.1.left, fun call text hmem => h.2 call text (List.mem_append_left _ hmem)⟩

theorem SavesRecorded.quiet (h : SavesRecorded a ids log) (hquiet : ∀ e ∈ events, ¬ e.isMark = true) :
    SavesRecorded a ids (log ++ events) := by
  refine Always.append h ?_
  rintro e he past session rfl
  exact absurd rfl (hquiet _ he)

theorem lastStop_quiet (hquiet : ∀ e ∈ events, ¬ e.isMark = true) :
    lastStop (log ++ events) = lastStop log := by
  have hnone : events.filterMap stopOf = [] := by
    refine List.filterMap_eq_nil_iff.mpr fun e he => ?_
    have := hquiet e he
    cases e <;> first | rfl | exact absurd rfl this
  rw [lastStop, List.filterMap_append, hnone, List.append_nil, lastStop]

theorem lastStop_response (response : CompletionResponse) :
    lastStop (log ++ [.response response]) = some response.stopReason := by
  rw [lastStop, List.filterMap_append]
  exact List.getLast?_concat

theorem Settling.closing (h : Settling a ids s) : Closing a ids s :=
  ⟨h.saves, fun hu => (h.settled hu).recorded⟩

theorem Closing.of_keeps (h : Closing a ids s) (hk : Steady s s') : Closing a ids s' := by
  obtain ⟨hsession, events, hlog, hquiet⟩ := hk
  have hsession : s'.session = s.session := hsession
  refine ⟨?_, fun hu => ?_⟩
  · rw [hlog]
    exact h.saves.quiet hquiet
  · rw [hlog] at hu
    rw [hsession]
    exact h.recorded hu.left

theorem Settling.of_keeps (h : Settling a ids s) (hk : Steady s s') : Settling a ids s' := by
  obtain ⟨hsession, events, hlog, hquiet⟩ := hk
  have hsession : s'.session = s.session := hsession
  refine ⟨?_, fun hu => ?_, ?_, ?_⟩
  · rw [hlog]
    exact h.saves.quiet hquiet
  · rw [hlog] at hu
    rw [hsession]
    exact h.settled hu.left
  · rw [hsession]
    exact h.endsUser
  · rw [hsession, hlog, lastStop_quiet hquiet]
    exact h.awaits

theorem closing_triple {α : Type} {x : Prog κ α} (hx : ∀ s₀, Preserves (Steady s₀) x) :
    Triple (Closing a ids) x (fun _ => Closing a ids) (fun _ s => SavesRecorded a ids s.log) :=
  (preserves_of_keeps hx fun _ _ hs hk => Closing.of_keeps hs hk).weaken (fun _ hs => hs)
    (fun _ _ hs => hs) (fun _ _ hs => hs.saves)

theorem settling_triple {α : Type} {x : Prog κ α} (hx : ∀ s₀, Preserves (Steady s₀) x) :
    Triple (Settling a ids) x (fun _ => Settling a ids) (fun _ s => SavesRecorded a ids s.log) :=
  (preserves_of_keeps hx fun _ _ hs hk => Settling.of_keeps hs hk).weaken (fun _ hs => hs)
    (fun _ _ hs => hs) (fun _ _ hs => hs.saves)

theorem saves_concat (h : Closing a ids s) : SavesRecorded a ids (s.log ++ [.saved s.session]) := by
  refine always_concat.mpr ⟨h.saves, ?_⟩
  rintro session ⟨⟩ hu
  exact h.recorded hu

theorem saveSession_closing : Preserves (Closing a ids) (saveSession a) := by
  refine preserves_bind (preserves_read _) fun n => ?_
  cases a.world.saveSession n with
  | none =>
    refine preserves_bind (preserves_update fun s hs => ?_) fun _ => preserves_pure _
    exact ⟨saves_concat hs, fun hu => hs.recorded hu.left⟩
  | some error =>
    exact preserves_bind (preserves_update fun s hs => ⟨hs.saves, hs.recorded⟩) fun _ =>
      preserves_pure _

theorem saveSession_settling : Preserves (Settling a ids) (saveSession a) := by
  refine preserves_bind (preserves_read _) fun n => ?_
  cases a.world.saveSession n with
  | none =>
    refine preserves_bind (preserves_update fun s hs => ?_) fun _ => preserves_pure _
    refine ⟨saves_concat hs.closing, fun hu => hs.settled hu.left, hs.endsUser, fun hw => ?_⟩
    have hstop : lastStop (s.log ++ [.saved s.session]) = lastStop s.log := by
      rw [lastStop, List.filterMap_append]
      exact congrArg List.getLast? (List.append_nil _)
    rw [hstop]
    exact hs.awaits hw
  | some error =>
    refine preserves_bind (preserves_update fun s hs => ?_) fun _ => preserves_pure _
    exact ⟨hs.saves, hs.settled, hs.endsUser, hs.awaits⟩

theorem saveOrFail_closing : Preserves (Closing a ids) (saveOrFail a) := by
  refine preserves_bind saveSession_closing fun saved => ?_
  cases saved with
  | none => exact preserves_pure ()
  | some error => exact preserves_throw _

theorem closing_exit {α : Type} {x : Prog κ α} (h : Preserves (Closing a ids) x) :
    Triple (Closing a ids) x (fun _ => Closing a ids) (fun _ s => SavesRecorded a ids s.log) :=
  h.weaken (fun _ hs => hs) (fun _ _ hs => hs) (fun _ _ hs => hs.saves)

end Invariant

section Steps

variable {a ids}

theorem text_calls (role : Role) (s : Str) : (Message.mk role (.text s)).calls = [] := by
  cases role <;> rfl

/-- A text added at the end of the run. -/
theorem Settling.push (text : Str) {s : Loop κ} (hs : Settling a ids s) :
    Closing a ids { s with session := s.session ++ [Message.assistant text] } :=
  ⟨hs.saves, fun hu => (hs.settled hu).recorded.append
    (settled_singleton (text_calls _ _)).recorded⟩

theorem completeSilently_records (iteration : Nat) (directives : DirectiveSet) :
    Triple (Settling a ids) (completeSilently a iteration directives) (fun _ => Settling a ids)
      (fun _ s => SavesRecorded a ids s.log) := by
  refine triple_bind (M := fun _ => Closing a ids) (triple_update fun s hs => hs.push _) fun _ => ?_
  refine triple_bind (closing_exit saveOrFail_closing) fun _ => ?_
  refine triple_bind (closing_exit (preserves_read _)) fun _ => ?_
  exact triple_throw fun s hs => hs.saves

theorem finish_records (iteration : Nat) (responseText memoryText : Str) :
    Triple (Settling a ids) (finish a iteration responseText memoryText) (fun _ => Settling a ids)
      (fun _ s => SavesRecorded a ids s.log) := by
  refine triple_bind (M := fun _ s => SavesRecorded a ids s.log ∧ (Undamaged a s.log →
    ∃ l, Settled ids l ∧ s.session = l ++ [Message.assistant memoryText]))
    (triple_update fun s hs => ⟨hs.saves, fun hu => ⟨s.session, hs.settled hu, rfl⟩⟩) fun _ => ?_
  refine triple_bind (M := fun _ => Closing a ids) (triple_update fun s hs => ⟨hs.1, fun hu => ?_⟩)
    fun _ => ?_
  · obtain ⟨l, hl, he⟩ := hs.2 hu
    show Recorded ids (pruneHeartbeatTurns s.session 10)
    rw [he]
    exact prune_recorded hl (text_calls _ _)
  refine triple_bind (closing_exit saveOrFail_closing) fun _ => ?_
  refine triple_bind (closing_triple fun _ => keeps_record (e := fun _ => .remembered _)
    (fun _ => rfl) (fun _ => rfl) fun _ => Bool.false_ne_true) fun _ => ?_
  refine triple_bind (closing_triple fun _ => notify_keeps a _ Bool.false_ne_true) fun _ => ?_
  refine triple_bind (closing_triple fun _ => fire_keeps a _ _ Bool.false_ne_true) fun _ => ?_
  refine triple_bind (closing_exit (preserves_read _)) fun _ => ?_
  exact triple_throw fun s hs => hs.saves

theorem endTurn_records (iteration : Nat) (response : CompletionResponse) :
    Triple (Settling a ids) (endTurn a iteration response) (fun _ => Settling a ids)
      (fun _ s => SavesRecorded a ids s.log) := by
  unfold endTurn
  dsimp only
  split
  · exact completeSilently_records _ _
  split
  · exact settling_triple fun _ => preserves_bind (keeps_set (fun _ => rfl) fun _ => rfl) fun _ =>
      keeps_set (fun _ => rfl) fun _ => rfl
  split
  · exact finish_records _ _ _
  · exact finish_records _ _ _

theorem returnPartial_records (iteration : Nat) (response : CompletionResponse) :
    Triple (fun s => SavesRecorded a ids s.log ∧ (Undamaged a s.log → Settled ids s.session))
      (returnPartial a iteration response) (fun _ => Settling a ids)
      (fun _ s => SavesRecorded a ids s.log) := by
  refine triple_bind (M := fun _ => Closing a ids) (triple_update fun s hs => ⟨hs.1, fun hu =>
    (hs.2 hu).recorded.append (settled_singleton (text_calls _ _)).recorded⟩) fun _ => ?_
  refine triple_bind (closing_exit saveSession_closing) fun _ => ?_
  refine triple_bind (closing_triple fun _ => fire_keeps a _ _ Bool.false_ne_true) fun _ => ?_
  refine triple_bind (closing_exit (preserves_read _)) fun _ => ?_
  exact triple_throw fun s hs => hs.saves

/-- The request to go on answers no call, whatever stands in front of it. -/
theorem not_awaiting {l : List Message} {x y : Message} (hx : x.calls = []) :
    ¬ Awaiting (l ++ [x, y]) := by
  rintro ⟨pre, m, next, he, hm⟩
  obtain ⟨-, hlast⟩ := List.append_inj' he rfl
  obtain ⟨rfl, -⟩ := List.cons.inj hlast
  exact hm hx

theorem reachMaxTokens_records (iteration : Nat) (response : CompletionResponse)
    (hstop : response.stopReason = .maxTokens) :
    Triple (Heard a ids response) (reachMaxTokens a iteration response) (fun _ => Settling a ids)
      (fun _ s => SavesRecorded a ids s.log) := by
  refine triple_bind (M := fun _ => Heard a ids response) (triple_update fun s hs =>
    ⟨hs.saves, hs.settled, hs.endsUser, hs.stopped, hs.speaks, hs.named⟩) fun _ => ?_
  refine triple_bind (M := fun _ => Heard a ids response) (triple_read fun _ hs => hs) fun n => ?_
  split
  · exact (returnPartial_records iteration response).weaken (fun s hs => ⟨hs.saves, hs.settled⟩)
      (fun _ _ hs => hs) (fun _ _ hs => hs)
  have huser : ∀ text, Settled ids [Message.user text] := fun text =>
    settled_singleton (text_calls _ _)
  unfold pushPartial
  split
  · refine ⟨fun s hs => ?_⟩
    obtain ⟨l, m, hl, hm⟩ := hs.endsUser
    refine ⟨hs.saves, fun hu => (hs.settled hu).append (huser continueText) ?_,
      ⟨s.session, _, rfl, rfl⟩, fun hw => ?_⟩
    · rintro - z ⟨⟩ hz
      cases hz
    · refine absurd hw ?_
      show ¬ Awaiting (s.session ++ [Message.user continueText])
      rw [hl, List.append_assoc]
      exact not_awaiting (calls_of_user hm)
  · refine ⟨fun s hs => ?_⟩
    let words := Message.assistant (sanitizeVisibleResponse response.text)
    have hsession : s.session ++ [words] ++ [Message.user continueText] =
        s.session ++ [words, Message.user continueText] := List.append_assoc _ _ _
    refine ⟨hs.saves, fun hu => ?_, ⟨s.session ++ [words], _, rfl, rfl⟩, fun hw => ?_⟩
    · show Settled ids (s.session ++ [words] ++ [Message.user continueText])
      rw [hsession]
      refine (hs.settled hu).append (settled_pair rfl fun id hid => ?_) ?_
      · rw [show words.calls = [] from text_calls _ _] at hid
        cases hid
      · rintro hw z ⟨⟩ -
        have := hs.speaks hu hw
        rwa [Speaks, hstop] at this
    · refine absurd hw ?_
      show ¬ Awaiting (s.session ++ [words] ++ [Message.user continueText])
      rw [hsession]
      exact not_awaiting (text_calls _ _)

variable [DecidableEq κ]

theorem toolUse_records (response : CompletionResponse) (hstop : response.stopReason = .toolUse) :
    Triple (Heard a ids response) (toolUse a response) (fun _ => Settling a ids)
      (fun _ s => SavesRecorded a ids s.log) := by
  refine triple_of_state fun s₀ hs₀ => ?_
  let asked : Message := ⟨.assistant, .blocks response.content⟩
  -- the state in which the batch starts
  let s₁ : Loop κ := { s₀ with
    consecutiveMaxTokens := 0
    toolResultBlocks := []
    session := s₀.session ++ [asked]
    messages := s₀.messages ++ [asked] }
  have hsaves : ∀ {s : Loop κ}, Keeps (fun c => (c.session, c.messages)) (fun e => e.isMark = true)
      s₁ s → SavesRecorded a ids s.log := by
    rintro s ⟨-, events, hlog, hquiet⟩
    rw [hlog]
    exact hs₀.saves.quiet hquiet
  have hbatch : Triple (Answered (fun e => e.isMark = true) s₁ [])
      (response.toolCalls.forM (handleCall a))
      (fun _ => Answered (fun e => e.isMark = true) s₁ (response.toolCalls.map ToolCall.id))
      (fun _ s => SavesRecorded a ids s.log) := by
    refine batch_answers a ?_ (fun _ _ _ hs => hsaves hs.keeps) ?_ _
    · intro e he
      cases e <;> first | exact Bool.false_ne_true | cases he
    · -- the breaker saves the calls without their results
      intro _ call text
      have hclosing : Triple (Closing a ids) (breakCircuit a text) (fun _ _ => False)
          (fun _ s => SavesRecorded a ids s.log) := by
        refine triple_bind (closing_exit saveSession_closing) fun _ => ?_
        refine triple_bind (closing_triple fun _ => fire_keeps a _ _ Bool.false_ne_true) fun _ => ?_
        exact triple_throw fun _ hs => hs.saves
      refine hclosing.weaken (fun s hs => ⟨hsaves hs.1.keeps, fun hu => ?_⟩) (fun _ _ h => h)
        (fun _ _ h => h)
      exact absurd hs.2 (hu.2 call text)
  have hrest : Triple (Answered (fun e => e.isMark = true) s₁ (response.toolCalls.map ToolCall.id))
      (do
        let blocks ← read Loop.toolResultBlocks
        pushSession ⟨.user, .blocks blocks⟩
        pushMessages ⟨.user, .blocks blocks⟩
        let _ ← saveSession a : Prog κ Unit)
      (fun _ => Settling a ids) (fun _ s => SavesRecorded a ids s.log) := by
    refine triple_bind (M := fun blocks s => Answered (fun e => e.isMark = true) s₁
      (response.toolCalls.map ToolCall.id) s ∧ s.toolResultBlocks = blocks)
      (triple_read fun s hs => ⟨hs, rfl⟩) fun blocks => ?_
    refine triple_bind (M := fun _ => Settling a ids) (triple_update ?_) fun _ => ?_
    · rintro s ⟨hs, rfl⟩
      obtain ⟨hview, events, hlog, hquiet⟩ := hs.keeps
      have hsession : s.session = s₀.session ++ [asked] := (Prod.ext_iff.mp hview).1
      let answers : Message := ⟨.user, .blocks s.toolResultBlocks⟩
      have hboth : s.session ++ [answers] = s₀.session ++ [asked, answers] := by
        rw [hsession, List.append_assoc]
        rfl
      have hcalls : asked.calls = response.content.filterMap ContentBlock.toolUseId? := rfl
      have hu₀ : Undamaged a s.log → Undamaged a s₀.log := by
        intro hu
        rw [hlog] at hu
        exact hu.left
      have hsaved : SavesRecorded a ids s.log := hsaves hs.keeps
      refine ⟨hsaved, fun hu => ?_, ⟨s.session, answers, rfl, rfl⟩, fun _ => ?_⟩
      · show Settled ids (s.session ++ [answers])
        rw [hboth]
        refine (hs₀.settled (hu₀ hu)).append (settled_pair rfl fun id hid => ?_) ?_
        · rw [hcalls] at hid
          show id ∈ s.toolResultBlocks.filterMap ContentBlock.resultId?
          rw [hs.results]
          exact hs₀.named (hu₀ hu) hstop hid
        · rintro hw z ⟨⟩ -
          have := hs₀.speaks (hu₀ hu) hw
          rwa [Speaks, hstop] at this
      · show lastStop s.log ≠ _
        rw [hlog, lastStop_quiet hquiet]
        show lastStop s₀.log ≠ _
        rw [hs₀.stopped, hstop]
        decide
    · refine triple_bind (settling_triple fun _ => keeps_set (fun _ => rfl) fun _ => rfl) fun _ => ?_
      refine triple_bind (saveSession_settling.weaken (fun _ hs => hs) (fun _ _ hs => hs)
        (fun _ _ hs => hs.saves)) fun _ => ?_
      exact triple_pure fun _ hs => hs
  refine ⟨fun s hs => ?_⟩
  subst hs
  exact (triple_bind hbatch fun _ => hrest).run s₁ ⟨keeps_refl s₁, rfl, rfl⟩

theorem actOn_records (iteration : Nat) (response : CompletionResponse) :
    Triple (Heard a ids response) (actOn a iteration response) (fun _ => Settling a ids)
      (fun _ s => SavesRecorded a ids s.log) := by
  have hend : response.stopReason ≠ .maxTokens → Triple (Heard a ids response)
      (endTurn a iteration response) (fun _ => Settling a ids)
      (fun _ s => SavesRecorded a ids s.log) := by
    intro hstop
    refine (endTurn_records iteration response).weaken (fun s hs => ⟨hs.saves, hs.settled,
      hs.endsUser, fun _ => ?_⟩) (fun _ _ hs => hs) (fun _ _ hs => hs)
    rw [hs.stopped]
    exact fun h => hstop (Option.some.inj h)
  unfold actOn
  cases hstop : response.stopReason with
  | endTurn => exact hend (by rw [hstop]; decide)
  | stopSequence => exact hend (by rw [hstop]; decide)
  | toolUse =>
    show Triple _ (toolUse a response) _ _
    exact toolUse_records response hstop
  | maxTokens =>
    show Triple _ (reachMaxTokens a iteration response) _ _
    exact reachMaxTokens_records iteration response hstop

theorem iterate_records (iteration : Nat) :
    Triple (Settling a ids) (iterate a iteration) (fun _ => Settling a ids)
      (fun _ s => SavesRecorded a ids s.log) := by
  refine triple_bind (settling_triple fun _ => fitContext_keeps a fun _ _ => rfl) fun _ => ?_
  refine triple_bind (settling_triple fun _ => guardContext_keeps a fun _ _ => rfl) fun _ => ?_
  refine triple_bind (M := fun _ => Settling a ids) (triple_read fun _ hs => hs) fun messages => ?_
  refine triple_bind (settling_triple fun _ => notify_keeps a _ Bool.false_ne_true) fun _ => ?_
  refine triple_bind (settling_triple fun _ => callWithRetry_preserves a _
    (complete_keeps a _ Bool.false_ne_true) _) fun raw => ?_
  refine triple_bind (settling_triple fun _ => addUsage_keeps _) fun _ => ?_
  refine triple_bind (settling_triple fun _ => promoteTextCalls_keeps a raw) fun response => ?_
  refine triple_bind (triple_update fun s hs => ?_) fun _ => actOn_records iteration response
  have hlast : Undamaged a (s.log ++ [.response response]) →
      Recordable a s.log (.response response) := fun hu => (always_concat.mp hu.1).2
  refine ⟨?_, fun hu => hs.settled hu.left, hs.endsUser, lastStop_response response,
    fun hu hw => (hlast hu).2.2 (hs.awaits hw), fun hu => (hlast hu).1⟩
  refine always_concat.mpr ⟨hs.saves, ?_⟩
  rintro session ⟨⟩

end Steps

section Run

variable [DecidableEq κ]

theorem runAgentLoop_saves {session : List Message}
    (hsession : Settled ids (session ++ [Message.user a.userMessage])) :
    SavesRecorded a ids (runAgentLoop a session).2.log := by
  have hfire : ∀ s₀, Preserves (Steady s₀) (fire a .beforePromptBuild (.object [
      ("system_prompt".toList, .string a.manifest.model.systemPrompt),
      ("user_message".toList, .string a.userMessage)])) :=
    fun _ => fire_keeps a _ _ Bool.false_ne_true
  have hrun : Triple (fun s => s = Loop.start a session) (agentLoop a)
      (fun _ s => SavesRecorded a ids s.log) (fun _ s => SavesRecorded a ids s.log) := by
    refine triple_bind (M := fun _ => Steady (Loop.start a session)) ?_ fun _ => ?_
    · refine (hfire (Loop.start a session)).weaken ?_ (fun _ _ hk => hk) ?_
      · rintro s rfl
        exact keeps_refl _
      · rintro - s ⟨-, events, hlog, hquiet⟩
        rw [hlog]
        exact (show SavesRecorded a ids [] from always_nil).quiet hquiet
    refine triple_bind (M := fun _ => Settling a ids) (triple_update ?_) fun _ => ?_
    · rintro s ⟨hview, events, hlog, hquiet⟩
      have hview : s.session = session := hview
      have hlog : s.log = [] ++ events := hlog
      refine ⟨?_, fun _ => ?_, ⟨s.session, _, rfl, rfl⟩, fun _ => ?_⟩
      · rw [hlog]
        exact SavesRecorded.quiet always_nil hquiet
      · rw [hview]
        exact hsession
      · rw [hlog, lastStop_quiet hquiet]
        decide
    refine triple_bind (settling_triple fun _ => setMessages_keeps (fun _ _ => rfl) _) fun _ => ?_
    refine triple_bind (triple_forM (I := fun _ => Settling a ids) fun _ i _ => iterate_records i)
      fun _ => ?_
    refine Triple.weaken (show Triple (Closing a ids) _ _ _ from ?_) (fun _ hs => hs.closing)
      (fun _ _ hs => hs) (fun _ _ hs => hs)
    refine triple_bind (closing_exit saveSession_closing) fun _ => ?_
    refine triple_bind (closing_triple fun _ => fire_keeps a _ _ Bool.false_ne_true) fun _ => ?_
    exact triple_pure fun _ hs => hs.saves
  exact outcome_triple hrun rfl

def executedIds (log : List Event) : List Str := (executedCalls log).map (fun p => p.1.id)

omit [DecidableEq κ] in
theorem asked_within {log : List Event} (h : Always (Recordable a) log) :
    (askedCalls log).length ≤ (loopGuardConfig a).globalCircuitBreaker.toNat := by
  induction log using List.reverseRecOn with
  | nil => exact Nat.zero_le _
  | append_singleton log e ih =>
    obtain ⟨hlog, he⟩ := always_concat.mp h
    rw [askedCalls_append, List.length_append]
    cases e with
    | response response =>
      rw [askedCalls_response]
      exact he.2.1
    | _ => exact ih hlog

/-- The breaker stays closed within its limit. -/
theorem guardOf_unbroken {H : Hashing κ} {config : LoopGuardConfig} {calls : List ToolCall}
    {call : ToolCall} (h : calls.length + 1 ≤ config.globalCircuitBreaker.toNat) (text : Str) :
    ((guardOf H config calls).check H call.name call.input).2 ≠ .circuitBreak text := by
  have hlimit := config.globalCircuitBreaker.toNat_lt
  obtain ⟨answers, hlength, hb⟩ := guardOf_bounded H config calls (by omega)
  have ht := LoopGuard.check_turn H (guardOf H config calls) call.name call.input
  intro hv
  rw [hv] at ht
  cases ht with
  | circuit _ hbreak =>
    rw [UInt32.lt_iff_toNat_lt, LoopGuard.toNat_succ (by rw [hb.total]; omega), hb.total,
      hb.config_eq] at hbreak
    omega
  | low _ _ _ _ _ _ _ hverdict =>
    obtain h | ⟨_, h⟩ | ⟨_, h, -⟩ := hverdict <;> cases h

theorem undamaged_of_disciplined {log : List Event} (hd : Always (Disciplined a) log)
    (hr : Always (Recordable a) log) : Undamaged a log := by
  refine ⟨hr, fun call text hmem => ?_⟩
  obtain ⟨before, after, rfl⟩ := List.append_of_mem hmem
  obtain ⟨hnext, -, hverdict⟩ := hd before _ after rfl
  refine guardOf_unbroken ?_ text hverdict.symm
  have hlength := hnext.length_le
  rw [List.length_append, List.length_singleton] at hlength
  exact hlength.trans (asked_within a hr.left)

omit [DecidableEq κ] in
theorem askedCalls_mono {before after : List Event} :
    askedCalls before ⊆ askedCalls (before ++ after) := by
  rw [askedCalls_append]
  exact List.subset_append_left _ _

/-- Only calls that a response asked for are executed. -/
theorem executedIds_asked {log : List Event} (hd : Always (Disciplined a) log) :
    executedIds log ⊆ (askedCalls log).map ToolCall.id := by
  intro id hid
  obtain ⟨⟨call, result⟩, hmem, rfl⟩ := List.mem_map.mp hid
  obtain ⟨e, he, hcall⟩ := List.mem_filterMap.mp hmem
  cases e with
  | executed call' result' =>
    obtain ⟨rfl, rfl⟩ := Prod.mk.inj (Option.some.inj hcall)
    obtain ⟨past, rest, rfl⟩ := List.append_of_mem he
    obtain ⟨before, verdict, between, rfl, -⟩ := hd past _ rest rfl
    rw [List.append_assoc, List.cons_append] at hd ⊢
    obtain ⟨hnext, -⟩ := hd before _ _ rfl
    have hasked := hnext.subset (List.mem_append_right _ (List.mem_singleton_self call'))
    exact List.mem_map_of_mem (askedCalls_mono hasked)
  | _ => cases hcall

/-- A session that is saved holds the results of the calls that were executed, in
earlier runs and in this one, as long as the responses leave a complete record. -/
theorem runAgentLoop_records (session : List Message) (earlier : List Str)
    (hsession : Settled (earlier ++ (askedCalls (runAgentLoop a session).2.log).map ToolCall.id)
      (session ++ [Message.user a.userMessage])) :
    ∀ past saved rest, (runAgentLoop a session).2.log = past ++ .saved saved :: rest →
      Always (Recordable a) past → Recorded (earlier ++ executedIds past) saved := by
  intro past saved rest hlog hr
  have hd := runAgentLoop_disciplined a session
  have hsaves := runAgentLoop_saves a _ hsession past _ rest hlog saved rfl
  rw [hlog] at hd
  refine (hsaves (undamaged_of_disciplined a hd.left hr)).mono ?_
  refine List.append_subset.mpr ⟨List.subset_append_left _ _, fun id hid => ?_⟩
  refine List.mem_append_right _ ?_
  have hasked := executedIds_asked a hd.left hid
  rw [hlog]
  exact List.map_subset _ askedCalls_mono hasked

theorem runAgentLoop_records_call :
    let a := scripted none [callResponse ⟨['2'], ['t'], .null⟩] (fun _ => ['r'])
    let session := [Message.user ['u'], ⟨.assistant, .blocks [.toolUse ['1'] ['t'] .null]⟩,
      ⟨.user, .blocks [.toolResult ['1'] ['r'] false]⟩]
    ∀ past saved rest, (runAgentLoop a session).2.log = past ++ .saved saved :: rest →
      Always (Recordable a) past → Recorded ([['1']] ++ executedIds past) saved := by
  refine runAgentLoop_records _ _ [['1']] ?_
  generalize [['1']] ++ List.map ToolCall.id _ = ids
  have hturn : Settled ids ([Message.user ['u']] ++ [⟨.assistant, .blocks [.toolUse ['1'] ['t'] .null]⟩,
      ⟨.user, .blocks [.toolResult ['1'] ['r'] false]⟩]) :=
    (settled_singleton rfl).append (settled_pair rfl fun _ hid => hid)
      (by rintro - z ⟨⟩ -; rfl)
  exact hturn.append (settled_singleton rfl) (by rintro - z ⟨⟩ ⟨⟩)

/-- The breaker leaves the calls of its batch without the results they had. -/
theorem runAgentLoop_records_broken :
    ¬ ∀ (a : Args (Str × Value)) (session saved : List Message),
      (savedSessions (runAgentLoop a session).2.log).getLast? = some saved →
      Recorded (executedIds (runAgentLoop a session).2.log) saved := by
  intro h
  let calls : List ToolCall := (List.range 31).map fun n => ⟨showNat n, ['t'], .null⟩
  let a := scripted (some ⟨10⟩) [⟨calls.map toolUseBlock, .toolUse, calls, ⟨0, 0⟩⟩] (fun _ => ['r'])
  let asked : Message := ⟨.assistant, .blocks (calls.map toolUseBlock)⟩
  have hsaved : (savedSessions (runAgentLoop a []).2.log).getLast? =
      some ([Message.user "hi".toList] ++ [asked]) := by
    decide +kernel
  obtain ⟨next, rest, hpost, -⟩ := h a [] _ hsaved _ asked [] rfl (by decide +kernel)
  cases hpost

end Run

end Clawreform.Runtime
