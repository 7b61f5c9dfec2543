import Clawreform.Lib.Trace
import Clawreform.Runtime.AgentLoopFrame
import Clawreform.Runtime.AgentLoopStreaming
import Clawreform.Runtime.MessageShape

namespace Clawreform.Runtime

open Clawreform.Lib Clawreform.Lib.Text Clawreform.Lib.Program Clawreform.Lib.Trace
open Clawreform.Lib.Json (Value)
open Clawreform.Types

variable {κ : Type} (a : Args κ)

section Invariant

/-- What a provider demands of the messages of a request: the roles alternate,
the first message answers no tool use, and every tool use is answered once by
the next message. -/
structure Acceptable (messages : List Message) : Prop where
  alternates : messages.IsChain (fun x y => x.role ≠ y.role)
  unorphaned : ∀ m ∈ messages.head?, m.toolResults = []
  answered : ∀ pre m post, messages = pre ++ m :: post → ∀ id ∈ m.toolUses,
    ∃ next rest, post = next :: rest ∧ next.toolResults.count id = 1

/-- A response the loop can go on from: the tool uses it asks for are calls of
its own, each made once, it brings no results, and what it says before its token
limit is not blank. -/
structure Continuable (r : CompletionResponse) : Prop where
  calls : r.stopReason = .toolUse → ∀ id ∈ r.content.filterMap ContentBlock.toolUseId?,
    (r.toolCalls.map ToolCall.id).count id = 1
  noResults : r.stopReason = .toolUse → r.content.filterMap ContentBlock.resultId? = []
  visible : r.stopReason = .maxTokens → trim (sanitizeVisibleResponse r.text) ≠ []

def AllContinuable (log : List Event) : Prop := ∀ r, Event.response r ∈ log → Continuable r

/-- Every request of a log is acceptable, as long as every response before it is
one the loop can go on from. -/
def RequestsSound (log : List Event) : Prop :=
  Always (fun past e => ∀ request, e = .request request → AllContinuable past →
    Acceptable request.messages) log

structure Fit (s : Loop κ) : Prop where
  sound : RequestsSound s.log
  proper : AllContinuable s.log → Proper (s.messages.map shape)

def IsRequest (e : Event) : Prop := ∃ request, e = .request request

theorem proper_acceptable {messages : List Message} (h : Proper (messages.map shape)) :
    Acceptable messages := by
  have hchain := h.chain
  rw [List.isChain_map] at hchain
  refine ⟨hchain.imp fun _ _ hxy => hxy.1, ?_, ?_⟩
  · intro m hm
    refine h.head (shape m) ?_
    rw [List.head?_map, Option.mem_def.mp hm]
    rfl
  · intro pre m post he id hid
    cases post with
    | nil =>
      obtain ⟨before, x, hx, hrole⟩ := h.endsUser
      rw [he, List.map_append, List.map_singleton] at hx
      obtain ⟨-, hlast⟩ := List.append_inj' hx rfl
      obtain rfl : shape m = x := by simpa using hlast
      have huses := (h.seated (shape m) (by rw [he]; simp)).uses (by rw [hrole]; decide)
      rw [show m.toolUses = [] from huses] at hid
      cases hid
    | cons next rest =>
      rw [List.isChain_iff_forall_rel_of_append_cons_cons] at hchain
      exact ⟨next, rest, rfl, (hchain he).2 id hid⟩

theorem AllContinuable.left {log more : List Event} (h : AllContinuable (log ++ more)) :
    AllContinuable log :=
  fun r hr => h r (List.mem_append_left _ hr)

variable {δ : Type} {view : Core κ → δ} {s s' : Loop κ}

theorem sound_of_keeps (h : RequestsSound s.log) (hk : Keeps view IsRequest s s') :
    RequestsSound s'.log := by
  obtain ⟨-, events, hlog, hquiet⟩ := hk
  rw [hlog]
  refine Always.append h fun e he past request hr => ?_
  exact absurd ⟨request, hr⟩ (hquiet e he)

theorem Fit.of_keeps (h : Fit s) (hk : Keeps Core.messages IsRequest s s') : Fit s' := by
  refine ⟨sound_of_keeps h.sound hk, fun hc => ?_⟩
  obtain ⟨hview, events, hlog, -⟩ := hk
  rw [hlog] at hc
  rw [show s'.messages = s.messages from hview]
  exact h.proper hc.left

theorem fit_of_keeps {α : Type} {x : Prog κ α}
    (hx : ∀ s₀, Preserves (Keeps Core.messages IsRequest s₀) x) : Preserves Fit x :=
  preserves_of_keeps hx fun _ _ hs hk => hs.of_keeps hk

/-- A program that leaves the messages alone, in the form the loop is proved in. -/
theorem fit_triple {α : Type} {x : Prog κ α}
    (hx : ∀ s₀, Preserves (Keeps Core.messages IsRequest s₀) x) :
    Triple Fit x (fun _ => Fit) (fun _ s => RequestsSound s.log) :=
  (fit_of_keeps hx).weaken (fun _ hs => hs) (fun _ _ hs => hs) (fun _ _ hs => hs.sound)

end Invariant

section Steps

theorem quiet_batch (e : Event) (h : e.inBatch = true) : ¬ IsRequest e := by
  rintro ⟨request, rfl⟩
  cases h

theorem quiet_ending (e : Event) (h : e.inEnding = true) : ¬ IsRequest e := by
  rintro ⟨request, rfl⟩
  cases h

theorem fitContext_fit :
    Triple Fit (fitContext a) (fun _ => Fit) (fun _ s => RequestsSound s.log) := by
  refine triple_bind (M := fun messages s => Fit s ∧ s.messages = messages)
    (triple_read fun s hs => ⟨hs, rfl⟩) fun messages => ?_
  cases hr : recoverFromOverflow (systemPrompt a) a.availableTools (ctxWindow a) messages with
  | none => exact triple_throw fun s hs => hs.1.sound
  | some p =>
    refine triple_bind (M := fun _ => Fit) ?_ fun _ => triple_pure fun _ hs => hs
    refine triple_update fun s ⟨hs, hm⟩ => ⟨hs.sound, fun hc => ?_⟩
    rw [← hm] at hr
    exact recoverFromOverflow_proper (hs.proper hc) hr

theorem guardContext_fit :
    Triple Fit (guardContext a) (fun _ => Fit) (fun _ s => RequestsSound s.log) := by
  refine triple_bind (M := fun messages s => Fit s ∧ s.messages = messages)
    (triple_read fun s hs => ⟨hs, rfl⟩) fun messages => ?_
  cases hr : applyContextGuard messages (contextBudget a) with
  | none => exact triple_throw fun s hs => hs.1.sound
  | some p =>
    refine triple_update fun s ⟨hs, hm⟩ => ⟨hs.sound, fun hc => ?_⟩
    show Proper (p.1.map shape)
    rw [applyContextGuard_shape hr, ← hm]
    exact hs.proper hc

/-- The attempts of a call send the messages at hand. -/
theorem callWithRetry_fit (messages : List Message) :
    Triple (fun s => Fit s ∧ s.messages = messages)
      (callWithRetry a (requestOf a messages) maxRetries)
      (fun _ => Fit) (fun _ s => RequestsSound s.log) := by
  have hcomplete : Preserves (fun s => Fit s ∧ s.messages = messages)
      (complete a (requestOf a messages)) := by
    refine preserves_bind (preserves_read _) fun n => ?_
    refine preserves_bind (preserves_update ?_) fun _ => preserves_pure _
    rintro s ⟨hs, hm⟩
    refine ⟨⟨always_concat.mpr ⟨hs.sound, ?_⟩, fun hc => hs.proper hc.left⟩, hm⟩
    rintro request ⟨⟩ hc
    show Acceptable messages
    rw [← hm]
    exact proper_acceptable (hs.proper hc)
  exact (callWithRetry_preserves a _ hcomplete maxRetries).weaken (fun _ hs => hs)
    (fun _ _ hs => hs.1) (fun _ _ hs => hs.1.sound)

theorem pushMessages_fit {x y : Message} (hx : (shape x).Seated) (hy : (shape y).Seated)
    (hrole : x.role = .assistant) (hrole' : y.role = .user) {s s' : Loop κ} (hs : Fit s)
    (hanswers : AllContinuable s.log → ∀ id ∈ x.toolUses, y.toolResults.count id = 1)
    (hmessages : s'.messages = s.messages ++ [x, y]) (hlog : s'.log = s.log) : Fit s' := by
  refine ⟨by rw [hlog]; exact hs.sound, fun hc => ?_⟩
  rw [hlog] at hc
  rw [hmessages, List.map_append]
  exact (hs.proper hc).push hx hy hrole hrole' (hanswers hc)

theorem text_seated {role : Role} (h : role ≠ .system) (s : Str) :
    (shape ⟨role, .text s⟩).Seated := ⟨h, fun _ => rfl, fun _ => rfl⟩

theorem endTurn_fit (iteration : Nat) (response : CompletionResponse) :
    Triple Fit (endTurn a iteration response) (fun _ => Fit)
      (fun _ s => RequestsSound s.log) := by
  unfold endTurn
  dsimp only
  split
  · exact fit_triple fun _ => completeSilently_keeps a quiet_ending (fun _ _ => rfl) _ _
  split
  · refine ⟨fun s hs => ?_⟩
    exact pushMessages_fit (text_seated (by decide) _) (text_seated (by decide) _) rfl rfl hs
      (fun _ _ hid => absurd hid List.not_mem_nil) (List.append_assoc _ _ _) rfl
  split
  · exact fit_triple fun _ => finish_keeps a quiet_ending (fun _ _ => rfl) _ _ _
  · exact fit_triple fun _ => finish_keeps a quiet_ending (fun _ _ => rfl) _ _ _

/-- Words cut off by the token limit and the request to go on; without words the
request follows another user message. -/
theorem reachMaxTokens_fit (iteration : Nat) (response : CompletionResponse)
    (hstop : response.stopReason = .maxTokens) :
    Triple (fun s => Fit s ∧ Event.response response ∈ s.log)
      (reachMaxTokens a iteration response) (fun _ => Fit) (fun _ s => RequestsSound s.log) := by
  refine triple_bind (M := fun _ s => Fit s ∧ Event.response response ∈ s.log)
    (triple_update fun s hs => ⟨⟨hs.1.sound, hs.1.proper⟩, hs.2⟩) fun _ => ?_
  refine triple_bind (M := fun _ s => Fit s ∧ Event.response response ∈ s.log)
    (triple_read fun s hs => hs) fun n => ?_
  split
  · exact (fit_triple fun _ => returnPartial_keeps a quiet_ending (fun _ _ => rfl) _ _).weaken (fun _ hs => hs.1)
      (fun _ _ hs => hs) (fun _ _ hs => hs)
  · unfold pushPartial
    split <;> rename_i hblank
    · refine ⟨fun s hs => ⟨hs.1.sound, fun hc => ?_⟩⟩
      exact absurd hblank ((hc response hs.2).visible hstop)
    · refine ⟨fun s hs => ?_⟩
      exact pushMessages_fit (text_seated (by decide) _) (text_seated (by decide) _) rfl rfl hs.1
        (fun _ _ hid => absurd hid List.not_mem_nil) (List.append_assoc _ _ _) rfl

variable [DecidableEq κ]

/-- The calls of a response and, right behind them, their results. -/
theorem toolUse_fit (response : CompletionResponse) (hstop : response.stopReason = .toolUse) :
    Triple (fun s => Fit s ∧ Event.response response ∈ s.log) (toolUse a response)
      (fun _ => Fit) (fun _ s => RequestsSound s.log) := by
  refine triple_of_state fun s₀ hs₀ => ?_
  -- the state in which the batch starts
  let s₁ : Loop κ := { s₀ with
    consecutiveMaxTokens := 0
    toolResultBlocks := []
    session := s₀.session ++ [⟨.assistant, .blocks response.content⟩]
    messages := s₀.messages ++ [⟨.assistant, .blocks response.content⟩] }
  have hsound : ∀ s, Keeps (fun c => (c.session, c.messages)) IsRequest s₁ s →
      RequestsSound s.log := fun s hk => sound_of_keeps (show RequestsSound s₁.log from hs₀.1.sound) hk
  have hbatch : Triple (Answered IsRequest s₁ []) (response.toolCalls.forM (handleCall a))
      (fun _ => Answered IsRequest s₁ (response.toolCalls.map ToolCall.id))
      (fun _ s => RequestsSound s.log) := by
    refine batch_answers a quiet_batch (fun ids e s hs => hsound s hs.keeps) ?_ _
    intro ids call text
    exact (breakCircuit_keeps a quiet_ending text).weaken (fun _ hs => hs.1.keeps) (fun _ _ h => h)
      (fun _ s hk => hsound s hk)
  have hrest : Triple (Answered IsRequest s₁ (response.toolCalls.map ToolCall.id))
      (do
        let blocks ← read Loop.toolResultBlocks
        pushSession ⟨.user, .blocks blocks⟩
        pushMessages ⟨.user, .blocks blocks⟩
        let _ ← saveSession a : Prog κ Unit)
      (fun _ => Fit) (fun _ s => RequestsSound s.log) := by
    refine triple_bind (M := fun blocks s => Answered IsRequest s₁
      (response.toolCalls.map ToolCall.id) s ∧ s.toolResultBlocks = blocks)
      (triple_read fun s hs => ⟨hs, rfl⟩) fun blocks => ?_
    show Triple _ (update (fun s => { s with
      session := s.session ++ [⟨.user, .blocks blocks⟩]
      messages := s.messages ++ [⟨.user, .blocks blocks⟩] }) >>= fun _ =>
        saveSession a >>= fun _ => (pure () : Prog κ Unit)) _ _
    refine triple_bind (M := fun _ => Fit) (triple_update ?_) fun _ =>
      triple_bind (fit_triple fun _ => saveSession_keeps a fun _ => quiet_ending _ rfl) fun _ => triple_pure fun _ hs => hs
    rintro s ⟨hs, rfl⟩
    obtain ⟨hview, events, hlog, -⟩ := hs.keeps
    have hmessages : s.messages = s₀.messages ++ [⟨.assistant, .blocks response.content⟩] :=
      (Prod.ext_iff.mp hview).2
    refine ⟨hsound s hs.keeps, fun hc => ?_⟩
    have hall : AllContinuable (s₁.log ++ events) := by
      rw [← hlog]
      exact hc
    have hc₀ : AllContinuable s₀.log := hall.left
    have hgood := hc₀ response hs₀.2
    show Proper ((s.messages ++ [Message.mk .user (.blocks s.toolResultBlocks)]).map shape)
    rw [hmessages, List.append_assoc, List.map_append]
    show Proper (s₀.messages.map shape ++ [shape ⟨.assistant, .blocks response.content⟩,
      shape ⟨.user, .blocks s.toolResultBlocks⟩])
    refine (hs₀.1.proper hc₀).push
      ⟨fun h => (nomatch h), fun h => absurd rfl h, fun _ => hgood.noResults hstop⟩
      ⟨fun h => (nomatch h), fun _ => hs.uses, fun h => absurd rfl h⟩ rfl rfl fun id hid => ?_
    show (s.toolResultBlocks.filterMap ContentBlock.resultId?).count id = 1
    rw [hs.results]
    exact hgood.calls hstop id hid
  refine ⟨fun s hs => ?_⟩
  subst hs
  exact (triple_bind hbatch fun _ => hrest).run s₁ ⟨keeps_refl s₁, rfl, rfl⟩

theorem actOn_fit (iteration : Nat) (response : CompletionResponse) :
    Triple (fun s => Fit s ∧ Event.response response ∈ s.log) (actOn a iteration response)
      (fun _ => Fit) (fun _ s => RequestsSound s.log) := by
  have hend : Triple (fun s => Fit s ∧ Event.response response ∈ s.log)
      (endTurn a iteration response) (fun _ => Fit) (fun _ s => RequestsSound s.log) :=
    (endTurn_fit a iteration response).weaken (fun _ hs => hs.1) (fun _ _ hs => hs)
      (fun _ _ hs => hs)
  unfold actOn
  cases hstop : response.stopReason with
  | endTurn => exact hend
  | stopSequence => exact hend
  | toolUse =>
    show Triple _ (toolUse a response) _ _
    exact toolUse_fit a response hstop
  | maxTokens =>
    show Triple _ (reachMaxTokens a iteration response) _ _
    exact reachMaxTokens_fit a iteration response hstop

theorem iterate_fit (iteration : Nat) :
    Triple Fit (iterate a iteration) (fun _ => Fit) (fun _ s => RequestsSound s.log) := by
  refine triple_bind (fitContext_fit a) fun _ => ?_
  refine triple_bind (guardContext_fit a) fun _ => ?_
  refine triple_bind (M := fun messages s => Fit s ∧ s.messages = messages)
    (triple_read fun s hs => ⟨hs, rfl⟩) fun messages => ?_
  refine triple_bind (M := fun _ s => Fit s ∧ s.messages = messages) ?_ fun _ => ?_
  · have hquiet : ∀ s₀, Preserves (Keeps Core.messages IsRequest s₀) (notify a .thinking) :=
      fun _ => notify_keeps a _ (quiet_batch _ rfl)
    have hnotify : Preserves (fun s => Fit s ∧ s.messages = messages) (notify a .thinking) :=
      preserves_of_keeps hquiet fun s s' hs hk => ⟨hs.1.of_keeps hk, hk.1.trans hs.2⟩
    exact hnotify.weaken (fun _ hs => hs) (fun _ _ hs => hs) (fun _ _ hs => hs.1.sound)
  refine triple_bind (callWithRetry_fit a messages) fun raw => ?_
  refine triple_bind (fit_triple fun _ => addUsage_keeps _) fun _ => ?_
  refine triple_bind (fit_triple fun _ => promoteTextCalls_keeps a raw) fun response => ?_
  refine triple_bind (M := fun _ s => Fit s ∧ Event.response response ∈ s.log) ?_
    fun _ => actOn_fit a iteration response
  refine triple_update fun s hs => ⟨hs.of_keeps ⟨rfl, [.response response], rfl, ?_⟩, ?_⟩
  · intro e he
    rw [List.mem_singleton.mp he]
    exact fun ⟨_, h⟩ => nomatch h
  · exact List.mem_append_right _ (List.mem_singleton_self _)

end Steps

section Run

variable [DecidableEq κ]

/-- The opening messages of a session whose tool uses and results stand where
they belong. -/
theorem openingMessages_proper {session : List Message} {userMessage : Str}
    (hmessage : userMessage ≠ [])
    (hseated : ∀ m ∈ session, m.role ≠ .system → SessionRepair.Seated m)
    (hdistinct : (SessionRepair.toolUseIds
      (session.filter (fun m => m.role ≠ .system))).Nodup) :
    Proper ((openingMessages (session ++ [Message.user userMessage])).map shape) := by
  have hfilter : (session ++ [Message.user userMessage]).filter (fun m => m.role ≠ .system) =
      session.filter (fun m => m.role ≠ .system) ++ [Message.user userMessage] := by
    rw [List.filter_append]
    rfl
  have hspoken : ∀ m ∈ session.filter (fun m => m.role ≠ .system), m.role ≠ .system := by
    intro m hm
    simpa using (List.mem_filter.mp hm).2
  unfold openingMessages
  rw [hfilter]
  have hends := SessionRepair.validateAndRepair_ends hmessage hspoken
  have hproper := repair_proper (l := session.filter (fun m => m.role ≠ .system) ++
    [Message.user userMessage]) ?_ ?_ hends.1 hends.2
  · have hkept := hproper.keepLast (n := maxHistoryMessages) rfl (by decide)
    rwa [List.length_map, ← List.map_drop] at hkept
  · intro m hm
    rcases List.mem_append.mp hm with hm | hm
    · exact hseated m (List.mem_of_mem_filter hm) (hspoken m hm)
    · rw [List.mem_singleton.mp hm]
      exact ⟨fun _ => rfl, fun _ => rfl⟩
  · rw [SessionRepair.toolUseIds_append]
    simpa [SessionRepair.toolUseIds, Message.user, Message.toolUses, MessageContent.blockList]
      using hdistinct

theorem runAgentLoop_sound {session : List Message}
    (hopening : Proper ((openingMessages (session ++ [Message.user a.userMessage])).map shape)) :
    RequestsSound (runAgentLoop a session).2.log := by
  have hfire : Triple (fun s => s = Loop.start a session)
      (fire a .beforePromptBuild (.object [
        ("system_prompt".toList, .string a.manifest.model.systemPrompt),
        ("user_message".toList, .string a.userMessage)]))
      (fun _ s => s.session = session ∧ RequestsSound s.log)
      (fun _ s => RequestsSound s.log) := by
    have hkeeps : Preserves (Keeps Core.session IsRequest (Loop.start a session))
        (fire a .beforePromptBuild (.object [
          ("system_prompt".toList, .string a.manifest.model.systemPrompt),
          ("user_message".toList, .string a.userMessage)])) :=
      fire_keeps a _ _ (quiet_batch _ rfl)
    refine hkeeps.weaken ?_ ?_ ?_
    · rintro s rfl
      exact keeps_refl _
    · exact fun _ s hk => ⟨hk.1, sound_of_keeps (s := Loop.start a session) always_nil hk⟩
    · exact fun _ s hk => sound_of_keeps (s := Loop.start a session) always_nil hk
  have hrun : Triple (fun s => s = Loop.start a session) (agentLoop a)
      (fun _ s => RequestsSound s.log) (fun _ s => RequestsSound s.log) := by
    refine triple_bind hfire fun _ => ?_
    refine triple_bind (M := fun _ s => s.session = session ++ [Message.user a.userMessage] ∧
      RequestsSound s.log) (triple_update fun s hs => ⟨?_, hs.2⟩) fun _ => ?_
    · show s.session ++ [Message.user a.userMessage] = _
      rw [hs.1]
    refine triple_bind (M := fun _ => Fit) (triple_update fun s hs => ⟨hs.2, fun _ => ?_⟩) fun _ => ?_
    · show Proper ((openingMessages s.session).map shape)
      rw [hs.1]
      exact hopening
    refine triple_bind (triple_forM (I := fun _ => Fit) fun _ i _ => iterate_fit a i) fun _ => ?_
    exact (fit_of_keeps fun _ => exceedIterations_keeps a quiet_ending).weaken (fun _ hs => hs)
      (fun _ _ hs => hs.sound) (fun _ _ hs => hs.sound)
  exact outcome_triple hrun rfl

/-- Every request of both loops is acceptable, for a session whose tool uses and
results stand where they belong, as long as every response before it is one the
loop can go on from. -/
theorem runAgentLoop_requests_acceptable (session : List Message) (hmessage : a.userMessage ≠ [])
    (hseated : ∀ m ∈ session, m.role ≠ .system → SessionRepair.Seated m)
    (hdistinct : (SessionRepair.toolUseIds
      (session.filter (fun m => m.role ≠ .system))).Nodup) :
    ∀ log ∈ [(runAgentLoop a session).2.log, (runAgentLoopStreaming a session).2.log],
      ∀ past request rest, log = past ++ .request request :: rest →
        (∀ r, Event.response r ∈ past → Continuable r) → Acceptable request.messages := by
  have hsound := runAgentLoop_sound a (openingMessages_proper hmessage hseated hdistinct)
  have hstreaming : RequestsSound (runAgentLoopStreaming a session).2.log := by
    refine (always_streaming a ?_ ?_ session).mpr hsound
    · rintro past e he request rfl
      cases he
    · intro past e
      have hpast : AllContinuable (past.filter Event.isShown) ↔ AllContinuable past :=
        forall_congr' fun r => by simp [Event.isShown]
      rw [hpast]
  intro log hlog past request rest he hc
  have hlog : RequestsSound log := by
    rcases List.mem_pair.mp hlog with rfl | rfl
    · exact hsound
    · exact hstreaming
  exact hlog past (.request request) rest he request rfl hc

theorem runAgentLoop_requests_acceptable_recalled :
    let a := scripted none [callResponse ⟨['2'], ['t'], .null⟩] (fun _ => ['r'])
    let session := [Message.user ['u'], ⟨.assistant, .blocks [.toolUse ['1'] ['t'] .null]⟩]
    ∀ log ∈ [(runAgentLoop a session).2.log, (runAgentLoopStreaming a session).2.log],
      ∀ past request rest, log = past ++ .request request :: rest →
        (∀ r, Event.response r ∈ past → Continuable r) → Acceptable request.messages :=
  runAgentLoop_requests_acceptable _ _ (by decide)
    (fun m hm _ => by
      rcases List.mem_pair.mp hm with rfl | rfl
      · exact ⟨fun _ => rfl, fun _ => rfl⟩
      · exact ⟨fun h => absurd rfl h, fun _ => rfl⟩)
    (by decide)

/-- A response that stops at its token limit without a word is followed by a
second user message. -/
theorem runAgentLoop_requests_unacceptable :
    ¬ ∀ (a : Args (Str × Value)) (session : List Message),
      ∀ request ∈ requests (runAgentLoop a session).2.log, Acceptable request.messages := by
  intro h
  let a := scripted none [⟨[], .maxTokens, [], ⟨0, 0⟩⟩] (fun _ => [])
  have hrequest : ∃ request ∈ requests (runAgentLoop a []).2.log,
      request.messages = [Message.user "hi".toList, Message.user continueText] := by
    decide
  obtain ⟨request, hmem, hmessages⟩ := hrequest
  have halternates := (h a [] request hmem).alternates
  rw [hmessages] at halternates
  exact absurd rfl (List.isChain_pair.mp halternates)

end Run

end Clawreform.Runtime
