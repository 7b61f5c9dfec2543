import Clawreform.Runtime.AgentLoopSession
import Clawreform.Runtime.AgentLoopStreaming
import Clawreform.Runtime.Exchanges
import Mathlib.Data.List.Chain

namespace Clawreform.Runtime.TurnSaves

open Clawreform.Lib Clawreform.Lib.Text Clawreform.Lib.Program
open Clawreform.Types
open Clawreform.Runtime.SessionRepair Clawreform.Runtime.Exchanges

variable {κ : Type}

section Turns

/-- What the loop adds to the session for the response is a mute message. -/
def Mutes (response : CompletionResponse) : Bool :=
  match response.stopReason with
  | .toolUse => isMute ⟨.assistant, .blocks response.content⟩
  | .maxTokens => isNoReplyText (sanitizeVisibleResponse response.text)
  | _ =>
    let parsed := parseDirectives response.text
    parsed.2.silent || isNoReplyText (sanitizeVisibleResponse parsed.1)

/-- The assistant never says that there is no reply. -/
def Voiced (log : List Event) : Prop :=
  ∀ response, .response response ∈ log → Mutes response = false

def Event.isVoiced : Event → Bool
  | .response response => !Mutes response
  | _ => true

instance (log : List Event) : Decidable (Voiced log) :=
  decidable_of_iff (∀ e ∈ log, Event.isVoiced e = true) <| by
    refine ⟨fun h response hmem => by simpa [Event.isVoiced] using h _ hmem, fun h e he => ?_⟩
    cases e with
    | response response => simpa [Event.isVoiced] using h response he
    | _ => rfl

/-- A session that is saved, and the next one. -/
def Grows (l l' : List Message) : Prop :=
  ∃ l'', l <+: l'' ∧ (l' = l'' ∨ l' = pruneHeartbeatTurns l'' 10)

variable (a : Args κ) (base : List Message)

/-- What the turn has saved: each session goes on from the one before it. -/
structure Saved (s : Loop κ) : Prop where
  grows : (base :: savedSessions s.log).IsChain Grows
  last : Grows ((base :: savedSessions s.log).getLast (List.cons_ne_nil _ _)) s.session

/-- A turn that has said `mid` so far. -/
structure Underway (s : Loop κ) : Prop where
  session : ∃ mid, s.session = base ++ Message.user a.userMessage :: mid ∧
    (Voiced s.log → ∀ m ∈ mid, isMute m = false)
  grows : (base :: savedSessions s.log).IsChain Grows
  last : (base :: savedSessions s.log).getLast (List.cons_ne_nil _ _) <+: s.session

/-- The session ends with the answer. -/
def Answers (text : Str) (s : Loop κ) : Prop :=
  Voiced s.log → ∃ mid,
    let said := base ++ Message.user a.userMessage :: (mid ++ [Message.assistant text])
    (s.session = said ∨ s.session = pruneHeartbeatTurns said 10) ∧
      (∀ m ∈ mid ++ [Message.assistant text], isMute m = false) ∧ isBlankText text = false

/-- How a turn ends. -/
structure Over (exit : Exit) (s : Loop κ) : Prop where
  grows : (base :: savedSessions s.log).IsChain Grows
  answers : ∀ r, exit = .returned r → Answers a base (sanitizeVisibleResponse r.response) s

end Turns

section Failures

variable (a : Args κ)

/-- Where the program leaves the loop, it leaves it without a result. -/
def Unreturned {α : Type} (x : Prog κ α) : Prop :=
  Triple (fun _ => True) x (fun _ _ => True) fun e _ => ∀ r, e ≠ .returned r

theorem unreturned_pure {α : Type} (b : α) : Unreturned (pure b : Prog κ α) :=
  triple_pure fun _ _ => trivial

theorem unreturned_read {α : Type} (f : Loop κ → α) : Unreturned (read f : Prog κ α) :=
  triple_read fun _ _ => trivial

theorem unreturned_update (f : Loop κ → Loop κ) : Unreturned (update f : Prog κ Unit) :=
  triple_update fun _ _ => trivial

theorem unreturned_throw {α : Type} {e : Exit} (h : ∀ r, e ≠ .returned r) :
    Unreturned (throw e : Prog κ α) :=
  triple_throw fun _ _ => h

theorem unreturned_bind {α β : Type} {x : Prog κ α} {f : α → Prog κ β} (hx : Unreturned x)
    (hf : ∀ b, Unreturned (f b)) : Unreturned (x >>= f) :=
  triple_bind hx hf

theorem unreturned_notify (phase : LoopPhase) : Unreturned (notify a phase) := by
  unfold notify
  split
  · exact unreturned_update _
  · exact unreturned_pure _

theorem unreturned_fire (event : HookEvent) (data : Lib.Json.Value) :
    Unreturned (fire a event data) := by
  unfold fire
  split
  · exact unreturned_pure _
  · exact unreturned_bind (unreturned_read _) fun _ =>
      unreturned_bind (unreturned_update _) fun _ => unreturned_pure _

theorem unreturned_saveSession : Unreturned (saveSession a) := by
  refine unreturned_bind (unreturned_read _) fun n => ?_
  split
  · exact unreturned_bind (unreturned_update _) fun _ => unreturned_pure _
  · exact unreturned_bind (unreturned_update _) fun _ => unreturned_pure _

theorem unreturned_saveOrFail : Unreturned (saveOrFail a) := by
  refine unreturned_bind (unreturned_saveSession a) fun saved => ?_
  cases saved with
  | none => exact unreturned_pure _
  | some error => exact unreturned_throw fun _ => by rintro ⟨⟩

theorem unreturned_fitContext : Unreturned (fitContext a) := by
  refine unreturned_bind (unreturned_read _) fun messages => ?_
  split
  · exact unreturned_throw fun _ => by rintro ⟨⟩
  · exact unreturned_bind (unreturned_update _) fun _ => unreturned_pure _

theorem unreturned_guardContext : Unreturned (guardContext a) := by
  refine unreturned_bind (unreturned_read _) fun messages => ?_
  split
  · exact unreturned_throw fun _ => by rintro ⟨⟩
  · exact unreturned_update _

theorem unreturned_promote (response : CompletionResponse) :
    Unreturned (promoteTextCalls a response) := by
  unfold promoteTextCalls
  split
  · refine unreturned_bind (unreturned_read _) fun n => ?_
    exact unreturned_bind (unreturned_update _) fun _ => unreturned_pure _
  · exact unreturned_pure _

theorem unreturned_call (request : CompletionRequest) (retries : Nat) :
    Unreturned (callWithRetry a request retries) := by
  have hcomplete : Unreturned (complete a request) :=
    unreturned_bind (unreturned_read _) fun _ =>
      unreturned_bind (unreturned_update _) fun _ => unreturned_pure _
  induction retries with
  | zero =>
    refine unreturned_bind hcomplete fun answer => ?_
    split
    · exact unreturned_pure _
    all_goals exact unreturned_throw fun _ => by rintro ⟨⟩
  | succ retries ih =>
    refine unreturned_bind hcomplete fun answer => ?_
    split
    · exact unreturned_pure _
    · exact ih
    · exact ih
    · exact unreturned_throw fun _ => by rintro ⟨⟩

theorem unreturned_performCall (call : ToolCall) (verdict : LoopGuardVerdict) :
    Unreturned (performCall a call verdict) := by
  refine unreturned_bind (unreturned_notify a _) fun _ => ?_
  refine unreturned_bind (unreturned_fire a _ _) fun o => ?_
  split
  · exact unreturned_update _
  · refine unreturned_bind (unreturned_bind (unreturned_read _) fun _ =>
      unreturned_bind (unreturned_update _) fun _ => unreturned_pure _) fun result => ?_
    refine unreturned_bind (unreturned_fire a _ _) fun _ => ?_
    split
    · exact unreturned_throw fun _ => by rintro ⟨⟩
    · exact unreturned_update _

theorem unreturned_breakCircuit (text : Str) : Unreturned (breakCircuit a text) :=
  unreturned_bind (unreturned_saveSession a) fun _ =>
    unreturned_bind (unreturned_fire a _ _) fun _ => unreturned_throw fun _ => by rintro ⟨⟩

theorem unreturned_batch [DecidableEq κ] (calls : List ToolCall) :
    Unreturned (calls.forM (handleCall a)) := by
  induction calls with
  | nil => exact unreturned_pure _
  | cons call calls ih =>
    refine unreturned_bind (unreturned_bind ?_ fun verdict => ?_) fun _ => ih
    · exact unreturned_bind (unreturned_read _) fun _ =>
        unreturned_bind (unreturned_update _) fun _ => unreturned_pure _
    · cases verdict with
      | circuitBreak text => exact unreturned_breakCircuit a text
      | block text => exact unreturned_update _
      | allow => exact unreturned_performCall a call _
      | warn text => exact unreturned_performCall a call _

end Failures

section Invariant

variable {a : Args κ} {base : List Message} {s s' : Loop κ} {log events : List Event} {text : Str}

theorem Voiced.left (h : Voiced (log ++ events)) : Voiced log :=
  fun response hmem => h response (List.mem_append_left _ hmem)

theorem savedSessions_append : savedSessions (log ++ events) =
    savedSessions log ++ savedSessions events := List.filterMap_append

theorem savedSessions_quiet (hquiet : ∀ e ∈ events, ¬ e.isMark = true) :
    savedSessions (log ++ events) = savedSessions log := by
  have hnone : savedSessions events = [] := by
    refine List.filterMap_eq_nil_iff.mpr fun e he => ?_
    have := hquiet e he
    cases e <;> first | rfl | exact absurd rfl this
  rw [savedSessions_append, hnone, List.append_nil]

theorem voiced_quiet (hquiet : ∀ e ∈ events, ¬ e.isMark = true) :
    Voiced (log ++ events) ↔ Voiced log := by
  refine ⟨Voiced.left, fun h response hmem => ?_⟩
  obtain hmem | hmem := List.mem_append.mp hmem
  · exact h response hmem
  · exact absurd rfl (hquiet _ hmem)

theorem grows_refl (l : List Message) : Grows l l := ⟨l, List.prefix_rfl, .inl rfl⟩

theorem Underway.saved (h : Underway a base s) : Saved base s :=
  ⟨h.grows, s.session, h.last, .inl rfl⟩

theorem Saved.of_keeps (h : Saved base s) (hk : Steady s s') : Saved base s' := by
  obtain ⟨hsession, events, hlog, hquiet⟩ := hk
  have hsession : s'.session = s.session := hsession
  refine ⟨?_, ?_⟩
  · rw [hlog, savedSessions_quiet hquiet]
    exact h.grows
  · simp only [hlog, savedSessions_quiet hquiet, hsession]
    exact h.last

theorem Underway.of_keeps (h : Underway a base s) (hk : Steady s s') : Underway a base s' := by
  obtain ⟨hsession, events, hlog, hquiet⟩ := hk
  have hsession : s'.session = s.session := hsession
  refine ⟨?_, ?_, ?_⟩
  · rw [hlog, voiced_quiet hquiet, hsession]
    exact h.session
  · rw [hlog, savedSessions_quiet hquiet]
    exact h.grows
  · simp only [hlog, savedSessions_quiet hquiet, hsession]
    exact h.last

theorem Answers.of_keeps (h : Answers a base text s) (hk : Steady s s') :
    Answers a base text s' := by
  obtain ⟨hsession, events, hlog, hquiet⟩ := hk
  have hsession : s'.session = s.session := hsession
  rw [Answers, hlog, voiced_quiet hquiet, hsession]
  exact h

/-- Whatever stands in the log, what is saved next goes on from what was saved. -/
theorem grows_concat (h : Saved base s) :
    (base :: savedSessions (s.log ++ [Event.saved s.session])).IsChain Grows := by
  rw [savedSessions_append, ← List.cons_append]
  refine List.isChain_append.mpr ⟨h.grows, List.isChain_singleton _, ?_⟩
  rintro x hx y ⟨⟩
  rw [List.getLast?_eq_some_getLast (List.cons_ne_nil _ _)] at hx
  cases hx
  exact h.last

theorem last_concat : (base :: savedSessions (s.log ++ [Event.saved s.session])).getLast
    (List.cons_ne_nil _ _) = s.session := by
  simp only [savedSessions_append, ← List.cons_append]
  exact List.getLast_append_singleton _

theorem saved_saveSession : Preserves (fun s => Saved base s ∧ Answers a base text s)
    (saveSession a) := by
  refine preserves_bind (preserves_read _) fun n => ?_
  cases a.world.saveSession n with
  | none =>
    refine preserves_bind (preserves_update fun s hs => ⟨⟨grows_concat hs.1, ?_⟩, ?_⟩) fun _ =>
      preserves_pure _
    · rw [last_concat]
      exact grows_refl _
    · exact fun hv => hs.2 hv.left
  | some error =>
    exact preserves_bind (preserves_update fun s hs => ⟨⟨hs.1.grows, hs.1.last⟩, hs.2⟩) fun _ =>
      preserves_pure _

theorem underway_saveSession : Preserves (Underway a base) (saveSession a) := by
  refine preserves_bind (preserves_read _) fun n => ?_
  cases a.world.saveSession n with
  | none =>
    refine preserves_bind (preserves_update fun s hs => ?_) fun _ => preserves_pure _
    obtain ⟨mid, hsession, hmid⟩ := hs.session
    refine ⟨⟨mid, hsession, fun hv => hmid hv.left⟩, grows_concat hs.saved, ?_⟩
    rw [last_concat]
  | some error =>
    exact preserves_bind (preserves_update fun s hs => ⟨hs.session, hs.grows, hs.last⟩) fun _ =>
      preserves_pure _

/-- A program that leaves without a result needs only what was saved. -/
theorem failing_triple {α : Type} {x : Prog κ α} {pre : Loop κ → Prop} {post : α → Loop κ → Prop}
    (exit : Exit → Loop κ → Prop) (hx : Triple pre x post exit) (hr : Unreturned x)
    (h : ∀ e s, exit e s → (base :: savedSessions s.log).IsChain Grows) :
    Triple pre x post (Over a base) := by
  refine ⟨fun s hs => ?_⟩
  have hrun := hx.run s hs
  have hleft := hr.run s trivial
  cases hxs : x s with
  | ok b s' =>
    rw [hxs] at hrun
    exact hrun
  | error e s' =>
    rw [hxs] at hrun hleft
    exact ⟨h e s' hrun, fun r he => absurd he (hleft r)⟩

theorem underway_triple {α : Type} {x : Prog κ α} (hx : ∀ s₀, Preserves (Steady s₀) x)
    (hr : Unreturned x) : Triple (Underway a base) x (fun _ => Underway a base) (Over a base) :=
  failing_triple _ (preserves_of_keeps hx fun _ _ hs hk => Underway.of_keeps hs hk) hr
    fun _ _ hs => hs.grows

theorem saved_triple {α : Type} {x : Prog κ α} (hx : ∀ s₀, Preserves (Steady s₀) x)
    (hr : Unreturned x) : Triple (fun s => Saved base s ∧ Answers a base text s) x
      (fun _ s => Saved base s ∧ Answers a base text s) (Over a base) :=
  failing_triple _ (preserves_of_keeps hx fun _ _ hs hk => ⟨hs.1.of_keeps hk, hs.2.of_keeps hk⟩) hr
    fun _ _ hs => hs.1.grows

/-- The turn says something more. -/
theorem Underway.push (h : Underway a base s) {m : Message} (hm : Voiced s.log → isMute m = false) :
    Underway a base { s with session := s.session ++ [m] } := by
  obtain ⟨mid, hsession, hmid⟩ := h.session
  refine ⟨⟨mid ++ [m], ?_, fun hv => ?_⟩, h.grows, h.last.trans (List.prefix_append _ _)⟩
  · show s.session ++ [m] = _
    rw [hsession, List.append_assoc]
    rfl
  · exact List.forall_mem_append.mpr ⟨hmid hv, List.forall_mem_singleton.mpr (hm hv)⟩

/-- The turn gives its answer. -/
theorem Underway.answer (h : Underway a base s)
    (ht : Voiced s.log → isNoReplyText text = false ∧ isBlankText text = false)
    {session : List Message} (hsession : session = s.session ++ [Message.assistant text] ∨
      session = pruneHeartbeatTurns (s.session ++ [Message.assistant text]) 10) :
    Saved base { s with session := session } ∧
      Answers a base text { s with session := session } := by
  refine ⟨⟨h.grows, _, h.last.trans (List.prefix_append _ _), hsession⟩, fun hv => ?_⟩
  obtain ⟨mid, hmid, hmuted⟩ := h.session
  have hsaid : s.session ++ [Message.assistant text] =
      base ++ Message.user a.userMessage :: (mid ++ [Message.assistant text]) := by
    rw [hmid, List.append_assoc]
    rfl
  rw [hsaid] at hsession
  refine ⟨mid, hsession, List.forall_mem_append.mpr ⟨hmuted hv, ?_⟩, (ht hv).2⟩
  rw [List.forall_mem_singleton, isMute_assistant]
  exact (ht hv).1

end Invariant

section Steps

variable {a : Args κ} {base : List Message}

/-- The turn hears a response. -/
def Heard (a : Args κ) (base : List Message) (response : CompletionResponse) (s : Loop κ) : Prop :=
  Underway a base s ∧ (Voiced s.log → Mutes response = false)

theorem saveOrFail_ends (text : Str) :
    Triple (fun s => Saved base s ∧ Answers a base text s) (saveOrFail a)
      (fun _ s => Saved base s ∧ Answers a base text s) (Over a base) := by
  refine failing_triple _ (preserves_bind saved_saveSession fun saved => ?_)
    (unreturned_saveOrFail a) fun _ _ hs => hs.1.grows
  cases saved with
  | none => exact preserves_pure ()
  | some error => exact preserves_throw _

/-- The loop is left with the answer. -/
theorem return_ends {text : Str} {r : AgentLoopResult}
    (h : sanitizeVisibleResponse r.response = text) :
    Triple (fun s => Saved base s ∧ Answers a base text s) (throw (.returned r) : Prog κ Unit)
      (fun _ => Underway a base) (Over a base) := by
  subst h
  refine triple_throw fun s hs => ⟨hs.1.grows, fun r' hr => ?_⟩
  cases hr
  exact hs.2

theorem sanitize_nil : sanitizeVisibleResponse [] = [] := by rfl

theorem partialFallback_spec : sanitizeVisibleResponse partialFallback = partialFallback ∧
    isNoReplyText partialFallback = false ∧ isBlankText partialFallback = false := by
  delta partialFallback
  rw [String.toList_ofList]
  decide +kernel

theorem completeSilently_ends (iteration : Nat) (directives : DirectiveSet) :
    Triple (fun s => Underway a base s ∧ ¬ Voiced s.log) (completeSilently a iteration directives)
      (fun _ => Underway a base) (Over a base) := by
  refine triple_bind (M := fun _ s => Saved base s ∧ Answers a base [] s) (triple_update fun s hs =>
    ⟨(hs.1.answer (fun hv => absurd hv hs.2) (.inl rfl)).1, fun hv => absurd hv hs.2⟩) fun _ => ?_
  refine triple_bind (saveOrFail_ends []) fun _ => ?_
  refine triple_bind (saved_triple (fun _ => preserves_read _) (unreturned_read _)) fun usage => ?_
  exact return_ends sanitize_nil

theorem finish_ends (iteration : Nat) {responseText memoryText : Str}
    (hmemory : sanitizeVisibleResponse responseText = memoryText) :
    Triple (fun s => Underway a base s ∧
        (Voiced s.log → isNoReplyText memoryText = false ∧ isBlankText memoryText = false))
      (finish a iteration responseText memoryText) (fun _ => Underway a base) (Over a base) := by
  refine triple_bind (M := fun _ s => ∃ s₀, Underway a base s₀ ∧
    (Voiced s₀.log → isNoReplyText memoryText = false ∧ isBlankText memoryText = false) ∧
    s = { s₀ with session := s₀.session ++ [Message.assistant memoryText] })
    (triple_update fun s hs => ⟨s, hs.1, hs.2, rfl⟩) fun _ => ?_
  refine triple_bind (M := fun _ s => Saved base s ∧ Answers a base memoryText s)
    (triple_update ?_) fun _ => ?_
  · rintro s ⟨s₀, hs₀, ht, rfl⟩
    exact hs₀.answer ht (.inr rfl)
  refine triple_bind (saveOrFail_ends memoryText) fun _ => ?_
  refine triple_bind (saved_triple (fun _ => keeps_record (e := fun _ => .remembered _)
    (fun _ => rfl) (fun _ => rfl) fun _ => Bool.false_ne_true) (unreturned_update _)) fun _ => ?_
  refine triple_bind (saved_triple (fun _ => notify_keeps a _ Bool.false_ne_true)
    (unreturned_notify a _)) fun _ => ?_
  refine triple_bind (saved_triple (fun _ => fire_keeps a _ _ Bool.false_ne_true)
    (unreturned_fire a _ _)) fun _ => ?_
  refine triple_bind (saved_triple (fun _ => preserves_read _) (unreturned_read _)) fun usage => ?_
  exact return_ends hmemory

theorem returnPartial_ends (iteration : Nat) (response : CompletionResponse)
    (hstop : response.stopReason = .maxTokens) :
    Triple (Heard a base response) (returnPartial a iteration response) (fun _ => Underway a base)
      (Over a base) := by
  refine triple_bind (M := fun _ s => Saved base s ∧ Answers a base
    (if trim (sanitizeVisibleResponse response.text) = [] then partialFallback
      else sanitizeVisibleResponse response.text) s) (triple_update fun s hs => ?_) fun _ => ?_
  · refine hs.1.answer (fun hv => ?_) (.inl rfl)
    have hmutes := hs.2 hv
    rw [Mutes, hstop] at hmutes
    split
    · exact partialFallback_spec.2
    · exact ⟨hmutes, by simpa [isBlankText] using ‹_›⟩
  refine triple_bind (failing_triple _ saved_saveSession (unreturned_saveSession a)
    fun _ _ hs => hs.1.grows) fun _ => ?_
  refine triple_bind (saved_triple (fun _ => fire_keeps a _ _ Bool.false_ne_true)
    (unreturned_fire a _ _)) fun _ => ?_
  refine triple_bind (saved_triple (fun _ => preserves_read _) (unreturned_read _)) fun usage => ?_
  refine return_ends ?_
  dsimp only
  split
  · exact partialFallback_spec.1
  · rfl

theorem pushPartial_ends (response : CompletionResponse)
    (hstop : response.stopReason = .maxTokens) :
    Triple (Heard a base response) (pushPartial (sanitizeVisibleResponse response.text))
      (fun _ => Underway a base) (Over a base) := by
  unfold pushPartial
  split
  · exact triple_pure fun _ hs => hs.1
  · refine triple_bind (M := fun _ => Underway a base) (triple_update fun s hs => ?_) fun _ => ?_
    · refine hs.1.push fun hv => ?_
      have hmutes := hs.2 hv
      rw [Mutes, hstop] at hmutes
      rwa [isMute_assistant]
    · exact underway_triple (fun _ => keeps_set (fun _ => rfl) fun _ => rfl) (unreturned_update _)

theorem reachMaxTokens_ends (iteration : Nat) (response : CompletionResponse)
    (hstop : response.stopReason = .maxTokens) :
    Triple (Heard a base response) (reachMaxTokens a iteration response) (fun _ => Underway a base)
      (Over a base) := by
  refine triple_bind (M := fun _ => Heard a base response)
    (triple_update fun s hs => ⟨⟨hs.1.session, hs.1.grows, hs.1.last⟩, hs.2⟩) fun _ => ?_
  refine triple_bind (M := fun _ => Heard a base response) (triple_read fun s hs => hs) fun n => ?_
  split
  · exact returnPartial_ends iteration response hstop
  · refine triple_bind (pushPartial_ends response hstop) fun _ => ?_
    refine triple_bind (M := fun _ => Underway a base)
      (triple_update fun s hs => hs.push fun _ => rfl) fun _ => ?_
    exact underway_triple (fun _ => keeps_set (fun _ => rfl) fun _ => rfl) (unreturned_update _)

theorem emptyFallback_spec (iteration : Nat) :
    sanitizeVisibleResponse (emptyFallback iteration) = emptyFallback iteration ∧
      isNoReplyText (emptyFallback iteration) = false ∧
      isBlankText (emptyFallback iteration) = false := by
  unfold emptyFallback
  split
  · rw [String.toList_append, String.toList_ofList, String.toList_ofList]
    decide +kernel
  · rw [String.toList_append, String.toList_append, String.toList_ofList, String.toList_ofList,
      String.toList_ofList]
    decide +kernel

theorem endTurn_ends (iteration : Nat) (response : CompletionResponse)
    (hstop : response.stopReason = .endTurn ∨ response.stopReason = .stopSequence) :
    Triple (Heard a base response) (endTurn a iteration response) (fun _ => Underway a base)
      (Over a base) := by
  have hmutes : Mutes response = ((parseDirectives response.text).2.silent ||
      isNoReplyText (sanitizeVisibleResponse (parseDirectives response.text).1)) := by
    obtain hstop | hstop := hstop
    · rw [Mutes, hstop]
    · rw [Mutes, hstop]
  unfold endTurn
  dsimp only
  split
  · rename_i hsilent
    refine (completeSilently_ends iteration _).weaken (fun s hs => ⟨hs.1, fun hv => ?_⟩)
      (fun _ _ h => h) (fun _ _ h => h)
    have hvoice := hs.2 hv
    rw [hmutes, Bool.or_eq_false_iff] at hvoice
    obtain hreply | hsilent := hsilent
    · rw [isNoReplyText, hreply] at hvoice
      exact absurd hvoice.2 (by decide)
    · rw [hsilent] at hvoice
      cases hvoice.1
  split
  · refine underway_triple (fun _ => ?_) ?_ |>.weaken (fun _ hs => hs.1) (fun _ _ h => h)
      (fun _ _ h => h)
    · exact preserves_bind (keeps_set (fun _ => rfl) fun _ => rfl) fun _ =>
        keeps_set (fun _ => rfl) fun _ => rfl
    · exact unreturned_bind (unreturned_update _) fun _ => unreturned_update _
  split
  · obtain ⟨hsame, hspoken⟩ := emptyFallback_spec iteration
    exact (finish_ends iteration hsame).weaken (fun _ hs => ⟨hs.1, fun _ => hspoken⟩)
      (fun _ _ h => h) (fun _ _ h => h)
  · rename_i hblank
    refine (finish_ends iteration rfl).weaken (fun s hs => ⟨hs.1, fun hv => ⟨?_, ?_⟩⟩)
      (fun _ _ h => h) (fun _ _ h => h)
    · have hvoice := hs.2 hv
      rw [hmutes, Bool.or_eq_false_iff] at hvoice
      exact hvoice.2
    · simpa [isBlankText] using hblank

variable [DecidableEq κ]

theorem toolUse_ends (response : CompletionResponse) (hstop : response.stopReason = .toolUse) :
    Triple (Heard a base response) (toolUse a response) (fun _ => Underway a base)
      (Over a base) := by
  refine triple_of_state fun s₀ hs₀ => ?_
  let asked : Message := ⟨.assistant, .blocks response.content⟩
  -- the state in which the batch starts
  let s₁ : Loop κ := { s₀ with
    consecutiveMaxTokens := 0
    toolResultBlocks := []
    session := s₀.session ++ [asked]
    messages := s₀.messages ++ [asked] }
  have hs₁ : Underway a base s₁ := by
    have hpush := hs₀.1.push (m := asked) fun hv => by
      have hvoice := hs₀.2 hv
      rwa [Mutes, hstop] at hvoice
    exact ⟨hpush.session, hpush.grows, hpush.last⟩
  have hkeeps {ids : List Str} {s : Loop κ} (h : Answered (fun e => e.isMark = true) s₁ ids s) :
      Underway a base s := by
    obtain ⟨hview, hlog⟩ := h.keeps
    exact hs₁.of_keeps ⟨(Prod.ext_iff.mp hview).1, hlog⟩
  have hbatch : Triple (Answered (fun e => e.isMark = true) s₁ [])
      (response.toolCalls.forM (handleCall a))
      (fun _ => Answered (fun e => e.isMark = true) s₁ (response.toolCalls.map ToolCall.id))
      (Over a base) := by
    refine failing_triple (fun _ s => (base :: savedSessions s.log).IsChain Grows)
      (batch_answers a ?_ (fun _ _ _ hs => (hkeeps hs).grows) ?_ _) (unreturned_batch a _)
      fun _ _ h => h
    · intro e he
      cases e <;> first | exact Bool.false_ne_true | cases he
    · -- the breaker saves the calls without their results
      intro ids call text
      have hbreak : Triple (Underway a base) (breakCircuit a text) (fun _ _ => False)
          (Over a base) := by
        refine triple_bind (failing_triple _ underway_saveSession (unreturned_saveSession a)
          fun _ _ hs => hs.grows) fun _ => ?_
        refine triple_bind (underway_triple (fun _ => fire_keeps a _ _ Bool.false_ne_true)
          (unreturned_fire a _ _)) fun _ => ?_
        exact triple_throw fun s hs => ⟨hs.grows, fun r hr => by cases hr⟩
      exact hbreak.weaken (fun _ hs => hkeeps hs.1) (fun _ _ h => h) fun _ _ h => h.grows
  have hrest : Triple (Underway a base)
      (do
        let blocks ← read Loop.toolResultBlocks
        pushSession ⟨.user, .blocks blocks⟩
        pushMessages ⟨.user, .blocks blocks⟩
        let _ ← saveSession a : Prog κ Unit)
      (fun _ => Underway a base) (Over a base) := by
    refine triple_bind (underway_triple (fun _ => preserves_read _) (unreturned_read _))
      fun blocks => ?_
    refine triple_bind (M := fun _ => Underway a base)
      (triple_update fun s hs => hs.push fun _ => rfl) fun _ => ?_
    refine triple_bind (underway_triple (fun _ => keeps_set (fun _ => rfl) fun _ => rfl)
      (unreturned_update _)) fun _ => ?_
    exact triple_bind (failing_triple _ underway_saveSession (unreturned_saveSession a)
      fun _ _ hs => hs.grows) fun _ => triple_pure fun _ hs => hs
  refine ⟨fun s hs => ?_⟩
  subst hs
  exact (triple_bind hbatch fun _ => hrest.weaken (fun _ hs => hkeeps hs) (fun _ _ h => h)
    fun _ _ h => h).run s₁ ⟨keeps_refl s₁, rfl, rfl⟩

theorem actOn_ends (iteration : Nat) (response : CompletionResponse) :
    Triple (Heard a base response) (actOn a iteration response) (fun _ => Underway a base)
      (Over a base) := by
  unfold actOn
  cases hstop : response.stopReason with
  | endTurn => exact endTurn_ends iteration response (.inl hstop)
  | stopSequence => exact endTurn_ends iteration response (.inr hstop)
  | toolUse => exact toolUse_ends response hstop
  | maxTokens => exact reachMaxTokens_ends iteration response hstop

theorem iterate_ends (iteration : Nat) :
    Triple (Underway a base) (iterate a iteration) (fun _ => Underway a base) (Over a base) := by
  refine triple_bind (underway_triple (fun _ => fitContext_keeps a fun _ _ => rfl)
    (unreturned_fitContext a)) fun _ => ?_
  refine triple_bind (underway_triple (fun _ => guardContext_keeps a fun _ _ => rfl)
    (unreturned_guardContext a)) fun _ => ?_
  refine triple_bind (underway_triple (fun _ => preserves_read _) (unreturned_read _))
    fun messages => ?_
  refine triple_bind (underway_triple (fun _ => notify_keeps a _ Bool.false_ne_true)
    (unreturned_notify a _)) fun _ => ?_
  refine triple_bind (underway_triple (fun _ => callWithRetry_preserves a _
    (complete_keeps a _ Bool.false_ne_true) _) (unreturned_call a _ _)) fun raw => ?_
  refine triple_bind (underway_triple (fun _ => addUsage_keeps _) (unreturned_update _))
    fun _ => ?_
  refine triple_bind (underway_triple (fun _ => promoteTextCalls_keeps a raw)
    (unreturned_promote a raw)) fun response => ?_
  refine triple_bind (M := fun _ => Heard a base response) (triple_update fun s hs => ?_)
    fun _ => actOn_ends iteration response
  have hsaved : savedSessions (s.log ++ [Event.response response]) = savedSessions s.log := by
    rw [savedSessions_append]
    exact List.append_nil _
  obtain ⟨mid, hsession, hmid⟩ := hs.session
  refine ⟨⟨⟨mid, hsession, fun hv => hmid hv.left⟩, ?_, ?_⟩, fun hv => ?_⟩
  · show (base :: savedSessions (s.log ++ [Event.response response])).IsChain Grows
    rw [hsaved]
    exact hs.grows
  · simp only [hsaved]
    exact hs.last
  · exact hv response (List.mem_append_right _ (List.mem_singleton_self _))

end Steps

section Run

variable [DecidableEq κ] (a : Args κ) (session : List Message)

theorem agentLoop_ends : Triple (fun s => s = Loop.start a session) (agentLoop a)
    (Over a session) (Over a session) := by
  refine triple_bind (M := fun _ => Steady (Loop.start a session)) ?_ fun _ => ?_
  · refine failing_triple (fun _ => Steady (Loop.start a session)) ?_
      (unreturned_fire a _ _) ?_
    · refine (fire_keeps a .beforePromptBuild _ Bool.false_ne_true).weaken ?_ (fun _ _ hk => hk)
        fun _ _ hk => hk
      rintro s rfl
      exact keeps_refl _
    · rintro - s ⟨-, events, hlog, hquiet⟩
      rw [hlog, savedSessions_quiet hquiet]
      exact List.isChain_singleton _
  refine triple_bind (M := fun _ => Underway a session) (triple_update ?_) fun _ => ?_
  · rintro s ⟨hview, events, hlog, hquiet⟩
    have hview : s.session = session := hview
    have hsaved : savedSessions s.log = [] := by
      rw [hlog, savedSessions_quiet hquiet]
      rfl
    refine ⟨⟨[], by rw [hview], fun _ _ h => absurd h List.not_mem_nil⟩, ?_, ?_⟩
    · rw [hsaved]
      exact List.isChain_singleton _
    · simp only [hsaved, hview]
      exact List.prefix_append _ _
  refine triple_bind (underway_triple (fun _ => setMessages_keeps (fun _ _ => rfl) _)
    (unreturned_update _)) fun _ => ?_
  refine triple_bind (triple_forM (I := fun _ => Underway a session)
    fun _ i _ => iterate_ends i) fun _ => ?_
  refine triple_bind (failing_triple _ underway_saveSession (unreturned_saveSession a)
    fun _ _ hs => hs.grows) fun _ => ?_
  refine triple_bind (underway_triple (fun _ => fire_keeps a _ _ Bool.false_ne_true)
    (unreturned_fire a _ _)) fun _ => ?_
  exact triple_pure fun s hs => ⟨hs.grows, fun r hr => by cases hr⟩

/-- How a turn ends, streaming or not. -/
theorem runAgentLoop_over :
    Over a session (runAgentLoop a session).1 (runAgentLoop a session).2 := by
  have hrun := (agentLoop_ends a session).run _ rfl
  unfold runAgentLoop outcome
  cases hr : agentLoop a (Loop.start a session) with
  | ok exit s' =>
    rw [hr] at hrun
    exact hrun
  | error exit s' =>
    rw [hr] at hrun
    exact hrun

theorem runAgentLoopStreaming_over : Over a session (runAgentLoopStreaming a session).1
    (runAgentLoopStreaming a session).2 := by
  obtain ⟨hexit, log, hsame, hlog⟩ := runAgentLoopStreaming_same a session
  have hover := runAgentLoop_over a session
  have hvoiced : Voiced log ↔ Voiced (runAgentLoop a session).2.log := by
    have hresponses (past : List Event) (response : CompletionResponse) :
        .response response ∈ past ↔ .response response ∈ past.filter Event.isShown :=
      ⟨fun h => List.mem_filter.mpr ⟨h, rfl⟩, fun h => List.mem_of_mem_filter h⟩
    simp only [Voiced, hresponses log, hlog, ← hresponses]
  have hsaved : savedSessions log = savedSessions (runAgentLoop a session).2.log := by
    rw [← savedSessions_shown, hlog, savedSessions_shown]
  rw [hsame, hexit]
  refine ⟨?_, fun r hr => ?_⟩
  · show (session :: savedSessions log).IsChain Grows
    rw [hsaved]
    exact hover.grows
  · intro hv
    exact hover.answers r hr (hvoiced.mp hv)

end Run

end Clawreform.Runtime.TurnSaves
