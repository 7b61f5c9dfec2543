import Clawreform.Runtime.TurnSaves

namespace Clawreform.Runtime.ResultDirectives

open Clawreform.Lib Clawreform.Lib.Text Clawreform.Lib.Program
open Clawreform.Types
open Clawreform.Runtime.TurnSaves

variable {κ : Type}

section Spec

def Event.response? : Event → Option CompletionResponse
  | .response response => some response
  | _ => none

/-- The response a run acts on last. -/
def lastResponse (log : List Event) : Option CompletionResponse :=
  (log.filterMap Event.response?).getLast?

def EndsTurn (response : CompletionResponse) : Prop :=
  response.stopReason = .endTurn ∨ response.stopReason = .stopSequence

/-- The directives in a text. -/
def found (text : Str) : ReplyDirectives :=
  let parsed := (parseDirectives text).2
  ⟨parsed.replyTo, parsed.currentThread, parsed.silent⟩

/-- The text is silent by a directive, or it has no directive and is not the token for no
reply. -/
def Carried (text : Str) : Prop :=
  let parsed := parseDirectives text
  parsed.2.silent = true ∨
    (trim (sanitizeVisibleResponse parsed.1) ≠ "NO_REPLY".toList ∧ parsed.2 = .none)

/-- The directives the loop returns for a text that ends the turn. -/
def returned (text : Str) : ReplyDirectives :=
  let parsed := parseDirectives text
  if trim (sanitizeVisibleResponse parsed.1) = "NO_REPLY".toList ∨ parsed.2.silent = true then
    ⟨parsed.2.replyTo, parsed.2.currentThread, true⟩
  else noDirectives

theorem returned_eq_found_iff (text : Str) : returned text = found text ↔ Carried text := by
  unfold returned found Carried
  generalize parseDirectives text = parsed
  obtain ⟨visible, replyTo, currentThread, silent⟩ := parsed
  dsimp only
  generalize trim (sanitizeVisibleResponse visible) = stored
  generalize "NO_REPLY".toList = token
  cases silent with
  | true => simp
  | false =>
    by_cases hreply : stored = token
    · simp [hreply]
    · have hnone : noDirectives = ⟨replyTo, currentThread, false⟩ ↔
          DirectiveSet.mk replyTo currentThread false = .none := by
        constructor
        · intro h
          cases h
          rfl
        · intro h
          cases h
          rfl
      simpa [hreply] using hnone

end Spec

section Steps

variable {a : Args κ} {response : CompletionResponse} {s s' : Loop κ}

/-- The response is the last one so far. -/
def Latest (response : CompletionResponse) (s : Loop κ) : Prop :=
  lastResponse s.log = some response

abbrev Quiet (s₀ : Loop κ) : Loop κ → Prop :=
  Keeps (fun _ => ()) (fun e => (Event.response? e).isSome = true) s₀

/-- Where a result is returned, it is made from the last response. -/
def Ends (exit : Exit) (s : Loop κ) : Prop :=
  ∀ r, exit = .returned r → ∃ response, Latest response s ∧
    (EndsTurn response → r.directives = returned response.text)

theorem Latest.of_quiet (h : Latest response s) (hk : Quiet s s') : Latest response s' := by
  obtain ⟨-, events, hlog, hquiet⟩ := hk
  have hnone : events.filterMap Event.response? = [] := by
    rw [List.filterMap_eq_nil_iff]
    intro e he
    exact Option.not_isSome_iff_eq_none.mp (hquiet e he)
  rw [Latest, lastResponse, hlog, List.filterMap_append, hnone, List.append_nil]
  exact h

theorem latest_of_quiet {α : Type} {x : Prog κ α} (hx : ∀ s₀, Preserves (Quiet s₀) x) :
    Preserves (Latest response) x :=
  preserves_of_keeps hx fun _ _ h hk => h.of_quiet hk

theorem quiet_ending (e : Event) (h : e.inEnding = true) :
    ¬ (Event.response? e).isSome = true := by
  cases e with
  | response response => cases h
  | _ => exact Bool.false_ne_true

/-- A program that leaves without a result says nothing about one. -/
theorem ends_of_unreturned {α : Type} {x : Prog κ α} {pre : Loop κ → Prop} (hx : Unreturned x) :
    Triple pre x (fun _ _ => True) Ends :=
  hx.weaken (fun _ _ => trivial) (fun _ _ h => h) fun _ _ h r hr => absurd hr (h r)

/-- A program that returns only with some directives, and hears nothing more. -/
theorem ends_of_result {x : Prog κ Unit} (hx : ∀ s₀, Preserves (Quiet s₀) x)
    (hresult : Triple (fun _ => True) x (fun _ _ => True)
      fun e _ => ∀ r, e = .returned r → EndsTurn response → r.directives = returned response.text) :
    Triple (Latest response) x (fun _ _ => True) Ends :=
  (triple_and (latest_of_quiet hx) hresult).weaken (fun _ hs => ⟨hs, trivial⟩)
    (fun _ _ _ => trivial) fun _ _ h r hr => ⟨response, h.1, h.2 r hr⟩

theorem completeSilently_directives (iteration : Nat) (directives : DirectiveSet) :
    Triple (fun _ => True) (completeSilently a iteration directives) (fun _ _ => True)
      fun e _ => ∀ r, e = .returned r →
        r.directives = ⟨directives.replyTo, directives.currentThread, true⟩ := by
  have hfails {α : Type} {x : Prog κ α} (hx : Unreturned x) :
      Triple (fun _ => True) x (fun _ _ => True) fun e _ => ∀ r, e = .returned r →
        r.directives = ⟨directives.replyTo, directives.currentThread, true⟩ :=
    hx.weaken (fun _ h => h) (fun _ _ h => h) fun _ _ h r hr => absurd hr (h r)
  refine triple_bind (hfails (unreturned_update _)) fun _ => ?_
  refine triple_bind (hfails (unreturned_saveOrFail a)) fun _ => ?_
  refine triple_bind (hfails (unreturned_read _)) fun usage => ?_
  refine triple_throw fun _ _ r hr => ?_
  cases hr
  rfl

theorem finish_directives (iteration : Nat) (responseText memoryText : Str) :
    Triple (fun _ => True) (finish a iteration responseText memoryText) (fun _ _ => True)
      fun e _ => ∀ r, e = .returned r → r.directives = noDirectives := by
  have hfails {α : Type} {x : Prog κ α} (hx : Unreturned x) :
      Triple (fun _ => True) x (fun _ _ => True) fun e _ => ∀ r, e = .returned r →
        r.directives = noDirectives :=
    hx.weaken (fun _ h => h) (fun _ _ h => h) fun _ _ h r hr => absurd hr (h r)
  refine triple_bind (hfails (unreturned_update _)) fun _ => ?_
  refine triple_bind (hfails (unreturned_update _)) fun _ => ?_
  refine triple_bind (hfails (unreturned_saveOrFail a)) fun _ => ?_
  refine triple_bind (hfails (unreturned_update _)) fun _ => ?_
  refine triple_bind (hfails (unreturned_notify a _)) fun _ => ?_
  refine triple_bind (hfails (unreturned_fire a _ _)) fun _ => ?_
  refine triple_bind (hfails (unreturned_read _)) fun usage => ?_
  refine triple_throw fun _ _ r hr => ?_
  cases hr
  rfl

theorem endTurn_ends (iteration : Nat) (response : CompletionResponse) :
    Triple (Latest response) (endTurn a iteration response) (fun _ _ => True) Ends := by
  unfold endTurn
  dsimp only
  split
  · rename_i hsilent
    refine ends_of_result (fun _ => completeSilently_keeps a quiet_ending (fun _ _ => rfl) _ _) ?_
    refine (completeSilently_directives iteration _).weaken (fun _ h => h) (fun _ _ h => h) ?_
    intro e s h r hr hends
    rw [h r hr, returned, if_pos hsilent]
  · rename_i hsilent
    have hfinish (responseText memoryText : Str) : Triple (Latest response)
        (finish a iteration responseText memoryText) (fun _ _ => True) Ends := by
      refine ends_of_result (fun _ => finish_keeps a quiet_ending (fun _ _ => rfl) _ _ _) ?_
      refine (finish_directives iteration _ _).weaken (fun _ h => h) (fun _ _ h => h) ?_
      intro e s h r hr hends
      rw [h r hr, returned, if_neg hsilent]
    split
    · exact ends_of_unreturned (unreturned_bind (unreturned_update _) fun _ => unreturned_update _)
    split
    · exact hfinish _ _
    · exact hfinish _ _

theorem reachMaxTokens_ends (iteration : Nat) (response : CompletionResponse)
    (hstop : response.stopReason = .maxTokens) :
    Triple (Latest response) (reachMaxTokens a iteration response) (fun _ _ => True) Ends := by
  have hkept : Triple (Latest response) (reachMaxTokens a iteration response)
      (fun _ => Latest response) (fun _ => Latest response) := by
    refine latest_of_quiet fun s₀ => ?_
    refine preserves_bind (keeps_set (fun _ => rfl) fun _ => rfl) fun _ => ?_
    refine preserves_bind (preserves_read _) fun n => ?_
    split
    · exact returnPartial_keeps a quiet_ending (fun _ _ => rfl) _ _
    · refine preserves_bind ?_ fun _ => ?_
      · unfold pushPartial
        split
        · exact preserves_pure _
        · exact preserves_bind (keeps_set (fun _ => rfl) fun _ => rfl) fun _ =>
            keeps_set (fun _ => rfl) fun _ => rfl
      · exact preserves_bind (keeps_set (fun _ => rfl) fun _ => rfl) fun _ =>
          keeps_set (fun _ => rfl) fun _ => rfl
  refine hkept.weaken (fun _ hs => hs) (fun _ _ _ => trivial) ?_
  intro e s hs r hr
  refine ⟨response, hs, fun hends => ?_⟩
  rw [EndsTurn, hstop] at hends
  simp at hends

variable [DecidableEq κ]

theorem unreturned_toolUse (response : CompletionResponse) :
    Unreturned (toolUse a response) := by
  refine unreturned_bind (unreturned_update _) fun _ => ?_
  refine unreturned_bind (unreturned_update _) fun _ => ?_
  refine unreturned_bind (unreturned_update _) fun _ => ?_
  refine unreturned_bind (unreturned_batch a _) fun _ => ?_
  refine unreturned_bind (unreturned_read _) fun blocks => ?_
  refine unreturned_bind (unreturned_update _) fun _ => ?_
  refine unreturned_bind (unreturned_update _) fun _ => ?_
  exact unreturned_bind (unreturned_saveSession a) fun _ => unreturned_pure _

theorem actOn_ends (iteration : Nat) (response : CompletionResponse) :
    Triple (Latest response) (actOn a iteration response) (fun _ _ => True) Ends := by
  unfold actOn
  cases hstop : response.stopReason with
  | endTurn => exact endTurn_ends iteration response
  | stopSequence => exact endTurn_ends iteration response
  | toolUse => exact ends_of_unreturned (unreturned_toolUse response)
  | maxTokens => exact reachMaxTokens_ends iteration response hstop

theorem iterate_ends (iteration : Nat) :
    Triple (fun _ => True) (iterate a iteration) (fun _ _ => True) Ends := by
  refine triple_bind (ends_of_unreturned (unreturned_fitContext a)) fun _ => ?_
  refine triple_bind (ends_of_unreturned (unreturned_guardContext a)) fun _ => ?_
  refine triple_bind (ends_of_unreturned (unreturned_read _)) fun messages => ?_
  refine triple_bind (ends_of_unreturned (unreturned_notify a _)) fun _ => ?_
  refine triple_bind (ends_of_unreturned (unreturned_call a _ _)) fun raw => ?_
  refine triple_bind (ends_of_unreturned (unreturned_update _)) fun _ => ?_
  refine triple_bind (ends_of_unreturned (unreturned_promote a raw)) fun response => ?_
  refine triple_bind (M := fun _ => Latest response) (triple_update fun s _ => ?_)
    fun _ => actOn_ends iteration response
  show lastResponse (s.log ++ [Event.response response]) = some response
  rw [lastResponse, List.filterMap_append]
  exact List.getLast?_concat

theorem agentLoop_ends : Triple (fun _ => True) (agentLoop a) (fun exit s => Ends exit s) Ends := by
  refine triple_bind (ends_of_unreturned (unreturned_fire a _ _)) fun _ => ?_
  refine triple_bind (ends_of_unreturned (unreturned_update _)) fun _ => ?_
  refine triple_bind (ends_of_unreturned (unreturned_update _)) fun _ => ?_
  refine triple_bind (triple_forM (I := fun _ _ => True) fun _ i _ => iterate_ends i) fun _ => ?_
  refine triple_bind (ends_of_unreturned (unreturned_saveSession a)) fun _ => ?_
  refine triple_bind (ends_of_unreturned (unreturned_fire a _ _)) fun _ => ?_
  refine triple_pure fun s _ r hr => ?_
  cases hr

end Steps

section Run

variable [DecidableEq κ] (a : Args κ) (session : List Message)

theorem runAgentLoop_ends : Ends (runAgentLoop a session).1 (runAgentLoop a session).2 := by
  have hrun := (agentLoop_ends (a := a)).run (Loop.start a session) trivial
  unfold runAgentLoop outcome
  cases hr : agentLoop a (Loop.start a session) with
  | ok exit s' =>
    rw [hr] at hrun
    exact hrun
  | error exit s' =>
    rw [hr] at hrun
    exact hrun

theorem lastResponse_shown (log : List Event) :
    lastResponse (log.filter Event.isShown) = lastResponse log := by
  rw [lastResponse, lastResponse, filterMap_shown]
  intro event hevent
  cases event with
  | response response => cases hevent
  | _ => rfl

theorem runAgentLoopStreaming_ends :
    Ends (runAgentLoopStreaming a session).1 (runAgentLoopStreaming a session).2 := by
  obtain ⟨hexit, log, hsame, hlog⟩ := runAgentLoopStreaming_same a session
  have hlast : lastResponse log = lastResponse (runAgentLoop a session).2.log := by
    rw [← lastResponse_shown log, hlog, lastResponse_shown]
  rw [hsame, hexit]
  intro r hr
  obtain ⟨response, hlatest, hends⟩ := runAgentLoop_ends a session r hr
  exact ⟨response, hlast.trans hlatest, hends⟩

/-- Streaming or not, a turn that ends with a text returns the directives found in the text
exactly when it is silent by a directive, or has no directive to return and is no silent
turn. -/
theorem runAgentLoop_directives_iff : ∀ run ∈ [runAgentLoop a session,
    runAgentLoopStreaming a session], ∀ r, run.1 = .returned r →
      ∃ response, lastResponse run.2.log = some response ∧
        (EndsTurn response → (r.directives = found response.text ↔ Carried response.text)) := by
  intro run hrun r hr
  have hends : Ends run.1 run.2 := by
    obtain rfl | rfl := List.mem_pair.mp hrun
    · exact runAgentLoop_ends a session
    · exact runAgentLoopStreaming_ends a session
  obtain ⟨response, hlatest, hdirectives⟩ := hends r hr
  refine ⟨response, hlatest, fun hturn => ?_⟩
  rw [hdirectives hturn]
  exact returned_eq_found_iff response.text

/-- A run in which the driver answers a text. -/
def answering (text : Str) : Args (Str × Lib.Json.Value) :=
  scripted none [⟨[.text text], .endTurn, [], ⟨0, 0⟩⟩] fun _ => []

theorem runAgentLoop_directives_silent :
    let run := runAgentLoop (answering "[[silent]] [[@current]] x".toList) []
    ∃ response, lastResponse run.2.log = some response ∧
      (EndsTurn response →
        ((⟨none, true, true⟩ : ReplyDirectives) = found response.text ↔
          Carried response.text)) :=
  runAgentLoop_directives_iff (answering "[[silent]] [[@current]] x".toList) [] _
    List.mem_cons_self ⟨[], ⟨0, 0⟩, 1, true, ⟨none, true, true⟩⟩ (by decide +kernel)

/-- A reply that names the message it answers comes back without the name. -/
theorem runAgentLoop_directives_lost :
    ¬ ∀ (a : Args (Str × Lib.Json.Value)) (session : List Message) (r : AgentLoopResult)
      (response : CompletionResponse), (runAgentLoop a session).1 = .returned r →
      lastResponse (runAgentLoop a session).2.log = some response → EndsTurn response →
      r.directives = found response.text := by
  intro h
  have hdirectives := h (answering "[[reply:msg_123]] Hello!".toList) []
    ⟨"Hello!".toList, ⟨0, 0⟩, 1, false, noDirectives⟩
    ⟨[.text "[[reply:msg_123]] Hello!".toList], .endTurn, [], ⟨0, 0⟩⟩
    (by decide +kernel) (by decide +kernel) (.inl rfl)
  exact absurd hdirectives (by decide +kernel)

end Run

end Clawreform.Runtime.ResultDirectives
