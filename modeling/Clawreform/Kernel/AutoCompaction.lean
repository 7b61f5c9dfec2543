import Clawreform.Kernel.Conversation
import Clawreform.Lib.Slices

namespace Clawreform.Kernel.AutoCompaction

open Clawreform.Lib.Text Clawreform.Lib.Slices Clawreform.Types Clawreform.Memory
open Clawreform.Runtime Clawreform.Runtime.SessionRepair Clawreform.Kernel.Conversation

variable {κ : Type}

section Code

/-- Why the kernel compacts a session: its number of messages, or its estimated tokens with the
system prompt in front of a turn and without it behind one. -/
inductive Trigger where
  | messageCount
  | tokenCount (systemPrompt : Option Str)
  deriving DecidableEq

def Trigger.Meets (session : Session) : Trigger → Prop
  | .messageCount => needsCompaction session
  | .tokenCount systemPrompt =>
    needsCompactionByTokens (estimateTokens session.messages (systemPrompt.getD []) [])

instance (session : Session) (trigger : Trigger) : Decidable (trigger.Meets session) :=
  match trigger with
  | .messageCount => inferInstanceAs (Decidable (needsCompaction session))
  | .tokenCount _ => inferInstanceAs (Decidable (needsCompactionByTokens _))

/-- How the registry, the memory and the driver answer the call. -/
structure Answers where
  registered : Bool
  loads : Bool
  resolves : Bool
  summary : List Message → Str
  storesSummary : Bool
  savesSession : Bool

inductive CompactError where
  | agentNotFound
  | memory
  | driver
  deriving DecidableEq

inductive Outcome where
  | notNeeded (messages : Nat)
  | compacted (messages kept : Nat)
  deriving DecidableEq

def withSummary (agentId : AgentId) (summary : List Message → Str) (s : Talk κ)
    (session : Session) : Talk κ :=
  { s with store := s.store.saveCanonical (summaryOf agentId s summary session) }

def compactAgentSession (agentId : AgentId) (answers : Answers) (s : Talk κ) :
    Except CompactError Outcome × Talk κ :=
  if ¬ answers.registered then (.error .agentNotFound, s)
  else if ¬ answers.loads then (.error .memory, s)
  else
    let session := s.loadSession agentId s.sessionId
    if ¬ needsCompaction session then (.ok (.notNeeded session.messages.length), s)
    else if ¬ answers.resolves then (.error .driver, s)
    else if ¬ answers.storesSummary then (.error .memory, s)
    else
      let stored := withSummary agentId answers.summary s session
      let repaired := validateAndRepair (keptMessages session.messages)
      if ¬ answers.savesSession then (.error .memory, stored)
      else
        (.ok (.compacted (toCompact session.messages).length repaired.length),
          stored.save session repaired)

end Code

section Purpose

/-- The messages are the recent ones; a compaction has repaired them. -/
def OnlyRecent (before after : List Message) : Outcome → Prop
  | .notNeeded _ => after = keptMessages before
  | .compacted _ _ => after = validateAndRepair (keptMessages before)

end Purpose

section Compaction

variable {agentId : AgentId} {answers : Answers} {s s' : Talk κ} {outcome : Outcome}
  {trigger : Trigger} {messages : List Message}

theorem keptMessages_eq_iff : messages = keptMessages messages ↔ messages.length ≤ keepRecent := by
  constructor
  · intro h
    have hlen := congrArg List.length h
    rw [keptMessages, List.length_drop] at hlen
    have : keepRecent = 10 := rfl
    omega
  · intro h
    rw [keptMessages, Nat.sub_eq_zero_of_le h, List.drop_zero]

/-- The two ways to return `Ok`. -/
theorem compact_cases (h : compactAgentSession agentId answers s = (.ok outcome, s')) :
    (¬ needsCompaction (s.loadSession agentId s.sessionId) ∧ s' = s ∧
      outcome = .notNeeded (s.loadSession agentId s.sessionId).messages.length) ∨
    (needsCompaction (s.loadSession agentId s.sessionId) ∧
      (∃ old kept, outcome = .compacted old kept) ∧
      s' = (withSummary agentId answers.summary s (s.loadSession agentId s.sessionId)).save
        (s.loadSession agentId s.sessionId)
        (validateAndRepair (keptMessages (s.loadSession agentId s.sessionId).messages))) := by
  unfold compactAgentSession at h
  split at h
  · cases h
  split at h
  · cases h
  by_cases hneeds : needsCompaction (s.loadSession agentId s.sessionId)
  · refine .inr ⟨hneeds, ?_⟩
    simp only [hneeds, not_true_eq_false, ↓reduceIte] at h
    split at h
    · cases h
    split at h
    · cases h
    split at h
    · cases h
    cases h
    exact ⟨⟨_, _, rfl⟩, rfl⟩
  · refine .inl ⟨hneeds, ?_⟩
    simp only [hneeds, not_false_eq_true, ↓reduceIte] at h
    cases h
    exact ⟨rfl, rfl⟩

theorem loadSession_save {session : Session} (s : Talk κ) :
    ((s.save session messages).loadSession agentId session.id).messages = messages := by
  rw [Talk.loadSession, Talk.save, SessionStore.getSession_saveSession, if_pos rfl]
  rfl

/-- A compaction leaves the recent messages, and without one the session stays what it was. -/
theorem compacted_messages (h : compactAgentSession agentId answers s = (.ok outcome, s')) :
    (needsCompaction (s.loadSession agentId s.sessionId) →
      OnlyRecent (s.loadSession agentId s.sessionId).messages
        (s'.loadSession agentId s'.sessionId).messages outcome) ∧
    (¬ needsCompaction (s.loadSession agentId s.sessionId) →
      s' = s ∧ ∃ n, outcome = .notNeeded n) := by
  obtain ⟨hneeds, hs, hout⟩ | ⟨hneeds, ⟨old, kept, rfl⟩, hs⟩ := compact_cases h
  · exact ⟨fun hyes => absurd hyes hneeds, fun _ => ⟨hs, _, hout⟩⟩
  · refine ⟨fun _ => ?_, fun hno => absurd hneeds hno⟩
    have hid : s'.sessionId = (s.loadSession agentId s.sessionId).id := by
      rw [loadSession_id, hs]
      rfl
    rw [OnlyRecent, hid, hs, loadSession_save]

/-- A call that returns `Ok` takes the steps of a compaction in a conversation, with none of
another call between them. -/
theorem compact_steps [DecidableEq κ]
    (h : compactAgentSession agentId answers s = (.ok outcome, s')) :
    (fun p : Talk κ × Call κ =>
      ((advance agentId p.1 p.2).1, (advance agentId p.1 p.2).2.1))^[5]
      (s, .compact answers.summary none) = (s', .done) := by
  obtain ⟨hneeds, rfl, -⟩ | ⟨hneeds, -, rfl⟩ := compact_cases h
  · simp [advance, hneeds, afterCompaction]
  · simp [advance, hneeds, afterCompaction, withSummary]

/-- Compaction does its job for the sessions with enough messages for it, and for those that have
nothing but recent ones. -/
theorem compaction_relieves_iff (h : compactAgentSession agentId answers s = (.ok outcome, s'))
    (htrigger : trigger.Meets (s.loadSession agentId s.sessionId)) :
    (¬ trigger.Meets (s'.loadSession agentId s'.sessionId) ∨
      OnlyRecent (s.loadSession agentId s.sessionId).messages
        (s'.loadSession agentId s'.sessionId).messages outcome) ↔
    threshold < (s.loadSession agentId s.sessionId).messages.length ∨
      (s.loadSession agentId s.sessionId).messages.length ≤ keepRecent := by
  obtain ⟨hyes, hno⟩ := compacted_messages h
  by_cases hneeds : needsCompaction (s.loadSession agentId s.sessionId)
  · exact ⟨fun _ => .inl hneeds, fun _ => .inr (hyes hneeds)⟩
  · obtain ⟨rfl, n, rfl⟩ := hno hneeds
    rw [OnlyRecent, keptMessages_eq_iff]
    constructor
    · rintro (hquiet | hfew)
      · exact absurd htrigger hquiet
      · exact .inr hfew
    · rintro (hmany | hfew)
      · exact absurd hmany hneeds
      · exact .inr hfew

/-- The agent 7 with these messages in its session. -/
def talkOf (messages : List Message) : Talk Unit where
  store := SessionStore.saveSession ⟨∅, ∅⟩ ⟨1, 7, messages, 0, none⟩
  sessionId := 1
  calls := []
  answered := []

theorem loadSession_talkOf (messages : List Message) :
    ((talkOf messages).loadSession 7 1).messages = messages := by
  rw [Talk.loadSession, talkOf, SessionStore.getSession_saveSession, if_pos rfl]
  rfl

theorem meets_talkOf (messages : List Message) :
    (Trigger.tokenCount none).Meets ((talkOf messages).loadSession 7 1) ↔
      140000 < estimateTokens messages [] [] := by
  rw [Trigger.Meets, loadSession_talkOf]
  rfl

def answering : Answers := ⟨true, true, true, fun _ => "They talked.".toList, true, true⟩

theorem estimateTokens_replicate (n : Nat) (text : Str) :
    estimateTokens (List.replicate n (.user text)) [] [] = n * (byteLen text + 16) / 4 := by
  rw [estimateTokens, List.map_replicate, List.sum_replicate_nat]
  exact congrArg (· / 4) (Nat.zero_add _)

/-- Eleven messages of sixty thousand letters. -/
def longTalk : Talk Unit := talkOf (List.replicate 11 (Message.user (List.replicate 60000 'a')))

theorem longTalk_meets :
    (Trigger.tokenCount none).Meets (longTalk.loadSession 7 longTalk.sessionId) := by
  refine (meets_talkOf _).mpr ?_
  have hsize : 'a'.utf8Size = 1 := by decide
  rw [estimateTokens_replicate, byteLen_replicate, hsize]
  decide

/-- Nothing is compacted, and the tokens are as many as before. -/
theorem longTalk_not_relieved :
    ¬ ∀ (answers : Answers) (s s' : Talk Unit) (agentId : AgentId) (outcome : Outcome)
      (trigger : Trigger), trigger.Meets (s.loadSession agentId s.sessionId) →
      compactAgentSession agentId answers s = (.ok outcome, s') →
      ¬ trigger.Meets (s'.loadSession agentId s'.sessionId) ∨
        OnlyRecent (s.loadSession agentId s.sessionId).messages
          (s'.loadSession agentId s'.sessionId).messages outcome := by
  intro h
  have hmessages : (longTalk.loadSession 7 longTalk.sessionId).messages =
      List.replicate 11 (Message.user (List.replicate 60000 'a')) := loadSession_talkOf _
  have hfew : ¬ needsCompaction (longTalk.loadSession 7 longTalk.sessionId) := by
    rw [needsCompaction, hmessages, List.length_replicate]
    decide
  have hcall : compactAgentSession 7 answering longTalk = (.ok (.notNeeded 11), longTalk) := by
    rw [compactAgentSession, if_neg (by decide), if_neg (by decide)]
    simp only [hfew, not_false_eq_true, ↓reduceIte, hmessages, List.length_replicate]
  obtain hquiet | hrecent := h answering longTalk longTalk 7 _ _ longTalk_meets hcall
  · exact hquiet longTalk_meets
  · rw [OnlyRecent, keptMessages_eq_iff, hmessages, List.length_replicate] at hrecent
    exact absurd hrecent (by decide)

/-- Thirty-one short messages. -/
def chattyTalk : Talk Unit := talkOf (List.replicate 31 (Message.user "hi".toList))

theorem compaction_relieves_iff_chatty :
    (¬ Trigger.messageCount.Meets ((compactAgentSession 7 answering chattyTalk).2.loadSession 7 1) ∨
      OnlyRecent (chattyTalk.loadSession 7 1).messages
        ((compactAgentSession 7 answering chattyTalk).2.loadSession 7 1).messages
        (.compacted 21 1)) ↔
    threshold < (chattyTalk.loadSession 7 1).messages.length ∨
      (chattyTalk.loadSession 7 1).messages.length ≤ keepRecent :=
  @compaction_relieves_iff _ 7 answering chattyTalk (compactAgentSession 7 answering chattyTalk).2
    (.compacted 21 1) .messageCount (Prod.ext rfl rfl) (by decide)

end Compaction

end Clawreform.Kernel.AutoCompaction
