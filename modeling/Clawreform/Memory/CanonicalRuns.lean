import Clawreform.Lib.Slices
import Clawreform.Memory.Session

namespace Clawreform.Memory.CanonicalRuns

open Clawreform.Lib.Text Clawreform.Lib.Store Clawreform.Lib.Slices Clawreform.Types

section Append

/-- `append_canonical` with a threshold of its own, up to the save. -/
def appendOver (c : CanonicalSession) (new : List Message) (compactionThreshold : Option Nat) :
    Option CanonicalSession :=
  let messages := c.messages ++ new
  let threshold := compactionThreshold.getD defaultCompactionThreshold
  let toCompact := messages.length - defaultCanonicalWindow
  if threshold < messages.length ∧ c.compactionCursor < toCompact then do
    let parts ← ((messages.take toCompact).drop c.compactionCursor).mapM summaryPart
    let full := "\n".toList.intercalate (c.compactedSummary.toList ++ parts.flatten)
    let summary ← if 4000 < byteLen full then (splitBytes (byteLen full - 4000) full).map (·.2)
      else some full
    some { c with
      messages := messages.drop toCompact
      compactionCursor := 0
      compactedSummary := some summary }
  else some { c with messages := messages }

theorem appendOver_none (c : CanonicalSession) (new : List Message) :
    appendOver c new none = c.append new := rfl

/-- What the summary says of a message: its text, or the first 200 bytes of it. -/
def LineOf (m : Message) (line : Str) : Prop :=
  ∃ t, t <+: m.content.textContent ∧
    (t = m.content.textContent ∧ byteLen t ≤ 200 ∧ line = roleLabel m.role ++ ": ".toList ++ t ∨
      byteLen t = 200 ∧ line = roleLabel m.role ++ ": ".toList ++ (t ++ "...".toList))

/-- A summary is the end of the old one and of the lines of the messages dropped, those without
a text apart. -/
def Folded (old : Option Str) (dropped : List Message) (summary : Str) : Prop :=
  ∃ lines cut, List.Forall₂ LineOf (dropped.filter (·.content.textContent ≠ [])) lines ∧
    "\n".toList.intercalate (old.toList ++ lines) = cut ++ summary ∧ byteLen summary ≤ 4000 ∧
    (cut ≠ [] → byteLen summary = 4000)

/-- What an append does to the messages and the summary. -/
structure Appended (threshold : Nat) (new : List Message) (before after : CanonicalSession) :
    Prop where
  bounded : after.messages.length ≤ max threshold defaultCanonicalWindow
  folded : ∃ dropped, before.messages ++ new = dropped ++ after.messages ∧
    (dropped = [] ∧ after.compactedSummary = before.compactedSummary ∨
      ∃ summary, after.compactedSummary = some summary ∧
        Folded before.compactedSummary dropped summary)

theorem lineOf_of_summaryPart {m : Message} {parts : List Str} (h : summaryPart m = some parts) :
    m.content.textContent = [] ∧ parts = [] ∨
      m.content.textContent ≠ [] ∧ ∃ line, parts = [line] ∧ LineOf m line := by
  unfold summaryPart at h
  dsimp only at h
  split at h
  · cases h
    exact .inl ⟨‹_›, rfl⟩
  · rename_i htext
    refine .inr ⟨htext, ?_⟩
    split at h
    · obtain ⟨truncated, ht, heq⟩ := Option.bind_eq_some_iff.mp h
      cases heq
      obtain ⟨⟨a, b⟩, hcut, rfl⟩ := Option.map_eq_some_iff.mp ht
      obtain ⟨hsplit, hlen⟩ := splitBytes_eq hcut
      exact ⟨_, rfl, a, ⟨b, hsplit.symm⟩, .inr ⟨hlen, rfl⟩⟩
    · rename_i hshort
      cases h
      exact ⟨_, rfl, _, List.prefix_rfl, .inl ⟨rfl, Nat.not_lt.mp hshort, rfl⟩⟩

theorem lines_of_mapM {dropped : List Message} {parts : List (List Str)}
    (h : dropped.mapM summaryPart = some parts) :
    List.Forall₂ LineOf (dropped.filter (·.content.textContent ≠ [])) parts.flatten := by
  induction dropped generalizing parts with
  | nil =>
    cases h
    exact .nil
  | cons m dropped ih =>
    rw [List.mapM_cons] at h
    obtain ⟨p, hp, h⟩ := Option.bind_eq_some_iff.mp h
    obtain ⟨ps, hps, heq⟩ := Option.bind_eq_some_iff.mp h
    cases heq
    have hrest := ih hps
    obtain ⟨htext, rfl⟩ | ⟨htext, line, rfl, hline⟩ := lineOf_of_summaryPart hp
    · rw [List.filter_cons_of_neg (by simp [htext]), List.flatten_cons, List.nil_append]
      exact hrest
    · rw [List.filter_cons_of_pos (by simp [htext]), List.flatten_cons, List.singleton_append]
      exact .cons hline hrest

theorem appendOver_appended {c c' : CanonicalSession} {new : List Message} {threshold : Option Nat}
    (hcursor : c.compactionCursor = 0) (h : appendOver c new threshold = some c') :
    c'.agentId = c.agentId ∧ c'.compactionCursor = 0 ∧
      Appended (threshold.getD defaultCompactionThreshold) new c c' := by
  unfold appendOver at h
  dsimp only at h
  split at h
  · obtain ⟨parts, hparts, h⟩ := Option.bind_eq_some_iff.mp h
    rw [hcursor, List.drop_zero] at hparts
    have hlines := lines_of_mapM hparts
    have hsplit := List.take_append_drop ((c.messages ++ new).length - defaultCanonicalWindow)
      (c.messages ++ new)
    have hbounded : ((c.messages ++ new).drop
        ((c.messages ++ new).length - defaultCanonicalWindow)).length ≤
        max (threshold.getD defaultCompactionThreshold) defaultCanonicalWindow := by
      rw [List.length_drop]
      omega
    split at h
    · rename_i hlong
      obtain ⟨summary, hsummary, heq⟩ := Option.bind_eq_some_iff.mp h
      cases heq
      obtain ⟨⟨cut, rest⟩, hcut, rfl⟩ := Option.map_eq_some_iff.mp hsummary
      obtain ⟨hfull, hlen⟩ := splitBytes_eq hcut
      have hsum := congrArg byteLen hfull
      rw [byteLen_append] at hsum
      have hrest : byteLen rest = 4000 := by omega
      exact ⟨rfl, rfl, hbounded, _, hsplit.symm, .inr ⟨rest, rfl, parts.flatten, cut, hlines,
        hfull, hrest.le, fun _ => hrest⟩⟩
    · rename_i hshort
      cases h
      exact ⟨rfl, rfl, hbounded, _, hsplit.symm, .inr ⟨_, rfl, parts.flatten, [], hlines, rfl,
        Nat.not_lt.mp hshort, fun hne => absurd rfl hne⟩⟩
  · rename_i hsmall
    cases h
    refine ⟨rfl, hcursor, ?_, [], rfl, .inl ⟨rfl, rfl⟩⟩
    rw [hcursor] at hsmall
    dsimp only
    omega

end Append

section Run

inductive Op where
  | append (agentId : AgentId) (new : List Message) (compactionThreshold : Option Nat)
  | storeLlmSummary (agentId : AgentId) (summary : Str) (kept : List Message)

/-- A call that panics leaves the store as it is. -/
def next (s : SessionStore) : Op → SessionStore
  | .append agentId new compactionThreshold =>
    ((appendOver (s.loadCanonical agentId) new compactionThreshold).map s.saveCanonical).getD s
  | .storeLlmSummary agentId summary kept => s.storeLlmSummary agentId summary kept

def start : SessionStore := ⟨∅, ∅⟩

def run (ops : List Op) : SessionStore := ops.foldl next start

variable (agentId : AgentId)

/-- The messages an agent would have, had nothing been compacted since the last summary from
outside. -/
def extend (s : SessionStore) (full : List Message) : Op → List Message
  | .append id new compactionThreshold =>
    if id = agentId ∧ (appendOver (s.loadCanonical id) new compactionThreshold).isSome then
      full ++ new
    else full
  | .storeLlmSummary id _ kept => if id = agentId then kept else full

def watch (w : SessionStore × List Message) (op : Op) : SessionStore × List Message :=
  (next w.1 op, extend agentId w.1 w.2 op)

def full (ops : List Op) : List Message := (ops.foldl (watch agentId) (start, [])).2

theorem watch_run (ops : List Op) : (ops.foldl (watch agentId) (start, [])).1 = run ops := by
  have hfrom : ∀ w : SessionStore × List Message,
      (ops.foldl (watch agentId) w).1 = ops.foldl next w.1 := by
    induction ops with
    | nil => exact fun _ => rfl
    | cons op ops ih => exact fun w => ih (watch agentId w op)
  exact hfrom (start, [])

/-- The rows belong to their agents and have nothing left to compact, and the messages of one
agent end what it would have. -/
structure Kept (w : SessionStore × List Message) : Prop where
  owner : ∀ id, (w.1.loadCanonical id).agentId = id
  cursor : ∀ id, (w.1.loadCanonical id).compactionCursor = 0
  suffix : (w.1.loadCanonical agentId).messages <:+ w.2

variable {agentId} {w : SessionStore × List Message}

theorem loadCanonical_saveCanonical (s : SessionStore) (c : CanonicalSession) (id : AgentId) :
    (s.saveCanonical c).loadCanonical id = if id = c.agentId then c else s.loadCanonical id := by
  unfold SessionStore.loadCanonical SessionStore.saveCanonical
  rw [lookup_insert]
  split <;> rfl

theorem kept_start : Kept agentId (start, []) where
  owner _ := rfl
  cursor _ := rfl
  suffix := List.nil_suffix

theorem Kept.save (h : Kept agentId w) {c : CanonicalSession} {messages : List Message}
    (hcursor : c.compactionCursor = 0)
    (hown : c.agentId = agentId → c.messages <:+ messages)
    (hother : c.agentId ≠ agentId → messages = w.2) :
    Kept agentId (w.1.saveCanonical c, messages) where
  owner id := by
    rw [loadCanonical_saveCanonical]
    split
    · exact Eq.symm ‹_›
    · exact h.owner id
  cursor id := by
    rw [loadCanonical_saveCanonical]
    split
    · exact hcursor
    · exact h.cursor id
  suffix := by
    rw [loadCanonical_saveCanonical]
    split
    · exact hown (Eq.symm ‹_›)
    · exact hother (Ne.symm ‹_›) ▸ h.suffix

theorem watch_append_none {id : AgentId} {new : List Message} {threshold : Option Nat}
    (h : appendOver (w.1.loadCanonical id) new threshold = none) :
    watch agentId w (.append id new threshold) = w := by
  simp [watch, next, extend, h]

theorem watch_append_some {id : AgentId} {new : List Message} {threshold : Option Nat}
    {c : CanonicalSession} (h : appendOver (w.1.loadCanonical id) new threshold = some c) :
    watch agentId w (.append id new threshold) =
      (w.1.saveCanonical c, if id = agentId then w.2 ++ new else w.2) := by
  simp [watch, next, extend, h]

theorem Kept.step (h : Kept agentId w) (op : Op) : Kept agentId (watch agentId w op) := by
  cases op with
  | append id new threshold =>
    cases happend : appendOver (w.1.loadCanonical id) new threshold with
    | none => rwa [watch_append_none happend]
    | some c =>
      obtain ⟨howner, hcursor, happended⟩ := appendOver_appended (h.cursor id) happend
      rw [h.owner id] at howner
      rw [watch_append_some happend]
      refine h.save hcursor (fun hown => ?_) fun hne => if_neg (howner ▸ hne)
      obtain rfl : id = agentId := howner.symm.trans hown
      obtain ⟨dropped, hsplit, -⟩ := happended.folded
      obtain ⟨front, hfront⟩ := h.suffix
      rw [if_pos rfl]
      exact ⟨front ++ dropped, by rw [List.append_assoc, ← hsplit, ← List.append_assoc, hfront]⟩
  | storeLlmSummary id summary kept =>
    have howner := h.owner id
    refine h.save (c := { w.1.loadCanonical id with
      compactedSummary := some summary, messages := kept, compactionCursor := 0 }) rfl ?_ ?_
    · intro heq
      rw [extend, if_pos (howner.symm.trans heq)]
    · intro hne
      rw [extend, if_neg fun hid => hne (howner.trans hid)]

theorem kept_run (agentId : AgentId) (ops : List Op) :
    Kept agentId (ops.foldl (watch agentId) (start, [])) := by
  have hfrom : ∀ w, Kept agentId w → Kept agentId (ops.foldl (watch agentId) w) := by
    induction ops with
    | nil => exact fun w h => h
    | cons op ops ih => exact fun w h => ih _ (h.step op)
  exact hfrom _ kept_start

/-- Over any run of calls, the messages of an agent end those appended since its last summary
from outside, and what an append that returns drops goes into the summary. -/
theorem canonical_run (agentId : AgentId) (ops : List Op) :
    let c := (run ops).loadCanonical agentId
    c.messages <:+ full agentId ops ∧
      (∀ new threshold c', appendOver c new threshold = some c' →
        Appended (threshold.getD defaultCompactionThreshold) new c c') ∧
      ∀ summary kept,
        let c' := (run (ops ++ [.storeLlmSummary agentId summary kept])).loadCanonical agentId
        c'.messages = kept ∧ c'.compactedSummary = some summary := by
  intro c
  have hkept := kept_run agentId ops
  have hrun := watch_run agentId ops
  refine ⟨?_, fun new threshold c' h => ?_, fun summary kept => ?_⟩
  · have hsuffix := hkept.suffix
    rwa [hrun] at hsuffix
  · have hcursor := hkept.cursor agentId
    rw [hrun] at hcursor
    exact (appendOver_appended hcursor h).2.2
  · have howner := hkept.owner agentId
    rw [hrun] at howner
    have hlast : run (ops ++ [.storeLlmSummary agentId summary kept]) =
        (run ops).storeLlmSummary agentId summary kept := by
      rw [run, List.foldl_append]
      rfl
    intro c'
    have hc' : c' = { (run ops).loadCanonical agentId with
        compactedSummary := some summary, messages := kept, compactionCursor := 0 } := by
      show (run _).loadCanonical agentId = _
      rw [hlast, SessionStore.storeLlmSummary, loadCanonical_saveCanonical, if_pos howner.symm]
    rw [hc']
    exact ⟨rfl, rfl⟩

/-- Two of 52 messages are dropped. -/
theorem canonical_run_over :
    let c := (run [.append 1 [.user ['a'], .user ['b']] none]).loadCanonical 1
    let new := List.replicate 50 (.user ['c'])
    ∃ c', appendOver c new (some 0) = some c' ∧ Appended 0 new c c' := by
  intro c new
  obtain ⟨c', h⟩ : ∃ c', appendOver c new (some 0) = some c' :=
    Option.isSome_iff_exists.mp (by decide +kernel)
  exact ⟨c', h, (canonical_run 1 [.append 1 [.user ['a'], .user ['b']] none]).2.1 new (some 0) c' h⟩

/-- All messages appended for an agent. -/
def appended (agentId : AgentId) (ops : List Op) : List Message :=
  ops.flatMap fun
    | .append id new _ => if id = agentId then new else []
    | .storeLlmSummary _ _ _ => []

/-- A summary from outside brings messages that were never appended, and takes others away
although it does not tell of them. -/
theorem canonical_replaced :
    (¬ ∀ agentId ops, ((run ops).loadCanonical agentId).messages <:+ appended agentId ops) ∧
      ¬ ∀ agentId ops, ∀ m ∈ appended agentId ops,
        m ∈ ((run ops).loadCanonical agentId).messages ∨
          ∃ summary ∈ ((run ops).loadCanonical agentId).compactedSummary,
            m.content.textContent <:+: summary := by
  constructor
  · intro h
    have hsuffix := h 1 [.storeLlmSummary 1 [] [.user ['a']]]
    revert hsuffix
    decide +kernel
  · intro h
    have hlost := h 1 [.append 1 [.user ['a']] none, .storeLlmSummary 1 [] []] (.user ['a'])
      (by decide +kernel)
    revert hlost
    decide +kernel

end Run

end Clawreform.Memory.CanonicalRuns
