import Clawreform.Runtime.SessionRecord

namespace Clawreform.Runtime.HeartbeatPruning

open Clawreform.Lib.Text Clawreform.Types Clawreform.Runtime.SessionRepair

variable {messages : List Message} {keepRecent n i k : Nat} {m next : Message}

section Property

def NoReply (m : Message) : Prop := m.role = .assistant ∧ isNoReply m.content = true

/-- Every tool use has its result in the message behind it. -/
def Paired (messages : List Message) : Prop :=
  ∀ before m after, messages = before ++ m :: after → ∀ id ∈ m.toolUses,
    ∃ next rest, after = next :: rest ∧ id ∈ next.toolResults

/-- An answer without a reply, or the prompt in front of one. What brings results is no prompt. -/
def Idle (messages : List Message) (i : Nat) : Prop :=
  ∃ m, messages[i]? = some m ∧ (NoReply m ∨ m.role = .user ∧ m.toolResults = [] ∧
    ∃ next, messages[i + 1]? = some next ∧ NoReply next)

/-- Only idle messages are gone, the recent ones stay, and so does the pairing. -/
structure Prunes (keepRecent : Nat) (messages pruned : List Message) : Prop where
  removed : ∃ indices, pruned = removeIndices indices messages ∧ ∀ i ∈ indices, Idle messages i
  recent : messages.drop (messages.length - keepRecent) <:+ pruned
  paired : Paired pruned

/-- The results of a call stand in front of an answer without a reply, before the recent part. -/
def Answers (messages : List Message) (keepRecent i : Nat) : Prop :=
  ∃ m next, messages[i]? = some m ∧ messages[i + 1]? = some next ∧
    i + 1 < messages.length - keepRecent ∧ m.role = .user ∧ m.toolResults ≠ [] ∧ NoReply next

end Property

section Removal

variable {α : Type} {indices : List Nat} {p : α → Bool}

theorem removeIndices_eq (indices : List Nat) (l : List α) :
    removeIndices indices l = removeFrom 0 indices l := rfl

theorem removeFrom_append (k : Nat) (indices : List Nat) (a b : List α) :
    removeFrom k indices (a ++ b) =
      removeFrom k indices a ++ removeFrom (k + a.length) indices b := by
  rw [removeFrom, List.zipIdx_append, List.filter_append, List.map_append]
  rfl

theorem removeFrom_of_lt {l : List α} (h : ∀ i ∈ indices, i < k) : removeFrom k indices l = l := by
  induction l generalizing k with
  | nil => rfl
  | cons x l ih =>
    rw [removeFrom_cons, if_neg fun hk => Nat.lt_irrefl k (h k hk),
      ih fun i hi => Nat.lt_succ_of_lt (h i hi)]

/-- Elements of a kind none of which is removed are all kept. -/
theorem countP_removeFrom {l : List α}
    (h : ∀ i x, l[i]? = some x → k + i ∈ indices → p x = false) :
    (removeFrom k indices l).countP p = l.countP p := by
  induction l generalizing k with
  | nil => rfl
  | cons x l ih =>
    have hlater : (removeFrom (k + 1) indices l).countP p = l.countP p := by
      refine ih fun i y hy hi => h (i + 1) y hy ?_
      rwa [Nat.add_comm i 1, ← Nat.add_assoc]
    rw [removeFrom_cons]
    split
    · rename_i hk
      rw [hlater, List.countP_cons_of_neg]
      rw [h 0 x rfl hk]
      exact Bool.false_ne_true
    · rw [List.countP_cons, List.countP_cons, hlater]

theorem removeFrom_sublist (k : Nat) (indices : List Nat) (l : List α) :
    (removeFrom k indices l).Sublist l := by
  have h : (((l.zipIdx k).filter fun q => !indices.contains q.2).map Prod.fst).Sublist
      ((l.zipIdx k).map Prod.fst) := List.filter_sublist.map Prod.fst
  rwa [List.zipIdx_map_fst] at h

/-- And one less when one of them is removed. -/
theorem countP_removeFrom_lt {a b : List α} {x : α} (hp : p x = true)
    (hi : k + a.length ∈ indices) :
    (removeFrom k indices (a ++ x :: b)).countP p < (a ++ x :: b).countP p := by
  have ha := (removeFrom_sublist k indices a).countP_le (p := p)
  have hb := (removeFrom_sublist (k + a.length + 1) indices b).countP_le (p := p)
  rw [removeFrom_append, removeFrom_cons, if_pos hi, List.countP_append, List.countP_append,
    List.countP_cons_of_pos hp]
  omega

end Removal

section Pruning

theorem noReply_toolResults (h : NoReply m) : m.toolResults = [] := by
  obtain ⟨role, content⟩ := m
  have hreply : isNoReply content = true := h.2
  unfold isNoReply at hreply
  split at hreply
  · rfl
  · rfl
  · cases hreply

/-- The marked indices are those of the answers without a reply among the first messages and of
the user messages in front of them. -/
theorem mem_prunedIndices_iff : i ∈ prunedIndices messages n ↔
    (i < n ∧ ∃ m, messages[i]? = some m ∧ NoReply m) ∨
      (i + 1 < n ∧ ∃ m next, messages[i]? = some m ∧ messages[i + 1]? = some next ∧
        m.role = .user ∧ NoReply next) := by
  rw [prunedIndices, List.mem_flatMap]
  constructor
  · rintro ⟨j, hj, hi⟩
    rw [List.mem_range] at hj
    split at hi
    · rename_i m hm
      split at hi
      · rename_i hreply
        obtain rfl | hi := List.mem_cons.mp hi
        · exact .inl ⟨hj, m, hm, hreply⟩
        · split at hi
          · rename_i huser
            obtain rfl := List.mem_singleton.mp hi
            obtain ⟨prompt, hprompt, hrole⟩ := Option.map_eq_some_iff.mp huser.2
            have hnext : j - 1 + 1 = j := Nat.sub_add_cancel huser.1
            exact .inr ⟨by omega, prompt, m, hprompt, by rw [hnext]; exact hm, hrole, hreply⟩
          · cases hi
      · cases hi
    · cases hi
  · rintro (⟨hi, m, hm, hreply⟩ | ⟨hi, m, next, hm, hnext, hrole, hreply⟩)
    · refine ⟨i, List.mem_range.mpr hi, ?_⟩
      rw [hm]
      dsimp only
      rw [if_pos (And.intro hreply.1 hreply.2)]
      exact List.mem_cons_self
    · refine ⟨i + 1, List.mem_range.mpr hi, ?_⟩
      rw [hnext]
      dsimp only
      rw [if_pos (And.intro hreply.1 hreply.2), Nat.add_sub_cancel, hm,
        if_pos ⟨Nat.succ_pos i, congrArg some hrole⟩]
      exact List.mem_cons_of_mem _ (List.mem_singleton_self i)

theorem prune_eq (messages : List Message) (keepRecent : Nat) :
    pruneHeartbeatTurns messages keepRecent =
      removeFrom 0 (prunedIndices messages (messages.length - keepRecent)) messages := by
  rw [pruneHeartbeatTurns]
  split
  · rename_i hle
    rw [Nat.sub_eq_zero_of_le hle]
    exact (removeFrom_of_lt fun _ h => absurd h List.not_mem_nil).symm
  · rfl

theorem lt_of_mem_prunedIndices (h : i ∈ prunedIndices messages n) : i < n := by
  obtain ⟨hi, -⟩ | ⟨hi, -⟩ := mem_prunedIndices_iff.mp h
  · exact hi
  · exact Nat.lt_of_succ_lt hi

theorem prune_recent (messages : List Message) (keepRecent : Nat) :
    messages.drop (messages.length - keepRecent) <:+ pruneHeartbeatTurns messages keepRecent := by
  rw [prune_eq]
  generalize hn : messages.length - keepRecent = n
  have hlength : (messages.take n).length = n := by
    rw [List.length_take]
    omega
  have hsplit := removeFrom_append 0 (prunedIndices messages n) (messages.take n) (messages.drop n)
  rw [List.take_append_drop, hlength, Nat.zero_add] at hsplit
  rw [hsplit, removeFrom_of_lt fun i => lt_of_mem_prunedIndices]
  exact List.suffix_append _ _

/-- What answers a tool use is not removed, so the pairing stays. -/
theorem removeFrom_paired {indices : List Nat} (hpaired : Paired messages)
    (hidle : ∀ i ∈ indices, Idle messages i) : Paired (removeFrom 0 indices messages) := by
  intro before m after hsplit id hid
  obtain ⟨pre, post, rfl, rfl⟩ := removeFrom_split hsplit
  obtain ⟨next, rest, rfl, hanswered⟩ := hpaired pre m post rfl id hid
  refine ⟨next, removeFrom (0 + pre.length + 1 + 1) indices rest, ?_, hanswered⟩
  rw [removeFrom_cons, if_neg]
  intro hmem
  obtain ⟨x, hx, hwhy⟩ := hidle _ hmem
  obtain rfl : next = x := by
    rw [List.getElem?_append_right (by omega),
      show 0 + pre.length + 1 - pre.length = 1 by omega] at hx
    exact Option.some.inj hx
  have hnone : next.toolResults = [] := by
    obtain hreply | ⟨-, hnone, -⟩ := hwhy
    · exact noReply_toolResults hreply
    · exact hnone
  rw [hnone] at hanswered
  cases hanswered

theorem idle_of_mem_prunedIndices (hfree : ∀ i, ¬ Answers messages keepRecent i)
    (h : i ∈ prunedIndices messages (messages.length - keepRecent)) : Idle messages i := by
  obtain ⟨-, m, hm, hreply⟩ | ⟨hi, m, next, hm, hnext, hrole, hreply⟩ :=
    mem_prunedIndices_iff.mp h
  · exact ⟨m, hm, .inl hreply⟩
  · refine ⟨m, hm, .inr ⟨hrole, ?_, next, hnext, hreply⟩⟩
    by_contra hresults
    exact hfree i ⟨m, next, hm, hnext, hi, hrole, hresults, hreply⟩

/-- A paired history is pruned as it should be exactly when no results of a call stand directly in
front of an answer without a reply, before the recent messages. -/
theorem pruneHeartbeatTurns_iff (messages : List Message) (keepRecent : Nat)
    (hpaired : Paired messages) :
    Prunes keepRecent messages (pruneHeartbeatTurns messages keepRecent) ↔
      ∀ i, ¬ Answers messages keepRecent i := by
  constructor
  · rintro ⟨⟨indices, hindices, hidle⟩, -, -⟩ i ⟨m, next, hm, hnext, hi, hrole, hresults, hreply⟩
    let brings : Message → Bool := fun x => x.toolResults ≠ []
    have hsame : (removeFrom 0 indices messages).countP brings = messages.countP brings := by
      refine countP_removeFrom fun j x hx hj => ?_
      obtain ⟨y, hy, hwhy⟩ := hidle j (by rwa [Nat.zero_add] at hj)
      obtain rfl : x = y := Option.some.inj (hx.symm.trans hy)
      rw [decide_eq_false_iff_not, not_not]
      obtain hreply | ⟨-, hnone, -⟩ := hwhy
      · exact noReply_toolResults hreply
      · exact hnone
    have hless : (pruneHeartbeatTurns messages keepRecent).countP brings <
        messages.countP brings := by
      obtain ⟨hlt, rfl⟩ := List.getElem?_eq_some_iff.mp hm
      have hsplit : messages.take i ++ messages[i] :: messages.drop (i + 1) = messages := by
        rw [List.getElem_cons_drop, List.take_append_drop]
      have hmarked : i ∈ prunedIndices messages (messages.length - keepRecent) :=
        mem_prunedIndices_iff.mpr (.inr ⟨hi, _, next, hm, hnext, hrole, hreply⟩)
      have hfewer := @countP_removeFrom_lt 0 _ (prunedIndices messages
        (messages.length - keepRecent)) brings (messages.take i) (messages.drop (i + 1))
        messages[i] (decide_eq_true hresults) (by
          rw [List.length_take, min_eq_left hlt.le, Nat.zero_add]
          exact hmarked)
      rwa [hsplit, ← prune_eq] at hfewer
    rw [hindices, removeIndices_eq, hsame] at hless
    exact Nat.lt_irrefl _ hless
  · intro hfree
    refine ⟨⟨prunedIndices messages (messages.length - keepRecent), prune_eq messages keepRecent,
      fun i => idle_of_mem_prunedIndices hfree⟩, prune_recent messages keepRecent, ?_⟩
    rw [prune_eq]
    exact removeFrom_paired hpaired fun i => idle_of_mem_prunedIndices hfree

theorem paired_nil : Paired [] := by
  intro before m after h
  simp at h

theorem paired_cons {l : List Message} (hfirst : ∀ id ∈ m.toolUses,
    ∃ next rest, l = next :: rest ∧ id ∈ next.toolResults) (hrest : Paired l) :
    Paired (m :: l) := by
  intro before x after h
  cases before with
  | nil =>
    obtain ⟨rfl, rfl⟩ := List.cons.inj h
    exact hfirst
  | cons y before => exact hrest before x after (List.cons.inj h).2

/-- A tool call, its result, and an answer without a reply. -/
def silentExchange : List Message :=
  [⟨.assistant, .blocks [.toolUse "t".toList "file_read".toList .null]⟩,
    ⟨.user, .blocks [.toolResult "t".toList "done".toList false]⟩,
    Message.assistant "NO_REPLY".toList, Message.user "hello".toList]

theorem silentExchange_paired : Paired silentExchange := by
  refine paired_cons (fun id hid => ⟨_, _, rfl, hid⟩) (paired_cons nofun ?_)
  exact paired_cons nofun (paired_cons nofun paired_nil)

theorem pruneHeartbeatTurns_iff_silentExchange :
    Prunes 2 silentExchange (pruneHeartbeatTurns silentExchange 2) ↔
      ∀ i, ¬ Answers silentExchange 2 i :=
  pruneHeartbeatTurns_iff silentExchange 2 silentExchange_paired

/-- The results go with the silent answer, and the call is left alone. -/
theorem prune_breaks_pairs : ¬ ∀ messages keepRecent, Paired messages →
    Prunes keepRecent messages (pruneHeartbeatTurns messages keepRecent) := by
  intro h
  have hleft : pruneHeartbeatTurns silentExchange 1 =
      [⟨.assistant, .blocks [.toolUse "t".toList "file_read".toList .null]⟩,
        Message.user "hello".toList] := by
    decide
  have hpaired := (h silentExchange 1 silentExchange_paired).paired
  rw [hleft] at hpaired
  obtain ⟨next, rest, hnext, hresult⟩ := hpaired [] _ _ rfl "t".toList (by decide)
  obtain ⟨rfl, -⟩ := List.cons.inj hnext
  revert hresult
  decide

end Pruning

end Clawreform.Runtime.HeartbeatPruning
