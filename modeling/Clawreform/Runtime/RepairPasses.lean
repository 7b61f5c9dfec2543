import Mathlib.Tactic.Common
import Clawreform.Runtime.SessionRepair

namespace Clawreform.Runtime.SessionRepair

open Clawreform.Lib.Text Clawreform.Lib.Splice Clawreform.Lib.Table
open Clawreform.Types

section Index

variable {messages : List Message} {id : Str}

def callPairs (n : Nat) (messages : List Message) : List (Str × Nat) :=
  (messages.zipIdx n).flatMap (fun p => p.1.calls.map (fun id => (id, p.2)))

theorem callPairs_append (n : Nat) (xs ys : List Message) :
    callPairs n (xs ++ ys) = callPairs n xs ++ callPairs (n + xs.length) ys := by
  simp [callPairs, List.zipIdx_append]

theorem mem_callPairs {n k : Nat} : (id, k) ∈ callPairs n messages ↔
    n ≤ k ∧ ∃ m, messages[k - n]? = some m ∧ id ∈ m.calls := by
  simp only [callPairs, List.mem_flatMap, List.mem_map, Prod.mk.injEq, Prod.exists]
  constructor
  · rintro ⟨m, i, hm, id', hid, rfl, rfl⟩
    obtain ⟨hle, hget⟩ := List.mk_mem_zipIdx_iff_le_and_getElem?_sub.mp hm
    exact ⟨hle, m, hget, hid⟩
  · rintro ⟨hle, m, hget, hid⟩
    exact ⟨m, k, List.mk_mem_zipIdx_iff_le_and_getElem?_sub.mpr ⟨hle, hget⟩, id, hid, rfl, rfl⟩

theorem toolUseIndex_append (pre post : List Message) :
    toolUseIndex (pre ++ post) id =
      (insertAll (callPairs pre.length post) id).or (toolUseIndex pre id) := by
  have : toolUseIndex (pre ++ post) id = insertAll (callPairs 0 (pre ++ post)) id := rfl
  rw [this, callPairs_append, insertAll_append, Nat.zero_add]
  rfl

theorem toolUseIndex_mem {k : Nat} (h : toolUseIndex messages id = some k) :
    ∃ m, messages[k]? = some m ∧ id ∈ m.calls :=
  (mem_callPairs (n := 0).mp (mem_of_insertAll h)).2

theorem toolUseIndex_ge {j : Nat} {m : Message} (hj : messages[j]? = some m)
    (hid : id ∈ m.calls) : ∃ k, toolUseIndex messages id = some k ∧ j ≤ k := by
  obtain ⟨hlt, rfl⟩ := List.getElem?_eq_some_iff.mp hj
  have hsplit : messages = messages.take j ++ messages.drop j := (List.take_append_drop j messages).symm
  have hlen : (messages.take j).length = j := by simp [Nat.le_of_lt hlt]
  have happ := @toolUseIndex_append id (messages.take j) (messages.drop j)
  rw [← hsplit, hlen] at happ
  cases hs : insertAll (callPairs j (messages.drop j)) id with
  | none =>
    refine absurd rfl (insertAll_eq_none_iff.mp hs (id, j) ?_)
    exact mem_callPairs.mpr ⟨le_refl _, messages[j], by simp, hid⟩
  | some k =>
    rw [hs] at happ
    exact ⟨k, happ, (mem_callPairs.mp (mem_of_insertAll hs)).1⟩

/-- The index finds an assistant message that calls the id and after which no
message does. -/
theorem toolUseIndex_eq_some_iff (pre : List Message) (m : Message) (post : List Message) :
    toolUseIndex (pre ++ m :: post) id = some pre.length ↔
      id ∈ m.calls ∧ id ∉ post.flatMap Message.calls := by
  have hm : (pre ++ m :: post)[pre.length]? = some m := by simp
  constructor
  · intro h
    obtain ⟨m', hm', hid⟩ := toolUseIndex_mem h
    obtain rfl : m' = m := Option.some.inj (hm'.symm.trans hm)
    refine ⟨hid, ?_⟩
    intro hpost
    obtain ⟨c, hc, hcid⟩ := List.mem_flatMap.mp hpost
    obtain ⟨j, hj⟩ := List.mem_iff_getElem?.mp hc
    have hget : (pre ++ m' :: post)[pre.length + (j + 1)]? = some c := by
      rw [List.getElem?_append_right (by omega)]
      simpa using hj
    obtain ⟨k, hk, hle⟩ := toolUseIndex_ge hget hcid
    rw [h] at hk
    obtain rfl := Option.some.inj hk
    omega
  · rintro ⟨hid, hpost⟩
    obtain ⟨k, hk, hle⟩ := toolUseIndex_ge hm hid
    obtain ⟨c, hc, hcid⟩ := toolUseIndex_mem hk
    rcases Nat.eq_or_lt_of_le hle with rfl | hlt
    · exact hk
    · refine absurd (List.mem_flatMap.mpr ⟨c, ?_, hcid⟩) hpost
      rw [List.getElem?_append_right hle] at hc
      obtain ⟨j, hj⟩ := Nat.exists_eq_add_of_lt hlt
      have hj' : k - pre.length = j + 1 := by omega
      rw [hj', List.getElem?_cons_succ] at hc
      exact List.mem_of_getElem? hc

theorem toolUseIndex_eq_none_iff :
    toolUseIndex messages id = none ↔ id ∉ messages.flatMap Message.calls := by
  constructor
  · intro h hid
    obtain ⟨m, hm, hmid⟩ := List.mem_flatMap.mp hid
    obtain ⟨j, hj⟩ := List.mem_iff_getElem?.mp hm
    obtain ⟨k, hk, -⟩ := toolUseIndex_ge hj hmid
    rw [h] at hk
    cases hk
  · intro h
    cases hk : toolUseIndex messages id with
    | none => rfl
    | some k =>
      obtain ⟨m, hm, hid⟩ := toolUseIndex_mem hk
      exact absurd (List.mem_flatMap.mpr ⟨m, List.mem_of_getElem? hm, hid⟩) h

end Index

section Plan

def entryAt (group : Nat → List ContentBlock) (i : Nat) : Option (Nat × List ContentBlock) :=
  if group i = [] then none else some (i, group i)

/-- The messages that are left of a history, each with the results that go
behind it. -/
def plan (shrink : Message → Nat → Message) (group : Nat → List ContentBlock) :
    Nat → List Message → List (Message × Option (Nat × List ContentBlock))
  | _, [] => []
  | i, m :: ms =>
    if (shrink m i).content.isEmpty then plan shrink group (i + 1) ms
    else (shrink m i, entryAt group i) :: plan shrink group (i + 1) ms

/-- Put the planned results behind the messages, all in one pass. -/
def attachAll (d : List (Message × Option (Nat × List ContentBlock))) : List Message :=
  onePass (fun e => attachResults e.2) d

variable {shrink : Message → Nat → Message} {group : Nat → List ContentBlock}

theorem plan_map_fst (i : Nat) (ms : List Message) : (plan shrink group i ms).map Prod.fst =
    dropEmpty ((ms.zipIdx i).map (fun p => shrink p.1 p.2)) := by
  induction ms generalizing i with
  | nil => rfl
  | cons m ms ih =>
    rw [plan, List.zipIdx_cons, List.map_cons, dropEmpty, List.filter_cons]
    cases h : (shrink m i).content.isEmpty with
    | true => simpa [h, dropEmpty] using ih (i + 1)
    | false => simpa [h, dropEmpty] using ih (i + 1)

theorem plan_filterMap_snd {i : Nat} {ms : List Message}
    (hempty : ∀ j m, ms[j]? = some m → (shrink m (i + j)).content.isEmpty = true →
      group (i + j) = []) :
    (plan shrink group i ms).filterMap Prod.snd =
      (List.range' i ms.length).filterMap (entryAt group) := by
  induction ms generalizing i with
  | nil => rfl
  | cons m ms ih =>
    have hrec := ih (i := i + 1) (fun j m' hj he => by
      have := hempty (j + 1) m' hj
      rw [show i + 1 + j = i + (j + 1) by omega] at he ⊢
      exact this he)
    rw [plan, List.length_cons, List.range'_succ, List.filterMap_cons, ← hrec]
    cases h : (shrink m i).content.isEmpty with
    | true =>
      have hg : entryAt group i = none := if_pos (hempty 0 m rfl h)
      simp [hg]
    | false => simp [List.filterMap_cons]

theorem plan_split {i : Nat} {ms : List Message} {x : Message × Option (Nat × List ContentBlock)}
    {pre post : List (Message × Option (Nat × List ContentBlock))}
    (h : plan shrink group i ms = pre ++ x :: post) :
    ∃ ms₁ m ms₂, ms = ms₁ ++ m :: ms₂ ∧ pre = plan shrink group i ms₁ ∧
      x = (shrink m (i + ms₁.length), entryAt group (i + ms₁.length)) ∧
      post = plan shrink group (i + ms₁.length + 1) ms₂ := by
  induction ms generalizing i pre with
  | nil => simp [plan] at h
  | cons m ms ih =>
    cases he : (shrink m i).content.isEmpty with
    | true =>
      rw [plan, if_pos he] at h
      obtain ⟨ms₁, m', ms₂, rfl, hpre, hx, hpost⟩ := ih h
      refine ⟨m :: ms₁, m', ms₂, rfl, ?_, ?_, ?_⟩
      · rw [hpre, plan, if_pos he]
      · rw [hx, List.length_cons, Nat.add_right_comm, Nat.add_assoc]
      · rw [hpost, List.length_cons, Nat.add_right_comm i, Nat.add_assoc i]
    | false =>
      rw [plan, if_neg (by simp [he])] at h
      cases pre with
      | nil =>
        obtain ⟨rfl, rfl⟩ := List.cons.inj h
        exact ⟨[], m, ms, rfl, rfl, rfl, rfl⟩
      | cons y pre =>
        obtain ⟨rfl, hrest⟩ := List.cons.inj h
        obtain ⟨ms₁, m', ms₂, rfl, hpre, hx, hpost⟩ := ih hrest
        refine ⟨m :: ms₁, m', ms₂, rfl, ?_, ?_, ?_⟩
        · rw [hpre, plan, if_neg (by simp [he])]
        · rw [hx, List.length_cons, Nat.add_right_comm, Nat.add_assoc]
        · rw [hpost, List.length_cons, Nat.add_right_comm i, Nat.add_assoc i]

/-- The insertions, done from the last index to the first, come to one pass. -/
theorem foldl_groups {ms : List Message} {positions : Nat → Option Nat}
    (hempty : ∀ j m, ms[j]? = some m → (shrink m j).content.isEmpty = true → group j = [])
    (hpos : ∀ pre a e post, plan shrink group 0 ms = pre ++ (a, some e) :: post →
      positions e.1 = some pre.length) :
    (sortedGroups ms.length group).foldl (fun ms e =>
        match positions e.1 with
        | some idx => applyAt (attachResults e.2) (idx + 1) ms
        | none => ms)
      (dropEmpty (ms.zipIdx.map (fun p => shrink p.1 p.2))) =
      attachAll (plan shrink group 0 ms) := by
  have hgroups : sortedGroups ms.length group =
      ((plan shrink group 0 ms).filterMap Prod.snd).reverse := by
    rw [plan_filterMap_snd (by simpa using hempty), ← List.range_eq_range']
    rfl
  have hpos' : ∀ e ∈ sortedGroups ms.length group, ∃ idx, positions e.1 = some idx := by
    intro e he
    rw [hgroups, List.mem_reverse, List.mem_filterMap] at he
    obtain ⟨⟨a, o⟩, hmem, rfl⟩ := he
    obtain ⟨pre, post, hsplit⟩ := List.append_of_mem hmem
    exact ⟨_, hpos pre a e post hsplit⟩
  have hfold := foldl_applyAt (fun e => attachResults e.2)
    (fun e => (positions e.1).getD 0 + 1) [] (plan shrink group 0 ms) (by
      intro pre a e post h
      rw [hpos pre a e post h]
      simp)
  rw [List.nil_append, List.nil_append, plan_map_fst, ← hgroups] at hfold
  rw [attachAll, ← hfold]
  refine List.foldl_ext _ _ _ ?_
  intro l e he
  obtain ⟨idx, hidx⟩ := hpos' e he
  rw [hidx]
  rfl

/-- Nothing to shrink and nothing to attach. -/
theorem attachAll_plan_self {i : Nat} {ms : List Message}
    (hne : ∀ m ∈ ms, m.content.isEmpty = false) (hshrink : ∀ m j, shrink m j = m)
    (hgroup : ∀ j, group j = []) : attachAll (plan shrink group i ms) = ms := by
  induction ms generalizing i with
  | nil => rfl
  | cons m ms ih =>
    have hm : (shrink m i).content.isEmpty = false := by
      rw [hshrink]
      exact hne m (List.mem_cons_self ..)
    have hrec := ih (i := i + 1) (fun m' hm' => hne m' (List.mem_cons_of_mem _ hm'))
    rw [plan, if_neg (by simp [hm]), entryAt, if_pos (hgroup i), attachAll, onePass, hshrink]
    rw [attachAll] at hrec
    rw [hrec]

end Plan

section Reduction

variable {messages : List Message}

theorem mem_misplacedResults {r : Misplaced} : r ∈ misplacedResults messages ↔
    r.block.resultId? = some r.toolUseId ∧
      toolUseIndex messages r.toolUseId = some r.assistantIdx ∧
      r.msgIdx ≠ r.assistantIdx + 1 ∧
      ∃ m, messages[r.msgIdx]? = some m ∧ m.role = .user ∧ r.block ∈ m.content.blockList := by
  have hblock : ∀ (i : Nat) (b : ContentBlock),
      misplacedBlock (toolUseIndex messages) i b = some r ↔
        b = r.block ∧ i = r.msgIdx ∧ r.block.resultId? = some r.toolUseId ∧
        toolUseIndex messages r.toolUseId = some r.assistantIdx ∧
        r.msgIdx ≠ r.assistantIdx + 1 := by
    intro i b
    constructor
    · intro h
      unfold misplacedBlock at h
      split at h
      · cases h
      · rename_i id hid
        split at h
        · cases h
        · rename_i a ha
          split at h <;> rename_i hne
          · cases h
          · obtain rfl := Option.some.inj h
            exact ⟨rfl, rfl, hid, ha, hne⟩
    · rintro ⟨rfl, rfl, hid, ha, hne⟩
      simp [misplacedBlock, hid, ha, hne]
  simp only [misplacedResults, List.mem_flatMap, Prod.exists]
  constructor
  · rintro ⟨m, i, hm, hr⟩
    split at hr <;> rename_i hrole
    · obtain ⟨b, hb, hbr⟩ := List.mem_filterMap.mp hr
      obtain ⟨rfl, rfl, hid, ha, hne⟩ := (hblock i b).mp hbr
      exact ⟨hid, ha, hne, m, List.mk_mem_zipIdx_iff_getElem?.mp hm, hrole, hb⟩
    · cases hr
  · rintro ⟨hid, ha, hne, m, hm, hrole, hb⟩
    refine ⟨m, r.msgIdx, List.mk_mem_zipIdx_iff_getElem?.mpr hm, ?_⟩
    rw [if_pos hrole]
    exact List.mem_filterMap.mpr ⟨_, hb, (hblock _ _).mpr ⟨rfl, rfl, hid, ha, hne⟩⟩

theorem mem_groupOf {misplaced : List Misplaced} {k : Nat} {b : ContentBlock} :
    b ∈ groupOf misplaced k ↔ ∃ r ∈ misplaced, r.assistantIdx = k ∧ r.block = b := by
  simp [groupOf, and_assoc]

theorem exists_of_groupOf_ne_nil {k : Nat} (h : groupOf (misplacedResults messages) k ≠ []) :
    ∃ id, toolUseIndex messages id = some k := by
  obtain ⟨b, hb⟩ := List.exists_mem_of_ne_nil _ h
  obtain ⟨r, hr, rfl, -⟩ := mem_groupOf.mp hb
  exact ⟨r.toolUseId, (mem_misplacedResults.mp hr).2.1⟩

theorem calls_eq_nil {m : Message} (h : m.role ≠ .assistant) : m.calls = [] := if_neg h

@[simp] theorem removeSources_role (misplaced : List Misplaced) (m : Message) (i : Nat) :
    (removeSources misplaced m i).role = m.role := by
  unfold removeSources
  split <;> rfl

theorem removeSources_of_not_user {misplaced : List Misplaced} {m : Message} (i : Nat)
    (h : m.role ≠ .user) : removeSources misplaced m i = m := by
  unfold removeSources
  split
  · rename_i hr _
    exact absurd hr h
  · rfl

@[simp] theorem removeSources_calls (misplaced : List Misplaced) (m : Message) (i : Nat) :
    (removeSources misplaced m i).calls = m.calls := by
  by_cases h : m.role = .user
  · rw [calls_eq_nil (m := m) (by simp [h]), calls_eq_nil (by simp [h])]
  · rw [removeSources_of_not_user i h]

theorem removeSources_nil (m : Message) (i : Nat) : removeSources [] m i = m := by
  have hs : ∀ b, isSource [] i b = false := by
    intro b
    unfold isSource
    split <;> rfl
  unfold removeSources
  split
  · rename_i bs hr hc
    cases m
    simp only at hr hc
    simp [hs, hr, hc]
  · rfl

theorem groupOf_nil (k : Nat) : groupOf [] k = [] := rfl

/-- A shrunk message that is empty held results only; none go behind it. -/
theorem groupOf_of_isEmpty {j : Nat} {m : Message} (hm : messages[j]? = some m)
    (hne : m.content.isEmpty = false)
    (he : (removeSources (misplacedResults messages) m j).content.isEmpty = true) :
    groupOf (misplacedResults messages) j = [] := by
  by_contra hgroup
  obtain ⟨id, hid⟩ := exists_of_groupOf_ne_nil hgroup
  obtain ⟨m', hm', hcall⟩ := toolUseIndex_mem hid
  obtain rfl : m' = m := Option.some.inj (hm'.symm.trans hm)
  have hrole : m'.role ≠ .user := by
    intro hr
    rw [calls_eq_nil (by simp [hr])] at hcall
    cases hcall
  rw [removeSources_of_not_user j hrole, hne] at he
  cases he

def positionPairs (messages : List Message) (n : Nat) (ms : List Message) : List (Nat × Nat) :=
  (ms.zipIdx n).flatMap (fun p =>
    p.1.calls.filterMap (fun id => (toolUseIndex messages id).map (fun i => (i, p.2))))

theorem mem_positionPairs {n k j : Nat} {ms : List Message}
    (h : (k, j) ∈ positionPairs messages n ms) :
    ∃ m id, ms[j - n]? = some m ∧ n ≤ j ∧ id ∈ m.calls ∧ toolUseIndex messages id = some k := by
  simp only [positionPairs, List.mem_flatMap, List.mem_filterMap, Option.map_eq_some_iff,
    Prod.mk.injEq, Prod.exists] at h
  obtain ⟨m, i, hm, id, hid, a, ha, rfl, rfl⟩ := h
  obtain ⟨hle, hget⟩ := List.mk_mem_zipIdx_iff_le_and_getElem?_sub.mp hm
  exact ⟨m, id, hget, hle, hid, ha⟩

/-- The position of a message that results go behind is found: no message after
it has an index this small. -/
theorem assistantPositions_plan {pre post : List (Message × Option (Nat × List ContentBlock))}
    {a : Message} {e : Nat × List ContentBlock}
    (h : plan (removeSources (misplacedResults messages)) (groupOf (misplacedResults messages)) 0
      messages = pre ++ (a, some e) :: post) :
    assistantPositions (toolUseIndex messages) ((pre ++ (a, some e) :: post).map Prod.fst) e.1 =
      some pre.length := by
  obtain ⟨ms₁, m, ms₂, hms, -, hx, hpost⟩ := plan_split h
  rw [Nat.zero_add] at hx hpost
  obtain ⟨rfl, hentry⟩ := Prod.mk.inj hx
  have hgroup : groupOf (misplacedResults messages) ms₁.length ≠ [] ∧ e.1 = ms₁.length := by
    unfold entryAt at hentry
    split at hentry <;> rename_i hg
    · cases hentry
    · obtain rfl := Option.some.inj hentry
      exact ⟨hg, rfl⟩
  have hm : messages[ms₁.length]? = some m := by simp [hms]
  obtain ⟨id, hid⟩ := exists_of_groupOf_ne_nil hgroup.1
  obtain ⟨m', hm', hcall⟩ := toolUseIndex_mem hid
  obtain rfl : m' = m := Option.some.inj (hm'.symm.trans hm)
  have hsplit : assistantPositions (toolUseIndex messages)
      ((pre ++ (removeSources (misplacedResults messages) m' ms₁.length, some e) :: post).map
        Prod.fst) = insertAll (positionPairs messages 0 (pre.map Prod.fst) ++
          (positionPairs messages pre.length
            [removeSources (misplacedResults messages) m' ms₁.length] ++
          positionPairs messages (pre.length + 1) (post.map Prod.fst))) := by
    simp [assistantPositions, positionPairs, List.zipIdx_append]
  -- a later message called by an id with this index would have to come before it
  have hlast : insertAll (positionPairs messages (pre.length + 1) (post.map Prod.fst))
      ms₁.length = none := by
    rw [insertAll_eq_none_iff]
    rintro ⟨k, j⟩ hp rfl
    obtain ⟨c, id', hc, -, hid', hidx⟩ := mem_positionPairs hp
    obtain ⟨⟨c', o⟩, hmem, rfl⟩ := List.mem_map.mp (List.mem_of_getElem? hc)
    rw [hpost] at hmem
    obtain ⟨p₁, p₂, hp⟩ := List.append_of_mem hmem
    obtain ⟨q₁, c₀, q₂, hms₂, -, hx', -⟩ := plan_split hp
    obtain ⟨rfl, -⟩ := Prod.mk.inj hx'
    rw [removeSources_calls] at hid'
    have hget : messages[ms₁.length + (q₁.length + 1)]? = some c₀ := by
      rw [hms, List.getElem?_append_right (by omega), hms₂]
      simp
    obtain ⟨k', hk', hle⟩ := toolUseIndex_ge hget hid'
    rw [hidx] at hk'
    obtain rfl := Option.some.inj hk'
    omega
  have hhere : insertAll (positionPairs messages pre.length
      [removeSources (misplacedResults messages) m' ms₁.length]) ms₁.length =
      some pre.length := by
    apply insertAll_eq_some
    · refine ⟨(ms₁.length, pre.length), ?_, rfl⟩
      simp only [positionPairs, List.zipIdx_cons, List.zipIdx_nil, List.flatMap_cons,
        List.flatMap_nil, List.append_nil, removeSources_calls, List.mem_filterMap]
      exact ⟨id, hcall, by rw [hid]; rfl⟩
    · rintro ⟨k, j⟩ hp rfl
      obtain ⟨c, id', hc, hle, -⟩ := mem_positionPairs hp
      have hlt := (List.getElem?_eq_some_iff.mp hc).1
      simp only [List.length_singleton] at hlt
      simp only
      omega
  rw [hsplit, hgroup.2, insertAll_append, insertAll_append, hlast, hhere]
  rfl

theorem reorderToolResults_eq (hne : ∀ m ∈ messages, m.content.isEmpty = false) :
    (reorderToolResults messages).1 =
      attachAll (plan (removeSources (misplacedResults messages))
        (groupOf (misplacedResults messages)) 0 messages) := by
  unfold reorderToolResults
  by_cases h : misplacedResults messages = []
  · rw [if_pos h, h]
    exact (attachAll_plan_self hne (removeSources_nil) groupOf_nil).symm
  · rw [if_neg h]
    refine foldl_groups ?_ ?_
    · intro j m hm he
      exact groupOf_of_isEmpty hm (hne m (List.mem_of_getElem? hm)) he
    · intro pre a e post hplan
      rw [← assistantPositions_plan hplan, ← hplan, plan_map_fst]

theorem plan_length {group : Nat → List ContentBlock} {i : Nat} {ms : List Message}
    (hne : ∀ m ∈ ms, m.content.isEmpty = false) :
    (plan (fun m _ => m) group i ms).length = ms.length := by
  have := congrArg List.length (@plan_map_fst (fun m _ => m) group i ms)
  rw [List.length_map] at this
  rw [this, dropEmpty, List.filter_eq_self.mpr]
  · simp
  · intro m hm
    obtain ⟨⟨m', j⟩, hj, rfl⟩ := List.mem_map.mp hm
    simpa using hne m' (List.fst_mem_of_mem_zipIdx hj)

theorem insertSyntheticResults_eq (hne : ∀ m ∈ messages, m.content.isEmpty = false) :
    (insertSyntheticResults messages).1 =
      attachAll (plan (fun m _ => m) (syntheticGroup (orphanedUses messages)) 0 messages) := by
  unfold insertSyntheticResults
  by_cases h : orphanedUses messages = []
  · rw [if_pos h, h]
    exact (attachAll_plan_self hne (fun _ _ => rfl) (fun _ => rfl)).symm
  · rw [if_neg h]
    have hfold := @foldl_groups (fun m _ => m) (syntheticGroup (orphanedUses messages)) messages
      some (by
        intro j m hm he
        rw [hne m (List.mem_of_getElem? hm)] at he
        cases he) (by
        intro pre a e post hplan
        obtain ⟨ms₁, m, ms₂, hms, hpre, hx, -⟩ := plan_split hplan
        rw [Nat.zero_add] at hx
        have hentry := (Prod.mk.inj hx).2
        unfold entryAt at hentry
        split at hentry
        · cases hentry
        · obtain rfl := Option.some.inj hentry
          rw [hpre, plan_length (fun m' hm' => hne m' (by simp [hms, hm']))])
    have hself : dropEmpty (messages.zipIdx.map (fun p => p.1)) = messages := by
      rw [List.zipIdx_map_fst, dropEmpty, List.filter_eq_self.mpr]
      intro m hm
      simp [hne m hm]
    rw [hself] at hfold
    exact hfold

end Reduction

end Clawreform.Runtime.SessionRepair
