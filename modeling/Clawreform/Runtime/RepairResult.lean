import Clawreform.Runtime.RepairInvariant

namespace Clawreform.Runtime.SessionRepair

open Clawreform.Lib.Text
open Clawreform.Types

section Stages

def cleaned (l : List Message) : List Message := l.filterMap (cleanMessage (toolUseIds l))

theorem cleaned_eq (l : List Message) :
    cleaned l = dropEmpty (l.map (strip (toolUseIds l))) := filterMap_cleanMessage _ l

theorem cleaned_callers (l : List Message) : callers (cleaned l) = callers l := by
  rw [cleaned_eq, dropEmpty_callers, thin_callers (strip_forall₂ _ l)]

theorem cleaned_toolUseIds (l : List Message) : toolUseIds (cleaned l) = toolUseIds l := by
  rw [cleaned_eq, dropEmpty_toolUseIds, thin_toolUseIds (strip_forall₂ _ l)]

theorem cleaned_nonempty (l : List Message) : ∀ m ∈ cleaned l, m.content.isEmpty = false := by
  rw [cleaned_eq]
  exact dropEmpty_nonempty

theorem mem_cleaned_toolResultIds {l : List Message} {id : Str} :
    id ∈ toolResultIds (cleaned l) ↔ id ∈ toolResultIds l ∧ id ∈ toolUseIds l := by
  rw [cleaned_eq, dropEmpty_toolResultIds, mem_toolResultIds_strip]

theorem cleaned_seated {l : List Message} (h : ∀ m ∈ l, Seated m) :
    ∀ m ∈ cleaned l, Seated m := by
  rw [cleaned_eq]
  exact dropEmpty_seated (thin_seated (strip_forall₂ _ l) h)

def answered (l : List Message) : List Message :=
  (insertSyntheticResults (reorderToolResults (cleaned l)).1).1

theorem answered_callers (l : List Message) : callers (answered l) = callers l := by
  rw [answered, synthetic_callers (reorder_nonempty (cleaned_nonempty l)),
    reorder_callers (cleaned_nonempty l), cleaned_callers]

theorem answered_toolUseIds (l : List Message) : toolUseIds (answered l) = toolUseIds l := by
  rw [answered, synthetic_toolUseIds (reorder_nonempty (cleaned_nonempty l)),
    reorder_toolUseIds (cleaned_nonempty l), cleaned_toolUseIds]

theorem answered_seated {l : List Message} (h : ∀ m ∈ l, Seated m) :
    ∀ m ∈ answered l, Seated m :=
  synthetic_seated (reorder_nonempty (cleaned_nonempty l))
    (reorder_seated (cleaned_nonempty l) (cleaned_seated h))

theorem reordered_callers (l : List Message) :
    callers (reorderToolResults (cleaned l)).1 = callers l := by
  rw [reorder_callers (cleaned_nonempty l), cleaned_callers]

theorem mem_answered_toolResultIds {l : List Message} {id : Str} :
    id ∈ toolResultIds (answered l) ↔
      (id ∈ toolResultIds l ∧ id ∈ toolUseIds l) ∨ id ∈ calledIn l := by
  rw [answered, mem_synthetic_toolResultIds (reorder_nonempty (cleaned_nonempty l)),
    mem_reorder_toolResultIds (cleaned_nonempty l), mem_cleaned_toolResultIds,
    calledIn_congr (reordered_callers l)]

/-- No id that lacks a result is called by two assistant messages. -/
def UnansweredOnce (l : List Message) : Prop :=
  ∀ id, id ∉ toolResultIds l → l.countP (fun m => id ∈ m.calls) ≤ 1

theorem answered_placed {l : List Message} (h : UnansweredOnce l) :
    Placed (calledIn l) [] (answered l) := by
  have hp := reorder_placed (cleaned_nonempty l)
  rw [calledIn_congr (cleaned_callers l)] at hp
  refine synthetic_placed (reorder_nonempty (cleaned_nonempty l)) hp ?_
  intro id hno
  rw [mem_reorder_toolResultIds (cleaned_nonempty l), mem_cleaned_toolResultIds] at hno
  rw [countP_callers, reordered_callers, ← countP_callers]
  by_cases hid : id ∈ toolResultIds l
  · -- a result that is no tool use's: nobody calls the id
    have hzero : l.countP (fun m => id ∈ m.calls) = 0 := by
      rw [List.countP_eq_zero]
      intro m hm hcall
      have hcall' : id ∈ m.calls := by simpa using hcall
      exact hno ⟨hid, calledIn_subset l (List.mem_flatMap.mpr ⟨m, hm, hcall'⟩)⟩
    omega
  · exact h id hid

def deduped (l : List Message) : List Message := (deduplicateToolResults (answered l)).1

theorem deduped_eq (l : List Message) :
    deduped l = dropEmpty (dedupMessages [] (answered l)) := rfl

theorem deduped_callers (l : List Message) : callers (deduped l) = callers l := by
  rw [deduped_eq, dropEmpty_callers, thin_callers (dedupMessages_forall₂ _ _), answered_callers]

theorem deduped_toolUseIds (l : List Message) : toolUseIds (deduped l) = toolUseIds l := by
  rw [deduped_eq, dropEmpty_toolUseIds, thin_toolUseIds (dedupMessages_forall₂ _ _),
    answered_toolUseIds]

theorem mem_deduped_toolResultIds {l : List Message} {id : Str} :
    id ∈ toolResultIds (deduped l) ↔
      (id ∈ toolResultIds l ∧ id ∈ toolUseIds l) ∨ id ∈ calledIn l := by
  rw [deduped_eq, dropEmpty_toolResultIds, mem_dedupMessages_toolResultIds,
    ← mem_answered_toolResultIds]
  simp

def kept (l : List Message) : List Message := removeAbortedAssistantMessages (deduped l)

theorem validateAndRepair_eq (l : List Message) :
    validateAndRepair l = mergeConsecutive (kept l) := rfl

theorem kept_nonempty (l : List Message) : ∀ m ∈ kept l, m.content.isEmpty = false := by
  intro m hm
  have hmem := (aborted_sublist (deduped l)).subset hm
  rw [deduped_eq] at hmem
  exact dropEmpty_nonempty m hmem

theorem kept_seated {l : List Message} (h : ∀ m ∈ l, Seated m) : ∀ m ∈ kept l, Seated m := by
  intro m hm
  have hmem := (aborted_sublist (deduped l)).subset hm
  rw [deduped_eq] at hmem
  exact dropEmpty_seated (thin_seated (dedupMessages_forall₂ _ _) (answered_seated h)) m hmem

theorem kept_nodup (l : List Message) : (toolResultIds (kept l)).Nodup := by
  rw [kept, aborted_toolResultIds, deduped_eq, dropEmpty_toolResultIds]
  exact dedupMessages_nodup _ _

theorem kept_placed {l : List Message} (h : UnansweredOnce l) :
    Placed (calledIn l) [] (kept l) := by
  rw [kept, deduped_eq]
  exact aborted_placed (dropEmpty_placed (thin_placed (dedupMessages_forall₂ _ _)
    (answered_placed h)))

end Stages

section Repaired

/-- What a repaired history is like, whatever went in. -/
structure Tidy (l : List Message) : Prop where
  nonempty : ∀ m ∈ l, m.content.isEmpty = false
  alternates : l.IsChain (fun a b => a.role ≠ b.role)
  known : ∀ id ∈ toolResultIds l, id ∈ toolUseIds l
  answers : ∀ id ∈ calledIn l, id ∈ toolResultIds l
  nodup : (toolResultIds l).Nodup
  blankLast : BlankLast l

structure Repaired (l : List Message) : Prop extends Tidy l where
  placed : Placed (calledIn l) [] l

variable {l : List Message}

theorem merge_toolUseIds (l : List Message) : toolUseIds (mergeConsecutive l) = toolUseIds l := by
  cases l with
  | nil => rfl
  | cons m l => exact mergeFrom_toolUseIds m l

theorem merge_toolResultIds (l : List Message) :
    toolResultIds (mergeConsecutive l) = toolResultIds l := by
  cases l with
  | nil => rfl
  | cons m l => exact mergeFrom_toolResultIds m l

theorem merge_calledIn (l : List Message) : calledIn (mergeConsecutive l) = calledIn l := by
  cases l with
  | nil => rfl
  | cons m l => exact mergeFrom_calledIn m l

theorem repair_toolUseIds (l : List Message) :
    toolUseIds (validateAndRepair l) = toolUseIds l := by
  rw [validateAndRepair_eq, merge_toolUseIds, kept, aborted_toolUseIds, deduped_toolUseIds]

theorem repair_calledIn (l : List Message) : calledIn (validateAndRepair l) = calledIn l := by
  rw [validateAndRepair_eq, merge_calledIn, kept, calledIn_congr (aborted_callers _),
    calledIn_congr (deduped_callers l)]

theorem mem_repair_toolResultIds {id : Str} : id ∈ toolResultIds (validateAndRepair l) ↔
    (id ∈ toolResultIds l ∧ id ∈ toolUseIds l) ∨ id ∈ calledIn l := by
  rw [validateAndRepair_eq, merge_toolResultIds, kept, aborted_toolResultIds,
    mem_deduped_toolResultIds]

theorem validateAndRepair_tidy (l : List Message) : Tidy (validateAndRepair l) where
  nonempty := by
    rw [validateAndRepair_eq]
    cases h : kept l with
    | nil => exact fun m hm => absurd hm List.not_mem_nil
    | cons m ms =>
      have hne := kept_nonempty l
      rw [h] at hne
      exact mergeFrom_nonempty (hne m (List.mem_cons_self ..))
        (fun m' hm' => hne m' (List.mem_cons_of_mem _ hm'))
  alternates := by
    rw [validateAndRepair_eq]
    cases kept l with
    | nil => exact List.IsChain.nil
    | cons m ms => exact mergeFrom_alternates m ms
  known := by
    intro id hid
    rw [repair_toolUseIds]
    rcases mem_repair_toolResultIds.mp hid with h | h
    · exact h.2
    · exact calledIn_subset l h
  answers := by
    intro id hid
    rw [repair_calledIn] at hid
    exact mem_repair_toolResultIds.mpr (Or.inr hid)
  nodup := by
    rw [validateAndRepair_eq, merge_toolResultIds]
    exact kept_nodup l
  blankLast := by
    rw [validateAndRepair_eq]
    cases h : kept l with
    | nil => trivial
    | cons m ms =>
      have hb := aborted_blankLast (deduped l)
      rw [← kept, h] at hb
      exact mergeFrom_blankLast hb

theorem validateAndRepair_repaired (h : UnansweredOnce l) : Repaired (validateAndRepair l) := by
  refine ⟨validateAndRepair_tidy l, ?_⟩
  rw [repair_calledIn, validateAndRepair_eq]
  have hp := kept_placed h
  cases hk : kept l with
  | nil => trivial
  | cons m ms =>
    rw [hk] at hp
    exact mergeFrom_placed hp

theorem validateAndRepair_seated (h : ∀ m ∈ l, Seated m) :
    ∀ m ∈ validateAndRepair l, Seated m := by
  rw [validateAndRepair_eq]
  have hs := kept_seated h
  cases hk : kept l with
  | nil => exact fun m hm => absurd hm List.not_mem_nil
  | cons m ms =>
    rw [hk] at hs
    exact mergeFrom_seated (hs m (List.mem_cons_self ..))
      (fun m' hm' => hs m' (List.mem_cons_of_mem _ hm'))

end Repaired

section WellFormed

variable {l : List Message}

theorem countP_calls_le (l : List Message) (id : Str) :
    l.countP (fun m => id ∈ m.calls) ≤ (calledIn l).count id := by
  induction l with
  | nil => simp
  | cons m l ih =>
    rw [List.countP_cons, calledIn_cons, List.count_append]
    split <;> rename_i hm
    · have : 0 < m.calls.count id := List.count_pos_iff.mpr (by simpa using hm)
      omega
    · omega

theorem calledIn_sublist (l : List Message) : (calledIn l).Sublist (toolUseIds l) := by
  induction l with
  | nil => exact List.Sublist.refl _
  | cons m l ih =>
    rw [calledIn_cons, toolUseIds_cons]
    refine List.Sublist.append ?_ ih
    unfold Message.calls
    split
    · exact List.Sublist.refl _
    · exact List.nil_sublist _

theorem unansweredOnce_of_nodup (h : (toolUseIds l).Nodup) : UnansweredOnce l := fun id _ =>
  le_trans (countP_calls_le l id) (List.nodup_iff_count.mp (h.sublist (calledIn_sublist l)) id)

section Pairs

variable (hseated : ∀ m ∈ l, Seated m) (hdistinct : (toolUseIds l).Nodup)

theorem calls_of_seated {m : Message} (hm : Seated m) : m.calls = m.toolUses := by
  unfold Message.calls
  split <;> rename_i hr
  · rfl
  · exact (hm.1 hr).symm

theorem user_of_result {m : Message} (hm : Seated m) {id : Str} (hid : id ∈ m.toolResults) :
    m.role = .user := by
  by_contra hr
  rw [hm.2 hr] at hid
  cases hid

include hseated in
theorem repair_calledIn_eq : calledIn (validateAndRepair l) = toolUseIds (validateAndRepair l) :=
  List.flatMap_congr fun m hm => calls_of_seated (validateAndRepair_seated hseated m hm)

include hseated hdistinct in
/-- The message in front of a result calls its id. -/
theorem repair_preceded {pre post : List Message} {u : Message}
    (he : validateAndRepair l = pre ++ u :: post) {id : Str} (hid : id ∈ u.toolResults) :
    ∃ before a, pre = before ++ [a] ∧ id ∈ a.calls := by
  have hl := validateAndRepair_repaired (unansweredOnce_of_nodup hdistinct)
  have hu : u ∈ validateAndRepair l := by rw [he]; simp
  have hrole := user_of_result (validateAndRepair_seated hseated u hu) hid
  have hknown : id ∈ calledIn (validateAndRepair l) := by
    rw [repair_calledIn_eq hseated]
    exact hl.known id (List.mem_flatMap.mpr ⟨u, hu, hid⟩)
  have hp := hl.placed
  rw [he] at hp hknown
  have hlast := (hp.split.1 hrole id hid hknown).1
  cases pre using List.reverseRecOn with
  | nil => cases hlast
  | append_singleton before a => exact ⟨before, a, rfl, by simpa using hlast⟩

include hseated hdistinct in
/-- A tool use is answered once, by the message behind its own. -/
theorem repair_answered {pre post : List Message} {a : Message}
    (he : validateAndRepair l = pre ++ a :: post) {id : Str} (hid : id ∈ a.toolUses) :
    a.role = .assistant ∧ (toolResultIds (validateAndRepair l)).count id = 1 ∧
      ∃ u rest, post = u :: rest ∧ u.role = .user ∧ id ∈ u.toolResults := by
  have hl := validateAndRepair_repaired (unansweredOnce_of_nodup hdistinct)
  have hs := validateAndRepair_seated hseated
  have ha : a ∈ validateAndRepair l := by rw [he]; simp
  have hrole : a.role = .assistant := by
    by_contra hr
    rw [(hs a ha).1 hr] at hid
    cases hid
  have hres : id ∈ toolResultIds (validateAndRepair l) := by
    apply hl.answers
    rw [repair_calledIn_eq hseated]
    exact List.mem_flatMap.mpr ⟨a, ha, hid⟩
  refine ⟨hrole, ?_, ?_⟩
  · have hle := List.nodup_iff_count.mp hl.nodup id
    have hpos := List.count_pos_iff.mpr hres
    omega
  · obtain ⟨u, hu, huid⟩ := List.mem_flatMap.mp hres
    obtain ⟨pre', post', he'⟩ := List.append_of_mem hu
    obtain ⟨before, b, rfl, hb⟩ := repair_preceded hseated hdistinct he' huid
    have hb' : b ∈ validateAndRepair l := by rw [he']; simp
    rw [calls_of_seated (hs b hb')] at hb
    rw [List.append_assoc, List.singleton_append] at he'
    -- distinct ids: the message that holds the tool use is the one in front
    have hn : (toolUseIds (validateAndRepair l)).Nodup := by rw [repair_toolUseIds]; exact hdistinct
    have hsame : pre = before ∧ a :: post = b :: u :: post' := by
      have heq : pre ++ a :: post = before ++ b :: u :: post' := he.symm.trans he'
      rcases List.append_eq_append_iff.mp heq with ⟨as, h₁, h₂⟩ | ⟨bs, h₁, h₂⟩
      · cases as with
        | nil => exact ⟨by simpa using h₁.symm, h₂⟩
        | cons c as =>
          obtain ⟨rfl, hpost⟩ := List.cons.inj h₂
          rw [he', h₁] at hn
          simp only [toolUseIds_append, toolUseIds_cons, List.nodup_append] at hn
          refine absurd rfl (hn.2.2 id ?_ id ?_) <;> simp [hid, hb]
      · cases bs with
        | nil => exact ⟨by simpa using h₁, h₂.symm⟩
        | cons c bs =>
          obtain ⟨rfl, hpost⟩ := List.cons.inj h₂
          rw [he, h₁] at hn
          simp only [toolUseIds_append, toolUseIds_cons, List.nodup_append] at hn
          refine absurd rfl (hn.2.2 id ?_ id ?_) <;> simp [hid, hb]
    obtain ⟨-, hpost⟩ := List.cons.inj hsame.2
    exact ⟨u, post', hpost, user_of_result (hs u hu) huid, huid⟩

end Pairs

/-- The repaired history of messages whose tool uses stand in assistant
messages, with distinct ids, and whose results stand in user messages. -/
theorem validateAndRepair_wellFormed (messages : List Message)
    (hseated : ∀ m ∈ messages, Seated m) (hdistinct : (toolUseIds messages).Nodup) :
    let l := validateAndRepair messages
    l.IsChain (fun a b => a.role ≠ b.role) ∧
    (∀ pre a post, l = pre ++ a :: post → ∀ id ∈ a.toolUses,
      a.role = .assistant ∧ (toolResultIds l).count id = 1 ∧
        ∃ u rest, post = u :: rest ∧ u.role = .user ∧ id ∈ u.toolResults) ∧
    (∀ pre u post, l = pre ++ u :: post → ∀ id ∈ u.toolResults,
      ∃ before a, pre = before ++ [a] ∧ id ∈ a.toolUses) ∧
    ∀ m ∈ l, m.content.isEmpty = false := by
  intro l
  refine ⟨(validateAndRepair_tidy messages).alternates, ?_, ?_,
    (validateAndRepair_tidy messages).nonempty⟩
  · intro pre a post he id hid
    exact repair_answered hseated hdistinct he hid
  · intro pre u post he id hid
    obtain ⟨before, a, rfl, ha⟩ := repair_preceded hseated hdistinct he hid
    exact ⟨before, a, rfl, calls_subset_toolUses a ha⟩

/-- A result in front of its tool use and a tool use without a result. -/
theorem validateAndRepair_wellFormed_misplaced :
    (validateAndRepair [⟨.user, .blocks [.toolResult "a".toList "ok".toList false]⟩,
      ⟨.assistant, .blocks [.toolUse "a".toList "ls".toList .null,
        .toolUse "b".toList "ls".toList .null]⟩]).IsChain (fun a b => a.role ≠ b.role) :=
  (validateAndRepair_wellFormed _ (by decide) (by decide)).1

end WellFormed

section Fixed

variable {l : List Message}

theorem keepBlock_of_known {ids : List Str} {m : Message} (h : ∀ id ∈ m.toolResults, id ∈ ids) :
    ∀ b ∈ m.content.blockList, keepBlock ids b = true := by
  intro b hb
  cases b with
  | toolResult id content isError =>
    simpa [keepBlock] using h id (List.mem_filterMap.mpr ⟨_, hb, rfl⟩)
  | _ => rfl

theorem strip_self {ids : List Str} {m : Message} (h : ∀ id ∈ m.toolResults, id ∈ ids) :
    strip ids m = m := by
  have hkeep := keepBlock_of_known h
  unfold strip
  cases hc : m.content with
  | text s => rfl
  | blocks bs =>
    rw [hc] at hkeep
    have hf : bs.filter (keepBlock ids) = bs := List.filter_eq_self.mpr hkeep
    simp only [hf]
    rw [← hc]

theorem known_of_mem (hk : ∀ id ∈ toolResultIds l, id ∈ toolUseIds l) {m : Message} (hm : m ∈ l) :
    ∀ id ∈ m.toolResults, id ∈ toolUseIds l :=
  fun id hid => hk id (List.mem_flatMap.mpr ⟨m, hm, hid⟩)

theorem cleaned_self (hl : Tidy l) : cleaned l = l := by
  have hmap : l.map (strip (toolUseIds l)) = l := by
    conv_rhs => rw [← List.map_id l]
    exact List.map_congr_left (fun m hm => strip_self (known_of_mem hl.known hm))
  rw [cleaned_eq, hmap, dropEmpty_self hl.nonempty]

theorem orphansIn_self (hl : Tidy l) : (l.map (orphansIn (toolUseIds l))).sum = 0 := by
  rw [List.sum_eq_zero_iff_forall_eq_nat]
  intro n hn
  obtain ⟨m, hm, rfl⟩ := List.mem_map.mp hn
  rw [orphansIn, List.countP_eq_zero]
  intro b hb
  simp [keepBlock_of_known (known_of_mem hl.known hm) b hb]

theorem misplacedResults_self (hl : Repaired l) : misplacedResults l = [] := by
  rw [List.eq_nil_iff_forall_not_mem]
  intro r hr
  obtain ⟨hbid, hindex, hne, m, hm, hrole, hb⟩ := mem_misplacedResults.mp hr
  have hknown : r.toolUseId ∈ calledIn l := by
    by_contra hno
    rw [toolUseIndex_eq_none_iff.mpr hno] at hindex
    cases hindex
  obtain ⟨pre, post, he, hlen⟩ : ∃ pre post, l = pre ++ m :: post ∧ pre.length = r.msgIdx := by
    obtain ⟨hlt, rfl⟩ := List.getElem?_eq_some_iff.mp hm
    exact ⟨l.take r.msgIdx, l.drop (r.msgIdx + 1), by simp, by simp [Nat.le_of_lt hlt]⟩
  have hp := hl.placed
  rw [he] at hp
  rw [he] at hknown
  obtain ⟨hlast, hlater⟩ :=
    hp.split.1 hrole r.toolUseId (List.mem_filterMap.mpr ⟨_, hb, hbid⟩) hknown
  cases pre using List.reverseRecOn with
  | nil => cases hlast
  | append_singleton before a =>
    have hcalls : m.calls = [] := calls_eq_nil (by simp [hrole])
    have hfound : toolUseIndex l r.toolUseId = some before.length := by
      rw [he, List.append_assoc, List.singleton_append, toolUseIndex_eq_some_iff]
      refine ⟨by simpa using hlast, ?_⟩
      rw [List.flatMap_cons, hcalls, List.nil_append]
      exact hlater
    rw [hindex] at hfound
    apply hne
    rw [← hlen, Option.some.inj hfound, List.length_append, List.length_singleton]

theorem orphanedUses_self (hl : Tidy l) : orphanedUses l = [] := by
  rw [List.eq_nil_iff_forall_not_mem]
  rintro ⟨idx, id⟩ h
  obtain ⟨⟨m, hm, hid⟩, hno⟩ := mem_orphanedUses.mp h
  exact hno (hl.answers id (List.mem_flatMap.mpr ⟨m, List.mem_of_getElem? hm, hid⟩))

theorem merge_self (hl : l.IsChain (fun a b => a.role ≠ b.role)) : mergeConsecutive l = l := by
  cases l with
  | nil => rfl
  | cons m l => exact mergeFrom_self hl

/-- A repaired history is left as it is and nothing is counted. -/
theorem repaired_fixed (hl : Repaired l) : validateAndRepairWithStats l = (l, .zero) := by
  have hclean : l.filterMap (cleanMessage (toolUseIds l)) = l := cleaned_self hl.toTidy
  have hreorder : reorderToolResults l = (l, 0) := by
    rw [reorderToolResults, if_pos (misplacedResults_self hl)]
  have hsynthetic : insertSyntheticResults l = (l, 0) := by
    rw [insertSyntheticResults, if_pos (orphanedUses_self hl.toTidy)]
  have hdedup : deduplicateToolResults l = (l, 0) := by
    rw [deduplicateToolResults, dedupMessages_self hl.nodup (by simp)]
    simp only [dropEmpty_self hl.nonempty, Nat.sub_self]
  unfold validateAndRepairWithStats
  simp only [hclean, hreorder, hsynthetic, hdedup, aborted_self hl.blankLast,
    merge_self hl.alternates, orphansIn_self hl.toTidy, Nat.sub_self, Nat.add_zero]
  rfl

end Fixed

section Late

/-- The first message with a result for the id is a user message, and a later
message calls the id. -/
def Late (id : Str) : List Message → Prop
  | [] => False
  | m :: l =>
    if id ∈ m.toolResults then m.role = .user ∧ id ∈ calledIn l else Late id l

variable {id : Str} {m : Message} {l : List Message}

theorem late_cons_of_mem (h : id ∈ m.toolResults) :
    Late id (m :: l) ↔ m.role = .user ∧ id ∈ calledIn l := by rw [Late, if_pos h]

theorem late_cons_of_not_mem (h : id ∉ m.toolResults) : Late id (m :: l) ↔ Late id l := by
  rw [Late, if_neg h]

theorem Late.misplaced (h : Late id l) : misplacedResults l ≠ [] := by
  obtain ⟨pre, u, post, rfl, hu, hid, hpost⟩ : ∃ pre u post, l = pre ++ u :: post ∧
      u.role = .user ∧ id ∈ u.toolResults ∧ id ∈ calledIn post := by
    induction l with
    | nil => exact h.elim
    | cons m l ih =>
      unfold Late at h
      split at h <;> rename_i hm
      · exact ⟨[], m, l, rfl, h.1, hm, h.2⟩
      · obtain ⟨pre, u, post, rfl, hu⟩ := ih h
        exact ⟨m :: pre, u, post, rfl, hu⟩
  obtain ⟨c, hc, hcid⟩ := List.mem_flatMap.mp hpost
  obtain ⟨j, hj⟩ := List.mem_iff_getElem?.mp hc
  have hget : (pre ++ u :: post)[pre.length + (j + 1)]? = some c := by
    rw [List.getElem?_append_right (by omega)]
    simpa using hj
  obtain ⟨k, hk, hle⟩ := toolUseIndex_ge hget hcid
  obtain ⟨b, hb, hbid⟩ := List.mem_filterMap.mp hid
  have hmem : (⟨pre.length, id, b, k⟩ : Misplaced) ∈ misplacedResults (pre ++ u :: post) :=
    mem_misplacedResults.mpr ⟨hbid, hk, by simp only; omega, u, by simp, hu, hb⟩
  exact List.ne_nil_of_mem hmem

theorem Late.behind {o : Option (Nat × List ContentBlock)} (h : Late id l)
    (ho : ∀ e ∈ o, id ∉ resultIds e.2) : Late id (behind o l) := by
  cases o with
  | none => exact h
  | some e =>
    have he := ho e rfl
    refine attachResults_cases (P := Late id) e l (fun _ => ?_) ?_
    · exact (late_cons_of_not_mem (m := ⟨.user, .blocks e.2⟩) he).mpr h
    · rintro m rest rfl hr
      by_cases hm : id ∈ m.toolResults
      · rw [late_cons_of_mem hm] at h
        rw [late_cons_of_mem (by rw [toolResults_merged]; exact List.mem_append_left _ hm)]
        exact h
      · rw [late_cons_of_not_mem hm] at h
        rw [late_cons_of_not_mem (by
          rw [toolResults_merged, List.mem_append]
          exact fun hor => hor.elim hm he)]
        exact h

/-- Two callers and no result: the first synthetic result comes too early. -/
theorem late_attachAll {ms : List Message} {i : Nat} {group : Nat → List ContentBlock}
    (hne : ∀ m ∈ ms, m.content.isEmpty = false) (hno : id ∉ toolResultIds ms)
    (hgroup : ∀ j m, ms[j]? = some m → (id ∈ resultIds (group (i + j)) ↔ id ∈ m.calls))
    (htwo : 2 ≤ ms.countP (fun m => id ∈ m.calls)) :
    Late id (attachAll (plan (fun m _ => m) group i ms)) := by
  induction ms generalizing i with
  | nil => simp at htwo
  | cons m ms ih =>
    have hne' : ∀ m' ∈ ms, m'.content.isEmpty = false :=
      fun m' hm' => hne m' (List.mem_cons_of_mem _ hm')
    rw [toolResultIds_cons, List.mem_append, not_or] at hno
    have hcalled : calledIn (attachAll (plan (fun m _ => m) group (i + 1) ms)) = calledIn ms := by
      rw [calledIn_congr (attachAll_callers _), plan_map_fst_self hne']
    rw [plan, if_neg (by simp [hne m (List.mem_cons_self ..)]), attachAll_cons,
      late_cons_of_not_mem hno.1]
    by_cases hm : id ∈ m.calls
    · have hid : id ∈ resultIds (group i) := (hgroup 0 m rfl).mpr hm
      have hg : group i ≠ [] := by
        intro h
        rw [h] at hid
        cases hid
      have hlater : id ∈ calledIn ms := by
        rw [List.countP_cons_of_pos (by simpa using hm)] at htwo
        have hpos : 0 < ms.countP (fun m => id ∈ m.calls) := by omega
        obtain ⟨c, hc, hcid⟩ := List.countP_pos_iff.mp hpos
        exact List.mem_flatMap.mpr ⟨c, hc, by simpa using hcid⟩
      rw [entryAt, if_neg hg]
      refine attachResults_cases (P := Late id) (i, group i) _ (fun _ => ?_) ?_
      · rw [late_cons_of_mem (m := ⟨.user, .blocks (group i)⟩) hid, hcalled]
        exact ⟨rfl, hlater⟩
      · intro u rest he hr
        have hmem : id ∈ ({ u with content := .blocks (u.content.toBlocks ++ group i) } :
            Message).toolResults := by
          rw [toolResults_merged]
          exact List.mem_append_right _ hid
        rw [late_cons_of_mem hmem]
        refine ⟨hr, ?_⟩
        rw [he, calledIn_cons, calls_eq_nil (by simp [hr]), List.nil_append] at hcalled
        rwa [hcalled]
    · rw [List.countP_cons_of_neg (by simpa using hm)] at htwo
      refine Late.behind (ih hne' hno.2 (fun j m' hj => ?_) htwo) (fun e he hid => ?_)
      · rw [show i + 1 + j = i + (j + 1) by omega]
        exact hgroup (j + 1) m' hj
      · rw [(mem_of_entryAt he).1] at hid
        exact hm ((hgroup 0 m rfl).mp hid)

theorem late_dedup {seen : List Str} (h : Late id l) (hs : id ∉ seen) :
    Late id (dedupMessages seen l) := by
  induction l generalizing seen with
  | nil => exact h
  | cons m l ih =>
    obtain ⟨hr, hthin, hseen⟩ := dedupMessage_spec seen m
    rw [dedupMessages_cons]
    have hiff : id ∈ (dedupMessage seen m).1.toolResults ↔ id ∈ m.toolResults := by
      rw [hr, mem_freshIds]
      exact and_iff_left hs
    by_cases hm : id ∈ m.toolResults
    · rw [late_cons_of_mem hm] at h
      rw [late_cons_of_mem (hiff.mpr hm), hthin.role,
        calledIn_congr (thin_callers (dedupMessages_forall₂ _ l))]
      exact h
    · rw [late_cons_of_not_mem hm] at h
      rw [late_cons_of_not_mem (fun hmem => hm (hiff.mp hmem))]
      exact ih h (fun hmem => ((hseen id).mp hmem).elim hs hm)

theorem late_dropEmpty (h : Late id l) : Late id (dropEmpty l) := by
  induction l with
  | nil => exact h
  | cons m l ih =>
    rw [dropEmpty_cons]
    split <;> rename_i he
    · rw [late_cons_of_not_mem (by simp [toolResults_of_isEmpty he])] at h
      exact ih h
    · by_cases hm : id ∈ m.toolResults
      · rw [late_cons_of_mem hm] at h ⊢
        rwa [calledIn_congr (dropEmpty_callers l)]
      · rw [late_cons_of_not_mem hm] at h ⊢
        exact ih h

theorem late_aborted (h : Late id l) : Late id (removeAbortedAssistantMessages l) := by
  induction l with
  | nil => exact h
  | cons m l ih =>
    rcases aborted_cons m l with ⟨hb, -, he⟩ | ⟨-, he⟩
    · rw [late_cons_of_not_mem (by simp [(toolIds_of_blank hb).2])] at h
      rw [he]
      exact ih h
    · rw [he]
      by_cases hm : id ∈ m.toolResults
      · rw [late_cons_of_mem hm] at h ⊢
        rwa [calledIn_congr (aborted_callers l)]
      · rw [late_cons_of_not_mem hm] at h ⊢
        exact ih h

theorem late_mergeFrom {last : Message} (h : Late id (last :: l)) : Late id (mergeFrom last l) := by
  induction l generalizing last with
  | nil => exact h
  | cons m l ih =>
    rw [mergeFrom_cons]
    by_cases hlast : id ∈ last.toolResults
    · rw [late_cons_of_mem hlast] at h
      split <;> rename_i hr
      · apply ih
        rw [late_cons_of_mem (by rw [merged_toolResults]; exact List.mem_append_left _ hlast)]
        rw [calledIn_cons, calls_eq_nil (by simp [← hr, h.1]), List.nil_append] at h
        exact h
      · rwa [late_cons_of_mem hlast, mergeFrom_calledIn]
    · rw [late_cons_of_not_mem hlast] at h
      split <;> rename_i hr
      · apply ih
        by_cases hm : id ∈ m.toolResults
        · rw [late_cons_of_mem hm] at h
          rw [late_cons_of_mem (by rw [merged_toolResults]; exact List.mem_append_right _ hm)]
          exact ⟨hr.trans h.1, h.2⟩
        · rw [late_cons_of_not_mem hm] at h
          rwa [late_cons_of_not_mem (by
            rw [merged_toolResults, List.mem_append]
            exact fun hor => hor.elim hlast hm)]
      · rw [late_cons_of_not_mem hlast]
        exact ih h

/-- Two callers of an unanswered id: the repaired history has its result in
front of the second of them. -/
theorem late_of_two (hno : id ∉ toolResultIds l) (htwo : 2 ≤ l.countP (fun m => id ∈ m.calls)) :
    Late id (validateAndRepair l) := by
  have hne := reorder_nonempty (cleaned_nonempty l)
  have hno' : id ∉ toolResultIds (reorderToolResults (cleaned l)).1 := by
    rw [mem_reorder_toolResultIds (cleaned_nonempty l), mem_cleaned_toolResultIds]
    exact fun h => hno h.1
  have hanswered : Late id (answered l) := by
    rw [answered, insertSyntheticResults_eq hne]
    refine late_attachAll hne hno' (fun j m hm => ?_) ?_
    · rw [Nat.zero_add, mem_syntheticGroup, mem_orphanedUses]
      constructor
      · rintro ⟨⟨m', hm', hid⟩, -⟩
        rwa [Option.some.inj (hm.symm.trans hm')]
      · exact fun hid => ⟨⟨m, hm, hid⟩, hno'⟩
    · rwa [countP_callers, reordered_callers, ← countP_callers]
  have hkept : Late id (kept l) := by
    rw [kept, deduped_eq]
    exact late_aborted (late_dropEmpty (late_dedup hanswered List.not_mem_nil))
  rw [validateAndRepair_eq]
  cases hk : kept l with
  | nil => rw [hk] at hkept; exact hkept.elim
  | cons m ms =>
    rw [hk] at hkept
    exact late_mergeFrom hkept

theorem resultsReordered_eq (l : List Message) :
    (validateAndRepairWithStats l).2.resultsReordered = (reorderToolResults (cleaned l)).2 := rfl

theorem reorderToolResults_count (l : List Message) :
    (reorderToolResults l).2 = (misplacedResults l).length := by
  rw [reorderToolResults]
  split
  · rename_i h
    rw [h]
    rfl
  · rfl

/-- The repair is idempotent, with nothing counted the second time, exactly for
the histories in which no unanswered id is called by two assistant messages. -/
theorem validateAndRepairWithStats_idempotent_iff (messages : List Message) :
    validateAndRepairWithStats (validateAndRepair messages) = (validateAndRepair messages, .zero) ↔
      ∀ id, id ∉ toolResultIds messages → messages.countP (fun m => id ∈ m.calls) ≤ 1 := by
  constructor
  · intro h id hno
    by_contra htwo
    have hlate := late_of_two hno (by omega)
    have hclean := cleaned_self (validateAndRepair_tidy messages)
    have hcount := resultsReordered_eq (validateAndRepair messages)
    rw [h, RepairStats.zero, hclean, reorderToolResults_count] at hcount
    exact hlate.misplaced (List.eq_nil_of_length_eq_zero hcount.symm)
  · exact fun h => repaired_fixed (validateAndRepair_repaired h)

theorem validateAndRepairWithStats_not_idempotent :
    ¬ ∀ messages : List Message, validateAndRepairWithStats (validateAndRepair messages) =
      (validateAndRepair messages, .zero) := by
  intro h
  have := h [⟨.assistant, .blocks [.toolUse "a".toList "ls".toList .null]⟩,
    ⟨.assistant, .blocks [.toolUse "a".toList "ls".toList .null]⟩]
  revert this
  decide

end Late

end Clawreform.Runtime.SessionRepair
