import Mathlib.Data.List.Forall2
import Mathlib.Data.List.Flatten
import Clawreform.Runtime.RepairPasses

namespace Clawreform.Runtime.SessionRepair

open Clawreform.Lib.Text Clawreform.Lib.Splice
open Clawreform.Types

section Blocks

def resultIds (bs : List ContentBlock) : List Str := bs.filterMap ContentBlock.resultId?

theorem toolUseId?_of_resultId? {b : ContentBlock} {id : Str} (h : b.resultId? = some id) :
    b.toolUseId? = none := by
  cases b <;> first | rfl | cases h

/-- Dropping results leaves the tool uses. -/
theorem filterMap_toolUseId?_filter {p : ContentBlock → Bool} {bs : List ContentBlock}
    (h : ∀ b ∈ bs, p b = false → b.toolUseId? = none) :
    (bs.filter p).filterMap ContentBlock.toolUseId? = bs.filterMap ContentBlock.toolUseId? := by
  induction bs with
  | nil => rfl
  | cons b bs ih =>
    have hrec := ih (fun c hc => h c (List.mem_cons_of_mem _ hc))
    cases hp : p b with
    | true => rw [List.filter_cons_of_pos hp, List.filterMap_cons, List.filterMap_cons, hrec]
    | false =>
      rw [List.filter_cons_of_neg (by simp [hp]), hrec, List.filterMap_cons,
        h b (List.mem_cons_self ..) hp]

theorem toolUses_of_results {bs : List ContentBlock} (h : ∀ b ∈ bs, b.resultId?.isSome = true) :
    bs.filterMap ContentBlock.toolUseId? = [] := by
  rw [List.filterMap_eq_nil_iff]
  intro b hb
  obtain ⟨id, hid⟩ := Option.isSome_iff_exists.mp (h b hb)
  exact toolUseId?_of_resultId? hid

theorem blockList_of_isEmpty {c : MessageContent} (h : c.isEmpty = true) : c.blockList = [] := by
  cases c with
  | text s => rfl
  | blocks bs => exact List.isEmpty_iff.mp h

theorem toolUses_toBlocks (c : MessageContent) :
    c.toBlocks.filterMap ContentBlock.toolUseId? = c.blockList.filterMap ContentBlock.toolUseId? := by
  cases c <;> rfl

theorem resultIds_toBlocks (c : MessageContent) :
    resultIds c.toBlocks = c.blockList.filterMap ContentBlock.resultId? := by
  cases c <;> rfl

end Blocks

section Histories

/-- The ids the assistant messages of a history call, message by message. -/
def callers (l : List Message) : List (List Str) :=
  (l.map Message.calls).filter (fun ids => !ids.isEmpty)

def calledIn (l : List Message) : List Str := l.flatMap Message.calls

@[simp] theorem calledIn_nil : calledIn [] = [] := rfl

@[simp] theorem calledIn_cons (m : Message) (l : List Message) :
    calledIn (m :: l) = m.calls ++ calledIn l := by simp [calledIn]

@[simp] theorem calledIn_append (l l' : List Message) :
    calledIn (l ++ l') = calledIn l ++ calledIn l' := by simp [calledIn]

@[simp] theorem toolUseIds_cons (m : Message) (l : List Message) :
    toolUseIds (m :: l) = m.toolUses ++ toolUseIds l := by simp [toolUseIds]

@[simp] theorem toolResultIds_cons (m : Message) (l : List Message) :
    toolResultIds (m :: l) = m.toolResults ++ toolResultIds l := by simp [toolResultIds]

@[simp] theorem toolUseIds_append (l l' : List Message) :
    toolUseIds (l ++ l') = toolUseIds l ++ toolUseIds l' := by simp [toolUseIds]

@[simp] theorem toolResultIds_append (l l' : List Message) :
    toolResultIds (l ++ l') = toolResultIds l ++ toolResultIds l' := by simp [toolResultIds]

theorem callers_cons (m : Message) (l : List Message) :
    callers (m :: l) = if m.calls = [] then callers l else m.calls :: callers l := by
  cases h : m.calls <;> simp [callers, h]

theorem calledIn_eq_flatten (l : List Message) : calledIn l = (callers l).flatten := by
  induction l with
  | nil => rfl
  | cons m l ih =>
    rw [calledIn_cons, callers_cons, ih]
    split <;> rename_i h
    · rw [h, List.nil_append]
    · rw [List.flatten_cons]

theorem calledIn_congr {l l' : List Message} (h : callers l = callers l') :
    calledIn l = calledIn l' := by
  rw [calledIn_eq_flatten, calledIn_eq_flatten, h]

theorem countP_callers (l : List Message) (id : Str) :
    l.countP (fun m => id ∈ m.calls) = (callers l).countP (fun ids => id ∈ ids) := by
  induction l with
  | nil => rfl
  | cons m l ih =>
    rw [List.countP_cons, ih, callers_cons]
    by_cases h : m.calls = []
    · simp [h]
    · rw [if_neg h, List.countP_cons]

theorem calls_subset_toolUses (m : Message) : m.calls ⊆ m.toolUses := by
  unfold Message.calls
  split
  · exact List.Subset.refl _
  · exact List.nil_subset _

theorem calledIn_subset (l : List Message) : calledIn l ⊆ toolUseIds l := by
  intro id hid
  obtain ⟨m, hm, hid⟩ := List.mem_flatMap.mp hid
  exact List.mem_flatMap.mpr ⟨m, hm, calls_subset_toolUses m hid⟩

/-- Tool uses stand in assistant messages and results in user messages. -/
def Seated (m : Message) : Prop :=
  (m.role ≠ .assistant → m.toolUses = []) ∧ (m.role ≠ .user → m.toolResults = [])

instance : DecidablePred Seated := fun m =>
  inferInstanceAs (Decidable ((m.role ≠ .assistant → m.toolUses = []) ∧
    (m.role ≠ .user → m.toolResults = [])))

/-- A user message holds a result for an id of `U` only right behind a message
that calls it, and no later message calls it again. -/
def Placed (U : List Str) : List Str → List Message → Prop
  | _, [] => True
  | prev, m :: l =>
    (m.role = .user → ∀ id ∈ m.toolResults, id ∈ U → id ∈ prev ∧ id ∉ calledIn l) ∧
      Placed U m.calls l

theorem Placed.mono {U prev prev' : List Str} {l : List Message} (h : Placed U prev l)
    (hp : prev ⊆ prev') : Placed U prev' l := by
  cases l with
  | nil => trivial
  | cons m l =>
    refine ⟨fun hr id hid hU => ?_, h.2⟩
    obtain ⟨hprev, hl⟩ := h.1 hr id hid hU
    exact ⟨hp hprev, hl⟩

theorem Placed.split {U prev : List Str} {pre post : List Message} {m : Message}
    (h : Placed U prev (pre ++ m :: post)) :
    (m.role = .user → ∀ id ∈ m.toolResults, id ∈ U →
      id ∈ ((pre.map Message.calls).getLast?.getD prev) ∧ id ∉ calledIn post) ∧
      Placed U m.calls post := by
  induction pre generalizing prev with
  | nil => exact h
  | cons a pre ih =>
    obtain ⟨hm, hpost⟩ := ih h.2
    refine ⟨fun hr id hid hU => ?_, hpost⟩
    obtain ⟨hprev, hl⟩ := hm hr id hid hU
    refine ⟨?_, hl⟩
    rw [List.map_cons, List.getLast?_cons]
    cases hlast : (pre.map Message.calls).getLast? <;> simpa [hlast] using hprev

/-- Only the last message may be a blank assistant message. -/
def BlankLast : List Message → Prop
  | [] => True
  | m :: l =>
    (m.role = .assistant → isEmptyOrBlankContent m.content = true → l = []) ∧ BlankLast l

end Histories

section Thin

/-- A message left of another by dropping results. -/
structure Thins (m' m : Message) : Prop where
  role : m'.role = m.role
  toolUses : m'.toolUses = m.toolUses
  toolResults : m'.toolResults.Sublist m.toolResults

theorem Thins.calls {m' m : Message} (h : Thins m' m) : m'.calls = m.calls := by
  unfold Message.calls
  rw [h.role, h.toolUses]

theorem Thins.seated {m' m : Message} (h : Thins m' m) (hs : Seated m) : Seated m' := by
  refine ⟨fun hr => ?_, fun hr => ?_⟩
  · rw [h.toolUses]
    exact hs.1 (by rwa [← h.role])
  · have := h.toolResults
    rw [hs.2 (by rwa [← h.role])] at this
    exact List.sublist_nil.mp this

theorem thins_refl (m : Message) : Thins m m := ⟨rfl, rfl, List.Sublist.refl _⟩

/-- Filtering the blocks of a message without losing a tool use. -/
theorem thins_filter {m : Message} {bs : List ContentBlock} {p : ContentBlock → Bool}
    (hm : m.content = .blocks bs) (h : ∀ b ∈ bs, p b = false → b.toolUseId? = none) :
    Thins { m with content := .blocks (bs.filter p) } m := by
  refine ⟨rfl, ?_, ?_⟩
  · simp only [Message.toolUses, hm, MessageContent.blockList]
    exact filterMap_toolUseId?_filter h
  · simp only [Message.toolResults, hm, MessageContent.blockList]
    exact List.filter_sublist.filterMap _

variable {l' l : List Message}

theorem thin_callers (h : List.Forall₂ Thins l' l) : callers l' = callers l := by
  induction h with
  | nil => rfl
  | cons hm _ ih => rw [callers_cons, callers_cons, hm.calls, ih]

theorem thin_toolUseIds (h : List.Forall₂ Thins l' l) : toolUseIds l' = toolUseIds l := by
  induction h with
  | nil => rfl
  | cons hm _ ih => rw [toolUseIds_cons, toolUseIds_cons, hm.toolUses, ih]

theorem thin_toolResultIds (h : List.Forall₂ Thins l' l) :
    (toolResultIds l').Sublist (toolResultIds l) := by
  induction h with
  | nil => exact List.Sublist.refl _
  | cons hm _ ih =>
    rw [toolResultIds_cons, toolResultIds_cons]
    exact hm.toolResults.append ih

theorem thin_seated (h : List.Forall₂ Thins l' l) (hs : ∀ m ∈ l, Seated m) :
    ∀ m ∈ l', Seated m := by
  induction h with
  | nil => exact fun m hm => absurd hm List.not_mem_nil
  | cons hm _ ih =>
    intro m hmem
    rcases List.mem_cons.mp hmem with rfl | hmem
    · exact hm.seated (hs _ (List.mem_cons_self ..))
    · exact ih (fun m' hm' => hs m' (List.mem_cons_of_mem _ hm')) m hmem

theorem thin_placed {U prev : List Str} (h : List.Forall₂ Thins l' l) (hp : Placed U prev l) :
    Placed U prev l' := by
  induction h generalizing prev with
  | nil => trivial
  | cons hm ht ih =>
    refine ⟨fun hr id hid hU => ?_, ?_⟩
    · obtain ⟨hprev, hl⟩ := hp.1 (by rwa [← hm.role]) id (hm.toolResults.subset hid) hU
      exact ⟨hprev, by rwa [calledIn_congr (thin_callers ht)]⟩
    · rw [hm.calls]
      exact ih hp.2

end Thin

section DropEmpty

theorem toolUses_of_isEmpty {m : Message} (h : m.content.isEmpty = true) : m.toolUses = [] := by
  rw [Message.toolUses, blockList_of_isEmpty h, List.filterMap_nil]

theorem toolResults_of_isEmpty {m : Message} (h : m.content.isEmpty = true) :
    m.toolResults = [] := by
  rw [Message.toolResults, blockList_of_isEmpty h, List.filterMap_nil]

theorem calls_of_toolUses {m : Message} (h : m.toolUses = []) : m.calls = [] :=
  List.subset_nil.mp (h ▸ calls_subset_toolUses m)

theorem dropEmpty_cons (m : Message) (l : List Message) :
    dropEmpty (m :: l) = if m.content.isEmpty then dropEmpty l else m :: dropEmpty l := by
  cases h : m.content.isEmpty <;> simp [dropEmpty, h]

variable {l : List Message}

theorem dropEmpty_nonempty : ∀ m ∈ dropEmpty l, m.content.isEmpty = false := by
  intro m hm
  simpa using (List.mem_filter.mp hm).2

theorem dropEmpty_self (h : ∀ m ∈ l, m.content.isEmpty = false) : dropEmpty l = l :=
  List.filter_eq_self.mpr (fun m hm => by simp [h m hm])

theorem dropEmpty_callers (l : List Message) : callers (dropEmpty l) = callers l := by
  induction l with
  | nil => rfl
  | cons m l ih =>
    rw [dropEmpty_cons]
    split <;> rename_i h
    · rw [callers_cons, if_pos (calls_of_toolUses (toolUses_of_isEmpty h)), ih]
    · rw [callers_cons, callers_cons, ih]

theorem dropEmpty_toolUseIds (l : List Message) : toolUseIds (dropEmpty l) = toolUseIds l := by
  induction l with
  | nil => rfl
  | cons m l ih =>
    rw [dropEmpty_cons]
    split <;> rename_i h
    · rw [toolUseIds_cons, toolUses_of_isEmpty h, ih, List.nil_append]
    · rw [toolUseIds_cons, toolUseIds_cons, ih]

theorem dropEmpty_toolResultIds (l : List Message) :
    toolResultIds (dropEmpty l) = toolResultIds l := by
  induction l with
  | nil => rfl
  | cons m l ih =>
    rw [dropEmpty_cons]
    split <;> rename_i h
    · rw [toolResultIds_cons, toolResults_of_isEmpty h, ih, List.nil_append]
    · rw [toolResultIds_cons, toolResultIds_cons, ih]

theorem dropEmpty_seated (hs : ∀ m ∈ l, Seated m) : ∀ m ∈ dropEmpty l, Seated m :=
  fun m hm => hs m (List.mem_of_mem_filter hm)

theorem dropEmpty_placed {U prev : List Str} (h : Placed U prev l) :
    Placed U prev (dropEmpty l) := by
  induction l generalizing prev with
  | nil => trivial
  | cons m l ih =>
    rw [dropEmpty_cons]
    split <;> rename_i he
    · have hl := ih h.2
      rw [calls_of_toolUses (toolUses_of_isEmpty he)] at hl
      exact hl.mono (List.nil_subset _)
    · refine ⟨fun hr id hid hU => ?_, ih h.2⟩
      rw [calledIn_congr (dropEmpty_callers l)]
      exact h.1 hr id hid hU

end DropEmpty

section Clean

def strip (ids : List Str) (m : Message) : Message :=
  match m.content with
  | .text _ => m
  | .blocks bs => { m with content := .blocks (bs.filter (keepBlock ids)) }

theorem cleanMessage_eq (ids : List Str) (m : Message) : cleanMessage ids m =
    if (strip ids m).content.isEmpty then none else some (strip ids m) := by
  unfold cleanMessage strip
  cases h : m.content with
  | text s => simp [MessageContent.isEmpty, h]
  | blocks bs => simp [MessageContent.isEmpty]

theorem filterMap_cleanMessage (ids : List Str) (l : List Message) :
    l.filterMap (cleanMessage ids) = dropEmpty (l.map (strip ids)) := by
  induction l with
  | nil => rfl
  | cons m l ih =>
    rw [List.filterMap_cons, cleanMessage_eq, List.map_cons, dropEmpty_cons, ih]
    cases (strip ids m).content.isEmpty <;> rfl

theorem strip_thins (ids : List Str) (m : Message) : Thins (strip ids m) m := by
  unfold strip
  split
  · exact thins_refl m
  · rename_i bs h
    refine thins_filter h (fun b _ hb => ?_)
    cases b <;> first | rfl | cases hb

theorem strip_forall₂ (ids : List Str) (l : List Message) :
    List.Forall₂ Thins (l.map (strip ids)) l := by
  rw [List.forall₂_map_left_iff]
  exact List.forall₂_same.mpr (fun m _ => strip_thins ids m)

theorem resultIds_filter_keepBlock (ids : List Str) (bs : List ContentBlock) :
    resultIds (bs.filter (keepBlock ids)) = (resultIds bs).filter (fun id => ids.contains id) := by
  induction bs with
  | nil => rfl
  | cons b bs ih =>
    cases b with
    | toolResult id content isError =>
      have hcons : resultIds (.toolResult id content isError :: bs) = id :: resultIds bs := rfl
      have hkeep : keepBlock ids (.toolResult id content isError) = ids.contains id := rfl
      rw [hcons, List.filter_cons, List.filter_cons, hkeep, ← ih]
      split <;> rfl
    | _ => exact ih

theorem mem_toolResultIds_strip {ids : List Str} {l : List Message} {id : Str} :
    id ∈ toolResultIds (l.map (strip ids)) ↔ id ∈ toolResultIds l ∧ id ∈ ids := by
  have hm : ∀ m : Message, (strip ids m).toolResults =
      m.toolResults.filter (fun id => ids.contains id) := by
    intro m
    unfold strip
    cases h : m.content with
    | text s => simp [Message.toolResults, h, MessageContent.blockList]
    | blocks bs =>
      simp only [Message.toolResults, h, MessageContent.blockList]
      exact resultIds_filter_keepBlock ids bs
  induction l with
  | nil => simp [toolResultIds]
  | cons m l ih =>
    simp only [List.map_cons, toolResultIds_cons, List.mem_append, ih, hm, List.mem_filter,
      List.contains_iff_mem]
    tauto

end Clean

section Attach

def behind (o : Option (Nat × List ContentBlock)) (ms : List Message) : List Message :=
  o.elim ms (fun e => attachResults e.2 ms)

theorem attachAll_cons (a : Message) (o : Option (Nat × List ContentBlock))
    (d : List (Message × Option (Nat × List ContentBlock))) :
    attachAll ((a, o) :: d) = a :: behind o (attachAll d) := by
  cases o <;> rfl

/-- A group is not empty and consists of results. -/
def IsGroup (e : Nat × List ContentBlock) : Prop :=
  e.2 ≠ [] ∧ ∀ b ∈ e.2, b.resultId?.isSome = true

variable {o : Option (Nat × List ContentBlock)} {ms : List Message}

/-- What a group does to the messages behind it. -/
theorem attachResults_cases {P : List Message → Prop} (e : Nat × List ContentBlock)
    (ms : List Message)
    (hput : (∀ m ∈ ms.head?, m.role ≠ .user) → P (⟨.user, .blocks e.2⟩ :: ms))
    (hmerge : ∀ m rest, ms = m :: rest → m.role = .user →
      P ({ m with content := .blocks (m.content.toBlocks ++ e.2) } :: rest)) :
    P (attachResults e.2 ms) := by
  cases ms with
  | nil => exact hput (by simp)
  | cons m rest =>
    rw [attachResults]
    split <;> rename_i h
    · exact hmerge m rest rfl h
    · exact hput (by simpa using h)

theorem toolUses_merged {m : Message} {bs : List ContentBlock}
    (h : ∀ b ∈ bs, b.resultId?.isSome = true) :
    ({ m with content := .blocks (m.content.toBlocks ++ bs) } : Message).toolUses = m.toolUses := by
  simp only [Message.toolUses, MessageContent.blockList, List.filterMap_append,
    toolUses_of_results h, List.append_nil, toolUses_toBlocks]

theorem toolResults_merged (m : Message) (bs : List ContentBlock) :
    ({ m with content := .blocks (m.content.toBlocks ++ bs) } : Message).toolResults =
      m.toolResults ++ resultIds bs := by
  have h : resultIds (m.content.toBlocks ++ bs) = m.toolResults ++ resultIds bs := by
    rw [resultIds, List.filterMap_append]
    exact congrArg (· ++ resultIds bs) (resultIds_toBlocks m.content)
  exact h

theorem behind_callers (o : Option (Nat × List ContentBlock)) (ms : List Message) :
    callers (behind o ms) = callers ms := by
  cases o with
  | none => rfl
  | some e =>
    refine attachResults_cases (P := fun l => callers l = callers ms) e ms (fun _ => ?_) ?_
    · rw [callers_cons, if_pos (calls_eq_nil (by simp))]
    · rintro m rest rfl hr
      rw [callers_cons, callers_cons, calls_eq_nil (by simp [hr]), calls_eq_nil (by simp [hr])]

theorem behind_toolUseIds (ho : ∀ e ∈ o, IsGroup e) : toolUseIds (behind o ms) = toolUseIds ms := by
  cases o with
  | none => rfl
  | some e =>
    have he := (ho e rfl).2
    refine attachResults_cases (P := fun l => toolUseIds l = toolUseIds ms) e ms (fun _ => ?_) ?_
    · rw [toolUseIds_cons, Message.toolUses, MessageContent.blockList, toolUses_of_results he,
        List.nil_append]
    · rintro m rest rfl hr
      rw [toolUseIds_cons, toolUseIds_cons, toolUses_merged he]

theorem mem_behind_toolResultIds {id : Str} : id ∈ toolResultIds (behind o ms) ↔
    (∃ e ∈ o, id ∈ resultIds e.2) ∨ id ∈ toolResultIds ms := by
  cases o with
  | none => simp [behind]
  | some e =>
    refine attachResults_cases (P := fun l => id ∈ toolResultIds l ↔
      (∃ e' ∈ some e, id ∈ resultIds e'.2) ∨ id ∈ toolResultIds ms) e ms (fun _ => ?_) ?_
    · simp [toolResultIds_cons, Message.toolResults, MessageContent.blockList, resultIds]
    · rintro m rest rfl hr
      simp only [toolResultIds_cons, toolResults_merged, List.mem_append, Option.mem_some_iff,
        exists_eq_left']
      tauto

theorem behind_nonempty (ho : ∀ e ∈ o, IsGroup e) (h : ∀ m ∈ ms, m.content.isEmpty = false) :
    ∀ m ∈ behind o ms, m.content.isEmpty = false := by
  cases o with
  | none => exact h
  | some e =>
    have he : e.2.isEmpty = false := by simpa using (ho e rfl).1
    refine attachResults_cases (P := fun l => ∀ m ∈ l, m.content.isEmpty = false) e ms
      (fun _ => ?_) ?_
    · intro m hm
      rcases List.mem_cons.mp hm with rfl | hm
      · exact he
      · exact h m hm
    · rintro m rest rfl hr m' hm'
      rcases List.mem_cons.mp hm' with rfl | hm'
      · simpa [MessageContent.isEmpty] using fun _ => (ho e rfl).1
      · exact h m' (List.mem_cons_of_mem _ hm')

theorem behind_seated (ho : ∀ e ∈ o, IsGroup e) (h : ∀ m ∈ ms, Seated m) :
    ∀ m ∈ behind o ms, Seated m := by
  cases o with
  | none => exact h
  | some e =>
    have he := (ho e rfl).2
    refine attachResults_cases (P := fun l => ∀ m ∈ l, Seated m) e ms (fun _ => ?_) ?_
    · intro m hm
      rcases List.mem_cons.mp hm with rfl | hm
      · exact ⟨fun _ => toolUses_of_results he, fun hr => absurd rfl hr⟩
      · exact h m hm
    · rintro m rest rfl hr m' hm'
      rcases List.mem_cons.mp hm' with rfl | hm'
      · refine ⟨fun _ => ?_, fun hn => absurd hr hn⟩
        rw [toolUses_merged he]
        exact (h m (List.mem_cons_self ..)).1 (by simp [hr])
      · exact h m' (List.mem_cons_of_mem _ hm')

/-- A group goes behind messages without spoiling the place of any result. -/
theorem behind_placed {U prev : List Str} (h : Placed U prev ms)
    (ho : ∀ e ∈ o, ∀ id ∈ resultIds e.2, id ∈ U → id ∈ prev ∧ id ∉ calledIn ms) :
    Placed U prev (behind o ms) := by
  cases o with
  | none => exact h
  | some e =>
    refine attachResults_cases (P := Placed U prev) e ms (fun hhead => ?_) ?_
    · refine ⟨fun _ id hid => ho e rfl id hid, ?_⟩
      cases ms with
      | nil => trivial
      | cons m rest => exact ⟨fun hr => absurd hr (hhead m rfl), h.2⟩
    · rintro m rest rfl hr
      refine ⟨fun _ id hid hU => ?_, ?_⟩
      · rw [toolResults_merged] at hid
        rcases List.mem_append.mp hid with hid | hid
        · exact h.1 hr id hid hU
        · obtain ⟨hprev, hl⟩ := ho e rfl id hid hU
          rw [calledIn_cons, calls_eq_nil (by simp [hr]), List.nil_append] at hl
          exact ⟨hprev, hl⟩
      · have := h.2
        rw [calls_eq_nil (by simp [hr])] at this
        rwa [calls_eq_nil (by simp [hr])]

end Attach

section AttachAll

variable {d : List (Message × Option (Nat × List ContentBlock))}

def Groups (d : List (Message × Option (Nat × List ContentBlock))) : Prop :=
  ∀ p ∈ d, ∀ e ∈ p.2, IsGroup e

theorem Groups.tail {p : Message × Option (Nat × List ContentBlock)} (h : Groups (p :: d)) :
    Groups d := fun q hq => h q (List.mem_cons_of_mem _ hq)

theorem Groups.head {p : Message × Option (Nat × List ContentBlock)} (h : Groups (p :: d)) :
    ∀ e ∈ p.2, IsGroup e := h p (List.mem_cons_self ..)

theorem attachAll_callers (d : List (Message × Option (Nat × List ContentBlock))) :
    callers (attachAll d) = callers (d.map Prod.fst) := by
  induction d with
  | nil => rfl
  | cons p d ih =>
    obtain ⟨a, o⟩ := p
    rw [attachAll_cons, List.map_cons, callers_cons, callers_cons, behind_callers, ih]

theorem attachAll_toolUseIds (h : Groups d) :
    toolUseIds (attachAll d) = toolUseIds (d.map Prod.fst) := by
  induction d with
  | nil => rfl
  | cons p d ih =>
    obtain ⟨a, o⟩ := p
    rw [attachAll_cons, List.map_cons, toolUseIds_cons, toolUseIds_cons,
      behind_toolUseIds h.head, ih h.tail]

theorem mem_attachAll_toolResultIds {id : Str} : id ∈ toolResultIds (attachAll d) ↔
    id ∈ toolResultIds (d.map Prod.fst) ∨ ∃ p ∈ d, ∃ e ∈ p.2, id ∈ resultIds e.2 := by
  induction d with
  | nil => simp [attachAll, onePass, toolResultIds]
  | cons p d ih =>
    obtain ⟨a, o⟩ := p
    rw [attachAll_cons, List.map_cons, toolResultIds_cons, toolResultIds_cons, List.mem_append,
      List.mem_append, mem_behind_toolResultIds, ih, List.exists_mem_cons_iff]
    simp only [or_assoc, or_left_comm]

theorem attachAll_nonempty (h : Groups d) (hd : ∀ p ∈ d, p.1.content.isEmpty = false) :
    ∀ m ∈ attachAll d, m.content.isEmpty = false := by
  induction d with
  | nil => exact fun m hm => absurd hm List.not_mem_nil
  | cons p d ih =>
    obtain ⟨a, o⟩ := p
    rw [attachAll_cons]
    intro m hm
    rcases List.mem_cons.mp hm with rfl | hm
    · exact hd _ (List.mem_cons_self ..)
    · exact behind_nonempty h.head (ih h.tail (fun q hq => hd q (List.mem_cons_of_mem _ hq))) m hm

theorem attachAll_seated (h : Groups d) (hd : ∀ p ∈ d, Seated p.1) :
    ∀ m ∈ attachAll d, Seated m := by
  induction d with
  | nil => exact fun m hm => absurd hm List.not_mem_nil
  | cons p d ih =>
    obtain ⟨a, o⟩ := p
    rw [attachAll_cons]
    intro m hm
    rcases List.mem_cons.mp hm with rfl | hm
    · exact hd _ (List.mem_cons_self ..)
    · exact behind_seated h.head (ih h.tail (fun q hq => hd q (List.mem_cons_of_mem _ hq))) m hm

/-- Every result stands, or is about to be put, where `Placed` wants it. -/
def Ready (U : List Str) : List Str → List (Message × Option (Nat × List ContentBlock)) → Prop
  | _, [] => True
  | prev, (m, o) :: d =>
    (m.role = .user → ∀ id ∈ m.toolResults, id ∈ U →
      id ∈ prev ∧ id ∉ calledIn (d.map Prod.fst)) ∧
    (∀ e ∈ o, ∀ id ∈ resultIds e.2, id ∈ U → id ∈ m.calls ∧ id ∉ calledIn (d.map Prod.fst)) ∧
    Ready U m.calls d

theorem Ready.mono {U prev prev' : List Str} (h : Ready U prev d) (hp : prev ⊆ prev') :
    Ready U prev' d := by
  cases d with
  | nil => trivial
  | cons p d =>
    obtain ⟨m, o⟩ := p
    refine ⟨fun hr id hid hU => ?_, h.2⟩
    obtain ⟨hprev, hl⟩ := h.1 hr id hid hU
    exact ⟨hp hprev, hl⟩

theorem Ready.placed {U prev : List Str} (h : Ready U prev d) : Placed U prev (attachAll d) := by
  induction d generalizing prev with
  | nil => trivial
  | cons p d ih =>
    obtain ⟨m, o⟩ := p
    obtain ⟨hm, ho, hd⟩ := h
    rw [attachAll_cons]
    have hcalled : calledIn (behind o (attachAll d)) = calledIn (d.map Prod.fst) :=
      calledIn_congr ((behind_callers o _).trans (attachAll_callers d))
    refine ⟨by rwa [hcalled], behind_placed (ih hd) ?_⟩
    rwa [calledIn_congr (attachAll_callers d)]

end AttachAll

section Reorder

variable {l : List Message}

theorem removeSources_thins (misplaced : List Misplaced) (m : Message) (i : Nat) :
    Thins (removeSources misplaced m i) m := by
  unfold removeSources
  split
  · rename_i bs hr h
    refine thins_filter h (fun b _ hb => ?_)
    simp only [Bool.not_eq_false'] at hb
    unfold isSource at hb
    split at hb
    · cases hb
    · rename_i id hid
      exact toolUseId?_of_resultId? hid
  · exact thins_refl m

theorem removeSources_forall₂ (misplaced : List Misplaced) (i : Nat) (l : List Message) :
    List.Forall₂ Thins ((l.zipIdx i).map (fun p => removeSources misplaced p.1 p.2)) l := by
  induction l generalizing i with
  | nil => exact .nil
  | cons m l ih => exact .cons (removeSources_thins misplaced m i) (ih (i + 1))

theorem mem_of_entryAt {group : Nat → List ContentBlock} {i : Nat} {e : Nat × List ContentBlock}
    (h : e ∈ entryAt group i) : e.2 = group i ∧ group i ≠ [] := by
  unfold entryAt at h
  split at h <;> rename_i hg
  · cases h
  · obtain rfl := Option.some.inj h
    exact ⟨rfl, hg⟩

theorem plan_groups {shrink : Message → Nat → Message} {group : Nat → List ContentBlock}
    (hgroup : ∀ k, ∀ b ∈ group k, b.resultId?.isSome = true) (i : Nat) (ms : List Message) :
    Groups (plan shrink group i ms) := by
  intro p hp e he
  obtain ⟨pre, post, h⟩ := List.append_of_mem hp
  obtain ⟨ms₁, m, ms₂, -, -, hx, -⟩ := plan_split h
  rw [hx] at he
  obtain ⟨heq, hne⟩ := mem_of_entryAt he
  exact ⟨heq ▸ hne, heq ▸ hgroup _⟩

theorem plan_nonempty {shrink : Message → Nat → Message} {group : Nat → List ContentBlock}
    {i : Nat} {ms : List Message} : ∀ p ∈ plan shrink group i ms, p.1.content.isEmpty = false := by
  intro p hp
  have hmem : p.1 ∈ (plan shrink group i ms).map Prod.fst := List.mem_map_of_mem hp
  rw [plan_map_fst] at hmem
  exact dropEmpty_nonempty _ hmem

theorem exists_mem_plan {shrink : Message → Nat → Message} {group : Nat → List ContentBlock}
    {ms : List Message} {k : Nat}
    (hempty : ∀ j m, ms[j]? = some m → (shrink m j).content.isEmpty = true → group j = [])
    (hk : k < ms.length) (hg : group k ≠ []) :
    ∃ p ∈ plan shrink group 0 ms, p.2 = some (k, group k) := by
  have hmem : (k, group k) ∈ (plan shrink group 0 ms).filterMap Prod.snd := by
    rw [plan_filterMap_snd (by simpa using hempty)]
    exact List.mem_filterMap.mpr ⟨k, by simpa using hk, if_neg hg⟩
  exact List.mem_filterMap.mp hmem

theorem groupOf_results (k : Nat) :
    ∀ b ∈ groupOf (misplacedResults l) k, b.resultId?.isSome = true := by
  intro b hb
  obtain ⟨r, hr, -, rfl⟩ := mem_groupOf.mp hb
  rw [(mem_misplacedResults.mp hr).1]
  rfl

/-- The plan of the reordering pass. -/
def reorderPlan (l : List Message) (i : Nat) (ms : List Message) :
    List (Message × Option (Nat × List ContentBlock)) :=
  plan (removeSources (misplacedResults l)) (groupOf (misplacedResults l)) i ms

theorem reorderPlan_callers (i : Nat) (ms : List Message) :
    callers ((reorderPlan l i ms).map Prod.fst) = callers ms := by
  rw [reorderPlan, plan_map_fst, dropEmpty_callers, thin_callers (removeSources_forall₂ _ i ms)]

/-- A result that the reordering pass leaves in a user message is for an unknown
id or stands right behind the last message that calls it. -/
theorem kept_result {pre post : List Message} {m : Message} (hl : l = pre ++ m :: post)
    (hr : m.role = .user) {id : Str}
    (hid : id ∈ (removeSources (misplacedResults l) m pre.length).toolResults)
    (hU : id ∈ calledIn l) :
    id ∈ (pre.map Message.calls).getLast?.getD [] ∧ id ∉ calledIn post := by
  obtain ⟨k, hk⟩ : ∃ k, toolUseIndex l id = some k := by
    cases h : toolUseIndex l id with
    | none => exact absurd hU (toolUseIndex_eq_none_iff.mp h)
    | some k => exact ⟨k, rfl⟩
  have hget : l[pre.length]? = some m := by simp [hl]
  obtain ⟨b, hb, hbid⟩ := List.mem_filterMap.mp hid
  have hkept : b ∈ m.content.blockList ∧
      isSource (misplacedResults l) pre.length b = false := by
    unfold removeSources at hb
    split at hb
    · rename_i bs _ hc
      simpa [MessageContent.blockList, hc] using List.mem_filter.mp hb
    · rename_i hn
      cases hc : m.content with
      | text s => simp [hc, MessageContent.blockList] at hb
      | blocks bs => exact absurd hc (hn bs hr)
  have hplace : pre.length = k + 1 := by
    by_contra hne
    have hmis : (⟨pre.length, id, b, k⟩ : Misplaced) ∈ misplacedResults l :=
      mem_misplacedResults.mpr ⟨hbid, hk, hne, m, hget, hr, hkept.1⟩
    have hsource := hkept.2
    simp only [isSource, hbid, List.any_eq_false, decide_eq_true_eq, not_and] at hsource
    exact hsource _ hmis rfl rfl
  obtain ⟨pre', a, rfl⟩ : ∃ pre' a, pre = pre' ++ [a] := by
    cases pre using List.reverseRecOn with
    | nil => simp at hplace
    | append_singleton pre' a => exact ⟨pre', a, rfl⟩
  obtain rfl : pre'.length = k := by simpa using hplace
  rw [List.append_assoc, List.singleton_append] at hl
  rw [hl, toolUseIndex_eq_some_iff] at hk
  refine ⟨by simpa using hk.1, ?_⟩
  have := hk.2
  rw [List.flatMap_cons, List.mem_append, not_or] at this
  exact this.2

theorem reorderPlan_ready {pre ms : List Message} (hl : l = pre ++ ms) :
    Ready (calledIn l) ((pre.map Message.calls).getLast?.getD []) (reorderPlan l pre.length ms) := by
  induction ms generalizing pre with
  | nil => trivial
  | cons m ms ih =>
    have hrec := ih (show l = pre ++ [m] ++ ms by simp [hl])
    rw [List.map_append, List.map_singleton, List.getLast?_concat, Option.getD_some,
      List.length_append, List.length_singleton] at hrec
    rw [reorderPlan, plan]
    split <;> rename_i he
    · have hcalls : m.calls = [] := by
        rw [← (removeSources_thins (misplacedResults l) m pre.length).calls]
        exact calls_of_toolUses (toolUses_of_isEmpty he)
      rw [hcalls] at hrec
      exact hrec.mono (List.nil_subset _)
    · have hcalled : calledIn ((reorderPlan l (pre.length + 1) ms).map Prod.fst) = calledIn ms :=
        calledIn_congr (reorderPlan_callers _ _)
      refine ⟨fun hr id hid hU => ?_, fun e he id hid hU => ?_, ?_⟩
      · rw [removeSources_role] at hr
        have := kept_result hl hr hid hU
        exact ⟨this.1, by rw [← hcalled] at this; exact this.2⟩
      · obtain ⟨heq, -⟩ := mem_of_entryAt he
        rw [heq] at hid
        obtain ⟨b, hb, hbid⟩ := List.mem_filterMap.mp hid
        obtain ⟨r, hr, hidx, rfl⟩ := mem_groupOf.mp hb
        obtain ⟨hrid, hindex, -⟩ := mem_misplacedResults.mp hr
        obtain rfl : r.toolUseId = id := Option.some.inj (hrid.symm.trans hbid)
        rw [hidx, hl, toolUseIndex_eq_some_iff] at hindex
        rw [removeSources_calls]
        refine ⟨hindex.1, ?_⟩
        rw [← reorderPlan, hcalled]
        exact hindex.2
      · rw [removeSources_calls]
        exact hrec

variable (hne : ∀ m ∈ l, m.content.isEmpty = false)

include hne

theorem reorder_callers : callers (reorderToolResults l).1 = callers l := by
  rw [reorderToolResults_eq hne, attachAll_callers]
  exact reorderPlan_callers 0 l

theorem reorder_toolUseIds : toolUseIds (reorderToolResults l).1 = toolUseIds l := by
  rw [reorderToolResults_eq hne, attachAll_toolUseIds (plan_groups groupOf_results 0 l),
    plan_map_fst, dropEmpty_toolUseIds, thin_toolUseIds (removeSources_forall₂ _ 0 l)]

theorem reorder_nonempty : ∀ m ∈ (reorderToolResults l).1, m.content.isEmpty = false := by
  rw [reorderToolResults_eq hne]
  exact attachAll_nonempty (plan_groups groupOf_results 0 l) plan_nonempty

theorem reorder_seated (hs : ∀ m ∈ l, Seated m) : ∀ m ∈ (reorderToolResults l).1, Seated m := by
  rw [reorderToolResults_eq hne]
  refine attachAll_seated (plan_groups groupOf_results 0 l) (fun p hp => ?_)
  have hmem := List.mem_map_of_mem (f := Prod.fst) hp
  rw [plan_map_fst] at hmem
  exact dropEmpty_seated (thin_seated (removeSources_forall₂ _ 0 l) hs) _ hmem

theorem reorder_placed : Placed (calledIn l) [] (reorderToolResults l).1 := by
  rw [reorderToolResults_eq hne]
  exact (reorderPlan_ready (show l = [] ++ l from rfl)).placed

/-- Reordering loses no id that has a result and brings in none. -/
theorem mem_reorder_toolResultIds {id : Str} :
    id ∈ toolResultIds (reorderToolResults l).1 ↔ id ∈ toolResultIds l := by
  rw [reorderToolResults_eq hne, mem_attachAll_toolResultIds, plan_map_fst,
    dropEmpty_toolResultIds]
  constructor
  · rintro (hid | ⟨p, hp, e, he, hid⟩)
    · exact (thin_toolResultIds (removeSources_forall₂ _ 0 l)).subset hid
    · obtain ⟨pre, post, h⟩ := List.append_of_mem hp
      obtain ⟨ms₁, m, ms₂, -, -, hx, -⟩ := plan_split h
      rw [hx] at he
      rw [(mem_of_entryAt he).1] at hid
      obtain ⟨b, hb, hbid⟩ := List.mem_filterMap.mp hid
      obtain ⟨r, hr, -, rfl⟩ := mem_groupOf.mp hb
      obtain ⟨-, -, -, m', hm', -, hblock⟩ := mem_misplacedResults.mp hr
      exact List.mem_flatMap.mpr
        ⟨m', List.mem_of_getElem? hm', List.mem_filterMap.mpr ⟨_, hblock, hbid⟩⟩
  · intro hid
    obtain ⟨m, hm, hmid⟩ := List.mem_flatMap.mp hid
    obtain ⟨i, hi⟩ := List.mem_iff_getElem?.mp hm
    by_cases hkeep : id ∈ (removeSources (misplacedResults l) m i).toolResults
    · refine Or.inl (List.mem_flatMap.mpr ⟨_, List.mem_map.mpr ⟨(m, i), ?_, rfl⟩, hkeep⟩)
      exact List.mk_mem_zipIdx_iff_getElem?.mpr hi
    · right
      -- the result was removed, so it was misplaced and is in the group of its target
      obtain ⟨r, hr, hrid⟩ : ∃ r ∈ misplacedResults l, r.toolUseId = id := by
        by_contra hnone
        apply hkeep
        have hsource : ∀ b : ContentBlock, b.resultId? = some id →
            isSource (misplacedResults l) i b = false := by
          intro b hb
          simp only [isSource, hb, List.any_eq_false, decide_eq_true_eq, not_and]
          exact fun r hr _ hrid => hnone ⟨r, hr, hrid⟩
        obtain ⟨b, hb, hbid⟩ := List.mem_filterMap.mp hmid
        refine List.mem_filterMap.mpr ⟨b, ?_, hbid⟩
        unfold removeSources
        split
        · rename_i bs _ hc
          rw [hc] at hb
          exact List.mem_filter.mpr ⟨hb, by simp [hsource b hbid]⟩
        · exact hb
      obtain ⟨hbid, hindex, -⟩ := mem_misplacedResults.mp hr
      obtain ⟨c, hc, hcall⟩ := toolUseIndex_mem hindex
      have hblock : r.block ∈ groupOf (misplacedResults l) r.assistantIdx :=
        mem_groupOf.mpr ⟨r, hr, rfl, rfl⟩
      have hgroup := List.ne_nil_of_mem hblock
      have hlt : r.assistantIdx < l.length := (List.getElem?_eq_some_iff.mp hc).1
      obtain ⟨p, hp, he⟩ := @exists_mem_plan (removeSources (misplacedResults l)) _ _ _
        (fun j m' hj he => groupOf_of_isEmpty hj (hne m' (List.mem_of_getElem? hj)) he) hlt hgroup
      exact ⟨p, hp, _, he, List.mem_filterMap.mpr ⟨_, hblock, hrid ▸ hbid⟩⟩

end Reorder

section Synthetic

variable {l : List Message}

theorem mem_orphanedUses {idx : Nat} {id : Str} : (idx, id) ∈ orphanedUses l ↔
    (∃ m, l[idx]? = some m ∧ id ∈ m.calls) ∧ id ∉ toolResultIds l := by
  simp only [orphanedUses, List.mem_flatMap, List.mem_map, List.mem_filter, Prod.mk.injEq,
    Prod.exists, Bool.not_eq_true', List.contains_eq_mem, decide_eq_false_iff_not]
  constructor
  · rintro ⟨m, i, hm, id', ⟨hid, hno⟩, rfl, rfl⟩
    exact ⟨⟨m, List.mk_mem_zipIdx_iff_getElem?.mp hm, hid⟩, hno⟩
  · rintro ⟨⟨m, hm, hid⟩, hno⟩
    exact ⟨m, idx, List.mk_mem_zipIdx_iff_getElem?.mpr hm, id, ⟨hid, hno⟩, rfl, rfl⟩

theorem syntheticGroup_results (orphaned : List (Nat × Str)) (k : Nat) :
    ∀ b ∈ syntheticGroup orphaned k, b.resultId?.isSome = true := by
  intro b hb
  obtain ⟨e, -, rfl⟩ := List.mem_map.mp hb
  rfl

theorem mem_syntheticGroup {orphaned : List (Nat × Str)} {k : Nat} {id : Str} :
    id ∈ resultIds (syntheticGroup orphaned k) ↔ (k, id) ∈ orphaned := by
  simp only [resultIds, syntheticGroup, List.mem_filterMap, List.mem_map, List.mem_filter,
    decide_eq_true_eq, Prod.exists]
  constructor
  · rintro ⟨b, ⟨i, id', ⟨hmem, rfl⟩, rfl⟩, hid⟩
    obtain rfl : id' = id := Option.some.inj hid
    exact hmem
  · exact fun hmem => ⟨_, ⟨k, id, ⟨hmem, rfl⟩, rfl⟩, rfl⟩

/-- The plan of the synthetic results. -/
def syntheticPlan (l : List Message) (i : Nat) (ms : List Message) :
    List (Message × Option (Nat × List ContentBlock)) :=
  plan (fun m _ => m) (syntheticGroup (orphanedUses l)) i ms

theorem plan_map_fst_self {group : Nat → List ContentBlock} {i : Nat} {ms : List Message}
    (hne : ∀ m ∈ ms, m.content.isEmpty = false) :
    (plan (fun m _ => m) group i ms).map Prod.fst = ms := by
  rw [plan_map_fst, List.zipIdx_map_fst, dropEmpty_self hne]

variable (hne : ∀ m ∈ l, m.content.isEmpty = false)

theorem syntheticPlan_ready {pre ms : List Message} {U prev : List Str} (hl : l = pre ++ ms)
    (hms : ∀ m ∈ ms, m.content.isEmpty = false) (hp : Placed U prev ms)
    (honce : ∀ id, id ∉ toolResultIds l → l.countP (fun m => id ∈ m.calls) ≤ 1) :
    Ready U prev (syntheticPlan l pre.length ms) := by
  induction ms generalizing pre prev with
  | nil => trivial
  | cons m ms ih =>
    have hms' : ∀ m' ∈ ms, m'.content.isEmpty = false :=
      fun m' hm' => hms m' (List.mem_cons_of_mem _ hm')
    have hrec := ih (show l = pre ++ [m] ++ ms by simp [hl]) hms' hp.2
    rw [List.length_append, List.length_singleton] at hrec
    rw [syntheticPlan, plan, if_neg (by simp [hms m (List.mem_cons_self ..)])]
    refine ⟨?_, fun e he id hid _ => ?_, hrec⟩
    · rw [plan_map_fst_self hms']
      exact hp.1
    · rw [(mem_of_entryAt he).1, mem_syntheticGroup, mem_orphanedUses] at hid
      obtain ⟨⟨m', hm', hcall⟩, hno⟩ := hid
      obtain rfl : m = m' := by simpa [hl] using hm'
      refine ⟨hcall, ?_⟩
      rw [plan_map_fst_self hms']
      intro hlater
      obtain ⟨c, hc, hcid⟩ := List.mem_flatMap.mp hlater
      have hone := honce id hno
      have hpos : 0 < ms.countP (fun m => id ∈ m.calls) :=
        List.countP_pos_iff.mpr ⟨c, hc, by simpa using hcid⟩
      rw [hl, List.countP_append, List.countP_cons_of_pos (by simpa using hcall)] at hone
      omega

include hne

theorem synthetic_callers : callers (insertSyntheticResults l).1 = callers l := by
  rw [insertSyntheticResults_eq hne, attachAll_callers, plan_map_fst_self hne]

theorem synthetic_toolUseIds : toolUseIds (insertSyntheticResults l).1 = toolUseIds l := by
  rw [insertSyntheticResults_eq hne,
    attachAll_toolUseIds (plan_groups (syntheticGroup_results _) 0 l), plan_map_fst_self hne]

theorem synthetic_nonempty : ∀ m ∈ (insertSyntheticResults l).1, m.content.isEmpty = false := by
  rw [insertSyntheticResults_eq hne]
  exact attachAll_nonempty (plan_groups (syntheticGroup_results _) 0 l) plan_nonempty

theorem synthetic_seated (hs : ∀ m ∈ l, Seated m) :
    ∀ m ∈ (insertSyntheticResults l).1, Seated m := by
  rw [insertSyntheticResults_eq hne]
  refine attachAll_seated (plan_groups (syntheticGroup_results _) 0 l) (fun p hp => ?_)
  have hmem := List.mem_map_of_mem (f := Prod.fst) hp
  rw [plan_map_fst_self hne] at hmem
  exact hs _ hmem

theorem synthetic_placed {U : List Str} (hp : Placed U [] l)
    (honce : ∀ id, id ∉ toolResultIds l → l.countP (fun m => id ∈ m.calls) ≤ 1) :
    Placed U [] (insertSyntheticResults l).1 := by
  rw [insertSyntheticResults_eq hne]
  exact (syntheticPlan_ready (show l = [] ++ l from rfl) hne hp honce).placed

theorem mem_synthetic_toolResultIds {id : Str} :
    id ∈ toolResultIds (insertSyntheticResults l).1 ↔ id ∈ toolResultIds l ∨ id ∈ calledIn l := by
  rw [insertSyntheticResults_eq hne, mem_attachAll_toolResultIds, plan_map_fst_self hne]
  constructor
  · rintro (hid | ⟨p, hp, e, he, hid⟩)
    · exact Or.inl hid
    · obtain ⟨pre, post, h⟩ := List.append_of_mem hp
      obtain ⟨ms₁, m, ms₂, -, -, hx, -⟩ := plan_split h
      rw [hx] at he
      rw [(mem_of_entryAt he).1, mem_syntheticGroup, mem_orphanedUses] at hid
      obtain ⟨⟨m', hm', hcall⟩, -⟩ := hid
      exact Or.inr (List.mem_flatMap.mpr ⟨m', List.mem_of_getElem? hm', hcall⟩)
  · intro hid
    by_cases hres : id ∈ toolResultIds l
    · exact Or.inl hres
    · right
      obtain ⟨m, hm, hcall⟩ := List.mem_flatMap.mp (hid.resolve_left hres)
      obtain ⟨k, hk⟩ := List.mem_iff_getElem?.mp hm
      have hgroup : id ∈ resultIds (syntheticGroup (orphanedUses l) k) :=
        mem_syntheticGroup.mpr (mem_orphanedUses.mpr ⟨⟨m, hk, hcall⟩, hres⟩)
      have hg : syntheticGroup (orphanedUses l) k ≠ [] := by
        intro h
        rw [h] at hgroup
        cases hgroup
      obtain ⟨p, hp, he⟩ := @exists_mem_plan (fun m _ => m) _ _ _
        (fun j m' hj he => absurd he (by simp [hne m' (List.mem_of_getElem? hj)]))
        (List.getElem?_eq_some_iff.mp hk).1 hg
      exact ⟨p, hp, _, he, hgroup⟩

end Synthetic

section Deduplicate

/-- The ids that are met for the first time. -/
def freshIds : List Str → List Str → List Str
  | _, [] => []
  | seen, id :: ids => if seen.contains id then freshIds seen ids else id :: freshIds (id :: seen) ids

theorem mem_freshIds {seen ids : List Str} {id : Str} :
    id ∈ freshIds seen ids ↔ id ∈ ids ∧ id ∉ seen := by
  induction ids generalizing seen with
  | nil => simp [freshIds]
  | cons a ids ih =>
    rw [freshIds]
    split <;> rename_i h
    · rw [ih]
      have ha : a ∈ seen := by simpa using h
      constructor
      · exact fun hid => ⟨List.mem_cons_of_mem _ hid.1, hid.2⟩
      · rintro ⟨hid, hs⟩
        rcases List.mem_cons.mp hid with rfl | hid
        · exact absurd ha hs
        · exact ⟨hid, hs⟩
    · have ha : a ∉ seen := by simpa using h
      rw [List.mem_cons, ih, List.mem_cons, List.mem_cons]
      constructor
      · rintro (rfl | ⟨hid, hs⟩)
        · exact ⟨Or.inl rfl, ha⟩
        · exact ⟨Or.inr hid, fun hm => hs (Or.inr hm)⟩
      · rintro ⟨rfl | hid, hs⟩
        · exact Or.inl rfl
        · by_cases he : id = a
          · exact Or.inl he
          · exact Or.inr ⟨hid, fun hm => hm.elim he hs⟩

theorem freshIds_nodup (seen ids : List Str) : (freshIds seen ids).Nodup := by
  induction ids generalizing seen with
  | nil => exact List.nodup_nil
  | cons a ids ih =>
    rw [freshIds]
    split
    · exact ih seen
    · refine List.nodup_cons.mpr ⟨fun h => ?_, ih _⟩
      exact (mem_freshIds.mp h).2 (List.mem_cons_self ..)

theorem dedupBlocks_spec (seen : List Str) (bs : List ContentBlock) :
    resultIds (dedupBlocks seen bs).1 = freshIds seen (resultIds bs) ∧
      (dedupBlocks seen bs).1.filterMap ContentBlock.toolUseId? =
        bs.filterMap ContentBlock.toolUseId? ∧
      ∀ id, id ∈ (dedupBlocks seen bs).2 ↔ id ∈ seen ∨ id ∈ resultIds bs := by
  induction bs generalizing seen with
  | nil => simp [dedupBlocks, resultIds, freshIds]
  | cons b bs ih =>
    unfold dedupBlocks
    split <;> rename_i hb
    · obtain ⟨hr, hu, hs⟩ := ih seen
      have hcons : ∀ bs', resultIds (b :: bs') = resultIds bs' := fun bs' => by
        rw [resultIds, List.filterMap_cons, hb, resultIds]
      simp only [hcons]
      exact ⟨hr, by rw [List.filterMap_cons, List.filterMap_cons, hu], hs⟩
    · rename_i id
      have hcons : ∀ bs', resultIds (b :: bs') = id :: resultIds bs' := fun bs' => by
        rw [resultIds, List.filterMap_cons, hb, resultIds]
      have huse : ∀ bs' : List ContentBlock, (b :: bs').filterMap ContentBlock.toolUseId? =
          bs'.filterMap ContentBlock.toolUseId? := fun bs' => by
        rw [List.filterMap_cons, toolUseId?_of_resultId? hb]
      rw [hcons, huse, freshIds]
      split <;> rename_i hc
      · obtain ⟨hr, hu, hs⟩ := ih seen
        have hid : id ∈ seen := by simpa using hc
        refine ⟨hr, hu, fun id' => ?_⟩
        rw [hs, List.mem_cons]
        constructor
        · exact fun h => h.imp_right Or.inr
        · rintro (h | rfl | h)
          · exact Or.inl h
          · exact Or.inl hid
          · exact Or.inr h
      · obtain ⟨hr, hu, hs⟩ := ih (id :: seen)
        refine ⟨by rw [hcons, hr], by rw [huse, hu], fun id' => ?_⟩
        rw [hs, List.mem_cons, List.mem_cons, or_assoc, or_left_comm]

theorem freshIds_sublist (seen ids : List Str) : (freshIds seen ids).Sublist ids := by
  induction ids generalizing seen with
  | nil => exact List.Sublist.refl _
  | cons a ids ih =>
    rw [freshIds]
    split
    · exact (ih seen).cons a
    · exact (ih _).cons_cons a

theorem dedupMessages_cons (seen : List Str) (m : Message) (l : List Message) :
    dedupMessages seen (m :: l) =
      (dedupMessage seen m).1 :: dedupMessages (dedupMessage seen m).2 l := rfl

theorem dedupMessage_spec (seen : List Str) (m : Message) :
    (dedupMessage seen m).1.toolResults = freshIds seen m.toolResults ∧
      Thins (dedupMessage seen m).1 m ∧
      ∀ id, id ∈ (dedupMessage seen m).2 ↔ id ∈ seen ∨ id ∈ m.toolResults := by
  unfold dedupMessage
  cases hc : m.content with
  | text s =>
    have hr : m.toolResults = [] := by simp [Message.toolResults, hc, MessageContent.blockList]
    exact ⟨by simp [hr, freshIds], thins_refl m, by simp [hr]⟩
  | blocks bs =>
    obtain ⟨hr, hu, hs⟩ := dedupBlocks_spec seen bs
    have hres : m.toolResults = resultIds bs := by
      simp only [Message.toolResults, hc, MessageContent.blockList]
      rfl
    have huse : m.toolUses = bs.filterMap ContentBlock.toolUseId? := by
      simp only [Message.toolUses, hc, MessageContent.blockList]
    have hsub : (resultIds (dedupBlocks seen bs).1).Sublist (resultIds bs) :=
      hr ▸ freshIds_sublist seen (resultIds bs)
    rw [hres]
    refine ⟨hr, ⟨rfl, huse ▸ hu, ?_⟩, hs⟩
    rw [hres]
    exact hsub

theorem dedupMessages_forall₂ (seen : List Str) (l : List Message) :
    List.Forall₂ Thins (dedupMessages seen l) l := by
  induction l generalizing seen with
  | nil => exact .nil
  | cons m l ih =>
    rw [dedupMessages_cons]
    exact .cons (dedupMessage_spec seen m).2.1 (ih _)

theorem mem_dedupMessages_toolResultIds {seen : List Str} {l : List Message} {id : Str} :
    id ∈ toolResultIds (dedupMessages seen l) ↔ id ∈ toolResultIds l ∧ id ∉ seen := by
  induction l generalizing seen with
  | nil => simp [dedupMessages, toolResultIds]
  | cons m l ih =>
    obtain ⟨hr, -, hs⟩ := dedupMessage_spec seen m
    rw [dedupMessages_cons, toolResultIds_cons, toolResultIds_cons, List.mem_append,
      List.mem_append, ih, hr, mem_freshIds, hs]
    tauto

theorem dedupMessages_nodup (seen : List Str) (l : List Message) :
    (toolResultIds (dedupMessages seen l)).Nodup := by
  induction l generalizing seen with
  | nil => exact List.nodup_nil
  | cons m l ih =>
    obtain ⟨hr, -, hs⟩ := dedupMessage_spec seen m
    rw [dedupMessages_cons, toolResultIds_cons, hr]
    refine List.nodup_append.mpr ⟨freshIds_nodup _ _, ih _, ?_⟩
    rintro a ha b hb rfl
    exact (mem_dedupMessages_toolResultIds.mp hb).2 ((hs a).mpr (Or.inr (mem_freshIds.mp ha).1))

theorem dedupBlocks_self {seen : List Str} {bs : List ContentBlock} (hn : (resultIds bs).Nodup)
    (hs : ∀ id ∈ resultIds bs, id ∉ seen) : (dedupBlocks seen bs).1 = bs := by
  induction bs generalizing seen with
  | nil => rfl
  | cons b bs ih =>
    unfold dedupBlocks
    split <;> rename_i hb
    · have hcons : resultIds (b :: bs) = resultIds bs := by
        rw [resultIds, List.filterMap_cons, hb, resultIds]
      rw [hcons] at hn hs
      simp only [ih hn hs]
    · rename_i id
      have hcons : resultIds (b :: bs) = id :: resultIds bs := by
        rw [resultIds, List.filterMap_cons, hb, resultIds]
      rw [hcons] at hn hs
      have hid : ¬ seen.contains id = true := by simpa using hs id (List.mem_cons_self ..)
      rw [if_neg hid]
      simp only [ih hn.of_cons (fun a ha hm => by
        rcases List.mem_cons.mp hm with rfl | hm
        · exact (List.nodup_cons.mp hn).1 ha
        · exact hs a (List.mem_cons_of_mem _ ha) hm)]

theorem dedupMessages_self {seen : List Str} {l : List Message} (hn : (toolResultIds l).Nodup)
    (hs : ∀ id ∈ toolResultIds l, id ∉ seen) : dedupMessages seen l = l := by
  induction l generalizing seen with
  | nil => rfl
  | cons m l ih =>
    rw [toolResultIds_cons] at hn hs
    obtain ⟨hm, hl, hdisj⟩ := List.nodup_append.mp hn
    have hself : (dedupMessage seen m).1 = m := by
      unfold dedupMessage
      cases hc : m.content with
      | text s => rfl
      | blocks bs =>
        have hres : m.toolResults = resultIds bs := by
          simp only [Message.toolResults, hc, MessageContent.blockList]
          rfl
        rw [hres] at hm hs
        simp only [dedupBlocks_self hm (fun id hid => hs id (List.mem_append_left _ hid)), ← hc]
    rw [dedupMessages_cons, hself, ih hl]
    intro id hid hseen
    rcases ((dedupMessage_spec seen m).2.2 id).mp hseen with hseen | hseen
    · exact hs id (List.mem_append_right _ hid) hseen
    · exact hdisj id hseen id hid rfl

end Deduplicate

section Aborted

theorem toolIds_of_blank {m : Message} (h : isEmptyOrBlankContent m.content = true) :
    m.toolUses = [] ∧ m.toolResults = [] := by
  have hblocks : ∀ b ∈ m.content.blockList, b.toolUseId? = none ∧ b.resultId? = none := by
    cases hc : m.content with
    | text s => simp [MessageContent.blockList]
    | blocks bs =>
      intro b hb
      rw [hc, isEmptyOrBlankContent, List.all_eq_true] at h
      have := h b hb
      cases b <;> first | exact ⟨rfl, rfl⟩ | cases this
  exact ⟨List.filterMap_eq_nil_iff.mpr (fun b hb => (hblocks b hb).1),
    List.filterMap_eq_nil_iff.mpr (fun b hb => (hblocks b hb).2)⟩

theorem aborted_cons (m : Message) (l : List Message) :
    (isEmptyOrBlankContent m.content = true ∧ l ≠ [] ∧ removeAbortedAssistantMessages (m :: l) =
      removeAbortedAssistantMessages l) ∨
    ((m.role = .assistant → isEmptyOrBlankContent m.content = true → l = []) ∧
      removeAbortedAssistantMessages (m :: l) = m :: removeAbortedAssistantMessages l) := by
  rw [removeAbortedAssistantMessages]
  split <;> rename_i h
  · exact Or.inl ⟨h.2.1, h.2.2, rfl⟩
  · refine Or.inr ⟨fun hr hb => ?_, rfl⟩
    by_contra hl
    exact h ⟨hr, hb, hl⟩

theorem aborted_sublist (l : List Message) : (removeAbortedAssistantMessages l).Sublist l := by
  induction l with
  | nil => exact List.Sublist.refl _
  | cons m l ih =>
    rcases aborted_cons m l with ⟨-, -, h⟩ | ⟨-, h⟩
    · rw [h]
      exact ih.cons m
    · rw [h]
      exact ih.cons_cons m

theorem aborted_callers (l : List Message) :
    callers (removeAbortedAssistantMessages l) = callers l := by
  induction l with
  | nil => rfl
  | cons m l ih =>
    rcases aborted_cons m l with ⟨hb, -, h⟩ | ⟨-, h⟩
    · rw [h, ih, callers_cons, if_pos (calls_of_toolUses (toolIds_of_blank hb).1)]
    · rw [h, callers_cons, callers_cons, ih]

theorem aborted_toolUseIds (l : List Message) :
    toolUseIds (removeAbortedAssistantMessages l) = toolUseIds l := by
  induction l with
  | nil => rfl
  | cons m l ih =>
    rcases aborted_cons m l with ⟨hb, -, h⟩ | ⟨-, h⟩
    · rw [h, ih, toolUseIds_cons, (toolIds_of_blank hb).1, List.nil_append]
    · rw [h, toolUseIds_cons, toolUseIds_cons, ih]

theorem aborted_toolResultIds (l : List Message) :
    toolResultIds (removeAbortedAssistantMessages l) = toolResultIds l := by
  induction l with
  | nil => rfl
  | cons m l ih =>
    rcases aborted_cons m l with ⟨hb, -, h⟩ | ⟨-, h⟩
    · rw [h, ih, toolResultIds_cons, (toolIds_of_blank hb).2, List.nil_append]
    · rw [h, toolResultIds_cons, toolResultIds_cons, ih]

theorem aborted_placed {U prev : List Str} {l : List Message} (h : Placed U prev l) :
    Placed U prev (removeAbortedAssistantMessages l) := by
  induction l generalizing prev with
  | nil => trivial
  | cons m l ih =>
    rcases aborted_cons m l with ⟨hb, -, he⟩ | ⟨-, he⟩
    · have hl := ih h.2
      rw [calls_of_toolUses (toolIds_of_blank hb).1] at hl
      rw [he]
      exact hl.mono (List.nil_subset _)
    · rw [he]
      refine ⟨fun hr id hid hU => ?_, ih h.2⟩
      rw [calledIn_congr (aborted_callers l)]
      exact h.1 hr id hid hU

theorem aborted_blankLast (l : List Message) : BlankLast (removeAbortedAssistantMessages l) := by
  induction l with
  | nil => trivial
  | cons m l ih =>
    rcases aborted_cons m l with ⟨-, -, h⟩ | ⟨hlast, h⟩
    · rw [h]
      exact ih
    · rw [h]
      refine ⟨fun hr hb => ?_, ih⟩
      rw [hlast hr hb]
      rfl

theorem aborted_self {l : List Message} (h : BlankLast l) :
    removeAbortedAssistantMessages l = l := by
  induction l with
  | nil => rfl
  | cons m l ih =>
    rw [removeAbortedAssistantMessages, if_neg, ih h.2]
    rintro ⟨hr, hb, hl⟩
    exact hl (h.1 hr hb)

end Aborted

section Merge

/-- Two neighbours with one role, merged. -/
def merged (a b : Message) : Message := { a with content := mergeContent a.content b.content }

theorem merged_toolUses (a b : Message) : (merged a b).toolUses = a.toolUses ++ b.toolUses := by
  simp only [merged, Message.toolUses, mergeContent, MessageContent.blockList,
    List.filterMap_append, toolUses_toBlocks]

theorem merged_toolResults (a b : Message) :
    (merged a b).toolResults = a.toolResults ++ b.toolResults := by
  have h : resultIds (a.content.toBlocks ++ b.content.toBlocks) =
      a.toolResults ++ b.toolResults := by
    rw [resultIds, List.filterMap_append]
    exact congrArg₂ (· ++ ·) (resultIds_toBlocks a.content) (resultIds_toBlocks b.content)
  exact h

theorem merged_calls {a b : Message} (h : a.role = b.role) :
    (merged a b).calls = a.calls ++ b.calls := by
  have hr : (merged a b).role = a.role := rfl
  unfold Message.calls
  rw [merged_toolUses, hr, ← h]
  split <;> rfl

theorem merged_nonempty {a b : Message} (h : a.content.isEmpty = false) :
    (merged a b).content.isEmpty = false := by
  cases hc : a.content with
  | text s => simp [merged, mergeContent, MessageContent.toBlocks, MessageContent.isEmpty, hc]
  | blocks bs =>
    rw [hc] at h
    have : bs ≠ [] := by simpa [MessageContent.isEmpty] using h
    simp [merged, mergeContent, MessageContent.toBlocks, MessageContent.isEmpty, hc, this]

theorem blank_toBlocks (c : MessageContent) :
    isEmptyOrBlankContent (.blocks c.toBlocks) = isEmptyOrBlankContent c := by
  cases c <;> simp [isEmptyOrBlankContent, MessageContent.toBlocks]

theorem merged_blank {a b : Message} (h : isEmptyOrBlankContent (merged a b).content = true) :
    isEmptyOrBlankContent a.content = true := by
  rw [← blank_toBlocks]
  simp only [merged, mergeContent, isEmptyOrBlankContent, List.all_append, Bool.and_eq_true] at h
  exact h.1

theorem merged_seated {a b : Message} (hr : a.role = b.role) (ha : Seated a) (hb : Seated b) :
    Seated (merged a b) := by
  refine ⟨fun h => ?_, fun h => ?_⟩
  · rw [merged_toolUses, ha.1 h, hb.1 (hr ▸ h), List.nil_append]
  · rw [merged_toolResults, ha.2 h, hb.2 (hr ▸ h), List.nil_append]

theorem mergeFrom_cons (last m : Message) (l : List Message) :
    mergeFrom last (m :: l) =
      if last.role = m.role then mergeFrom (merged last m) l else last :: mergeFrom m l := rfl

variable {last : Message} {l : List Message}

theorem mergeFrom_toolUseIds (last : Message) (l : List Message) :
    toolUseIds (mergeFrom last l) = toolUseIds (last :: l) := by
  induction l generalizing last with
  | nil => rfl
  | cons m l ih =>
    rw [mergeFrom_cons]
    split
    · rw [ih, toolUseIds_cons, merged_toolUses, toolUseIds_cons, toolUseIds_cons,
        List.append_assoc]
    · rw [toolUseIds_cons, ih, toolUseIds_cons, toolUseIds_cons, toolUseIds_cons]

theorem mergeFrom_toolResultIds (last : Message) (l : List Message) :
    toolResultIds (mergeFrom last l) = toolResultIds (last :: l) := by
  induction l generalizing last with
  | nil => rfl
  | cons m l ih =>
    rw [mergeFrom_cons]
    split
    · rw [ih, toolResultIds_cons, merged_toolResults, toolResultIds_cons, toolResultIds_cons,
        List.append_assoc]
    · rw [toolResultIds_cons, ih, toolResultIds_cons, toolResultIds_cons, toolResultIds_cons]

theorem mergeFrom_calledIn (last : Message) (l : List Message) :
    calledIn (mergeFrom last l) = calledIn (last :: l) := by
  induction l generalizing last with
  | nil => rfl
  | cons m l ih =>
    rw [mergeFrom_cons]
    split <;> rename_i h
    · rw [ih, calledIn_cons, merged_calls h, calledIn_cons, calledIn_cons, List.append_assoc]
    · rw [calledIn_cons, ih, calledIn_cons, calledIn_cons, calledIn_cons]

theorem mergeFrom_head (last : Message) (l : List Message) :
    ∃ m rest, mergeFrom last l = m :: rest ∧ m.role = last.role := by
  induction l generalizing last with
  | nil => exact ⟨last, [], rfl, rfl⟩
  | cons m l ih =>
    rw [mergeFrom_cons]
    split
    · exact ih (merged last m)
    · exact ⟨last, _, rfl, rfl⟩

theorem mergeFrom_alternates (last : Message) (l : List Message) :
    (mergeFrom last l).IsChain (fun a b => a.role ≠ b.role) := by
  induction l generalizing last with
  | nil => exact List.IsChain.singleton _
  | cons m l ih =>
    rw [mergeFrom_cons]
    split <;> rename_i h
    · exact ih _
    · obtain ⟨m', rest, he, hr⟩ := mergeFrom_head m l
      have hm := ih m
      rw [he] at hm ⊢
      exact List.IsChain.cons_cons (by rwa [hr]) hm

theorem mergeFrom_nonempty (hlast : last.content.isEmpty = false)
    (hl : ∀ m ∈ l, m.content.isEmpty = false) :
    ∀ m ∈ mergeFrom last l, m.content.isEmpty = false := by
  induction l generalizing last with
  | nil => simpa [mergeFrom] using hlast
  | cons m l ih =>
    have hl' : ∀ m' ∈ l, m'.content.isEmpty = false :=
      fun m' hm' => hl m' (List.mem_cons_of_mem _ hm')
    rw [mergeFrom_cons]
    split
    · exact ih (merged_nonempty hlast) hl'
    · intro m' hm'
      rcases List.mem_cons.mp hm' with rfl | hm'
      · exact hlast
      · exact ih (hl m (List.mem_cons_self ..)) hl' m' hm'

theorem mergeFrom_seated (hlast : Seated last) (hl : ∀ m ∈ l, Seated m) :
    ∀ m ∈ mergeFrom last l, Seated m := by
  induction l generalizing last with
  | nil => simpa [mergeFrom] using hlast
  | cons m l ih =>
    have hl' : ∀ m' ∈ l, Seated m' := fun m' hm' => hl m' (List.mem_cons_of_mem _ hm')
    rw [mergeFrom_cons]
    split <;> rename_i h
    · exact ih (merged_seated h hlast (hl m (List.mem_cons_self ..))) hl'
    · intro m' hm'
      rcases List.mem_cons.mp hm' with rfl | hm'
      · exact hlast
      · exact ih (hl m (List.mem_cons_self ..)) hl' m' hm'

theorem mergeFrom_placed {U prev : List Str} (h : Placed U prev (last :: l)) :
    Placed U prev (mergeFrom last l) := by
  induction l generalizing last prev with
  | nil => exact h
  | cons m l ih =>
    obtain ⟨hlast, hm, hl⟩ := h
    rw [mergeFrom_cons]
    split <;> rename_i hr
    · refine ih ⟨fun hu id hid hU => ?_, hl.mono ?_⟩
      · rw [merged_toolResults] at hid
        rcases List.mem_append.mp hid with hid | hid
        · obtain ⟨hprev, hno⟩ := hlast hu id hid hU
          rw [calledIn_cons, List.mem_append, not_or] at hno
          exact ⟨hprev, hno.2⟩
        · -- the message in front of `m` is a user message, which calls nothing
          have hcall := (hm (hr ▸ hu) id hid hU).1
          have hu' : last.role = .user := hu
          rw [calls_eq_nil (by simp [hu'])] at hcall
          cases hcall
      · rw [merged_calls hr]
        exact List.subset_append_right _ _
    · refine ⟨fun hu id hid hU => ?_, ih ⟨hm, hl⟩⟩
      rw [mergeFrom_calledIn]
      exact hlast hu id hid hU

theorem mergeFrom_blankLast (h : BlankLast (last :: l)) : BlankLast (mergeFrom last l) := by
  induction l generalizing last with
  | nil => exact h
  | cons m l ih =>
    obtain ⟨hlast, hm⟩ := h
    rw [mergeFrom_cons]
    split
    · refine ih ⟨fun hr hb => ?_, hm.2⟩
      exact absurd (hlast hr (merged_blank hb)) (by simp)
    · exact ⟨fun hr hb => absurd (hlast hr hb) (by simp), ih hm⟩

theorem mergeFrom_self (h : (last :: l).IsChain (fun a b => a.role ≠ b.role)) :
    mergeFrom last l = last :: l := by
  induction l generalizing last with
  | nil => rfl
  | cons m l ih =>
    rw [List.isChain_cons_cons] at h
    rw [mergeFrom_cons, if_neg h.1, ih h.2]

end Merge

end Clawreform.Runtime.SessionRepair
