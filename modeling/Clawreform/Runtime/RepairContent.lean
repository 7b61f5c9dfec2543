import Clawreform.Runtime.RepairResult
import Mathlib.Algebra.BigOperators.Group.List.Basic
import Mathlib.Algebra.Order.BigOperators.Group.List
import Mathlib.Algebra.Order.Ring.Nat

namespace Clawreform.Runtime.RepairContent

open Clawreform.Lib.Text Clawreform.Lib.Splice Clawreform.Types
open Clawreform.Runtime.SessionRepair

section Dropping

variable {α : Type*} {p : α → Prop} {l l' : List α}

/-- What is left of a list when some elements with a property are dropped. -/
inductive Drops (p : α → Prop) : List α → List α → Prop
  | nil : Drops p [] []
  | keep {l l' : List α} (a : α) (h : Drops p l l') : Drops p (a :: l) (a :: l')
  | drop {l l' : List α} {a : α} (ha : p a) (h : Drops p l l') : Drops p (a :: l) l'

theorem Drops.eq_of_none (h : Drops p l l') (hnone : ∀ a ∈ l, ¬ p a) : l' = l := by
  induction h with
  | nil => rfl
  | keep a _ ih => rw [ih fun b hb => hnone b (List.mem_cons_of_mem a hb)]
  | drop ha _ _ => exact absurd ha (hnone _ List.mem_cons_self)

end Dropping

section Content

/-- The blocks of a message that are no tool results. A text is one block. -/
def talk (m : Message) : List ContentBlock := m.content.toBlocks.filter (·.resultId?.isNone)

def talks (l : List Message) : List ContentBlock := l.flatMap talk

def blocksOf (l : List Message) : List ContentBlock := l.flatMap fun m => m.content.toBlocks

def isBlankBlock : ContentBlock → Bool
  | .text s => isBlankText s
  | .unknown => true
  | _ => false

/-- A tool use of the history answers to the id, and a single result has it. -/
def Matched (history : List Message) (id : Str) : Prop :=
  id ∈ toolUseIds history ∧ (toolResultIds history).count id = 1

/-- An empty message, or one of the assistant that is blank or empty but for tool results, and
none of these is the only result of a tool use. -/
def Void (history : List Message) (m : Message) : Prop :=
  m.content.isEmpty = true ∨
    (m.role = .assistant ∧ (∀ b ∈ talk m, isBlankBlock b = true) ∧
      ∀ id ∈ m.toolResults, ¬ Matched history id)

/-- The synthetic result. -/
def lost (id : Str) : ContentBlock := .toolResult id lostText true

end Content

section Tracking

variable {history l l' l'' : List Message} {m m' m'' : Message} {bs bs' : List ContentBlock}

/-- A message after it was edited. -/
structure Edited (history : List Message) (m m' : Message) : Prop where
  role : m'.role = m.role
  talk_eq : talk m' = talk m
  text : ∀ s, m'.content = .text s → m.content = .text s
  results : m.role = .assistant → ∀ id ∈ m.toolResults, Matched history id → id ∈ m'.toolResults

theorem Edited.refl (m : Message) : Edited history m m :=
  ⟨rfl, rfl, fun _ h => h, fun _ _ h _ => h⟩

theorem Edited.trans (h : Edited history m m') (h' : Edited history m' m'') :
    Edited history m m'' where
  role := h'.role.trans h.role
  talk_eq := h'.talk_eq.trans h.talk_eq
  text s hs := h.text s (h'.text s hs)
  results hrole id hid hmatched :=
    h'.results (h.role.trans hrole) id (h.results hrole id hid hmatched) hmatched

/-- A void message was void before it was edited, or it had nothing but tool results. -/
theorem Edited.void (h : Edited history m m') (hvoid : Void history m') :
    Void history m ∨ talk m = [] := by
  obtain hempty | ⟨hrole, hblank, hresults⟩ := hvoid
  · cases hcontent : m'.content with
    | text s =>
      rw [hcontent] at hempty
      refine .inl (.inl ?_)
      rwa [h.text s hcontent]
    | blocks bs =>
      rw [hcontent] at hempty
      obtain rfl : bs = [] := List.isEmpty_iff.mp hempty
      refine .inr ?_
      rw [← h.talk_eq, talk, hcontent]
      rfl
  · rw [h.talk_eq] at hblank
    rw [h.role] at hrole
    refine .inl (.inr ⟨hrole, hblank, fun id hid hmatched => ?_⟩)
    exact hresults id (h.results hrole id hid hmatched) hmatched

/-- A history after an edit: void messages and such with nothing but tool results may have gone,
others with nothing but tool results may have come. -/
inductive Tracks (history : List Message) : List Message → List Message → Prop
  | nil : Tracks history [] []
  | keep {l l' : List Message} {m m' : Message} (h : Edited history m m')
      (rest : Tracks history l l') : Tracks history (m :: l) (m' :: l')
  | lose {l l' : List Message} {m : Message} (h : Void history m)
      (rest : Tracks history l l') : Tracks history (m :: l) l'
  | hush {l l' : List Message} {m : Message} (h : talk m = [])
      (rest : Tracks history l l') : Tracks history (m :: l) l'
  | add {l l' : List Message} {m : Message} (h : talk m = [])
      (rest : Tracks history l l') : Tracks history l (m :: l')

theorem Tracks.refl (l : List Message) : Tracks history l l := by
  induction l with
  | nil => exact .nil
  | cons m l ih => exact .keep (.refl m) ih

theorem Tracks.trans (h : Tracks history l l') (h' : Tracks history l' l'') :
    Tracks history l l'' := by
  induction h generalizing l'' with
  | nil => exact h'
  | lose hvoid _ ih => exact .lose hvoid (ih h')
  | hush htalk _ ih => exact .hush htalk (ih h')
  | @keep l₁ l₁' m m' hedit _ ih =>
    generalize hl : m' :: l₁' = full at h'
    induction h' with
    | nil => cases hl
    | keep hnext hrest =>
      cases hl
      exact .keep (hedit.trans hnext) (ih hrest)
    | lose hvoid hrest =>
      cases hl
      obtain hm | hm := hedit.void hvoid
      · exact .lose hm (ih hrest)
      · exact .hush hm (ih hrest)
    | hush htalk hrest =>
      cases hl
      exact .hush (hedit.talk_eq ▸ htalk) (ih hrest)
    | add htalk _ ih' => exact .add htalk (ih' hl)
  | @add l₁ l₁' m htalk _ ih =>
    generalize hl : m :: l₁' = full at h'
    induction h' with
    | nil => cases hl
    | keep hnext hrest =>
      cases hl
      exact .add (hnext.talk_eq.trans htalk) (ih hrest)
    | lose _ hrest =>
      cases hl
      exact ih hrest
    | hush _ hrest =>
      cases hl
      exact ih hrest
    | add hmore _ ih' => exact .add hmore (ih' hl)

/-- The edits leave all that was said, but for what void messages said. -/
theorem Tracks.drops (h : Tracks history l l') :
    ∃ kept, Drops (Void history) l kept ∧ talks l' = talks kept := by
  induction h with
  | nil => exact ⟨[], .nil, rfl⟩
  | @keep _ _ m _ hedit _ ih =>
    obtain ⟨kept, hdrops, htalks⟩ := ih
    refine ⟨m :: kept, .keep m hdrops, ?_⟩
    rw [talks, List.flatMap_cons, hedit.talk_eq]
    exact congrArg (talk m ++ ·) htalks
  | lose hvoid _ ih =>
    obtain ⟨kept, hdrops, htalks⟩ := ih
    exact ⟨kept, .drop hvoid hdrops, htalks⟩
  | @hush _ _ m htalk _ ih =>
    obtain ⟨kept, hdrops, htalks⟩ := ih
    refine ⟨m :: kept, .keep m hdrops, htalks.trans ?_⟩
    rw [talks, talks, List.flatMap_cons, htalk, List.nil_append]
  | add htalk _ ih =>
    obtain ⟨kept, hdrops, htalks⟩ := ih
    refine ⟨kept, hdrops, ?_⟩
    rw [talks, List.flatMap_cons, htalk, List.nil_append]
    exact htalks

end Tracking

section Passes

variable {history l : List Message} {m : Message} {bs : List ContentBlock}

theorem tracks_map {f : Message → Message} (h : ∀ m, Edited history m (f m)) (l : List Message) :
    Tracks history l (l.map f) := by
  induction l with
  | nil => exact .nil
  | cons m l ih => exact .keep (h m) ih

theorem tracks_dropEmpty (l : List Message) : Tracks history l (dropEmpty l) := by
  induction l with
  | nil => exact .nil
  | cons m l ih =>
    rw [dropEmpty_cons]
    split
    · rename_i hempty
      exact .lose (.inl hempty) ih
    · exact .keep (.refl m) ih

/-- Dropping tool results leaves the rest. -/
theorem talk_filter {p : ContentBlock → Bool} (hp : ∀ b, b.resultId? = none → p b = true)
    (bs : List ContentBlock) :
    (bs.filter p).filter (·.resultId?.isNone) = bs.filter (·.resultId?.isNone) := by
  rw [List.filter_filter]
  refine List.filter_congr fun b _ => ?_
  cases hb : b.resultId? with
  | none => rw [hp b hb]; rfl
  | some id => rfl

theorem edited_strip (m : Message) : Edited history m (strip (toolUseIds history) m) := by
  obtain ⟨role, content⟩ := m
  cases content with
  | text s => exact .refl _
  | blocks bs =>
    refine ⟨rfl, talk_filter (fun b hb => ?_) bs, nofun, fun _ id hid hmatched => ?_⟩
    · cases b <;> first | rfl | cases hb
    · have hids : id ∈ (resultIds bs).filter (fun id => (toolUseIds history).contains id) :=
        List.mem_filter.mpr ⟨hid, List.contains_iff_mem.mpr hmatched.1⟩
      rw [← resultIds_filter_keepBlock] at hids
      exact hids

theorem tracks_cleaned (l : List Message) : Tracks l l (cleaned l) := by
  rw [cleaned_eq]
  exact (tracks_map edited_strip l).trans (tracks_dropEmpty _)

theorem edited_removeSources (misplaced : List Misplaced) (m : Message) (n : Nat) :
    Edited history m (removeSources misplaced m n) := by
  by_cases hrole : m.role = .user
  · obtain ⟨role, content⟩ := m
    cases hrole
    cases content with
    | text s => exact .refl _
    | blocks bs =>
      refine ⟨rfl, talk_filter (fun b hb => ?_) bs, nofun, fun h => nomatch h⟩
      rw [isSource, hb]
      rfl
  · rw [removeSources_of_not_user n hrole]
    exact .refl m

theorem tracks_removeSources (misplaced : List Misplaced) (l : List Message) (k : Nat) :
    Tracks history l ((l.zipIdx k).map fun p => removeSources misplaced p.1 p.2) := by
  induction l generalizing k with
  | nil => exact .nil
  | cons m l ih => exact .keep (edited_removeSources misplaced m k) (ih (k + 1))

/-- All blocks are tool results. -/
def Results (bs : List ContentBlock) : Prop := ∀ b ∈ bs, b.resultId?.isSome = true

theorem Results.talk (h : Results bs) : bs.filter (·.resultId?.isNone) = [] := by
  refine List.filter_eq_nil_iff.mpr fun b hb => ?_
  rw [Option.isNone_iff_eq_none, ← Option.not_isSome_iff_eq_none, not_not]
  exact h b hb

theorem tracks_attachResults (h : Results bs) (l : List Message) :
    Tracks history l (attachResults bs l) := by
  cases l with
  | nil => exact .add h.talk .nil
  | cons m l =>
    rw [attachResults]
    split
    · rename_i hrole
      refine .keep ⟨rfl, ?_, fun s hs => ?_, fun hassistant => ?_⟩ (.refl l)
      · show (m.content.toBlocks ++ bs).filter _ = talk m
        rw [List.filter_append, h.talk, List.append_nil]
        rfl
      · cases hs
      · rw [hrole] at hassistant
        cases hassistant
    · exact .add h.talk (.refl _)

theorem tracks_applyAt (h : Results bs) (n : Nat) (l : List Message) :
    Tracks history l (applyAt (attachResults bs) n l) := by
  induction n generalizing l with
  | zero => exact tracks_attachResults h l
  | succ n ih =>
    cases l with
    | nil => exact tracks_attachResults h []
    | cons m l => exact .keep (.refl m) (ih l)

theorem tracks_foldl (position : Nat → Option Nat) {groups : List (Nat × List ContentBlock)}
    (hgroups : ∀ e ∈ groups, Results e.2) (l : List Message) :
    Tracks history l (groups.foldl (fun ms e =>
      match position e.1 with
      | some idx => applyAt (attachResults e.2) (idx + 1) ms
      | none => ms) l) := by
  induction groups generalizing l with
  | nil => exact .refl l
  | cons e groups ih =>
    obtain ⟨he, hrest⟩ := List.forall_mem_cons.mp hgroups
    rw [List.foldl_cons]
    refine Tracks.trans ?_ (ih hrest _)
    split
    · exact tracks_applyAt he _ l
    · exact .refl l

theorem results_sortedGroups {n : Nat} {group : Nat → List ContentBlock}
    (h : ∀ i, Results (group i)) : ∀ e ∈ sortedGroups n group, Results e.2 := by
  intro e he
  obtain ⟨i, -, hi⟩ := List.mem_filterMap.mp (List.mem_reverse.mp he)
  split at hi
  · cases hi
  · cases hi
    exact h i

theorem tracks_reorder (l : List Message) : Tracks history l (reorderToolResults l).1 := by
  unfold reorderToolResults
  dsimp only
  split
  · exact .refl l
  · refine (tracks_removeSources (misplacedResults l) l 0).trans ?_
    refine (tracks_dropEmpty _).trans ?_
    exact tracks_foldl _ (results_sortedGroups groupOf_results) _

theorem tracks_synthetic (l : List Message) : Tracks history l (insertSyntheticResults l).1 := by
  unfold insertSyntheticResults
  dsimp only
  split
  · exact .refl l
  · exact tracks_foldl some (results_sortedGroups (syntheticGroup_results _)) l

theorem dedupBlocks_talk (seen : List Str) (bs : List ContentBlock) :
    (dedupBlocks seen bs).1.filter (·.resultId?.isNone) = bs.filter (·.resultId?.isNone) := by
  induction bs generalizing seen with
  | nil => rfl
  | cons b bs ih =>
    cases hb : b.resultId? with
    | none => simp only [dedupBlocks, hb, List.filter_cons, ih]
    | some id =>
      simp only [dedupBlocks, hb, List.filter_cons]
      split
      · exact ih seen
      · simp only [List.filter_cons, hb, ih]

theorem edited_dedupMessage {seen : List Str} {m : Message}
    (h : ∀ id ∈ m.toolResults, Matched history id → id ∉ seen) :
    Edited history m (dedupMessage seen m).1 := by
  have hresults := (dedupMessage_spec seen m).1
  obtain ⟨role, content⟩ := m
  cases content with
  | text s => exact .refl _
  | blocks bs =>
    refine ⟨rfl, dedupBlocks_talk seen bs, nofun, fun _ id hid hmatched => ?_⟩
    rw [hresults]
    exact mem_freshIds.mpr ⟨hid, h id hid hmatched⟩

/-- A matched id that is not seen yet comes at most once, one that is seen comes no more. -/
theorem tracks_dedupMessages {seen : List Str} (h : ∀ id, Matched history id →
    (toolResultIds l).count id ≤ if id ∈ seen then 0 else 1) :
    Tracks history l (dedupMessages seen l) := by
  induction l generalizing seen with
  | nil => exact .nil
  | cons m l ih =>
    rw [dedupMessages_cons]
    refine .keep (edited_dedupMessage fun id hid hmatched hseen => ?_) (ih fun id hmatched => ?_)
    · have hcount := h id hmatched
      rw [toolResultIds_cons, List.count_append, if_pos hseen] at hcount
      have hpos : 0 < m.toolResults.count id := List.count_pos_iff.mpr hid
      omega
    · have hcount := h id hmatched
      rw [toolResultIds_cons, List.count_append] at hcount
      by_cases hid : id ∈ m.toolResults
      · have hpos : 0 < m.toolResults.count id := List.count_pos_iff.mpr hid
        split at hcount <;> split <;> omega
      · have hseen : id ∈ (dedupMessage seen m).2 ↔ id ∈ seen := by
          rw [(dedupMessage_spec seen m).2.2 id, or_iff_left hid]
        rw [if_congr hseen rfl rfl]
        exact (Nat.le_add_left _ _).trans hcount

theorem tracks_aborted (l : List Message) :
    Tracks history l (removeAbortedAssistantMessages l) := by
  induction l with
  | nil => exact .nil
  | cons m l ih =>
    rw [removeAbortedAssistantMessages]
    split
    · rename_i h
      refine .lose (.inr ⟨h.1, fun b hb => ?_, fun id hid => ?_⟩) ih
      · have hblank := h.2.1
        rw [← blank_toBlocks] at hblank
        have hmem := (List.mem_filter.mp hb).1
        have := List.all_eq_true.mp hblank b hmem
        cases b <;> exact this
      · rw [(toolIds_of_blank h.2.1).2] at hid
        cases hid
    · exact .keep (.refl m) ih

theorem talks_mergeFrom (last : Message) (l : List Message) :
    talks (mergeFrom last l) = talks (last :: l) := by
  induction l generalizing last with
  | nil => rfl
  | cons m l ih =>
    rw [mergeFrom_cons]
    split
    · have hmerged : talk (merged last m) = talk last ++ talk m :=
        List.filter_append _ _
      rw [ih, talks, talks, List.flatMap_cons, List.flatMap_cons, List.flatMap_cons, hmerged,
        List.append_assoc]
    · rw [talks, talks, List.flatMap_cons, List.flatMap_cons]
      exact congrArg (talk last ++ ·) (ih m)

theorem talks_merge (l : List Message) : talks (mergeConsecutive l) = talks l := by
  cases l with
  | nil => rfl
  | cons m l => exact talks_mergeFrom m l

end Passes

section Counting

variable {l : List Message} {m : Message} {bs : List ContentBlock} {id : Str}

theorem count_attachResults (bs : List ContentBlock) (l : List Message) :
    (toolResultIds (attachResults bs l)).count id =
      (resultIds bs).count id + (toolResultIds l).count id := by
  cases l with
  | nil =>
    rw [attachResults, toolResultIds_cons, List.count_append]
    rfl
  | cons m l =>
    rw [attachResults]
    split
    · rw [toolResultIds_cons, toolResultIds_cons, List.count_append, List.count_append,
        toolResults_merged, List.count_append]
      omega
    · rw [toolResultIds_cons, List.count_append]
      rfl

theorem count_applyAt (bs : List ContentBlock) (n : Nat) (l : List Message) :
    (toolResultIds (applyAt (attachResults bs) n l)).count id =
      (resultIds bs).count id + (toolResultIds l).count id := by
  induction n generalizing l with
  | zero => exact count_attachResults bs l
  | succ n ih =>
    cases l with
    | nil => exact count_attachResults bs []
    | cons m l =>
      rw [applyAt, toolResultIds_cons, toolResultIds_cons, List.count_append, List.count_append, ih]
      omega

theorem count_foldl_le (position : Nat → Option Nat) (groups : List (Nat × List ContentBlock))
    (l : List Message) :
    (toolResultIds (groups.foldl (fun ms e =>
      match position e.1 with
      | some idx => applyAt (attachResults e.2) (idx + 1) ms
      | none => ms) l)).count id ≤
      (groups.map fun e => (resultIds e.2).count id).sum + (toolResultIds l).count id := by
  induction groups generalizing l with
  | nil => exact (Nat.zero_add _).ge
  | cons e groups ih =>
    rw [List.foldl_cons, List.map_cons, List.sum_cons]
    refine (ih _).trans ?_
    split
    · rw [count_applyAt]
      omega
    · omega

theorem sum_sortedGroups (n : Nat) (group : Nat → List ContentBlock) :
    ((sortedGroups n group).map fun e => (resultIds e.2).count id).sum =
      ((List.range n).map fun i => (resultIds (group i)).count id).sum := by
  rw [sortedGroups, List.map_reverse, List.sum_reverse]
  generalize List.range n = is
  induction is with
  | nil => rfl
  | cons i is ih =>
    rw [List.filterMap_cons, List.map_cons, List.sum_cons, ← ih]
    by_cases hgroup : group i = []
    · rw [if_pos hgroup, hgroup]
      exact (Nat.zero_add _).symm
    · rw [if_neg hgroup]
      rfl

theorem sum_single_le (k c n : Nat) :
    ((List.range n).map fun i => if k = i then c else 0).sum ≤ if k < n then c else 0 := by
  induction n with
  | zero => exact Nat.zero_le _
  | succ n ih =>
    rw [List.range_succ, List.map_append, List.sum_append]
    simp only [List.map_cons, List.map_nil, List.sum_cons, List.sum_nil]
    split at ih <;> split <;> split <;> omega

def holdsId (id : Str) (r : Misplaced) : Bool := r.block.resultId? = some id

/-- A misplaced result goes into one group. -/
theorem sum_groupOf_le (n : Nat) (misplaced : List Misplaced) :
    ((List.range n).map fun i => (resultIds (groupOf misplaced i)).count id).sum ≤
      misplaced.countP (holdsId id) := by
  induction misplaced with
  | nil =>
    simp [groupOf_nil, resultIds]
  | cons r misplaced ih =>
    have hcons : ∀ i, (resultIds (groupOf (r :: misplaced) i)).count id =
        (if r.assistantIdx = i then (if holdsId id r then 1 else 0) else 0) +
          (resultIds (groupOf misplaced i)).count id := by
      intro i
      rw [groupOf, groupOf, List.filter_cons, resultIds, resultIds, List.count_filterMap,
        List.count_filterMap]
      by_cases hi : r.assistantIdx = i
      · rw [if_pos (decide_eq_true hi), if_pos hi, List.map_cons, List.countP_cons, Nat.add_comm]
        simp [holdsId]
      · rw [if_neg (by simpa using hi), if_neg hi, Nat.zero_add]
    simp only [hcons]
    rw [List.sum_map_add, List.countP_cons, Nat.add_comm]
    refine Nat.add_le_add ih ((sum_single_le _ _ n).trans ?_)
    split
    · exact le_rfl
    · exact Nat.zero_le _

/-- What is misplaced in one message. -/
def misplacedIn (index : Str → Option Nat) (p : Message × Nat) : List Misplaced :=
  if p.1.role = .user then p.1.content.blockList.filterMap (misplacedBlock index p.2) else []

theorem misplacedBlock_eq_some {index : Str → Option Nat} {i : Nat} {b : ContentBlock}
    {r : Misplaced} (h : misplacedBlock index i b = some r) :
    r.msgIdx = i ∧ r.block = b ∧ b.resultId? = some r.toolUseId := by
  unfold misplacedBlock at h
  split at h
  · cases h
  · rename_i id hid
    split at h
    · cases h
    · split at h
      · cases h
      · cases h
        exact ⟨rfl, rfl, hid⟩

/-- A result stays in its message or is misplaced, not both. -/
theorem count_message {p : Message × Nat} (hp : p ∈ l.zipIdx) :
    (removeSources (misplacedResults l) p.1 p.2).toolResults.count id +
      (misplacedIn (toolUseIndex l) p).countP (holdsId id) ≤ p.1.toolResults.count id := by
  by_cases hrole : p.1.role = .user
  · by_cases hhere : ∃ r ∈ misplacedIn (toolUseIndex l) p, holdsId id r = true
    · obtain ⟨r, hr, hid⟩ := hhere
      have hmem : r ∈ misplacedResults l := List.mem_flatMap.mpr ⟨p, hp, hr⟩
      rw [misplacedIn, if_pos hrole] at hr ⊢
      obtain ⟨b, -, hb⟩ := List.mem_filterMap.mp hr
      obtain ⟨hidx, hblock, huse⟩ := misplacedBlock_eq_some hb
      have hsame : r.toolUseId = id := by
        rw [holdsId, decide_eq_true_iff, hblock, huse] at hid
        exact Option.some.inj hid
      have hgone : (removeSources (misplacedResults l) p.1 p.2).toolResults.count id = 0 := by
        refine List.count_eq_zero.mpr fun hleft => ?_
        obtain ⟨c, hc, hcid⟩ := List.mem_filterMap.mp hleft
        obtain ⟨⟨role, content⟩, i⟩ := p
        cases hrole
        cases content with
        | text s => cases hc
        | blocks bs =>
          have hkept := (List.mem_filter.mp hc).2
          have hsource : isSource (misplacedResults l) i c = true := by
            rw [isSource, hcid]
            exact List.any_eq_true.mpr ⟨r, hmem, decide_eq_true ⟨hidx, hsame⟩⟩
          rw [hsource] at hkept
          cases hkept
      rw [hgone, Nat.zero_add, List.countP_filterMap, Message.toolResults, List.count_filterMap]
      refine List.countP_mono_left fun c _ hc => ?_
      cases hfound : misplacedBlock (toolUseIndex l) p.2 c with
      | none =>
        rw [hfound] at hc
        cases hc
      | some q =>
        rw [hfound] at hc
        obtain ⟨-, hblock, -⟩ := misplacedBlock_eq_some hfound
        have hid : q.block.resultId? = some id := of_decide_eq_true hc
        rw [← hblock, hid]
        exact beq_self_eq_true _
    · have hnone : (misplacedIn (toolUseIndex l) p).countP (holdsId id) = 0 :=
        List.countP_eq_zero.mpr fun r hr hid => hhere ⟨r, hr, hid⟩
      rw [hnone]
      exact (removeSources_thins _ p.1 p.2).toolResults.count_le id
  · rw [removeSources_of_not_user p.2 hrole, misplacedIn, if_neg hrole]
    exact le_rfl

theorem count_reorder (l : List Message) :
    (toolResultIds (reorderToolResults l).1).count id ≤ (toolResultIds l).count id := by
  unfold reorderToolResults
  dsimp only
  split
  · exact le_rfl
  · refine (count_foldl_le _ _ _).trans ?_
    rw [sum_sortedGroups, dropEmpty_toolResultIds]
    refine (Nat.add_le_add_right (sum_groupOf_le _ _) _).trans ?_
    have hsum : ((l.zipIdx.map fun p => p.1.toolResults.count id)).sum =
        (toolResultIds l).count id := by
      rw [toolResultIds, List.count_flatMap, ← List.zipIdx_map_fst 0 l, List.map_map,
        List.zipIdx_map_fst]
      rfl
    have hleft : (toolResultIds (l.zipIdx.map fun p =>
        removeSources (misplacedResults l) p.1 p.2)).count id = (l.zipIdx.map fun p =>
          (removeSources (misplacedResults l) p.1 p.2).toolResults.count id).sum := by
      rw [toolResultIds, List.count_flatMap, List.map_map]
      rfl
    have hmoved : (misplacedResults l).countP (holdsId id) =
        (l.zipIdx.map fun p => (misplacedIn (toolUseIndex l) p).countP (holdsId id)).sum :=
      List.countP_flatMap
    rw [hleft, hmoved, Nat.add_comm, ← List.sum_map_add, ← hsum]
    exact List.sum_le_sum fun p hp => count_message hp

theorem count_synthetic (h : id ∈ toolResultIds l) :
    (toolResultIds (insertSyntheticResults l).1).count id ≤ (toolResultIds l).count id := by
  unfold insertSyntheticResults
  dsimp only
  split
  · exact le_rfl
  · have hfold := @count_foldl_le id some
      (sortedGroups l.length (syntheticGroup (orphanedUses l))) l
    have hzero : ∀ i, (resultIds (syntheticGroup (orphanedUses l) i)).count id = 0 := fun i =>
      List.count_eq_zero.mpr fun hid => (mem_orphanedUses.mp (mem_syntheticGroup.mp hid)).2 h
    rw [sum_sortedGroups] at hfold
    have hsum : ((List.range l.length).map fun i =>
        (resultIds (syntheticGroup (orphanedUses l) i)).count id).sum = 0 := by
      simp [hzero]
    rw [hsum, Nat.zero_add] at hfold
    exact hfold

theorem count_cleaned (l : List Message) :
    (toolResultIds (cleaned l)).count id ≤ (toolResultIds l).count id := by
  rw [cleaned_eq, dropEmpty_toolResultIds]
  exact (thin_toolResultIds (strip_forall₂ _ l)).count_le id

/-- A result that is the only one of its id is not doubled. -/
theorem count_answered (h : Matched l id) : (toolResultIds (answered l)).count id ≤ 1 := by
  obtain ⟨huse, hone⟩ := h
  have hresult : id ∈ toolResultIds l := List.count_pos_iff.mp (hone ▸ Nat.one_pos)
  have hmem : id ∈ toolResultIds (reorderToolResults (cleaned l)).1 := by
    rw [mem_reorder_toolResultIds (cleaned_nonempty l), mem_cleaned_toolResultIds]
    exact ⟨hresult, huse⟩
  calc (toolResultIds (answered l)).count id
    _ ≤ (toolResultIds (reorderToolResults (cleaned l)).1).count id := count_synthetic hmem
    _ ≤ (toolResultIds (cleaned l)).count id := count_reorder _
    _ ≤ (toolResultIds l).count id := count_cleaned l
    _ = 1 := hone

theorem tracks_kept (l : List Message) : Tracks l l (kept l) := by
  have hanswered : Tracks l l (answered l) :=
    (tracks_cleaned l).trans ((tracks_reorder _).trans (tracks_synthetic _))
  have hdeduped : Tracks l (answered l) (deduped l) := by
    rw [deduped_eq]
    refine (tracks_dedupMessages fun id hmatched => ?_).trans (tracks_dropEmpty _)
    rw [if_neg List.not_mem_nil]
    exact count_answered hmatched
  exact hanswered.trans (hdeduped.trans (tracks_aborted _))

end Counting

section Sources

variable {l : List Message} {m : Message} {bs : List ContentBlock} {b : ContentBlock}

theorem mem_blocksOf : b ∈ blocksOf l ↔ ∃ m ∈ l, b ∈ m.content.toBlocks := List.mem_flatMap

theorem blockList_subset (c : MessageContent) : c.blockList ⊆ c.toBlocks := by
  cases c with
  | text s => exact List.nil_subset _
  | blocks bs => exact List.Subset.refl _

theorem blocks_cleaned (h : b ∈ blocksOf (cleaned l)) : b ∈ blocksOf l := by
  rw [cleaned_eq] at h
  obtain ⟨m, hm, hb⟩ := mem_blocksOf.mp h
  obtain ⟨⟨role, content⟩, horigin, rfl⟩ := List.mem_map.mp (List.mem_of_mem_filter hm)
  refine mem_blocksOf.mpr ⟨_, horigin, ?_⟩
  cases content with
  | text s => exact hb
  | blocks bs => exact List.mem_of_mem_filter hb

theorem blocks_attachResults (h : b ∈ blocksOf (attachResults bs l)) : b ∈ bs ∨ b ∈ blocksOf l := by
  cases l with
  | nil =>
    obtain ⟨m, hm, hb⟩ := mem_blocksOf.mp h
    rw [List.mem_singleton.mp hm] at hb
    exact .inl hb
  | cons m l =>
    rw [attachResults] at h
    split at h
    · rw [blocksOf, List.flatMap_cons, List.mem_append] at h
      obtain h | h := h
      · obtain h | h := List.mem_append.mp h
        · exact .inr (List.mem_append_left _ h)
        · exact .inl h
      · exact .inr (List.mem_append_right _ h)
    · rw [blocksOf, List.flatMap_cons, List.mem_append] at h
      exact h

theorem blocks_applyAt {n : Nat} (h : b ∈ blocksOf (applyAt (attachResults bs) n l)) :
    b ∈ bs ∨ b ∈ blocksOf l := by
  induction n generalizing l with
  | zero => exact blocks_attachResults h
  | succ n ih =>
    cases l with
    | nil => exact blocks_attachResults h
    | cons m l =>
      rw [applyAt, blocksOf, List.flatMap_cons, List.mem_append] at h
      obtain h | h := h
      · exact .inr (List.mem_append_left _ h)
      · exact (ih h).imp_right (List.mem_append_right _)

theorem blocks_foldl (position : Nat → Option Nat) {groups : List (Nat × List ContentBlock)}
    (h : b ∈ blocksOf (groups.foldl (fun ms e =>
      match position e.1 with
      | some idx => applyAt (attachResults e.2) (idx + 1) ms
      | none => ms) l)) : (∃ e ∈ groups, b ∈ e.2) ∨ b ∈ blocksOf l := by
  induction groups generalizing l with
  | nil => exact .inr h
  | cons e groups ih =>
    rw [List.foldl_cons] at h
    obtain ⟨g, hg, hb⟩ | h := ih h
    · exact .inl ⟨g, List.mem_cons_of_mem _ hg, hb⟩
    · split at h
      · exact (blocks_applyAt h).imp_left fun hb => ⟨e, List.mem_cons_self, hb⟩
      · exact .inr h

theorem mem_sortedGroups {n : Nat} {group : Nat → List ContentBlock}
    {e : Nat × List ContentBlock} (h : e ∈ sortedGroups n group) : e.2 = group e.1 := by
  obtain ⟨i, -, hi⟩ := List.mem_filterMap.mp (List.mem_reverse.mp h)
  split at hi
  · cases hi
  · cases hi
    rfl

theorem blocks_reorder (h : b ∈ blocksOf (reorderToolResults l).1) : b ∈ blocksOf l := by
  unfold reorderToolResults at h
  dsimp only at h
  split at h
  · exact h
  · obtain ⟨e, he, hb⟩ | h := blocks_foldl _ h
    · rw [mem_sortedGroups he] at hb
      obtain ⟨r, hr, -, rfl⟩ := mem_groupOf.mp hb
      obtain ⟨-, -, -, m, hm, -, hblock⟩ := mem_misplacedResults.mp hr
      exact mem_blocksOf.mpr ⟨m, List.mem_of_getElem? hm, blockList_subset _ hblock⟩
    · obtain ⟨m, hm, hb⟩ := mem_blocksOf.mp h
      obtain ⟨⟨origin, i⟩, hp, rfl⟩ := List.mem_map.mp (List.mem_of_mem_filter hm)
      refine mem_blocksOf.mpr ⟨origin, List.fst_mem_of_mem_zipIdx hp, ?_⟩
      dsimp only at hb
      unfold removeSources at hb
      split at hb
      · rename_i bs _ hcontent
        rw [hcontent]
        exact List.mem_of_mem_filter hb
      · exact hb

theorem blocks_synthetic (h : b ∈ blocksOf (insertSyntheticResults l).1) :
    b ∈ blocksOf l ∨ ∃ id, b = lost id ∧ id ∈ calledIn l ∧ id ∉ toolResultIds l := by
  unfold insertSyntheticResults at h
  dsimp only at h
  split at h
  · exact .inl h
  · obtain ⟨e, he, hb⟩ | h := blocks_foldl some h
    · rw [mem_sortedGroups he] at hb
      obtain ⟨⟨i, id⟩, hid, rfl⟩ := List.mem_map.mp hb
      obtain ⟨⟨m, hm, hcall⟩, hnone⟩ := mem_orphanedUses.mp (List.mem_of_mem_filter hid)
      exact .inr ⟨id, rfl, List.mem_flatMap.mpr ⟨m, List.mem_of_getElem? hm, hcall⟩, hnone⟩
    · exact .inl h

theorem blocks_dedupBlocks {seen : List Str} (h : b ∈ (dedupBlocks seen bs).1) : b ∈ bs := by
  induction bs generalizing seen with
  | nil => exact h
  | cons a bs ih =>
    unfold dedupBlocks at h
    split at h
    · obtain rfl | h := List.mem_cons.mp h
      · exact List.mem_cons_self
      · exact List.mem_cons_of_mem _ (ih h)
    · split at h
      · exact List.mem_cons_of_mem _ (ih h)
      · obtain rfl | h := List.mem_cons.mp h
        · exact List.mem_cons_self
        · exact List.mem_cons_of_mem _ (ih h)

theorem blocks_dedupMessages {seen : List Str} (h : b ∈ blocksOf (dedupMessages seen l)) :
    b ∈ blocksOf l := by
  induction l generalizing seen with
  | nil => exact h
  | cons m l ih =>
    rw [dedupMessages_cons, blocksOf, List.flatMap_cons, List.mem_append] at h
    obtain h | h := h
    · refine List.mem_append_left _ ?_
      obtain ⟨role, content⟩ := m
      cases content with
      | text s => exact h
      | blocks bs => exact blocks_dedupBlocks h
    · exact List.mem_append_right _ (ih h)

theorem blocks_kept (h : b ∈ blocksOf (kept l)) : b ∈ blocksOf (answered l) := by
  obtain ⟨m, hm, hb⟩ := mem_blocksOf.mp h
  have hdeduped := (aborted_sublist (deduped l)).subset hm
  rw [deduped_eq] at hdeduped
  exact blocks_dedupMessages (mem_blocksOf.mpr ⟨m, List.mem_of_mem_filter hdeduped, hb⟩)

theorem blocks_mergeFrom (last : Message) (l : List Message) :
    blocksOf (mergeFrom last l) = blocksOf (last :: l) := by
  induction l generalizing last with
  | nil => rfl
  | cons m l ih =>
    rw [mergeFrom_cons]
    split
    · rw [ih, blocksOf, blocksOf, List.flatMap_cons, List.flatMap_cons, List.flatMap_cons]
      exact List.append_assoc _ _ _
    · rw [blocksOf, blocksOf, List.flatMap_cons, List.flatMap_cons]
      exact congrArg (last.content.toBlocks ++ ·) (ih m)

theorem blocks_merge (l : List Message) : blocksOf (mergeConsecutive l) = blocksOf l := by
  cases l with
  | nil => rfl
  | cons m l => exact blocks_mergeFrom m l

theorem blocks_repair (h : b ∈ blocksOf (validateAndRepair l)) :
    b ∈ blocksOf l ∨ ∃ id, b = lost id ∧ id ∉ toolResultIds l := by
  rw [validateAndRepair_eq, blocks_merge] at h
  have hanswered := blocks_kept h
  obtain hsame | ⟨id, rfl, hcalled, hid⟩ := blocks_synthetic hanswered
  · exact .inl (blocks_cleaned (blocks_reorder hsame))
  · refine .inr ⟨id, rfl, fun hresult => ?_⟩
    -- the id is a tool use, so its own result was not dropped
    rw [calledIn_congr (reordered_callers l)] at hcalled
    rw [mem_reorder_toolResultIds (cleaned_nonempty l), mem_cleaned_toolResultIds] at hid
    exact hid ⟨hresult, calledIn_subset l hcalled⟩

end Sources

section Conservation

/-- What the repair does to the content of a history: what was said stays in its order but for void
messages, and a tool result is one of the history's or stands in for a missing one. -/
theorem validateAndRepair_conserves (messages : List Message) :
    (∃ left, Drops (Void messages) messages left ∧
      talks (validateAndRepair messages) = talks left) ∧
    ∀ b ∈ blocksOf (validateAndRepair messages), ∀ id, b.resultId? = some id →
      b ∈ blocksOf messages ∨ (b = lost id ∧ id ∉ toolResultIds messages) := by
  constructor
  · obtain ⟨left, hdrops, htalks⟩ := (tracks_kept messages).drops
    refine ⟨left, hdrops, ?_⟩
    rw [validateAndRepair_eq, talks_merge, htalks]
  · intro b hb id hid
    refine (blocks_repair hb).imp_right ?_
    rintro ⟨id', rfl, hnone⟩
    obtain rfl : id' = id := Option.some.inj hid
    exact ⟨rfl, hnone⟩

/-- A blank text beside a dropped tool result goes with it, though its message was not blank. -/
theorem blank_text_not_conserved : ¬ ∀ messages, ∃ left,
    Drops (fun m => m.content.isEmpty = true ∨
      (m.role = .assistant ∧ isEmptyOrBlankContent m.content = true)) messages left ∧
      talks (validateAndRepair messages) = talks left := by
  intro hall
  obtain ⟨left, hdrops, htalks⟩ := hall
    [⟨.assistant, .blocks [.toolResult "x".toList "done".toList false, .text " ".toList]⟩,
      .user "hi".toList]
  have hleft := hdrops.eq_of_none (by decide)
  subst hleft
  exact absurd htalks (by decide)

end Conservation

end Clawreform.Runtime.RepairContent
