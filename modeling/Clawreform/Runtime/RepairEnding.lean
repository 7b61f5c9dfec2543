import Clawreform.Runtime.RepairResult

namespace Clawreform.Runtime.SessionRepair

open Clawreform.Lib.Text Clawreform.Lib.Splice
open Clawreform.Types

/-- A history without system messages whose last words are the user's: a text,
and nothing but user messages behind it. -/
structure Ends (s : Str) (l : List Message) : Prop where
  spoken : ∀ m ∈ l, m.role ≠ .system
  last : ∃ before m after, l = before ++ m :: after ∧ m.role = .user ∧
    ContentBlock.text s ∈ m.content.toBlocks ∧ ∀ x ∈ after, x.role = .user

variable {s : Str} {l : List Message}

theorem ends_append {before : List Message} (h : ∀ m ∈ before, m.role ≠ .system) :
    Ends s (before ++ [Message.user s]) := by
  refine ⟨fun m hm => ?_, before, Message.user s, [], rfl, rfl, List.mem_singleton_self _,
    fun x hx => absurd hx List.not_mem_nil⟩
  rcases List.mem_append.mp hm with hm | hm
  · exact h m hm
  · rw [List.mem_singleton.mp hm]
    exact fun hr => nomatch hr

section Clean

theorem cleanMessage_role {ids : List Str} {m m' : Message} (h : cleanMessage ids m = some m') :
    m'.role = m.role := by
  unfold cleanMessage at h
  split at h
  · split at h
    · cases h
    · rw [← Option.some.inj h]
  · dsimp only at h
    split at h
    · cases h
    · rw [← Option.some.inj h]

theorem cleaned_append (hs : s ≠ []) {before : List Message}
    (h : ∀ m ∈ before, m.role ≠ .system) :
    ∃ kept, cleaned (before ++ [Message.user s]) = kept ++ [Message.user s] ∧
      ∀ m ∈ kept, m.role ≠ .system := by
  refine ⟨before.filterMap (cleanMessage (toolUseIds (before ++ [Message.user s]))), ?_, ?_⟩
  · have hlast : ∀ ids, cleanMessage ids (Message.user s) = some (Message.user s) := by
      intro ids
      simp [cleanMessage, Message.user, hs]
    rw [cleaned, List.filterMap_append, List.filterMap_cons, hlast, List.filterMap_nil]
  · intro m hm
    obtain ⟨m', hm', hclean⟩ := List.mem_filterMap.mp hm
    rw [cleanMessage_role hclean]
    exact h m' hm'

end Clean

section Attach

variable {bs : List ContentBlock}

theorem attachResults_user (h : ∀ m ∈ l, m.role = .user) :
    ∀ m ∈ attachResults bs l, m.role = .user := by
  intro m hm
  cases l with
  | nil => rw [List.mem_singleton.mp hm]
  | cons a l =>
    rw [attachResults, if_pos (h a (List.mem_cons_self ..))] at hm
    rcases List.mem_cons.mp hm with rfl | hm
    · exact h a (List.mem_cons_self ..)
    · exact h m (List.mem_cons_of_mem _ hm)

theorem applyAt_attach_user (n : Nat) (h : ∀ m ∈ l, m.role = .user) :
    ∀ m ∈ applyAt (attachResults bs) n l, m.role = .user := by
  induction n generalizing l with
  | zero => exact attachResults_user h
  | succ n ih =>
    cases l with
    | nil => exact attachResults_user h
    | cons a l =>
      intro m hm
      rcases List.mem_cons.mp hm with rfl | hm
      · exact h m (List.mem_cons_self ..)
      · exact ih (fun x hx => h x (List.mem_cons_of_mem _ hx)) m hm

theorem attachResults_spoken (h : ∀ m ∈ l, m.role ≠ .system) :
    ∀ m ∈ attachResults bs l, m.role ≠ .system := by
  intro m hm
  cases l with
  | nil =>
    rw [List.mem_singleton.mp hm]
    exact fun hr => nomatch hr
  | cons a l =>
    rw [attachResults] at hm
    split at hm
    · rcases List.mem_cons.mp hm with rfl | hm
      · exact h a (List.mem_cons_self ..)
      · exact h m (List.mem_cons_of_mem _ hm)
    · rcases List.mem_cons.mp hm with rfl | hm
      · exact fun hr => nomatch hr
      · exact h m hm

theorem applyAt_attach_spoken (n : Nat) (h : ∀ m ∈ l, m.role ≠ .system) :
    ∀ m ∈ applyAt (attachResults bs) n l, m.role ≠ .system := by
  induction n generalizing l with
  | zero => exact attachResults_spoken h
  | succ n ih =>
    cases l with
    | nil => exact attachResults_spoken h
    | cons a l =>
      intro m hm
      rcases List.mem_cons.mp hm with rfl | hm
      · exact h m (List.mem_cons_self ..)
      · exact ih (fun x hx => h x (List.mem_cons_of_mem _ hx)) m hm

theorem applyAt_attach_last {n : Nat} {before after : List Message} {m : Message}
    (hm : m.role = .user) (htext : ContentBlock.text s ∈ m.content.toBlocks)
    (hafter : ∀ x ∈ after, x.role = .user) :
    ∃ before' m' after', applyAt (attachResults bs) n (before ++ m :: after) =
        before' ++ m' :: after' ∧ m'.role = .user ∧
      ContentBlock.text s ∈ m'.content.toBlocks ∧ ∀ x ∈ after', x.role = .user := by
  induction before generalizing n with
  | nil =>
    cases n with
    | zero =>
      refine ⟨[], { m with content := .blocks (m.content.toBlocks ++ bs) }, after, ?_, hm,
        List.mem_append_left _ htext, hafter⟩
      rw [List.nil_append, applyAt, attachResults, if_pos hm, List.nil_append]
    | succ n =>
      exact ⟨[], m, _, rfl, hm, htext, applyAt_attach_user n hafter⟩
  | cons b before ih =>
    cases n with
    | zero =>
      by_cases hb : b.role = .user
      · refine ⟨{ b with content := .blocks (b.content.toBlocks ++ bs) } :: before, m, after, ?_,
          hm, htext, hafter⟩
        rw [List.cons_append, applyAt, attachResults, if_pos hb, List.cons_append]
      · refine ⟨⟨.user, .blocks bs⟩ :: b :: before, m, after, ?_, hm, htext, hafter⟩
        rw [List.cons_append, applyAt, attachResults, if_neg hb, List.cons_append, List.cons_append]
    | succ n =>
      obtain ⟨before', m', after', he, hrest⟩ := ih (n := n)
      exact ⟨b :: before', m', after', by rw [List.cons_append, applyAt, he, List.cons_append],
        hrest⟩

theorem Ends.attach (h : Ends s l) (n : Nat) : Ends s (applyAt (attachResults bs) n l) := by
  obtain ⟨hspoken, before, m, after, rfl, hm, htext, hafter⟩ := h
  exact ⟨applyAt_attach_spoken n hspoken, applyAt_attach_last hm htext hafter⟩

theorem Ends.attachAll {γ : Type*} {edit : γ → List Message → List Message}
    (hedit : ∀ x ms, Ends s ms → Ends s (edit x ms)) (h : Ends s l) (xs : List γ) :
    Ends s (xs.foldl (fun ms x => edit x ms) l) := by
  induction xs generalizing l with
  | nil => exact h
  | cons x xs ih => exact ih (hedit x l h)

end Attach

section Passes

theorem reorder_ends {kept : List Message} (hs : s ≠ []) (h : ∀ m ∈ kept, m.role ≠ .system) :
    Ends s (reorderToolResults (kept ++ [Message.user s])).1 := by
  unfold reorderToolResults
  dsimp only
  split
  · exact ends_append h
  · refine Ends.attachAll (fun e ms hms => ?_) ?_ _
    · split
      · exact hms.attach _
      · exact hms
    · have hlast : ∀ mis i, removeSources mis (Message.user s) i = Message.user s :=
        fun _ _ => rfl
      rw [List.zipIdx_append, List.map_append, dropEmpty, List.filter_append]
      simp only [List.zipIdx_cons, List.zipIdx_nil, List.map_cons, List.map_nil, hlast]
      rw [List.filter_cons_of_pos (by simp [Message.user, MessageContent.isEmpty, hs]),
        List.filter_nil]
      refine ends_append fun m hm => ?_
      obtain ⟨p, hp, rfl⟩ := List.mem_map.mp (List.mem_of_mem_filter hm)
      rw [removeSources_role]
      exact h p.1 (List.fst_mem_of_mem_zipIdx hp)

theorem synthetic_ends (h : Ends s l) : Ends s (insertSyntheticResults l).1 := by
  unfold insertSyntheticResults
  dsimp only
  split
  · exact h
  · exact Ends.attachAll (fun e ms hms => hms.attach _) h _

theorem text_mem_dedupBlocks {seen : List Str} {bs : List ContentBlock}
    (h : ContentBlock.text s ∈ bs) : ContentBlock.text s ∈ (dedupBlocks seen bs).1 := by
  induction bs generalizing seen with
  | nil => cases h
  | cons b bs ih =>
    rcases List.mem_cons.mp h with rfl | h
    · exact List.mem_cons_self ..
    · cases hb : b.resultId? with
      | none =>
        rw [dedupBlocks, hb]
        exact List.mem_cons_of_mem _ (ih h)
      | some id =>
        rw [dedupBlocks, hb]
        dsimp only
        split
        · exact ih h
        · exact List.mem_cons_of_mem _ (ih h)

theorem text_mem_dedupMessage {seen : List Str} {m : Message}
    (h : ContentBlock.text s ∈ m.content.toBlocks) :
    ContentBlock.text s ∈ (dedupMessage seen m).1.content.toBlocks := by
  unfold dedupMessage
  split <;> rename_i hc
  · exact h
  · rw [hc] at h
    exact text_mem_dedupBlocks h

theorem dedupMessage_role (seen : List Str) (m : Message) :
    (dedupMessage seen m).1.role = m.role := (dedupMessage_spec seen m).2.1.role

theorem dedup_ends (h : Ends s l) (seen : List Str) : Ends s (dedupMessages seen l) := by
  obtain ⟨hspoken, before, m, after, rfl, hm, htext, hafter⟩ := h
  have huser : ∀ (xs : List Message) (seen : List Str), (∀ x ∈ xs, x.role = .user) →
      ∀ x ∈ dedupMessages seen xs, x.role = .user := by
    intro xs
    induction xs with
    | nil => exact fun _ _ x hx => absurd hx List.not_mem_nil
    | cons y ys ih =>
      intro seen hys x hx
      rw [dedupMessages_cons] at hx
      rcases List.mem_cons.mp hx with rfl | hx
      · rw [dedupMessage_role]
        exact hys y (List.mem_cons_self ..)
      · exact ih _ (fun z hz => hys z (List.mem_cons_of_mem _ hz)) x hx
  induction before generalizing seen with
  | nil =>
    rw [List.nil_append, dedupMessages_cons]
    refine ⟨?_, [], _, _, rfl, ?_, text_mem_dedupMessage htext, huser after _ hafter⟩
    · intro x hx
      rcases List.mem_cons.mp hx with rfl | hx
      · rw [dedupMessage_role, hm]
        exact fun hr => nomatch hr
      · rw [huser after _ hafter x hx]
        exact fun hr => nomatch hr
    · rw [dedupMessage_role, hm]
  | cons b before ih =>
    rw [List.cons_append, dedupMessages_cons]
    obtain ⟨hrest, before', m', after', he, hlast⟩ :=
      ih (dedupMessage seen b).2 (fun x hx => hspoken x (List.mem_cons_of_mem _ hx))
    refine ⟨?_, (dedupMessage seen b).1 :: before', m', after', by rw [he, List.cons_append], hlast⟩
    intro x hx
    rcases List.mem_cons.mp hx with rfl | hx
    · rw [dedupMessage_role]
      exact hspoken b (List.mem_cons_self ..)
    · exact hrest x hx

theorem nonempty_of_text (hs : s ≠ []) {c : MessageContent}
    (h : ContentBlock.text s ∈ c.toBlocks) : c.isEmpty = false := by
  cases c with
  | text t =>
    obtain rfl : s = t := by simpa [MessageContent.toBlocks] using h
    simpa [MessageContent.isEmpty] using hs
  | blocks bs =>
    cases bs with
    | nil => cases h
    | cons b bs => rfl

theorem dropEmpty_ends (hs : s ≠ []) (h : Ends s l) : Ends s (dropEmpty l) := by
  obtain ⟨hspoken, before, m, after, rfl, hm, htext, hafter⟩ := h
  refine ⟨fun x hx => hspoken x (List.mem_of_mem_filter hx), dropEmpty before, m, dropEmpty after,
    ?_, hm, htext, fun x hx => hafter x (List.mem_of_mem_filter hx)⟩
  rw [dropEmpty, List.filter_append, List.filter_cons_of_pos
    (by rw [nonempty_of_text hs htext]; rfl)]
  rfl

theorem aborted_ends (h : Ends s l) : Ends s (removeAbortedAssistantMessages l) := by
  obtain ⟨hspoken, before, m, after, rfl, hm, htext, hafter⟩ := h
  refine ⟨fun x hx => hspoken x ((aborted_sublist _).subset hx), ?_⟩
  induction before with
  | nil =>
    refine ⟨[], m, removeAbortedAssistantMessages after, ?_, hm, htext,
      fun x hx => hafter x ((aborted_sublist _).subset hx)⟩
    rw [List.nil_append, removeAbortedAssistantMessages, if_neg, List.nil_append]
    rw [hm]
    intro hr
    cases hr.1
  | cons b before ih =>
    obtain ⟨before', m', after', he, hrest⟩ :=
      ih (fun x hx => hspoken x (List.mem_cons_of_mem _ hx))
    rw [List.cons_append, removeAbortedAssistantMessages]
    split
    · exact ⟨before', m', after', he, hrest⟩
    · exact ⟨b :: before', m', after', by rw [he, List.cons_append], hrest⟩

theorem mergeFrom_roles (last : Message) (l : List Message) :
    ∀ x ∈ mergeFrom last l, ∃ y ∈ last :: l, x.role = y.role := by
  induction l generalizing last with
  | nil =>
    intro x hx
    exact ⟨x, hx, rfl⟩
  | cons m l ih =>
    intro x hx
    rw [mergeFrom_cons] at hx
    split at hx
    · obtain ⟨y, hy, hr⟩ := ih (merged last m) x hx
      rcases List.mem_cons.mp hy with rfl | hy
      · exact ⟨last, List.mem_cons_self .., hr⟩
      · exact ⟨y, List.mem_cons_of_mem _ (List.mem_cons_of_mem _ hy), hr⟩
    · rcases List.mem_cons.mp hx with rfl | hx
      · exact ⟨x, List.mem_cons_self .., rfl⟩
      · obtain ⟨y, hy, hr⟩ := ih m x hx
        exact ⟨y, List.mem_cons_of_mem _ hy, hr⟩

/-- The merged messages end with the sender of the last one. -/
theorem mergeFrom_last (last : Message) (l : List Message) :
    ∃ before m, mergeFrom last l = before ++ [m] ∧
      m.role = ((last :: l).getLast (List.cons_ne_nil _ _)).role := by
  induction l generalizing last with
  | nil => exact ⟨[], last, rfl, rfl⟩
  | cons m l ih =>
    rw [mergeFrom_cons, List.getLast_cons (List.cons_ne_nil _ _)]
    split <;> rename_i hr
    · obtain ⟨before, x, he, hx⟩ := ih (merged last m)
      refine ⟨before, x, he, hx.trans ?_⟩
      cases l with
      | nil => exact hr
      | cons y l => rw [List.getLast_cons (List.cons_ne_nil _ _),
          List.getLast_cons (List.cons_ne_nil _ _)]
    · obtain ⟨before, x, he, hx⟩ := ih m
      exact ⟨last :: before, x, by rw [he, List.cons_append], hx⟩

theorem merge_ends (h : Ends s l) : (∀ m ∈ mergeConsecutive l, m.role ≠ .system) ∧
    ∃ before m, mergeConsecutive l = before ++ [m] ∧ m.role = .user := by
  obtain ⟨hspoken, before, m, after, rfl, hm, -, hafter⟩ := h
  have hlast : ∀ x ∈ (before ++ m :: after).getLast?, x.role = .user := by
    intro x hx
    rw [List.getLast?_append_of_ne_nil _ (List.cons_ne_nil _ _)] at hx
    rcases List.mem_cons.mp (List.mem_of_getLast? hx) with rfl | hx
    · exact hm
    · exact hafter x hx
  cases he : before ++ m :: after with
  | nil => simp at he
  | cons a l =>
    rw [he] at hspoken hlast
    refine ⟨fun x hx => ?_, ?_⟩
    · obtain ⟨y, hy, hr⟩ := mergeFrom_roles a l x hx
      rw [hr]
      exact hspoken y hy
    · obtain ⟨pre, x, hpre, hx⟩ := mergeFrom_last a l
      exact ⟨pre, x, hpre, hx.trans (hlast _ (List.getLast_mem_getLast? _))⟩

/-- The repair leaves the user's text at the end of a history last. -/
theorem validateAndRepair_ends (hs : s ≠ []) {before : List Message}
    (h : ∀ m ∈ before, m.role ≠ .system) :
    (∀ m ∈ validateAndRepair (before ++ [Message.user s]), m.role ≠ .system) ∧
      ∃ pre m, validateAndRepair (before ++ [Message.user s]) = pre ++ [m] ∧ m.role = .user := by
  obtain ⟨kept, hkept, hspoken⟩ := cleaned_append hs h
  have hdeduped : Ends s (deduped (before ++ [Message.user s])) := by
    rw [deduped_eq, answered, hkept]
    exact dropEmpty_ends hs (dedup_ends (synthetic_ends (reorder_ends hs hspoken)) [])
  rw [validateAndRepair_eq]
  exact merge_ends (aborted_ends hdeduped)

end Passes

end Clawreform.Runtime.SessionRepair
