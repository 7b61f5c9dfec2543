import Clawreform.Runtime.RepairResult

namespace Clawreform.Runtime.Exchanges

open Clawreform.Lib.Text Clawreform.Lib.Splice Clawreform.Types
open Clawreform.Runtime.SessionRepair

section Texts

def blockText? : ContentBlock → Option Str
  | .text s => some s
  | _ => none

def texts (m : Message) : List Str := m.content.toBlocks.filterMap blockText?

/-- The assistant says nothing but that there is no reply. -/
def isMute (m : Message) : Bool :=
  m.role = .assistant && match texts m with
    | [s] => isNoReplyText s
    | _ => false

/-- No message from here on is mute, until the assistant says `t`. -/
def Answered (t : Str) : List Message → Prop
  | [] => False
  | m :: ms => isMute m = false ∧ (m.role = .assistant ∧ t ∈ texts m ∨ Answered t ms)

/-- The user says `u` and is answered with `t`. -/
def Holds (u t : Str) : List Message → Prop
  | [] => False
  | m :: ms => (m.role = .user ∧ u ∈ texts m ∧ Answered t ms) ∨ Holds u t ms

def Utters (t : Str) (messages : List Message) : Prop :=
  ∃ m ∈ messages, m.role = .assistant ∧ t ∈ texts m ∧ isMute m = false

end Texts

section Lists

variable {u t : Str} {l : List Message}

theorem Answered.append (h : Answered t l) (more : List Message) : Answered t (l ++ more) := by
  induction l with
  | nil => exact h.elim
  | cons m l ih => exact ⟨h.1, h.2.imp_right ih⟩

theorem Holds.append (h : Holds u t l) (more : List Message) : Holds u t (l ++ more) := by
  induction l with
  | nil => exact h.elim
  | cons m l ih => exact h.imp (fun ⟨hrole, hu, ht⟩ => ⟨hrole, hu, ht.append more⟩) ih

theorem Holds.behind (h : Holds u t l) (front : List Message) : Holds u t (front ++ l) := by
  induction front with
  | nil => exact h
  | cons m front ih => exact .inr ih

theorem answered_iff : Answered t l ↔ ∃ mid m more, l = mid ++ m :: more ∧ m.role = .assistant ∧
    t ∈ texts m ∧ ∀ x ∈ mid ++ [m], isMute x = false := by
  induction l with
  | nil => simp [Answered]
  | cons x l ih =>
    constructor
    · rintro ⟨hx, ⟨hrole, ht⟩ | h⟩
      · exact ⟨[], x, l, rfl, hrole, ht, by simpa using hx⟩
      · obtain ⟨mid, m, more, rfl, hrole, ht, hmute⟩ := ih.mp h
        exact ⟨x :: mid, m, more, rfl, hrole, ht, List.forall_mem_cons.mpr ⟨hx, hmute⟩⟩
    · rintro ⟨mid, m, more, hl, hrole, ht, hmute⟩
      cases mid with
      | nil =>
        obtain ⟨rfl, rfl⟩ := List.cons.inj hl
        exact ⟨hmute _ (List.mem_singleton_self _), .inl ⟨hrole, ht⟩⟩
      | cons y mid =>
        obtain ⟨rfl, rfl⟩ := List.cons.inj hl
        obtain ⟨hx, hmid⟩ := List.forall_mem_cons.mp hmute
        exact ⟨hx, .inr (ih.mpr ⟨mid, m, more, rfl, hrole, ht, hmid⟩)⟩

theorem holds_iff : Holds u t l ↔ ∃ front m more, l = front ++ m :: more ∧ m.role = .user ∧
    u ∈ texts m ∧ Answered t more := by
  induction l with
  | nil => simp [Holds]
  | cons x l ih =>
    constructor
    · rintro (⟨hrole, hu, ht⟩ | h)
      · exact ⟨[], x, l, rfl, hrole, hu, ht⟩
      · obtain ⟨front, m, more, rfl, hm⟩ := ih.mp h
        exact ⟨x :: front, m, more, rfl, hm⟩
    · rintro ⟨front, m, more, hl, hm⟩
      cases front with
      | nil =>
        obtain ⟨rfl, rfl⟩ := List.cons.inj hl
        exact .inl hm
      | cons y front =>
        obtain ⟨rfl, rfl⟩ := List.cons.inj hl
        exact .inr (ih.mpr ⟨front, m, more, rfl, hm⟩)

theorem Answered.utters (h : Answered t l) : Utters t l := by
  obtain ⟨mid, m, more, rfl, hrole, ht, hmute⟩ := answered_iff.mp h
  exact ⟨m, by simp, hrole, ht, hmute m (by simp)⟩

theorem Utters.behind (h : Utters t l) (front : List Message) : Utters t (front ++ l) :=
  let ⟨m, hm, hutters⟩ := h
  ⟨m, List.mem_append_right _ hm, hutters⟩

theorem Utters.append (h : Utters t l) (more : List Message) : Utters t (l ++ more) :=
  let ⟨m, hm, hutters⟩ := h
  ⟨m, List.mem_append_left _ hm, hutters⟩

theorem Holds.utters (h : Holds u t l) : Utters t l := by
  obtain ⟨front, m, more, rfl, -, -, ht⟩ := holds_iff.mp h
  exact (ht.utters.behind [m]).behind front

theorem Holds.says (h : Holds u t l) : ∃ m ∈ l, m.role = .user ∧ u ∈ texts m := by
  obtain ⟨front, m, more, rfl, hrole, hu, -⟩ := holds_iff.mp h
  exact ⟨m, by simp, hrole, hu⟩

/-- A part that is cut off takes the user's text with it, and the answer perhaps. -/
theorem Holds.cut {front : List Message} (h : Holds u t (front ++ l)) :
    Holds u t l ∨ (∃ m ∈ front, u ∈ texts m) ∧ ((∃ m ∈ front, t ∈ texts m) ∨ Utters t l) := by
  induction front with
  | nil => exact .inl h
  | cons m front ih =>
    obtain ⟨-, hu, ht⟩ | h := h
    · obtain ⟨x, hx, hutters⟩ := ht.utters
      refine .inr ⟨⟨m, List.mem_cons_self, hu⟩, ?_⟩
      obtain hx | hx := List.mem_append.mp hx
      · exact .inl ⟨x, List.mem_cons_of_mem m hx, hutters.2.1⟩
      · exact .inr ⟨x, hx, hutters⟩
    · refine (ih h).imp_right ?_
      rintro ⟨⟨x, hx, hu⟩, ht⟩
      refine ⟨⟨x, List.mem_cons_of_mem m hx, hu⟩, ht.imp_left ?_⟩
      rintro ⟨y, hy, hty⟩
      exact ⟨y, List.mem_cons_of_mem m hy, hty⟩

theorem Utters.cut {front : List Message} (h : Utters t (front ++ l)) :
    (∃ m ∈ front, t ∈ texts m) ∨ Utters t l := by
  obtain ⟨m, hm, hutters⟩ := h
  obtain hm | hm := List.mem_append.mp hm
  · exact .inl ⟨m, hm, hutters.2.1⟩
  · exact .inr ⟨m, hm, hutters⟩

end Lists

section Edits

/-- The message can go: it has no text, or it is a blank one of the assistant. -/
def Wordless (m : Message) : Prop :=
  ∀ s ∈ texts m, s = [] ∨ m.role = .assistant ∧ isBlankText s = true

/-- Messages get and lose what is no text, come and go without texts, and are joined. -/
inductive Edit : List Message → List Message → Prop
  | nil : Edit [] []
  | keep {m m' : Message} {l l' : List Message} (hrole : m'.role = m.role)
      (htexts : texts m' = texts m) (h : Edit l l') : Edit (m :: l) (m' :: l')
  | drop {m : Message} {l l' : List Message} (hm : Wordless m) (h : Edit l l') : Edit (m :: l) l'
  | insert {m : Message} {l l' : List Message} (hm : texts m = []) (h : Edit l l') :
      Edit l (m :: l')
  | merge {x y z : Message} {l l' : List Message} (hrole : x.role = y.role)
      (hz : z.role = y.role) (htexts : texts z = texts x ++ texts y) (h : Edit (z :: l) l') :
      Edit (x :: y :: l) l'

variable {u t : Str} {l l' : List Message} {m : Message}

theorem Edit.refl (l : List Message) : Edit l l := by
  induction l with
  | nil => exact .nil
  | cons m l ih => exact .keep rfl rfl ih

theorem isMute_of_texts {m' : Message} (hrole : m'.role = m.role) (h : texts m' = texts m) :
    isMute m' = isMute m := by
  rw [isMute, isMute, hrole, h]

theorem isMute_of_nil (h : texts m = []) : isMute m = false := by
  rw [isMute, h, Bool.and_false]

/-- Two texts are no no-reply, and no text adds nothing. -/
theorem isMute_merge {x y z : Message} (hrole : x.role = y.role) (hz : z.role = y.role)
    (htexts : texts z = texts x ++ texts y) (hx : texts y = [] → isMute x = false)
    (hy : texts x = [] → isMute y = false) : isMute z = false := by
  match hxs : texts x with
  | [] =>
    rw [isMute_of_texts hz (by rw [htexts, hxs, List.nil_append])]
    exact hy hxs
  | [s] =>
    match hys : texts y with
    | [] =>
      rw [isMute_of_texts (hz.trans hrole.symm) (by rw [htexts, hys, List.append_nil])]
      exact hx hys
    | _ :: _ =>
      rw [isMute, htexts, hxs, hys]
      exact Bool.and_false _
  | _ :: _ :: _ =>
    rw [isMute, htexts, hxs]
    exact Bool.and_false _

theorem isMute_assistant (s : Str) : isMute (Message.assistant s) = isNoReplyText s := by
  rw [isMute, texts]
  exact Bool.true_and _

theorem Wordless.not_says (h : Wordless m) (hrole : m.role = .user) (hu : u ≠ []) : u ∉ texts m :=
  fun hmem => (h u hmem).elim hu fun hblank => by
    rw [hrole] at hblank
    cases hblank.1

theorem Wordless.not_utters (h : Wordless m) (ht : isBlankText t = false) : t ∉ texts m :=
  fun hmem => (h t hmem).elim (fun he => by subst he; cases ht) fun hblank => by
    rw [hblank.2] at ht
    cases ht

theorem Edit.answered (h : Edit l l') (ht : isBlankText t = false) (ha : Answered t l) :
    Answered t l' := by
  induction h with
  | nil => exact ha
  | keep hrole htexts _ ih =>
    obtain ⟨hmute, hrest⟩ := ha
    refine ⟨(isMute_of_texts hrole htexts).trans hmute, hrest.imp ?_ ih⟩
    rw [hrole, htexts]
    exact id
  | drop hm _ ih => exact ih (ha.2.resolve_left fun hutters => hm.not_utters ht hutters.2)
  | insert hm _ ih => exact ⟨isMute_of_nil hm, .inr (ih ha)⟩
  | merge hrole hz htexts _ ih =>
    obtain ⟨hx, ⟨hassistant, htx⟩ | ⟨hy, hrest⟩⟩ := ha
    · refine ih ⟨?_, .inl ⟨hz.trans (hrole.symm.trans hassistant), ?_⟩⟩
      · refine isMute_merge hrole hz htexts (fun _ => hx) fun hnil => ?_
        rw [hnil] at htx
        cases htx
      · rw [htexts]
        exact List.mem_append_left _ htx
    · refine ih ⟨isMute_merge hrole hz htexts (fun _ => hx) fun _ => hy, hrest.imp_left ?_⟩
      rintro ⟨hassistant, hty⟩
      rw [htexts]
      exact ⟨hz.trans hassistant, List.mem_append_right _ hty⟩

theorem Edit.holds (h : Edit l l') (hu : u ≠ []) (ht : isBlankText t = false)
    (hl : Holds u t l) : Holds u t l' := by
  induction h with
  | nil => exact hl
  | keep hrole htexts hrest ih =>
    refine hl.imp ?_ ih
    rw [hrole, htexts]
    exact fun ⟨huser, hux, ha⟩ => ⟨huser, hux, hrest.answered ht ha⟩
  | drop hm _ ih => exact ih (hl.resolve_left fun hsays => hm.not_says hsays.1 hu hsays.2.1)
  | insert _ _ ih => exact .inr (ih hl)
  | merge hrole hz htexts _ ih =>
    refine ih ?_
    obtain ⟨huser, hux, -, ⟨hassistant, -⟩ | ha⟩ | ⟨huser, huy, ha⟩ | hl := hl
    · rw [← hrole, huser] at hassistant
      cases hassistant
    · rw [Holds, htexts]
      exact .inl ⟨hz.trans (hrole.symm.trans huser), List.mem_append_left _ hux, ha⟩
    · rw [Holds, htexts]
      exact .inl ⟨hz.trans huser, List.mem_append_right _ huy, ha⟩
    · exact .inr hl

theorem Edit.utters (h : Edit l l') (ht : isBlankText t = false) (hl : Utters t l) :
    Utters t l' := by
  induction h with
  | nil => exact hl
  | keep hrole htexts _ ih =>
    obtain ⟨x, hx, hassistant, htx, hmute⟩ := hl
    obtain rfl | hx := List.mem_cons.mp hx
    · refine ⟨_, List.mem_cons_self, hrole.trans hassistant, ?_, ?_⟩
      · rwa [htexts]
      · rwa [isMute_of_texts hrole htexts]
    · exact (ih ⟨x, hx, hassistant, htx, hmute⟩).behind [_]
  | drop hm _ ih =>
    obtain ⟨x, hx, hassistant, htx, hmute⟩ := hl
    obtain rfl | hx := List.mem_cons.mp hx
    · exact absurd htx (hm.not_utters ht)
    · exact ih ⟨x, hx, hassistant, htx, hmute⟩
  | insert _ _ ih => exact (ih hl).behind [_]
  | merge hrole hz htexts _ ih =>
    refine ih ?_
    obtain ⟨m, hm, hassistant, htm, hmute⟩ := hl
    obtain rfl | hm := List.mem_cons.mp hm
    · refine ⟨_, List.mem_cons_self, hz.trans (hrole.symm.trans hassistant), ?_, ?_⟩
      · rw [htexts]
        exact List.mem_append_left _ htm
      · refine isMute_merge hrole hz htexts (fun _ => hmute) fun hnil => ?_
        rw [hnil] at htm
        cases htm
    obtain rfl | hm := List.mem_cons.mp hm
    · refine ⟨_, List.mem_cons_self, hz.trans hassistant, ?_, ?_⟩
      · rw [htexts]
        exact List.mem_append_right _ htm
      · refine isMute_merge hrole hz htexts (fun hnil => ?_) fun _ => hmute
        rw [hnil] at htm
        cases htm
    · exact ⟨m, List.mem_cons_of_mem _ hm, hassistant, htm, hmute⟩

end Edits

section Repair

variable {l : List Message} {m : Message} {bs : List ContentBlock}

/-- What the passes of the repair leave of the exchanges. -/
structure Retains (l l' : List Message) : Prop where
  holds : ∀ u t, u ≠ [] → isBlankText t = false → Holds u t l → Holds u t l'
  utters : ∀ t, isBlankText t = false → Utters t l → Utters t l'

theorem Edit.retains {l' : List Message} (h : Edit l l') : Retains l l' :=
  ⟨fun _ _ hu ht => h.holds hu ht, fun _ ht => h.utters ht⟩

theorem Retains.trans {l₁ l₂ l₃ : List Message} (h : Retains l₁ l₂) (h' : Retains l₂ l₃) :
    Retains l₁ l₃ :=
  ⟨fun u t hu ht hl => h'.holds u t hu ht (h.holds u t hu ht hl),
    fun t ht hl => h'.utters t ht (h.utters t ht hl)⟩

/-- Dropping blocks that are no texts. -/
theorem filterMap_blockText_filter {p : ContentBlock → Bool} (hp : ∀ s, p (.text s) = true)
    (bs : List ContentBlock) : (bs.filter p).filterMap blockText? = bs.filterMap blockText? := by
  rw [List.filterMap_filter]
  refine List.filterMap_congr fun b _ => ?_
  cases b with
  | text s => rw [if_pos (hp s)]
  | _ => split <;> rfl

theorem texts_blocks (role : Role) (bs : List ContentBlock) :
    texts ⟨role, .blocks bs⟩ = bs.filterMap blockText? := rfl

theorem keepBlock_text (ids : List Str) (s : Str) : keepBlock ids (.text s) = true := rfl

theorem cleanMessage_spec (ids : List Str) (m : Message) :
    match cleanMessage ids m with
    | none => Wordless m
    | some m' => m'.role = m.role ∧ texts m' = texts m := by
  obtain ⟨role, content⟩ := m
  cases content with
  | text s =>
    by_cases hs : s = []
    · subst hs
      exact fun t ht => .inl (List.mem_singleton.mp ht)
    · have hsome : cleanMessage ids ⟨role, .text s⟩ = some ⟨role, .text s⟩ := if_neg hs
      rw [hsome]
      exact ⟨rfl, rfl⟩
  | blocks bs =>
    have htexts := filterMap_blockText_filter (keepBlock_text ids) bs
    by_cases hbs : bs.filter (keepBlock ids) = []
    · have hnone : cleanMessage ids ⟨role, .blocks bs⟩ = none := if_pos hbs
      rw [hnone]
      intro t ht
      rw [texts_blocks, ← htexts, hbs] at ht
      cases ht
    · have hsome : cleanMessage ids ⟨role, .blocks bs⟩ =
          some ⟨role, .blocks (bs.filter (keepBlock ids))⟩ := if_neg hbs
      rw [hsome]
      exact ⟨rfl, htexts⟩

theorem edit_cleaned (ids : List Str) (l : List Message) :
    Edit l (l.filterMap (cleanMessage ids)) := by
  induction l with
  | nil => exact .nil
  | cons m l ih =>
    have hm := cleanMessage_spec ids m
    rw [List.filterMap_cons]
    cases hclean : cleanMessage ids m with
    | none =>
      rw [hclean] at hm
      exact .drop hm ih
    | some m' =>
      rw [hclean] at hm
      exact .keep hm.1 hm.2 ih

theorem edit_dropEmpty (l : List Message) : Edit l (dropEmpty l) := by
  induction l with
  | nil => exact .nil
  | cons m l ih =>
    rw [dropEmpty, List.filter_cons]
    split
    · exact .keep rfl rfl ih
    · rename_i h
      refine .drop (fun t ht => .inl ?_) ih
      obtain ⟨role, content⟩ := m
      cases content with
      | text s =>
        obtain rfl : s = [] := by simpa [MessageContent.isEmpty] using h
        exact List.mem_singleton.mp ht
      | blocks bs =>
        obtain rfl : bs = [] := by simpa [MessageContent.isEmpty] using h
        cases ht

theorem removeSources_spec (misplaced : List Misplaced) (m : Message) (n : Nat) :
    (removeSources misplaced m n).role = m.role ∧
      texts (removeSources misplaced m n) = texts m := by
  unfold removeSources
  split
  · rename_i bs hrole hcontent
    obtain ⟨role, content⟩ := m
    subst hcontent
    exact ⟨rfl, filterMap_blockText_filter (fun _ => rfl) bs⟩
  · exact ⟨rfl, rfl⟩

theorem edit_removeSources (misplaced : List Misplaced) (l : List Message) (k : Nat) :
    Edit l ((l.zipIdx k).map fun p => removeSources misplaced p.1 p.2) := by
  induction l generalizing k with
  | nil => exact .nil
  | cons m l ih =>
    obtain ⟨hrole, htexts⟩ := removeSources_spec misplaced m k
    exact .keep hrole htexts (ih (k + 1))

/-- No block is a text. -/
def NoTexts (bs : List ContentBlock) : Prop := bs.filterMap blockText? = []

theorem edit_attachResults (hbs : NoTexts bs) (l : List Message) : Edit l (attachResults bs l) := by
  cases l with
  | nil => exact .insert hbs .nil
  | cons m l =>
    rw [attachResults]
    split
    · refine .keep rfl ?_ (.refl l)
      show (m.content.toBlocks ++ bs).filterMap blockText? = _
      rw [List.filterMap_append, hbs, List.append_nil]
      rfl
    · exact .insert hbs (.refl _)

theorem edit_applyAt (hbs : NoTexts bs) (n : Nat) (l : List Message) :
    Edit l (applyAt (attachResults bs) n l) := by
  induction n generalizing l with
  | zero => exact edit_attachResults hbs l
  | succ n ih =>
    cases l with
    | nil => exact edit_attachResults hbs []
    | cons m l => exact .keep rfl rfl (ih l)

theorem retains_attachAll (position : Nat → Option Nat) {groups : List (Nat × List ContentBlock)}
    (hgroups : ∀ e ∈ groups, NoTexts e.2) (l : List Message) :
    Retains l (groups.foldl (fun ms e =>
      match position e.1 with
      | some idx => applyAt (attachResults e.2) (idx + 1) ms
      | none => ms) l) := by
  induction groups generalizing l with
  | nil => exact (Edit.refl l).retains
  | cons e groups ih =>
    obtain ⟨he, hrest⟩ := List.forall_mem_cons.mp hgroups
    rw [List.foldl_cons]
    refine Retains.trans ?_ (ih hrest _)
    split
    · exact (edit_applyAt he _ l).retains
    · exact (Edit.refl l).retains

theorem noTexts_sortedGroups {n : Nat} {group : Nat → List ContentBlock}
    (h : ∀ i, NoTexts (group i)) : ∀ e ∈ sortedGroups n group, NoTexts e.2 := by
  intro e he
  obtain ⟨i, -, hi⟩ := List.mem_filterMap.mp (List.mem_reverse.mp he)
  split at hi
  · cases hi
  · cases hi
    exact h i

/-- Results are no texts. -/
theorem noTexts_results (hbs : ∀ b ∈ bs, b.resultId?.isSome) : NoTexts bs := by
  refine List.filterMap_eq_nil_iff.mpr fun b hb => ?_
  have hresult := hbs b hb
  cases b with
  | text s => cases hresult
  | _ => rfl

theorem misplacedResults_block {r : Misplaced} (hr : r ∈ misplacedResults l) :
    r.block.resultId?.isSome := by
  obtain ⟨p, -, hp⟩ := List.mem_flatMap.mp hr
  split at hp
  · obtain ⟨b, -, hb⟩ := List.mem_filterMap.mp hp
    unfold misplacedBlock at hb
    split at hb
    · cases hb
    · rename_i id hid
      split at hb
      · cases hb
      · split at hb
        · cases hb
        · cases hb
          exact Option.isSome_of_eq_some hid
  · cases hp

theorem retains_reorder (l : List Message) : Retains l (reorderToolResults l).1 := by
  unfold reorderToolResults
  dsimp only
  split
  · exact (Edit.refl l).retains
  · have hremoved := (edit_removeSources (misplacedResults l) l 0).retains.trans
      (edit_dropEmpty _).retains
    refine hremoved.trans (retains_attachAll _ (noTexts_sortedGroups fun i => ?_) _)
    refine noTexts_results fun b hb => ?_
    obtain ⟨r, hr, rfl⟩ := List.mem_map.mp hb
    exact misplacedResults_block (List.mem_of_mem_filter hr)

theorem retains_synthetic (l : List Message) : Retains l (insertSyntheticResults l).1 := by
  unfold insertSyntheticResults
  dsimp only
  split
  · exact (Edit.refl l).retains
  · refine retains_attachAll some (noTexts_sortedGroups fun i => ?_) l
    refine noTexts_results fun b hb => ?_
    obtain ⟨e, -, rfl⟩ := List.mem_map.mp hb
    rfl

theorem dedupBlocks_texts (seen : List Str) (bs : List ContentBlock) :
    (dedupBlocks seen bs).1.filterMap blockText? = bs.filterMap blockText? := by
  induction bs generalizing seen with
  | nil => rfl
  | cons b bs ih =>
    cases hb : b.resultId? with
    | none => simp only [dedupBlocks, hb, List.filterMap_cons, ih]
    | some id =>
      have hnone : blockText? b = none := by
        cases b with
        | text s => cases hb
        | _ => rfl
      simp only [dedupBlocks, hb, List.filterMap_cons, hnone]
      split
      · exact ih seen
      · simp only [List.filterMap_cons, hnone, ih]

theorem edit_dedup (seen : List Str) (l : List Message) : Edit l (dedupMessages seen l) := by
  induction l generalizing seen with
  | nil => exact .nil
  | cons m l ih =>
    rw [dedupMessages]
    refine .keep ?_ ?_ (ih _)
    all_goals
      obtain ⟨role, content⟩ := m
      cases content
    · rfl
    · rfl
    · rfl
    · exact dedupBlocks_texts seen _

theorem isEmptyOrBlankContent_spec (hrole : m.role = .assistant)
    (h : isEmptyOrBlankContent m.content = true) : Wordless m := by
  obtain ⟨role, content⟩ := m
  intro t ht
  refine .inr ⟨hrole, ?_⟩
  cases content with
  | text s => rwa [List.mem_singleton.mp ht]
  | blocks bs =>
    obtain ⟨b, hb, hbt⟩ := List.mem_filterMap.mp ht
    have hblank := List.all_eq_true.mp h b hb
    cases b with
    | text s =>
      cases hbt
      exact hblank
    | _ => cases hbt

theorem edit_aborted (l : List Message) : Edit l (removeAbortedAssistantMessages l) := by
  induction l with
  | nil => exact .nil
  | cons m l ih =>
    rw [removeAbortedAssistantMessages]
    split
    · rename_i h
      exact .drop (isEmptyOrBlankContent_spec h.1 h.2.1) ih
    · exact .keep rfl rfl ih

theorem edit_mergeFrom (last : Message) (l : List Message) :
    Edit (last :: l) (mergeFrom last l) := by
  induction l generalizing last with
  | nil => exact .refl _
  | cons m l ih =>
    rw [mergeFrom]
    split
    · rename_i hrole
      refine .merge (z := { last with content := mergeContent last.content m.content })
        hrole hrole ?_ (ih _)
      show (last.content.toBlocks ++ m.content.toBlocks).filterMap blockText? = _
      rw [List.filterMap_append]
      rfl
    · exact .keep rfl rfl (ih m)

theorem edit_merge (l : List Message) : Edit l (mergeConsecutive l) := by
  cases l with
  | nil => exact .nil
  | cons m l => exact edit_mergeFrom m l

/-- The repair of a session keeps what was asked and answered in it. -/
theorem retains_repair (l : List Message) : Retains l (validateAndRepair l) := by
  have hanswered : Retains l (answered l) :=
    (edit_cleaned _ l).retains.trans ((retains_reorder _).trans (retains_synthetic _))
  have hdeduped : Retains l (deduped l) :=
    hanswered.trans ((edit_dedup [] _).retains.trans (edit_dropEmpty _).retains)
  rw [validateAndRepair_eq]
  exact hdeduped.trans ((edit_aborted _).retains.trans (edit_merge _).retains)

end Repair

section Prune

variable {u t : Str} {l : List Message}

theorem isMute_of_noReply {m : Message} (hrole : m.role = .assistant)
    (h : isNoReply m.content = true) : isMute m = true := by
  obtain ⟨role, content⟩ := m
  obtain rfl : role = .assistant := hrole
  unfold isNoReply at h
  split at h
  · rename_i s hcontent
    obtain rfl : content = .text s := hcontent
    exact h
  · rename_i s hcontent
    obtain rfl : content = .blocks [.text s] := hcontent
    exact h
  · cases h

/-- Only a mute message is marked, and the user message in front of it. -/
theorem mem_prunedIndices {n j : Nat} (h : j ∈ prunedIndices l n) :
    ∃ i m, l[i]? = some m ∧ isMute m = true ∧
      (j = i ∨ i = j + 1 ∧ l[j]?.map Message.role = some .user) := by
  obtain ⟨i, -, hi⟩ := List.mem_flatMap.mp h
  split at hi
  · rename_i m hm
    split at hi
    · rename_i hnoReply
      refine ⟨i, m, hm, isMute_of_noReply hnoReply.1 hnoReply.2, ?_⟩
      obtain rfl | hi := List.mem_cons.mp hi
      · exact .inl rfl
      · split at hi
        · rename_i huser
          obtain rfl := List.mem_singleton.mp hi
          exact .inr ⟨by omega, huser.2⟩
        · cases hi
    · cases hi
  · cases hi

/-- A part of the list none of whose indices is marked stays whole. -/
theorem removeIndices_mid {α : Type*} {indices : List Nat} (front mid more : List α)
    (h : ∀ n, n < mid.length → front.length + n ∉ indices) :
    ∃ front' more', removeIndices indices (front ++ (mid ++ more)) = front' ++ (mid ++ more') := by
  have hmid : (mid.zipIdx front.length).filter (fun p => !indices.contains p.2) =
      mid.zipIdx front.length := by
    refine List.filter_eq_self.mpr fun p hp => ?_
    have hle := List.le_snd_of_mem_zipIdx hp
    have hlt := List.snd_lt_add_of_mem_zipIdx hp
    have hnot := h (p.2 - front.length) (by omega)
    rw [Nat.add_sub_cancel' hle] at hnot
    simpa using hnot
  rw [removeIndices, List.zipIdx_append, List.zipIdx_append, Nat.zero_add, List.filter_append,
    List.filter_append, hmid, List.map_append, List.map_append, List.zipIdx_map_fst]
  exact ⟨_, _, rfl⟩

/-- Messages that are not mute, up to an answer, are not pruned. -/
theorem prune_part {front part more : List Message} (hquiet : ∀ x ∈ part, isMute x = false)
    (hlast : part.getLast?.map Message.role ≠ some .user) (keepRecent : Nat) :
    ∃ front' more', pruneHeartbeatTurns (front ++ (part ++ more)) keepRecent =
      front' ++ (part ++ more') := by
  unfold pruneHeartbeatTurns
  split
  · exact ⟨front, more, rfl⟩
  refine removeIndices_mid front part more fun n hn hmem => ?_
  have hpart (k : Nat) (hk : k < part.length) :
      (front ++ (part ++ more))[front.length + k]? = part[k]? := by
    rw [List.getElem?_append_right (Nat.le_add_right _ _), Nat.add_sub_cancel_left,
      List.getElem?_append_left hk]
  have hnone (k : Nat) (hk : k < part.length) (x : Message)
      (hx : (front ++ (part ++ more))[front.length + k]? = some x) : isMute x = false := by
    rw [hpart k hk] at hx
    exact hquiet x (List.mem_of_getElem? hx)
  obtain ⟨i, x, hx, hmute, rfl | ⟨rfl, huser⟩⟩ := mem_prunedIndices hmem
  · rw [hnone n hn x hx] at hmute
    cases hmute
  by_cases hnext : n + 1 < part.length
  · rw [hnone (n + 1) hnext x hx] at hmute
    cases hmute
  · rw [hpart n hn] at huser
    apply hlast
    rw [List.getLast?_eq_getElem?, ← huser]
    congr 2
    omega

theorem prune_holds (h : Holds u t l) (keepRecent : Nat) :
    Holds u t (pruneHeartbeatTurns l keepRecent) := by
  obtain ⟨front, m, rest, rfl, hrole, hu, ha⟩ := holds_iff.mp h
  obtain ⟨mid, y, more, rfl, hassistant, ht, hmute⟩ := answered_iff.mp ha
  have hasked : isMute m = false := by rw [isMute, hrole]; rfl
  have hsplit : front ++ m :: (mid ++ y :: more) = front ++ (((m :: mid) ++ [y]) ++ more) := by
    simp
  have hquiet : ∀ x ∈ (m :: mid) ++ [y], isMute x = false :=
    List.forall_mem_cons.mpr ⟨hasked, hmute⟩
  have hlast : ((m :: mid) ++ [y]).getLast?.map Message.role ≠ some .user := by
    rw [List.getLast?_concat, Option.map_some, hassistant]
    decide
  obtain ⟨front', more', hprune⟩ := @prune_part front _ more hquiet hlast keepRecent
  rw [hsplit, hprune]
  have hstays : Answered t ((mid ++ [y]) ++ more') :=
    Answered.append (answered_iff.mpr ⟨mid, y, [], rfl, hassistant, ht, hmute⟩) more'
  exact Holds.behind (l := (m :: mid ++ [y]) ++ more') (Or.inl ⟨hrole, hu, hstays⟩) front'

theorem prune_utters (h : Utters t l) (keepRecent : Nat) :
    Utters t (pruneHeartbeatTurns l keepRecent) := by
  obtain ⟨m, hm, hassistant, ht, hmute⟩ := h
  obtain ⟨front, more, rfl⟩ := List.append_of_mem hm
  obtain ⟨front', more', hprune⟩ := @prune_part front [m] more
    (by simpa using hmute) (by simp [hassistant]) keepRecent
  rw [List.append_cons, List.append_assoc, hprune]
  exact ⟨m, by simp, hassistant, ht, hmute⟩

end Prune

end Clawreform.Runtime.Exchanges
