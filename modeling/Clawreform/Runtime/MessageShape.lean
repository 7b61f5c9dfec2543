import Mathlib.Data.List.Chain
import Clawreform.Runtime.Context
import Clawreform.Runtime.RepairEnding

namespace Clawreform.Runtime

open Clawreform.Lib.Text
open Clawreform.Types
open Clawreform.Runtime.SessionRepair

section Shape

/-- What a provider checks of a message: who sends it, which tools it calls and
which calls it answers. -/
structure Shape where
  role : Role
  uses : List Str
  results : List Str
  deriving DecidableEq

def shape (m : Message) : Shape := ⟨m.role, m.toolUses, m.toolResults⟩

/-- A message may follow another: the sender changes, and every tool use of the
first is answered once by the second. -/
def Follows (x y : Shape) : Prop :=
  x.role ≠ y.role ∧ ∀ id ∈ x.uses, y.results.count id = 1

/-- No system message, tool uses in assistant messages, results in user messages. -/
structure Shape.Seated (x : Shape) : Prop where
  spoken : x.role ≠ .system
  uses : x.role ≠ .assistant → x.uses = []
  results : x.role ≠ .user → x.results = []

/-- The messages of a request on which the loop goes on: the user speaks last. -/
structure Proper (l : List Shape) : Prop where
  chain : l.IsChain Follows
  seated : ∀ x ∈ l, x.Seated
  endsUser : ∃ before x, l = before ++ [x] ∧ x.role = .user
  head : ∀ x ∈ l.head?, x.results = []

variable {l : List Shape}

theorem Proper.push (h : Proper l) {x y : Shape} (hx : x.Seated) (hy : y.Seated)
    (hrole : x.role = .assistant) (hrole' : y.role = .user)
    (hanswers : ∀ id ∈ x.uses, y.results.count id = 1) : Proper (l ++ [x, y]) := by
  obtain ⟨before, z, rfl, hz⟩ := h.endsUser
  refine ⟨?_, ?_, ⟨before ++ [z, x], y, by simp, hrole'⟩, ?_⟩
  · refine List.isChain_append.mpr ⟨h.chain, ?_, ?_⟩
    · refine List.isChain_cons_cons.mpr ⟨⟨?_, hanswers⟩, List.isChain_singleton y⟩
      rw [hrole, hrole']
      decide
    · intro u hu v hv
      obtain rfl : z = u := by simpa using hu
      obtain rfl : x = v := by simpa using hv
      refine ⟨by rw [hz, hrole]; decide, fun id hid => ?_⟩
      rw [(h.seated z (by simp)).uses (by rw [hz]; decide)] at hid
      cases hid
  · intro u hu
    rcases List.mem_append.mp hu with hu | hu
    · exact h.seated u hu
    · rcases List.mem_cons.mp hu with rfl | hu
      · exact hx
      · rw [List.mem_singleton.mp hu]
        exact hy
  · intro u hu
    refine h.head u ?_
    rwa [List.head?_append_of_ne_nil _ (by simp)] at hu

/-- Senders alternate, so the length tells who speaks first. -/
theorem head_role {before : List Shape} {x : Shape} (hchain : (before ++ [x]).IsChain Follows)
    (hseated : ∀ y ∈ before ++ [x], y.Seated) (hx : x.role = .user) :
    ∀ y ∈ (before ++ [x]).head?,
      y.role = if before.length % 2 = 0 then .user else .assistant := by
  induction before with
  | nil =>
    intro y hy
    obtain rfl : x = y := by simpa using hy
    exact hx
  | cons b before ih =>
    intro y hy
    obtain rfl : b = y := by simpa using hy
    rw [List.cons_append] at hchain hseated
    have hrest := ih hchain.tail (fun y hy => hseated y (List.mem_cons_of_mem _ hy))
    obtain ⟨z, hz⟩ : ∃ z, z ∈ (before ++ [x]).head? := by
      cases before with
      | nil => exact ⟨x, rfl⟩
      | cons c before => exact ⟨c, rfl⟩
    have hne : b.role ≠ z.role := by
      cases hl : before ++ [x] with
      | nil => simp at hl
      | cons c rest =>
        rw [hl] at hchain hz
        obtain rfl : c = z := by simpa using hz
        exact (List.isChain_cons_cons.mp hchain).1.1
    have hsys := (hseated b (List.mem_cons_self ..)).spoken
    have hzr := hrest z hz
    rw [List.length_cons]
    rcases Nat.mod_two_eq_zero_or_one before.length with hp | hp
    · rw [hp, if_pos rfl] at hzr
      rw [if_neg (by omega)]
      cases hb : b.role with
      | system => exact absurd hb hsys
      | user => exact absurd (hb.trans hzr.symm) hne
      | assistant => rfl
    · rw [hp, if_neg (by omega)] at hzr
      rw [if_pos (by omega)]
      cases hb : b.role with
      | system => exact absurd hb hsys
      | user => rfl
      | assistant => exact absurd (hb.trans hzr.symm) hne

/-- Keeping an even number of messages cuts in front of an assistant message. -/
theorem Proper.drop (h : Proper l) {n : Nat} (hn : n % 2 = 0) (hpos : 0 < n) (hle : n ≤ l.length) :
    Proper (l.drop (l.length - n)) ∧ ∀ x ∈ (l.drop (l.length - n)).head?, x.role = .assistant := by
  obtain ⟨before, x, rfl, hx⟩ := h.endsUser
  rw [List.length_append, List.length_singleton] at hle ⊢
  have hcut : (before ++ [x]).drop (before.length + 1 - n) =
      before.drop (before.length + 1 - n) ++ [x] :=
    List.drop_append_of_le_length (by omega)
  have hchain := h.chain.drop (before.length + 1 - n)
  have hseated : ∀ y ∈ (before ++ [x]).drop (before.length + 1 - n), y.Seated :=
    fun y hy => h.seated y (List.mem_of_mem_drop hy)
  rw [hcut] at hchain hseated ⊢
  have hhead : ∀ y ∈ (before.drop (before.length + 1 - n) ++ [x]).head?, y.role = .assistant := by
    intro y hy
    rw [head_role hchain hseated hx y hy, List.length_drop, if_neg (by omega)]
  refine ⟨⟨hchain, hseated, ⟨_, x, rfl, hx⟩, fun y hy => ?_⟩, hhead⟩
  refine (hseated y (List.mem_of_mem_head? hy)).results ?_
  rw [hhead y hy]
  decide

/-- A cut to the last `n` messages, which changes nothing when there are fewer. -/
theorem Proper.keepLast (h : Proper l) {n : Nat} (hn : n % 2 = 0) (hpos : 0 < n) :
    Proper (l.drop (l.length - n)) := by
  by_cases hle : n ≤ l.length
  · exact (h.drop hn hpos hle).1
  · rw [Nat.sub_eq_zero_of_le (by omega), List.drop_zero]
    exact h

/-- A user message without results in front of an assistant message. -/
theorem Proper.cons (h : Proper l) {x : Shape} (hx : x.role = .user) (huses : x.uses = [])
    (hresults : x.results = []) (hhead : ∀ y ∈ l.head?, y.role = .assistant) :
    Proper (x :: l) := by
  refine ⟨?_, ?_, ?_, ?_⟩
  · cases l with
    | nil => exact List.isChain_singleton x
    | cons y l =>
      refine List.isChain_cons_cons.mpr ⟨⟨?_, fun id hid => ?_⟩, h.chain⟩
      · rw [hx, hhead y rfl]
        decide
      · rw [huses] at hid
        cases hid
  · intro y hy
    rcases List.mem_cons.mp hy with rfl | hy
    · exact ⟨by rw [hx]; decide, fun _ => huses, fun _ => hresults⟩
    · exact h.seated y hy
  · obtain ⟨before, z, rfl, hz⟩ := h.endsUser
    exact ⟨x :: before, z, rfl, hz⟩
  · intro y hy
    obtain rfl : x = y := by simpa using hy
    exact hresults

end Shape

section Context

variable {σ : Type} {f : σ → Str → Option (Str × σ)}

theorem editBlocks_ids {bs bs' : List ContentBlock} {st st' : σ}
    (h : editBlocks f st bs = some (bs', st')) :
    bs'.filterMap ContentBlock.toolUseId? = bs.filterMap ContentBlock.toolUseId? ∧
      bs'.filterMap ContentBlock.resultId? = bs.filterMap ContentBlock.resultId? := by
  induction bs generalizing bs' st with
  | nil =>
    obtain ⟨rfl, -⟩ : [] = bs' ∧ st = st' := by simpa [editBlocks] using h
    exact ⟨rfl, rfl⟩
  | cons b bs ih =>
    have hsame : ∀ {c : ContentBlock} {cs : List ContentBlock} {st₁ : σ},
        editBlocks f st₁ bs = some (cs, st') → bs' = c :: cs →
        c.toolUseId? = b.toolUseId? → c.resultId? = b.resultId? →
        bs'.filterMap ContentBlock.toolUseId? = (b :: bs).filterMap ContentBlock.toolUseId? ∧
          bs'.filterMap ContentBlock.resultId? = (b :: bs).filterMap ContentBlock.resultId? := by
      intro c cs st₁ hcs he huse hres
      obtain ⟨huses, hresults⟩ := ih hcs
      rw [he, List.filterMap_cons, List.filterMap_cons, List.filterMap_cons, List.filterMap_cons,
        huse, hres, huses, hresults]
      exact ⟨rfl, rfl⟩
    cases b with
    | toolResult id content isError =>
      simp only [editBlocks, Option.bind_eq_bind, Option.bind_eq_some_iff, Option.pure_def,
        Option.some.injEq, Prod.mk.injEq, Prod.exists] at h
      obtain ⟨content', st₁, -, cs, st₂, hcs, rfl, rfl⟩ := h
      exact hsame hcs rfl rfl rfl
    | text s | image mediaType data | toolUse id name input | thinking s | unknown =>
      simp only [editBlocks, Option.bind_eq_bind, Option.bind_eq_some_iff, Option.pure_def,
        Option.some.injEq, Prod.mk.injEq, Prod.exists] at h
      obtain ⟨cs, st₂, hcs, rfl, rfl⟩ := h
      exact hsame hcs rfl rfl rfl

/-- Editing the contents of results changes no message's shape. -/
theorem editMessages_shape {ms ms' : List Message} {st st' : σ}
    (h : editMessages f st ms = some (ms', st')) : ms'.map shape = ms.map shape := by
  induction ms generalizing ms' st with
  | nil =>
    obtain ⟨rfl, -⟩ : [] = ms' ∧ st = st' := by simpa [editMessages] using h
    rfl
  | cons m ms ih =>
    obtain ⟨role, content⟩ := m
    cases content with
    | text s =>
      simp only [editMessages, Option.bind_eq_bind, Option.bind_eq_some_iff, Option.pure_def,
        Option.some.injEq, Prod.mk.injEq, Prod.exists] at h
      obtain ⟨ns, st₁, hns, rfl, rfl⟩ := h
      rw [List.map_cons, List.map_cons, ih hns]
    | blocks bs =>
      simp only [editMessages, Option.bind_eq_bind, Option.bind_eq_some_iff, Option.pure_def,
        Option.some.injEq, Prod.mk.injEq, Prod.exists] at h
      obtain ⟨cs, st₁, hcs, ns, st₂, hns, rfl, rfl⟩ := h
      obtain ⟨huses, hresults⟩ := editBlocks_ids hcs
      rw [List.map_cons, List.map_cons, ih hns]
      simp only [shape, Message.toolUses, Message.toolResults, MessageContent.blockList, huses,
        hresults]

theorem applyContextGuard_shape {ms ms' : List Message} {budget : ContextBudget} {n : Nat}
    (h : applyContextGuard ms budget = some (ms', n)) : ms'.map shape = ms.map shape := by
  unfold applyContextGuard at h
  dsimp only at h
  split at h
  · simp only [Option.pure_def, Option.some.injEq, Prod.mk.injEq] at h
    rw [← h.1]
  · simp only [Option.bind_eq_bind, Option.bind_eq_some_iff, Option.pure_def,
      Option.some.injEq, Prod.mk.injEq, Prod.exists] at h
    obtain ⟨capped, c, hcapped, compacted, c', hcompacted, rfl, -⟩ := h
    rw [editMessages_shape hcompacted, editMessages_shape hcapped]

variable {systemPrompt : Str} {tools : List ToolDefinition} {contextWindow : Nat}
  {ms ms' : List Message} {stage : RecoveryStage}

theorem truncateResults_shape
    (h : truncateResults systemPrompt tools contextWindow ms = some (ms', stage)) :
    ms'.map shape = ms.map shape := by
  unfold truncateResults at h
  simp only [Option.bind_eq_bind, Option.bind_eq_some_iff, Prod.exists] at h
  obtain ⟨edited, n, hedited, h⟩ := h
  have : edited = ms' := by
    split at h <;> exact (by simpa using h : edited = ms' ∧ _).1
  rw [← this, editMessages_shape hedited]

theorem compactOverflow_proper (hms : Proper (ms.map shape))
    (h : compactOverflow systemPrompt tools contextWindow ms = some (ms', stage)) :
    Proper (ms'.map shape) := by
  unfold compactOverflow at h
  dsimp only at h
  split at h <;> rename_i hremoved
  · rw [truncateResults_shape h]
    exact hms
  · have hcut := hms.drop (n := 4) rfl (by decide) (by rw [List.length_map]; omega)
    rw [List.length_map, List.map_drop.symm] at hcut
    have hcompacted : Proper ((overflowSummary (ms.length - 4) ::
        ms.drop (ms.length - 4)).map shape) := by
      rw [List.map_cons]
      exact hcut.1.cons rfl rfl rfl hcut.2
    split at h
    · obtain ⟨rfl, -⟩ : _ = ms' ∧ _ := by simpa using h
      exact hcompacted
    · rw [truncateResults_shape h]
      exact hcompacted

theorem recoverFromOverflow_proper (hms : Proper (ms.map shape))
    (h : recoverFromOverflow systemPrompt tools contextWindow ms = some (ms', stage)) :
    Proper (ms'.map shape) := by
  unfold recoverFromOverflow at h
  dsimp only at h
  split at h
  · obtain ⟨rfl, -⟩ : ms = ms' ∧ _ := by simpa using h
    exact hms
  · have htrimmed : Proper ((ms.drop (ms.length - 10)).map shape) := by
      rw [List.map_drop, ← List.length_map (f := shape)]
      exact hms.keepLast rfl (by decide)
    split at h
    · split at h
      · obtain ⟨rfl, -⟩ : _ = ms' ∧ _ := by simpa using h
        exact htrimmed
      · exact compactOverflow_proper htrimmed h
    · exact compactOverflow_proper hms h

end Context

section Repaired

/-- A repaired history that ends with the user is fit for a request. -/
theorem repair_proper {l : List Message} (hseated : ∀ m ∈ l, SessionRepair.Seated m)
    (hdistinct : (toolUseIds l).Nodup) (hspoken : ∀ m ∈ validateAndRepair l, m.role ≠ .system)
    (hends : ∃ before m, validateAndRepair l = before ++ [m] ∧ m.role = .user) :
    Proper ((validateAndRepair l).map shape) := by
  have hs := validateAndRepair_seated hseated
  refine ⟨?_, ?_, ?_, ?_⟩
  · rw [List.isChain_map, List.isChain_iff_forall_rel_of_append_cons_cons]
    intro a b pre post he
    refine ⟨?_, fun id hid => ?_⟩
    · have hchain := (validateAndRepair_tidy l).alternates
      rw [List.isChain_iff_forall_rel_of_append_cons_cons] at hchain
      exact hchain he
    · obtain ⟨-, hcount, u, rest, hpost, -, huid⟩ := repair_answered hseated hdistinct he hid
      obtain ⟨rfl, rfl⟩ := List.cons.inj hpost
      rw [he] at hcount
      simp only [toolResultIds_append, toolResultIds_cons, List.count_append] at hcount
      have hpos : 0 < b.toolResults.count id := List.count_pos_iff.mpr huid
      show b.toolResults.count id = 1
      omega
  · intro x hx
    obtain ⟨m, hm, rfl⟩ := List.mem_map.mp hx
    exact ⟨hspoken m hm, (hs m hm).1, (hs m hm).2⟩
  · obtain ⟨before, m, he, hm⟩ := hends
    exact ⟨before.map shape, shape m, by rw [he, List.map_append]; rfl, hm⟩
  · intro x hx
    cases hl : validateAndRepair l with
    | nil =>
      rw [hl] at hx
      cases hx
    | cons m rest =>
      rw [hl] at hx
      obtain rfl : shape m = x := by simpa using hx
      rw [List.eq_nil_iff_forall_not_mem]
      intro id hid
      have hfirst : validateAndRepair l = [] ++ m :: rest := hl
      obtain ⟨before, a, he, -⟩ := repair_preceded hseated hdistinct hfirst hid
      simp at he

end Repaired

end Clawreform.Runtime
