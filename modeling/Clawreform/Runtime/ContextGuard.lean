import Clawreform.Lib.Passes
import Clawreform.Runtime.Truncation

namespace Clawreform.Runtime.ContextGuard

open Clawreform.Lib Clawreform.Lib.Text Clawreform.Lib.Slices Clawreform.Lib.Passes
open Clawreform.Types Clawreform.Runtime.Truncation

section Contents

variable {σ : Type} {f : σ → Str → Option (Str × σ)} {st st' : σ}

def resultText? : ContentBlock → Option Str
  | .toolResult _ content _ => some content
  | _ => none

/-- The contents of the tool results, in order. -/
def resultTexts (messages : List Message) : List Str :=
  messages.flatMap fun m => m.content.blockList.filterMap resultText?

/-- All of a block but the content of a tool result. -/
def frameBlock : ContentBlock → ContentBlock
  | .toolResult id _ isError => .toolResult id [] isError
  | b => b

def frame : Message → Message
  | ⟨role, .text s⟩ => ⟨role, .text s⟩
  | ⟨role, .blocks bs⟩ => ⟨role, .blocks (bs.map frameBlock)⟩

theorem resultLengths_eq (messages : List Message) :
    resultLengths messages = (resultTexts messages).map byteLen := by
  rw [resultLengths, resultTexts, List.map_flatMap]
  refine congrArg (messages.flatMap ·) (funext fun m => ?_)
  rw [List.map_filterMap]
  refine List.filterMap_congr fun b _ => ?_
  cases b <;> rfl

theorem editBlocks_result (id content : Str) (isError : Bool) (bs : List ContentBlock) :
    editBlocks f st (.toolResult id content isError :: bs) =
      (f st content).bind fun p => (editBlocks f p.2 bs).map fun q =>
        (.toolResult id p.1 isError :: q.1, q.2) := by
  rw [editBlocks]
  cases f st content with
  | none => rfl
  | some p =>
    obtain ⟨content', st₁⟩ := p
    show (editBlocks f st₁ bs).bind _ = (editBlocks f st₁ bs).map _
    cases editBlocks f st₁ bs <;> rfl

theorem editBlocks_other {b : ContentBlock} (hb : resultText? b = none) (bs : List ContentBlock) :
    editBlocks f st (b :: bs) = (editBlocks f st bs).map fun p => (b :: p.1, p.2) := by
  cases b with
  | toolResult id content isError => cases hb
  | text s | image mediaType data | toolUse id name input | thinking s | unknown =>
    rw [editBlocks]
    · cases editBlocks f st bs <;> rfl
    · intro id content isError h
      cases h

theorem editMessages_text (role : Role) (s : Str) (ms : List Message) :
    editMessages f st (⟨role, .text s⟩ :: ms) =
      (editMessages f st ms).map fun p => (⟨role, .text s⟩ :: p.1, p.2) := by
  rw [editMessages]
  cases editMessages f st ms <;> rfl

theorem editMessages_blocks (role : Role) (bs : List ContentBlock) (ms : List Message) :
    editMessages f st (⟨role, .blocks bs⟩ :: ms) =
      (editBlocks f st bs).bind fun p => (editMessages f p.2 ms).map fun q =>
        (⟨role, .blocks p.1⟩ :: q.1, q.2) := by
  rw [editMessages]
  cases editBlocks f st bs with
  | none => rfl
  | some p =>
    obtain ⟨bs', st₁⟩ := p
    show (editMessages f st₁ ms).bind _ = (editMessages f st₁ ms).map _
    cases editMessages f st₁ ms <;> rfl

/-- Editing the results of some blocks is a pass over their contents. -/
theorem editBlocks_texts (st : σ) (bs : List ContentBlock) :
    (editBlocks f st bs).map (fun p => (p.1.filterMap resultText?, p.2)) =
      pass f st (bs.filterMap resultText?) := by
  induction bs generalizing st with
  | nil => rfl
  | cons b bs ih =>
    cases hb : resultText? b with
    | none =>
      rw [editBlocks_other hb, Option.map_map, List.filterMap_cons_none hb, ← ih]
      refine congrArg (Option.map · _) (funext fun p => ?_)
      rw [Function.comp_apply, List.filterMap_cons_none hb]
    | some content =>
      cases b with
      | toolResult id content' isError =>
        obtain rfl := Option.some.inj hb
        rw [editBlocks_result, List.filterMap_cons_some hb, pass_cons]
        cases f st content' with
        | none => rfl
        | some p =>
          rw [Option.bind_some, Option.bind_some, ← ih, Option.map_map, Option.map_map]
          rfl
      | text s | image mediaType data | toolUse id name input | thinking s | unknown => cases hb

theorem editMessages_texts (st : σ) (ms : List Message) :
    (editMessages f st ms).map (fun p => (resultTexts p.1, p.2)) = pass f st (resultTexts ms) := by
  induction ms generalizing st with
  | nil => rfl
  | cons m ms ih =>
    obtain ⟨role, content⟩ := m
    cases content with
    | text s =>
      rw [editMessages_text, Option.map_map]
      exact ih st
    | blocks bs =>
      have hcons : ∀ bs ms, resultTexts (⟨role, .blocks bs⟩ :: ms) =
          bs.filterMap resultText? ++ resultTexts ms := fun bs ms => rfl
      rw [editMessages_blocks, hcons, pass_append, ← editBlocks_texts]
      cases editBlocks f st bs with
      | none => rfl
      | some p =>
        rw [Option.bind_some, Option.map_some, Option.bind_some, ← ih, Option.map_map,
          Option.map_map]
        rfl

theorem editBlocks_frame {bs bs' : List ContentBlock} (h : editBlocks f st bs = some (bs', st')) :
    bs'.map frameBlock = bs.map frameBlock := by
  induction bs generalizing bs' st with
  | nil =>
    obtain ⟨rfl, -⟩ := Prod.mk.inj (Option.some.inj h)
    rfl
  | cons b bs ih =>
    cases hb : resultText? b with
    | none =>
      rw [editBlocks_other hb] at h
      obtain ⟨⟨cs, st₁⟩, hcs, he⟩ := Option.map_eq_some_iff.mp h
      obtain ⟨rfl, rfl⟩ := Prod.mk.inj he
      rw [List.map_cons, List.map_cons, ih hcs]
    | some content =>
      cases b with
      | toolResult id content' isError =>
        rw [editBlocks_result] at h
        obtain ⟨p, -, hrest⟩ := Option.bind_eq_some_iff.mp h
        obtain ⟨⟨cs, st₁⟩, hcs, he⟩ := Option.map_eq_some_iff.mp hrest
        obtain ⟨rfl, rfl⟩ := Prod.mk.inj he
        rw [List.map_cons, List.map_cons, ih hcs]
        rfl
      | text s | image mediaType data | toolUse id name input | thinking s | unknown => cases hb

/-- An edit changes nothing but the contents of tool results. -/
theorem editMessages_frame {ms ms' : List Message} (h : editMessages f st ms = some (ms', st')) :
    ms'.map frame = ms.map frame := by
  induction ms generalizing ms' st with
  | nil =>
    obtain ⟨rfl, -⟩ := Prod.mk.inj (Option.some.inj h)
    rfl
  | cons m ms ih =>
    obtain ⟨role, content⟩ := m
    cases content with
    | text s =>
      rw [editMessages_text] at h
      obtain ⟨⟨ns, st₁⟩, hns, he⟩ := Option.map_eq_some_iff.mp h
      obtain ⟨rfl, rfl⟩ := Prod.mk.inj he
      rw [List.map_cons, List.map_cons, ih hns]
    | blocks bs =>
      rw [editMessages_blocks] at h
      obtain ⟨p, hp, hrest⟩ := Option.bind_eq_some_iff.mp h
      obtain ⟨⟨ns, st₁⟩, hns, he⟩ := Option.map_eq_some_iff.mp hrest
      obtain ⟨rfl, rfl⟩ := Prod.mk.inj he
      rw [List.map_cons, List.map_cons, ih hns, frame, frame, editBlocks_frame hp]

theorem editBlocks_self {bs : List ContentBlock}
    (h : ∀ content ∈ bs.filterMap resultText?, f st content = some (content, st)) :
    editBlocks f st bs = some (bs, st) := by
  induction bs with
  | nil => rfl
  | cons b bs ih =>
    cases hb : resultText? b with
    | none =>
      rw [List.filterMap_cons_none hb] at h
      rw [editBlocks_other hb, ih h]
      rfl
    | some content =>
      rw [List.filterMap_cons_some hb, List.forall_mem_cons] at h
      cases b with
      | toolResult id content' isError =>
        obtain rfl := Option.some.inj hb
        rw [editBlocks_result, h.1, Option.bind_some, ih h.2]
        rfl
      | text s | image mediaType data | toolUse id name input | thinking s | unknown => cases hb

/-- An edit that leaves the contents leaves the messages. -/
theorem editMessages_self {ms : List Message}
    (h : ∀ content ∈ resultTexts ms, f st content = some (content, st)) :
    editMessages f st ms = some (ms, st) := by
  induction ms with
  | nil => rfl
  | cons m ms ih =>
    obtain ⟨role, content⟩ := m
    cases content with
    | text s =>
      rw [editMessages_text, ih h]
      rfl
    | blocks bs =>
      have hboth := List.forall_mem_append.mp h
      have hblocks : editBlocks f st bs = some (bs, st) := editBlocks_self hboth.1
      rw [editMessages_blocks, hblocks, Option.bind_some, ih hboth.2]
      rfl

end Contents

section Lengths

variable {content out : Str} {maxChars headroom n : Nat}

/-- The offsets at which a text over the limit is sliced are between characters. -/
def CanCompact (maxChars : Nat) (content : Str) : Prop :=
  byteLen content ≤ maxChars ∨ CompactSlices maxChars content

/-- The length of a text that is compacted when it is over the limit. -/
def compactedLen (maxChars : Nat) (content : Str) : Nat :=
  if byteLen content ≤ maxChars then byteLen content
  else compactBreak maxChars content +
    byteLen (compactedNote (byteLen content) (compactBreak maxChars content))

/-- The length of a result that the second pass reaches, behind the first pass. -/
def reachedLen (singleMax : Nat) (content : Str) : Nat :=
  if byteLen content ≤ 2000 ∨ compactedLen singleMax content ≤ 2000 then
    compactedLen singleMax content
  else compactBreak 2000 content +
    byteLen (compactedNote (compactedLen singleMax content) (compactBreak 2000 content))

/-- As long as the total is over the headroom, with the results in front compacted, a long
result can be sliced. -/
def ReachedSlices (headroom singleMax done : Nat) (contents : List Str) : Prop :=
  ∀ front content back, contents = front ++ content :: back →
    2000 < byteLen content → 2000 < compactedLen singleMax content →
    headroom < done + (front.map (reachedLen singleMax)).sum +
      ((content :: back).map (compactedLen singleMax)).sum →
    CompactSlices 2000 content

/-- The text as it is, or cut at the break with a note. -/
def Compacted (maxChars : Nat) (content out : Str) : Prop :=
  (byteLen content ≤ maxChars ∧ out = content) ∨
    (maxChars < byteLen content ∧ CutAt content (compactBreak maxChars content)
      (compactedNote (byteLen content) (compactBreak maxChars content)) out)

theorem Compacted.byteLen_eq (h : Compacted maxChars content out) :
    byteLen out = compactedLen maxChars content := by
  obtain ⟨hshort, rfl⟩ | ⟨hlong, hcut⟩ := h
  · rw [compactedLen, if_pos hshort]
  · rw [compactedLen, if_neg (Nat.not_le.mpr hlong), hcut.byteLen_eq]

theorem compactBreak_le (maxChars : Nat) (content : Str) :
    compactBreak maxChars content ≤ maxChars - 80 :=
  breakPoint_le (Nat.sub_le _ 100) le_rfl

/-- No text is longer than memory can address. -/
abbrev Fits (content : Str) : Prop := byteLen content < 2 ^ 63

theorem compactedLen_long (h : maxChars < byteLen content) :
    compactedLen maxChars content = compactBreak maxChars content +
      (14 + digits (byteLen content) + 5 + digits (compactBreak maxChars content) + 24) := by
  rw [compactedLen, if_neg (Nat.not_le.mpr h), byteLen_compactedNote]

theorem digits_lt {n k : Nat} (hk : 0 < k) (h : n < 10 ^ k) : digits n ≤ k := (digits_le hk).mpr h

/-- A text that is compacted is what stands in front of the break, and a note with two numbers
of so many digits. -/
theorem compactedLen_le_note {k j : Nat} (hk : 0 < k) (hj : 0 < j)
    (hlong : maxChars < byteLen content) (hlen : byteLen content < 10 ^ k)
    (hshown : maxChars - 80 < 10 ^ j) :
    compactedLen maxChars content ≤ maxChars - 80 + (43 + k + j) := by
  have hbreak := compactBreak_le maxChars content
  have hdigits : digits (byteLen content) ≤ k := digits_lt hk hlen
  have hdigits' : digits (compactBreak maxChars content) ≤ j :=
    digits_lt hj (hbreak.trans_lt hshown)
  rw [compactedLen_long hlong]
  omega

theorem compactedLen_le_of_short (h : byteLen content ≤ 2000) :
    compactedLen maxChars content ≤ 2000 := by
  by_cases hlong : maxChars < byteLen content
  · have hle := compactedLen_le_note (k := 4) (j := 4) (by decide) (by decide) hlong (by omega)
      (by omega)
    omega
  · rw [compactedLen, if_pos (Nat.not_lt.mp hlong)]
    exact h

/-- With room for the note, compacting makes no text longer. -/
theorem compactedLen_le_of_room (hroom : 80 ≤ maxChars) (hfits : Fits content) :
    compactedLen maxChars content ≤ byteLen content := by
  by_cases hlong : maxChars < byteLen content
  · have hle := compactedLen_le_note (k := 19) (j := 19) (by decide) (by decide) hlong (by omega)
      (by omega)
    omega
  · rw [compactedLen, if_pos (Nat.not_lt.mp hlong)]

/-- Without it, what is left is the note alone. -/
theorem compactedLen_le_of_tiny (htiny : maxChars < 80) (hfits : Fits content) :
    compactedLen maxChars content ≤ 2000 := by
  by_cases hlong : maxChars < byteLen content
  · have hle := compactedLen_le_note (k := 19) (j := 1) (by decide) (by decide) hlong (by omega)
      (by omega)
    omega
  · rw [compactedLen, if_pos (Nat.not_lt.mp hlong)]
    omega

theorem compactedLen_lt (hfits : Fits content) : compactedLen maxChars content < 10 ^ 19 := by
  by_cases hlong : maxChars < byteLen content
  · have hle := compactedLen_le_note (k := 19) (j := 19) (by decide) (by decide) hlong (by omega)
      (by omega)
    omega
  · rw [compactedLen, if_pos (Nat.not_lt.mp hlong)]
    omega

theorem cut_le (hlen : n < 10 ^ 19) (content : Str) :
    compactBreak 2000 content + byteLen (compactedNote n (compactBreak 2000 content)) ≤ 2000 := by
  have hbreak := compactBreak_le 2000 content
  have hdigits : digits n ≤ 19 := digits_lt (by decide) hlen
  have hshown : digits (compactBreak 2000 content) ≤ 4 := digits_lt (by decide) (by omega)
  rw [byteLen_compactedNote]
  omega

theorem reachedLen_le (hfits : Fits content) :
    reachedLen maxChars content ≤ compactedLen maxChars content := by
  rw [reachedLen]
  split
  · exact le_rfl
  case isFalse h =>
    rw [not_or, Nat.not_le, Nat.not_le] at h
    exact (cut_le (compactedLen_lt hfits) content).trans h.2.le

/-- A text that was cut far behind the second break is cut there as it was. -/
theorem compact_of_cutAt {n : Nat} {note : Str} (h : CutAt content n note out)
    (hle : maxChars - 80 ≤ n) :
    (CompactSlices maxChars out ↔ CompactSlices maxChars content) ∧
      compactBreak maxChars out = compactBreak maxChars content := by
  obtain ⟨shown, rest, rfl, hn, rfl⟩ := h
  have hhi : maxChars - 80 ≤ byteLen shown := hle.trans hn.ge
  have hlo : maxChars - 80 - 100 ≤ byteLen shown := (Nat.sub_le _ 100).trans hhi
  have hslice : ∀ t, slice (maxChars - 80 - 100) (maxChars - 80) (shown ++ t) =
      slice (maxChars - 80 - 100) (maxChars - 80) shown :=
    slice_append_of_le (Nat.sub_le _ 100) hhi
  constructor
  · rw [CompactSlices, CompactSlices, isSome_splitBytes_append hlo, isSome_splitBytes_append hlo,
      isSome_splitBytes_append hhi, isSome_splitBytes_append hhi]
  · rw [compactBreak, compactBreak, breakPoint, breakPoint, lineBreak, lineBreak, hslice, hslice]

/-- What the first pass leaves of a long text is sliced in the second one as the text
itself. -/
theorem Compacted.compact {singleMax : Nat} (h : Compacted singleMax content out)
    (hfits : Fits content) (hlong : 2000 < byteLen out) :
    (CompactSlices 2000 out ↔ CompactSlices 2000 content) ∧
      compactBreak 2000 out = compactBreak 2000 content := by
  have hlen := h.byteLen_eq
  obtain ⟨-, rfl⟩ | ⟨hover, hcut⟩ := h
  · exact ⟨Iff.rfl, rfl⟩
  · have hbreak := compactBreak_le singleMax content
    have hdigits : digits (byteLen content) ≤ 19 := digits_lt (by decide) (by omega)
    have hshown : digits (compactBreak singleMax content) ≤ 19 := digits_lt (by decide) (by omega)
    rw [compactedLen_long hover] at hlen
    exact compact_of_cutAt hcut (by omega)

end Lengths

section Passes

variable {singleMax headroom done : Nat} {contents outs : List Str}

theorem capResult_cases (singleMax : Nat) (c : Compaction) (content : Str)
    (h : byteLen content ≤ c.totalChars) :
    (¬ CanCompact singleMax content ∧ capResult singleMax c content = none) ∨
      (CanCompact singleMax content ∧ ∃ out c', capResult singleMax c content = some (out, c') ∧
        Compacted singleMax content out ∧ c'.lengths = c.lengths ∧
        c'.totalChars + byteLen content = c.totalChars + byteLen out) := by
  by_cases hshort : byteLen content ≤ singleMax
  · exact .inr ⟨.inl hshort, content, c, if_pos hshort, .inl ⟨hshort, rfl⟩, rfl, rfl⟩
  · have hlong := Nat.not_le.mp hshort
    have hcap : capResult singleMax c content =
        (truncateTo content singleMax).bind fun out => some (out, c.replace content out) :=
      if_neg hshort
    rw [hcap, CanCompact, or_iff_right hshort]
    obtain ⟨hslices, hnone⟩ | ⟨hslices, out, hout, hcut⟩ := truncateTo_cases hlong
    · exact .inl ⟨hslices, by rw [hnone]; rfl⟩
    · refine .inr ⟨hslices, out, c.replace content out, by rw [hout]; rfl, .inr ⟨hlong, hcut⟩,
        rfl, ?_⟩
      show c.totalChars - byteLen content + byteLen out + byteLen content = _
      omega

/-- The first pass caps every result over the maximum, when each can be sliced. -/
theorem pass_capResult (singleMax : Nat) (c : Compaction) (contents : List Str)
    (h : (contents.map byteLen).sum ≤ c.totalChars) :
    (¬ (∀ content ∈ contents, CanCompact singleMax content) ∧
        pass (capResult singleMax) c contents = none) ∨
      ((∀ content ∈ contents, CanCompact singleMax content) ∧ ∃ outs c',
        pass (capResult singleMax) c contents = some (outs, c') ∧
        List.Forall₂ (Compacted singleMax) contents outs ∧ c'.lengths = c.lengths ∧
        c'.totalChars + (contents.map byteLen).sum =
          c.totalChars + (outs.map byteLen).sum) := by
  induction contents generalizing c with
  | nil => exact .inr ⟨List.forall_mem_nil _, [], c, rfl, .nil, rfl, rfl⟩
  | cons content contents ih =>
    rw [List.map_cons, List.sum_cons] at h
    rw [List.forall_mem_cons, pass_cons]
    obtain ⟨hcan, hnone⟩ | ⟨hcan, out, c₁, hout, hcompacted, hlengths, htotal⟩ :=
      capResult_cases singleMax c content (by omega)
    · exact .inl ⟨fun hall => hcan hall.1, by rw [hnone]; rfl⟩
    · rw [hout, Option.bind_some]
      have hrest : (contents.map byteLen).sum ≤ c₁.totalChars := by omega
      obtain ⟨hcans, hnone⟩ | ⟨hcans, outs, c₂, houts, hall, hlengths', htotal'⟩ := ih c₁ hrest
      · exact .inl ⟨fun hall => hcans hall.2, by rw [hnone]; rfl⟩
      · refine .inr ⟨⟨hcan, hcans⟩, out :: outs, c₂, by rw [houts]; rfl, .cons hcompacted hall,
          hlengths'.trans hlengths, ?_⟩
        rw [List.map_cons, List.sum_cons, List.map_cons, List.sum_cons]
        omega

theorem reachedSlices_cons {content : Str} :
    ReachedSlices headroom singleMax done (content :: contents) ↔
      (2000 < byteLen content → 2000 < compactedLen singleMax content →
        headroom < done + ((content :: contents).map (compactedLen singleMax)).sum →
        CompactSlices 2000 content) ∧
      ReachedSlices headroom singleMax (done + reachedLen singleMax content) contents := by
  constructor
  · refine fun h => ⟨fun hlong hlen hover => h [] content contents rfl hlong hlen ?_,
      fun front c back hsplit hlong hlen hover => ?_⟩
    · rwa [List.map_nil, List.sum_nil, Nat.add_zero]
    · refine h (content :: front) c back (by rw [hsplit]; rfl) hlong hlen ?_
      rw [List.map_cons, List.sum_cons]
      omega
  · rintro ⟨hhead, htail⟩ front c back hsplit hlong hlen hover
    cases front with
    | nil =>
      obtain ⟨rfl, rfl⟩ := List.cons.inj hsplit
      refine hhead hlong hlen ?_
      rwa [List.map_nil, List.sum_nil, Nat.add_zero] at hover
    | cons first front =>
      obtain ⟨rfl, rfl⟩ := List.cons.inj hsplit
      refine htail front c back rfl hlong hlen ?_
      rw [List.map_cons, List.sum_cons] at hover
      omega

theorem reachedSlices_nil : ReachedSlices headroom singleMax done [] := by
  intro front c back hsplit
  exact absurd (congrArg List.length hsplit) (by simp)

/-- Within the headroom no result is reached. -/
theorem reachedSlices_of_le (hfits : ∀ content ∈ contents, Fits content)
    (h : done + (contents.map (compactedLen singleMax)).sum ≤ headroom) :
    ReachedSlices headroom singleMax done contents := by
  induction contents generalizing done with
  | nil => exact reachedSlices_nil
  | cons content contents ih =>
    obtain ⟨hfit, hfits⟩ := List.forall_mem_cons.mp hfits
    have hle : reachedLen singleMax content ≤ _ := reachedLen_le hfit
    refine reachedSlices_cons.mpr ⟨fun _ _ hover => absurd h (Nat.not_le.mpr hover),
      ih hfits ?_⟩
    rw [List.map_cons, List.sum_cons] at h
    omega

theorem sum_compacted (h : List.Forall₂ (Compacted singleMax) contents outs) :
    (outs.map byteLen).sum = (contents.map (compactedLen singleMax)).sum := by
  induction h with
  | nil => rfl
  | cons hhead _ ih =>
    rw [List.map_cons, List.map_cons, List.sum_cons, List.sum_cons, hhead.byteLen_eq, ih]

theorem reachedLen_short {content : Str}
    (h : byteLen content ≤ 2000 ∨ compactedLen singleMax content ≤ 2000) :
    reachedLen singleMax content = compactedLen singleMax content ∧
      compactedLen singleMax content ≤ 2000 :=
  ⟨if_pos h, h.elim compactedLen_le_of_short id⟩

theorem reachedLen_cut {content : Str} (hfits : Fits content) (hlong : 2000 < byteLen content)
    (hlen : 2000 < compactedLen singleMax content) : reachedLen singleMax content ≤ 2000 := by
  have hshort : ¬ (byteLen content ≤ 2000 ∨ compactedLen singleMax content ≤ 2000) := by
    rw [not_or, Nat.not_le, Nat.not_le]
    exact ⟨hlong, hlen⟩
  rw [reachedLen, if_neg hshort]
  exact cut_le (compactedLen_lt hfits) content

/-- One result of the second pass: it is left as it is, or reached and cut. -/
theorem compactResult_cases (headroom : Nat) {c : Compaction} {content out : Str}
    {lengths : List Nat}
    (hlengths : c.lengths = byteLen content :: lengths) (hfits : Fits content)
    (hcompacted : Compacted singleMax content out) (htotal : byteLen out ≤ c.totalChars) :
    (c.totalChars ≤ headroom ∧ ∃ c', compactResult headroom c out = some (out, c') ∧
        c'.lengths = lengths ∧ c'.totalChars = c.totalChars) ∨
      (headroom < c.totalChars ∧ (byteLen content ≤ 2000 ∨ compactedLen singleMax content ≤ 2000) ∧
        ∃ c', compactResult headroom c out = some (out, c') ∧
          c'.lengths = lengths ∧ c'.totalChars = c.totalChars) ∨
      (headroom < c.totalChars ∧ 2000 < byteLen content ∧ 2000 < compactedLen singleMax content ∧
        ((¬ CompactSlices 2000 content ∧ compactResult headroom c out = none) ∨
          (CompactSlices 2000 content ∧ ∃ out' c', compactResult headroom c out = some (out', c') ∧
            byteLen out' = reachedLen singleMax content ∧ c'.lengths = lengths ∧
            c'.totalChars + byteLen out = c.totalChars + byteLen out'))) := by
  have hlen := hcompacted.byteLen_eq
  have hhead : c.lengths.headD 0 = byteLen content := by rw [hlengths]; rfl
  have htail : c.lengths.tail = lengths := by rw [hlengths]; rfl
  have hleave : (c.totalChars ≤ headroom ∨ byteLen content ≤ 2000 ∨
      compactedLen singleMax content ≤ 2000) →
      compactResult headroom c out = some (out, { c with lengths := c.lengths.tail }) := by
    intro h
    rw [compactResult, hhead, hlen]
    exact if_pos h
  by_cases hover : c.totalChars ≤ headroom
  · exact .inl ⟨hover, _, hleave (.inl hover), htail, rfl⟩
  · by_cases hshort : byteLen content ≤ 2000 ∨ compactedLen singleMax content ≤ 2000
    · exact .inr (.inl ⟨Nat.not_le.mp hover, hshort, _, hleave (.inr hshort), htail, rfl⟩)
    · have hreached : reachedLen singleMax content = compactBreak 2000 content +
          byteLen (compactedNote (compactedLen singleMax content) (compactBreak 2000 content)) :=
        if_neg hshort
      have hcut : compactResult headroom c out = (truncateTo out 2000).bind fun out' =>
          some (out', ({ c with lengths := c.lengths.tail } : Compaction).replace out out') := by
        rw [compactResult, hhead, hlen]
        exact if_neg fun h => h.elim hover hshort
      rw [not_or, Nat.not_le, Nat.not_le] at hshort
      refine .inr (.inr ⟨Nat.not_le.mp hover, hshort.1, hshort.2, ?_⟩)
      have hlong : 2000 < byteLen out := by rw [hlen]; exact hshort.2
      obtain ⟨hslices, hbreak⟩ := hcompacted.compact hfits hlong
      rw [hcut, ← hslices]
      obtain ⟨hcannot, hnone⟩ | ⟨hcan, out', hout, hcutAt⟩ := truncateTo_cases hlong
      · exact .inl ⟨hcannot, by rw [hnone]; rfl⟩
      · refine .inr ⟨hcan, out', _, by rw [hout]; rfl, ?_, htail, ?_⟩
        · rw [hcutAt.byteLen_eq, hreached, hbreak, hlen]
        · show c.totalChars - byteLen out + byteLen out' + byteLen out = _
          omega

/-- What the second pass makes of results: it slices them where it is over the headroom, and the
total falls to the headroom, or every result is short in the end. -/
def PassCompacts (headroom singleMax done : Nat) (contents outs : List Str) (c : Compaction) :
    Prop :=
  (¬ ReachedSlices headroom singleMax done contents ∧ pass (compactResult headroom) c outs = none) ∨
    (ReachedSlices headroom singleMax done contents ∧ ∃ outs' c',
      pass (compactResult headroom) c outs = some (outs', c') ∧
      (outs'.map byteLen).sum ≤ (outs.map byteLen).sum ∧
      (done + (outs'.map byteLen).sum ≤ headroom ∨ ∀ out ∈ outs', byteLen out ≤ 2000))

/-- A result that is short once it has been reached, in front of the others. -/
theorem passCompacts_cons {content out out' : Str} {c c' : Compaction}
    (hslices : 2000 < byteLen content → 2000 < compactedLen singleMax content →
      CompactSlices 2000 content)
    (hout : compactResult headroom c out = some (out', c'))
    (hreached : byteLen out' = reachedLen singleMax content) (hle : byteLen out' ≤ byteLen out)
    (hshort : byteLen out' ≤ 2000)
    (hrest : PassCompacts headroom singleMax (done + byteLen out') contents outs c') :
    PassCompacts headroom singleMax done (content :: contents) (out :: outs) c := by
  rw [PassCompacts, pass_cons, reachedSlices_cons, hout, Option.bind_some, ← hreached]
  obtain ⟨hcannot, hnone⟩ | ⟨hcan, outs', c₂, houts, hsum, hend⟩ := hrest
  · exact .inl ⟨fun hboth => hcannot hboth.2, by rw [hnone]; rfl⟩
  · refine .inr ⟨⟨fun hlong hlong' _ => hslices hlong hlong', hcan⟩, out' :: outs', c₂,
      by rw [houts]; rfl, ?_, ?_⟩
    · rw [List.map_cons, List.sum_cons, List.map_cons, List.sum_cons]
      omega
    · rw [List.map_cons, List.sum_cons, List.forall_mem_cons, ← Nat.add_assoc]
      exact hend.imp_right fun hall => ⟨hshort, hall⟩

/-- The second pass: the total falls to the headroom, or every result is short in the end. -/
theorem pass_compactResult (headroom done : Nat)
    (h : List.Forall₂ (Compacted singleMax) contents outs)
    (hfits : ∀ content ∈ contents, Fits content) (c : Compaction)
    (hlengths : c.lengths = contents.map byteLen)
    (htotal : c.totalChars = done + (outs.map byteLen).sum) :
    PassCompacts headroom singleMax done contents outs c := by
  induction h generalizing c done with
  | nil =>
    exact .inr ⟨reachedSlices_nil, [], c, rfl, le_rfl, .inr (List.forall_mem_nil _)⟩
  | @cons content out contents outs hcompacted htail ih =>
    obtain ⟨hfit, hrest⟩ := List.forall_mem_cons.mp hfits
    have hlen := hcompacted.byteLen_eq
    have hsum := sum_compacted htail
    have hreached : reachedLen singleMax content ≤ compactedLen singleMax content :=
      reachedLen_le hfit
    rw [List.map_cons, List.sum_cons] at htotal
    obtain ⟨hover, c', hout, hlengths', htotal'⟩ | ⟨hover, hshort, c', hout, hlengths', htotal'⟩ |
        ⟨hover, hlong, hlong', ⟨hcannot, hnone⟩ |
          ⟨hcan, out', c', hout, hlen', hlengths', htotal'⟩⟩ :=
      compactResult_cases headroom hlengths hfit hcompacted (by omega)
    -- within the headroom all that follows is left as it is
    · have hslices : ReachedSlices headroom singleMax (done + reachedLen singleMax content)
          contents := reachedSlices_of_le hrest (by omega)
      rw [PassCompacts, pass_cons, reachedSlices_cons, hout, Option.bind_some]
      obtain ⟨hcannot, -⟩ | ⟨-, outs', c₂, houts, hle, -⟩ := ih (done + byteLen out) hrest c'
        hlengths' (by omega)
      · exact absurd (reachedSlices_of_le hrest (by omega)) hcannot
      · refine .inr ⟨⟨fun _ _ hhead => ?_, hslices⟩, out :: outs', c₂, by rw [houts]; rfl, ?_,
          .inl ?_⟩
        · rw [List.map_cons, List.sum_cons] at hhead
          omega
        · rw [List.map_cons, List.sum_cons, List.map_cons, List.sum_cons]
          omega
        · rw [List.map_cons, List.sum_cons]
          omega
    · obtain ⟨hsame, hle⟩ := reachedLen_short hshort
      refine passCompacts_cons (fun hlong hlong' => ?_) hout (hlen.trans hsame.symm) le_rfl
        (hlen.trans_le hle) (ih _ hrest c' hlengths' (by omega))
      omega
    · rw [PassCompacts, pass_cons, reachedSlices_cons, hnone]
      refine .inl ⟨fun hboth => hcannot (hboth.1 hlong hlong' ?_), rfl⟩
      rw [List.map_cons, List.sum_cons]
      omega
    · exact passCompacts_cons (fun _ _ => hcan) hout hlen' (by omega)
        (hlen'.trans_le (reachedLen_cut hfit hlong hlong')) (ih _ hrest c' hlengths' (by omega))

end Passes

section Guard

variable {σ : Type} {f : σ → Str → Option (Str × σ)} {st st' : σ}
  {messages messages' : List Message} {budget : ContextBudget} {outs : List Str}

/-- What the guard promises of the messages it leaves. -/
structure Guarded (budget : ContextBudget) (messages messages' : List Message) : Prop where
  total_le : (resultLengths messages').sum ≤ (resultLengths messages).sum
  bounded : (resultLengths messages').sum ≤ budget.totalToolHeadroomChars ∨
    ∀ len ∈ resultLengths messages', len ≤ 2000
  frame : messages'.map frame = messages.map frame

theorem editMessages_none (h : pass f st (resultTexts messages) = none) :
    editMessages f st messages = none := by
  rw [← editMessages_texts] at h
  exact Option.map_eq_none_iff.mp h

theorem editMessages_some (h : pass f st (resultTexts messages) = some (outs, st')) :
    ∃ messages', editMessages f st messages = some (messages', st') ∧
      resultTexts messages' = outs ∧ messages'.map frame = messages.map frame := by
  rw [← editMessages_texts] at h
  obtain ⟨⟨messages', st₁⟩, hedit, he⟩ := Option.map_eq_some_iff.mp h
  obtain ⟨rfl, rfl⟩ := Prod.mk.inj he
  exact ⟨messages', hedit, rfl, editMessages_frame hedit⟩

theorem applyContextGuard_over (h : budget.totalToolHeadroomChars < (resultLengths messages).sum) :
    applyContextGuard messages budget =
      (editMessages (capResult budget.singleResultMax)
        ⟨(resultLengths messages).sum, 0, resultLengths messages⟩ messages).bind fun p =>
        (editMessages (compactResult budget.totalToolHeadroomChars) p.2 p.1).map fun q =>
          (q.1, q.2.compacted) := by
  rw [applyContextGuard]
  refine (if_neg (Nat.not_le.mpr h)).trans ?_
  cases editMessages (capResult budget.singleResultMax)
    ⟨(resultLengths messages).sum, 0, resultLengths messages⟩ messages with
  | none => rfl
  | some p =>
    obtain ⟨capped, c⟩ := p
    rw [Option.bind_some, Option.map_eq_bind]
    rfl

/-- Short results are left as they are in the second pass. -/
theorem pass_compactResult_short (headroom : Nat) (h : ∀ out ∈ outs, byteLen out ≤ 2000)
    (c : Compaction) : ∃ c', pass (compactResult headroom) c outs = some (outs, c') :=
  ⟨_, pass_of_forall (fun (c : Compaction) _ => { c with lengths := c.lengths.tail })
    (fun out hout _ => if_pos (.inr (.inr (h out hout)))) c⟩

theorem sum_compactedLen_le {maxChars : Nat} {contents : List Str} (hroom : 80 ≤ maxChars)
    (hfits : ∀ content ∈ contents, Fits content) :
    (contents.map (compactedLen maxChars)).sum ≤ (contents.map byteLen).sum := by
  induction contents with
  | nil => exact le_rfl
  | cons content contents ih =>
    obtain ⟨hfit, hrest⟩ := List.forall_mem_cons.mp hfits
    rw [List.map_cons, List.map_cons, List.sum_cons, List.sum_cons]
    exact Nat.add_le_add (compactedLen_le_of_room hroom hfit) (ih hrest)

/-- When the first pass has only the notes to leave, the second one has nothing to do. -/
theorem short_of_tiny {maxChars : Nat} {contents : List Str} (htiny : maxChars < 80)
    (hfits : ∀ content ∈ contents, Fits content)
    (h : List.Forall₂ (Compacted maxChars) contents outs) : ∀ out ∈ outs, byteLen out ≤ 2000 := by
  induction h with
  | nil => exact List.forall_mem_nil _
  | cons hhead _ ih =>
    obtain ⟨hfit, hrest⟩ := List.forall_mem_cons.mp hfits
    refine List.forall_mem_cons.mpr ⟨?_, ih hrest⟩
    rw [hhead.byteLen_eq]
    exact compactedLen_le_of_tiny htiny hfit

/-- The guard keeps its promise exactly when the total is within the headroom, or no result
is sliced inside a character and the notes take no more room than the results capped for
them. -/
theorem applyContextGuard_guards_iff (budget : ContextBudget)
    (hfits : ∀ content ∈ resultTexts messages, Fits content) :
    (∃ messages' n, applyContextGuard messages budget = some (messages', n) ∧
      Guarded budget messages messages') ↔
    (resultLengths messages).sum ≤ budget.totalToolHeadroomChars ∨
      ((∀ content ∈ resultTexts messages, CanCompact budget.singleResultMax content) ∧
        ReachedSlices budget.totalToolHeadroomChars budget.singleResultMax 0
          (resultTexts messages) ∧
        ((resultTexts messages).map (compactedLen budget.singleResultMax)).sum ≤
          (resultLengths messages).sum) := by
  by_cases hover : (resultLengths messages).sum ≤ budget.totalToolHeadroomChars
  · have hself : applyContextGuard messages budget = some (messages, 0) := if_pos hover
    exact iff_of_true ⟨messages, 0, hself, le_rfl, .inl hover, rfl⟩ (.inl hover)
  · rw [or_iff_right hover, applyContextGuard_over (Nat.not_le.mp hover)]
    have hlengths := resultLengths_eq messages
    obtain ⟨hcannot, hnone⟩ | ⟨hcan, outs, c, houts, hcompacted, hkept, htotal⟩ :=
      pass_capResult budget.singleResultMax
        ⟨(resultLengths messages).sum, 0, resultLengths messages⟩ (resultTexts messages)
        (by rw [hlengths])
    · rw [editMessages_none hnone, Option.bind_none]
      refine iff_of_false ?_ fun hall => hcannot hall.1
      rintro ⟨messages', n, hout, -⟩
      cases hout
    · obtain ⟨capped, hcapped, rfl, hframe⟩ := editMessages_some houts
      have hsum := sum_compacted hcompacted
      rw [hcapped, Option.bind_some, ← hsum, and_iff_right hcan]
      obtain ⟨hcannot, hnone⟩ | ⟨hreach, outs', c', houts', hle, hend⟩ :=
        pass_compactResult budget.totalToolHeadroomChars 0 hcompacted hfits c
          (by rw [hkept, hlengths])
          (by rw [← hlengths] at htotal; dsimp only at htotal; omega)
      · rw [editMessages_none hnone, Option.map_none]
        refine iff_of_false ?_ fun hall => hcannot hall.1
        rintro ⟨messages', n, hout, -⟩
        cases hout
      · obtain ⟨final, hfinal, rfl, hframe'⟩ := editMessages_some houts'
        rw [hfinal, Option.map_some, and_iff_right hreach]
        constructor
        · rintro ⟨messages', n, hout, hguarded⟩
          obtain ⟨rfl, -⟩ := Prod.mk.inj (Option.some.inj hout)
          by_cases htiny : budget.singleResultMax < 80
          · obtain ⟨c₂, hsame⟩ := pass_compactResult_short budget.totalToolHeadroomChars
              (short_of_tiny htiny hfits hcompacted) c
            rw [hsame] at houts'
            obtain ⟨hsame, -⟩ := Prod.mk.inj (Option.some.inj houts')
            rw [hsame, ← resultLengths_eq]
            exact hguarded.total_le
          · rw [hsum, hlengths]
            exact sum_compactedLen_le (Nat.not_lt.mp htiny) hfits
        · intro hroom
          refine ⟨final, _, rfl, ?_, ?_, hframe'.trans hframe⟩
          · rw [resultLengths_eq final]
            exact hle.trans hroom
          · rw [resultLengths_eq, List.forall_mem_map]
            rwa [Nat.zero_add] at hend

/-- A message with one tool result. -/
def oneResult (content : Str) : List Message :=
  [⟨.user, .blocks [.toolResult ['t'] content false]⟩]

theorem applyContextGuard_guards_line :
    ∃ messages' n,
      applyContextGuard (oneResult (List.replicate 160 'x')) ⟨100⟩ = some (messages', n) ∧
        Guarded ⟨100⟩ (oneResult (List.replicate 160 'x')) messages' := by
  have hfits : ∀ content ∈ resultTexts (oneResult (List.replicate 160 'x')), Fits content :=
    List.forall_mem_singleton.mpr (by decide +kernel)
  refine (applyContextGuard_guards_iff ⟨100⟩ hfits).mpr (.inr ⟨?_, ?_, by decide +kernel⟩)
  · exact List.forall_mem_singleton.mpr (.inr ⟨by decide +kernel, by decide +kernel⟩)
  · refine reachedSlices_cons.mpr ⟨fun hlong => absurd hlong (by decide +kernel), ?_⟩
    exact reachedSlices_nil

/-- The result is over the maximum of 1000 bytes, and the byte 920 is inside a character. -/
theorem applyContextGuard_inside_character :
    ¬ ∀ (messages : List Message) (budget : ContextBudget), ∃ messages' n,
      applyContextGuard messages budget = some (messages', n) ∧
        Guarded budget messages messages' := by
  intro h
  have hnone : applyContextGuard (oneResult ('a' :: List.replicate 800 'é')) ⟨1000⟩ = none := by
    decide +kernel
  obtain ⟨messages', n, hsome, -⟩ := h (oneResult ('a' :: List.replicate 800 'é')) ⟨1000⟩
  rw [hnone] at hsome
  cases hsome

end Guard

end Clawreform.Runtime.ContextGuard
