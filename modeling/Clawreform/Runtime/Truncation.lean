import Clawreform.Lib.Slices
import Clawreform.Runtime.Context

namespace Clawreform.Runtime.Truncation

open Clawreform.Lib Clawreform.Lib.Text Clawreform.Lib.Slices

variable {s content out note : Str} {lo hi n fallback : Nat}

section Breaks

/-- The offset of the last line end between two byte offsets. -/
def lineBreak (lo hi : Nat) (s : Str) : Option Nat :=
  (slice lo hi s).bind fun p => (beforeLast '\n' p.2).map fun line => lo + byteLen line

def breakPoint (lo hi fallback : Nat) (s : Str) : Nat := (lineBreak lo hi s).getD fallback

/-- The text is cut at an offset, and a note put in place of the rest. -/
def CutAt (content : Str) (n : Nat) (note out : Str) : Prop :=
  ∃ shown rest, content = shown ++ rest ∧ byteLen shown = n ∧ out = shown ++ note

theorem CutAt.byteLen_eq (h : CutAt content n note out) : byteLen out = n + byteLen note := by
  obtain ⟨shown, rest, -, hn, rfl⟩ := h
  rw [byteLen_append, hn]

theorem beforeLast_last {d : Char} {a b : Str} (hb : d ∉ b) :
    beforeLast d (a ++ d :: b) = some a := by
  have hdrop : (a ++ d :: b).reverse.dropWhile (· ≠ d) = d :: a.reverse := by
    rw [List.reverse_append, List.reverse_cons, List.append_assoc, List.dropWhile_append_of_pos]
    · simp
    · intro c hc
      have hne : c ≠ d := fun he => hb (he ▸ List.mem_reverse.mp hc)
      simpa using hne
  rw [beforeLast, if_pos (by simp), hdrop, List.tail_cons, List.reverse_reverse]

theorem beforeLast_prefix {d : Char} {line : Str} (h : beforeLast d s = some line) :
    line ++ [d] <+: s := by
  by_cases hd : d ∈ s
  · obtain ⟨a, b, rfl, hb⟩ := exists_last hd
    rw [beforeLast_last hb] at h
    obtain rfl := Option.some.inj h
    exact ⟨b, by simp⟩
  · rw [beforeLast, if_neg hd] at h
    cases h

theorem lineBreak_of_slice {front window : Str} (h : slice lo hi s = some (front, window)) :
    lineBreak lo hi s = (beforeLast '\n' window).map fun line => lo + byteLen line := by
  rw [lineBreak, h, Option.bind_some]

/-- What the code shows of the text, for the two slices it looks at. -/
theorem cutAt_line {front window line : Str} (hle : lo ≤ hi)
    (h : slice lo hi s = some (front, window)) (hline : beforeLast '\n' window = some line)
    (fallback : Nat) (note : Str) :
    CutAt s (breakPoint lo hi fallback s) note (front ++ line ++ note) := by
  obtain ⟨back, rfl, hfront, -⟩ := slice_some hle h
  obtain ⟨tail, rfl⟩ := beforeLast_prefix hline
  refine ⟨front ++ line, '\n' :: tail ++ back, by simp, ?_, rfl⟩
  rw [breakPoint, lineBreak_of_slice h, hline, byteLen_append, hfront]
  rfl

theorem lineBreak_lt (h : n ∈ lineBreak lo hi s) (hle : lo ≤ hi) : lo ≤ n ∧ n < hi := by
  rw [lineBreak, Option.mem_def, Option.bind_eq_some_iff] at h
  obtain ⟨⟨front, window⟩, hslice, hline⟩ := h
  obtain ⟨line, hbefore, rfl⟩ := Option.map_eq_some_iff.mp hline
  obtain ⟨back, rfl, hfront, hwindow⟩ := slice_some hle hslice
  obtain ⟨rest, rfl⟩ := beforeLast_prefix hbefore
  have hone : byteLen ['\n'] = 1 := rfl
  rw [byteLen_append, byteLen_append, byteLen_append, hone] at hwindow
  omega

theorem breakPoint_le (hle : lo ≤ hi) (hfallback : fallback ≤ hi) :
    breakPoint lo hi fallback s ≤ hi := by
  rw [breakPoint]
  cases h : lineBreak lo hi s with
  | none => exact hfallback
  | some n => exact (lineBreak_lt h hle).2.le

end Breaks

section Prefixes

variable {a : Str}

theorem isSome_splitBytes_append (h : n ≤ byteLen a) (t : Str) :
    (splitBytes n (a ++ t)).isSome ↔ (splitBytes n a).isSome := by
  rw [isSome_splitBytes_iff, isSome_splitBytes_iff]
  constructor
  · rintro ⟨x, y, he, rfl⟩
    obtain ⟨z, rfl⟩ := prefix_of_byteLen_le (he ▸ List.prefix_append x y)
      (List.prefix_append a t) h
    exact ⟨x, z, rfl, rfl⟩
  · rintro ⟨x, y, rfl, hn⟩
    exact ⟨x, y ++ t, List.append_assoc x y t, hn⟩

/-- A slice does not depend on what comes behind it. -/
theorem slice_append_of_le (hle : lo ≤ hi) (h : hi ≤ byteLen a) (t : Str) :
    slice lo hi (a ++ t) = slice lo hi a := by
  cases ha : slice lo hi a with
  | some p =>
    obtain ⟨front, mid⟩ := p
    obtain ⟨back, rfl, rfl, rfl⟩ := slice_some hle ha
    have hlen : byteLen (front ++ mid) - byteLen front = byteLen mid := by
      rw [byteLen_append, Nat.add_sub_cancel_left]
    rw [slice, List.append_assoc, List.append_assoc, splitBytes_append, Option.bind_some, hlen,
      splitBytes_append]
    rfl
  | none =>
    have hnone : ¬ (slice lo hi (a ++ t)).isSome := by
      rw [isSome_slice_iff hle, isSome_splitBytes_append (hle.trans h),
        isSome_splitBytes_append h, ← isSome_slice_iff hle, ha]
      exact Bool.false_ne_true
    exact Option.not_isSome_iff_eq_none.mp hnone

end Prefixes

section Notes

def digits (n : Nat) : Nat := (showNat n).length

theorem byteLen_eq_length (h : ∀ c ∈ s, c.utf8Size = 1) : byteLen s = s.length := by
  induction s with
  | nil => rfl
  | cons c s ih =>
    obtain ⟨hc, hs⟩ := List.forall_mem_cons.mp h
    rw [byteLen_cons, hc, ih hs, List.length_cons, Nat.add_comm]

theorem byteLen_showNat (n : Nat) : byteLen (showNat n) = digits n := by
  refine byteLen_eq_length fun c hc => ?_
  have hd : c.isDigit := Nat.isDigit_of_mem_toDigits (by decide) (by decide) hc
  rw [Char.isDigit, Bool.and_eq_true, decide_eq_true_iff, decide_eq_true_iff] at hd
  exact Char.utf8Size_eq_one_iff.mpr (UInt32.le_trans hd.2 (by decide))

theorem digits_le {k : Nat} (hk : 0 < k) : digits n ≤ k ↔ n < 10 ^ k :=
  Nat.length_toDigits_le_iff (by decide) hk

/-- The note behind a result that was truncated for the budget. -/
def truncatedNote (len shown tokens : Nat) : Str :=
  "\n\n[TRUNCATED: result was ".toList ++ showNat len ++ " chars, showing first ".toList ++
    showNat shown ++ " (budget: 30% of ".toList ++ showNat (tokens / 1000) ++
    "K context window)]".toList

def compactedNote (len shown : Nat) : Str :=
  "\n\n[COMPACTED: ".toList ++ showNat len ++ " → ".toList ++ showNat shown ++
    " chars by context guard]".toList

def overflowNote (len : Nat) : Str :=
  "\n\n[OVERFLOW RECOVERY: truncated from ".toList ++ showNat len ++ " to 1920 chars]".toList

theorem byteLen_append_eq {a b : Str} {m : Nat} (ha : byteLen a = m) (hb : byteLen b = n) :
    byteLen (a ++ b) = m + n := by
  rw [byteLen_append, ha, hb]

theorem byteLen_compactedNote (len shown : Nat) :
    byteLen (compactedNote len shown) = 14 + digits len + 5 + digits shown + 24 := by
  have hfirst : byteLen "\n\n[COMPACTED: ".toList = 14 := by decide
  have hsecond : byteLen " → ".toList = 5 := by decide
  have hlast : byteLen " chars by context guard]".toList = 24 := by decide
  have hlen := byteLen_append_eq hfirst (byteLen_showNat len)
  have hshown := byteLen_append_eq (byteLen_append_eq hlen hsecond) (byteLen_showNat shown)
  exact byteLen_append_eq hshown hlast

theorem byteLen_overflowNote (len : Nat) : byteLen (overflowNote len) = 37 + digits len + 15 := by
  have hfirst : byteLen "\n\n[OVERFLOW RECOVERY: truncated from ".toList = 37 := by decide
  have hlast : byteLen " to 1920 chars]".toList = 15 := by decide
  exact byteLen_append_eq (byteLen_append_eq hfirst (byteLen_showNat len)) hlast

end Notes

section Functions

variable {budget : ContextBudget} {maxChars : Nat}

/-- The offset at which a result over the cap is cut. -/
def dynamicBreak (cap : Nat) (content : Str) : Nat :=
  breakPoint (cap - 200) cap (cap - 100) content

/-- The cut of a result over the cap slices at no offset inside a character. -/
def DynamicSlices (cap : Nat) (content : Str) : Prop :=
  (splitBytes (cap - 200) content).isSome ∧ (splitBytes cap content).isSome ∧
    (splitBytes (dynamicBreak cap content) content).isSome

def compactBreak (maxChars : Nat) (content : Str) : Nat :=
  breakPoint (maxChars - 80 - 100) (maxChars - 80) (maxChars - 80) content

def CompactSlices (maxChars : Nat) (content : Str) : Prop :=
  (splitBytes (maxChars - 80 - 100) content).isSome ∧ (splitBytes (maxChars - 80) content).isSome

theorem append_three (x a b c : Str) : x ++ a ++ b ++ c = x ++ (a ++ b ++ c) := by
  simp only [List.append_assoc]

theorem append_five (x a b c d e : Str) :
    x ++ a ++ b ++ c ++ d ++ e = x ++ (a ++ b ++ c ++ d ++ e) := by
  simp only [List.append_assoc]

theorem append_seven (x a b c d e f g : Str) :
    x ++ a ++ b ++ c ++ d ++ e ++ f ++ g = x ++ (a ++ b ++ c ++ d ++ e ++ f ++ g) := by
  simp only [List.append_assoc]

theorem truncateToolResultDynamic_short (h : byteLen content ≤ budget.perResultCap) :
    truncateToolResultDynamic content budget = some content := by
  rw [truncateToolResultDynamic]
  exact if_pos h

theorem truncateToolResultDynamic_long (h : budget.perResultCap < byteLen content) :
    truncateToolResultDynamic content budget =
      (slice (budget.perResultCap - 200) budget.perResultCap content).bind fun p =>
        (match beforeLast '\n' p.2 with
          | some line => some (p.1 ++ line)
          | none => (splitBytes (budget.perResultCap - 100) content).map Prod.fst).map fun shown =>
          shown ++ truncatedNote (byteLen content) (byteLen shown) budget.contextWindowTokens := by
  rw [truncateToolResultDynamic]
  refine (if_neg (Nat.not_le.mpr h)).trans ?_
  refine congrArg _ (funext fun p => ?_)
  obtain ⟨front, window⟩ := p
  dsimp only
  cases beforeLast '\n' window with
  | some line => exact congrArg some (append_seven _ _ _ _ _ _ _ _)
  | none =>
    cases splitBytes (budget.perResultCap - 100) content with
    | none => rfl
    | some q => exact congrArg some (append_seven _ _ _ _ _ _ _ _)

theorem truncateTo_short (h : byteLen content ≤ maxChars) :
    truncateTo content maxChars = some content := by
  rw [truncateTo]
  exact if_pos h

theorem truncateTo_long (h : maxChars < byteLen content) :
    truncateTo content maxChars =
      (slice (maxChars - 80 - 100) (maxChars - 80) content).map fun p =>
        let shown := match beforeLast '\n' p.2 with
          | some line => p.1 ++ line
          | none => p.1 ++ p.2
        shown ++ compactedNote (byteLen content) (byteLen shown) := by
  rw [truncateTo]
  refine (if_neg (Nat.not_le.mpr h)).trans ?_
  generalize maxChars - 80 = keep
  rw [Option.map_eq_bind]
  refine congrArg (slice (keep - 100) keep content).bind (funext fun p => ?_)
  obtain ⟨front, window⟩ := p
  exact congrArg some (append_five _ _ _ _ _ _)

theorem CutAt.splits (h : CutAt content n note out) : (splitBytes n content).isSome := by
  obtain ⟨shown, rest, hs, hn, -⟩ := h
  exact isSome_splitBytes_iff.mpr ⟨shown, rest, hs, hn⟩

theorem breakPoint_eq {front window : Str} (h : slice lo hi s = some (front, window))
    (hline : beforeLast '\n' window = none) : breakPoint lo hi fallback s = fallback := by
  rw [breakPoint, lineBreak_of_slice h, hline]
  rfl

/-- A result over the cap is cut at the break when no slice panics. -/
theorem truncateToolResultDynamic_cases (h : budget.perResultCap < byteLen content) :
    (¬ DynamicSlices budget.perResultCap content ∧
        truncateToolResultDynamic content budget = none) ∨
      (DynamicSlices budget.perResultCap content ∧ ∃ out,
        truncateToolResultDynamic content budget = some out ∧
        CutAt content (dynamicBreak budget.perResultCap content)
          (truncatedNote (byteLen content) (dynamicBreak budget.perResultCap content)
            budget.contextWindowTokens) out) := by
  rw [truncateToolResultDynamic_long h]
  generalize budget.perResultCap = cap
  have hle : cap - 200 ≤ cap := Nat.sub_le cap 200
  cases hslice : slice (cap - 200) cap content with
  | none =>
    refine .inl ⟨fun hs => ?_, rfl⟩
    have := (isSome_slice_iff hle).mpr ⟨hs.1, hs.2.1⟩
    rw [hslice] at this
    cases this
  | some p =>
    obtain ⟨front, window⟩ := p
    obtain ⟨hlo, hhi⟩ := (isSome_slice_iff hle).mp (Option.isSome_iff_exists.mpr ⟨_, hslice⟩)
    rw [Option.bind_some]
    cases hline : beforeLast '\n' window with
    | some line =>
      have hcut := cutAt_line hle hslice hline (cap - 100)
      have hlen := (hcut []).byteLen_eq
      rw [List.append_nil, byteLen_nil, Nat.add_zero] at hlen
      refine .inr ⟨⟨hlo, hhi, (hcut []).splits⟩, _, rfl, ?_⟩
      dsimp only
      rw [hlen]
      exact hcut _
    | none =>
      have hbreak : dynamicBreak cap content = cap - 100 := breakPoint_eq hslice hline
      cases hsplit : splitBytes (cap - 100) content with
      | none =>
        refine .inl ⟨fun hs => ?_, rfl⟩
        have := hs.2.2
        rw [hbreak, hsplit] at this
        cases this
      | some q =>
        obtain ⟨hcontent, hlen⟩ := splitBytes_eq (a := q.1) (b := q.2) hsplit
        refine .inr ⟨⟨hlo, hhi, by rw [hbreak, hsplit]; rfl⟩, _, rfl, q.1, q.2, hcontent, ?_, ?_⟩
        · rw [hbreak, hlen]
        · dsimp only
          rw [hbreak, hlen]

/-- Likewise for a result over a number of characters. -/
theorem truncateTo_cases (h : maxChars < byteLen content) :
    (¬ CompactSlices maxChars content ∧ truncateTo content maxChars = none) ∨
      (CompactSlices maxChars content ∧ ∃ out, truncateTo content maxChars = some out ∧
        CutAt content (compactBreak maxChars content)
          (compactedNote (byteLen content) (compactBreak maxChars content)) out) := by
  rw [truncateTo_long h, CompactSlices, compactBreak]
  generalize maxChars - 80 = keep
  have hle : keep - 100 ≤ keep := Nat.sub_le keep 100
  cases hslice : slice (keep - 100) keep content with
  | none =>
    refine .inl ⟨fun hs => ?_, rfl⟩
    have := (isSome_slice_iff hle).mpr hs
    rw [hslice] at this
    cases this
  | some p =>
    obtain ⟨front, window⟩ := p
    have hslices := (isSome_slice_iff hle).mp (Option.isSome_iff_exists.mpr ⟨_, hslice⟩)
    refine .inr ⟨hslices, _, rfl, ?_⟩
    dsimp only
    cases hline : beforeLast '\n' window with
    | some line =>
      have hcut := cutAt_line hle hslice hline keep
      have hlen := (hcut []).byteLen_eq
      rw [List.append_nil, byteLen_nil, Nat.add_zero] at hlen
      rw [hlen]
      exact hcut _
    | none =>
      obtain ⟨back, hcontent, -, hlen⟩ := slice_some hle hslice
      rw [breakPoint_eq hslice hline]
      exact ⟨front ++ window, back, hcontent, hlen, by rw [hlen]⟩

/-- And for a historical result, which is cut at one offset. -/
theorem truncateHistorical_cases (truncated : Nat) (h : 2000 < byteLen content) :
    (¬ (splitBytes 1920 content).isSome ∧ truncateHistorical truncated content = none) ∨
      ((splitBytes 1920 content).isSome ∧ ∃ out,
        truncateHistorical truncated content = some (out, truncated + 1) ∧
        CutAt content 1920 (overflowNote (byteLen content)) out) := by
  have hlong : truncateHistorical truncated content =
      (splitBytes 1920 content).map fun p =>
        (p.1 ++ overflowNote (byteLen content), truncated + 1) := by
    rw [truncateHistorical]
    refine (if_neg (Nat.not_le.mpr h)).trans ?_
    generalize 1920 = keep
    rw [Option.map_eq_bind]
    refine congrArg (splitBytes keep content).bind (funext fun p => ?_)
    obtain ⟨shown, rest⟩ := p
    exact congrArg (fun s => some (s, truncated + 1)) (append_three _ _ _ _)
  rw [hlong]
  cases hsplit : splitBytes 1920 content with
  | none => exact .inl ⟨Bool.false_ne_true, rfl⟩
  | some q =>
    obtain ⟨hcontent, hlen⟩ := splitBytes_eq (a := q.1) (b := q.2) hsplit
    exact .inr ⟨rfl, _, rfl, q.1, q.2, hcontent, hlen, rfl⟩

end Functions

section Total

variable {budget : ContextBudget} {maxChars : Nat}

/-- A truncation returns, with a text that is no longer than the one it was given. -/
def NoLonger (truncated : Option Str) (content : Str) : Prop :=
  ∃ out, truncated = some out ∧ byteLen out ≤ byteLen content

theorem noLonger_self : NoLonger (some content) content := ⟨content, rfl, le_rfl⟩

/-- A truncation that panics, or cuts and puts a note. -/
theorem noLonger_iff {slices : Prop} {truncated : Option Str}
    (h : (¬ slices ∧ truncated = none) ∨
      (slices ∧ ∃ out, truncated = some out ∧ CutAt content n note out)) :
    NoLonger truncated content ↔ slices ∧ n + byteLen note ≤ byteLen content := by
  obtain ⟨hslices, rfl⟩ | ⟨hslices, out, rfl, hcut⟩ := h
  · refine iff_of_false ?_ fun hboth => hslices hboth.1
    rintro ⟨out, hout, -⟩
    cases hout
  · constructor
    · rintro ⟨out', hout, hle⟩
      obtain rfl := Option.some.inj hout
      exact ⟨hslices, hcut.byteLen_eq ▸ hle⟩
    · rintro ⟨-, hle⟩
      exact ⟨out, rfl, hcut.byteLen_eq ▸ hle⟩

theorem truncateToolResultDynamic_noLonger (content : Str) (budget : ContextBudget) :
    NoLonger (truncateToolResultDynamic content budget) content ↔
      byteLen content ≤ budget.perResultCap ∨
        DynamicSlices budget.perResultCap content ∧
        dynamicBreak budget.perResultCap content + byteLen (truncatedNote (byteLen content)
          (dynamicBreak budget.perResultCap content) budget.contextWindowTokens) ≤
            byteLen content := by
  by_cases h : byteLen content ≤ budget.perResultCap
  · rw [truncateToolResultDynamic_short h]
    exact iff_of_true noLonger_self (.inl h)
  · rw [or_iff_right h]
    exact noLonger_iff (truncateToolResultDynamic_cases (Nat.not_le.mp h))

theorem truncateTo_noLonger (content : Str) (maxChars : Nat) :
    NoLonger (truncateTo content maxChars) content ↔
      byteLen content ≤ maxChars ∨
        CompactSlices maxChars content ∧
        compactBreak maxChars content +
          byteLen (compactedNote (byteLen content) (compactBreak maxChars content)) ≤
            byteLen content := by
  by_cases h : byteLen content ≤ maxChars
  · rw [truncateTo_short h]
    exact iff_of_true noLonger_self (.inl h)
  · rw [or_iff_right h]
    exact noLonger_iff (truncateTo_cases (Nat.not_le.mp h))

/-- The note of the last stage is shorter than what it stands for. -/
theorem overflowNote_fits (h : 2000 < byteLen content) :
    1920 + byteLen (overflowNote (byteLen content)) ≤ byteLen content := by
  rw [byteLen_overflowNote]
  generalize byteLen content = len at h
  obtain ⟨k, rfl⟩ : ∃ k, len = k + 1972 := ⟨len - 1972, by omega⟩
  have hself : k - 4 < 10 ^ (k - 4) := Nat.lt_pow_self (by decide)
  have hpow : 10 ^ k = 10 ^ (k - 4) * 10 ^ 4 := by
    rw [← Nat.pow_add]
    congr 1
    omega
  have hdigits : digits (k + 1972) ≤ k := (digits_le (by omega)).mpr (by omega)
  omega

theorem truncateHistorical_noLonger (content : Str) (truncated : Nat) :
    NoLonger ((truncateHistorical truncated content).map Prod.fst) content ↔
      byteLen content ≤ 2000 ∨ (splitBytes 1920 content).isSome := by
  by_cases h : byteLen content ≤ 2000
  · have hshort : truncateHistorical truncated content = some (content, truncated) := if_pos h
    rw [hshort]
    exact iff_of_true noLonger_self (.inl h)
  · rw [or_iff_right h]
    have hlong := Nat.not_le.mp h
    refine (noLonger_iff (?_ : _ ∨ _)).trans (and_iff_left (overflowNote_fits hlong))
    obtain ⟨hs, hnone⟩ | ⟨hs, out, hout, hcut⟩ := truncateHistorical_cases truncated hlong
    · exact .inl ⟨hs, by rw [hnone]; rfl⟩
    · exact .inr ⟨hs, out, by rw [hout]; rfl, hcut⟩

/-- Each truncation returns a text no longer than its own exactly when the text is within
the limit, or is sliced between characters only and loses at least as much as the note
in its place takes. -/
theorem truncations_noLonger (content : Str) (budget : ContextBudget) (maxChars truncated : Nat) :
    (NoLonger (truncateToolResultDynamic content budget) content ↔
      byteLen content ≤ budget.perResultCap ∨
        DynamicSlices budget.perResultCap content ∧
        dynamicBreak budget.perResultCap content + byteLen (truncatedNote (byteLen content)
          (dynamicBreak budget.perResultCap content) budget.contextWindowTokens) ≤
            byteLen content) ∧
    (NoLonger (truncateTo content maxChars) content ↔
      byteLen content ≤ maxChars ∨
        CompactSlices maxChars content ∧
        compactBreak maxChars content +
          byteLen (compactedNote (byteLen content) (compactBreak maxChars content)) ≤
            byteLen content) ∧
    (NoLonger ((truncateHistorical truncated content).map Prod.fst) content ↔
      byteLen content ≤ 2000 ∨ (splitBytes 1920 content).isSome) :=
  ⟨truncateToolResultDynamic_noLonger content budget, truncateTo_noLonger content maxChars,
    truncateHistorical_noLonger content truncated⟩

/-- Six hundred and one bytes, with a character of two bytes across the cap. -/
theorem truncations_inside_character :
    ¬ ∀ (content : Str) (budget : ContextBudget) (maxChars truncated : Nat),
      NoLonger (truncateToolResultDynamic content budget) content ∧
      NoLonger (truncateTo content maxChars) content ∧
      NoLonger ((truncateHistorical truncated content).map Prod.fst) content := by
  intro h
  have hcap : (ContextBudget.mk 1000).perResultCap = 600 := by decide
  have hlong := (h ('a' :: List.replicate 300 'é') ⟨1000⟩ 0 0).1
  rw [truncateToolResultDynamic_noLonger, hcap] at hlong
  obtain hshort | ⟨⟨-, hinside, -⟩, -⟩ := hlong
  · exact absurd hshort (by decide +kernel)
  · exact absurd hinside (by decide +kernel)

end Total

end Clawreform.Runtime.Truncation
