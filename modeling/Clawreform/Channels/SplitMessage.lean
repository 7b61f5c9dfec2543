import Clawreform.Lib.Slices

namespace Clawreform.Channels.SplitMessage

open Clawreform.Lib.Text Clawreform.Lib.Slices

section Code

/-- Why there are no chunks: a slice off a character boundary, or turns without end. -/
inductive Stop where
  | sliced
  | endless
  deriving DecidableEq

def skipBreak (rest : Str) : Str :=
  ((stripPrefix ['\r', '\n'] rest).or (stripPrefix ['\n'] rest)).getD rest

def splitLoop (maxLen : Nat) : Nat → Str → Except Stop (List Str)
  | 0, _ => .error .endless
  | turns + 1, remaining =>
    if remaining = [] then .ok []
    else if byteLen remaining ≤ maxLen then .ok [remaining]
    else
      match splitBytes maxLen remaining with
      | none => .error .sliced
      | some (window, _) =>
        match splitBytes ((rfindChar '\n' window).getD maxLen) remaining with
        | none => .error .sliced
        | some (chunk, rest) => (splitLoop maxLen turns (skipBreak rest)).map (chunk :: ·)

/-- A turn that takes nothing off the text leaves the next one the same text, so there are more
turns than characters only when there is no end to them. -/
def splitMessage (text : Str) (maxLen : Nat) : Except Stop (List Str) :=
  if byteLen text ≤ maxLen then .ok [text] else splitLoop maxLen (text.length + 1) text

end Code

section Turns

variable {maxLen turns : Nat} {s a b t : Str}

theorem skipBreak_newline (t : Str) : skipBreak ('\n' :: t) = t := by
  simp [skipBreak, stripPrefix]

/-- What is skipped in front of the next chunk is one line break, or nothing. -/
theorem skipBreak_eq (t : Str) :
    ∃ brk ∈ [[], ['\n'], ['\r', '\n']], t = brk ++ skipBreak t := by
  by_cases hcr : ['\r', '\n'] <+: t
  · obtain ⟨u, rfl⟩ := hcr
    exact ⟨['\r', '\n'], by simp, by simp [skipBreak, stripPrefix]⟩
  · by_cases hlf : ['\n'] <+: t
    · obtain ⟨u, rfl⟩ := hlf
      exact ⟨['\n'], by simp, by simp [skipBreak, stripPrefix]⟩
    · exact ⟨[], by simp, by simp [skipBreak, stripPrefix, hcr, hlf]⟩

theorem length_skipBreak_le (t : Str) : (skipBreak t).length ≤ t.length := by
  obtain ⟨brk, -, ht⟩ := skipBreak_eq t
  have hlen := congrArg List.length ht
  rw [List.length_append] at hlen
  omega

theorem splitLoop_short (hne : s ≠ []) (h : byteLen s ≤ maxLen) :
    splitLoop maxLen (turns + 1) s = .ok [s] := by
  rw [splitLoop, if_neg hne, if_pos h]

/-- A window with a line break in it is cut at the last one. -/
theorem splitLoop_line (hlen : byteLen (a ++ '\n' :: b) = maxLen) (hb : '\n' ∉ b) (ht : t ≠ []) :
    splitLoop maxLen (turns + 1) (a ++ '\n' :: b ++ t) =
      (splitLoop maxLen turns (b ++ t)).map (a :: ·) := by
  have hlong : ¬ byteLen (a ++ '\n' :: b ++ t) ≤ maxLen := by
    have := byteLen_pos ht
    rw [byteLen_append, hlen]
    omega
  have hcut : splitBytes maxLen (a ++ '\n' :: b ++ t) = some (a ++ '\n' :: b, t) :=
    splitBytes_iff.mpr ⟨rfl, hlen⟩
  have hat : splitBytes (byteLen a) (a ++ '\n' :: b ++ t) = some (a, '\n' :: (b ++ t)) :=
    splitBytes_iff.mpr ⟨by simp, rfl⟩
  simp only [splitLoop, hcut, rfindChar_last hb, Option.getD_some, hat, skipBreak_newline]
  rw [if_neg (by simp), if_neg hlong]

/-- A window without one is cut at its end. -/
theorem splitLoop_wide (hlen : byteLen a = maxLen) (ha : '\n' ∉ a) (ht : t ≠ []) :
    splitLoop maxLen (turns + 1) (a ++ t) =
      (splitLoop maxLen turns (skipBreak t)).map (a :: ·) := by
  have hlong : ¬ byteLen (a ++ t) ≤ maxLen := by
    have := byteLen_pos ht
    rw [byteLen_append, hlen]
    omega
  have hcut : splitBytes maxLen (a ++ t) = some (a, t) := splitBytes_iff.mpr ⟨rfl, hlen⟩
  simp only [splitLoop, hcut, rfindChar_none ha, Option.getD_none]
  rw [if_neg (by simp [ht]), if_neg hlong]

theorem splitLoop_sliced (hne : s ≠ []) (hlong : ¬ byteLen s ≤ maxLen)
    (hcut : splitBytes maxLen s = none) : splitLoop maxLen (turns + 1) s = .error .sliced := by
  simp only [splitLoop, hcut]
  rw [if_neg hne, if_neg hlong]

/-- The four ways a turn can go. -/
theorem turn_cases (hne : s ≠ []) (hlong : ¬ byteLen s ≤ maxLen) :
    splitBytes maxLen s = none ∨
    (∃ a b t, s = a ++ '\n' :: b ++ t ∧ byteLen (a ++ '\n' :: b) = maxLen ∧ '\n' ∉ b ∧ t ≠ []) ∨
    ∃ a t, s = a ++ t ∧ byteLen a = maxLen ∧ '\n' ∉ a ∧ t ≠ [] := by
  cases hcut : splitBytes maxLen s with
  | none => exact .inl rfl
  | some p =>
    obtain ⟨w, t⟩ := p
    obtain ⟨rfl, hlen⟩ := splitBytes_eq hcut
    have ht : t ≠ [] := by
      rintro rfl
      rw [List.append_nil] at hlong
      exact hlong hlen.le
    refine .inr ?_
    by_cases hw : '\n' ∈ w
    · obtain ⟨a, b, rfl, hb⟩ := exists_last hw
      exact .inl ⟨a, b, t, rfl, hlen, hb, ht⟩
    · exact .inr ⟨w, t, rfl, hlen, hw, ht⟩

/-- With room for a character there is an end to the turns. -/
theorem splitLoop_ends (hpos : 0 < maxLen) (hturns : s.length < turns) :
    splitLoop maxLen turns s ≠ .error .endless := by
  induction turns generalizing s with
  | zero => omega
  | succ turns ih =>
    have hnext : ∀ {a s' : Str}, s'.length < s.length →
        (splitLoop maxLen turns s').map (a :: ·) ≠ .error .endless := by
      intro a s' hlt hend
      cases hrest : splitLoop maxLen turns s' with
      | ok chunks =>
        rw [hrest] at hend
        cases hend
      | error e =>
        rw [hrest] at hend
        cases hend
        exact ih (by omega) hrest
    by_cases hne : s = []
    · rw [splitLoop, if_pos hne]
      nofun
    by_cases hlong : byteLen s ≤ maxLen
    · rw [splitLoop_short hne hlong]
      nofun
    obtain hcut | ⟨a, b, t, rfl, hlen, hb, ht⟩ | ⟨a, t, rfl, hlen, ha, ht⟩ :=
      turn_cases hne hlong
    · rw [splitLoop_sliced hne hlong hcut]
      nofun
    · rw [splitLoop_line hlen hb ht]
      apply hnext
      simp only [List.length_append, List.length_cons]
      omega
    · rw [splitLoop_wide hlen ha ht]
      apply hnext
      have ha' : a ≠ [] := by
        rintro rfl
        rw [byteLen_nil] at hlen
        omega
      have hskip := length_skipBreak_le t
      have := List.length_pos_of_ne_nil ha'
      rw [List.length_append]
      omega

end Turns

section Chunks

variable {maxLen turns : Nat} {s t a b text : Str} {chunks : List Str}

/-- The chunks in order, each with the line break that was dropped behind it, are the text. -/
def Joins (chunks : List Str) (text : Str) : Prop :=
  ∃ breaks : List Str, breaks.length = chunks.length ∧
    (∀ brk ∈ breaks, brk ∈ [[], ['\n'], ['\r', '\n']]) ∧
    (List.zipWith (· ++ ·) chunks breaks).flatten = text

/-- What the chunks of a text are to be. -/
structure Splits (maxLen : Nat) (text : Str) (chunks : List Str) : Prop where
  nonempty : text ≠ [] → ∀ chunk ∈ chunks, chunk ≠ []
  bounded : ∀ chunk ∈ chunks, byteLen chunk ≤ maxLen
  joins : Joins chunks text

/-- A text that can be cut: it fits, or its first `maxLen` bytes end between two characters,
hold no line break or one with something in front, and what is left behind the cut can be cut
again. -/
inductive Splittable (maxLen : Nat) : Str → Prop where
  | short {s : Str} (h : byteLen s ≤ maxLen) : Splittable maxLen s
  | line {a b t : Str} (hlen : byteLen (a ++ '\n' :: b) = maxLen) (hb : '\n' ∉ b) (ha : a ≠ [])
      (ht : t ≠ []) (rest : Splittable maxLen (b ++ t)) :
      Splittable maxLen (a ++ '\n' :: b ++ t)
  | wide {a t : Str} (hlen : byteLen a = maxLen) (ha : '\n' ∉ a) (ht : t ≠ [])
      (rest : Splittable maxLen (skipBreak t)) : Splittable maxLen (a ++ t)

theorem Joins.cons {brk : Str} (hbrk : brk ∈ [[], ['\n'], ['\r', '\n']]) (h : Joins chunks t) :
    Joins (a :: chunks) (a ++ brk ++ t) := by
  obtain ⟨breaks, hlen, hall, rfl⟩ := h
  refine ⟨brk :: breaks, by simp [hlen], ?_, by simp⟩
  exact List.forall_mem_cons.mpr ⟨hbrk, hall⟩

theorem joins_single (s : Str) : Joins [s] s := ⟨[[]], rfl, by simp, by simp⟩

theorem splits_single {s : Str} (h : byteLen s ≤ maxLen) : Splits maxLen s [s] where
  nonempty hne := by simpa using hne
  bounded := by simpa using h
  joins := joins_single s

/-- One chunk in front of those of the rest. -/
theorem Splits.cons {brk : Str} (h : Splits maxLen t chunks)
    (hchunks : ∀ chunk ∈ chunks, chunk ≠ []) (ha : a ≠ []) (hlen : byteLen a ≤ maxLen)
    (hbrk : brk ∈ [[], ['\n'], ['\r', '\n']]) :
    Splits maxLen (a ++ brk ++ t) (a :: chunks) where
  nonempty _ := List.forall_mem_cons.mpr ⟨ha, hchunks⟩
  bounded := List.forall_mem_cons.mpr ⟨hlen, h.bounded⟩
  joins := h.joins.cons hbrk

/-- The turns over a text that can be cut give its chunks. -/
theorem Splittable.splitLoop (h : Splittable maxLen s) (hpos : 0 < maxLen)
    (hturns : s.length < turns) :
    ∃ chunks, SplitMessage.splitLoop maxLen turns s = .ok chunks ∧
      (∀ chunk ∈ chunks, chunk ≠ []) ∧ Splits maxLen s chunks := by
  induction h generalizing turns with
  | @short s h =>
    obtain ⟨turns, rfl⟩ : ∃ n, turns = n + 1 := ⟨turns - 1, by omega⟩
    by_cases hne : s = []
    · subst hne
      exact ⟨[], by rw [SplitMessage.splitLoop, if_pos rfl], by simp,
        ⟨by simp, by simp, ⟨[], rfl, by simp, rfl⟩⟩⟩
    · refine ⟨[s], splitLoop_short hne h, by simpa using hne, splits_single h⟩
  | @line a b t hlen hb ha ht _ ih =>
    obtain ⟨turns, rfl⟩ : ∃ n, turns = n + 1 := ⟨turns - 1, by omega⟩
    simp only [List.length_append, List.length_cons] at hturns
    obtain ⟨chunks, hrest, hchunks, hsplits⟩ :=
      @ih turns (by rw [List.length_append]; omega)
    refine ⟨a :: chunks, ?_, List.forall_mem_cons.mpr ⟨ha, hchunks⟩, ?_⟩
    · rw [splitLoop_line hlen hb ht, hrest]
      rfl
    · have hle : byteLen a ≤ maxLen := by
        rw [byteLen_append] at hlen
        omega
      have hcons : Splits maxLen (a ++ ['\n'] ++ (b ++ t)) (a :: chunks) :=
        hsplits.cons hchunks ha hle (by simp)
      rwa [show a ++ ['\n'] ++ (b ++ t) = a ++ '\n' :: b ++ t by simp] at hcons
  | @wide a t hlen ha ht _ ih =>
    obtain ⟨turns, rfl⟩ : ∃ n, turns = n + 1 := ⟨turns - 1, by omega⟩
    have hne : a ≠ [] := by
      rintro rfl
      rw [byteLen_nil] at hlen
      omega
    have hskip := length_skipBreak_le t
    have hapos := List.length_pos_of_ne_nil hne
    rw [List.length_append] at hturns
    obtain ⟨chunks, hrest, hchunks, hsplits⟩ := @ih turns (by omega)
    refine ⟨a :: chunks, ?_, List.forall_mem_cons.mpr ⟨hne, hchunks⟩, ?_⟩
    · rw [splitLoop_wide hlen ha ht, hrest]
      rfl
    · obtain ⟨brk, hbrk, htext⟩ := skipBreak_eq t
      have hcons := hsplits.cons hchunks hne hlen.le hbrk
      rwa [List.append_assoc, ← htext] at hcons

/-- Only a text that can be cut has chunks with something in each. -/
theorem splittable_of_splitLoop (hloop : SplitMessage.splitLoop maxLen turns s = .ok chunks)
    (hchunks : ∀ chunk ∈ chunks, chunk ≠ []) : Splittable maxLen s := by
  induction turns generalizing s chunks with
  | zero => cases hloop
  | succ turns ih =>
    by_cases hne : s = []
    · subst hne
      exact .short (Nat.zero_le _)
    by_cases hlong : byteLen s ≤ maxLen
    · exact .short hlong
    have hnext : ∀ {a s' : Str},
        (SplitMessage.splitLoop maxLen turns s').map (a :: ·) = .ok chunks →
          a ≠ [] ∧ Splittable maxLen s' := by
      intro a s' hmap
      cases hrest : SplitMessage.splitLoop maxLen turns s' with
      | error e =>
        rw [hrest] at hmap
        cases hmap
      | ok rest =>
        rw [hrest] at hmap
        cases hmap
        rw [List.forall_mem_cons] at hchunks
        exact ⟨hchunks.1, ih hrest hchunks.2⟩
    obtain hcut | ⟨a, b, t, rfl, hlen, hb, ht⟩ | ⟨a, t, rfl, hlen, ha, ht⟩ :=
      turn_cases hne hlong
    · rw [splitLoop_sliced hne hlong hcut] at hloop
      cases hloop
    · rw [splitLoop_line hlen hb ht] at hloop
      obtain ⟨ha, hrest⟩ := hnext hloop
      exact .line hlen hb ha ht hrest
    · rw [splitLoop_wide hlen ha ht] at hloop
      exact .wide hlen ha ht (hnext hloop).2

/-- Splitting ends, and gives chunks as they are to be for the texts that can be cut. -/
theorem splitMessage_splits_iff {text : Str} {maxLen : Nat} (hmax : 4 ≤ maxLen) :
    splitMessage text maxLen ≠ .error .endless ∧
      ((∃ chunks, splitMessage text maxLen = .ok chunks ∧ Splits maxLen text chunks) ↔
        Splittable maxLen text) := by
  by_cases hshort : byteLen text ≤ maxLen
  · rw [splitMessage, if_pos hshort]
    refine ⟨by nofun, fun _ => .short hshort, fun _ => ⟨[text], rfl, splits_single hshort⟩⟩
  · rw [splitMessage, if_neg hshort]
    refine ⟨splitLoop_ends (by omega) (Nat.lt_succ_self _), ?_, ?_⟩
    · rintro ⟨chunks, hloop, hsplits⟩
      refine splittable_of_splitLoop hloop (hsplits.nonempty ?_)
      rintro rfl
      exact hshort (Nat.zero_le _)
    · intro h
      obtain ⟨chunks, hloop, -, hsplits⟩ := h.splitLoop (by omega) (Nat.lt_succ_self _)
      exact ⟨chunks, hloop, hsplits⟩

theorem splitMessage_splits_iff_lines :
    splitMessage "one\ntwo".toList 4 ≠ .error .endless ∧
      ((∃ chunks, splitMessage "one\ntwo".toList 4 = .ok chunks ∧
        Splits 4 "one\ntwo".toList chunks) ↔ Splittable 4 "one\ntwo".toList) :=
  splitMessage_splits_iff (by decide)

/-- A character that straddles the limit. -/
theorem splitMessage_not_splits :
    ¬ ∀ (text : Str) (maxLen : Nat), 4 ≤ maxLen →
      ∃ chunks, splitMessage text maxLen = .ok chunks ∧ Splits maxLen text chunks := by
  intro h
  obtain ⟨chunks, hchunks, -⟩ := h ['c', 'a', 'f', 'é', '!'] 4 le_rfl
  have hsliced : splitMessage ['c', 'a', 'f', 'é', '!'] 4 = .error .sliced := by decide
  rw [hsliced] at hchunks
  cases hchunks

example : splitMessage "line1\nline2\nline3".toList 10 =
    .ok ["line1".toList, "line2".toList, "line3".toList] := by decide

example : splitMessage "\nabcd".toList 4 = .ok [[], "abcd".toList] := by decide

end Chunks

end Clawreform.Channels.SplitMessage
