import Clawreform.Lib.Splitting
import Mathlib.Data.List.DropRight

namespace Clawreform.Lib.Trimming

open Clawreform.Lib.Text Clawreform.Lib.Splitting

variable {s t ws pat : Str} {c : Char}

theorem trim_isInfix (s : Str) : trim s <:+: s :=
  ( trimEnd_prefix _).isInfix.trans (List.dropWhile_suffix _).isInfix

theorem filter_trimStart (s : Str) :
    (trimStart s).filter (! isWhitespace ·) = s.filter (! isWhitespace ·) := by
  induction s with
  | nil => rfl
  | cons c s ih =>
    rw [trimStart, List.dropWhile_cons]
    split
    · rename_i hc
      rw [List.filter_cons_of_neg (by simp [hc])]
      exact ih
    · rfl

theorem filter_trimEnd (s : Str) :
    (trimEnd s).filter (! isWhitespace ·) = s.filter (! isWhitespace ·) := by
  have hrev := filter_trimStart s.reverse
  rw [trimEnd, List.filter_reverse, ← trimStart, hrev, List.filter_reverse, List.reverse_reverse]

theorem filter_trim (s : Str) :
    (trim s).filter (! isWhitespace ·) = s.filter (! isWhitespace ·) := by
  rw [trim, filter_trimEnd, filter_trimStart]

theorem head?_trimStart (s : Str) : ∀ c ∈ (trimStart s).head?, isWhitespace c = false := by
  intro c hc
  have hnot := List.head?_dropWhile_not isWhitespace s
  rw [trimStart, Option.mem_def] at hc
  rw [hc] at hnot
  simpa using hnot

theorem getLast?_trimEnd (s : Str) : ∀ c ∈ (trimEnd s).getLast?, isWhitespace c = false := by
  rw [trimEnd, List.getLast?_reverse]
  exact head?_trimStart s.reverse

theorem trimEnd_eq_self (h : ∀ c ∈ s.getLast?, isWhitespace c = false) : trimEnd s = s := by
  have hrev : trimStart s.reverse = s.reverse := by
    apply trimStart_eq_self
    rwa [List.head?_reverse]
  rw [trimEnd, ← trimStart, hrev, List.reverse_reverse]

theorem trim_eq_self_of_ends (hstart : ∀ c ∈ s.head?, isWhitespace c = false)
    (hend : ∀ c ∈ s.getLast?, isWhitespace c = false) : trim s = s := by
  rw [trim, trimStart_eq_self hstart, trimEnd_eq_self hend]

theorem head?_trim (s : Str) : ∀ c ∈ (trim s).head?, isWhitespace c = false := by
  intro c hc
  obtain ⟨r, hr⟩ := trimEnd_prefix (trimStart s)
  apply head?_trimStart s
  rw [trim] at hc
  rw [← hr]
  cases htrim : trimEnd (trimStart s) with
  | nil => rw [htrim] at hc; cases hc
  | cons d u => rw [htrim] at hc; exact hc

theorem trim_trim (s : Str) : trim (trim s) = trim s :=
  trim_eq_self_of_ends (head?_trim s) (getLast?_trimEnd _)

theorem trim_eq_nil_iff : trim s = [] ↔ ∀ c ∈ s, isWhitespace c = true := by
  constructor
  · intro h c hc
    by_contra hnot
    have hmem : c ∈ s.filter (! isWhitespace ·) := List.mem_filter.mpr ⟨hc, by simpa using hnot⟩
    rw [← filter_trim, h] at hmem
    cases hmem
  · intro h
    have hstart : trimStart s = [] := List.dropWhile_eq_nil_iff.mpr h
    rw [trim, hstart]
    rfl

theorem trim_trimEnd_eq_nil_iff : trim (trimEnd s) = [] ↔ trim s = [] := by
  have hiff (u : Str) : trim u = [] ↔ u.filter (! isWhitespace ·) = [] := by
    rw [trim_eq_nil_iff, List.filter_eq_nil_iff]
    simp
  rw [hiff, hiff, filter_trimEnd]

theorem trim_blank : trim (' ' :: s) = trim s := by
  simp [trim, trimStart, isWhitespace]

theorem prefix_of_prefix_trim (hc : isWhitespace c = false) (h : pat <+: trim (c :: s)) :
    pat <+: c :: s := by
  have hstart : trimStart (c :: s) = c :: s := by simp [trimStart, hc]
  rw [trim, hstart] at h
  have hend := trimEnd_prefix (c :: s)
  exact h.trans hend

theorem prefix_trim (hstart : trimStart (pat ++ s) = pat ++ s)
    (hend : pat.reverse.dropWhile isWhitespace = pat.reverse) : pat <+: trim (pat ++ s) := by
  rw [trim, hstart, trimEnd, List.reverse_append, List.dropWhile_append]
  split
  · rw [hend, List.reverse_reverse]
  · rw [List.reverse_append, List.reverse_reverse]
    exact List.prefix_append _ _

theorem trim_eq (h : trim s = s) : trimStart s = s ∧ trimEnd s = s := by
  have hend := trimEnd_prefix (trimStart s)
  have hstart : trimStart s <:+ s := List.dropWhile_suffix _
  have hlen : (trimStart s).length = s.length := by
    have hle := hend.length_le
    have hle' := hstart.length_le
    rw [trim] at h
    rw [h] at hle
    omega
  have hsame := hstart.eq_of_length hlen
  refine ⟨hsame, ?_⟩
  rw [trim, hsame] at h
  exact h

theorem trimEnd_append (h : trimEnd t = t) (ht : t ≠ []) : trimEnd (s ++ t) = s ++ t := by
  have hrev : t.reverse.dropWhile isWhitespace = t.reverse := by
    rw [← List.reverse_inj, List.reverse_reverse]
    exact h
  rw [trimEnd, List.reverse_append, List.dropWhile_append, hrev]
  simp [ht]

theorem trimEnd_append_whitespace (h : ∀ c ∈ ws, isWhitespace c = true) :
    trimEnd (s ++ ws) = trimEnd s := by
  have hdrop : ws.reverse.dropWhile isWhitespace = [] :=
    List.dropWhile_eq_nil_iff.mpr fun c hc => h c (List.mem_reverse.mp hc)
  rw [trimEnd, List.reverse_append, List.dropWhile_append, hdrop]
  rfl

theorem trim_append_whitespace (h : ∀ c ∈ ws, isWhitespace c = true) :
    trim (s ++ ws) = trim s := by
  rw [trim, trimStart, List.dropWhile_append]
  split
  · rename_i hempty
    have hdrop : ws.dropWhile isWhitespace = [] := List.dropWhile_eq_nil_iff.mpr h
    rw [hdrop, trim, trimStart, List.isEmpty_iff.mp hempty]
  · exact trimEnd_append_whitespace h

theorem exists_trimEnd (s : Str) : ∃ ws, s = trimEnd s ++ ws ∧ ∀ c ∈ ws, isWhitespace c = true := by
  refine ⟨(s.reverse.takeWhile isWhitespace).reverse, ?_, fun c hc => ?_⟩
  · rw [trimEnd, ← List.reverse_append, List.takeWhile_append_dropWhile, List.reverse_reverse]
  · exact List.mem_takeWhile_imp (List.mem_reverse.mp hc)

theorem trim_trimEnd (s : Str) : trim (trimEnd s) = trim s := by
  obtain ⟨ws, hs, hws⟩ := exists_trimEnd s
  conv_rhs => rw [hs]
  exact (trim_append_whitespace hws).symm

theorem trimEnd_append_cons (hc : isWhitespace c = false) :
    trimEnd (s ++ c :: t) = s ++ c :: trimEnd t := by
  obtain ⟨ws, ht, hws⟩ := exists_trimEnd t
  have happend : s ++ c :: t = (s ++ c :: trimEnd t) ++ ws := by
    conv_lhs => rw [ht]
    simp
  rw [happend, trimEnd_append_whitespace hws]
  apply trimEnd_eq_self
  intro d hd
  rw [List.getLast?_append_of_ne_nil _ (by simp)] at hd
  cases hend : trimEnd t with
  | nil =>
    rw [hend] at hd
    cases Option.mem_some_iff.mp hd
    exact hc
  | cons e u =>
    rw [hend, List.getLast?_cons_cons, ← hend] at hd
    exact getLast?_trimEnd t d hd

theorem head?_trim_of_isPrefix (hpre : t <+: trim s) (hne : t ≠ []) :
    (trim t).head? = (trim s).head? := by
  obtain ⟨c, rest, rfl⟩ := List.exists_cons_of_ne_nil hne
  obtain ⟨u, hu⟩ := hpre
  have hc : isWhitespace c = false := head?_trim s c (by rw [← hu]; rfl)
  have htrim : trim (c :: rest) = c :: trimEnd rest := by
    have hstart : trimStart (c :: rest) = c :: rest := by simp [trimStart, hc]
    rw [trim, hstart]
    exact trimEnd_append_cons (s := []) hc
  rw [htrim, ← hu]
  rfl

/-- Trimming hides how a line ends. -/
theorem map_trim_lines (ht : '\n' ∉ t) :
    (lines (t ++ '\n' :: s)).map trim = trim t :: (lines s).map trim := by
  by_cases hlast : t.getLast? = some '\r'
  · obtain ⟨u, rfl⟩ := List.getLast?_eq_some_iff.mp hlast
    have hu : '\n' ∉ u := fun h => ht (List.mem_append_left _ h)
    rw [List.append_assoc, List.singleton_append, lines_crlf hu, List.map_cons,
      trim_append_whitespace (by simp [isWhitespace])]
  · rw [lines_line ht hlast, List.map_cons]

theorem map_trim_lines_flatMap {ls : List Str} (h : ∀ l ∈ ls, '\n' ∉ l) :
    (lines (ls.flatMap (· ++ ['\n']))).map trim = ls.map trim := by
  induction ls with
  | nil => rfl
  | cons l ls ih =>
    obtain ⟨hl, hls⟩ := List.forall_mem_cons.mp h
    rw [List.flatMap_cons, List.append_assoc, List.singleton_append, map_trim_lines hl, ih hls,
      List.map_cons]

end Clawreform.Lib.Trimming
