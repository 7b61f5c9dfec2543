import Clawreform.Lib.Infix
import Clawreform.Lib.Splitting
import Clawreform.Lib.Trimming
import Clawreform.Runtime.VisibleText

namespace Clawreform.Runtime.BlankLines

open Clawreform.Lib.Text Clawreform.Lib.Infix Clawreform.Lib.Splitting Clawreform.Lib.Trimming

section Lines

variable {line s w l : Str} {c : Char}

theorem isInfix_of_mem_linesFrom (h : l ∈ linesFrom line s) : l <:+: line.reverse ++ s := by
  induction s generalizing line with
  | nil =>
    rw [linesFrom] at h
    split at h
    · cases h
    · rw [List.mem_singleton.mp h, List.append_nil]
  | cons c s ih =>
    rw [linesFrom] at h
    split at h
    · obtain rfl | h := List.mem_cons.mp h
      · have htail : (if line.head? = some '\r' then line.tail else line) <:+ line := by
          split
          · exact List.tail_suffix line
          · exact List.suffix_rfl
        exact (List.reverse_prefix.mpr htail).isInfix.trans (List.prefix_append ..).isInfix
      · exact (ih h).trans ((List.suffix_cons c s).trans (List.suffix_append ..)).isInfix
    · have hinfix := ih h
      rwa [List.reverse_cons, List.append_assoc] at hinfix

theorem filter_linesFrom (line s : Str) :
    (linesFrom line s).flatten.filter (! isWhitespace ·) =
      (line.reverse ++ s).filter (! isWhitespace ·) := by
  induction s generalizing line with
  | nil =>
    rw [linesFrom]
    split
    · rename_i hline
      rw [hline]
      rfl
    · rw [List.flatten_singleton, List.append_nil]
  | cons c s ih =>
    rw [linesFrom]
    split
    · rename_i hc
      subst hc
      have hreturn : (if line.head? = some '\r' then line.tail else line).reverse.filter
          (! isWhitespace ·) = line.reverse.filter (! isWhitespace ·) := by
        split
        · rename_i hhead
          obtain ⟨rest, rfl⟩ := List.head?_eq_some_iff.mp hhead
          rw [List.tail_cons, List.reverse_cons, List.filter_append]
          exact (List.append_nil _).symm
        · rfl
      rw [List.flatten_cons, List.filter_append, hreturn, ih, List.reverse_nil, List.nil_append,
        List.filter_append]
      rfl
    · rw [ih, List.reverse_cons, List.append_assoc, List.singleton_append]

/-- The first line of a text that does not start with a blank does not either. -/
theorem linesFrom_starts (hline : line.getLast? = some c) (hc : isWhitespace c = false) :
    ∃ l ls, linesFrom line s = l :: ls ∧ l.head? = some c := by
  induction s generalizing line with
  | nil =>
    have hne : line ≠ [] := by
      rintro rfl
      cases hline
    exact ⟨line.reverse, [], by rw [linesFrom, if_neg hne], by rw [List.head?_reverse, hline]⟩
  | cons d s ih =>
    rw [linesFrom]
    split
    · refine ⟨_, _, rfl, ?_⟩
      rw [List.head?_reverse]
      split
      · rename_i hhead
        obtain ⟨rest, rfl⟩ := List.head?_eq_some_iff.mp hhead
        cases rest with
        | nil =>
          cases hline
          exact absurd hc (by decide)
        | cons e rest => rwa [List.getLast?_cons_cons] at hline
      · exact hline
    · apply ih
      cases line with
      | nil => cases hline
      | cons e line => rwa [List.getLast?_cons_cons]

end Lines

section Collapse

variable {previous : Bool} {out s t w : Str} {ls ks : List Str}

theorem collapseLines_cons (previous : Bool) (out line : Str) (rest : List Str) :
    collapseLines previous out (line :: rest) =
      if (trim line).isEmpty && previous then collapseLines previous out rest
      else collapseLines (trim line).isEmpty
        (if (trim line).isEmpty then if out = [] then out else out ++ ['\n']
          else (if out = [] then out else out ++ ['\n']) ++ trimEnd line) rest := rfl

theorem filter_eq_nil_of_blank {line : Str} (h : (trim line).isEmpty = true) :
    line.filter (! isWhitespace ·) = [] := by
  rw [← filter_trim, List.isEmpty_iff.mp h]
  rfl

/-- Collapsing takes blanks away and nothing else. -/
theorem filter_collapseLines (previous : Bool) (out : Str) (ls : List Str) :
    (collapseLines previous out ls).filter (! isWhitespace ·) =
      (out ++ ls.flatten).filter (! isWhitespace ·) := by
  induction ls generalizing previous out with
  | nil => rw [collapseLines, List.flatten_nil, List.append_nil]
  | cons line ls ih =>
    have hout : (if out = [] then out else out ++ ['\n']).filter (! isWhitespace ·) =
        out.filter (! isWhitespace ·) := by
      split
      · rfl
      · rw [List.filter_append]
        exact List.append_nil _
    rw [collapseLines_cons, List.flatten_cons]
    cases hblank : (trim line).isEmpty with
    | true =>
      have hline := filter_eq_nil_of_blank hblank
      cases previous with
      | true =>
        rw [Bool.and_true, if_pos rfl, ih, List.filter_append, List.filter_append,
          List.filter_append, hline, List.nil_append]
      | false =>
        rw [Bool.and_false, if_neg Bool.false_ne_true, ih, if_pos rfl, List.filter_append, hout,
          List.filter_append, List.filter_append, hline, List.nil_append]
    | false =>
      rw [Bool.false_and, if_neg Bool.false_ne_true, ih, if_neg Bool.false_ne_true,
        List.filter_append, List.filter_append, hout, filter_trimEnd, List.filter_append,
        List.filter_append, List.append_assoc]

theorem filter_collapseBlankLines (s : Str) :
    (collapseBlankLines s).filter (! isWhitespace ·) = s.filter (! isWhitespace ·) := by
  rw [collapseBlankLines, filter_trim, filter_collapseLines, List.nil_append, lines,
    filter_linesFrom]
  rfl

/-- A word in the collapsed text is a word of one of its parts. -/
theorem word_collapseLines (hne : w ≠ []) (hw : '\n' ∉ w)
    (h : w <:+: collapseLines previous out ls) :
    w <:+: out ∨ ∃ l ∈ ls, w <:+: l := by
  induction ls generalizing previous out with
  | nil => exact .inl h
  | cons line ls ih =>
    have hout : w <:+: (if out = [] then out else out ++ ['\n']) → w <:+: out := by
      split
      · exact id
      · intro hword
        obtain hword | hword := (infix_cons_iff hne hw).mp hword
        · exact hword
        · exact absurd (List.infix_nil.mp hword) hne
    have hrest : (∃ l ∈ ls, w <:+: l) → ∃ l ∈ line :: ls, w <:+: l := by
      rintro ⟨l, hl, hword⟩
      exact ⟨l, List.mem_cons_of_mem _ hl, hword⟩
    rw [collapseLines_cons] at h
    split at h
    · exact (ih h).imp_right hrest
    · obtain hword | hword := ih h
      · split at hword
        · exact .inl (hout hword)
        · have hline : trimEnd line <:+: line := ( trimEnd_prefix line).isInfix
          by_cases hnil : out = []
          · rw [if_pos hnil, hnil, List.nil_append] at hword
            exact .inr ⟨line, List.mem_cons_self, hword.trans hline⟩
          · rw [if_neg hnil, List.append_assoc, List.singleton_append,
              infix_cons_iff hne hw] at hword
            obtain hword | hword := hword
            · exact .inl hword
            · exact .inr ⟨line, List.mem_cons_self, hword.trans hline⟩
      · exact .inr (hrest hword)

theorem word_collapseBlankLines (hne : w ≠ []) (hw : '\n' ∉ w) (h : w <:+: collapseBlankLines s) :
    w <:+: s := by
  obtain hword | ⟨l, hl, hword⟩ := word_collapseLines hne hw (h.trans (trim_isInfix _))
  · exact absurd (List.infix_nil.mp hword) hne
  · exact hword.trans (isInfix_of_mem_linesFrom hl)

/-- The lines that are kept. -/
def kept : Bool → List Str → List Str
  | _, [] => []
  | previousBlank, line :: rest =>
    let isBlank := (trim line).isEmpty
    if isBlank && previousBlank then kept previousBlank rest
    else (if isBlank then [] else trimEnd line) :: kept isBlank rest

/-- The lines behind the first one. -/
def behind (ls : List Str) : Str := ls.flatMap ('\n' :: ·)

theorem kept_cons (previous : Bool) (line : Str) (rest : List Str) :
    kept previous (line :: rest) =
      if (trim line).isEmpty && previous then kept previous rest
      else
        (if (trim line).isEmpty then [] else trimEnd line) :: kept (trim line).isEmpty rest := rfl

theorem behind_cons (l : Str) (ls : List Str) : behind (l :: ls) = '\n' :: l ++ behind ls :=
  List.flatMap_cons

theorem collapseLines_eq (hout : out ≠ []) :
    collapseLines previous out ls = out ++ behind (kept previous ls) := by
  induction ls generalizing previous out with
  | nil => exact (List.append_nil _).symm
  | cons line ls ih =>
    rw [collapseLines_cons, kept_cons, if_neg hout]
    split
    · exact ih hout
    · rw [behind_cons]
      split
      · rw [ih (by simp), List.append_assoc]
      · rw [ih (by simp), List.append_assoc, List.append_assoc]
        rfl

theorem kept_kept (previous : Bool) (ls : List Str) :
    kept previous (kept previous ls) = kept previous ls := by
  induction ls generalizing previous with
  | nil => rfl
  | cons line ls ih =>
    rw [kept_cons]
    cases hblank : (trim line).isEmpty with
    | true =>
      cases previous with
      | true => exact ih true
      | false =>
        change kept false ([] :: kept true ls) = [] :: kept true ls
        exact congrArg ([] :: ·) (ih true)
    | false =>
      have hline : (trim (trimEnd line)).isEmpty = false := by
        rw [List.isEmpty_eq_false_iff, ne_eq, trim_trimEnd_eq_nil_iff, ← ne_eq,
          ← List.isEmpty_eq_false_iff, hblank]
      have hend : trimEnd (trimEnd line) = trimEnd line := trimEnd_eq_self (getLast?_trimEnd line)
      rw [Bool.false_and, if_neg Bool.false_ne_true, if_neg Bool.false_ne_true, kept_cons, hline,
        Bool.false_and, if_neg Bool.false_ne_true, if_neg Bool.false_ne_true, hend, ih]

theorem length_kept_le (previous : Bool) (ls : List Str) :
    (kept previous ls).length ≤ ls.length := by
  induction ls generalizing previous with
  | nil => exact Nat.le_refl _
  | cons line ls ih =>
    rw [kept_cons]
    split
    · exact (ih previous).trans (Nat.le_succ _)
    · exact Nat.succ_le_succ (ih _)

theorem exists_kept_append (previous : Bool) (ls ks : List Str) :
    ∃ previous', kept previous (ls ++ ks) = kept previous ls ++ kept previous' ks := by
  induction ls generalizing previous with
  | nil => exact ⟨previous, rfl⟩
  | cons line ls ih =>
    rw [List.cons_append, kept_cons, kept_cons]
    split
    · exact ih previous
    · obtain ⟨previous', h⟩ := ih (trim line).isEmpty
      exact ⟨previous', by rw [h, List.cons_append]⟩

/-- What is kept of lines that are all kept is kept whole up to any of them. -/
theorem kept_of_prefix (h : kept previous ls = ls) (hks : ks <+: ls) : kept previous ks = ks := by
  obtain ⟨rest, rfl⟩ := hks
  obtain ⟨previous', happend⟩ := exists_kept_append previous ks rest
  rw [happend] at h
  have hlen := congrArg List.length h
  rw [List.length_append, List.length_append] at hlen
  have hleft := length_kept_le previous ks
  have hright := length_kept_le previous' rest
  exact (List.append_inj h (by omega)).1

end Collapse

section Stable

variable {previous : Bool} {s t : Str} {ls ks : List Str}

/-- Lines as the function leaves them. -/
def Tidy (ls : List Str) : Prop := ∀ l ∈ ls, '\n' ∉ l ∧ ∀ c ∈ l.getLast?, isWhitespace c = false

theorem Tidy.getLast?_ne {l : Str} (h : '\n' ∉ l ∧ ∀ c ∈ l.getLast?, isWhitespace c = false) :
    l.getLast? ≠ some '\r' := by
  intro hreturn
  exact absurd (h.2 '\r' hreturn) (by decide)

theorem tidy_kept (previous : Bool) (h : ∀ l ∈ ls, '\n' ∉ l) : Tidy (kept previous ls) := by
  induction ls generalizing previous with
  | nil => exact fun l hl => absurd hl List.not_mem_nil
  | cons line ls ih =>
    obtain ⟨hline, hls⟩ := List.forall_mem_cons.mp h
    rw [kept_cons]
    split
    · exact ih previous hls
    · refine List.forall_mem_cons.mpr ⟨?_, ih _ hls⟩
      split
      · exact ⟨List.not_mem_nil, by rintro c ⟨⟩⟩
      · exact ⟨fun hmem => hline (( trimEnd_prefix line).subset hmem), getLast?_trimEnd line⟩

/-- The end of lines is trimmed by leaving out the last lines when they are blank. -/
theorem trimEnd_behind (ht : ∀ c ∈ t.getLast?, isWhitespace c = false) (hls : Tidy ls) :
    ∃ ks, ks <+: ls ∧ trimEnd (t ++ behind ls) = t ++ behind ks ∧ ks.getLast? ≠ some [] := by
  induction ls using List.reverseRecOn with
  | nil =>
    refine ⟨[], List.nil_prefix, ?_, by simp⟩
    change trimEnd (t ++ []) = t ++ []
    rw [List.append_nil, trimEnd_eq_self ht]
  | append_singleton ls l ih =>
    have hbehind : behind (ls ++ [l]) = behind ls ++ '\n' :: l := by
      rw [behind, List.flatMap_append, List.flatMap_singleton]
      rfl
    obtain ⟨hinit, hl⟩ := List.forall_mem_append.mp hls
    obtain ⟨-, hlast⟩ := List.forall_mem_singleton.mp hl
    cases l with
    | nil =>
      obtain ⟨ks, hks, htrim, hne⟩ := ih hinit
      refine ⟨ks, hks.trans (List.prefix_append ..), ?_, hne⟩
      have hbreak : trimEnd (t ++ behind ls ++ ['\n']) = trimEnd (t ++ behind ls) := by
        have hspace : isWhitespace '\n' = true := by decide
        simp [trimEnd, hspace]
      rw [hbehind, ← List.append_assoc, hbreak, htrim]
    | cons c l =>
      refine ⟨ls ++ [c :: l], List.prefix_rfl, ?_, by simp⟩
      apply trimEnd_eq_self
      rw [hbehind, ← List.append_assoc, List.getLast?_append_of_ne_nil _ (List.cons_ne_nil _ _),
        List.getLast?_cons_cons]
      exact hlast

theorem lines_behind (ht : '\n' ∉ t) (hend : t.getLast? ≠ some '\r') (hls : Tidy ls)
    (hlast : (t :: ls).getLast? ≠ some []) : lines (t ++ behind ls) = t :: ls := by
  induction ls generalizing t with
  | nil =>
    have hne : t ≠ [] := fun hnil => hlast (by rw [hnil]; rfl)
    change lines (t ++ []) = [t]
    rw [List.append_nil, lines_last ht hne]
  | cons l ls ih =>
    obtain ⟨hl, hls⟩ := List.forall_mem_cons.mp hls
    have hcons : t ++ behind (l :: ls) = t ++ '\n' :: (l ++ behind ls) := rfl
    rw [List.getLast?_cons_cons] at hlast
    rw [hcons, lines_line ht hend, ih hl.1 (Tidy.getLast?_ne hl) hls hlast]

/-- Trimmed lines that are collapsed stay as they are. -/
theorem collapseBlankLines_stable (hs : trim s = s) :
    trim (collapseBlankLines s) = collapseBlankLines s ∧
      collapseBlankLines (collapseBlankLines s) = collapseBlankLines s := by
  refine ⟨trim_trim _, ?_⟩
  cases s with
  | nil => rfl
  | cons c s =>
    have hc : isWhitespace c = false := by
      have hhead := head?_trim (c :: s)
      rw [hs] at hhead
      exact hhead c rfl
    have hbreak : c ≠ '\n' := by
      rintro rfl
      exact absurd hc (by decide)
    obtain ⟨l, ls, hlines, hhead⟩ : ∃ l ls, lines (c :: s) = l :: ls ∧ l.head? = some c := by
      rw [lines, linesFrom, if_neg hbreak]
      exact linesFrom_starts rfl hc
    have hall : ∀ l' ∈ l :: ls, '\n' ∉ l' := fun l' hl' =>
      newline_notMem_linesFrom List.not_mem_nil l' (hlines ▸ hl')
    obtain ⟨hl, hls⟩ := List.forall_mem_cons.mp hall
    -- the first line is not blank
    have hspoken : (trim l).isEmpty = false := by
      rw [List.isEmpty_eq_false_iff]
      intro hnil
      have hblank := trim_eq_nil_iff.mp hnil c (List.mem_of_mem_head? hhead)
      rw [hc] at hblank
      cases hblank
    have hfirst : (trimEnd l).head? = some c := by
      obtain ⟨u, rfl⟩ := List.head?_eq_some_iff.mp hhead
      obtain ⟨v, hv⟩ := trimEnd_prefix (c :: u)
      cases htrim : trimEnd (c :: u) with
      | nil =>
        have hnil := trim_trimEnd_eq_nil_iff.mp (by rw [htrim]; rfl)
        rw [hnil] at hspoken
        cases hspoken
      | cons d w =>
        rw [htrim, List.cons_append] at hv
        injection hv with hd
        rw [hd]
        rfl
    have hne : trimEnd l ≠ [] := by
      intro hnil
      rw [hnil] at hfirst
      cases hfirst
    have htidy := tidy_kept false hls
    have hend := getLast?_trimEnd l
    have hfree : '\n' ∉ trimEnd l := fun hmem => hl (( trimEnd_prefix l).subset hmem)
    obtain ⟨ks, hks, htrim, hlast⟩ := trimEnd_behind hend htidy
    have hstart (ks : List Str) : trimStart (trimEnd l ++ behind ks) = trimEnd l ++ behind ks := by
      apply trimStart_eq_self
      intro d hd
      rw [List.head?_append_of_ne_nil _ hne, hfirst] at hd
      cases hd
      exact hc
    have hshape (l' : Str) (ks : List Str) (hl' : trimEnd l' = trimEnd l)
        (hspoken' : (trim l').isEmpty = false) :
        collapseLines false [] (l' :: ks) = trimEnd l ++ behind (kept false ks) := by
      rw [collapseLines_cons, hspoken', Bool.false_and, if_neg Bool.false_ne_true,
        if_neg Bool.false_ne_true, if_pos rfl, List.nil_append, hl', collapseLines_eq hne]
    have hcollapsed : collapseBlankLines (c :: s) = trimEnd l ++ behind ks := by
      rw [collapseBlankLines, hlines, hshape l ls rfl hspoken, trim, hstart, htrim]
    have hagain : lines (trimEnd l ++ behind ks) = trimEnd l :: ks := by
      have hks' : Tidy ks := fun k hk => htidy k (hks.subset hk)
      refine lines_behind hfree (Tidy.getLast?_ne ⟨hfree, hend⟩) hks' ?_
      cases ks with
      | nil =>
        intro hnil
        exact hne (Option.some.inj hnil)
      | cons k ks => rwa [List.getLast?_cons_cons]
    have hkept : kept false ks = ks := kept_of_prefix (kept_kept false ls) hks
    have hspoken' : (trim (trimEnd l)).isEmpty = false := by
      rw [List.isEmpty_eq_false_iff] at hspoken ⊢
      exact mt trim_trimEnd_eq_nil_iff.mp hspoken
    have htrimmed : trim (trimEnd l ++ behind ks) = trimEnd l ++ behind ks := by
      rw [← hcollapsed, collapseBlankLines, trim_trim]
    rw [hcollapsed, collapseBlankLines, hagain, hshape _ ks (trimEnd_eq_self hend) hspoken', hkept,
      htrimmed]

end Stable

end Clawreform.Runtime.BlankLines
